import Lockstep.Proofs.Reports

/-!
# Greeters, whatever happens to their run

What a greeter does in a run that may be stopped or aborted at any time, with phases of any kind but
those with a rate.

* `Advance.strides_step`, `Pace.freely_step` : what comes of a step between two phases and of one on
  the way to the next round; nothing breaks off before some counter has come to the limit of a word;
* `Task.Sings` : where a greeter may be that goes through a schedule, after so many moves;
* `Task.Sings.step` : **a step keeps it**;
* `Task.PartsWell` : no greeter gives up its part in the barrier while the others need it.
-/

namespace Lockstep

/-! ### Between two phases -/

/-- The phase that a call is about. -/
def Call.number : Call → Nat
  | starting k => k
  | arriving k => k
  | opening k => k
  | returning k _ => k
  | closing k => k

/-- A part in the barrier that has not come beyond phase `n`. -/
structure Participant.Below (n : Nat) (p : Participant) : Prop where
  next : p.next ≤ n
  owed : ∀ k, p.owed = some k → k ≤ n

/-- No call is made about a phase beyond `n`. -/
def Advance.Below (n : Nat) : Advance → Prop
  | leaving c => c.number ≤ n
  | entering _ c => c.number ≤ n
  | passing _ _ c => c.number ≤ n
  | _ => True

theorem Participant.Below.mono {n n' : Nat} {p : Participant} (h : p.Below n) (hn : n ≤ n') :
    p.Below n' :=
  ⟨h.next.trans hn, fun k hk => (h.owed k hk).trans hn⟩

theorem Participant.Below.first {n : Nat} {p : Participant} (h : p.Below n) :
    (Advance.first p).1.Below n ∧ (Advance.first p).2.Below n := by
  cases ho : p.owed with
  | none => simp only [Advance.first, ho]; exact ⟨h, trivial⟩
  | some k =>
    simp only [Advance.first, ho]
    exact ⟨⟨h.next, by rintro _ ⟨⟩⟩, h.owed k ho⟩

theorem Advance.Below.mono {n n' : Nat} {x : Advance} (h : x.Below n) (hn : n ≤ n') :
    x.Below n' := by
  cases x <;> first | trivial | exact le_trans h hn

/-- What a step of a call about phase `k` comes to: the call stays with its phase, only fails
because the run was aborted, and only breaks off when the number of the next phase does not fit a
word. -/
def Call.Progress.Stays (k : Nat) : Progress → Prop
  | moved c => c.number = k
  | done (.error e) => ∃ cause, e = .aborted cause
  | overflow => wordLimit ≤ k + 1
  | _ => True

theorem Call.stays_step (b : Barrier) (c : Call) : (c.step b).2.Stays c.number := by
  have hanswer (k : Nat) : (Progress.done (b.answer b.signal.halt)).Stays k := by
    cases b.signal.halt <;> first | trivial | exact ⟨_, rfl⟩
  have hleft (k : Nat) : (Progress.done (leftHalted b)).Stays k := by
    unfold leftHalted
    cases b.signal.halt <;> first | trivial | exact ⟨_, rfl⟩
  cases c with
  | starting k =>
    simp only [step]
    repeat' split
    exacts [hanswer _, rfl, trivial]
  | arriving k =>
    simp only [step]
    repeat' split
    exacts [hanswer _, trivial, rfl]
  | opening k =>
    simp only [step]
    repeat' split
    exacts [hanswer _, trivial, trivial]
  | returning k wait =>
    simp only [step]
    repeat' split
    exacts [hleft _, trivial, Nat.not_lt.1 ‹_›, rfl, trivial]
  | closing k =>
    simp only [step]
    repeat' split
    exacts [hleft _, trivial, trivial]

namespace Advance

/-- What a step between two phases comes to, for an actor that goes through a schedule and has not
come beyond phase `n`; it is given how far the actor's part in the barrier has come. -/
def Progress.Strides (s : Schedule) (n : Nat) (p : Participant) : Progress → Prop
  | blocked => True
  | moved x => x.Below n
  | entered plan _ => plan ∈ s.busy
  | «over» => p.finished = true
  | failed e => ∃ cause, e = .aborted cause
  | broken _ => wordLimit ≤ n

variable {s : Schedule} {n last k : Nat} {b : Barrier} {p : Participant} {x : Advance}

theorem mem_busy_of_busyPlan? (hnum : s.IsNumbered) (hp : p.schedule = s) {plan : PhasePlan}
    (h : p.busyPlan? k = some plan) : plan ∈ s.busy := by
  rw [Participant.busyPlan?, hp, Option.filter_eq_some_iff, Bool.not_eq_true'] at h
  rw [Schedule.mem_busy_iff hnum, hnum k plan h.1]
  exact h

theorem strides_letIn (hnum : s.IsNumbered) (hp : p.schedule = s) (hbelow : p.Below n)
    (hk : k ≤ n) : (letIn b p last k).2.1.Below (n + 1) ∧
      (letIn b p last k).2.2.Strides s (n + 1) (letIn b p last k).2.1 := by
  have hnext := hbelow.next
  cases hadd : addWord? p.next 1 with
  | none =>
    simp only [letIn, hadd]
    refine ⟨hbelow.mono n.le_succ, ?_⟩
    have hlimit : wordLimit ≤ p.next + 1 := by
      by_contra hlt
      rw [addWord?_eq_some_iff.2 ⟨rfl, Nat.not_le.1 hlt⟩] at hadd
      cases hadd
    exact hlimit.trans (Nat.succ_le_succ hnext)
  | some next =>
    obtain ⟨rfl, -⟩ := addWord?_eq_some_iff.1 hadd
    have hbelow' : ({ p with next := p.next + 1 } : Participant).Below (n + 1) :=
      ⟨Nat.succ_le_succ hnext, (hbelow.mono n.le_succ).owed⟩
    simp only [letIn, hadd]
    split
    · next plan hplan =>
      split
      · exact ⟨⟨hbelow'.next, fun j hj => by cases hj; omega⟩, mem_busy_of_busyPlan? hnum hp hplan⟩
      · exact ⟨hbelow', Nat.le_succ_of_le hk⟩
    · exact ⟨hbelow', Nat.le_succ_of_le hk⟩

/-- **What comes of a step between two phases**, whether or not the run has been halted. -/
theorem strides_step (hnum : s.IsNumbered) (hp : p.schedule = s) (hbelow : p.Below n)
    (hx : x.Below n) : (x.step b p).2.1.Below (n + 1) ∧
      (x.step b p).2.2.Strides s (n + 1) (x.step b p).2.1 := by
  have hbelow' := hbelow.mono n.le_succ
  have hconclude : ({ p with finished := true } : Participant).Below (n + 1) :=
    ⟨hbelow'.next, hbelow'.owed⟩
  cases x with
  | leaving c =>
    have hstays := c.stays_step b
    simp only [step]
    generalize c.step b = y at hstays ⊢
    obtain ⟨b', _ | c' | (e | go) | _⟩ := y
    · exact ⟨hbelow', trivial⟩
    · exact ⟨hbelow', hstays.trans_le (Nat.le_succ_of_le hx)⟩
    · exact ⟨hconclude, hstays⟩
    · exact ⟨hbelow', trivial⟩
    · exact ⟨hbelow', le_trans hstays (Nat.succ_le_succ hx)⟩
  | bounding =>
    simp only [step]
    split
    · exact ⟨hconclude, rfl⟩
    · exact ⟨hbelow', trivial⟩
  | choosing last =>
    simp only [step]
    split
    · next hfinished => exact ⟨hbelow', hfinished⟩
    · split
      · exact ⟨hconclude, rfl⟩
      · exact ⟨hbelow', hbelow'.next⟩
  | entering last c =>
    have hstays := c.stays_step b
    simp only [step]
    generalize c.step b = y at hstays ⊢
    obtain ⟨b', _ | c' | (e | _ | _) | _⟩ := y
    · exact ⟨hbelow', trivial⟩
    · exact ⟨hbelow', hstays.trans_le (Nat.le_succ_of_le hx)⟩
    · exact ⟨hconclude, hstays⟩
    · exact ⟨hconclude, rfl⟩
    · exact strides_letIn hnum hp hbelow hbelow.next
    · exact ⟨hbelow', le_trans hstays (Nat.succ_le_succ hx)⟩
  | passing last k c =>
    have hstays := c.stays_step b
    simp only [step]
    generalize c.step b = y at hstays ⊢
    obtain ⟨b', _ | c' | (e | go) | _⟩ := y
    · exact ⟨hbelow', trivial⟩
    · exact ⟨hbelow', hstays.trans_le (Nat.le_succ_of_le hx)⟩
    · exact ⟨hconclude, hstays⟩
    · dsimp only
      split
      · next plan hplan => exact ⟨hbelow', mem_busy_of_busyPlan? hnum hp hplan⟩
      · exact ⟨hbelow', trivial⟩
    · exact ⟨hbelow', le_trans hstays (Nat.succ_le_succ hx)⟩

end Advance

/-! ### From round to round -/

namespace Pace

/-- The actor wants a permit. -/
def isDrawing : Pace → Bool
  | drawing _ => true
  | _ => false

/-- What a step on the way to the next round comes to where nobody needs a permit, for a stint with
`n` rounds so far. -/
def Progress.Freely (n : Nat) : Progress → Prop
  | moved p => p.isDrawing = false
  | yielded p => p.isDrawing = false
  | broken _ => wordLimit ≤ n + 1
  | _ => True

theorem isDrawing_afterPauses {plan : PhasePlan} (h : plan.rate = none) (waited : Bool) :
    (afterPauses plan waited).isDrawing = false := by
  unfold afterPauses
  rw [h]
  cases waited <;> rfl

/-- **What comes of a step on the way to the next round**, whether or not the run has been
halted. -/
theorem freely_step (now : Nat) (b : Barrier) (bucket : Option Bucket) {s : Stint} {p : Pace}
    (hrate : s.plan.rate = none) (hp : p.isDrawing = false) :
    (p.step now b bucket s).2.1.iterations ≤ s.iterations + 1 ∧
      (p.step now b bucket s).2.2.Freely s.iterations := by
  cases p with
  | drawing d => cases hp
  | asked =>
    simp only [step]
    repeat' split
    all_goals exact ⟨Nat.le_succ _, rfl⟩
  | coolingDown wake =>
    simp only [step]
    split
    · exact ⟨Nat.le_succ _, rfl⟩
    · exact ⟨Nat.le_succ _, trivial⟩
  | checking waited =>
    simp only [step]
    split
    · exact ⟨Nat.le_succ _, trivial⟩
    · exact ⟨Nat.le_succ _, rfl⟩
  | weighing waited =>
    simp only [step]
    split
    · exact ⟨Nat.le_succ _, trivial⟩
    · split
      · exact ⟨Nat.le_succ _, rfl⟩
      · exact ⟨Nat.le_succ _, isDrawing_afterPauses hrate waited⟩
  | warmingUp wake =>
    simp only [step]
    split
    · exact ⟨Nat.le_succ _, isDrawing_afterPauses hrate true⟩
    · exact ⟨Nat.le_succ _, trivial⟩
  | yielding => exact ⟨Nat.le_succ _, rfl⟩
  | deciding =>
    simp only [step]
    split
    · exact ⟨Nat.le_succ _, trivial⟩
    · split
      · next m hadd =>
        obtain ⟨rfl, -⟩ := addWord?_eq_some_iff.1 hadd
        exact ⟨le_rfl, trivial⟩
      · next hadd =>
        refine ⟨Nat.le_succ _, ?_⟩
        by_contra hlt
        rw [addWord?_eq_some_iff.2 ⟨rfl, Nat.not_le.1 hlt⟩] at hadd
        cases hadd

end Pace

/-! ### What a greeter may be at -/

namespace Greeter

/-- A greeter with the one counter goes through a schedule in which no phase has a rate, and every
greeting fits into memory. -/
structure Suits (g : Greeter) (s : Schedule) : Prop where
  counter : g.counter = 0
  numbered : s.IsNumbered
  unrated : ∀ plan ∈ s.busy, plan.rate = none
  brief : ∀ plan ∈ s.busy, ((g.messages.find? plan.number).getD "").utf8ByteSize < wordLimit

end Greeter

/-- Nothing has been counted into the operation yet. -/
structure Measurement.IsBlank (m : Measurement) : Prop where
  documents : m.documents = 0
  bytes : m.bytes = 0
  iterations : m.iterations = 0

/-- One document fits, with as many bytes as memory has room for. -/
theorem Measurement.IsBlank.add {m : Measurement} (hm : m.IsBlank) {bytes : Nat}
    (hb : bytes < wordLimit) : ∃ m', m.add? 1 bytes 0 = some m' := by
  have hfits {k : Nat} (hk : k < wordLimit) : addWord? 0 k = some k :=
    addWord?_eq_some_iff.2 ⟨Nat.zero_add k, hk⟩
  simp only [add?, hm.documents, hm.bytes, hm.iterations, hfits (show 1 < wordLimit by decide),
    hfits hb, hfits (show 0 < wordLimit by decide)]
  exact ⟨_, rfl⟩

namespace Task

/-- The task of a greeter is ready for what the greeter does at a step of its work in a phase. -/
def Serves (t : Task Mind) : Greeter.Step → Prop
  | .iterating => t.stage = .acting ∨ ∃ p, t.stage = .pacing p ∧ p.isDrawing = false
  | .beginning => t.stage = .acting
  | .bumping => t.stage = .acting ∧ ∃ m, t.measurement = some m ∧ m.IsBlank
  | .counting => t.stage = .acting ∧ ∃ m, t.measurement = some m ∧ m.IsBlank
  | .reporting => t.stage = .acting ∧ ∃ m, t.measurement = some m
  | _ => False

theorem Serves.isAtWork {t : Task Mind} {step : Greeter.Step} (h : t.Serves step) :
    t.stage.isAtWork = true := by
  cases step with
  | iterating => rcases h with hs | ⟨p, hs, -⟩ <;> rw [hs] <;> rfl
  | beginning => rw [show t.stage = .acting from h]; rfl
  | bumping => rw [h.1]; rfl
  | counting => rw [h.1]; rfl
  | reporting => rw [h.1]; rfl
  | seeking => cases h
  | ended e => cases h

/-- How the work of a greeter may end: it has finished its part in the barrier, or its sink has
refused an event, or it was told that the run was aborted. -/
def EndsAs (t : Task Mind) : Ending → Prop
  | .completed => ∀ p, t.loop = some p → p.finished = true
  | .failed (.metrics _) => True
  | .failed (.sync (.aborted _)) => True
  | _ => False

theorem EndsAs.congr {t t' : Task Mind} {e : Ending} (h : t.EndsAs e) (hl : t'.loop = t.loop) :
    t'.EndsAs e := by
  unfold EndsAs at h ⊢
  rwa [hl]

/-- Where a greeter built as `g` may be after `n` moves. -/
inductive Sounds (g : Greeter) (n : Nat) (t : Task Mind) : Prop where
  | seeks {message : String} (hm : t.mind = .greeter { g with message, step := .seeking })
      (hs : t.stage = .waiting ∨ t.stage = .acting ∨ ∃ x, t.stage = .advancing x)
  | works {message : String} {step : Greeter.Step} (hm : t.mind = .greeter { g with message, step })
      (hb : message.utf8ByteSize < wordLimit) (hserves : t.Serves step)
  | ends {message : String} {e : Ending}
      (hm : t.mind = .greeter { g with message, step := .ended e }) (he : t.EndsAs e)
      (hs : t.stage = .acting ∨ t.stage.outcome? = some (.ended e))
  /-- Some counter has come to its limit. -/
  | panics {cause : String} (hs : t.stage.outcome? = some (.ended (.panicked cause)))
      (hn : wordLimit ≤ n)

/-- What holds after `n` moves of a greeter built as `g` that goes through a schedule. -/
structure Sings (g : Greeter) (s : Schedule) (n : Nat) (t : Task Mind) : Prop where
  loop : ∀ p, t.loop = some p → p.schedule = s ∧ p.Below n
  stint : ∀ x, t.stint = some x → x.plan.rate = none ∧ x.iterations ≤ n
  advancing : ∀ x, t.stage = .advancing x → x.Below n
  sounds : t.Sounds g n

variable {g : Greeter} {s : Schedule} {n n' : Nat} {w : World} {t t' : Task Mind}

/-- A greeter that has not begun is on its way to its first phase. -/
theorem sings_fresh (hg : g.step = .seeking) (name : String) (i block : Nat) (s : Schedule) :
    (fresh name i (Mind.greeter g) (some (.fresh name i block s))).Sings g s 0 := by
  have hm : Mind.greeter g = .greeter { g with message := g.message, step := .seeking } := by
    rw [← hg]
  refine ⟨fun p hp => ?_, by rintro _ ⟨⟩, by rintro _ ⟨⟩, .seeks hm (.inl rfl)⟩
  cases hp
  exact ⟨rfl, le_rfl, by rintro _ ⟨⟩⟩

theorem Sings.mono (h : t.Sings g s n) (hn : n ≤ n') : t.Sings g s n' where
  loop p hp := (h.loop p hp).imp_right (·.mono hn)
  stint x hx := (h.stint x hx).imp_right (·.trans hn)
  advancing x hx := (h.advancing x hx).mono hn
  sounds := by
    cases h.sounds with
    | seeks hm hs => exact .seeks hm hs
    | works hm hb hserves => exact .works hm hb hserves
    | ends hm he hs => exact .ends hm he hs
    | panics hs hlimit => exact .panics hs (hlimit.trans hn)

/-! ### Steps of a greeter -/

/-- At its own work a greeter is on its way nowhere else. -/
theorem Sings.toStage (h : t.Sings g s n) (hl : t'.loop = t.loop)
    (hx : ∀ x, t'.stint = some x → t.stint = some x) (hs : t'.stage.isAdvancing = false)
    (hsounds : t'.Sounds g n) : t'.Sings g s n where
  loop p hp := h.loop p (hl ▸ hp)
  stint x hx' := h.stint x (hx x hx')
  advancing x hx' := by rw [hx'] at hs; cases hs
  sounds := hsounds

/-- A greeter has heard something and goes on with its work. -/
theorem Sings.told {now : Nat} {y : Reply} (h : t.Sings g s n) (hl : t'.loop = t.loop)
    (hx : ∀ x, t'.stint = some x → t.stint = some x) (hsounds : (t'.tell now y).Sounds g n) :
    (moves w (t'.tell now y)).task.Sings g s n :=
  h.toStage hl hx rfl hsounds

/-- The work of a greeter ends. -/
theorem Sings.conclude (h : t.Sings g s n) (hl : t.lifecycle = .running) {e : Ending}
    (hsounds : ∀ t' : Task Mind, t'.mind = t.mind → t'.loop = t.loop →
      t'.stage.outcome? = some (.ended e) → t'.Sounds g n) :
    (Task.conclude w t e).task.Sings g s n := by
  simp only [Task.conclude, hl, Lifecycle.terminate]
  exact h.toStage rfl (fun _ hx => hx) rfl (hsounds _ rfl rfl rfl)

/-- A greeter on its way to the next phase. -/
theorem Sings.seek (h : t.Sings g s n) {message : String}
    (hm : t.mind = .greeter { g with message, step := .seeking }) :
    (t.obey w .nextPhase).task.Sings g s n := by
  cases hp : t.loop with
  | none =>
    simp only [Task.obey, hp]
    exact h.told hp.symm (by rintro _ ⟨⟩) (.ends (mind_tell hm _ _) (by rintro _ ⟨⟩) (.inl rfl))
  | some p =>
    obtain ⟨hschedule, hbelow⟩ := h.loop p hp
    obtain ⟨hbelow', hx⟩ := hbelow.first
    simp only [Task.obey, hp]
    refine ⟨fun p' hp' => ?_, by rintro _ ⟨⟩, fun x hx' => ?_, .seeks hm (.inr (.inr ⟨_, rfl⟩))⟩
    · cases hp'
      exact ⟨(Advance.keeps_first p).schedule.trans hschedule, hbelow'⟩
    · cases hx'
      exact hx

/-- What a greeter does while it works in a phase. -/
theorem Sings.work (h : t.Sings g s n) {message : String} {step : Greeter.Step}
    (hm : t.mind = .greeter { g with message, step }) (hb : message.utf8ByteSize < wordLimit)
    (hserves : t.Serves step) : (t.obey w (Behaviour.ask t.mind)).task.Sings g s n := by
  have hstay {t' : Task Mind} (hx : t'.stint = t.stint) :
      ∀ x, t'.stint = some x → t.stint = some x :=
    fun _ hx' => hx ▸ hx'
  rw [hm]
  cases step with
  | iterating =>
    change (t.obey w .iterate).task.Sings g s n
    cases hst : t.stint with
    | none =>
      simp only [Task.obey, hst]
      exact h.told rfl (hstay rfl) (.seeks (mind_tell hm _ _) (.inr (.inl rfl)))
    | some x =>
      simp only [Task.obey, hst]
      exact h.toStage rfl (fun _ hx => hst.trans hx) rfl (.works hm hb (.inr ⟨_, rfl, rfl⟩))
  | beginning =>
    change (t.obey w (.begin _)).task.Sings g s n
    simp only [Task.obey]
    exact h.told rfl (hstay rfl) (.works (mind_tell hm _ _) hb ⟨rfl, _, rfl, rfl, rfl, rfl⟩)
  | bumping =>
    obtain ⟨-, m, hx, hblank⟩ := hserves
    change (t.obey w (.bump _ _)).task.Sings g s n
    exact h.told rfl (hstay rfl) (.works (mind_tell hm _ _) hb ⟨rfl, m, hx, hblank⟩)
  | counting =>
    obtain ⟨-, m, hx, hblank⟩ := hserves
    obtain ⟨m', hadd⟩ := hblank.add hb
    change (t.obey w (.count 1 message.utf8ByteSize 0)).task.Sings g s n
    simp only [Task.obey, hx, hadd]
    exact h.told rfl (hstay rfl) (.works (mind_tell hm _ _) hb ⟨rfl, m', rfl⟩)
  | reporting =>
    obtain ⟨-, m, hx⟩ := hserves
    change (t.obey w (.report _)).task.Sings g s n
    simp only [Task.obey, hx]
    generalize (w.sink.report m .success w.now).2 = y
    cases y with
    | ok u => exact h.told rfl (hstay rfl) (.works (mind_tell hm _ _) hb (.inl rfl))
    | error err =>
      exact h.told rfl (hstay rfl) (.ends (e := .failed (.metrics err)) (mind_tell hm _ _) trivial
        (.inl rfl))
  | seeking => cases hserves
  | ended e => cases hserves

/-- What a greeter asks for. -/
theorem Sings.obey (h : t.Sings g s n) (hs : t.stage = .acting) (hl : t.lifecycle = .running) :
    (t.obey w (Behaviour.ask t.mind)).task.Sings g s n := by
  cases h.sounds with
  | seeks hm _ =>
    rw [hm]
    exact h.seek hm
  | works hm hb hserves => exact h.work hm hb hserves
  | @ends message e hm he _ =>
    rw [hm]
    exact h.conclude hl fun t' hm' hl' hs' => .ends (hm'.trans hm) (he.congr hl') (.inr hs')
  | panics hs' _ => rw [hs] at hs'; cases hs'

/-- A greeter between two phases. -/
theorem Sings.advance (h : t.Sings g s n) (hsuits : g.Suits s) {message : String}
    (hm : t.mind = .greeter { g with message, step := .seeking }) {x : Advance}
    (hs : t.stage = .advancing x) (hl : t.lifecycle = .running) :
    (t.advance w x).task.Sings g s (n + 1) := by
  cases hp : t.loop with
  | none =>
    simp only [Task.advance, hp]
    exact (h.mono n.le_succ).told rfl (fun _ hx => hx)
      (.ends (mind_tell hm _ _) (fun p hp' => by cases hp.symm.trans hp') (.inl rfl))
  | some p =>
    obtain ⟨hschedule, hbelow⟩ := h.loop p hp
    have hstrides := Advance.strides_step (b := w.barrier) hsuits.numbered hschedule hbelow
      (h.advancing x hs)
    have hkeeps := (Advance.keeps_step w.barrier p x).schedule
    simp only [Task.advance, hp]
    generalize x.step w.barrier p = y at hstrides hkeeps ⊢
    obtain ⟨b', p', r⟩ := y
    obtain ⟨hbelow', hr⟩ := hstrides
    have hwith {t' : Task Mind} (hl' : t'.loop = some p')
        (hx : ∀ x, t'.stint = some x → x.plan.rate = none ∧ x.iterations ≤ n + 1)
        (hadv : ∀ x, t'.stage = .advancing x → x.Below (n + 1)) (hsounds : t'.Sounds g (n + 1)) :
        t'.Sings g s (n + 1) :=
      ⟨fun q hq => by cases hl'.symm.trans hq; exact ⟨hkeeps.trans hschedule, hbelow'⟩, hx, hadv,
        hsounds⟩
    have hstint := (h.mono n.le_succ).stint
    cases r with
    | blocked =>
      exact hwith rfl hstint (h.mono n.le_succ).advancing (.seeks hm (.inr (.inr ⟨x, hs⟩)))
    | moved y =>
      exact hwith rfl hstint (fun z hz => by cases hz; exact hr) (.seeks hm (.inr (.inr ⟨y, rfl⟩)))
    | entered plan last =>
      refine hwith rfl (fun z hz => ?_) (by rintro _ ⟨⟩)
        (.works (mind_tell hm _ _) (hsuits.brief plan hr) (.inl rfl))
      cases hz
      exact ⟨hsuits.unrated plan hr, Nat.zero_le _⟩
    | «over» =>
      exact hwith rfl hstint (by rintro _ ⟨⟩)
        (.ends (mind_tell hm _ _) (fun q hq => by cases hq; exact hr) (.inl rfl))
    | failed e =>
      obtain ⟨cause, rfl⟩ := hr
      exact hwith rfl hstint (by rintro _ ⟨⟩)
        (.ends (e := .failed (.sync (.aborted cause))) (mind_tell hm _ _) trivial (.inl rfl))
    | broken cause =>
      simp only [Task.conclude, hl, Lifecycle.terminate]
      exact hwith rfl hstint (by rintro _ ⟨⟩) (.panics rfl hr)

/-- A greeter on its way to the next round. -/
theorem Sings.pace (h : t.Sings g s n) {message : String}
    (hm : t.mind = .greeter { g with message, step := .iterating })
    (hb : message.utf8ByteSize < wordLimit) {p : Pace} (hs : t.stage = .pacing p)
    (hp : p.isDrawing = false) (hl : t.lifecycle = .running) :
    (t.pace w p).task.Sings g s (n + 1) := by
  have hmono := h.mono n.le_succ
  cases hst : t.stint with
  | none =>
    simp only [Task.pace, hst]
    exact hmono.told rfl (fun _ hx => hx) (.seeks (mind_tell hm _ _) (.inr (.inl rfl)))
  | some x =>
    obtain ⟨hrate, hle⟩ := h.stint x hst
    have hfreely := Pace.freely_step w.now w.barrier
      (w.bucket? (t.loop.elim 0 Participant.block) x.plan.number) hrate hp
    have hplan := plan_paceStep w.now w.barrier
      (w.bucket? (t.loop.elim 0 Participant.block) x.plan.number) x p
    simp only [Task.pace, hst]
    generalize Pace.step _ _ _ x p = y at hfreely hplan ⊢
    obtain ⟨bucket, x', r⟩ := y
    obtain ⟨hle', hr⟩ := hfreely
    have hwith {t' : Task Mind} (hl' : t'.loop = t.loop) (hx : t'.stint = some x')
        (hadv : t'.stage.isAdvancing = false) (hsounds : t'.Sounds g (n + 1)) :
        t'.Sings g s (n + 1) := by
      refine ⟨fun q hq => hmono.loop q (hl' ▸ hq), fun z hz => ?_, fun z hz => ?_, hsounds⟩
      · cases hx.symm.trans hz
        exact ⟨hplan ▸ hrate, hle'.trans (Nat.succ_le_succ hle)⟩
      · rw [hz] at hadv
        cases hadv
    cases r with
    | blocked => exact hwith rfl rfl (by rw [hs]; rfl) (.works hm hb (.inr ⟨p, hs, hp⟩))
    | moved p' => exact hwith rfl rfl rfl (.works hm hb (.inr ⟨p', rfl, hr⟩))
    | yielded p' => exact hwith rfl rfl rfl (.works hm hb (.inr ⟨p', rfl, hr⟩))
    | answered granted =>
      cases granted with
      | true => exact hwith rfl rfl rfl (.works (mind_tell hm _ _) hb rfl)
      | false => exact hwith rfl rfl rfl (.seeks (mind_tell hm _ _) (.inr (.inl rfl)))
    | broken cause =>
      simp only [Task.conclude, hl, Lifecycle.terminate]
      exact hwith rfl rfl rfl (.panics rfl (le_trans hr (Nat.succ_le_succ hle)))

/-- **A step of a greeter keeps it**, whether or not the run has been halted. -/
theorem Sings.step (h : t.Sings g s n) (hsuits : g.Suits s) (hreg : t.IsRegular) :
    (t.step w).task.Sings g s (n + 1) := by
  have hlife := hreg.lifecycle
  have hacts (hs : t.stage = .acting) : (t.step w).task.Sings g s (n + 1) := by
    rw [step_acting hs]
    exact (h.obey hs (hlife.trans (by rw [hs]; rfl))).mono n.le_succ
  have hquits {res : Result} (hs : t.stage.outcome? = some res)
      (hsounds : (t.step w).task.mind = t.mind → (t.step w).task.stage.outcome? = some res →
        (t.step w).task.Sounds g (n + 1)) : (t.step w).task.Sings g s (n + 1) := by
    obtain ⟨hs', hmind, -⟩ := step_of_outcome (w := w) hs
    obtain ⟨hloop, hstint⟩ := loop_of_outcome (w := w) hs
    refine ⟨fun p hp => (h.mono n.le_succ).loop p (hloop p hp), ?_, fun x hx => ?_,
      hsounds hmind hs'⟩
    · rw [hstint]
      exact (h.mono n.le_succ).stint
    · rw [hx] at hs'
      cases hs'
  cases h.sounds with
  | seeks hm hs =>
    rcases hs with hs | hs | ⟨x, hs⟩
    · have hnew : t.lifecycle = .constructed := hlife.trans (by rw [hs]; rfl)
      simp only [Task.step, hs, hnew, Lifecycle.start]
      exact (h.mono n.le_succ).toStage rfl (fun _ hx => hx) rfl (.seeks hm (.inr (.inl rfl)))
    · exact hacts hs
    · simp only [Task.step, hs]
      exact h.advance hsuits hm hs (hlife.trans (by rw [hs]; rfl))
  | @works message step hm hb hserves =>
    cases step with
    | iterating =>
      rcases hserves with hs | ⟨p, hs, hp⟩
      · exact hacts hs
      · simp only [Task.step, hs]
        exact h.pace hm hb hs hp (hlife.trans (by rw [hs]; rfl))
    | beginning => exact hacts hserves
    | bumping => exact hacts hserves.1
    | counting => exact hacts hserves.1
    | reporting => exact hacts hserves.1
    | seeking => cases hserves
    | ended e => cases hserves
  | ends hm he hs =>
    rcases hs with hs | hs
    · exact hacts hs
    · refine hquits hs fun hm' hs' => .ends (hm'.trans hm) ?_ (.inr hs')
      have hloop := (loop_of_outcome (w := w) hs).1
      unfold EndsAs at he ⊢
      split at he
      · exact fun p hp => he p (hloop p hp)
      · trivial
      · trivial
      · cases he
  | panics hs hn => exact hquits hs fun _ hs' => .panics hs' (hn.trans n.le_succ)

/-- A greeter never gives up its part in the barrier before its work has ended. -/
theorem Sings.not_leaving (h : t.Sings g s n) (f : Farewell) : t.stage ≠ .leaving f := by
  intro hf
  cases h.sounds with
  | seeks _ hs => rcases hs with hs | hs | ⟨x, hs⟩ <;> cases hf.symm.trans hs
  | works _ _ hserves =>
    have hwork := hserves.isAtWork
    rw [hf] at hwork
    cases hwork
  | ends _ _ hs =>
    rcases hs with hs | hs
    · cases hf.symm.trans hs
    · rw [hf] at hs; cases hs
  | panics hs _ => rw [hf] at hs; cases hs

/-! ### Giving up a part in the barrier -/

/-- A part in the barrier is given up only when it has been finished or the run has been halted. -/
def PartsWell (b : Barrier) (t : Task Mind) : Prop := ∀ r f, t.stage = .parting r f →
  f = .checking ∧ ∀ p, t.loop = some p → p.finished = true ∨ b.signal.halt ≠ .running

/-- Nobody deserts the others. -/
theorem PartsWell.mark?_ne (h : t.PartsWell w.barrier) (hsings : t.Sings g s n) :
    t.mark? w.barrier ≠ some .desertion := by
  intro hm
  unfold mark? at hm
  split at hm
  · simp only [Advance.mark?] at hm
    split at hm
    · obtain ⟨c, -, hc⟩ := Option.bind_eq_some_iff.1 hm
      cases c <;> cases hc
    · cases hm
  · next f p hs _ => exact hsings.not_leaving f hs
  · next r f p hs hp =>
    obtain ⟨rfl, hwell⟩ := h r f hs
    simp only [Farewell.mark?] at hm
    split at hm
    · next hmissed =>
      simp only [Bool.and_eq_true, Bool.not_eq_true', Barrier.goesOn, decide_eq_true_eq] at hmissed
      rcases hwell p hp with hfinished | hhalted
      · rw [hmissed.1.1] at hfinished; cases hfinished
      · exact hhalted hmissed.2.1
    · cases hm
  · cases hm
  · cases hm

/-- Somebody who does not abort the run has no reason to. -/
theorem Sings.of_accusation_eq_none (h : t.Sings g s n) {res : Result}
    (hs : t.stage.outcome? = some res) (ha : accusation w.barrier res = none) :
    ∀ p, t.loop = some p → p.finished = true ∨ w.barrier.signal.halt ≠ .running := by
  intro p hp
  cases h.sounds with
  | seeks _ hs' => rcases hs' with hs' | hs' | ⟨x, hs'⟩ <;> rw [hs'] at hs <;> cases hs
  | works _ _ hserves => rw [Stage.outcome?_of_isAtWork hserves.isAtWork] at hs; cases hs
  | panics hs' _ => cases hs.symm.trans hs'; cases ha
  | ends _ he hs' =>
    rcases hs' with hs' | hs'
    · rw [hs'] at hs; cases hs
    · cases hs.symm.trans hs'
      unfold EndsAs at he
      split at he
      · exact .inl (he p hp)
      · simp [accusation, ActorError.isAftermath] at ha
      · simp only [accusation, ActorError.isAftermath, Bool.true_and] at ha
        split at ha
        · next haborted =>
          refine .inr fun hr => ?_
          rw [Barrier.isAborted, hr] at haborted
          cases haborted
        · cases ha
      · cases he

/-- **A step of a greeter keeps it.** -/
theorem PartsWell.step (h : t.PartsWell w.barrier) (hsings : t.Sings g s n) (hreg : t.IsRegular)
    (hb : w.barrier.IsHonest) : (t.step w).task.PartsWell (t.step w).world.barrier := by
  have hturn := turn_step w t
  have hreg' := hreg.turn hturn
  intro r f hf
  have hrefused {state : Lifecycle} (hr : r = .refused state) : False :=
    hreg'.unrefused state (by rw [hf, hr]; rfl)
  -- only somebody who is refused parts when the work ends
  have hconclude {w' : World} {t' : Task Mind} {e : Ending}
      (hs : (Task.conclude w' t' e).task.stage = .parting r f) : False := by
    unfold Task.conclude at hs
    split at hs
    · cases hs
    · cases hs; exact hrefused rfl
  generalize (t.step w).task = t', (t.step w).world.barrier = b' at hturn hf ⊢
  cases hturn with
  | works hs hw =>
    cases hw with
    | goesOn hk hs' => rw [hf] at hs'; cases hs'
    | departs _ _ => cases hf
    | quits hq =>
      cases hq with
      | leaves hk hs' => cases hf.symm.trans hs'
      | ends w' e hk he => exact (hconclude hf).elim
  | begins _ _ => cases hf
  | refuses _ _ => cases hf; exact (hrefused rfl).elim
  | advances hs hp hadv =>
    generalize (Advance.step _ _ _).2.1 = p', (Advance.step _ _ _).2.2 = y at hadv
    cases hadv with
    | blocked => cases hs.symm.trans hf
    | broken w' message => exact (hconclude hf).elim
    | _ => cases hf
  | acquits hs hacc =>
    cases hf
    exact ⟨rfl, hsings.of_accusation_eq_none (by rw [hs]; rfl) hacc⟩
  | @accuses res failure hs =>
    cases hf
    refine ⟨rfl, fun p hp => .inr ?_⟩
    rw [(hb.abort failure).1]
    decide
  | @parts res f₀ f' p hs hp hstep =>
    cases hf
    obtain ⟨rfl, hwell⟩ := h _ _ hs
    simp only [Farewell.step] at hstep
    split at hstep
    · next hmissed =>
      simp only [Bool.and_eq_true, Bool.not_eq_true', Barrier.goesOn, decide_eq_true_eq] at hmissed
      rcases hwell p hp with hfinished | hhalted
      · rw [hmissed.1.1] at hfinished; cases hfinished
      · exact absurd hmissed.2.1 hhalted
    · cases hstep
  | rests hs => cases hs.symm.trans hf
  | _ => cases hf

/-- The task is a greeter that goes through some schedule without rates, after at most `n` moves. -/
def IsSinging (n : Nat) (t : Task Mind) : Prop := ∃ g s, g.Suits s ∧ t.Sings g s n

theorem IsSinging.mono (h : t.IsSinging n) (hn : n ≤ n') : t.IsSinging n' := by
  obtain ⟨g, s, hsuits, hsings⟩ := h
  exact ⟨g, s, hsuits, hsings.mono hn⟩

theorem IsSinging.step (h : t.IsSinging n) (hreg : t.IsRegular) :
    (t.step w).task.IsSinging (n + 1) := by
  obtain ⟨g, s, hsuits, hsings⟩ := h
  exact ⟨g, s, hsuits, hsings.step hsuits hreg⟩

end Task

end Lockstep
