import Lockstep.Task

/-!
# What a task can do in one step

A task has many stages and an actor many things to ask for.  For what the tasks share, and for an
actor's part in the barrier, only few of the differences count.

* `Task.Keeps` : nothing has changed but what the actor keeps to itself;
* `Task.Worked` : what may come of a step of an actor that is at work, and `Task.Quits` in
  particular when it will not go on to another phase;
* `Task.Advanced` : what comes of a step between two phases;
* `Task.Turn` : **what comes of a step of a task** (`Task.turn_step`), wherever the task is;
  `Task.interrupt_worked` says what comes of calling it away.

`Unwarned` follows an actor's mind as long as nobody tells it that the run has been aborted.
-/

namespace Lockstep

/-- The answer says that the run has been aborted. -/
def Reply.isWarning : Reply → Bool
  | .halted (.aborted _) => true
  | _ => false

section

variable {σ : Type} [Behaviour σ]

/-- A mind comes from another one by answers none of which says that the run has been aborted. -/
inductive Unwarned (m : σ) : σ → Prop where
  | start : Unwarned m m
  | hear {m' : σ} (h : Unwarned m m') (now : Nat) {r : Reply} (hr : r.isWarning = false) :
      Unwarned m (Behaviour.hear m' now r)

theorem Unwarned.trans {m m' m'' : σ} (h : Unwarned m m') (h' : Unwarned m' m'') :
    Unwarned m m'' := by
  induction h' with
  | start => exact h
  | hear _ now hr ih => exact ih.hear now hr

end

/-- The actor is at its own work. -/
def Stage.isAtWork : Stage → Bool
  | acting => true
  | pacing _ => true
  | asleep _ => true
  | _ => false

/-! ### Calls -/

namespace Call

variable {b : Barrier}

/-- At a barrier that is halted every call ends, and lets nobody into a phase. -/
theorem step_of_halted (hr : b.signal.halt ≠ .running) (c : Call) :
    ∃ r, c.step b = (b, .done r) ∧ r ≠ .ok true := by
  have hanswer : b.answer b.signal.halt ≠ .ok true := by
    cases hh : b.signal.halt <;> simp_all [Barrier.answer]
  have hleft : leftHalted b ≠ .ok true := by
    unfold leftHalted
    cases b.answer b.signal.halt <;> simp [Except.map]
  cases c with
  | starting k => exact ⟨_, by simp only [step, if_pos hr], hanswer⟩
  | arriving k => exact ⟨_, by simp only [step, if_pos hr], hanswer⟩
  | opening k => exact ⟨_, by simp only [step, if_pos hr], hanswer⟩
  | returning k wait => exact ⟨_, by simp only [step, if_pos hr], hleft⟩
  | closing k => exact ⟨_, by simp only [step, if_pos hr], hleft⟩

theorem isReady_of_halted {s : Signal} (hr : s.halt ≠ .running) (c : Call) :
    c.isReady s = true := by
  cases c <;> simp [isReady, hr]

theorem step_starting (hr : b.signal.halt = .running) (k : Nat) :
    (starting k).step b = (b, if b.signal.phase = k ∧ b.signal.isOpen = false then
      .moved (.arriving k) else .blocked) := by
  simp only [step, hr, ne_eq, not_true_eq_false, if_false]
  split <;> rfl

theorem step_arriving (hr : b.signal.halt = .running) (k : Nat) :
    (arriving k).step b =
      (b.arrive, if b.opensNow = true then .done (.ok true) else .moved (.opening k)) := by
  simp only [step, hr, ne_eq, not_true_eq_false, if_false]
  split <;> rfl

theorem step_opening (hr : b.signal.halt = .running) (k : Nat) :
    (opening k).step b = (b, if b.signal.phase = k ∧ b.signal.isOpen = true then
      .done (.ok true) else .blocked) := by
  simp only [step, hr, ne_eq, not_true_eq_false, if_false]
  split <;> rfl

theorem step_returning (hr : b.signal.halt = .running) {k : Nat} (hk : k + 1 < wordLimit)
    (wait : Bool) :
    (returning k wait).step b = (b.handBack k, if b.closesNow = false ∧ wait = true then
      .moved (.closing k) else .done (.ok (b.hasAfter k))) := by
  simp only [step, hr, ne_eq, not_true_eq_false, if_false, if_pos hk]
  cases b.closesNow <;> cases wait <;> simp

theorem step_closing (hr : b.signal.halt = .running) (k : Nat) :
    (closing k).step b =
      (b, if k < b.signal.phase then .done (.ok (b.hasAfter k)) else .blocked) := by
  simp only [step, hr, ne_eq, not_true_eq_false, if_false]
  split <;> rfl

end Call

/-! ### Parts in the barrier -/

/-- The same part in the barrier, wherever it has come to. -/
structure Participant.Keeps (p p' : Participant) : Prop where
  actor : p'.actor = p.actor
  id : p'.id = p.id
  schedule : p'.schedule = p.schedule

namespace Advance

theorem keeps_first (p : Participant) : p.Keeps (first p).1 := by
  unfold first
  split <;> exact ⟨rfl, rfl, rfl⟩

theorem keeps_letIn (b : Barrier) (p : Participant) (last k : Nat) :
    p.Keeps (letIn b p last k).2.1 := by
  simp only [letIn]
  repeat' split
  all_goals exact ⟨rfl, rfl, rfl⟩

theorem keeps_step (b : Barrier) (p : Participant) (x : Advance) :
    p.Keeps (x.step b p).2.1 := by
  cases x <;> simp only [step] <;> repeat' split
  all_goals first | exact keeps_letIn _ _ _ _ | exact ⟨rfl, rfl, rfl⟩

end Advance

namespace Task

variable {σ : Type} [Behaviour σ]

/-! ### What a step comes to -/

/-- Nothing has changed but what the actor keeps to itself: its mind, its measurement, and how far
it has come in its phase, which it may also have left. -/
structure Keeps (t t' : Task σ) : Prop where
  name : t'.name = t.name
  id : t'.id = t.id
  lifecycle : t'.lifecycle = t.lifecycle
  loop : t'.loop = t.loop
  mind : Unwarned t.mind t'.mind
  stint : ∀ s', t'.stint = some s' → ∃ s, t.stint = some s ∧ s'.plan = s.plan

/-- The actor will not go on to another phase. -/
inductive Quits (t : Task σ) : Task σ → Prop where
  /-- It gives up its part in the barrier. -/
  | leaves {t' : Task σ} (h : t.Keeps t') (hs : t'.stage = .leaving .checking) : Quits t t'
  /-- Its work ends, as it wants or by a panic. -/
  | ends {t' : Task σ} (w : World) (e : Ending) (h : t.Keeps t')
      (he : Behaviour.ask t'.mind = .finish e ∨ ∃ m, e = .panicked m) :
      Quits t (conclude w t' e).task

/-- What may come of a step of an actor at work. -/
inductive Worked (t : Task σ) : Task σ → Prop where
  | goesOn {t' : Task σ} (h : t.Keeps t') (hs : t'.stage.isAtWork = true) : Worked t t'
  /-- It is on its way to the next phase. -/
  | departs {p : Participant} (hs : t.stage = .acting) (hp : t.loop = some p) :
      Worked t { t with
        loop := some (Advance.first p).1
        stint := none
        stage := .advancing (Advance.first p).2 }
  | quits {t' : Task σ} (h : t.Quits t') : Worked t t'

theorem Keeps.refl (t : Task σ) : t.Keeps t :=
  ⟨rfl, rfl, rfl, rfl, .start, fun s hs => ⟨s, hs, rfl⟩⟩

theorem Keeps.tell {t t' : Task σ} (h : t.Keeps t') (now : Nat) {r : Reply}
    (hr : r.isWarning = false) : t.Keeps (t'.tell now r) :=
  ⟨h.name, h.id, h.lifecycle, h.loop, h.mind.hear now hr, h.stint⟩

/-- An actor that has heard something goes on with its work. -/
theorem Worked.tell {t t' : Task σ} (h : t.Keeps t') (now : Nat) {r : Reply}
    (hr : r.isWarning = false) : t.Worked (t'.tell now r) :=
  .goesOn (h.tell now hr) rfl

/-! ### Actors at work -/

theorem step_acting {w : World} {t : Task σ} (hs : t.stage = .acting) :
    t.step w = t.obey w (Behaviour.ask t.mind) := by
  simp only [step, hs]

theorem obey_worked {w : World} {t : Task σ} (hs : t.stage = .acting) {q : Ask}
    (hq : Behaviour.ask t.mind = q) :
    (t.obey w q).world.barrier = w.barrier ∧ t.Worked (t.obey w q).task := by
  -- the phase may be left, and the operation under way may change
  have hleft (s : Option Measurement) : t.Keeps { t with stint := none, measurement := s } :=
    ⟨rfl, rfl, rfl, rfl, .start, nofun⟩
  have hmeasured (s : Option Measurement) : t.Keeps { t with measurement := s } :=
    ⟨rfl, rfl, rfl, rfl, .start, fun s hs => ⟨s, hs, rfl⟩⟩
  cases q with
  | nextPhase =>
    cases hp : t.loop with
    | none =>
      simp only [obey, hp]
      exact ⟨rfl, .tell (hp ▸ hleft t.measurement) _ rfl⟩
    | some p =>
      simp only [obey, hp]
      exact ⟨rfl, .departs hs hp⟩
  | iterate =>
    cases hst : t.stint with
    | none =>
      simp only [obey, hst]
      exact ⟨rfl, .tell (.refl t) _ rfl⟩
    | some s =>
      simp only [obey, hst]
      exact ⟨rfl, .goesOn
        ⟨rfl, rfl, rfl, rfl, .start, fun s' hs' => ⟨s', hst.trans hs', rfl⟩⟩ rfl⟩
  | pause d => exact ⟨rfl, .goesOn ⟨rfl, rfl, rfl, rfl, .start, fun s hs => ⟨s, hs, rfl⟩⟩ rfl⟩
  | begin o => exact ⟨rfl, .tell (hmeasured _) _ rfl⟩
  | count documents bytes iterations =>
    cases hm : t.measurement with
    | none =>
      simp only [obey, hm]
      exact ⟨rfl, .tell (.refl t) _ rfl⟩
    | some m =>
      simp only [obey, hm]
      cases m.add? documents bytes iterations with
      | none => exact ⟨by simp, .quits (.ends w _ (.refl t) (.inr ⟨_, rfl⟩))⟩
      | some m => exact ⟨rfl, .tell (hmeasured _) _ rfl⟩
  | report o =>
    cases hm : t.measurement with
    | none =>
      simp only [obey, hm]
      exact ⟨rfl, .tell (.refl t) _ rfl⟩
    | some m =>
      simp only [obey, hm]
      exact ⟨rfl, .tell (hmeasured none) _ rfl⟩
  | discard => exact ⟨rfl, .tell (hmeasured none) _ rfl⟩
  | bump ref n => exact ⟨rfl, .tell (.refl t) _ rfl⟩
  | isFinished => exact ⟨rfl, .tell (hleft t.measurement) _ rfl⟩
  | leave => exact ⟨rfl, .quits (.leaves ⟨rfl, rfl, rfl, rfl, .start, nofun⟩ rfl)⟩
  | rest => exact ⟨rfl, .goesOn (.refl t) (by rw [obey, hs]; rfl)⟩
  | finish e => exact ⟨by simp [obey], .quits (.ends w e (.refl t) (.inl hq))⟩

omit [Behaviour σ] in
theorem plan_paceStep (now : Nat) (b : Barrier) (bucket : Option Bucket) (s : Stint) (p : Pace) :
    (p.step now b bucket s).2.1.plan = s.plan := by
  cases p <;> simp only [Pace.step] <;> repeat' split
  all_goals rfl

omit [Behaviour σ] in
theorem barrier_putBucket (w : World) (block phase : Nat) (b : Option Bucket) :
    (b.elim w (w.putBucket block phase)).barrier = w.barrier := by
  cases b <;> rfl

theorem pace_worked {w : World} {t : Task σ} {p : Pace} (hs : t.stage = .pacing p) :
    (t.pace w p).world.barrier = w.barrier ∧ t.Worked (t.pace w p).task := by
  cases hst : t.stint with
  | none =>
    simp only [pace, hst]
    exact ⟨rfl, .tell (.refl t) _ rfl⟩
  | some s =>
    simp only [pace, hst]
    have hplan := plan_paceStep w.now w.barrier
      (w.bucket? (t.loop.elim 0 Participant.block) s.plan.number) s p
    generalize Pace.step _ _ _ s p = r at hplan ⊢
    obtain ⟨bucket, s', r⟩ := r
    have hkeeps (g : Stage) : t.Keeps { t with stint := some s', stage := g } :=
      ⟨rfl, rfl, rfl, rfl, .start, fun s₁ hs₁ => ⟨s, hst, by cases hs₁; exact hplan⟩⟩
    have hw := barrier_putBucket w (t.loop.elim 0 Participant.block) s.plan.number bucket
    cases r with
    | blocked => exact ⟨hw, .goesOn (hkeeps t.stage) (by simp only [hs, Stage.isAtWork])⟩
    | moved p => exact ⟨hw, .goesOn (hkeeps (.pacing p)) rfl⟩
    | yielded p => exact ⟨hw, .goesOn (hkeeps (.pacing p)) rfl⟩
    | answered granted => exact ⟨hw, .tell (hkeeps t.stage) _ rfl⟩
    | broken message =>
      exact ⟨by simpa using hw, .quits (.ends _ _ (hkeeps t.stage) (.inr ⟨_, rfl⟩))⟩

/-! ### Actors between two phases -/

/-- What comes of a step between two phases, for the actor's part in the barrier after the step and
what the step has come to. -/
inductive Advanced (t : Task σ) (p : Participant) : Advance.Progress → Task σ → Prop where
  | blocked : Advanced t p .blocked { t with loop := some p }
  | moved (a : Advance) : Advanced t p (.moved a) { t with loop := some p, stage := .advancing a }
  | entered (plan : PhasePlan) (last now : Nat) : Advanced t p (.entered plan last)
      (tell now { t with loop := some p, stint := some (.begin plan last now) }
        (.phase (some plan)))
  | finishes (now : Nat) : Advanced t p .over (tell now { t with loop := some p } (.phase none))
  | failed (now : Nat) (e : SyncError) :
      Advanced t p (.failed e) (tell now { t with loop := some p } (.halted e))
  | broken (w : World) (message : String) : Advanced t p (.broken message)
      (conclude w { t with loop := some p } (.panicked message)).task

theorem advance_advanced (w : World) {t : Task σ} (a : Advance) {p : Participant}
    (hp : t.loop = some p) :
    (t.advance w a).world.barrier = (a.step w.barrier p).1 ∧
      t.Advanced (a.step w.barrier p).2.1 (a.step w.barrier p).2.2 (t.advance w a).task := by
  simp only [advance, hp]
  generalize a.step w.barrier p = r
  obtain ⟨b, p', r⟩ := r
  cases r with
  | blocked => exact ⟨rfl, .blocked⟩
  | moved a => exact ⟨rfl, .moved a⟩
  | entered plan last => exact ⟨rfl, .entered plan last _⟩
  | «over» => exact ⟨rfl, .finishes _⟩
  | failed e => exact ⟨rfl, .failed _ e⟩
  | broken message => exact ⟨by simp, .broken _ message⟩

/-! ### One step -/

/-- What a step of a task can come to, for the task and for the barrier. -/
inductive Turn (w : World) (t : Task σ) : Barrier → Task σ → Prop where
  | works {t' : Task σ} (hs : t.stage.isAtWork = true) (h : t.Worked t') : Turn w t w.barrier t'
  | begins {s : Lifecycle} (hs : t.stage = .waiting) (h : t.lifecycle.start = .ok s) :
      Turn w t w.barrier { t with lifecycle := s, stage := .acting }
  | refuses {s : Lifecycle} (hs : t.stage = .waiting) (h : t.lifecycle.start = .error s) :
      Turn w t w.barrier { t with stage := .parting (.refused s) .checking }
  | advances {x : Advance} {p : Participant} {t' : Task σ} (hs : t.stage = .advancing x)
      (hp : t.loop = some p)
      (h : t.Advanced (x.step w.barrier p).2.1 (x.step w.barrier p).2.2 t') :
      Turn w t (x.step w.barrier p).1 t'
  /-- There is no part in the barrier to do anything with. -/
  | idles {r : Reply} (hs : (∃ x, t.stage = .advancing x) ∨ ∃ f, t.stage = .leaving f)
      (hp : t.loop = none) (hr : r.isWarning = false) : Turn w t w.barrier (tell w.now t r)
  | withdraws {f f' : Farewell} {p : Participant} (hs : t.stage = .leaving f)
      (hp : t.loop = some p) (h : (f.step w.barrier p).2 = some f') :
      Turn w t (f.step w.barrier p).1 { t with stage := .leaving f' }
  | leaves {f : Farewell} {p : Participant} (hs : t.stage = .leaving f) (hp : t.loop = some p)
      (h : (f.step w.barrier p).2 = none) :
      Turn w t (f.step w.barrier p).1 (tell w.now { t with loop := none } .done)
  | blames {r : Result} {message : String} (hs : t.stage = .judging r)
      (h : accusation w.barrier r = some message) :
      Turn w t w.barrier { t with stage := .reading r message }
  | acquits {r : Result} (hs : t.stage = .judging r) (h : accusation w.barrier r = none) :
      Turn w t w.barrier { t with stage := .parting r .checking }
  | reads {r : Result} {message : String} (hs : t.stage = .reading r message) :
      Turn w t w.barrier
        { t with stage := .accusing r ⟨t.name, t.id, w.barrier.currentPhase, message⟩ }
  | accuses {r : Result} {f : Failure} (hs : t.stage = .accusing r f) :
      Turn w t (w.barrier.abort f) { t with stage := .parting r .checking }
  | parts {r : Result} {f f' : Farewell} {p : Participant} (hs : t.stage = .parting r f)
      (hp : t.loop = some p) (h : (f.step w.barrier p).2 = some f') :
      Turn w t (f.step w.barrier p).1 { t with stage := .parting r f' }
  | ends {r : Result} {f : Farewell} {p : Participant} (hs : t.stage = .parting r f)
      (hp : t.loop = some p) (h : (f.step w.barrier p).2 = none) :
      Turn w t (f.step w.barrier p).1 { t with loop := none, stage := .over r }
  | closes {r : Result} {f : Farewell} (hs : t.stage = .parting r f) (hp : t.loop = none) :
      Turn w t w.barrier { t with stage := .over r }
  | rests {r : Result} (hs : t.stage = .over r) : Turn w t w.barrier t

/-- A step of an actor at work leaves the barrier alone. -/
theorem turn_of_worked {w : World} {t : Task σ} {r : Stepped σ} (hs : t.stage.isAtWork = true)
    (h : r.world.barrier = w.barrier ∧ t.Worked r.task) :
    t.Turn w r.world.barrier r.task := by
  rw [h.1]
  exact .works hs h.2

/-- A step comes to nothing else. -/
theorem turn_step (w : World) (t : Task σ) :
    t.Turn w (t.step w).world.barrier (t.step w).task := by
  cases hs : t.stage with
  | waiting =>
    cases h : t.lifecycle.start with
    | ok s => simp only [step, hs, h]; exact .begins hs h
    | error s => simp only [step, hs, h]; exact .refuses hs h
  | acting =>
    simp only [step, hs]
    exact turn_of_worked (by rw [hs]; rfl) (obey_worked hs rfl)
  | advancing x =>
    cases hp : t.loop with
    | none => simp only [step, advance, hs, hp]; exact .idles (.inl ⟨x, hs⟩) hp rfl
    | some p =>
      have h := advance_advanced w x hp
      simp only [step, hs]
      rw [h.1]
      exact .advances hs hp h.2
  | pacing p =>
    simp only [step, hs]
    exact turn_of_worked (by rw [hs]; rfl) (pace_worked hs)
  | asleep wake =>
    refine turn_of_worked (by rw [hs]; rfl) ?_
    simp only [step, hs]
    split
    · exact ⟨rfl, .tell (.refl t) _ rfl⟩
    · exact ⟨rfl, .goesOn (.refl t) (by rw [hs]; rfl)⟩
  | leaving f =>
    cases hp : t.loop with
    | none => simp only [step, hs, hp]; exact .idles (.inr ⟨f, hs⟩) hp rfl
    | some p =>
      have hleave := Turn.leaves (w := w) hs hp
      have hgo (f' : Farewell) (h : (f.step w.barrier p).2 = some f') :
          t.Turn w (f.step w.barrier p).1 { t with stage := .leaving f' } := .withdraws hs hp h
      simp only [hp] at hgo
      simp only [step, hs, hp]
      generalize f.step w.barrier p = r at hleave hgo ⊢
      obtain ⟨b, _ | f'⟩ := r
      · exact hleave rfl
      · exact hgo f' rfl
  | judging r =>
    cases h : accusation w.barrier r with
    | none => simp only [step, hs, h]; exact .acquits hs h
    | some message => simp only [step, hs, h]; exact .blames hs h
  | reading r message => simp only [step, hs]; exact .reads hs
  | accusing r f => simp only [step, hs]; exact .accuses hs
  | parting r f =>
    cases hp : t.loop with
    | none =>
      have hclose := Turn.closes (w := w) hs hp
      simp only [hp] at hclose
      simp only [step, hs, hp]
      exact hclose
    | some p =>
      have hend := Turn.ends (w := w) hs hp
      have hgo (f' : Farewell) (h : (f.step w.barrier p).2 = some f') :
          t.Turn w (f.step w.barrier p).1 { t with stage := .parting r f' } := .parts hs hp h
      simp only [hp] at hgo
      simp only [step, hs, hp]
      generalize f.step w.barrier p = r' at hend hgo ⊢
      obtain ⟨b, _ | f'⟩ := r'
      · exact hend rfl
      · exact hgo f' rfl
  | «over» r => simp only [step, hs]; exact .rests hs

/-! ### Actors called away -/

/-- An actor that is called away between two phases quits, and one at work works on. -/
theorem interrupt_worked (w : World) (t : Task σ) :
    (t.interrupt w).task = t ∨
      t.stage.isAtWork = true ∧ t.Worked (t.interrupt w).task ∨
      ∃ a, t.stage = .advancing a ∧ t.Quits (t.interrupt w).task := by
  have hdone : t.Worked (t.tell w.now .done) := .tell (.refl t) _ rfl
  cases hst : t.stage with
  | pacing p =>
    simp only [interrupt, hst]
    exact .inr (.inl ⟨rfl, hdone⟩)
  | asleep wake =>
    simp only [interrupt, hst]
    exact .inr (.inl ⟨rfl, hdone⟩)
  | advancing a =>
    simp only [interrupt, hst]
    split
    · next e he =>
      exact .inr (.inr ⟨a, rfl, .ends w e (.tell (.refl t) _ rfl) (.inl he)⟩)
    · exact .inr (.inr ⟨a, rfl,
        .leaves ⟨rfl, rfl, rfl, rfl, .start, fun s hs => ⟨s, hs, rfl⟩⟩ rfl⟩)
  | _ => simp [interrupt, hst]

end Task

end Lockstep
