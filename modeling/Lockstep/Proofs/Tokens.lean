import Lockstep.Proofs.TokenPlaces

/-!
# The token of a task

What holds of an actor's part in the barrier wherever the actor is: between two phases, at work, or
when its work has ended.

* `Task.Fits` : the task at a seat fits the numbers of arrivals and handbacks there; in particular
  an actor works in the last phase it arrived for;
* `Task.Fits.turn` : **a step keeps this, for the numbers that are recorded of it**;
* `Task.Fits.mono` : so do the steps of all others;
* `Task.IsApart` : a task without a part in the barrier.
-/

namespace Lockstep

/-- The actor is neither on its way from one phase to the next nor at its end. -/
def Stage.isElsewhere : Stage → Bool
  | .advancing _ => false
  | .over _ => false
  | _ => true

namespace Task

/-- The task at a seat fits the numbers of arrivals and handbacks there. -/
structure Fits {σ : Type} (b : Barrier) (t : Task σ) (a h : Nat) : Prop where
  bounded : 0 < a → ∃ last, b.lastPhase = some last ∧ a ≤ last + 1
  /-- The actor works in the last phase it arrived for. -/
  stint : ∀ s, t.stint = some s → s.plan.number + 1 = a ∧ a ≤ b.opened
  advancing : ∀ x, t.stage = .advancing x → t.stint = none
  /-- The actor passes the last phase it arrived for. -/
  passing : ∀ last k c, t.stage = .advancing (.passing last k c) → a = k + 1 ∧ a ≤ b.opened
  numbered : ∀ p, t.loop = some p → p.schedule.IsNumbered
  standing : b.signal.halt = .running →
    ∀ p, t.loop = some p → p.IsSound b a h ∧ t.stage.Fits b p a h
  /-- Once a run goes on, nobody has given up who is still needed. -/
  gone : b.signal.halt = .running → b.launched = true → t.loop = none →
    h = a ∧ ∀ last, b.lastPhase = some last → last < a
  ended : ∀ r, t.stage = .over r → t.loop = none

variable {σ : Type} {t t' : Task σ} {b b' : Barrier} {a h : Nat}

/-- Whatever the others do, a task fits as before. -/
theorem Fits.mono (hf : t.Fits b a h) (hb : b.LeadsTo b') :
    t.Fits b' a h where
  bounded ha := by rw [hb.lastPhase]; exact hf.bounded ha
  stint s hs := ⟨(hf.stint s hs).1, (hf.stint s hs).2.trans hb.opened_le⟩
  advancing := hf.advancing
  passing last k c hs := ⟨(hf.passing last k c hs).1, (hf.passing last k c hs).2.trans hb.opened_le⟩
  numbered := hf.numbered
  standing hr p hp :=
    let ⟨h1, h2⟩ := hf.standing (hb.running hr) p hp
    ⟨h1.mono hb, h2.mono hb⟩
  gone hr hl hp := by
    rw [hb.lastPhase]
    exact hf.gone (hb.running hr) (hb.launched ▸ hl) hp
  ended := hf.ended

/-- Nothing counts but the part in the barrier, the phase the actor works in, and the stage. -/
theorem Fits.frame (hf : t.Fits b a h) (hl : t'.loop = t.loop)
    (hs : ∀ s', t'.stint = some s' → ∃ s, t.stint = some s ∧ s'.plan = s.plan)
    (hadv : ∀ x, t'.stage ≠ .advancing x)
    (hst : b.signal.halt = .running → ∀ p, t.loop = some p → t'.stage.Fits b p a h)
    (hover : ∀ r, t'.stage = .over r → t.loop = none) : t'.Fits b a h where
  bounded := hf.bounded
  stint s' hs' := by
    obtain ⟨s, hs, hplan⟩ := hs s' hs'
    rw [hplan]
    exact hf.stint s hs
  advancing x hx := absurd hx (hadv x)
  passing last k c hx := absurd hx (hadv _)
  numbered p hp := hf.numbered p (hl ▸ hp)
  standing hr p hp := ⟨(hf.standing hr p (hl ▸ hp)).1, hst hr p (hl ▸ hp)⟩
  gone hr hlaunched hp := hf.gone hr hlaunched (hl ▸ hp)
  ended r hr := hl.trans (hover r hr)

theorem Fits.elsewhere (hf : t.Fits b a h) (hl : t'.loop = t.loop)
    (hs : ∀ s', t'.stint = some s' → ∃ s, t.stint = some s ∧ s'.plan = s.plan)
    (hg : t'.stage.isElsewhere = true)
    (hst : b.signal.halt = .running → ∀ p, t.loop = some p → t'.stage.Fits b p a h) :
    t'.Fits b a h :=
  hf.frame hl hs (fun x hx => by rw [hx] at hg; cases hg) hst
    fun r hr => by rw [hr] at hg; cases hg

/-- At most stages there is nothing more to say about the token. -/
theorem Fits.toStage (hf : t.Fits b a h) {g : Stage} (hg : g.isElsewhere = true)
    (hst : ∀ p, g.Fits b p a h) : { t with stage := g }.Fits b a h :=
  hf.elsewhere rfl (fun s hs => ⟨s, hs, rfl⟩) hg fun _ p _ => hst p

/-- The actor has given up its part in the barrier: it has finished, or nobody waits for it. -/
theorem Fits.withdraw (hf : t.Fits b a h) (hc : b.Counts a h) {p : Participant}
    (hp : t.loop = some p) (hl : t'.loop = none) (hs : t'.stint = t.stint)
    (hadv : ∀ x, t'.stage ≠ .advancing x)
    (hout : b.signal.halt = .running → b.launched = true →
      p.finished = true ∨ b.goesOn = false) : t'.Fits b a h where
  bounded := hf.bounded
  stint s hs' := hf.stint s (hs ▸ hs')
  advancing x hx := absurd hx (hadv x)
  passing last k c hx := absurd hx (hadv _)
  numbered p hp := by rw [hl] at hp; cases hp
  standing hr p hp := by rw [hl] at hp; cases hp
  gone hr hlaunched _ := by
    rcases hout hr hlaunched with hfin | hend
    · exact (hf.standing hr p hp).1.finished hfin
    · -- all phases have closed, so everybody has handed back the last token
      have hpast := (Barrier.goesOn_eq_false_iff hr).1 hend
      have hle := hc.phase_le
      have hle' := hc.handbacks_le
      refine ⟨?_, fun last hlast => by have := hpast last hlast; omega⟩
      by_contra hne
      obtain ⟨last, hlast, hbound⟩ := hf.bounded (by omega)
      have := hpast last hlast
      omega
  ended _ _ := hl

/-- Before a run nobody has arrived anywhere. -/
theorem IsReady.fits (ht : t.IsReady) (hl : t.loop.isSome) (b : Barrier) : t.Fits b 0 0 where
  bounded h0 := absurd h0 (Nat.lt_irrefl 0)
  stint s hs := by rw [ht.stint] at hs; cases hs
  advancing x hx := ht.stint
  passing last k c hx := by rcases ht.stage with hs | hs <;> rw [hs] at hx <;> cases hx
  numbered p hp := (ht.loop p hp).numbered
  standing _ p hp := by
    have hready := ht.loop p hp
    have hwork : p.FitsAtWork b 0 0 :=
      .inl ⟨hready.owed, hready.next.symm, hready.next.symm, Nat.zero_le _⟩
    refine ⟨.of_unfinished (hready.next ▸ by decide) hready.unfinished, ?_⟩
    rcases ht.stage with hs | hs <;> rw [hs] <;> exact hwork
  gone _ _ hp := by rw [hp] at hl; cases hl
  ended r hx := by rcases ht.stage with hs | hs <;> rw [hs] at hx <;> cases hx

/-! ### Steps -/

theorem Fits.conclude (w : World) (hf : t.Fits b a h) (hl : t'.loop = t.loop)
    (hs : ∀ s', t'.stint = some s' → ∃ s, t.stint = some s ∧ s'.plan = s.plan) (e : Ending) :
    (conclude w t' e).task.Fits b a h := by
  unfold Task.conclude
  split
  · exact hf.elsewhere hl hs rfl fun _ _ _ => trivial
  · exact hf.elsewhere hl hs rfl fun _ _ _ => trivial

/-- Giving up a part in the barrier moves no token. -/
theorem agrees_farewell (b : Barrier) (p : Participant) (f : Farewell) :
    b.Agrees (f.step b p).1 := by
  cases f with
  | checking => exact .refl b
  | reading => exact .refl b
  | accusing phase => exact b.agrees_abort _

theorem Fits.farewell (hf : t.Fits b a h) (hc : b.Counts a h) (hb : b.IsHonest) {p : Participant}
    (hp : t.loop = some p) {f : Farewell} (hnone : (f.step b p).2 = none) (hl : t'.loop = none)
    (hs : t'.stint = t.stint) (hadv : ∀ x, t'.stage ≠ .advancing x) :
    t'.Fits (f.step b p).1 a h := by
  have hb' := agrees_farewell b p f
  refine (hf.mono hb'.leadsTo).withdraw (hc.congr hb') hp hl hs hadv fun hr hlaunched => ?_
  cases f with
  | checking =>
    simp only [Farewell.step, ite_eq_right_iff, reduceCtorEq, imp_false] at hnone
    have hlaunched : b.launched = true := hlaunched
    simp only [hlaunched, Bool.and_true, Bool.and_eq_true, Bool.not_eq_true', not_and,
      Bool.not_eq_true] at hnone
    by_cases hfin : p.finished = true
    · exact .inl hfin
    · exact .inr (hnone (by simpa using hfin))
  | reading => cases hnone
  | accusing phase =>
    -- whoever accuses itself halts the run
    have := (hb.abort (Farewell.failure p phase)).1
    simp only [Farewell.step] at hr
    rw [this] at hr
    cases hr

variable [Behaviour σ]

theorem Fits.quits (hf : t.Fits b a h) (hq : t.Quits t') : t'.Fits b a h := by
  cases hq with
  | leaves hk hs =>
    refine hf.elsewhere hk.loop hk.stint (by rw [hs]; rfl) fun _ _ _ => ?_
    rw [hs]
    trivial
  | ends w e hk he => exact hf.conclude w hk.loop hk.stint e

/-- On its way to the next phase an actor first hands back a token that it has kept. -/
theorem fits_first {p : Participant} (hp : p.FitsAtWork b a h) :
    (Advance.first p).2.Fits b (Advance.first p).1 a h := by
  rcases hp with hfree | ⟨k, ho, ht⟩
  · simp only [Advance.first, hfree.owed]
    exact hfree
  · simp only [Advance.first, ho]
    exact ⟨rfl, ht.unfinished, ht.next, ht.arrivals, ht.handbacks, ht.opened⟩

theorem Fits.worked (hf : t.Fits b a h) (hs : t.stage.isAtWork = true) (hw : t.Worked t') :
    t'.Fits b a h := by
  have hatWork (hr : b.signal.halt = .running) (p : Participant) (hp : t.loop = some p) :
      p.FitsAtWork b a h := (Stage.fits_of_isAtWork hs).1 (hf.standing hr p hp).2
  cases hw with
  | goesOn hk hs' =>
    refine hf.frame hk.loop hk.stint (fun x hx => ?_)
      (fun hr p hp => (Stage.fits_of_isAtWork hs').2 (hatWork hr p hp)) (fun r hr => ?_)
    · rw [hx] at hs'; cases hs'
    · rw [hr] at hs'; cases hs'
  | @departs p hacting hp =>
    have hfirst := Advance.keeps_first p
    refine ⟨hf.bounded, by rintro _ ⟨⟩, fun _ _ => rfl, fun last k c hx => ?_, fun p' hp' => ?_,
      fun hr p' hp' => ?_, by rintro _ _ ⟨⟩, by rintro _ ⟨⟩⟩
    · cases ho : p.owed <;> simp [Advance.first, ho] at hx
    · cases hp'
      exact hfirst.schedule ▸ hf.numbered p hp
    · cases hp'
      refine ⟨?_, fits_first (hatWork hr p hp)⟩
      have hsound := (hf.standing hr p hp).1
      cases ho : p.owed <;> simp only [Advance.first, ho]
      · exact hsound
      · exact ⟨hsound.next_lt, hsound.finished⟩
  | quits hq => exact hf.quits hq

/-- A step between two phases that has come to what fits `a'` and `h'`. -/
theorem Fits.advanced {x : Advance} {p p' : Participant} {r : Advance.Progress} {a' h' : Nat}
    (hf : t.Fits b a h) (hx : t.stage = .advancing x) (hp : t.loop = some p) (hk : p.Keeps p')
    (hr : r.Fits b' p' a' h' x)
    (hbound : 0 < a' → ∃ last, b'.lastPhase = some last ∧ a' ≤ last + 1)
    (ht : t.Advanced p' r t') : t'.Fits b' a' h' := by
  have hstint : t.stint = none := hf.advancing x hx
  have hnum : p'.schedule.IsNumbered := hk.schedule ▸ hf.numbered p hp
  have hnone (s : Stint) {P : Prop} (hs : t.stint = some s) : P := by
    rw [hstint] at hs; cases hs
  -- all that comes of the step has the part `p'` in the barrier, and has not ended
  have hmain (g : Stage) (t' : Task σ) (hl : t'.loop = some p') (hg : t'.stage = g)
      (hs : ∀ s, t'.stint = some s → s.plan.number + 1 = a' ∧ a' ≤ b'.opened)
      (hadv : ∀ y, g = .advancing y → t'.stint = none)
      (hpass : ∀ last k c, g = .advancing (.passing last k c) → a' = k + 1 ∧ a' ≤ b'.opened)
      (hfit : b'.signal.halt = .running → p'.IsSound b' a' h' ∧ g.Fits b' p' a' h')
      (hover : ∀ r, g ≠ .over r) : t'.Fits b' a' h' := by
    subst hg
    refine ⟨hbound, hs, hadv, hpass, fun q hq => ?_, fun hrun q hq => ?_, fun _ _ hno => ?_,
      fun r hr => absurd hr (hover r)⟩
    · rw [hl] at hq; cases hq; exact hnum
    · rw [hl] at hq; cases hq; exact hfit hrun
    · rw [hl] at hno; cases hno
  -- it mostly is elsewhere then
  have helse (g : Stage) (t' : Task σ) (hl : t'.loop = some p') (hg : t'.stage = g)
      (hs : ∀ s, t'.stint = some s → s.plan.number + 1 = a' ∧ a' ≤ b'.opened)
      (hfit : b'.signal.halt = .running → p'.IsSound b' a' h' ∧ g.Fits b' p' a' h')
      (he : g.isElsewhere = true) : t'.Fits b' a' h' :=
    hmain g t' hl hg hs (fun y hy => by rw [hy] at he; cases he)
      (fun last k c hy => by rw [hy] at he; cases he) hfit fun r hr => by rw [hr] at he; cases he
  cases ht with
  | blocked =>
    exact hmain (.advancing x) _ rfl hx (fun s => hnone s) (fun _ _ => hstint) hr.passing
      hr.standing (by rintro _ ⟨⟩)
  | moved y =>
    exact hmain (.advancing y) _ rfl rfl (fun s => hnone s) (fun _ _ => hstint) hr.passing
      hr.standing (by rintro _ ⟨⟩)
  | entered plan last now =>
    refine helse .acting _ rfl rfl (fun s hs => ?_) hr.standing rfl
    cases hs
    exact hr.entered plan last rfl
  | finishes now => exact helse .acting _ rfl rfl (fun s => hnone s) hr.standing rfl
  | failed now e => exact helse .acting _ rfl rfl (fun s => hnone s) hr.standing rfl
  | broken w message =>
    unfold Task.conclude
    split
    · exact helse _ _ rfl rfl (fun s => hnone s) (fun hrun => ⟨(hr.standing hrun).1, trivial⟩) rfl
    · exact helse _ _ rfl rfl (fun s => hnone s) (fun hrun => ⟨(hr.standing hrun).1, trivial⟩) rfl

/-! ### What a task does at the barrier -/

omit [Behaviour σ] in
/-- What a task does at the barrier is done when it counts. -/
theorem Fits.isDue (hf : t.Fits b a h) (hc : b.Counts a h) {m : Mark} (hm : t.mark? b = some m) :
    m.IsDue b a h := by
  unfold mark? at hm
  split at hm
  · next x p hx hp =>
    refine Advance.isDue_mark (p := p) hm fun hr => ?_
    have hst := hf.standing hr p hp
    rw [hx] at hst
    exact ⟨hc, hst⟩
  · exact Farewell.isDue_mark hm a h
  · exact Farewell.isDue_mark hm a h
  · cases hm; trivial
  · cases hm

/-- A task changes the barrier by what it does there. -/
theorem Turn.barrier {w : World} (ht : t.Turn w b' t')
    (hk : ∀ k, t.mark? w.barrier = some (.handback k) → k + 1 < wordLimit) :
    b' = Mark.act w.barrier (t.mark? w.barrier) := by
  cases ht with
  | works hs h => rw [mark?_of_isAtWork _ hs]; rfl
  | advances hs hp h =>
    simp only [mark?, hs, hp] at hk ⊢
    exact Advance.barrier_step hk
  | withdraws hs hp h => simp only [mark?, hs, hp]; exact Farewell.barrier_step
  | leaves hs hp h => simp only [mark?, hs, hp]; exact Farewell.barrier_step
  | parts hs hp h => simp only [mark?, hs, hp]; exact Farewell.barrier_step
  | ends hs hp h => simp only [mark?, hs, hp]; exact Farewell.barrier_step
  | idles hs hp hr => rcases hs with ⟨x, hs⟩ | ⟨f, hs⟩ <;> simp only [mark?, hs, hp] <;> rfl
  | closes hs hp => simp only [mark?, hs, hp]; rfl
  | begins hs h => simp only [mark?, hs]; rfl
  | refuses hs h => simp only [mark?, hs]; rfl
  | blames hs h => simp only [mark?, hs]; rfl
  | acquits hs h => simp only [mark?, hs]; rfl
  | reads hs => simp only [mark?, hs]; rfl
  | accuses hs => simp only [mark?, hs]; rfl
  | rests hs => simp only [mark?, hs]; rfl

theorem Turn.leadsTo {w : World} (hf : t.Fits w.barrier a h) (hc : w.barrier.Counts a h)
    (ht : t.Turn w b' t') : w.barrier.LeadsTo b' := by
  have hdue (k : Nat) (hm : t.mark? w.barrier = some (.handback k)) := hf.isDue hc hm
  rw [ht.barrier fun k hm => (hdue k hm).2.2.2]
  exact Mark.leadsTo_act hdue

omit [Behaviour σ] in
/-- Nobody arrives for a phase that is not to come. -/
theorem Fits.bounded_mark (hf : t.Fits b a h) (hc : b.Counts a h)
    (hpos : 0 < a + Mark.arrivals (t.mark? b)) :
    ∃ last, b.lastPhase = some last ∧ a + Mark.arrivals (t.mark? b) ≤ last + 1 := by
  cases hm : t.mark? b with
  | none => rw [hm] at hpos; exact hf.bounded hpos
  | some m =>
    rw [hm] at hpos
    cases m with
    | arrival k =>
      obtain ⟨-, hak, last, hl, hle⟩ := hf.isDue hc hm
      exact ⟨last, hl, by simp only [Mark.arrivals]; omega⟩
    | handback k => exact hf.bounded hpos
    | desertion => exact hf.bounded hpos
    | accusation f => exact hf.bounded hpos

/-- A step between two phases. -/
theorem Fits.advances {w : World} (hf : t.Fits w.barrier a h) (hc : w.barrier.Counts a h)
    {x : Advance} {p : Participant} (hs : t.stage = .advancing x) (hp : t.loop = some p)
    (hadv : t.Advanced (x.step w.barrier p).2.1 (x.step w.barrier p).2.2 t')
    (hlast : (x.step w.barrier p).1.lastPhase = w.barrier.lastPhase) :
    t'.Fits (x.step w.barrier p).1 (a + Mark.arrivals (t.mark? w.barrier))
      (h + Mark.handbacks (t.mark? w.barrier)) := by
  have hmark : t.mark? w.barrier = x.mark? w.barrier := by simp only [mark?, hs, hp]
  have hbound := hf.bounded_mark hc
  have hfit := Advance.stepFits (b := w.barrier) (p := p) (x := x) (hf.numbered p hp)
    (fun last k c hx => hf.passing last k c (by rw [hs, hx])) fun hr => by
      have hst := hf.standing hr p hp
      rw [hs] at hst
      exact ⟨hc, hst⟩
  refine hf.advanced hs hp (Advance.keeps_step _ _ _) (hmark ▸ hfit) (fun hpos => ?_) hadv
  rw [hlast]
  exact hbound hpos

omit [Behaviour σ] in
/-- A part in the barrier that is being given up moves no token any more. -/
theorem Fits.withdraws (hf : t.Fits b a h) {g : Stage} {p : Participant} {f : Farewell}
    (hm : t.mark? b = f.mark? b p) (hg : g.isElsewhere = true) (hst : ∀ p, g.Fits b p a h) :
    { t with stage := g }.Fits (f.step b p).1 (a + Mark.arrivals (t.mark? b))
      (h + Mark.handbacks (t.mark? b)) := by
  rw [hm, Farewell.numbers_mark.1, Farewell.numbers_mark.2]
  exact (hf.toStage hg hst).mono (agrees_farewell _ _ _).leadsTo

omit [Behaviour σ] in
/-- An actor that has not begun begins. -/
theorem Fits.begins (hf : t.Fits b a h) {l : Lifecycle} (hs : t.stage = .waiting) :
    { t with lifecycle := l, stage := .acting }.Fits b a h := by
  refine hf.elsewhere rfl (fun s hs => ⟨s, hs, rfl⟩) rfl fun hr p hp => ?_
  have hst := (hf.standing hr p hp).2
  rw [hs] at hst
  exact hst

/-- **A step of a task leads to where the numbers fit again**, those of its arrivals and handbacks
that are recorded. -/
theorem Fits.turn {w : World} (hf : t.Fits w.barrier a h) (hc : w.barrier.Counts a h)
    (hb : w.barrier.IsHonest) (ht : t.Turn w b' t') :
    t'.Fits b' (a + Mark.arrivals (t.mark? w.barrier))
      (h + Mark.handbacks (t.mark? w.barrier)) := by
  have hlast := (ht.leadsTo hf hc).lastPhase
  cases ht with
  | works hs hw =>
    rw [mark?_of_isAtWork _ hs]
    exact hf.worked hs hw
  | begins hs hstart =>
    simp only [mark?, hs]
    exact hf.begins hs
  | advances hs hp hadv => exact hf.advances hc hs hp hadv hlast
  | idles hs hp hr =>
    have hmark : t.mark? w.barrier = none := by
      rcases hs with ⟨x, hs⟩ | ⟨f, hs⟩ <;> simp only [mark?, hs, hp]
    rw [hmark]
    exact hf.elsewhere rfl (fun s hs => ⟨s, hs, rfl⟩) rfl fun _ p hp' => by
      rw [hp] at hp'; cases hp'
  | withdraws hs hp hstep | parts hs hp hstep =>
    exact hf.withdraws (by simp only [mark?, hs, hp]) rfl fun _ => trivial
  | leaves hs hp hstep | ends hs hp hstep =>
    simp only [mark?, hs, hp, Farewell.numbers_mark, Nat.add_zero]
    exact hf.farewell hc hb hp hstep rfl rfl (by rintro _ ⟨⟩)
  | refuses hs | blames hs | acquits hs | reads hs =>
    simp only [mark?, hs]
    exact hf.toStage rfl fun _ => trivial
  | @accuses r f hs =>
    simp only [mark?, hs]
    exact (hf.toStage (g := .parting r .checking) rfl fun _ => trivial).mono
      (w.barrier.agrees_abort f).leadsTo
  | closes hs hp =>
    simp only [mark?, hs, hp]
    exact hf.frame hp.symm (fun s hs => ⟨s, hs, rfl⟩) (by rintro _ ⟨⟩) (fun _ _ _ => trivial)
      fun _ _ => hp
  | rests hs =>
    simp only [mark?, hs]
    exact hf

/-- Calling an actor away leads to where the same numbers fit. -/
theorem Fits.interrupt (hf : t.Fits b a h) (w : World) : (t.interrupt w).task.Fits b a h := by
  rcases interrupt_worked w t with he | ⟨hs, hw⟩ | ⟨x, -, hq⟩
  · rw [he]; exact hf
  · exact hf.worked hs hw
  · exact hf.quits hq

/-! ### Tasks without a part in the barrier -/

/-- The task has no part in the barrier and is in no phase. -/
def IsApart (t : Task σ) : Prop := t.loop = none ∧ t.stint = none

omit [Behaviour σ] in
theorem IsApart.frame (ha : t.IsApart) (hl : t'.loop = t.loop)
    (hs : ∀ s', t'.stint = some s' → ∃ s, t.stint = some s ∧ s'.plan = s.plan) : t'.IsApart := by
  refine ⟨hl.trans ha.1, Option.eq_none_iff_forall_ne_some.2 fun s' hs' => ?_⟩
  obtain ⟨s, hstint, -⟩ := hs s' hs'
  rw [ha.2] at hstint
  cases hstint

theorem IsApart.quits (ha : t.IsApart) (hq : t.Quits t') : t'.IsApart := by
  cases hq with
  | leaves hk hs => exact ha.frame hk.loop hk.stint
  | ends w e hk he =>
    unfold conclude
    split
    · exact ha.frame hk.loop hk.stint
    · exact ha.frame hk.loop hk.stint

theorem IsApart.worked (ha : t.IsApart) (hw : t.Worked t') : t'.IsApart := by
  cases hw with
  | goesOn hk hs => exact ha.frame hk.loop hk.stint
  | departs hs hp => rw [ha.1] at hp; cases hp
  | quits hq => exact ha.quits hq

theorem IsApart.turn {w : World} (ha : t.IsApart) (ht : t.Turn w b' t') : t'.IsApart := by
  cases ht with
  | works hs h => exact ha.worked h
  | advances hs hp h => rw [ha.1] at hp; cases hp
  | withdraws hs hp h => rw [ha.1] at hp; cases hp
  | leaves hs hp h => rw [ha.1] at hp; cases hp
  | parts hs hp h => rw [ha.1] at hp; cases hp
  | ends hs hp h => rw [ha.1] at hp; cases hp
  | _ => exact ha

theorem IsApart.interrupt (ha : t.IsApart) (w : World) : (t.interrupt w).task.IsApart := by
  rcases interrupt_worked w t with he | ⟨hs, hw⟩ | ⟨x, -, hq⟩
  · rw [he]; exact ha
  · exact ha.worked hw
  · exact ha.quits hq

omit [Behaviour σ] in
/-- Such a task does nothing at the barrier but abort the run. -/
theorem IsApart.mark?_eq (ha : t.IsApart) (b : Barrier) :
    t.mark? b = none ∨ ∃ f, t.mark? b = some (.accusation f) := by
  unfold mark?
  rw [ha.1]
  split <;> simp_all

end Task

end Lockstep
