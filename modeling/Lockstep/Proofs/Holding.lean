import Lockstep.Proofs.Handouts

/-!
# Who holds up a phase

A phase that waits for an actor does not close while the actor works in it, even after the run has
been halted.

* `Advance.Admits` : a step between two phases lets an actor into a phase that waits for it only
  while the actor has its token;
* `Task.Holds` : an actor that works in a phase that waits for it has not handed back its token;
* `System.IsReady.holds_run` : **this holds after every run**;
* `System.IsReady.signal_of_stint` : so the phase is the one in progress.
-/

namespace Lockstep

/-! ### Between two phases -/

namespace Advance

/-- A phase that is passed does not wait for the actor. -/
def SkipsFree (p : Participant) : Advance → Prop
  | passing _ k _ => ∀ plan, p.busyPlan? k = some plan → plan.blocking = false
  | _ => True

/-- Where a step between two phases takes an actor that has handed back `h` tokens: past a phase
only if that does not wait for it, and into one that does only with its token. -/
structure Admits (h : Nat) (r : Barrier × Participant × Progress) : Prop where
  moved : ∀ y, r.2.2 = .moved y → y.SkipsFree r.2.1
  entered : ∀ plan last, r.2.2 = .entered plan last →
    r.2.1.busyPlan? plan.number = some plan ∧ (plan.blocking = true → plan.number = h)

variable {b : Barrier} {p : Participant} {x : Advance} {a h : Nat}

theorem SkipsFree.congr {p' : Participant} (hx : x.SkipsFree p) (hp : p'.schedule = p.schedule) :
    x.SkipsFree p' := by
  cases x with
  | passing last k c => rwa [SkipsFree, Participant.busyPlan?, hp]
  | _ => trivial

theorem Admits.of_keepsOut {r : Barrier × Participant × Progress}
    (hr : r.2.2.keepsOut .bounding = true) : Admits h r where
  moved y hy := by
    rw [hy] at hr
    cases y with
    | passing last k c => cases hr
    | _ => trivial
  entered plan last he := by
    rw [he] at hr
    cases hr

theorem admits_letIn {last k : Nat} (hnum : p.schedule.IsNumbered) (hk : k = h) :
    Admits h (letIn b p last k) := by
  cases hadd : addWord? p.next 1 with
  | none =>
    simp only [letIn, hadd]
    exact .of_keepsOut rfl
  | some next =>
    simp only [letIn, hadd]
    split
    · next plan hplan =>
      have hnumber : plan.number = k := Participant.number_busyPlan? (p := p) hnum hplan
      cases hblocking : plan.blocking with
      | true =>
        simp only [if_true]
        refine ⟨by rintro _ ⟨⟩, fun plan' last' he => ?_⟩
        cases he
        exact ⟨hnumber ▸ hplan, fun _ => hnumber.trans hk⟩
      | false =>
        simp only [Bool.false_eq_true, if_false]
        refine ⟨?_, by rintro _ _ ⟨⟩⟩
        rintro _ ⟨⟩ plan' hplan'
        cases hplan.symm.trans hplan'
        exact hblocking
    · next hplan =>
      refine ⟨?_, by rintro _ _ ⟨⟩⟩
      rintro _ ⟨⟩ plan' hplan'
      cases hplan.symm.trans hplan'

/-- Whoever is let into a phase has handed back the tokens of all phases before. -/
theorem Fits.handbacks_of_entering {last : Nat} {c : Call} (hx : (entering last c).Fits b p a h) :
    h = p.next ∧ ∀ k, c.mark? ≠ some (.handback k) := by
  match c, hx with
  | .starting k, ⟨_, _, _, _, hf⟩ => exact ⟨hf.handbacks, by rintro _ ⟨⟩⟩
  | .arriving k, ⟨_, _, _, _, hf, _⟩ => exact ⟨hf.handbacks, by rintro _ ⟨⟩⟩
  | .opening k, ⟨_, _, _, hk, _, _, hh⟩ => exact ⟨hh.trans hk, by rintro _ ⟨⟩⟩

/-- **Where a step between two phases takes the actor**, whether or not the run has been halted. -/
theorem admits_step (hnum : p.schedule.IsNumbered) (hskip : x.SkipsFree p)
    (hx : b.signal.halt = .running → x.Fits b p a h) :
    Admits (h + Mark.handbacks (x.mark? b)) (x.step b p) := by
  cases x with
  | leaving c =>
    simp only [step]
    split
    all_goals exact .of_keepsOut rfl
  | bounding =>
    simp only [step]
    split
    all_goals exact .of_keepsOut rfl
  | choosing last =>
    simp only [step]
    repeat' split
    all_goals exact .of_keepsOut rfl
  | entering last c =>
    simp only [step]
    split
    case h_3 b' hstep =>
      -- only a barrier that is not halted lets anybody in
      have hr : b.signal.halt = .running := by
        by_contra hr
        obtain ⟨r, hr', hno⟩ := Call.step_of_halted hr c
        rw [hr'] at hstep
        cases hstep
        exact hno rfl
      obtain ⟨hh, hnone⟩ := (hx hr).handbacks_of_entering
      have hzero : Mark.handbacks ((entering last c).mark? b) = 0 := by
        simp only [mark?, if_pos hr, call?, Option.bind_some]
        cases hm : c.mark? with
        | none => rfl
        | some m =>
          cases m with
          | handback k => exact absurd hm (hnone k)
          | _ => rfl
      exact admits_letIn hnum (by rw [hzero, hh]; rfl)
    all_goals exact .of_keepsOut rfl
  | passing last k c =>
    simp only [step]
    split
    case h_2 => exact ⟨by rintro _ ⟨⟩; exact hskip, by rintro _ _ ⟨⟩⟩
    case h_3 =>
      split
      · next plan hplan =>
        have hnumber : plan.number = k := Participant.number_busyPlan? hnum hplan
        refine ⟨by rintro _ ⟨⟩, fun plan' last' he => ?_⟩
        cases he
        exact ⟨hnumber ▸ hplan, fun hb => absurd ((hskip plan hplan).symm.trans hb) (by decide)⟩
      · exact .of_keepsOut rfl
    all_goals exact .of_keepsOut rfl

end Advance

/-! ### Tasks -/

namespace Task

/-- A task that goes through a schedule and has handed back `h` tokens: if it works in a phase that
waits for it, the token of that phase is not among them. -/
structure Holds {σ : Type} (s : Schedule) (t : Task σ) (h : Nat) : Prop where
  schedule : ∀ p, t.loop = some p → p.schedule = s
  stint : ∀ x, t.stint = some x → s.find? x.plan.number = some x.plan ∧ x.plan.nop = false ∧
    (x.plan.blocking = true → x.plan.number = h)
  skips : ∀ p x, t.loop = some p → t.stage = .advancing x → x.SkipsFree p

variable {σ : Type} {s : Schedule} {t t' : Task σ} {b b' : Barrier} {a h : Nat}

theorem IsReady.holds {p : Participant} (ht : t.IsReady) (hl : t.loop = some p) :
    t.Holds p.schedule 0 where
  schedule q hq := by rw [hl] at hq; cases hq; rfl
  stint x hx := by rw [ht.stint] at hx; cases hx
  skips q x _ hx := by rcases ht.stage with hs | hs <;> rw [hs] at hx <;> cases hx

/-- Nothing counts but the part in the barrier, the phase the actor works in, and the way to the
next one. -/
theorem Holds.frame (hh : t.Holds s h) (hl : ∀ p, t'.loop = some p → t.loop = some p)
    (hs : ∀ x', t'.stint = some x' → ∃ x, t.stint = some x ∧ x'.plan = x.plan)
    (hadv : ∀ x, t'.stage ≠ .advancing x) : t'.Holds s h where
  schedule p hp := hh.schedule p (hl p hp)
  stint x' hx' := by
    obtain ⟨x, hx, hplan⟩ := hs x' hx'
    rw [hplan]
    exact hh.stint x hx
  skips _ x _ hx := absurd hx (hadv x)

theorem Holds.toStage (hh : t.Holds s h) {g : Stage} (hg : g.isAdvancing = false) :
    { t with stage := g }.Holds s h :=
  hh.frame (fun _ hp => hp) (fun x hx => ⟨x, hx, rfl⟩) fun x hx => by
    rw [show g = .advancing x from hx] at hg
    cases hg

theorem Holds.conclude (hh : t.Holds s h) (w : World) (hl : ∀ p, t'.loop = some p → t.loop = some p)
    (hs : ∀ x', t'.stint = some x' → ∃ x, t.stint = some x ∧ x'.plan = x.plan) (e : Ending) :
    (conclude w t' e).task.Holds s h := by
  unfold Task.conclude
  split
  · exact hh.frame hl hs (by rintro _ ⟨⟩)
  · exact hh.frame hl hs (by rintro _ ⟨⟩)

variable [Behaviour σ]

theorem Holds.keeps (hh : t.Holds s h) (hk : t.Keeps t')
    (hg : t'.stage.isAdvancing = false) : t'.Holds s h :=
  hh.frame (fun p hp => hk.loop ▸ hp) hk.stint fun x hx => by rw [hx] at hg; cases hg

theorem Holds.quits (hh : t.Holds s h) (hq : t.Quits t') : t'.Holds s h := by
  cases hq with
  | leaves hk hs => exact hh.keeps hk (by rw [hs]; rfl)
  | ends w e hk he => exact hh.conclude w (fun p hp => hk.loop ▸ hp) hk.stint e

theorem Holds.worked (hh : t.Holds s h) (hw : t.Worked t') : t'.Holds s h := by
  cases hw with
  | goesOn hk hs => exact hh.keeps hk (Stage.isAdvancing_of_isAtWork hs)
  | @departs p hacting hp =>
    refine ⟨fun q hq => ?_, by rintro _ ⟨⟩, fun q x hq hx => ?_⟩
    · cases hq
      exact (Advance.keeps_first p).schedule.trans (hh.schedule p hp)
    · cases hx
      unfold Advance.first
      split <;> trivial
  | quits hq => exact hh.quits hq

/-- A step between two phases that admits the actor somewhere. -/
theorem Holds.advanced {y : Advance} {p p' : Participant} {r : Advance.Progress}
    (hh : t.Holds s h) (hs : t.stage = .advancing y) (hst : t.stint = none) (hp : t.loop = some p)
    (hk : p.Keeps p') {h' : Nat} (hr : Advance.Admits h' (b, p', r)) (ht : t.Advanced p' r t') :
    t'.Holds s h' := by
  have hschedule : p'.schedule = s := hk.schedule.trans (hh.schedule p hp)
  have hskip : y.SkipsFree p' := (hh.skips p y hp hs).congr hk.schedule
  -- apart from a phase that it enters the actor is in none
  have hout {u : Task σ} (hl : u.loop = some p') (hu : u.stint = none)
      (hg : ∀ x, u.stage = .advancing x → x.SkipsFree p') : u.Holds s h' := by
    refine ⟨fun q hq => ?_, fun x hx => ?_, fun q x hq hx => ?_⟩
    · rw [hl] at hq; cases hq; exact hschedule
    · rw [hu] at hx; cases hx
    · rw [hl] at hq; cases hq; exact hg x hx
  cases ht with
  | blocked => exact hout rfl hst fun x hx => by cases hs.symm.trans hx; exact hskip
  | moved z => exact hout rfl hst fun x hx => by cases hx; exact hr.moved z rfl
  | entered plan last now =>
    obtain ⟨hplan, hheld⟩ := hr.entered plan last rfl
    refine ⟨fun q hq => ?_, fun x hx => ?_, by rintro _ _ _ ⟨⟩⟩
    · cases hq; exact hschedule
    · cases hx
      rw [Participant.busyPlan?, hschedule, Option.filter_eq_some_iff, Bool.not_eq_true'] at hplan
      exact ⟨hplan.1, hplan.2, hheld⟩
  | finishes now => exact hout rfl hst (by rintro _ ⟨⟩)
  | failed now e => exact hout rfl hst (by rintro _ ⟨⟩)
  | broken w message =>
    refine Holds.conclude (t := { t with loop := some p' }) ?_ w (fun _ hq => hq)
      (fun x hx => ⟨x, hx, rfl⟩) _
    exact hout rfl hst fun x hx => by cases hs.symm.trans hx; exact hskip

/-- **A step of a task keeps this**, for the number of handbacks that are recorded of it. -/
theorem Holds.turn {w : World} (hh : t.Holds s h) (hf : t.Fits w.barrier a h)
    (ht : t.Turn w b' t') : t'.Holds s (h + Mark.handbacks (t.mark? w.barrier)) := by
  -- giving up a part in the barrier moves no token
  have hfarewell {p : Participant} {f : Farewell} (hp : t.loop = some p)
      (hs : t.stage = .leaving f ∨ ∃ r, t.stage = .parting r f) (hh' : t'.Holds s h) :
      t'.Holds s (h + Mark.handbacks (t.mark? w.barrier)) := by
    have hm : t.mark? w.barrier = f.mark? w.barrier p := by
      rcases hs with hs | ⟨r, hs⟩ <;> simp only [mark?, hs, hp]
    rw [hm, Farewell.numbers_mark.2]
    exact hh'
  have hnone (hm : t.mark? w.barrier = none) (hh' : t'.Holds s h) :
      t'.Holds s (h + Mark.handbacks (t.mark? w.barrier)) := by
    rw [hm]
    exact hh'
  cases ht with
  | works hs hw => exact hnone (mark?_of_isAtWork _ hs) (hh.worked hw)
  | @advances x p t' hs hp hadv =>
    have hmark : t.mark? w.barrier = x.mark? w.barrier := by simp only [mark?, hs, hp]
    have hadmits := Advance.admits_step (hf.numbered p hp) (hh.skips p x hp hs) fun hr => by
      have := (hf.standing hr p hp).2
      rwa [hs] at this
    rw [hmark]
    exact hh.advanced hs (hf.advancing x hs) hp (Advance.keeps_step _ _ _) hadmits hadv
  | withdraws hs hp hstep => exact hfarewell hp (.inl hs) (hh.toStage rfl)
  | parts hs hp hstep => exact hfarewell hp (.inr ⟨_, hs⟩) (hh.toStage rfl)
  | leaves hs hp hstep =>
    exact hfarewell hp (.inl hs)
      (hh.frame (by rintro _ ⟨⟩) (fun x hx => ⟨x, hx, rfl⟩) (by rintro _ ⟨⟩))
  | ends hs hp hstep =>
    exact hfarewell hp (.inr ⟨_, hs⟩)
      (hh.frame (by rintro _ ⟨⟩) (fun x hx => ⟨x, hx, rfl⟩) (by rintro _ ⟨⟩))
  | idles hs hp hr =>
    refine hnone ?_ (hh.frame (fun _ hp => hp) (fun x hx => ⟨x, hx, rfl⟩) (by rintro _ ⟨⟩))
    rcases hs with ⟨x, hs⟩ | ⟨f, hs⟩ <;> simp only [mark?, hs, hp]
  | closes hs hp => exact hnone (by simp only [mark?, hs, hp]) (hh.toStage rfl)
  | begins hs hstart =>
    exact hnone (by simp only [mark?, hs])
      (hh.frame (fun _ hp => hp) (fun x hx => ⟨x, hx, rfl⟩) (by rintro _ ⟨⟩))
  | refuses hs hstart => exact hnone (by simp only [mark?, hs]) (hh.toStage rfl)
  | blames hs hacc => exact hnone (by simp only [mark?, hs]) (hh.toStage rfl)
  | acquits hs hacc => exact hnone (by simp only [mark?, hs]) (hh.toStage rfl)
  | reads hs => exact hnone (by simp only [mark?, hs]) (hh.toStage rfl)
  | accuses hs =>
    have hzero : Mark.handbacks (t.mark? w.barrier) = 0 := by simp only [mark?, hs]; rfl
    rw [hzero]
    exact hh.toStage rfl
  | rests hs => exact hnone (by simp only [mark?, hs]) hh

theorem Holds.interrupt (hh : t.Holds s h) (w : World) : (t.interrupt w).task.Holds s h := by
  rcases interrupt_worked w t with he | ⟨hs, hw⟩ | ⟨x, hs, hq⟩
  · rw [he]; exact hh
  · exact hh.worked hw
  · exact hh.quits hq

end Task

/-! ### Runs -/

namespace System

variable {σ : Type} [Behaviour σ] {s₀ s : System σ} {ls : List Label} {i : Nat} {t₀ t : Task σ}
  {p : Participant}

/-- Of a task nothing is recorded but its own steps. -/
theorem marks_entries_of_ne {l : Label} (hl : l ≠ .act i) : Record.marks (s.entries l) i = [] := by
  cases l with
  | act j =>
    cases hu : s.tasks[j]? with
    | none => simp [entries, deeds, hu, Record.marks_change]
    | some u => exact (marks_entries_act hu i).trans (if_neg fun hji => hl (by rw [hji]))
  | _ => simp [entries, deeds, Record.marks_change]

/-- A step of a task hands back what it does at the barrier. -/
theorem length_handbacks_act (r : Record) (ht : s.tasks[i]? = some t) :
    (Record.handbacks (r ++ s.entries (.act i)) i).length =
      (r.handbacks i).length + Mark.handbacks (t.mark? s.world.barrier) := by
  rw [Record.handbacks_append, List.length_append,
    (Record.numbers_of_marks_self ((marks_entries_act ht i).trans (if_pos rfl))).2]
  rcases t.mark? s.world.barrier with _ | _ | _ | _ | _ <;> rfl

/-- **After every run an actor that works in a phase that waits for it has its token.** -/
theorem IsReady.holds_run (hs : s₀.IsReady) (ht₀ : s₀.tasks[i]? = some t₀)
    (hp : t₀.loop = some p) (ht : (s₀.run ls).tasks[i]? = some t) :
    t.Holds p.schedule ((s₀.record ls).handbacks i).length := by
  have hseat : i ∈ s₀.seats := (mem_seats_of_getElem? ht₀).2 (by rw [hp]; rfl)
  induction ls using List.reverseRecOn generalizing t with
  | nil =>
    cases ht₀.symm.trans ht
    exact (hs.tasks t₀ (List.mem_of_getElem? ht)).holds hp
  | append_singleton ls l ih =>
    have hbooks := hs.balanced_run ls
    rw [run_snoc] at ht
    rw [record_snoc]
    have hother (hl : l ≠ .act i) := (Record.numbers_of_marks_nil (s₀.record ls)
      (marks_entries_of_ne (s := s₀.run ls) hl)).2
    obtain ⟨u, hu, ⟨rfl, rfl⟩ | ⟨rfl, rfl⟩ | ⟨hl, rfl⟩⟩ := task_of_fire ht
    · rw [length_handbacks_act _ hu]
      exact (ih hu).turn (hbooks.fits i u hu hseat) (Task.turn_step _ u)
    · rw [hother (by rintro ⟨⟩)]
      exact (ih hu).interrupt _
    · rw [hother hl]
      exact ih hu

/-- An actor that works in a phase takes part in the barrier, and holds what it should. -/
theorem IsReady.holds_of_stint (hs : s₀.IsReady) (ht : t ∈ (s₀.run ls).tasks) {x : Stint}
    (hx : t.stint = some x) : ∃ i t₀ p, i ∈ s₀.seats ∧ s₀.tasks[i]? = some t₀ ∧
      t₀.loop = some p ∧ (s₀.run ls).tasks[i]? = some t ∧
      t.Holds p.schedule ((s₀.record ls).handbacks i).length := by
  obtain ⟨i, hi⟩ := List.getElem?_of_mem ht
  have hseat : i ∈ s₀.seats := by
    by_contra hseat
    rw [((hs.balanced_run ls).apart i t hi hseat).2] at hx
    cases hx
  obtain ⟨t₀, ht₀, hl⟩ := mem_seats.1 hseat
  obtain ⟨p, hp⟩ := Option.isSome_iff_exists.1 hl
  exact ⟨i, t₀, p, hseat, ht₀, hp, hi, hs.holds_run ht₀ hp hi⟩

/-- The phase that an actor works in is the one in progress if it waits for the actor. -/
theorem IsReady.signal_of_stint (hs : s₀.IsReady) (ht : t ∈ (s₀.run ls).tasks) {x : Stint}
    (hx : t.stint = some x) (hb : x.plan.blocking = true) :
    (s₀.run ls).world.barrier.signal.phase = x.plan.number ∧
      (s₀.run ls).world.barrier.signal.isOpen = true := by
  have hbooks := hs.balanced_run ls
  obtain ⟨i, t₀, p, hseat, -, -, hi, hholds⟩ := hs.holds_of_stint ht hx
  obtain ⟨hnum, hop⟩ := (hbooks.fits i t hi hseat).stint x hx
  have hheld := (hholds.stint x hx).2.2 hb
  obtain ⟨hopen, hphase⟩ := (hbooks.counts hseat).isOpen_eq_true (by omega) hop
  exact ⟨by omega, hopen⟩

end System

end Lockstep
