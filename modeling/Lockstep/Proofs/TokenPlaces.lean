import Lockstep.Proofs.Accounts
import Lockstep.Proofs.Ready
import Lockstep.Proofs.Record
import Lockstep.Proofs.Turn

/-!
# Where the tokens are

At every moment an actor's part in the barrier fits the numbers of its arrivals and handbacks.

* `Participant.IsFree` : the token has been handed back in every phase it arrived for;
  `Participant.HasToken` : it is still out in the last one;
* `Advance.Fits` and `Stage.Fits` : what the stage of a task says about this;
* `Mark.IsDue` : an arrival or a handback at the one moment at which it counts, and `Mark.act` :
  what it does to the barrier;
* `Advance.stepFits` : **a step between two phases leads to where the numbers fit again.**

The numbers count what is recorded, so they change as `Advance.mark?` says.  At a barrier that has
been halted they say nothing about the tokens any more; all that is left to know is that nobody is
let into a phase other than the last one it arrived for.
-/

namespace Lockstep

/-! ### The token of one actor -/

namespace Participant

/-- The token is not out: it has been handed back in every phase it arrived for. -/
structure IsFree (b : Barrier) (p : Participant) (a h : Nat) : Prop where
  owed : p.owed = none
  arrivals : a = p.next
  handbacks : h = p.next
  opened : a ≤ b.opened

/-- The token of phase `k` is out. -/
structure HasToken (b : Barrier) (p : Participant) (k a h : Nat) : Prop where
  unfinished : p.finished = false
  next : p.next = k + 1
  arrivals : a = k + 1
  handbacks : h = k
  opened : a ≤ b.opened

/-- What holds of an actor's part in the barrier whatever the actor does. -/
structure IsSound (b : Barrier) (p : Participant) (a h : Nat) : Prop where
  next_lt : p.next < wordLimit
  /-- An actor has finished only after the last phase. -/
  finished : p.finished = true → h = a ∧ ∀ last, b.lastPhase = some last → last < a

end Participant

/-- What the point between two phases says about the token. -/
def Advance.Fits (b : Barrier) (p : Participant) (a h : Nat) : Advance → Prop
  | leaving (.returning k _) => p.owed = none ∧ p.HasToken b k a h
  | leaving (.closing k) => p.IsFree b a h ∧ p.next = k + 1
  | leaving _ => False
  | bounding => p.IsFree b a h
  | choosing last => p.IsFree b a h ∧ b.lastPhase = some last
  | entering last c =>
    p.finished = false ∧ b.lastPhase = some last ∧ p.next ≤ last ∧
      match c with
      | .starting k => k = p.next ∧ p.IsFree b a h
      | .arriving k => k = p.next ∧ p.IsFree b a h ∧ k ≤ b.signal.phase
      | .opening k => k = p.next ∧ p.owed = none ∧ a = k + 1 ∧ h = k
      | _ => False
  | passing last k c =>
    b.lastPhase = some last ∧
      match c with
      | .returning k' _ => k' = k ∧ p.owed = none ∧ p.HasToken b k a h
      | .closing k' => k' = k ∧ p.IsFree b a h ∧ p.next = k + 1
      | _ => False

/-- The actor keeps the token of a phase that waits for it. -/
def Participant.FitsAtWork (b : Barrier) (p : Participant) (a h : Nat) : Prop :=
  p.IsFree b a h ∨ ∃ k, p.owed = some k ∧ p.HasToken b k a h

/-- What the stage of a task says about the token. -/
def Stage.Fits (b : Barrier) (p : Participant) (a h : Nat) : Stage → Prop
  | waiting => p.FitsAtWork b a h
  | acting => p.FitsAtWork b a h
  | pacing _ => p.FitsAtWork b a h
  | asleep _ => p.FitsAtWork b a h
  | advancing x => x.Fits b p a h
  | _ => True

theorem Stage.fits_of_isAtWork {b : Barrier} {p : Participant} {a h : Nat} {g : Stage}
    (hg : g.isAtWork = true) : g.Fits b p a h ↔ p.FitsAtWork b a h := by
  cases g <;> first | rfl | cases hg

/-! ### While others go on -/

section

variable {b b' : Barrier} {p : Participant} {k a h : Nat}

theorem Participant.IsSound.of_unfinished (hn : p.next < wordLimit) (hu : p.finished = false) :
    p.IsSound b a h :=
  ⟨hn, fun hf => absurd (hu.symm.trans hf) (by decide)⟩

theorem Participant.IsFree.mono (hf : p.IsFree b a h) (hb : b.LeadsTo b') : p.IsFree b' a h :=
  { hf with opened := hf.opened.trans hb.opened_le }

theorem Participant.HasToken.mono (ht : p.HasToken b k a h) (hb : b.LeadsTo b') :
    p.HasToken b' k a h :=
  { ht with opened := ht.opened.trans hb.opened_le }

theorem Participant.IsSound.mono (hs : p.IsSound b a h) (hb : b.LeadsTo b') :
    p.IsSound b' a h :=
  ⟨hs.next_lt, by rw [hb.lastPhase]; exact hs.finished⟩

theorem Participant.FitsAtWork.mono (hf : p.FitsAtWork b a h) (hb : b.LeadsTo b') :
    p.FitsAtWork b' a h := by
  rcases hf with hf | ⟨k, ho, ht⟩
  · exact .inl (hf.mono hb)
  · exact .inr ⟨k, ho, ht.mono hb⟩

theorem Advance.Fits.mono {x : Advance} (hx : x.Fits b p a h) (hb : b.LeadsTo b') :
    x.Fits b' p a h := by
  match x, hx with
  | leaving (.returning k _), ⟨ho, ht⟩ => exact ⟨ho, ht.mono hb⟩
  | leaving (.closing k), ⟨hf, hn⟩ => exact ⟨hf.mono hb, hn⟩
  | bounding, hf => exact Participant.IsFree.mono hf hb
  | choosing last, ⟨hf, hl⟩ => exact ⟨hf.mono hb, hb.lastPhase.trans hl⟩
  | entering last (.starting k), ⟨hu, hl, hle, hk, hf⟩ =>
    exact ⟨hu, hb.lastPhase.trans hl, hle, hk, hf.mono hb⟩
  | entering last (.arriving k), ⟨hu, hl, hle, hk, hf, hp⟩ =>
    exact ⟨hu, hb.lastPhase.trans hl, hle, hk, hf.mono hb, hp.trans hb.phase_le⟩
  | entering last (.opening k), ⟨hu, hl, hle, hk⟩ =>
    exact ⟨hu, hb.lastPhase.trans hl, hle, hk⟩
  | passing last k (.returning k' _), ⟨hl, hk, ho, ht⟩ =>
    exact ⟨hb.lastPhase.trans hl, hk, ho, ht.mono hb⟩
  | passing last k (.closing k'), ⟨hl, hk, hf, hn⟩ =>
    exact ⟨hb.lastPhase.trans hl, hk, hf.mono hb, hn⟩

theorem Stage.Fits.mono {g : Stage} (hg : g.Fits b p a h) (hb : b.LeadsTo b') :
    g.Fits b' p a h := by
  cases g with
  | advancing x => exact Advance.Fits.mono hg hb
  | waiting => exact Participant.FitsAtWork.mono hg hb
  | acting => exact Participant.FitsAtWork.mono hg hb
  | pacing _ => exact Participant.FitsAtWork.mono hg hb
  | asleep _ => exact Participant.FitsAtWork.mono hg hb
  | _ => trivial

end

/-! ### Steps between two phases -/

/-- The stage of a task after a step between two phases that has come to `r`. -/
def Advance.Progress.stage (x : Advance) : Advance.Progress → Stage
  | .blocked => .advancing x
  | .moved y => .advancing y
  | .entered _ _ => .acting
  | .over => .acting
  | .failed _ => .acting
  | .broken message => .judging (.ended (.panicked message))

/-- What a step between two phases has come to fits the numbers after it. -/
structure Advance.Progress.Fits (b : Barrier) (p : Participant) (a h : Nat) (x : Advance)
    (r : Advance.Progress) : Prop where
  entered : ∀ plan last, r = .entered plan last → plan.number + 1 = a ∧ a ≤ b.opened
  passing : ∀ last k c, r.stage x = .advancing (.passing last k c) → a = k + 1 ∧ a ≤ b.opened
  standing : b.signal.halt = .running → p.IsSound b a h ∧ (r.stage x).Fits b p a h

namespace Advance

/-- It is past the start of a phase in which there may be nothing to do. -/
def isPassing : Advance → Bool
  | .passing _ _ _ => true
  | _ => false

/-- The step has neither entered a phase nor left the actor on its way through one. -/
def Progress.keepsOut (x : Advance) : Progress → Bool
  | .blocked => !x.isPassing
  | .moved y => !y.isPassing
  | .entered _ _ => false
  | _ => true

variable {b : Barrier} {p : Participant} {a h : Nat}

theorem Progress.Fits.of_keepsOut {x : Advance} {r : Progress} (hr : r.keepsOut x = true)
    (hstand : b.signal.halt = .running → p.IsSound b a h ∧ (r.stage x).Fits b p a h) :
    r.Fits b p a h x where
  entered plan last he := by rw [he] at hr; cases hr
  passing last k c he := by
    cases r with
    | blocked => cases he; cases hr
    | moved y => cases he; cases hr
    | _ => cases he
  standing := hstand

/-- Being let into a phase that is open. -/
theorem fits_letIn {last k : Nat} (x : Advance) (hnum : p.schedule.IsNumbered)
    (hs : p.IsSound b a h) (hu : p.finished = false) (hl : b.lastPhase = some last)
    (hk : k = p.next) (ho : p.owed = none) (ha : a = k + 1) (hh : h = k) (hop : a ≤ b.opened) :
    (letIn b p last k).1 = b ∧
      (letIn b p last k).2.2.Fits b (letIn b p last k).2.1 a h x := by
  cases hadd : addWord? p.next 1 with
  | none =>
    simp only [letIn, hadd]
    exact ⟨trivial, .of_keepsOut rfl fun _ => ⟨hs, trivial⟩⟩
  | some next =>
    obtain ⟨hnext, hlt⟩ := addWord?_eq_some_iff.1 hadd
    have hsound (o : Option Nat) : { p with next, owed := o }.IsSound b a h :=
      .of_unfinished hlt hu
    have htoken (o : Option Nat) : { p with next, owed := o }.HasToken b k a h :=
      ⟨hu, by simp only [← hnext, hk], ha, hh, hop⟩
    have hpass (y : Advance.Progress) (hy : y = .moved (.passing last k (.finish k false))) :
        y.Fits b { p with next } a h x := by
      subst hy
      refine ⟨by rintro _ _ ⟨⟩, fun last' k' c hst => ?_,
        fun _ => ⟨hsound p.owed, hl, rfl, ho, htoken p.owed⟩⟩
      cases hst
      exact ⟨ha, hop⟩
    simp only [letIn, hadd]
    split
    · next plan hplan =>
      have hplan' : plan.number = k :=
        Participant.number_busyPlan? (p := { p with next }) hnum hplan
      split
      · refine ⟨rfl, fun plan' last' he => ?_, by rintro _ _ _ ⟨⟩,
          fun _ => ⟨hsound (some k), .inr ⟨k, rfl, htoken (some k)⟩⟩⟩
        cases he
        exact ⟨by rw [hplan', ha], hop⟩
      · exact ⟨rfl, hpass _ rfl⟩
    · exact ⟨rfl, hpass _ rfl⟩

/-- A step between two phases leads to where the numbers after it fit. -/
def StepFits (b : Barrier) (p : Participant) (a h : Nat) (x : Advance) : Prop :=
  (x.step b p).2.2.Fits (x.step b p).1 (x.step b p).2.1 (a + Mark.arrivals (x.mark? b))
    (h + Mark.handbacks (x.mark? b)) x

/-- An actor past the last phase has finished. -/
theorem fits_conclude (x : Advance) (hs : p.IsSound b a h) (hf : p.IsFree b a h)
    (hlast : ∀ last, b.lastPhase = some last → last < a) :
    (conclude b p .over).2.2.Fits (conclude b p .over).1 (conclude b p .over).2.1 a h x := by
  have hsound : { p with finished := true }.IsSound b a h :=
    ⟨hs.next_lt, fun _ => ⟨hf.handbacks.trans hf.arrivals.symm, hlast⟩⟩
  exact .of_keepsOut rfl fun _ =>
    ⟨hsound, .inl ⟨hf.owed, hf.arrivals, hf.handbacks, hf.opened⟩⟩

theorem stepFits_of_step {x : Advance} (hr : b.signal.halt = .running)
    (y : Barrier × Participant × Progress) (hstep : x.step b p = y)
    (hy : y.2.2.Fits y.1 y.2.1 (a + Mark.arrivals (x.call?.bind Call.mark?))
      (h + Mark.handbacks (x.call?.bind Call.mark?)) x) : x.StepFits b p a h := by
  rw [StepFits, hstep, mark?, if_pos hr]
  exact hy

theorem stepFits_bounding (hr : b.signal.halt = .running) (hs : p.IsSound b a h)
    (hx : bounding.Fits b p a h) : bounding.StepFits b p a h := by
  cases hl : b.lastPhase with
  | none =>
    exact stepFits_of_step hr (conclude b p .over) (by simp only [step, hl])
      (fits_conclude _ hs hx fun last hl' => by rw [hl] at hl'; cases hl')
  | some last =>
    exact stepFits_of_step hr (b, p, .moved (.choosing last)) (by simp only [step, hl])
      (.of_keepsOut rfl fun _ => ⟨hs, hx, hl⟩)

theorem stepFits_choosing {last : Nat} (hr : b.signal.halt = .running) (hc : b.Counts a h)
    (hs : p.IsSound b a h) (hx : (choosing last).Fits b p a h) :
    (choosing last).StepFits b p a h := by
  obtain ⟨hf, hl⟩ := hx
  by_cases hu : p.finished = true
  · exact stepFits_of_step hr (b, p, .over) (by simp only [step, if_pos hu])
      (.of_keepsOut rfl fun _ => ⟨hs, .inl hf⟩)
  by_cases hend : last < p.next ∨ b.goesOn = false
  · -- the actor is past the last phase, or else everybody is
    have hlast : last < a := by
      rcases hend with hend | hend
      · rw [hf.arrivals]; exact hend
      · have hlt := (Barrier.goesOn_eq_false_iff hr).1 hend last hl
        exact hlt.trans_le (hc.phase_le.trans hc.handbacks_le)
    exact stepFits_of_step hr (conclude b p .over) (by simp only [step, if_neg hu, if_pos hend])
      (fits_conclude _ hs hf fun last' hl' => by rw [hl] at hl'; cases hl'; exact hlast)
  · have hle : p.next ≤ last := not_lt.1 fun hlt => hend (.inl hlt)
    exact stepFits_of_step hr (b, p, .moved (.entering last (.start p.next)))
      (by simp only [step, if_neg hu, if_neg hend])
      (.of_keepsOut rfl fun _ => ⟨hs, by simpa using hu, hl, hle, rfl, hf⟩)

theorem stepFits_entering {last : Nat} {c : Call} (hr : b.signal.halt = .running)
    (hnum : p.schedule.IsNumbered) (hs : p.IsSound b a h)
    (hx : (entering last c).Fits b p a h) : (entering last c).StepFits b p a h := by
  obtain ⟨hu, hl, hle, hx⟩ := hx
  match c, hx with
  | .starting k, ⟨hk, hf⟩ =>
    by_cases hphase : b.signal.phase = k ∧ b.signal.isOpen = false
    · exact stepFits_of_step hr (b, p, .moved (.entering last (.arriving k)))
        (by simp only [step, Call.step_starting hr, if_pos hphase])
        (.of_keepsOut rfl fun _ => ⟨hs, hu, hl, hle, hk, hf, hphase.1.ge⟩)
    · exact stepFits_of_step hr (b, p, .blocked)
        (by simp only [step, Call.step_starting hr, if_neg hphase])
        (.of_keepsOut rfl fun _ => ⟨hs, hu, hl, hle, hk, hf⟩)
  | .arriving k, ⟨hk, hf, hphase⟩ =>
    have hak : a = k := hf.arrivals.trans hk.symm
    have hhk : h = k := hf.handbacks.trans hk.symm
    have hlb : b.arrive.lastPhase = some last := (Barrier.leadsTo_arrive b).lastPhase.trans hl
    have hsound : p.IsSound b.arrive (a + 1) h := .of_unfinished hs.next_lt hu
    cases hopens : b.opensNow with
    | true =>
      -- the phase that opens is the one this actor has arrived for
      have hop : a + 1 ≤ b.arrive.opened := by
        rw [Barrier.arrive_of_opensNow hopens]
        simp only [Barrier.opened, Barrier.publish, Bool.toNat_true]
        omega
      obtain ⟨hb, hfit⟩ := fits_letIn (entering last (.arriving k)) hnum hsound hu hlb hk hf.owed
        (by rw [hak]) hhk hop
      exact stepFits_of_step hr (letIn b.arrive p last k)
        (by simp only [step, Call.step_arriving hr, hopens, if_true, hk]) (by rw [hb]; exact hfit)
    | false =>
      exact stepFits_of_step hr (b.arrive, p, .moved (.entering last (.opening k)))
        (by simp only [step, Call.step_arriving hr, hopens, Bool.false_eq_true, if_false])
        (.of_keepsOut rfl fun _ => ⟨hsound, hu, hlb, hle, hk, hf.owed, by rw [hak]; rfl, hhk⟩)
  | .opening k, ⟨hk, ho, hak, hhk⟩ =>
    subst hk
    by_cases hphase : b.signal.phase = p.next ∧ b.signal.isOpen = true
    · have hop : a ≤ b.opened := by
        rw [Barrier.opened, hphase.1, hphase.2, hak]
        rfl
      obtain ⟨hb, hfit⟩ :=
        fits_letIn (entering last (.opening p.next)) hnum hs hu hl rfl ho hak hhk hop
      exact stepFits_of_step hr (letIn b p last p.next)
        (by simp only [step, Call.step_opening hr, if_pos hphase]) (by rw [hb]; exact hfit)
    · exact stepFits_of_step hr (b, p, .blocked)
        (by simp only [step, Call.step_opening hr, if_neg hphase])
        (.of_keepsOut rfl fun _ => ⟨hs, hu, hl, hle, rfl, ho, hak, hhk⟩)

/-- A token that has been handed back is not out. -/
theorem isFree_handBack {k : Nat} (hc : b.Counts a h) (ho : p.owed = none)
    (ht : p.HasToken b k a h) : p.IsFree (b.handBack k) a (h + 1) := by
  have hphase : b.signal.phase ≤ k := ht.handbacks ▸ hc.phase_le
  exact ⟨ho, ht.arrivals.trans ht.next.symm, by rw [ht.handbacks, ht.next],
    ht.opened.trans (Barrier.leadsTo_handBack hphase).opened_le⟩

theorem stepFits_leaving {c : Call} (hr : b.signal.halt = .running) (hc : b.Counts a h)
    (hs : p.IsSound b a h) (hx : (leaving c).Fits b p a h) : (leaving c).StepFits b p a h := by
  match c, hx with
  | .returning k wait, ⟨ho, ht⟩ =>
    have hk : k + 1 < wordLimit := ht.next ▸ hs.next_lt
    have hfree := isFree_handBack hc ho ht
    have hsound : p.IsSound (b.handBack k) a (h + 1) := .of_unfinished hs.next_lt ht.unfinished
    by_cases hwait : b.closesNow = false ∧ wait = true
    · exact stepFits_of_step hr (b.handBack k, p, .moved (.leaving (.closing k)))
        (by simp only [step, Call.step_returning hr hk, if_pos hwait])
        (.of_keepsOut rfl fun _ => ⟨hsound, hfree, ht.next⟩)
    · exact stepFits_of_step hr (b.handBack k, p, .moved .bounding)
        (by simp only [step, Call.step_returning hr hk, if_neg hwait])
        (.of_keepsOut rfl fun _ => ⟨hsound, hfree⟩)
  | .closing k, ⟨hf, hn⟩ =>
    by_cases hphase : k < b.signal.phase
    · exact stepFits_of_step hr (b, p, .moved .bounding)
        (by simp only [step, Call.step_closing hr, if_pos hphase])
        (.of_keepsOut rfl fun _ => ⟨hs, hf⟩)
    · exact stepFits_of_step hr (b, p, .blocked)
        (by simp only [step, Call.step_closing hr, if_neg hphase])
        (.of_keepsOut rfl fun _ => ⟨hs, hf, hn⟩)

/-- What comes after a phase that did not wait for the actor: the actor works in it all the same if
there is something to do. -/
def afterPassing (b : Barrier) (p : Participant) (last k : Nat) :
    Barrier × Participant × Progress :=
  match p.busyPlan? k with
  | some plan => (b, p, .entered plan last)
  | none => (b, p, .moved (.choosing last))

theorem fits_afterPassing {last k : Nat} (x : Advance) (hnum : p.schedule.IsNumbered)
    (hak : a = k + 1) (hop : a ≤ b.opened)
    (hf : b.signal.halt = .running →
      p.IsSound b a h ∧ p.IsFree b a h ∧ b.lastPhase = some last) :
    (afterPassing b p last k).2.2.Fits (afterPassing b p last k).1 (afterPassing b p last k).2.1
      a h x := by
  unfold afterPassing
  split
  · next plan hplan =>
    refine ⟨fun plan' last' he => ?_, by rintro _ _ _ ⟨⟩,
      fun hr => ⟨(hf hr).1, .inl (hf hr).2.1⟩⟩
    cases he
    exact ⟨by rw [Participant.number_busyPlan? hnum hplan, hak], hop⟩
  · exact .of_keepsOut rfl hf

theorem stepFits_passing {last k : Nat} {c : Call} (hr : b.signal.halt = .running)
    (hc : b.Counts a h) (hnum : p.schedule.IsNumbered) (hs : p.IsSound b a h)
    (hx : (passing last k c).Fits b p a h) : (passing last k c).StepFits b p a h := by
  obtain ⟨hl, hx⟩ := hx
  match c, hx with
  | .returning k' wait, ⟨hkk, ho, ht⟩ =>
    subst hkk
    have hk : k' + 1 < wordLimit := ht.next ▸ hs.next_lt
    have hto := Barrier.leadsTo_handBack (k := k') (ht.handbacks ▸ hc.phase_le)
    have hfree := isFree_handBack hc ho ht
    have hlb : (b.handBack k').lastPhase = some last := hto.lastPhase.trans hl
    have hsound : p.IsSound (b.handBack k') a (h + 1) := .of_unfinished hs.next_lt ht.unfinished
    by_cases hwait : b.closesNow = false ∧ wait = true
    · refine stepFits_of_step hr (b.handBack k', p, .moved (.passing last k' (.closing k')))
        (by simp only [step, Call.step_returning hr hk, if_pos hwait])
        ⟨by rintro _ _ ⟨⟩, fun last' k c he => ?_,
          fun _ => ⟨hsound, hlb, rfl, hfree, ht.next⟩⟩
      cases he
      exact ⟨ht.arrivals, hfree.opened⟩
    · exact stepFits_of_step hr (afterPassing (b.handBack k') p last k')
        (by simp only [step, Call.step_returning hr hk, if_neg hwait]; rfl)
        (fits_afterPassing _ hnum ht.arrivals hfree.opened fun _ => ⟨hsound, hfree, hlb⟩)
  | .closing k', ⟨hkk, hf, hn⟩ =>
    subst hkk
    by_cases hphase : k' < b.signal.phase
    · exact stepFits_of_step hr (afterPassing b p last k')
        (by simp only [step, Call.step_closing hr, if_pos hphase]; rfl)
        (fits_afterPassing _ hnum (hf.arrivals.trans hn) hf.opened fun _ => ⟨hs, hf, hl⟩)
    · refine stepFits_of_step hr (b, p, .blocked)
        (by simp only [step, Call.step_closing hr, if_neg hphase])
        ⟨by rintro _ _ ⟨⟩, fun last' k c he => ?_, fun _ => ⟨hs, hl, rfl, hf, hn⟩⟩
      cases he
      exact ⟨hf.arrivals.trans hn, hf.opened⟩

theorem stepFits_of_running {x : Advance} (hr : b.signal.halt = .running) (hc : b.Counts a h)
    (hnum : p.schedule.IsNumbered) (hs : p.IsSound b a h) (hx : x.Fits b p a h) :
    x.StepFits b p a h := by
  cases x with
  | leaving c => exact stepFits_leaving hr hc hs hx
  | bounding => exact stepFits_bounding hr hs hx
  | choosing last => exact stepFits_choosing hr hc hs hx
  | entering last c => exact stepFits_entering hr hnum hs hx
  | passing last k c => exact stepFits_passing hr hc hnum hs hx

/-- At a barrier that is halted a step that does not let anybody into a phase fits any numbers. -/
theorem stepFits_of_halted_step {x : Advance} (hr : b.signal.halt ≠ .running)
    (y : Participant × Progress) (hstep : x.step b p = (b, y))
    (hout : y.2.keepsOut x = true) : x.StepFits b p a h := by
  rw [StepFits, hstep, mark?, if_neg hr]
  exact .of_keepsOut hout fun hr' => absurd hr' hr

theorem stepFits_of_halted {x : Advance} (hr : b.signal.halt ≠ .running)
    (hnum : p.schedule.IsNumbered)
    (hpass : ∀ last k c, x = passing last k c → a = k + 1 ∧ a ≤ b.opened) :
    x.StepFits b p a h := by
  cases x with
  | leaving c =>
    obtain ⟨r, hstep, -⟩ := Call.step_of_halted hr c
    cases r with
    | ok more =>
      exact stepFits_of_halted_step hr (p, .moved .bounding) (by simp only [step, hstep]) rfl
    | error e =>
      exact stepFits_of_halted_step hr (conclude b p (.failed e)).2
        (by simp only [step, hstep]; rfl) rfl
  | bounding =>
    cases hl : b.lastPhase with
    | none =>
      exact stepFits_of_halted_step hr (conclude b p .over).2 (by simp only [step, hl]; rfl) rfl
    | some last =>
      exact stepFits_of_halted_step hr (p, .moved (.choosing last)) (by simp only [step, hl]) rfl
  | choosing last =>
    have hend : last < p.next ∨ b.goesOn = false := .inr (by simp [Barrier.goesOn, hr])
    by_cases hu : p.finished = true
    · exact stepFits_of_halted_step hr (p, .over) (by simp only [step, if_pos hu]) rfl
    · exact stepFits_of_halted_step hr (conclude b p .over).2
        (by simp only [step, if_neg hu, if_pos hend]; rfl) rfl
  | entering last c =>
    obtain ⟨r, hstep, hno⟩ := Call.step_of_halted hr c
    cases r with
    | ok more =>
      -- the answer is that the phase has not opened
      obtain rfl : more = false := by cases more <;> simp_all
      exact stepFits_of_halted_step hr (conclude b p .over).2 (by simp only [step, hstep]; rfl) rfl
    | error e =>
      exact stepFits_of_halted_step hr (conclude b p (.failed e)).2
        (by simp only [step, hstep]; rfl) rfl
  | passing last k c =>
    obtain ⟨r, hstep, -⟩ := Call.step_of_halted hr c
    cases r with
    | ok more =>
      -- whoever has seen the phase closed may still work in it
      obtain ⟨hak, hop⟩ := hpass last k c rfl
      have hafter : (passing last k c).step b p = afterPassing b p last k := by
        simp only [step, hstep]
        rfl
      rw [StepFits, hafter, mark?, if_neg hr]
      exact fits_afterPassing _ hnum hak hop fun hr' => absurd hr' hr
    | error e =>
      exact stepFits_of_halted_step hr (conclude b p (.failed e)).2
        (by simp only [step, hstep]; rfl) rfl

/-- **A step between two phases leads to where the numbers fit again**, whether or not the run has
been halted. -/
theorem stepFits {x : Advance} (hnum : p.schedule.IsNumbered)
    (hpass : ∀ last k c, x = passing last k c → a = k + 1 ∧ a ≤ b.opened)
    (hst : b.signal.halt = .running → b.Counts a h ∧ p.IsSound b a h ∧ x.Fits b p a h) :
    x.StepFits b p a h := by
  by_cases hr : b.signal.halt = .running
  · obtain ⟨hc, hs, hx⟩ := hst hr
    exact stepFits_of_running hr hc hnum hs hx
  · exact stepFits_of_halted hr hnum hpass

end Advance

/-! ### What is done at the barrier -/

namespace Mark

/-- What a task does at the barrier is done when it counts: an arrival for the phase that opens
next, a handback in the phase that is open. -/
def IsDue (b : Barrier) (a h : Nat) : Mark → Prop
  | arrival k => b.signal = ⟨k, false, .running⟩ ∧ a = k ∧
      ∃ last, b.lastPhase = some last ∧ k ≤ last
  | handback k => b.signal = ⟨k, true, .running⟩ ∧ a = k + 1 ∧ h = k ∧ k + 1 < wordLimit
  | desertion => True
  | accusation _ => True

/-- What the barrier comes to. -/
def act (b : Barrier) : Option Mark → Barrier
  | some (arrival _) => b.arrive
  | some (handback k) => b.handBack k
  | some (accusation f) => b.abort f
  | some desertion => b
  | none => b

theorem leadsTo_act {b : Barrier} {a h : Nat} {m : Option Mark}
    (hm : ∀ k, m = some (handback k) → (handback k).IsDue b a h) : b.LeadsTo (act b m) := by
  cases m with
  | none => exact (Barrier.Agrees.refl b).leadsTo
  | some m =>
    cases m with
    | arrival k => exact b.leadsTo_arrive
    | handback k =>
      obtain ⟨hs, -⟩ := hm k rfl
      exact Barrier.leadsTo_handBack (by rw [hs])
    | desertion => exact (Barrier.Agrees.refl b).leadsTo
    | accusation f => exact (b.agrees_abort f).leadsTo

end Mark

/-- A call changes the barrier by what it does there. -/
theorem Call.barrier_step {b : Barrier} {c : Call}
    (hk : ∀ k, b.signal.halt = .running → c.mark? = some (.handback k) → k + 1 < wordLimit) :
    (c.step b).1 = Mark.act b (if b.signal.halt = .running then c.mark? else none) := by
  split
  · next hr =>
    cases c with
    | starting k => rw [step_starting hr]; rfl
    | arriving k => rw [step_arriving hr]; rfl
    | opening k => rw [step_opening hr]; rfl
    | returning k wait => rw [step_returning hr (hk k hr rfl)]; rfl
    | closing k => rw [step_closing hr]; rfl
  · next hr =>
    obtain ⟨r, hstep, -⟩ := step_of_halted hr c
    rw [hstep]
    rfl

namespace Advance

variable {b : Barrier} {p : Participant} {a h : Nat}

theorem isDue_mark {x : Advance} {m : Mark} (hm : x.mark? b = some m)
    (hst : b.signal.halt = .running → b.Counts a h ∧ p.IsSound b a h ∧ x.Fits b p a h) :
    m.IsDue b a h := by
  by_cases hr : b.signal.halt = .running
  · obtain ⟨hc, hs, hx⟩ := hst hr
    rw [mark?, if_pos hr] at hm
    have hsignal (o : Bool) (k : Nat) (ho : b.signal.isOpen = o) (hk : b.signal.phase = k) :
        b.signal = ⟨k, o, .running⟩ := by rw [← ho, ← hk, ← hr]
    have hreturn {k : Nat} (ht : p.HasToken b k a h) : (Mark.handback k).IsDue b a h := by
      obtain ⟨ho, hk⟩ := hc.isOpen_eq_true (by rw [ht.arrivals, ht.handbacks]) ht.opened
      exact ⟨hsignal _ _ ho (hk.trans ht.handbacks), ht.arrivals, ht.handbacks,
        ht.next ▸ hs.next_lt⟩
    cases x with
    | leaving c =>
      cases c with
      | returning k wait =>
        cases hm
        exact hreturn hx.2
      | arriving k => cases hx
      | _ => cases hm
    | bounding => cases hm
    | choosing last => cases hm
    | entering last c =>
      cases c with
      | arriving k =>
        cases hm
        obtain ⟨-, hl, hle, hk, hf, hphase⟩ := hx
        have hak : a = k := hf.arrivals.trans hk.symm
        have hhk : h = k := hf.handbacks.trans hk.symm
        have hpk : b.signal.phase = k := le_antisymm (hc.phase_le.trans hhk.le) hphase
        exact ⟨hsignal _ _ (hc.isOpen_eq_false (hak.trans hpk.symm).le) hpk, hak, last, hl,
          hk ▸ hle⟩
      | returning k wait => cases hx.2.2.2
      | _ => cases hm
    | passing last k c =>
      cases c with
      | returning k' wait =>
        cases hm
        obtain ⟨-, rfl, -, ht⟩ := hx
        exact hreturn ht
      | arriving k' => cases hx.2
      | _ => cases hm
  · rw [mark?, if_neg hr] at hm
    cases hm

/-- A step between two phases changes the barrier as its call does. -/
theorem barrier_eq_call (b : Barrier) (p : Participant) (x : Advance) :
    (x.step b p).1 = x.call?.elim b fun c => (c.step b).1 := by
  have hletIn (b : Barrier) (last k : Nat) : (letIn b p last k).1 = b := by
    simp only [letIn]
    repeat' split
    all_goals rfl
  cases x with
  | bounding => simp only [step, call?]; split <;> rfl
  | choosing last => simp only [step, call?]; split <;> [rfl; split] <;> rfl
  | leaving c => simp only [step, call?]; split <;> simp_all [conclude]
  | entering last c => simp only [step, call?]; split <;> simp_all [conclude]
  | passing last k c =>
    simp only [step, call?]
    split <;> [skip; skip; split; skip; skip] <;> simp_all [conclude]

/-- A step between two phases changes the barrier by what it does there. -/
theorem barrier_step {x : Advance} (hk : ∀ k, x.mark? b = some (.handback k) → k + 1 < wordLimit) :
    (x.step b p).1 = Mark.act b (x.mark? b) := by
  rw [barrier_eq_call, mark?]
  unfold mark? at hk
  cases hx : x.call? with
  | none => simp only [Option.elim, Option.bind]; split <;> rfl
  | some c =>
    rw [hx] at hk
    exact Call.barrier_step fun k hr hc => hk k (by simpa [if_pos hr] using hc)

end Advance

namespace Farewell

variable {b : Barrier} {p : Participant} {f : Farewell}

/-- Giving up a part in the barrier changes the barrier by what it does there. -/
theorem barrier_step : (f.step b p).1 = Mark.act b (f.mark? b p) := by
  cases f with
  | checking => simp only [step, mark?]; split <;> rfl
  | reading => rfl
  | accusing phase => rfl

/-- It moves no token. -/
theorem mark?_eq : f.mark? b p = none ∨ f.mark? b p = some .desertion ∨
    ∃ g, f.mark? b p = some (.accusation g) := by
  cases f with
  | checking =>
    simp only [mark?]
    split
    · exact .inr (.inl rfl)
    · exact .inl rfl
  | reading => exact .inl rfl
  | accusing phase => exact .inr (.inr ⟨_, rfl⟩)

theorem isDue_mark {m : Mark} (hm : f.mark? b p = some m) (a h : Nat) : m.IsDue b a h := by
  rcases mark?_eq (b := b) (p := p) (f := f) with he | he | ⟨g, he⟩
  · rw [he] at hm; cases hm
  · rw [he] at hm; cases hm; trivial
  · rw [he] at hm; cases hm; trivial

theorem numbers_mark : Mark.arrivals (f.mark? b p) = 0 ∧ Mark.handbacks (f.mark? b p) = 0 := by
  rcases mark?_eq (b := b) (p := p) (f := f) with he | he | ⟨g, he⟩ <;> rw [he] <;> exact ⟨rfl, rfl⟩

end Farewell

/-- An actor at work does nothing at the barrier. -/
theorem Task.mark?_of_isAtWork {σ : Type} {t : Task σ} (b : Barrier)
    (hs : t.stage.isAtWork = true) : t.mark? b = none := by
  cases hst : t.stage with
  | acting => simp only [mark?, hst]
  | pacing p => simp only [mark?, hst]
  | asleep wake => simp only [mark?, hst]
  | _ => rw [hst] at hs; cases hs

end Lockstep
