import Lockstep.System
import Mathlib.Data.List.Induction

/-!
# The record of a run

A run of a system is a list of moves.  Its *record* says what happened at the barrier on the way:
which task's token arrived for which phase, which token was handed back, who gave up its part too
early, who aborted the run, and what the signal came to show.

* `Task.mark?` is what a task does to the barrier in its next step, read off from where it stands;
* `System.entries` is what a move adds to the record, and `System.record` the record of a run;
* `Record.arrivals`, `Record.handbacks`, `Record.desertions`, `Record.accusations` and
  `Record.shown` are the parts of a record.

The signal is not recorded from where the tasks stand: `Signal.change` compares what it shows before
and after the move.
-/

namespace Lockstep

/-- What a task does at the barrier in one step. -/
inductive Mark where
  /-- Its token arrives for a phase. -/
  | arrival (k : Nat)
  /-- Its token of a phase is handed back. -/
  | handback (k : Nat)
  /-- Its part in the barrier is given up while the run goes on without having finished it. -/
  | desertion
  /-- It aborts the run, unless that has been done before. -/
  | accusation (f : Failure)
  deriving DecidableEq, Repr

/-- What is recorded of a run. -/
inductive Happening where
  | task (i : Nat) (m : Mark)
  /-- The signal came to show a phase, open or not. -/
  | shown (k : Nat) (isOpen : Bool)
  deriving DecidableEq, Repr

/-- What is recorded of a run, in its order. -/
abbrev Record := List Happening

namespace Mark

/-- The phase for which a token arrives. -/
def arrival? : Mark → Option Nat
  | arrival k => some k
  | _ => none

/-- The phase whose token is handed back. -/
def handback? : Mark → Option Nat
  | handback k => some k
  | _ => none

/-- The failure that somebody is accused of. -/
def accusation? : Mark → Option Failure
  | accusation f => some f
  | _ => none

/-- How many tokens arrive by what a task does, if it does anything. -/
def arrivals : Option Mark → Nat
  | some (arrival _) => 1
  | _ => 0

/-- How many tokens are handed back. -/
def handbacks : Option Mark → Nat
  | some (handback _) => 1
  | _ => 0

end Mark

namespace Record

/-- What a task did. -/
def marks (r : Record) (i : Nat) : List Mark :=
  r.filterMap fun
    | .task j m => if j = i then some m else none
    | _ => none

/-- The phases for which the token of a task arrived. -/
def arrivals (r : Record) (i : Nat) : List Nat := (r.marks i).filterMap Mark.arrival?

/-- The phases whose token a task handed back. -/
def handbacks (r : Record) (i : Nat) : List Nat := (r.marks i).filterMap Mark.handback?

/-- The tasks that gave up their part too early. -/
def desertions (r : Record) : List Nat :=
  r.filterMap fun
    | .task i .desertion => some i
    | _ => none

/-- The failures with which the tasks aborted the run, the first one first. -/
def accusations (r : Record) : List (Nat × Failure) :=
  r.filterMap fun
    | .task i m => m.accusation?.map (i, ·)
    | _ => none

/-- What the signal came to show. -/
def shown (r : Record) : List (Nat × Bool) :=
  r.filterMap fun
    | .shown k isOpen => some (k, isOpen)
    | _ => none

theorem marks_append (r r' : Record) (i : Nat) :
    marks (r ++ r') i = marks r i ++ marks r' i := List.filterMap_append

theorem arrivals_append (r r' : Record) (i : Nat) :
    arrivals (r ++ r') i = arrivals r i ++ arrivals r' i := by
  simp only [arrivals, marks_append, List.filterMap_append]

theorem handbacks_append (r r' : Record) (i : Nat) :
    handbacks (r ++ r') i = handbacks r i ++ handbacks r' i := by
  simp only [handbacks, marks_append, List.filterMap_append]

theorem desertions_append (r r' : Record) :
    desertions (r ++ r') = desertions r ++ desertions r' := List.filterMap_append

theorem accusations_append (r r' : Record) :
    accusations (r ++ r') = accusations r ++ accusations r' := List.filterMap_append

theorem shown_append (r r' : Record) : shown (r ++ r') = shown r ++ shown r' :=
  List.filterMap_append

end Record

/-! ### What a step adds -/

/-- The call of the barrier that an actor is in. -/
def Advance.call? : Advance → Option Call
  | leaving c => some c
  | bounding => none
  | choosing _ => none
  | entering _ c => some c
  | passing _ _ c => some c

/-- What a call does at a barrier that is not halted. -/
def Call.mark? : Call → Option Mark
  | arriving k => some (.arrival k)
  | returning k _ => some (.handback k)
  | _ => none

/-- What a step between two phases does. -/
def Advance.mark? (b : Barrier) (a : Advance) : Option Mark :=
  if b.signal.halt = .running then a.call?.bind Call.mark? else none

/-- What giving up a part in the barrier does. -/
def Farewell.mark? (b : Barrier) (p : Participant) : Farewell → Option Mark
  | checking => if !p.finished && b.launched && b.goesOn then some .desertion else none
  | reading => none
  | accusing phase => some (.accusation (failure p phase))

section

variable {σ : Type}

/-- The call of the barrier that a task is in. -/
def Task.call? (t : Task σ) : Option Call :=
  match t.stage, t.loop with
  | .advancing a, some _ => a.call?
  | _, _ => none

/-- What the next step of a task does at the barrier. -/
def Task.mark? (b : Barrier) (t : Task σ) : Option Mark :=
  match t.stage, t.loop with
  | .advancing a, some _ => a.mark? b
  | .leaving f, some p => f.mark? b p
  | .parting _ f, some p => f.mark? b p
  | .accusing _ f, _ => some (.accusation f)
  | _, _ => none

theorem Task.call?_eq_some {t : Task σ} {c : Call} (h : t.call? = some c) :
    ∃ a p, t.stage = .advancing a ∧ t.loop = some p ∧ a.call? = some c := by
  unfold call? at h
  split at h
  · next a p hs hp => exact ⟨a, p, hs, hp, h⟩
  · cases h

/-- Tokens are moved by calls, and only while the run goes on. -/
theorem Task.mark?_of_call? {b : Barrier} {t : Task σ} {c : Call} (h : t.call? = some c)
    (hr : b.signal.halt = .running) : t.mark? b = c.mark? := by
  obtain ⟨a, p, hs, hp, ha⟩ := t.call?_eq_some h
  simp only [mark?, hs, hp, Advance.mark?, hr, ha, if_true, Option.bind_some]

theorem Task.call?_of_mark? {b : Barrier} {t : Task σ} {m : Mark} (h : t.mark? b = some m)
    (hd : m ≠ .desertion) (ha : ∀ f, m ≠ .accusation f) :
    b.signal.halt = .running ∧ ∃ c, t.call? = some c ∧ c.mark? = some m := by
  -- giving up a part in the barrier moves no token
  have hfarewell (f : Farewell) (p : Participant) : f.mark? b p ≠ some m := by
    cases f with
    | checking =>
      simp only [Farewell.mark?]
      split
      · exact fun he => hd (Option.some.inj he).symm
      · nofun
    | reading => nofun
    | accusing phase => exact fun he => ha _ (Option.some.inj he).symm
  unfold mark? at h
  split at h
  · next a p hs hp =>
    unfold Advance.mark? at h
    split at h
    · next hr =>
      obtain ⟨c, hc, hm⟩ := Option.bind_eq_some_iff.1 h
      exact ⟨hr, c, by simp only [call?, hs, hp, hc], hm⟩
    · cases h
  · exact absurd h (hfarewell _ _)
  · exact absurd h (hfarewell _ _)
  · exact absurd (Option.some.inj h).symm (ha _)
  · cases h

theorem Task.call?_of_arrival {b : Barrier} {t : Task σ} {k : Nat}
    (h : t.mark? b = some (.arrival k)) : t.call? = some (.arriving k) := by
  obtain ⟨-, c, hc, hm⟩ := t.call?_of_mark? h nofun nofun
  cases c <;> cases hm
  exact hc

theorem Task.call?_of_handback {b : Barrier} {t : Task σ} {k : Nat}
    (h : t.mark? b = some (.handback k)) : ∃ wait, t.call? = some (.returning k wait) := by
  obtain ⟨-, c, hc, hm⟩ := t.call?_of_mark? h nofun nofun
  cases c with
  | returning k' wait => cases hm; exact ⟨wait, hc⟩
  | _ => cases hm

/-- What the signal has come to show. -/
def Signal.change (s s' : Signal) : Record :=
  if s.phase = s'.phase ∧ s.isOpen = s'.isOpen then [] else [.shown s'.phase s'.isOpen]

namespace System

/-- What the tasks do at the barrier in a move. -/
def deeds (s : System σ) : Label → Record
  | .act i => ((s.tasks[i]?.bind fun t => t.mark? s.world.barrier).map (.task i)).toList
  | _ => []

variable [Behaviour σ]

/-- What a move adds to the record. -/
def entries (s : System σ) (l : Label) : Record :=
  s.deeds l ++ s.world.barrier.signal.change (s.fire l).world.barrier.signal

/-- The record of a run. -/
def record (s : System σ) : List Label → Record
  | [] => []
  | l :: ls => s.entries l ++ (s.fire l).record ls

theorem record_append (s : System σ) (ls ls' : List Label) :
    s.record (ls ++ ls') = s.record ls ++ (s.run ls).record ls' := by
  induction ls generalizing s with
  | nil => rfl
  | cons l ls ih =>
    simp only [List.cons_append, record, ih, List.append_assoc]
    rfl

theorem record_snoc (s : System σ) (ls : List Label) (l : Label) :
    s.record (ls ++ [l]) = s.record ls ++ (s.run ls).entries l := by
  rw [record_append]
  simp [record]

theorem run_snoc (s : System σ) (ls : List Label) (l : Label) :
    s.run (ls ++ [l]) = (s.run ls).fire l := run_append s ls [l]

/-- What holds of the start with an empty record, and is kept by every move that is made, holds of a
run with its record. -/
theorem run_induction {s₀ : System σ} {P : Record → System σ → Prop} (ls : List Label)
    (hstart : P [] s₀) (hmove : ∀ r s, ∀ l ∈ ls, P r s → P (r ++ s.entries l) (s.fire l)) :
    P (s₀.record ls) (s₀.run ls) := by
  induction ls using List.reverseRecOn with
  | nil => exact hstart
  | append_singleton ls l ih =>
    rw [record_snoc, run_snoc]
    refine hmove _ _ l (by simp) (ih fun r s l' hl => hmove r s l' ?_)
    exact List.mem_append_left _ hl

end System

end

end Lockstep
