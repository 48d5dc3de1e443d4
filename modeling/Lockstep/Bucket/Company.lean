import Lockstep.Bucket.Draw

/-!
# Drawing permits in any order

A `Company` is a bucket, the clock, and those who may want permits of the bucket.  It moves by their
steps, in any order, and with the clock.  Whoever settles the bucket reads the clock and the permits
in one step: a permit that is taken in between might as well be taken before.

* `Company.Move` lists the moves, `Company.fire` carries one out, and `Company.run` a list of them;
* `Company.settled`, `Company.deposited`, `Company.drawn` and `Company.misses` say what comes of a
  move, and `Company.along` collects that along a list of moves;
* `Company.drawn_eq_some_iff` and `Company.misses_iff` say the same by how the step is answered.
-/

namespace Lockstep

/-- Where somebody is after a step, if there is still a permit to be had. -/
def Draw.Progress.next? (d : Draw) : Draw.Progress → Option Draw
  | blocked => some d
  | moved d => some d
  | taken => none
  | broken _ => none

/-- A settlement of a bucket: the time it is for, the fraction of a permit that was left from
before, and the permits that are kept. -/
structure Settlement where
  start : Nat
  finish : Nat
  fraction : Float
  kept : Nat

namespace Settlement

/-- The permits that come with the time, and the new fraction. -/
def accrued (r : Rate) (z : Settlement) : Nat × Float :=
  accrue (.between z.start z.finish) r.perSecond z.fraction

end Settlement

/-- A bucket and those who draw permits from it. -/
structure Company where
  now : Nat
  bucket : Bucket
  /-- Where everybody is who wants a permit. -/
  takers : List (Option Draw)

namespace Company

/-- What may happen. -/
inductive Move where
  /-- Somebody begins to want a permit. -/
  | want (i : Nat)
  | step (i : Nat)
  /-- Somebody does not want a permit any more. -/
  | quit (i : Nat)
  | pass (time : Nat)
  deriving DecidableEq, Repr

/-- A number of actors and a bucket for a rate. -/
def start (r : Rate) (now n : Nat) : Company := ⟨now, .full r now, List.replicate n none⟩

/-- Where the one is who takes a step with a move. -/
def draw? (s : Company) : Move → Option Draw
  | .step i => s.takers[i]?.join
  | _ => none

/-- Carries out a move. -/
def fire (s : Company) : Move → Company
  | .want i =>
    if s.takers[i]?.join = none then { s with takers := s.takers.set i (some .settling) } else s
  | .step i =>
    match s.takers[i]?.join with
    | none => s
    | some d =>
      let (bucket, r) := d.step s.now s.bucket
      { s with bucket, takers := s.takers.set i (r.next? d) }
  | .quit i => { s with takers := s.takers.set i none }
  | .pass time => { s with now := s.now + time }

/-- Carries out moves one after the other. -/
def run (s : Company) (ms : List Move) : Company := ms.foldl fire s

/-- The settlement of the bucket that a move makes. -/
def settled (s : Company) (m : Move) : Option Settlement :=
  match s.draw? m with
  | some .settling =>
    if s.bucket.pending.isSome then none
    else some ⟨s.bucket.last, s.now, s.bucket.fraction, (s.bucket.settle s.now).pending.getD 0⟩
  | _ => none

/-- The permits that a move adds to the bucket. -/
def deposited (s : Company) (m : Move) : Option Nat :=
  match s.draw? m with
  | some .depositing => some (s.bucket.pending.getD 0)
  | _ => none

/-- With a move somebody gets a permit, at this time. -/
def drawn (s : Company) (m : Move) : Option Nat :=
  match s.draw? m with
  | some .taking => if s.bucket.permits = 0 then none else some s.now
  | _ => none

/-- With a move somebody finds no permit in the bucket. -/
def misses (s : Company) (m : Move) : Bool :=
  s.draw? m = some .taking && s.bucket.permits = 0

/-- Somebody gets a permit exactly if the step is answered with it. -/
theorem drawn_eq_some_iff {s : Company} {m : Move} {time : Nat} : s.drawn m = some time ↔
    time = s.now ∧ ∃ d, s.draw? m = some d ∧ (d.step s.now s.bucket).2 = .taken := by
  simp only [Draw.step_eq_taken_iff]
  unfold drawn
  split
  · next hd => rw [hd]; split <;> simp_all [eq_comm]
  · next hd =>
    refine ⟨nofun, ?_⟩
    rintro ⟨-, d, hdraw, rfl, -⟩
    exact absurd hdraw hd

/-- Somebody finds no permit exactly if the step of the one who is about to take it is answered with
something else. -/
theorem misses_iff {s : Company} {m : Move} : s.misses m = true ↔
    s.draw? m = some .taking ∧ (Draw.taking.step s.now s.bucket).2 ≠ .taken := by
  rw [Ne, Draw.step_eq_taken_iff, misses]
  simp

/-- What comes of the moves, one after the other. -/
def along {α : Type} (f : Company → Move → Option α) (s : Company) : List Move → List α
  | [] => []
  | m :: ms => (f s m).toList ++ (s.fire m).along f ms

end Company

end Lockstep
