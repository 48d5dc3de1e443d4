import Lockstep.Bucket
import Lockstep.Clock

/-!
# Drawing a permit

* `Draw` lists the points at which somebody may be who wants a permit;
* `Draw.step` carries such a one on.

A bucket is shared, and others may come between any two steps; only from settling to depositing it
is locked.
-/

namespace Lockstep

/-- Where somebody is who wants a permit. -/
inductive Draw where
  | settling
  | depositing
  | taking
  /-- There was no permit; waits before trying again. -/
  | resting (wake : Nat)
  deriving DecidableEq, Repr

namespace Draw

/-- What a step comes to. -/
inductive Progress where
  /-- The bucket is locked, or it is not yet time to try again. -/
  | blocked
  | moved (d : Draw)
  /-- There is a permit. -/
  | taken
  /-- The pause cannot be computed. -/
  | broken (message : String)

/-- One step towards a permit. -/
def step (now : Nat) (b : Bucket) : Draw → Bucket × Progress
  | settling => if b.pending.isSome then (b, .blocked) else (b.settle now, .moved .depositing)
  | depositing => (b.deposit, .moved .taking)
  | taking =>
    match b.take? with
    | some b => (b, .taken)
    | none =>
      match b.pause with
      | .ok d => (b, .moved (.resting (wakeTime now d)))
      | .error fault => (b, .broken fault.message)
  | resting wake => if wake ≤ now then (b, .moved .settling) else (b, .blocked)

/-- Only whoever takes a permit is answered that there is one, and only if there is. -/
theorem step_eq_taken_iff {now : Nat} {b : Bucket} {d : Draw} :
    (d.step now b).2 = .taken ↔ d = .taking ∧ b.permits ≠ 0 := by
  cases d with
  | settling => simp only [step]; split <;> simp
  | depositing => simp [step]
  | taking =>
    by_cases hempty : b.permits = 0
    · simp only [step, Bucket.take?, if_pos hempty]
      split <;> simp [hempty]
    · simp [step, Bucket.take?, hempty]
  | resting wake => simp only [step]; split <;> simp

/-- A step comes to nothing only if the pause cannot be computed. -/
theorem pause_of_step_eq_broken {now : Nat} {b : Bucket} {d : Draw} {message : String}
    (h : (d.step now b).2 = .broken message) : ∃ fault, b.pause = .error fault := by
  cases d with
  | settling => simp only [step] at h; split at h <;> cases h
  | depositing => cases h
  | taking =>
    simp only [step] at h
    split at h
    · cases h
    · split at h
      · cases h
      · next fault hfault => exact ⟨fault, hfault⟩
  | resting wake => simp only [step] at h; split at h <;> cases h

/-- When a waiting one tries again. -/
def wake? : Draw → Option Nat
  | resting wake => some wake
  | _ => none

end Draw

end Lockstep
