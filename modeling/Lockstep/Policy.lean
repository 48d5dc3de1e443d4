import Lockstep.Duration

/-!
# Iteration policies

A policy decides how often an actor repeats its work within a phase.

* `Policy.isSpent` asks it after so many iterations and so much time;
* `Policy.heedsSignal` tells the one policy that looks at the end request of its phase.
-/

namespace Lockstep

/-- How often the work of a phase is repeated. -/
inductive Policy where
  | count (n : Nat)
  | time (d : Duration)
  /-- Until both the count and the time are reached. -/
  | countAndTime (n : Nat) (d : Duration)
  /-- Until the end of the phase is requested. -/
  | untilSignaled
  /-- Until the phase closes. -/
  | unbounded
  deriving DecidableEq, Repr

namespace Policy

/-- The policy looks at the end request of its phase. -/
def heedsSignal : Policy → Bool
  | untilSignaled => true
  | _ => false

/-- Nothing is left to do after so many iterations and so much time. -/
def isSpent (p : Policy) (iterations : Nat) (elapsed : Duration) (endAsked : Bool) : Bool :=
  match p with
  | count n => n ≤ iterations
  | time d => d.nanos ≤ elapsed.nanos
  | countAndTime n d => n ≤ iterations && d.nanos ≤ elapsed.nanos
  | untilSignaled => endAsked
  | unbounded => false

/-- Only the policy that heeds the signal depends on it. -/
theorem isSpent_congr {p : Policy} (h : p.heedsSignal = false) (n : Nat) (d : Duration)
    (a b : Bool) : p.isSpent n d a = p.isSpent n d b := by
  cases p <;> first | rfl | simp [heedsSignal] at h

end Policy

end Lockstep
