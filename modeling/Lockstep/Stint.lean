import Lockstep.Barrier
import Lockstep.Bucket.Draw
import Lockstep.Schedule

/-!
# Iterations of a phase

A `Stint` is an actor's share of one phase.  Before every iteration the actor asks whether there is
another one; the answer comes after the pauses that the plan of the phase wants.

* `Pace` lists the points at which such a question may be;
* `Pace.step` carries a question on: it goes on at once, it suspends the actor, or it is answered.

A question that asks for no pause at all suspends the actor once by `Pace.yielding`.
-/

namespace Lockstep

/-- The text that goes with a sum that does not fit a word. -/
def overflowText : String := "attempt to add with overflow"

/-- An actor's share of a phase. -/
structure Stint where
  plan : PhasePlan
  /-- The last phase of the run. -/
  last : Nat
  started : Nat
  /-- The iterations granted so far. -/
  iterations : Nat

namespace Stint

/-- The share of a phase that begins. -/
def begin (plan : PhasePlan) (last : Nat) (now : Nat) : Stint := ⟨plan, last, now, 0⟩

/-- The run is over for this stint: it is halted, all its phases have closed, or the phase is not
open and did not wait for the actor. -/
def isHalted (s : Stint) (signal : Signal) : Bool :=
  signal.halt ≠ .running || s.last < signal.phase
    || (!s.plan.blocking && !(signal.phase = s.plan.number && signal.isOpen))

/-- The policy of the phase is exhausted. -/
def isSpent (s : Stint) (now : Nat) (b : Barrier) : Bool :=
  s.plan.policy.isSpent s.iterations (.between s.started now) (b.isEndAsked s.plan.number)

end Stint

/-- Where the question for another iteration is. -/
inductive Pace where
  | asked
  /-- In the pause after an iteration. -/
  | coolingDown (wake : Nat)
  /-- Looks at the signal. -/
  | checking (waited : Bool)
  /-- Asks the policy. -/
  | weighing (waited : Bool)
  /-- In the pause before an iteration. -/
  | warmingUp (wake : Nat)
  /-- Wants a permit. -/
  | drawing (d : Draw)
  /-- Lets the other actors go first. -/
  | yielding
  /-- Looks at the signal once more, and answers. -/
  | deciding
  deriving DecidableEq, Repr

namespace Pace

/-- What a step comes to. -/
inductive Progress where
  /-- It is not yet time to go on. -/
  | blocked
  | moved (p : Pace)
  /-- The actor is suspended, and goes on from here. -/
  | yielded (p : Pace)
  | answered (granted : Bool)
  | broken (message : String)

/-- What comes after the pauses before an iteration. -/
def afterPauses (plan : PhasePlan) (waited : Bool) : Pace :=
  if plan.rate.isSome then drawing .settling
  else if waited then deciding else yielding

/-- One step of the question.  The bucket is that of the phase, for a phase with a rate. -/
def step (now : Nat) (b : Barrier) (bucket : Option Bucket) (s : Stint) :
    Pace → Option Bucket × Stint × Progress
  | asked =>
    match s.plan.sleepAfter with
    | some d =>
      -- there is no iteration yet after which to pause
      if 0 < s.iterations then (bucket, s, .moved (.coolingDown (wakeTime now d)))
      else (bucket, s, .moved (.checking false))
    | none => (bucket, s, .moved (.checking false))
  | coolingDown wake =>
    (bucket, s, if wake ≤ now then .moved (.checking true) else .blocked)
  | checking waited =>
    (bucket, s, if s.isHalted b.signal then .answered false else .moved (.weighing waited))
  | weighing waited =>
    -- no pause is made before an iteration that will not come
    if s.isSpent now b then (bucket, s, .answered false)
    else
      match s.plan.sleepBefore with
      | some d => (bucket, s, .moved (.warmingUp (wakeTime now d)))
      | none => (bucket, s, .moved (afterPauses s.plan waited))
  | warmingUp wake =>
    (bucket, s, if wake ≤ now then .moved (afterPauses s.plan true) else .blocked)
  | drawing d =>
    match bucket with
    | none => (bucket, s, .moved .deciding)
    | some bucket =>
      match d.step now bucket with
      | (bucket, .blocked) => (some bucket, s, .blocked)
      | (bucket, .moved d) => (some bucket, s, .moved (.drawing d))
      | (bucket, .taken) => (some bucket, s, .moved .deciding)
      | (bucket, .broken message) => (some bucket, s, .broken message)
  | yielding => (bucket, s, .yielded .deciding)
  | deciding =>
    -- the run may have been halted in one of the pauses
    if s.isHalted b.signal then (bucket, s, .answered false)
    else
      match addWord? s.iterations 1 with
      | some n => (bucket, { s with iterations := n }, .answered true)
      | none => (bucket, s, .broken overflowText)

/-- When a question that waits for the clock goes on. -/
def wake? : Pace → Option Nat
  | coolingDown wake => some wake
  | warmingUp wake => some wake
  | drawing d => d.wake?
  | _ => none

end Pace

end Lockstep
