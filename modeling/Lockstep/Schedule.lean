import Lockstep.Config
import Lockstep.Policy
import Lockstep.SortedMap

/-!
# Schedules

The schedule of a block says what its actors do in which phases.  It is worked out once for the
block and shared by all of its actors.

* `PhasePlan` is what a block does in one phase;
* `PhasePlan.ofEntry` checks an entry and works out the plan of one of its phases;
* `Schedule.ofBlock` works out the whole schedule; every phase may be described only once.
-/

namespace Lockstep

open Toml

/-- What a block does in one phase. -/
structure PhasePlan where
  number : Nat
  policy : Policy
  /-- The phase stays open until the actor has finished its work. -/
  blocking : Bool
  /-- There is nothing to do. -/
  nop : Bool
  sleepBefore : Option Duration
  sleepAfter : Option Duration
  rate : Option Rate
  /-- The parameters of the block, with those of the phase put over them. -/
  params : Table

namespace PhasePlan

/-- The plan of a phase with nothing to do. -/
def idle (number : Nat) (params : Table) : PhasePlan where
  number := number
  policy := .count 0
  blocking := false
  nop := true
  sleepBefore := none
  sleepAfter := none
  rate := none
  params := params

/-- What the keys of an entry say about blocking. -/
def blockingOf (e : PhaseItem) : Except String Bool :=
  match e.blocking with
  | none => .ok true
  | some text =>
    if text = "None" then .ok false
    else .error ("Blocking only accepts \"None\", got \"" ++ text ++ "\"")

/-- What the keys of an entry say about repetition. -/
def policyOf (e : PhaseItem) (blocking : Bool) : Except String Policy :=
  match e.repeats, e.duration, e.untilSignaled with
  | some n, none, false => .ok (.count n)
  | none, some d, false => .ok (.time d)
  | some n, some d, false => .ok (.countAndTime n d)
  | none, none, true => .ok .untilSignaled
  | none, none, false =>
    if blocking then .error "a blocking phase needs Repeat, Duration or UntilSignaled"
    else .ok .unbounded
  | _, _, true => .error "UntilSignaled cannot be combined with Repeat or Duration"

/-- The plan of phase `number` that an entry describes. -/
def ofEntry (actor : String) (number : Nat) (e : PhaseItem) (params : Table) :
    Except ConfigError PhasePlan :=
  let params := Table.sorted (Table.overlay params e.params)
  -- with nothing to do, the other keys are not even checked
  if e.nop then .ok (idle number params)
  else
    let plan : Except String PhasePlan := do
      let blocking ← blockingOf e
      let policy ← policyOf e blocking
      return { number, policy, blocking, nop := false, sleepBefore := e.sleepBefore
               sleepAfter := e.sleepAfter, rate := e.globalRate, params }
    plan.mapError (.invalidPhase actor number)

end PhasePlan

/-- The phases a block has something to say about. -/
abbrev Schedule := SortedMap Nat PhasePlan

namespace Schedule

/-- The schedule with one more phase. -/
def add (actor : String) (params : Table) (e : PhaseItem) (s : Schedule) (number : Nat) :
    Except (OrPanic ConfigError) Schedule :=
  if s.contains number then .error (.error (.duplicatePhase actor number))
  else do
    let plan ← (PhasePlan.ofEntry actor number e params).mapError .error
    return s.insert number plan

/-- The phases of the entry at a position. -/
def phasesOf (actor : String) (index : Nat) (e : PhaseItem) :
    Except (OrPanic ConfigError) (List Nat) :=
  match e.phase with
  | none => .ok [index]
  | some selector => selector.phases.mapError (.map fun fault =>
      .invalidPhase actor index fault.message)

/-- The schedule of a block. -/
def ofBlock (actor : String) (b : Block) : Except (OrPanic ConfigError) Schedule :=
  b.phases.zipIdx.foldlM
    (fun (s : Schedule) (item : PhaseItem × Nat) => do
      let numbers ← phasesOf actor item.2 item.1
      numbers.foldlM (add actor b.params item.1) s)
    SortedMap.empty

/-- The phases with something to do, in ascending order. -/
def busy (s : Schedule) : List PhasePlan := s.values.filter fun plan => !plan.nop

end Schedule

end Lockstep
