import Lockstep.Duration

/-!
# Measured operations

* `Event` is one finished operation of an actor;
* `Event.key` is the name under which it is counted.
-/

namespace Lockstep

/-- How an operation ended. -/
inductive Outcome where
  | success
  | failure
  deriving DecidableEq, Repr

/-- The name of an outcome. -/
def Outcome.text : Outcome → String
  | success => "Success"
  | failure => "Failure"

/-- One finished operation. -/
structure Event where
  actor : String
  id : Nat
  operation : String
  /-- The phase in progress when it began, if anybody keeps track of phases. -/
  phase : Option Nat
  started : Nat
  finished : Nat
  outcome : Outcome
  documents : Nat
  bytes : Nat
  iterations : Nat
  deriving DecidableEq, Repr

/-- The name under which the operations of an actor are counted. -/
def operationKey (actor operation : String) : String := actor ++ "." ++ operation

namespace Event

/-- How long the operation took. -/
def duration (e : Event) : Duration := .between e.started e.finished

/-- The name under which the operation is counted. -/
def key (e : Event) : String := operationKey e.actor e.operation

/-- The operation succeeded. -/
def isSuccess (e : Event) : Bool := e.outcome = .success

end Event

end Lockstep
