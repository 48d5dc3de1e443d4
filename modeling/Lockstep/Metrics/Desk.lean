import Lockstep.Barrier.Crowd
import Lockstep.Clock
import Lockstep.Metrics.Sink
import Lockstep.SortedMap

/-!
# A desk for measurements

At a `Desk` operations are begun, counted and ended by name, all of them recorded in one sink.  The
background of the sink has its turn while nothing else is done, that is, when time passes.

* `Desk` holds the operations and the measurements under way;
* `Desk.Order` lists what can be done, `Desk.carryOut` does it;
* `Desk.close` gives up all measurements that are left.
-/

namespace Lockstep

/-- Operations, measurements under way, and the sink they are recorded in. -/
structure Desk where
  now : Nat
  sink : Sink
  barrier : Barrier
  /-- Events are stamped with the phase of the barrier. -/
  tracksPhases : Bool
  operations : SortedMap String Operation
  live : SortedMap String Measurement

namespace Desk

/-- How a measurement is to end. -/
inductive End where
  | report (o : Outcome)
  | discard
  /-- Without saying anything. -/
  | drop
  deriving DecidableEq, Repr

/-- What can be done at a desk. -/
inductive Order where
  | operation (handle : String) (o : Operation)
  /-- Begins a measurement; one under the same name is dropped. -/
  | start (name handle : String)
  | add (name : String) (documents bytes iterations : Nat)
  | finish (name : String) (e : End)
  | sleep (d : Duration)
  /-- Lets the phase in progress open and close. -/
  | phase

/-- What comes of an order. -/
inductive Reply where
  | nothing
  | operation (o : Operation)
  /-- There is no such measurement. -/
  | unknown
  | recorded (r : Except MetricsError Unit)
  | discarded
  | dropped
  /-- Whether the phase opened, whether another one follows, and the phase in progress then. -/
  | phase (started more : Bool) (current : Nat)

/-- The phase that a measurement is stamped with. -/
def stamp (d : Desk) : Option Nat := if d.tracksPhases then some d.barrier.currentPhase else none

/-- Carries a barrier call on; one that does not end, or ends with an error, counts as a no. -/
def call (b : Barrier) (c : Call) : Barrier × Bool :=
  let a := Crowd.advance b c Crowd.callLength
  match a.state with
  | .inr (.answered (.ok r)) => (a.barrier, r)
  | _ => (a.barrier, false)

/-- Ends a measurement. -/
def finish (d : Desk) (name : String) (m : Measurement) (e : End) : Desk × Reply × List Note :=
  let rest := { d with live := d.live.filter fun key _ => key != name }
  match e with
  | .report o =>
    let (sink, r) := d.sink.report m o d.now
    ({ rest with sink }, .recorded r, [])
  | .discard => (rest, .discarded, [])
  | .drop => (rest, .dropped, [m.lostNote])

/-- Carries out an order; nothing comes of it when a counter would not fit a word. -/
def carryOut (d : Desk) : Order → Option (Desk × Reply × List Note)
  | .operation handle o =>
    some ({ d with operations := d.operations.insert handle o }, .operation o, [])
  | .start name handle =>
    match d.operations.find? handle with
    | none => some (d, .unknown, [])
    | some o =>
      let m := Measurement.begin o d.stamp d.now
      let notes := (d.live.find? name).elim [] fun old => [old.lostNote]
      some ({ d with live := d.live.insert name m }, .nothing, notes)
  | .add name documents bytes iterations =>
    match d.live.find? name with
    | none => some (d, .unknown, [])
    | some m => do
      let m ← m.add? documents bytes iterations
      return ({ d with live := d.live.insert name m }, .nothing, [])
  | .finish name e =>
    match d.live.find? name with
    | none => some (d, .unknown, [])
    | some m => some (d.finish name m e)
  | .sleep t =>
    let now := wakeTime d.now t
    let sink := if d.now < now then d.sink.work else d.sink
    some ({ d with now, sink }, .nothing, [])
  | .phase =>
    let k := d.barrier.currentPhase
    let (barrier, started) := call d.barrier (.start k)
    let (barrier, more) := call barrier (.finish k true)
    some ({ d with barrier }, .phase started more barrier.currentPhase, [])

/-- The warnings about all measurements that are left. -/
def close (d : Desk) : List Note := d.live.values.map Measurement.lostNote

end Desk

end Lockstep
