import Lockstep.Metrics.Sink

/-!
# Senders and the background side by side

Whoever holds a copy of a sink may send events to the background, at any time.  The background takes
them one by one between the sends, and it is done once nothing waits and the last copy is given up.

* `Background.turn` is one step of the background;
* `Relay` is a sink with the number of its copies;
* `Relay.Move` lists what can happen, `Relay.fire` is what comes of it.
-/

namespace Lockstep

namespace Background

/-- Memory has room for a batch. -/
def hasRoom (b : Background) : Bool := memoryHolds Event.width b.size

/-- One step: an event is taken, or the batch in hand is added up.  Nothing happens when there is
nothing to take; without room for a batch the background breaks down. -/
def turn (b : Background) : Background :=
  if b.hasRoom then
    match b.collector.step b.size with
    | none => b
    | some collector =>
      { b with
        collector
        tally := b.tally.bind fun t =>
          (collector.batches.drop b.collector.batches.length).foldlM Tally.consumeAll? t }
  else { b with tally := none }

/-- It waits for an event. -/
def isWaiting (b : Background) : Bool := b.hasRoom && (b.collector.step b.size).isNone

end Background

/-- One step of the background of a sink. -/
def Sink.turn (s : Sink) : Sink := { s with background := s.background.map Background.turn }

/-- A sink and its copies. -/
structure Relay where
  sink : Sink
  /-- The copies that have not been given up. -/
  senders : Nat
  /-- The background is done. -/
  ended : Bool

namespace Relay

/-- What can happen. -/
inductive Move where
  /-- One of the copies is used. -/
  | send (e : Event)
  /-- A copy is made. -/
  | join
  /-- A copy is given up. -/
  | leave
  /-- The background has its turn. -/
  | turn
  deriving DecidableEq, Repr

/-- A new sink, of which there is one copy. -/
def spawn (size : Nat) : Relay := ⟨.streaming size, 1, false⟩

/-- The background still takes events. -/
def isRunning (r : Relay) : Bool := !r.ended && !r.sink.background.any Background.isBroken

/-- What comes of a move.  Nobody sends, or makes a copy, without a copy. -/
def fire (r : Relay) : Move → Relay
  | .send e => if r.senders = 0 then r else { r with sink := (r.sink.record e).1 }
  | .join => if r.senders = 0 then r else { r with senders := r.senders + 1 }
  | .leave => { r with senders := r.senders - 1 }
  | .turn =>
    if r.isRunning then
      if r.senders = 0 ∧ r.sink.background.any Background.isWaiting then { r with ended := true }
      else { r with sink := r.sink.turn }
    else r

/-- What comes of a list of moves. -/
def run (r : Relay) (ms : List Move) : Relay := ms.foldl fire r

/-- The tally that the background returns, once it is done. -/
def returned? (r : Relay) : Option Tally :=
  if r.ended then r.sink.background.bind Background.tally else none

end Relay

end Lockstep
