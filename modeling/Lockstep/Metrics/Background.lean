import Lockstep.Metrics.Collector
import Lockstep.Metrics.Tally

/-!
# Adding up events in the background

Events may be sent to the background, which collects them in batches and adds them up when it has
its turn.  It breaks down when a sum does not fit, or when memory has no room for a batch; then it
takes no more events, and what it has added up is lost.

* `Background` is the collector together with the tally so far;
* `Background.send` is one step of a sender, `Background.work` a turn of the background.
-/

namespace Lockstep

/-- The bytes that an event takes in a batch. -/
def Event.width : Nat := 120

/-- What adds up events in the background. -/
structure Background where
  /-- The most events of a batch. -/
  size : Nat
  collector : Collector Event
  /-- The sum of all batches handed on, unless the background has broken down. -/
  tally : Option Tally
  deriving DecidableEq, Repr

namespace Background

/-- The background before the first event. -/
def fresh (size : Nat) : Background := ⟨size, .idle, some .empty⟩

/-- A background that has broken down. -/
def broken : Background := ⟨1, .idle, none⟩

/-- It has broken down. -/
def isBroken (b : Background) : Bool := b.tally.isNone

/-- There are events to add up. -/
def isBusy (b : Background) : Bool := !b.collector.queue.isEmpty

/-- Sends an event. -/
def send (b : Background) (e : Event) : Background := { b with collector := b.collector.send e }

/-- A turn: all events that wait are collected, and the batches added up one after the other. -/
def work (b : Background) : Background :=
  let batches := (b.collector.drain b.size).batches
  { b with
    collector := .idle
    tally :=
      if memoryHolds Event.width b.size then
        b.tally.bind fun t => batches.foldlM Tally.consumeAll? t
      else none }

end Background

end Lockstep
