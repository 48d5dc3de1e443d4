import Lockstep.Panic

/-!
# Collecting in batches

Events that are sent to the background wait in a queue.  A collector takes them from there and
hands them on in batches: it waits for a first item, takes more while there are any and the batch
is not full, and hands the batch on.

* `Collector` is the queue, the batch in hand and the batches handed on;
* `Collector.step` is one step of the collector, `Collector.send` is one of a sender;
* `Collector.drain` runs the collector until it waits;
* `Collector.batches?` collects bursts of items.
-/

namespace Lockstep

/-- A queue of items and a collector that takes batches from it. -/
structure Collector (α : Type) where
  queue : List α
  /-- The batch in hand, its first item first. -/
  batch : List α
  /-- The batches handed on, the first one first. -/
  batches : List (List α)
  deriving DecidableEq, Repr

namespace Collector

variable {α : Type}

/-- A collector with nothing to do. -/
def idle : Collector α := ⟨[], [], []⟩

/-- Puts an item into the queue. -/
def send (c : Collector α) (a : α) : Collector α := { c with queue := c.queue ++ [a] }

/-- Hands on the batch in hand. -/
def handOn (c : Collector α) : Collector α :=
  { c with batch := [], batches := c.batches ++ [c.batch] }

/-- One step of a collector whose batches have at most `size` items, and at least one; nothing, when
it waits for an item. -/
def step (size : Nat) (c : Collector α) : Option (Collector α) :=
  match c.batch, c.queue with
  | [], [] => none
  | [], a :: queue => some { c with queue, batch := [a] }
  | _ :: _, [] => some c.handOn
  | b :: bs, a :: queue =>
    if (b :: bs).length < size then some { c with queue, batch := b :: bs ++ [a] }
    else some c.handOn

/-- Steps until the collector waits, at most `fuel` of them. -/
def run (size : Nat) (c : Collector α) : (fuel : Nat) → Collector α
  | 0 => c
  | fuel + 1 =>
    match c.step size with
    | none => c
    | some c => c.run size fuel

/-- Runs the collector until it waits.  Every item is taken once and handed on in a batch of its own
or together with others. -/
def drain (size : Nat) (c : Collector α) : Collector α :=
  c.run size (2 * c.queue.length + 2)

/-- The batches in which bursts of items of `width` bytes are collected, each burst once all of it
waits; nothing when there is no room for a batch of `size` items, which is made before the first one
comes. -/
def batches? (width size : Nat) (bursts : List (List α)) : Option (List (List α)) :=
  if memoryHolds width size then
    some (bursts.foldl (fun c burst => (burst.foldl send c).drain size) idle).batches
  else none

end Collector

end Lockstep
