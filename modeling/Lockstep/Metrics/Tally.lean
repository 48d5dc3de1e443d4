import Lockstep.Metrics.Event
import Lockstep.SortedMap
import Lockstep.Word

/-!
# Tallies

A `Tally` sums up the events of a run, operation by operation.  Tallies of parts can be merged.
Every counter has to fit a word and every total has to be a duration; the answer `none` stands for
a sum that does not.

* `Stats` are the totals of one operation;
* `Tally.consume?` counts an event, `Tally.merge?` adds another tally;
* `Tally.ofEvents?` sums up a list of events.
-/

namespace Lockstep

/-- The totals of one operation. -/
structure Stats where
  count : Nat
  successes : Nat
  failures : Nat
  total : Duration
  max : Duration
  documents : Nat
  bytes : Nat
  iterations : Nat
  deriving DecidableEq, Repr

namespace Stats

/-- The totals of nothing. -/
def zero : Stats := ⟨0, 0, 0, .zero, .zero, 0, 0, 0⟩

/-- The totals of one event. -/
def ofEvent (e : Event) : Stats where
  count := 1
  successes := if e.isSuccess then 1 else 0
  failures := if e.isSuccess then 0 else 1
  total := e.duration
  max := e.duration
  documents := e.documents
  bytes := e.bytes
  iterations := e.iterations

/-- The sum of two totals. -/
def add? (a b : Stats) : Option Stats := do
  return {
    count := ← addWord? a.count b.count
    successes := ← addWord? a.successes b.successes
    failures := ← addWord? a.failures b.failures
    total := ← a.total.add? b.total
    max := a.max.max b.max
    documents := ← addWord? a.documents b.documents
    bytes := ← addWord? a.bytes b.bytes
    iterations := ← addWord? a.iterations b.iterations }

end Stats

/-- The totals of all operations, under their names. -/
abbrev Tally := SortedMap String Stats

namespace Tally

/-- Adds totals to those of an operation. -/
def add? (t : Tally) (key : String) (s : Stats) : Option Tally := do
  let sum ← ((t.find? key).getD .zero).add? s
  return t.insert key sum

/-- Counts an event. -/
def consume? (t : Tally) (e : Event) : Option Tally := add? t e.key (.ofEvent e)

/-- Counts events, one after the other. -/
def consumeAll? (t : Tally) (es : List Event) : Option Tally := es.foldlM consume? t

/-- The tally of a list of events. -/
def ofEvents? (es : List Event) : Option Tally := consumeAll? .empty es

/-- Adds another tally. -/
def merge? (t u : Tally) : Option Tally := u.entries.foldlM (fun t e => add? t e.1 e.2) t

/-- Merges tallies into a new one, in order. -/
def mergeAll? (ts : List Tally) : Option Tally := ts.foldlM merge? .empty

/-- The number of events. -/
def count? (t : Tally) : Option Nat := t.values.foldlM (fun n s => addWord? n s.count) 0

end Tally

end Lockstep
