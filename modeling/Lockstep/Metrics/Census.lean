import Lockstep.Error
import Lockstep.Metrics.Event
import Lockstep.SortedMap

/-!
# Counting events

* `byActor` puts the events of one actor together;
* `census` counts the events of each operation and actor in each phase.
-/

namespace Lockstep

/-- Events by the name of their actor and by its identity; those of one actor stay in order. -/
def byActor (events : List Event) : List Event :=
  events.mergeSort fun a b => decide (a.actor < b.actor) || (a.actor == b.actor && a.id ≤ b.id)

/-- The name under which an event is counted, and the text of its phase. -/
def Event.place (e : Event) : String × String :=
  (e.key ++ " " ++ actorText e.id, (e.phase.map toString).getD "null")

/-- One more event of a place. -/
def countIn (m : SortedMap String (SortedMap String Nat)) (e : Event) :
    SortedMap String (SortedMap String Nat) :=
  m.alter e.place.1 fun inner => (inner.getD .empty).alter e.place.2 fun n => n.getD 0 + 1

/-- The number of events of each operation and actor in each phase. -/
def census (events : List Event) : SortedMap String (SortedMap String Nat) :=
  events.foldl countIn .empty

end Lockstep
