import Lockstep.Error
import Lockstep.Metrics.Background
import Lockstep.Note

/-!
# Recording operations

Finished operations go to a sink, which may refuse them.  It keeps them, or sends them to the
background, where they are added up.

* `Sink` remembers the events it has accepted, and how often it was asked; what it accepts is
  decided by a judge, as long as there is anybody to take the event;
* `Sink.totals?` is what is left of the events in the end;
* `Measurement` is an operation under way, with the counters its actor has added so far;
* `Sink.report` ends an operation and records it.
-/

namespace Lockstep

/-- What becomes of an event. -/
inductive Verdict where
  | accept
  | refuse (reason : String)
  /-- Nobody is there to take it. -/
  | gone
  deriving DecidableEq, Repr

/-- Where finished operations go. -/
structure Sink where
  /-- Decides about an event, given how often the sink was asked before. -/
  judge : Nat → Event → Verdict
  /-- How often the sink was asked. -/
  asked : Nat
  /-- The events accepted so far, the last one first. -/
  accepted : List Event
  /-- Where they are sent, unless the sink keeps them. -/
  background : Option Background

namespace Sink

/-- A sink that keeps everything. -/
def memory : Sink := ⟨fun _ _ => .accept, 0, [], none⟩

/-- A sink that keeps `n` events and refuses the others. -/
def limited (n : Nat) : Sink :=
  ⟨fun asked _ => if asked < n then .accept else .refuse "backend down", 0, [], none⟩

/-- A sink that sends everything to the background, where batches have at most `size` events. -/
def streaming (size : Nat) : Sink := ⟨fun _ _ => .accept, 0, [], some (.fresh size)⟩

/-- A sink behind which there is nobody any more. -/
def abandoned : Sink := ⟨fun _ _ => .accept, 0, [], some .broken⟩

instance : Inhabited Sink := ⟨memory⟩

/-- The events accepted so far, in their order. -/
def events (s : Sink) : List Event := s.accepted.reverse

/-- The events that the sink has kept. -/
def kept (s : Sink) : List Event := if s.background.isNone then s.events else []

/-- What becomes of the next event: the judge decides while there is anybody to take it. -/
def verdict (s : Sink) (e : Event) : Verdict :=
  if s.background.any Background.isBroken then .gone else s.judge s.asked e

/-- Takes an event. -/
def accept (s : Sink) (e : Event) : Sink :=
  { s with accepted := e :: s.accepted, background := s.background.map (Background.send · e) }

/-- Records an event. -/
def record (s : Sink) (e : Event) : Sink × Except MetricsError Unit :=
  let asked : Sink := { s with asked := s.asked + 1 }
  match s.verdict e with
  | .accept => (asked.accept e, .ok ())
  | .refuse reason => (asked, .error (.rejected e.key reason))
  | .gone => (asked, .error (.disconnected e.key))

/-- An accepted event comes after all others; a refused one leaves no trace among them. -/
theorem events_record (s : Sink) (e : Event) :
    (s.record e).1.events =
      if s.verdict e = .accept then s.events ++ [e] else s.events := by
  unfold record
  split <;> simp_all [events, accept]

/-! ### The background -/

/-- The background has events to add up. -/
def isBusy (s : Sink) : Bool := s.background.any Background.isBusy

/-- A turn of the background. -/
def work (s : Sink) : Sink := { s with background := s.background.map Background.work }

/-- What is left of the events in the end. -/
inductive Totals where
  | tally (t : Tally)
  /-- Nothing, since the background has broken down. -/
  | lost
  deriving DecidableEq, Repr

/-- What is left of the events in the end; nothing can be said when the events that were kept cannot
be added up. -/
def totals? (s : Sink) : Option Totals :=
  match s.background with
  | none => (Tally.ofEvents? s.events).map .tally
  | some b => some (b.work.tally.elim .lost .tally)

end Sink

/-- An operation of an actor that can be measured. -/
structure Operation where
  actor : String
  name : String
  id : Nat
  deriving DecidableEq, Repr

/-- An operation under way. -/
structure Measurement where
  operation : Operation
  phase : Option Nat
  started : Nat
  documents : Nat
  bytes : Nat
  iterations : Nat
  deriving DecidableEq, Repr

namespace Measurement

/-- An operation that begins. -/
def begin (o : Operation) (phase : Option Nat) (now : Nat) : Measurement :=
  ⟨o, phase, now, 0, 0, 0⟩

/-- Adds to the counters, which have to fit a word. -/
def add? (m : Measurement) (documents bytes iterations : Nat) : Option Measurement := do
  return { m with
    documents := ← addWord? m.documents documents
    bytes := ← addWord? m.bytes bytes
    iterations := ← addWord? m.iterations iterations }

/-- The event of an operation that ends. -/
def event (m : Measurement) (outcome : Outcome) (now : Nat) : Event where
  actor := m.operation.actor
  id := m.operation.id
  operation := m.operation.name
  phase := m.phase
  started := m.started
  finished := now
  outcome := outcome
  documents := m.documents
  bytes := m.bytes
  iterations := m.iterations

/-- The warning about an operation that ends without a report. -/
def lostNote (m : Measurement) : Note :=
  ⟨.warn, "Operation " ++ operationKey m.operation.actor m.operation.name ++ " ("
    ++ actorText m.operation.id ++ ") was never reported"⟩

end Measurement

/-- Ends an operation and records it. -/
def Sink.report (s : Sink) (m : Measurement) (outcome : Outcome) (now : Nat) :
    Sink × Except MetricsError Unit :=
  s.record (m.event outcome now)

end Lockstep
