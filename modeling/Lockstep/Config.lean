import Lockstep.Error
import Lockstep.Rate
import Lockstep.Toml.Reader
import Lockstep.Toml.Recognize

/-!
# Workload documents

A workload is a TOML document: an optional `Timeout` and a list `Actors` of actor blocks, each with
its own list `Phases`.  Keys that are not understood are kept as parameters of the block or the
phase they stand in.

* `Workload`, `Block`, `PhaseItem` are the document and its parts;
* `Duration.parse` and `Rate.parse` read a duration and a rate, or say what cannot be read;
* `Workload.decode` reads them from a table, key by key in the order of the document, and
  `Workload.read` from a text;
* `Workload.validate` asks for at least one actor and no block without threads.
-/

namespace Lockstep

open Toml

/-- One entry of a block's list of phases. -/
structure PhaseItem where
  /-- The phases it describes; its position in the list, when there is none. -/
  phase : Option Selector := none
  repeats : Option Nat := none
  duration : Option Duration := none
  untilSignaled : Bool := false
  /-- The text `None` makes the phase non-blocking. -/
  blocking : Option String := none
  nop : Bool := false
  sleepBefore : Option Duration := none
  sleepAfter : Option Duration := none
  globalRate : Option Rate := none
  params : Table := []

/-- A block of actors of one type. -/
structure Block where
  /-- The kind of actor to build. -/
  actorType : String
  name : Option String
  threads : Nat
  phases : List PhaseItem
  params : Table

/-- A workload document. -/
structure Workload where
  /-- The run is stopped after this long. -/
  timeout : Option Duration := none
  actors : List Block := []

/-- Reads a duration; the error has the text as it is. -/
def Duration.parse (text : String) : Except ConfigError Duration :=
  match Duration.read? text.toList with
  | some d => .ok d
  | none => .error (.invalidDuration text)

/-- Reads a rate; the error has the text as it is. -/
def Rate.parse (text : String) : Except ConfigError Rate :=
  match Rate.read? text.toList with
  | some r => .ok r
  | none => .error (.invalidRate text)

/-- A duration given by its text. -/
def asDuration : Decoder Duration := fun v => do
  let text ← asString v
  match Duration.parse text with
  | .ok d => return d
  | .error _ => throw (.badDuration text)

/-- A rate given by its text. -/
def asRate : Decoder Rate := fun v => do
  let text ← asString v
  match Rate.parse text with
  | .ok r => return r
  | .error _ => throw (.badRate text)

/-- A phase number or the text of a range. -/
def asSelector : Decoder Selector
  | .integer n => if 0 ≤ n then .ok (.number n.toNat) else .error .noSelector
  | .string text => .ok (.range text)
  | _ => .error .noSelector

/-- Parameters as they are kept: in the order of their keys, with date-times recognised. -/
def keptParams (params : Table) : Except DecodeError Table := do
  return Table.sorted (← recognizeEntries .oneEntry params)

namespace PhaseItem

/-- The entry with one more key of its table. -/
def set (e : PhaseItem) (key : String) (v : Value) : Except DecodeError PhaseItem :=
  match key with
  | "Phase" => do return { e with phase := some (← asSelector v) }
  | "Repeat" => do return { e with repeats := some (← asWord v) }
  | "Duration" => do return { e with duration := some (← asDuration v) }
  | "UntilSignaled" => do return { e with untilSignaled := ← asBoolean v }
  | "Blocking" => do return { e with blocking := some (← asString v) }
  | "Nop" => do return { e with nop := ← asBoolean v }
  | "SleepBefore" => do return { e with sleepBefore := some (← asDuration v) }
  | "SleepAfter" => do return { e with sleepAfter := some (← asDuration v) }
  | "GlobalRate" => do return { e with globalRate := some (← asRate v) }
  | _ => .ok { e with params := e.params ++ [(key, v)] }

/-- Reads an entry. -/
def decode : Decoder PhaseItem := fun v => do
  let table ← asRecord "PhaseEntry" v
  let e ← table.foldlM (fun (e : PhaseItem) (entry : String × Value) => e.set entry.1 entry.2) {}
  return { e with params := ← keptParams e.params }

end PhaseItem

namespace Block

/-- A block some of whose keys have been read. -/
structure Gathered where
  actorType : Option String := none
  name : Option String := none
  threads : Nat := 1
  phases : List PhaseItem := []
  params : Table := []

/-- The block with one more key of its table. -/
def Gathered.set (b : Gathered) (key : String) (v : Value) : Except DecodeError Gathered :=
  match key with
  | "Type" => do return { b with actorType := some (← asString v) }
  | "Name" => do return { b with name := some (← asString v) }
  | "Threads" => do return { b with threads := ← asNatural .count wordLimit v }
  | "Phases" => do return { b with phases := ← asList PhaseItem.decode v }
  | _ => .ok { b with params := b.params ++ [(key, v)] }

/-- Reads a block. -/
def decode : Decoder Block := fun v => do
  let table ← asRecord "ActorConfig" v
  let b ← table.foldlM (fun (b : Gathered) (entry : String × Value) => b.set entry.1 entry.2) {}
  match b.actorType with
  | none => throw (.missing "Type")
  | some actorType => return {
      actorType, name := b.name, threads := b.threads, phases := b.phases
      params := ← keptParams b.params }

/-- The name of the block, or else the name of its kind. -/
def displayName (b : Block) : String := b.name.getD b.actorType

end Block

namespace Workload

/-- The workload with one more key of its document; keys that are not understood are ignored. -/
def set (w : Workload) (key : String) (v : Value) : Except DecodeError Workload :=
  match key with
  | "Timeout" => do return { w with timeout := some (← asDuration v) }
  | "Actors" => do return { w with actors := ← asList Block.decode v }
  | _ => .ok w

/-- Reads a workload from a table. -/
def decode (table : Table) : Except DecodeError Workload :=
  table.foldlM (fun (w : Workload) (entry : String × Value) => w.set entry.1 entry.2) {}

/-- A workload has an actor, and each of its blocks has a thread. -/
def validate (w : Workload) : Except ConfigError Workload :=
  if w.actors.isEmpty then .error .noActors
  else
    match w.actors.find? fun b => b.threads = 0 with
    | some b => .error (.noThreads b.displayName)
    | none => .ok w

/-- Why a text is no workload. -/
inductive Fault where
  /-- It is no TOML document. -/
  | notToml
  | config (cause : ConfigError)

/-- Reads a workload from a text. -/
def read (text : List Char) : Except Fault Workload :=
  match Toml.read? text with
  | none => .error .notToml
  | some table =>
    match decode table with
    | .error cause => .error (.config (.parse cause))
    | .ok w => (w.validate).mapError .config

/-- Reads a workload from the bytes of a file; none stands for a file that is not there. -/
def ofBytes (path : String) (bytes : Option ByteArray) : Except Fault Workload :=
  match bytes with
  | none => .error (.config (.read path "No such file or directory (os error 2)"))
  | some bytes =>
    match String.fromUTF8? bytes with
    | none => .error (.config (.read path "stream did not contain valid UTF-8"))
    | some text => read text.toList

end Workload

end Lockstep
