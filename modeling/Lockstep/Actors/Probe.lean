import Lockstep.Build

/-!
# Actors that look around

A `Probe` asks questions while it is built and notes down the answers; it has nothing else to do.

* `Question` asks for a parameter as a datum of some `Kind`, `Finding` is the datum;
* `Findings` are all the notes of one probe, and `Probe.build` takes them.
-/

namespace Lockstep

open Toml

/-- The kinds of data a parameter may be asked for. -/
inductive Probe.Kind where
  | string
  | integer
  | byte
  | word
  | boolean
  | float
  | strings
  | integers
  | value
  /-- All parameters of a phase, as a structure. -/
  | config
  deriving DecidableEq, Repr

/-- A question about a parameter. -/
structure Probe.Question where
  key : String
  kind : Probe.Kind
  /-- The parameter has to be there. -/
  required : Bool

/-- The parameters of a phase, as a structure. -/
structure Probe.Config where
  messageText : Option String := none
  maxCount : Nat := 0
  ratio : Option Float := none
  tags : List String := []

/-- What a question finds. -/
inductive Probe.Finding where
  | absent
  | string (s : String)
  | integer (n : Int)
  | boolean (b : Bool)
  | float (x : Float)
  | strings (ss : List String)
  | integers (ns : List (String × Int))
  | value (v : Value)
  | config (c : Probe.Config)

/-- The answer to a question. -/
abbrev Probe.Answer := Except ConfigError Probe.Finding

/-- What a probe finds in a phase. -/
structure Probe.PhaseNote where
  number : Nat
  blocking : Bool
  answers : List Probe.Answer

/-- All that a probe has noted down. -/
structure Probe.Findings where
  setting : Setting
  id : Nat
  helpers : List Nat
  answers : List Probe.Answer
  phases : List Probe.PhaseNote
  tokens : Nat
  lastPhase : Option Nat

/-- What probes are to ask. -/
structure Probe.Plan where
  questions : List Probe.Question
  phaseQuestions : List Probe.Question
  /-- How many more identities to allocate. -/
  helpers : Nat
  /-- The first question that fails makes building fail. -/
  strict : Bool

namespace Probe

/-- A probe that asks nothing. -/
def Plan.silent : Plan := ⟨[], [], 0, false⟩

/-- The structure with one more parameter. -/
def Config.set (c : Config) (key : String) (v : Value) : Except DecodeError Config :=
  match key with
  | "MessageText" => do return { c with messageText := some (← asString v) }
  | "MaxCount" => do return { c with maxCount := ← asWord v }
  | "Ratio" => do return { c with ratio := some (← asFloat v) }
  | "Tags" => do return { c with tags := ← asList asString v }
  | _ => .ok c

/-- Reads the structure; the text has to be there. -/
def Config.read (params : Table) : Except DecodeError Config := do
  let c ← fold Config.set {} params
  if c.messageText.isNone then throw (.missing "MessageText")
  return c

/-- Reads a parameter as a datum of some kind. -/
def Kind.decode : Kind → Decoder Finding
  | string => fun v => (asString v).map .string
  | integer => fun v => (asInteger v).map .integer
  | byte => fun v => (asNatural .byte 256 v).map fun n => .integer n
  | word => fun v => (asWord v).map fun n => .integer n
  | boolean => fun v => (asBoolean v).map .boolean
  | float => fun v => (asFloat v).map .float
  | strings => fun v => (asList asString v).map .strings
  | integers => fun v => (asMap asInteger v).map .integers
  | value => fun v => (v.recognize .fewerEntries).map .value
  | config => fun v => do
    let table ← asRecord "PhaseConfig" v
    (Config.read table).map .config

/-- Asks about a parameter of the block. -/
def ask (s : Setting) (q : Question) : Answer :=
  if q.required then s.require q.key q.kind.decode
  else (s.param? q.key q.kind.decode).map fun found => found.getD .absent

/-- Asks about a parameter of a phase. -/
def askPhase (s : Setting) (plan : PhasePlan) (q : Question) : Answer :=
  if q.kind = .config then (s.phaseConfig plan Config.read).map .config
  else (s.phaseParam? plan q.key q.kind.decode).map fun found => found.getD .absent

/-- With `strict` a question that fails makes building fail. -/
def checked (strict : Bool) (as : List Answer) : Building (List Answer) := do
  if strict then
    for a in as do
      let _ ← configured a
  return as

/-- `n` fresh identities. -/
def nextIds : Nat → Building (List Nat)
  | 0 => return []
  | n + 1 => do
    let id ← nextId
    return id :: (← nextIds n)

/-- Builds a probe, which takes part in the barrier and gives its part away at once. -/
def build (p : Plan) (s : Setting) (id : Nat) : Building Findings := do
  let helpers ← nextIds p.helpers
  let answers ← checked p.strict (p.questions.map (ask s))
  let phases ← s.schedule.busy.mapM fun plan => do
    let answers ← checked p.strict (p.phaseQuestions.map (askPhase s plan))
    return (⟨plan.number, plan.blocking, answers⟩ : PhaseNote)
  let _ ← takePart s id
  let site ← getThe Site
  return ⟨s, id, helpers, answers, phases, site.barrier.required, site.barrier.lastPhase⟩

end Probe

end Lockstep
