import Lockstep.Participant
import Lockstep.Store

/-!
# Building actors

While an actor is built it sees its block, its name, its schedule and its parameters, and it may
take part in the barrier and ask for shared state.

* `Setting` is what all actors of a block see;
* `Setting.param?`, `Setting.require`, `Setting.phaseParam?`, `Setting.configure` read parameters;
* `Site` is what building changes, and `Building` the monad of building;
* `takePart` gives an actor its part in the barrier, `shared` a piece of shared state.
-/

namespace Lockstep

open Toml

/-- What the actors of a block see while they are built. -/
structure Setting where
  block : Block
  /-- The position of the block in the workload. -/
  index : Nat
  /-- The name of the block, or else that of its kind. -/
  name : String
  schedule : Schedule

/-- A parameter, if it is there; date-times are read as texts. -/
def lookUp? {α : Type} (params : Table) (key : String) (d : Decoder α) :
    Except DecodeError (Option α) :=
  match params.find? key with
  | none => .ok none
  | some v => (d v.momentless).map some

/-- Reads parameters into a structure, key by key in their order. -/
def fold {α : Type} (set : α → String → Value → Except DecodeError α) (start : α)
    (params : Table) : Except DecodeError α :=
  params.foldlM (fun (a : α) (entry : String × Value) => set a entry.1 entry.2.momentless) start

/-- Reads parameters as they are. -/
def plainParams : Table → Except DecodeError Table :=
  fold (fun params key v => do return params ++ [(key, ← v.recognize .fewerEntries)]) []

namespace Setting

/-- A parameter of the block, if it is there. -/
def param? {α : Type} (s : Setting) (key : String) (d : Decoder α) :
    Except ConfigError (Option α) :=
  (lookUp? s.block.params key d).mapError (.param s.name none)

/-- A parameter of the block that has to be there. -/
def require {α : Type} (s : Setting) (key : String) (d : Decoder α) : Except ConfigError α := do
  match ← s.param? key d with
  | some a => return a
  | none => throw (.missingParam s.name key)

/-- A parameter of a phase, or else of the block, if it is there. -/
def phaseParam? {α : Type} (s : Setting) (plan : PhasePlan) (key : String) (d : Decoder α) :
    Except ConfigError (Option α) :=
  (lookUp? plan.params key d).mapError (.param s.name (some plan.number))

/-- All parameters of a phase, read as one datum. -/
def phaseConfig {α : Type} (s : Setting) (plan : PhasePlan)
    (read : Table → Except DecodeError α) : Except ConfigError α :=
  (read plan.params).mapError (.param s.name (some plan.number))

/-- The parameters of all phases with something to do. -/
def configure {α : Type} (s : Setting) (read : Table → Except DecodeError α) :
    Except ConfigError (SortedMap Nat α) :=
  s.schedule.busy.foldlM (fun (m : SortedMap Nat α) plan => do
    return m.insert plan.number (← s.phaseConfig plan read)) SortedMap.empty

end Setting

/-- What building actors changes. -/
structure Site where
  barrier : Barrier
  store : Store
  nextId : Nat

/-- Builds something; what has been changed stays so even when building fails. -/
abbrev Building := ExceptT (OrPanic SetupError) (StateM Site)

/-- What cannot be configured cannot be built. -/
def configured {α : Type} : Except ConfigError α → Building α
  | .ok a => return a
  | .error e => throw (.error (.config e))

/-- A fresh identity. -/
def nextId : Building Nat := do
  let s ← getThe Site
  set { s with nextId := s.nextId + 1 }
  return s.nextId

/-- Gives an actor its part in the barrier, which requires a token for it. -/
def takePart (s : Setting) (id : Nat) : Building Participant := do
  let site ← getThe Site
  match site.barrier.addTokens? 1 with
  | none => throw .panicked
  | some barrier =>
    set { site with barrier }
    return .fresh s.name id s.index s.schedule

/-- Asks for a piece of shared state. -/
def shared (key : String) (want : CellType) (init : Recipe) : Building Nat := do
  let s ← getThe Site
  let r := s.store.getOrInit key want init
  set { s with store := r.store }
  match r.answer with
  | .value ref => return ref
  | .error e => throw (.error (.state e))
  | .panicked => throw .panicked

end Lockstep
