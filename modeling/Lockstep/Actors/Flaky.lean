import Lockstep.Behaviour
import Lockstep.Build

/-!
# Actors that fail on purpose

A `Flaky` actor measures one operation `step` in every iteration.  Its parameters tell it how long
the operation takes and how it ends, and in which iteration the actor fails, panics or leaves.

* `FlakyPlan` are the parameters of a phase;
* `Flaky` is such an actor, and `Flaky.build` builds one.
-/

namespace Lockstep

open Toml

/-- What a flaky actor does in a phase. -/
structure FlakyPlan where
  failAt : Option Nat := none
  panicAt : Option Nat := none
  exitAt : Option Nat := none
  exitEarly : Bool := false
  /-- How long an operation takes, as a text. -/
  work : Option String := none
  /-- How an operation ends. -/
  outcome : Option String := none
  documents : Nat := 0
  bytes : Nat := 0
  extraIterations : Nat := 0

namespace FlakyPlan

/-- The plan with one more parameter. -/
def set (p : FlakyPlan) (key : String) (v : Value) : Except DecodeError FlakyPlan :=
  match key with
  | "FailAt" => do return { p with failAt := some (← asWord v) }
  | "PanicAt" => do return { p with panicAt := some (← asWord v) }
  | "ExitAt" => do return { p with exitAt := some (← asWord v) }
  | "ExitEarly" => do return { p with exitEarly := ← asBoolean v }
  | "Work" => do return { p with work := some (← asString v) }
  | "Outcome" => do return { p with outcome := some (← asString v) }
  | "Documents" => do return { p with documents := ← asWord v }
  | "Bytes" => do return { p with bytes := ← asWord v }
  | "ExtraIterations" => do return { p with extraIterations := ← asWord v }
  | _ => .ok p

/-- Reads the plan of a phase. -/
def read : Table → Except DecodeError FlakyPlan := fold set {}

end FlakyPlan

/-- Where a flaky actor is in its work; `n` is the iteration. -/
inductive Flaky.Step where
  | seeking
  | iterating
  | beginning (n : Nat)
  | working (n : Nat) (d : Duration)
  /-- Reports a failure and fails. -/
  | failing (n : Nat)
  /-- Discards the operation and panics. -/
  | blowing (n : Nat)
  | counting (n : Nat)
  | closing (n : Nat)
  | ended (e : Ending)

/-- An actor that fails on purpose. -/
structure Flaky where
  operation : Operation
  plans : SortedMap Nat FlakyPlan
  /-- The plan of the phase it works in. -/
  plan : FlakyPlan
  step : Flaky.Step

namespace Flaky

/-- Builds a flaky actor. -/
def build (s : Setting) (id : Nat) : Building (Flaky × Participant) := do
  let plans ← configured (s.configure FlakyPlan.read)
  let loop ← takePart s id
  return (⟨⟨s.name, "step", id⟩, plans, {}, .seeking⟩, loop)

/-- An error of the actor's own. -/
def fault (f : WorkloadFault) : Ending := .failed (.workload f)

/-- What a flaky actor asks for next. -/
def ask (a : Flaky) : Ask :=
  match a.step with
  | .seeking => .nextPhase
  | .iterating => .iterate
  | .beginning _ => .begin a.operation
  | .working _ d => .pause d
  | .failing _ => .report .failure
  | .blowing _ => .discard
  | .counting _ => .count a.plan.documents a.plan.bytes a.plan.extraIterations
  | .closing _ =>
    match a.plan.outcome with
    | some "failure" => .report .failure
    | some "discard" => .discard
    | _ => .report .success
  | .ended e => .finish e

/-- The actor goes on with a step. -/
def moveTo (a : Flaky) (step : Step) : Flaky := { a with step }

/-- What comes after the work of an iteration. -/
def afterWork (a : Flaky) (n : Nat) : Flaky :=
  if a.plan.failAt = some n then a.moveTo (.failing n)
  else if a.plan.panicAt = some n then a.moveTo (.blowing n)
  else a.moveTo (.counting n)

/-- What comes after the operation has begun. -/
def afterBegin (a : Flaky) (n : Nat) : Flaky :=
  match a.plan.work with
  | none => a.afterWork n
  | some text =>
    match Duration.parse text with
    | .ok d => a.moveTo (.working n d)
    | .error cause => a.moveTo (.ended (fault (.config cause)))

/-- How a flaky actor takes an answer. -/
def hear (a : Flaky) (r : Reply) : Flaky :=
  match a.step, r with
  | .seeking, .phase (some plan) =>
    let own := (a.plans.find? plan.number).getD {}
    { a with plan := own, step := if own.exitEarly then .ended .completed else .iterating }
  | .seeking, .halted e => a.moveTo (.ended (.failed (.sync e)))
  | .seeking, _ => a.moveTo (.ended .completed)
  | .iterating, .iteration true n => a.moveTo (.beginning n)
  | .iterating, _ => a.moveTo .seeking
  | .beginning n, _ => a.afterBegin n
  | .working n _, _ => a.afterWork n
  | .failing _, .recorded (.error e) => a.moveTo (.ended (.failed (.metrics e)))
  | .failing n, _ => a.moveTo (.ended (fault (.text ("step " ++ toString n ++ " failed"))))
  | .blowing n, _ => a.moveTo (.ended (.panicked ("step " ++ toString n ++ " blew up")))
  | .counting n, _ => a.moveTo (.closing n)
  | .closing _, .recorded (.error e) => a.moveTo (.ended (.failed (.metrics e)))
  | .closing n, _ =>
    a.moveTo (if a.plan.exitAt = some n then .ended .completed else .iterating)
  | .ended e, _ => a.moveTo (.ended e)

instance : Behaviour Flaky := ⟨ask, fun a _ r => a.hear r⟩

end Flaky

end Lockstep
