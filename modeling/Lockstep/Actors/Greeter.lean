import Lockstep.Behaviour
import Lockstep.Build

/-!
# Actors that greet

A `HelloWorld` actor counts to a shared counter: every iteration measures one operation `hello`,
which adds one to the counter and records the greeting of the phase as one document.

* `Greeter` is such an actor, and `Greeter.build` builds one;
* `counterKey` is the key of the shared counter.
-/

namespace Lockstep

/-- The key of the counter that all greeters share. -/
def counterKey : String := "HelloWorldCounter"

/-- Where a greeter is in its work. -/
inductive Greeter.Step where
  | seeking
  | iterating
  | beginning
  | bumping
  | counting
  | reporting
  | ended (e : Ending)

/-- An actor that greets. -/
structure Greeter where
  operation : Operation
  /-- The shared counter. -/
  counter : Nat
  /-- The greeting of each phase. -/
  messages : SortedMap Nat String
  /-- The greeting of the phase it works in. -/
  message : String
  step : Greeter.Step

namespace Greeter

/-- The greeting of a phase without one of its own. -/
def defaultMessage : String := "Hello, World!"

/-- Reads the greeting of a phase. -/
def readMessage : Toml.Table → Except Toml.DecodeError String :=
  fold (fun message key v => if key = "Message" then Toml.asString v else .ok message)
    defaultMessage

/-- Builds a greeter. -/
def build (s : Setting) (id : Nat) : Building (Greeter × Participant) := do
  let messages ← configured (s.configure readMessage)
  let loop ← takePart s id
  let counter ← shared counterKey .counter (.value (.counter 0))
  return (⟨⟨s.name, "hello", id⟩, counter, messages, "", .seeking⟩, loop)

/-- What a greeter asks for next. -/
def ask (g : Greeter) : Ask :=
  match g.step with
  | .seeking => .nextPhase
  | .iterating => .iterate
  | .beginning => .begin g.operation
  | .bumping => .bump g.counter 1
  | .counting => .count 1 g.message.utf8ByteSize 0
  | .reporting => .report .success
  | .ended e => .finish e

/-- The greeter goes on with a step. -/
def moveTo (g : Greeter) (step : Step) : Greeter := { g with step }

/-- How a greeter takes an answer. -/
def hear (g : Greeter) (r : Reply) : Greeter :=
  match g.step, r with
  | .seeking, .phase (some plan) =>
    { g with message := (g.messages.find? plan.number).getD "", step := .iterating }
  | .seeking, .halted e => g.moveTo (.ended (.failed (.sync e)))
  | .seeking, _ => g.moveTo (.ended .completed)
  | .iterating, .iteration true _ => g.moveTo .beginning
  | .iterating, _ => g.moveTo .seeking
  | .beginning, _ => g.moveTo .bumping
  | .bumping, _ => g.moveTo .counting
  | .counting, _ => g.moveTo .reporting
  | .reporting, .recorded (.error e) => g.moveTo (.ended (.failed (.metrics e)))
  | .reporting, _ => g.moveTo .iterating
  | .ended e, _ => g.moveTo (.ended e)

instance : Behaviour Greeter := ⟨ask, fun g _ r => g.hear r⟩

end Greeter

end Lockstep
