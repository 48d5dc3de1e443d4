import Lockstep.Actors.Flaky
import Lockstep.Actors.Greeter
import Lockstep.Actors.PoolUser
import Lockstep.Actors.Probe
import Lockstep.Actors.Puppet
import Lockstep.Actors.Script

/-!
# All kinds of actors

* `Mind` is an actor of any kind;
* `Kind` is how the actors of a kind are built;
* `Roster` is the list of the kinds a workload may name, and `Roster.builtin` has those that are
  always there.
-/

namespace Lockstep

/-- An actor of any kind. -/
inductive Mind where
  | greeter (a : Greeter)
  | flaky (a : Flaky)
  | poolUser (a : PoolUser)
  | puppet (a : Puppet)
  | script (a : Script)
  /-- An actor that has looked around while it was built, and has nothing to do. -/
  | probe (f : Probe.Findings)

namespace Mind

/-- What an actor asks for next. -/
def ask : Mind → Ask
  | greeter a => a.ask
  | flaky a => a.ask
  | poolUser a => a.ask
  | puppet a => a.ask
  | script a => a.ask
  | probe _ => .finish .completed

/-- How an actor takes an answer. -/
def hear : Mind → Nat → Reply → Mind
  | greeter a, _, r => greeter (a.hear r)
  | flaky a, _, r => flaky (a.hear r)
  | poolUser a, _, r => poolUser (a.hear r)
  | puppet a, now, r => puppet (a.hear now r)
  | script a, now, r => script (Behaviour.hear a now r)
  | probe f, _, _ => probe f

instance : Behaviour Mind := ⟨ask, hear⟩

end Mind

/-- How the actors of a kind are built. -/
structure Kind where
  /-- The name of a block without a name of its own. -/
  defaultName : String
  /-- Builds an actor with an identity, and perhaps its part in the barrier. -/
  build : Setting → Nat → Building (Mind × Option Participant)

namespace Kind

/-- Actors that greet. -/
def greeter : Kind where
  defaultName := "HelloWorld"
  build s id := do
    let (a, loop) ← Greeter.build s id
    return (.greeter a, some loop)

/-- Actors that fail on purpose. -/
def flaky : Kind where
  defaultName := "Flaky"
  build s id := do
    let (a, loop) ← Flaky.build s id
    return (.flaky a, some loop)

/-- Actors that fail at once. -/
def broken : Kind where
  defaultName := "Broken"
  build s id := do
    let _ ← configured (s.configure FlakyPlan.read)
    let loop ← takePart s id
    return (.script (.atOnce (.failed (.workload (.text "connection refused")))), some loop)

/-- Actors that need a database, which is not to be had unless somebody has registered one. -/
def needsDatabase : Kind where
  defaultName := "NeedsDatabase"
  build _ _ := do
    let _ ← shared "Database" .text (.fails "no database configured")
    return (.script (.atOnce .completed), none)

/-- Actors that share a pool. -/
def poolUser : Kind where
  defaultName := "PoolUser"
  build s id := do
    let (a, loop) ← PoolUser.build s id
    return (.poolUser a, some loop)

/-- Actors that follow orders. -/
def puppet : Kind where
  defaultName := "Puppet"
  build s id := do
    let _ ← configured (s.configure plainParams)
    let loop ← takePart s id
    return (.puppet .idle, some loop)

/-- Actors whose part in the barrier has been given to somebody else. -/
def bystander : Kind where
  defaultName := "Puppet"
  build s id := do
    let _ ← configured (s.configure plainParams)
    let _ ← takePart s id
    return (.script (.atOnce .completed), none)

/-- Actors that look around. -/
def probe (p : Probe.Plan) : Kind where
  defaultName := "Probe"
  build s id := do
    let findings ← Probe.build p s id
    return (.probe findings, none)

end Kind

/-- The kinds of actors a workload may name. -/
abbrev Roster := SortedMap String Kind

namespace Roster

/-- Enters a kind under a name; of two kinds with one name the later one counts. -/
def enter (r : Roster) (name : String) (k : Kind) : Roster := r.insert name k

/-- The warning about a name that is entered once more. -/
def enterNotes (r : Roster) (name : String) : List Note :=
  if r.contains name then
    [⟨.warn, "Actor type `" ++ name ++ "` registered twice, keeping the latest"⟩]
  else []

/-- The kinds that are always there. -/
def builtin : Roster := SortedMap.empty.insert Kind.greeter.defaultName Kind.greeter

/-- The names in a printed set. -/
def listing (r : Roster) : String :=
  "\x7b" ++ String.intercalate ", " (r.keys.map Text.quotedString) ++ "\x7d"

end Roster

end Lockstep
