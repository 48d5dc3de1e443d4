import Lockstep.Task

/-!
# Actors with a given end

A `Script` waits for some time and ends as it is told.

* `Script` is such an actor;
* `Script.runs` runs one alone, several times over.
-/

namespace Lockstep

/-- An actor that waits and ends. -/
structure Script where
  /-- How long it still waits. -/
  after : Option Duration
  ending : Ending

namespace Script

/-- An actor that ends at once. -/
def atOnce (e : Ending) : Script := ⟨none, e⟩

/-- What such an actor asks for next. -/
def ask (s : Script) : Ask :=
  match s.after with
  | some d => .pause d
  | none => .finish s.ending

instance : Behaviour Script := ⟨ask, fun s _ _ => { s with after := none }⟩

/-- Runs an actor: what comes of it, and the state it is left in. -/
def run (s : Lifecycle) (e : Ending) : Result × Lifecycle :=
  match s.start with
  | .error s => (.refused s, s)
  | .ok s =>
    match s.terminate with
    | .error s => (.refused s, s)
    | .ok s => (.ended e, s)

/-- Runs an actor several times over. -/
def runs (s : Lifecycle) (e : Ending) : Nat → List (Result × Lifecycle)
  | 0 => []
  | n + 1 =>
    let r := run s e
    r :: runs r.2 e n

end Script

/-- The message of a panic that says nothing. -/
def unknownPanic : String := "unknown panic payload"

/-- An actor in a printed list. -/
def instanceListing (name : String) (id : Nat) (s : Lifecycle) : String :=
  "ActorInstance \x7b name: " ++ Text.quotedString name ++ ", id: ActorId(" ++ toString id
    ++ "), state: " ++ s.text ++ ", .. \x7d"

end Lockstep
