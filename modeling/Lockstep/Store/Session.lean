import Lockstep.Store

/-!
# Sessions with a store

In a `Store.Session` requests are made to a store one after the other.  It remembers the cells
that the answers handed out, so that a later request can change one of them, and counts the recipes
used.

* `Store.Request` lists what can be asked for;
* `Store.Session.ask` answers a request.
-/

namespace Lockstep

namespace Store

/-- What can be asked of a store. -/
inductive Request where
  | register (key : String) (r : Recipe)
  | get (key : String) (want : CellType)
  | getOrInit (key : String) (want : CellType) (init : Recipe)
  | getOrDefault (key : String) (want : CellType)
  /-- Changes the cell that a request handed out, given by the number of that request. -/
  | bump (request : Nat) (more : Cell)
  | contains (key : String)
  | describe (key : String) (want : CellType)

/-- What comes of a request. -/
inductive Reply where
  | registered (r : Except StateError Unit)
  | cell (c : Except StateError (Option Cell))
  | panicked
  /-- The cell after a change, if there is one. -/
  | bumped (c : Option Cell)
  | contains (b : Bool)
  | description (key text : String)

end Store

/-- How a key together with the type of its value is shown. -/
def describeKey (key : String) (want : CellType) : String :=
  "StateKey<" ++ want.name ++ ">(" ++ key ++ ")"

/-- A store, and what came of the requests so far. -/
structure Store.Session where
  store : Store
  /-- The cell that each request handed out. -/
  handedOut : List (Option Nat)
  /-- How many recipes of requests have been used. -/
  built : Nat

namespace Store.Session

/-- The session in which nothing was asked for. -/
def fresh : Session := ⟨.empty, [], 0⟩

/-- A request was answered without handing out a cell. -/
def pass (s : Session) (store : Store) : Session :=
  { s with store, handedOut := s.handedOut ++ [none] }

/-- A question for a value was answered.  A recipe counts when it was `told`. -/
def answered (s : Session) (r : Store.Resolved) (told : Bool) :
    Session × Store.Reply × List Note :=
  let built := match r.used with
    | some .registered => 1
    | some .asker => if told then 1 else 0
    | none => 0
  let s : Session := { s with store := r.store, built := s.built + built }
  match r.answer with
  | .value ref =>
    ({ s with handedOut := s.handedOut ++ [some ref] }, .cell (.ok (r.store.cell? ref)), r.notes)
  | .error e => (s.pass r.store, .cell (.error e), r.notes)
  | .panicked => (s.pass r.store, .panicked, r.notes)

/-- Answers a request. -/
def ask (s : Session) : Store.Request → Session × Store.Reply × List Note
  | .register key r =>
    match s.store.register key r with
    | .ok store => (s.pass store, .registered (.ok ()), [])
    | .error e => (s.pass s.store, .registered (.error e), [])
  | .get key want => s.answered (s.store.get key want) true
  | .getOrInit key want init => s.answered (s.store.getOrInit key want init) true
  | .getOrDefault key want => s.answered (s.store.getOrDefault key want) false
  | .bump request more =>
    match s.handedOut[request]? with
    | some (some ref) =>
      let store := s.store.bump ref more
      (s.pass store, .bumped (store.cell? ref), [])
    | _ => (s.pass s.store, .bumped none, [])
  | .contains key => (s.pass s.store, .contains (s.store.contains key), [])
  | .describe key want => (s.pass s.store, .description key (describeKey key want), [])

end Store.Session

end Lockstep
