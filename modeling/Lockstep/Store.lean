import Lockstep.Error
import Lockstep.Note
import Lockstep.SortedMap

/-!
# Shared state

Actors share values that are addressed by a key and built at most once, by whoever asks first.  A
value that could not be built is never tried again.

* `Cell` is a shared value, and `Recipe` is how one comes about;
* `Store` holds the entries of the keys and the cells that have been built;
* `Store.register` says beforehand how the value of a key is built;
* `Store.get`, `Store.getOrInit` ask for a value.  Asking takes two steps, between which others may
  come: `Store.enter` finds the entry, and `Store.resolve` builds its value if need be, under the
  lock of the entry.
-/

namespace Lockstep

/-- The types of shared values. -/
inductive CellType where
  | counter
  | text
  deriving DecidableEq, Repr

/-- The name of a type. -/
def CellType.name : CellType → String
  | counter => "Int"
  | text => "Text"

/-- A shared value: a signed counter of 64 bits, or a text. -/
inductive Cell where
  | counter (n : Int)
  | text (s : String)
  deriving DecidableEq, Repr

/-- The signed number of 64 bits that a sum wraps around to. -/
def wrapSigned (n : Int) : Int := (n + Nat.pow 2 63) % Nat.pow 2 64 - Nat.pow 2 63

namespace Cell

/-- The type of a value. -/
def type : Cell → CellType
  | counter _ => .counter
  | text _ => .text

/-- The value of a type before anything happened to it. -/
def initial : CellType → Cell
  | .counter => counter 0
  | .text => text ""

/-- Adds to a counter, which wraps around, or appends to a text. -/
def bump : Cell → Cell → Cell
  | counter n, counter m => counter (wrapSigned (n + m))
  | text s, text t => text (s ++ t)
  | c, _ => c

end Cell

/-- How a value comes about. -/
inductive Recipe where
  | value (c : Cell)
  | fails (reason : String)
  | panics
  deriving DecidableEq, Repr

/-- The value of a key. -/
inductive Slot where
  | empty
  /-- The number of a cell. -/
  | ready (ref : Nat)
  | failed (reason : String)
  deriving DecidableEq, Repr

/-- What is known about a key. -/
structure Entry where
  /-- The recipe given beforehand, until it has been used. -/
  factory : Option Recipe
  slot : Slot
  deriving DecidableEq, Repr

/-- All keys, and the values that have been built. -/
structure Store where
  entries : SortedMap String Entry
  cells : Array Cell
  deriving DecidableEq, Repr

namespace Store

/-- The store without keys. -/
def empty : Store := ⟨.empty, #[]⟩

instance : Inhabited Store := ⟨empty⟩

/-- The value a cell has now. -/
def cell? (s : Store) (ref : Nat) : Option Cell := s.cells[ref]?

/-- Changes a cell. -/
def bump (s : Store) (ref : Nat) (more : Cell) : Store :=
  { s with cells := s.cells.modify ref (Cell.bump · more) }

/-- The key has an entry. -/
def contains (s : Store) (key : String) : Bool := s.entries.contains key

/-- The keys in a printed list. -/
def listing (s : Store) : String :=
  "SharedStateRegistry \x7b keys: ["
    ++ String.intercalate ", " (s.entries.keys.map Text.quotedString) ++ "] \x7d"

/-- Says how the value of a new key is built. -/
def register (s : Store) (key : String) (r : Recipe) : Except StateError Store :=
  if s.contains key then .error (.alreadyRegistered key)
  else .ok { s with entries := s.entries.insert key ⟨some r, .empty⟩ }

/-! ### Asking for a value -/

/-- Which recipe was used. -/
inductive Origin where
  | registered
  /-- The one that came with the question. -/
  | asker
  deriving DecidableEq, Repr

/-- The answer to a question for a value. -/
inductive Answer where
  | value (ref : Nat)
  | error (e : StateError)
  /-- The recipe panicked. -/
  | panicked
  deriving DecidableEq, Repr

/-- What a question comes to. -/
structure Resolved where
  store : Store
  answer : Answer
  used : Option Origin
  notes : List Note

/-- The answer that gives a cell to somebody who wants one of a type. -/
def handOut (s : Store) (key : String) (want : CellType) (ref : Nat) : Answer :=
  if (s.cell? ref).any fun c => c.type = want then .value ref
  else .error (.typeMismatch key want.name)

/-- Uses a recipe for a key whose slot is empty. -/
def build (s : Store) (key : String) (want : CellType) (e : Entry) (used : Origin) :
    Recipe → Resolved
  | .value c =>
    let ref := s.cells.size
    -- the cell stays, also when the asker turns out to want another type
    let s : Store :=
      { entries := s.entries.insert key { e with slot := .ready ref }, cells := s.cells.push c }
    ⟨s, s.handOut key want ref, some used, [⟨.debug, "Constructed shared state `" ++ key ++ "`"⟩]⟩
  | .fails reason =>
    let e' : StateError := .construction key reason
    ⟨{ s with entries := s.entries.insert key { e with slot := .failed e'.message } },
      .error e', some used, [⟨.warn, e'.message⟩]⟩
  | .panics => ⟨{ s with entries := s.entries.insert key e }, .panicked, some used, []⟩

/-- Answers from the entry of a key; an empty slot is filled with the recipe given beforehand, or
else with that of the asker. -/
def resolve (s : Store) (key : String) (want : CellType) (init : Option Recipe) : Resolved :=
  match s.entries.find? key with
  | none => ⟨s, .error (.unregistered key), none, []⟩
  | some e =>
    match e.slot with
    | .ready ref => ⟨s, s.handOut key want ref, none, []⟩
    | .failed reason => ⟨s, .error (.previouslyFailed key reason), none, []⟩
    | .empty =>
      match e.factory, init with
      -- a recipe given beforehand wins over that of the asker, and is used up
      | some r, _ => s.build key want { e with factory := none } .registered r
      | none, some r => s.build key want e .asker r
      | none, none => ⟨s, .error (.unregistered key), none, []⟩

/-- Finds the entry of a key, making one when the asker brings a recipe. -/
def enter (s : Store) (key : String) (init : Option Recipe) : Store :=
  if init.isSome ∧ s.contains key = false then
    { s with entries := s.entries.insert key ⟨none, .empty⟩ }
  else s

/-- Asks for the value of a key that has been registered. -/
def get (s : Store) (key : String) (want : CellType) : Resolved := s.resolve key want none

/-- Asks for the value of a key, with a recipe in case there is none yet. -/
def getOrInit (s : Store) (key : String) (want : CellType) (init : Recipe) : Resolved :=
  (s.enter key (some init)).resolve key want (some init)

/-- Asks for the value of a key, which is the initial one of its type if there is none yet. -/
def getOrDefault (s : Store) (key : String) (want : CellType) : Resolved :=
  s.getOrInit key want (.value (.initial want))

end Store

end Lockstep
