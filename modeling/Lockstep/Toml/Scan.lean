/-!
# Scanning texts

A scanner takes characters from the front of a text and either fails or answers with a value and
the rest of the text.

* `next`, `accept`, `expect`, `run`, `exactly` take characters;
* `many` repeats a scanner until it answers with nothing, `collect` until another one matches; the
  bound of both is the length of the text, which every round shortens.
-/

namespace Lockstep.Toml

/-- Takes characters from the front of a text. -/
abbrev Scan := StateT (List Char) Option

namespace Scan

/-- The next character, which stays where it is; nothing at the end of the text. -/
def peek : Scan (Option Char) := do return (← get).head?

/-- The text starts with `lead`. -/
def sees (lead : String) : Scan Bool := do return lead.toList.isPrefixOf (← get)

/-- Takes the next character. -/
def next : Scan Char := do
  match ← get with
  | [] => failure
  | c :: rest => set rest; return c

/-- Drops `n` characters. -/
def drop (n : Nat) : Scan Unit := modify (List.drop n)

/-- Takes `lead` when the text starts with it. -/
def accept (lead : String) : Scan Bool := do
  if ← sees lead then drop lead.length; return true
  else return false

/-- Takes `lead`, which the text has to start with. -/
def expect (lead : String) : Scan Unit := do
  if ← accept lead then return () else failure

/-- Takes the longest run of characters with a property. -/
def run (p : Char → Bool) : Scan (List Char) := do
  let text ← get
  set (text.dropWhile p)
  return text.takeWhile p

/-- Takes `n` characters, all of them with a property. -/
def exactly (n : Nat) (p : Char → Bool) : Scan (List Char) := do
  let taken := (← get).take n
  if taken.length = n ∧ taken.all p then drop n; return taken
  else failure

/-- Tries a scanner; when it fails nothing is taken. -/
def attempt {α : Type} (s : Scan α) : Scan (Option α) := fun text =>
  match s text with
  | some (a, rest) => some (some a, rest)
  | none => some (none, text)

/-- Repeats a scanner until it answers with nothing. -/
def manyWithin {α : Type} (s : Scan (Option α)) : Nat → Scan (List α)
  | 0 => failure
  | n + 1 => do
    match ← s with
    | none => return []
    | some a => return a :: (← manyWithin s n)

/-- Repeats a scanner until it answers with nothing; every other answer has to take something. -/
def many {α : Type} (s : Scan (Option α)) : Scan (List α) := do
  manyWithin s ((← get).length + 2)

/-- Takes an item with each round until `stop` takes something. -/
def collectWithin {α β : Type} (stop : Scan (Option β)) (item : Scan α) : Nat → Scan (List α × β)
  | 0 => failure
  | n + 1 => do
    match ← stop with
    | some b => return ([], b)
    | none =>
      let a ← item
      let (items, b) ← collectWithin stop item n
      return (a :: items, b)

/-- Takes items until `stop` takes something; every item has to take something. -/
def collect {α β : Type} (stop : Scan (Option β)) (item : Scan α) : Scan (List α × β) := do
  collectWithin stop item ((← get).length + 2)

end Scan

end Lockstep.Toml
