import Lockstep.Toml.Lexeme
import Lockstep.Toml.Outline

/-!
# Reading TOML documents

* `valueWithin` scans a value of bounded depth;
* `line` scans one line of a document;
* `read?` reads a whole document.
-/

namespace Lockstep.Toml

open Scan

/-- A string, a date-time, a number or a boolean. -/
def scalar : Scan Value := do
  match ← string? with
  | some s => return .string s
  | none =>
    if ← accept "true" then return .boolean true
    else if ← accept "false" then return .boolean false
    else
      -- a year could also begin a number, so dates are tried first
      match ← attempt moment with
      | some m => return .moment m
      | none =>
        match ← attempt decimalFloat with
        | some x => return .float x
        | none =>
          match ← attempt specialFloat with
          | some x => return .float x
          | none => return .integer (← integer)

/-- The items after an opening bracket; line ends may stand between them, and a comma may follow
the last one. -/
def itemsRest (item : Scan Value) : Scan (List Value) := do
  gap
  let (items, ()) ← collect (do if ← accept "]" then return some () else return none) do
    let v ← item
    gap
    unless ← accept "," do
      unless ← sees "]" do failure
    gap
    return v
  return items

/-- The entries after an opening brace, all on one line. -/
def entriesRest (item : Scan Value) : Scan Body := do
  spaces
  if ← accept "\x7d" then return []
  else
    let entry : Scan (List String × Value) := do
      let k ← key
      expect "="
      spaces
      let v ← item
      spaces
      return (k, v)
    let first ← entry
    let (rest, ()) ← collect (do if ← accept "\x7d" then return some () else return none) do
      expect ","
      entry
    (first :: rest).foldlM (fun (body : Body) e => body.assign e.1 (.leaf e.2)) []

/-- A value in which arrays and tables are nested at most `depth` deep. -/
def valueWithin : (depth : Nat) → Scan Value
  | 0 => do if (← sees "[") || (← sees "\x7b") then failure else scalar
  | depth + 1 => do
    if ← accept "[" then return .array (← itemsRest (valueWithin depth))
    else if ← accept "\x7b" then return .table (entriesValue (← entriesRest (valueWithin depth)))
    else scalar

/-- Scans one line of a document, or the rest of one after blanks. -/
def line (d : Draft) : Scan Draft := do
  if ← lineEnd? then return d
  else if ← comment? then
    lineRest
    return d
  else if ← accept "[[" then
    let k ← key
    expect "]]"
    lineRest
    d.openItem k
  else if ← accept "[" then
    let k ← key
    expect "]"
    lineRest
    d.openTable k
  else
    let k ← key
    expect "="
    spaces
    let v ← valueWithin (nestingLimit - 1)
    lineRest
    d.assign k v

/-- Scans the lines of a document to its end, at most as many as `bound`. -/
def lines : (bound : Nat) → Draft → Scan Draft
  | 0, _ => failure
  | bound + 1, d => do
    spaces
    if (← get).isEmpty then return d
    else lines bound (← line d)

/-- Reads a document; it may start with a byte order mark. -/
def read? (text : List Char) : Option Table :=
  let body := match text with
    | '\uFEFF' :: rest => rest
    | _ => text
  match lines (body.length + 1) .empty body with
  | some (d, _) => d.finish
  | none => none

end Lockstep.Toml
