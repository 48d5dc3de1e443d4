import Lockstep.Decimal.Layout

/-!
# Writing JSON

* `Json` is the part of JSON that tallies and reports are written in: numbers, and objects with
  keys in a given order;
* `Json.compact` and `Json.pretty` are its two texts.
-/

namespace Lockstep

/-- A JSON text before it is written. -/
inductive Json where
  | word (n : Nat)
  | float (x : Float)
  | object (fields : List (String × Json))

namespace Json

/-- The four hexadecimal digits of a small code point. -/
def hexFour (n : Nat) : List Char :=
  let digits := Nat.toDigits 16 n
  List.replicate (4 - digits.length) '0' ++ digits

/-- One character of a JSON string.  Quotes, backslashes and controls are escaped. -/
def escape (c : Char) : List Char :=
  if c = '"' then ['\\', '"']
  else if c = '\\' then ['\\', '\\']
  else if c = '\n' then ['\\', 'n']
  else if c = '\r' then ['\\', 'r']
  else if c = '\t' then ['\\', 't']
  else if c = '\x08' then ['\\', 'b']
  else if c = '\x0c' then ['\\', 'f']
  else if c.toNat < 0x20 then '\\' :: 'u' :: hexFour c.toNat
  else [c]

/-- A JSON string. -/
def quote (s : String) : List Char := '"' :: s.toList.flatMap escape ++ ['"']

mutual

/-- The text without any blanks. -/
def compact : Json → List Char
  | word n => Nat.toDigits 10 n
  | float x => Decimal.Layout.json.render x
  | object fields => '\x7b' :: compactFields fields ++ ['\x7d']

/-- The fields of an object, separated by commas. -/
def compactFields : List (String × Json) → List Char
  | [] => []
  | [(key, v)] => quote key ++ ':' :: compact v
  | (key, v) :: fields => quote key ++ ':' :: compact v ++ ',' :: compactFields fields

end

/-- The beginning of a line at some depth. -/
def indent (depth : Nat) : List Char := '\n' :: List.replicate (2 * depth) ' '

mutual

/-- The text with a line for every field, at some depth. -/
def prettyAt (depth : Nat) : Json → List Char
  | word n => Nat.toDigits 10 n
  | float x => Decimal.Layout.json.render x
  | object [] => ['\x7b', '\x7d']
  | object (field :: fields) =>
    '\x7b' :: prettyFields (depth + 1) (field :: fields) ++ indent depth ++ ['\x7d']

/-- The fields of an object, each on a line of its own. -/
def prettyFields (depth : Nat) : List (String × Json) → List Char
  | [] => []
  | [(key, v)] => indent depth ++ quote key ++ ':' :: ' ' :: prettyAt depth v
  | (key, v) :: fields =>
    indent depth ++ quote key ++ ':' :: ' ' :: prettyAt depth v ++ ',' :: prettyFields depth fields

end

/-- The text with a line for every field. -/
def pretty (j : Json) : List Char := j.prettyAt 0

end Json

end Lockstep
