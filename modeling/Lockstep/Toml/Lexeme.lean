import Lockstep.Decimal.Nearest
import Lockstep.Text.Numeral
import Lockstep.Toml.Scan
import Lockstep.Toml.Value
import Lockstep.Word

/-!
# The words of TOML

Blanks and comments, strings in their four forms, keys, numbers, and date-times.

* `text?` decides which characters stand for themselves;
* `string?`, `key`, `moment`, `decimalFloat`, `specialFloat`, `integer` scan one word each;
* `nestingLimit` bounds both the parts of a dotted key and the depth of values.
-/

namespace Lockstep.Toml

open Scan

/-- One past the greatest number of parts of a key, and one past the greatest depth of a value. -/
def nestingLimit : Nat := 80

/-! ### Blanks -/

/-- Space or tab. -/
def isSpace (c : Char) : Bool := c = ' ' || c = '\t'

/-- A character that may stand in a text as it is: a tab, or no control. -/
def text? (c : Char) : Bool := c = '\t' || (0x20 ≤ c.toNat && c.toNat ≠ 0x7F)

/-- Takes spaces and tabs. -/
def spaces : Scan Unit := do let _ ← run isSpace

/-- Takes the end of a line, when there is one. -/
def lineEnd? : Scan Bool := do
  if ← accept "\n" then return true else accept "\x0d\n"

/-- Takes a comment up to the end of its line, when there is one. -/
def comment? : Scan Bool := do
  if ← accept "#" then
    let _ ← run text?
    return true
  else return false

/-- Takes spaces, ends of lines and comments. -/
def gap : Scan Unit := do
  let _ ← many do
    spaces
    if ← lineEnd? then return some ()
    else if ← comment? then return some ()
    else return none

/-- Takes what may follow at the end of a line: spaces, a comment, the end. -/
def lineRest : Scan Unit := do
  spaces
  let _ ← comment?
  if (← get).isEmpty then return ()
  else if ← lineEnd? then return ()
  else failure

/-! ### Strings -/

/-- The value of a hexadecimal digit. -/
def hexDigit? (c : Char) : Option Nat :=
  if '0' ≤ c ∧ c ≤ '9' then some (c.toNat - '0'.toNat)
  else if 'a' ≤ c ∧ c ≤ 'f' then some (c.toNat - 'a'.toNat + 10)
  else if 'A' ≤ c ∧ c ≤ 'F' then some (c.toNat - 'A'.toNat + 10)
  else none

/-- The number that a run of hexadecimal digits denotes. -/
def hexValue (cs : List Char) : Nat :=
  cs.foldl (fun n c => 16 * n + (hexDigit? c).getD 0) 0

/-- The character of a code point given by `n` hexadecimal digits. -/
def codePoint (n : Nat) : Scan Char := do
  let digits ← exactly n fun c => (hexDigit? c).isSome
  let code := hexValue digits
  -- halves of surrogate pairs are no characters
  if code < 0xD800 ∨ (0xDFFF < code ∧ code < 0x110000) then return Char.ofNat code
  else failure

/-- What follows a backslash. -/
def escaped : Scan Char := do
  match ← next with
  | 'b' => return '\x08'
  | 't' => return '\t'
  | 'n' => return '\n'
  | 'f' => return '\x0c'
  | 'r' => return '\x0d'
  | '"' => return '"'
  | '\\' => return '\\'
  | 'u' => codePoint 4
  | 'U' => codePoint 8
  | _ => failure

/-- The rest of a string between double quotes. -/
def basicRest : Scan String := do
  let (cs, ()) ← collect (do if ← accept "\"" then return some () else return none) do
    if ← accept "\\" then escaped
    else
      let c ← next
      if text? c then return c else failure
  return String.ofList cs

/-- The rest of a string between single quotes. -/
def literalRest : Scan String := do
  let cs ← run fun c => text? c && c ≠ '\''
  expect "'"
  return String.ofList cs

/-- Takes three quotes and the quotes right after them that belong to the text, at most two of
them. -/
def closingQuotes (quote : Char) : Scan (Option (List Char)) := do
  if ← accept (String.ofList [quote, quote, quote]) then
    let more := ((← get).take 2).takeWhile (· = quote)
    drop more.length
    return some more
  else return none

/-- Takes one character of a text of several lines, or the end of a line. -/
def lineText : Scan (List Char) := do
  if ← lineEnd? then return ['\n']
  else
    let c ← next
    if text? c then return [c] else failure

/-- Takes a backslash at the end of a line and everything blank after it. -/
def joinedLines : Scan Unit := do
  expect "\\"
  spaces
  unless ← lineEnd? do failure
  let _ ← many do
    let cs ← run isSpace
    if ← lineEnd? then return some ()
    else if cs.isEmpty then return none
    else return some ()

/-- The rest of a text of several lines between triple quotes; a backslash at the end of a line
joins it with the next word. -/
def multilineBasicRest : Scan String := do
  let _ ← lineEnd?
  let (pieces, last) ← collect (closingQuotes '"') do
    if (← attempt joinedLines).isSome then return []
    else if ← accept "\\" then return [← escaped]
    else lineText
  return String.ofList (pieces.flatten ++ last)

/-- The rest of a text of several lines between triple single quotes. -/
def multilineLiteralRest : Scan String := do
  let _ ← lineEnd?
  let (pieces, last) ← collect (closingQuotes '\'') lineText
  return String.ofList (pieces.flatten ++ last)

/-- A string of one line, when there is one. -/
def lineString? : Scan (Option String) := do
  if ← accept "\"" then return some (← basicRest)
  else if ← accept "'" then return some (← literalRest)
  else return none

/-- A string, when there is one. -/
def string? : Scan (Option String) := do
  if ← accept "\"\"\"" then return some (← multilineBasicRest)
  else if ← accept "\'\'\'" then return some (← multilineLiteralRest)
  else lineString?

/-! ### Keys -/

/-- A character that may stand in a key without quotes. -/
def isKeyChar (c : Char) : Bool :=
  Text.Numeral.isDigit c || ('a' ≤ c && c ≤ 'z') || ('A' ≤ c && c ≤ 'Z') || c = '_' || c = '-'

/-- One part of a key. -/
def keyPart : Scan String := do
  match ← lineString? with
  | some s => return s
  | none =>
    match ← run isKeyChar with
    | [] => failure
    | cs => return String.ofList cs

/-- A part of a key with blanks around it. -/
def paddedKeyPart : Scan String := do
  spaces
  let part ← keyPart
  spaces
  return part

/-- A key: its parts, separated by dots. -/
def key : Scan (List String) := do
  let first ← paddedKeyPart
  let rest ← many do
    if ← accept "." then return some (← paddedKeyPart) else return none
  if rest.length + 1 < nestingLimit then return first :: rest else failure

/-! ### Numbers -/

/-- The sign of a number; `true` stands for minus. -/
def sign : Scan Bool := do
  if ← accept "-" then return true
  else
    let _ ← accept "+"
    return false

/-- A run of digits of some kind; single underscores between digits are left out. -/
def digitRun (p : Char → Bool) : Scan (List Char) := do
  let first ← exactly 1 p
  let rest ← many do
    if ← accept "_" then return some (← exactly 1 p)
    else
      match ← run p with
      | [] => return none
      | cs => return some cs
  return first ++ rest.flatten

/-- The digits of a decimal integer: no zero before other digits. -/
def wholeDigits : Scan (List Char) := do
  if ← accept "0" then return ['0'] else digitRun Text.Numeral.isDigit

/-- An integer of 64 bits, given by sign and magnitude. -/
def signed (negative : Bool) (magnitude : Nat) : Scan Int :=
  let n : Int := if negative then -(magnitude : Int) else magnitude
  if fitsSigned n then return n else failure

/-- An integer to base sixteen, eight or two after its mark, or else a decimal one. -/
def integer : Scan Int := do
  if ← accept "0x" then signed false (hexValue (← digitRun fun c => (hexDigit? c).isSome))
  else if ← accept "0o" then
    let cs ← digitRun fun c => '0' ≤ c && c ≤ '7'
    signed false (cs.foldl (fun n c => 8 * n + Text.Numeral.digit c) 0)
  else if ← accept "0b" then
    let cs ← digitRun fun c => c = '0' || c = '1'
    signed false (cs.foldl (fun n c => 2 * n + Text.Numeral.digit c) 0)
  else
    let negative ← sign
    signed negative (Text.Numeral.value (← wholeDigits))

/-- The exponent of a float, when there is one. -/
def exponent? : Scan (Option Int) := do
  if (← accept "e") || (← accept "E") then
    let negative ← sign
    let n := Text.Numeral.value (← digitRun Text.Numeral.isDigit)
    return some (if negative then -(n : Int) else n)
  else return none

/-- A float with a fraction, an exponent, or both.  Positive numbers beyond the greatest float are
refused. -/
def decimalFloat : Scan Float := do
  let negative ← sign
  let whole ← wholeDigits
  let fraction ← if ← accept "." then some <$> digitRun Text.Numeral.isDigit else pure none
  let exponent ← exponent?
  if fraction.isNone && exponent.isNone then failure
  let places := fraction.getD []
  let x := Decimal.Scaled.toFloat
    ⟨Text.Numeral.value (whole ++ places), exponent.getD 0 - places.length⟩
  -- negative ones that are too great become infinite
  if negative then return -x
  else if x.isInf then failure
  else return x

/-- Infinity or what is no number, with or without a sign. -/
def specialFloat : Scan Float := do
  let negative ← sign
  let x : Float ←
    if ← accept "inf" then pure (1 / 0)
    else if ← accept "nan" then pure (0 / 0)
    else failure
  return if negative then -x else x

/-! ### Dates and times -/

/-- A number of exactly `n` digits. -/
def fixed (n : Nat) : Scan Nat := do
  return Text.Numeral.value (← exactly n Text.Numeral.isDigit)

/-- A date that exists. -/
def date : Scan Date := do
  let year ← fixed 4
  expect "-"
  let month ← fixed 2
  expect "-"
  let day ← fixed 2
  let d : Date := { year, month, day }
  if d.valid then return d else failure

/-- The fraction of a second in nanoseconds; further digits are dropped. -/
def secondFraction : Scan Nat := do
  if ← accept "." then
    let first ← exactly 1 Text.Numeral.isDigit
    let digits := (first ++ (← run Text.Numeral.isDigit)).take 9
    return Text.Numeral.value digits * Nat.pow 10 (9 - digits.length)
  else return 0

/-- A time of day. -/
def clock : Scan Clock := do
  let hour ← fixed 2
  expect ":"
  let minute ← fixed 2
  expect ":"
  let second ← fixed 2
  let nanos ← secondFraction
  let c : Clock := { hour, minute, second, nanos }
  if c.valid then return c else failure

/-- An offset from UTC. -/
def offset : Scan Offset := do
  if (← accept "Z") || (← accept "z") then return .utc
  else
    let negative ← if ← accept "-" then pure true else do expect "+"; pure false
    let hour ← fixed 2
    expect ":"
    let minute ← fixed 2
    if hour ≤ 23 ∧ minute ≤ 59 then
      let n : Int := (hour * 60 + minute : Nat)
      return .minutes (if negative then -n else n)
    else failure

/-- A date-time: a date, perhaps with a time and an offset, or a time. -/
def moment : Scan Moment := do
  match ← attempt date with
  | none => return { date := none, clock := some (← clock), offset := none }
  | some d =>
    let later ← attempt do
      match ← next with
      | 'T' | 't' | ' ' =>
        let c ← clock
        return (c, ← attempt offset)
      | _ => failure
    match later with
    | some (c, o) => return { date := some d, clock := some c, offset := o }
    | none => return { date := some d, clock := none, offset := none }

end Lockstep.Toml
