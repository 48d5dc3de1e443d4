import Lockstep.Decimal.Nearest
import Lockstep.Duration
import Lockstep.Text.Numeral
import Lockstep.Word

/-!
# Reading JSON

Typed data are read straight from the text, without a general JSON value in between; the reader
stops at the first character that cannot belong to what it wants.  There are three ways in which
that may fail.

* `Read` is the monad of readers, `Read.Fault` the three ways to fail;
* `word`, `float`, `text`, `object`, `record` are the readers;
* `record` reads a structure from an object, or from an array of its fields in order, and a
  `RecordField` says how one field is read;
* `skip` passes over any value;
* `whole` reads a whole text.
-/

namespace Lockstep.Json

/-- Why a text is not read. -/
inductive Fault where
  /-- It is no JSON. -/
  | malformed
  /-- It is JSON of another shape, type or range. -/
  | mismatched
  /-- It ends too early. -/
  | ended
  deriving DecidableEq, Repr

/-- Takes characters from the front of a text, or fails. -/
abbrev Read := StateT (List Char) (Except Fault)

namespace Read

/-! ### Characters -/

/-- A blank of JSON. -/
def isBlank (c : Char) : Bool := c = ' ' || c = '\n' || c = '\t' || c = '\x0d'

/-- The next character, which stays where it is. -/
def peek : Read (Option Char) := do return (← get).head?

/-- Drops the next character. -/
def drop : Read Unit := modify List.tail

/-- Skips blanks; the next character stays where it is. -/
def peekWord : Read (Option Char) := do
  modify (List.dropWhile isBlank)
  peek

/-- Takes a character that has to be there. -/
def next : Read Char := do
  match ← get with
  | [] => throw .ended
  | c :: rest => set rest; return c

/-- Takes the rest of a word whose first character is known. -/
def keyword : List Char → Read Unit
  | [] => return ()
  | c :: cs => do
    if (← next) = c then keyword cs else throw .malformed

/-- Takes a run of digits. -/
def digits : Read (List Char) := do
  let text ← get
  set (text.dropWhile Text.Numeral.isDigit)
  return text.takeWhile Text.Numeral.isDigit

/-! ### Strings -/

/-- The value of a hexadecimal digit. -/
def hexDigit? (c : Char) : Option Nat :=
  if '0' ≤ c ∧ c ≤ '9' then some (c.toNat - '0'.toNat)
  else if 'a' ≤ c ∧ c ≤ 'f' then some (c.toNat - 'a'.toNat + 10)
  else if 'A' ≤ c ∧ c ≤ 'F' then some (c.toNat - 'A'.toNat + 10)
  else none

/-- Four hexadecimal digits.  The text ends too early when fewer than four bytes are left. -/
def hexFour : Read Nat := do
  let text ← get
  let bytes := (text.take 4).foldl (fun n c => n + c.utf8Size) 0
  -- the escape is cut out of the text by bytes, so wide characters count as several
  if bytes < 4 then throw .ended
  else
    match (text.take 4).mapM hexDigit? with
    | some [a, b, c, d] =>
      set (text.drop 4)
      return ((a * 16 + b) * 16 + c) * 16 + d
    | _ => throw .malformed

/-- A code unit that begins a pair. -/
def isHigh (n : Nat) : Bool := 0xD800 ≤ n && n ≤ 0xDBFF

/-- A code unit that ends a pair. -/
def isLow (n : Nat) : Bool := 0xDC00 ≤ n && n ≤ 0xDFFF

/-- The character after the mark of an escaped code unit; the units of a pair are escaped one after
the other. -/
def codeUnit : Read Char := do
  let n ← hexFour
  if isLow n then throw .malformed
  else if isHigh n then
    if (← next) ≠ '\\' then throw .malformed
    if (← next) ≠ 'u' then throw .malformed
    let m ← hexFour
    if isLow m then return Char.ofNat ((n - 0xD800) * 0x400 + (m - 0xDC00) + 0x10000)
    else throw .malformed
  else return Char.ofNat n

/-- The character after a backslash. -/
def escaped (unit : Read Char) : Read Char := do
  match ← next with
  | '"' => return '"'
  | '\\' => return '\\'
  | '/' => return '/'
  | 'b' => return '\x08'
  | 'f' => return '\x0c'
  | 'n' => return '\n'
  | 'r' => return '\x0d'
  | 't' => return '\t'
  | 'u' => unit
  | _ => throw .malformed

/-- The characters up to the closing quote, at most as many as `bound`. -/
def stringRest (unit : Read Char) : (bound : Nat) → Read (List Char)
  | 0 => throw .ended
  | bound + 1 => do
    match ← next with
    | '"' => return []
    | '\\' =>
      let c ← escaped unit
      return c :: (← stringRest unit bound)
    | c =>
      if c.toNat < 0x20 then throw .malformed
      else return c :: (← stringRest unit bound)

/-- The rest of a string. -/
def textRest : Read String := do
  let length := (← get).length
  return String.ofList (← stringRest codeUnit (length + 1))

/-- Passes over the rest of a string; code units need not be paired. -/
def skipTextRest : Read Unit := do
  let length := (← get).length
  let _ ← stringRest (do let _ ← hexFour; return ' ') (length + 1)

/-! ### Numbers -/

/-- A number as it is read. -/
inductive Number where
  | word (n : Nat)
  | negative (n : Nat)
  | float (x : Float)

/-- The power of ten nearest to `10 ^ k`. -/
def powerOfTen (k : Nat) : Float := Decimal.Scaled.toFloat ⟨1, k⟩

/-- Scales a float by a power of ten in steps of at most 308 places.  A float below one is zero
after two steps. -/
def scale (x : Float) (exponent : Int) : (fuel : Nat) → Read Float
  | 0 => return x
  | fuel + 1 => do
    if exponent.natAbs ≤ 308 then
      if 0 ≤ exponent then
        let y := x * powerOfTen exponent.natAbs
        if y.isInf then throw .malformed else return y
      else return x / powerOfTen exponent.natAbs
    else if x == 0.0 then return x
    else if 0 ≤ exponent then throw .malformed
    else scale (x / powerOfTen 308) (exponent + 308) fuel

/-- The float with a sign, digits and an exponent. -/
def compose (negative : Bool) (significand : Nat) (exponent : Int) : Read Float := do
  let x ← scale (Decimal.ofWord significand) exponent 5
  return if negative then -x else x

/-- Appends digits to a significand while it fits a word; says how many digits were appended. -/
def extend (significand : Nat) : List Char → Nat × Nat
  | [] => (significand, 0)
  | c :: cs =>
    let longer := significand * 10 + Text.Numeral.digit c
    if longer < wordLimit then
      let (s, n) := extend longer cs
      (s, n + 1)
    else (significand, 0)

/-- The greatest exponent that is taken seriously. -/
def exponentMax : Nat := Nat.pow 2 31 - 1

/-- The exponent of a number, and the number. -/
def exponentPart (negative : Bool) (significand : Nat) (start : Int) : Read Float := do
  drop
  let mark ← peek
  if mark = some '+' ∨ mark = some '-' then drop
  let down := mark = some '-'
  match ← peek with
  | none => throw .ended
  | some c => if Text.Numeral.isDigit c then pure () else throw .malformed
  let n := Text.Numeral.value (← digits)
  if exponentMax < n then
    -- such a number is out of range upwards, and zero downwards
    if significand ≠ 0 ∧ ¬ down then throw .malformed
    else return if negative then -0.0 else 0.0
  else compose negative significand (if down then start - n else start + n)

/-- An exponent, or nothing more. -/
def optionalExponent (negative : Bool) (significand : Nat) (exponent : Int) : Read Float := do
  match ← peek with
  | some 'e' | some 'E' => exponentPart negative significand exponent
  | _ => compose negative significand exponent

/-- The places of a number, and the number.  Digits beyond the range of a word are dropped. -/
def fractionPart (negative : Bool) (significand : Nat) (exponent : Int) : Read Float := do
  drop
  let places ← digits
  if places.isEmpty then
    if (← peek).isSome then throw .malformed else throw .ended
  let (longer, used) := extend significand places
  optionalExponent negative longer (exponent - used)

/-- What may follow the digits of an integer. -/
def numberRest (negative : Bool) (significand : Nat) : Read Number := do
  match ← peek with
  | some '.' => return .float (← fractionPart negative significand 0)
  | some 'e' | some 'E' => return .float (← exponentPart negative significand 0)
  | _ =>
    if ¬ negative then return .word significand
    -- minus zero has a sign, which only a float can keep
    else if significand = 0 ∨ Nat.pow 2 63 < significand then
      return .float (-(Decimal.ofWord significand))
    else return .negative significand

/-- A number after its sign.  An integer beyond the range of a word is read as a float. -/
def number (negative : Bool) : Read Number := do
  match ← peek with
  | none => throw .ended
  | some c =>
    if ¬ Text.Numeral.isDigit c then throw .malformed
    let cs ← digits
    match cs with
    | '0' :: _ :: _ => throw .malformed
    | _ =>
      let (significand, used) := extend 0 cs
      if used = cs.length then numberRest negative significand
      else
        -- the digits that did not fit only count for their places
        let exponent : Int := cs.length - used
        match ← peek with
        | some '.' => return .float (← fractionPart negative significand exponent)
        | some 'e' | some 'E' => return .float (← exponentPart negative significand exponent)
        | _ => return .float (← compose negative significand exponent)

/-- Passes over the rest of a number. -/
def skipNumber : Read Unit := do
  match ← digits with
  | [] => throw .malformed
  | '0' :: _ :: _ => throw .malformed
  | _ =>
    if (← peek) = some '.' then
      drop
      if (← digits).isEmpty then throw .malformed
    let mark ← peek
    if mark = some 'e' ∨ mark = some 'E' then
      drop
      let sign ← peek
      if sign = some '+' ∨ sign = some '-' then drop
      if (← digits).isEmpty then throw .malformed

/-! ### Values -/

/-- The complaint about a value of another type; what the value begins with has to be JSON. -/
def wrongType {α : Type} : Read α := do
  match ← peek with
  | some 'n' => drop; keyword "ull".toList
  | some 't' => drop; keyword "rue".toList
  | some 'f' => drop; keyword "alse".toList
  | some '-' => drop; let _ ← number true
  | some '"' => drop; let _ ← textRest
  -- what a list or a table goes on with is not looked at
  | some '[' => pure ()
  | some '\x7b' => pure ()
  | some c =>
    if Text.Numeral.isDigit c then let _ ← number false
    else throw .malformed
  | none => throw .malformed
  throw .mismatched

/-- A number. -/
def anyNumber : Read Number := do
  match ← peekWord with
  | none => throw .ended
  | some '-' => drop; number true
  | some c => if Text.Numeral.isDigit c then number false else wrongType

/-- A natural number below `limit`. -/
def natural (limit : Nat) : Read Nat := do
  match ← anyNumber with
  | .word n => if n < limit then return n else throw .mismatched
  | _ => throw .mismatched

/-- A natural number that fits a word. -/
def word : Read Nat := natural wordLimit

/-- A float; integers are rounded to one. -/
def float : Read Float := do
  match ← anyNumber with
  | .word n => return Decimal.ofWord n
  | .negative n => return -(Decimal.ofWord n)
  | .float x => return x

/-- What comes between the key of an entry and its value. -/
def colon : Read Unit := do
  match ← peekWord with
  | some ':' => drop
  | some _ => throw .malformed
  | none => throw .ended

/-- Passes over any value, at most `fuel` values deep and wide. -/
def skipWithin : (fuel : Nat) → Read Unit
  | 0 => throw .ended
  | fuel + 1 => do
    match ← peekWord with
    | none => throw .ended
    | some 'n' => drop; keyword "ull".toList
    | some 't' => drop; keyword "rue".toList
    | some 'f' => drop; keyword "alse".toList
    | some '-' => drop; skipNumber
    | some '"' => drop; skipTextRest
    | some '[' =>
      drop
      match ← peekWord with
      | none => throw .ended
      | some ']' => drop
      | some _ => items fuel
    | some '\x7b' =>
      drop
      match ← peekWord with
      | none => throw .ended
      | some '\x7d' => drop
      | some _ => entries fuel
    | some c => if Text.Numeral.isDigit c then skipNumber else throw .malformed
where
  /-- Passes over the items of an array and its end. -/
  items : Nat → Read Unit
    | 0 => throw .ended
    | fuel + 1 => do
      skipWithin fuel
      match ← peekWord with
      | none => throw .ended
      | some ',' => drop; items fuel
      | some ']' => drop
      | some _ => throw .malformed
  /-- Passes over the entries of an object and its end. -/
  entries : Nat → Read Unit
    | 0 => throw .ended
    | fuel + 1 => do
      match ← peekWord with
      | none => throw .ended
      | some '"' => drop
      | some _ => throw .malformed
      skipTextRest
      colon
      skipWithin fuel
      match ← peekWord with
      | none => throw .ended
      | some ',' => drop; entries fuel
      | some '\x7d' => drop
      | some _ => throw .malformed

/-- Passes over any value. -/
def skip : Read Unit := do skipWithin (2 * (← get).length + 2)

/-- Takes the next key of an object, or its end. -/
def nextKey (first : Bool) : Read (Option String) := do
  match ← peekWord with
  | none => throw .ended
  | some '\x7d' => drop; return none
  | some c =>
    if ¬ first then
      if c ≠ ',' then throw .malformed
      drop
      match ← peekWord with
      | none => throw .ended
      | some '"' => pure ()
      | some _ => throw .malformed
    else if c ≠ '"' then throw .malformed
    drop
    return some (← textRest)

/-- Reads the entries of an object into `a`, at most as many as `bound`. -/
def entriesWithin {α : Type} (entry : String → α → Read α) (first : Bool) (a : α) :
    (bound : Nat) → Read α
  | 0 => throw .ended
  | bound + 1 => do
    match ← nextKey first with
    | none => return a
    | some key =>
      let a ← entry key a
      entriesWithin entry false a bound

/-- Reads the entries of an object into `a`, after its opening brace. -/
def entriesInto {α : Type} (entry : String → α → Read α) (a : α) : Read α := do
  entriesWithin entry true a ((← get).length + 1)

/-- Reads an object with arbitrary keys. -/
def object {α : Type} (entry : String → α → Read α) (a : α) : Read α := do
  match ← peekWord with
  | none => throw .ended
  | some '\x7b' => drop; entriesInto entry a
  | some _ => wrongType

/-- How a field of a structure is read. -/
structure RecordField (α : Type) where
  name : String
  read : α → Read α

/-- A structure some of whose fields have been read. -/
structure Gathered (α : Type) where
  value : α
  seen : List String

/-- Reads the field of a key; no field may come twice. -/
def fieldEntry {α : Type} (fields : List (RecordField α)) (strict : Bool) (key : String)
    (g : Gathered α) : Read (Gathered α) := do
  match fields.find? fun f => f.name == key with
  | none =>
    if strict then throw .mismatched
    colon
    skip
    return g
  | some f =>
    if g.seen.contains key then throw .mismatched
    colon
    return ⟨← f.read g.value, key :: g.seen⟩

/-- The next item of an array is there. -/
def hasItem (first : Bool) : Read Bool := do
  match ← peekWord with
  | none => throw .ended
  | some ']' => return false
  | some c =>
    if first then return true
    else if c ≠ ',' then throw .malformed
    else
      drop
      match ← peekWord with
      | none => throw .ended
      | some ']' => throw .malformed
      | some _ => return true

/-- Reads the fields of a structure from the items of an array. -/
def fieldItems {α : Type} (first : Bool) (a : α) : List (RecordField α) → Read α
  | [] => return a
  | f :: fields => do
    if ← hasItem first then fieldItems false (← f.read a) fields
    else throw .mismatched

/-- The end of an array all of whose items have been read. -/
def arrayEnd : Read Unit := do
  match ← peekWord with
  | none => throw .ended
  | some ']' => drop
  | some _ => throw .malformed

/-- What all fields of a structure make up, if they fit together. -/
def made {α : Type} (a : Option α) : Read α := a.elim (throw .mismatched) pure

/-- Reads a structure; with `strict` there may be no other fields.  The fields are put together with
`make` as soon as the last one has been read, before the end of the structure is. -/
def record {α β : Type} (fields : List (RecordField α)) (strict : Bool) (a : α)
    (make : α → Option β) : Read β := do
  match ← peekWord with
  | none => throw .ended
  | some '[' =>
    drop
    let b ← made (make (← fieldItems true a fields))
    arrayEnd
    return b
  | some '\x7b' =>
    drop
    let g ← entriesInto (fieldEntry fields strict) ⟨a, []⟩
    if fields.all fun f => g.seen.contains f.name then made (make g.value)
    else throw .mismatched
  | some _ => wrongType

/-- The fields of a duration. -/
def durationFields : List (RecordField (Nat × Nat)) :=
  [⟨"secs", fun d => return (← word, d.2)⟩,
    ⟨"nanos", fun d => return (d.1, ← natural (Nat.pow 2 32))⟩]

/-- A duration: seconds and nanoseconds, of which whole seconds are carried over. -/
def duration : Read Duration :=
  record durationFields true (0, 0) fun d => Duration.ofNanos? (d.1 * 1000000000 + d.2)

/-- Reads a whole text. -/
def whole {α : Type} (r : Read α) (text : List Char) : Except Fault α := do
  let (a, rest) ← r text
  if (rest.dropWhile isBlank).isEmpty then return a else throw .malformed

end Read

end Lockstep.Json
