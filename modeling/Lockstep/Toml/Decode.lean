import Lockstep.Decimal.Layout
import Lockstep.Text.Quoted
import Lockstep.Toml.Value
import Lockstep.Word

/-!
# Reading typed data from TOML values

A decoder turns a value into a datum of some type or says what it found and what it wanted.

* `Found` and `Wanted` are the two halves of such a complaint, `DecodeError.message` its wording;
* `asString`, `asBoolean`, `asInteger`, `asNatural`, `asFloat`, `asList`, `asMap` are the decoders.

In a document a date-time counts as a table.  A parameter is normalised with `Value.momentless`
before it is decoded, so that a date-time counts as its text there.
-/

namespace Lockstep.Toml

/-- What a decoder came upon. -/
inductive Found where
  | integer (n : Int)
  | float (x : Float)
  | boolean (b : Bool)
  | string (s : String)
  | sequence
  | map

/-- What a decoder wanted to see. -/
inductive Wanted where
  | string
  | boolean
  | sequence
  | map
  /-- An unsigned number of 64 bits. -/
  | word
  /-- A count of things in memory. -/
  | count
  /-- An unsigned number of 8 bits. -/
  | byte
  /-- A signed number of 64 bits. -/
  | integer
  | float
  /-- A table with certain keys. -/
  | record (name : String)
  | momentText
  /-- A table with an entry and no more. -/
  | oneEntry
  /-- A table with no entry beside those that were asked for. -/
  | fewerEntries
  deriving DecidableEq, Repr

/-- Why a value is no datum of a type. -/
inductive DecodeError where
  | wrongType (found : Found) (wanted : Wanted)
  | outOfRange (n : Int) (wanted : Wanted)
  /-- A table has so many entries. -/
  | wrongLength (n : Nat) (wanted : Wanted)
  | missing (key : String)
  /-- A phase is selected by a number or a text. -/
  | noSelector
  | badDuration (text : String)
  | badRate (text : String)
  /-- A text is no date-time. -/
  | badMoment
  /-- An error whose wording is given. -/
  | stated (text : String)

/-- The wording of what was found. -/
def Found.text : Found → String
  | integer n => "integer `" ++ toString n ++ "`"
  | float x => "floating point `" ++ String.ofList (Decimal.Layout.plain.render x) ++ "`"
  | boolean b => "boolean `" ++ toString b ++ "`"
  | string s => "string " ++ Text.quotedString s
  | sequence => "sequence"
  | map => "map"

/-- The wording of what was wanted. -/
def Wanted.text : Wanted → String
  | string => "a string"
  | boolean => "a boolean"
  | sequence => "a sequence"
  | map => "a map"
  | word => "u64"
  | count => "usize"
  | byte => "u8"
  | integer => "i64"
  | float => "f64"
  | record name => "struct " ++ name
  | momentText => "string containing a datetime"
  | oneEntry => "1 element in map"
  | fewerEntries => "fewer elements in map"

/-- The message of an unreadable duration. -/
def durationComplaint (text : String) : String := "invalid duration `" ++ text ++ "`"

/-- The message of an unreadable rate. -/
def rateComplaint (text : String) : String :=
  "invalid rate `" ++ text ++ "`, expected `<count> per <duration>`"

/-- The wording of an error. -/
def DecodeError.message : DecodeError → String
  | wrongType found wanted => "invalid type: " ++ found.text ++ ", expected " ++ wanted.text
  | outOfRange n wanted =>
    "invalid value: " ++ (Found.integer n).text ++ ", expected " ++ wanted.text
  | wrongLength n wanted =>
    "invalid length " ++ toString n ++ ", expected " ++ wanted.text
  | missing key => "missing field `" ++ key ++ "`"
  | noSelector => "data did not match any variant of untagged enum PhaseSelector"
  | badDuration text => durationComplaint text
  | badRate text => rateComplaint text
  | badMoment => "invalid datetime"
  | stated text => text

/-- What a value is, to a decoder that wanted something else. -/
def Value.found : Value → Found
  | string s => .string s
  | integer n => .integer n
  | float x => .float x
  | boolean b => .boolean b
  | moment _ => .map
  | array _ => .sequence
  | table _ => .map

/-- A way to read a datum from a value. -/
abbrev Decoder (α : Type) := Value → Except DecodeError α

/-- A text. -/
def asString : Decoder String
  | .string s => .ok s
  | v => .error (.wrongType v.found .string)

/-- A truth value. -/
def asBoolean : Decoder Bool
  | .boolean b => .ok b
  | v => .error (.wrongType v.found .boolean)

/-- An integer. -/
def asInteger : Decoder Int
  | .integer n => .ok n
  | v => .error (.wrongType v.found .integer)

/-- A natural number below `limit`. -/
def asNatural (wanted : Wanted) (limit : Nat) : Decoder Nat
  | .integer n => if 0 ≤ n ∧ n < limit then .ok n.toNat else .error (.outOfRange n wanted)
  | v => .error (.wrongType v.found wanted)

/-- A natural number that fits a word. -/
def asWord : Decoder Nat := asNatural .word wordLimit

/-- A float; an integer is rounded to one. -/
def asFloat : Decoder Float
  | .float x => .ok x
  | .integer n => .ok (if n < 0 then -Decimal.ofWord n.natAbs else Decimal.ofWord n.natAbs)
  | v => .error (.wrongType v.found .float)

/-- A list of data of one type. -/
def asList {α : Type} (item : Decoder α) : Decoder (List α)
  | .array vs => vs.mapM item
  | v => .error (.wrongType v.found .sequence)

/-- Keys and data of one type, in the order of the keys. -/
def asMap {α : Type} (item : Decoder α) : Decoder (List (String × α))
  | .table entries => (Table.sorted entries).mapM fun entry => do
    return (entry.1, ← item entry.2)
  | v => .error (.wrongType v.found .map)

/-- The key under which a date-time that is read as a table holds its text. -/
def momentKey : String := "$__toml_private_datetime"

/-- The entries of a table with certain keys. -/
def asRecord (name : String) : Decoder Table
  | .table entries => .ok entries
  | .moment m => .ok [(momentKey, .string m.text)]
  | v => .error (.wrongType v.found (.record name))

end Lockstep.Toml
