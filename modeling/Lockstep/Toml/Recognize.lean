import Lockstep.Toml.Decode
import Lockstep.Toml.Lexeme

/-!
# Date-times that are written as tables

A date-time may be handed on as a table with one entry, which holds its text under `momentKey`.
Whoever keeps a value recognises such tables by their first key.

* `Moment.read?` reads the text of a date-time;
* `Value.recognize` puts date-times in the place of such tables, everywhere in a value.
-/

namespace Lockstep.Toml

open Scan

namespace Moment

/-- A time of day; the hour may also be 24. -/
def dayTime : Scan Clock := do
  let hour ← fixed 2
  expect ":"
  let minute ← fixed 2
  expect ":"
  let second ← fixed 2
  let nanos ← secondFraction
  if hour ≤ 24 ∧ minute ≤ 59 ∧ second ≤ 60 then return { hour, minute, second, nanos }
  else failure

/-- An offset from UTC of at most a day. -/
def dayOffset : Scan Offset := do
  if (← accept "Z") || (← accept "z") then return .utc
  else
    let negative ← if ← accept "-" then pure true else do expect "+"; pure false
    let hour ← fixed 2
    expect ":"
    let minute ← fixed 2
    let n : Int := (hour * 60 + minute : Nat)
    if n ≤ 24 * 60 then return .minutes (if negative then -n else n) else failure

/-- A date-time in a text of its own: what ends the text ends the date-time. -/
def whole : Scan Moment := do
  -- a colon after two characters tells a time from a year
  if (← get)[2]? = some ':' then
    return { date := none, clock := some (← dayTime), offset := none }
  else
    let date := some (← Toml.date)
    if (← accept "T") || (← accept "t") || (← accept " ") then
      let clock := some (← dayTime)
      let offset ← if (← get).isEmpty then pure none else some <$> dayOffset
      return { date, clock, offset }
    else return { date, clock := none, offset := none }

/-- Reads the text of a date-time. -/
def read? (text : List Char) : Option Moment :=
  match whole text with
  | some (m, []) => some m
  | _ => none

end Moment

/-- A date-time given by its text. -/
def asMoment : Decoder Moment
  | .string s => (Moment.read? s.toList).elim (.error .badMoment) .ok
  | v => .error (.wrongType v.found .momentText)

mutual

/-- The value with date-times in the place of the tables that stand for them, and with the entries
of all other tables in the order of their keys.  An entry beside the text of a date-time is one too
many; `wanted` says how many there should be. -/
def Value.recognize (wanted : Wanted) : Value → Except DecodeError Value
  | .array items => return .array (← recognizeItems wanted items)
  | .table entries =>
    match entries.head?.filter fun entry => entry.1 == momentKey with
    | some entry => do
      let m ← asMoment entry.2
      if entries.length = 1 then return .moment m
      else throw (.wrongLength entries.length wanted)
    | none => return .table (Table.sorted (← recognizeEntries wanted entries))
  | v => .ok v

/-- The values of an array, with date-times recognised. -/
def recognizeItems (wanted : Wanted) : List Value → Except DecodeError (List Value)
  | [] => .ok []
  | v :: vs => do
    let v ← v.recognize wanted
    return v :: (← recognizeItems wanted vs)

/-- The entries of a table, with date-times recognised in their values. -/
def recognizeEntries (wanted : Wanted) :
    List (String × Value) → Except DecodeError (List (String × Value))
  | [] => .ok []
  | (key, v) :: entries => do
    let v ← v.recognize wanted
    return (key, v) :: (← recognizeEntries wanted entries)

end

end Lockstep.Toml
