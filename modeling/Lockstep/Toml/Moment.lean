/-!
# Dates and times

A TOML date-time is a date, a time of day, or both, the latter perhaps with an offset from UTC.

* `Date.valid` knows the lengths of the months;
* `Moment.text` is the normal text: `T` between date and time, no trailing zeros in the fraction.
-/

namespace Lockstep.Toml

/-- A calendar date. -/
structure Date where
  year : Nat
  month : Nat
  day : Nat
  deriving DecidableEq, Repr

/-- A time of day; the fraction is counted in nanoseconds. -/
structure Clock where
  hour : Nat
  minute : Nat
  second : Nat
  nanos : Nat
  deriving DecidableEq, Repr

/-- An offset from UTC. -/
inductive Offset where
  /-- UTC itself, written `Z`. -/
  | utc
  | minutes (n : Int)
  deriving DecidableEq, Repr

/-- A date, a time of day, or both. -/
structure Moment where
  date : Option Date
  clock : Option Clock
  offset : Option Offset
  deriving DecidableEq, Repr

/-- The number of days in a month. -/
def Date.monthLength (year month : Nat) : Nat :=
  if month = 2 then
    if year % 4 = 0 ∧ (year % 100 ≠ 0 ∨ year % 400 = 0) then 29 else 28
  else if month = 4 ∨ month = 6 ∨ month = 9 ∨ month = 11 then 30
  else 31

/-- The month exists and has the day. -/
def Date.valid (d : Date) : Bool :=
  1 ≤ d.month && d.month ≤ 12 && 1 ≤ d.day && d.day ≤ monthLength d.year d.month

/-- The time exists, a leap second included. -/
def Clock.valid (c : Clock) : Bool :=
  c.hour ≤ 23 && c.minute ≤ 59 && c.second ≤ 60

/-- `n` with at least `places` digits. -/
def padded (places n : Nat) : String :=
  let digits := Nat.toDigits 10 n
  String.ofList (List.replicate (places - digits.length) '0' ++ digits)

/-- The text of a date. -/
def Date.text (d : Date) : String :=
  padded 4 d.year ++ "-" ++ padded 2 d.month ++ "-" ++ padded 2 d.day

/-- The text of a time of day. -/
def Clock.text (c : Clock) : String :=
  let fraction :=
    if c.nanos = 0 then ""
    else "." ++ String.ofList ((padded 9 c.nanos).toList.reverse.dropWhile (· = '0')).reverse
  padded 2 c.hour ++ ":" ++ padded 2 c.minute ++ ":" ++ padded 2 c.second ++ fraction

/-- The text of an offset. -/
def Offset.text : Offset → String
  | utc => "Z"
  | minutes n =>
    (if n < 0 then "-" else "+") ++ padded 2 (n.natAbs / 60) ++ ":" ++ padded 2 (n.natAbs % 60)

/-- The text of a date-time. -/
def Moment.text (m : Moment) : String :=
  let date := (m.date.map Date.text).getD ""
  let clock := (m.clock.map Clock.text).getD ""
  let between := if m.date.isSome ∧ m.clock.isSome then "T" else ""
  date ++ between ++ clock ++ (m.offset.map Offset.text).getD ""

end Lockstep.Toml
