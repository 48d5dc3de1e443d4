import Lockstep.Duration
import Lockstep.Text.Blank
import Lockstep.Text.Numeral

/-!
# Reading durations

A duration is written as an amount and a unit, `5 seconds` or `250ms`.  Blanks may stand around
both; the amount is a run of ASCII digits that fits a word.

* `TimeUnit.named?` knows the unit names;
* `TimeUnit.times` is an amount of a unit: exact, but minutes and hours stop at the longest whole
  number of seconds;
* `Duration.read?` reads a duration.
-/

namespace Lockstep

/-- The units a duration may be given in. -/
inductive TimeUnit where
  | nanosecond
  | microsecond
  | millisecond
  | second
  | minute
  | hour
  deriving DecidableEq, Repr

namespace TimeUnit

/-- All units. -/
def all : List TimeUnit := [nanosecond, microsecond, millisecond, second, minute, hour]

/-- The names of a unit: an abbreviation, the singular and the plural. -/
def names : TimeUnit → List String
  | nanosecond => ["ns", "nanosecond", "nanoseconds"]
  | microsecond => ["us", "microsecond", "microseconds"]
  | millisecond => ["ms", "millisecond", "milliseconds"]
  | second => ["s", "second", "seconds"]
  | minute => ["m", "minute", "minutes"]
  | hour => ["h", "hour", "hours"]

/-- The unit of a name. -/
def named? (name : List Char) : Option TimeUnit :=
  all.find? fun u => u.names.contains (String.ofList name)

/-- The duration of `amount` units. -/
def times (amount : Nat) : TimeUnit → Duration
  | nanosecond => .ofNanos amount
  | microsecond => .ofNanos (amount * 1000)
  | millisecond => .ofNanos (amount * 1000000)
  | second => .ofSecs amount
  | minute => .ofSecs (amount * 60)
  | hour => .ofSecs (amount * 3600)

end TimeUnit

/-- Reads a duration. -/
def Duration.read? (text : List Char) : Option Duration := do
  let trimmed := Text.trim text
  let amount ← Text.Numeral.read? (trimmed.takeWhile Text.Numeral.isDigit)
  let unit ← TimeUnit.named? (Text.trim (trimmed.dropWhile Text.Numeral.isDigit))
  return unit.times amount

end Lockstep
