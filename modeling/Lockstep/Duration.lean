import Lockstep.Decimal.Binary64
import Lockstep.Decimal.Rounding
import Lockstep.Word

/-!
# Durations

A `Duration` is a whole number of nanoseconds of less than `2 ^ 64` seconds.  A time is a natural
number: the nanoseconds since the start of the run.

* `Duration.ofNanos`, `Duration.ofSecs` take the nearest duration when the range is exceeded;
* `Duration.add?` is addition that refuses to leave the range;
* `Duration.toSeconds` and `Duration.ofSeconds?` convert to and from binary64 seconds;
* `Duration.divide?` divides by a float, by way of seconds.
-/

namespace Lockstep

/-- One past the longest duration, in nanoseconds. -/
def durationLimit : Nat := wordLimit * 1000000000

/-- A span of time: nanoseconds, of less than `2 ^ 64` seconds. -/
structure Duration where
  nanos : Nat
  inRange : nanos < durationLimit
  deriving DecidableEq

namespace Duration

instance : Repr Duration := ⟨fun d _ => repr d.nanos⟩

theorem ext_nanos {a b : Duration} (h : a.nanos = b.nanos) : a = b := by
  cases a; cases b; cases h; rfl

/-- The duration of `n` nanoseconds, the longest one when that is too long. -/
def ofNanos (n : Nat) : Duration where
  nanos := min n (durationLimit - 1)
  inRange := by
    have : 0 < durationLimit := by decide
    omega

/-- The duration of no time. -/
def zero : Duration := ofNanos 0

instance : Inhabited Duration := ⟨zero⟩

/-- The duration of `n` seconds, of `2 ^ 64 - 1` seconds when that is too long. -/
def ofSecs (n : Nat) : Duration := ofNanos (min n wordMax * 1000000000)

/-- The duration of `n` nanoseconds, when it is in range. -/
def ofNanos? (n : Nat) : Option Duration :=
  if h : n < durationLimit then some ⟨n, h⟩ else none

/-- Whole seconds. -/
def secs (d : Duration) : Nat := d.nanos / 1000000000

/-- The nanoseconds after the last whole second. -/
def subsecNanos (d : Duration) : Nat := d.nanos % 1000000000

/-- The sum of two durations, or nothing when it is too long. -/
def add? (a b : Duration) : Option Duration := ofNanos? (a.nanos + b.nanos)

/-- The longer of two durations. -/
def max (a b : Duration) : Duration := if a.nanos ≤ b.nanos then b else a

/-- The time from `start` to `finish`, none at all when `finish` comes first. -/
def between (start finish : Nat) : Duration := ofNanos (finish - start)

/-- Seconds as a binary64 number: the whole seconds and the fraction are converted one by one. -/
def toSeconds (d : Duration) : Float :=
  Decimal.ofWord d.secs + Decimal.ofWord d.subsecNanos / 1000000000.0

/-- Why a number of seconds is no duration. -/
inductive SecondsFault where
  | negative
  | tooLong
  deriving DecidableEq, Repr

/-- The message that goes with the fault. -/
def SecondsFault.message : SecondsFault → String
  | .negative => "cannot convert float seconds to Duration: value is negative"
  | .tooLong => "cannot convert float seconds to Duration: value is either too big or NaN"

/-- The duration nearest to a number of seconds, of two equally near ones the one with an even
number of nanoseconds. -/
def ofSeconds? (x : Float) : Except SecondsFault Duration :=
  match Decimal.parts x with
  | ⟨negative, .finite m e⟩ =>
    if negative ∧ m ≠ 0 then .error .negative
    else
      let n := if 0 ≤ e then m * 1000000000 * Nat.pow 2 e.natAbs
        else Decimal.roundHalfEven (m * 1000000000) (Nat.pow 2 e.natAbs)
      match ofNanos? n with
      | some d => .ok d
      | none => .error .tooLong
  | ⟨true, .infinite⟩ => .error .negative
  | _ => .error .tooLong

/-- The duration divided by a float, computed on binary64 seconds. -/
def divide? (d : Duration) (x : Float) : Except SecondsFault Duration :=
  ofSeconds? (d.toSeconds / x)

/-! ### Views -/

@[simp] theorem nanos_zero : zero.nanos = 0 := by decide

theorem ofNanos?_eq_some_iff {n : Nat} {d : Duration} : ofNanos? n = some d ↔ d.nanos = n := by
  unfold ofNanos?
  split
  · next h =>
    constructor
    · intro h'; cases h'; rfl
    · intro h'; exact congrArg some (ext_nanos h'.symm)
  · next h =>
    simp only [reduceCtorEq, false_iff]
    rintro rfl
    exact h d.inRange

theorem add?_eq_some_iff {a b c : Duration} : add? a b = some c ↔ c.nanos = a.nanos + b.nanos :=
  ofNanos?_eq_some_iff

end Duration

end Lockstep
