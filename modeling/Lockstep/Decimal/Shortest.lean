import Lockstep.Decimal.Binary64

/-!
# Shortest decimals

The decimal chosen for a binary64 number has as few digits as any decimal that reads back as the
same number, and of those it is the nearest.

* `Interval` is the set of numbers that are rounded to a given float;
* `Tie` says which of two equally near decimals is taken;
* `Interval.nearest?` looks at the two points of a decimal grid around a float;
* `shortest` walks from coarse grids to fine ones and takes the first that has a point inside.

A grid point inside the interval exists exactly when one of the two neighbours is inside, because
the float itself is inside; so the first grid with a hit has the fewest digits.
-/

namespace Lockstep.Decimal

/-- The decimal number `digits * 10 ^ exponent`. -/
structure Scaled where
  digits : Nat
  exponent : Int
  deriving DecidableEq, Repr

/-- Which of two equally near decimals is taken. -/
inductive Tie where
  /-- The one with the even last digit. -/
  | even
  /-- The greater one. -/
  | up
  deriving DecidableEq, Repr

/-- The numbers that are rounded to one float: all between `low / den` and `high / den`, the ends
too when `closed`.  The float itself is `mid / den`. -/
structure Interval where
  low : Nat
  mid : Nat
  high : Nat
  den : Nat
  closed : Bool
  deriving DecidableEq, Repr

/-- The interval of the float `m * 2 ^ e`.  The gap below a power of two is half as wide as the gap
above it; ties are rounded to even mantissas. -/
def interval (m : Nat) (e : Int) : Interval :=
  let scale := Nat.pow 2 e.toNat
  -- in quarters of the distance to the next float
  let gap := if m = Nat.pow 2 52 ∧ e ≠ -1074 then 1 else 2
  { low := (4 * m - gap) * scale
    mid := 4 * m * scale
    high := (4 * m + 2) * scale
    den := 4 * Nat.pow 2 (-e).toNat
    closed := m % 2 = 0 }

/-- The decimal `k * 10 ^ p` lies in the interval. -/
def Interval.holds (i : Interval) (k : Nat) (p : Int) : Bool :=
  let point := k * Nat.pow 10 p.toNat * i.den
  let unit := Nat.pow 10 (-p).toNat
  if i.closed then i.low * unit ≤ point && point ≤ i.high * unit
  else i.low * unit < point && point < i.high * unit

/-- The greatest multiple of `10 ^ p` not above the float, divided by `10 ^ p`. -/
def Interval.below (i : Interval) (p : Int) : Nat :=
  i.mid * Nat.pow 10 (-p).toNat / (i.den * Nat.pow 10 p.toNat)

/-- Of two neighbours on a grid that are equally near, the one to take. -/
def Tie.choose (k : Nat) : Tie → Nat
  | even => if k % 2 = 0 then k else k + 1
  | up => k + 1

/-- Of the two points of the grid `10 ^ p` around the float, the nearer one that lies in the
interval. -/
def Interval.nearest? (i : Interval) (tie : Tie) (p : Int) : Option Nat :=
  let k := i.below p
  match i.holds k p, i.holds (k + 1) p with
  | false, false => none
  | true, false => some k
  | false, true => some (k + 1)
  | true, true =>
    -- twice the float against twice the middle between the two points
    let twice := 2 * (i.mid * Nat.pow 10 (-p).toNat)
    let middle := (2 * k + 1) * (i.den * Nat.pow 10 p.toNat)
    if twice < middle then some k
    else if middle < twice then some (k + 1)
    else some (tie.choose k)

/-- The exponent of the first digit of a positive fraction below one: the least `n` with
`den ≤ num * 10 ^ n`, at most `fuel`. -/
def leadingZeros (num den : Nat) : Nat → Nat
  | 0 => 0
  | fuel + 1 => if den ≤ num then 0 else leadingZeros (num * 10) den fuel + 1

/-- The exponent of the first digit of the float at the middle of the interval. -/
def Interval.leading (i : Interval) : Int :=
  if i.den ≤ i.mid then ((Nat.toDigits 10 (i.mid / i.den)).length : Int) - 1
  else -(leadingZeros i.mid i.den 330 : Int)

/-- Moves trailing zeros from the digits to the exponent. -/
def Scaled.normal (d : Scaled) : Nat → Scaled
  | 0 => d
  | fuel + 1 =>
    if d.digits ≠ 0 ∧ d.digits % 10 = 0 then
      Scaled.normal ⟨d.digits / 10, d.exponent + 1⟩ fuel
    else d

/-- The shortest decimal that reads back as the float `m * 2 ^ e`, for positive `m`.  Seventeen
digits are always enough. -/
def shortest (tie : Tie) (m : Nat) (e : Int) : Scaled :=
  let i := interval m e
  let s := i.leading
  let hit := (List.range 17).findSome? fun (n : Nat) =>
    let p := s - (n : Int)
    (i.nearest? tie p).map fun k => Scaled.mk k p
  match hit with
  | some d => d.normal 20
  -- never reached: seventeen digits tell all floats apart
  | none => ⟨m, 0⟩

end Lockstep.Decimal
