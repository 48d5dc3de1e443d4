/-!
# Binary64 numbers taken apart

A finite binary64 number is a sign and a magnitude `m * 2 ^ e` with a natural `m`.  Exact
questions about floats (their decimal digits, their whole part, the nanosecond nearest to a number
of seconds) are asked about `m` and `e`.

* `parts` takes a float apart;
* `wholePart` is the greatest whole number not above a float, as a float.
-/

namespace Lockstep.Decimal

/-- The magnitude of a binary64 number. -/
inductive Magnitude where
  /-- The number `mantissa * 2 ^ exponent`. -/
  | finite (mantissa : Nat) (exponent : Int)
  | infinite
  | notANumber
  deriving DecidableEq, Repr

/-- A binary64 number as sign and magnitude. -/
structure Parts where
  negative : Bool
  magnitude : Magnitude
  deriving DecidableEq, Repr

/-- The sign and magnitude of a float. -/
def parts (x : Float) : Parts :=
  let bits : Nat := x.toBits.toNat
  let fraction : Nat := bits % Nat.pow 2 52
  let biased : Nat := bits / Nat.pow 2 52 % Nat.pow 2 11
  { negative := decide (Nat.pow 2 63 ≤ bits)
    magnitude :=
      if biased = 2047 then (if fraction = 0 then .infinite else .notANumber)
      else if biased = 0 then .finite fraction (-1074)
      else .finite (Nat.pow 2 52 + fraction) ((biased : Int) - 1075) }

/-- The float of a word. -/
def ofWord (n : Nat) : Float := n.toUInt64.toFloat

/-- The greatest whole number not above `x`; infinities, and what is no number, stay as they are. -/
def wholePart (x : Float) : Float :=
  match parts x with
  | ⟨negative, .finite m e⟩ =>
    if 0 ≤ e then x
    else
      let unit := Nat.pow 2 e.natAbs
      if m % unit = 0 then x
      else if negative then -(ofWord (m / unit + 1)) else ofWord (m / unit)
  | _ => x

end Lockstep.Decimal
