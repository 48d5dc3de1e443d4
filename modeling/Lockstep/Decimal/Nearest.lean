import Lockstep.Decimal.Rounding
import Lockstep.Decimal.Shortest

/-!
# Decimals as floats

* `nearest` is the binary64 number nearest to a quotient of natural numbers, of two equally near
  ones the one with an even mantissa; quotients beyond the greatest float give infinity;
* `Scaled.toFloat` is the float nearest to a decimal number.
-/

namespace Lockstep.Decimal

/-- The binary64 number nearest to `n / d`.  The exponent is chosen so that the mantissa has 53
bits, or fewer at the low end of the range; a mantissa rounded up to 54 bits carries into the
exponent field, where it belongs. -/
def nearest (n d : Nat) : Float :=
  if n = 0 then 0
  else
    let k : Int := (n.log2 : Int) - d.log2
    let full := d * Nat.pow 2 k.toNat ≤ n * Nat.pow 2 (-k).toNat
    let e : Int := max (if full then k - 52 else k - 53) (-1074)
    let m := roundHalfEven (n * Nat.pow 2 (-e).toNat) (d * Nat.pow 2 e.toNat)
    let bits := (e + 1074).toNat * Nat.pow 2 52 + m
    Float.ofBits (min bits (2047 * Nat.pow 2 52)).toUInt64

/-- The binary64 number nearest to a decimal number.  Beyond four hundred places on either side of
the point the answer does not depend on the digits. -/
def Scaled.toFloat (d : Scaled) : Float :=
  if d.digits = 0 then 0
  else
    let size : Int := d.exponent + (Nat.toDigits 10 d.digits).length
    if 400 < size then Float.ofBits (2047 * Nat.pow 2 52).toUInt64
    else if size < -400 then 0
    else nearest (d.digits * Nat.pow 10 d.exponent.toNat) (Nat.pow 10 (-d.exponent).toNat)

end Lockstep.Decimal
