import Lockstep.Decimal.Shortest

/-!
# Layouts of floats

All texts of floats have the shortest digits; they differ in which of two equally near numbers they
show, in where positional notation ends, and in how an exponent is written.  `Layout` records these
decisions, one value for each kind of text.

* `Layout.render` is the text of a float in a layout;
* `Layout.listing` is used in printed reports, `Layout.json` in JSON texts, and `Layout.plain` in
  error messages.
-/

namespace Lockstep.Decimal

/-- The decisions a text of a float depends on. -/
structure Layout where
  /-- Which of two equally near decimals is shown. -/
  tie : Tie
  /-- The exponents of the first digit for which a number is written positionally, from the first
  one to before the second one; always, when there are none. -/
  positional : Option (Int × Int)
  /-- Positive exponents carry a plus sign. -/
  plus : Bool
  /-- The text of the negative and of the positive infinity. -/
  infinite : String × String
  /-- The text of what is no number. -/
  notANumber : String

namespace Layout

/-- In a printed report: positional from `1e-4` to below `1e16`. -/
def listing : Layout := ⟨.up, some (-4, 16), false, ("-inf", "inf"), "NaN"⟩

/-- In JSON: positional from `1e-5` to below `1e16`, a sign before every exponent. -/
def json : Layout := ⟨.even, some (-5, 16), true, ("null", "null"), "null"⟩

/-- In an error message: always positional. -/
def plain : Layout := ⟨.up, none, false, ("-inf", "inf"), "NaN"⟩

/-- `n` zeros. -/
def zeros (n : Nat) : List Char := List.replicate n '0'

/-- The digits with the point before the digit of exponent `exponent - 1`, at least one digit on
each side of it. -/
def positionally (digits : List Char) (exponent : Int) : List Char :=
  if 0 ≤ exponent then digits ++ zeros exponent.toNat ++ ['.', '0']
  else
    let places := exponent.natAbs
    if places < digits.length then
      digits.take (digits.length - places) ++ '.' :: digits.drop (digits.length - places)
    else '0' :: '.' :: zeros (places - digits.length) ++ digits

/-- The digits with the point after the first, and the exponent of the first digit. -/
def scientifically (plus : Bool) (digits : List Char) (first : Int) : List Char :=
  let mark := if first < 0 then ['-'] else if plus then ['+'] else []
  let fraction := match digits.drop 1 with
    | [] => []
    | rest => '.' :: rest
  digits.take 1 ++ fraction ++ 'e' :: mark ++ Nat.toDigits 10 first.natAbs

/-- The text of a decimal number other than zero. -/
def ofScaled (l : Layout) (d : Scaled) : List Char :=
  let digits := Nat.toDigits 10 d.digits
  let first := d.exponent + digits.length - 1
  match l.positional with
  | some (low, high) =>
    if low ≤ first ∧ first < high then positionally digits d.exponent
    else scientifically l.plus digits first
  | none => positionally digits d.exponent

/-- The text of a float. -/
def render (l : Layout) (x : Float) : List Char :=
  let p := parts x
  let sign := if p.negative then ['-'] else []
  match p.magnitude with
  | .notANumber => l.notANumber.toList
  | .infinite => (if p.negative then l.infinite.1 else l.infinite.2).toList
  | .finite m e => sign ++ (if m = 0 then "0.0".toList else l.ofScaled (shortest l.tie m e))

end Layout

end Lockstep.Decimal
