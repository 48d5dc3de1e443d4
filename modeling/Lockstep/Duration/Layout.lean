import Lockstep.Duration

/-!
# The text of a duration in a printed report

A duration is written in the biggest unit of which it has a whole one, `1.5ms` or `1.001µs`, with
as many decimal places as it needs.

* `Duration.listing` is that text.
-/

namespace Lockstep.Duration

/-- `n` written with exactly `places` digits. -/
def padded (places n : Nat) : List Char :=
  let digits := Nat.toDigits 10 n
  List.replicate (places - digits.length) '0' ++ digits

/-- Drops trailing zeros. -/
def withoutTrailingZeros (cs : List Char) : List Char :=
  (cs.reverse.dropWhile (· = '0')).reverse

/-- `n` over `10 ^ places`, in decimal. -/
def quotient (n places : Nat) : List Char :=
  let whole := Nat.toDigits 10 (n / Nat.pow 10 places)
  match withoutTrailingZeros (padded places (n % Nat.pow 10 places)) with
  | [] => whole
  | fraction => whole ++ '.' :: fraction

/-- The text of a duration: in the biggest unit of which it has a whole one. -/
def listing (d : Duration) : List Char :=
  let n := d.nanos
  if 1000000000 ≤ n then quotient n 9 ++ ['s']
  else if 1000000 ≤ n then quotient n 6 ++ ['m', 's']
  else if 1000 ≤ n then quotient n 3 ++ ['µ', 's']
  else quotient n 0 ++ ['n', 's']

end Lockstep.Duration
