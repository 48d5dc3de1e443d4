import Lockstep.Duration.Grammar

/-!
# Rates

A `Rate` allows `count` iterations in each `interval`; it is written `500 per 1 second`.

* `Rate.read?` reads a rate and refuses zero counts and empty intervals;
* `Rate.perSecond` is the rate as a binary64 number of iterations a second.
-/

namespace Lockstep

/-- So many iterations in each interval. -/
structure Rate where
  count : Nat
  interval : Duration
  deriving DecidableEq, Repr

namespace Rate

/-- Reads a rate: a count and an interval around the first ` per `, both of them positive. -/
def read? (text : List Char) : Option Rate := do
  let (left, right) ← Text.splitOnce? " per ".toList text
  let count ← Text.Numeral.readSigned? (Text.trim left)
  let interval ← Duration.read? right
  if count = 0 ∨ interval.nanos = 0 then none else return { count, interval }

/-- Iterations a second. -/
def perSecond (r : Rate) : Float := Decimal.ofWord r.count / r.interval.toSeconds

end Rate

end Lockstep
