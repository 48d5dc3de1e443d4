import Lockstep.Rate

/-!
# Token buckets

A rate is kept with a bucket of permits.  It holds as many permits as the rate has iterations in an
interval, and starts full.  Whoever wants a permit first settles the bucket: the time since it was
last settled is turned into whole permits, and the fraction that is left is carried over.

* `accrue` is the arithmetic of settling;
* `Bucket.settle`, `Bucket.deposit`, `Bucket.take` are the three steps of drawing a permit; a bucket
  that has been settled is locked until the deposit is made;
* `Bucket.pause` is how long to wait before trying again.
-/

namespace Lockstep

/-- The most permits a bucket may hold. -/
def permitLimit : Nat := Nat.pow 2 61 - 1

/-- The whole permits that come with some time, and the new fraction. -/
def accrue (elapsed : Duration) (perSecond fraction : Float) : Nat × Float :=
  let sum := perSecond * elapsed.toSeconds + fraction
  let whole := Decimal.wholePart sum
  -- clipped before it is turned into a natural number, so that nothing wraps around
  let permits :=
    if whole ≥ Decimal.ofWord permitLimit then permitLimit
    else if whole < 0.0 then 0
    else whole.toUInt64.toNat
  (permits, sum - whole)

/-- A bucket of permits. -/
structure Bucket where
  rate : Rate
  permits : Nat
  /-- When it was last settled. -/
  last : Nat
  /-- The fraction of a permit left over then. -/
  fraction : Float
  /-- Permits that are about to be deposited; while there are any the bucket is locked. -/
  pending : Option Nat

namespace Bucket

/-- The most permits that a bucket for a rate holds. -/
def capacityOf (r : Rate) : Nat := min r.count permitLimit

/-- The most permits in the bucket. -/
def capacity (b : Bucket) : Nat := capacityOf b.rate

/-- A full bucket. -/
def full (r : Rate) (now : Nat) : Bucket := ⟨r, capacityOf r, now, 0.0, none⟩

/-- Turns the time since the last settlement into permits, which are still to be deposited. -/
def settle (b : Bucket) (now : Nat) : Bucket :=
  -- what does not fit into the bucket is lost
  let (added, fraction) := accrue (.between b.last now) b.rate.perSecond b.fraction
  { b with last := now, fraction, pending := some (min added (b.capacity - b.permits)) }

/-- Deposits the permits. -/
def deposit (b : Bucket) : Bucket :=
  { b with permits := b.permits + b.pending.getD 0, pending := none }

/-- Takes a permit, if there is one. -/
def take? (b : Bucket) : Option Bucket :=
  if b.permits = 0 then none else some { b with permits := b.permits - 1 }

/-- The time in which one permit comes along. -/
def pause (b : Bucket) : Except Duration.SecondsFault Duration :=
  b.rate.interval.divide? (Decimal.ofWord b.rate.count)

end Bucket

end Lockstep
