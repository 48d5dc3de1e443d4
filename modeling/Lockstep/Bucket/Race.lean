import Lockstep.Bucket.Draw

/-!
# Drawing permits in company

Some wait for permits of one bucket, all of them from the same time on.  Each one in turn is
carried on until it has its permit or has to rest; then the clock moves on to the first who tries
again.

* `Race.run` runs until everybody has a permit, and says when each one got it;
* `Race.inTurn` draws permits one after the other;
* `Race.play` goes through a list of such turns.
-/

namespace Lockstep.Race

/-- Those who still wait, and when the others got their permits. -/
structure Standing where
  bucket : Bucket
  waiting : List Draw
  times : List Nat

/-- Carries one on until it has its permit or has to rest. -/
def carry (now : Nat) (b : Bucket) (d : Draw) : (fuel : Nat) → Except String (Bucket × Option Draw)
  | 0 => .ok (b, some d)
  | fuel + 1 =>
    match d.step now b with
    | (b, .blocked) => .ok (b, some d)
    | (b, .moved d) => carry now b d fuel
    | (b, .taken) => .ok (b, none)
    | (_, .broken message) => .error message

/-- Carries everybody on. -/
def round (now fuel : Nat) (b : Bucket) : List Draw → Except String Standing
  | [] => .ok ⟨b, [], []⟩
  | d :: ds => do
    let (b, rest) ← carry now b d fuel
    let s ← round now fuel b ds
    match rest with
    | some d => return { s with waiting := d :: s.waiting }
    | none => return { s with times := now :: s.times }

/-- Runs until everybody has a permit: the bucket then, and when they got their permits. -/
def run (now : Nat) (b : Bucket) (ds : List Draw) : (fuel : Nat) → Except String (Bucket × List Nat)
  | 0 => .ok (b, [])
  | fuel + 1 => do
    let s ← round now fuel b ds
    match (s.waiting.filterMap Draw.wake?).min? with
    | none => return (s.bucket, s.times)
    | some wake =>
      let (b, times) ← run wake s.bucket s.waiting fuel
      return (b, s.times ++ times)

/-- Draws `n` permits one after the other: the bucket and the time then. -/
def inTurn (now : Nat) (b : Bucket) (fuel : Nat) : (n : Nat) → Except String (Bucket × Nat)
  | 0 => .ok (b, now)
  | n + 1 => do
    let (b, times) ← run now b [.settling] fuel
    inTurn (times.getLast?.getD now) b fuel n

/-- What may come next at a bucket. -/
inductive Turn where
  | sleep (d : Duration)
  | alone (permits : Nat)
  | together (crowd : Nat)
  deriving DecidableEq, Repr

/-- Takes a turn: the time then, the bucket, and when permits were had. -/
def Turn.take (now : Nat) (b : Bucket) (fuel : Nat) :
    Turn → Except String (Nat × Bucket × List Nat)
  | sleep d => .ok (wakeTime now d, b, [wakeTime now d])
  | alone permits => do
    let (b, now) ← inTurn now b fuel permits
    return (now, b, [now])
  | together crowd => do
    let (b, times) ← run now b (List.replicate crowd .settling) fuel
    return (times.getLast?.getD now, b, times)

/-- Goes through turns, and says the times of each one. -/
def play (now : Nat) (b : Bucket) (fuel : Nat) : List Turn → Except String (List (List Nat))
  | [] => .ok []
  | t :: ts => do
    let (now, b, times) ← t.take now b fuel
    return times :: (← play now b fuel ts)

end Lockstep.Race
