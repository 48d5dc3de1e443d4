import Lockstep.Behaviour
import Lockstep.Build

/-!
# Actors that share a pool

A `PoolUser` adds the number of each of its iterations to a shared counter, which starts with the
parameter `Start` of whoever is built first.
-/

namespace Lockstep

/-- The key of the pool. -/
def poolKey : String := "Pool"

/-- Where the user of a pool is in its work. -/
inductive PoolUser.Step where
  | seeking
  | iterating
  | adding (n : Nat)
  | ended (e : Ending)

/-- An actor that uses the pool. -/
structure PoolUser where
  /-- The shared counter. -/
  pool : Nat
  step : PoolUser.Step

namespace PoolUser

/-- Builds a user of the pool. -/
def build (s : Setting) (id : Nat) : Building (PoolUser × Participant) := do
  let start ← configured (s.param? "Start" Toml.asInteger)
  let pool ← shared poolKey .counter (.value (.counter (start.getD 0)))
  let _ ← configured (s.configure plainParams)
  let loop ← takePart s id
  return (⟨pool, .seeking⟩, loop)

/-- What a user of the pool asks for next. -/
def ask (a : PoolUser) : Ask :=
  match a.step with
  | .seeking => .nextPhase
  | .iterating => .iterate
  | .adding n => .bump a.pool n
  | .ended e => .finish e

/-- How a user of the pool takes an answer. -/
def hear (a : PoolUser) (r : Reply) : PoolUser :=
  match a.step, r with
  | .seeking, .phase (some _) => { a with step := .iterating }
  | .seeking, .halted e => { a with step := .ended (.failed (.sync e)) }
  | .seeking, _ => { a with step := .ended .completed }
  | .iterating, .iteration true n => { a with step := .adding n }
  | .iterating, _ => { a with step := .seeking }
  | .adding _, _ => { a with step := .iterating }
  | .ended e, _ => { a with step := .ended e }

instance : Behaviour PoolUser := ⟨ask, fun a _ r => a.hear r⟩

end PoolUser

end Lockstep
