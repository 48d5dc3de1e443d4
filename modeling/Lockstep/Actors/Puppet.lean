import Lockstep.Behaviour

/-!
# Actors that follow orders

A `Puppet` carries out orders about its part in the barrier, one after the other, and keeps a
record of what came of them.  Once it has given its part up it ignores all orders.

* `Order` lists the orders, `Deed` what may come of them;
* `Puppet` is such an actor.
-/

namespace Lockstep

/-- An order to a puppet. -/
inductive Order where
  | next
  | iterate
  | askFinished
  | leave
  deriving DecidableEq, Repr

/-- What came of an order. -/
inductive Deed where
  | entered (plan : PhasePlan)
  | atEnd
  | halted (e : SyncError)
  | iterated (granted : Bool) (count : Nat)
  | noPhase
  | finished (b : Bool)
  | left

/-- An actor that follows orders. -/
structure Puppet where
  /-- The orders still to be carried out, the first one first. -/
  orders : List Order
  /-- What came of the orders carried out, with the times, the last one first. -/
  deeds : List (Nat × Deed)
  /-- It has given its part up. -/
  gone : Bool

namespace Puppet

/-- A puppet without orders. -/
def idle : Puppet := ⟨[], [], false⟩

/-- Gives a puppet another order. -/
def order (p : Puppet) (o : Order) : Puppet :=
  if p.gone then p else { p with orders := p.orders ++ [o] }

/-- What a puppet asks for next. -/
def ask (p : Puppet) : Ask :=
  if p.gone then .rest
  else
    match p.orders with
    | [] => .rest
    | .next :: _ => .nextPhase
    | .iterate :: _ => .iterate
    | .askFinished :: _ => .isFinished
    | .leave :: _ => .leave

/-- What an answer means for the order it belongs to. -/
def deed : Reply → Deed
  | .phase (some plan) => .entered plan
  | .phase none => .atEnd
  | .halted e => .halted e
  | .iteration granted count => .iterated granted count
  | .finished b => .finished b
  | .noPhase => .noPhase
  | .recorded _ => .left
  | .done => .left

/-- How a puppet takes an answer. -/
def hear (p : Puppet) (now : Nat) (r : Reply) : Puppet :=
  match p.orders with
  | [] => p
  | o :: orders =>
    { orders, deeds := (now, deed r) :: p.deeds, gone := p.gone || o == .leave }

instance : Behaviour Puppet := ⟨ask, hear⟩

end Puppet

end Lockstep
