import Lockstep.Barrier.Call

/-!
# Calls waiting at a barrier

A `Crowd` is a barrier with the calls that are under way, each under a name, in the order in which
they were begun.

* `Crowd.advance` carries one call on until it is blocked or ends;
* `Crowd.settle` goes over all calls, again and again, until a whole round ends none of them;
* `Crowd.obey?` carries out a `Crowd.Order`, one of the changes that may be made to a crowd, and
  `Crowd.perform?` settles the crowd after it.
-/

namespace Lockstep

/-- A barrier and the calls under way. -/
structure Crowd where
  barrier : Barrier
  calls : List (String × Call)

/-- How a call ended. -/
inductive CallEnd where
  | answered (r : Except SyncError Bool)
  /-- The number of the next phase does not fit a word. -/
  | overflow

/-- The answer of a call, if it ended with one. -/
def CallEnd.answer? : CallEnd → Option (Except SyncError Bool)
  | answered r => some r
  | overflow => none

namespace Crowd

/-- What a call has come to: it waits, or it has ended. -/
structure Advanced where
  barrier : Barrier
  state : Call ⊕ CallEnd
  notes : List Note

/-- Carries a call on until it is blocked or ends.  No call takes more than three steps. -/
def advance (b : Barrier) (c : Call) : (fuel : Nat) → Advanced
  | 0 => ⟨b, .inl c, []⟩
  | fuel + 1 =>
    let notes := c.stepNotes b
    match c.step b with
    | (b, .blocked) => ⟨b, .inl c, notes⟩
    | (b, .moved c) =>
      let rest := advance b c fuel
      { rest with notes := notes ++ rest.notes }
    | (b, .done r) => ⟨b, .inr (.answered r), notes⟩
    | (b, .overflow) => ⟨b, .inr .overflow, notes⟩

/-- The most steps a call takes. -/
def callLength : Nat := 3

/-- What a round over some calls comes to. -/
structure Round where
  barrier : Barrier
  waiting : List (String × Call)
  ended : List (String × CallEnd)
  notes : List Note

/-- One round over the calls, in their order. -/
def round (b : Barrier) : List (String × Call) → Round
  | [] => ⟨b, [], [], []⟩
  | (name, c) :: calls =>
    let a := advance b c callLength
    let rest := round a.barrier calls
    match a.state with
    | .inl c => { rest with waiting := (name, c) :: rest.waiting, notes := a.notes ++ rest.notes }
    | .inr e => { rest with ended := (name, e) :: rest.ended, notes := a.notes ++ rest.notes }

/-- Rounds until one ends no call; every other round leaves fewer calls than it found. -/
def settleWithin (b : Barrier) (calls : List (String × Call)) : (fuel : Nat) → Round
  | 0 => ⟨b, calls, [], []⟩
  | fuel + 1 =>
    let first := round b calls
    if first.ended.isEmpty then first
    else
      let rest := settleWithin first.barrier first.waiting fuel
      { rest with ended := first.ended ++ rest.ended, notes := first.notes ++ rest.notes }

/-- Carries all calls on until none of them can end. -/
def settle (c : Crowd) : Round := settleWithin c.barrier c.calls (c.calls.length + 1)

/-- What may be done to a crowd. -/
inductive Order where
  | addTokens (n : Nat)
  | extendTo (phase : Nat)
  /-- Begins a call under a name. -/
  | begin (name : String) (c : Call)
  /-- Gives a call up. -/
  | cancel (name : String)
  | abort (f : Failure)
  | stop
  | requestEnd (phase : Nat)
  /-- Only looks. -/
  | look
  deriving DecidableEq, Repr

/-- Carries out an order, with what it logs; nothing when the tokens do not fit a word. -/
def obey? (c : Crowd) : Order → Option (Crowd × List Note)
  | .addTokens n => (c.barrier.addTokens? n).map fun b => ({ c with barrier := b }, [])
  | .extendTo k => some ({ c with barrier := c.barrier.extendTo k }, [])
  | .begin name call => some ({ c with calls := c.calls ++ [(name, call)] }, [])
  | .cancel name => some ({ c with calls := c.calls.filter fun call => call.1 != name }, [])
  | .abort f => some ({ c with barrier := c.barrier.abort f }, [c.barrier.abortNote f])
  | .stop => some ({ c with barrier := c.barrier.stop }, c.barrier.stopNotes)
  | .requestEnd k =>
    some ({ c with barrier := c.barrier.requestEnd k }, [Barrier.requestEndNote k])
  | .look => some (c, [])

/-- What an order comes to once all calls have settled. -/
structure Performed where
  crowd : Crowd
  /-- The calls that have ended, with their answers. -/
  answers : List (String × Except SyncError Bool)
  notes : List Note

/-- Carries out an order and then all calls; nothing when a number does not fit a word. -/
def perform? (c : Crowd) (o : Order) : Option Performed := do
  let (c, notes) ← c.obey? o
  let r := c.settle
  let answers ← r.ended.mapM fun e => do return (e.1, ← e.2.answer?)
  return ⟨⟨r.barrier, r.waiting⟩, answers, notes ++ r.notes⟩

end Crowd

end Lockstep
