import Lockstep.Error
import Lockstep.Note
import Lockstep.SortedMap

/-!
# The barrier

All actors of a run go through the phases `0, 1, …, lastPhase` together.  Every actor holds a token.
A phase opens when all tokens have arrived, and closes when all of them have been handed back; the
actors with nothing to do hand theirs back at once.  A run may be halted: stopped in order, or
aborted by its first failure.

* `Signal` is what the actors see: the phase, whether it is open, whether the run is halted;
* `Barrier` is the signal together with the counters behind it;
* `Barrier.arrive` and `Barrier.handBack` are the two changes that move the phases along, each of
  them made under the lock of the barrier;
* `Barrier.stop`, `Barrier.abort` and `Barrier.requestEnd` come from outside.

What an operation logs is given by a function of its own, named after it.
-/

namespace Lockstep

/-- Whether a run goes on. -/
inductive Halt where
  | running
  | stopped
  | aborted
  deriving DecidableEq, Repr

/-- The name of the state. -/
def Halt.text : Halt → String
  | running => "Running"
  | stopped => "Stopped"
  | aborted => "Aborted"

/-- What everybody can see of a barrier. -/
structure Signal where
  /-- The phase in progress, or else the next one; as many phases have closed. -/
  phase : Nat
  isOpen : Bool
  halt : Halt
  deriving DecidableEq, Repr

/-- A barrier. -/
structure Barrier where
  /-- The number of tokens. -/
  required : Nat
  /-- Tokens that have arrived for a phase that is not open yet. -/
  arrived : Nat
  /-- Tokens that have not been handed back in the phase that is open. -/
  outstanding : Nat
  /-- The last phase, if any actor has a phase at all. -/
  lastPhase : Option Nat
  /-- The run has begun. -/
  launched : Bool
  /-- The phases whose end has been requested. -/
  endAsked : SortedMap Nat Unit
  /-- The first failure. -/
  failure : Option Failure
  signal : Signal
  /-- How often a change of the signal was made known. -/
  published : Nat
  deriving DecidableEq, Repr

namespace Barrier

/-- A barrier without tokens, before the first phase. -/
def fresh : Barrier where
  required := 0
  arrived := 0
  outstanding := 0
  lastPhase := none
  launched := false
  endAsked := .empty
  failure := none
  signal := ⟨0, false, .running⟩
  published := 0

instance : Inhabited Barrier := ⟨fresh⟩

/-! ### Setting up -/

/-- More tokens, or nothing when their number would not fit a word. -/
def addTokens? (b : Barrier) (n : Nat) : Option Barrier :=
  (addWord? b.required n).map fun required => { b with required }

/-- The run lasts at least until a phase. -/
def extendTo (b : Barrier) (k : Nat) : Barrier :=
  { b with lastPhase := some (b.lastPhase.elim k (max · k)) }

/-- The run begins. -/
def launch (b : Barrier) : Barrier := { b with launched := true }

/-! ### Looking -/

/-- The phase in progress, or else the next one. -/
def currentPhase (b : Barrier) : Nat := b.signal.phase

/-- The phase is in progress. -/
def inProgress (b : Barrier) (k : Nat) : Bool :=
  b.signal.phase = k && b.signal.isOpen && b.signal.halt = .running

/-- A phase comes after this one. -/
def hasAfter (b : Barrier) (k : Nat) : Bool := b.lastPhase.any fun last => k < last

/-- The run is not halted, and not all of its phases have closed. -/
def goesOn (b : Barrier) : Bool :=
  b.signal.halt = .running && b.lastPhase.any fun last => b.signal.phase ≤ last

/-- The run was stopped. -/
def isStopped (b : Barrier) : Bool := b.signal.halt = .stopped

/-- The run was aborted. -/
def isAborted (b : Barrier) : Bool := b.signal.halt = .aborted

/-- The end of a phase was requested. -/
def isEndAsked (b : Barrier) (k : Nat) : Bool := b.endAsked.contains k

/-- The number of phases, or nothing when it does not fit a word. -/
def phaseCount? (b : Barrier) : Option Nat :=
  match b.lastPhase with
  | none => some 0
  | some last => addWord? last 1

/-- What a barrier call that sees this halt answers. -/
def answer (b : Barrier) : Halt → Except SyncError Bool
  | .running => .ok true
  | .stopped => .ok false
  | .aborted => .error (.aborted (b.failure.elim "unknown failure" Failure.text))

/-! ### Changes of the signal -/

/-- Makes a new signal known. -/
def publish (b : Barrier) (s : Signal) : Barrier :=
  { b with signal := s, published := b.published + 1 }

/-- A token arrives; the last one opens the phase. -/
def arrive (b : Barrier) : Barrier :=
  if b.required ≤ b.arrived + 1 then
    -- all tokens are out again as soon as the phase is open
    { b with arrived := 0, outstanding := b.required }.publish { b.signal with isOpen := true }
  else { b with arrived := b.arrived + 1 }

/-- The arrival opens the phase. -/
def opensNow (b : Barrier) : Bool := b.required ≤ b.arrived + 1

/-- A token of phase `k` is handed back; the last one closes the phase. -/
def handBack (b : Barrier) (k : Nat) : Barrier :=
  if b.outstanding ≤ 1 then
    { b with outstanding := 0 }.publish { b.signal with phase := k + 1, isOpen := false }
  else { b with outstanding := b.outstanding - 1 }

/-- The token handed back closes the phase. -/
def closesNow (b : Barrier) : Bool := b.outstanding ≤ 1

/-! ### From outside -/

/-- Requests the end of a phase. -/
def requestEnd (b : Barrier) (k : Nat) : Barrier :=
  { b with endAsked := b.endAsked.insert k () }

/-- The log of an end request. -/
def requestEndNote (k : Nat) : Note :=
  ⟨.info, "End of phase " ++ toString k ++ " requested"⟩

/-- Stops a run that goes on. -/
def stop (b : Barrier) : Barrier :=
  if b.signal.halt = .running then b.publish { b.signal with halt := .stopped } else b

/-- The log of a stop. -/
def stopNotes (b : Barrier) : List Note :=
  if b.signal.halt = .running then
    [⟨.info, "Stop requested, actors will finish their current iteration"⟩]
  else []

/-- Aborts the run; only the first failure counts. -/
def abort (b : Barrier) (f : Failure) : Barrier :=
  match b.failure with
  | some _ => b
  | none => { b with failure := some f }.publish { b.signal with halt := .aborted }

/-- The log of an abort. -/
def abortNote (b : Barrier) (f : Failure) : Note :=
  match b.failure with
  | some _ => ⟨.debug, "Ignoring secondary failure: " ++ f.text⟩
  | none => ⟨.error, "Aborting run: " ++ f.text⟩

end Barrier

end Lockstep
