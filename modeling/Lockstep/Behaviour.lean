import Lockstep.Error
import Lockstep.Metrics.Sink
import Lockstep.Schedule

/-!
# What actors do

An actor is described by what it asks for next and how it takes the answers.  It asks to be taken
to its next phase, for another iteration, for a pause, for operations to be measured, and so on;
everything else is up to it.

* `Ask` lists what an actor may ask for, `Reply` the answers;
* `Behaviour σ` says that states of type `σ` describe actors.
-/

namespace Lockstep

/-- How the work of an actor ends. -/
inductive Ending where
  | completed
  | failed (e : ActorError)
  | panicked (message : String)

/-- What an actor asks for. -/
inductive Ask where
  /-- To be taken to its next phase. -/
  | nextPhase
  /-- For another iteration of its phase. -/
  | iterate
  | pause (d : Duration)
  /-- Begins to measure an operation. -/
  | begin (o : Operation)
  /-- Adds to the counters of the operation. -/
  | count (documents bytes iterations : Nat)
  /-- Ends the operation and reports it. -/
  | report (o : Outcome)
  /-- Ends the operation without a report. -/
  | discard
  /-- Adds to a shared counter. -/
  | bump (ref : Nat) (n : Int)
  /-- Asks whether there are no more phases. -/
  | isFinished
  /-- Gives up its part in the barrier. -/
  | leave
  /-- Waits for orders. -/
  | rest
  /-- Ends its work. -/
  | finish (e : Ending)

/-- What an actor is answered. -/
inductive Reply where
  | done
  /-- The phase to work in, or that there are no more. -/
  | phase (plan : Option PhasePlan)
  /-- There are no more phases, because the run was aborted. -/
  | halted (e : SyncError)
  /-- Whether there is another iteration, and how many there have been. -/
  | iteration (granted : Bool) (count : Nat)
  /-- There is no phase to iterate in. -/
  | noPhase
  | recorded (r : Except MetricsError Unit)
  | finished (b : Bool)

/-- States of type `σ` describe actors. -/
class Behaviour (σ : Type) where
  /-- What the actor asks for next. -/
  ask : σ → Ask
  /-- Takes the answer, at some time. -/
  hear : σ → (now : Nat) → Reply → σ

end Lockstep
