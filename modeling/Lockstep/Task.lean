import Lockstep.Behaviour
import Lockstep.Participant
import Lockstep.Store

/-!
# Running actors

A `Task` is an actor in a run.  It carries out what the actor asks for, in steps between which other
tasks may come; when the work has ended it sees to it that a failure aborts the run, and gives up
the actor's part in the barrier.

* `World` is what all tasks of a run share;
* `Stage` lists the points at which a task may be;
* `Task.step` is one step of a task, and `Pulse` says whether it goes on at once;
* `Task.interrupt` calls a task away from what it waits for.
-/

namespace Lockstep

/-- What the tasks of a run share. -/
structure World where
  now : Nat
  barrier : Barrier
  /-- The buckets of the phases with a rate, for each block. -/
  buckets : SortedMap Nat (SortedMap Nat Bucket)
  store : Store
  sink : Sink

namespace World

/-- The bucket that the actors of a block share in a phase. -/
def bucket? (w : World) (block phase : Nat) : Option Bucket :=
  (w.buckets.find? block).bind fun shelf => shelf.find? phase

/-- Puts a bucket in its place. -/
def putBucket (w : World) (block phase : Nat) (b : Bucket) : World :=
  { w with buckets := w.buckets.alter block fun shelf => (shelf.getD .empty).insert phase b }

end World

/-- What came of a task. -/
inductive Result where
  | ended (e : Ending)
  /-- The actor could not run again. -/
  | refused (state : Lifecycle)

/-- Where a task is. -/
inductive Stage where
  /-- It has not begun. -/
  | waiting
  /-- Carries out what the actor asks for next. -/
  | acting
  | advancing (a : Advance)
  | pacing (p : Pace)
  | asleep (wake : Nat)
  /-- The actor gives up its part in the barrier, and goes on. -/
  | leaving (f : Farewell)
  /-- The work has ended; looks whether the actor is to blame. -/
  | judging (r : Result)
  /-- It is; looks for the phase. -/
  | reading (r : Result) (message : String)
  /-- Aborts the run. -/
  | accusing (r : Result) (f : Failure)
  /-- Gives up the actor's part in the barrier. -/
  | parting (r : Result) (f : Farewell)
  | over (r : Result)

/-- An actor in a run. -/
structure Task (σ : Type) where
  name : String
  id : Nat
  lifecycle : Lifecycle
  mind : σ
  /-- The actor's part in the barrier, unless it has none or has given it up. -/
  loop : Option Participant
  /-- The phase it works in. -/
  stint : Option Stint
  /-- The operation under way. -/
  measurement : Option Measurement
  stage : Stage

/-- Whether a task goes on. -/
inductive Pulse where
  /-- At once. -/
  | running
  /-- After the others have had their turn. -/
  | yielded
  /-- Only after something has changed. -/
  | blocked
  deriving DecidableEq, Repr

namespace Lifecycle

/-- An actor begins its work; only once. -/
def start : Lifecycle → Except Lifecycle Lifecycle
  | constructed => .ok running
  | s => .error s

/-- An actor ends its work. -/
def terminate : Lifecycle → Except Lifecycle Lifecycle
  | running => .ok terminated
  | s => .error s

end Lifecycle

namespace Task

variable {σ : Type}

/-- An actor before its run. -/
def fresh (name : String) (id : Nat) (mind : σ) (loop : Option Participant) : Task σ :=
  ⟨name, id, .constructed, mind, loop, none, none, .waiting⟩

/-- The task has come to its end. -/
def result? (t : Task σ) : Option Result :=
  match t.stage with
  | .over r => some r
  | _ => none

/-- When a sleeping task wakes up. -/
def wake? (t : Task σ) : Option Nat :=
  match t.stage with
  | .asleep wake => some wake
  | .pacing p => p.wake?
  | _ => none

/-- What a step comes to. -/
structure Stepped (σ : Type) where
  world : World
  task : Task σ
  pulse : Pulse

/-- A step after which the task goes on at once. -/
def moves (w : World) (t : Task σ) : Stepped σ := ⟨w, t, .running⟩

/-- The work of the actor ends. -/
def conclude (w : World) (t : Task σ) (e : Ending) : Stepped σ :=
  match t.lifecycle.terminate with
  | .ok s => moves w { t with lifecycle := s, stage := .judging (.ended e) }
  | .error s => moves w { t with stage := .parting (.refused s) .checking }

/-- The actor is to blame for this message, if for any. -/
def accusation (b : Barrier) : Result → Option String
  | .ended (.failed e) => if e.isAftermath && b.isAborted then none else some e.message
  | .ended (.panicked message) => some ("panicked: " ++ message)
  | _ => none

variable [Behaviour σ]

/-- The actor takes an answer and goes on. -/
def tell (now : Nat) (t : Task σ) (r : Reply) : Task σ :=
  { t with mind := Behaviour.hear t.mind now r, stage := .acting }

/-- Carries out what the actor asks for. -/
def obey (w : World) (t : Task σ) : Ask → Stepped σ
  | .nextPhase =>
    match t.loop with
    | none => moves w (tell w.now { t with stint := none } (.phase none))
    | some p =>
      let (p, a) := Advance.first p
      moves w { t with loop := some p, stint := none, stage := .advancing a }
  | .iterate =>
    match t.stint with
    | none => moves w (tell w.now t .noPhase)
    | some _ => moves w { t with stage := .pacing .asked }
  | .pause d => moves w { t with stage := .asleep (wakeTime w.now d) }
  | .begin o =>
    let m := Measurement.begin o (some w.barrier.currentPhase) w.now
    moves w (tell w.now { t with measurement := some m } .done)
  | .count documents bytes iterations =>
    match t.measurement with
    | none => moves w (tell w.now t .done)
    | some m =>
      match m.add? documents bytes iterations with
      | some m => moves w (tell w.now { t with measurement := some m } .done)
      | none => conclude w t (.panicked overflowText)
  | .report o =>
    match t.measurement with
    | none => moves w (tell w.now t .done)
    | some m =>
      let (sink, r) := w.sink.report m o w.now
      moves { w with sink } (tell w.now { t with measurement := none } (.recorded r))
  | .discard => moves w (tell w.now { t with measurement := none } .done)
  | .bump ref n => moves { w with store := w.store.bump ref (.counter n) } (tell w.now t .done)
  | .isFinished =>
    -- an actor without a part in the barrier has nothing left to finish
    let b := t.loop.elim true Participant.finished
    moves w (tell w.now { t with stint := none } (.finished b))
  | .leave => moves w { t with stint := none, stage := .leaving .checking }
  | .rest => ⟨w, t, .blocked⟩
  | .finish e => conclude w t e

/-- A step on the way to the next phase. -/
def advance (w : World) (t : Task σ) (a : Advance) : Stepped σ :=
  match t.loop with
  | none => moves w (tell w.now t (.phase none))
  | some p =>
    match a.step w.barrier p with
    | (barrier, p, r) =>
      -- the barrier has been changed whatever the step comes to
      let w := { w with barrier }
      let t := { t with loop := some p }
      match r with
      | .blocked => ⟨w, t, .blocked⟩
      | .moved a => moves w { t with stage := .advancing a }
      | .entered plan last =>
        let t := { t with stint := some (.begin plan last w.now) }
        moves w (tell w.now t (.phase (some plan)))
      | .over => moves w (tell w.now t (.phase none))
      | .failed e => moves w (tell w.now t (.halted e))
      | .broken message => conclude w t (.panicked message)

/-- A step on the way to the next iteration. -/
def pace (w : World) (t : Task σ) (p : Pace) : Stepped σ :=
  match t.stint with
  | none => moves w (tell w.now t .noPhase)
  | some s =>
    let block := t.loop.elim 0 Participant.block
    let k := s.plan.number
    match p.step w.now w.barrier (w.bucket? block k) s with
    | (bucket, s, r) =>
      let w := bucket.elim w (w.putBucket block k)
      let t := { t with stint := some s }
      match r with
      | .blocked => ⟨w, t, .blocked⟩
      | .moved p => moves w { t with stage := .pacing p }
      | .yielded p => ⟨w, { t with stage := .pacing p }, .yielded⟩
      | .answered granted => moves w (tell w.now t (.iteration granted s.iterations))
      | .broken message => conclude w t (.panicked message)

/-- One step of a task. -/
def step (w : World) (t : Task σ) : Stepped σ :=
  match t.stage with
  | .waiting =>
    match t.lifecycle.start with
    | .ok s => moves w { t with lifecycle := s, stage := .acting }
    | .error s => moves w { t with stage := .parting (.refused s) .checking }
  | .acting => obey w t (Behaviour.ask t.mind)
  | .advancing a => advance w t a
  | .pacing p => pace w t p
  | .asleep wake => if wake ≤ w.now then moves w (tell w.now t .done) else ⟨w, t, .blocked⟩
  | .leaving f =>
    match t.loop with
    | none => moves w (tell w.now t .done)
    | some p =>
      match f.step w.barrier p with
      | (barrier, some f) => moves { w with barrier } { t with stage := .leaving f }
      | (barrier, none) => moves { w with barrier } (tell w.now { t with loop := none } .done)
  | .judging r =>
    match accusation w.barrier r with
    | some message => moves w { t with stage := .reading r message }
    | none => moves w { t with stage := .parting r .checking }
  | .reading r message =>
    moves w { t with stage := .accusing r ⟨t.name, t.id, w.barrier.currentPhase, message⟩ }
  | .accusing r f =>
    moves { w with barrier := w.barrier.abort f } { t with stage := .parting r .checking }
  | .parting r f =>
    match t.loop with
    | none => moves w { t with stage := .over r }
    | some p =>
      match f.step w.barrier p with
      | (barrier, some f) => moves { w with barrier } { t with stage := .parting r f }
      | (barrier, none) => moves { w with barrier } { t with loop := none, stage := .over r }
  | .over _ => ⟨w, t, .blocked⟩

/-- The actor is called away from what it waits for.  From an iteration or a pause it just goes on;
but a way to the next phase cannot be taken up again, so there the actor either ends its work or
gives up its part in the barrier. -/
def interrupt (w : World) (t : Task σ) : Stepped σ :=
  match t.stage with
  | .pacing _ | .asleep _ => moves w (tell w.now t .done)
  | .advancing _ =>
    let heard := tell w.now t .done
    match Behaviour.ask heard.mind with
    | .finish e => conclude w heard e
    | _ => moves w { t with stage := .leaving .checking }
  | _ => ⟨w, t, .blocked⟩

omit [Behaviour σ] in
@[simp] theorem world_conclude (w : World) (t : Task σ) (e : Ending) :
    (conclude w t e).world = w := by
  unfold conclude
  split <;> rfl

/-- Calling an actor away changes nothing that the others see. -/
@[simp] theorem world_interrupt (w : World) (t : Task σ) : (t.interrupt w).world = w := by
  unfold interrupt
  split
  · rfl
  · rfl
  · simp only
    split
    · exact world_conclude _ _ _
    · rfl
  · rfl

end Task

end Lockstep
