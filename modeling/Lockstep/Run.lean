import Lockstep.Timeline

/-!
# Whole runs

A run begins by marking the barrier as launched; then all actors run until every one of them has
come to its end.  It may be given a time after which it is stopped in order, and it may be
interfered with at certain times.  Nobody waits longer than `longestRun` for it to end.

* `Summary` is what is said about a run that went well, `conclude` works it out, or else the error
  that names the actor to blame;
* `Interference` lists what may happen to a run from outside;
* `Run.follow` runs a system along a list of interferences;
* `Run.outcome_follow` says that what is said about a run is what `conclude` says at its end.
-/

namespace Lockstep

/-- The end of one actor in a run that went well. -/
structure Finish where
  name : String
  id : Nat
  state : Lifecycle
  deriving DecidableEq, Repr

/-- A run that went well. -/
structure Summary where
  actors : List Finish
  /-- The number of phases that have closed. -/
  phasesCompleted : Nat
  /-- The run was stopped. -/
  stopped : Bool
  elapsed : Duration

section Conclusion

variable {σ : Type}

/-- The error about the actor whose failure aborted the run, given what came of it. -/
def blame (f : Failure) : Option Result → RunError
  | some (.ended (.failed e)) => .actorFailed f.actor f.id f.phase e
  | some (.ended (.panicked message)) => .actorPanicked f.actor f.id f.phase message
  | some (.refused state) => .lifecycle state
  -- it did well itself, but gave up its part in the barrier too early
  | some (.ended .completed) => .actorExited f.actor f.id f.phase
  | none => .actorExited f.actor f.id f.phase

/-- What came of the first task of an actor. -/
def resultOf? (tasks : List (Task σ)) (id : Nat) : Option Result :=
  (tasks.find? fun t => t.id = id).bind Task.result?

/-- The state in which the first actor is that could not run again. -/
def firstRefusal? (tasks : List (Task σ)) : Option Lifecycle :=
  tasks.findSome? fun t =>
    match t.result? with
    | some (.refused state) => some state
    | _ => none

/-- What is said about a run all of whose tasks have come to their end. -/
def conclude (s : System σ) : Except RunError Summary :=
  match s.world.barrier.failure with
  | some f => .error (blame f (resultOf? s.tasks f.id))
  -- nobody aborted the run; still somebody may not have been able to begin
  | none =>
    match firstRefusal? s.tasks with
    | some state => .error (.lifecycle state)
    | none => .ok {
        actors := s.tasks.map fun t => ⟨t.name, t.id, t.lifecycle⟩
        phasesCompleted := s.world.barrier.currentPhase
        stopped := s.world.barrier.isStopped
        elapsed := .between 0 s.world.now }

end Conclusion

/-- What may happen to a run from outside. -/
inductive Interference where
  | stop
  | requestEnd (phase : Nat)
  /-- Somebody looks at it. -/
  | look
  /-- Its time is over. -/
  | expire
  /-- Nobody waits for its end any longer. -/
  | giveUp
  deriving DecidableEq, Repr

/-- What somebody sees who looks at a run. -/
structure Look where
  phase : Nat
  ended : Bool
  deriving DecidableEq, Repr

/-- A run. -/
structure Run (σ : Type) where
  timeline : Timeline σ
  /-- What is said about it, once it has ended. -/
  outcome : Option (Except RunError Summary)
  /-- Nobody waits for its end any longer; its actors go on all the same. -/
  givenUp : Bool
  looks : List Look

namespace Run

variable {σ : Type}

/-- The system of a run. -/
def system (r : Run σ) : System σ := r.timeline.system

/-- A run of tasks alone, which does not mark the barrier. -/
def prepare (s : System σ) : Run σ := ⟨.ofSystem s, none, false, []⟩

/-- A run that begins. -/
def start (s : System σ) : Run σ := prepare (s.onBarrier Barrier.launch)

/-- The run has ended, as far as anybody waited for that. -/
def isEnded (r : Run σ) : Bool := r.outcome.isSome || r.givenUp

/-- Works out what is said about a run as soon as it has ended. -/
def noteEnd (r : Run σ) : Run σ :=
  if !r.isEnded && r.system.isOver then { r with outcome := some (conclude r.system) } else r

/-- Changes the barrier. -/
def onBarrier (r : Run σ) (f : Barrier → Barrier) : Run σ :=
  { r with timeline := r.timeline.onBarrier f }

variable [Behaviour σ]

/-- Lets time pass until it is `time`, unless the run has ended. -/
def runBefore (r : Run σ) (time : Nat) : Run σ :=
  if r.outcome.isSome ∨ time ≤ r.system.world.now then r
  else noteEnd { r with timeline := r.timeline.runBefore time }

/-- Everybody goes on until they wait, unless the run has ended. -/
def settle (r : Run σ) : Run σ :=
  if r.outcome.isSome then r else noteEnd { r with timeline := r.timeline.settle }

/-- Something happens to the run at a time, before anybody goes on; but it is given up only after
everybody has gone on. -/
def happen (r : Run σ) (time : Nat) (kind : Interference) : Run σ :=
  let r := r.runBefore time
  match kind with
  | .stop => r.onBarrier Barrier.stop
  | .requestEnd k => r.onBarrier (Barrier.requestEnd · k)
  | .look =>
    { r with looks := r.looks ++ [⟨r.system.world.barrier.currentPhase, r.isEnded⟩] }
  -- a run that ends just in time is not stopped any more, nor one for which nobody waits
  | .expire =>
    if r.system.isOver then r.noteEnd
    else if r.givenUp then r
    else r.onBarrier Barrier.stop
  | .giveUp =>
    let r := r.settle
    if r.isEnded then r else { r with givenUp := true }

/-- Events at their times on the clock: whole milliseconds, none before the one it follows. -/
def timed (now : Nat) : List (Nat × Interference) → List (Nat × Interference)
  | [] => []
  | (time, kind) :: events =>
    let time := max now (roundUp time)
    (time, kind) :: timed time events

/-- Puts an event among others, after those at the same time. -/
def schedule (e : Nat × Interference) : List (Nat × Interference) → List (Nat × Interference)
  | [] => [e]
  | e' :: events => if e.1 < e'.1 then e :: e' :: events else e' :: schedule e events

/-- How long anybody waits for the end of a run. -/
def longestRun : Duration := .ofSecs 1000000

/-- All that happens to a run: the events of a script, the end of its time, and that it is given
up. -/
def agenda (script : List (Nat × Interference)) (timeout : Option Duration) :
    List (Nat × Interference) :=
  let events := timed 0 script
  let events := timeout.elim events fun limit => schedule (wakeTime 0 limit, .expire) events
  schedule (wakeTime 0 longestRun, .giveUp) events

/-- Goes on along a list of events. -/
def follow (r : Run σ) (events : List (Nat × Interference)) : Run σ :=
  events.foldl (fun r e => r.happen e.1 e.2) r

/-! ### Nothing but moves -/

/-- A run comes from a system by moves none of which aborts it from outside, and what is said about
it is concluded from a system in which all tasks have come to their end. -/
structure ComesFrom (s : System σ) (r : Run σ) : Prop where
  reaches : s.ReachesBy Label.IsOrderly r.system
  outcome : ∀ o, r.outcome = some o →
    ∃ s', s.ReachesBy Label.IsOrderly s' ∧ s'.isOver = true ∧ o = conclude s'

namespace ComesFrom

variable {s : System σ} {r : Run σ}

theorem noteEnd (h : ComesFrom s r) : ComesFrom s r.noteEnd := by
  unfold Run.noteEnd
  split
  · next hover =>
    rw [Bool.and_eq_true] at hover
    exact ⟨h.reaches, fun o ho => ⟨_, h.reaches, hover.2, (Option.some.inj ho).symm⟩⟩
  · exact h

theorem timeline (h : ComesFrom s r) {t : Timeline σ}
    (ht : r.system.ReachesBy Label.IsOrderly t.system) : ComesFrom s { r with timeline := t } :=
  ⟨h.reaches.trans ht, h.outcome⟩

theorem runBefore (h : ComesFrom s r) (time : Nat) : ComesFrom s (r.runBefore time) := by
  unfold Run.runBefore
  split
  · exact h
  · exact (h.timeline ((Timeline.reaches_runBefore _ _).mono fun _ => (·.isOrderly))).noteEnd

theorem settle (h : ComesFrom s r) : ComesFrom s r.settle := by
  unfold Run.settle
  split
  · exact h
  · exact (h.timeline ((Timeline.reaches_settle _).mono fun _ => (·.isOrderly))).noteEnd

theorem stop (h : ComesFrom s r) : ComesFrom s (r.onBarrier Barrier.stop) := by
  refine h.timeline ?_
  rw [Timeline.onBarrier, Timeline.system_announce]
  exact .move _ (l := .stop) trivial

theorem requestEnd (h : ComesFrom s r) (k : Nat) :
    ComesFrom s (r.onBarrier (Barrier.requestEnd · k)) := by
  refine h.timeline ?_
  rw [Timeline.onBarrier, Timeline.system_announce]
  exact .move _ (l := .requestEnd k) trivial

theorem happen (h : ComesFrom s r) (time : Nat) (kind : Interference) :
    ComesFrom s (r.happen time kind) := by
  have hbefore := h.runBefore time
  cases kind with
  | stop => exact hbefore.stop
  | requestEnd k => exact hbefore.requestEnd k
  | look => exact ⟨hbefore.reaches, hbefore.outcome⟩
  | expire =>
    simp only [Run.happen]
    split
    · exact hbefore.noteEnd
    · split
      · exact hbefore
      · exact hbefore.stop
  | giveUp =>
    simp only [Run.happen]
    split
    · exact hbefore.settle
    · exact ⟨hbefore.settle.reaches, hbefore.settle.outcome⟩

theorem follow (h : ComesFrom s r) (events : List (Nat × Interference)) :
    ComesFrom s (r.follow events) := by
  unfold Run.follow
  induction events generalizing r with
  | nil => exact h
  | cons e events ih => exact ih (h.happen e.1 e.2)

end ComesFrom

/-- What is said about a run is concluded from a system that the launched one has come to by moves
none of which aborts it from outside, and in which all tasks have come to their end. -/
theorem outcome_follow {s : System σ} {events : List (Nat × Interference)}
    {o : Except RunError Summary} (h : ((Run.start s).follow events).outcome = some o) :
    ∃ s', (s.onBarrier Barrier.launch).ReachesBy Label.IsOrderly s' ∧ s'.isOver = true ∧
      o = conclude s' := by
  have hstart : ComesFrom (s.onBarrier Barrier.launch) (Run.start s) :=
    ⟨.refl _, fun o ho => by cases ho⟩
  exact (hstart.follow events).outcome o h

end Run

end Lockstep
