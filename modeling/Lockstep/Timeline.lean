import Lockstep.System

/-!
# Running a system on its clock

The clock stands still while any task can go on.  Tasks have their turns first come, first served:
in its turn a task is carried on until it has to wait.  The background of the sink has turns like
everybody else, whenever there are events to add up.  Those that let the others go first come after
everybody else, the last of them first.  When nobody can go on, the clock moves on to the earliest
time at which a task wakes up; of those that wake up together the one that has slept longest comes
first.

* `Timeline` is a system together with the order of turns;
* `Timeline.settle` lets all tasks have their turns until they wait;
* `Timeline.runBefore` lets time pass;
* `Timeline.reaches_runBefore` says that this only makes moves of the system.

Every loop has an explicit bound on its rounds, `patience`.
-/

namespace Lockstep

/-- The most rounds of any loop. -/
def patience : Nat := Nat.pow 10 15

namespace Task

variable {σ : Type} [Behaviour σ]

/-- Carries a task on until it has to wait. -/
def poll (w : World) (t : Task σ) : (fuel : Nat) → Stepped σ
  | 0 => ⟨w, t, .yielded⟩
  | fuel + 1 =>
    let r := t.step w
    match r.pulse with
    | .running => poll r.world r.task fuel
    | _ => r

/-- The task waits at the barrier. -/
def atBarrier (t : Task σ) : Bool :=
  match t.stage with
  | .advancing _ => true
  | _ => false

/-- The task waits for orders. -/
def isIdle (t : Task σ) : Bool :=
  match t.stage with
  | .acting => true
  | _ => false

end Task

namespace System

variable {σ : Type}

/-- Every task has come to its end. -/
def isOver (s : System σ) : Bool := s.tasks.all fun t => t.result?.isSome

end System

/-- Whose turn it is. -/
inductive Timeline.Turn where
  | task (i : Nat)
  | background
  deriving DecidableEq, Repr

/-- A system with the order in which its tasks have their turns. -/
structure Timeline (σ : Type) where
  system : System σ
  /-- The turns to come, the first one first. -/
  queue : List Timeline.Turn
  /-- The tasks that let the others go first, the last one first. -/
  yielded : List Nat
  /-- When the sleeping tasks wake up, in the order in which they fell asleep. -/
  asleep : List (Nat × Nat)

namespace Timeline

variable {σ : Type}

/-- Every task of a system is to have a turn, and the background before them. -/
def ofSystem (s : System σ) : Timeline σ :=
  ⟨s, .background :: (List.range s.tasks.length).map .task, [], []⟩

/-- Changes the system. -/
def onSystem (t : Timeline σ) (f : System σ → System σ) : Timeline σ :=
  { t with system := f t.system }

/-- All tasks of some description that wait get a turn. -/
def summon (t : Timeline σ) (p : Task σ → Bool) : Timeline σ :=
  let called := t.system.tasks.zipIdx.filterMap fun e =>
    if p e.1 && !t.queue.contains (.task e.2) then some (Turn.task e.2) else none
  { t with queue := t.queue ++ called }

/-- Those who wait at the barrier get a turn if it has made a change known since it looked so. -/
def announce (t : Timeline σ) (before : Barrier) : Timeline σ :=
  if before.published < t.system.world.barrier.published then t.summon Task.atBarrier else t

/-- Changes the barrier. -/
def onBarrier (t : Timeline σ) (f : Barrier → Barrier) : Timeline σ :=
  (t.onSystem fun s => s.onBarrier f).announce t.system.world.barrier

/-- The background gets a turn if there is something to do for it. -/
def rouse (t : Timeline σ) : Timeline σ :=
  if t.system.world.sink.isBusy && !t.queue.contains .background then
    { t with queue := t.queue ++ [.background] }
  else t

/-- Those whose time has come get a turn. -/
def awaken (t : Timeline σ) : Timeline σ :=
  let now := t.system.world.now
  -- the sort is stable, so those who wake up together stay in the order of falling asleep
  let due := (t.asleep.filter fun e => e.1 ≤ now).mergeSort fun a b => a.1 ≤ b.1
  { t with
    queue := t.queue ++ due.map fun e => .task e.2
    asleep := t.asleep.filter fun e => now < e.1 }

/-- The earliest time at which a task wakes up. -/
def nextWake? (t : Timeline σ) : Option Nat := (t.asleep.map Prod.fst).min?

/-- The clock moves on to a time, and those whose time has come get a turn. -/
def tick (t : Timeline σ) (now : Nat) : Timeline σ := (t.onSystem (·.showing now)).awaken

variable [Behaviour σ]

/-- Notes where a task is after its turn. -/
def place (t : Timeline σ) (i : Nat) (task : Task σ) (pulse : Pulse) : Timeline σ :=
  match pulse, task.wake? with
  | .blocked, some wake => { t with asleep := t.asleep ++ [(wake, i)] }
  -- only a change at the barrier, or an order, gives it another turn
  | .blocked, none => t
  | _, _ => { t with yielded := i :: t.yielded }

/-- Somebody has a turn. -/
def turn (t : Timeline σ) : Turn → Timeline σ
  | .background => t.onSystem System.work
  | .task i =>
    match t.system.tasks[i]? with
    | none => t
    | some task =>
      let r := task.poll t.system.world patience
      let s : System σ := ⟨r.world, t.system.tasks.set i r.task⟩
      (({ t with system := s }).rouse.announce t.system.world.barrier).place i r.task r.pulse

/-- Turns until everybody waits. -/
def settleWithin (t : Timeline σ) : (fuel : Nat) → Timeline σ
  | 0 => t
  | fuel + 1 =>
    match t.queue with
    | next :: queue => (({ t with queue }).turn next).settleWithin fuel
    | [] =>
      match t.yielded with
      | [] => t
      | yielded => ({ t with queue := yielded.map .task, yielded := [] }).settleWithin fuel

/-- Turns until everybody waits. -/
def settle (t : Timeline σ) : Timeline σ := t.settleWithin patience

/-- Lets time pass until it is `time`, or until all tasks have come to their end.  What is to
happen at that time has not happened yet. -/
def runWithin (t : Timeline σ) (time : Nat) : (fuel : Nat) → Timeline σ
  | 0 => t
  | fuel + 1 =>
    let t := t.settle
    if t.system.isOver then t
    else
      match t.nextWake? with
      -- nobody will ever wake up, and time passes all the same
      | none => t.tick time
      | some wake => if time ≤ wake then t.tick time else (t.tick wake).runWithin time fuel

/-- Lets time pass until it is `time`, or until all tasks have come to their end.  What is to
happen at that time has not happened yet. -/
def runBefore (t : Timeline σ) (time : Nat) : Timeline σ :=
  if time ≤ t.system.world.now then t else t.runWithin time patience

/-! ### Nothing but moves -/

theorem reaches_poll {s : System σ} {i : Nat} {t : Task σ} (h : s.tasks[i]? = some t)
    (fuel : Nat) : s.ReachesBy Label.IsInner
      ⟨(t.poll s.world fuel).world, s.tasks.set i (t.poll s.world fuel).task⟩ := by
  induction fuel generalizing s t with
  | zero =>
    -- no step at all: the task is put back where it was
    obtain ⟨hi, rfl⟩ := List.getElem?_eq_some_iff.1 h
    simpa only [Task.poll, List.set_getElem_self hi] using System.ReachesBy.refl s
  | succ fuel ih =>
    -- the first step is a move, and the others follow it by induction
    have hfirst := System.ReachesBy.move (P := Label.IsInner) s (l := .act i) trivial
    rw [System.fire_act h] at hfirst
    rw [Task.poll]
    split
    · have hi : i < s.tasks.length := (List.getElem?_eq_some_iff.1 h).1
      have hrest := ih (s := ⟨(t.step s.world).world, s.tasks.set i (t.step s.world).task⟩)
        (t := (t.step s.world).task) (List.getElem?_set_self hi)
      simp only [List.set_set] at hrest
      exact hfirst.trans hrest
    · exact hfirst

omit [Behaviour σ] in
@[simp] theorem system_summon (t : Timeline σ) (p : Task σ → Bool) :
    (t.summon p).system = t.system := rfl

omit [Behaviour σ] in
@[simp] theorem system_rouse (t : Timeline σ) : t.rouse.system = t.system := by
  unfold rouse
  split <;> rfl

omit [Behaviour σ] in
@[simp] theorem system_announce (t : Timeline σ) (b : Barrier) :
    (t.announce b).system = t.system := by
  unfold announce
  split <;> rfl

omit [Behaviour σ] in
@[simp] theorem system_place (t : Timeline σ) (i : Nat) (task : Task σ) (pulse : Pulse) :
    (t.place i task pulse).system = t.system := by
  unfold place
  split <;> rfl

theorem reaches_turn (t : Timeline σ) (next : Turn) :
    t.system.ReachesBy Label.IsInner (t.turn next).system := by
  cases next with
  | background => exact System.ReachesBy.move _ (l := .work) trivial
  | task i =>
    rw [turn]
    split
    · exact .refl _
    · next task h => simpa using reaches_poll h patience

theorem reaches_settleWithin (t : Timeline σ) (fuel : Nat) :
    t.system.ReachesBy Label.IsInner (t.settleWithin fuel).system := by
  induction fuel generalizing t with
  | zero => exact .refl _
  | succ fuel ih =>
    rw [settleWithin]
    split
    · next first queue _ => exact (reaches_turn { t with queue } first).trans (ih _)
    · split
      · exact .refl _
      · exact ih { t with queue := t.yielded.map .task, yielded := [] }

theorem reaches_settle (t : Timeline σ) : t.system.ReachesBy Label.IsInner t.settle.system :=
  reaches_settleWithin t patience

theorem reaches_tick (t : Timeline σ) (now : Nat) :
    t.system.ReachesBy Label.IsInner (t.tick now).system :=
  System.ReachesBy.move _ (l := .tick now) trivial

theorem reaches_runWithin (t : Timeline σ) (time fuel : Nat) :
    t.system.ReachesBy Label.IsInner (t.runWithin time fuel).system := by
  induction fuel generalizing t with
  | zero => exact .refl _
  | succ fuel ih =>
    rw [runWithin]
    refine (reaches_settle t).trans ?_
    split
    · exact .refl _
    · split
      · exact reaches_tick _ _
      · split
        · exact reaches_tick _ _
        · exact (reaches_tick _ _).trans (ih _)

/-- Letting time pass makes only moves of the system. -/
theorem reaches_runBefore (t : Timeline σ) (time : Nat) :
    t.system.ReachesBy Label.IsInner (t.runBefore time).system := by
  unfold runBefore
  split
  · exact .refl _
  · exact reaches_runWithin t time patience

end Timeline

end Lockstep
