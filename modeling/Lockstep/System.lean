import Lockstep.Task

/-!
# Systems of tasks

A `System` is the tasks of a run and the world they share.  It moves by steps of its tasks, in any
order, by turns of the background, by requests from outside, and with the clock.  A task may also be
called away from what it waits for.

* `Label` lists the moves, `System.fire` carries one out, and `System.run` a list of them;
* `System.Reachable` are the systems that moves lead to, and `System.Reachable.invariant` is how a
  property is proved of all of them;
* `System.ReachesBy` says the same of moves of some kind only.
-/

namespace Lockstep

/-- The tasks of a run and what they share. -/
structure System (σ : Type) where
  world : World
  tasks : List (Task σ)

/-- The moves of a system. -/
inductive Label where
  /-- A task takes a step. -/
  | act (i : Nat)
  /-- A task is called away from what it waits for. -/
  | interrupt (i : Nat)
  /-- The background adds up the events that wait. -/
  | work
  | stop
  | requestEnd (phase : Nat)
  | abort (f : Failure)
  /-- The clock moves on to a time. -/
  | tick (now : Nat)
  deriving DecidableEq, Repr

/-- The system moves on by itself. -/
def Label.IsInner : Label → Prop
  | .act _ => True
  | .work => True
  | .tick _ => True
  | _ => False

/-- Nobody outside aborts the run. -/
def Label.IsOrderly : Label → Prop
  | .abort _ => False
  | _ => True

theorem Label.IsInner.isOrderly {l : Label} (h : l.IsInner) : l.IsOrderly := by
  cases l <;> trivial

namespace System

variable {σ : Type}

/-- Changes the barrier. -/
def onBarrier (s : System σ) (f : Barrier → Barrier) : System σ :=
  { s with world := { s.world with barrier := f s.world.barrier } }

/-- The background has a turn. -/
def work (s : System σ) : System σ :=
  { s with world := { s.world with sink := s.world.sink.work } }

/-- The clock shows a time, or a later one if it has come that far already. -/
def showing (s : System σ) (now : Nat) : System σ :=
  { s with world := { s.world with now := max s.world.now now } }

/-- Something is done to a task, which may also change the world. -/
def onTask (s : System σ) (i : Nat) (f : World → Task σ → Task.Stepped σ) : System σ :=
  match s.tasks[i]? with
  | none => s
  | some t =>
    let r := f s.world t
    ⟨r.world, s.tasks.set i r.task⟩

theorem onTask_of_some {s : System σ} {i : Nat} {t : Task σ} (ht : s.tasks[i]? = some t)
    (f : World → Task σ → Task.Stepped σ) :
    s.onTask i f = ⟨(f s.world t).world, s.tasks.set i (f s.world t).task⟩ := by
  simp only [onTask, ht]

theorem onTask_of_none {s : System σ} {i : Nat} (ht : s.tasks[i]? = none)
    (f : World → Task σ → Task.Stepped σ) : s.onTask i f = s := by
  simp only [onTask, ht]

/-- Where one task has been put in its place the others are as they were. -/
theorem of_getElem?_set {ts : List (Task σ)} {i j : Nat} {t u : Task σ}
    (h : (ts.set i t)[j]? = some u) : j = i ∧ u = t ∨ j ≠ i ∧ ts[j]? = some u := by
  rw [List.getElem?_set] at h
  split at h
  · next hij =>
    split at h
    · cases h; exact .inl ⟨hij.symm, rfl⟩
    · cases h
  · next hij => exact .inr ⟨Ne.symm hij, h⟩

variable [Behaviour σ]

/-- A task takes a step. -/
def act (s : System σ) (i : Nat) : System σ := s.onTask i Task.step

/-- Carries out a move. -/
def fire (s : System σ) : Label → System σ
  | .act i => s.act i
  | .interrupt i => s.onTask i Task.interrupt
  | .work => s.work
  | .stop => s.onBarrier Barrier.stop
  | .requestEnd k => s.onBarrier (Barrier.requestEnd · k)
  | .abort f => s.onBarrier (Barrier.abort · f)
  | .tick now => s.showing now

theorem fire_act {s : System σ} {i : Nat} {t : Task σ} (ht : s.tasks[i]? = some t) :
    s.fire (.act i) = ⟨(t.step s.world).world, s.tasks.set i (t.step s.world).task⟩ :=
  onTask_of_some ht _

theorem fire_interrupt {s : System σ} {i : Nat} {t : Task σ} (ht : s.tasks[i]? = some t) :
    s.fire (.interrupt i) = ⟨s.world, s.tasks.set i (t.interrupt s.world).task⟩ := by
  rw [fire, onTask_of_some ht, Task.world_interrupt]

/-- Carries out moves one after the other. -/
def run (s : System σ) (ls : List Label) : System σ := ls.foldl fire s

/-- The systems that moves lead to. -/
inductive Reachable (s₀ : System σ) : System σ → Prop where
  | start : Reachable s₀ s₀
  | move {s : System σ} (h : Reachable s₀ s) (l : Label) : Reachable s₀ (s.fire l)

theorem Reachable.trans {s₀ s s' : System σ} (h : Reachable s₀ s) (h' : Reachable s s') :
    Reachable s₀ s' := by
  induction h' with
  | start => exact h
  | move _ l ih => exact ih.move l

/-- What holds at the start and is kept by every move holds of every reachable system. -/
theorem Reachable.invariant {P : System σ → Prop} {s₀ : System σ} (hstart : P s₀)
    (hmove : ∀ s l, P s → P (s.fire l)) {s : System σ} (h : Reachable s₀ s) : P s := by
  induction h with
  | start => exact hstart
  | move _ l ih => exact hmove _ l ih

theorem run_append (s : System σ) (ls ls' : List Label) :
    s.run (ls ++ ls') = (s.run ls).run ls' := List.foldl_append

theorem reachable_run (s : System σ) (ls : List Label) : s.Reachable (s.run ls) := by
  induction ls generalizing s with
  | nil => exact .start
  | cons l ls ih => exact (Reachable.start.move l).trans (ih (s.fire l))

/-- The reachable systems are those that lists of moves lead to. -/
theorem reachable_iff_run {s₀ s : System σ} : s₀.Reachable s ↔ ∃ ls, s = s₀.run ls := by
  constructor
  · intro h
    induction h with
    | start => exact ⟨[], rfl⟩
    | move _ l ih =>
      obtain ⟨ls, rfl⟩ := ih
      exact ⟨ls ++ [l], (run_append s₀ ls [l]).symm⟩
  · rintro ⟨ls, rfl⟩
    exact reachable_run s₀ ls

/-- Moves of some kind lead from one system to another. -/
def ReachesBy (P : Label → Prop) (s₀ s : System σ) : Prop :=
  ∃ ls, (∀ l ∈ ls, P l) ∧ s = s₀.run ls

namespace ReachesBy

variable {P Q : Label → Prop} {s s' s'' : System σ}

theorem refl (s : System σ) : s.ReachesBy P s := ⟨[], by simp, rfl⟩

theorem move (s : System σ) {l : Label} (hl : P l) : s.ReachesBy P (s.fire l) :=
  ⟨[l], by simpa using hl, rfl⟩

theorem trans (h : s.ReachesBy P s') (h' : s'.ReachesBy P s'') : s.ReachesBy P s'' := by
  obtain ⟨ls, hls, rfl⟩ := h
  obtain ⟨ls', hls', rfl⟩ := h'
  refine ⟨ls ++ ls', fun l hl => ?_, (run_append s ls ls').symm⟩
  exact (List.mem_append.1 hl).elim (hls l) (hls' l)

theorem mono (hPQ : ∀ l, P l → Q l) (h : s.ReachesBy P s') : s.ReachesBy Q s' := by
  obtain ⟨ls, hls, rfl⟩ := h
  exact ⟨ls, fun l hl => hPQ l (hls l hl), rfl⟩

end ReachesBy

end System

end Lockstep
