import Lockstep.Proofs.Course
import Lockstep.Proofs.Draining
import Mathlib.Data.Prod.Lex

/-!
# Steps of actors on their course

A task whose actor follows the loop is at a point of it, and a step leads to another one.  Once the
run has been halted every step leads nearer to the end, unless the task has to wait for the clock or
for a permit.

* `Task.IsAt` : the task of an actor at a point of its course;
* `Stage.distance` : how far a task is from its end when the run has been halted: how much of the
  loop lies ahead, and then how many steps of this part;
* `Task.IsAt.goes_step` : **a step stays on the course, and in a halted run it leads nearer to the
  end**, if the actor does not fail or panic by itself.
-/

namespace Lockstep

/-! ### Where a task is -/

/-- The work of the actor is complete, and it gives up its part in the barrier without more ado. -/
def Stage.isRetiring : Stage → Bool
  | .judging (.ended .completed) => true
  | .parting (.ended .completed) .checking => true
  | .over (.ended .completed) => true
  | _ => false

/-- The actor wants a permit. -/
def Stage.isDrawing : Stage → Bool
  | .pacing p => p.isDrawing
  | _ => false

namespace Task

variable {σ : Type}

/-- The actor has failed or panicked by itself. -/
def IsFaulty (t : Task σ) : Prop :=
  ∃ e, t.stage.outcome? = some (.ended e) ∧ e.isFault = true

/-- The task has what the actor needs for what it is about. -/
structure IsFit (t : Task σ) (leg : Leg) : Prop where
  loop : t.loop.isSome = true
  stint : leg = .working → t.stint.isSome = true
  finished : leg = .closing → ∀ p, t.loop = some p → p.finished = true
  /-- Nobody has been told of an error. -/
  unwarned : ∀ e, leg ≠ .quitting e

/-- The task of an actor that is at a point of its course. -/
inductive IsAt [Behaviour σ] (C : Course σ) (t : Task σ) : Point → Prop
  | waits {x : Point} (hs : t.stage = .waiting) (hm : C.At t.mind x) (hfit : t.IsFit x.leg) :
      IsAt C t x
  | acts {x : Point} (hs : t.stage = .acting) (hm : C.At t.mind x) (hfit : t.IsFit x.leg) :
      IsAt C t x
  | sleeps {x : Point} {wake : Nat} {d : Duration} (hs : t.stage = .asleep wake)
      (hm : C.At t.mind x) (hq : Behaviour.ask t.mind = .pause d) (hfit : t.IsFit x.leg) :
      IsAt C t x
  | advances {a : Advance} (hs : t.stage = .advancing a) (hm : C.At t.mind ⟨.arriving, 0⟩)
      (hfit : t.IsFit .arriving) : IsAt C t ⟨.arriving, 0⟩
  | paces {p : Pace} (hs : t.stage = .pacing p) (hm : C.At t.mind ⟨.working, 0⟩)
      (hfit : t.IsFit .working) : IsAt C t ⟨.working, 0⟩
  | retires (hs : t.stage.isRetiring = true)
      (hfinished : ∀ p, t.loop = some p → p.finished = true) : IsAt C t ⟨.closing, 0⟩

end Task

/-! ### How far it is to the end -/

/-- How much of the loop lies ahead when there is no further phase or iteration. -/
def Leg.level : Leg → Nat
  | failing => 1
  | quitting _ => 1
  | closing => 2
  | arriving => 3
  | working => 5

/-- A phase that did not wait for the actor may still be entered. -/
def Advance.level : Advance → Nat
  | passing _ _ _ => 6
  | _ => 3

/-- The steps that are left when no further iteration is granted, in which wanting a permit counts
as one. -/
def Pace.rank : Pace → Nat
  | deciding => 0
  | yielding => 1
  | drawing _ => 2
  | warmingUp _ => 3
  | weighing _ => 4
  | checking _ => 5
  | coolingDown _ => 6
  | asked => 7

namespace Stage

/-- How far the task of an actor at a point is from its end, in a run that has been halted. -/
def distance (x : Point) : Stage → Nat ×ₗ Nat
  | waiting => toLex (x.leg.level, 2 * x.deeds + 13)
  | acting => toLex (x.leg.level, 2 * x.deeds + 12)
  | asleep _ => toLex (x.leg.level, 2 * x.deeds + 11)
  | advancing a => toLex (a.level, a.left)
  | pacing p => toLex (4, p.rank)
  | judging _ => toLex (0, 2)
  | parting _ _ => toLex (0, 1)
  | _ => toLex (0, 0)

/-- There is nothing more to do, or only when the clock shows a later time than `now`. -/
def Lingers (now : Nat) : Stage → Prop
  | asleep wake => now < wake
  | pacing p => ∃ wake, p.wake? = some wake ∧ now < wake
  | «over» _ => True
  | _ => False

/-- A step leads nearer to the end, or it leads nowhere as long as the task has to wait. -/
def Nears (now : Nat) (g : Stage) (x : Point) (g' : Stage) (y : Point) : Prop :=
  g'.distance y < g.distance x ∨
    y = x ∧ (g' = g ∧ g.Lingers now ∨ g.isDrawing = true ∧ g'.isDrawing = true)

/-- What has come of a stage after some time: it is nearer to the end, or it is still the same one,
except that somebody who wants a permit may have looked for one. -/
def Follows (g : Stage) (x : Point) (g' : Stage) (y : Point) : Prop :=
  g'.distance y < g.distance x ∨ y = x ∧ (g' = g ∨ g.isDrawing = true ∧ g'.isDrawing = true)

variable {now : Nat} {g g' g'' : Stage} {x y z : Point}

theorem Nears.follows (h : g.Nears now x g' y) : g.Follows x g' y :=
  h.imp_right fun ⟨hx, hg⟩ => ⟨hx, hg.imp_left And.left⟩

theorem Follows.refl (g : Stage) (x : Point) : g.Follows x g x := .inr ⟨rfl, .inl rfl⟩

theorem distance_of_isDrawing (h : g.isDrawing = true) (x : Point) :
    g.distance x = toLex (4, 2) := by
  unfold isDrawing at h
  split at h
  · next p => cases p <;> first | rfl | cases h
  · cases h

theorem Follows.le (h : g.Follows x g' y) : g'.distance y ≤ g.distance x := by
  rcases h with hlt | ⟨rfl, rfl | ⟨hg, hg'⟩⟩
  · exact hlt.le
  · exact le_rfl
  · rw [distance_of_isDrawing hg, distance_of_isDrawing hg']

theorem Follows.trans (h : g.Follows x g' y) (h' : g'.Follows y g'' z) : g.Follows x g'' z := by
  rcases h' with hlt | ⟨rfl, hg''⟩
  · exact .inl (hlt.trans_le h.le)
  rcases h with hlt | ⟨rfl, hg'⟩
  · exact .inl ((Follows.le (.inr ⟨rfl, hg''⟩)).trans_lt hlt)
  refine .inr ⟨rfl, ?_⟩
  rcases hg' with rfl | ⟨hg, hg'⟩
  · exact hg''
  rcases hg'' with rfl | ⟨-, hg''⟩
  · exact .inr ⟨hg, hg'⟩
  · exact .inr ⟨hg, hg''⟩

/-- Nothing comes of a stage at the end. -/
theorem Follows.of_ended {r : Result} (h : (Stage.over r).Follows x g' y) : g' = .over r := by
  rcases h with hlt | ⟨-, hg | ⟨hg, -⟩⟩
  · rcases Prod.Lex.lt_iff.1 hlt with hlt | ⟨-, hlt⟩ <;> exact absurd hlt (Nat.not_lt_zero _)
  · exact hg
  · cases hg

end Stage

theorem Stage.lt_of_level {a b m n : Nat} (h : a < b) : toLex (a, m) < toLex (b, n) :=
  Prod.Lex.toLex_lt_toLex.2 (.inl h)

theorem Stage.lt_of_steps {a m n : Nat} (h : m < n) : toLex (a, m) < toLex (a, n) :=
  Prod.Lex.toLex_lt_toLex.2 (.inr ⟨rfl, h⟩)

/-- Whoever can still fail has more of the loop ahead than whoever is going to. -/
theorem Leg.level_failing_lt {leg : Leg} (h : leg ≠ .failing) (hq : ∀ e, leg ≠ .quitting e) :
    failing.level < leg.level := by
  cases leg with
  | failing => exact absurd rfl h
  | quitting e => exact absurd rfl (hq e)
  | _ => decide

/-- Fewer steps lead to a phase that is further behind only. -/
theorem Advance.lt_of_left {a b : Advance} (h : b.left < a.left) :
    toLex (b.level, b.left) < toLex (a.level, a.left) := by
  have hlevel : b.level ≤ a.level := by
    cases a <;> cases b <;> simp_all [left, level]
  rcases hlevel.lt_or_eq with hlt | heq
  · exact Stage.lt_of_level hlt
  · rw [heq]
    exact Stage.lt_of_steps h

theorem Leg.level_le (leg : Leg) : leg.level ≤ 5 := by
  cases leg <;> simp [level]

/-- Only from a phase that has been passed is it further to the end than from any other place. -/
theorem Stage.distance_lt_of_not_advancing {g : Stage} (h : g.isAdvancing = false) (x : Point) :
    g.distance x < toLex (6, 0) := by
  have hleg (n : Nat) : toLex (x.leg.level, n) < toLex (6, 0) :=
    lt_of_level (x.leg.level_le.trans_lt (by decide))
  cases g with
  | advancing a => cases h
  | waiting => exact hleg _
  | acting => exact hleg _
  | asleep wake => exact hleg _
  | pacing p => exact lt_of_level (by decide : 4 < 6)
  | _ => exact lt_of_level (by decide : 0 < 6)

theorem Advance.level_lt_of_distance {a : Advance} {x : Point}
    (h : (Stage.advancing a).distance x < toLex (6, 0)) : a.level < 6 := by
  rcases Prod.Lex.toLex_lt_toLex.1 h with hlt | ⟨-, hlt⟩
  · exact hlt
  · exact absurd hlt (Nat.not_lt_zero _)

theorem Advance.le_level (a : Advance) : 3 ≤ a.level := by
  cases a <;> simp [level]

/-- Only after a phase that did not wait for the actor are so many steps left. -/
theorem Advance.level_of_left {a : Advance} (h : 19 < a.left) : a.level = 6 := by
  cases a <;> simp_all [left, level]

namespace Pace

theorem rank_afterPauses (plan : PhasePlan) (waited : Bool) :
    (afterPauses plan waited).rank < 3 := by
  unfold afterPauses
  by_cases hrate : plan.rate.isSome = true
  · rw [if_pos hrate]; decide
  · rw [if_neg hrate]; cases waited <;> decide

/-- What a step on the way to the next iteration comes to in a run that has been halted. -/
def Progress.Subsides (now : Nat) (p : Pace) : Progress → Prop
  | blocked => p.isDrawing = true ∨ ∃ wake, p.wake? = some wake ∧ now < wake
  | moved q => q.rank < p.rank ∨ p.isDrawing = true ∧ q.isDrawing = true
  | yielded q => q.rank < p.rank
  | answered granted => granted = false
  | broken _ => True

/-- In a run that has been halted a step leads to no further iteration, whatever rate the phase
has. -/
theorem subsides_step (now : Nat) {b : Barrier} (hh : b.signal.halt ≠ .running)
    (bucket : Option Bucket) (s : Stint) (p : Pace) :
    (p.step now b bucket s).2.2.Subsides now p := by
  have hhalted : s.isHalted b.signal = true := by simp [Stint.isHalted, hh]
  cases p with
  | asked =>
    simp only [step]
    repeat' split
    exacts [.inl (by decide : 6 < 7), .inl (by decide : 5 < 7), .inl (by decide : 5 < 7)]
  | coolingDown wake =>
    simp only [step]
    split
    · exact .inl (by decide : 5 < 6)
    · exact .inr ⟨wake, rfl, Nat.not_le.1 ‹_›⟩
  | checking waited =>
    simp only [step, if_pos hhalted]
    rfl
  | weighing waited =>
    simp only [step]
    repeat' split
    · rfl
    · exact .inl (by decide : 3 < 4)
    · exact .inl ((rank_afterPauses _ _).trans (by decide : 3 < 4))
  | warmingUp wake =>
    simp only [step]
    split
    · exact .inl (rank_afterPauses _ _)
    · exact .inr ⟨wake, rfl, Nat.not_le.1 ‹_›⟩
  | drawing d =>
    simp only [step]
    split
    · exact .inl (by decide : 0 < 2)
    · split
      · exact .inl rfl
      · exact .inr ⟨rfl, rfl⟩
      · exact .inl (by decide : 0 < 2)
      · trivial
  | yielding => exact (by decide : 0 < 1)
  | deciding =>
    simp only [step, if_pos hhalted]
    rfl

end Pace

/-! ### One step -/

namespace Task

variable {σ : Type} [Behaviour σ] {C : Course σ} {w : World} {t u : Task σ} {x y : Point}

omit [Behaviour σ] in
theorem IsFit.congr {leg : Leg} (h : t.IsFit leg) (hl : u.loop = t.loop) (hst : u.stint = t.stint) :
    u.IsFit leg :=
  ⟨hl ▸ h.loop, fun hleg => hst ▸ h.stint hleg, fun hleg => hl ▸ h.finished hleg, h.unwarned⟩

omit [Behaviour σ] in
/-- To fail, or to go for the next phase, nothing is needed but a part in the barrier. -/
theorem isFit_of_loop (hl : t.loop.isSome = true) {leg : Leg}
    (h : leg = .failing ∨ leg = .arriving) : t.IsFit leg := by
  rcases h with rfl | rfl <;> exact ⟨hl, nofun, nofun, nofun⟩

omit [Behaviour σ] in
theorem isFit_of_stint (hl : t.loop.isSome = true) (hs : t.stint.isSome = true) :
    t.IsFit .working := ⟨hl, fun _ => hs, nofun, nofun⟩

omit [Behaviour σ] in
theorem isFit_of_finished (hl : t.loop.isSome = true)
    (hf : ∀ p, t.loop = some p → p.finished = true) : t.IsFit .closing :=
  ⟨hl, nofun, fun _ => hf, nofun⟩

/-- A step comes to this: the actor has failed or panicked by itself, or the task is at another
point of the course, nearer to the end if the run has been halted. -/
def Goes (C : Course σ) (w : World) (t : Task σ) (x : Point) (u : Task σ) : Prop :=
  u.IsFaulty ∨ ∃ y, u.IsAt C y ∧
    (w.barrier.signal.halt ≠ .running → t.stage.Nears w.now x u.stage y)

/-- The actor takes an answer and goes on, if the task has what it needs wherever that leads. -/
theorem goes_tell {now : Nat} {r : Reply} (hm : C.At t.mind x) (hu : u.mind = t.mind)
    (hr : (Behaviour.ask t.mind).Gets r)
    (hgoes : ∀ y, x.Hears r y → u.IsFit y.leg ∧ (w.barrier.signal.halt ≠ .running →
      toLex (y.leg.level, 2 * y.deeds + 12) < t.stage.distance x)) :
    t.Goes C w x (u.tell now r) := by
  obtain ⟨y, hy, hm'⟩ := C.hears hm now hr
  obtain ⟨hfit, hlt⟩ := hgoes y hy
  rw [← hu] at hm'
  exact .inr ⟨y, .acts rfl hm' (hfit.congr rfl rfl), fun hh => .inl (hlt hh)⟩

/-- The work ends with a fault, or it is complete. -/
theorem goes_conclude {w' : World} (hl : u.lifecycle = .running) {e : Ending}
    (he : e.isFault = true ∨ e = .completed ∧
      (∀ p, u.loop = some p → p.finished = true) ∧ toLex (0, 2) < t.stage.distance x) :
    t.Goes C w x (conclude w' u e).task := by
  simp only [conclude, hl, Lifecycle.terminate]
  rcases he with hfault | ⟨rfl, hfinished, hlt⟩
  · exact .inl ⟨e, rfl, hfault⟩
  · exact .inr ⟨⟨.closing, 0⟩, .retires rfl hfinished, fun _ => .inl hlt⟩

/-- A deed is done, or it takes some time, or it cannot be done. -/
theorem obey_deed {q : Ask} (hq : q.isDeed = true) (w : World) (t : Task σ) :
    (∃ d, q = .pause d ∧ (t.obey w q).task = { t with stage := .asleep (wakeTime w.now d) }) ∨
    (∃ r m, q.Gets r ∧ (t.obey w q).task = tell w.now { t with measurement := m } r) ∨
    ∃ message, (t.obey w q).task = (conclude w t (.panicked message)).task := by
  cases q with
  | pause d => exact .inl ⟨d, rfl, rfl⟩
  | begin o => exact .inr (.inl ⟨.done, _, .done rfl, rfl⟩)
  | count documents bytes iterations =>
    cases hm : t.measurement with
    | none =>
      simp only [obey, hm]
      exact .inr (.inl ⟨.done, t.measurement, .done rfl, rfl⟩)
    | some m =>
      simp only [obey, hm]
      cases m.add? documents bytes iterations with
      | none => exact .inr (.inr ⟨_, rfl⟩)
      | some m => exact .inr (.inl ⟨.done, some m, .done rfl, rfl⟩)
  | report o =>
    cases hm : t.measurement with
    | none =>
      simp only [obey, hm]
      exact .inr (.inl ⟨.done, t.measurement, .done rfl, rfl⟩)
    | some m =>
      simp only [obey, hm]
      exact .inr (.inl ⟨_, none, .recorded o _, rfl⟩)
  | discard => exact .inr (.inl ⟨.done, none, .done rfl, rfl⟩)
  | bump ref n => exact .inr (.inl ⟨.done, t.measurement, .done rfl, rfl⟩)
  | _ => cases hq

/-- A deed is done, and the actor goes on. -/
theorem goes_done {leg : Leg} {n : Nat} (hm : C.At t.mind ⟨leg, n + 1⟩) (hfit : t.IsFit leg)
    (hu : u.mind = t.mind) (hl : u.loop = t.loop) (hst : u.stint = t.stint) {r : Reply}
    (hr : (Behaviour.ask t.mind).Gets r)
    (hd : toLex (leg.level, 2 * n + 13) ≤ t.stage.distance ⟨leg, n + 1⟩) :
    t.Goes C w ⟨leg, n + 1⟩ (u.tell w.now r) := by
  refine goes_tell hm hu hr fun y hy => ?_
  cases hy with
  | @does _ _ m _ hle =>
    refine ⟨hfit.congr hl hst, fun _ => (Stage.lt_of_steps ?_).trans_le hd⟩
    change 2 * m + 12 < 2 * n + 13
    omega
  | fails hleg _ m =>
    refine ⟨isFit_of_loop (hl ▸ hfit.loop) (.inl rfl), fun _ => ?_⟩
    exact (Stage.lt_of_level (Leg.level_failing_lt hleg hfit.unwarned)).trans_le hd

/-- A step of an actor at work. -/
theorem goes_acting (hs : t.stage = .acting) (hl : t.lifecycle = .running) (hm : C.At t.mind x)
    (hfit : t.IsFit x.leg) : t.Goes C w x (t.step w).task := by
  have hd : t.stage.distance x = toLex (x.leg.level, 2 * x.deeds + 12) := by rw [hs]; rfl
  rw [step_acting hs]
  have hasks := C.asks hm
  obtain ⟨leg, n⟩ := x
  cases n with
  | succ n =>
    rcases obey_deed hasks w t with ⟨d, hq, htask⟩ | ⟨r, m, hr, htask⟩ | ⟨message, htask⟩
    · rw [htask]
      refine .inr ⟨_, .sleeps rfl hm hq (hfit.congr rfl rfl), fun _ => .inl ?_⟩
      rw [hd]
      exact Stage.lt_of_steps (Nat.lt_succ_self _)
    · rw [htask]
      refine goes_done (u := { t with measurement := m }) hm hfit rfl rfl rfl hr ?_
      rw [hd]
      exact (Stage.lt_of_steps (Nat.lt_succ_self (2 * n + 13))).le
    · rw [htask]
      exact goes_conclude hl (.inl rfl)
  | zero =>
    cases leg with
    | arriving =>
      obtain ⟨p, hp⟩ := Option.isSome_iff_exists.1 hfit.loop
      have hfirst : (Advance.first p).2.level = 3 ∧ (Advance.first p).2.left < 12 := by
        unfold Advance.first
        cases p.owed with
        | none => exact ⟨rfl, (by decide : 9 < 12)⟩
        | some k => exact ⟨rfl, (by decide : 10 < 12)⟩
      rw [show Behaviour.ask t.mind = .nextPhase from hasks]
      simp only [obey, hp]
      refine .inr ⟨_, .advances rfl hm (isFit_of_loop rfl (.inr rfl)), fun _ => .inl ?_⟩
      rw [hd]
      change toLex ((Advance.first p).2.level, (Advance.first p).2.left) < _
      rw [hfirst.1]
      exact Stage.lt_of_steps hfirst.2
    | working =>
      obtain ⟨s, hst⟩ := Option.isSome_iff_exists.1 (hfit.stint rfl)
      rw [show Behaviour.ask t.mind = .iterate from hasks]
      simp only [obey, hst]
      refine .inr ⟨_, .paces rfl hm (hfit.congr rfl hst.symm), fun _ => .inl ?_⟩
      rw [hd]
      exact Stage.lt_of_level (by decide : 4 < 5)
    | closing =>
      rw [show Behaviour.ask t.mind = .finish .completed from hasks]
      refine goes_conclude hl (.inr ⟨rfl, hfit.finished rfl, ?_⟩)
      rw [hd]
      exact Stage.lt_of_level (by decide : 0 < 2)
    | quitting e => exact absurd rfl (hfit.unwarned e)
    | failing =>
      obtain ⟨e, he, hfault⟩ := hasks
      rw [he]
      exact goes_conclude hl (.inl hfault)

/-- A step of an actor that sleeps. -/
theorem goes_asleep {wake : Nat} {d : Duration} (hs : t.stage = .asleep wake)
    (hm : C.At t.mind x) (hq : Behaviour.ask t.mind = .pause d) (hfit : t.IsFit x.leg) :
    t.Goes C w x (t.step w).task := by
  have hasks := C.asks hm
  obtain ⟨leg, n⟩ := x
  simp only [step, hs]
  by_cases hwake : wake ≤ w.now
  · rw [if_pos hwake]
    cases n with
    | succ n =>
      refine goes_done hm hfit rfl rfl rfl (hq ▸ .done rfl) ?_
      rw [hs]
      exact le_rfl
    | zero =>
      -- only a deed takes time
      rw [hq] at hasks
      cases leg <;> first | (cases hasks; done) | (obtain ⟨e, he, -⟩ := hasks; cases he)
  · rw [if_neg hwake]
    refine .inr ⟨_, .sleeps hs hm hq hfit, fun _ => .inr ⟨rfl, .inl ⟨rfl, ?_⟩⟩⟩
    rw [hs]
    exact Nat.not_le.1 hwake

/-- A step of an actor between two phases, in a run that nobody has aborted. -/
theorem goes_advancing {a : Advance} (hs : t.stage = .advancing a) (hl : t.lifecycle = .running)
    (hm : C.At t.mind ⟨.arriving, 0⟩) (hfit : t.IsFit .arriving)
    (hb : w.barrier.isAborted = false) : t.Goes C w ⟨.arriving, 0⟩ (t.step w).task := by
  obtain ⟨p, hp⟩ := Option.isSome_iff_exists.1 hfit.loop
  have hd : t.stage.distance ⟨.arriving, 0⟩ = toLex (a.level, a.left) := by rw [hs]; rfl
  have hasks : Behaviour.ask t.mind = .nextPhase := C.asks hm
  have hdrains (hh : w.barrier.signal.halt ≠ .running) := Advance.drains_step hh p a
  have hfinished := (Advance.finished_step w.barrier p a).2
  have haborted (e : SyncError) : (a.step w.barrier p).2.2 ≠ .failed e := fun he => by
    cases (Advance.isAborted_of_failed he).symm.trans hb
  have hlow {leg : Leg} {m n : Nat} (hleg : leg.level < 3) :
      toLex (leg.level, m) < toLex (a.level, n) := Stage.lt_of_level (hleg.trans_le a.le_level)
  simp only [step, advance, hs, hp]
  generalize a.step w.barrier p = r at hdrains hfinished haborted ⊢
  obtain ⟨b, p', r⟩ := r
  cases r with
  | blocked =>
    exact .inr ⟨_, .advances rfl hm (isFit_of_loop rfl (.inr rfl)), fun hh => (hdrains hh).elim⟩
  | moved a' =>
    refine .inr ⟨_, .advances rfl hm (isFit_of_loop rfl (.inr rfl)), fun hh => .inl ?_⟩
    rw [hd]
    exact Advance.lt_of_left (hdrains hh)
  | entered plan last =>
    refine goes_tell hm rfl (hasks ▸ .phase _) fun y hy => ?_
    cases hy with
    | enters _ n =>
      refine ⟨isFit_of_stint rfl rfl, fun hh => ?_⟩
      rw [hd, Advance.level_of_left (hdrains hh)]
      exact Stage.lt_of_level (by decide : 5 < 6)
    | fails _ _ n =>
      refine ⟨isFit_of_loop rfl (.inl rfl), fun _ => ?_⟩
      rw [hd]
      exact hlow (by decide : 1 < 3)
  | «over» =>
    refine goes_tell hm rfl (hasks ▸ .phase _) fun y hy => ?_
    cases hy with
    | closes n =>
      refine ⟨isFit_of_finished rfl fun q hq => ?_, fun _ => ?_⟩
      · cases hq
        exact hfinished rfl
      · rw [hd]
        exact hlow (by decide : 2 < 3)
    | fails _ _ n =>
      refine ⟨isFit_of_loop rfl (.inl rfl), fun _ => ?_⟩
      rw [hd]
      exact hlow (by decide : 1 < 3)
  | failed e => exact absurd rfl (haborted e)
  | broken message => exact goes_conclude (e := .panicked message) (by exact hl) (.inl rfl)

/-- A step of an actor on the way to its next iteration. -/
theorem goes_pacing {p : Pace} (hs : t.stage = .pacing p) (hl : t.lifecycle = .running)
    (hm : C.At t.mind ⟨.working, 0⟩) (hfit : t.IsFit .working) :
    t.Goes C w ⟨.working, 0⟩ (t.step w).task := by
  obtain ⟨s, hst⟩ := Option.isSome_iff_exists.1 (hfit.stint rfl)
  have hd : t.stage.distance ⟨.working, 0⟩ = toLex (4, p.rank) := by rw [hs]; rfl
  have hasks : Behaviour.ask t.mind = .iterate := C.asks hm
  have hsubsides (hh : w.barrier.signal.halt ≠ .running) := Pace.subsides_step w.now hh
    (w.bucket? (t.loop.elim 0 Participant.block) s.plan.number) s p
  have hpaces {s' : Stint} {g : Stage} {q : Pace} (hg : g = .pacing q) :
      ({ t with stint := some s', stage := g } : Task σ).IsAt C ⟨.working, 0⟩ :=
    .paces hg hm (isFit_of_stint hfit.loop rfl)
  simp only [step, pace, hs, hst]
  generalize p.step w.now w.barrier _ s = r at hsubsides ⊢
  obtain ⟨bucket, s', r⟩ := r
  cases r with
  | blocked =>
    refine .inr ⟨_, hpaces rfl, fun hh => .inr ⟨rfl, ?_⟩⟩
    rw [hs]
    exact (hsubsides hh).elim (fun hdraw => .inr ⟨hdraw, hdraw⟩) fun hwake => .inl ⟨rfl, hwake⟩
  | moved q =>
    refine .inr ⟨_, hpaces rfl, fun hh => ?_⟩
    rw [Stage.Nears, hd, hs]
    exact (hsubsides hh).imp Stage.lt_of_steps fun hdraw => ⟨rfl, .inr hdraw⟩
  | yielded q =>
    refine .inr ⟨_, hpaces rfl, fun hh => .inl ?_⟩
    rw [hd]
    exact Stage.lt_of_steps (hsubsides hh)
  | answered granted =>
    have hgets : (Behaviour.ask t.mind).Gets (.iteration granted s'.iterations) := by
      rw [hasks]
      exact .iteration _ _
    refine goes_tell (u := { t with stint := some s' }) hm rfl hgets fun y hy => ?_
    cases hy with
    | iterates _ n =>
      refine ⟨isFit_of_stint hfit.loop rfl, fun hh => ?_⟩
      cases hsubsides hh
    | leaves _ n =>
      refine ⟨isFit_of_loop (by exact hfit.loop) (.inr rfl), fun _ => ?_⟩
      rw [hd]
      exact Stage.lt_of_level (by decide : 3 < 4)
    | fails _ _ n =>
      refine ⟨isFit_of_loop (by exact hfit.loop) (.inl rfl), fun _ => ?_⟩
      rw [hd]
      exact Stage.lt_of_level (by decide : 1 < 4)
  | broken message => exact goes_conclude (e := .panicked message) (by exact hl) (.inl rfl)

/-- A step of an actor whose work is complete. -/
theorem goes_retiring (hs : t.stage.isRetiring = true)
    (hfinished : ∀ p, t.loop = some p → p.finished = true) :
    t.Goes C w ⟨.closing, 0⟩ (t.step w).task := by
  have hparts {g : Stage} {l : Option Participant} (hg : g.isRetiring = true)
      (hl : ∀ p, l = some p → p.finished = true) :
      ({ t with loop := l, stage := g } : Task σ).IsAt C ⟨.closing, 0⟩ := .retires hg hl
  unfold Stage.isRetiring at hs
  split at hs
  · next hst =>
    simp only [step, hst, accusation]
    refine .inr ⟨_, hparts rfl hfinished, fun _ => .inl ?_⟩
    rw [hst]
    exact Stage.lt_of_steps (by decide : 1 < 2)
  · next hst =>
    have hlt : Stage.distance ⟨.closing, 0⟩ (.over (.ended .completed)) <
        t.stage.distance ⟨.closing, 0⟩ := by
      rw [hst]
      exact Stage.lt_of_steps (by decide : 0 < 1)
    simp only [step, hst]
    cases hp : t.loop with
    | none => exact .inr ⟨_, .retires rfl (by rintro _ ⟨⟩), fun _ => .inl hlt⟩
    | some p =>
      -- nobody misses an actor that has finished
      simp only [Farewell.step, hfinished p hp, Bool.not_true, Bool.false_and,
        if_neg Bool.false_ne_true]
      exact .inr ⟨_, .retires rfl (by rintro _ ⟨⟩), fun _ => .inl hlt⟩
  · next hst =>
    simp only [step, hst]
    refine .inr ⟨_, .retires (by rw [hst]; rfl) hfinished, fun _ => .inr ⟨rfl, .inl ⟨rfl, ?_⟩⟩⟩
    rw [hst]
    trivial
  · cases hs

/-- **A step of an actor stays on its course**, in a run that nobody has aborted, and if the run has
been halted it leads nearer to the end or has to wait. -/
theorem IsAt.goes_step (h : t.IsAt C x) (hreg : t.IsRegular) (hb : w.barrier.isAborted = false) :
    t.Goes C w x (t.step w).task := by
  have hlife := hreg.lifecycle
  cases h with
  | waits hs hm hfit =>
    rw [hs] at hlife
    simp only [step, hs, show t.lifecycle = .constructed from hlife, Lifecycle.start]
    refine .inr ⟨_, .acts rfl hm (hfit.congr rfl rfl), fun _ => .inl ?_⟩
    rw [hs]
    exact Stage.lt_of_steps (Nat.lt_succ_self _)
  | acts hs hm hfit => rw [hs] at hlife; exact goes_acting hs hlife hm hfit
  | sleeps hs hm hq hfit => exact goes_asleep hs hm hq hfit
  | advances hs hm hfit => rw [hs] at hlife; exact goes_advancing hs hlife hm hfit hb
  | paces hs hm hfit => rw [hs] at hlife; exact goes_pacing hs hlife hm hfit
  | retires hs hfinished => exact goes_retiring hs hfinished

/-- Whoever goes for the next phase has a part in the barrier. -/
theorem IsAt.loop_of_advancing (h : t.IsAt C x) {a : Advance}
    (ha : t.stage = .advancing a) : t.loop.isSome = true := by
  cases h with
  | retires hs hfinished => rw [ha] at hs; cases hs
  | waits hs hm hfit => exact hfit.loop
  | acts hs hm hfit => exact hfit.loop
  | sleeps hs hm hq hfit => exact hfit.loop
  | advances hs hm hfit => exact hfit.loop
  | paces hs hm hfit => exact hfit.loop

/-- What a task on its course does at the barrier accuses nobody, and is no desertion. -/
theorem IsAt.mark?_quiet (h : t.IsAt C x) (b : Barrier) :
    (t.mark? b).bind Mark.accusation? = none ∧ t.mark? b ≠ some .desertion := by
  have hnone (hm : t.mark? b = none) :
      (t.mark? b).bind Mark.accusation? = none ∧ t.mark? b ≠ some .desertion := by
    rw [hm]
    exact ⟨rfl, nofun⟩
  cases h with
  | waits hs hm hfit => exact hnone (by simp only [mark?, hs])
  | acts hs hm hfit => exact hnone (mark?_of_isAtWork b (by rw [hs]; rfl))
  | sleeps hs hm hq hfit => exact hnone (mark?_of_isAtWork b (by rw [hs]; rfl))
  | paces hs hm hfit => exact hnone (mark?_of_isAtWork b (by rw [hs]; rfl))
  | @advances a hs hm hfit =>
    obtain ⟨p, hp⟩ := Option.isSome_iff_exists.1 hfit.loop
    simp only [mark?, hs, hp]
    exact a.mark?_quiet b
  | retires hs hfinished =>
    unfold Stage.isRetiring at hs
    split at hs
    · next hst => exact hnone (by simp only [mark?, hst])
    · next hst =>
      cases hp : t.loop with
      | none => exact hnone (by simp only [mark?, hst, hp])
      | some p =>
        refine hnone ?_
        simp only [mark?, hst, hp, Farewell.mark?, hfinished p hp]
        rfl
    · next hst => exact hnone (by simp only [mark?, hst])
    · cases hs

theorem IsFaulty.step (h : t.IsFaulty) (w : World) : (t.step w).task.IsFaulty := by
  obtain ⟨e, he, hfault⟩ := h
  exact ⟨e, (step_of_outcome he).1, hfault⟩

/-- Nobody changes names. -/
theorem Turn.name_id {b' : Barrier} (h : t.Turn w b' u) : u.name = t.name ∧ u.id = t.id := by
  have hconclude (w : World) (v : Task σ) (e : Ending) :
      (conclude w v e).task.name = v.name ∧ (conclude w v e).task.id = v.id := by
    unfold conclude
    split <;> exact ⟨rfl, rfl⟩
  cases h with
  | works hs hw =>
    cases hw with
    | goesOn hk _ => exact ⟨hk.name, hk.id⟩
    | departs _ _ => exact ⟨rfl, rfl⟩
    | quits hq =>
      cases hq with
      | leaves hk _ => exact ⟨hk.name, hk.id⟩
      | ends w e hk _ => exact ⟨(hconclude w _ e).1.trans hk.name, (hconclude w _ e).2.trans hk.id⟩
  | advances hs hp ha =>
    generalize Advance.step _ _ _ = r at ha
    obtain ⟨b, p', r⟩ := r
    cases ha with
    | broken w message => exact hconclude w _ _
    | _ => exact ⟨rfl, rfl⟩
  | _ => exact ⟨rfl, rfl⟩

end Task

/-! ### What is answered in a run that has been halted -/

/-- What the question for the next phase is answered, if a step comes to an answer. -/
def Advance.Progress.answer? : Advance.Progress → Option (Except SyncError (Option PhasePlan))
  | entered plan _ => some (.ok (some plan))
  | «over» => some (.ok none)
  | failed e => some (.error e)
  | _ => none

/-- No phase is entered any more, unless one has been passed that did not wait for the actor. -/
theorem Advance.answer?_of_halted {b : Barrier} (hh : b.signal.halt ≠ .running)
    (hb : b.isAborted = false) (p : Participant) (a : Advance)
    {r : Except SyncError (Option PhasePlan)} (hr : (a.step b p).2.2.answer? = some r) :
    ∃ found, r = .ok found ∧ (a.level < 6 → found = none) := by
  have hdrains := drains_step hh p a
  have haborted (e : SyncError) : (a.step b p).2.2 ≠ .failed e := fun he => by
    cases (isAborted_of_failed he).symm.trans hb
  generalize (a.step b p).2.2 = y at hr hdrains haborted
  cases y with
  | entered plan last =>
    cases hr
    exact ⟨some plan, rfl, fun hlt => absurd (level_of_left hdrains) hlt.ne⟩
  | «over» => cases hr; exact ⟨none, rfl, fun _ => rfl⟩
  | failed e => exact absurd rfl (haborted e)
  | _ => cases hr

namespace Task

variable {σ : Type}

/-- What the question of an actor for its next phase is answered with the next step of its task, if
it is answered then. -/
def answer? (b : Barrier) (t : Task σ) : Option (Except SyncError (Option PhasePlan)) :=
  match t.stage, t.loop with
  | .advancing a, some p => (a.step b p).2.2.answer?
  | _, _ => none

theorem answer?_eq_some {b : Barrier} {t : Task σ} {r : Except SyncError (Option PhasePlan)}
    (h : t.answer? b = some r) :
    ∃ a p, t.stage = .advancing a ∧ (a.step b p).2.2.answer? = some r := by
  unfold answer? at h
  split at h
  · next a p hs _ => exact ⟨a, p, hs, h⟩
  · cases h

/-- With the next step of a task the actor is granted another iteration. -/
def grants (w : World) (t : Task σ) : Bool :=
  match t.stage, t.stint with
  | .pacing p, some s =>
    let bucket := w.bucket? (t.loop.elim 0 Participant.block) s.plan.number
    match (p.step w.now w.barrier bucket s).2.2 with
    | .answered granted => granted
    | _ => false
  | _, _ => false

/-- **Nobody is granted an iteration any more.** -/
theorem grants_of_halted {w : World} (hh : w.barrier.signal.halt ≠ .running) (t : Task σ) :
    t.grants w = false := by
  unfold grants
  split
  · next p s _ _ =>
    have hsubsides := Pace.subsides_step w.now hh
      (w.bucket? (t.loop.elim 0 Participant.block) s.plan.number) s p
    simp only
    generalize (p.step w.now w.barrier _ s).2.2 = r at hsubsides ⊢
    cases r with
    | answered granted => exact hsubsides
    | _ => rfl
  · rfl

/-- Nobody waits for an answer any more who asks for the next phase: the next step comes to one, or
fewer steps are left. -/
theorem answered_of_halted [Behaviour σ] {w : World} (hh : w.barrier.signal.halt ≠ .running)
    {t : Task σ} (hl : t.loop.isSome = true) {a : Advance} (ha : t.stage = .advancing a) :
    (t.answer? w.barrier).isSome = true ∨
      ∃ a', (t.step w).task.stage = .advancing a' ∧ a'.left < a.left := by
  obtain ⟨p, hp⟩ := Option.isSome_iff_exists.1 hl
  have hdrains := Advance.drains_step hh p a
  simp only [answer?, step, advance, ha, hp]
  generalize a.step w.barrier p = r at hdrains ⊢
  obtain ⟨b, p', r⟩ := r
  cases r with
  | blocked => cases hdrains
  | moved a' => exact .inr ⟨a', rfl, hdrains⟩
  | broken message => cases hdrains
  | _ => exact .inl rfl

end Task

end Lockstep
