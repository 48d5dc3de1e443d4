import Lockstep.Actors.Flaky
import Lockstep.System
import Mathlib.Data.Finset.Card

/-!
# Systems that are ready to run

A run begins with a barrier at which nothing has happened yet, and with tasks that have not begun.
The barrier requires one token for each part in it.

* `System.seats` : the positions of the tasks that take part in the barrier;
* `System.IsReady` : the systems with which a run may begin;
* `Schedule.isNumbered_ofBlock` : in the schedule of a block every plan stands under its own number.
-/

namespace Lockstep

/-! ### Results -/

section

variable {α β ε ε' : Type}

theorem exists_of_bind_eq_ok {x : Except ε α} {f : α → Except ε β} {b : β}
    (h : x >>= f = .ok b) : ∃ a, x = .ok a ∧ f a = .ok b := by
  cases x with
  | error e => cases h
  | ok a => exact ⟨a, rfl, h⟩

theorem eq_ok_of_mapError_eq_ok {x : Except ε α} {f : ε → ε'} {a : α}
    (h : x.mapError f = .ok a) : x = .ok a := by
  cases x with
  | error e => cases h
  | ok b => cases h; rfl

/-- What the steps of a fold keep holds of its result. -/
theorem foldlM_invariant {P : β → Prop} {f : β → α → Except ε β}
    (hf : ∀ b a b', P b → f b a = .ok b' → P b') {as : List α} {b b' : β} (hb : P b)
    (h : as.foldlM f b = .ok b') : P b' := by
  induction as generalizing b with
  | nil => cases h; exact hb
  | cons a as ih =>
    rw [List.foldlM_cons] at h
    obtain ⟨b₁, ha, hrest⟩ := exists_of_bind_eq_ok h
    exact ih (hf b a b₁ hb ha) hrest

end

/-! ### Schedules -/

/-- A plan comes of an entry with nothing to do, or of one whose values go together. -/
theorem PhasePlan.ofEntry_eq_ok {actor : String} {k : Nat} {e : PhaseItem} {params : Toml.Table}
    {plan : PhasePlan} (h : ofEntry actor k e params = .ok plan) :
    (e.nop = true ∧ plan = idle k (.sorted (.overlay params e.params))) ∨
      (e.nop = false ∧ ∃ blocking policy,
        blockingOf e = .ok blocking ∧ policyOf e blocking = .ok policy ∧
        plan = { number := k, policy, blocking, nop := false, sleepBefore := e.sleepBefore
                 sleepAfter := e.sleepAfter, rate := e.globalRate
                 params := .sorted (.overlay params e.params) }) := by
  unfold ofEntry at h
  split at h
  · next hnop => cases h; exact .inl ⟨hnop, rfl⟩
  · next hnop =>
    obtain ⟨blocking, hblocking, hrest⟩ := exists_of_bind_eq_ok (eq_ok_of_mapError_eq_ok h)
    obtain ⟨policy, hpolicy, hend⟩ := exists_of_bind_eq_ok hrest
    cases hend
    exact .inr ⟨by simpa using hnop, blocking, policy, hblocking, hpolicy, rfl⟩

theorem PhasePlan.number_ofEntry {actor : String} {k : Nat} {e : PhaseItem} {params : Toml.Table}
    {plan : PhasePlan} (h : ofEntry actor k e params = .ok plan) : plan.number = k := by
  obtain ⟨-, rfl⟩ | ⟨-, _, _, -, -, rfl⟩ := ofEntry_eq_ok h <;> rfl

/-- Every plan stands under its own number. -/
def Schedule.IsNumbered (s : Schedule) : Prop := ∀ k plan, s.find? k = some plan → plan.number = k

namespace Schedule

theorem isNumbered_empty : IsNumbered .empty := fun k plan hk => by simp at hk

theorem IsNumbered.insert {s : Schedule} (hs : s.IsNumbered) (plan : PhasePlan) :
    IsNumbered (SortedMap.insert s plan.number plan) := by
  intro k plan' h
  rw [SortedMap.find?_insert] at h
  split at h
  · next hk => cases h; exact hk.symm
  · exact hs k plan' h

theorem add_eq_ok {actor : String} {params : Toml.Table} {e : PhaseItem} {s s' : Schedule} {k : Nat}
    (h : add actor params e s k = .ok s') :
    ∃ plan, PhasePlan.ofEntry actor k e params = .ok plan ∧ s.find? k = none ∧
      s' = s.insert k plan := by
  unfold add at h
  split at h
  · cases h
  · next hnew =>
    obtain ⟨plan, hplan, hend⟩ := exists_of_bind_eq_ok h
    cases hend
    exact ⟨plan, eq_ok_of_mapError_eq_ok hplan, by simpa [SortedMap.contains] using hnew, rfl⟩

theorem IsNumbered.add {actor : String} {params : Toml.Table} {e : PhaseItem} {s s' : Schedule}
    {k : Nat} (hs : s.IsNumbered) (h : Schedule.add actor params e s k = .ok s') :
    s'.IsNumbered := by
  obtain ⟨plan, hplan, -, rfl⟩ := add_eq_ok h
  have hk := PhasePlan.number_ofEntry hplan
  exact hk ▸ hs.insert plan

theorem isNumbered_ofBlock {actor : String} {block : Block} {s : Schedule}
    (h : Schedule.ofBlock actor block = .ok s) : s.IsNumbered := by
  refine foldlM_invariant (P := IsNumbered) (fun s item s' hs hstep => ?_) ?_ h
  · obtain ⟨numbers, -, hadd⟩ := exists_of_bind_eq_ok hstep
    exact foldlM_invariant (fun _ _ _ hs ha => hs.add ha) hs hadd
  · exact isNumbered_empty

/-- The schedule of some plans. -/
def ofPlans (plans : List PhasePlan) : Schedule :=
  plans.foldl (fun s plan => s.insert plan.number plan) .empty

theorem isNumbered_ofPlans (plans : List PhasePlan) : (ofPlans plans).IsNumbered := by
  have hfold (s : Schedule) (hs : s.IsNumbered) :
      IsNumbered (plans.foldl (fun s plan => s.insert plan.number plan) s) := by
    induction plans generalizing s with
    | nil => exact hs
    | cons plan plans ih => exact ih _ (hs.insert plan)
  exact hfold .empty isNumbered_empty

end Schedule

theorem Participant.number_busyPlan? {p : Participant} (hp : p.schedule.IsNumbered) {k : Nat}
    {plan : PhasePlan} (h : p.busyPlan? k = some plan) : plan.number = k :=
  hp k plan (Option.filter_eq_some_iff.1 h).1

/-! ### The start of a run -/

/-- A part in the barrier before the first phase. -/
structure Participant.IsReady (p : Participant) : Prop where
  next : p.next = 0
  owed : p.owed = none
  unfinished : p.finished = false
  numbered : p.schedule.IsNumbered

section

variable {σ : Type}

/-- A task that has not done anything yet. -/
structure Task.IsReady (t : Task σ) : Prop where
  stage : t.stage = .waiting ∨ t.stage = .acting
  stint : t.stint = none
  loop : ∀ p, t.loop = some p → p.IsReady

namespace System

/-- The positions of the tasks that take part in the barrier. -/
def seats (s : System σ) : Finset Nat :=
  (Finset.range s.tasks.length).filter fun i => (s.tasks[i]?.bind Task.loop).isSome

/-- A system with which a run may begin: one token is required for each part in the barrier. -/
structure IsReady (s : System σ) : Prop where
  signal : s.world.barrier.signal = ⟨0, false, .running⟩
  arrived : s.world.barrier.arrived = 0
  outstanding : s.world.barrier.outstanding = 0
  failure : s.world.barrier.failure = none
  required : s.world.barrier.required = s.seats.card
  tasks : ∀ t ∈ s.tasks, t.IsReady

/-- Marking the barrier as launched leaves a system ready. -/
theorem IsReady.launch {s : System σ} (hs : s.IsReady) : (s.onBarrier Barrier.launch).IsReady :=
  ⟨hs.signal, hs.arrived, hs.outstanding, hs.failure, hs.required, hs.tasks⟩

theorem mem_seats {s : System σ} {i : Nat} :
    i ∈ s.seats ↔ ∃ t, s.tasks[i]? = some t ∧ t.loop.isSome := by
  simp only [seats, Finset.mem_filter, Finset.mem_range]
  constructor
  · rintro ⟨hi, h⟩
    rw [List.getElem?_eq_getElem hi] at h ⊢
    exact ⟨_, rfl, h⟩
  · rintro ⟨t, ht, h⟩
    exact ⟨(List.getElem?_eq_some_iff.1 ht).1, by rw [ht]; exact h⟩

theorem mem_seats_of_getElem? {s : System σ} {i : Nat} {t : Task σ} (ht : s.tasks[i]? = some t) :
    i ∈ s.seats ↔ t.loop.isSome := by
  rw [mem_seats]
  exact ⟨fun ⟨t', ht', h⟩ => by rw [ht] at ht'; cases ht'; exact h, fun h => ⟨t, ht, h⟩⟩

end System

end

/-! ### A small system -/

theorem Participant.isReady_fresh (actor : String) (id block : Nat) (plans : List PhasePlan) :
    (Participant.fresh actor id block (.ofPlans plans)).IsReady :=
  ⟨rfl, rfl, rfl, Schedule.isNumbered_ofPlans plans⟩

/-- A phase with one iteration. -/
def PhasePlan.once (number : Nat) (blocking : Bool) : PhasePlan :=
  { idle number [] with policy := .count 1, blocking, nop := false }

/-- A flaky actor of a block of its own, with the same plan in all of its phases. -/
def Task.player (name : String) (id : Nat) (plan : FlakyPlan) (phases : List PhasePlan) :
    Task Flaky :=
  .fresh name id
    ⟨⟨name, "step", id⟩, .ofList (phases.map fun phase => (phase.number, plan)), {}, .seeking⟩
    (some (.fresh name id id (.ofPlans phases)))

theorem Task.isReady_player (name : String) (id : Nat) (plan : FlakyPlan)
    (phases : List PhasePlan) : (Task.player name id plan phases).IsReady :=
  ⟨.inl rfl, rfl, fun p hp => by cases hp; exact Participant.isReady_fresh _ _ _ _⟩

/-- Two actors in one phase: it waits for the host, but not for the guest, which will fail. -/
def duet : System Flaky where
  world :=
    { now := 0
      barrier := { Barrier.fresh with required := 2, lastPhase := some 0, launched := true }
      buckets := .empty, store := .empty, sink := .memory }
  tasks :=
    [.player "host" 0 {} [.once 0 true],
      .player "guest" 1 { failAt := some 1 } [.once 0 false]]

theorem isReady_duet : duet.IsReady where
  signal := rfl
  arrived := rfl
  outstanding := rfl
  failure := rfl
  required := by decide
  tasks := by
    intro t ht
    rcases List.mem_pair.1 ht with rfl | rfl
    · exact Task.isReady_player _ _ _ _
    · exact Task.isReady_player _ _ _ _

end Lockstep
