import Lockstep.Proofs.Ready
import Mathlib.Data.List.Forall2
import Mathlib.Data.List.Nodup

/-!
# What a block configures

A schedule is worked out from the entries of its block.  This file says which plans it has in terms
of the entries alone.

* `Block.described` : the phases a block describes, each with the entry that does so;
* `Block.Configures` : some entry of a block describes this plan;
* `Schedule.values_ofBlock` : **a schedule has one plan for each phase that is described**, and no
  other ones;
* `Schedule.busyBefore` : the phases with something to do that come before a given one;
* `Workload.phaseCount` : how many phases a workload wants.
-/

namespace Lockstep

/-- The phases that an entry at a position describes, if they can be read. -/
def PhaseItem.numbers (e : PhaseItem) (index : Nat) : List Nat :=
  match e.phase with
  | none => [index]
  | some selector => selector.phases.toOption.getD []

namespace Block

/-- The phases a block describes, each with its entry, in the order of the entries. -/
def described (b : Block) : List (PhaseItem × Nat) :=
  b.phases.zipIdx.flatMap fun item => (item.1.numbers item.2).map fun k => (item.1, k)

theorem mem_phases_of_mem_described {b : Block} {d : PhaseItem × Nat} (hd : d ∈ b.described) :
    d.1 ∈ b.phases := by
  obtain ⟨item, hitem, hd⟩ := List.mem_flatMap.1 hd
  obtain ⟨k, -, rfl⟩ := List.mem_map.1 hd
  have hmem := List.fst_mem_of_mem_zipIdx hitem
  exact hmem

/-- Some entry of the block describes this plan. -/
def Configures (b : Block) (actor : String) (plan : PhasePlan) : Prop :=
  ∃ d ∈ b.described, PhasePlan.ofEntry actor d.2 d.1 b.params = .ok plan

end Block

/-- A plan with something to do is as its entry wants it. -/
theorem PhasePlan.of_ofEntry {actor : String} {k : Nat} {e : PhaseItem} {params : Toml.Table}
    {plan : PhasePlan} (h : ofEntry actor k e params = .ok plan) (hnop : plan.nop = false) :
    e.nop = false ∧ blockingOf e = .ok plan.blocking ∧ policyOf e plan.blocking = .ok plan.policy ∧
      plan.rate = e.globalRate := by
  obtain ⟨-, rfl⟩ | ⟨hbusy, _, _, hblocking, hpolicy, rfl⟩ := ofEntry_eq_ok h
  · cases hnop
  · exact ⟨hbusy, hblocking, hpolicy, rfl⟩

/-- One more than the largest of some numbers, or zero. -/
def countUpTo (ks : List Nat) : Nat := ks.foldr (fun k n => max (k + 1) n) 0

theorem countUpTo_le_iff {ks : List Nat} {n : Nat} : countUpTo ks ≤ n ↔ ∀ k ∈ ks, k < n := by
  induction ks with
  | nil => simp [countUpTo]
  | cons k ks ih =>
    rw [List.forall_mem_cons, ← ih, ← Nat.succ_le_iff, ← max_le_iff]
    rfl

/-- One more than the largest phase that any block configures, or zero when none configures one. -/
def Workload.phaseCount (w : Workload) : Nat :=
  countUpTo (w.actors.flatMap fun b => b.described.map Prod.snd)

/-! ### Maps from numbers -/

namespace SortedMap

variable {ν : Type} {m : SortedMap Nat ν} {k : Nat} {v : ν}

/-- A key that is new adds one value. -/
theorem values_insert (h : m.find? k = none) : (m.insert k v).values.Perm (v :: m.values) := by
  have hnew : ∀ e ∈ m.entries, e.1 ≠ k := by
    intro e he hk
    rw [find?_eq_some_iff.2 (hk ▸ he : (k, e.2) ∈ m.entries)] at h
    cases h
  have hperm (es : List (Nat × ν)) (hes : ∀ e ∈ es, e.1 ≠ k) :
      (alterEntries k (fun _ => v) es).Perm ((k, v) :: es) := by
    induction es with
    | nil => exact .refl _
    | cons e es ih =>
      obtain ⟨he, hes⟩ := List.forall_mem_cons.1 hes
      rw [alterEntries]
      split
      · exact .refl _
      · rw [if_pos (by omega)]
        exact ((ih hes).cons e).trans (.swap _ _ _)
  exact (hperm m.entries hnew).map Prod.snd

/-- No key is greater than the last one. -/
theorem last?_lt_iff {n : Nat} : (∀ k, m.last? = some k → k < n) ↔ ∀ k ∈ m.keys, k < n := by
  have hsorted : m.keys.Pairwise (· < ·) := List.pairwise_map.2 m.sorted
  unfold last?
  rcases List.eq_nil_or_concat m.keys with hnil | ⟨ks, last, hlast⟩
  · simp [hnil]
  · rw [hlast, List.concat_eq_append] at hsorted ⊢
    have hle := (List.pairwise_append.1 hsorted).2.2
    simp only [List.getLast?_concat, Option.some.injEq, forall_eq', List.mem_append,
      List.mem_singleton]
    constructor
    · rintro hlt k (hk | rfl)
      · exact (hle k hk last (List.mem_singleton_self _)).trans hlt
      · exact hlt
    · exact fun h => h last (.inr rfl)

end SortedMap

namespace Schedule

variable {s s' : Schedule}

/-! ### The plans of a schedule -/

theorem mem_values_iff (hs : s.IsNumbered) {plan : PhasePlan} :
    plan ∈ s.values ↔ s.find? plan.number = some plan := by
  rw [SortedMap.find?_eq_some_iff]
  constructor
  · intro h
    obtain ⟨e, he, rfl⟩ := List.mem_map.1 h
    rw [hs e.1 e.2 (SortedMap.find?_eq_some_iff.2 he)]
    exact he
  · exact fun h => List.mem_map.2 ⟨_, h, rfl⟩

/-- The plans come in the order of their numbers. -/
theorem values_ascending (hs : s.IsNumbered) :
    s.values.Pairwise fun plan plan' => plan.number < plan'.number := by
  refine List.pairwise_map.2 (s.sorted.imp_of_mem fun {e e'} he he' hlt => ?_)
  rw [hs e.1 e.2 (SortedMap.find?_eq_some_iff.2 he),
    hs e'.1 e'.2 (SortedMap.find?_eq_some_iff.2 he')]
  exact hlt

theorem busy_ascending (hs : s.IsNumbered) :
    s.busy.Pairwise fun plan plan' => plan.number < plan'.number :=
  (values_ascending hs).filter _

theorem mem_busy_iff (hs : s.IsNumbered) {plan : PhasePlan} :
    plan ∈ s.busy ↔ s.find? plan.number = some plan ∧ plan.nop = false := by
  rw [busy, List.mem_filter, mem_values_iff hs, Bool.not_eq_true']

/-- The plan of a phase, if there is something to do in it, is the one with its number. -/
theorem filter_busy (hs : s.IsNumbered) (k : Nat) :
    s.busy.filter (fun plan => plan.number = k) =
      ((s.find? k).filter fun plan => !plan.nop).toList := by
  have hfound (plan : PhasePlan) : plan ∈ s.busy.filter (fun plan => plan.number = k) ↔
      (s.find? k).filter (fun plan => !plan.nop) = some plan := by
    rw [List.mem_filter, mem_busy_iff hs, Option.filter_eq_some_iff, decide_eq_true_iff,
      Bool.not_eq_true']
    constructor
    · rintro ⟨⟨hfind, hnop⟩, rfl⟩
      exact ⟨hfind, hnop⟩
    · rintro ⟨hfind, hnop⟩
      obtain rfl := hs k plan hfind
      exact ⟨⟨hfind, hnop⟩, rfl⟩
  have hsorted := (busy_ascending hs).filter fun plan => plan.number = k
  generalize s.busy.filter (fun plan => plan.number = k) = plans at hfound hsorted ⊢
  cases plans with
  | nil =>
    rw [Option.eq_none_iff_forall_ne_some.2 fun plan h => nomatch (hfound plan).2 h]
    rfl
  | cons plan plans =>
    have hplan := (hfound plan).1 List.mem_cons_self
    rw [hplan]
    -- a second plan would be the same one, and so would come before itself
    cases plans with
    | nil => rfl
    | cons plan' plans =>
      have hplan' := (hfound plan').1 (List.mem_cons_of_mem _ List.mem_cons_self)
      obtain rfl := Option.some.inj (hplan.symm.trans hplan')
      exact absurd ((List.pairwise_cons.1 hsorted).1 plan List.mem_cons_self) (lt_irrefl _)

/-- The phases with something to do before phase `n`. -/
def busyBefore (s : Schedule) (n : Nat) : List PhasePlan :=
  s.busy.filter fun plan => plan.number < n

theorem busyBefore_zero (s : Schedule) : s.busyBefore 0 = [] :=
  List.filter_eq_nil_iff.2 fun _ _ => by simp

theorem busyBefore_of_lt {n : Nat} (h : ∀ plan ∈ s.busy, plan.number < n) :
    s.busyBefore n = s.busy :=
  List.filter_eq_self.2 fun plan hplan => by simpa using h plan hplan

theorem busyBefore_succ (hs : s.IsNumbered) (k : Nat) :
    s.busyBefore (k + 1) =
      s.busyBefore k ++ ((s.find? k).filter fun plan => !plan.nop).toList := by
  rw [← filter_busy hs k, busyBefore, busyBefore]
  have hsplit (plans : List PhasePlan)
      (h : plans.Pairwise fun plan plan' => plan.number < plan'.number) :
      plans.filter (fun plan => decide (plan.number < k + 1)) =
        plans.filter (fun plan => decide (plan.number < k)) ++
          plans.filter (fun plan => decide (plan.number = k)) := by
    induction plans with
    | nil => rfl
    | cons plan plans ih =>
      obtain ⟨hfirst, hrest⟩ := List.pairwise_cons.1 h
      by_cases hlt : plan.number < k
      · rw [List.filter_cons_of_pos (by simp; omega), List.filter_cons_of_pos (by simpa using hlt),
          List.filter_cons_of_neg (by simp; omega), ih hrest, List.cons_append]
      · -- all others come after phase `k`
        have hle : ∀ plan' ∈ plan :: plans, k ≤ plan'.number :=
          List.forall_mem_cons.2 ⟨not_lt.1 hlt, fun plan' h' => by have := hfirst plan' h'; omega⟩
        have hnone : (plan :: plans).filter (fun plan => decide (plan.number < k)) = [] :=
          List.filter_eq_nil_iff.2 fun plan' h' => by simpa using hle plan' h'
        rw [hnone, List.nil_append]
        refine List.filter_congr fun plan' h' => ?_
        have := hle plan' h'
        simp only [decide_eq_decide]
        omega
  exact hsplit s.busy (busy_ascending hs)

/-- All phases of the schedule lie within the phases of the run. -/
def FitsIn (s : Schedule) (b : Barrier) : Prop :=
  ∀ plan ∈ s.busy, ∃ last, b.lastPhase = some last ∧ plan.number ≤ last

theorem FitsIn.busyBefore {b : Barrier} (h : s.FitsIn b) {n : Nat}
    (hn : ∀ last, b.lastPhase = some last → last < n) : s.busyBefore n = s.busy :=
  busyBefore_of_lt fun plan hplan => by
    obtain ⟨last, hlast, hle⟩ := h plan hplan
    exact hle.trans_lt (hn last hlast)

/-! ### The schedule of a block -/

theorem phasesOf_eq_ok {actor : String} {index : Nat} {e : PhaseItem} {numbers : List Nat}
    (h : phasesOf actor index e = .ok numbers) : numbers = e.numbers index := by
  cases hphase : e.phase with
  | none =>
    simp only [phasesOf, hphase] at h
    cases h
    simp only [PhaseItem.numbers, hphase]
  | some selector =>
    simp only [phasesOf, hphase] at h
    simp only [PhaseItem.numbers, hphase]
    cases hselected : selector.phases with
    | error fault => rw [hselected] at h; cases h
    | ok numbers' => rw [hselected] at h; cases h; rfl

/-- The schedule of a block comes about phase by phase. -/
theorem foldlM_described {actor : String} {b : Block} (h : ofBlock actor b = .ok s) :
    b.described.foldlM (fun s d => add actor b.params d.1 s d.2) SortedMap.empty = .ok s := by
  have hfold (items : List (PhaseItem × Nat)) (s₀ : Schedule)
      (h : items.foldlM (fun (s : Schedule) (item : PhaseItem × Nat) => do
        let numbers ← phasesOf actor item.2 item.1
        numbers.foldlM (add actor b.params item.1) s) s₀ = .ok s) :
      (items.flatMap fun item => (item.1.numbers item.2).map fun k => (item.1, k)).foldlM
        (fun s d => add actor b.params d.1 s d.2) s₀ = .ok s := by
    induction items generalizing s₀ with
    | nil => exact h
    | cons item items ih =>
      rw [List.foldlM_cons] at h
      rw [List.flatMap_cons, List.foldlM_append, List.foldlM_map]
      obtain ⟨s₁, hitem, hrest⟩ := exists_of_bind_eq_ok h
      obtain ⟨numbers, hnumbers, hadd⟩ := exists_of_bind_eq_ok hitem
      rw [← phasesOf_eq_ok hnumbers, hadd]
      exact ih s₁ hrest
  exact hfold b.phases.zipIdx SortedMap.empty h

/-- **The schedule of a block has one plan for each phase that is described.** -/
theorem values_ofBlock {actor : String} {b : Block} (h : ofBlock actor b = .ok s) :
    ∃ plans, s.values.Perm plans ∧ List.Forall₂
      (fun d plan => PhasePlan.ofEntry actor d.2 d.1 b.params = .ok plan) b.described plans := by
  have hfold (ds : List (PhaseItem × Nat)) (s₀ : Schedule)
      (h : ds.foldlM (fun s d => add actor b.params d.1 s d.2) s₀ = .ok s) :
      ∃ plans, s.values.Perm (plans ++ s₀.values) ∧ List.Forall₂
        (fun d plan => PhasePlan.ofEntry actor d.2 d.1 b.params = .ok plan) ds plans := by
    induction ds generalizing s₀ with
    | nil => cases h; exact ⟨[], .refl _, .nil⟩
    | cons d ds ih =>
      rw [List.foldlM_cons] at h
      obtain ⟨s₁, hadd, hrest⟩ := exists_of_bind_eq_ok h
      obtain ⟨plan, hplan, hnew, rfl⟩ := add_eq_ok hadd
      obtain ⟨plans, hperm, hplans⟩ := ih _ hrest
      refine ⟨plan :: plans, ?_, .cons hplan hplans⟩
      exact (hperm.trans ((SortedMap.values_insert hnew).append_left plans)).trans
        List.perm_middle
  obtain ⟨plans, hperm, hplans⟩ := hfold b.described .empty (foldlM_described h)
  rw [show (SortedMap.empty : Schedule).values = [] from rfl, List.append_nil] at hperm
  exact ⟨plans, hperm, hplans⟩

/-- The plans of a schedule are those its block configures. -/
theorem mem_values_ofBlock {actor : String} {b : Block} (h : ofBlock actor b = .ok s)
    {plan : PhasePlan} : plan ∈ s.values ↔ b.Configures actor plan := by
  obtain ⟨plans, hperm, hplans⟩ := values_ofBlock h
  rw [hperm.mem_iff]
  unfold Block.Configures
  generalize b.described = ds at hplans
  clear hperm
  induction hplans with
  | nil => simp
  | cons hplan _ ih =>
    simp [ih, hplan, eq_comm (a := plan)]

/-- The keys of the schedule are the numbers that its block describes. -/
theorem keys_ofBlock {actor : String} {b : Block} (h : ofBlock actor b = .ok s) :
    s.keys.Perm (b.described.map Prod.snd) := by
  have hkeys : s.keys = s.values.map PhasePlan.number := by
    rw [SortedMap.keys, SortedMap.values, List.map_map]
    refine List.map_congr_left fun e he => ?_
    exact (isNumbered_ofBlock h e.1 e.2 (SortedMap.find?_eq_some_iff.2 he)).symm
  obtain ⟨plans, hperm, hplans⟩ := values_ofBlock h
  have hnumbers : plans.map PhasePlan.number = b.described.map Prod.snd := by
    generalize b.described = ds at hplans
    clear hperm
    induction hplans with
    | nil => rfl
    | cons hplan _ ih => rw [List.map_cons, List.map_cons, ih, PhasePlan.number_ofEntry hplan]
  rw [hkeys, ← hnumbers]
  exact hperm.map _

end Schedule

end Lockstep
