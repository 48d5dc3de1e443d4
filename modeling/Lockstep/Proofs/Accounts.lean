import Lockstep.Barrier
import Mathlib.Data.Finset.Card

/-!
# The accounts of a barrier

The barrier only counts tokens.  Its accounts say whose tokens these are: given how many arrivals
and how many handbacks there have been at every seat, `Barrier.Accounts` says what the counters have
to be.

* `Barrier.Gathering` : before phase `k` opens, everybody has handed back `k` tokens, some have
  arrived for the phase and are counted, and somebody is still missing;
* `Barrier.Working` : while phase `k` is open, everybody has arrived for it, and those who have not
  handed their token back are counted;
* `Accounts.arrive`, `Accounts.handBack` : an arrival and a handback keep the accounts.

`Barrier.Agrees` and `Barrier.LeadsTo` compare a barrier with a later one.
-/

namespace Lockstep

namespace Barrier

/-- The number of phases that have opened. -/
def opened (b : Barrier) : Nat := b.signal.phase + b.signal.isOpen.toNat

/-- A run is aborted by a failure, and only by one. -/
def IsHonest (b : Barrier) : Prop := b.signal.halt = .aborted ↔ b.failure.isSome

/-! ### Comparing two barriers -/

/-- The tokens and the phases are the same; but the run may have been halted. -/
structure Agrees (b b' : Barrier) : Prop where
  required : b'.required = b.required
  lastPhase : b'.lastPhase = b.lastPhase
  launched : b'.launched = b.launched
  arrived : b'.arrived = b.arrived
  outstanding : b'.outstanding = b.outstanding
  phase : b'.signal.phase = b.signal.phase
  isOpen : b'.signal.isOpen = b.signal.isOpen
  running : b'.signal.halt = .running → b.signal.halt = .running

/-- The phases have gone on. -/
structure LeadsTo (b b' : Barrier) : Prop where
  lastPhase : b'.lastPhase = b.lastPhase
  launched : b'.launched = b.launched
  phase_le : b.signal.phase ≤ b'.signal.phase
  opened_le : b.opened ≤ b'.opened
  running : b'.signal.halt = .running → b.signal.halt = .running

theorem Agrees.refl (b : Barrier) : b.Agrees b := ⟨rfl, rfl, rfl, rfl, rfl, rfl, rfl, id⟩

theorem Agrees.opened {b b' : Barrier} (h : b.Agrees b') : b'.opened = b.opened := by
  rw [Barrier.opened, h.phase, h.isOpen, Barrier.opened]

theorem Agrees.leadsTo {b b' : Barrier} (h : b.Agrees b') : b.LeadsTo b' :=
  ⟨h.lastPhase, h.launched, h.phase.ge, h.opened.ge, h.running⟩

theorem agrees_stop (b : Barrier) : b.Agrees b.stop := by
  unfold stop
  split
  · exact ⟨rfl, rfl, rfl, rfl, rfl, rfl, rfl, fun h => by cases h⟩
  · exact .refl b

theorem agrees_abort (b : Barrier) (f : Failure) : b.Agrees (b.abort f) := by
  unfold abort
  split
  · exact .refl b
  · exact ⟨rfl, rfl, rfl, rfl, rfl, rfl, rfl, fun h => by cases h⟩

theorem agrees_requestEnd (b : Barrier) (k : Nat) : b.Agrees (b.requestEnd k) :=
  ⟨rfl, rfl, rfl, rfl, rfl, rfl, rfl, id⟩

/-- A run that has not been halted goes on until all phases have closed. -/
theorem goesOn_eq_false_iff {b : Barrier} (hr : b.signal.halt = .running) :
    b.goesOn = false ↔ ∀ last, b.lastPhase = some last → last < b.signal.phase := by
  cases hl : b.lastPhase <;> simp [goesOn, hr, hl]

theorem arrive_of_opensNow {b : Barrier} (h : b.opensNow = true) :
    b.arrive = { b with arrived := 0, outstanding := b.required }.publish
      { b.signal with isOpen := true } :=
  if_pos (by simpa [opensNow] using h)

theorem arrive_of_not_opensNow {b : Barrier} (h : b.opensNow = false) :
    b.arrive = { b with arrived := b.arrived + 1 } :=
  if_neg (by simpa [opensNow] using h)

theorem handBack_of_closesNow {b : Barrier} (h : b.closesNow = true) (k : Nat) :
    b.handBack k = { b with outstanding := 0 }.publish
      { b.signal with phase := k + 1, isOpen := false } :=
  if_pos (by simpa [closesNow] using h)

theorem handBack_of_not_closesNow {b : Barrier} (h : b.closesNow = false) (k : Nat) :
    b.handBack k = { b with outstanding := b.outstanding - 1 } :=
  if_neg (by simpa [closesNow] using h)

theorem leadsTo_arrive (b : Barrier) : b.LeadsTo b.arrive := by
  cases h : b.opensNow with
  | true =>
    rw [arrive_of_opensNow h]
    refine ⟨rfl, rfl, le_rfl, ?_, id⟩
    have := b.signal.isOpen.toNat_le
    simp only [opened, publish, Bool.toNat_true]
    omega
  | false =>
    rw [arrive_of_not_opensNow h]
    exact ⟨rfl, rfl, le_rfl, le_rfl, id⟩

theorem leadsTo_handBack {b : Barrier} {k : Nat} (hk : b.signal.phase ≤ k) :
    b.LeadsTo (b.handBack k) := by
  cases h : b.closesNow with
  | true =>
    rw [handBack_of_closesNow h]
    refine ⟨rfl, rfl, Nat.le_succ_of_le hk, ?_, id⟩
    have := b.signal.isOpen.toNat_le
    simp only [opened, publish, Bool.toNat_false]
    omega
  | false =>
    rw [handBack_of_not_closesNow h]
    exact ⟨rfl, rfl, le_rfl, le_rfl, id⟩

/-! ### Failures -/

theorem IsHonest.arrive {b : Barrier} (hb : b.IsHonest) : b.arrive.IsHonest := by
  unfold Barrier.arrive
  split <;> exact hb

theorem IsHonest.handBack {b : Barrier} (hb : b.IsHonest) (k : Nat) : (b.handBack k).IsHonest := by
  unfold Barrier.handBack
  split <;> exact hb

theorem IsHonest.stop {b : Barrier} (hb : b.IsHonest) : b.stop.IsHonest := by
  unfold Barrier.stop
  split
  · next hr =>
    have hnone : b.failure.isSome ≠ true := fun hf => by
      have := hb.2 hf
      rw [hr] at this
      cases this
    exact ⟨by rintro ⟨⟩, fun hf => absurd hf hnone⟩
  · exact hb

/-- An abort leaves an aborted run behind, and the first failure. -/
theorem IsHonest.abort {b : Barrier} (hb : b.IsHonest) (f : Failure) :
    (b.abort f).signal.halt = .aborted ∧ (b.abort f).failure = some (b.failure.getD f) := by
  unfold Barrier.abort
  split
  · next g hg => exact ⟨hb.2 (by rw [hg]; rfl), by rw [hg]; rfl⟩
  · next hg => exact ⟨rfl, by rw [hg]; rfl⟩

/-! ### The accounts -/

/-- The next phase is not open yet; `a` and `h` are the arrivals and handbacks at every seat. -/
structure Gathering (b : Barrier) (seats : Finset Nat) (a h : Nat → Nat) : Prop where
  handbacks : ∀ i ∈ seats, h i = b.signal.phase
  arrivals : ∀ i ∈ seats, a i = b.signal.phase ∨ a i = b.signal.phase + 1
  outstanding : b.outstanding = 0
  arrived : b.arrived = (seats.filter fun i => b.signal.phase < a i).card
  missing : seats.Nonempty → b.arrived < seats.card

/-- A phase is open. -/
structure Working (b : Barrier) (seats : Finset Nat) (a h : Nat → Nat) : Prop where
  arrivals : ∀ i ∈ seats, a i = b.signal.phase + 1
  handbacks : ∀ i ∈ seats, h i = b.signal.phase ∨ h i = b.signal.phase + 1
  arrived : b.arrived = 0
  outstanding : b.outstanding = (seats.filter fun i => h i ≤ b.signal.phase).card
  held : 0 < b.outstanding

/-- The counters of a barrier are what the arrivals and handbacks at the seats make them. -/
structure Accounts (b : Barrier) (seats : Finset Nat) (a h : Nat → Nat) : Prop where
  required : b.required = seats.card
  gathering : b.signal.isOpen = false → b.Gathering seats a h
  working : b.signal.isOpen = true → b.Working seats a h

/-- What the accounts say about one seat. -/
structure Counts (b : Barrier) (a h : Nat) : Prop where
  gathering : b.signal.isOpen = false → h = b.signal.phase ∧ (a = h ∨ a = h + 1)
  working : b.signal.isOpen = true → a = b.signal.phase + 1 ∧ (a = h ∨ a = h + 1)

namespace Counts

variable {b b' : Barrier} {a h : Nat}

theorem congr (hc : b.Counts a h) (hb : b.Agrees b') : b'.Counts a h := by
  refine ⟨fun ho => ?_, fun ho => ?_⟩
  · rw [hb.phase]; exact hc.gathering (hb.isOpen ▸ ho)
  · rw [hb.phase]; exact hc.working (hb.isOpen ▸ ho)

theorem phase_le (hc : b.Counts a h) : b.signal.phase ≤ h := by
  cases ho : b.signal.isOpen with
  | false => exact (hc.gathering ho).1.ge
  | true => have := hc.working ho; omega

theorem handbacks_le (hc : b.Counts a h) : h ≤ a := by
  cases ho : b.signal.isOpen with
  | false => have := hc.gathering ho; omega
  | true => have := hc.working ho; omega

/-- Whoever has not arrived for a phase that has come, finds it not open. -/
theorem isOpen_eq_false (hc : b.Counts a h) (ha : a ≤ b.signal.phase) :
    b.signal.isOpen = false := by
  by_contra ho
  have := hc.working (by simpa using ho)
  omega

/-- Whoever has a token of a phase that has opened, finds it open. -/
theorem isOpen_eq_true (hc : b.Counts a h) (ha : a = h + 1) (ho : a ≤ b.opened) :
    b.signal.isOpen = true ∧ b.signal.phase = h := by
  cases h' : b.signal.isOpen with
  | false =>
    have := hc.gathering h'
    simp only [opened, h', Bool.toNat_false] at ho
    omega
  | true => have := hc.working h'; exact ⟨rfl, by omega⟩

end Counts

namespace Accounts

variable {b : Barrier} {seats : Finset Nat} {a h : Nat → Nat}

theorem counts (hacc : b.Accounts seats a h) {i : Nat} (hi : i ∈ seats) : b.Counts (a i) (h i) := by
  refine ⟨fun ho => ?_, fun ho => ?_⟩
  · have hg := hacc.gathering ho
    have := hg.handbacks i hi
    have := hg.arrivals i hi
    omega
  · have hw := hacc.working ho
    have := hw.arrivals i hi
    have := hw.handbacks i hi
    omega

theorem congr {b' : Barrier} (hacc : b.Accounts seats a h) (hb : b.Agrees b') :
    b'.Accounts seats a h := by
  refine ⟨hb.required.trans hacc.required, fun ho => ?_, fun ho => ?_⟩
  · have hg := hacc.gathering (hb.isOpen ▸ ho)
    exact ⟨by rw [hb.phase]; exact hg.handbacks, by rw [hb.phase]; exact hg.arrivals,
      hb.outstanding.trans hg.outstanding, by rw [hb.arrived, hb.phase]; exact hg.arrived,
      by rw [hb.arrived]; exact hg.missing⟩
  · have hw := hacc.working (hb.isOpen ▸ ho)
    exact ⟨by rw [hb.phase]; exact hw.arrivals, by rw [hb.phase]; exact hw.handbacks,
      hb.arrived.trans hw.arrived, by rw [hb.outstanding, hb.phase]; exact hw.outstanding,
      by rw [hb.outstanding]; exact hw.held⟩

/-- An arrival at a seat that has not arrived for the phase keeps the accounts. -/
theorem arrive (hacc : b.Accounts seats a h) {i : Nat} (hi : i ∈ seats)
    (ho : b.signal.isOpen = false) (hai : a i = b.signal.phase) {a' : Nat → Nat}
    (hai' : a' i = b.signal.phase + 1) (ha' : ∀ j, j ≠ i → a' j = a j) :
    b.arrive.Accounts seats a' h := by
  have hg := hacc.gathering ho
  have hset : (seats.filter fun j => b.signal.phase < a' j) =
      insert i (seats.filter fun j => b.signal.phase < a j) := by
    ext j
    by_cases hj : j = i
    · subst hj; simp [hi, hai']
    · simp [hj, ha' j hj]
  have hcard : (seats.filter fun j => b.signal.phase < a' j).card = b.arrived + 1 := by
    rw [hset, Finset.card_insert_of_notMem (by simp [hai]), hg.arrived]
  cases hopen : b.opensNow with
  | true =>
    -- everybody has arrived, for nobody arrives twice
    have hfull : (seats.filter fun j => b.signal.phase < a' j) = seats := by
      refine Finset.eq_of_subset_of_card_le (Finset.filter_subset _ _) ?_
      have : b.required ≤ b.arrived + 1 := by simpa [opensNow] using hopen
      rw [hcard, ← hacc.required]
      exact this
    have hall : ∀ j ∈ seats, a' j = b.signal.phase + 1 := by
      intro j hj
      have hlt := (Finset.mem_filter.1 (hfull ▸ hj)).2
      by_cases hji : j = i
      · rw [hji, hai']
      · rw [ha' j hji] at hlt ⊢
        have := hg.arrivals j hj
        omega
    rw [arrive_of_opensNow hopen]
    refine ⟨hacc.required, by rintro ⟨⟩,
      fun _ => ⟨hall, fun j hj => .inl (hg.handbacks j hj), rfl, ?_, ?_⟩⟩
    · have hheld : (seats.filter fun j => h j ≤ b.signal.phase) = seats :=
        Finset.filter_true_of_mem fun j hj => (hg.handbacks j hj).le
      exact hacc.required.trans (congrArg Finset.card hheld.symm)
    · simp only [publish, hacc.required]
      exact Finset.card_pos.2 ⟨i, hi⟩
  | false =>
    rw [arrive_of_not_opensNow hopen]
    refine ⟨hacc.required, fun _ => ⟨hg.handbacks, fun j hj => ?_, hg.outstanding, hcard.symm, ?_⟩,
      fun h' => absurd (ho.symm.trans h') (by decide)⟩
    · by_cases hji : j = i
      · rw [hji]; exact .inr hai'
      · rw [ha' j hji]; exact hg.arrivals j hj
    · have : ¬ b.required ≤ b.arrived + 1 := by simpa [opensNow] using hopen
      rw [← hacc.required]
      exact fun _ => by simpa using this

/-- A handback at a seat that still has its token keeps the accounts. -/
theorem handBack (hacc : b.Accounts seats a h) {i : Nat} (hi : i ∈ seats)
    (ho : b.signal.isOpen = true) (hhi : h i = b.signal.phase) {h' : Nat → Nat}
    (hhi' : h' i = b.signal.phase + 1) (hh' : ∀ j, j ≠ i → h' j = h j) :
    (b.handBack b.signal.phase).Accounts seats a h' := by
  have hw := hacc.working ho
  have hset : (seats.filter fun j => h j ≤ b.signal.phase) =
      insert i (seats.filter fun j => h' j ≤ b.signal.phase) := by
    ext j
    by_cases hj : j = i
    · subst hj; simp [hi, hhi]
    · simp [hj, hh' j hj]
  have hcard : b.outstanding = (seats.filter fun j => h' j ≤ b.signal.phase).card + 1 := by
    rw [hw.outstanding, hset, Finset.card_insert_of_notMem (by simp [hhi'])]
  have hrest : ∀ j ∈ seats, h' j = b.signal.phase ∨ h' j = b.signal.phase + 1 := by
    intro j hj
    by_cases hji : j = i
    · rw [hji]; exact .inr hhi'
    · rw [hh' j hji]; exact hw.handbacks j hj
  cases hclose : b.closesNow with
  | true =>
    -- nobody is left whose token is out
    have hnone : (seats.filter fun j => h' j ≤ b.signal.phase) = ∅ := by
      have : b.outstanding ≤ 1 := by simpa [closesNow] using hclose
      exact Finset.card_eq_zero.1 (by omega)
    have hall : ∀ j ∈ seats, h' j = b.signal.phase + 1 := by
      intro j hj
      have := hrest j hj
      have : ¬ h' j ≤ b.signal.phase := fun hle =>
        Finset.notMem_empty j (hnone ▸ Finset.mem_filter.2 ⟨hj, hle⟩)
      omega
    rw [handBack_of_closesNow hclose]
    refine ⟨hacc.required, fun _ => ⟨hall, fun j hj => .inl (hw.arrivals j hj), rfl, ?_, ?_⟩,
      by rintro ⟨⟩⟩
    · have : (seats.filter fun j => b.signal.phase + 1 < a j) = ∅ :=
        Finset.filter_false_of_mem fun j hj => by rw [hw.arrivals j hj]; omega
      exact hw.arrived.trans (congrArg Finset.card this).symm
    · intro hne
      simp only [publish, hw.arrived]
      exact Finset.card_pos.2 hne
  | false =>
    rw [handBack_of_not_closesNow hclose]
    refine ⟨hacc.required, fun h' => absurd (ho.symm.trans h') (by decide),
      fun _ => ⟨hw.arrivals, hrest, hw.arrived, ?_, ?_⟩⟩
    · simp only [hcard, Nat.add_sub_cancel]
    · have : ¬ b.outstanding ≤ 1 := by simpa [closesNow] using hclose
      simp only
      omega

end Accounts

end Barrier

end Lockstep
