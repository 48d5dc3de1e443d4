import Lockstep.Proofs.RecordBalance

/-!
# All actors in the same phase

* `System.Opens` and `System.Closes` : a move opens a phase, or closes it;
* `System.lockstep` : **all actors that are in a phase are in the same one**, and when a phase opens
  nobody is in an earlier one any more;
* `System.accounting` : **the barrier counts every token once, and for its own phase**, so that the
  phases open and close one after the other.

Both hold in every order of the moves, whatever the schedules are: an actor that hands its token
back early may go on working, but it arrives for no later phase before it has stopped.
-/

namespace Lockstep

namespace System

variable {σ : Type} [Behaviour σ]

/-- A move opens phase `k`. -/
def Opens (s : System σ) (l : Label) (k : Nat) : Prop :=
  ¬ (s.world.barrier.signal.phase = k ∧ s.world.barrier.signal.isOpen = true) ∧
    (s.fire l).world.barrier.signal.phase = k ∧ (s.fire l).world.barrier.signal.isOpen = true

/-- A move closes phase `k`. -/
def Closes (s : System σ) (l : Label) (k : Nat) : Prop :=
  (s.world.barrier.signal.phase = k ∧ s.world.barrier.signal.isOpen = true) ∧
    ¬ ((s.fire l).world.barrier.signal.phase = k ∧
      (s.fire l).world.barrier.signal.isOpen = true)

/-! ### What moves the phases on -/

/-- What a move does to the phases: nothing, or the last arrival for the next phase opens it, or the
last handback in the phase that is open closes it. -/
inductive Shift (s : System σ) (l : Label) : Prop where
  | none (hp : (s.fire l).world.barrier.signal.phase = s.world.barrier.signal.phase)
      (ho : (s.fire l).world.barrier.signal.isOpen = s.world.barrier.signal.isOpen)
  | opens {i k : Nat} {t : Task σ} (hl : l = .act i) (ht : s.tasks[i]? = some t)
      (hm : t.mark? s.world.barrier = some (.arrival k))
      (hs : s.world.barrier.signal = ⟨k, false, .running⟩)
      (hs' : (s.fire l).world.barrier.signal = ⟨k, true, .running⟩)
  | closes {i k : Nat} {t : Task σ} (hl : l = .act i) (ht : s.tasks[i]? = some t)
      (hm : t.mark? s.world.barrier = some (.handback k))
      (hs : s.world.barrier.signal = ⟨k, true, .running⟩)
      (hs' : (s.fire l).world.barrier.signal = ⟨k + 1, false, .running⟩)

theorem Balanced.shift {s₀ s : System σ} {r : Record} (h : s₀.Balanced r s) (l : Label) :
    s.Shift l := by
  by_cases hl : ∀ i, l = .act i → s.tasks[i]? = none
  · have hb := s.agrees_fire hl
    exact .none hb.phase hb.isOpen
  simp only [not_forall] at hl
  obtain ⟨i, rfl, hi⟩ := hl
  obtain ⟨t, ht⟩ := Option.ne_none_iff_exists'.1 hi
  have hb := h.barrier_act ht
  cases hm : t.mark? s.world.barrier with
  | none =>
    rw [hm] at hb
    exact .none (by rw [hb]; rfl) (by rw [hb]; rfl)
  | some m =>
    rw [hm] at hb
    cases m with
    | desertion => exact .none (by rw [hb]; rfl) (by rw [hb]; rfl)
    | accusation f =>
      have hagree := s.world.barrier.agrees_abort f
      exact .none (by rw [hb]; exact hagree.phase) (by rw [hb]; exact hagree.isOpen)
    | arrival k =>
      obtain ⟨hs, -⟩ := h.isDue ht hm
      cases hlast : s.world.barrier.opensNow with
      | false =>
        rw [Mark.act, Barrier.arrive_of_not_opensNow hlast] at hb
        exact .none (by rw [hb]) (by rw [hb])
      | true =>
        rw [Mark.act, Barrier.arrive_of_opensNow hlast] at hb
        exact .opens rfl ht hm hs (by rw [hb, Barrier.publish, hs])
    | handback k =>
      obtain ⟨hs, -⟩ := h.isDue ht hm
      cases hlast : s.world.barrier.closesNow with
      | false =>
        rw [Mark.act, Barrier.handBack_of_not_closesNow hlast] at hb
        exact .none (by rw [hb]) (by rw [hb])
      | true =>
        rw [Mark.act, Barrier.handBack_of_closesNow hlast] at hb
        exact .closes rfl ht hm hs (by rw [hb, Barrier.publish, hs])

theorem Balanced.of_opens {s₀ s : System σ} {r : Record} (h : s₀.Balanced r s) {l : Label} {k : Nat}
    (ho : s.Opens l k) : ∃ i t, l = .act i ∧ s.tasks[i]? = some t ∧
      t.mark? s.world.barrier = some (.arrival k) ∧
      s.world.barrier.signal = ⟨k, false, .running⟩ ∧
      (s.fire l).world.barrier.signal = ⟨k, true, .running⟩ := by
  obtain ⟨hno, hphase, hopen⟩ := ho
  cases h.shift l with
  | none hp hi => exact absurd ⟨hp ▸ hphase, hi ▸ hopen⟩ hno
  | opens hl ht hm hs hs' =>
    rw [hs'] at hphase
    cases hphase
    exact ⟨_, _, hl, ht, hm, hs, hs'⟩
  | closes hl ht hm hs hs' => rw [hs'] at hopen; cases hopen

theorem Balanced.of_closes {s₀ s : System σ} {r : Record} (h : s₀.Balanced r s) {l : Label}
    {k : Nat} (hc : s.Closes l k) : ∃ i t, l = .act i ∧ s.tasks[i]? = some t ∧
      t.mark? s.world.barrier = some (.handback k) ∧
      s.world.barrier.signal = ⟨k, true, .running⟩ ∧
      (s.fire l).world.barrier.signal = ⟨k + 1, false, .running⟩ := by
  obtain ⟨⟨hphase, hopen⟩, hno⟩ := hc
  cases h.shift l with
  | none hp hi => exact absurd ⟨hp.trans hphase, hi.trans hopen⟩ hno
  | opens hl ht hm hs hs' => rw [hs] at hopen; cases hopen
  | closes hl ht hm hs hs' =>
    rw [hs] at hphase
    cases hphase
    exact ⟨_, _, hl, ht, hm, hs, hs'⟩

/-! ### Everybody in the same phase -/

omit [Behaviour σ] in
/-- An actor only ever works in the last phase that has opened. -/
theorem Balanced.number_stint {s₀ s : System σ} {r : Record} (h : s₀.Balanced r s) {t : Task σ}
    (ht : t ∈ s.tasks) {x : Stint} (hx : t.stint = some x) :
    x.plan.number + 1 = s.world.barrier.opened := by
  obtain ⟨i, hi⟩ := List.getElem?_of_mem ht
  by_cases hseat : i ∈ s₀.seats
  · obtain ⟨hnum, hop⟩ := (h.fits i t hi hseat).stint x hx
    have hc := h.counts hseat
    cases ho : s.world.barrier.signal.isOpen with
    | false =>
      have := hc.gathering ho
      simp only [Barrier.opened, ho, Bool.toNat_false] at hop ⊢
      omega
    | true =>
      have := hc.working ho
      simp only [Barrier.opened, ho, Bool.toNat_true] at hop ⊢
      omega
  · rw [(h.apart i t hi hseat).2] at hx
    cases hx

/-- When a phase opens nobody is in any phase. -/
theorem Balanced.stint_of_opens {s₀ s : System σ} {r : Record} (h : s₀.Balanced r s) {l : Label}
    {k : Nat} (ho : s.Opens l k) {t : Task σ} (ht : t ∈ s.tasks) : t.stint = none := by
  obtain ⟨i, u, rfl, hu, hm, hs, hs'⟩ := h.of_opens ho
  obtain ⟨j, hj⟩ := List.getElem?_of_mem ht
  by_contra hne
  obtain ⟨x, hx⟩ := Option.ne_none_iff_exists'.1 hne
  by_cases hseat : j ∈ s₀.seats
  · obtain ⟨hnum, hop⟩ := (h.fits j t hj hseat).stint x hx
    by_cases hji : j = i
    · -- whoever arrives has left its phase
      rw [hji, hu] at hj
      cases hj
      obtain ⟨a, p, hstage, -⟩ := Task.call?_eq_some (Task.call?_of_arrival hm)
      rw [(h.fits j t (hji ▸ hu) hseat).advancing a hstage] at hx
      cases hx
    · -- everybody else has arrived for the phase that has not opened yet
      have hworking := (h.fire (.act i)).accounts.working (by rw [hs'])
      have harrived := hworking.arrivals j hseat
      have hmarks := (marks_entries_act hu j).trans (if_neg (Ne.symm hji))
      rw [(Record.numbers_of_marks_nil r hmarks).1, hs'] at harrived
      simp only [Barrier.opened, hs, Bool.toNat_false] at hop
      simp only at harrived
      omega
  · rw [(h.apart j t hj hseat).2] at hx
    cases hx

/-- **All actors that are in a phase are in the same one.**  And when phase `k + 1` opens, neither
before nor after that move anybody is in a phase up to `k`. -/
theorem lockstep {s₀ s : System σ} (hs : s₀.IsReady) (h : s₀.Reachable s) :
    (∀ t ∈ s.tasks, ∀ t' ∈ s.tasks, ∀ x x', t.stint = some x → t'.stint = some x' →
      x.plan.number = x'.plan.number) ∧
    ∀ l k, s.Opens l (k + 1) → ∀ t, t ∈ s.tasks ∨ t ∈ (s.fire l).tasks →
      ∀ x, t.stint = some x → ¬ x.plan.number ≤ k := by
  obtain ⟨ls, rfl⟩ := reachable_iff_run.1 h
  have hbooks := hs.balanced_run ls
  refine ⟨fun t ht t' ht' x x' hx hx' => ?_, fun l k ho t ht x hx => ?_⟩
  · have := hbooks.number_stint ht hx
    have := hbooks.number_stint ht' hx'
    omega
  · rcases ht with ht | ht
    · rw [hbooks.stint_of_opens ho ht] at hx
      cases hx
    · have hnum := (hbooks.fire l).number_stint ht hx
      rw [Barrier.opened, ho.2.1, ho.2.2, Bool.toNat_true] at hnum
      omega

/-- The host and the guest come into their phase. -/
def duetEntry : List Label :=
  List.replicate 6 (.act 0) ++ List.replicate 7 (.act 1) ++ [.act 0, .act 1]

/-- Both work in phase 0, though the guest has handed its token back. -/
theorem lockstep_duet :
    duet.IsReady ∧ duet.Reachable (duet.run duetEntry) ∧
      ((duet.run duetEntry).tasks.map fun t => t.stint.map fun x => x.plan.number) =
        [some 0, some 0] ∧
      ∀ t ∈ (duet.run duetEntry).tasks, ∀ t' ∈ (duet.run duetEntry).tasks, ∀ x x',
        t.stint = some x → t'.stint = some x' → x.plan.number = x'.plan.number :=
  ⟨isReady_duet, reachable_run _ _, by decide,
    (lockstep isReady_duet (reachable_run duet duetEntry)).1⟩

/-! ### Every token counts -/

/-- The counters of the barrier and the phases are what the recorded arrivals and handbacks at the
seats of `s₀` make them. -/
structure Counted (s₀ : System σ) (r : Record) (s : System σ) : Prop where
  required : s.world.barrier.required = s₀.seats.card
  /-- While a phase is open, those who have arrived for it and not handed its token back are
  counted. -/
  working : s.world.barrier.signal.isOpen = true →
    s.world.barrier.arrived = 0 ∧ 1 ≤ s.world.barrier.outstanding ∧
      s.world.barrier.outstanding ≤ s.world.barrier.required ∧
      s.world.barrier.outstanding = (s₀.seats.filter fun i =>
        s.world.barrier.signal.phase ∈ r.arrivals i ∧
          s.world.barrier.signal.phase ∉ r.handbacks i).card
  /-- Before a phase opens, those who have arrived for it are counted. -/
  gathering : s.world.barrier.signal.isOpen = false →
    s.world.barrier.outstanding = 0 ∧ s.world.barrier.arrived < s.world.barrier.required ∧
      s.world.barrier.arrived = (s₀.seats.filter fun i =>
        s.world.barrier.signal.phase ∈ r.arrivals i).card
  /-- Whoever has seen that a phase comes next still sees it when it arrives, and its arrival counts
  for that phase. -/
  arriving : ∀ i t k, s.tasks[i]? = some t → t.call? = some (.arriving k) →
    s.world.barrier.signal.halt = .running →
    s.world.barrier.signal = ⟨k, false, .running⟩ ∧
      (s.fire (.act i)).world.barrier = s.world.barrier.arrive ∧
      (r ++ s.entries (.act i)).arrivals i = r.arrivals i ++ [k]
  /-- Whoever hands a token back finds its phase open and the token among those that are out. -/
  returning : ∀ i t k wait, s.tasks[i]? = some t → t.call? = some (.returning k wait) →
    s.world.barrier.signal.halt = .running →
    s.world.barrier.signal = ⟨k, true, .running⟩ ∧ 1 ≤ s.world.barrier.outstanding ∧
      (s.fire (.act i)).world.barrier = s.world.barrier.handBack k ∧
      (r ++ s.entries (.act i)).handbacks i = r.handbacks i ++ [k]
  /-- A phase is opened by an arrival for it. -/
  opens : ∀ l k, s.Opens l k → ∃ i t, l = .act i ∧ s.tasks[i]? = some t ∧
    t.call? = some (.arriving k) ∧ s.world.barrier.signal = ⟨k, false, .running⟩ ∧
      (s.fire l).world.barrier.signal = ⟨k, true, .running⟩
  /-- A phase is closed by a handback of its token, and the next one comes after it. -/
  closes : ∀ l k, s.Closes l k → ∃ i t wait, l = .act i ∧ s.tasks[i]? = some t ∧
    t.call? = some (.returning k wait) ∧ s.world.barrier.signal = ⟨k, true, .running⟩ ∧
      (s.fire l).world.barrier.signal = ⟨k + 1, false, .running⟩
  /-- The phases have opened and closed once each, one after the other. -/
  shown : r.shown = s.world.barrier.signal.history

omit [Behaviour σ] in
theorem Balanced.mem_arrivals {s₀ s : System σ} {r : Record} (h : s₀.Balanced r s) {i k : Nat} :
    k ∈ r.arrivals i ↔ k < (r.arrivals i).length := by
  conv_lhs => rw [h.arrivals i]
  exact List.mem_range

omit [Behaviour σ] in
theorem Balanced.mem_handbacks {s₀ s : System σ} {r : Record} (h : s₀.Balanced r s) {i k : Nat} :
    k ∈ r.handbacks i ↔ k < (r.handbacks i).length := by
  conv_lhs => rw [h.handbacks i]
  exact List.mem_range

/-- A step of a task that moves a token. -/
theorem Balanced.entries_of_call? {s₀ s : System σ} {r : Record} (h : s₀.Balanced r s) {i : Nat}
    {t : Task σ} (ht : s.tasks[i]? = some t) {c : Call} (hc : t.call? = some c)
    (hr : s.world.barrier.signal.halt = .running) :
    (s.fire (.act i)).world.barrier = Mark.act s.world.barrier c.mark? ∧
      Record.arrivals (s.entries (.act i)) i = (c.mark?.bind Mark.arrival?).toList ∧
      Record.handbacks (s.entries (.act i)) i = (c.mark?.bind Mark.handback?).toList := by
  have hm := Task.mark?_of_call? hc hr
  refine ⟨hm ▸ h.barrier_act ht, ?_⟩
  have hmarks := (marks_entries_act ht i).trans (if_pos rfl)
  rw [hm] at hmarks
  exact Record.numbers_of_marks_self hmarks

/-- **The barrier counts every token once, and for its own phase.** -/
theorem accounting {s₀ : System σ} (hs : s₀.IsReady) (hN : 0 < s₀.world.barrier.required)
    (ls : List Label) : s₀.Counted (s₀.record ls) (s₀.run ls) := by
  have h := hs.balanced_run ls
  have hseats : s₀.seats.Nonempty := Finset.card_pos.1 (hs.required ▸ hN)
  refine ⟨h.accounts.required, fun ho => ?_, fun ho => ?_, fun i t k ht hc hr => ?_,
    fun i t k wait ht hc hr => ?_, fun l k hop => ?_, fun l k hcl => ?_, h.shown⟩
  · have hw := h.accounts.working ho
    refine ⟨hw.arrived, hw.held, ?_, ?_⟩
    · rw [hw.outstanding, h.accounts.required]
      exact Finset.card_filter_le _ _
    · rw [hw.outstanding]
      refine congrArg Finset.card (Finset.filter_congr fun i hi => ?_)
      have := hw.arrivals i hi
      rw [h.mem_arrivals, h.mem_handbacks]
      omega
  · have hg := h.accounts.gathering ho
    refine ⟨hg.outstanding, ?_, ?_⟩
    · rw [h.accounts.required]
      exact hg.missing hseats
    · rw [hg.arrived]
      exact congrArg Finset.card (Finset.filter_congr fun i _ => h.mem_arrivals.symm)
  · obtain ⟨hsig, -⟩ := h.isDue ht (Task.mark?_of_call? hc hr)
    obtain ⟨hb, ha, -⟩ := h.entries_of_call? ht hc hr
    exact ⟨hsig, hb, by rw [Record.arrivals_append, ha]; rfl⟩
  · obtain ⟨hsig, -⟩ := h.isDue ht (Task.mark?_of_call? hc hr)
    obtain ⟨hb, -, hh⟩ := h.entries_of_call? ht hc hr
    exact ⟨hsig, (h.accounts.working (by rw [hsig])).held, hb,
      by rw [Record.handbacks_append, hh]; rfl⟩
  · obtain ⟨i, t, hl, ht, hm, hsig, hsig'⟩ := h.of_opens hop
    exact ⟨i, t, hl, ht, Task.call?_of_arrival hm, hsig, hsig'⟩
  · obtain ⟨i, t, hl, ht, hm, hsig, hsig'⟩ := h.of_closes hcl
    obtain ⟨wait, hc⟩ := Task.call?_of_handback hm
    exact ⟨i, t, wait, hl, ht, hc, hsig, hsig'⟩

/-- One of the two tokens is out. -/
theorem accounting_duet :
    duet.IsReady ∧ 0 < duet.world.barrier.required ∧
      (duet.run duetEntry).world.barrier.outstanding = 1 ∧
      duet.Counted (duet.record duetEntry) (duet.run duetEntry) :=
  ⟨isReady_duet, by decide, by decide, accounting isReady_duet (by decide) duetEntry⟩

end System

end Lockstep
