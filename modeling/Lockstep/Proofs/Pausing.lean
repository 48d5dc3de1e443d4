import Lockstep.Proofs.Conservation
import Lockstep.Proofs.Seconds

/-!
# Pauses between two attempts

Whoever finds no permit in a bucket waits for as long as it takes one to come along, and tries
again.

* `Rate.Sound` : the counts and the intervals of rates that are read;
* `Company.Waits` : somebody waits until a later time, or it is later;
* `Company.waits_of_misses` : **whoever finds no permit waits until a later time**;
* `Company.pairwise_missed` : nobody finds no permit twice at one time;
* `Company.Stuck.spins` : where the pause is over at once, there is no end to the attempts;
* `Company.pauses_of_read` : **which rates make for pauses**, and which for none at all.
-/

namespace Lockstep

open Decimal

/-! ### Rates that are read -/

namespace Rate

/-- The rates that are read have a positive count that is a word, and a positive interval. -/
structure Sound (r : Rate) : Prop where
  count : 0 < r.count
  word : r.count < wordLimit
  interval : 0 < r.interval.nanos

theorem lt_of_readSigned? {cs : List Char} {n : Nat} (h : Text.Numeral.readSigned? cs = some n) :
    n < wordLimit := by
  unfold Text.Numeral.readSigned? at h
  split at h <;> exact (Text.Numeral.read?_eq_some_iff.1 h).2.2.2

theorem Sound.of_read? {text : List Char} {r : Rate} (h : Rate.read? text = some r) : r.Sound := by
  simp only [Rate.read?, Option.bind_eq_bind, Option.bind_eq_some_iff] at h
  obtain ⟨⟨left, right⟩, -, count, hcount, interval, -, hr⟩ := h
  split at hr
  · cases hr
  · next hpos =>
    cases hr
    rw [not_or] at hpos
    exact ⟨Nat.pos_of_ne_zero hpos.1, lt_of_readSigned? hcount, Nat.pos_of_ne_zero hpos.2⟩

end Rate

/-! ### Waiting -/

namespace Company

variable {s : Company} {i t : Nat} {m : Move}

/-- Somebody waits until after the time `t`, or it is after that. -/
def Waits (s : Company) (i t : Nat) : Prop :=
  t < s.now ∨ ∃ wake, t < wake ∧ s.takers[i]? = some (some (.resting wake))

/-- When this one finds no permit in the bucket. -/
def missed (i : Nat) (s : Company) (m : Move) : Option Nat :=
  if m = .step i ∧ s.misses m then some s.now else none

theorem now_le_fire (s : Company) (m : Move) : s.now ≤ (s.fire m).now := by
  have hmove := s.fires m
  generalize s.fire m = s' at hmove ⊢
  cases hmove with
  | quiet _ hnow => exact hnow
  | settles | deposits | draws => exact le_rfl

theorem pause_fire (s : Company) (m : Move) : (s.fire m).bucket.pause = s.bucket.pause := by
  have hmove := s.fires m
  generalize s.fire m = s' at hmove ⊢
  cases hmove with
  | quiet hb => rw [hb]
  | settles | deposits | draws => rfl

theorem taking_of_misses (h : s.misses (.step i) = true) :
    s.takers[i]? = some (some .taking) ∧ s.bucket.permits = 0 := by
  simp only [misses, Bool.and_eq_true, decide_eq_true_eq] at h
  exact ⟨Option.join_eq_some_iff.1 h.1, h.2⟩

/-- Whoever does not wait any more is at a later time. -/
theorem Waits.lt {d : Draw} (h : s.Waits i t) (hd : s.takers[i]? = some (some d))
    (hne : ∀ wake, d ≠ .resting wake) : t < s.now := by
  rcases h with hlt | ⟨wake, -, hrest⟩
  · exact hlt
  · rw [hd, Option.some_inj, Option.some_inj] at hrest
    exact absurd hrest (hne wake)

/-- **Whoever finds no permit waits until a later time**, when the pause is some time. -/
theorem waits_of_misses {d : Duration} (h : s.misses (.step i) = true)
    (hpause : s.bucket.pause = .ok d) (hd : 0 < d.nanos) : (s.fire (.step i)).Waits i s.now := by
  obtain ⟨hi, hempty⟩ := taking_of_misses h
  obtain ⟨hlt, -⟩ := List.getElem?_eq_some_iff.1 hi
  have hnone : s.bucket.take? = none := if_pos hempty
  refine .inr ⟨wakeTime s.now d, lt_wakeTime s.now hd, ?_⟩
  simp only [fire, hi, Option.join_some, Draw.step, hnone, hpause, Draw.Progress.next?]
  exact List.getElem?_set_self hlt

/-- A move does not end the waiting but at a later time. -/
theorem Waits.fire (h : s.Waits i t) (hm : m ≠ .quit i) : (s.fire m).Waits i t := by
  rcases h with hlt | ⟨wake, hwake, hi⟩
  · exact .inl (hlt.trans_le (s.now_le_fire m))
  cases m with
  | want j =>
    simp only [Company.fire]
    split
    · next hj =>
      have hne : j ≠ i := by
        rintro rfl
        rw [hi] at hj
        cases hj
      exact .inr ⟨wake, hwake, (List.getElem?_set_ne hne).trans hi⟩
    · exact .inr ⟨wake, hwake, hi⟩
  | step j =>
    by_cases hj : j = i
    · subst hj
      simp only [Company.fire, hi, Option.join_some, Draw.step]
      split
      · next hdue => exact .inl (hwake.trans_le hdue)
      · obtain ⟨hlt, -⟩ := List.getElem?_eq_some_iff.1 hi
        exact .inr ⟨wake, hwake, List.getElem?_set_self hlt⟩
    · simp only [Company.fire]
      split
      · exact .inr ⟨wake, hwake, hi⟩
      · exact .inr ⟨wake, hwake, (List.getElem?_set_ne hj).trans hi⟩
  | quit j =>
    have hne : j ≠ i := fun hj => hm (hj ▸ rfl)
    exact .inr ⟨wake, hwake, (List.getElem?_set_ne hne).trans hi⟩
  | pass time => exact .inr ⟨wake, hwake, hi⟩

theorem Waits.run (h : s.Waits i t) {ms : List Move} (hms : .quit i ∉ ms) :
    (s.run ms).Waits i t := by
  induction ms using List.reverseRecOn with
  | nil => exact h
  | append_singleton ms m ih =>
    rw [List.mem_append, List.mem_singleton, not_or] at hms
    rw [run_snoc]
    exact (ih hms.1).fire (Ne.symm hms.2)

/-- Whoever waits finds no permit again but at a later time. -/
theorem Waits.lt_missed (h : s.Waits i t) {ms : List Move} (hms : .quit i ∉ ms) :
    ∀ x ∈ s.along (missed i) ms, t < x := by
  induction ms generalizing s with
  | nil => rintro x ⟨⟩
  | cons m ms ih =>
    rw [List.mem_cons, not_or] at hms
    intro x hx
    rw [along, List.mem_append] at hx
    rcases hx with hx | hx
    · rw [Option.mem_toList, missed] at hx
      split at hx
      · next hm =>
        obtain ⟨rfl, hmiss⟩ := hm
        cases hx
        exact h.lt (taking_of_misses hmiss).1 (by rintro wake ⟨⟩)
      · cases hx
    · exact ih (h.fire (Ne.symm hms.1)) hms.2 x hx

/-- **Nobody finds no permit twice at one time**, when the pause is some time. -/
theorem pairwise_missed {d : Duration} (hpause : s.bucket.pause = .ok d) (hd : 0 < d.nanos)
    {ms : List Move} (hms : .quit i ∉ ms) : (s.along (missed i) ms).Pairwise (· < ·) := by
  induction ms generalizing s with
  | nil => exact List.Pairwise.nil
  | cons m ms ih =>
    rw [List.mem_cons, not_or] at hms
    have htail := ih ((s.pause_fire m).trans hpause) hms.2
    rw [along, missed]
    split
    · next hm =>
      obtain ⟨rfl, hmiss⟩ := hm
      have hlater := (waits_of_misses hmiss hpause hd).lt_missed hms.2
      exact List.pairwise_cons.2 ⟨hlater, htail⟩
    · exact htail

/-! ### Trying again at once -/

/-- An attempt of somebody who has found no permit: to wait, and to settle the bucket again. -/
def attempt (i : Nat) : List Move := List.replicate 4 (.step i)

/-- Somebody finds no permit in a bucket that has just been settled, and the pause is over at once.
No part of a permit comes with no time. -/
structure Stuck (s : Company) (i : Nat) (d : Duration) : Prop where
  taking : s.takers[i]? = some (some .taking)
  empty : s.bucket.permits = 0
  pending : s.bucket.pending = none
  last : s.bucket.last = s.now
  pause : s.bucket.pause = .ok d
  wake : wakeTime s.now d ≤ s.now
  nothing : accrue (.between s.now s.now) s.bucket.rate.perSecond s.bucket.fraction =
    (0, s.bucket.fraction)

/-- The company in which this one is elsewhere, and the bucket is another one. -/
def move (s : Company) (i : Nat) (b : Bucket) (d : Draw) : Company :=
  { s with bucket := b, takers := s.takers.set i (some d) }

section

variable {b b' : Bucket} {p p' : Draw}

theorem fire_move (hi : i < s.takers.length) (hstep : p.step s.now b = (b', .moved p')) :
    (s.move i b p).fire (.step i) = s.move i b' p' := by
  simp only [move, fire, List.getElem?_set_self hi, Option.join_some, hstep, Draw.Progress.next?,
    List.set_set]

theorem missed_move (hi : i < s.takers.length) :
    missed i (s.move i b p) (.step i) =
      if p = .taking ∧ b.permits = 0 then some s.now else none := by
  refine if_congr ?_ rfl rfl
  simp only [misses, draw?, move, List.getElem?_set_self hi, Option.join_some, true_and,
    Option.some_inj, Bool.and_eq_true, decide_eq_true_eq]
  exact and_congr_right fun _ => decide_eq_true_iff

end

/-- **Nothing has changed after such an attempt.** -/
theorem Stuck.attempt {d : Duration} (h : s.Stuck i d) :
    s.run (attempt i) = s ∧ s.along (missed i) (attempt i) = [s.now] := by
  obtain ⟨hlt, hget⟩ := List.getElem?_eq_some_iff.1 h.taking
  have hself : s.move i s.bucket .taking = s := by
    rw [move, ← hget, List.set_getElem_self]
  have hnone : s.bucket.take? = none := if_pos h.empty
  -- the four steps of the attempt
  have hrest : Draw.step s.now s.bucket .taking =
      (s.bucket, .moved (.resting (wakeTime s.now d))) := by
    simp only [Draw.step, hnone, h.pause]
  have hwoken : Draw.step s.now s.bucket (.resting (wakeTime s.now d)) =
      (s.bucket, .moved .settling) := if_pos h.wake
  have hsettle : Draw.step s.now s.bucket .settling =
      (s.bucket.settle s.now, .moved .depositing) := by
    rw [Draw.step, h.pending]
    rfl
  have hdeposit : Draw.step s.now (s.bucket.settle s.now) .depositing =
      (s.bucket, .moved .taking) := by
    simp only [Draw.step, Bucket.settle, Bucket.deposit, h.last, h.nothing, Nat.zero_min,
      Option.getD_some, Nat.add_zero]
    rw [← h.last, ← h.pending]
  rw [← hself]
  generalize s.bucket.settle s.now = settled at hsettle hdeposit
  constructor
  · simp only [Company.attempt, run, List.replicate, List.foldl_cons, List.foldl_nil]
    rw [fire_move hlt hrest, fire_move hlt hwoken, fire_move hlt hsettle, fire_move hlt hdeposit]
  · simp only [Company.attempt, List.replicate, along]
    rw [missed_move hlt, fire_move hlt hrest, missed_move hlt, fire_move hlt hwoken,
      missed_move hlt, fire_move hlt hsettle, missed_move hlt]
    simp only [h.empty, and_self, if_true, reduceCtorEq, false_and, if_false, Option.toList_some,
      Option.toList_none, List.append_nil]
    rfl

/-- **There is no end to such attempts**, and no time passes. -/
theorem Stuck.spins {d : Duration} (h : s.Stuck i d) (k : Nat) :
    s.along (missed i) (List.replicate k (Company.attempt i)).flatten = List.replicate k s.now := by
  obtain ⟨hrun, halong⟩ := h.attempt
  induction k with
  | zero => rfl
  | succ k ih =>
    rw [List.replicate_succ, List.flatten_cons, along_append, hrun, halong, ih]
    rfl

/-! ### Rates -/

/-- **Which rates make for pauses after which it is later.**  The pause of a rate that is read
cannot be computed for one permit in the longest intervals, and for these only.  It is some time
when there are less than two permits in a nanosecond, and none when there are more, up to the error
that comes with floats.  When it is some time, whoever finds no permit tries again at a later
time. -/
theorem pauses_of_read {text : List Char} {r : Rate} (hr : Rate.read? text = some r) :
    (∀ b : Bucket, b.rate = r → ∀ fault, b.pause = .error fault ↔
      fault = .tooLong ∧ r.count = 1 ∧ 2 ^ 64 - 2 ^ 10 ≤ r.interval.secs) ∧
    ∀ b : Bucket, b.rate = r → ∀ d, b.pause = .ok d →
      ((2 ^ 49 + 1) * r.count < 2 ^ 50 * r.interval.nanos → 0 < d.nanos) ∧
      (2 ^ 50 * r.interval.nanos ≤ (2 ^ 49 - 1) * r.count → d.nanos = 0) ∧
      (0 < d.nanos → ∀ s : Company, s.bucket.rate = r → ∀ i ms, .quit i ∉ ms →
        (s.misses (.step i) = true → ((s.fire (.step i)).run ms).Waits i s.now) ∧
        (s.along (missed i) ms).Pairwise (· < ·)) := by
  have hsound := Rate.Sound.of_read? hr
  constructor
  · rintro b rfl fault
    exact Duration.divide?_eq_error_iff hsound.interval hsound.count hsound.word
  · rintro b rfl d hd
    refine ⟨Duration.divide?_pos hsound.interval hsound.count hsound.word hd,
      Duration.divide?_zero hsound.interval hsound.count hsound.word hd, ?_⟩
    intro hpos s hrate i ms hms
    have hpause : s.bucket.pause = .ok d := by rwa [Bucket.pause, hrate]
    exact ⟨fun hmiss => (waits_of_misses hmiss hpause hpos).run hms,
      pairwise_missed hpause hpos hms⟩

/-- Somebody draws some permits, and settles the bucket for one more. -/
def drawing (n : Nat) : List Move :=
  (List.replicate n [Move.want 0, .step 0, .step 0, .step 0]).flatten ++ [.want 0, .step 0, .step 0]

/-- After two permits of a bucket for two permits a second, there is half a second to wait. -/
theorem pauses_of_read_two :
    ∃ r d, Rate.read? "2 per 1 second".toList = some r ∧
      (Bucket.full r 0).pause = .ok d ∧ 0 < d.nanos ∧
      ((start r 0 1).run (drawing 2)).misses (.step 0) = true ∧
      ((((start r 0 1).run (drawing 2)).fire (.step 0)).run
        [.pass 1000000, .step 0]).Waits 0 0 := by
  have hr : Rate.read? "2 per 1 second".toList = some ⟨2, .ofSecs 1⟩ := by decide +kernel
  have hpause : (Bucket.full ⟨2, .ofSecs 1⟩ 0).pause = .ok (.ofNanos 500000000) := by
    decide +kernel
  have hmiss : ((start ⟨2, .ofSecs 1⟩ 0 1).run (drawing 2)).misses (.step 0) = true := by
    decide +kernel
  obtain ⟨hpos, -, hlater⟩ := (pauses_of_read hr).2 _ rfl _ hpause
  have hsome := hpos (by decide +kernel)
  have hrate := (balances_run ⟨2, .ofSecs 1⟩ 0 1 (drawing 2)).rate
  have hwaits := (hlater hsome _ hrate 0 [.pass 1000000, .step 0] (by decide)).1 hmiss
  have hnow : ((start ⟨2, .ofSecs 1⟩ 0 1).run (drawing 2)).now = 0 := by decide +kernel
  rw [hnow] at hwaits
  exact ⟨_, _, hr, hpause, hsome, hmiss, hwaits⟩

/-- **A pause that cannot be computed, and attempts without end at one time**: both rates are
read. -/
theorem breaks_and_spins :
    (∃ r, Rate.read? "1 per 18446744073709550592 s".toList = some r ∧
      ((start r 0 1).run (drawing 1)).misses (.step 0) = true ∧
      ((start r 0 1).run (drawing 1)).bucket.pause = .error .tooLong) ∧
    ∃ r, Rate.read? "3 per 1 ns".toList = some r ∧ ∀ k,
      ((start r 0 1).run (drawing 3)).along (missed 0)
        (List.replicate k (Company.attempt 0)).flatten = List.replicate k 0 := by
  constructor
  · refine ⟨⟨1, .ofSecs 18446744073709550592⟩, ?_, ?_, ?_⟩ <;> decide +kernel
  · refine ⟨⟨3, .ofNanos 1⟩, by decide +kernel, ?_⟩
    have hstuck : ((start ⟨3, .ofNanos 1⟩ 0 1).run (drawing 3)).Stuck 0 .zero := by
      constructor <;> decide +kernel
    have hnow : ((start ⟨3, .ofNanos 1⟩ 0 1).run (drawing 3)).now = 0 := by decide +kernel
    intro k
    rw [hstuck.spins, hnow]

end Company

end Lockstep
