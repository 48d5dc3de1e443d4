import Mathlib
import Lockstep.Bucket.Company

/-!
# The permits of a bucket

No permit of a bucket is lost or made up, in whatever order those who share it take their steps.

* `Settlement.Tile` : the times of some settlements follow one another without gap or overlap;
* `Company.Fires` : all that a move does to the bucket;
* `Company.Balances` : the permits in the bucket and those that were drawn, against those it started
  with and those that were added;
* `Company.conservation` : **the permits balance along every run**, and a bucket never holds more
  than its capacity.
-/

namespace Lockstep

/-! ### Settlements -/

namespace Settlement

variable {r : Rate} {z : Settlement} {zs : List Settlement} {start finish : Nat} {f g : Float}

/-- The settlements follow one another from the time `start`, when the fraction `f` of a permit was
left, to the time `finish`, when the fraction `g` is left. -/
def Tile (r : Rate) (start : Nat) (f : Float) : List Settlement → Nat → Float → Prop
  | [], finish, g => finish = start ∧ g = f
  | z :: zs, finish, g =>
    z.start = start ∧ z.fraction = f ∧ z.start ≤ z.finish ∧
      Tile r z.finish (z.accrued r).2 zs finish g

theorem Tile.snoc (h : Tile r start f zs z.start z.fraction) (hz : z.start ≤ z.finish) :
    Tile r start f (zs ++ [z]) z.finish (z.accrued r).2 := by
  induction zs generalizing start f with
  | nil => exact ⟨h.1, h.2, hz, rfl, rfl⟩
  | cons y ys ih => exact ⟨h.1, h.2.1, h.2.2.1, ih h.2.2.2⟩

/-- Their times add up to the whole time. -/
theorem Tile.sum (h : Tile r start f zs finish g) :
    start + (zs.map fun z => z.finish - z.start).sum = finish := by
  induction zs generalizing start f with
  | nil => exact h.1.symm
  | cons y ys ih =>
    obtain ⟨hstart, -, hle, htail⟩ := h
    have := ih htail
    rw [List.map_cons, List.sum_cons]
    omega

end Settlement

/-- What is kept of a settlement fits into the bucket, and has come with the time. -/
theorem Bucket.kept_settle (b : Bucket) (now : Nat) :
    (b.settle now).pending.getD 0 =
      min (accrue (.between b.last now) b.rate.perSecond b.fraction).1
        (b.capacity - b.permits) := rfl

/-! ### Moves -/

namespace Company

variable {s s' : Company} {m : Move}

/-- What a move does to the bucket: nothing, or one of the three steps of drawing a permit. -/
inductive Fires (s : Company) (m : Move) : Company → Prop where
  | quiet {s' : Company} (hb : s'.bucket = s.bucket) (hnow : s.now ≤ s'.now)
    (hlock : s'.takers.count (some .depositing) ≤ s.takers.count (some .depositing))
    (hz : s.settled m = none) (hd : s.deposited m = none) (hn : s.drawn m = none) : s.Fires m s'
  | settles {i : Nat} (hi : s.takers[i]? = some (some .settling)) (hb : s.bucket.pending = none)
    (hz : s.settled m = some ⟨s.bucket.last, s.now, s.bucket.fraction,
      (s.bucket.settle s.now).pending.getD 0⟩)
    (hd : s.deposited m = none) (hn : s.drawn m = none) :
    s.Fires m
      { s with bucket := s.bucket.settle s.now, takers := s.takers.set i (some .depositing) }
  | deposits {i : Nat} (hi : s.takers[i]? = some (some .depositing))
    (hz : s.settled m = none) (hd : s.deposited m = some (s.bucket.pending.getD 0))
    (hn : s.drawn m = none) :
    s.Fires m { s with bucket := s.bucket.deposit, takers := s.takers.set i (some .taking) }
  | draws {i : Nat} (hi : s.takers[i]? = some (some .taking)) (hb : 0 < s.bucket.permits)
    (hz : s.settled m = none) (hd : s.deposited m = none) (hn : s.drawn m = some s.now) :
    s.Fires m
      { s with
        bucket := { s.bucket with permits := s.bucket.permits - 1 }
        takers := s.takers.set i none }

theorem count_set_le (l : List (Option Draw)) (i : Nat) {d : Option Draw}
    (hd : d ≠ some .depositing) :
    (l.set i d).count (some .depositing) ≤ l.count (some .depositing) := by
  by_cases hi : i < l.length
  · have hne : (d == some .depositing) = false := beq_eq_false_iff_ne.2 hd
    rw [List.count_set hi, hne, if_neg Bool.false_ne_true]
    exact Nat.sub_le _ _
  · rw [List.set_eq_of_length_le (not_lt.1 hi)]

theorem count_set_le_succ (l : List (Option Draw)) (i : Nat) (d : Option Draw) :
    (l.set i d).count (some .depositing) ≤ l.count (some .depositing) + 1 := by
  by_cases hi : i < l.length
  · rw [List.count_set hi]
    split <;> split <;> omega
  · rw [List.set_eq_of_length_le (not_lt.1 hi)]
    exact Nat.le_succ _

theorem count_set_succ {l : List (Option Draw)} {i : Nat} {d : Option Draw}
    (hi : l[i]? = some (some .depositing)) (hd : d ≠ some .depositing) :
    (l.set i d).count (some .depositing) + 1 = l.count (some .depositing) := by
  obtain ⟨hlt, hget⟩ := List.getElem?_eq_some_iff.1 hi
  have hpos : 0 < l.count (some .depositing) :=
    List.count_pos_iff.2 (hget ▸ List.getElem_mem hlt)
  have hne : (d == some .depositing) = false := beq_eq_false_iff_ne.2 hd
  rw [List.count_set hlt, hget, hne, if_pos (beq_self_eq_true _), if_neg Bool.false_ne_true]
  omega

/-- What a step of somebody who wants a permit does, wherever that one is. -/
theorem fires_step {i : Nat} {d : Draw} (hi : s.takers[i]?.join = some d) :
    s.Fires (.step i) (s.fire (.step i)) := by
  have hdraw : s.draw? (.step i) = some d := hi
  have hget : s.takers[i]? = some (some d) := Option.join_eq_some_iff.1 hi
  simp only [fire, hi]
  cases d with
  | settling =>
    by_cases hlocked : s.bucket.pending.isSome = true
    · simp only [Draw.step, hlocked, if_true]
      refine .quiet rfl le_rfl (count_set_le _ i (by decide)) ?_ ?_ ?_
      · simp only [settled, hdraw, hlocked, if_true]
      · simp only [deposited, hdraw]
      · simp only [drawn, hdraw]
    · simp only [Draw.step, hlocked, Bool.false_eq_true, if_false]
      refine .settles hget (Option.not_isSome_iff_eq_none.1 hlocked) ?_ ?_ ?_
      · simp only [settled, hdraw, hlocked, Bool.false_eq_true, if_false]
      · simp only [deposited, hdraw]
      · simp only [drawn, hdraw]
  | depositing =>
    exact .deposits hget (by simp only [settled, hdraw]) (by simp only [deposited, hdraw])
      (by simp only [drawn, hdraw])
  | taking =>
    by_cases hempty : s.bucket.permits = 0
    · have hnone : s.bucket.take? = none := if_pos hempty
      have hrest : s.drawn (.step i) = none := by simp only [drawn, hdraw, hempty, if_true]
      cases hpause : s.bucket.pause with
      | ok time =>
        simp only [Draw.step, hnone, hpause]
        exact .quiet rfl le_rfl (count_set_le _ i (by rintro ⟨⟩))
          (by simp only [settled, hdraw]) (by simp only [deposited, hdraw]) hrest
      | error fault =>
        simp only [Draw.step, hnone, hpause]
        exact .quiet rfl le_rfl (count_set_le _ i (by rintro ⟨⟩))
          (by simp only [settled, hdraw]) (by simp only [deposited, hdraw]) hrest
    · have hsome : s.bucket.take? = some { s.bucket with permits := s.bucket.permits - 1 } :=
        if_neg hempty
      simp only [Draw.step, hsome]
      exact .draws hget (Nat.pos_of_ne_zero hempty) (by simp only [settled, hdraw])
        (by simp only [deposited, hdraw]) (by simp only [drawn, hdraw, hempty, if_false])
  | resting wake =>
    simp only [Draw.step]
    split
    all_goals
      exact .quiet rfl le_rfl (count_set_le _ i (by rintro ⟨⟩))
        (by simp only [settled, hdraw]) (by simp only [deposited, hdraw])
        (by simp only [drawn, hdraw])

theorem fires (s : Company) (m : Move) : s.Fires m (s.fire m) := by
  cases m with
  | want i =>
    simp only [fire]
    split
    · exact .quiet rfl le_rfl (count_set_le _ i (by decide)) rfl rfl rfl
    · exact .quiet rfl le_rfl le_rfl rfl rfl rfl
  | quit i => exact .quiet rfl le_rfl (count_set_le _ i (by decide)) rfl rfl rfl
  | pass time => exact .quiet rfl (Nat.le_add_right _ _) le_rfl rfl rfl rfl
  | step i =>
    cases hi : s.takers[i]?.join with
    | none =>
      have hdraw : s.draw? (.step i) = none := hi
      simp only [fire, hi]
      exact .quiet rfl le_rfl le_rfl (by rw [settled, hdraw]) (by rw [deposited, hdraw])
        (by rw [drawn, hdraw])
    | some d => exact fires_step hi

theorem run_append (s : Company) (ms ms' : List Move) : s.run (ms ++ ms') = (s.run ms).run ms' :=
  List.foldl_append

theorem run_snoc (s : Company) (ms : List Move) (m : Move) :
    s.run (ms ++ [m]) = (s.run ms).fire m := run_append s ms [m]

theorem along_append {α : Type} (f : Company → Move → Option α) (s : Company)
    (ms ms' : List Move) : s.along f (ms ++ ms') = s.along f ms ++ (s.run ms).along f ms' := by
  induction ms generalizing s with
  | nil => rfl
  | cons m ms ih =>
    simp only [List.cons_append, along, ih, List.append_assoc]
    rfl

theorem along_snoc {α : Type} (f : Company → Move → Option α) (s : Company) (ms : List Move)
    (m : Move) : s.along f (ms ++ [m]) = s.along f ms ++ (f (s.run ms) m).toList := by
  rw [along_append, along, along, List.append_nil]

/-- The permits of a bucket for a rate balance: those that were drawn and those that are in the
bucket are those it started with and those that were added, and the settlements account for the
latter. -/
structure Balances (r : Rate) (created : Nat) (s : Company) (zs : List Settlement) (ds : List Nat)
    (draws : Nat) : Prop where
  rate : s.bucket.rate = r
  /-- There is room for what is about to be deposited. -/
  room : s.bucket.permits + s.bucket.pending.getD 0 ≤ Bucket.capacityOf r
  permits : draws + s.bucket.permits = Bucket.capacityOf r + ds.sum
  deposits : ds ++ s.bucket.pending.toList = zs.map Settlement.kept
  kept : ∀ z ∈ zs, z.kept ≤ (z.accrued r).1
  tile : Settlement.Tile r created 0.0 zs s.bucket.last s.bucket.fraction
  last : s.bucket.last ≤ s.now
  /-- Only one at a time deposits permits, and only where there are some to be deposited. -/
  lock : s.takers.count (some .depositing) ≤ s.bucket.pending.isSome.toNat

variable {r : Rate} {created draws : Nat} {zs : List Settlement} {ds : List Nat}

theorem balances_start (r : Rate) (now n : Nat) : (start r now n).Balances r now [] [] 0 where
  rate := rfl
  room := le_rfl
  permits := Nat.zero_add _
  deposits := rfl
  kept := by rintro z ⟨⟩
  tile := ⟨rfl, rfl⟩
  last := le_rfl
  lock := by
    have hnobody : (List.replicate n none).count (some Draw.depositing) = 0 :=
      List.count_eq_zero_of_not_mem (by simp)
    exact hnobody.le

/-- The bucket is settled for the time since it was last settled. -/
theorem Balances.settle (h : s.Balances r created zs ds draws) (i : Nat)
    (hb : s.bucket.pending = none) :
    Balances r created
      { s with bucket := s.bucket.settle s.now, takers := s.takers.set i (some .depositing) }
      (zs ++ [⟨s.bucket.last, s.now, s.bucket.fraction, (s.bucket.settle s.now).pending.getD 0⟩])
      ds draws := by
  have hcapacity : s.bucket.capacity = Bucket.capacityOf r := congrArg Bucket.capacityOf h.rate
  have hroom := h.room
  have hdeposits := h.deposits
  have hlock := h.lock
  simp only [hb, Option.getD_none, Option.toList_none, Option.isSome_none, Bool.toNat_false,
    List.append_nil] at hroom hdeposits hlock
  refine ⟨h.rate, ?_, h.permits, ?_, ?_, ?_, le_rfl, ?_⟩
  · rw [Bucket.kept_settle, hcapacity]
    exact (Nat.add_le_add_left (min_le_right _ _) _).trans_eq (Nat.add_sub_cancel' hroom)
  · rw [List.map_append, ← hdeposits]
    rfl
  · intro z hmem
    rcases List.mem_append.1 hmem with hmem | hmem
    · exact h.kept z hmem
    · obtain rfl := List.mem_singleton.1 hmem
      rw [Settlement.accrued, ← h.rate]
      exact min_le_left _ _
  · have htile := Settlement.Tile.snoc
      (z := ⟨s.bucket.last, s.now, s.bucket.fraction, (s.bucket.settle s.now).pending.getD 0⟩)
      h.tile h.last
    rw [Settlement.accrued, ← h.rate] at htile
    exact h.rate ▸ htile
  · exact (count_set_le_succ _ i _).trans (Nat.succ_le_succ hlock)

/-- What was kept of a settlement is deposited. -/
theorem Balances.deposit (h : s.Balances r created zs ds draws) {i : Nat}
    (hi : s.takers[i]? = some (some .depositing)) :
    Balances r created
      { s with bucket := s.bucket.deposit, takers := s.takers.set i (some .taking) }
      zs (ds ++ [s.bucket.pending.getD 0]) draws := by
  have hlock := h.lock
  have hmem := count_set_succ hi (d := some .taking) (by decide)
  obtain ⟨k, hk⟩ : ∃ k, s.bucket.pending = some k := by
    rw [← Option.isSome_iff_exists]
    by_contra hnone
    rw [Bool.not_eq_true] at hnone
    rw [hnone, Bool.toNat_false] at hlock
    omega
  have hroom := h.room
  have hpermits := h.permits
  have hdeposits := h.deposits
  simp only [hk, Option.getD_some, Option.toList_some, Option.isSome_some, Bool.toNat_true]
    at hroom hdeposits hlock
  rw [hk, Option.getD_some]
  refine ⟨h.rate, ?_, ?_, ?_, h.kept, h.tile, h.last, ?_⟩
  · simpa only [Bucket.deposit, hk, Option.getD_some, Option.getD_none, Nat.add_zero] using hroom
  · simp only [Bucket.deposit, hk, Option.getD_some, List.sum_append, List.sum_singleton]
    omega
  · simpa only [Bucket.deposit, Option.toList_none, List.append_nil] using hdeposits
  · simp only [Bucket.deposit, Option.isSome_none, Bool.toNat_false]
    omega

/-- A permit is drawn. -/
theorem Balances.draw (h : s.Balances r created zs ds draws) (i : Nat)
    (hb : 0 < s.bucket.permits) :
    Balances r created
      { s with
        bucket := { s.bucket with permits := s.bucket.permits - 1 }
        takers := s.takers.set i none }
      zs ds (draws + 1) := by
  have hroom := h.room
  have hpermits := h.permits
  refine ⟨h.rate, ?_, ?_, h.deposits, h.kept, h.tile, h.last,
    (count_set_le _ i (by decide)).trans h.lock⟩
  · simp only
    omega
  · simp only
    omega

/-- **A move keeps the balance.** -/
theorem Balances.fire (h : s.Balances r created zs ds draws) (m : Move) :
    (s.fire m).Balances r created (zs ++ (s.settled m).toList) (ds ++ (s.deposited m).toList)
      (draws + (s.drawn m).toList.length) := by
  have hmove := s.fires m
  generalize s.fire m = s' at hmove
  cases hmove with
  | quiet hb hnow hlock hz hd hn =>
    rw [hz, hd, hn]
    simp only [Option.toList_none, List.append_nil, List.length_nil, Nat.add_zero]
    exact ⟨hb ▸ h.rate, hb ▸ h.room, hb ▸ h.permits, hb ▸ h.deposits, h.kept, hb ▸ h.tile,
      hb ▸ h.last.trans hnow, hlock.trans (hb ▸ h.lock)⟩
  | @settles i hi hb hz hd hn =>
    rw [hz, hd, hn, Option.toList_none, List.append_nil]
    exact h.settle i hb
  | @deposits i hi hz hd hn =>
    rw [hz, hd, hn, Option.toList_none, List.append_nil]
    exact h.deposit hi
  | @draws i hi hb hz hd hn =>
    rw [hz, hd, hn]
    simp only [Option.toList_none, List.append_nil]
    exact h.draw i hb

theorem balances_run (r : Rate) (created n : Nat) (ms : List Move) :
    ((start r created n).run ms).Balances r created ((start r created n).along settled ms)
      ((start r created n).along deposited ms) ((start r created n).along drawn ms).length := by
  induction ms using List.reverseRecOn with
  | nil => exact balances_start r created n
  | append_singleton ms m ih =>
    simp only [run_snoc, along_snoc, List.length_append]
    exact ih.fire m

/-- **The permits of a bucket balance along every run.**  There are never more of them than the
bucket holds.  Those that were drawn are those it started with and those that were added since, less
those that are in it.  What is added comes from a settlement, which keeps no more than has come with
its time; and the times of the settlements follow one another from the beginning to the last one.
So no more permits are drawn than the bucket holds before any are added. -/
theorem conservation (r : Rate) (created n : Nat) (ms : List Move) :
    ((start r created n).run ms).bucket.permits +
        ((start r created n).run ms).bucket.pending.getD 0 ≤ min r.count (2 ^ 61 - 1) ∧
      ((start r created n).along drawn ms).length + ((start r created n).run ms).bucket.permits =
        min r.count (2 ^ 61 - 1) + ((start r created n).along deposited ms).sum ∧
      (start r created n).along deposited ms ++
          ((start r created n).run ms).bucket.pending.toList =
        ((start r created n).along settled ms).map Settlement.kept ∧
      (∀ z ∈ (start r created n).along settled ms, z.kept ≤ (z.accrued r).1) ∧
      Settlement.Tile r created 0.0 ((start r created n).along settled ms)
        ((start r created n).run ms).bucket.last ((start r created n).run ms).bucket.fraction ∧
      ((∀ d ∈ (start r created n).along deposited ms, d = 0) →
        ((start r created n).along drawn ms).length ≤ min r.count (2 ^ 61 - 1)) := by
  have h := balances_run r created n ms
  refine ⟨h.room, h.permits, h.deposits, h.kept, h.tile, fun hnone => ?_⟩
  have hpermits := h.permits
  rw [List.sum_eq_zero hnone] at hpermits
  exact (Nat.le_add_right _ _).trans_eq hpermits

/-- Three want a permit.  Two of them empty the bucket, and the third waits for a second, after which
the first wants another one. -/
def refilled : List Move :=
  [0, 1, 2].flatMap (fun i => .want i :: .replicate 3 (.step i)) ++ .pass 1000000000 ::
    .replicate 5 (.step 2) ++ .want 0 :: .replicate 3 (.step 0)

/-- With two permits a second all four are drawn: two that the bucket has held from the beginning,
and two that have come with the second. -/
theorem conservation_refilled :
    (start ⟨2, .ofSecs 1⟩ 0 3).along drawn refilled = [0, 0, 1000000000, 1000000000] ∧
      (start ⟨2, .ofSecs 1⟩ 0 3).along deposited refilled = [0, 0, 0, 2, 0] ∧
      ((start ⟨2, .ofSecs 1⟩ 0 3).along settled refilled).map Settlement.kept = [0, 0, 0, 2, 0] ∧
      ((start ⟨2, .ofSecs 1⟩ 0 3).run refilled).bucket.permits = 0 := by
  have hdrawn : (start ⟨2, .ofSecs 1⟩ 0 3).along drawn refilled =
      [0, 0, 1000000000, 1000000000] := by decide +kernel
  have hdeposited : (start ⟨2, .ofSecs 1⟩ 0 3).along deposited refilled = [0, 0, 0, 2, 0] := by
    decide +kernel
  have hpending : ((start ⟨2, .ofSecs 1⟩ 0 3).run refilled).bucket.pending = none := by
    decide +kernel
  obtain ⟨-, hbalance, hkept, -⟩ := conservation ⟨2, .ofSecs 1⟩ 0 3 refilled
  rw [hdrawn, hdeposited] at hbalance
  rw [hdeposited, hpending] at hkept
  exact ⟨hdrawn, hdeposited, hkept.symm, by simpa using hbalance⟩

end Company

end Lockstep
