import Lockstep.Proofs.Scaling

/-!
# Shortest decimals

The shortest decimal of a float is found on a grid of seventeen digits at the latest.

* `holds_iff_near` : the interval of a float consists of what is rounded to it;
* `leading_spec` : the exponent of the first digit;
* `nearest?_seventeen` : **seventeen digits tell all floats apart**;
* `shortest_spec`, `exponent_bounds` : the shortest decimal is rounded to the float, and neither its
  digits nor its exponent are large.
-/

namespace Lockstep.Decimal

/-! ### The interval of a float -/

/-- Two numbers are compared by natural multiples of them. -/
theorem cast_scaled (a : Nat) (e p : Int) :
    ((a * 2 ^ e.toNat * 10 ^ (-p).toNat : Nat) : ℚ) =
        a * 2 ^ e * (2 ^ (-e).toNat * 10 ^ (-p).toNat) ∧
      ((a * 10 ^ p.toNat * (4 * 2 ^ (-e).toNat) : Nat) : ℚ) =
        4 * (a * 10 ^ p) * (2 ^ (-e).toNat * 10 ^ (-p).toNat) := by
  rw [zpow_eq_div two_ne_zero, zpow_eq_div (by norm_num : (10 : ℚ) ≠ 0)]
  push_cast
  constructor <;> field_simp

/-- The interval of a float has the ends of what is rounded to it. -/
theorem interval_eq {m : Nat} {e : Int} (h : IsNormal m e) :
    ∃ g : Nat, (g : ℚ) = gapBelow m ∧ g ≤ 4 * m ∧ interval m e =
      ⟨(4 * m - g) * 2 ^ e.toNat, 4 * m * 2 ^ e.toNat, (4 * m + 2) * 2 ^ e.toNat,
        4 * 2 ^ (-e).toNat, decide (m % 2 = 0)⟩ := by
  have hlow := h.low
  refine ⟨if m = 2 ^ 52 ∧ e ≠ -1074 then 1 else 2, ?_, by split <;> omega, rfl⟩
  have he : e ≠ -1074 := h.above.ne'
  unfold gapBelow
  by_cases hm : m = 2 ^ 52 <;> simp [hm, he]

/-- **A decimal in the interval of a float is rounded to it**, and no other is. -/
theorem holds_iff_near {m : Nat} {e : Int} (h : IsNormal m e) (k : Nat) (p : Int) :
    (interval m e).holds k p = true ↔ Near m e (k * 10 ^ p) := by
  obtain ⟨g, hg, hle, hinterval⟩ := interval_eq h
  have hlow : (4 * m - g : Nat) = (4 * m - gapBelow m : ℚ) := by
    rw [Nat.cast_sub hle, hg]
    push_cast
    rfl
  have hhigh : ((4 * m + 2 : Nat) : ℚ) = 4 * m + 2 := by push_cast; rfl
  have hunit : (0 : ℚ) < 2 ^ (-e).toNat * 10 ^ (-p).toNat := by positivity
  obtain ⟨hscale, hpoint⟩ : _ ∧ _ :=
    ⟨fun a => (cast_scaled a e p).1, (cast_scaled k e p).2⟩
  rw [hinterval]
  by_cases heven : m % 2 = 0
  · simp only [Interval.holds, Nat.pow_eq, heven, decide_true, if_true, Bool.and_eq_true,
      decide_eq_true_eq]
    rw [← Nat.cast_le (α := ℚ), ← Nat.cast_le (α := ℚ), hscale, hscale, hpoint,
      mul_le_mul_iff_left₀ hunit, mul_le_mul_iff_left₀ hunit, hlow, hhigh]
    exact ⟨fun ⟨h, h'⟩ => ⟨h, h', .inl heven⟩, fun h => ⟨h.low, h.high⟩⟩
  · simp only [Interval.holds, Nat.pow_eq, heven, decide_false, Bool.false_eq_true, if_false,
      Bool.and_eq_true, decide_eq_true_eq]
    rw [← Nat.cast_lt (α := ℚ), ← Nat.cast_lt (α := ℚ), hscale, hscale, hpoint,
      mul_lt_mul_iff_left₀ hunit, mul_lt_mul_iff_left₀ hunit, hlow, hhigh]
    exact ⟨fun h => ⟨h.1.le, h.2.le, .inr h⟩, fun h => h.inside.resolve_left heven⟩

/-! ### The points of a grid -/

/-- The float is in the middle of its interval. -/
theorem mid_div_den (m : Nat) (e : Int) :
    ((interval m e).mid : ℚ) / (interval m e).den = m * 2 ^ e := by
  rw [zpow_eq_div two_ne_zero]
  simp only [interval, Nat.pow_eq]
  push_cast
  field_simp

theorem den_pos (m : Nat) (e : Int) : 0 < (interval m e).den :=
  Nat.mul_pos (by decide) (Nat.pow_pos two_pos)

/-- The float is between two neighbours of every grid. -/
theorem below_le (m : Nat) (e p : Int) :
    ((interval m e).below p : ℚ) * 10 ^ p ≤ m * 2 ^ e ∧
      (m : ℚ) * 2 ^ e < ((interval m e).below p + 1) * 10 ^ p := by
  have hden : 0 < (interval m e).den * 10 ^ p.toNat :=
    Nat.mul_pos (den_pos m e) (Nat.pow_pos (by decide))
  have hdenpos : (0 : ℚ) < (interval m e).den := by exact_mod_cast den_pos m e
  have hpow : (0 : ℚ) < 10 ^ p := by positivity
  have hvalue : (m : ℚ) * 2 ^ e =
      ((interval m e).mid * 10 ^ (-p).toNat : Nat) / ((interval m e).den * 10 ^ p.toNat : Nat) *
        10 ^ p := by
    rw [← mid_div_den, zpow_eq_div (by norm_num : (10 : ℚ) ≠ 0) p]
    push_cast
    field_simp
  have hfloor : (interval m e).below p =
      (interval m e).mid * 10 ^ (-p).toNat / ((interval m e).den * 10 ^ p.toNat) := rfl
  rw [hvalue, hfloor]
  constructor
  · refine mul_le_mul_of_nonneg_right ?_ hpow.le
    rw [le_div_iff₀ (by exact_mod_cast hden)]
    exact_mod_cast Nat.div_mul_le_self _ _
  · refine mul_lt_mul_of_pos_right ?_ hpow
    rw [div_lt_iff₀ (by exact_mod_cast hden)]
    exact_mod_cast Nat.lt_mul_of_div_lt (Nat.lt_succ_self _) hden

/-- What is taken from a grid is a neighbour of the float, and lies in its interval. -/
theorem nearest?_eq_some {i : Interval} {tie : Tie} {p : Int} {k : Nat}
    (h : i.nearest? tie p = some k) :
    i.holds k p = true ∧ (k = i.below p ∨ k = i.below p + 1) := by
  have hchoose (k : Nat) : tie.choose k = k ∨ tie.choose k = k + 1 := by
    cases tie with
    | even => exact ite_eq_or_eq ..
    | up => exact .inr rfl
  simp only [Interval.nearest?] at h
  cases hk : i.holds (i.below p) p <;> cases hk' : i.holds (i.below p + 1) p <;>
    simp only [hk, hk'] at h
  · cases h
  · cases h
    exact ⟨hk', .inr rfl⟩
  · cases h
    exact ⟨hk, .inl rfl⟩
  · -- both neighbours lie in the interval
    have hboth : k = i.below p ∨ k = i.below p + 1 := by
      split at h
      · exact .inl (Option.some.inj h).symm
      · split at h
        · exact .inr (Option.some.inj h).symm
        · exact Option.some.inj h ▸ hchoose _
    exact ⟨by rcases hboth with rfl | rfl <;> assumption, hboth⟩

theorem nearest?_ne_none {i : Interval} (tie : Tie) {p : Int} {k : Nat}
    (h : i.holds k p = true) (hk : k = i.below p ∨ k = i.below p + 1) :
    i.nearest? tie p ≠ none := by
  simp only [Interval.nearest?]
  rcases hk with rfl | rfl
  · cases hnext : i.holds (i.below p + 1) p <;> simp only [h] <;> repeat' split
    all_goals simp
  · cases hbelow : i.holds (i.below p) p <;> simp only [h] <;> repeat' split
    all_goals simp

/-! ### The first digit -/

theorem leadingZeros_spec {num den fuel : Nat} (h : den ≤ num * 10 ^ fuel) :
    den ≤ num * 10 ^ leadingZeros num den fuel ∧
      (0 < leadingZeros num den fuel → num * 10 ^ (leadingZeros num den fuel - 1) < den) := by
  induction fuel generalizing num with
  | zero => exact ⟨h, fun hpos => absurd hpos (lt_irrefl 0)⟩
  | succ fuel ih =>
    rw [leadingZeros]
    split
    · next hle => exact ⟨by simpa using hle, fun hpos => absurd hpos (lt_irrefl 0)⟩
    · next hlt =>
      have hten : den ≤ num * 10 * 10 ^ fuel := by rwa [pow_succ', ← mul_assoc] at h
      obtain ⟨hnext, hlast⟩ := ih hten
      refine ⟨by rwa [pow_succ', ← mul_assoc], fun _ => ?_⟩
      rw [Nat.add_sub_cancel]
      rcases Nat.eq_zero_or_pos (leadingZeros (num * 10) den fuel) with hzero | hpos
      · rw [hzero, pow_zero, mul_one]
        exact not_le.1 hlt
      · calc num * 10 ^ leadingZeros (num * 10) den fuel
            = num * 10 * 10 ^ (leadingZeros (num * 10) den fuel - 1) := by
              rw [mul_assoc, ← pow_succ', Nat.sub_add_cancel hpos]
          _ < den := hlast hpos

theorem length_toDigits_spec {n : Nat} (hn : 0 < n) :
    10 ^ ((Nat.toDigits 10 n).length - 1) ≤ n ∧ n < 10 ^ (Nat.toDigits 10 n).length := by
  have hpos : 0 < (Nat.toDigits 10 n).length := Nat.length_toDigits_pos
  refine ⟨?_, (Nat.length_toDigits_le_iff (by decide) hpos).1 le_rfl⟩
  by_contra hlt
  have hmany : 0 < (Nat.toDigits 10 n).length - 1 := by
    by_contra hone
    rw [Nat.eq_zero_of_not_pos hone] at hlt
    exact hlt hn
  have := (Nat.length_toDigits_le_iff (by decide) hmany).2 (not_le.1 hlt)
  omega

/-- The exponent of the first digit of a float. -/
theorem leading_spec {m : Nat} {e : Int} (hv : 1 / 10 ^ 40 ≤ (m : ℚ) * 2 ^ e) :
    (10 : ℚ) ^ (interval m e).leading ≤ m * 2 ^ e ∧
      (m : ℚ) * 2 ^ e < 10 ^ ((interval m e).leading + 1) := by
  have hden := den_pos m e
  rw [← mid_div_den] at hv ⊢
  simp only [Interval.leading]
  generalize (interval m e).mid = num at *
  generalize (interval m e).den = den at *
  have hdenpos : (0 : ℚ) < den := by exact_mod_cast hden
  split
  · next hle =>
    obtain ⟨hlow, hhigh⟩ := length_toDigits_spec (Nat.div_pos hle hden)
    have hpos : 0 < (Nat.toDigits 10 (num / den)).length := Nat.length_toDigits_pos
    generalize (Nat.toDigits 10 (num / den)).length = len at *
    obtain ⟨len, rfl⟩ := Nat.exists_eq_add_one_of_ne_zero hpos.ne'
    rw [show ((len + 1 : Nat) : Int) - 1 = (len : Nat) by omega,
      show ((len : Nat) : Int) + 1 = (len + 1 : Nat) by omega, zpow_natCast, zpow_natCast]
    constructor
    · rw [le_div_iff₀ hdenpos]
      exact_mod_cast (Nat.le_div_iff_mul_le hden).1 hlow
    · rw [div_lt_iff₀ hdenpos]
      exact_mod_cast (Nat.div_lt_iff_lt_mul hden).1 hhigh
  · next hlt =>
    have hmany : 40 ≤ 330 := by decide
    generalize 330 = fuel at hmany ⊢
    have hfuel : den ≤ num * 10 ^ fuel := by
      rw [div_le_div_iff₀ (by positivity) hdenpos, one_mul] at hv
      calc den ≤ num * 10 ^ 40 := by exact_mod_cast hv
        _ ≤ num * 10 ^ fuel := Nat.mul_le_mul_left _ (Nat.pow_le_pow_right (by decide) hmany)
    obtain ⟨hlow, hhigh⟩ := leadingZeros_spec hfuel
    have hpos : 0 < leadingZeros num den fuel := by
      by_contra hzero
      rw [Nat.eq_zero_of_not_pos hzero, pow_zero, mul_one] at hlow
      exact hlt hlow
    have hlast := hhigh hpos
    generalize leadingZeros num den fuel = n at *
    obtain ⟨n, rfl⟩ := Nat.exists_eq_add_one_of_ne_zero hpos.ne'
    rw [show -((n + 1 : Nat) : Int) + 1 = -(n : Nat) by omega, zpow_neg, zpow_neg, zpow_natCast,
      zpow_natCast]
    constructor
    · rw [le_div_iff₀ hdenpos, inv_mul_le_iff₀ (by positivity), mul_comm]
      exact_mod_cast hlow
    · rw [div_lt_iff₀ hdenpos, lt_inv_mul_iff₀ (by positivity), mul_comm]
      exact_mod_cast hlast

/-! ### Seventeen digits -/

/-- The neighbours of a float on a grid of seventeen digits have seventeen digits, or are the next
power of ten. -/
theorem below_bounds {m : Nat} {e : Int} (hv : 1 / 10 ^ 40 ≤ (m : ℚ) * 2 ^ e) (n : Nat) :
    10 ^ n ≤ (interval m e).below ((interval m e).leading - n) ∧
      (interval m e).below ((interval m e).leading - n) + 1 ≤ 10 ^ (n + 1) := by
  obtain ⟨hlow, hhigh⟩ := leading_spec hv
  obtain ⟨hbelow, habove⟩ := below_le m e ((interval m e).leading - n)
  generalize (interval m e).leading = s at *
  generalize (interval m e).below (s - n) = k at *
  have hten : (10 : ℚ) ≠ 0 := by norm_num
  have hpow : (0 : ℚ) < 10 ^ (s - n) := by positivity
  have hlow' : (10 : ℚ) ^ s = 10 ^ n * 10 ^ (s - n) := by
    rw [← zpow_natCast, ← zpow_add₀ hten]
    congr 1
    omega
  have hhigh' : (10 : ℚ) ^ (s + 1) = 10 ^ (n + 1) * 10 ^ (s - n) := by
    rw [← zpow_natCast, ← zpow_add₀ hten]
    congr 1
    push_cast
    omega
  rw [hlow'] at hlow
  rw [hhigh'] at hhigh
  constructor
  · have hlt : (10 ^ n : ℚ) < k + 1 := lt_of_mul_lt_mul_right (hlow.trans_lt habove) hpow.le
    have : 10 ^ n < k + 1 := by exact_mod_cast hlt
    omega
  · have hlt : (k : ℚ) < 10 ^ (n + 1) := lt_of_mul_lt_mul_right (hbelow.trans_lt hhigh) hpow.le
    have : k < 10 ^ (n + 1) := by exact_mod_cast hlt
    omega

theorem gapBelow_pos (m : Nat) : 0 < gapBelow m := by
  unfold gapBelow
  split <;> norm_num

/-- What is strictly inside of the interval is rounded to the float. -/
theorem near_of_lt {m : Nat} {e : Int} {q : ℚ} (hlow : (4 * m - gapBelow m) * 2 ^ e < 4 * q)
    (hhigh : 4 * q < (4 * m + 2) * 2 ^ e) : Near m e q :=
  ⟨hlow.le, hhigh.le, .inr ⟨hlow, hhigh⟩⟩

/-- The unit of the seventeenth digit is less than the width of the interval. -/
theorem seventeenth_lt {m : Nat} {e : Int} (h : IsNormal m e) {u : ℚ}
    (hu : 10 ^ 16 * u ≤ m * 2 ^ e) : 4 * u < (2 + gapBelow m) * 2 ^ e := by
  have hpow : (0 : ℚ) < 2 ^ e := by positivity
  have hm : (m : ℚ) < 2 ^ 53 := by exact_mod_cast h.high
  unfold gapBelow
  split
  · next heq =>
    rw [heq] at hu
    push_cast at hu
    linarith
  · have : (m : ℚ) * 2 ^ e < 2 ^ 53 * 2 ^ e := mul_lt_mul_of_pos_right hm hpow
    linarith

/-- **Seventeen digits tell all floats apart**: one of the neighbours is rounded to the float. -/
theorem nearest?_seventeen {m : Nat} {e : Int} (h : IsNormal m e)
    (hv : 1 / 10 ^ 40 ≤ (m : ℚ) * 2 ^ e) (tie : Tie) :
    (interval m e).nearest? tie ((interval m e).leading - (16 : Nat)) ≠ none := by
  obtain ⟨hmany, -⟩ := below_bounds hv 16
  obtain ⟨hbelow, habove⟩ := below_le m e ((interval m e).leading - (16 : Nat))
  generalize hk : (interval m e).below ((interval m e).leading - (16 : Nat)) = k at *
  generalize hp : (interval m e).leading - (16 : Nat) = p at *
  have hpow : (0 : ℚ) < 10 ^ p := by positivity
  have hunit : (0 : ℚ) < 2 ^ e := by positivity
  have hgap : (0 : ℚ) < gapBelow m * 2 ^ e := mul_pos (gapBelow_pos m) hunit
  have hwidth : 4 * (10 : ℚ) ^ p < (2 + gapBelow m) * 2 ^ e := by
    refine seventeenth_lt h (le_trans ?_ hbelow)
    exact mul_le_mul_of_nonneg_right (by exact_mod_cast hmany) hpow.le
  rcases lt_or_ge ((4 * m - gapBelow m) * 2 ^ e) (4 * ((k : ℚ) * 10 ^ p)) with hlow | hlow
  · have hnear : Near m e ((k : ℚ) * 10 ^ p) := near_of_lt hlow (by linarith)
    exact nearest?_ne_none tie ((holds_iff_near h k p).2 hnear) (.inl hk.symm)
  · have hnear : Near m e (((k + 1 : Nat) : ℚ) * 10 ^ p) := by
      push_cast
      exact near_of_lt (by linarith) (by linarith)
    exact nearest?_ne_none tie ((holds_iff_near h (k + 1) p).2 hnear) (.inr (by rw [hk]))

/-! ### The shortest decimal -/

/-- Zeros are moved to the exponent without a change of the value. -/
theorem Scaled.normal_spec (d : Scaled) (fuel : Nat) :
    (d.normal fuel).value = d.value ∧ (0 < d.digits → 0 < (d.normal fuel).digits) ∧
      (d.normal fuel).digits ≤ d.digits ∧ d.exponent ≤ (d.normal fuel).exponent := by
  induction fuel generalizing d with
  | zero => exact ⟨rfl, id, le_rfl, le_rfl⟩
  | succ fuel ih =>
    rw [Scaled.normal]
    split
    · next hzero =>
      obtain ⟨hvalue, hpos, hdigits, hexponent⟩ := ih ⟨d.digits / 10, d.exponent + 1⟩
      refine ⟨hvalue.trans ?_, fun _ => hpos (by simp only; omega), by simp only at hdigits; omega,
        by simp only at hexponent; omega⟩
      have hten : d.digits = d.digits / 10 * 10 := by omega
      simp only [Scaled.value]
      rw [zpow_add_one₀ (by norm_num : (10 : ℚ) ≠ 0)]
      conv_rhs => rw [hten]
      push_cast
      ring
    · exact ⟨rfl, id, le_rfl, le_rfl⟩

/-- The first grid with a hit. -/
theorem exists_shortest {m : Nat} {e : Int} (h : IsNormal m e)
    (hv : 1 / 10 ^ 40 ≤ (m : ℚ) * 2 ^ e) (tie : Tie) :
    ∃ (n k : Nat), n < 17 ∧
      (interval m e).nearest? tie ((interval m e).leading - n) = some k ∧
      shortest tie m e = Scaled.normal ⟨k, (interval m e).leading - n⟩ 20 := by
  have hhit : (List.range 17).findSome? (fun (n : Nat) =>
      ((interval m e).nearest? tie ((interval m e).leading - n)).map fun k =>
        Scaled.mk k ((interval m e).leading - n)) ≠ none := by
    intro hnone
    have := List.findSome?_eq_none_iff.1 hnone 16 (List.mem_range.2 (by decide))
    exact nearest?_seventeen h hv tie (Option.map_eq_none_iff.1 this)
  obtain ⟨d, hd⟩ := Option.ne_none_iff_exists'.1 hhit
  obtain ⟨n, hn, hn'⟩ := List.exists_of_findSome?_eq_some hd
  obtain ⟨k, hk, rfl⟩ := Option.map_eq_some_iff.1 hn'
  refine ⟨n, k, List.mem_range.1 hn, hk, ?_⟩
  simp only [shortest, hd]

/-- **The shortest decimal of a float is rounded to it**, and has seventeen digits at most. -/
theorem shortest_spec {m : Nat} {e : Int} (h : IsNormal m e)
    (hv : 1 / 10 ^ 40 ≤ (m : ℚ) * 2 ^ e) (tie : Tie) :
    Near m e (shortest tie m e).value ∧ 0 < (shortest tie m e).digits ∧
      (shortest tie m e).digits ≤ 10 ^ 17 ∧
      (interval m e).leading - 16 ≤ (shortest tie m e).exponent := by
  obtain ⟨n, k, hn, hk, hshortest⟩ := exists_shortest h hv tie
  obtain ⟨hholds, hneighbour⟩ := nearest?_eq_some hk
  obtain ⟨hlow, hhigh⟩ := below_bounds hv n
  have hpos : 0 < k := by
    have : 0 < 10 ^ n := by positivity
    omega
  have hdigits : k ≤ 10 ^ 17 := by
    have : 10 ^ (n + 1) ≤ 10 ^ 17 := Nat.pow_le_pow_right (by decide) (by omega)
    omega
  obtain ⟨hvalue, hpos', hdigits', hexponent⟩ :=
    Scaled.normal_spec ⟨k, (interval m e).leading - n⟩ 20
  rw [hshortest]
  refine ⟨?_, hpos' hpos, hdigits'.trans hdigits, ?_⟩
  · rw [hvalue]
    exact (holds_iff_near h k _).1 hholds
  · simp only at hexponent
    omega

/-- The exponent of the shortest decimal is no larger than the float. -/
theorem exponent_bounds {m : Nat} {e : Int} (h : IsNormal m e)
    (hlow : 1 / 10 ^ 20 ≤ (m : ℚ) * 2 ^ e) (hhigh : (m : ℚ) * 2 ^ e ≤ 10 ^ 24) (tie : Tie) :
    -36 ≤ (shortest tie m e).exponent ∧ (shortest tie m e).exponent ≤ 24 := by
  have hv : 1 / 10 ^ 40 ≤ (m : ℚ) * 2 ^ e := le_trans (by norm_num) hlow
  obtain ⟨hnear, hpos, -, hexponent⟩ := shortest_spec h hv tie
  constructor
  · have hlt : (10 : ℚ) ^ (-20 : Int) < 10 ^ ((interval m e).leading + 1) :=
      lt_of_le_of_lt (by norm_num at hlow ⊢; exact hlow) (leading_spec hv).2
    have := (zpow_lt_zpow_iff_right₀ (by norm_num : (1 : ℚ) < 10)).1 hlt
    omega
  · have hunit : (0 : ℚ) < 2 ^ e := by positivity
    have hm : (1 : ℚ) ≤ m := by exact_mod_cast Nat.le_trans (by decide) h.low
    have hvalue : (shortest tie m e).value < 10 ^ (25 : Int) := by
      have hdouble : 4 * (shortest tie m e).value ≤ 8 * (m * 2 ^ e) := by
        refine hnear.high.trans ?_
        nlinarith
      norm_num
      linarith
    have hdigits : (10 : ℚ) ^ (shortest tie m e).exponent ≤ (shortest tie m e).value := by
      have : (1 : ℚ) ≤ (shortest tie m e).digits := by exact_mod_cast hpos
      exact le_mul_of_one_le_left (by positivity) this
    have := (zpow_lt_zpow_iff_right₀ (by norm_num : (1 : ℚ) < 10)).1 (hdigits.trans_lt hvalue)
    omega

end Lockstep.Decimal
