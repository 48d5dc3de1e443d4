import Lockstep.Proofs.FloatValues
import Lockstep.Word

/-!
# Floats are computed exactly, and rounded

An operation on floats yields the exact mantissa up to some bit, and with the two bits after it what
rounding has to know about the rest.

* `Stands` : where a number is, by what is left of it after the last bit;
* `near_roundWithAccuracy` : **rounding finds the nearest float**;
* `rounds_div`, `rounds_mul`, `rounds_add`, `rounds_sub`, `rounds_ofWord` : what is computed from
  floats and from words;
* `Holds` : a float is a number; `Holds.div`, `Holds.mul`, `Holds.add` and `Holds.sub` compute with
  such numbers as long as they are `Moderate`.
-/

namespace Lockstep.Decimal

open Float.Model Float.Model.UnpackedFloat

/-! ### What is left after the last bit -/

/-- The mantissa and the bit after it. -/
def begins (a : ExtendedMantissa) : ℚ := a.mantissa + if a.roundBit then 1 / 2 else 0

/-- The mantissa and the two bits after it tell where `y` is: where they begin, or strictly between
that and the next half. -/
def Stands (a : ExtendedMantissa) (y : ℚ) : Prop :=
  if a.stickyBit then begins a < y ∧ y < begins a + 1 / 2 else y = begins a

/-- A bit that is shifted out is remembered. -/
theorem Stands.shiftRightOne {a : ExtendedMantissa} {y : ℚ} (h : Stands a y) :
    Stands a.shiftRightOne (y / 2) := by
  obtain ⟨m, round, sticky⟩ := a
  have hdiv : ((m / 2 : Nat) : ℚ) * 2 + (m % 2 : Nat) = m := by
    exact_mod_cast Nat.div_add_mod' m 2
  have hnext : begins (ExtendedMantissa.shiftRightOne ⟨m, round, sticky⟩) = m / 2 := by
    rcases Nat.mod_two_eq_zero_or_one m with hbit | hbit <;>
      simp only [begins, ExtendedMantissa.shiftRightOne, hbit] at hdiv ⊢ <;>
      norm_num <;> push_cast at hdiv <;> linarith
  have hsticky : (ExtendedMantissa.shiftRightOne ⟨m, round, sticky⟩).stickyBit =
      (round || sticky) := rfl
  rw [Stands, hnext, hsticky]
  cases round <;> cases sticky <;>
    simp only [Stands, begins, Bool.false_eq_true, Bool.or_false, Bool.or_true, Bool.or_self,
      ↓reduceIte] at h ⊢
  · linarith
  · constructor <;> linarith
  · constructor <;> linarith
  · constructor <;> linarith

theorem Stands.shiftRight {a : ExtendedMantissa} {y : ℚ} (h : Stands a y) (n : Nat) :
    Stands (a >>> n) (y / 2 ^ n) := by
  change Stands (n.repeat ExtendedMantissa.shiftRightOne a) _
  induction n with
  | zero => simpa [Nat.repeat] using h
  | succ n ih =>
    rw [pow_succ, ← div_div]
    exact ih.shiftRightOne

theorem mantissa_shiftRight (a : ExtendedMantissa) (n : Nat) :
    (a >>> n).mantissa = a.mantissa / 2 ^ n := by
  change (n.repeat ExtendedMantissa.shiftRightOne a).mantissa = _
  induction n with
  | zero => simp [Nat.repeat]
  | succ n ih =>
    rw [Nat.repeat, ExtendedMantissa.shiftRightOne, ih, Nat.div_div_eq_div_mul, pow_succ]

theorem stands_exact (m : Nat) : Stands (.ofMantissaAndAccuracy m .exact) m := by
  simp [Stands, begins, ExtendedMantissa.ofMantissaAndAccuracy]

/-- What is left of a division tells where the quotient is. -/
theorem stands_div (n : Nat) {d : Nat} (hd : 0 < d) :
    Stands (.ofMantissaAndAccuracy (n / d) (accuracyOfFraction (n % d) d)) ((n : ℚ) / d) := by
  have hpos : (0 : ℚ) < d := by exact_mod_cast hd
  have hdiv : ((n / d : Nat) : ℚ) * d + (n % d : Nat) = n := by
    exact_mod_cast Nat.div_add_mod' n d
  have hmod : ((n % d : Nat) : ℚ) < d := by exact_mod_cast Nat.mod_lt n hd
  have hquotient : (n : ℚ) / d = (n / d : Nat) + (n % d : Nat) / d := by
    rw [← hdiv]
    field_simp
  rw [hquotient]
  generalize n / d = q
  generalize n % d = r at hmod
  unfold accuracyOfFraction
  by_cases hr : r = 0
  · simp [hr, Stands, begins, ExtendedMantissa.ofMantissaAndAccuracy]
  · have hrpos : (0 : ℚ) < r := by exact_mod_cast Nat.pos_of_ne_zero hr
    have hfraction : (0 : ℚ) < r / d := by positivity
    have hone : (r : ℚ) / d < 1 := (div_lt_one hpos).2 hmod
    rw [if_neg hr]
    rcases lt_trichotomy (2 * r) d with hlt | heq | hgt
    · have hhalf : (r : ℚ) / d < 1 / 2 := by
        rw [div_lt_iff₀ hpos]
        have : (2 * r : ℚ) < d := by exact_mod_cast hlt
        linarith
      rw [Nat.compare_eq_lt.2 hlt]
      simp only [Stands, begins, ExtendedMantissa.ofMantissaAndAccuracy]
      norm_num
      constructor <;> linarith
    · have hhalf : (r : ℚ) / d = 1 / 2 := by
        rw [div_eq_iff hpos.ne', ← heq]
        push_cast
        ring
      rw [Nat.compare_eq_eq.2 heq, hhalf]
      simp [Stands, begins, ExtendedMantissa.ofMantissaAndAccuracy]
    · have hhalf : 1 / 2 < (r : ℚ) / d := by
        rw [lt_div_iff₀ hpos]
        have : (d : ℚ) < 2 * r := by exact_mod_cast hgt
        linarith
      rw [Nat.compare_eq_gt.2 hgt]
      simp only [Stands, begins, ExtendedMantissa.ofMantissaAndAccuracy]
      norm_num
      constructor <;> linarith

theorem Stands.mantissa_le {a : ExtendedMantissa} {y : ℚ} (h : Stands a y) :
    (a.mantissa : ℚ) ≤ y ∧ y < a.mantissa + 1 := by
  obtain ⟨m, round, sticky⟩ := a
  cases round <;> cases sticky <;>
    simp only [Stands, begins, Bool.false_eq_true, ↓reduceIte] at h <;>
    constructor <;> linarith

/-- The whole number `r` is nearest to `y`, and of two equally near ones the even one. -/
structure Nearest (y : ℚ) (r : Nat) : Prop where
  low : (4 * r - 2 : ℚ) ≤ 4 * y
  high : 4 * y ≤ 4 * r + 2
  tie : r % 2 = 0 ∨ (4 * r - 2 : ℚ) < 4 * y ∧ 4 * y < 4 * r + 2

theorem Stands.nearest {a : ExtendedMantissa} {y : ℚ} (h : Stands a y) :
    Nearest y a.roundedMantissa := by
  obtain ⟨m, round, sticky⟩ := a
  cases round <;> cases sticky <;>
    simp only [Stands, begins, Bool.false_eq_true, ↓reduceIte] at h <;>
    simp only [ExtendedMantissa.roundedMantissa, ExtendedMantissa.accuracy,
      Accuracy.roundToNearestEven]
  · exact ⟨by linarith, by linarith, .inr ⟨by linarith, by linarith⟩⟩
  · exact ⟨by linarith, by linarith, .inr ⟨by linarith, by linarith⟩⟩
  · -- in the middle, the even one of the neighbours is taken
    have hbit : (m % 2 : Nat) = 0 ∨ (m % 2 : Nat) = 1 := Nat.mod_two_eq_zero_or_one m
    rcases hbit with hbit | hbit <;> rw [hbit] <;> refine ⟨?_, ?_, .inl (by omega)⟩ <;>
      push_cast <;> linarith
  · refine ⟨?_, ?_, .inr ⟨?_, ?_⟩⟩ <;> push_cast <;> linarith

/-! ### Rounding -/

theorem targetExponent_eq {t : Int} (h : -1021 ≤ t) :
    Format.binary64.targetExponent t = t - 53 := by
  have hbits : (Format.binary64.mantissaBits : Int) = 53 := rfl
  have hmin : Format.binary64.minExponent = -1074 := rfl
  rw [Format.targetExponent, hbits, hmin]
  omega

/-- A mantissa with at least 53 bits loses all further ones. -/
theorem shiftToTargetExponent_eq {m k : Nat} {e : Int} (a : Accuracy) (hm : m.log2 = 52 + k)
    (he : -1074 ≤ e) :
    shiftToTargetExponent Format.binary64 m e a =
      (ExtendedMantissa.ofMantissaAndAccuracy m a >>> k, e + k) := by
  have htarget : Format.binary64.targetExponent (totalExponent m e) = e + k := by
    rw [targetExponent_eq (by rw [totalExponent]; omega), totalExponent]
    omega
  have hshift : (e + k - e).toNat = k := by omega
  rw [shiftToTargetExponent, htarget, shiftToExponent, hshift]

theorem mantissa_ofMantissaAndAccuracy (m : Nat) (a : Accuracy) :
    (ExtendedMantissa.ofMantissaAndAccuracy m a).mantissa = m := by
  cases a with
  | exact => rfl
  | inexact o => cases o <;> rfl

/-- A mantissa that is rounded up to a power of two gets the next exponent. -/
theorem roundWithAccuracy_eq {s : Sign} {m k : Nat} {e : Int} {a : Accuracy}
    (hm : m.log2 = 52 + k) (he : -1074 ≤ e) {r : Nat}
    (hr : (ExtendedMantissa.ofMantissaAndAccuracy m a >>> k).roundedMantissa = r)
    (hlow : 2 ^ 52 ≤ r) (hhigh : r ≤ 2 ^ 53) :
    ∃ m' e', ∃ hm', roundWithAccuracy Format.binary64 s m e a = .finite s m' e' hm' ∧
      (r = m' ∧ e' = e + k ∧ r < 2 ^ 53 ∨ r = 2 ^ 53 ∧ m' = 2 ^ 52 ∧ e' = e + k + 1) := by
  have hmantissa (n : Nat) : (ExtendedMantissa.ofMantissaAndAccuracy r .exact >>> n).mantissa =
      r / 2 ^ n := by
    rw [mantissa_shiftRight, mantissa_ofMantissaAndAccuracy]
  rcases hhigh.lt_or_eq with hlt | heq
  · have hlog : r.log2 = 52 + 0 := (Nat.log2_eq_iff (by omega)).2 ⟨hlow, hlt⟩
    refine ⟨r, e + k, by omega, ?_, .inl ⟨rfl, rfl, hlt⟩⟩
    rw [roundWithAccuracy, shiftToTargetExponent_eq a hm he]
    simp only [hr, shiftToTargetExponent_eq .exact hlog (by omega : -1074 ≤ e + k), hmantissa]
    rw [dif_neg (by omega)]
    simp
  · have hlog : r.log2 = 52 + 1 := by rw [heq]; rfl
    refine ⟨2 ^ 52, e + k + 1, by decide, ?_, .inr ⟨heq, rfl, rfl⟩⟩
    rw [roundWithAccuracy, shiftToTargetExponent_eq a hm he]
    simp only [hr, shiftToTargetExponent_eq .exact hlog (by omega : -1074 ≤ e + k), hmantissa]
    simp [heq]

/-- The nearest mantissa of 53 bits is that of the nearest float. -/
theorem Nearest.near {r : Nat} {e : Int} {y : ℚ} (h : Nearest y r) (hy : 2 ^ 52 ≤ y) :
    Near r e (y * 2 ^ e) := by
  have hpow : (0 : ℚ) < 2 ^ e := by positivity
  have hscale : 4 * (y * 2 ^ e) = 4 * y * 2 ^ e := by ring
  have hgap : (4 * r - gapBelow r : ℚ) ≤ 4 * y := by
    unfold gapBelow
    split
    · next hr =>
      rw [hr]
      push_cast
      linarith
    · exact h.low
  refine ⟨?_, ?_, ?_⟩
  · rw [hscale]
    exact mul_le_mul_of_nonneg_right hgap hpow.le
  · rw [hscale]
    exact mul_le_mul_of_nonneg_right h.high hpow.le
  · by_cases heven : r % 2 = 0
    · exact .inl heven
    · have hne : r ≠ 2 ^ 52 := fun hr => heven (hr ▸ by decide)
      obtain ⟨hlow, hhigh⟩ := h.tie.resolve_left heven
      rw [hscale, gapBelow, if_neg hne]
      exact .inr ⟨mul_lt_mul_of_pos_right hlow hpow, mul_lt_mul_of_pos_right hhigh hpow⟩

/-- What is rounded up to a power of two is near to it. -/
theorem Nearest.near_carried {e : Int} {y : ℚ} (h : Nearest y (2 ^ 53)) (hy : y < 2 ^ 53) :
    Near (2 ^ 52) (e + 1) (y * 2 ^ e) := by
  have hpow : (0 : ℚ) < 2 ^ e := by positivity
  have hgap : gapBelow (2 ^ 52) = 1 := if_pos rfl
  have hnext : (2 : ℚ) ^ (e + 1) = 2 * 2 ^ e := by rw [zpow_add_one₀ two_ne_zero, mul_comm]
  have hlow := h.low
  push_cast at hlow
  refine ⟨?_, ?_, .inl (by decide)⟩
  · rw [hgap, hnext]
    push_cast
    nlinarith
  · rw [hnext]
    push_cast
    nlinarith

/-- Rounding keeps 53 bits, but for one carry. -/
theorem Nearest.bits {r : Nat} {y : ℚ} (h : Nearest y r) (hlow : 2 ^ 52 ≤ y) (hhigh : y < 2 ^ 53) :
    2 ^ 52 ≤ r ∧ r ≤ 2 ^ 53 := by
  have hr := h.low
  have hr' := h.high
  constructor
  · by_contra hlt
    have : (r : ℚ) + 1 ≤ 2 ^ 52 := by exact_mod_cast Nat.succ_le_of_lt (not_le.1 hlt)
    linarith
  · by_contra hlt
    have : (2 ^ 53 : ℚ) + 1 ≤ r := by exact_mod_cast Nat.succ_le_of_lt (not_le.1 hlt)
    linarith

/-- **What is rounded is a normal number, and the nearest one.** -/
theorem near_roundWithAccuracy (s : Sign) {m : Nat} {e : Int} {a : Accuracy} {q : ℚ}
    (hm : 2 ^ 52 ≤ m) (he : -1074 < e) (hbelow : e + m.log2 ≤ 1022)
    (hstands : Stands (.ofMantissaAndAccuracy m a) (q / 2 ^ e)) :
    ∃ m' e', ∃ hm', roundWithAccuracy Format.binary64 s m e a = .finite s m' e' hm' ∧
      IsNormal m' e' ∧ Near m' e' q := by
  have hmpos : m ≠ 0 := (Nat.lt_of_lt_of_le (by decide) hm).ne'
  obtain ⟨k, hk⟩ := Nat.exists_eq_add_of_le ((Nat.le_log2 hmpos).2 hm)
  have hpow : (0 : ℚ) < 2 ^ (e + k) := by positivity
  have hscale : q / 2 ^ e / 2 ^ k = q / 2 ^ (e + k) := by
    rw [div_div, zpow_add₀ two_ne_zero, zpow_natCast]
  -- the mantissa after the shift, whose last bit counts `2 ^ (e + k)`
  have hshifted := hstands.shiftRight k
  rw [hscale] at hshifted
  generalize hy : q / 2 ^ (e + k) = y at hshifted
  have hq : q = y * 2 ^ (e + k) := by rw [← hy, div_mul_cancel₀ _ hpow.ne']
  have hfirst : 2 ^ 52 ≤ m / 2 ^ k ∧ m / 2 ^ k + 1 ≤ 2 ^ 53 := by
    have hself : 2 ^ (52 + k) ≤ m := hk ▸ Nat.log2_self_le hmpos
    have hnext : m < 2 ^ (53 + k) := by
      have := Nat.lt_log2_self (n := m)
      rwa [hk, show 52 + k + 1 = 53 + k by omega] at this
    rw [pow_add] at hself hnext
    exact ⟨(Nat.le_div_iff_mul_le (by positivity)).2 hself,
      (Nat.div_lt_iff_lt_mul (by positivity)).2 hnext⟩
  obtain ⟨hbegin, hend⟩ := hshifted.mantissa_le
  rw [mantissa_shiftRight, mantissa_ofMantissaAndAccuracy] at hbegin hend
  have hylow : (2 ^ 52 : ℚ) ≤ y := le_trans (by exact_mod_cast hfirst.1) hbegin
  have hyhigh : y < 2 ^ 53 := lt_of_lt_of_le hend (by exact_mod_cast hfirst.2)
  have hnearest := hshifted.nearest
  generalize hr : (ExtendedMantissa.ofMantissaAndAccuracy m a >>> k).roundedMantissa = r
    at hnearest
  obtain ⟨hrlow, hrhigh⟩ := hnearest.bits hylow hyhigh
  obtain ⟨m', e', hm', heq, ⟨rfl, rfl, hlt⟩ | ⟨rfl, rfl, rfl⟩⟩ :=
    roundWithAccuracy_eq (s := s) hk he.le hr hrlow hrhigh
  · refine ⟨r, e + k, hm', heq, ⟨hrlow, hlt, by omega, by omega⟩, ?_⟩
    rw [hq]
    exact hnearest.near hylow
  · refine ⟨2 ^ 52, e + k + 1, hm', heq, ⟨le_rfl, by decide, by omega, by omega⟩, ?_⟩
    rw [hq]
    exact hnearest.near_carried hyhigh

/-- A mantissa of any length is brought to at least 53 bits first. -/
theorem near_round (s : Sign) {n : Nat} {e : Int} (hpos : 0 < n) (he : -1074 < e)
    (hlow : -1022 < e + n.log2) (hhigh : e + n.log2 ≤ 1022) : ∃ m f hm,
      UnpackedFloat.round Format.binary64 s n e = .finite s m f hm ∧ IsNormal m f ∧
        Near m f (n * 2 ^ e) := by
  have htarget : Format.binary64.targetExponent (totalExponent n e) = e + n.log2 - 52 := by
    rw [targetExponent_eq (by rw [totalExponent]; omega), totalExponent]
    omega
  rw [UnpackedFloat.round, htarget, decreaseExponent, Nat.shiftLeft_eq]
  generalize hk : (e - (e + n.log2 - 52)).toNat = k
  have hself := Nat.log2_self_le hpos.ne'
  have hmantissa : (n * 2 ^ k).log2 = n.log2 + k := by
    have hnext := Nat.lt_log2_self (n := n)
    refine (Nat.log2_eq_iff (by positivity)).2 ⟨?_, ?_⟩
    · rw [pow_add]
      exact Nat.mul_le_mul_right _ hself
    · rw [show n.log2 + k + 1 = n.log2 + 1 + k by omega, pow_add]
      exact Nat.mul_lt_mul_of_pos_right hnext (by positivity)
  have hbits : 2 ^ 52 ≤ n * 2 ^ k := by
    calc 2 ^ 52 ≤ 2 ^ (n.log2 + k) := Nat.pow_le_pow_right (by decide) (by omega)
      _ ≤ n * 2 ^ k := by rw [pow_add]; exact Nat.mul_le_mul_right _ hself
  have hscale : (n : ℚ) * 2 ^ e / 2 ^ (e - (k : Int)) = (n * 2 ^ k : Nat) := by
    rw [zpow_sub₀ two_ne_zero, zpow_natCast]
    push_cast
    field_simp
  refine near_roundWithAccuracy _ hbits (by omega) (by omega) ?_
  rw [hscale]
  exact stands_exact _

/-! ### Operations -/

theorem rounds_pack {s : UnpackedFloat} {q : ℚ}
    (h : ∃ m e, ∃ hm, s = .finite .positive m e hm ∧ IsNormal m e ∧ Near m e q) :
    RoundsTo q (.ofModel (.pack s)) := by
  obtain ⟨m, e, hm, rfl, hnormal, hnear⟩ := h
  exact ⟨m, e, denotes_pack hnormal hm, hnear⟩

/-- **Division rounds the quotient.** -/
theorem rounds_div {x y : Float} {m n : Nat} {e f : Int} (hx : Denotes x m e) (hy : Denotes y n f)
    (hlow : -1021 < e - f) (hhigh : e - f ≤ 1021) :
    RoundsTo ((m : ℚ) * 2 ^ e / (n * 2 ^ f)) (x / y) := by
  obtain ⟨hm, hxu⟩ := hx.unpack
  obtain ⟨hn, hyu⟩ := hy.unpack
  have hquotient : x / y = .ofModel (.pack
      (UnpackedFloat.div Format.binary64 x.toModel.unpack y.toModel.unpack)) := rfl
  have hcore : divCore Format.binary64 m e n f =
      (m * 2 ^ 53 / n, e - f - 53, accuracyOfFraction (m * 2 ^ 53 % n) n) := by
    have htotal : totalExponent m e - totalExponent n f = e - f := by
      rw [totalExponent, totalExponent, log2_of_isNormal hx.normal, log2_of_isNormal hy.normal]
      omega
    have hmin : min (e - f) (e - f - 53) = e - f - 53 := by omega
    have hshift : (e - f - (e - f - 53)).toNat = 53 := by omega
    rw [divCore, htotal, targetExponent_eq (by omega), hmin, hshift, Nat.shiftLeft_eq]
  have hmlow := hx.normal.low
  have hmhigh := hx.normal.high
  have hnlow := hy.normal.low
  have hnhigh := hy.normal.high
  have hbits : 2 ^ 52 ≤ m * 2 ^ 53 / n := by
    rw [Nat.le_div_iff_mul_le hn]
    omega
  have hlog : (m * 2 ^ 53 / n).log2 < 54 := by
    refine (Nat.log2_lt (by omega)).2 ((Nat.div_lt_iff_lt_mul hn).2 ?_)
    omega
  have hscale : (m : ℚ) * 2 ^ e / (n * 2 ^ f) / 2 ^ (e - f - 53) =
      ((m * 2 ^ 53 : Nat) : ℚ) / n := by
    have hnpos : (n : ℚ) ≠ 0 := by exact_mod_cast hn.ne'
    have hunit : (2 : ℚ) ^ (e - f - 53) = 2 ^ e / 2 ^ f / 2 ^ 53 := by
      rw [zpow_sub₀ two_ne_zero, zpow_sub₀ two_ne_zero]
      rfl
    rw [hunit]
    push_cast
    field_simp
    norm_num
  rw [hquotient, hxu, hyu]
  refine rounds_pack ?_
  rw [UnpackedFloat.div]
  simp only [hcore]
  refine near_roundWithAccuracy _ hbits (by omega) (by omega) ?_
  rw [hscale]
  exact stands_div _ hn

/-- **Multiplication rounds the product.** -/
theorem rounds_mul {x y : Float} {m n : Nat} {e f : Int} (hx : Denotes x m e) (hy : Denotes y n f)
    (hlow : -1074 < e + f) (hhigh : e + f ≤ 900) :
    RoundsTo ((m : ℚ) * 2 ^ e * (n * 2 ^ f)) (x * y) := by
  obtain ⟨hm, hxu⟩ := hx.unpack
  obtain ⟨hn, hyu⟩ := hy.unpack
  have hproduct : x * y = .ofModel (.pack
      (UnpackedFloat.mul Format.binary64 x.toModel.unpack y.toModel.unpack)) := rfl
  have hbits : 2 ^ 52 ≤ m * n := le_trans hx.normal.low (Nat.le_mul_of_pos_right m hn)
  have hlog : (m * n).log2 < 106 := by
    refine (Nat.log2_lt (by omega)).2 ?_
    calc m * n < 2 ^ 53 * 2 ^ 53 := Nat.mul_lt_mul'' hx.normal.high hy.normal.high
      _ = 2 ^ 106 := by norm_num
  have hscale : (m : ℚ) * 2 ^ e * (n * 2 ^ f) / 2 ^ (e + f) = (m * n : Nat) := by
    rw [zpow_add₀ two_ne_zero]
    push_cast
    field_simp
  rw [hproduct, hxu, hyu]
  refine rounds_pack ?_
  rw [UnpackedFloat.mul]
  refine near_roundWithAccuracy _ hbits (by omega) (by omega) ?_
  rw [hscale]
  exact stands_exact _

/-- **Addition rounds the sum.** -/
theorem rounds_add {x y : Float} {m n : Nat} {e f : Int} (hx : Denotes x m e) (hy : Denotes y n f)
    (he : e ≤ 900) (hf : f ≤ 900) : RoundsTo ((m : ℚ) * 2 ^ e + n * 2 ^ f) (x + y) := by
  obtain ⟨hm, hxu⟩ := hx.unpack
  obtain ⟨hn, hyu⟩ := hy.unpack
  have hsum : x + y = .ofModel (.pack
      (UnpackedFloat.add Format.binary64 x.toModel.unpack y.toModel.unpack)) := rfl
  -- both mantissas are brought to the smaller exponent `k`
  generalize hk : min e f = k
  generalize ha : (e - k).toNat = a
  generalize hb : (f - k).toNat = b
  have hmhigh := hx.normal.high
  have hnhigh := hy.normal.high
  have habove : -1074 < k := hk ▸ lt_min hx.normal.above hy.normal.above
  have hbits : 2 ^ 52 ≤ m * 2 ^ a + n * 2 ^ b :=
    (hx.normal.low.trans (Nat.le_mul_of_pos_right m (by positivity))).trans (Nat.le_add_right _ _)
  have hlog : (m * 2 ^ a + n * 2 ^ b).log2 < 54 + max a b := by
    refine (Nat.log2_lt (by omega)).2 ?_
    have hleft : m * 2 ^ a < 2 ^ 53 * 2 ^ max a b :=
      Nat.mul_lt_mul_of_lt_of_le hmhigh (Nat.pow_le_pow_right (by decide) (le_max_left _ _))
        (by positivity)
    have hright : n * 2 ^ b < 2 ^ 53 * 2 ^ max a b :=
      Nat.mul_lt_mul_of_lt_of_le hnhigh (Nat.pow_le_pow_right (by decide) (le_max_right _ _))
        (by positivity)
    rw [pow_add]
    omega
  have hcore : UnpackedFloat.add Format.binary64 (.finite .positive m e hm)
      (.finite .positive n f hn) =
        UnpackedFloat.round Format.binary64 .positive (m * 2 ^ a + n * 2 ^ b) k := by
    have hcompare : compare (((m * 2 ^ a : Nat) : Int) + ((n * 2 ^ b : Nat) : Int)) 0 = .gt :=
      Int.compare_eq_gt.2 (by omega)
    have hnat : (((m * 2 ^ a : Nat) : Int) + ((n * 2 ^ b : Nat) : Int)).toNat =
      m * 2 ^ a + n * 2 ^ b := by omega
    simp only [UnpackedFloat.add, decreaseExponent, Nat.shiftLeft_eq, hk, ha, hb, Sign.apply,
      UnpackedFloat.normalize, hcompare, hnat]
  have hscale : ((m : ℚ) * 2 ^ e + n * 2 ^ f) / 2 ^ k = (m * 2 ^ a + n * 2 ^ b : Nat) := by
    have he' : e = a + k := by omega
    have hf' : f = b + k := by omega
    rw [he', hf', zpow_add₀ two_ne_zero, zpow_add₀ two_ne_zero, zpow_natCast, zpow_natCast]
    push_cast
    field_simp
  have hunit : (2 : ℚ) ^ k ≠ 0 := by positivity
  have hbits' : 52 ≤ (m * 2 ^ a + n * 2 ^ b).log2 :=
    (Nat.le_log2 (Nat.lt_of_lt_of_le (by decide) hbits).ne').2 hbits
  rw [hsum, hxu, hyu, hcore, ← div_mul_cancel₀ ((m : ℚ) * 2 ^ e + n * 2 ^ f) hunit, hscale]
  exact rounds_pack (near_round _ (by omega) habove (by omega) (by omega))

/-- **Subtraction rounds the difference.** -/
theorem rounds_sub {x y : Float} {m n : Nat} {e f : Int} (hx : Denotes x m e) (hy : Denotes y n f)
    (hlow : -900 ≤ e) (hlow' : -900 ≤ f) (he : e ≤ 900)
    (hlt : (n : ℚ) * 2 ^ f < m * 2 ^ e) : RoundsTo ((m : ℚ) * 2 ^ e - n * 2 ^ f) (x - y) := by
  obtain ⟨hm, hxu⟩ := hx.unpack
  obtain ⟨hn, hyu⟩ := hy.unpack
  have hdifference : x - y = .ofModel (.pack
      (UnpackedFloat.sub Format.binary64 x.toModel.unpack y.toModel.unpack)) := rfl
  generalize hk : min e f = k
  generalize ha : (e - k).toNat = a
  generalize hb : (f - k).toNat = b
  have hunit : (0 : ℚ) < 2 ^ k := by positivity
  have hleft : (m : ℚ) * 2 ^ e = (m * 2 ^ a : Nat) * 2 ^ k := by
    rw [show e = a + k by omega, zpow_add₀ two_ne_zero, zpow_natCast]
    push_cast
    ring
  have hright : (n : ℚ) * 2 ^ f = (n * 2 ^ b : Nat) * 2 ^ k := by
    rw [show f = b + k by omega, zpow_add₀ two_ne_zero, zpow_natCast]
    push_cast
    ring
  have hpos : n * 2 ^ b < m * 2 ^ a := by
    rw [hleft, hright] at hlt
    exact_mod_cast lt_of_mul_lt_mul_right hlt hunit.le
  have hlog : (m * 2 ^ a - n * 2 ^ b).log2 < 53 + a := by
    refine (Nat.log2_lt (by omega)).2 ((Nat.sub_le _ _).trans_lt ?_)
    rw [pow_add]
    exact Nat.mul_lt_mul_of_pos_right hx.normal.high (by positivity)
  have hcore : UnpackedFloat.sub Format.binary64 (.finite .positive m e hm)
      (.finite .positive n f hn) =
        UnpackedFloat.round Format.binary64 .positive (m * 2 ^ a - n * 2 ^ b) k := by
    have hcompare : compare (((m * 2 ^ a : Nat) : Int) - ((n * 2 ^ b : Nat) : Int)) 0 = .gt :=
      Int.compare_eq_gt.2 (by omega)
    have hnat : (((m * 2 ^ a : Nat) : Int) - ((n * 2 ^ b : Nat) : Int)).toNat =
      m * 2 ^ a - n * 2 ^ b := by omega
    simp only [UnpackedFloat.sub, decreaseExponent, Nat.shiftLeft_eq, hk, ha, hb, Sign.apply,
      UnpackedFloat.normalize, hcompare, hnat]
  rw [hdifference, hxu, hyu, hcore, hleft, hright, ← sub_mul, ← Nat.cast_sub hpos.le]
  exact rounds_pack (near_round _ (by omega) (by omega) (by omega) (by omega))

/-- **A word is rounded to a float.** -/
theorem rounds_ofWord {n : Nat} (hpos : 0 < n) (hn : n < wordLimit) : RoundsTo n (ofWord n) := by
  have hlog : n.log2 < 64 := (Nat.log2_lt hpos.ne').2 hn
  have hword : n.toUInt64.toNat = n := UInt64.toNat_ofNat_of_lt' hn
  have hround : ofWord n =
      .ofModel (.pack (UnpackedFloat.round Format.binary64 .positive n 0)) := by
    have hcompare : compare (n : Int) 0 = .gt := Int.compare_eq_gt.2 (by omega)
    change Float.ofModel (.pack (UnpackedFloat.normalize Format.binary64
      (n.toUInt64.toNat : Int) 0 .positive)) = _
    rw [hword, UnpackedFloat.normalize, hcompare]
    rfl
  have hself : (n : ℚ) = n * 2 ^ (0 : Int) := by rw [zpow_zero, mul_one]
  rw [hround, hself]
  exact rounds_pack (near_round _ hpos (by omega) (by omega) (by omega))

/-! ### Values -/

/-- The float is the normal number `v`. -/
def Holds (x : Float) (v : ℚ) : Prop := ∃ m e, Denotes x m e ∧ (m : ℚ) * 2 ^ e = v

/-- Whatever is rounded is off by a half of the last of 53 bits at most. -/
theorem RoundsTo.holds {q : ℚ} {x : Float} (h : RoundsTo q x) :
    ∃ v, Holds x v ∧ |v - q| ≤ v / 2 ^ 53 := by
  obtain ⟨m, e, hx, hnear⟩ := h
  have hpow : (0 : ℚ) < 2 ^ e := by positivity
  have hlow : (2 ^ 52 : ℚ) ≤ m := by exact_mod_cast hx.normal.low
  refine ⟨m * 2 ^ e, ⟨m, e, hx, rfl⟩, hnear.abs_sub_le.trans ?_⟩
  rw [div_le_div_iff₀ two_pos (by positivity)]
  nlinarith

/-- A number that is a float is rounded to it. -/
theorem Holds.roundsTo {x : Float} {v : ℚ} (h : Holds x v) : RoundsTo v x := by
  obtain ⟨m, e, hx, rfl⟩ := h
  exact ⟨m, e, hx, near_self m e⟩

/-- **Rounding keeps the order.** -/
theorem RoundsTo.mono {p q v w : ℚ} {x y : Float} (hp : RoundsTo p x) (hq : RoundsTo q y)
    (hx : Holds x v) (hy : Holds y w) (hle : p ≤ q) : v ≤ w := by
  obtain ⟨m, e, hx, rfl⟩ := hx
  obtain ⟨n, f, hy, rfl⟩ := hy
  obtain ⟨m', e', hx', hp⟩ := hp
  obtain ⟨rfl, rfl⟩ := hx.inj hx'
  obtain ⟨n', f', hy', hq⟩ := hq
  obtain ⟨rfl, rfl⟩ := hy.inj hy'
  by_contra hlt
  have hlt := lt_of_not_ge hlt
  -- a number that is rounded to both floats
  obtain ⟨r, hr, hr'⟩ : ∃ r, Near m e r ∧ Near n f r := by
    rcases le_total p ((n : ℚ) * 2 ^ f) with hbelow | habove
    · exact ⟨_, hp.between (near_self m e) hbelow hlt.le, near_self n f⟩
    · exact ⟨p, hp, (near_self n f).between hq habove hle⟩
  obtain ⟨rfl, rfl⟩ := hr.unique hx.normal hy.normal hr'
  exact lt_irrefl _ hlt

theorem RoundsTo.holds_of_near {q : ℚ} {x : Float} {m : Nat} {e : Int} (h : RoundsTo q x)
    (hnormal : IsNormal m e) (hnear : Near m e q) : Holds x ((m : ℚ) * 2 ^ e) := by
  obtain ⟨m', e', hx, hnear'⟩ := h
  obtain ⟨rfl, rfl⟩ := hnear.unique hnormal hx.normal hnear'
  exact ⟨m, e, hx, rfl⟩

theorem Holds.inj {x : Float} {v w : ℚ} (h : Holds x v) (h' : Holds x w) : v = w :=
  le_antisymm (h.roundsTo.mono h.roundsTo h h' le_rfl) (h.roundsTo.mono h.roundsTo h' h le_rfl)

/-- A magnitude with room for further computations on both sides. -/
structure Moderate (v : ℚ) : Prop where
  low : (2 : ℚ) ^ (-200 : Int) ≤ v
  high : v ≤ 2 ^ (200 : Int)

theorem Moderate.pos {v : ℚ} (h : Moderate v) : 0 < v := lt_of_lt_of_le (by positivity) h.low

theorem Denotes.exponent_of_moderate {x : Float} {m : Nat} {e : Int} (h : Denotes x m e)
    (hv : Moderate ((m : ℚ) * 2 ^ e)) : -253 < e ∧ e ≤ 148 := by
  have hpow : (0 : ℚ) < 2 ^ e := by positivity
  have hlow : (2 : ℚ) ^ (52 : Int) ≤ m := by exact_mod_cast h.normal.low
  have hhigh : (m : ℚ) < 2 ^ (53 : Int) := by exact_mod_cast h.normal.high
  constructor
  · have hlt : (2 : ℚ) ^ (-200 : Int) < 2 ^ (53 + e) := by
      rw [zpow_add₀ two_ne_zero]
      exact hv.low.trans_lt (mul_lt_mul_of_pos_right hhigh hpow)
    have := (zpow_lt_zpow_iff_right₀ one_lt_two).1 hlt
    omega
  · have hle : (2 : ℚ) ^ (52 + e) ≤ 2 ^ (200 : Int) := by
      rw [zpow_add₀ two_ne_zero]
      exact (mul_le_mul_of_nonneg_right hlow hpow.le).trans hv.high
    have := (zpow_le_zpow_iff_right₀ one_lt_two).1 hle
    omega

theorem Holds.div {x y : Float} {v w : ℚ} (hx : Holds x v) (hy : Holds y w) (hv : Moderate v)
    (hw : Moderate w) : RoundsTo (v / w) (x / y) := by
  obtain ⟨m, e, hx, rfl⟩ := hx
  obtain ⟨n, f, hy, rfl⟩ := hy
  obtain ⟨he, he'⟩ := hx.exponent_of_moderate hv
  obtain ⟨hf, hf'⟩ := hy.exponent_of_moderate hw
  exact rounds_div hx hy (by omega) (by omega)

theorem Holds.mul {x y : Float} {v w : ℚ} (hx : Holds x v) (hy : Holds y w) (hv : Moderate v)
    (hw : Moderate w) : RoundsTo (v * w) (x * y) := by
  obtain ⟨m, e, hx, rfl⟩ := hx
  obtain ⟨n, f, hy, rfl⟩ := hy
  obtain ⟨he, he'⟩ := hx.exponent_of_moderate hv
  obtain ⟨hf, hf'⟩ := hy.exponent_of_moderate hw
  exact rounds_mul hx hy (by omega) (by omega)

theorem Holds.add {x y : Float} {v w : ℚ} (hx : Holds x v) (hy : Holds y w) (hv : Moderate v)
    (hw : Moderate w) : RoundsTo (v + w) (x + y) := by
  obtain ⟨m, e, hx, rfl⟩ := hx
  obtain ⟨n, f, hy, rfl⟩ := hy
  obtain ⟨-, he⟩ := hx.exponent_of_moderate hv
  obtain ⟨-, hf⟩ := hy.exponent_of_moderate hw
  exact rounds_add hx hy (by omega) (by omega)

theorem Holds.sub {x y : Float} {v w : ℚ} (hx : Holds x v) (hy : Holds y w) (hv : Moderate v)
    (hw : Moderate w) (hlt : w < v) : RoundsTo (v - w) (x - y) := by
  obtain ⟨m, e, hx, rfl⟩ := hx
  obtain ⟨n, f, hy, rfl⟩ := hy
  obtain ⟨he, he'⟩ := hx.exponent_of_moderate hv
  obtain ⟨hf, hf'⟩ := hy.exponent_of_moderate hw
  exact rounds_sub hx hy (by omega) (by omega) (by omega) hlt

end Lockstep.Decimal
