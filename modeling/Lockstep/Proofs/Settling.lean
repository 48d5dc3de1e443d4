import Lockstep.Bucket
import Lockstep.Proofs.Pausing

/-!
# What comes of settling a bucket

The time since a bucket was last settled is turned into whole permits, and the fraction that is left
is carried over.  Both are computed with floats, so some of the time may get lost.

* `Decimal.holds_wholePart` : the whole part of a float, and `Decimal.shows_sub_wholePart` : what is
  left of the float without it;
* `Rate.Sound.shows_accrued` : the part of a permit that comes with some time;
* `Rate.Sound.settles` : **the fraction never exceeds one permit; and as long as no whole permit
  comes of it, it grows with any time that is worth more than its last bit.**
-/

namespace Lockstep

namespace Decimal

open Float.Model Float.Model.UnpackedFloat

variable {x : Float} {v : ℚ}

/-! ### Whole parts -/

/-- There is nothing whole in what is less than one. -/
theorem wholePart_of_lt_one (hx : Holds x v) (hv : v < 1) : wholePart x = 0.0 := by
  obtain ⟨m, e, hx, rfl⟩ := hx
  have hlow : (2 : ℚ) ^ (52 : Int) ≤ m := by exact_mod_cast hx.normal.low
  have hsmall : 52 + e < 0 := by
    have hlt : (2 : ℚ) ^ (52 + e) < 2 ^ (0 : Int) := by
      rw [zpow_add₀ two_ne_zero, zpow_zero]
      exact (mul_le_mul_of_nonneg_right hlow (by positivity)).trans_lt hv
    exact (zpow_lt_zpow_iff_right₀ one_lt_two).1 hlt
  have hunit : m < 2 ^ e.natAbs :=
    hx.normal.high.trans_le (Nat.pow_le_pow_right two_pos (by omega))
  have hpos := hx.normal.pos
  unfold wholePart
  simp only [hx.parts, Nat.pow_eq, if_neg (show ¬ 0 ≤ e by omega), Nat.mod_eq_of_lt hunit,
    if_neg hpos.ne', Nat.div_eq_of_lt hunit, Bool.false_eq_true, if_false]
  decide +kernel

/-- **The whole part of a float** is less than one below it, and what is cut off has no more places
than the float. -/
theorem holds_wholePart (hx : Holds x v) (hv : 1 ≤ v) :
    ∃ w, Holds (wholePart x) w ∧ 1 ≤ w ∧ v < w + 1 ∧ (w = v ∨ w + 1 / 2 ^ 52 ≤ v) := by
  obtain ⟨m, e, hx, rfl⟩ := hx
  have hself : Holds x ((m : ℚ) * 2 ^ e) := ⟨m, e, hx, rfl⟩
  unfold wholePart
  simp only [hx.parts, Nat.pow_eq, Bool.false_eq_true, if_false]
  split
  · exact ⟨_, hself, hv, lt_add_one _, .inl rfl⟩
  split
  · exact ⟨_, hself, hv, lt_add_one _, .inl rfl⟩
  next he hmod =>
  obtain ⟨k, rfl⟩ : ∃ k : Nat, e = -k := ⟨e.natAbs, by omega⟩
  rw [Int.natAbs_neg, Int.natAbs_natCast] at hmod ⊢
  have hpow : (0 : ℚ) < 2 ^ k := by positivity
  have hsplit : (m : ℚ) * 2 ^ (-k : Int) = (m / 2 ^ k : Nat) + (m % 2 ^ k : Nat) / 2 ^ k := by
    have hdiv : ((m / 2 ^ k : Nat) : ℚ) * 2 ^ k + (m % 2 ^ k : Nat) = m := by
      exact_mod_cast Nat.div_add_mod' m (2 ^ k)
    rw [zpow_neg, zpow_natCast, ← hdiv]
    field_simp
  have hone : 2 ^ k ≤ m := by
    rw [zpow_neg, zpow_natCast, ← div_eq_mul_inv, le_div_iff₀ hpow, one_mul] at hv
    exact_mod_cast hv
  have hplaces : k ≤ 52 := by
    have := (Nat.pow_lt_pow_iff_right one_lt_two).1 (hone.trans_lt hx.normal.high)
    omega
  have hwhole : 1 ≤ m / 2 ^ k := (Nat.one_le_div_iff (by positivity)).2 hone
  have hrest : ((m % 2 ^ k : Nat) : ℚ) < 2 ^ k := by
    exact_mod_cast Nat.mod_lt m (by positivity)
  refine ⟨(m / 2 ^ k : Nat), ?_, by exact_mod_cast hwhole, ?_, .inr ?_⟩
  · exact holds_ofWord hwhole ((Nat.div_le_self _ _).trans_lt hx.normal.high)
  · rw [hsplit, add_lt_add_iff_left, div_lt_one hpow]
    exact hrest
  · have hsome : (1 : ℚ) ≤ (m % 2 ^ k : Nat) := by exact_mod_cast Nat.pos_of_ne_zero hmod
    rw [hsplit, add_le_add_iff_left]
    exact div_le_div₀ (by linarith) hsome hpow (pow_le_pow_right₀ one_le_two hplaces)

theorem Holds.sub_zero (hx : Holds x v) : x - 0.0 = x := by
  obtain ⟨m, e, hx, -⟩ := hx
  obtain ⟨hm, hunpack⟩ := hx.unpack
  have hzero : (0.0 : Float).toModel.unpack = .zero .positive := rfl
  change Float.ofModel (.pack (UnpackedFloat.sub _ x.toModel.unpack _)) = x
  rw [hunpack, hzero]
  exact (denotes_pack hx.normal hm).unique hx

theorem Holds.sub_self (hx : Holds x v) : x - x = 0.0 := by
  obtain ⟨m, e, hx, -⟩ := hx
  obtain ⟨hm, hunpack⟩ := hx.unpack
  have hnone : UnpackedFloat.sub Format.binary64 (.finite .positive m e hm)
      (.finite .positive m e hm) = .zero .positive := by
    simp only [UnpackedFloat.sub, Int.sub_self, UnpackedFloat.normalize]
    rfl
  change Float.ofModel (.pack (UnpackedFloat.sub _ x.toModel.unpack x.toModel.unpack)) = 0.0
  rw [hunpack, hnone]
  rfl

/-- **What is left of a float without its whole part** is one at most. -/
theorem shows_sub_wholePart (hx : Holds x v) (hv : Moderate v) :
    ∃ q, Shows (x - wholePart x) q ∧ q ≤ 1 := by
  rcases lt_or_ge v 1 with hlt | hge
  · rw [wholePart_of_lt_one hx hlt, hx.sub_zero]
    exact ⟨v, .inr ⟨hx, hv⟩, hlt.le⟩
  · obtain ⟨w, hw, hone, hlt, rfl | hcut⟩ := holds_wholePart hx hge
    · rw [hw.roundsTo.unique hx.roundsTo, hx.sub_self]
      exact ⟨0, .inl ⟨rfl, rfl⟩, zero_le_one⟩
    · have hless : w < v := lt_of_lt_of_le (lt_add_of_pos_right w (by norm_num)) hcut
      have hwmoderate : Moderate w :=
        ⟨le_trans (by norm_num) hone, hless.le.trans hv.high⟩
      have hround := hx.sub hw hv hwmoderate hless
      obtain ⟨q, hq, hqpos, hwq⟩ := hround.within
      have hle : q ≤ 1 := hround.mono holds_one.roundsTo hq holds_one (by linarith)
      refine ⟨q, .inr ⟨hq, ?_, hle.trans (by norm_num)⟩, hle⟩
      calc (2 : ℚ) ^ (-200 : Int) ≤ 1 / 2 ^ 52 / 2 := by norm_num
        _ ≤ (v - w) / 2 := by linarith
        _ ≤ q := by linarith [(hwq.of_le hqpos.le (by norm_num [unit] : unit ≤ 1)).high]

/-- Without any whole part a sum is left as it is. -/
theorem Shows.sub_wholePart (hx : Shows x v) (hv : v < 1) : x - wholePart x = x := by
  rcases hx with ⟨rfl, -⟩ | ⟨hx, -⟩
  · decide +kernel
  · rw [wholePart_of_lt_one hx hv, hx.sub_zero]

theorem Holds.mul_zero (hx : Holds x v) : x * 0.0 = 0.0 := by
  obtain ⟨m, e, hx, -⟩ := hx
  obtain ⟨hm, hunpack⟩ := hx.unpack
  have hzero : (0.0 : Float).toModel.unpack = .zero .positive := rfl
  change Float.ofModel (.pack (UnpackedFloat.mul _ x.toModel.unpack _)) = 0.0
  rw [hunpack, hzero]
  rfl

/-! ### Whole permits -/

/-- A positive number is not less than zero. -/
theorem Holds.not_lt_zero (hx : Holds x v) : ¬ x < 0.0 := by
  obtain ⟨m, e, hx, -⟩ := hx
  obtain ⟨hm, hunpack⟩ := hx.unpack
  have hzero : (0.0 : Float).toModel.unpack = .zero .positive := rfl
  intro hlt
  have hless : UnpackedFloat.lt x.toModel.unpack (0.0 : Float).toModel.unpack = true :=
    of_decide_eq_true hlt
  rw [hunpack, hzero] at hless
  cases hless

/-- What is at least one counts as at least one. -/
theorem one_le_toUInt64 (hx : Holds x v) (hv : 1 ≤ v) : 1 ≤ x.toUInt64.toNat := by
  obtain ⟨m, e, hx, rfl⟩ := hx
  obtain ⟨hm, hunpack⟩ := hx.unpack
  have hclamp : x.toUInt64 = .ofNatClamp (roundToInt .positive m e).toNat := by
    change UInt64.ofNatClamp (UnpackedFloat.toInt 0 _ x.toModel.unpack).toNat = _
    rw [hunpack]
    rfl
  have hwhole : 1 ≤ (roundToInt .positive m e).toNat := by
    simp only [roundToInt, decreaseExponent, shiftToExponent, mantissa_shiftRight,
      mantissa_ofMantissaAndAccuracy, Nat.shiftLeft_eq, Sign.apply, Int.toNat_natCast]
    rw [zpow_eq_div two_ne_zero, ← mul_div_assoc, one_le_div (by positivity)] at hv
    have hshift : (0 - (e - ((e - 0).toNat : Nat))).toNat = (-e).toNat := by omega
    rw [hshift, Int.sub_zero]
    exact (Nat.one_le_div_iff (by positivity)).2 (by exact_mod_cast hv)
  rw [hclamp, UInt64.ofNatClamp]
  split
  · next hlt => rwa [UInt64.toNat_ofNatLT]
  · decide

end Decimal

namespace Rate

open Decimal

variable {r : Rate}

/-! ### Permits that come with the time -/

/-- **The permits a second of a rate** are the count by the interval, with a small error. -/
theorem Sound.holds_perSecond (h : r.Sound) : ∃ p, Holds r.perSecond p ∧ Moderate p ∧
    Within (16 * unit) p (r.count / (r.interval.nanos / 10 ^ 9)) := by
  obtain ⟨a, ha, hwa, -⟩ := r.interval.shows_toSeconds
  have hinterval : (0 : ℚ) < r.interval.nanos := by exact_mod_cast h.interval
  have hcount : (1 : ℚ) ≤ r.count := by exact_mod_cast h.count
  have hapos : 0 < a :=
    pos_of_mul_pos_right (lt_of_lt_of_le (by positivity) hwa.high) (by norm_num [unit])
  obtain ⟨ha, hamoderate⟩ := ha.of_pos hapos
  obtain ⟨b, hb, hbpos, hwb⟩ := (rounds_ofWord h.count h.word).within
  have hround := hb.div ha (moderate_digits h.count h.word hbpos hwb) hamoderate
  obtain ⟨p, hp, hppos, hwp⟩ := hround.within
  have hwp := ((hwb.quotient hwa hbpos.le hapos (by norm_num [unit]) (by norm_num [unit])
    (by norm_num [unit]) (by norm_num [unit])).trans hwp hppos.le (by norm_num [unit])
    (by norm_num [unit]) (by norm_num [unit])).of_le hppos.le
    (by norm_num [unit] : unit + 4 * (3 * unit) + unit + (unit + 4 * (3 * unit)) * unit ≤ 16 * unit)
  have hlong : (r.interval.nanos : ℚ) < 2 ^ 64 * 10 ^ 9 := by exact_mod_cast r.interval.inRange
  have hword : (r.count : ℚ) < 2 ^ 64 := by exact_mod_cast h.word
  refine ⟨p, hp, hwp.moderate hppos (by norm_num [unit]) ?_ ?_, hwp⟩
  · rw [div_le_div_iff₀ (by positivity) (by positivity)]
    linarith
  · have hnano : (1 : ℚ) ≤ r.interval.nanos := by exact_mod_cast h.interval
    rw [div_le_iff₀ (by positivity)]
    linarith

/-- **The part of a permit that comes with some time** is what the rate says, with a small error. -/
theorem Sound.shows_accrued (h : r.Sound) (d : Duration) :
    ∃ x, Shows (r.perSecond * d.toSeconds) x ∧
      Within (32 * unit) x (r.count * d.nanos / r.interval.nanos) ∧ x ≤ 2 ^ (198 : Int) := by
  obtain ⟨p, hp, hpmoderate, hwp⟩ := h.holds_perSecond
  obtain ⟨s, hs, hws, -⟩ := d.shows_toSeconds
  rcases hs with ⟨hs, rfl⟩ | ⟨hs, hsmoderate⟩
  · have hnone : (d.nanos : ℚ) = 0 := by
      have := hws.high
      have := d.nanos.cast_nonneg (α := ℚ)
      linarith
    rw [hs, hp.mul_zero, hnone, mul_zero, zero_div]
    exact ⟨0, .inl ⟨rfl, rfl⟩, within_zero, by positivity⟩
  · have hround := hp.mul hs hpmoderate hsmoderate
    obtain ⟨x, hx, hxpos, hwx⟩ := hround.within
    have hproduct := hwp.product hws hpmoderate.pos.le hsmoderate.pos.le (by norm_num [unit])
      (by norm_num [unit]) (by norm_num [unit]) (by norm_num [unit])
    have hwx := (hproduct.trans hwx hxpos.le (by norm_num [unit]) (by norm_num [unit])
      (by norm_num [unit])).of_le hxpos.le (by norm_num [unit] : _ ≤ 32 * unit)
    have hinterval : (0 : ℚ) < r.interval.nanos := by exact_mod_cast h.interval
    have hexact : (r.count : ℚ) / (r.interval.nanos / 10 ^ 9) * (d.nanos / 10 ^ 9) =
        r.count * d.nanos / r.interval.nanos := by field_simp
    rw [hexact] at hwx
    have hcount : (1 : ℚ) ≤ r.count := by exact_mod_cast h.count
    have hword : (r.count : ℚ) ≤ 2 ^ 64 := by exact_mod_cast h.word.le
    have hnano : (1 : ℚ) ≤ r.interval.nanos := by exact_mod_cast h.interval
    have hlong : (r.interval.nanos : ℚ) ≤ 2 ^ 64 * 10 ^ 9 := by
      exact_mod_cast r.interval.inRange.le
    have hlapse : (1 : ℚ) ≤ d.nanos := by
      have hpos : 0 < (d.nanos : ℚ) / 10 ^ 9 :=
        (mul_pos (by norm_num [unit]) hsmoderate.pos).trans_le hws.low
      exact_mod_cast Nat.pos_of_ne_zero fun hzero => by simp [hzero] at hpos
    have hlast : (d.nanos : ℚ) ≤ 2 ^ 64 * 10 ^ 9 := by exact_mod_cast d.inRange.le
    have hlow : 1 / (2 ^ 64 * 10 ^ 9) ≤ (r.count * d.nanos / r.interval.nanos : ℚ) :=
      div_le_div₀ (by positivity) (one_le_mul_of_one_le_of_one_le hcount hlapse) hinterval hlong
    have hhigh : (r.count * d.nanos / r.interval.nanos : ℚ) ≤ 2 ^ 64 * (2 ^ 64 * 10 ^ 9) :=
      (div_le_self (by positivity) hnano).trans (mul_le_mul hword hlast (by positivity)
        (by positivity))
    have hxhigh : x ≤ 2 ^ (198 : Int) := by
      refine (hwx.le_two_mul hxpos.le (by norm_num [unit])).trans ?_
      refine (mul_le_mul_of_nonneg_left hhigh two_pos.le).trans (by norm_num)
    refine ⟨x, .inr ⟨hx, ?_, hxhigh.trans (by norm_num)⟩, hwx, hxhigh⟩
    have hdouble := hlow.trans (hwx.of_le hxpos.le (by norm_num [unit] : _ ≤ (1 : ℚ))).high
    refine le_trans ?_ (by linarith : 1 / (2 ^ 64 * 10 ^ 9) / 2 ≤ x)
    norm_num

/-- **The fraction of a permit is one at most**, however often the bucket is settled.  As long as no
whole permit comes of it, it never gets less, and any time that brings `1 / 2 ^ 51` of a permit makes
it greater. -/
theorem Sound.settles (h : r.Sound) {f : Float} {q : ℚ} (hf : Shows f q) (hq : q ≤ 1)
    (d : Duration) : ∃ q', Shows (accrue d r.perSecond f).2 q' ∧ q' ≤ 1 ∧
      ((accrue d r.perSecond f).1 = 0 → q ≤ q' ∧
        (r.interval.nanos ≤ 2 ^ 51 * (r.count * d.nanos) → q + 1 / 2 ^ 53 ≤ q')) := by
  obtain ⟨x, hx, hwx, hxle⟩ := h.shows_accrued d
  obtain ⟨s, hs, hws, hle, -⟩ := hx.add hf ((add_le_add hxle hq).trans (by norm_num))
  unfold accrue
  simp only
  generalize r.perSecond * d.toSeconds + f = sum at hs ⊢
  rcases lt_or_ge s 1 with hlt | hge
  · rw [hs.sub_wholePart hlt]
    refine ⟨s, hs, hlt.le, fun _ => ⟨hle, fun hmuch => ?_⟩⟩
    have hinterval : (0 : ℚ) < r.interval.nanos := by exact_mod_cast h.interval
    have hworth : 1 / 2 ^ 51 ≤ (r.count * d.nanos / r.interval.nanos : ℚ) := by
      rw [div_le_div_iff₀ (by positivity) hinterval]
      have : (r.interval.nanos : ℚ) ≤ 2 ^ 51 * (r.count * d.nanos) := by exact_mod_cast hmuch
      linarith
    have hgain := hworth.trans hwx.high
    have hsum := hws.high
    unfold unit at hgain hsum
    linarith
  · obtain ⟨hholds, hmoderate⟩ := hs.of_pos (zero_lt_one.trans_le hge)
    obtain ⟨q', hq', hle'⟩ := shows_sub_wholePart hholds hmoderate
    refine ⟨q', hq', hle', fun hnone => ?_⟩
    obtain ⟨w, hw, hone, -⟩ := holds_wholePart hholds hge
    -- a whole part counts as a permit
    have hmany := one_le_toUInt64 hw hone
    rw [if_neg hw.not_lt_zero] at hnone
    split at hnone
    · cases hnone
    · omega

end Rate

end Lockstep
