import Lockstep.Decimal.Nearest
import Lockstep.Json.Read
import Lockstep.Proofs.Arithmetic

/-!
# Decimals that are read as floats

A decimal is read as its digits, scaled by a power of ten.  The digits, the power and the result are
rounded one after the other.

* `rounds_nearest` : the float that is computed as the nearest one is;
* `Scaled.reread` : what a decimal is read as;
* `Scaled.holds_reread` : **a decimal is read with an error of less than four units of the last
  bit**;
* `Scaled.rounds_reread` : a short decimal is read as the nearest float.
-/

namespace Lockstep.Decimal

open Float.Model Float.Model.UnpackedFloat

/-! ### The nearest float -/

/-- The bits of a normal number are read as that number. -/
theorem denotes_ofBits {m : Nat} {e : Int} (h : IsNormal m e) {b : UInt64}
    (hb : b.toNat = (e + 1075).toNat * 2 ^ 52 + (m - 2 ^ 52)) : Denotes (Float.ofBits b) m e := by
  have hm := h.pos
  have hpacked := denotes_pack h hm
  have hbits : b = (Float.ofModel (.pack (.finite .positive m e hm))).toBits :=
    UInt64.toNat_inj.1 (hb.trans ((denotes_iff h).1 hpacked).symm)
  obtain ⟨hm', hunpack⟩ := hpacked.unpack
  have hfixed : Float.ofBits (Float.ofModel (.pack (.finite .positive m e hm))).toBits =
      .ofModel (.pack (.finite .positive m e hm)) :=
    congrArg (fun u => Float.ofModel (.pack u)) hunpack
  rw [hbits, hfixed]
  exact hpacked

theorem roundedMantissa_div (n d : Nat) :
    (ExtendedMantissa.ofMantissaAndAccuracy (n / d)
      (accuracyOfFraction (n % d) d)).roundedMantissa = roundHalfEven n d := by
  unfold accuracyOfFraction roundHalfEven
  by_cases hzero : n % d = 0
  · rw [hzero, if_pos rfl]
    change n / d = _
    rcases Nat.eq_zero_or_pos d with rfl | hd
    · simp
    · rw [if_pos (by omega)]
  · rw [if_neg hzero]
    rcases lt_trichotomy (2 * (n % d)) d with hlt | heq | hgt
    · simp only [Nat.compare_eq_lt.2 hlt, if_pos hlt]
      rfl
    · simp only [Nat.compare_eq_eq.2 heq, if_neg heq.not_lt, if_neg heq.not_gt]
      change n / d + n / d % 2 = _
      split <;> omega
    · simp only [Nat.compare_eq_gt.2 hgt, if_neg hgt.not_gt, if_pos hgt]
      rfl

/-- A power is a quotient of two natural powers. -/
theorem zpow_eq_div {b : ℚ} (hb : b ≠ 0) (e : Int) : b ^ e = b ^ e.toNat / b ^ (-e).toNat := by
  rw [← zpow_natCast, ← zpow_natCast, ← zpow_sub₀ hb]
  congr 1
  omega

/-- The exponent for which the mantissa of a quotient has 53 bits. -/
theorem exponent_of_quotient {n d : Nat} (hn : 0 < n) (hd : 0 < d) {k e : Int}
    (hk : (n.log2 : Int) - d.log2 = k)
    (he : (if d * Nat.pow 2 k.toNat ≤ n * Nat.pow 2 (-k).toNat then k - 52 else k - 53) = e) :
    (2 ^ 52 : ℚ) * 2 ^ e ≤ n / d ∧ (n : ℚ) / d < 2 ^ 53 * 2 ^ e := by
  have hnpos : (0 : ℚ) < n := by exact_mod_cast hn
  have hdpos : (0 : ℚ) < d := by exact_mod_cast hd
  have hnlow : (2 : ℚ) ^ (n.log2 : Int) ≤ n := by exact_mod_cast Nat.log2_self_le hn.ne'
  have hnhigh : (n : ℚ) < 2 ^ ((n.log2 + 1 : Nat) : Int) := by exact_mod_cast Nat.lt_log2_self
  have hdlow : (2 : ℚ) ^ (d.log2 : Int) ≤ d := by exact_mod_cast Nat.log2_self_le hd.ne'
  have hdhigh : (d : ℚ) < 2 ^ ((d.log2 + 1 : Nat) : Int) := by exact_mod_cast Nat.lt_log2_self
  have hfull : d * Nat.pow 2 k.toNat ≤ n * Nat.pow 2 (-k).toNat ↔ (2 : ℚ) ^ k ≤ n / d := by
    rw [zpow_eq_div two_ne_zero, div_le_div_iff₀ (by positivity) hdpos, mul_comm]
    exact_mod_cast Iff.rfl
  have hsplit (c : Nat) (f : Int) : (2 ^ c : ℚ) * 2 ^ f = 2 ^ (c + f) := by
    rw [zpow_add₀ two_ne_zero, zpow_natCast]
  rw [hsplit, hsplit]
  split at he
  · next h =>
    have habove : (n : ℚ) / d < 2 ^ (k + 1) := by
      calc (n : ℚ) / d < 2 ^ ((n.log2 + 1 : Nat) : Int) / 2 ^ (d.log2 : Int) :=
            div_lt_div₀ hnhigh hdlow (by positivity) (by positivity)
        _ = 2 ^ (k + 1) := by
          rw [← zpow_sub₀ two_ne_zero]
          congr 1
          omega
    have hbelow := hfull.1 h
    rw [show ((52 : Nat) : Int) + e = k by omega, show ((53 : Nat) : Int) + e = k + 1 by omega]
    exact ⟨hbelow, habove⟩
  · next h =>
    have hbelow : (2 : ℚ) ^ (k - 1) ≤ n / d := by
      calc (2 : ℚ) ^ (k - 1) = 2 ^ (n.log2 : Int) / 2 ^ ((d.log2 + 1 : Nat) : Int) := by
            rw [← zpow_sub₀ two_ne_zero]
            congr 1
            omega
        _ ≤ n / d := div_le_div₀ hnpos.le hnlow hdpos hdhigh.le
    have habove := lt_of_not_ge (mt hfull.2 h)
    rw [show ((52 : Nat) : Int) + e = k - 1 by omega, show ((53 : Nat) : Int) + e = k by omega]
    exact ⟨hbelow, habove⟩

/-- **The nearest float is what a quotient is rounded to.** -/
theorem rounds_nearest {n d : Nat} (hn : 0 < n) (hd : 0 < d)
    (hlow : (d.log2 : Int) - 900 ≤ n.log2) (hhigh : (n.log2 : Int) ≤ d.log2 + 900) :
    RoundsTo ((n : ℚ) / d) (nearest n d) := by
  have hdpos : (0 : ℚ) < d := by exact_mod_cast hd
  generalize hk : (n.log2 : Int) - d.log2 = k
  generalize he : (if d * Nat.pow 2 k.toNat ≤ n * Nat.pow 2 (-k).toNat then k - 52 else k - 53) = e
  obtain ⟨hfirst, hlast⟩ := exponent_of_quotient hn hd hk he
  have hrange : -1000 ≤ e ∧ e ≤ 900 := by
    rw [← he]
    split <;> omega
  have hpow : (0 : ℚ) < 2 ^ e := by positivity
  generalize hr : roundHalfEven (n * Nat.pow 2 (-e).toNat) (d * Nat.pow 2 e.toNat) = r
  have hbits : nearest n d = Float.ofBits
      (min ((e + 1074).toNat * Nat.pow 2 52 + r) (2047 * Nat.pow 2 52)).toUInt64 := by
    rw [nearest, if_neg hn.ne']
    simp only [hk, he, max_eq_left (by omega : (-1074 : Int) ≤ e), hr]
  -- the quotient counted in units of the last bit
  have hd' : 0 < d * Nat.pow 2 e.toNat := Nat.mul_pos hd (Nat.pow_pos two_pos)
  have hunits : (((n * Nat.pow 2 (-e).toNat : Nat) : ℚ) / (d * Nat.pow 2 e.toNat : Nat)) * 2 ^ e =
      n / d := by
    rw [zpow_eq_div two_ne_zero]
    push_cast [Nat.pow_eq]
    field_simp
  have hround := (stands_div (n * Nat.pow 2 (-e).toNat) hd').nearest
  rw [roundedMantissa_div, hr] at hround
  generalize ((n * Nat.pow 2 (-e).toNat : Nat) : ℚ) / (d * Nat.pow 2 e.toNat : Nat) = y
    at hunits hround
  rw [← hunits] at hfirst hlast ⊢
  have hylow : (2 ^ 52 : ℚ) ≤ y := le_of_mul_le_mul_right hfirst hpow
  have hyhigh : y < 2 ^ 53 := lt_of_mul_lt_mul_right hlast hpow.le
  obtain ⟨hrlow, hrhigh⟩ := hround.bits hylow hyhigh
  have hfits : (e + 1074).toNat * Nat.pow 2 52 + r ≤ 2047 * Nat.pow 2 52 := by
    simp only [Nat.pow_eq]
    omega
  have hword : ((e + 1074).toNat * Nat.pow 2 52 + r).toUInt64.toNat =
      (e + 1074).toNat * 2 ^ 52 + r := by
    refine (UInt64.toNat_ofNat_of_lt' ?_)
    simp only [Nat.pow_eq, UInt64.size]
    omega
  rw [hbits, min_eq_left hfits]
  rcases hrhigh.lt_or_eq with hlt | rfl
  · refine ⟨r, e, denotes_ofBits ⟨hrlow, hlt, by omega, by omega⟩ ?_, hround.near hylow⟩
    rw [hword]
    omega
  · refine ⟨2 ^ 52, e + 1, denotes_ofBits ⟨le_rfl, by decide, by omega, by omega⟩ ?_,
      hround.near_carried hyhigh⟩
    rw [hword]
    omega

/-- **The powers of ten are rounded to their floats.** -/
theorem rounds_powerOfTen {k : Nat} (hk : k ≤ 60) :
    RoundsTo (10 ^ k) (Json.Read.powerOfTen k) := by
  have hlog : (10 ^ k).log2 < 241 := by
    refine (Nat.log2_lt (by positivity)).2 ?_
    calc 10 ^ k ≤ 16 ^ k := Nat.pow_le_pow_left (by decide) k
      _ ≤ 16 ^ 60 := Nat.pow_le_pow_right (by decide) hk
      _ < 2 ^ 241 := by norm_num
  have hnearest : Json.Read.powerOfTen k = nearest (10 ^ k) 1 := by
    have hdigits : (Nat.toDigits 10 1).length = 1 := rfl
    have hzero : (-(k : Int)).toNat = 0 := by omega
    rw [Json.Read.powerOfTen, Scaled.toFloat, if_neg one_ne_zero]
    simp only [hdigits, Int.toNat_natCast, hzero, Nat.pow_eq, one_mul, pow_zero]
    rw [if_neg (by omega), if_neg (by omega)]
  have hone : Nat.log2 1 = 0 := rfl
  have hround := rounds_nearest (n := 10 ^ k) (d := 1) (by positivity) one_pos (by omega) (by omega)
  rw [hnearest]
  simpa using hround

/-! ### Relative errors -/

/-- The number `q` differs from `v` by at most the part `δ` of it. -/
structure Within (δ v q : ℚ) : Prop where
  low : (1 - δ) * v ≤ q
  high : q ≤ (1 + δ) * v

/-- Half a unit of the last of 53 bits. -/
def unit : ℚ := 1 / 2 ^ 53

theorem RoundsTo.within {q : ℚ} {x : Float} (h : RoundsTo q x) :
    ∃ v, Holds x v ∧ 0 < v ∧ Within unit v q := by
  obtain ⟨v, hx, hv⟩ := h.holds
  have hpos : 0 < v := by
    obtain ⟨m, e, hx, rfl⟩ := hx
    have : (0 : ℚ) < m := by exact_mod_cast hx.normal.pos
    positivity
  obtain ⟨hlow, hhigh⟩ := abs_le.1 hv
  refine ⟨v, hx, hpos, ?_, ?_⟩ <;> unfold unit <;> linarith

theorem Within.mul {a b c s t : ℚ} (ha : 0 < a) (hb : 0 < b) (hc : 0 < c) (hs : Within unit a s)
    (ht : Within unit b t) (hst : Within unit c (a * b)) : Within (4 * unit) c (s * t) := by
  have hu : (0 : ℚ) < 1 - unit := by norm_num [unit]
  have hu' : (0 : ℚ) < 1 + unit := by norm_num [unit]
  constructor
  · calc (1 - 4 * unit) * c ≤ (1 - unit) * (1 - unit) * (1 - unit) * c :=
          mul_le_mul_of_nonneg_right (by norm_num [unit]) hc.le
      _ = (1 - unit) * (1 - unit) * ((1 - unit) * c) := by ring
      _ ≤ (1 - unit) * (1 - unit) * (a * b) := mul_le_mul_of_nonneg_left hst.low (by positivity)
      _ = (1 - unit) * a * ((1 - unit) * b) := by ring
      _ ≤ s * t := mul_le_mul hs.low ht.low (by positivity) (le_trans (by positivity) hs.low)
  · calc s * t ≤ (1 + unit) * a * ((1 + unit) * b) :=
          mul_le_mul hs.high ht.high (le_trans (by positivity) ht.low) (by positivity)
      _ = (1 + unit) * (1 + unit) * (a * b) := by ring
      _ ≤ (1 + unit) * (1 + unit) * ((1 + unit) * c) :=
          mul_le_mul_of_nonneg_left hst.high (by positivity)
      _ = (1 + unit) * (1 + unit) * (1 + unit) * c := by ring
      _ ≤ (1 + 4 * unit) * c := mul_le_mul_of_nonneg_right (by norm_num [unit]) hc.le

theorem Within.div {a b c s t : ℚ} (ha : 0 < a) (hb : 0 < b) (hc : 0 < c) (hs : Within unit a s)
    (ht : Within unit b t) (hst : Within unit c (a / b)) : Within (4 * unit) c (s / t) := by
  have hu : (0 : ℚ) < 1 - unit := by norm_num [unit]
  have hu' : (0 : ℚ) < 1 + unit := by norm_num [unit]
  have htpos : 0 < t := lt_of_lt_of_le (by positivity) ht.low
  constructor
  · calc (1 - 4 * unit) * c ≤ (1 - unit) / (1 + unit) * (1 - unit) * c :=
          mul_le_mul_of_nonneg_right (by norm_num [unit]) hc.le
      _ = (1 - unit) / (1 + unit) * ((1 - unit) * c) := by ring
      _ ≤ (1 - unit) / (1 + unit) * (a / b) := mul_le_mul_of_nonneg_left hst.low (by positivity)
      _ = (1 - unit) * a / ((1 + unit) * b) := by field_simp
      _ ≤ s / t := div_le_div₀ (le_trans (by positivity) hs.low) hs.low htpos ht.high
  · calc s / t ≤ (1 + unit) * a / ((1 - unit) * b) :=
          div_le_div₀ (by positivity) hs.high (by positivity) ht.low
      _ = (1 + unit) / (1 - unit) * (a / b) := by field_simp
      _ ≤ (1 + unit) / (1 - unit) * ((1 + unit) * c) :=
          mul_le_mul_of_nonneg_left hst.high (by positivity)
      _ = (1 + unit) / (1 - unit) * (1 + unit) * c := by ring
      _ ≤ (1 + 4 * unit) * c := mul_le_mul_of_nonneg_right (by norm_num [unit]) hc.le

section

variable {δ ε u v w p q : ℚ}

theorem Within.of_le (h : Within δ v q) (hv : 0 ≤ v) (hle : δ ≤ ε) : Within ε v q :=
  ⟨(mul_le_mul_of_nonneg_right (sub_le_sub_left hle 1) hv).trans h.low,
    h.high.trans (mul_le_mul_of_nonneg_right (add_le_add_right hle 1) hv)⟩

theorem Within.le_two_mul (h : Within δ v q) (hv : 0 ≤ v) (hδ : δ ≤ 1 / 2) : v ≤ 2 * q := by
  linarith [(h.of_le hv hδ).low]

/-- Errors add up. -/
theorem Within.trans (h : Within δ v q) (h' : Within ε u v) (hu : 0 ≤ u) (hδ : 0 ≤ δ)
    (hδ' : δ ≤ 1) (hε : 0 ≤ ε) : Within (δ + ε + δ * ε) u q := by
  have hsquare : 0 ≤ δ * ε * u := by positivity
  constructor
  · calc (1 - (δ + ε + δ * ε)) * u ≤ (1 - δ) * ((1 - ε) * u) := by linarith
      _ ≤ (1 - δ) * v := mul_le_mul_of_nonneg_left h'.low (by linarith)
      _ ≤ q := h.low
  · calc q ≤ (1 + δ) * v := h.high
      _ ≤ (1 + δ) * ((1 + ε) * u) := mul_le_mul_of_nonneg_left h'.high (by linarith)
      _ = (1 + (δ + ε + δ * ε)) * u := by ring

theorem Within.add (h : Within δ v p) (h' : Within δ w q) : Within δ (v + w) (p + q) := by
  have := h.low
  have := h.high
  have := h'.low
  have := h'.high
  constructor <;> linarith

/-- A quotient is as inexact as the dividend and, a little more, the divisor. -/
theorem Within.quotient (h : Within δ v p) (h' : Within ε w q) (hv : 0 ≤ v) (hw : 0 < w)
    (hδ : 0 ≤ δ) (hδ' : δ ≤ 1) (hε : 0 ≤ ε) (hε' : ε ≤ 1 / 2) :
    Within (δ + 4 * ε) (v / w) (p / q) := by
  have hq : 0 < q := lt_of_lt_of_le (mul_pos (by linarith) hw) h'.low
  have hp : 0 ≤ p := le_trans (mul_nonneg (by linarith) hv) h.low
  have hshare : 0 ≤ v / w := by positivity
  constructor
  · have hfactor : 1 - (δ + 4 * ε) ≤ (1 - δ) / (1 + ε) := by
      rw [le_div_iff₀ (by linarith)]
      nlinarith
    calc (1 - (δ + 4 * ε)) * (v / w) ≤ (1 - δ) / (1 + ε) * (v / w) :=
          mul_le_mul_of_nonneg_right hfactor hshare
      _ = (1 - δ) * v / ((1 + ε) * w) := by field_simp
      _ ≤ p / q := div_le_div₀ hp h.low hq h'.high
  · have hfactor : (1 + δ) / (1 - ε) ≤ 1 + (δ + 4 * ε) := by
      rw [div_le_iff₀ (by linarith)]
      nlinarith
    calc p / q ≤ (1 + δ) * v / ((1 - ε) * w) :=
          div_le_div₀ (by positivity) h.high (mul_pos (by linarith) hw) h'.low
      _ = (1 + δ) / (1 - ε) * (v / w) := by
        have : 1 - ε ≠ 0 := by linarith
        field_simp
      _ ≤ (1 + (δ + 4 * ε)) * (v / w) := mul_le_mul_of_nonneg_right hfactor hshare

/-- The errors of the factors add up in a product. -/
theorem Within.product (h : Within δ v p) (h' : Within ε w q) (hv : 0 ≤ v) (hw : 0 ≤ w)
    (hδ : 0 ≤ δ) (hδ' : δ ≤ 1) (hε : 0 ≤ ε) (hε' : ε ≤ 1) :
    Within (δ + ε + δ * ε) (v * w) (p * q) := by
  have hq : 0 ≤ q := le_trans (mul_nonneg (by linarith) hw) h'.low
  have hp : 0 ≤ p := le_trans (mul_nonneg (by linarith) hv) h.low
  have hsquare : 0 ≤ δ * ε * (v * w) := by positivity
  constructor
  · calc (1 - (δ + ε + δ * ε)) * (v * w) ≤ (1 - δ) * v * ((1 - ε) * w) := by linarith
      _ ≤ p * q := mul_le_mul h.low h'.low (mul_nonneg (by linarith) hw) hp
  · calc p * q ≤ (1 + δ) * v * ((1 + ε) * w) :=
          mul_le_mul h.high h'.high hq (by positivity)
      _ = (1 + (δ + ε + δ * ε)) * (v * w) := by ring

end

/-! ### Scaling by powers of ten -/

/-- The decimal as a number. -/
def Scaled.value (d : Scaled) : ℚ := d.digits * 10 ^ d.exponent

/-- The float that a decimal is read as. -/
def Scaled.reread (d : Scaled) : Float :=
  if 0 ≤ d.exponent then ofWord d.digits * Json.Read.powerOfTen d.exponent.natAbs
  else ofWord d.digits / Json.Read.powerOfTen d.exponent.natAbs

/-- Numbers between `10 ^ -40` and `10 ^ 40` are moderate, also with an error. -/
theorem Within.moderate {δ v q : ℚ} (h : Within δ v q) (hv : 0 < v) (hδ : δ ≤ 1 / 2)
    (hlow : 1 / 10 ^ 40 ≤ q) (hhigh : q ≤ 10 ^ 40) : Moderate v := by
  constructor
  · calc (2 : ℚ) ^ (-200 : Int) ≤ 1 / 10 ^ 40 / 2 := by norm_num
      _ ≤ q / 2 := div_le_div_of_nonneg_right hlow two_pos.le
      _ ≤ v := by linarith [(h.of_le hv.le hδ).high]
  · calc v ≤ 2 * q := h.le_two_mul hv.le hδ
      _ ≤ 2 * 10 ^ 40 := mul_le_mul_of_nonneg_left hhigh two_pos.le
      _ ≤ 2 ^ (200 : Int) := by norm_num

theorem moderate_digits {n : Nat} (hpos : 0 < n) (hn : n < wordLimit) {v : ℚ} (hv : 0 < v)
    (h : Within unit v n) : Moderate v := by
  have hlow : (1 : ℚ) ≤ n := by exact_mod_cast hpos
  have hhigh : (n : ℚ) < 10 ^ 40 := by exact_mod_cast lt_of_lt_of_le hn (by decide)
  exact h.moderate hv (by norm_num [unit]) (le_trans (by norm_num) hlow) hhigh.le

theorem moderate_power {k : Nat} (hk : k ≤ 40) {v : ℚ} (hv : 0 < v) (h : Within unit v (10 ^ k)) :
    Moderate v := by
  have hlow : (1 : ℚ) ≤ 10 ^ k := one_le_pow₀ (by norm_num)
  have hhigh : (10 : ℚ) ^ k ≤ 10 ^ 40 := pow_le_pow_right₀ (by norm_num) hk
  exact h.moderate hv (by norm_num [unit]) (le_trans (by norm_num) hlow) hhigh

theorem Scaled.value_of_nonneg {d : Scaled} (h : 0 ≤ d.exponent) :
    d.value = d.digits * 10 ^ d.exponent.natAbs := by
  rw [Scaled.value, ← zpow_natCast, Int.natAbs_of_nonneg h]

theorem Scaled.value_of_neg {d : Scaled} (h : d.exponent < 0) :
    d.value = d.digits / 10 ^ d.exponent.natAbs := by
  rw [Scaled.value, ← zpow_natCast, Int.natCast_natAbs, abs_of_neg h, zpow_neg, div_inv_eq_mul]

/-- **A decimal is read with a small error.** -/
theorem Scaled.holds_reread {d : Scaled} (hdigits : 0 < d.digits) (hword : d.digits < wordLimit)
    (hexponent : d.exponent.natAbs ≤ 40) :
    ∃ v, Holds d.reread v ∧ 0 < v ∧ Within (4 * unit) v d.value := by
  obtain ⟨a, ha, hapos, hwa⟩ := (rounds_ofWord hdigits hword).within
  obtain ⟨b, hb, hbpos, hwb⟩ := (rounds_powerOfTen (hexponent.trans (by decide))).within
  have hamoderate := moderate_digits hdigits hword hapos hwa
  have hbmoderate := moderate_power hexponent hbpos hwb
  rw [Scaled.reread]
  split
  · next hpos =>
    obtain ⟨c, hc, hcpos, hwc⟩ := (ha.mul hb hamoderate hbmoderate).within
    exact ⟨c, hc, hcpos, Scaled.value_of_nonneg hpos ▸ hwa.mul hapos hbpos hcpos hwb hwc⟩
  · next hneg =>
    obtain ⟨c, hc, hcpos, hwc⟩ := (ha.div hb hamoderate hbmoderate).within
    exact ⟨c, hc, hcpos,
      Scaled.value_of_neg (not_le.1 hneg) ▸ hwa.div hapos hbpos hcpos hwb hwc⟩

/-! ### Short decimals -/

/-- A number of 53 bits and fewer is a float, also when it is scaled by a power of two. -/
theorem exists_holds {n : Nat} (hpos : 0 < n) (hn : n < 2 ^ 53) {k : Nat} (hk : k ≤ 900) :
    ∃ x, Holds x (n * 2 ^ k) := by
  have hlog : n.log2 < 53 := (Nat.log2_lt hpos.ne').2 hn
  obtain ⟨j, hj⟩ := Nat.exists_eq_add_of_le (Nat.le_of_lt_succ hlog)
  have hself := Nat.log2_self_le hpos.ne'
  have hnext := Nat.lt_log2_self (n := n)
  have hnormal : IsNormal (n * 2 ^ j) (k - j) := by
    refine ⟨?_, ?_, by omega, by omega⟩
    · rw [hj, pow_add]
      exact Nat.mul_le_mul_right _ hself
    · rw [show 53 = n.log2 + 1 + j by omega, pow_add]
      exact Nat.mul_lt_mul_of_pos_right hnext (by positivity)
  refine ⟨_, n * 2 ^ j, k - j, denotes_pack hnormal (by positivity), ?_⟩
  rw [zpow_sub₀ two_ne_zero, zpow_natCast, zpow_natCast]
  push_cast
  field_simp

/-- What is rounded stays the same when it is a float. -/
theorem RoundsTo.holds_of_exact {q : ℚ} {x : Float} (h : RoundsTo q x) (hq : ∃ y, Holds y q) :
    Holds x q := by
  obtain ⟨y, hy⟩ := hq
  rwa [h.unique hy.roundsTo]

/-- A word of 53 bits and fewer is a float. -/
theorem holds_ofWord {n : Nat} (hpos : 0 < n) (hn : n < 2 ^ 53) : Holds (ofWord n) n := by
  have hword : n < wordLimit := hn.trans (by decide)
  exact (rounds_ofWord hpos hword).holds_of_exact
    (by simpa using exists_holds hpos hn (Nat.zero_le 900))

theorem within_zero {δ : ℚ} : Within δ 0 0 := by
  constructor <;> rw [mul_zero]

theorem within_self {v : ℚ} (hv : 0 < v) : Within unit v v := by
  constructor <;> norm_num [unit] <;> linarith

/-- **A short decimal is read as the nearest float.** -/
theorem Scaled.rounds_reread {d : Scaled} (hdigits : 0 < d.digits) (hshort : d.digits < 2 ^ 53)
    (hexponent : d.exponent.natAbs ≤ 22) : RoundsTo d.value d.reread := by
  have hword : d.digits < wordLimit := hshort.trans (by decide)
  have ha := holds_ofWord hdigits hshort
  have hb : Holds (Json.Read.powerOfTen d.exponent.natAbs) (10 ^ d.exponent.natAbs) := by
    refine (rounds_powerOfTen (hexponent.trans (by decide))).holds_of_exact ?_
    have hfive : 5 ^ d.exponent.natAbs < 2 ^ 53 :=
      lt_of_le_of_lt (Nat.pow_le_pow_right (by decide) hexponent) (by norm_num)
    obtain ⟨y, hy⟩ := exists_holds (n := 5 ^ d.exponent.natAbs) (by positivity) hfive
      (hexponent.trans (by decide : 22 ≤ 900))
    refine ⟨y, ?_⟩
    push_cast at hy
    rwa [← mul_pow, show (5 * 2 : ℚ) = 10 by norm_num] at hy
  have hdpos : (0 : ℚ) < d.digits := by exact_mod_cast hdigits
  have hppos : (0 : ℚ) < 10 ^ d.exponent.natAbs := by positivity
  have hamoderate := moderate_digits hdigits hword hdpos (within_self hdpos)
  have hbmoderate := moderate_power (hexponent.trans (by decide)) hppos (within_self hppos)
  rw [Scaled.reread]
  split
  · next hpos => exact Scaled.value_of_nonneg hpos ▸ ha.mul hb hamoderate hbmoderate
  · next hneg => exact Scaled.value_of_neg (not_le.1 hneg) ▸ ha.div hb hamoderate hbmoderate

end Lockstep.Decimal
