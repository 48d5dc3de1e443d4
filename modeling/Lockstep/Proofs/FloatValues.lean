import Lockstep.Decimal.Shortest
import Mathlib

/-!
# Floats as numbers

A positive float with all 53 bits is a number `m * 2 ^ e`, and every number within the range is
rounded to exactly one such float.

* `IsNormal` : the mantissas and exponents of these floats;
* `Denotes` : a float has a mantissa and an exponent; `Denotes.unpack` says what it is unpacked to,
  `denotes_pack` what it is packed from;
* `Near` : a number lies between the middles to the two neighbours of a float;
* `RoundsTo.unique` : **a number is rounded to one float only**.
-/

namespace Lockstep.Decimal

open Float.Model Float.Model.UnpackedFloat

/-- A mantissa with all 53 bits, and an exponent that leaves room on both sides. -/
structure IsNormal (m : Nat) (e : Int) : Prop where
  low : 2 ^ 52 ≤ m
  high : m < 2 ^ 53
  above : -1074 < e
  below : e ≤ 971

theorem IsNormal.pos {m : Nat} {e : Int} (h : IsNormal m e) : 0 < m :=
  Nat.lt_of_lt_of_le (by decide) h.low

/-- The float is the positive number `m * 2 ^ e`, written with all 53 bits. -/
structure Denotes (x : Float) (m : Nat) (e : Int) : Prop where
  parts : parts x = ⟨false, .finite m e⟩
  normal : IsNormal m e

theorem toNat_packComponents (s : Sign) (e : BitVec 11) (m : BitVec 52) :
    (packComponents Format.binary64 s e m).toNat =
      (s.toBitVec.toNat * 2 ^ 11 + e.toNat) * 2 ^ 52 + m.toNat := by
  rw [packComponents, BitVec.toNat_append, BitVec.toNat_append]
  rw [← Nat.shiftLeft_add_eq_or_of_lt e.isLt, ← Nat.shiftLeft_add_eq_or_of_lt m.isLt,
    Nat.shiftLeft_eq, Nat.shiftLeft_eq]

theorem log2_of_isNormal {m : Nat} {e : Int} (h : IsNormal m e) : m.log2 = 52 :=
  (Nat.log2_eq_iff h.pos.ne').2 ⟨h.low, h.high⟩

/-- A normal number is packed as its exponent and the mantissa without its first bit. -/
theorem pack_eq_packComponents {m : Nat} {e : Int} (h : IsNormal m e) (hm : 0 < m) :
    UnpackedFloat.pack Format.binary64 (.finite .positive m e hm) =
      packComponents Format.binary64 .positive (BitVec.ofNat 11 (e + 1075).toNat)
        (BitVec.ofNat 52 m) := by
  obtain ⟨hlow, hhigh, habove, hbelow⟩ := h
  have hbias : (e + (Format.binary64.exponentBias : Int) + (52 : Nat)).toNat =
      (e + 1075).toNat := by
    have : (Format.binary64.exponentBias : Int) = 1023 := rfl
    omega
  have hroom : ¬ 2 ^ 11 ≤ (e + 1075).toNat + 1 := by omega
  have hlog : m.log2 + 1 = Format.binary64.mantissaBits := by
    rw [log2_of_isNormal ⟨hlow, hhigh, habove, hbelow⟩]
    rfl
  simp only [UnpackedFloat.pack]
  rw [hbias, if_neg hroom, if_pos hlog]

/-- The bits of a normal number. -/
theorem toNat_pack {m : Nat} {e : Int} (h : IsNormal m e) (hm : 0 < m) :
    (UnpackedFloat.pack Format.binary64 (.finite .positive m e hm)).toNat =
      (e + 1075).toNat * 2 ^ 52 + (m - 2 ^ 52) := by
  obtain ⟨hlow, hhigh, habove, hbelow⟩ := h
  rw [pack_eq_packComponents ⟨hlow, hhigh, habove, hbelow⟩, toNat_packComponents,
    BitVec.toNat_ofNat, BitVec.toNat_ofNat]
  have hsign : Sign.positive.toBitVec.toNat = 0 := rfl
  rw [hsign]
  omega

/-- A float with the bits of a normal number denotes it, and no other float does. -/
theorem denotes_iff {x : Float} {m : Nat} {e : Int} (h : IsNormal m e) :
    Denotes x m e ↔ x.toBits.toNat = (e + 1075).toNat * 2 ^ 52 + (m - 2 ^ 52) := by
  have hword : x.toBits.toNat < 2 ^ 64 := x.toBits.toNat_lt
  obtain ⟨hlow, hhigh, habove, hbelow⟩ := h
  constructor
  · rintro ⟨hparts, -⟩
    simp only [parts, Parts.mk.injEq, decide_eq_false_iff_not, not_le] at hparts
    obtain ⟨hsign, hmagnitude⟩ := hparts
    split at hmagnitude
    · split at hmagnitude <;> cases hmagnitude
    · split at hmagnitude
      · cases hmagnitude
        omega
      · obtain ⟨hm, he⟩ := Magnitude.finite.inj hmagnitude
        simp only [Nat.pow_eq] at *
        omega
  · intro hbits
    have hfraction : x.toBits.toNat % 2 ^ 52 = m - 2 ^ 52 := by omega
    have hbiased : x.toBits.toNat / 2 ^ 52 % 2 ^ 11 = (e + 1075).toNat := by omega
    have hsign : ¬ 2 ^ 63 ≤ x.toBits.toNat := by omega
    have hfinite : ¬ x.toBits.toNat / 2 ^ 52 % 2 ^ 11 = 2047 := by omega
    have hnormal : ¬ x.toBits.toNat / 2 ^ 52 % 2 ^ 11 = 0 := by omega
    have hm : 2 ^ 52 + (m - 2 ^ 52) = m := by omega
    have he : ((e + 1075).toNat : Int) - 1075 = e := by omega
    refine ⟨?_, hlow, hhigh, habove, hbelow⟩
    simp only [parts, Nat.pow_eq]
    rw [decide_eq_false hsign, if_neg hfinite, if_neg hnormal, hfraction, hbiased, hm, he]

/-- A float is determined by the normal number it denotes. -/
theorem Denotes.unique {x y : Float} {m : Nat} {e : Int} (hx : Denotes x m e)
    (hy : Denotes y m e) : x = y := by
  have hbits : x.toBits = y.toBits := UInt64.toNat_inj.1
    (((denotes_iff hx.normal).1 hx).trans ((denotes_iff hy.normal).1 hy).symm)
  obtain ⟨⟨x, hvalid⟩⟩ := x
  obtain ⟨⟨y, hvalid'⟩⟩ := y
  cases hbits
  rfl

theorem Denotes.inj {x : Float} {m n : Nat} {e f : Int} (h : Denotes x m e)
    (h' : Denotes x n f) : m = n ∧ e = f := by
  have hparts := h.parts.symm.trans h'.parts
  simp only [Parts.mk.injEq, Magnitude.finite.injEq, true_and] at hparts
  exact hparts

theorem denotes_pack {m : Nat} {e : Int} (h : IsNormal m e) (hm : 0 < m) :
    Denotes (.ofModel (.pack (.finite .positive m e hm))) m e := by
  refine (denotes_iff h).2 ?_
  exact toNat_pack h hm

theorem unpackSign_packComponents (s : Sign) (e : BitVec 11) (m : BitVec 52) :
    unpackSign (packComponents Format.binary64 s e m) = s.toBitVec := by
  have hbits := toNat_packComponents s e m
  refine BitVec.eq_of_toNat_eq ?_
  simp only [unpackSign, BitVec.toNat_cast, BitVec.extractLsb_toNat, hbits,
    Nat.shiftRight_eq_div_pow]
  have he := e.isLt
  have hm := m.isLt
  have hs := s.toBitVec.isLt
  omega

/-- A normal number is unpacked as what it is. -/
theorem Denotes.unpack {x : Float} {m : Nat} {e : Int} (h : Denotes x m e) :
    ∃ hm, x.toModel.unpack = .finite .positive m e hm := by
  have hm := h.normal.pos
  refine ⟨hm, ?_⟩
  have hbiased : (BitVec.ofNat 11 (e + 1075).toNat).toNat = (e + 1075).toNat := by
    have := h.normal.above
    have := h.normal.below
    rw [BitVec.toNat_ofNat, Nat.mod_eq_of_lt (by omega)]
  have hfinite : BitVec.ofNat 11 (e + 1075).toNat ≠ -1#11 := by
    intro heq
    have hones : (e + 1075).toNat = 2047 := hbiased.symm.trans (congrArg BitVec.toNat heq)
    have := h.normal.below
    omega
  have hnormal : BitVec.ofNat 11 (e + 1075).toNat ≠ 0#11 := by
    intro heq
    have hzero : (e + 1075).toNat = 0 := hbiased.symm.trans (congrArg BitVec.toNat heq)
    have := h.normal.above
    omega
  have hmantissa : (1#1 ++ BitVec.ofNat 52 m).toNat = m := by
    have hlow := h.normal.low
    have hhigh := h.normal.high
    rw [BitVec.toNat_append, ← Nat.shiftLeft_add_eq_or_of_lt (BitVec.ofNat 52 m).isLt,
      Nat.shiftLeft_eq, BitVec.toNat_ofNat, BitVec.toNat_ofNat]
    omega
  rw [h.unique (denotes_pack h.normal hm), Float.Model.unpack, Float.Model.pack]
  simp only [pack_eq_packComponents h.normal, UnpackedFloat.unpack, unpackExponent_packComponents,
    unpackMantissa_packComponents, unpackSign_packComponents, if_neg hfinite, if_neg hnormal,
    hbiased, hmantissa]
  have hexponent : ((e + 1075).toNat : Int) -
      ((Format.binary64.exponentBias : Int) + (Format.binary64.mantissaBitsWithoutImplicit : Int)) =
        e := by
    have : (Format.binary64.exponentBias : Int) = 1023 := rfl
    have : (Format.binary64.mantissaBitsWithoutImplicit : Int) = 52 := rfl
    have := h.normal.above
    omega
  congr 1

/-! ### Numbers that are rounded to a float -/

/-- The distance to the lower end of what is rounded to a float, in quarters of the distance to the
next float.  Below a power of two the floats are twice as dense. -/
def gapBelow (m : Nat) : ℚ := if m = 2 ^ 52 then 1 else 2

theorem gapBelow_le (m : Nat) : gapBelow m ≤ 2 := by
  unfold gapBelow
  split <;> norm_num

theorem gapBelow_of_lt {m : Nat} (h : 2 ^ 52 < m) : gapBelow m = 2 := if_neg (Nat.ne_of_gt h)

/-- The number `q` is rounded to `m * 2 ^ e`; an end of the interval is, when `m` is even. -/
structure Near (m : Nat) (e : Int) (q : ℚ) : Prop where
  low : (4 * m - gapBelow m) * 2 ^ e ≤ 4 * q
  high : 4 * q ≤ (4 * m + 2) * 2 ^ e
  inside : m % 2 = 0 ∨ (4 * m - gapBelow m) * 2 ^ e < 4 * q ∧ 4 * q < (4 * m + 2) * 2 ^ e

/-- What is rounded to a float is off by half a unit of its last bit at most. -/
theorem Near.abs_sub_le {m : Nat} {e : Int} {q : ℚ} (h : Near m e q) :
    |(m : ℚ) * 2 ^ e - q| ≤ 2 ^ e / 2 := by
  have hgap : (4 * m - 2 : ℚ) * 2 ^ e ≤ (4 * m - gapBelow m) * 2 ^ e :=
    mul_le_mul_of_nonneg_right (by linarith [gapBelow_le m]) (by positivity)
  have hlow := h.low
  have hhigh := h.high
  rw [abs_le]
  constructor <;> linarith

/-- A float is rounded to itself. -/
theorem near_self (m : Nat) (e : Int) : Near m e ((m : ℚ) * 2 ^ e) := by
  have hpow : (0 : ℚ) < 2 ^ e := by positivity
  have hgap : (0 : ℚ) < gapBelow m := by
    unfold gapBelow
    split <;> norm_num
  refine ⟨?_, ?_, .inr ⟨?_, ?_⟩⟩ <;> nlinarith

/-- What is between two numbers that are rounded to a float is so, too. -/
theorem Near.between {m : Nat} {e : Int} {p q r : ℚ} (hp : Near m e p) (hr : Near m e r)
    (hpq : p ≤ q) (hqr : q ≤ r) : Near m e q where
  low := hp.low.trans (by linarith)
  high := le_trans (by linarith) hr.high
  inside := by
    rcases hp.inside with heven | ⟨hlow, -⟩
    · exact .inl heven
    · rcases hr.inside with heven | ⟨-, hhigh⟩
      · exact .inl heven
      · exact .inr ⟨by linarith, by linarith⟩

/-- The end that two intervals share belongs to one of them at most. -/
theorem Near.false_of_le {m m' : Nat} {e e' : Int} {q : ℚ} (h : Near m e q) (h' : Near m' e' q)
    (hends : (4 * m + 2 : ℚ) * 2 ^ e ≤ (4 * m' - gapBelow m') * 2 ^ e')
    (hodd : m % 2 ≠ 0 ∨ m' % 2 ≠ 0 ∨
      (4 * m + 2 : ℚ) * 2 ^ e < (4 * m' - gapBelow m') * 2 ^ e') : False := by
  have hhigh := h.high
  have hlow := h'.low
  rcases hodd with hodd | hodd | hlt
  · obtain ⟨-, hinside⟩ := h.inside.resolve_left hodd
    linarith
  · obtain ⟨hinside, -⟩ := h'.inside.resolve_left hodd
    linarith
  · linarith

theorem Near.false_of_lt {m m' : Nat} {e : Int} {q : ℚ} (hm : IsNormal m e) (hlt : m < m')
    (h : Near m e q) (h' : Near m' e q) : False := by
  have hpos : (0 : ℚ) < 2 ^ e := by positivity
  have hgap : gapBelow m' = 2 := gapBelow_of_lt (hm.low.trans_lt hlt)
  rcases (Nat.succ_le_of_lt hlt).eq_or_lt with heq | hfar
  · have hends : (4 * m + 2 : ℚ) * 2 ^ e = (4 * m' - gapBelow m') * 2 ^ e := by
      rw [hgap, ← heq]
      push_cast
      ring
    exact h.false_of_le h' hends.le (by omega)
  · have hends : (4 * m + 2 : ℚ) * 2 ^ e < (4 * m' - gapBelow m') * 2 ^ e := by
      have : (m : ℚ) + 2 ≤ m' := by exact_mod_cast hfar
      rw [hgap]
      exact mul_lt_mul_of_pos_right (by linarith) hpos
    exact h.false_of_le h' hends.le (.inr (.inr hends))

theorem Near.false_of_exponent_lt {m m' : Nat} {e e' : Int} {q : ℚ} (hm : IsNormal m e)
    (hm' : IsNormal m' e') (hlt : e < e') (h : Near m e q) (h' : Near m' e' q) : False := by
  have hpos : (0 : ℚ) < 2 ^ e := by positivity
  have hdouble : (2 : ℚ) * 2 ^ e ≤ 2 ^ e' := by
    calc (2 : ℚ) * 2 ^ e = 2 ^ (e + 1) := by rw [zpow_add_one₀ two_ne_zero, mul_comm]
      _ ≤ 2 ^ e' := zpow_le_zpow_right₀ one_le_two hlt
  have hlow : (2 ^ 54 - 1 : ℚ) ≤ 4 * m' - gapBelow m' := by
    rcases hm'.low.eq_or_lt with heq | hlt
    · rw [← heq, gapBelow, if_pos rfl]
      norm_num
    · have : (2 ^ 52 : ℚ) + 1 ≤ m' := by exact_mod_cast hlt
      rw [gapBelow_of_lt hlt]
      linarith
  have hbase : (2 ^ 55 - 2 : ℚ) * 2 ^ e ≤ (4 * m' - gapBelow m') * 2 ^ e' := by
    calc (2 ^ 55 - 2 : ℚ) * 2 ^ e = (2 ^ 54 - 1) * (2 * 2 ^ e) := by ring
      _ ≤ (4 * m' - gapBelow m') * 2 ^ e' := by
        refine mul_le_mul hlow hdouble (by positivity) (by linarith)
  rcases (Nat.le_sub_one_of_lt hm.high).eq_or_lt with heq | hlt
  · have hends : (4 * m + 2 : ℚ) * 2 ^ e ≤ (4 * m' - gapBelow m') * 2 ^ e' := by
      refine le_trans (mul_le_mul_of_nonneg_right ?_ hpos.le) hbase
      rw [heq]
      norm_num
    exact h.false_of_le h' hends (.inl (by rw [heq]; decide))
  · have hends : (4 * m + 2 : ℚ) * 2 ^ e < (4 * m' - gapBelow m') * 2 ^ e' := by
      refine lt_of_lt_of_le (mul_lt_mul_of_pos_right ?_ hpos) hbase
      have : (m : ℚ) + 2 ≤ 2 ^ 53 := by exact_mod_cast (by omega : m + 2 ≤ 2 ^ 53)
      linarith
    exact h.false_of_le h' hends.le (.inr (.inr hends))

/-- **A number is rounded to one float only.** -/
theorem Near.unique {m m' : Nat} {e e' : Int} {q : ℚ} (hm : IsNormal m e) (hm' : IsNormal m' e')
    (h : Near m e q) (h' : Near m' e' q) : m = m' ∧ e = e' := by
  have he : e = e' := by
    by_contra hne
    rcases lt_or_gt_of_ne hne with hlt | hlt
    · exact h.false_of_exponent_lt hm hm' hlt h'
    · exact h'.false_of_exponent_lt hm' hm hlt h
  subst he
  refine ⟨?_, rfl⟩
  by_contra hne
  rcases lt_or_gt_of_ne hne with hlt | hlt
  · exact h.false_of_lt hm hlt h'
  · exact h'.false_of_lt hm' hlt h

/-- The float to which a number is rounded. -/
def RoundsTo (q : ℚ) (x : Float) : Prop := ∃ m e, Denotes x m e ∧ Near m e q

/-- **Rounding is a function.** -/
theorem RoundsTo.unique {q : ℚ} {x y : Float} (hx : RoundsTo q x) (hy : RoundsTo q y) : x = y := by
  obtain ⟨m, e, hx, hm⟩ := hx
  obtain ⟨m', e', hy, hm'⟩ := hy
  obtain ⟨rfl, rfl⟩ := hm.unique hx.normal hy.normal hm'
  exact hx.unique hy

end Lockstep.Decimal
