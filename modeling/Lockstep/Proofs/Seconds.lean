import Lockstep.Duration
import Lockstep.Proofs.Scaling

/-!
# Durations as seconds

A duration is divided by way of its seconds as a float, and the quotient is rounded to nanoseconds.

* `Decimal.Tops` : what comes of rounding at the upper end of the words;
* `Decimal.Shows` : a float is a number, which may be zero;
* `Duration.shows_toSeconds` : the seconds of a duration are a float close to it;
* `Duration.nanosOfSeconds_bounds` : the nanoseconds that are nearest to a number of seconds;
* `Duration.divide?_eq_error_iff` : **which durations cannot be divided by a word**;
* `Duration.divide?_pos`, `Duration.divide?_zero` : **when the quotient is some time, and when it is
  none**; `Duration.le_divide?` : how much it is at least.
-/

namespace Lockstep

open Decimal

namespace Decimal

open Float.Model Float.Model.UnpackedFloat

/-! ### The upper end of the words -/

/-- At the upper end of the words a number `q` is rounded to `v`: to `2 ^ 64` from half a unit of
the last bit below it, and otherwise to the float before it at most. -/
def Tops (q v : ℚ) : Prop :=
  2 ^ 64 - 2 ^ 10 ≤ q ∧ v = 2 ^ 64 ∨ q < 2 ^ 64 - 2 ^ 10 ∧ v ≤ 2 ^ 64 - 2 ^ 11

theorem RoundsTo.top {q : ℚ} {x : Float} (h : RoundsTo q x) (hlow : 2 ^ 64 - 2 ^ 10 ≤ q)
    (hhigh : q ≤ 2 ^ 64 + 2 ^ 11) : Holds x (2 ^ 64) := by
  have hnear : Near (2 ^ 52) 12 q := by
    refine ⟨?_, ?_, .inl rfl⟩ <;> norm_num [gapBelow] at * <;> linarith
  have htop := h.holds_of_near ⟨le_rfl, by norm_num, by norm_num, by norm_num⟩ hnear
  norm_num at htop ⊢
  exact htop

theorem RoundsTo.le_of_lt_top {q v : ℚ} {x : Float} (h : RoundsTo q x) (hx : Holds x v)
    (hq : q < 2 ^ 64 - 2 ^ 10) : v ≤ 2 ^ 64 - 2 ^ 11 := by
  have hnormal : IsNormal (2 ^ 53 - 1) 11 := ⟨by norm_num, by norm_num, by norm_num, by norm_num⟩
  have hbefore := denotes_pack hnormal hnormal.pos
  have hvalue : ((2 ^ 53 - 1 : Nat) : ℚ) * 2 ^ (11 : Int) = 2 ^ 64 - 2 ^ 11 := by norm_num
  obtain ⟨r, hqr, hlow, hhigh⟩ :
      ∃ r : ℚ, q ≤ r ∧ 2 ^ 64 - 2 ^ 11 ≤ r ∧ r < 2 ^ 64 - 2 ^ 10 :=
    ⟨max q (2 ^ 64 - 2 ^ 11), le_max_left _ _, le_max_right _ _, max_lt hq (by norm_num)⟩
  -- whatever is between that float and the middle to the next one is rounded to it
  have hnear : Near (2 ^ 53 - 1) 11 r := by
    refine ⟨?_, ?_, .inr ⟨?_, ?_⟩⟩ <;> norm_num [gapBelow] at hlow hhigh ⊢ <;> linarith
  exact h.mono ⟨_, _, hbefore, hnear⟩ hx ⟨_, _, hbefore, hvalue⟩ hqr

theorem RoundsTo.tops {q v : ℚ} {x : Float} (h : RoundsTo q x) (hx : Holds x v)
    (hhigh : q ≤ 2 ^ 64 + 2 ^ 11) : Tops q v := by
  rcases le_or_gt (2 ^ 64 - 2 ^ 10) q with hlow | hlt
  · exact .inl ⟨hlow, hx.inj (h.top hlow hhigh)⟩
  · exact .inr ⟨hlt, h.le_of_lt_top hx hlt⟩

/-! ### Zero, or a number far from both ends of the range -/

/-- The float is the number `v`, which is zero or far from both ends of the range. -/
def Shows (x : Float) (v : ℚ) : Prop := x = 0.0 ∧ v = 0 ∨ Holds x v ∧ Moderate v

theorem Shows.nonneg {x : Float} {v : ℚ} (h : Shows x v) : 0 ≤ v := by
  rcases h with ⟨-, rfl⟩ | ⟨-, hv⟩
  · exact le_rfl
  · exact hv.pos.le

theorem Shows.of_pos {x : Float} {v : ℚ} (h : Shows x v) (hv : 0 < v) : Holds x v ∧ Moderate v := by
  rcases h with ⟨-, rfl⟩ | h
  · exact absurd hv (lt_irrefl 0)
  · exact h

theorem tops_zero : Tops 0 0 := .inr ⟨by norm_num, by norm_num⟩

theorem holds_add_zero {x : Float} {v : ℚ} (h : Holds x v) : x + 0.0 = x ∧ 0.0 + x = x := by
  obtain ⟨m, e, hx, -⟩ := h
  obtain ⟨hm, hunpack⟩ := hx.unpack
  have hzero : (0.0 : Float).toModel.unpack = .zero .positive := rfl
  have hself : Float.ofModel (.pack (.finite .positive m e hm)) = x :=
    (denotes_pack hx.normal hm).unique hx
  constructor
  · change Float.ofModel (.pack (UnpackedFloat.add _ x.toModel.unpack _)) = x
    rw [hunpack, hzero]
    exact hself
  · change Float.ofModel (.pack (UnpackedFloat.add _ _ x.toModel.unpack)) = x
    rw [hunpack, hzero]
    exact hself

/-- **A sum is shown with an error of half a unit of the last bit**, and is no less than what was
added to. -/
theorem Shows.add {x y : Float} {v w : ℚ} (hx : Shows x v) (hy : Shows y w)
    (hle : v + w ≤ 2 ^ (199 : Int)) :
    ∃ s, Shows (x + y) s ∧ Within unit s (v + w) ∧ w ≤ s ∧
      (v + w ≤ 2 ^ 64 + 2 ^ 11 → Tops (v + w) s) := by
  rcases hx with ⟨rfl, rfl⟩ | ⟨hx, hv⟩ <;> rcases hy with ⟨rfl, rfl⟩ | ⟨hy, hw⟩
  · rw [add_zero]
    exact ⟨0, .inl ⟨by decide +kernel, rfl⟩, within_zero, le_rfl, fun _ => tops_zero⟩
  · rw [(holds_add_zero hy).2, zero_add]
    exact ⟨w, .inr ⟨hy, hw⟩, within_self hw.pos, le_rfl, hy.roundsTo.tops hy⟩
  · rw [(holds_add_zero hx).1, add_zero]
    exact ⟨v, .inr ⟨hx, hv⟩, within_self hv.pos, hv.pos.le, hx.roundsTo.tops hx⟩
  · have hround := hx.add hy hv hw
    obtain ⟨s, hs, hspos, hws⟩ := hround.within
    have hmore : w ≤ s := hy.roundsTo.mono hround hy hs (le_add_of_nonneg_left hv.pos.le)
    refine ⟨s, .inr ⟨hs, hw.low.trans hmore, ?_⟩, hws, hmore, hround.tops hs⟩
    calc s ≤ 2 * (v + w) := hws.le_two_mul hspos.le (by norm_num [unit])
      _ ≤ 2 * 2 ^ (199 : Int) := mul_le_mul_of_nonneg_left hle two_pos.le
      _ = 2 ^ (200 : Int) := by norm_num

/-- **A word is shown by its float.** -/
theorem shows_ofWord {n : Nat} (hn : n < wordLimit) :
    ∃ v, Shows (ofWord n) v ∧ Within unit v n ∧ Tops n v := by
  rcases Nat.eq_zero_or_pos n with rfl | hpos
  · exact ⟨0, .inl ⟨by decide +kernel, rfl⟩, by exact_mod_cast within_zero, by
      exact_mod_cast tops_zero⟩
  · have hround := rounds_ofWord hpos hn
    have hlimit : (n : ℚ) < 2 ^ 64 := by exact_mod_cast hn
    obtain ⟨v, hv, hvpos, hwv⟩ := hround.within
    exact ⟨v, .inr ⟨hv, moderate_digits hpos hn hvpos hwv⟩, hwv,
      hround.tops hv (hlimit.le.trans (by norm_num))⟩

theorem holds_one : Holds (ofWord 1) 1 := by
  exact_mod_cast holds_ofWord one_pos (by decide)

theorem holds_billion : Holds 1000000000.0 (10 ^ 9) := by
  have hparts : parts 1000000000.0 = ⟨false, .finite (10 ^ 9 * 2 ^ 23) (-23)⟩ := by
    decide +kernel
  refine ⟨10 ^ 9 * 2 ^ 23, -23, ⟨hparts, ?_, ?_, ?_, ?_⟩, ?_⟩ <;> norm_num

/-- **The nanoseconds after the last second are shown as a part of it.** -/
theorem shows_fraction {n : Nat} (hn : n < 10 ^ 9) :
    ∃ v, Shows (ofWord n / 1000000000.0) v ∧ Within unit v (n / 10 ^ 9) ∧ v ≤ 1 := by
  rcases Nat.eq_zero_or_pos n with rfl | hpos
  · refine ⟨0, .inl ⟨by decide +kernel, rfl⟩, ?_, zero_le_one⟩
    norm_num
    exact within_zero
  · have hone : (1 : ℚ) ≤ n := by exact_mod_cast hpos
    have hbillion : (n : ℚ) < 10 ^ 9 := by exact_mod_cast hn
    have hhold := holds_ofWord hpos (hn.trans (by decide))
    have hmoderate : Moderate n := by
      have := within_self (zero_lt_one.trans_le hone)
      exact moderate_digits hpos (hn.trans (by decide)) (zero_lt_one.trans_le hone) this
    have hround := hhold.div holds_billion hmoderate (by constructor <;> norm_num)
    obtain ⟨v, hv, hvpos, hwv⟩ := hround.within
    have hlow : (1 : ℚ) / 10 ^ 40 ≤ n / 10 ^ 9 := by
      rw [div_le_div_iff₀ (by norm_num) (by norm_num)]
      linarith
    have hhigh : (n : ℚ) / 10 ^ 9 ≤ 1 := by
      rw [div_le_one (by norm_num)]
      exact hbillion.le
    refine ⟨v, .inr ⟨hv, hwv.moderate hvpos (by norm_num [unit]) hlow ?_⟩, hwv, ?_⟩
    · exact hhigh.trans (by norm_num)
    · exact hround.mono holds_one.roundsTo hv holds_one hhigh

end Decimal

namespace Duration

variable (d : Duration)

theorem nanos_eq : d.nanos = d.secs * 10 ^ 9 + d.subsecNanos := by
  unfold secs subsecNanos
  omega

theorem secs_lt : d.secs < wordLimit := by
  refine Nat.div_lt_of_lt_mul ?_
  rw [Nat.mul_comm]
  exact d.inRange

theorem subsecNanos_lt : d.subsecNanos < 10 ^ 9 := Nat.mod_lt _ (by decide)

theorem nanos_div : (d.nanos : ℚ) / 10 ^ 9 = d.secs + d.subsecNanos / 10 ^ 9 := by
  have hnanos : (d.nanos : ℚ) = d.secs * 10 ^ 9 + d.subsecNanos := by exact_mod_cast d.nanos_eq
  rw [hnanos]
  field_simp

/-- **The seconds of a duration are a float close to it**, which is less than `2 ^ 64` but for the
last durations. -/
theorem shows_toSeconds :
    ∃ v, Shows d.toSeconds v ∧ Within (3 * unit) v (d.nanos / 10 ^ 9) ∧ Tops d.secs v := by
  obtain ⟨s, hs, hws, htop⟩ := shows_ofWord d.secs_lt
  obtain ⟨f, hf, hwf, hfle⟩ := shows_fraction d.subsecNanos_lt
  have hfpos := hf.nonneg
  have hsum : s + f ≤ 2 ^ 64 + 2 ^ 11 := by
    rcases htop with ⟨-, rfl⟩ | ⟨-, hle⟩ <;> linarith
  obtain ⟨v, hv, hwv, -, htop'⟩ := hs.add hf (hsum.trans (by norm_num))
  have htop' := htop' hsum
  refine ⟨v, hv, ?_, ?_⟩
  · have hwv := (hws.add hwf).trans hwv hv.nonneg (by norm_num [unit]) (by norm_num [unit])
      (by norm_num [unit])
    rw [nanos_div]
    exact hwv.of_le hv.nonneg (by norm_num [unit])
  · -- a second more or less does not reach the next float
    rcases htop with ⟨hsecs, rfl⟩ | ⟨hsecs, hle⟩
    · exact .inl ⟨hsecs, (htop'.resolve_right fun h => by linarith [h.1]).2⟩
    · exact .inr ⟨hsecs, (htop'.resolve_left fun h => by linarith [h.1]).2⟩

/-! ### Seconds as durations -/

/-- The nanoseconds nearest to `m * 2 ^ e` seconds. -/
def nanosOfSeconds (m : Nat) (e : Int) : Nat :=
  if 0 ≤ e then m * 1000000000 * Nat.pow 2 e.natAbs
  else roundHalfEven (m * 1000000000) (Nat.pow 2 e.natAbs)

theorem nanosOfSeconds_natCast (m k : Nat) : nanosOfSeconds m k = m * 2 ^ k * 10 ^ 9 := by
  rw [nanosOfSeconds, if_pos (Int.natCast_nonneg k), Int.natAbs_natCast, Nat.mul_right_comm]
  rfl

theorem nanosOfSeconds_neg (m : Nat) {k : Nat} (hk : 0 < k) :
    nanosOfSeconds m (-k) = roundHalfEven (m * 10 ^ 9) (2 ^ k) := by
  rw [nanosOfSeconds, if_neg (by omega), Int.natAbs_neg, Int.natAbs_natCast]
  rfl

/-- **The nanoseconds of less than `2 ^ 53` units are none for half a nanosecond and less, and too
many from `2 ^ 64` seconds on.** -/
theorem nanosOfSeconds_bounds {m : Nat} {e : Int} (hpos : 0 < m) (hm : m < 2 ^ 53) :
    (nanosOfSeconds m e = 0 ↔ (m : ℚ) * 2 ^ e * 10 ^ 9 ≤ 1 / 2) ∧
      (nanosOfSeconds m e < durationLimit ↔ (m : ℚ) * 2 ^ e < 2 ^ 64) := by
  have hlimit : durationLimit = 2 ^ 64 * 10 ^ 9 := rfl
  obtain ⟨k, rfl⟩ | ⟨k, hk, rfl⟩ : (∃ k : Nat, e = k) ∨ ∃ k : Nat, 0 < k ∧ e = -k := by
    rcases le_or_gt 0 e with he | he
    · exact .inl (Int.eq_ofNat_of_zero_le he)
    · exact .inr ⟨e.natAbs, by omega, by omega⟩
  · -- a whole number of seconds
    have hvalue : (m : ℚ) * 2 ^ (k : Int) = (m * 2 ^ k : Nat) := by push_cast [zpow_natCast]; rfl
    have hwhole : 0 < m * 2 ^ k := Nat.mul_pos hpos (Nat.two_pow_pos k)
    rw [nanosOfSeconds_natCast, hvalue]
    constructor
    · have hone : (1 : ℚ) ≤ (m * 2 ^ k : Nat) := by exact_mod_cast hwhole
      refine iff_of_false (by omega) (fun hle => ?_)
      linarith
    · rw [hlimit, Nat.mul_lt_mul_right (by decide)]
      exact_mod_cast Iff.rfl
  · have hkpos : (0 : ℚ) < 2 ^ k := by positivity
    have hvalue : (m : ℚ) * 2 ^ (-k : Int) = m / 2 ^ k := by
      rw [zpow_neg, zpow_natCast, div_eq_mul_inv]
    rw [nanosOfSeconds_neg m hk, hvalue]
    constructor
    · rw [roundHalfEven_eq_zero_iff (Nat.two_pow_pos k), div_mul_eq_mul_div,
        div_le_div_iff₀ hkpos two_pos, one_mul, mul_comm]
      exact_mod_cast Iff.rfl
    · have hnanos := roundHalfEven_le_self (m * 10 ^ 9) (Nat.two_pow_pos k)
      have hseconds : (m : ℚ) / 2 ^ k ≤ m := div_le_self (by positivity) (one_le_pow₀ one_le_two)
      have hword : (m : ℚ) < 2 ^ 64 := by exact_mod_cast hm.trans (by decide)
      exact iff_of_true (by omega) (hseconds.trans_lt hword)

theorem le_nanosOfSeconds (m : Nat) (e : Int) :
    (m : ℚ) * 2 ^ e * 10 ^ 9 ≤ nanosOfSeconds m e + 1 / 2 := by
  obtain ⟨k, rfl⟩ | ⟨k, hk, rfl⟩ : (∃ k : Nat, e = k) ∨ ∃ k : Nat, 0 < k ∧ e = -k := by
    rcases le_or_gt 0 e with he | he
    · exact .inl (Int.eq_ofNat_of_zero_le he)
    · exact .inr ⟨e.natAbs, by omega, by omega⟩
  · rw [nanosOfSeconds_natCast, zpow_natCast]
    push_cast
    linarith
  · have hround : (2 * (m * 10 ^ 9 : Nat) : ℚ) ≤
        2 * 2 ^ k * roundHalfEven (m * 10 ^ 9) (2 ^ k) + 2 ^ k := by
      exact_mod_cast le_roundHalfEven (Nat.two_pow_pos k)
    push_cast at hround
    rw [nanosOfSeconds_neg m hk, zpow_neg, zpow_natCast, ← div_eq_mul_inv, div_mul_eq_mul_div,
      div_le_iff₀ (by positivity)]
    linarith

theorem ofSeconds?_of_denotes {x : Float} {m : Nat} {e : Int} (hx : Denotes x m e) :
    ofSeconds? x = (ofNanos? (nanosOfSeconds m e)).elim (.error .tooLong) .ok := by
  simp only [ofSeconds?, hx.parts, Bool.false_eq_true, false_and, if_false, nanosOfSeconds]
  cases ofNanos? _ <;> rfl

theorem ofSeconds?_eq_error_iff {x : Float} {v : ℚ} (h : Holds x v) {fault : SecondsFault} :
    ofSeconds? x = .error fault ↔ fault = .tooLong ∧ 2 ^ 64 ≤ v := by
  obtain ⟨m, e, hx, rfl⟩ := h
  obtain ⟨-, hrange⟩ := nanosOfSeconds_bounds (e := e) hx.normal.pos hx.normal.high
  rw [ofSeconds?_of_denotes hx, ← not_lt, ← hrange, ofNanos?]
  split
  · next hn => simp [hn]
  · next hn => simp [hn, eq_comm]

theorem nanos_eq_zero_iff {x : Float} {v : ℚ} (h : Holds x v) {p : Duration}
    (hp : ofSeconds? x = .ok p) : p.nanos = 0 ↔ v * 10 ^ 9 ≤ 1 / 2 := by
  obtain ⟨m, e, hx, rfl⟩ := h
  obtain ⟨hzero, -⟩ := nanosOfSeconds_bounds (e := e) hx.normal.pos hx.normal.high
  rw [ofSeconds?_of_denotes hx, ofNanos?] at hp
  split at hp
  · cases hp
    exact hzero
  · cases hp

/-- Of some seconds half a nanosecond may get lost. -/
theorem le_nanos {x : Float} {v : ℚ} (h : Holds x v) {p : Duration}
    (hp : ofSeconds? x = .ok p) : v * 10 ^ 9 ≤ p.nanos + 1 / 2 := by
  obtain ⟨m, e, hx, rfl⟩ := h
  rw [ofSeconds?_of_denotes hx, ofNanos?] at hp
  split at hp
  · cases hp
    exact le_nanosOfSeconds m e
  · cases hp

/-! ### Division by a word -/

variable {d : Duration} {n : Nat}

/-- The quotient is less than `2 ^ 64`, but for the last durations divided by one. -/
theorem quotient_lt_iff {x : Float} {a b v : ℚ} (ha : Holds d.toSeconds a) (htop : Tops d.secs a)
    (hn : 0 < n) (hword : n < wordLimit) (hb : Holds (ofWord n) b) (hx : RoundsTo (a / b) x)
    (hv : Holds x v) : v < 2 ^ 64 ↔ ¬ (n = 1 ∧ 2 ^ 64 - 2 ^ 10 ≤ d.secs) := by
  rcases (Nat.succ_le_of_lt hn).eq_or_lt with rfl | hmany
  · rw [hb.inj holds_one, div_one] at hx
    rw [hv.inj (hx.holds_of_exact ⟨_, ha⟩)]
    rcases htop with ⟨hsecs, rfl⟩ | ⟨hsecs, hle⟩
    · have hsecs : 2 ^ 64 - 2 ^ 10 ≤ d.secs := by norm_num at hsecs ⊢; exact_mod_cast hsecs
      exact iff_of_false (lt_irrefl _) (not_not.2 ⟨rfl, hsecs⟩)
    · have hsecs : d.secs < 2 ^ 64 - 2 ^ 10 := by norm_num at hsecs ⊢; exact_mod_cast hsecs
      exact iff_of_true (hle.trans_lt (by norm_num)) fun h => hsecs.not_ge h.2
  · have htwo : Holds (ofWord 2) 2 := by exact_mod_cast holds_ofWord two_pos (by decide)
    have hble : 2 ≤ b :=
      htwo.roundsTo.mono (rounds_ofWord hn hword) htwo hb (by exact_mod_cast hmany)
    have hale : a ≤ 2 ^ 64 := by
      rcases htop with ⟨-, rfl⟩ | ⟨-, hle⟩
      · exact le_rfl
      · exact hle.trans (by norm_num)
    have hhalf : a / b ≤ 2 ^ 63 := by
      rw [div_le_iff₀ (two_pos.trans_le hble)]
      linarith
    obtain ⟨y, hy⟩ := exists_holds one_pos (by decide) (by decide : 63 ≤ 900)
    rw [Nat.cast_one, one_mul] at hy
    refine iff_of_true ((hx.mono hy.roundsTo hv hy hhalf).trans_lt (by norm_num)) ?_
    exact fun h => hmany.ne h.1.symm

theorem holds_quotient (hd : 0 < d.nanos) (hn : 0 < n) (hword : n < wordLimit) :
    ∃ v, Holds (d.toSeconds / ofWord n) v ∧ Within (16 * unit) v (d.nanos / 10 ^ 9 / n) ∧
      (v < 2 ^ 64 ↔ ¬ (n = 1 ∧ 2 ^ 64 - 2 ^ 10 ≤ d.secs)) := by
  obtain ⟨a, ha, hwa, htop⟩ := d.shows_toSeconds
  have hseconds : (0 : ℚ) < d.nanos / 10 ^ 9 := by positivity
  have hapos : 0 < a := pos_of_mul_pos_right (hseconds.trans_le hwa.high) (by norm_num [unit])
  obtain ⟨ha, hamoderate⟩ := ha.of_pos hapos
  obtain ⟨b, hb, hbpos, hwb⟩ := (rounds_ofWord hn hword).within
  have hround := ha.div hb hamoderate (moderate_digits hn hword hbpos hwb)
  obtain ⟨v, hv, hvpos, hwv⟩ := hround.within
  have hwq := hwa.quotient hwb hapos.le hbpos (by norm_num [unit]) (by norm_num [unit])
    (by norm_num [unit]) (by norm_num [unit])
  have hwv := hwq.trans hwv hvpos.le (by norm_num [unit]) (by norm_num [unit]) (by norm_num [unit])
  exact ⟨v, hv, hwv.of_le hvpos.le (by norm_num [unit]),
    quotient_lt_iff ha htop hn hword hb hround hv⟩

/-- **A duration is divided by a word**, but for the last durations divided by one. -/
theorem divide?_eq_error_iff (hd : 0 < d.nanos) (hn : 0 < n) (hword : n < wordLimit)
    {fault : SecondsFault} : d.divide? (ofWord n) = .error fault ↔
      fault = .tooLong ∧ n = 1 ∧ 2 ^ 64 - 2 ^ 10 ≤ d.secs := by
  obtain ⟨v, hv, -, hlimit⟩ := holds_quotient hd hn hword
  rw [divide?, ofSeconds?_eq_error_iff hv, ← not_lt, hlimit, not_not]

/-- **A quotient of more than half a nanosecond is some time**, up to the error that comes with
floats. -/
theorem divide?_pos (hd : 0 < d.nanos) (hn : 0 < n) (hword : n < wordLimit) {p : Duration}
    (hp : d.divide? (ofWord n) = .ok p) (hmuch : (2 ^ 49 + 1) * n < 2 ^ 50 * d.nanos) :
    0 < p.nanos := by
  obtain ⟨v, hv, hwv, -⟩ := holds_quotient hd hn hword
  have hnpos : (0 : ℚ) < n := by exact_mod_cast hn
  have hmuch : ((2 : ℚ) ^ 49 + 1) * n < 2 ^ 50 * d.nanos := by exact_mod_cast hmuch
  refine Nat.pos_of_ne_zero fun hzero => ?_
  have hle := (nanos_eq_zero_iff hv hp).1 hzero
  have hhigh := hwv.high
  rw [div_div, div_le_iff₀ (by positivity)] at hhigh
  have hbound : (d.nanos : ℚ) ≤ (1 + 16 * unit) * (1 / 2) * n := by
    calc (d.nanos : ℚ) ≤ (1 + 16 * unit) * (v * 10 ^ 9) * n := by linarith
      _ ≤ (1 + 16 * unit) * (1 / 2) * n := by
        have : (0 : ℚ) ≤ 1 + 16 * unit := by norm_num [unit]
        gcongr
  unfold unit at hbound
  linarith

/-- **A quotient of four nanoseconds or more** is at least half of what it should be. -/
theorem le_divide? (hd : 0 < d.nanos) (hn : 0 < n) (hword : n < wordLimit) {p : Duration}
    (hp : d.divide? (ofWord n) = .ok p) (hmuch : 4 * n ≤ d.nanos) : d.nanos ≤ 2 * n * p.nanos := by
  obtain ⟨v, hv, hwv, -⟩ := holds_quotient hd hn hword
  have hnpos : (0 : ℚ) < n := by exact_mod_cast hn
  have hmuch : (4 : ℚ) ≤ d.nanos / n := by
    rw [le_div_iff₀ hnpos]
    exact_mod_cast hmuch
  have hhigh := hwv.high
  rw [div_right_comm, div_le_iff₀ (by positivity)] at hhigh
  have hlost := le_nanos hv hp
  have hhalf : (d.nanos : ℚ) / n ≤ 2 * p.nanos := by
    unfold unit at hhigh
    linarith
  rw [div_le_iff₀ hnpos] at hhalf
  have : (d.nanos : ℚ) ≤ 2 * n * p.nanos := by linarith
  exact_mod_cast this

/-- **A quotient of half a nanosecond or less is no time**, up to the error that comes with
floats. -/
theorem divide?_zero (hd : 0 < d.nanos) (hn : 0 < n) (hword : n < wordLimit) {p : Duration}
    (hp : d.divide? (ofWord n) = .ok p) (hlittle : 2 ^ 50 * d.nanos ≤ (2 ^ 49 - 1) * n) :
    p.nanos = 0 := by
  obtain ⟨v, hv, hwv, -⟩ := holds_quotient hd hn hword
  have hnpos : (0 : ℚ) < n := by exact_mod_cast hn
  have hlittle : (2 : ℚ) ^ 50 * d.nanos ≤ (2 ^ 49 - 1) * n := by
    have : ((2 ^ 50 * d.nanos : Nat) : ℚ) ≤ ((2 ^ 49 - 1) * n : Nat) := by exact_mod_cast hlittle
    push_cast at this
    norm_num at this ⊢
    exact this
  refine (nanos_eq_zero_iff hv hp).2 ?_
  have hlow := hwv.low
  rw [div_div, le_div_iff₀ (by positivity)] at hlow
  have hscaled : (1 - 16 * unit) * n * (v * 10 ^ 9) ≤ (1 - 16 * unit) * n * (1 / 2) := by
    calc (1 - 16 * unit) * n * (v * 10 ^ 9) ≤ d.nanos := by linarith
      _ ≤ (1 - 16 * unit) * n * (1 / 2) := by unfold unit; linarith
  exact le_of_mul_le_mul_left hscaled (mul_pos (by norm_num [unit]) hnpos)

end Duration

end Lockstep
