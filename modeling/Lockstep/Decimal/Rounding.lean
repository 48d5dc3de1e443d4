/-!
# Rounding a quotient

* `roundHalfEven n d` is the natural number nearest to `n / d`, and of two equally near ones the
  even one;
* `roundHalfEven_le` and `le_roundHalfEven` say that it is never off by more than half a unit;
* `roundHalfEven_eq_zero_iff` says when it is zero.
-/

namespace Lockstep.Decimal

/-- The natural number nearest to `n / d`; of two equally near ones the even one. -/
def roundHalfEven (n d : Nat) : Nat :=
  let q := n / d
  let twice := 2 * (n % d)
  if twice < d then q else if d < twice then q + 1 else if q % 2 = 0 then q else q + 1

/-- The rounded quotient exceeds the quotient by at most half a unit. -/
theorem roundHalfEven_le {n d : Nat} : 2 * d * roundHalfEven n d ≤ 2 * n + d := by
  have hdiv := Nat.div_add_mod n d
  have hscale : 2 * d * (n / d) = 2 * (d * (n / d)) := by rw [Nat.mul_assoc]
  have hnext : 2 * d * (n / d + 1) = 2 * (d * (n / d)) + 2 * d := by rw [Nat.mul_add, hscale]; omega
  simp only [roundHalfEven]
  split
  · omega
  · split
    · omega
    · split <;> omega

/-- The rounded quotient falls short of the quotient by at most half a unit. -/
theorem le_roundHalfEven {n d : Nat} (hd : 0 < d) : 2 * n ≤ 2 * d * roundHalfEven n d + d := by
  have hdiv := Nat.div_add_mod n d
  have hmod := Nat.mod_lt n hd
  have hscale : 2 * d * (n / d) = 2 * (d * (n / d)) := by rw [Nat.mul_assoc]
  have hnext : 2 * d * (n / d + 1) = 2 * (d * (n / d)) + 2 * d := by rw [Nat.mul_add, hscale]; omega
  simp only [roundHalfEven]
  split
  · omega
  · split
    · omega
    · split <;> omega

theorem roundHalfEven_eq_zero_iff {n d : Nat} (hd : 0 < d) :
    roundHalfEven n d = 0 ↔ 2 * n ≤ d := by
  constructor
  · intro h
    have hle := le_roundHalfEven (n := n) hd
    rw [h] at hle
    omega
  · intro h
    have hlt : n < d := by omega
    rw [roundHalfEven, Nat.div_eq_of_lt hlt, Nat.mod_eq_of_lt hlt]
    split
    · rfl
    · rw [if_neg (by omega), if_pos rfl]

theorem roundHalfEven_le_self (n : Nat) {d : Nat} (hd : 0 < d) : roundHalfEven n d ≤ n := by
  have hle := roundHalfEven_le (n := n) (d := d)
  have hscale : d * (2 * roundHalfEven n d) ≤ d * (2 * n + 1) := by
    rw [Nat.mul_left_comm, ← Nat.mul_assoc, Nat.mul_add, Nat.mul_one]
    exact Nat.le_trans hle (Nat.add_le_add_right (Nat.le_mul_of_pos_left _ hd) _)
  have := Nat.le_of_mul_le_mul_left hscale hd
  omega

end Lockstep.Decimal
