import Lockstep.Panic
import Lockstep.Text.Blank
import Lockstep.Text.Numeral

/-!
# Phase selectors

An entry of a schedule says which phases it describes: one phase by its number, or an inclusive
range written `2..4`.

* `Selector.phases` lists the selected phases in ascending order; all of them are listed at once, so
  a range may be too long for that;
* `RangeFault.message` is the wording of the two ways in which a range can be wrong.
-/

namespace Lockstep

/-- Which phases an entry describes. -/
inductive Selector where
  | number (n : Nat)
  /-- An inclusive range, such as `0..3`. -/
  | range (text : String)
  deriving DecidableEq, Repr

/-- What is wrong with the text of a range. -/
inductive RangeFault where
  | malformed (text : String)
  | empty (text : String)
  deriving DecidableEq, Repr

/-- The wording of a fault. -/
def RangeFault.message : RangeFault → String
  | malformed text => "invalid phase range `" ++ text ++ "`"
  | empty text => "empty phase range `" ++ text ++ "`"

namespace Selector

/-- The two ends of a range, as they are written. -/
def ends? (text : List Char) : Option (Nat × Nat) := do
  let (left, right) ← Text.splitOnce? "..".toList text
  let lo ← Text.Numeral.readSigned? (Text.trim left)
  let hi ← Text.Numeral.readSigned? (Text.trim right)
  return (lo, hi)

/-- The bytes that the number of a phase takes in a list. -/
def width : Nat := 8

/-- The selected phases, in ascending order. -/
def phases : Selector → Except (OrPanic RangeFault) (List Nat)
  | number n => .ok [n]
  | range text =>
    match ends? text.toList with
    | none => .error (.error (.malformed text))
    | some (lo, hi) =>
      if hi < lo then .error (.error (.empty text))
      -- room for all numbers is made before the first one comes
      else if memoryHolds width (hi + 1 - lo) then .ok (List.range' lo (hi + 1 - lo))
      else .error .panicked

/-- Fewer than `2 ^ 60` numbers can be listed. -/
theorem memoryHolds_width_iff {count : Nat} :
    memoryHolds width count = true ↔ count < Nat.pow 2 60 := by
  have hlimit : Nat.pow 2 63 = Nat.pow 2 60 * width := by decide
  rw [memoryHolds, decide_eq_true_iff, hlimit]
  exact Nat.mul_lt_mul_right (by decide)

/-- Only a range that is too long panics. -/
theorem phases_eq_panicked_iff {s : Selector} : s.phases = .error .panicked ↔
    ∃ text lo hi, s = range text ∧ ends? text.toList = some (lo, hi) ∧ lo ≤ hi ∧
      Nat.pow 2 60 ≤ hi + 1 - lo := by
  cases s with
  | number n => exact ⟨by rintro ⟨⟩, by rintro ⟨_, _, _, ⟨⟩, _⟩⟩
  | range text =>
    constructor
    · intro h
      unfold phases at h
      cases hends : ends? text.toList with
      | none => simp only [hends] at h; cases h
      | some ends =>
        obtain ⟨lo, hi⟩ := ends
        simp only [hends, memoryHolds_width_iff] at h
        split at h
        · cases h
        · split at h
          · cases h
          · next hle hmany =>
            exact ⟨text, lo, hi, rfl, hends, Nat.le_of_not_lt hle, Nat.le_of_not_lt hmany⟩
    · rintro ⟨_, lo, hi, ⟨⟩, hends, hle, hmany⟩
      simp only [phases, hends, memoryHolds_width_iff, if_neg (Nat.not_lt.2 hle),
        if_neg (Nat.not_lt.2 hmany)]

end Selector

end Lockstep
