import Lockstep.Word

/-!
# Decimal numerals

Amounts, counts and phase numbers are written as runs of ASCII digits, leading zeros allowed.

* `value` is the number a run of digits denotes;
* `read?` accepts exactly the non-empty runs whose value fits a word (`read?_eq_some_iff`);
* `readSigned?` allows one leading plus sign before such a run.
-/

namespace Lockstep.Text.Numeral

/-- `c` is one of the ten ASCII digits. -/
def isDigit (c : Char) : Bool := '0' ≤ c && c ≤ '9'

/-- The value of an ASCII digit. -/
def digit (c : Char) : Nat := c.toNat - '0'.toNat

/-- The number a run of decimal digits denotes. -/
def value (cs : List Char) : Nat := cs.foldl (fun n c => 10 * n + digit c) 0

/-- Reads a non-empty run of digits whose value fits a word. -/
def read? (cs : List Char) : Option Nat :=
  if cs ≠ [] ∧ cs.all isDigit = true ∧ value cs < wordLimit then some (value cs) else none

/-- Reads a numeral that may carry one leading plus sign. -/
def readSigned? : List Char → Option Nat
  | '+' :: cs => read? cs
  | cs => read? cs

theorem read?_eq_some_iff {cs : List Char} {n : Nat} :
    read? cs = some n ↔
      cs ≠ [] ∧ (∀ c ∈ cs, isDigit c = true) ∧ value cs = n ∧ n < wordLimit := by
  unfold read?
  split
  · next h => simp only [Option.some.injEq]; constructor
              · rintro rfl
                exact ⟨h.1, by simpa using h.2.1, rfl, h.2.2⟩
              · exact fun h' => h'.2.2.1
  · next h =>
    simp only [reduceCtorEq, false_iff]
    rintro ⟨h1, h2, rfl, h3⟩
    exact h ⟨h1, by simpa using h2, h3⟩

end Lockstep.Text.Numeral
