/-!
# Machine words

Counters, phase numbers, identities of actors and token counts are natural numbers below
`wordLimit`.  The library computes with `Nat` and asks `addWord?` wherever a sum could leave that
range; the answer `none` stands for an overflow, which ends whatever was counting.

* `wordLimit` is `2 ^ 64`;
* `addWord?` is addition that refuses to leave the range (`addWord?_eq_some_iff`);
* `addSigned?` does the same for signed numbers, which are integers for which `fitsSigned` holds.
-/

namespace Lockstep

/-- One past the largest value of a 64-bit counter. -/
def wordLimit : Nat := Nat.pow 2 64

/-- The largest value of a 64-bit counter. -/
def wordMax : Nat := wordLimit - 1

/-- The sum of two counters, or nothing when it does not fit a word. -/
def addWord? (a b : Nat) : Option Nat :=
  if a + b < wordLimit then some (a + b) else none

theorem addWord?_eq_some_iff {a b c : Nat} :
    addWord? a b = some c ↔ a + b = c ∧ c < wordLimit := by
  unfold addWord?
  split <;> simp <;> omega

theorem addWord?_eq_none_iff {a b : Nat} : addWord? a b = none ↔ wordLimit ≤ a + b := by
  unfold addWord?
  split <;> simp <;> omega

/-- An integer is a signed number of 64 bits. -/
def fitsSigned (n : Int) : Bool := -Nat.pow 2 63 ≤ n && n < Nat.pow 2 63

/-- The sum of two signed numbers, or nothing when it does not fit 64 bits. -/
def addSigned? (a b : Int) : Option Int :=
  if fitsSigned (a + b) then some (a + b) else none

end Lockstep
