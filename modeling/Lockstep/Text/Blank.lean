/-!
# White space, trimming and splitting

Configuration texts are read after trimming Unicode white space, and two of them are split at the
first occurrence of a separator.  Everything here works on lists of characters.

* `isBlank` is the Unicode property `White_Space`;
* `trim` drops blanks at both ends;
* `splitOnce?` splits at the first occurrence of a separator (`splitOnce?_eq_some`).
-/

namespace Lockstep.Text

/-- The ranges of the Unicode property `White_Space`, both ends included. -/
def blankRanges : List (Nat × Nat) :=
  [(0x09, 0x0D), (0x20, 0x20), (0x85, 0x85), (0xA0, 0xA0), (0x1680, 0x1680), (0x2000, 0x200A),
    (0x2028, 0x2029), (0x202F, 0x202F), (0x205F, 0x205F), (0x3000, 0x3000)]

/-- `c` has the Unicode property `White_Space`. -/
def isBlank (c : Char) : Bool :=
  blankRanges.any fun r => r.1 ≤ c.toNat && c.toNat ≤ r.2

/-- Drops the blanks a text starts with. -/
def trimStart (cs : List Char) : List Char := cs.dropWhile isBlank

/-- Drops the blanks a text ends with. -/
def trimEnd (cs : List Char) : List Char := (cs.reverse.dropWhile isBlank).reverse

/-- Drops the blanks at both ends. -/
def trim (cs : List Char) : List Char := trimEnd (trimStart cs)

/-- What follows `lead` in `cs`, when `cs` starts with it. -/
def stripLead? : List Char → List Char → Option (List Char)
  | [], cs => some cs
  | _ :: _, [] => none
  | a :: lead, c :: cs => if a = c then stripLead? lead cs else none

/-- The parts of `cs` before and after the first occurrence of `sep`. -/
def splitOnce? (sep : List Char) : List Char → Option (List Char × List Char)
  | [] => (stripLead? sep []).map fun rest => ([], rest)
  | c :: cs =>
    match stripLead? sep (c :: cs) with
    | some rest => some ([], rest)
    | none => (splitOnce? sep cs).map fun parts => (c :: parts.1, parts.2)

theorem stripLead?_eq_some_iff {lead cs rest : List Char} :
    stripLead? lead cs = some rest ↔ cs = lead ++ rest := by
  induction lead generalizing cs with
  | nil => simp [stripLead?, eq_comm]
  | cons a lead ih =>
    cases cs with
    | nil => simp [stripLead?]
    | cons c cs =>
      by_cases h : a = c
      · subst h
        simp [stripLead?, ih]
      · simp [stripLead?, h, Ne.symm h]

/-- The two parts and the separator between them make up the text. -/
theorem splitOnce?_eq_some {sep cs before after : List Char}
    (h : splitOnce? sep cs = some (before, after)) : cs = before ++ sep ++ after := by
  induction cs generalizing before after with
  | nil =>
    obtain ⟨rest, hrest, hpair⟩ := Option.map_eq_some_iff.1 h
    obtain ⟨rfl, rfl⟩ := Prod.mk.inj hpair
    simpa using stripLead?_eq_some_iff.1 hrest
  | cons c cs ih =>
    rw [splitOnce?] at h
    split at h
    · next rest hrest =>
      obtain ⟨rfl, rfl⟩ := Prod.mk.inj (Option.some.inj h)
      simpa using stripLead?_eq_some_iff.1 hrest
    · obtain ⟨parts, hparts, hpair⟩ := Option.map_eq_some_iff.1 h
      obtain ⟨rfl, rfl⟩ := Prod.mk.inj hpair
      simpa using ih hparts

end Lockstep.Text
