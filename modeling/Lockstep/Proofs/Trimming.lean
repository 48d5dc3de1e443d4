import Lockstep.Text.Blank
import Lockstep.Text.Numeral
import Mathlib.Data.List.Basic
import Mathlib.Data.List.TakeWhile

/-!
# What is left of a text without its margins

Texts are read in three ways: blanks are dropped at both ends, a text is split at the first
occurrence of a separator, and a run of digits is read as a number.

* `Frames` : a text is something else with blanks around it, which is what `trim` leaves
  (`IsSolid.trim_eq`);
* `SplitsAt` : the two parts of a text around the first occurrence of a separator, which is where
  `splitOnce?` splits (`splitOnce?_eq_some_iff`);
* `Numeral.Writes` and `Numeral.WritesSigned` : the digits of a number that fits a word, which is
  what `Numeral.read?` and `Numeral.readSigned?` read.
-/

namespace Lockstep.Text

/-! ### Blanks -/

/-- A run that the rest does not continue is all that is taken. -/
theorem span_append {α : Type} {p : α → Bool} {as bs : List α} (has : ∀ a ∈ as, p a = true)
    (hbs : ∀ b ∈ bs.head?, p b = false) :
    (as ++ bs).takeWhile p = as ∧ (as ++ bs).dropWhile p = bs := by
  rw [List.takeWhile_append_of_pos has, List.dropWhile_append_of_pos has]
  cases bs with
  | nil => simp
  | cons b bs =>
    have hb : p b = false := hbs b rfl
    simp [hb]

/-- There is nothing but blanks. -/
def AllBlank (cs : List Char) : Prop := ∀ c ∈ cs, isBlank c = true

/-- The text is `core`, perhaps with blanks before and after it. -/
def Frames (core text : List Char) : Prop :=
  ∃ before after, AllBlank before ∧ AllBlank after ∧ text = before ++ core ++ after

/-- There is something, and it neither begins nor ends with a blank. -/
structure IsSolid (cs : List Char) : Prop where
  nonempty : cs ≠ []
  begins : ∀ c ∈ cs.head?, isBlank c = false
  ends : ∀ c ∈ cs.getLast?, isBlank c = false

/-- The graphic characters of ASCII are no blanks. -/
theorem isBlank_of_between {c : Char} (hlow : '!' ≤ c) (hhigh : c ≤ '~') : isBlank c = false := by
  rw [Char.le_def, UInt32.le_iff_toNat_le] at hlow hhigh
  have hfirst : ('!' : Char).val.toNat = 0x21 := rfl
  have hlast : ('~' : Char).val.toNat = 0x7E := rfl
  refine Bool.eq_false_iff.2 fun hblank => ?_
  simp only [isBlank, blankRanges, List.any_cons, List.any_nil, Bool.or_eq_true, Bool.and_eq_true,
    decide_eq_true_eq, Char.toNat, Bool.false_eq_true, or_false] at hblank
  omega

theorem isSolid_of_forall {cs : List Char} (hne : cs ≠ []) (h : ∀ c ∈ cs, isBlank c = false) :
    IsSolid cs :=
  ⟨hne, fun c hc => h c (List.mem_of_mem_head? hc), fun c hc => h c (List.mem_of_getLast? hc)⟩

/-- What begins and ends with something solid is solid. -/
theorem IsSolid.append {cs ds : List Char} (hcs : IsSolid cs) (hds : IsSolid ds)
    (gap : List Char) : IsSolid (cs ++ gap ++ ds) where
  nonempty h := hds.nonempty (List.append_eq_nil_iff.1 h).2
  begins := by
    rw [List.append_assoc, List.head?_append_of_ne_nil _ hcs.nonempty]
    exact hcs.begins
  ends := by
    rw [List.getLast?_append_of_ne_nil _ hds.nonempty]
    exact hds.ends

theorem frames_trim (text : List Char) : Frames (trim text) text := by
  refine ⟨text.takeWhile isBlank, ((trimStart text).reverse.takeWhile isBlank).reverse,
    fun c hc => List.mem_takeWhile_imp hc, fun c hc => ?_, ?_⟩
  · exact List.mem_takeWhile_imp (List.mem_reverse.1 hc)
  · have hend : trim text ++ ((trimStart text).reverse.takeWhile isBlank).reverse =
        trimStart text := by
      rw [trim, trimEnd, ← List.reverse_append, List.takeWhile_append_dropWhile,
        List.reverse_reverse]
    rw [List.append_assoc, hend]
    exact List.takeWhile_append_dropWhile.symm

theorem trimStart_append {before cs : List Char} (hbefore : AllBlank before)
    (hcs : ∀ c ∈ cs.head?, isBlank c = false) : trimStart (before ++ cs) = cs :=
  (span_append hbefore hcs).2

/-- **Trimming leaves what has blanks around it.** -/
theorem IsSolid.trim_eq {core text : List Char} (hcore : IsSolid core) (h : Frames core text) :
    trim text = core := by
  obtain ⟨before, after, hbefore, hafter, rfl⟩ := h
  have hstart : trimStart (before ++ core ++ after) = core ++ after := by
    rw [List.append_assoc]
    refine trimStart_append hbefore ?_
    rw [List.head?_append_of_ne_nil _ hcore.nonempty]
    exact hcore.begins
  -- the end of a text is the beginning of the reversed one
  have hend : trimStart (core ++ after).reverse = core.reverse := by
    rw [List.reverse_append]
    refine trimStart_append (fun c hc => hafter c (List.mem_reverse.1 hc)) ?_
    rw [List.head?_reverse]
    exact hcore.ends
  calc trim (before ++ core ++ after) = (trimStart (core ++ after).reverse).reverse := by
        rw [trim, hstart]; rfl
    _ = core := by rw [hend, List.reverse_reverse]

/-- Blanks around blanks are blanks around all. -/
theorem Frames.trans {core inner text : List Char} (h : Frames core inner)
    (h' : Frames inner text) : Frames core text := by
  obtain ⟨before, after, hbefore, hafter, rfl⟩ := h
  obtain ⟨before', after', hbefore', hafter', rfl⟩ := h'
  refine ⟨before' ++ before, after ++ after', ?_, ?_, by simp⟩
  · exact fun c hc => (List.mem_append.1 hc).elim (hbefore' c) (hbefore c)
  · exact fun c hc => (List.mem_append.1 hc).elim (hafter c) (hafter' c)

theorem Frames.mem {core text : List Char} (h : Frames core text) {c : Char} (hc : c ∈ text) :
    isBlank c = true ∨ c ∈ core := by
  obtain ⟨before, after, hbefore, hafter, rfl⟩ := h
  rcases List.mem_append.1 hc with hc | hc
  · exact (List.mem_append.1 hc).imp_left (hbefore c)
  · exact .inl (hafter c hc)

/-! ### Separators -/

/-- The text has a left and a right part around the first occurrence of a separator. -/
structure SplitsAt (sep text left right : List Char) : Prop where
  whole : text = left ++ sep ++ right
  first : ∀ l r, text = l ++ sep ++ r → left.length ≤ l.length

variable {sep text left right : List Char}

theorem SplitsAt.unique {left' right' : List Char} (h : SplitsAt sep text left right)
    (h' : SplitsAt sep text left' right') : left = left' ∧ right = right' := by
  have hlength : left.length = left'.length :=
    Nat.le_antisymm (h.first left' right' h'.whole) (h'.first left right h.whole)
  have hsame := h.whole.symm.trans h'.whole
  rw [List.append_assoc, List.append_assoc] at hsame
  obtain ⟨rfl, hrest⟩ := List.append_inj hsame hlength
  exact ⟨rfl, List.append_cancel_left hrest⟩

/-- Where the text does not begin with the separator, its first character stands before it. -/
theorem exists_cons_of_stripLead?_eq_none {c : Char} {cs l r : List Char}
    (hhere : stripLead? sep (c :: cs) = none) (h : c :: cs = l ++ sep ++ r) :
    ∃ l', l = c :: l' ∧ cs = l' ++ sep ++ r := by
  cases l with
  | nil =>
    have hfound : stripLead? sep (c :: cs) = some r := stripLead?_eq_some_iff.2 h
    rw [hhere] at hfound
    cases hfound
  | cons d l =>
    obtain ⟨rfl, hrest⟩ := List.cons.inj h
    exact ⟨l, rfl, hrest⟩

theorem splitOnce?_eq_none_iff :
    splitOnce? sep text = none ↔ ∀ l r, text ≠ l ++ sep ++ r := by
  induction text with
  | nil =>
    rw [splitOnce?, Option.map_eq_none_iff, Option.eq_none_iff_forall_ne_some]
    constructor
    · intro h l r hsplit
      have hl : l = [] := by simp_all
      exact h r (stripLead?_eq_some_iff.2 (by rw [hsplit, hl, List.nil_append]))
    · exact fun h rest hrest => h [] rest (stripLead?_eq_some_iff.1 hrest)
  | cons c cs ih =>
    rw [splitOnce?]
    split
    · next rest hrest =>
      exact iff_of_false (Option.some_ne_none _) fun h =>
        h [] rest (stripLead?_eq_some_iff.1 hrest)
    · next hhere =>
      rw [Option.map_eq_none_iff, ih]
      constructor
      · intro h l r hsplit
        obtain ⟨l, rfl, hrest⟩ := exists_cons_of_stripLead?_eq_none hhere hsplit
        exact h l r hrest
      · exact fun h l r hsplit => h (c :: l) r (congrArg (c :: ·) hsplit)

/-- Before the first separator there is no other one. -/
theorem splitsAt_of_splitOnce? (h : splitOnce? sep text = some (left, right)) :
    SplitsAt sep text left right := by
  refine ⟨splitOnce?_eq_some h, ?_⟩
  induction text generalizing left with
  | nil =>
    obtain ⟨rest, -, hpair⟩ := Option.map_eq_some_iff.1 h
    cases hpair
    exact fun l _ _ => Nat.zero_le l.length
  | cons c cs ih =>
    rw [splitOnce?] at h
    split at h
    · cases h
      exact fun l _ _ => Nat.zero_le l.length
    · next hhere =>
      obtain ⟨⟨left', right'⟩, hparts, hpair⟩ := Option.map_eq_some_iff.1 h
      cases hpair
      intro l r hsplit
      obtain ⟨l, rfl, hrest⟩ := exists_cons_of_stripLead?_eq_none hhere hsplit
      exact Nat.succ_le_succ (ih hparts l r hrest)

/-- **A text is split at the first separator.** -/
theorem splitOnce?_eq_some_iff :
    splitOnce? sep text = some (left, right) ↔ SplitsAt sep text left right := by
  refine ⟨splitsAt_of_splitOnce?, fun h => ?_⟩
  cases hsplit : splitOnce? sep text with
  | none => exact absurd h.whole (splitOnce?_eq_none_iff.1 hsplit left right)
  | some parts =>
    obtain ⟨rfl, rfl⟩ := (splitsAt_of_splitOnce? hsplit).unique h
    rfl

/-! ### Numerals -/

namespace Numeral

/-- The text is a run of ASCII digits, at least one, for a number that fits a word. -/
structure Writes (digits : List Char) (n : Nat) : Prop where
  nonempty : digits ≠ []
  ascii : ∀ c ∈ digits, '0' ≤ c ∧ c ≤ '9'
  value : Nat.ofDigitChars 10 digits 0 = n
  word : n ≤ wordMax

/-- There may be one plus sign before the digits. -/
def WritesSigned (cs : List Char) (n : Nat) : Prop :=
  ∃ digits, Writes digits n ∧ (cs = digits ∨ cs = '+' :: digits)

variable {cs : List Char} {c : Char} {n : Nat}

theorem isDigit_iff : isDigit c = true ↔ '0' ≤ c ∧ c ≤ '9' := by
  simp [isDigit]

theorem isBlank_of_isDigit (h : isDigit c = true) : isBlank c = false := by
  obtain ⟨hlow, hhigh⟩ := isDigit_iff.1 h
  exact isBlank_of_between (Char.le_trans (by decide : '!' ≤ '0') hlow)
    (Char.le_trans hhigh (by decide : '9' ≤ '~'))

/-- **A number is read from its digits.** -/
theorem read?_eq_some_iff_writes : read? cs = some n ↔ Writes cs n := by
  rw [read?_eq_some_iff]
  constructor
  · rintro ⟨hne, hdigits, hvalue, hlt⟩
    exact ⟨hne, fun c hc => isDigit_iff.1 (hdigits c hc), hvalue, Nat.le_pred_of_lt hlt⟩
  · rintro ⟨hne, hdigits, hvalue, hle⟩
    exact ⟨hne, fun c hc => isDigit_iff.2 (hdigits c hc), hvalue,
      Nat.lt_of_le_pred (by decide) hle⟩

theorem Writes.head_ne_plus {digits : List Char} (h : Writes digits n) :
    digits ≠ '+' :: cs := by
  rintro rfl
  exact absurd (h.ascii '+' (List.mem_cons_self ..)).1 (by decide)

/-- **A sign is read with its digits.** -/
theorem readSigned?_eq_some_iff : readSigned? cs = some n ↔ WritesSigned cs n := by
  unfold readSigned?
  split
  · next ds =>
    rw [read?_eq_some_iff_writes]
    constructor
    · exact fun h => ⟨ds, h, .inr rfl⟩
    · rintro ⟨digits, h, hds | hds⟩
      · exact absurd hds.symm h.head_ne_plus
      · rwa [(List.cons.inj hds).2]
  · next hplain =>
    rw [read?_eq_some_iff_writes]
    constructor
    · exact fun h => ⟨cs, h, .inl rfl⟩
    · rintro ⟨digits, h, rfl | rfl⟩
      · exact h
      · exact absurd rfl (hplain digits)

theorem Writes.isSolid {digits : List Char} (h : Writes digits n) : IsSolid digits :=
  isSolid_of_forall h.nonempty fun c hc => isBlank_of_isDigit (isDigit_iff.2 (h.ascii c hc))

theorem WritesSigned.isSolid (h : WritesSigned cs n) : IsSolid cs := by
  obtain ⟨digits, h, rfl | rfl⟩ := h
  · exact h.isSolid
  · refine isSolid_of_forall (List.cons_ne_nil _ _) fun c hc => ?_
    rcases List.mem_cons.1 hc with rfl | hc
    · decide
    · exact isBlank_of_isDigit (isDigit_iff.2 (h.ascii c hc))

/-- **A number is read from a text that has its digits between blanks.** -/
theorem readSigned?_trim_eq_some_iff {text : List Char} :
    readSigned? (trim text) = some n ↔ ∃ core, Frames core text ∧ WritesSigned core n := by
  rw [readSigned?_eq_some_iff]
  constructor
  · exact fun h => ⟨trim text, frames_trim text, h⟩
  · rintro ⟨core, hframes, hcore⟩
    rwa [hcore.isSolid.trim_eq hframes]

end Numeral

end Lockstep.Text
