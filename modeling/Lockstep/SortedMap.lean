/-!
# Sorted maps

A `SortedMap` is a finite map kept as a list of pairs with strictly ascending keys.  Two maps with
the same entries are equal, so equality of maps is equality of lists.

* `find?`, `insert`, `alter`, `last?` are the operations;
* `find?_insert` and `find?_alter` say what a lookup sees after a change, and `insert_insert` what
  becomes of a value that is set twice.
-/

namespace Lockstep

/-- A finite map: pairs in strictly ascending order of their keys. -/
structure SortedMap (κ ν : Type) [LT κ] where
  entries : List (κ × ν)
  sorted : entries.Pairwise fun a b => a.1 < b.1

namespace SortedMap

variable {κ ν : Type} [LT κ]

/-- The map without entries. -/
def empty : SortedMap κ ν := ⟨[], List.Pairwise.nil⟩

instance : Inhabited (SortedMap κ ν) := ⟨empty⟩

instance [DecidableEq κ] [DecidableEq ν] : DecidableEq (SortedMap κ ν) := fun a b =>
  match decEq a.entries b.entries with
  | isTrue h => isTrue (by cases a; cases b; cases h; rfl)
  | isFalse h => isFalse fun h' => h (congrArg entries h')

instance [Repr κ] [Repr ν] : Repr (SortedMap κ ν) := ⟨fun m _ => repr m.entries⟩

/-- The keys, in ascending order. -/
def keys (m : SortedMap κ ν) : List κ := m.entries.map Prod.fst

/-- The values, in ascending order of their keys. -/
def values (m : SortedMap κ ν) : List ν := m.entries.map Prod.snd

/-- The number of entries. -/
def size (m : SortedMap κ ν) : Nat := m.entries.length

/-- The greatest key. -/
def last? (m : SortedMap κ ν) : Option κ := m.keys.getLast?

/-- The map with every value changed. -/
def map {μ : Type} (f : κ → ν → μ) (m : SortedMap κ ν) : SortedMap κ μ where
  entries := m.entries.map fun e => (e.1, f e.1 e.2)
  sorted := by
    rw [List.pairwise_map]
    exact m.sorted

/-- The entries whose keys and values have a property. -/
def filter (p : κ → ν → Bool) (m : SortedMap κ ν) : SortedMap κ ν where
  entries := m.entries.filter fun e => p e.1 e.2
  sorted := m.sorted.filter _

/-- The value of a key. -/
def find? [DecidableEq κ] (m : SortedMap κ ν) (k : κ) : Option ν :=
  (m.entries.find? fun e => decide (e.1 = k)).map Prod.snd

/-- The key has a value. -/
def contains [DecidableEq κ] (m : SortedMap κ ν) (k : κ) : Bool := (m.find? k).isSome

variable [DecidableLT κ]

/-- The entries with the value of `k` changed by `f`, which also makes one when there is none. -/
def alterEntries (k : κ) (f : Option ν → ν) : List (κ × ν) → List (κ × ν)
  | [] => [(k, f none)]
  | e :: es =>
    if k < e.1 then (k, f none) :: e :: es
    else if e.1 < k then e :: alterEntries k f es
    else (e.1, f (some e.2)) :: es

variable [LE κ] [Std.IsLinearOrder κ] [Std.LawfulOrderLT κ]

omit [LE κ] [Std.IsLinearOrder κ] [Std.LawfulOrderLT κ] in
theorem mem_alterEntries {k : κ} {f : Option ν → ν} {es : List (κ × ν)} {e : κ × ν}
    (h : e ∈ alterEntries k f es) : e.1 = k ∨ ∃ e' ∈ es, e'.1 = e.1 := by
  induction es with
  | nil => simp [alterEntries] at h; exact Or.inl (by rw [h])
  | cons a es ih =>
    rw [alterEntries] at h
    split at h
    · rcases List.mem_cons.1 h with rfl | h
      · exact Or.inl rfl
      · exact Or.inr ⟨e, h, rfl⟩
    · split at h
      · rcases List.mem_cons.1 h with rfl | h
        · exact Or.inr ⟨e, List.mem_cons_self .., rfl⟩
        · rcases ih h with h | ⟨e', h1, h2⟩
          · exact Or.inl h
          · exact Or.inr ⟨e', List.mem_cons_of_mem _ h1, h2⟩
      · rcases List.mem_cons.1 h with rfl | h
        · exact Or.inr ⟨a, List.mem_cons_self .., rfl⟩
        · exact Or.inr ⟨e, List.mem_cons_of_mem _ h, rfl⟩

theorem alterEntries_sorted {k : κ} {f : Option ν → ν} {es : List (κ × ν)}
    (h : es.Pairwise fun a b => a.1 < b.1) :
    (alterEntries k f es).Pairwise fun a b => a.1 < b.1 := by
  induction es with
  | nil => exact List.pairwise_singleton _ _
  | cons a es ih =>
    rw [alterEntries]
    obtain ⟨ha, hes⟩ := List.pairwise_cons.1 h
    split
    · next hk =>
      refine List.pairwise_cons.2 ⟨fun e he => ?_, h⟩
      rcases List.mem_cons.1 he with rfl | he
      · exact hk
      · exact Std.lt_trans hk (ha e he)
    · split
      · next hk =>
        refine List.pairwise_cons.2 ⟨fun e he => ?_, ih hes⟩
        rcases mem_alterEntries he with h' | ⟨e', h1, h2⟩
        · rw [h']; exact hk
        · rw [← h2]; exact ha e' h1
      · exact List.pairwise_cons.2 ⟨fun e he => ha e he, hes⟩

/-- Changes the value of a key, or makes one when there is none. -/
def alter (m : SortedMap κ ν) (k : κ) (f : Option ν → ν) : SortedMap κ ν :=
  ⟨alterEntries k f m.entries, alterEntries_sorted m.sorted⟩

/-- Sets the value of a key. -/
def insert (m : SortedMap κ ν) (k : κ) (v : ν) : SortedMap κ ν := m.alter k fun _ => v

/-- The map of a list of pairs; of two pairs with one key the later one counts. -/
def ofList (es : List (κ × ν)) : SortedMap κ ν := es.foldl (fun m e => m.insert e.1 e.2) empty

/-! ### Lookups -/

variable [DecidableEq κ]

omit [DecidableLT κ] [DecidableEq κ] in
theorem eq_of_not_lt {a b : κ} (h₁ : ¬ a < b) (h₂ : ¬ b < a) : a = b :=
  Std.le_antisymm (Std.not_lt.1 h₂) (Std.not_lt.1 h₁)

theorem find?_alterEntries {k k' : κ} {f : Option ν → ν} {es : List (κ × ν)}
    (h : es.Pairwise fun a b => a.1 < b.1) :
    ((alterEntries k f es).find? fun e => decide (e.1 = k')).map Prod.snd =
      if k' = k then some (f ((es.find? fun e => decide (e.1 = k)).map Prod.snd))
      else (es.find? fun e => decide (e.1 = k')).map Prod.snd := by
  induction es with
  | nil =>
    by_cases hk : k' = k
    · simp [alterEntries, hk]
    · simp [alterEntries, hk, Ne.symm hk]
  | cons a es ih =>
    obtain ⟨ha, hes⟩ := List.pairwise_cons.1 h
    rw [alterEntries]
    split
    · next hlt =>
      have hne : ¬ a.1 = k := fun h' => Std.lt_irrefl (h' ▸ hlt)
      have hnone : es.find? (fun e => decide (e.1 = k)) = none := by
        rw [List.find?_eq_none]
        intro e he h'
        have : e.1 = k := by simpa using h'
        exact Std.lt_irrefl (Std.lt_trans hlt (this ▸ ha e he))
      by_cases hk : k' = k
      · simp [hk, hne, hnone]
      · simp [hk, Ne.symm hk]
    · next hnlt =>
      split
      · next hlt =>
        have hne : ¬ a.1 = k := fun h' => Std.lt_irrefl (h' ▸ hlt)
        have := ih hes
        by_cases hk : k' = k
        · subst hk
          simpa [hne] using this
        · by_cases hak : a.1 = k'
          · simp [hak, hk]
          · simpa [hak, hk] using this
      · next hnlt' =>
        have heq : a.1 = k := eq_of_not_lt hnlt' hnlt
        by_cases hk : k' = k
        · simp [hk, heq]
        · have : ¬ k = k' := Ne.symm hk
          simp [hk, heq, this]

theorem find?_alter (m : SortedMap κ ν) (k k' : κ) (f : Option ν → ν) :
    (m.alter k f).find? k' = if k' = k then some (f (m.find? k)) else m.find? k' :=
  find?_alterEntries m.sorted

theorem find?_insert (m : SortedMap κ ν) (k k' : κ) (v : ν) :
    (m.insert k v).find? k' = if k' = k then some v else m.find? k' :=
  find?_alter m k k' fun _ => v

omit [Std.IsLinearOrder κ] [DecidableEq κ] in
theorem alterEntries_alterEntries (k : κ) (f g : Option ν → ν) (es : List (κ × ν)) :
    alterEntries k g (alterEntries k f es) = alterEntries k (fun v => g (some (f v))) es := by
  have hirrefl : ¬ k < k := Std.lt_irrefl
  induction es with
  | nil => simp [alterEntries, hirrefl]
  | cons e es ih =>
    rw [alterEntries]
    split
    · next hlt => simp [alterEntries, hlt, hirrefl]
    · next hnlt =>
      split
      · next hlt => simp only [alterEntries, if_neg hnlt, if_pos hlt, ih]
      · next hnlt' => simp only [alterEntries, if_neg hnlt, if_neg hnlt']

omit [DecidableEq κ] in
/-- A value that is set again is only the new one. -/
theorem insert_insert (m : SortedMap κ ν) (k : κ) (v w : ν) :
    (m.insert k v).insert k w = m.insert k w := by
  simp only [insert, alter, alterEntries_alterEntries]

omit [LE κ] [DecidableLT κ] [Std.IsLinearOrder κ] [Std.LawfulOrderLT κ] in
@[simp] theorem find?_empty (k : κ) : (empty : SortedMap κ ν).find? k = none := rfl

omit [DecidableLT κ] [Std.IsLinearOrder κ] in
theorem find?_eq_some_iff {m : SortedMap κ ν} {k : κ} {v : ν} :
    m.find? k = some v ↔ (k, v) ∈ m.entries := by
  obtain ⟨es, hes⟩ := m
  simp only [find?]
  induction es with
  | nil => simp
  | cons a es ih =>
    obtain ⟨ha, hes⟩ := List.pairwise_cons.1 hes
    by_cases hk : a.1 = k
    · -- the keys that follow are greater
      have hnew : (k, v) ∉ es := fun h => Std.lt_irrefl (hk ▸ ha (k, v) h)
      simp [hk, hnew, Prod.ext_iff, eq_comm]
    · have hne : (k, v) ≠ a := fun h => hk (h ▸ rfl)
      simpa [hk, hne] using ih hes

end SortedMap

end Lockstep
