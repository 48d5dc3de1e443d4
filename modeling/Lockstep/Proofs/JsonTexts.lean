import Lockstep.Proofs.JsonCharacters
import Mathlib.Data.List.Nodup

/-!
# Texts of JSON values

Which text a value has does not depend on blanks; a reader that gets the value from one of its texts
gets it from all of them.

* `Json.Written` : a text of a value, with blanks before whatever is not part of a word;
* `Json.written_compact`, `Json.written_pretty` : both ways to write a value are such texts;
* `Json.Reads` : a reader gets something from all texts of a value;
* `Json.reads_natural`, `Json.reads_object`, `Json.reads_record` : what counters, objects and
  structures are read as.
-/

namespace Lockstep.Json

/-! ### Texts -/

/-- Nothing but blanks. -/
def IsBlanks (text : List Char) : Prop := ∀ c ∈ text, Read.isBlank c = true

theorem isBlanks_nil : IsBlanks [] := fun _ h => nomatch h

mutual

/-- A text of a value. -/
inductive Written : Json → List Char → Prop
  | word {blanks : List Char} (hb : IsBlanks blanks) (n : Nat) :
      Written (.word n) (blanks ++ Nat.toDigits 10 n)
  | float {blanks : List Char} (hb : IsBlanks blanks) (x : Float) :
      Written (.float x) (blanks ++ Decimal.Layout.json.render x)
  | object {blanks text : List Char} {fields : List (String × Json)} (hb : IsBlanks blanks)
      (h : WrittenFields true fields text) : Written (.object fields) (blanks ++ '\x7b' :: text)

/-- A text of fields with the closing brace; if they are not the first ones of their object, a comma
comes before them. -/
inductive WrittenFields : Bool → List (String × Json) → List Char → Prop
  | nil (first : Bool) {blanks : List Char} (hb : IsBlanks blanks) :
      WrittenFields first [] (blanks ++ ['\x7d'])
  | cons {blanks text texts : List Char} {v : Json} {fields : List (String × Json)}
      (hb : IsBlanks blanks) (key : String) (hv : Written v text)
      (h : WrittenFields false fields texts) :
      WrittenFields true ((key, v) :: fields) (blanks ++ quote key ++ ':' :: (text ++ texts))
  | comma {blanks text : List Char} {field : String × Json} {fields : List (String × Json)}
      (hb : IsBlanks blanks) (h : WrittenFields true (field :: fields) text) :
      WrittenFields false (field :: fields) (blanks ++ ',' :: text)

end

mutual

/-- The text without blanks is a text of the value. -/
theorem written_compact : (j : Json) → Written j j.compact
  | .word n => .word isBlanks_nil n
  | .float x => .float isBlanks_nil x
  | .object fields => .object isBlanks_nil (writtenFields_compact fields)

theorem writtenFields_compact : (fields : List (String × Json)) →
    WrittenFields true fields (compactFields fields ++ ['\x7d'])
  | [] => .nil true isBlanks_nil
  | [(key, v)] => by
    simpa [compactFields] using
      WrittenFields.cons isBlanks_nil key (written_compact v) (.nil false isBlanks_nil)
  | (key, v) :: field :: fields => by
    simpa [compactFields] using
      WrittenFields.cons isBlanks_nil key (written_compact v)
        (.comma isBlanks_nil (writtenFields_compact (field :: fields)))

end

theorem isBlanks_indent (depth : Nat) : IsBlanks (indent depth) := by
  intro c hc
  rcases List.mem_cons.1 hc with rfl | hc
  · rfl
  · rw [List.eq_of_mem_replicate hc]
    rfl

theorem isBlanks_space : IsBlanks [' '] := by
  intro c hc
  rw [List.mem_singleton.1 hc]
  rfl

/-- Blanks before a text do not matter. -/
theorem Written.blank {j : Json} {text blanks : List Char} (hb : IsBlanks blanks)
    (h : Written j text) : Written j (blanks ++ text) := by
  have happend {blanks' : List Char} (hb' : IsBlanks blanks') : IsBlanks (blanks ++ blanks') :=
    fun c hc => (List.mem_append.1 hc).elim (hb c) (hb' c)
  cases h with
  | word hb' n => rw [← List.append_assoc]; exact .word (happend hb') n
  | float hb' x => rw [← List.append_assoc]; exact .float (happend hb') x
  | object hb' h => rw [← List.append_assoc]; exact .object (happend hb') h

mutual

/-- The text with a line for every field is a text of the value, at any depth. -/
theorem written_prettyAt (depth : Nat) : (j : Json) → Written j (j.prettyAt depth)
  | .word n => by rw [prettyAt]; exact .word isBlanks_nil n
  | .float x => by rw [prettyAt]; exact .float isBlanks_nil x
  | .object [] => by rw [prettyAt]; exact .object isBlanks_nil (.nil true isBlanks_nil)
  | .object (field :: fields) => by
    simpa [prettyAt] using Written.object isBlanks_nil
      (writtenFields_pretty depth (depth + 1) (field :: fields) (List.cons_ne_nil _ _))

theorem writtenFields_pretty (outer depth : Nat) : (fields : List (String × Json)) →
    fields ≠ [] →
      WrittenFields true fields (prettyFields depth fields ++ (indent outer ++ ['\x7d']))
  | [], h => absurd rfl h
  | [(key, v)], _ => by
    simpa [prettyFields] using
      WrittenFields.cons (isBlanks_indent depth) key
        ((written_prettyAt depth v).blank isBlanks_space) (.nil false (isBlanks_indent outer))
  | (key, v) :: field :: fields, _ => by
    simpa [prettyFields] using
      WrittenFields.cons (isBlanks_indent depth) key
        ((written_prettyAt depth v).blank isBlanks_space)
        (.comma isBlanks_nil
          (writtenFields_pretty outer depth (field :: fields) (List.cons_ne_nil _ _)))

end

theorem written_pretty (j : Json) : Written j j.pretty := written_prettyAt 0 j

/-! ### Readers -/

namespace Read

variable {α β : Type}

theorem dropWhile_isBlank {blanks : List Char} (hb : IsBlanks blanks) {c : Char}
    (hc : isBlank c = false) (text : List Char) :
    (blanks ++ c :: text).dropWhile isBlank = c :: text := by
  rw [List.dropWhile_append_of_pos hb, List.dropWhile_cons, hc]
  rfl

/-- What comes next after blanks. -/
theorem bind_peekWord_cons (f : Option Char → Read β) {blanks : List Char} (hb : IsBlanks blanks)
    {c : Char} (hc : isBlank c = false) (text : List Char) :
    (peekWord >>= f) (blanks ++ c :: text) = f (some c) (c :: text) := by
  rw [bind_peekWord, dropWhile_isBlank hb hc, List.head?_cons]

theorem breaks_of_isBlanks {blanks : List Char} (hb : IsBlanks blanks) {c : Char}
    (hc : Breaks [c]) (text : List Char) : Breaks (blanks ++ c :: text) := by
  intro d hd
  cases blanks with
  | nil => exact hc d hd
  | cons b blanks =>
    obtain rfl : b = d := Option.some.inj hd
    have hblank := hb b (List.mem_cons_self ..)
    simp only [isBlank, Bool.or_eq_true, decide_eq_true_eq] at hblank
    obtain ((rfl | rfl) | rfl) | rfl := hblank <;> decide

end Read

open Read

/-- What comes after a value in an object cannot belong to a number. -/
theorem WrittenFields.breaks {fields : List (String × Json)} {text : List Char}
    (h : WrittenFields false fields text) (rest : List Char) : Breaks (text ++ rest) := by
  have hsingle (c : Char) (hc : c = ',' ∨ c = '\x7d') : Breaks [c] := by
    rintro d ⟨⟩
    rcases hc with rfl | rfl <;> decide
  cases h with
  | nil _ hb => simpa using breaks_of_isBlanks hb (hsingle _ (.inr rfl)) rest
  | comma hb h => simpa using breaks_of_isBlanks hb (hsingle _ (.inl rfl)) (_ ++ rest)

theorem WrittenFields.length_le {first : Bool} {fields : List (String × Json)} {text : List Char}
    (h : WrittenFields first fields text) : fields.length ≤ text.length := by
  induction fields generalizing first text with
  | nil => exact Nat.zero_le _
  | cons field fields ih =>
    have hfirst {text : List Char} (h : WrittenFields true (field :: fields) text) :
        (field :: fields).length ≤ text.length := by
      cases h with
      | cons hb key hv h =>
        have := ih h
        simp only [List.length_append, List.length_cons]
        omega
    cases h with
    | cons hb key hv h => exact hfirst (.cons hb key hv h)
    | comma hb h =>
      have := hfirst h
      simp only [List.length_append, List.length_cons] at this ⊢
      omega

/-- The reader gets `a` from every text of a value, and takes nothing of what follows. -/
def Reads {α : Type} (r : Read α) (j : Json) (a : α) : Prop :=
  ∀ text rest, Written j text → Breaks rest → r (text ++ rest) = .ok (a, rest)

/-- A digit is what a number may begin with. -/
theorem anyNumber_of_isDigit {blanks : List Char} (hb : IsBlanks blanks) {c : Char}
    (hc : Text.Numeral.isDigit c = true) (text : List Char) :
    anyNumber (blanks ++ c :: text) = number false (c :: text) := by
  have hblank : isBlank c = false := by
    by_contra hblank
    simp only [isBlank, Bool.not_eq_false, Bool.or_eq_true, decide_eq_true_eq] at hblank
    obtain ((rfl | rfl) | rfl) | rfl := hblank <;> cases hc
  have hminus : some c ≠ some '-' := by
    rintro ⟨⟩
    cases hc
  rw [anyNumber, bind_peekWord_cons _ hb hblank]
  generalize hnext : some c = next at hminus
  split
  · cases hnext
  · exact absurd rfl hminus
  · cases hnext
    rw [if_pos hc]

/-- A counter is read as what it is. -/
theorem reads_natural {n limit : Nat} (hlimit : n < limit) (hn : n < wordLimit) :
    Reads (natural limit) (.word n) n := by
  intro text rest hw hrest
  cases hw with
  | @word blanks hb =>
    have hnumber : anyNumber (blanks ++ (Nat.toDigits 10 n ++ rest)) = .ok (.word n, rest) := by
      cases hcs : Nat.toDigits 10 n with
      | nil => exact absurd hcs Nat.toDigits_ne_nil
      | cons c cs =>
        have hdigit := Text.Numeral.isDigit_of_mem_toDigits (hcs ▸ List.mem_cons_self ..)
        rw [List.cons_append, anyNumber_of_isDigit hb hdigit, ← List.cons_append, ← hcs,
          number_toDigits hn fun c hc => (hrest c hc).1, numberRest_of_breaks n hrest]
    rw [List.append_assoc, natural, bind_of_ok hnumber]
    simp only
    rw [if_pos hlimit]
    rfl

theorem reads_word {n : Nat} (hn : n < wordLimit) : Reads Read.word (.word n) n :=
  reads_natural hn hn

/-! ### Objects -/

theorem nextKey_nil (first : Bool) {blanks : List Char} (hb : IsBlanks blanks) (rest : List Char) :
    nextKey first (blanks ++ '\x7d' :: rest) = .ok (none, rest) := by
  rw [nextKey, bind_peekWord_cons _ hb rfl]
  rfl

theorem nextKey_first {blanks : List Char} (hb : IsBlanks blanks) (key : String)
    (rest : List Char) : nextKey true (blanks ++ (quote key ++ rest)) = .ok (some key, rest) := by
  rw [quote, List.cons_append, List.cons_append, List.append_assoc, nextKey,
    bind_peekWord_cons _ hb rfl]
  change (textRest >>= fun key => pure (some key)) (key.toList.flatMap escape ++ '"' :: rest) = _
  rw [bind_of_ok (textRest_quote key rest)]
  rfl

theorem nextKey_comma {blanks blanks' : List Char} (hb : IsBlanks blanks) (hb' : IsBlanks blanks')
    (key : String) (rest : List Char) :
    nextKey false (blanks ++ ',' :: (blanks' ++ (quote key ++ rest))) = .ok (some key, rest) := by
  rw [quote, List.cons_append, List.cons_append, List.append_assoc, nextKey,
    bind_peekWord_cons _ hb rfl]
  generalize hnext : some ',' = next
  split
  · cases hnext
  · exact absurd hnext (by decide)
  · cases hnext
    simp only [Bool.false_eq_true, not_false_eq_true, ↓reduceIte, ne_eq, not_true_eq_false]
    rw [bind_drop, bind_peekWord_cons _ hb' rfl]
    change (textRest >>= fun key => pure (some key)) (key.toList.flatMap escape ++ '"' :: rest) = _
    rw [bind_of_ok (textRest_quote key rest)]
    rfl

/-- What an object is read into, when its entries are read one after the other. -/
inductive Folds {α : Type} (entry : String → α → Read α) : α → List (String × Json) → α → Prop
  | nil (a : α) : Folds entry a [] a
  | cons {a b c : α} {key : String} {v : Json} {fields : List (String × Json)}
      (hentry : ∀ text rest, Written v text → Breaks rest →
        entry key a (':' :: (text ++ rest)) = .ok (b, rest))
      (h : Folds entry b fields c) : Folds entry a ((key, v) :: fields) c

theorem entriesWithin_of_folds {α : Type} {entry : String → α → Read α} {a b : α}
    {fields : List (String × Json)} (hfolds : Folds entry a fields b) {first : Bool}
    {text : List Char} (h : WrittenFields first fields text) {bound : Nat}
    (hbound : fields.length < bound) (rest : List Char) :
    entriesWithin entry first a bound (text ++ rest) = .ok (b, rest) := by
  induction hfolds generalizing first text bound with
  | nil a =>
    obtain ⟨bound, rfl⟩ := Nat.exists_eq_add_one_of_ne_zero (Nat.ne_of_gt hbound)
    cases h with
    | nil _ hb =>
      rw [List.append_assoc, List.singleton_append, entriesWithin,
        bind_of_ok (nextKey_nil first hb rest)]
      rfl
  | @cons a b c key v fields hentry _ ih =>
    obtain ⟨bound, rfl⟩ :=
      Nat.exists_eq_add_one_of_ne_zero (Nat.ne_of_gt (Nat.zero_lt_of_lt hbound))
    have hlater := Nat.lt_of_succ_lt_succ hbound
    have hrest {text texts : List Char} (hv : Written v text)
        (h : WrittenFields false fields texts) :
        (do let a ← entry key a; entriesWithin entry false a bound)
          (':' :: (text ++ (texts ++ rest))) = .ok (c, rest) := by
      rw [bind_of_ok (hentry _ _ hv (h.breaks rest))]
      exact ih h hlater
    cases h with
    | cons hb _ hv h =>
      simp only [List.append_assoc, List.cons_append]
      rw [entriesWithin, bind_of_ok (nextKey_first hb key _)]
      exact hrest hv h
    | comma hb h =>
      cases h with
      | cons hb' _ hv h =>
        simp only [List.append_assoc, List.cons_append]
        rw [entriesWithin, bind_of_ok (nextKey_comma hb hb' key _)]
        exact hrest hv h

theorem entriesInto_of_folds {α : Type} {entry : String → α → Read α} {a b : α}
    {fields : List (String × Json)} (hfolds : Folds entry a fields b) {text : List Char}
    (h : WrittenFields true fields text) (rest : List Char) :
    entriesInto entry a (text ++ rest) = .ok (b, rest) := by
  have hbound : fields.length < (text ++ rest).length + 1 := by
    have := h.length_le
    rw [List.length_append]
    omega
  exact entriesWithin_of_folds hfolds h hbound rest

/-- An object is read into what its entries are read into. -/
theorem reads_object {α : Type} {entry : String → α → Read α} {a b : α}
    {fields : List (String × Json)} (hfolds : Folds entry a fields b) :
    Reads (Read.object entry a) (.object fields) b := by
  intro text rest hw _
  cases hw with
  | @object _ text _ hb h =>
    rw [List.append_assoc, List.cons_append, Read.object, bind_peekWord_cons _ hb rfl]
    exact entriesInto_of_folds hfolds h rest

/-! ### Structures -/

/-- What a structure is read into, when its fields come in order. -/
inductive Fills {α : Type} : List (RecordField α) → α → List (String × Json) → α → Prop
  | nil (a : α) : Fills [] a [] a
  | cons {f : RecordField α} {fields : List (RecordField α)} {a b c : α} {v : Json}
      {vs : List (String × Json)} (hread : Reads (f.read a) v b) (h : Fills fields b vs c) :
      Fills (f :: fields) a ((f.name, v) :: vs) c

theorem colon_cons (text : List Char) : colon (':' :: text) = .ok ((), text) := rfl

/-- A field that has not been read yet is found and read. -/
theorem fieldEntry_of_find? {α : Type} {fields : List (RecordField α)} {f : RecordField α}
    {strict : Bool} {a b : α} {seen : List String} {v : Json}
    (hf : fields.find? (fun g => g.name == f.name) = some f) (hseen : f.name ∉ seen)
    (hread : Reads (f.read a) v b) {text rest : List Char} (hv : Written v text)
    (hrest : Breaks rest) :
    fieldEntry fields strict f.name ⟨a, seen⟩ (':' :: (text ++ rest)) =
      .ok (⟨b, f.name :: seen⟩, rest) := by
  have hnew : ¬ seen.contains f.name = true := by simpa using hseen
  rw [fieldEntry, hf]
  simp only
  rw [if_neg hnew, bind_of_ok (colon_cons _), bind_of_ok (hread text rest hv hrest)]
  rfl

theorem Fills.folds {α : Type} {fields todo : List (RecordField α)} {strict : Bool} {a b : α}
    {vs : List (String × Json)} (h : Fills todo a vs b) {seen : List String}
    (hfind : ∀ f ∈ todo, fields.find? (fun g => g.name == f.name) = some f)
    (hseen : ∀ f ∈ todo, f.name ∉ seen) (hnodup : (todo.map RecordField.name).Nodup) :
    Folds (fieldEntry fields strict) ⟨a, seen⟩ vs
      ⟨b, (todo.map RecordField.name).reverse ++ seen⟩ := by
  induction h generalizing seen with
  | nil a => exact .nil _
  | @cons f todo a b c v vs hread _ ih =>
    obtain ⟨hnew, hnodup⟩ := List.nodup_cons.1 hnodup
    have hlater : ∀ g ∈ todo, g.name ∉ f.name :: seen := by
      intro g hg hmem
      rcases List.mem_cons.1 hmem with heq | hmem
      · exact hnew (heq ▸ List.mem_map_of_mem hg)
      · exact hseen g (List.mem_cons_of_mem _ hg) hmem
    have hfolds := ih (fun g hg => hfind g (List.mem_cons_of_mem _ hg)) hlater hnodup
    rw [List.map_cons, List.reverse_cons, List.append_assoc]
    exact .cons (fun text rest hv hrest => fieldEntry_of_find? (hfind f (List.mem_cons_self ..))
      (hseen f (List.mem_cons_self ..)) hread hv hrest) hfolds

theorem find?_name {α : Type} {fields : List (RecordField α)}
    (hnodup : (fields.map RecordField.name).Nodup) {f : RecordField α} (hf : f ∈ fields) :
    fields.find? (fun g => g.name == f.name) = some f := by
  induction fields with
  | nil => cases hf
  | cons g fields ih =>
    obtain ⟨hnew, hnodup⟩ := List.nodup_cons.1 hnodup
    rcases List.mem_cons.1 hf with rfl | hf
    · exact List.find?_cons_of_pos (beq_self_eq_true f.name)
    · let named (g : RecordField α) : Bool := g.name == f.name
      have hne : ¬ named g = true := fun heq => hnew (beq_iff_eq.1 heq ▸ List.mem_map_of_mem hf)
      exact (List.find?_cons_of_neg (p := named) hne).trans (ih hnodup hf)

/-- **A structure is read field by field**, when its fields have different names. -/
theorem reads_record {α β : Type} {fields : List (RecordField α)} {strict : Bool} {a b : α}
    {vs : List (String × Json)} {make : α → Option β} {c : β}
    (hnodup : (fields.map RecordField.name).Nodup) (h : Fills fields a vs b)
    (hmake : make b = some c) : Reads (record fields strict a make) (.object vs) c := by
  intro text rest hw _
  cases hw with
  | @object _ text _ hb hfields =>
    have hfolds : Folds (fieldEntry fields strict) ⟨a, []⟩ vs
        ⟨b, (fields.map RecordField.name).reverse ++ []⟩ :=
      h.folds (fun f hf => find?_name hnodup hf) (fun _ _ => List.not_mem_nil) hnodup
    have hseen : (fields.all fun f =>
        ((fields.map RecordField.name).reverse ++ []).contains f.name) = true := by
      refine List.all_eq_true.2 fun f hf => ?_
      simpa using ⟨f, hf, rfl⟩
    rw [List.append_assoc, List.cons_append, record, bind_peekWord_cons _ hb rfl]
    simp only
    rw [bind_drop, bind_of_ok (entriesInto_of_folds hfolds hfields rest)]
    simp only
    rw [if_pos hseen, hmake]
    rfl

end Lockstep.Json
