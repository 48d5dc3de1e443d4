import Lockstep.Json.Read
import Lockstep.Json.Render
import Lockstep.Proofs.Trimming
import Mathlib.Algebra.Group.Nat.Defs
import Mathlib.Tactic.SplitIfs

/-!
# Characters that are written and read back

What stands in a JSON text outside of its braces are strings and numbers.

* `Read.bind_of_ok` : readers are taken apart step by step;
* `Read.textRest_quote` : **a string is read back whatever characters it has**;
* `Read.number_toDigits` : a counter is read back digit by digit;
* `Read.Breaks` : what has to follow a number, so that it ends there.
-/

namespace Lockstep

/-! ### Digits -/

namespace Text.Numeral

theorem value_eq_ofDigitChars (cs : List Char) : value cs = Nat.ofDigitChars 10 cs 0 := rfl

theorem isDigit_of_mem_toDigits {n : Nat} {c : Char} (h : c ∈ Nat.toDigits 10 n) :
    isDigit c = true := Nat.isDigit_of_mem_toDigits (by decide) (by decide) h

theorem digit_lt {c : Char} (h : isDigit c = true) : digit c < 10 := by
  simp only [isDigit, Bool.and_eq_true, decide_eq_true_eq, Char.le_def, UInt32.le_iff_toNat_le] at h
  simp only [digit, Char.toNat]
  have : ('0' : Char).val.toNat = 48 := rfl
  have : ('9' : Char).val.toNat = 57 := rfl
  omega

theorem ofDigitChars_lt {cs : List Char} (h : ∀ c ∈ cs, isDigit c = true) (n : Nat) :
    Nat.ofDigitChars 10 cs n < (n + 1) * 10 ^ cs.length := by
  induction cs generalizing n with
  | nil => simp
  | cons c cs ih =>
    have hdigit : 10 * n + digit c + 1 ≤ (n + 1) * 10 := by
      have := digit_lt (h c (List.mem_cons_self ..))
      omega
    calc Nat.ofDigitChars 10 (c :: cs) n = Nat.ofDigitChars 10 cs (10 * n + digit c) := rfl
      _ < (10 * n + digit c + 1) * 10 ^ cs.length :=
        ih (fun d hd => h d (List.mem_cons_of_mem _ hd)) _
      _ ≤ (n + 1) * 10 * 10 ^ cs.length := Nat.mul_le_mul_right _ hdigit
      _ = (n + 1) * 10 ^ (c :: cs).length := by
        rw [List.length_cons, Nat.pow_succ, Nat.mul_assoc, Nat.mul_comm 10]

theorem le_ofDigitChars (cs : List Char) (n : Nat) : n ≤ Nat.ofDigitChars 10 cs n := by
  induction cs generalizing n with
  | nil => exact Nat.le_refl n
  | cons c cs ih =>
    calc n ≤ 10 * n + digit c := by omega
      _ ≤ Nat.ofDigitChars 10 (c :: cs) n := ih _

/-- The digits of a number do not begin with a zero, but for those of zero itself. -/
theorem toDigits_ne_zero_cons (n : Nat) (c : Char) (cs : List Char) :
    Nat.toDigits 10 n ≠ '0' :: c :: cs := by
  intro h
  have hdigits : ∀ d ∈ c :: cs, isDigit d = true := fun d hd =>
    isDigit_of_mem_toDigits (n := n) (h ▸ List.mem_cons_of_mem _ hd)
  have hlt : n < 10 ^ (c :: cs).length := by
    calc n = Nat.ofDigitChars 10 (Nat.toDigits 10 n) 0 := Nat.ofDigitChars_ten_toDigits.symm
      _ = Nat.ofDigitChars 10 (c :: cs) 0 := by rw [h]; rfl
      _ < 10 ^ (c :: cs).length := by simpa using ofDigitChars_lt hdigits 0
  have hshort := (Nat.length_toDigits_le_iff (by decide) (Nat.succ_pos _)).2 hlt
  rw [h] at hshort
  exact absurd hshort (Nat.not_succ_le_self _)

end Text.Numeral

namespace Json.Read

variable {α β : Type}

/-! ### Steps of a reader -/

theorem bind_of_ok {r : Read α} {f : α → Read β} {text rest : List Char} {a : α}
    (h : r text = .ok (a, rest)) : (r >>= f) text = f a rest := by
  change (r text >>= fun p => f p.1 p.2) = _
  rw [h]
  rfl

theorem bind_get (f : List Char → Read β) (text : List Char) :
    ((get : Read (List Char)) >>= f) text = f text text := rfl

theorem bind_peek (f : Option Char → Read β) (text : List Char) :
    (peek >>= f) text = f text.head? text := rfl

theorem bind_drop (f : Unit → Read β) (c : Char) (text : List Char) :
    (drop >>= f) (c :: text) = f () text := rfl

theorem bind_next (f : Char → Read β) (c : Char) (text : List Char) :
    (next >>= f) (c :: text) = f c text := rfl

theorem bind_peekWord (f : Option Char → Read β) (text : List Char) :
    (peekWord >>= f) text = f (text.dropWhile isBlank).head? (text.dropWhile isBlank) := rfl

theorem digits_append {cs rest : List Char} (hcs : ∀ c ∈ cs, Text.Numeral.isDigit c = true)
    (hrest : ∀ c ∈ rest.head?, Text.Numeral.isDigit c = false) :
    digits (cs ++ rest) = .ok (cs, rest) := by
  obtain ⟨htake, hdrop⟩ := Text.span_append hcs hrest
  calc digits (cs ++ rest)
      = .ok ((cs ++ rest).takeWhile Text.Numeral.isDigit,
          (cs ++ rest).dropWhile Text.Numeral.isDigit) := rfl
    _ = .ok (cs, rest) := by rw [htake, hdrop]

/-! ### Strings -/

/-- Four hexadecimal digits are read as their number. -/
theorem hexFour_cons {a b c d : Char} {i j k l : Nat}
    (hbytes : ¬ [a, b, c, d].foldl (fun n c => n + c.utf8Size) 0 < 4)
    (hfour : [a, b, c, d].mapM hexDigit? = some [i, j, k, l]) (rest : List Char) :
    hexFour (a :: b :: c :: d :: rest) = .ok (((i * 16 + j) * 16 + k) * 16 + l, rest) := by
  have htake : (a :: b :: c :: d :: rest).take 4 = [a, b, c, d] := rfl
  rw [hexFour, bind_get]
  simp only [htake, if_neg hbytes, hfour]
  rfl

/-- The digits of a control are read as its code point. -/
theorem hexFour_control {n : Nat} (h : n < 0x20) (rest : List Char) :
    hexFour (Json.hexFour n ++ rest) = .ok (n, rest) := by
  have hdigits : ∀ n < 0x20, ∃ a b, Json.hexFour n = ['0', '0', a, b] ∧ a.utf8Size = 1 ∧
      b.utf8Size = 1 ∧ hexDigit? a = some (n / 16) ∧ hexDigit? b = some (n % 16) := by
    intro n hn
    refine ⟨(Json.hexFour n)[2]!, (Json.hexFour n)[3]!, ?_⟩
    revert n
    decide
  obtain ⟨a, b, hab, hasize, hbsize, ha, hb⟩ := hdigits n h
  have hzero : hexDigit? '0' = some 0 := by decide
  have hzsize : ('0' : Char).utf8Size = 1 := by decide
  have hvalue : ((0 * 16 + 0) * 16 + n / 16) * 16 + n % 16 = n := by omega
  have hfour : ['0', '0', a, b].mapM hexDigit? = some [0, 0, n / 16, n % 16] := by
    simp [hzero, ha, hb]
  have hbytes : ¬ ['0', '0', a, b].foldl (fun n c => n + c.utf8Size) 0 < 4 := by
    simp [hzsize, hasize, hbsize]
  rw [hab]
  exact (hexFour_cons hbytes hfour rest).trans (by rw [hvalue])

/-- What an escape stands for. -/
theorem escaped_control {c : Char} (h : c.toNat < 0x20) (rest : List Char) :
    escaped codeUnit ('u' :: Json.hexFour c.toNat ++ rest) = .ok (c, rest) := by
  have hlow : isLow c.toNat = false := by simp [isLow]; omega
  have hhigh : isHigh c.toNat = false := by simp [isHigh]; omega
  calc escaped codeUnit ('u' :: Json.hexFour c.toNat ++ rest)
      = codeUnit (Json.hexFour c.toNat ++ rest) := rfl
    _ = .ok (Char.ofNat c.toNat, rest) := by
      rw [codeUnit, bind_of_ok (hexFour_control h rest), hlow, hhigh]
      rfl
    _ = .ok (c, rest) := by rw [Char.ofNat_toNat]

/-- A character is written as it is, or as an escape. -/
theorem escape_cases (c : Char) :
    (escape c = [c] ∧ c ≠ '"' ∧ c ≠ '\\' ∧ ¬ c.toNat < 0x20) ∨
      ∃ mark, escape c = '\\' :: mark ∧
        ∀ rest, escaped codeUnit (mark ++ rest) = .ok (c, rest) := by
  unfold escape
  split_ifs with hquote hslash hline hreturn htab hback hfeed hcontrol
  · exact .inr ⟨['"'], rfl, fun _ => by subst hquote; rfl⟩
  · exact .inr ⟨['\\'], rfl, fun _ => by subst hslash; rfl⟩
  · exact .inr ⟨['n'], rfl, fun _ => by subst hline; rfl⟩
  · exact .inr ⟨['r'], rfl, fun _ => by subst hreturn; rfl⟩
  · exact .inr ⟨['t'], rfl, fun _ => by subst htab; rfl⟩
  · exact .inr ⟨['b'], rfl, fun _ => by subst hback; rfl⟩
  · exact .inr ⟨['f'], rfl, fun _ => by subst hfeed; rfl⟩
  · exact .inr ⟨_, rfl, escaped_control hcontrol⟩
  · exact .inl ⟨rfl, hquote, hslash, hcontrol⟩

/-- Every character of a string is read back: controls, quotes and backslashes from their escapes,
any other one as it is. -/
theorem stringRest_escape (c : Char) (bound : Nat) (rest : List Char) :
    stringRest codeUnit (bound + 1) (escape c ++ rest) =
      (do return c :: (← stringRest codeUnit bound)) rest := by
  rcases escape_cases c with ⟨hbare, hquote, hslash, hcontrol⟩ | ⟨mark, hmark, hread⟩
  · rw [hbare, stringRest, List.cons_append, bind_next]
    split
    · exact absurd rfl hquote
    · exact absurd rfl hslash
    · rw [if_neg hcontrol]
      rfl
  · rw [hmark, stringRest, List.cons_append, bind_next]
    exact bind_of_ok (hread rest)

theorem stringRest_flatMap (cs : List Char) {bound : Nat} (h : cs.length < bound)
    (rest : List Char) :
    stringRest codeUnit bound (cs.flatMap escape ++ '"' :: rest) = .ok (cs, rest) := by
  induction cs generalizing bound with
  | nil =>
    obtain ⟨bound, rfl⟩ := Nat.exists_eq_add_one_of_ne_zero (Nat.ne_of_gt h)
    rfl
  | cons c cs ih =>
    obtain ⟨bound, rfl⟩ := Nat.exists_eq_add_one_of_ne_zero (Nat.ne_of_gt (Nat.zero_lt_of_lt h))
    rw [List.flatMap_cons, List.append_assoc, stringRest_escape,
      bind_of_ok (ih (Nat.lt_of_succ_lt_succ h))]
    rfl

theorem length_le_flatMap_escape (cs : List Char) : cs.length ≤ (cs.flatMap escape).length := by
  induction cs with
  | nil => exact Nat.le_refl 0
  | cons c cs ih =>
    have hpos : 0 < (escape c).length := by
      rcases escape_cases c with ⟨h, -⟩ | ⟨mark, h, -⟩ <;> simp [h]
    rw [List.flatMap_cons, List.length_append, List.length_cons]
    omega

/-- **A string is read back**, whatever characters it has. -/
theorem textRest_quote (s : String) (rest : List Char) :
    textRest (s.toList.flatMap escape ++ '"' :: rest) = .ok (s, rest) := by
  have hlength : s.toList.length <
      (s.toList.flatMap escape ++ '"' :: rest).length + 1 := by
    have := length_le_flatMap_escape s.toList
    rw [List.length_append]
    omega
  rw [textRest, bind_get, bind_of_ok (stringRest_flatMap s.toList hlength rest)]
  exact congrArg (fun s => Except.ok (s, rest)) String.ofList_toList

/-! ### Counters -/

/-- The text goes on with nothing that could belong to a number. -/
def Breaks (rest : List Char) : Prop :=
  ∀ c ∈ rest.head?, Text.Numeral.isDigit c = false ∧ c ≠ '.' ∧ c ≠ 'e' ∧ c ≠ 'E'

theorem extend_eq {cs : List Char} {n : Nat} (h : Nat.ofDigitChars 10 cs n < wordLimit) :
    extend n cs = (Nat.ofDigitChars 10 cs n, cs.length) := by
  induction cs generalizing n with
  | nil => rfl
  | cons c cs ih =>
    have hcons : Nat.ofDigitChars 10 (c :: cs) n =
        Nat.ofDigitChars 10 cs (n * 10 + Text.Numeral.digit c) := by
      rw [Nat.mul_comm]; rfl
    rw [hcons] at h
    have hlt := Nat.lt_of_le_of_lt (Text.Numeral.le_ofDigitChars cs _) h
    rw [extend, if_pos hlt, ih h, hcons]
    rfl

/-- The digits of a whole number are taken one by one. -/
theorem number_digits {cs : List Char} (hcs : cs ≠ [])
    (hdigits : ∀ c ∈ cs, Text.Numeral.isDigit c = true) (hzero : ∀ c ds, cs ≠ '0' :: c :: ds)
    (hword : Nat.ofDigitChars 10 cs 0 < wordLimit) {rest : List Char}
    (hrest : ∀ c ∈ rest.head?, Text.Numeral.isDigit c = false) :
    number false (cs ++ rest) = numberRest false (Nat.ofDigitChars 10 cs 0) rest := by
  have hread := digits_append hdigits hrest
  have hextend := extend_eq hword
  cases cs with
  | nil => exact absurd rfl hcs
  | cons c cs =>
    have hdigit : ¬ ¬ Text.Numeral.isDigit c = true :=
      not_not_intro (hdigits c (List.mem_cons_self ..))
    rw [number, bind_peek, List.cons_append, List.head?_cons]
    simp only
    rw [if_neg hdigit, ← List.cons_append, bind_of_ok hread]
    simp only [hextend, ↓reduceIte]

/-- The digits of a counter are taken one by one. -/
theorem number_toDigits {n : Nat} (h : n < wordLimit) {rest : List Char}
    (hrest : ∀ c ∈ rest.head?, Text.Numeral.isDigit c = false) :
    number false (Nat.toDigits 10 n ++ rest) = numberRest false n rest := by
  have hvalue : Nat.ofDigitChars 10 (Nat.toDigits 10 n) 0 = n := Nat.ofDigitChars_ten_toDigits
  have hread := number_digits Nat.toDigits_ne_nil
    (fun _ => Text.Numeral.isDigit_of_mem_toDigits) (Text.Numeral.toDigits_ne_zero_cons n)
    (by rwa [hvalue]) hrest
  rwa [hvalue] at hread

theorem numberRest_of_breaks (n : Nat) {rest : List Char} (h : Breaks rest) :
    numberRest false n rest = .ok (.word n, rest) := by
  have hpoint : rest.head? ≠ some '.' := fun hc => (h _ hc).2.1 rfl
  have he : rest.head? ≠ some 'e' := fun hc => (h _ hc).2.2.1 rfl
  have hE : rest.head? ≠ some 'E' := fun hc => (h _ hc).2.2.2 rfl
  rw [numberRest, bind_peek, if_pos Bool.false_ne_true]
  generalize rest.head? = next at hpoint he hE
  split
  · exact absurd rfl hpoint
  · exact absurd rfl he
  · exact absurd rfl hE
  · rfl

end Json.Read

end Lockstep
