import Lockstep.Proofs.JsonTexts
import Lockstep.Proofs.ShortestDecimals

/-!
# Floats that are written and read back

A float is written as its shortest decimal, with a point, an exponent or both.  The reader collects
the digits and the exponent again, and then scales; it is only the scaling that may miss the float.

* `Scaled.written` : the digits and the exponent that are read from the text of a decimal;
* `Json.Read.number_ofScaled` : **they are read from every layout**;
* `Holds.reads` : a float is read as its shortest decimal;
* `Holds.alike_reread` : what is read differs from the float by a few units of the last bit;
* `Holds.reread_eq` : it does not differ at all when the decimal is short.
-/

namespace Lockstep

open Decimal

namespace Decimal

/-- What is a number is no infinity. -/
theorem Holds.isInf {x : Float} {v : ℚ} (h : Holds x v) : x.isInf = false := by
  obtain ⟨m, e, hx, -⟩ := h
  obtain ⟨hm, hunpack⟩ := hx.unpack
  change x.toModel.unpack.isInf = false
  rw [hunpack]
  rfl

theorem Scaled.isInf_reread {d : Scaled} (hpos : 0 < d.digits) (hword : d.digits < wordLimit)
    (hexponent : d.exponent.natAbs ≤ 40) : d.reread.isInf = false :=
  let ⟨_, hholds, _⟩ := Scaled.holds_reread hpos hword hexponent
  hholds.isInf

/-- The digits and the exponent that are read from the text of a decimal.  A whole number is written
with all its zeros, and with one more after the point. -/
def Scaled.written (d : Scaled) : Scaled :=
  if 0 ≤ d.exponent ∧ d.exponent + (Nat.toDigits 10 d.digits).length ≤ 16 then
    ⟨d.digits * 10 ^ (d.exponent.toNat + 1), -1⟩
  else d

theorem Scaled.written_value (d : Scaled) : d.written.value = d.value := by
  unfold Scaled.written
  split
  · next h =>
    obtain ⟨n, hn⟩ := Int.eq_ofNat_of_zero_le h.1
    simp only [Scaled.value, hn, Int.toNat_natCast, zpow_neg, zpow_one,
      zpow_natCast]
    push_cast
    rw [pow_succ]
    ring
  · rfl

/-- What is read from a short text is short. -/
theorem Scaled.written_bounds {d : Scaled} (hpos : 0 < d.digits) (hword : d.digits < wordLimit)
    (hexponent : d.exponent.natAbs ≤ 40) :
    0 < d.written.digits ∧ d.written.digits < wordLimit ∧ d.written.exponent.natAbs ≤ 40 := by
  unfold Scaled.written
  split
  · next h =>
    have hlength := (length_toDigits_spec hpos).2
    refine ⟨Nat.mul_pos hpos (by positivity), ?_, by simp⟩
    calc d.digits * 10 ^ (d.exponent.toNat + 1)
        < 10 ^ (Nat.toDigits 10 d.digits).length * 10 ^ (d.exponent.toNat + 1) :=
          Nat.mul_lt_mul_of_pos_right hlength (by positivity)
      _ = 10 ^ ((Nat.toDigits 10 d.digits).length + (d.exponent.toNat + 1)) := (pow_add ..).symm
      _ ≤ 10 ^ 17 := Nat.pow_le_pow_right (by decide) (by omega)
      _ < wordLimit := by decide
  · exact ⟨hpos, hword, hexponent⟩

end Decimal

/-! ### Digits and zeros -/

namespace Text.Numeral

theorem ofDigitChars_zeros (k n : Nat) : Nat.ofDigitChars 10 (Layout.zeros k) n = n * 10 ^ k := by
  induction k generalizing n with
  | zero => simp [Layout.zeros]
  | succ k ih =>
    have hzeros : Layout.zeros (k + 1) = '0' :: Layout.zeros k := rfl
    rw [hzeros, Nat.ofDigitChars_cons, ih]
    have hzero : '0'.toNat - '0'.toNat = 0 := rfl
    rw [hzero, Nat.pow_succ]
    ring

theorem isDigit_of_mem_zeros {k : Nat} {c : Char} (h : c ∈ Layout.zeros k) : isDigit c = true := by
  rw [List.eq_of_mem_replicate h]
  rfl

end Text.Numeral

namespace Json.Read

/-! ### Numbers with a point or an exponent -/

/-- The digits of a number with nothing needless before them. -/
structure IsWhole (cs : List Char) : Prop where
  nonempty : cs ≠ []
  digits : ∀ c ∈ cs, Text.Numeral.isDigit c = true
  zero : ∀ c ds, cs ≠ '0' :: c :: ds

theorem isWhole_toDigits (n : Nat) : IsWhole (Nat.toDigits 10 n) :=
  ⟨Nat.toDigits_ne_nil, fun _ => Text.Numeral.isDigit_of_mem_toDigits,
    Text.Numeral.toDigits_ne_zero_cons n⟩

/-- The first digits of a number. -/
theorem IsWhole.of_append {cs ds : List Char} (h : IsWhole (cs ++ ds)) (hcs : cs ≠ []) :
    IsWhole cs := by
  refine ⟨hcs, fun c hc => h.digits c (List.mem_append_left _ hc), ?_⟩
  rintro c es rfl
  exact h.zero c (es ++ ds) rfl

/-- Zeros may follow a number that is not zero. -/
theorem IsWhole.append_zeros {n : Nat} (hn : 0 < n) (k : Nat) :
    IsWhole (Nat.toDigits 10 n ++ Layout.zeros k) := by
  have hwhole := isWhole_toDigits n
  refine ⟨by simp, fun c hc => ?_, fun c ds h => ?_⟩
  · rcases List.mem_append.1 hc with hc | hc
    · exact hwhole.digits c hc
    · exact Text.Numeral.isDigit_of_mem_zeros hc
  · -- a number that begins with a zero is zero
    cases hcs : Nat.toDigits 10 n with
    | nil => exact hwhole.nonempty hcs
    | cons d es =>
      rw [hcs, List.cons_append] at h
      obtain ⟨rfl, -⟩ := List.cons.inj h
      cases es with
      | nil =>
        have hvalue : Nat.ofDigitChars 10 (Nat.toDigits 10 n) 0 = n := Nat.ofDigitChars_ten_toDigits
        rw [hcs] at hvalue
        exact hn.ne hvalue
      | cons e es => exact hwhole.zero e es hcs

/-- A float that is no infinity is composed of its digits and its exponent. -/
theorem compose_eq {d : Scaled} (hexponent : d.exponent.natAbs ≤ 40)
    (hfinite : d.reread.isInf = false) (rest : List Char) :
    compose false d.digits d.exponent rest = .ok (d.reread, rest) := by
  have hscale : scale (ofWord d.digits) d.exponent 5 rest = .ok (d.reread, rest) := by
    rw [scale, if_pos (hexponent.trans (by decide))]
    unfold Scaled.reread at *
    split
    · next hup =>
      rw [if_pos hup] at hfinite
      simp only [hfinite]
      rfl
    · rfl
  rw [compose, bind_of_ok hscale]
  rfl

/-- The places after the point go on with the digits before it. -/
theorem number_point {cs places : List Char} (hcs : IsWhole cs) (hplaces : places ≠ [])
    (hdigits : ∀ c ∈ places, Text.Numeral.isDigit c = true) {n : Nat}
    (hn : Nat.ofDigitChars 10 (cs ++ places) 0 = n) (hword : n < wordLimit) {rest rest' : List Char}
    (hrest : ∀ c ∈ rest.head?, Text.Numeral.isDigit c = false) {x : Float}
    (hread : optionalExponent false n (-places.length) rest = .ok (x, rest')) :
    number false (cs ++ '.' :: (places ++ rest)) = .ok (.float x, rest') := by
  have hempty : ¬ places.isEmpty = true := by simpa using hplaces
  have hpoint : ∀ c ∈ ('.' :: (places ++ rest)).head?, Text.Numeral.isDigit c = false := by
    rintro c ⟨⟩
    rfl
  rw [Nat.ofDigitChars_append] at hn
  generalize hfirst : Nat.ofDigitChars 10 cs 0 = first at hn
  have hfits : first < wordLimit :=
    lt_of_le_of_lt (hn ▸ Text.Numeral.le_ofDigitChars places first) hword
  have hextend : extend first places = (n, places.length) := by
    rw [extend_eq (hn ▸ hword), hn]
  have hfraction : fractionPart false first 0 ('.' :: (places ++ rest)) = .ok (x, rest') := by
    rw [fractionPart, bind_drop, bind_of_ok (digits_append hdigits hrest), if_neg hempty]
    simp only [hextend, zero_sub]
    exact hread
  rw [number_digits hcs.nonempty hcs.digits hcs.zero (hfirst ▸ hfits) hpoint, hfirst]
  change (fractionPart false first 0 >>= fun x => pure (Number.float x)) _ = _
  rw [bind_of_ok hfraction]
  rfl

/-- A number without a point may have an exponent. -/
theorem number_exponent {cs : List Char} (hcs : IsWhole cs) {n : Nat}
    (hn : Nat.ofDigitChars 10 cs 0 = n) (hword : n < wordLimit) {rest rest' : List Char} {x : Float}
    (hread : exponentPart false n 0 ('e' :: rest) = .ok (x, rest')) :
    number false (cs ++ 'e' :: rest) = .ok (.float x, rest') := by
  have he : ∀ c ∈ ('e' :: rest).head?, Text.Numeral.isDigit c = false := by
    rintro c ⟨⟩
    rfl
  rw [number_digits hcs.nonempty hcs.digits hcs.zero (hn ▸ hword) he, hn]
  change (exponentPart false n 0 >>= fun x => pure (Number.float x)) _ = _
  rw [bind_of_ok hread]
  rfl

theorem optionalExponent_of_breaks (n : Nat) (start : Int) {rest : List Char} (h : Breaks rest) :
    optionalExponent false n start rest = compose false n start rest := by
  have he : rest.head? ≠ some 'e' := fun hc => (h _ hc).2.2.1 rfl
  have hE : rest.head? ≠ some 'E' := fun hc => (h _ hc).2.2.2 rfl
  rw [optionalExponent, bind_peek]
  generalize rest.head? = next at he hE
  split
  · exact absurd rfl he
  · exact absurd rfl hE
  · rfl

/-- The mark of an exponent and its digits. -/
def signed (k : Int) : List Char :=
  (if k < 0 then '-' else '+') :: Nat.toDigits 10 k.natAbs

/-- An exponent is written with its sign. -/
theorem exponentPart_signed {n : Nat} (start : Int) {k : Int} (hsmall : k.natAbs ≤ exponentMax)
    {rest : List Char} (hrest : Breaks rest) :
    exponentPart false n start ('e' :: (signed k ++ rest)) =
      compose false n (start + k) rest := by
  have hvalue : Text.Numeral.value (Nat.toDigits 10 k.natAbs) = k.natAbs := by
    rw [Text.Numeral.value_eq_ofDigitChars, Nat.ofDigitChars_ten_toDigits]
  have hdigits := digits_append (isWhole_toDigits k.natAbs).digits fun c hc => (hrest c hc).1
  have hlimit : ¬ exponentMax < k.natAbs := not_lt.2 hsmall
  generalize hsign : (if k < 0 then '-' else '+') = mark
  have hdown : some mark = some '-' ↔ k < 0 := by
    rw [← hsign]
    split <;> simp [*]
  have hmark : some mark = some '+' ∨ k < 0 := by
    rw [← hsign]
    split <;> simp [*]
  have hexponent : (if k < 0 then start - k.natAbs else start + k.natAbs) = start + k := by
    split <;> omega
  obtain ⟨c, cs, hcs, hdigit⟩ : ∃ c cs, Nat.toDigits 10 k.natAbs = c :: cs ∧
      Text.Numeral.isDigit c = true := by
    cases hcs : Nat.toDigits 10 k.natAbs with
    | nil => exact absurd hcs Nat.toDigits_ne_nil
    | cons c cs =>
      exact ⟨c, cs, rfl, Text.Numeral.isDigit_of_mem_toDigits (hcs ▸ List.mem_cons_self ..)⟩
  rw [signed, hsign, List.cons_append, exponentPart, bind_drop, bind_peek, List.head?_cons]
  simp only [hdown, if_pos hmark]
  rw [bind_drop, bind_peek, hcs, List.cons_append, List.head?_cons]
  simp only [if_pos hdigit]
  rw [← List.cons_append, ← hcs, bind_of_ok hdigits]
  simp only [hvalue, if_neg hlimit, hexponent]

/-! ### Decimals -/

variable {d : Scaled} {rest : List Char}

theorem number_places {cs places : List Char} (hcs : IsWhole cs) (hplaces : places ≠ [])
    (hdigits : ∀ c ∈ places, Text.Numeral.isDigit c = true)
    (hn : Nat.ofDigitChars 10 (cs ++ places) 0 = d.digits) (hlength : d.exponent = -places.length)
    (hword : d.digits < wordLimit) (hexponent : d.exponent.natAbs ≤ 40)
    (hfinite : d.reread.isInf = false) (hrest : Breaks rest) :
    number false (cs ++ '.' :: (places ++ rest)) = .ok (.float d.reread, rest) := by
  refine number_point hcs hplaces hdigits hn hword (fun c hc => (hrest c hc).1) ?_
  rw [optionalExponent_of_breaks _ _ hrest, ← hlength, compose_eq hexponent hfinite]

/-- A decimal with digits on both sides of the point, or zeros on one of them. -/
theorem number_positionally (hpos : 0 < d.digits) (hword : d.digits < wordLimit)
    (hneg : d.exponent < 0) (hexponent : d.exponent.natAbs ≤ 40) (hrest : Breaks rest) :
    number false (Layout.positionally (Nat.toDigits 10 d.digits) d.exponent ++ rest) =
      .ok (.float d.reread, rest) := by
  have hfinite := Scaled.isInf_reread hpos hword hexponent
  have hwhole := isWhole_toDigits d.digits
  have hvalue : Nat.ofDigitChars 10 (Nat.toDigits 10 d.digits) 0 = d.digits :=
    Nat.ofDigitChars_ten_toDigits
  generalize Nat.toDigits 10 d.digits = cs at hwhole hvalue
  rw [Layout.positionally, if_neg (not_le.2 hneg)]
  simp only
  split
  · next hlt =>
    generalize hk : cs.length - d.exponent.natAbs = k
    have hsplit : cs.take k ++ cs.drop k = cs := List.take_append_drop ..
    have hfirst : cs.take k ≠ [] := List.ne_nil_of_length_pos (by rw [List.length_take]; omega)
    have hlast : cs.drop k ≠ [] := List.ne_nil_of_length_pos (by rw [List.length_drop]; omega)
    rw [List.append_assoc, List.cons_append]
    refine number_places (IsWhole.of_append (hsplit ▸ hwhole) hfirst) hlast
      (fun c hc => hwhole.digits c (List.mem_of_mem_drop hc)) (by rw [hsplit, hvalue]) ?_ hword
      hexponent hfinite hrest
    rw [List.length_drop]
    omega
  · next hge =>
    have hzero : IsWhole ['0'] := isWhole_toDigits 0
    have hdigits : ∀ c ∈ Layout.zeros (d.exponent.natAbs - cs.length) ++ cs,
        Text.Numeral.isDigit c = true := fun c hc =>
      (List.mem_append.1 hc).elim Text.Numeral.isDigit_of_mem_zeros (hwhole.digits c)
    have hn : Nat.ofDigitChars 10
        (['0'] ++ (Layout.zeros (d.exponent.natAbs - cs.length) ++ cs)) 0 = d.digits := by
      have hfirst : Nat.ofDigitChars 10 ['0'] 0 = 0 := rfl
      rw [Nat.ofDigitChars_append, Nat.ofDigitChars_append, Text.Numeral.ofDigitChars_zeros, hfirst,
        Nat.zero_mul, hvalue]
    have hread := number_places hzero (by simp [hwhole.nonempty]) hdigits hn
      (by simp [Layout.zeros]; omega) hword hexponent hfinite hrest
    simpa using hread

/-- A whole number with all its zeros, and one more after the point. -/
theorem number_zeros (hpos : 0 < d.digits) (hword : d.digits < wordLimit)
    (hexponent : d.exponent.natAbs ≤ 40) (hnonneg : 0 ≤ d.exponent)
    (hshort : d.exponent + (Nat.toDigits 10 d.digits).length ≤ 16) (hrest : Breaks rest) :
    number false (Layout.positionally (Nat.toDigits 10 d.digits) d.exponent ++ rest) =
      .ok (.float d.written.reread, rest) := by
  obtain ⟨hpos', hword', hexponent'⟩ := Scaled.written_bounds hpos hword hexponent
  have hwritten : d.written = ⟨d.digits * 10 ^ (d.exponent.toNat + 1), -1⟩ :=
    if_pos ⟨hnonneg, hshort⟩
  have hn : Nat.ofDigitChars 10
      (Nat.toDigits 10 d.digits ++ Layout.zeros d.exponent.toNat ++ ['0']) 0 =
        d.written.digits := by
    have hzero : (['0'] : List Char) = Layout.zeros 1 := rfl
    rw [Nat.ofDigitChars_append, Nat.ofDigitChars_append, Nat.ofDigitChars_ten_toDigits, hzero,
      Text.Numeral.ofDigitChars_zeros, Text.Numeral.ofDigitChars_zeros, hwritten]
    ring
  have hzero : ∀ c ∈ ['0'], Text.Numeral.isDigit c = true := (isWhole_toDigits 0).digits
  have hread := number_places (IsWhole.append_zeros hpos d.exponent.toNat) (List.cons_ne_nil _ _)
    hzero hn (by rw [hwritten]; rfl) hword' hexponent'
    (Scaled.isInf_reread hpos' hword' hexponent') hrest
  rw [Layout.positionally, if_pos hnonneg]
  simpa using hread

/-- A decimal with an exponent. -/
theorem number_scientifically (hpos : 0 < d.digits) (hword : d.digits < wordLimit)
    (hexponent : d.exponent.natAbs ≤ 40) (hrest : Breaks rest) :
    number false (Layout.scientifically true (Nat.toDigits 10 d.digits)
      (d.exponent + (Nat.toDigits 10 d.digits).length - 1) ++ rest) =
        .ok (.float d.reread, rest) := by
  have hwhole := isWhole_toDigits d.digits
  have hvalue : Nat.ofDigitChars 10 (Nat.toDigits 10 d.digits) 0 = d.digits :=
    Nat.ofDigitChars_ten_toDigits
  have hlength : (Nat.toDigits 10 d.digits).length ≤ 20 :=
    (Nat.length_toDigits_le_iff (by decide) (by decide)).2 (hword.trans (by decide))
  generalize Nat.toDigits 10 d.digits = cs at hwhole hvalue hlength
  generalize hfirst : d.exponent + cs.length - 1 = first
  have hsmall : first.natAbs ≤ exponentMax := by
    have hmany : 100 ≤ exponentMax := by decide
    omega
  have hmark : (if first < 0 then ['-'] else if true = true then ['+'] else []) ++
      Nat.toDigits 10 first.natAbs = signed first := by
    unfold signed
    split <;> rfl
  have hcompose := compose_eq hexponent (Scaled.isInf_reread hpos hword hexponent) rest
  cases cs with
  | nil => exact absurd rfl hwhole.nonempty
  | cons c places =>
    have htail : ∀ x ∈ ('e' :: (signed first ++ rest)).head?, Text.Numeral.isDigit x = false := by
      rintro x ⟨⟩
      rfl
    have hpart (start : Int) (hstart : start + first = d.exponent) :
        exponentPart false d.digits start ('e' :: (signed first ++ rest)) =
          .ok (d.reread, rest) := by
      rw [exponentPart_signed start hsmall hrest, hstart, hcompose]
    cases places with
    | nil =>
      have hread := number_exponent hwhole hvalue hword (hpart 0 (by simp at hfirst; omega))
      rw [← hmark] at hread
      simpa [Layout.scientifically] using hread
    | cons c' places =>
      have hone : IsWhole ([c] ++ c' :: places) := hwhole
      have hread := number_point (hone.of_append (List.cons_ne_nil _ _))
        (List.cons_ne_nil c' places) (fun x hx => hwhole.digits x (List.mem_cons_of_mem _ hx))
        hvalue hword htail (hpart _ (by simp at hfirst ⊢; omega))
      rw [← hmark] at hread
      simpa [Layout.scientifically] using hread

/-- **A decimal is read from its text**, whatever the layout. -/
theorem number_ofScaled (hpos : 0 < d.digits) (hword : d.digits < wordLimit)
    (hexponent : d.exponent.natAbs ≤ 40) (hrest : Breaks rest) :
    number false (Layout.json.ofScaled d ++ rest) = .ok (.float d.written.reread, rest) := by
  have hlength : 0 < (Nat.toDigits 10 d.digits).length := Nat.length_toDigits_pos
  simp only [Layout.ofScaled, Layout.json]
  by_cases hwhole : 0 ≤ d.exponent ∧ d.exponent + (Nat.toDigits 10 d.digits).length ≤ 16
  · rw [if_pos (by omega)]
    exact number_zeros hpos hword hexponent hwhole.1 hwhole.2 hrest
  · have hwritten : d.written = d := if_neg hwhole
    rw [hwritten]
    split
    · exact number_positionally hpos hword (by omega) hexponent hrest
    · exact number_scientifically hpos hword hexponent hrest

end Json.Read

namespace Json

open Read

/-- What is read as a number is no value of another type. -/
theorem anyNumber_of_number {blanks text : List Char} (hb : IsBlanks blanks)
    {r : Number × List Char} (h : number false text = .ok r) :
    anyNumber (blanks ++ text) = .ok r := by
  rw [← h]
  rw [number, bind_peek] at h
  cases text with
  | nil => cases h
  | cons c text =>
    simp only [List.head?_cons] at h
    split at h
    · cases h
    · next hdigit => exact anyNumber_of_isDigit hb (not_not.1 hdigit) text

/-- What every text of a float is read as. -/
theorem reads_float {x y : Float}
    (h : ∀ rest, Breaks rest → number false (Layout.json.render x ++ rest) = .ok (.float y, rest)) :
    Reads Read.float (.float x) y := by
  intro text rest hw hrest
  cases hw with
  | float hb =>
    rw [List.append_assoc, Read.float, bind_of_ok (anyNumber_of_number hb (h rest hrest))]
    rfl

end Json

/-! ### Floats -/

namespace Decimal

open Json.Read

/-- The decimal that is read from the text of a positive float. -/
def shown (x : Float) : Scaled :=
  match (parts x).magnitude with
  | .finite m e => if m = 0 then ⟨0, -1⟩ else (shortest .even m e).written
  | _ => ⟨0, 0⟩

/-- All digits count, and the power of ten is a float. -/
structure Scaled.IsShort (d : Scaled) : Prop where
  digits : d.digits < 2 ^ 53
  exponent : d.exponent.natAbs ≤ 22

/-- The floats differ by a few units of the last bit; zero differs from all others. -/
def Alike (x y : Float) : Prop :=
  x = 0.0 ∧ y = 0.0 ∨ ∃ v w : ℚ, Holds x v ∧ Holds y w ∧ |w - v| ≤ v / 2 ^ 50

theorem Denotes.shown_eq {x : Float} {m : Nat} {e : Int} (h : Denotes x m e) :
    shown x = (shortest .even m e).written := by
  rw [shown, h.parts]
  exact if_neg h.normal.pos.ne'

theorem Denotes.render_eq {x : Float} {m : Nat} {e : Int} (h : Denotes x m e) :
    Layout.json.render x = Layout.json.ofScaled (shortest .even m e) := by
  rw [Layout.render, h.parts]
  exact if_neg h.normal.pos.ne'

section

variable {x : Float} {v : ℚ}

/-- The digits of a float fit a word. -/
theorem Denotes.shortest_bounds {m : Nat} {e : Int} (h : Denotes x m e)
    (hlow : 1 / 10 ^ 20 ≤ (m : ℚ) * 2 ^ e) (hhigh : (m : ℚ) * 2 ^ e ≤ 10 ^ 24) :
    0 < (shortest .even m e).digits ∧ (shortest .even m e).digits < wordLimit ∧
      (shortest .even m e).exponent.natAbs ≤ 40 := by
  obtain ⟨-, hpos, hdigits, -⟩ := shortest_spec h.normal (le_trans (by norm_num) hlow) .even
  obtain ⟨hdown, hup⟩ := exponent_bounds h.normal hlow hhigh .even
  exact ⟨hpos, lt_of_le_of_lt hdigits (by decide), by omega⟩

/-- A float is read as its shortest decimal. -/
theorem Holds.reads (h : Holds x v) (hlow : 1 / 10 ^ 20 ≤ v) (hhigh : v ≤ 10 ^ 24) :
    Json.Reads Json.Read.float (.float x) (shown x).reread := by
  obtain ⟨m, e, hx, rfl⟩ := h
  obtain ⟨hpos, hword, hexponent⟩ := hx.shortest_bounds hlow hhigh
  refine Json.reads_float fun rest hrest => ?_
  rw [hx.render_eq, hx.shown_eq, number_ofScaled hpos hword hexponent hrest]

/-- **What a float is read as differs from it by a few units of the last bit.** -/
theorem Holds.alike_reread (h : Holds x v) (hlow : 1 / 10 ^ 20 ≤ v) (hhigh : v ≤ 10 ^ 24) :
    Alike x (shown x).reread := by
  obtain ⟨m, e, hx, rfl⟩ := h
  obtain ⟨hpos, hword, hexponent⟩ := hx.shortest_bounds hlow hhigh
  obtain ⟨hpos, hword, hexponent⟩ := Scaled.written_bounds hpos hword hexponent
  obtain ⟨w, hw, hwpos, hwithin⟩ := Scaled.holds_reread hpos hword hexponent
  obtain ⟨hnear, -⟩ := shortest_spec hx.normal (le_trans (by norm_num) hlow) .even
  have hround : RoundsTo (shortest .even m e).value x := ⟨m, e, hx, hnear⟩
  obtain ⟨v, hv, herror⟩ := hround.holds
  obtain ⟨herrorlow, herrorhigh⟩ := abs_le.1 herror
  rw [Scaled.written_value] at hwithin
  have hread := hwithin.low
  have hread' := hwithin.high
  rw [hx.shown_eq]
  refine .inr ⟨v, w, hv, hw, abs_le.2 ⟨?_, ?_⟩⟩ <;> unfold unit at hread hread' <;>
    norm_num at * <;> linarith

/-- **A short decimal is read as the float that it is the text of.** -/
theorem Holds.reread_eq (h : Holds x v) (hlow : 1 / 10 ^ 20 ≤ v) (hhigh : v ≤ 10 ^ 24)
    (hshort : (shown x).IsShort) : (shown x).reread = x := by
  obtain ⟨m, e, hx, rfl⟩ := h
  obtain ⟨hpos, hword, hexponent⟩ := hx.shortest_bounds hlow hhigh
  obtain ⟨hpos, -⟩ := Scaled.written_bounds hpos hword hexponent
  obtain ⟨hnear, -⟩ := shortest_spec hx.normal (le_trans (by norm_num) hlow) .even
  rw [hx.shown_eq] at hshort ⊢
  have hround := Scaled.rounds_reread hpos hshort.digits hshort.exponent
  rw [Scaled.written_value] at hround
  exact hround.unique ⟨m, e, hx, hnear⟩

end

theorem reread_zero : (shown 0.0).reread = 0.0 := by decide +kernel

/-- Zero is read as zero. -/
theorem reads_zero : Json.Reads Json.Read.float (.float 0.0) (shown 0.0).reread := by
  have hshown : shown 0.0 = ⟨0, -1⟩ := by decide +kernel
  have hrender : Layout.json.render 0.0 = ['0', '.', '0'] := by decide +kernel
  have hfinite : (Scaled.reread ⟨0, -1⟩).isInf = false := by decide +kernel
  refine Json.reads_float fun rest hrest => ?_
  rw [hshown, hrender]
  exact number_places (d := ⟨0, -1⟩) (isWhole_toDigits 0) (List.cons_ne_nil '0' [])
    (isWhole_toDigits 0).digits rfl rfl (by decide) (by decide) hfinite hrest

end Decimal

end Lockstep
