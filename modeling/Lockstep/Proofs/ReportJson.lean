import Lockstep.Proofs.Decimals
import Lockstep.Proofs.TallyJson

/-!
# Reports that are written and read back

Of all the data of a report only the share of successes is a float.

* `holds_percent` : the share of successes is a float far from both ends of the range;
* `Figures.Derives.reads` : what the figures of an operation are read as;
* `Report.read_alike` : **a report is read back but for the last bits of its ratios**, and as it is
  when their decimals are short;
* `Report.ratio_lost` : a report that is not read back as it is.
-/

namespace Lockstep

open Decimal Json Json.Read

/-! ### The share of successes -/

namespace Decimal

theorem Within.bounds {v q : ℚ} (hv : 0 < v) (h : Within unit v q) : q / 2 ≤ v ∧ v ≤ 2 * q := by
  have hlow := h.low
  have hhigh := h.high
  unfold unit at hlow hhigh
  constructor <;> linarith

theorem bounds_ofWord {n : Nat} (hpos : 0 < n) (hword : n < wordLimit) {v : ℚ} (hv : 0 < v)
    (h : Within unit v n) : 1 / 2 ≤ v ∧ v ≤ 2 ^ 65 := by
  obtain ⟨hlow, hhigh⟩ := h.bounds hv
  have hone : (1 : ℚ) ≤ n := by exact_mod_cast hpos
  have hlimit : (n : ℚ) < 2 ^ 64 := by exact_mod_cast hword
  constructor <;> linarith

theorem holds_hundred : Holds 100.0 100 := by
  have hparts : parts 100.0 = ⟨false, .finite (100 * 2 ^ 46) (-46)⟩ := by decide +kernel
  refine ⟨100 * 2 ^ 46, -46, ⟨hparts, by norm_num, by norm_num, by norm_num, by norm_num⟩, ?_⟩
  norm_num

/-- A part of a whole, in percent. -/
def percent (part whole : Nat) : Float := ofWord part / ofWord whole * 100.0

section

variable {part whole : Nat}

theorem percent_zero (hpos : 0 < whole) (hword : whole < wordLimit) : percent 0 whole = 0.0 := by
  obtain ⟨v, ⟨m, e, hx, -⟩, -⟩ := (rounds_ofWord hpos hword).within
  obtain ⟨hm, hunpack⟩ := hx.unpack
  have hquotient : ofWord 0 / ofWord whole = 0.0 := by
    change Float.ofModel (.pack (.div .binary64 (ofWord 0).toModel.unpack
      (ofWord whole).toModel.unpack)) = 0.0
    have hzero : (ofWord 0).toModel.unpack = .zero .positive := rfl
    rw [hunpack, hzero]
    rfl
  rw [percent, hquotient]
  decide +kernel

/-- **A share is a float far from both ends of the range.** -/
theorem holds_percent (hpart : 0 < part) (hpart' : part < wordLimit) (hwhole : 0 < whole)
    (hwhole' : whole < wordLimit) :
    ∃ v, Holds (percent part whole) v ∧ 1 / 10 ^ 20 ≤ v ∧ v ≤ 10 ^ 24 := by
  obtain ⟨a, ha, hapos, hwa⟩ := (rounds_ofWord hpart hpart').within
  obtain ⟨b, hb, hbpos, hwb⟩ := (rounds_ofWord hwhole hwhole').within
  have hamoderate := moderate_digits hpart hpart' hapos hwa
  have hbmoderate := moderate_digits hwhole hwhole' hbpos hwb
  obtain ⟨q, hq, hqpos, hwq⟩ := (ha.div hb hamoderate hbmoderate).within
  obtain ⟨halow, hahigh⟩ := bounds_ofWord hpart hpart' hapos hwa
  obtain ⟨hblow, hbhigh⟩ := bounds_ofWord hwhole hwhole' hbpos hwb
  obtain ⟨hqlow, hqhigh⟩ := hwq.bounds hqpos
  have hshare : 1 / 2 ^ 66 ≤ a / b ∧ a / b ≤ 2 ^ 66 := by
    rw [le_div_iff₀ hbpos, div_le_iff₀ hbpos]
    constructor <;> linarith
  have hqmoderate : Moderate q := by
    have hlow : (2 : ℚ) ^ (-200 : Int) ≤ 1 / 2 ^ 67 := by norm_num
    have hhigh : (2 : ℚ) ^ 67 ≤ 2 ^ (200 : Int) := by norm_num
    exact ⟨hlow.trans (by linarith [hshare.1]), le_trans (by linarith [hshare.2]) hhigh⟩
  have hhundred : Moderate 100 := by constructor <;> norm_num
  obtain ⟨v, hv, hvpos, hwv⟩ := (hq.mul holds_hundred hqmoderate hhundred).within
  obtain ⟨hvlow, hvhigh⟩ := hwv.bounds hvpos
  refine ⟨v, hv, ?_, ?_⟩
  · linarith [hshare.1]
  · linarith [hshare.2]

end

end Decimal

/-! ### Figures -/

namespace Figures

/-- What holds of the figures that are derived from totals that fit. -/
structure Derives (f : Figures) : Prop where
  count : f.count < wordLimit
  ratio : f.successRatio = 0.0 ∨
    ∃ v, Holds f.successRatio v ∧ 1 / 10 ^ 20 ≤ v ∧ v ≤ 10 ^ 24
  documents : f.documents < wordLimit
  bytes : f.bytes < wordLimit

/-- The figures that are read from a text of the figures. -/
def reread (f : Figures) : Figures := { f with successRatio := (shown f.successRatio).reread }

theorem derives_of_ofStats? {s : Stats} (hs : s.sums.Fits) {f : Figures} (h : ofStats? s = .ok f) :
    f.Derives := by
  unfold ofStats? at h
  split at h
  · cases h
    exact ⟨(by decide : 0 < wordLimit), .inl rfl, hs.documents, hs.bytes⟩
  · next hcount =>
    have hpos : 0 < s.count := Nat.pos_of_ne_zero hcount
    cases haverage : s.total.divide? (ofWord s.count) with
    | error e =>
      simp only [haverage] at h
      cases h
    | ok average =>
      simp only [haverage] at h
      cases h
      refine ⟨hs.count, ?_, hs.documents, hs.bytes⟩
      rcases Nat.eq_zero_or_pos s.successes with hzero | hsuccesses
      · exact .inl (hzero ▸ percent_zero hpos hs.count)
      · exact .inr (holds_percent hsuccesses hs.successes hpos hs.count)

variable {f : Figures}

/-- **Figures are read with all their data**, the share of successes as its decimal. -/
theorem Derives.reads (h : f.Derives) :
    Reads (record fields false ⟨0, 0.0, .zero, .zero, 0, 0⟩ some) f.toJson f.reread := by
  have hratio : Reads Read.float (.float f.successRatio) (shown f.successRatio).reread := by
    rcases h.ratio with hzero | ⟨v, hv, hlow, hhigh⟩
    · rw [hzero]
      exact reads_zero
    · exact hv.reads hlow hhigh
  refine reads_record (by decide) ?_ rfl
  refine .cons ((reads_word h.count).map _) ?_
  refine .cons (hratio.map _) ?_
  refine .cons ((reads_duration f.average).map _) ?_
  refine .cons ((reads_duration f.max).map _) ?_
  refine .cons ((reads_word h.documents).map _) ?_
  exact .cons ((reads_word h.bytes).map _) (.nil _)

theorem Derives.alike (h : f.Derives) : Alike f.successRatio f.reread.successRatio := by
  rcases h.ratio with hzero | ⟨v, hv, hlow, hhigh⟩
  · exact .inl ⟨hzero, by rw [reread, hzero]; exact reread_zero⟩
  · exact hv.alike_reread hlow hhigh

theorem Derives.exact (h : f.Derives) (hshort : (shown f.successRatio).IsShort) :
    f.reread.successRatio = f.successRatio := by
  rcases h.ratio with hzero | ⟨v, hv, hlow, hhigh⟩
  · rw [reread, hzero]
    exact reread_zero
  · exact hv.reread_eq hlow hhigh hshort

end Figures

/-! ### Reports -/

namespace Report

theorem derives_of_foldlM {es : List (String × Stats)} (hes : ∀ e ∈ es, e.2.sums.Fits)
    {m r : Report} (hm : ∀ k f, m.find? k = some f → f.Derives)
    (h : es.foldlM (fun (r : Report) e => do return r.insert e.1 (← Figures.ofStats? e.2)) m =
      .ok r) : ∀ k f, r.find? k = some f → f.Derives := by
  induction es generalizing m with
  | nil =>
    cases h
    exact hm
  | cons e es ih =>
    rw [List.foldlM_cons] at h
    cases hfigures : Figures.ofStats? e.2 with
    | error fault =>
      rw [hfigures] at h
      cases h
    | ok figures =>
      rw [hfigures] at h
      refine ih (fun e' he' => hes e' (List.mem_cons_of_mem _ he')) (fun k f hf => ?_) h
      rw [SortedMap.find?_insert] at hf
      split at hf
      · cases hf
        exact Figures.derives_of_ofStats? (hes e (List.mem_cons_self ..)) hfigures
      · exact hm k f hf

/-- All figures of a report are derived from totals. -/
theorem derives_of_ofTally? {t : Tally} (ht : t.Fits) {r : Report} (h : ofTally? t = .ok r) :
    ∀ k f, r.find? k = some f → f.Derives :=
  derives_of_foldlM (fun _ he => Tally.fits_of_mem ht he) (fun _ _ hf => by cases hf) h

/-- A report is read from every text of it with its figures as they are read. -/
theorem read_of_written {r : Report} (hr : ∀ k f, r.find? k = some f → f.Derives)
    {text : List Char} (h : Written r.toJson text) :
    read text = .ok (r.map fun _ f => f.reread) := by
  refine readOperations_of_written ?_ h
  refine List.forall₂_map_right_iff.2 (List.forall₂_same.2 fun e he => ⟨rfl, ?_⟩)
  exact (hr e.1 e.2 (SortedMap.find?_eq_some_iff.2 he)).reads

theorem read_of_eq {r : Report} (hr : ∀ k f, r.find? k = some f → f.Derives) {text : List Char}
    (htext : text = r.toJson.compact ∨ text = r.toJson.pretty) :
    read text = .ok (r.map fun _ f => f.reread) := by
  rcases htext with rfl | rfl
  exacts [read_of_written hr (written_compact _), read_of_written hr (written_pretty _)]

/-- **Reports can be stored, but for the last bits of their ratios.**  From both texts of a report
that is derived from a tally, a report on the same operations is read, with the same figures for
each of them; only the share of successes may differ by a few units of the last bit, and it is the
same when its decimal is short. -/
theorem read_alike {t : Tally} (ht : t.Fits) {r : Report} (hr : ofTally? t = .ok r)
    {text : List Char} (htext : text = r.toJson.compact ∨ text = r.toJson.pretty) :
    ∃ r' : Report, read text = .ok r' ∧ r'.keys = r.keys ∧
      ∀ k f, r.find? k = some f → ∃ x, r'.find? k = some { f with successRatio := x } ∧
        Alike f.successRatio x ∧ ((shown f.successRatio).IsShort → x = f.successRatio) := by
  have hderives := derives_of_ofTally? ht hr
  refine ⟨_, read_of_eq hderives htext, by simp [SortedMap.keys, SortedMap.map],
    fun k f hf => ?_⟩
  have hmem : (k, f.reread) ∈ (r.map fun _ f => f.reread).entries :=
    List.mem_map_of_mem (f := fun e => (e.1, e.2.reread)) (SortedMap.find?_eq_some_iff.1 hf)
  exact ⟨(shown f.successRatio).reread, SortedMap.find?_eq_some_iff.2 hmem,
    (hderives k f hf).alike, (hderives k f hf).exact⟩

/-- A tally of one operation that takes a second each time, and fails but for some times. -/
def attempts (count successes : Nat) : Tally :=
  SortedMap.empty.insert "A.op" ⟨count, successes, count - successes,
    .ofNanos (count * 1000000000), .ofNanos 1000000000, 0, 0, count⟩

theorem ofTally?_attempts {count successes : Nat} {x : Float} (hcount : count ≠ 0)
    (haverage : (Duration.ofNanos (count * 1000000000)).divide? (ofWord count) =
      .ok (.ofNanos 1000000000)) (hratio : percent successes count = x) :
    ofTally? (attempts count successes) = .ok (SortedMap.empty.insert "A.op"
      ⟨count, x, .ofNanos 1000000000, .ofNanos 1000000000, 0, 0⟩) := by
  subst hratio
  have hfigures : Figures.ofStats? ⟨count, successes, count - successes,
      .ofNanos (count * 1000000000), .ofNanos 1000000000, 0, 0, count⟩ =
        .ok ⟨count, percent successes count, .ofNanos 1000000000, .ofNanos 1000000000, 0, 0⟩ := by
    rw [Figures.ofStats?, if_neg hcount]
    simp only [haverage]
    rfl
  change ([("A.op", _)] : List (String × Stats)).foldlM _ _ = _
  rw [List.foldlM_cons, hfigures]
  rfl

/-- Three times out of four: a share with two digits. -/
theorem read_alike_attempts :
    (attempts 4 3).Fits ∧ ∃ r, ofTally? (attempts 4 3) = .ok r ∧
      ∀ text, text = r.toJson.compact ∨ text = r.toJson.pretty → ∃ r' : Report,
        read text = .ok r' ∧ r'.keys = ["A.op"] ∧ r'.find? "A.op" =
          some ⟨4, 75.0, .ofNanos 1000000000, .ofNanos 1000000000, 0, 0⟩ := by
  have hfits : (attempts 4 3).Fits :=
    Tally.fits_insert (fun k s hs => by cases hs) (by constructor <;> decide)
  have hratio : percent 3 4 = 75.0 := by decide +kernel
  have hr := ofTally?_attempts (by decide) (by decide +kernel) hratio
  have hshort : (shown 75.0).IsShort := by constructor <;> decide +kernel
  refine ⟨hfits, _, hr, fun text htext => ?_⟩
  obtain ⟨r', hread, hkeys, hfigures⟩ := read_alike hfits hr htext
  obtain ⟨x, hx, -, hsame⟩ := hfigures "A.op" _ rfl
  obtain rfl : x = 75.0 := hsame hshort
  exact ⟨r', hread, hkeys, hx⟩

/-- **Two times out of thirteen**: the share is read back one unit of the last bit too small. -/
theorem ratio_lost :
    (attempts 13 2).Fits ∧ ∃ r, ofTally? (attempts 13 2) = .ok r ∧
      ∀ text, text = r.toJson.compact ∨ text = r.toJson.pretty → ∃ r' : Report,
        read text = .ok r' ∧
          (r.find? "A.op").map (·.successRatio.toBits) = some 0x402ec4ec4ec4ec4f ∧
          (r'.find? "A.op").map (·.successRatio.toBits) = some 0x402ec4ec4ec4ec4e := by
  have hfits : (attempts 13 2).Fits :=
    Tally.fits_insert (fun k s hs => by cases hs) (by constructor <;> decide)
  have hr := ofTally?_attempts (by decide) (by decide +kernel) (rfl : percent 2 13 = _)
  have hratio : (percent 2 13).toBits = 0x402ec4ec4ec4ec4f := by decide +kernel
  have hreread : (shown (percent 2 13)).reread.toBits = 0x402ec4ec4ec4ec4e := by decide +kernel
  exact ⟨hfits, _, hr, fun text htext => ⟨_, read_of_eq (derives_of_ofTally? hfits hr) htext,
    congrArg some hratio, congrArg some hreread⟩⟩

end Report

end Lockstep
