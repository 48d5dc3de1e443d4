import Lockstep.Config
import Lockstep.Proofs.Pausing
import Lockstep.Proofs.Ready
import Lockstep.Proofs.Trimming

/-!
# Durations, rates and ranges in words

What is written in a workload document as a text: a duration, a rate, or a range of phases.

* `TimeUnit.Phrases` : the texts of an amount of a unit; `Duration.duration_grammar` : **these are
  the durations that are read, and everything else is refused with its own text**;
* `Rate.Phrases` : the texts of a rate; `Rate.rate_grammar` : **these are the rates that are read**,
  so that no document has a rate without a count or an interval;
* `Selector.Spans` : the texts of a range; `Selector.range_grammar` : **a range selects every number
  between its ends once.**
-/

namespace Lockstep

open Text

/-! ### Units of time -/

namespace TimeUnit

/-- The nanoseconds of a unit. -/
def nanos : TimeUnit → Nat
  | nanosecond => 1
  | microsecond => 1000
  | millisecond => 1000000
  | second => 1000000000
  | minute => 60 * 1000000000
  | hour => 3600 * 1000000000

/-- The text says so many of a unit: a number in digits and one of the names of the unit, perhaps
with blanks between them and around them. -/
def Phrases (u : TimeUnit) (amount : Nat) (text : List Char) : Prop :=
  ∃ digits gap name, Numeral.Writes digits amount ∧ AllBlank gap ∧ String.ofList name ∈ u.names ∧
    Frames (digits ++ gap ++ name) text

theorem letters_of_mem_names {u : TimeUnit} {name : String} (h : name ∈ u.names) :
    name.toList ≠ [] ∧ ∀ c ∈ name.toList, 'a' ≤ c ∧ c ≤ 'z' := by
  have hall : ∀ u ∈ all, ∀ name ∈ u.names,
      name.toList ≠ [] ∧ ∀ c ∈ name.toList, 'a' ≤ c ∧ c ≤ 'z' := by simp [all, names]
  exact hall u (by cases u <;> decide) name h

/-- No name stands for two units. -/
theorem eq_of_mem_names {u v : TimeUnit} {name : String} (hu : name ∈ u.names)
    (hv : name ∈ v.names) : u = v := by
  have hall : ∀ u ∈ all, ∀ v ∈ all, ∀ name ∈ u.names, name ∈ v.names → u = v := by decide +kernel
  exact hall u (by cases u <;> decide) v (by cases v <;> decide) name hu hv

theorem named?_eq_some_iff {name : List Char} {u : TimeUnit} :
    named? name = some u ↔ String.ofList name ∈ u.names := by
  constructor
  · intro h
    simpa using List.find?_some h
  · intro h
    cases hfind : named? name with
    | none =>
      have hnone := List.find?_eq_none.1 hfind u (by cases u <;> decide)
      exact absurd h (by simpa using hnone)
    | some v =>
      have hv : String.ofList name ∈ v.names := by simpa using List.find?_some hfind
      rw [eq_of_mem_names hv h]

section

variable {u : TimeUnit} {amount : Nat} {name : List Char}

theorem letters_of_named (h : String.ofList name ∈ u.names) :
    name ≠ [] ∧ ∀ c ∈ name, 'a' ≤ c ∧ c ≤ 'z' := by
  have := letters_of_mem_names h
  rwa [String.toList_ofList] at this

theorem isSolid_of_named (h : String.ofList name ∈ u.names) : IsSolid name := by
  obtain ⟨hne, hletters⟩ := letters_of_named h
  refine isSolid_of_forall hne fun c hc => ?_
  exact isBlank_of_between (Char.le_trans (by decide : '!' ≤ 'a') (hletters c hc).1)
    (Char.le_trans (hletters c hc).2 (by decide : 'z' ≤ '~'))

/-- No digit follows the digits. -/
theorem isDigit_of_mem_head? {gap : List Char} (hgap : AllBlank gap)
    (hname : String.ofList name ∈ u.names) : ∀ c ∈ (gap ++ name).head?,
      Numeral.isDigit c = false := by
  obtain ⟨hne, hletters⟩ := letters_of_named hname
  intro c hc
  refine Bool.eq_false_iff.2 fun hdigit => ?_
  rcases List.mem_append.1 (List.mem_of_mem_head? hc) with hmem | hmem
  · have hblank := hgap c hmem
    rw [Numeral.isBlank_of_isDigit hdigit] at hblank
    cases hblank
  · have hlow := Char.le_trans (hletters c hmem).1 (Numeral.isDigit_iff.1 hdigit).2
    exact absurd hlow (by decide)

/-- An amount of a unit is exact as long as it does not have more seconds than a word; minutes and
hours stop there. -/
theorem nanos_times (h : amount ≤ wordMax) :
    (u.times amount).nanos = min (amount * u.nanos) (wordMax * 1000000000) := by
  have hmax : wordMax = 18446744073709551615 := rfl
  have hlimit : durationLimit = 18446744073709551616 * 1000000000 := rfl
  cases u <;> simp only [times, nanos, Duration.ofNanos, Duration.ofSecs] <;> omega

theorem Phrases.le_wordMax {text : List Char} (h : u.Phrases amount text) : amount ≤ wordMax := by
  obtain ⟨digits, gap, name, hdigits, -⟩ := h
  exact hdigits.word

/-- What an amount of a unit is written with. -/
theorem Phrases.character {text : List Char} (h : u.Phrases amount text) {c : Char}
    (hc : c ∈ text) : isBlank c = true ∨ ('0' ≤ c ∧ c ≤ '9') ∨ ('a' ≤ c ∧ c ≤ 'z') := by
  obtain ⟨digits, gap, name, hdigits, hgap, hname, htext⟩ := h
  rcases htext.mem hc with hblank | hc
  · exact .inl hblank
  · rcases List.mem_append.1 hc with hc | hc
    · rcases List.mem_append.1 hc with hc | hc
      · exact .inr (.inl (hdigits.ascii c hc))
      · exact .inl (hgap c hc)
    · exact .inr (.inr ((letters_of_named hname).2 c hc))

theorem Phrases.exists_letter {text : List Char} (h : u.Phrases amount text) :
    ∃ c ∈ text, 'a' ≤ c ∧ c ≤ 'z' := by
  obtain ⟨digits, gap, name, -, -, hname, before, after, -, -, rfl⟩ := h
  obtain ⟨hne, hletters⟩ := letters_of_named hname
  obtain ⟨c, hc⟩ := List.exists_mem_of_ne_nil name hne
  exact ⟨c, by simp [hc], hletters c hc⟩

/-- What is left of the text of an amount without its blanks. -/
theorem trim_eq_of_phrases {text : List Char} {digits gap : List Char}
    (hdigits : Numeral.Writes digits amount) (hname : String.ofList name ∈ u.names)
    (htext : Frames (digits ++ gap ++ name) text) : trim text = digits ++ gap ++ name :=
  (hdigits.isSolid.append (isSolid_of_named hname) gap).trim_eq htext

end

end TimeUnit

/-! ### Durations -/

namespace Duration

variable {d : Duration} {text : List Char}

/-- A duration is read from what says so many of a unit. -/
theorem read?_eq_some_iff : read? text = some d ↔
    ∃ amount u, TimeUnit.Phrases u amount text ∧ d = u.times amount := by
  simp only [read?, Option.bind_eq_bind, Option.bind_eq_some_iff, Numeral.read?_eq_some_iff_writes,
    TimeUnit.named?_eq_some_iff, Option.pure_def, Option.some.injEq]
  constructor
  · rintro ⟨amount, hdigits, u, hname, rfl⟩
    -- blanks between the name and the end of the text are margins of the whole
    obtain ⟨gap, after, hgap, hafter, hrest⟩ :=
      frames_trim ((trim text).dropWhile Numeral.isDigit)
    have hwhole := List.takeWhile_append_dropWhile (p := Numeral.isDigit) (l := trim text)
    rw [hrest] at hwhole
    refine ⟨amount, u, ⟨_, gap, _, hdigits, hgap, hname, ?_⟩, rfl⟩
    exact Frames.trans ⟨[], after, nofun, hafter, hwhole.symm.trans (by simp)⟩ (frames_trim text)
  · rintro ⟨amount, u, ⟨digits, gap, name, hdigits, hgap, hname, htext⟩, rfl⟩
    obtain ⟨htake, hdrop⟩ := span_append
      (fun c hc => Numeral.isDigit_iff.2 (hdigits.ascii c hc))
      (TimeUnit.isDigit_of_mem_head? hgap hname)
    have hunit : trim (gap ++ name) = name :=
      (TimeUnit.isSolid_of_named hname).trim_eq ⟨gap, [], hgap, nofun, (List.append_nil _).symm⟩
    rw [TimeUnit.trim_eq_of_phrases hdigits hname htext, List.append_assoc, htake, hdrop, hunit]
    exact ⟨amount, hdigits, u, hname, rfl⟩

/-- What a text may say is all that is read. -/
theorem parse_eq_ok_iff {text : String} : parse text = .ok d ↔
    ∃ amount u, TimeUnit.Phrases u amount text.toList ∧ d = u.times amount := by
  rw [← read?_eq_some_iff, parse]
  cases read? text.toList with
  | none => simp
  | some d' => simp

theorem parse_eq_error_iff {text : String} {e : ConfigError} : parse text = .error e ↔
    e = .invalidDuration text ∧ ∀ d, parse text ≠ .ok d := by
  unfold parse
  cases read? text.toList with
  | none => simp [eq_comm]
  | some d' => simp

theorem parse_ofList {cs : List Char} : parse (String.ofList cs) = .ok d ↔ read? cs = some d := by
  rw [parse_eq_ok_iff, read?_eq_some_iff, String.toList_ofList]

/-- **The texts of durations.**  A text is read exactly if it says so many of a unit.  It then
stands for that many of the unit; only minutes and hours stop at the longest whole number of
seconds.  Any other text is refused, and the error has it as it is.  So a text that is read is made
of blanks, ASCII digits and small letters, and has some letter. -/
theorem duration_grammar (text : String) :
    (∀ d, parse text = .ok d ↔ ∃ amount u, TimeUnit.Phrases u amount text.toList ∧
      d.nanos = min (amount * u.nanos) (wordMax * 1000000000)) ∧
    (∀ amount u, TimeUnit.Phrases u amount text.toList → u ≠ .minute → u ≠ .hour →
      min (amount * u.nanos) (wordMax * 1000000000) = amount * u.nanos) ∧
    (∀ e, parse text = .error e ↔
      e = .invalidDuration text ∧ ∀ amount u, ¬ TimeUnit.Phrases u amount text.toList) ∧
    ∀ d, parse text = .ok d →
      (∀ c ∈ text.toList, isBlank c = true ∨ ('0' ≤ c ∧ c ≤ '9') ∨ ('a' ≤ c ∧ c ≤ 'z')) ∧
      ∃ c ∈ text.toList, 'a' ≤ c ∧ c ≤ 'z' := by
  refine ⟨fun d => ?_, fun amount u htext hminute hhour => ?_, fun e => ?_, fun d hd => ?_⟩
  · rw [parse_eq_ok_iff]
    refine exists_congr fun amount => exists_congr fun u => and_congr_right fun htext => ?_
    rw [← TimeUnit.nanos_times htext.le_wordMax]
    exact ⟨congrArg nanos, ext_nanos⟩
  · have hword := htext.le_wordMax
    cases u with
    | minute => exact absurd rfl hminute
    | hour => exact absurd rfl hhour
    | _ => simp only [TimeUnit.nanos]; omega
  · rw [parse_eq_error_iff]
    refine and_congr_right fun _ => ⟨fun h amount u htext => ?_, fun h d hd => ?_⟩
    · exact h _ (parse_eq_ok_iff.2 ⟨amount, u, htext, rfl⟩)
    · obtain ⟨amount, u, htext, -⟩ := parse_eq_ok_iff.1 hd
      exact h amount u htext
  · obtain ⟨amount, u, htext, -⟩ := parse_eq_ok_iff.1 hd
    exact ⟨fun c => htext.character, htext.exists_letter⟩

end Duration

/-! ### Rates -/

namespace Rate

variable {r : Rate}

/-- The text says a rate: a count, which may have a plus sign, and a duration around the first
` per `. -/
def Phrases (r : Rate) (text : List Char) : Prop :=
  ∃ left right core, SplitsAt " per ".toList text left right ∧ Frames core left ∧
    Numeral.WritesSigned core r.count ∧ Duration.parse (String.ofList right) = .ok r.interval

/-- A rate is read from what says it, unless there is nothing in it. -/
theorem read?_eq_some_iff {text : List Char} :
    read? text = some r ↔ r.Phrases text ∧ 1 ≤ r.count ∧ 0 < r.interval.nanos := by
  simp only [read?, Option.bind_eq_bind, Option.bind_eq_some_iff, Prod.exists,
    splitOnce?_eq_some_iff, Numeral.readSigned?_trim_eq_some_iff]
  constructor
  · rintro ⟨left, right, hsplit, count, ⟨core, hcore, hcount⟩, interval, hinterval, hr⟩
    split at hr
    · cases hr
    · next hsome =>
      cases hr
      rw [not_or] at hsome
      exact ⟨⟨left, right, core, hsplit, hcore, hcount, Duration.parse_ofList.2 hinterval⟩,
        Nat.pos_of_ne_zero hsome.1, Nat.pos_of_ne_zero hsome.2⟩
  · rintro ⟨⟨left, right, core, hsplit, hcore, hcount, hinterval⟩, hone, hpos⟩
    refine ⟨left, right, hsplit, r.count, ⟨core, hcore, hcount⟩, r.interval,
      Duration.parse_ofList.1 hinterval, ?_⟩
    rw [if_neg (not_or.2 ⟨Nat.ne_of_gt hone, Nat.ne_of_gt hpos⟩)]
    rfl

theorem parse_eq_ok_iff {text : String} : parse text = .ok r ↔
    r.Phrases text.toList ∧ 1 ≤ r.count ∧ 0 < r.interval.nanos := by
  rw [← read?_eq_some_iff, parse]
  cases read? text.toList with
  | none => simp
  | some r' => simp

theorem parse_eq_error_iff {text : String} {e : ConfigError} : parse text = .error e ↔
    e = .invalidRate text ∧ ∀ r, parse text ≠ .ok r := by
  unfold parse
  cases read? text.toList with
  | none => simp [eq_comm]
  | some r' => simp

end Rate

/-! ### Rates of a document -/

section

variable {α β ε : Type}

/-- What holds of whatever a function comes to holds of all it comes to along a list. -/
theorem forall_of_mapM {P : β → Prop} {f : α → Except ε β} (hf : ∀ a b, f a = .ok b → P b)
    {as : List α} {bs : List β} (h : as.mapM f = .ok bs) : ∀ b ∈ bs, P b := by
  induction as generalizing bs with
  | nil => cases h; nofun
  | cons a as ih =>
    rw [List.mapM_cons] at h
    obtain ⟨b, hb, hrest⟩ := exists_of_bind_eq_ok h
    obtain ⟨bs', hbs, hend⟩ := exists_of_bind_eq_ok hrest
    cases hend
    exact List.forall_mem_cons.2 ⟨hf a b hb, ih hbs⟩

end

section

open Toml

/-- If the entry has a rate, it has a count and an interval. -/
def PhaseItem.IsPaced (e : PhaseItem) : Prop := ∀ r, e.globalRate = some r → r.Sound

theorem asRate_sound {v : Value} {r : Rate} (h : asRate v = .ok r) : r.Sound := by
  obtain ⟨text, -, hread⟩ := exists_of_bind_eq_ok h
  split at hread
  · next r' hr =>
    cases hread
    unfold Rate.parse at hr
    split at hr
    · next hsome => cases hr; exact .of_read? hsome
    · cases hr
  · cases hread

theorem asList_forall {α : Type} {P : α → Prop} {item : Decoder α}
    (hitem : ∀ v a, item v = .ok a → P a) {v : Value} {as : List α}
    (h : asList item v = .ok as) : ∀ a ∈ as, P a := by
  unfold asList at h
  split at h
  · exact forall_of_mapM hitem h
  · cases h

/-- Only one key of an entry is about its rate. -/
theorem PhaseItem.IsPaced.set {e e' : PhaseItem} {key : String} {v : Value} (he : e.IsPaced)
    (h : e.set key v = .ok e') : e'.IsPaced := by
  unfold PhaseItem.set at h
  split at h
  case h_9 =>
    obtain ⟨r, hr, hset⟩ := exists_of_bind_eq_ok h
    cases hset
    intro r' hr'
    cases hr'
    exact asRate_sound hr
  case h_10 => cases h; exact he
  all_goals
    obtain ⟨_, _, hset⟩ := exists_of_bind_eq_ok h
    cases hset
    exact he

theorem PhaseItem.isPaced_decode {v : Value} {e : PhaseItem} (h : PhaseItem.decode v = .ok e) :
    e.IsPaced := by
  obtain ⟨table, -, hkeys⟩ := exists_of_bind_eq_ok h
  obtain ⟨e', hfold, hparams⟩ := exists_of_bind_eq_ok hkeys
  obtain ⟨params, -, hend⟩ := exists_of_bind_eq_ok hparams
  cases hend
  have hpaced : e'.IsPaced := foldlM_invariant (P := PhaseItem.IsPaced)
    (f := fun e (entry : String × Value) => e.set entry.1 entry.2)
    (fun _ _ _ he hset => he.set hset) (by rintro _ ⟨⟩) hfold
  exact hpaced

theorem Block.isPaced_decode {v : Value} {b : Block} (h : Block.decode v = .ok b) :
    ∀ e ∈ b.phases, e.IsPaced := by
  obtain ⟨table, -, hkeys⟩ := exists_of_bind_eq_ok h
  obtain ⟨g, hfold, hend⟩ := exists_of_bind_eq_ok hkeys
  have hphases : ∀ e ∈ g.phases, e.IsPaced := by
    refine foldlM_invariant (P := fun g : Gathered => ∀ e ∈ g.phases, e.IsPaced)
      (fun g entry g' hg hset => ?_) (by rintro _ ⟨⟩) hfold
    unfold Gathered.set at hset
    split at hset
    case h_4 =>
      obtain ⟨phases, hlist, hg'⟩ := exists_of_bind_eq_ok hset
      cases hg'
      exact asList_forall (fun _ _ => PhaseItem.isPaced_decode) hlist
    case h_5 => cases hset; exact hg
    all_goals
      obtain ⟨_, _, hg'⟩ := exists_of_bind_eq_ok hset
      cases hg'
      exact hg
  split at hend
  · cases hend
  · obtain ⟨params, -, hb⟩ := exists_of_bind_eq_ok hend
    cases hb
    exact hphases

theorem Workload.isPaced_read {source : List Char} {w : Workload}
    (h : Workload.read source = .ok w) : ∀ b ∈ w.actors, ∀ e ∈ b.phases, e.IsPaced := by
  have hdecode {table : Table} {w : Workload} (h : Workload.decode table = .ok w) :
      ∀ b ∈ w.actors, ∀ e ∈ b.phases, e.IsPaced := by
    refine foldlM_invariant
      (P := fun w : Workload => ∀ b ∈ w.actors, ∀ e ∈ b.phases, e.IsPaced)
      (fun w entry w' hw hset => ?_) (by rintro _ ⟨⟩) h
    unfold Workload.set at hset
    split at hset
    case h_1 =>
      obtain ⟨_, _, hw'⟩ := exists_of_bind_eq_ok hset
      cases hw'
      exact hw
    case h_2 =>
      obtain ⟨actors, hlist, hw'⟩ := exists_of_bind_eq_ok hset
      cases hw'
      exact asList_forall (fun _ _ => Block.isPaced_decode) hlist
    case h_3 => cases hset; exact hw
  unfold Workload.read at h
  split at h
  · cases h
  · split at h
    · cases h
    · next w' hw =>
      -- a workload that is valid is what it was before
      unfold Workload.validate at h
      split at h
      · cases h
      · split at h
        · cases h
        · cases h
          exact hdecode hw

end

/-- **The texts of rates.**  A text is read exactly if it says a rate with a positive count and a
positive interval, and it is read as that rate.  Any other text is refused, and the error has it as
it is.  So whatever rate a document has, there is something in it. -/
theorem Rate.rate_grammar (text : String) :
    (∀ r, Rate.parse text = .ok r ↔
      r.Phrases text.toList ∧ 1 ≤ r.count ∧ 0 < r.interval.nanos) ∧
    (∀ e, Rate.parse text = .error e ↔ e = .invalidRate text ∧
      ∀ r : Rate, r.Phrases text.toList → r.count = 0 ∨ r.interval.nanos = 0) ∧
    ∀ source w, Workload.read source = .ok w → ∀ b ∈ w.actors, ∀ e ∈ b.phases, ∀ r,
      e.globalRate = some r → 1 ≤ r.count ∧ 0 < r.interval.nanos := by
  refine ⟨fun r => parse_eq_ok_iff, fun e => ?_, fun source w hw b hb e he r hr => ?_⟩
  · rw [parse_eq_error_iff]
    refine and_congr_right fun _ => forall_congr' fun r => ?_
    rw [ne_eq, parse_eq_ok_iff, not_and]
    refine imp_congr_right fun _ => ?_
    omega
  · have hsound := Workload.isPaced_read hw b hb e he r hr
    exact ⟨hsound.count, hsound.interval⟩

/-! ### Ranges -/

namespace Selector

/-- The text says a range: two numbers, each of which may have a plus sign and blanks around it, on
both sides of the first two dots. -/
def Spans (text : List Char) (lo hi : Nat) : Prop :=
  ∃ left right lower upper, SplitsAt "..".toList text left right ∧
    Frames lower left ∧ Numeral.WritesSigned lower lo ∧
    Frames upper right ∧ Numeral.WritesSigned upper hi

theorem ends?_eq_some_iff {text : List Char} {lo hi : Nat} :
    ends? text = some (lo, hi) ↔ Spans text lo hi := by
  simp only [ends?, Option.bind_eq_bind, Option.bind_eq_some_iff, Prod.exists,
    splitOnce?_eq_some_iff, Numeral.readSigned?_trim_eq_some_iff, Option.pure_def,
    Option.some.injEq, Prod.mk.injEq]
  constructor
  · rintro ⟨left, right, hsplit, _, ⟨lower, hleft, hlo⟩, _, ⟨upper, hright, hhi⟩, rfl, rfl⟩
    exact ⟨left, right, lower, upper, hsplit, hleft, hlo, hright, hhi⟩
  · rintro ⟨left, right, lower, upper, hsplit, hleft, hlo, hright, hhi⟩
    exact ⟨left, right, hsplit, lo, ⟨lower, hleft, hlo⟩, hi, ⟨upper, hright, hhi⟩, rfl, rfl⟩

/-- There is one ascending list of some numbers. -/
theorem eq_range'_iff {lo hi : Nat} {ns : List Nat} : ns = List.range' lo (hi + 1 - lo) ↔
    ns.Pairwise (· < ·) ∧ ∀ n, ns.count n = if lo ≤ n ∧ n ≤ hi then 1 else 0 := by
  have hcount_range (n : Nat) :
      (List.range' lo (hi + 1 - lo)).count n = if lo ≤ n ∧ n ≤ hi then 1 else 0 := by
    rw [List.count_range_1']
    exact if_congr (by omega) rfl rfl
  constructor
  · rintro rfl
    exact ⟨List.pairwise_lt_range', hcount_range⟩
  · rintro ⟨hascending, hcount⟩
    have hperm : ns.Perm (List.range' lo (hi + 1 - lo)) :=
      List.perm_iff_count.2 fun n => (hcount n).trans (hcount_range n).symm
    exact hperm.eq_of_pairwise (fun _ _ _ _ hlt hgt => absurd hgt (Nat.lt_asymm hlt)) hascending
      List.pairwise_lt_range'

/-- **The texts of ranges.**  A text selects phases exactly if it says a range whose ends are not
the wrong way round and that has fewer than `2 ^ 60` numbers.  It then selects, in ascending order,
every number from one end to the other once, the last one of all numbers included, and no other.  A
longer range panics.  A text is called empty if its ends are the wrong way round, and invalid if it
says no range; in both cases the whole text is shown. -/
theorem range_grammar (text : String) :
    (∀ ns, (range text).phases = .ok ns ↔ ∃ lo hi, Spans text.toList lo hi ∧ lo ≤ hi ∧
      hi + 1 - lo < 2 ^ 60 ∧
      ns.Pairwise (· < ·) ∧ ∀ n, ns.count n = if lo ≤ n ∧ n ≤ hi then 1 else 0) ∧
    ((range text).phases = .error .panicked ↔
      ∃ lo hi, Spans text.toList lo hi ∧ lo ≤ hi ∧ 2 ^ 60 ≤ hi + 1 - lo) ∧
    (∀ lo hi, Spans text.toList lo hi → hi < lo →
      ∃ fault, (range text).phases = .error (.error fault) ∧
        fault.message = "empty phase range `" ++ text ++ "`") ∧
    ((∀ lo hi, ¬ Spans text.toList lo hi) →
      ∃ fault, (range text).phases = .error (.error fault) ∧
        fault.message = "invalid phase range `" ++ text ++ "`") := by
  have hlisted {lo hi : Nat} (htext : Spans text.toList lo hi) (hle : lo ≤ hi) :
      (range text).phases = if hi + 1 - lo < Nat.pow 2 60 then .ok (List.range' lo (hi + 1 - lo))
        else .error .panicked := by
    simp only [phases, ends?_eq_some_iff.2 htext, if_neg (Nat.not_lt.2 hle), memoryHolds_width_iff]
  have hwrong {lo hi : Nat} (htext : Spans text.toList lo hi) (hlt : hi < lo) :
      (range text).phases = .error (.error (.empty text)) := by
    simp only [phases, ends?_eq_some_iff.2 htext, if_pos hlt]
  have hnone (h : ∀ lo hi, ¬ Spans text.toList lo hi) :
      (range text).phases = .error (.error (.malformed text)) := by
    have hends : ends? text.toList = none :=
      Option.eq_none_iff_forall_ne_some.2 fun p hp => h p.1 p.2 (ends?_eq_some_iff.1 hp)
    simp only [phases, hends]
  -- without an error the text says a range, with its ends the right way round
  have hsays (h : ∀ fault, (range text).phases ≠ .error (.error fault)) :
      ∃ lo hi, Spans text.toList lo hi ∧ lo ≤ hi := by
    by_contra hno
    by_cases hspans : ∃ lo hi, Spans text.toList lo hi
    · obtain ⟨lo, hi, htext⟩ := hspans
      exact h _ (hwrong htext (not_le.1 fun hle => hno ⟨lo, hi, htext, hle⟩))
    · exact h _ (hnone fun lo hi htext => hspans ⟨lo, hi, htext⟩)
  refine ⟨fun ns => ⟨fun h => ?_, ?_⟩, ?_, fun lo hi htext hlt => ?_, fun h => ?_⟩
  · obtain ⟨lo, hi, htext, hle⟩ := hsays fun fault hfault => by rw [h] at hfault; cases hfault
    rw [hlisted htext hle] at h
    split at h
    · next hfew =>
      cases h
      exact ⟨lo, hi, htext, hle, hfew, eq_range'_iff.1 rfl⟩
    · cases h
  · rintro ⟨lo, hi, htext, hle, hfew, hlist⟩
    rw [hlisted htext hle, eq_range'_iff.2 hlist]
    exact if_pos hfew
  · rw [phases_eq_panicked_iff]
    constructor
    · rintro ⟨_, lo, hi, ⟨⟩, hends, hle, hmany⟩
      exact ⟨lo, hi, ends?_eq_some_iff.1 hends, hle, hmany⟩
    · rintro ⟨lo, hi, htext, hle, hmany⟩
      exact ⟨text, lo, hi, rfl, ends?_eq_some_iff.2 htext, hle, hmany⟩
  · exact ⟨_, hwrong htext hlt, rfl⟩
  · exact ⟨_, hnone h, rfl⟩

/-- All numbers are a range, but they cannot be listed. -/
theorem range_too_long :
    Spans "0..18446744073709551615".toList 0 wordMax ∧
    (range "0..18446744073709551615").phases = .error .panicked ∧
    ¬ ∃ ns, (range "0..18446744073709551615").phases = .ok ns := by
  have htext : Spans "0..18446744073709551615".toList 0 wordMax :=
    ends?_eq_some_iff.1 (by decide +kernel)
  have hpanics : (range "0..18446744073709551615").phases = .error .panicked := by
    simp only [phases, ends?_eq_some_iff.2 htext]
    decide +kernel
  exact ⟨htext, hpanics, by rw [hpanics]; rintro ⟨ns, ⟨⟩⟩⟩

end Selector

end Lockstep
