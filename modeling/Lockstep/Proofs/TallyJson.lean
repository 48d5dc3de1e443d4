import Lockstep.Proofs.JsonTexts
import Lockstep.Proofs.TallyMerge
import Lockstep.Report
import Mathlib.Data.List.Forall2

/-!
# Tallies that are written and read back

* `reads_duration`, `reads_stats` : a duration and the totals of an operation are read from their
  texts;
* `readOperations_of_written` : a map from operations to data is read back with all its keys, when
  the data are;
* `Tally.read_back` : **every tally is read back from its texts**, so that nothing that is computed
  from tallies changes when they are stored in between.
-/

namespace Lockstep

open Json

/-! ### Sorted maps from their entries -/

namespace SortedMap

variable {κ ν : Type} [LT κ] [DecidableLT κ] [LE κ] [Std.IsLinearOrder κ] [Std.LawfulOrderLT κ]

/-- A key above all others goes to the end. -/
theorem alterEntries_of_lt {k : κ} {f : Option ν → ν} {es : List (κ × ν)}
    (h : ∀ e ∈ es, e.1 < k) : alterEntries k f es = es ++ [(k, f none)] := by
  induction es with
  | nil => rfl
  | cons e es ih =>
    have hlt := h e (List.mem_cons_self ..)
    rw [alterEntries, if_neg (fun hgt => Std.lt_irrefl (Std.lt_trans hlt hgt)), if_pos hlt,
      ih fun e' he' => h e' (List.mem_cons_of_mem _ he')]
    rfl

theorem entries_foldl_insert {es : List (κ × ν)} {m : SortedMap κ ν}
    (h : (m.entries ++ es).Pairwise fun a b => a.1 < b.1) :
    (es.foldl (fun m e => m.insert e.1 e.2) m).entries = m.entries ++ es := by
  induction es generalizing m with
  | nil => exact (List.append_nil _).symm
  | cons e es ih =>
    have hbelow : ∀ e' ∈ m.entries, e'.1 < e.1 := fun e' he' =>
      (List.pairwise_append.1 h).2.2 e' he' e (List.mem_cons_self ..)
    have hinsert : (m.insert e.1 e.2).entries = m.entries ++ [e] := alterEntries_of_lt hbelow
    rw [List.foldl_cons, ih (by rw [hinsert]; simpa using h), hinsert]
    simp

/-- A map is made up of its entries. -/
theorem ofList_entries (m : SortedMap κ ν) : ofList m.entries = m := by
  have h : (ofList m.entries).entries = m.entries := entries_foldl_insert (m := empty) m.sorted
  generalize ofList m.entries = n at h
  cases m
  cases n
  cases h
  rfl

end SortedMap

/-! ### Data -/

namespace Json

open Read

/-- What is computed from the value is got as well. -/
theorem Reads.map {α β : Type} {r : Read α} {j : Json} {a : α} (h : Reads r j a) (f : α → β) :
    Reads (do return f (← r)) j (f a) := by
  intro text rest hw hrest
  rw [bind_of_ok (h text rest hw hrest)]
  rfl

end Json

open Read

/-- **A duration is read as what it is.** -/
theorem reads_duration (d : Duration) : Reads duration d.toJson d := by
  have hlong : d.nanos < wordLimit * 1000000000 := d.inRange
  have hsecs : d.secs < wordLimit := (Nat.div_lt_iff_lt_mul (by decide)).2 hlong
  have hnanos : d.subsecNanos < 1000000000 := Nat.mod_lt _ (by decide)
  have hword : wordLimit = 18446744073709551616 := rfl
  have hfills : Fills durationFields (0, 0)
      [("secs", .word d.secs), ("nanos", .word d.subsecNanos)] (d.secs, d.subsecNanos) := by
    refine .cons ((reads_word hsecs).map fun n => (n, 0)) (.cons ?_ (.nil _))
    have hlimit : d.subsecNanos < Nat.pow 2 32 := Nat.lt_trans hnanos (by decide)
    exact (reads_natural hlimit (by omega)).map fun n => (d.secs, n)
  have hmake : Duration.ofNanos? (d.secs * 1000000000 + d.subsecNanos) = some d := by
    rw [Duration.ofNanos?_eq_some_iff, Duration.secs, Duration.subsecNanos]
    omega
  exact reads_record (by decide) hfills hmake

/-- **The totals of an operation are read as what they are.** -/
theorem reads_stats {s : Stats} (h : s.sums.Fits) :
    Reads (record Stats.fields false .zero some) s.toJson s := by
  refine reads_record (by decide) ?_ rfl
  refine .cons ((reads_word h.count).map _) ?_
  refine .cons ((reads_word h.successes).map _) ?_
  refine .cons ((reads_word h.failures).map _) ?_
  refine .cons ((reads_duration s.total).map _) ?_
  refine .cons ((reads_duration s.max).map _) ?_
  refine .cons ((reads_word h.documents).map _) ?_
  refine .cons ((reads_word h.bytes).map _) ?_
  exact .cons ((reads_word h.iterations).map _) (.nil _)

section

variable {α β : Type} {fields : List (RecordField α)} {start : α} {toJson : β → Json}

/-- Reads the data of an operation, and keeps them under its name. -/
def readEntry (fields : List (RecordField α)) (start : α) (key : String)
    (m : SortedMap String α) : Read (SortedMap String α) := do
  colon
  return m.insert key (← record fields false start some)

theorem folds_readEntry {es : List (String × β)} {es' : List (String × α)}
    (h : List.Forall₂ (fun e e' => e.1 = e'.1 ∧
      Reads (record fields false start some) (toJson e.2) e'.2) es es') (m : SortedMap String α) :
    Folds (readEntry fields start) m (es.map fun e => (e.1, toJson e.2))
      (es'.foldl (fun m e => m.insert e.1 e.2) m) := by
  induction h generalizing m with
  | nil => exact .nil m
  | @cons e e' es es' he _ ih =>
    obtain ⟨hkey, hread⟩ := he
    refine .cons (fun text rest hv hrest => ?_) (ih (m.insert e'.1 e'.2))
    rw [readEntry, bind_of_ok (colon_cons _), bind_of_ok (hread text rest hv hrest), hkey]
    rfl

/-- **A map from operations to data is read back with all its keys**, whatever they are, when the
data are. -/
theorem readOperations_of_written {m : SortedMap String β} {n : SortedMap String α}
    (h : List.Forall₂ (fun e e' => e.1 = e'.1 ∧
      Reads (record fields false start some) (toJson e.2) e'.2) m.entries n.entries)
    {text : List Char} (hw : Written
      (.object [("operations", .object (m.entries.map fun e => (e.1, toJson e.2)))]) text) :
    readOperations fields start text = .ok n := by
  let operations : RecordField (SortedMap String α) :=
    ⟨"operations", fun _ => Json.Read.object (readEntry fields start) .empty⟩
  have hentries : Reads (operations.read .empty)
      (.object (m.entries.map fun e => (e.1, toJson e.2))) n := by
    have hfolds := folds_readEntry h .empty
    have hmap : n.entries.foldl (fun m e => m.insert e.1 e.2) .empty = n := n.ofList_entries
    rw [hmap] at hfolds
    exact reads_object hfolds
  have hrecord : Reads (record [operations] false .empty some)
      (.object [("operations", .object (m.entries.map fun e => (e.1, toJson e.2)))]) n :=
    reads_record (List.nodup_singleton _) (.cons hentries (.nil n)) rfl
  have hread : record [operations] false .empty some text = .ok (n, []) := by
    have hend : Breaks [] := fun _ h => nomatch h
    simpa using hrecord text [] hw hend
  change (record [operations] false .empty some text >>= fun p =>
    if (p.2.dropWhile isBlank).isEmpty then .ok p.1 else .error .malformed) = .ok n
  rw [hread]
  rfl

end

/-! ### Tallies -/

namespace Tally

theorem fits_of_mem {t : Tally} (ht : t.Fits) {e : String × Stats} (he : e ∈ t.entries) :
    e.2.sums.Fits := ht e.1 e.2 (SortedMap.find?_eq_some_iff.2 he)

/-- A tally is read from every text of it. -/
theorem read_of_written {t : Tally} (ht : t.Fits) {text : List Char} (h : Written t.toJson text) :
    Tally.read text = .ok t :=
  readOperations_of_written (List.forall₂_same.2 fun _ he => ⟨rfl, reads_stats (fits_of_mem ht he)⟩)
    h

theorem read_of_eq {t : Tally} (ht : t.Fits) {text : List Char}
    (h : text = t.toJson.compact ∨ text = t.toJson.pretty) : Tally.read text = .ok t := by
  rcases h with rfl | rfl
  · exact read_of_written ht (written_compact _)
  · exact read_of_written ht (written_pretty _)

theorem mapM_read {ts : List Tally} (hts : ∀ t ∈ ts, t.Fits) {texts : List (List Char)}
    (h : List.Forall₂ (fun t text => text = t.toJson.compact ∨ text = t.toJson.pretty) ts texts) :
    texts.mapM Tally.read = .ok ts := by
  induction h with
  | nil => rfl
  | @cons t text ts texts htext _ ih =>
    rw [List.mapM_cons, read_of_eq (hts t (List.mem_cons_self ..)) htext,
      ih fun u hu => hts u (List.mem_cons_of_mem _ hu)]
    rfl

/-- **Tallies can be stored.**  A tally is read back from both of its texts, however many entries it
has and whatever characters their keys consist of; so parts that are stored and read back are merged
to what the parts themselves are merged to, or not at all when they overflow. -/
theorem read_back :
    (∀ t : Tally, t.Fits →
      Tally.read t.toJson.compact = .ok t ∧ Tally.read t.toJson.pretty = .ok t) ∧
    ∀ (ts : List Tally) (texts : List (List Char)), (∀ t ∈ ts, t.Fits) →
      List.Forall₂ (fun t text => text = t.toJson.compact ∨ text = t.toJson.pretty) ts texts →
        (texts.mapM Tally.read).map mergeAll? = .ok (mergeAll? ts) := by
  refine ⟨fun t ht => ⟨read_of_eq ht (.inl rfl), read_of_eq ht (.inr rfl)⟩,
    fun ts texts hts h => ?_⟩
  rw [mapM_read hts h]
  rfl

/-- The greatest totals there are. -/
def greatest : Stats where
  count := wordMax
  successes := wordMax
  failures := wordMax
  total := .ofNanos durationLimit
  max := .ofNanos durationLimit
  documents := wordMax
  bytes := wordMax
  iterations := wordMax

/-- Keys with a quote, a backslash, controls and a character beyond the basic plane. -/
def oddities : Tally :=
  (((SortedMap.empty.insert "" .zero).insert "a\"b\\c" greatest).insert "\x00\n\x1f\x7f"
    (.ofEvent hello)).insert "𝄞é" greatest

theorem read_back_oddities :
    oddities.Fits ∧ once.Fits ∧
      Tally.read oddities.toJson.compact = .ok oddities ∧
      Tally.read oddities.toJson.pretty = .ok oddities ∧
      ([oddities.toJson.pretty, once.toJson.compact].mapM Tally.read).map mergeAll? =
        .ok (mergeAll? [oddities, once]) := by
  have hempty : Fits .empty := fun k s hs => by cases hs
  have hgreatest : greatest.sums.Fits := by constructor <;> decide
  have hodd : oddities.Fits :=
    fits_insert (fits_insert (fits_insert (fits_insert hempty (by constructor <;> decide))
      hgreatest) (by constructor <;> decide)) hgreatest
  have honce : once.Fits := fits_insert hempty (by constructor <;> decide)
  have hboth : ∀ t ∈ [oddities, once], t.Fits := by
    intro t ht
    rcases List.mem_pair.1 ht with rfl | rfl
    exacts [hodd, honce]
  obtain ⟨hcompact, hpretty⟩ := read_back.1 oddities hodd
  exact ⟨hodd, honce, hcompact, hpretty,
    read_back.2 _ _ hboth (.cons (.inr rfl) (.cons (.inl rfl) .nil))⟩

end Tally

end Lockstep
