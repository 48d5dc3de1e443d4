import Lockstep.Proofs.TallyMerge
import Mathlib.Algebra.GroupWithZero.Nat

/-!
# What is counted under a name

An operation is counted under the name of its actor, a dot and its own name.  Names may have dots
themselves, so two operations may share a key; then they are counted together.

* `Sums.of` : the totals of some events;
* `Tally.find?_ofEvents` : an entry has the totals of the events with its key;
* `operationKey_inj` : keys without further dots on one side are different for different operations;
* `Tally.operations_by_key` : **what a tally of events has under each key**, and when this is the
  operation alone.
-/

namespace Lockstep

/-- The totals of some events. -/
def Sums.of (es : List Event) : Sums where
  count := es.length
  successes := es.countP fun e => e.isSuccess
  failures := es.countP fun e => !e.isSuccess
  nanos := (es.map fun e => e.duration.nanos).sum
  longest := (es.map fun e => e.duration.nanos).foldr max 0
  documents := (es.map fun e => e.documents).sum
  bytes := (es.map fun e => e.bytes).sum
  iterations := (es.map fun e => e.iterations).sum

namespace Sums

@[simp] theorem of_nil : of [] = 0 := rfl

theorem of_cons (e : Event) (es : List Event) : of (e :: es) = (Stats.ofEvent e).sums + of es := by
  have hcount : (e :: es).length = 1 + es.length := Nat.add_comm ..
  cases h : e.isSuccess <;>
    simp [of, add_def, Stats.sums, Stats.ofEvent, h, hcount, Nat.add_comm]

/-- Events that are put aside take their totals with them. -/
theorem of_filter_add (es : List Event) (p : Event → Bool) :
    of (es.filter p) + of (es.filter fun e => !p e) = of es := by
  induction es with
  | nil => rfl
  | cons e es ih =>
    rw [of_cons, ← ih]
    by_cases h : p e
    · simp only [List.filter_cons, h, if_true, of_cons, Bool.not_true, Bool.false_eq_true, if_false]
      exact add_assoc ..
    · simp only [List.filter_cons, h, of_cons, Bool.not_false, if_true]
      exact add_left_comm ..

/-- Fewer events fit where all of them do. -/
theorem Fits.filter {es : List Event} (h : (of es).Fits) (p : Event → Bool) :
    (of (es.filter p)).Fits := by
  rw [← of_filter_add es p] at h
  exact h.of_add

theorem fits_zero : (0 : Sums).Fits := by constructor <;> decide

end Sums

/-! ### Keys -/

/-- What stands before the first separator, and what follows it. -/
theorem append_cons_inj_of_notMem {α : Type} [DecidableEq α] {a : α} {l l' r r' : List α}
    (hl : a ∉ l) (hl' : a ∉ l') (h : l ++ a :: r = l' ++ a :: r') : l = l' ∧ r = r' := by
  have hidx := congrArg (List.idxOf a) h
  rw [List.idxOf_append_of_notMem hl, List.idxOf_append_of_notMem hl', List.idxOf_cons_self,
    List.idxOf_cons_self] at hidx
  obtain ⟨hleft, hright⟩ := List.append_inj h hidx
  exact ⟨hleft, (List.cons.inj hright).2⟩

theorem toList_operationKey (actor operation : String) :
    (operationKey actor operation).toList = actor.toList ++ '.' :: operation.toList := by
  simp [operationKey]

/-- Without dots in the names of the actors a key tells the operation. -/
theorem operationKey_inj_of_actor {a a' o o' : String} (ha : '.' ∉ a.toList) (ha' : '.' ∉ a'.toList)
    (h : operationKey a o = operationKey a' o') : a = a' ∧ o = o' := by
  have hlists := congrArg String.toList h
  rw [toList_operationKey, toList_operationKey] at hlists
  obtain ⟨hactor, hoperation⟩ := append_cons_inj_of_notMem ha ha' hlists
  exact ⟨String.toList_inj.1 hactor, String.toList_inj.1 hoperation⟩

/-- Without dots in the names of the operations it does so, too: it is read from its end. -/
theorem operationKey_inj_of_operation {a a' o o' : String} (ho : '.' ∉ o.toList)
    (ho' : '.' ∉ o'.toList) (h : operationKey a o = operationKey a' o') : a = a' ∧ o = o' := by
  have hlists := congrArg (fun k => k.toList.reverse) h
  simp only [toList_operationKey, List.reverse_append, List.reverse_cons, List.append_assoc,
    List.singleton_append] at hlists
  obtain ⟨hoperation, hactor⟩ := append_cons_inj_of_notMem
    (by simpa using ho) (by simpa using ho') hlists
  exact ⟨String.toList_inj.1 (List.reverse_inj.1 hactor),
    String.toList_inj.1 (List.reverse_inj.1 hoperation)⟩

namespace Tally

variable {es : List Event} {t : Tally}

/-- The events that are counted under a key. -/
def under (k : String) (es : List Event) : List Event := es.filter fun e => e.key = k

theorem mem_under {k : String} {e : Event} : e ∈ under k es ↔ e ∈ es ∧ e.key = k := by
  simp [under]

/-- A key nobody counts under has no sum; any other one has that of its events. -/
theorem ledgerOf_apply (es : List Event) (k : String) : ledgerOf es k =
    if under k es = [] then 0 else ((Sums.of (under k es) : Sums) : WithZero Sums) := by
  induction es with
  | nil => rfl
  | cons e es ih =>
    have hcons : ledgerOf (e :: es) = Ledger.posting e.key (.ofEvent e) + ledgerOf es := rfl
    rw [hcons, Pi.add_apply, ih, Ledger.posting]
    by_cases hk : e.key = k
    · have hunder : under k (e :: es) = e :: under k es := by simp [under, hk]
      rw [hunder, if_neg (List.cons_ne_nil e _), hk, Pi.single_eq_same, Sums.of_cons]
      by_cases hnil : under k es = []
      · simp [hnil]
      · rw [if_neg hnil, WithZero.coe_add]
    · have hunder : under k (e :: es) = under k es := by simp [under, hk]
      rw [hunder, Pi.single_eq_of_ne (Ne.symm hk), zero_add]

/-- Events can be counted exactly if the totals under each key fit. -/
theorem exists_ofEvents_iff :
    (∃ t, ofEvents? es = some t) ↔ ∀ k, (Sums.of (under k es)).Fits := by
  rw [← Option.isSome_iff_exists, (balances_ofEvents es).2]
  constructor
  · intro h k
    by_cases hnil : under k es = []
    · rw [hnil]
      exact Sums.fits_zero
    · exact h k _ (by rw [ledgerOf_apply, if_neg hnil])
  · intro h k s hs
    rw [ledgerOf_apply] at hs
    split at hs
    · cases hs
    · exact WithZero.coe_inj.1 hs ▸ h k

/-- An entry has the totals of the events with its key. -/
theorem find?_ofEvents (h : ofEvents? es = some t) (k : String) :
    (t.find? k).map Stats.sums = if under k es = [] then none else some (Sums.of (under k es)) := by
  have hledger : t.ledger k = ledgerOf es k := by rw [(balances_ofEvents es).1 t h]
  rw [ledgerOf_apply] at hledger
  by_cases hnil : under k es = []
  · rw [if_pos hnil] at hledger ⊢
    rw [ledger_eq_zero_iff.1 hledger, Option.map_none]
  · rw [if_neg hnil] at hledger ⊢
    obtain ⟨s, hs, hsums⟩ := ledger_eq_coe_iff.1 hledger
    rw [hs, Option.map_some, hsums]

theorem find?_eq_none_iff (h : ofEvents? es = some t) {k : String} :
    t.find? k = none ↔ ∀ e ∈ es, e.key ≠ k := by
  rw [← Option.map_eq_none_iff (f := Stats.sums), find?_ofEvents h]
  by_cases hnil : under k es = []
  · rw [if_pos hnil]
    exact iff_of_true rfl fun e he hk => List.ne_nil_of_mem (mem_under.2 ⟨he, hk⟩) hnil
  · obtain ⟨e, he⟩ := List.exists_mem_of_ne_nil _ hnil
    rw [if_neg hnil]
    exact iff_of_false (by simp) fun hnone => hnone e (mem_under.1 he).1 (mem_under.1 he).2

theorem sums_of_find? (h : ofEvents? es = some t) {k : String} {s : Stats}
    (hs : t.find? k = some s) : s.sums = Sums.of (under k es) := by
  have hfind := find?_ofEvents h k
  rw [hs, Option.map_some] at hfind
  split at hfind
  · cases hfind
  · exact Option.some.inj hfind

/-- The events of an operation of an actor. -/
def ofOperation (actor operation : String) (es : List Event) : List Event :=
  es.filter fun e => e.actor = actor ∧ e.operation = operation

/-- Nobody else counts under the key of an event. -/
def IsAlone (e : Event) (es : List Event) : Prop :=
  ∀ f ∈ es, f.key = e.key → f.actor = e.actor ∧ f.operation = e.operation

/-- What is counted under the key of an event is its operation exactly if nobody else counts there:
even the number of events tells. -/
theorem sums_under_eq_iff {e : Event} :
    Sums.of (under e.key es) = Sums.of (ofOperation e.actor e.operation es) ↔ IsAlone e es := by
  have hsub : ofOperation e.actor e.operation es =
      (under e.key es).filter fun f => f.actor = e.actor ∧ f.operation = e.operation := by
    rw [under, List.filter_filter, ofOperation]
    refine List.filter_congr fun f _ => ?_
    by_cases h : f.actor = e.actor ∧ f.operation = e.operation
    · simp [h, Event.key]
    · simp [h]
  rw [hsub]
  constructor
  · intro h f hf hk
    have hlength := congrArg Sums.count h.symm
    have hall := List.length_filter_eq_length_iff.1 hlength f (mem_under.2 ⟨hf, hk⟩)
    simpa using hall
  · intro h
    rw [List.filter_eq_self.2]
    intro f hf
    simpa using h f (mem_under.1 hf).1 (mem_under.1 hf).2

/-- Without dots in the names of the actors, or without dots in those of the operations, nobody
counts under the key of somebody else. -/
theorem isAlone_of_dotless
    (h : (∀ e ∈ es, '.' ∉ e.actor.toList) ∨ ∀ e ∈ es, '.' ∉ e.operation.toList)
    {e : Event} (he : e ∈ es) : IsAlone e es := by
  intro f hf hk
  rcases h with h | h
  · exact operationKey_inj_of_actor (h f hf) (h e he) hk
  · exact operationKey_inj_of_operation (h f hf) (h e he) hk

/-- **What is counted under a key.**  Events are added up unless the totals under some key do not
fit.  There is an entry for each key of an event and no other one, and it has the totals of the
events with this key, no more and no less.  These are the events of a single operation exactly if no
other one has the same key; so it is when the names of the actors have no dots, or those of the
operations. -/
theorem operations_by_key (es : List Event) :
    ((∃ t, ofEvents? es = some t) ↔ ∀ k, (Sums.of (under k es)).Fits) ∧
      ∀ t, ofEvents? es = some t →
        (∀ k, t.find? k = none ↔ ∀ e ∈ es, e.key ≠ k) ∧
        (∀ k s, t.find? k = some s → s.sums = Sums.of (under k es)) ∧
        (∀ e ∈ es, ∃ s, t.find? e.key = some s ∧
          (s.sums = Sums.of (ofOperation e.actor e.operation es) ↔ IsAlone e es)) ∧
        ((∀ e ∈ es, '.' ∉ e.actor.toList) ∨ (∀ e ∈ es, '.' ∉ e.operation.toList) →
          ∀ e ∈ es, IsAlone e es) := by
  refine ⟨exists_ofEvents_iff, fun t ht => ⟨fun k => find?_eq_none_iff ht,
    fun k s hs => sums_of_find? ht hs, fun e he => ?_, fun h e he => isAlone_of_dotless h he⟩⟩
  cases hs : t.find? e.key with
  | none => exact absurd rfl ((find?_eq_none_iff ht).1 hs e he)
  | some s => exact ⟨s, rfl, by rw [sums_of_find? ht hs, sums_under_eq_iff]⟩

theorem operations_by_key_greetings :
    (∀ e ∈ [hello, goodbye, hello], '.' ∉ e.actor.toList) ∧
      ∃ t s, ofEvents? [hello, goodbye, hello] = some t ∧ t.find? hello.key = some s ∧
        s.sums = Sums.of (ofOperation "Host" "hello" [hello, goodbye, hello]) := by
  have hfits : (Sums.of [hello, goodbye, hello]).Fits := by constructor <;> decide
  have hdotless : ∀ e ∈ [hello, goodbye, hello], '.' ∉ e.actor.toList := by decide
  obtain ⟨hexists, htotals⟩ := operations_by_key [hello, goodbye, hello]
  obtain ⟨t, ht⟩ := hexists.2 fun k => hfits.filter _
  obtain ⟨-, -, hentries, halone⟩ := htotals t ht
  obtain ⟨s, hs, hiff⟩ := hentries hello (List.mem_cons_self ..)
  exact ⟨hdotless, t, s, ht, hs, hiff.2 (halone (.inl hdotless) hello (List.mem_cons_self ..))⟩

/-- The operation `c` of an actor with a dot in its name. -/
def dotted : Event := ⟨"a.b", 0, "c", none, 0, 1000000000, .success, 0, 0, 0⟩

/-- An operation with a dot in its name, of another actor. -/
def dotting : Event := ⟨"a", 1, "b.c", none, 0, 1000000000, .success, 0, 0, 0⟩

/-- Two operations with one key are counted together. -/
theorem operations_mixed :
    dotted.actor ≠ dotting.actor ∧ dotted.operation ≠ dotting.operation ∧
      ∃ t s, ofEvents? [dotted, dotting] = some t ∧ t.find? dotted.key = some s ∧ s.count = 2 ∧
        s.sums ≠ Sums.of (ofOperation dotted.actor dotted.operation [dotted, dotting]) := by
  have hfits : (Sums.of [dotted, dotting]).Fits := by constructor <;> decide
  have hkey : dotting.key = dotted.key := by decide
  obtain ⟨t, ht⟩ := exists_ofEvents_iff.2 fun k => hfits.filter fun e => e.key = k
  have hunder : under dotted.key [dotted, dotting] = [dotted, dotting] := by simp [under, hkey]
  refine ⟨by decide, by decide, t, ?_⟩
  cases hs : t.find? dotted.key with
  | none => exact absurd rfl ((find?_eq_none_iff ht).1 hs dotted (List.mem_cons_self ..))
  | some s =>
    have hsums := sums_of_find? ht hs
    rw [hunder] at hsums
    refine ⟨s, ht, rfl, congrArg Sums.count hsums, ?_⟩
    rw [hsums]
    intro h
    have hcount : [dotted, dotting].length =
        (ofOperation dotted.actor dotted.operation [dotted, dotting]).length :=
      congrArg Sums.count h
    exact absurd hcount (by decide)

end Tally

end Lockstep
