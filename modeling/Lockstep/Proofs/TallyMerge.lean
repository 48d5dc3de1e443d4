import Lockstep.Metrics.Tally
import Mathlib.Algebra.BigOperators.Group.List.Basic
import Mathlib.Algebra.Group.Pi.Basic
import Mathlib.Algebra.Group.WithOne.Defs

/-!
# Adding up in any order

Totals that need not fit any counter are a commutative monoid, and so are the ledgers that keep
them by operation.  A tally is computed from a ledger that fits; where a ledger does not fit,
nothing is computed.  So it does not matter in which order events are counted and tallies merged,
neither for what is computed nor for whether it is.

* `Sums` : the totals of one operation, however large;
* `Ledger` : sums by operation; an operation that never occurred has none;
* `Tally.Balances` : a computation that may overflow yields exactly what a ledger says;
* `Balances.unique` : two computations with one ledger have one outcome;
* `Balances.post`, `Balances.merge` : the two ways to add to a tally are sums of ledgers;
* `Tally.Plan` : a way to count events in parts and to merge the parts;
* `Tally.order_free` : **all plans for the same events have one outcome**, and merging is
  associative and commutative, with the empty tally as its identity.
-/

namespace Lockstep

/-! ### Sums -/

/-- Totals of one operation that need not fit any counter. -/
@[ext]
structure Sums where
  count : Nat
  successes : Nat
  failures : Nat
  nanos : Nat
  longest : Nat
  documents : Nat
  bytes : Nat
  iterations : Nat

namespace Sums

instance : Zero Sums := ⟨⟨0, 0, 0, 0, 0, 0, 0, 0⟩⟩

instance : Add Sums where
  add a b :=
    { count := a.count + b.count
      successes := a.successes + b.successes
      failures := a.failures + b.failures
      nanos := a.nanos + b.nanos
      longest := max a.longest b.longest
      documents := a.documents + b.documents
      bytes := a.bytes + b.bytes
      iterations := a.iterations + b.iterations }

theorem zero_def : (0 : Sums) = ⟨0, 0, 0, 0, 0, 0, 0, 0⟩ := rfl

theorem add_def (a b : Sums) : a + b =
    ⟨a.count + b.count, a.successes + b.successes, a.failures + b.failures, a.nanos + b.nanos,
      max a.longest b.longest, a.documents + b.documents, a.bytes + b.bytes,
      a.iterations + b.iterations⟩ := rfl

instance : AddCommMonoid Sums where
  add_assoc a b c := by simp only [add_def, Nat.add_assoc, Nat.max_assoc]
  zero_add a := by simp only [add_def, zero_def, Nat.zero_add, Nat.zero_max]
  add_zero a := by simp only [add_def, zero_def, Nat.add_zero, Nat.max_zero]
  add_comm a b := by simp only [add_def, Nat.add_comm, Nat.max_comm]
  nsmul := nsmulRec

/-- Every total fits its counter. -/
structure Fits (s : Sums) : Prop where
  count : s.count < wordLimit
  successes : s.successes < wordLimit
  failures : s.failures < wordLimit
  nanos : s.nanos < durationLimit
  longest : s.longest < durationLimit
  documents : s.documents < wordLimit
  bytes : s.bytes < wordLimit
  iterations : s.iterations < wordLimit

/-- Whatever is added up fits, if the sum does. -/
theorem Fits.of_add {a b : Sums} (h : (a + b).Fits) : a.Fits := by
  rw [add_def] at h
  obtain ⟨hcount, hsuccesses, hfailures, hnanos, hlongest, hdocuments, hbytes, hiterations⟩ := h
  constructor <;> simp only at * <;> omega

end Sums

theorem Duration.nanos_max (a b : Duration) : (a.max b).nanos = Nat.max a.nanos b.nanos := by
  unfold Duration.max
  split
  · next hle => exact (Nat.max_eq_right hle).symm
  · next hlt => exact (Nat.max_eq_left (Nat.le_of_not_le hlt)).symm

namespace Stats

/-- The totals of an operation, as they are added up. -/
def sums (s : Stats) : Sums where
  count := s.count
  successes := s.successes
  failures := s.failures
  nanos := s.total.nanos
  longest := s.max.nanos
  documents := s.documents
  bytes := s.bytes
  iterations := s.iterations

@[simp] theorem sums_zero : zero.sums = 0 := by
  simp [sums, zero, Sums.zero_def]

theorem sums_injective : Function.Injective sums := by
  intro a b h
  obtain ⟨hcount, hsuccesses, hfailures, hnanos, hlongest, hdocuments, hbytes, hiterations⟩ :=
    Sums.ext_iff.1 h
  cases a
  cases b
  cases Duration.ext_nanos hnanos
  cases Duration.ext_nanos hlongest
  simp_all [sums]

/-- Totals that fit can be added. -/
theorem exists_add? {a b : Stats} (h : (a.sums + b.sums).Fits) : ∃ c, a.add? b = some c := by
  obtain ⟨hcount, hsuccesses, hfailures, hnanos, -, hdocuments, hbytes, hiterations⟩ := h
  simp only [Sums.add_def, sums] at hcount hsuccesses hfailures hnanos hdocuments hbytes hiterations
  simp only [add?, addWord?, Duration.add?, Duration.ofNanos?, hcount, hsuccesses, hfailures,
    hnanos, hdocuments, hbytes, hiterations, if_true, dif_pos, bind, Option.bind_some, pure]
  exact ⟨_, rfl⟩

/-- Totals are added one by one, and all of them have to fit. -/
theorem add?_eq_some_iff {a b c : Stats} :
    a.add? b = some c ↔ c.sums = a.sums + b.sums ∧ c.sums.Fits := by
  have hspec {c : Stats} (h : a.add? b = some c) : c.sums = a.sums + b.sums ∧ c.sums.Fits := by
    simp only [add?, bind, pure, Option.bind_eq_some_iff, addWord?_eq_some_iff, Option.some.injEq,
      Duration.add?_eq_some_iff] at h
    obtain ⟨count, ⟨rfl, hcount⟩, successes, ⟨rfl, hsuccesses⟩, failures, ⟨rfl, hfailures⟩, total,
      htotal, documents, ⟨rfl, hdocuments⟩, bytes, ⟨rfl, hbytes⟩, iterations, ⟨rfl, hiterations⟩,
      rfl⟩ := h
    refine ⟨?_, hcount, hsuccesses, hfailures, total.inRange, (a.max.max b.max).inRange, hdocuments,
      hbytes, hiterations⟩
    simp only [sums, Sums.add_def, htotal, Duration.nanos_max]
  refine ⟨hspec, ?_⟩
  rintro ⟨hsums, hfits⟩
  obtain ⟨c', hc'⟩ := exists_add? (hsums ▸ hfits)
  rw [hc', sums_injective (hsums.trans (hspec hc').1.symm)]

end Stats

/-! ### Ledgers -/

/-- Sums by operation.  An operation that never occurred has none, which is not the same as one
whose totals are zero. -/
abbrev Ledger := String → WithZero Sums

namespace Ledger

/-- Every sum in the ledger fits. -/
def Fits (l : Ledger) : Prop := ∀ k (s : Sums), l k = s → s.Fits

/-- The ledger of a single posting. -/
def posting (k : String) (s : Stats) : Ledger := Pi.single k (s.sums : WithZero Sums)

theorem Fits.of_add {l m : Ledger} (h : (l + m).Fits) : l.Fits := by
  intro k s hs
  rcases hm : m k with _ | x
  · refine h k s ?_
    rw [Pi.add_apply, hs, hm]
    exact add_zero _
  · refine (h k (s + x) ?_).of_add
    rw [Pi.add_apply, hs, hm]
    rfl

end Ledger

theorem SortedMap.nodup_entries {κ ν : Type} [LT κ] [LE κ] [Std.IsLinearOrder κ]
    [Std.LawfulOrderLT κ] (m : SortedMap κ ν) : m.entries.Nodup := by
  refine m.sorted.imp ?_
  rintro a b hlt rfl
  exact Std.lt_irrefl hlt

/-- Two maps with the same lookups are equal. -/
theorem SortedMap.ext_find? {κ ν : Type} [LT κ] [DecidableEq κ] [LE κ] [Std.IsLinearOrder κ]
    [Std.LawfulOrderLT κ] {m n : SortedMap κ ν} (h : ∀ k, m.find? k = n.find? k) : m = n := by
  have hperm : m.entries.Perm n.entries := by
    refine (List.perm_ext_iff_of_nodup m.nodup_entries n.nodup_entries).2 fun ⟨k, v⟩ => ?_
    rw [← find?_eq_some_iff, ← find?_eq_some_iff, h]
  have hentries : m.entries = n.entries := by
    refine hperm.eq_of_pairwise (fun a b _ _ hab hba => ?_) m.sorted n.sorted
    exact absurd (Std.lt_trans hab hba) Std.lt_irrefl
  cases m
  cases n
  cases hentries
  rfl

namespace Tally

/-- What a tally says, as it is added up. -/
def ledger (t : Tally) : Ledger := fun k => (t.find? k).elim 0 fun s => (s.sums : WithZero Sums)

/-- Every counter in a tally fits. -/
def Fits (t : Tally) : Prop := ∀ k s, t.find? k = some s → s.sums.Fits

theorem add?_eq_some_iff {t u : Tally} {k : String} {s : Stats} : t.add? k s = some u ↔
    ∃ sum, ((t.find? k).getD .zero).add? s = some sum ∧ t.insert k sum = u := by
  simp [add?, bind, pure, Option.bind_eq_some_iff]

@[simp] theorem ledger_empty : ledger .empty = 0 := rfl

theorem ledger_of_some {t : Tally} {k : String} {s : Stats} (h : t.find? k = some s) :
    t.ledger k = (s.sums : WithZero Sums) := by
  rw [ledger, h]
  rfl

theorem ledger_of_none {t : Tally} {k : String} (h : t.find? k = none) : t.ledger k = 0 := by
  rw [ledger, h]
  rfl

theorem ledger_eq_coe_iff {t : Tally} {k : String} {x : Sums} :
    t.ledger k = (x : WithZero Sums) ↔ ∃ s, t.find? k = some s ∧ s.sums = x := by
  cases h : t.find? k with
  | none => simp [ledger_of_none h]
  | some s => simp [ledger_of_some h]

theorem ledger_eq_zero_iff {t : Tally} {k : String} : t.ledger k = 0 ↔ t.find? k = none := by
  cases h : t.find? k with
  | none => simp [ledger_of_none h]
  | some s => simp [ledger_of_some h]

theorem fits_ledger_iff {t : Tally} : t.ledger.Fits ↔ t.Fits := by
  constructor
  · exact fun h k s hs => h k s.sums (ledger_of_some hs)
  · intro h k x hx
    obtain ⟨s, hs, rfl⟩ := ledger_eq_coe_iff.1 hx
    exact h k s hs

theorem ledger_injective : Function.Injective ledger := by
  intro t u h
  refine SortedMap.ext_find? fun k => ?_
  have hk := congrFun h k
  cases ht : t.find? k with
  | none =>
    cases hu : u.find? k with
    | none => rfl
    | some b => simp [ledger_of_none ht, ledger_of_some hu] at hk
  | some a =>
    rw [ledger_of_some ht] at hk
    obtain ⟨b, hb, hsums⟩ := ledger_eq_coe_iff.1 hk.symm
    rw [hb, Stats.sums_injective hsums]

/-- What a tally says with one more posting under a key. -/
theorem ledger_add_posting_self (t : Tally) (k : String) (s : Stats) :
    (t.ledger + Ledger.posting k s) k =
      ((((t.find? k).getD .zero).sums + s.sums : Sums) : WithZero Sums) := by
  rw [Pi.add_apply, Ledger.posting, Pi.single_eq_same, WithZero.coe_add]
  cases h : t.find? k with
  | none => rw [ledger_of_none h, zero_add, Option.getD_none, Stats.sums_zero, ← WithZero.coe_add,
      zero_add]
  | some a => rw [ledger_of_some h, Option.getD_some]

theorem ledger_add_posting_of_ne (t : Tally) {k k' : String} (h : k' ≠ k) (s : Stats) :
    (t.ledger + Ledger.posting k s) k' = t.ledger k' := by
  rw [Pi.add_apply, Ledger.posting, Pi.single_eq_of_ne h, add_zero]

/-- The ledger of a tally is the sum of its entries. -/
theorem ledger_eq_sum (t : Tally) :
    t.ledger = (t.entries.map fun e => Ledger.posting e.1 e.2).sum := by
  obtain ⟨es, hsorted⟩ := t
  induction es with
  | nil => rfl
  | cons e es ih =>
    obtain ⟨he, hes⟩ := List.pairwise_cons.1 hsorted
    rw [List.map_cons, List.sum_cons, ← ih hes, add_comm]
    funext k
    have hfind : SortedMap.find? ⟨e :: es, hsorted⟩ k =
        if e.1 = k then some e.2 else SortedMap.find? ⟨es, hes⟩ k := by
      simp only [SortedMap.find?, List.find?_cons]
      by_cases hk : e.1 = k <;> simp [hk]
    by_cases hk : e.1 = k
    · subst hk
      -- the keys that follow are greater
      have hnone : SortedMap.find? ⟨es, hes⟩ e.1 = none := by
        refine Option.eq_none_iff_forall_ne_some.2 fun s hs => ?_
        have hmem : (e.1, s) ∈ es := SortedMap.find?_eq_some_iff.1 hs
        exact String.lt_irrefl e.1 (he (e.1, s) hmem)
      rw [if_pos rfl] at hfind
      rw [ledger_add_posting_self, hnone, Option.getD_none, Stats.sums_zero, zero_add,
        ledger_of_some hfind]
    · rw [if_neg hk] at hfind
      rw [ledger_add_posting_of_ne _ (Ne.symm hk), ledger, hfind, ledger]

/-! ### Computations with a ledger -/

/-- What a computation yields is what the ledger says, and it yields something exactly if the ledger
fits. -/
def Balances (o : Option Tally) (l : Ledger) : Prop :=
  (∀ t, o = some t → t.ledger = l) ∧ (o.isSome ↔ l.Fits)

namespace Balances

variable {o o' : Option Tally} {l m : Ledger}

/-- **The ledger decides what is computed.** -/
theorem unique (h : Balances o l) (h' : Balances o' l) : o = o' := by
  have hsome : o.isSome ↔ o'.isSome := h.2.trans h'.2.symm
  cases o with
  | none => exact (Option.not_isSome_iff_eq_none.1 fun h => by simp [h] at hsome).symm
  | some t =>
    obtain ⟨u, rfl⟩ := Option.isSome_iff_exists.1 (hsome.1 rfl)
    rw [ledger_injective ((h.1 t rfl).trans (h'.1 u rfl).symm)]

theorem empty : Balances (some .empty) 0 := by
  refine ⟨?_, ?_⟩
  · rintro t ⟨⟩
    rfl
  · refine iff_of_true rfl fun k s hs => ?_
    cases hs

theorem of_fits {t : Tally} (ht : t.Fits) : Balances (some t) t.ledger := by
  refine ⟨?_, iff_of_true rfl (fits_ledger_iff.2 ht)⟩
  rintro u ⟨⟩
  rfl

theorem fits {t : Tally} (h : Balances (some t) l) : t.Fits :=
  fits_ledger_iff.1 (h.1 t rfl ▸ h.2.1 rfl)

/-- A computation that goes on with what is computed adds to the ledger. -/
theorem bind (h : Balances o l) {f : Tally → Option Tally}
    (hf : ∀ t : Tally, t.Fits → Balances (f t) (t.ledger + m)) : Balances (o.bind f) (l + m) := by
  cases o with
  | some t => exact h.1 t rfl ▸ hf t h.fits
  | none =>
    refine ⟨?_, iff_of_false (by simp) fun hfits => ?_⟩
    · rintro t ⟨⟩
    · exact absurd (h.2.2 hfits.of_add) (by simp)

/-- Totals added to a tally are one posting. -/
theorem add {t : Tally} (ht : t.Fits) (k : String) (s : Stats) :
    Balances (t.add? k s) (t.ledger + Ledger.posting k s) := by
  constructor
  · intro u hu
    obtain ⟨sum, hsum, rfl⟩ := add?_eq_some_iff.1 hu
    funext k'
    by_cases hk : k' = k
    · subst hk
      rw [ledger_add_posting_self, ← (Stats.add?_eq_some_iff.1 hsum).1]
      exact ledger_of_some (by rw [SortedMap.find?_insert, if_pos rfl])
    · rw [ledger_add_posting_of_ne t hk, ledger, ledger, SortedMap.find?_insert, if_neg hk]
  · rw [Option.isSome_iff_exists]
    constructor
    · rintro ⟨u, hu⟩ k' x hx
      obtain ⟨sum, hsum, -⟩ := add?_eq_some_iff.1 hu
      obtain ⟨heq, hfits⟩ := Stats.add?_eq_some_iff.1 hsum
      by_cases hk : k' = k
      · subst hk
        rw [ledger_add_posting_self, ← heq] at hx
        exact WithZero.coe_inj.1 hx ▸ hfits
      · rw [ledger_add_posting_of_ne t hk] at hx
        exact fits_ledger_iff.2 ht k' x hx
    · intro hfits
      obtain ⟨sum, hsum⟩ := Stats.exists_add? (hfits k _ (ledger_add_posting_self t k s))
      exact ⟨_, add?_eq_some_iff.2 ⟨sum, hsum, rfl⟩⟩

/-- Totals added one after the other are one posting each. -/
theorem post {β : Type} {key : β → String} {stats : β → Stats} (h : Balances o l) (es : List β) :
    Balances (o.bind fun t => es.foldlM (fun t e => t.add? (key e) (stats e)) t)
      (l + (es.map fun e => Ledger.posting (key e) (stats e)).sum) := by
  induction es generalizing o l with
  | nil => simpa using h
  | cons e es ih =>
    have hfirst : Balances (o.bind fun t => t.add? (key e) (stats e))
        (l + Ledger.posting (key e) (stats e)) := h.bind fun t ht => add ht _ _
    have hrest := ih hfirst
    rw [Option.bind_assoc, add_assoc] at hrest
    simpa only [List.foldlM_cons, List.map_cons, List.sum_cons, Option.bind_eq_bind] using hrest

/-- Merging adds the ledgers. -/
theorem merge (h : Balances o l) (h' : Balances o' m) :
    Balances (o.bind fun t => o'.bind fun u => t.merge? u) (l + m) := by
  refine h.bind fun t ht => ?_
  rw [add_comm]
  refine h'.bind fun u _ => ?_
  rw [add_comm, ledger_eq_sum u]
  exact (of_fits ht).post u.entries

end Balances

/-! ### Events -/

/-- The ledger of a list of events. -/
def ledgerOf (es : List Event) : Ledger := (es.map fun e => Ledger.posting e.key (.ofEvent e)).sum

@[simp] theorem ledgerOf_singleton (e : Event) :
    ledgerOf [e] = Ledger.posting e.key (.ofEvent e) := List.sum_singleton

theorem ledgerOf_append (es es' : List Event) :
    ledgerOf (es ++ es') = ledgerOf es + ledgerOf es' := by
  rw [ledgerOf, List.map_append, List.sum_append]
  rfl

/-- The order of events does not matter for their ledger. -/
theorem ledgerOf_perm {es es' : List Event} (h : es.Perm es') : ledgerOf es = ledgerOf es' :=
  (h.map _).sum_eq

/-- Counting events adds their ledger. -/
theorem Balances.consumeAll {o : Option Tally} {l : Ledger} (h : Balances o l) (es : List Event) :
    Balances (o.bind fun t => t.consumeAll? es) (l + ledgerOf es) := h.post es

theorem balances_ofEvents (es : List Event) : Balances (ofEvents? es) (ledgerOf es) := by
  have h := Balances.empty.consumeAll es
  rwa [zero_add] at h

/-- A way to count events in parts and to merge the parts. -/
inductive Plan where
  /-- Nothing yet. -/
  | empty
  | consume (p : Plan) (e : Event)
  | aggregate (p : Plan) (es : List Event)
  /-- Both parts are made on their own, and the second one is added to the first one. -/
  | merge (p q : Plan)

namespace Plan

/-- The events that are counted, in the order in which the parts stand. -/
def events : Plan → List Event
  | empty => []
  | consume p e => p.events ++ [e]
  | aggregate p es => p.events ++ es
  | merge p q => p.events ++ q.events

/-- The tally in the end, unless something overflows on the way. -/
def tally? : Plan → Option Tally
  | empty => some .empty
  | consume p e => p.tally?.bind fun t => t.consume? e
  | aggregate p es => p.tally?.bind fun t => t.consumeAll? es
  | merge p q => p.tally?.bind fun t => q.tally?.bind fun u => t.merge? u

/-- Whatever the plan, what is computed is what the ledger of its events says. -/
theorem balances (p : Plan) : Balances p.tally? (ledgerOf p.events) := by
  induction p with
  | empty => exact .empty
  | consume p e ih =>
    rw [events, ledgerOf_append, ledgerOf_singleton]
    exact ih.bind fun t ht => .add ht e.key (.ofEvent e)
  | aggregate p es ih =>
    rw [events, ledgerOf_append]
    exact ih.consumeAll es
  | merge p q ihp ihq =>
    rw [events, ledgerOf_append]
    exact ihp.merge ihq

end Plan

theorem balances_merge? {t u : Tally} (ht : t.Fits) (hu : u.Fits) :
    Balances (t.merge? u) (t.ledger + u.ledger) := (Balances.of_fits ht).merge (.of_fits hu)

/-- **Aggregation does not depend on the order.**  However events are permuted, split into parts and
merged again, the outcome is that of counting them one after the other: the same tally, or an
overflow in every case.  Merging any tallies, whether or not they come from events, is commutative
and associative, and merging with the empty tally changes nothing; where one side overflows, the
other one does as well. -/
theorem order_free :
    (∀ (es : List Event) (p : Plan), p.events.Perm es → p.tally? = ofEvents? es) ∧
      ∀ t u v : Tally, t.Fits → u.Fits → v.Fits →
        t.merge? u = u.merge? t ∧
        ((t.merge? u).bind fun w => w.merge? v) = ((u.merge? v).bind fun w => t.merge? w) ∧
        t.merge? .empty = some t ∧ merge? .empty t = some t := by
  constructor
  · intro es p hp
    exact p.balances.unique (ledgerOf_perm hp ▸ balances_ofEvents es)
  · intro t u v ht hu hv
    have hempty : Fits .empty := fun k s hs => by cases hs
    refine ⟨?_, ?_, rfl, ?_⟩
    · exact (balances_merge? ht hu).unique (add_comm t.ledger _ ▸ balances_merge? hu ht)
    · have hleft := (balances_merge? ht hu).merge (.of_fits hv)
      have hright := (Balances.of_fits ht).merge (balances_merge? hu hv)
      rw [add_assoc] at hleft
      exact hleft.unique hright
    · have h := balances_merge? hempty ht
      rw [ledger_empty, zero_add] at h
      exact h.unique (.of_fits ht)

/-- Totals that fit make a tally that fits. -/
theorem fits_insert {t : Tally} (ht : t.Fits) {k : String} {s : Stats} (hs : s.sums.Fits) :
    Fits (t.insert k s) := by
  intro k' s' h
  rw [SortedMap.find?_insert] at h
  by_cases hk : k' = k
  · rw [if_pos hk] at h
    exact Option.some.inj h ▸ hs
  · rw [if_neg hk] at h
    exact ht k' s' h

/-- A host that says hello for ten seconds. -/
def hello : Event := ⟨"Host", 0, "hello", some 0, 0, 10000000000, .success, 1, 13, 0⟩

/-- The host fails to say goodbye. -/
def goodbye : Event := ⟨"Host", 0, "goodbye", some 1, 10000000000, 11000000000, .failure, 0, 7, 1⟩

/-- A part with the goodbye, and one with two hellos that is added to it. -/
def goodbyeFirst : Plan := .merge (.consume .empty goodbye) (.aggregate .empty [hello, hello])

/-- One hello. -/
def once : Tally := .insert .empty "Host.hello" (.ofEvent hello)

/-- As many hellos as can be counted: one more overflows. -/
def countless : Tally :=
  .insert .empty "Host.hello" { Stats.ofEvent hello with count := wordLimit - 1 }

theorem order_free_goodbyeFirst :
    goodbyeFirst.events.Perm [hello, goodbye, hello] ∧
      goodbyeFirst.tally? = ofEvents? [hello, goodbye, hello] ∧
      once.Fits ∧ countless.Fits ∧ once.merge? countless = countless.merge? once ∧
      merge? .empty countless = some countless := by
  have hperm : goodbyeFirst.events.Perm [hello, goodbye, hello] := .swap ..
  have hempty : Fits .empty := fun k s hs => by cases hs
  have honce : once.Fits := fits_insert hempty (by constructor <;> decide)
  have hcountless : countless.Fits := fits_insert hempty (by constructor <;> decide)
  obtain ⟨hcomm, -, -, -⟩ := order_free.2 once countless .empty honce hcountless hempty
  obtain ⟨-, -, -, hzero⟩ := order_free.2 countless once .empty hcountless honce hempty
  exact ⟨hperm, order_free.1 _ goodbyeFirst hperm, honce, hcountless, hcomm, hzero⟩

end Tally

end Lockstep
