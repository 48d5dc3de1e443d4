import Lockstep.Proofs.Greetings
import Lockstep.Proofs.TallyJson
import Lockstep.Proofs.Yielding

/-!
# How a schedule is resolved

The entries of a block select phases, one after the other, and each selection may be at fault: its
selector cannot be read or selects too many phases, its phase has been selected before, or the keys
of its entry do not go together.

* `Block.selections` : all that the entries of a block select, in the order of the document;
* `PhaseItem.IsLegal` and `PhaseItem.Complains` : the keys of an entry go together, or what is said
  of them otherwise;
* `PhaseItem.Yields` : what the plan of one phase of an entry looks like;
* `Selection.Offends` : what is wrong with a selection, given the phases that are taken;
* `Schedule.resolution` : **a schedule comes about exactly if no selection offends**, with one plan
  and one limiter of its own for each phase that is selected; otherwise the error is that of the
  first selection that does.
-/

namespace Lockstep

open Toml

theorem Toml.Table.ascending_sorted (t : Table) : t.sorted.Pairwise fun a b => a.1 ≤ b.1 := by
  refine (List.pairwise_mergeSort ?_ ?_ t).imp fun h => of_decide_eq_true h
  · intro a b c hab hbc
    exact decide_eq_true (Std.le_trans (of_decide_eq_true hab) (of_decide_eq_true hbc))
  · intro a b
    simpa using Std.le_total (a := a.1) (b := b.1)

/-! ### Entries -/

namespace PhaseItem

/-- The keys of an entry go together: nothing is asked of an entry without work, and one with work
says `None` or nothing about blocking, and how often the work is repeated; only where the phase does
not wait for the actor may that be left open. -/
def IsLegal (e : PhaseItem) : Prop :=
  e.nop = true ∨
    (e.blocking = none ∨ e.blocking = some "None") ∧
    (e.untilSignaled = true → e.repeats = none ∧ e.duration = none) ∧
    (e.blocking = none → e.repeats.isSome ∨ e.duration.isSome ∨ e.untilSignaled = true)

/-- What is said of an entry with work whose keys do not go together. -/
inductive Complains (e : PhaseItem) : String → Prop where
  | blocking {text : String} (hwork : e.nop = false) (h : e.blocking = some text)
      (hne : text ≠ "None") : Complains e ("Blocking only accepts \"None\", got \"" ++ text ++ "\"")
  | aimless (hwork : e.nop = false) (h : e.blocking = none) (hrepeats : e.repeats = none)
      (hduration : e.duration = none) (hsignal : e.untilSignaled = false) :
      Complains e "a blocking phase needs Repeat, Duration or UntilSignaled"
  | mixed (hwork : e.nop = false) (h : e.blocking = none ∨ e.blocking = some "None")
      (hsignal : e.untilSignaled = true) (hother : e.repeats.isSome ∨ e.duration.isSome) :
      Complains e "UntilSignaled cannot be combined with Repeat or Duration"

/-- How often the work of an entry is to be repeated. -/
def aim (e : PhaseItem) : Policy :=
  if e.untilSignaled then .untilSignaled
  else
    match e.repeats, e.duration with
    | some n, none => .count n
    | none, some d => .time d
    | some n, some d => .countAndTime n d
    | none, none => .unbounded

/-- The plan of phase `k` is as the entry wants it: with the policy, the pauses and the rate of the
entry, of which there are none without work, and with the parameters of the entry put over those of
the block. -/
structure Yields (e : PhaseItem) (base : Table) (k : Nat) (plan : PhasePlan) : Prop where
  number : plan.number = k
  nop : plan.nop = e.nop
  blocking : plan.blocking = (!e.nop && e.blocking.isNone)
  policy : plan.policy = if e.nop then .count 0 else e.aim
  sleepBefore : plan.sleepBefore = if e.nop then none else e.sleepBefore
  sleepAfter : plan.sleepAfter = if e.nop then none else e.sleepAfter
  rate : plan.rate = if e.nop then none else e.globalRate
  params : base.IsKeyed → e.params.IsKeyed →
    ∀ key, plan.params.find? key = (e.params.find? key).or (base.find? key)
  ascending : plan.params.Pairwise fun a b => a.1 ≤ b.1

theorem isLegal_iff {e : PhaseItem} : e.IsLegal ↔ ∀ reason, ¬ e.Complains reason := by
  constructor
  · intro hlegal reason h
    cases h <;> simp_all [IsLegal]
  · intro h
    by_cases hnop : e.nop = true
    · exact .inl hnop
    · have hwork : e.nop = false := by simpa using hnop
      have hblocking : e.blocking = none ∨ e.blocking = some "None" := by
        cases hb : e.blocking with
        | none => exact .inl rfl
        | some text =>
          by_cases hne : text = "None"
          · exact .inr (by rw [hne])
          · exact absurd (.blocking hwork hb hne) (h _)
      refine .inr ⟨hblocking, fun hsignal => ?_, fun hb => ?_⟩
      · by_contra hother
        refine h _ (.mixed hwork hblocking hsignal ?_)
        rw [Option.isSome_iff_ne_none, Option.isSome_iff_ne_none]
        tauto
      · by_contra hnothing
        rw [not_or, not_or, Option.not_isSome_iff_eq_none, Option.not_isSome_iff_eq_none,
          Bool.not_eq_true] at hnothing
        exact h _ (.aimless hwork hb hnothing.1 hnothing.2.1 hnothing.2.2)

/-- A phase that others wait for does not go on without end. -/
theorem Yields.bounded {e : PhaseItem} {base : Table} {k : Nat} {plan : PhasePlan}
    (h : e.Yields base k plan) (hlegal : e.IsLegal) (hblocking : plan.blocking = true) :
    plan.policy ≠ .unbounded := by
  rw [h.blocking, Bool.and_eq_true, Bool.not_eq_true', Option.isNone_iff_eq_none] at hblocking
  obtain ⟨hwork, hb⟩ := hblocking
  rw [h.policy, hwork, if_neg Bool.false_ne_true]
  rcases hlegal with hnop | ⟨-, -, haim⟩
  · rw [hwork] at hnop
    cases hnop
  · unfold aim
    rcases haim hb with hr | hd | hsignal
    · obtain ⟨n, hr⟩ := Option.isSome_iff_exists.1 hr
      cases e.untilSignaled <;> cases hd : e.duration <;> simp [hr]
    · obtain ⟨d, hd⟩ := Option.isSome_iff_exists.1 hd
      cases e.untilSignaled <;> cases hr : e.repeats <;> simp [hd]
    · simp [hsignal]

end PhaseItem

namespace PhasePlan

variable {actor : String} {k : Nat} {e : PhaseItem} {base : Table}

theorem ofEntry_of_complains {reason : String} (h : e.Complains reason) :
    ofEntry actor k e base = .error (.invalidPhase actor k reason) := by
  cases h with
  | blocking hwork hb hne => simp [ofEntry, hwork, blockingOf, hb, hne, bind, Except.bind]; rfl
  | aimless hwork hb hrepeats hduration hsignal =>
    simp [ofEntry, hwork, blockingOf, hb, policyOf, hrepeats, hduration, hsignal, bind, Except.bind]
    rfl
  | mixed hwork hb hsignal hother =>
    obtain ⟨blocking, hblocking⟩ : ∃ blocking, blockingOf e = .ok blocking := by
      rcases hb with hb | hb
      · exact ⟨true, by simp [blockingOf, hb]⟩
      · exact ⟨false, by simp [blockingOf, hb]⟩
    have hpolicy : policyOf e blocking =
        .error "UntilSignaled cannot be combined with Repeat or Duration" := by
      cases hr : e.repeats <;> cases hd : e.duration <;> simp_all [policyOf]
    simp [ofEntry, hwork, hblocking, hpolicy, bind, Except.bind]
    rfl

/-- A legal entry says when its phases are over, unless they are open as long as others want. -/
theorem policyOf_of_isLegal (hwork : e.nop = false) (h : e.IsLegal) :
    policyOf e e.blocking.isNone = .ok e.aim := by
  rcases h with hnop | ⟨-, hsignal, haim⟩
  · rw [hwork] at hnop
    cases hnop
  · unfold policyOf PhaseItem.aim
    cases hu : e.untilSignaled with
    | true =>
      obtain ⟨hr, hd⟩ := hsignal hu
      simp [hr, hd]
    | false =>
      cases hr : e.repeats <;> cases hd : e.duration <;> simp_all

variable (actor k base) in
theorem ofEntry_of_isLegal (h : e.IsLegal) :
    ∃ plan, ofEntry actor k e base = .ok plan ∧ e.Yields base k plan := by
  have hparams (hbase : base.IsKeyed) (he : e.params.IsKeyed) (key : String) :
      (Table.sorted (base.overlay e.params)).find? key =
        (e.params.find? key).or (base.find? key) := by
    rw [← Table.find?_overlay he]
    exact Table.find?_perm (List.mergeSort_perm _ _).symm (hbase.overlay _) key
  by_cases hnop : e.nop = true
  · refine ⟨idle k (Table.sorted (base.overlay e.params)), ?_, ?_⟩
    · rw [ofEntry, if_pos hnop]
    · constructor <;> simp [idle, hnop, Table.ascending_sorted]
      exact hparams
  · have hwork : e.nop = false := by simpa using hnop
    have hblocking : blockingOf e = .ok e.blocking.isNone := by
      rcases h.resolve_left hnop with ⟨hb | hb, -⟩ <;> simp [blockingOf, hb]
    have hpolicy := policyOf_of_isLegal hwork h
    refine ⟨⟨k, e.aim, e.blocking.isNone, false, e.sleepBefore, e.sleepAfter, e.globalRate,
      Table.sorted (base.overlay e.params)⟩, ?_, ?_⟩
    · simp [ofEntry, hwork, hblocking, hpolicy, bind, Except.bind, pure, Except.pure]
      rfl
    · constructor <;> simp [hwork, Table.ascending_sorted]
      exact hparams

theorem ofEntry_eq_error_iff {cause : ConfigError} : ofEntry actor k e base = .error cause ↔
    ∃ reason, e.Complains reason ∧ cause = .invalidPhase actor k reason := by
  constructor
  · intro h
    by_cases hlegal : e.IsLegal
    · obtain ⟨plan, hplan, -⟩ := ofEntry_of_isLegal actor k base hlegal
      rw [hplan] at h
      cases h
    · rw [PhaseItem.isLegal_iff, not_forall] at hlegal
      obtain ⟨reason, hreason⟩ := hlegal
      rw [not_not] at hreason
      rw [ofEntry_of_complains hreason] at h
      cases h
      exact ⟨reason, hreason, rfl⟩
  · rintro ⟨reason, hreason, rfl⟩
    exact ofEntry_of_complains hreason

theorem yields_of_ofEntry {plan : PhasePlan} (h : ofEntry actor k e base = .ok plan) :
    e.Yields base k plan := by
  have hlegal : e.IsLegal := by
    refine PhaseItem.isLegal_iff.2 fun reason hreason => ?_
    rw [ofEntry_of_complains hreason] at h
    cases h
  obtain ⟨plan', hplan, hyields⟩ := ofEntry_of_isLegal actor k base hlegal
  rw [h] at hplan
  cases hplan
  exact hyields

end PhasePlan

/-! ### Selections -/

/-- One phase that an entry selects, or else what is wrong with the selector of the entry. -/
structure Selection where
  entry : PhaseItem
  /-- The position of the entry. -/
  index : Nat
  number : Except (OrPanic RangeFault) Nat

/-- The phases that an entry at a position selects. -/
def PhaseItem.selected (e : PhaseItem) (index : Nat) : Except (OrPanic RangeFault) (List Nat) :=
  match e.phase with
  | none => .ok [index]
  | some selector => selector.phases

/-- What an entry at a position selects, one phase after the other. -/
def PhaseItem.selections (e : PhaseItem) (index : Nat) : List Selection :=
  match e.selected index with
  | .ok numbers => numbers.map fun k => ⟨e, index, .ok k⟩
  | .error fault => [⟨e, index, .error fault⟩]

/-- All that the entries of a block select, in the order of the document. -/
def Block.selections (b : Block) : List Selection :=
  b.phases.zipIdx.flatMap fun item => item.1.selections item.2

namespace Selection

/-- The phases that are selected. -/
def numbers (xs : List Selection) : List Nat := xs.filterMap fun x => x.number.toOption

/-- What is wrong with a selection when some phases are taken. -/
inductive Offends (actor : String) (taken : List Nat) (x : Selection) :
    OrPanic ConfigError → Prop where
  | selector {fault : RangeFault} (h : x.number = .error (.error fault)) :
      Offends actor taken x (.error (.invalidPhase actor x.index fault.message))
  /-- It selects more phases than can be listed. -/
  | endless (h : x.number = .error .panicked) : Offends actor taken x .panicked
  | twice {k : Nat} (h : x.number = .ok k) (hk : k ∈ taken) :
      Offends actor taken x (.error (.duplicatePhase actor k))
  | keys {k : Nat} {reason : String} (h : x.number = .ok k) (hk : k ∉ taken)
      (hreason : x.entry.Complains reason) :
      Offends actor taken x (.error (.invalidPhase actor k reason))

/-- Nothing is wrong with any of the selections, each of which takes its phase. -/
def Clean (actor : String) (xs : List Selection) : Prop :=
  ∀ before x after, xs = before ++ x :: after → ∀ cause, ¬ x.Offends actor (numbers before) cause

/-- The first selection at fault, and what is wrong with it. -/
def FirstOffence (actor : String) (xs : List Selection) (cause : OrPanic ConfigError) : Prop :=
  ∃ before x after, xs = before ++ x :: after ∧ Clean actor before ∧
    x.Offends actor (numbers before) cause

variable {actor : String} {xs : List Selection} {x : Selection} {cause : OrPanic ConfigError}

/-- A selector at fault is so whatever phases are taken. -/
theorem offends_of_error {taken : List Nat} {fault : OrPanic RangeFault}
    (h : x.number = .error fault) : x.Offends actor taken cause ↔
      cause = fault.map fun fault => .invalidPhase actor x.index fault.message := by
  constructor
  · intro ho
    cases ho with
    | selector h' => rw [h'] at h; cases h; rfl
    | endless h' => rw [h'] at h; cases h; rfl
    | twice h' _ => rw [h'] at h; cases h
    | keys h' _ _ => rw [h'] at h; cases h
  · rintro rfl
    cases fault with
    | error fault => exact .selector h
    | panicked => exact .endless h

theorem numbers_append (xs ys : List Selection) : numbers (xs ++ ys) = numbers xs ++ numbers ys :=
  List.filterMap_append

theorem clean_nil : Clean actor [] := by
  intro before x after h
  simp at h

theorem clean_snoc_iff : Clean actor (xs ++ [x]) ↔
    Clean actor xs ∧ ∀ cause, ¬ x.Offends actor (numbers xs) cause := by
  constructor
  · intro h
    refine ⟨fun before y after hxs => ?_, h xs x [] rfl⟩
    exact h before y (after ++ [x]) (by rw [hxs]; simp)
  · rintro ⟨hxs, hx⟩ before y after h
    -- the selection in question is the last one, or one of those before it
    rcases List.eq_nil_or_concat after with rfl | ⟨after', z, rfl⟩
    · obtain ⟨rfl, hy⟩ := List.append_inj' h rfl
      cases hy
      exact hx
    · rw [List.concat_eq_append, ← List.cons_append, ← List.append_assoc] at h
      obtain ⟨rfl, -⟩ := List.append_inj' h rfl
      exact hxs before y after' rfl

theorem FirstOffence.append (h : FirstOffence actor xs cause) (ys : List Selection) :
    FirstOffence actor (xs ++ ys) cause := by
  obtain ⟨before, x, after, rfl, hclean, hx⟩ := h
  exact ⟨before, x, after ++ ys, by simp, hclean, hx⟩

/-- Nothing is wrong exactly if all selectors can be read, no phase is selected twice, and the keys
of every entry go together. -/
theorem clean_iff : Clean actor xs ↔
    (∀ x ∈ xs, ∃ k, x.number = .ok k) ∧ (numbers xs).Nodup ∧ ∀ x ∈ xs, x.entry.IsLegal := by
  induction xs using List.reverseRecOn with
  | nil => simp [clean_nil, numbers]
  | append_singleton xs x ih =>
    have hx : (∀ cause, ¬ x.Offends actor (numbers xs) cause) ↔
        ∃ k, x.number = .ok k ∧ k ∉ numbers xs ∧ x.entry.IsLegal := by
      constructor
      · intro h
        cases hnumber : x.number with
        | error fault => exact absurd ((offends_of_error hnumber).2 rfl) (h _)
        | ok k =>
          have hk : k ∉ numbers xs := fun hk => h _ (.twice hnumber hk)
          refine ⟨k, rfl, hk, PhaseItem.isLegal_iff.2 fun reason hreason => ?_⟩
          exact h _ (.keys hnumber hk hreason)
      · rintro ⟨k, hnumber, hk, hlegal⟩ cause h
        cases h with
        | selector h => rw [hnumber] at h; cases h
        | endless h => rw [hnumber] at h; cases h
        | twice h hmem => rw [hnumber] at h; cases h; exact hk hmem
        | keys h _ hreason => exact PhaseItem.isLegal_iff.1 hlegal _ hreason
    rw [clean_snoc_iff, ih, hx, numbers_append, List.nodup_append, List.forall_mem_append,
      List.forall_mem_append, List.forall_mem_singleton, List.forall_mem_singleton]
    constructor
    · rintro ⟨⟨hread, hnodup, hlegal⟩, k, hnumber, hk, hx⟩
      have hlast : numbers [x] = [k] := by simp [numbers, hnumber, Except.toOption]
      refine ⟨⟨hread, k, hnumber⟩, ⟨hnodup, ?_, ?_⟩, hlegal, hx⟩
      · rw [hlast]
        exact List.nodup_singleton k
      · rw [hlast]
        rintro j hj j' hj' rfl
        exact hk (List.mem_singleton.1 hj' ▸ hj)
    · rintro ⟨⟨hread, k, hnumber⟩, ⟨hnodup, -, hapart⟩, hlegal, hx⟩
      have hlast : numbers [x] = [k] := by simp [numbers, hnumber, Except.toOption]
      rw [hlast] at hapart
      exact ⟨⟨hread, hnodup, hlegal⟩, k, hnumber,
        fun hk => hapart k hk k (List.mem_singleton_self k) rfl, hx⟩

end Selection

/-- The numbers of a selector are read as at least one phase. -/
theorem Selector.phases_ne_nil {selector : Selector} {numbers : List Nat}
    (h : selector.phases = .ok numbers) : numbers ≠ [] := by
  unfold phases at h
  split at h
  · cases h
    exact List.cons_ne_nil _ _
  · split at h
    · cases h
    · split at h
      · cases h
      · next lo hi _ hle =>
        split at h
        · cases h
          rw [Ne, List.range'_eq_nil_iff]
          omega
        · cases h

namespace Block

variable {b : Block} {e : PhaseItem} {index k : Nat}

/-- An entry of the block selects this phase. -/
def Selects (b : Block) (e : PhaseItem) (k : Nat) : Prop :=
  ∃ index numbers, (e, index) ∈ b.phases.zipIdx ∧ e.selected index = .ok numbers ∧ k ∈ numbers

/-- The selector of every entry can be read, and what it selects can be listed. -/
def IsReadable (b : Block) : Prop :=
  ∀ e index, (e, index) ∈ b.phases.zipIdx → ∃ numbers, e.selected index = .ok numbers

theorem mem_selections {x : Selection} :
    x ∈ b.selections ↔ ∃ item ∈ b.phases.zipIdx, x ∈ item.1.selections item.2 :=
  List.mem_flatMap

theorem selects_iff : b.Selects e k ↔ ∃ x ∈ b.selections, x.entry = e ∧ x.number = .ok k := by
  constructor
  · rintro ⟨index, numbers, hmem, hselected, hk⟩
    refine ⟨⟨e, index, .ok k⟩, mem_selections.2 ⟨_, hmem, ?_⟩, rfl, rfl⟩
    simp [PhaseItem.selections, hselected, hk]
  · rintro ⟨x, hx, rfl, hnumber⟩
    obtain ⟨⟨e, index⟩, hmem, hx⟩ := mem_selections.1 hx
    unfold PhaseItem.selections at hx
    split at hx
    · next numbers hselected =>
      obtain ⟨j, hj, rfl⟩ := List.mem_map.1 hx
      cases hnumber
      exact ⟨index, numbers, hmem, hselected, hj⟩
    · next fault hselected =>
      rw [List.mem_singleton.1 hx] at hnumber
      cases hnumber

theorem mem_numbers_selections :
    k ∈ Selection.numbers b.selections ↔ ∃ e, b.Selects e k := by
  simp only [Selection.numbers, List.mem_filterMap, selects_iff]
  constructor
  · rintro ⟨x, hx, hk⟩
    refine ⟨x.entry, x, hx, rfl, ?_⟩
    cases hnumber : x.number with
    | error fault => rw [hnumber] at hk; cases hk
    | ok j => rw [hnumber] at hk; cases hk; rfl
  · rintro ⟨e, x, hx, -, hnumber⟩
    exact ⟨x, hx, by rw [hnumber]; rfl⟩

/-- Only an entry with a range that is too long selects more than can be listed. -/
theorem exists_of_endless {x : Selection} (hx : x ∈ b.selections)
    (h : x.number = .error .panicked) :
    ∃ e ∈ b.phases, ∃ selector, e.phase = some selector ∧ selector.phases = .error .panicked := by
  obtain ⟨⟨e, index⟩, hmem, hx⟩ := mem_selections.1 hx
  unfold PhaseItem.selections at hx
  split at hx
  · obtain ⟨k, -, rfl⟩ := List.mem_map.1 hx
    cases h
  · next fault hselected =>
    rw [List.mem_singleton.1 hx] at h
    cases h
    refine ⟨e, List.fst_mem_of_mem_zipIdx hmem, ?_⟩
    unfold PhaseItem.selected at hselected
    split at hselected
    · cases hselected
    · next selector hphase => exact ⟨selector, hphase, hselected⟩

/-- Every entry has a selection, which may be at fault. -/
theorem exists_selection (h : (e, index) ∈ b.phases.zipIdx) :
    ∃ x ∈ b.selections, x.entry = e ∧
      ((∃ fault, e.selected index = .error fault) → ∃ fault, x.number = .error fault) := by
  cases hselected : e.selected index with
  | error fault =>
    refine ⟨⟨e, index, .error fault⟩, mem_selections.2 ⟨_, h, ?_⟩, rfl, fun _ => ⟨fault, rfl⟩⟩
    simp [PhaseItem.selections, hselected]
  | ok numbers =>
    have hne : numbers ≠ [] := by
      unfold PhaseItem.selected at hselected
      split at hselected
      · cases hselected
        exact List.cons_ne_nil _ _
      · exact Selector.phases_ne_nil hselected
    obtain ⟨k, hk⟩ := List.exists_mem_of_ne_nil numbers hne
    refine ⟨⟨e, index, .ok k⟩, mem_selections.2 ⟨_, h, ?_⟩, rfl, ?_⟩
    · simp [PhaseItem.selections, hselected, hk]
    · rintro ⟨fault, ⟨⟩⟩

/-- Nothing is wrong with a block exactly if all selectors can be read, no phase is selected twice,
and the keys of every entry go together. -/
theorem clean_selections_iff {actor : String} : Selection.Clean actor b.selections ↔
    b.IsReadable ∧ (Selection.numbers b.selections).Nodup ∧ ∀ e ∈ b.phases, e.IsLegal := by
  rw [Selection.clean_iff]
  constructor
  · rintro ⟨hread, hnodup, hlegal⟩
    refine ⟨fun e index h => ?_, hnodup, fun e he => ?_⟩
    · obtain ⟨x, hx, -, hfault⟩ := exists_selection h
      cases hselected : e.selected index with
      | ok numbers => exact ⟨numbers, rfl⟩
      | error fault =>
        obtain ⟨fault', hx'⟩ := hfault ⟨fault, hselected⟩
        obtain ⟨k, hk⟩ := hread x hx
        rw [hx'] at hk
        cases hk
    · obtain ⟨index, hindex⟩ := List.getElem?_of_mem he
      obtain ⟨x, hx, rfl, -⟩ := exists_selection (List.mk_mem_zipIdx_iff_getElem?.2 hindex)
      exact hlegal x hx
  · rintro ⟨hread, hnodup, hlegal⟩
    refine ⟨fun x hx => ?_, hnodup, fun x hx => ?_⟩
    · obtain ⟨⟨e, index⟩, hmem, hx⟩ := mem_selections.1 hx
      obtain ⟨numbers, hselected⟩ := hread e index hmem
      simp only [PhaseItem.selections, hselected] at hx
      obtain ⟨k, -, rfl⟩ := List.mem_map.1 hx
      exact ⟨k, rfl⟩
    · obtain ⟨⟨e, index⟩, hmem, hx⟩ := mem_selections.1 hx
      have hentry : x.entry = e := by
        unfold PhaseItem.selections at hx
        split at hx
        · obtain ⟨k, -, rfl⟩ := List.mem_map.1 hx
          rfl
        · rw [List.mem_singleton.1 hx]
      rw [hentry]
      exact hlegal e (List.fst_mem_of_mem_zipIdx hmem)

end Block

/-! ### Schedules -/

namespace Schedule

variable {actor : String} {base : Table} {b : Block} {s s' : Schedule} {xs : List Selection}
  {x : Selection} {cause : OrPanic ConfigError} {k : Nat}

/-- The schedule with the phase that is selected. -/
def take (actor : String) (base : Table) (s : Schedule) (x : Selection) :
    Except (OrPanic ConfigError) Schedule :=
  match x.number with
  | .ok k => add actor base x.entry s k
  | .error fault => .error (fault.map fun fault => .invalidPhase actor x.index fault.message)

/-- The schedule of a block comes about selection by selection. -/
theorem ofBlock_eq_foldlM (actor : String) (b : Block) :
    ofBlock actor b = b.selections.foldlM (take actor b.params) SortedMap.empty := by
  unfold ofBlock Block.selections
  generalize (SortedMap.empty : Schedule) = s
  induction b.phases.zipIdx generalizing s with
  | nil => rfl
  | cons item items ih =>
    have hitem : (item.1.selections item.2).foldlM (take actor b.params) s = (do
        let numbers ← phasesOf actor item.2 item.1
        numbers.foldlM (add actor b.params item.1) s) := by
      unfold PhaseItem.selections phasesOf PhaseItem.selected
      cases item.1.phase with
      | none => simp [take, bind, Except.bind]
      | some selector =>
        cases hphases : selector.phases with
        | error fault => simp [hphases, take, bind, Except.bind, Except.mapError]
        | ok numbers =>
          simp [hphases, List.foldlM_map, take, bind, Except.bind, Except.mapError]
    rw [List.foldlM_cons, List.flatMap_cons, List.foldlM_append, hitem]
    exact congrArg _ (funext ih)

/-- The schedule has a plan for each of the phases that are selected, and no other ones. -/
structure Resolves (base : Table) (xs : List Selection) (s : Schedule) : Prop where
  contains : ∀ k, s.contains k = true ↔ k ∈ Selection.numbers xs
  yields : ∀ x ∈ xs, ∀ k, x.number = .ok k →
    ∃ plan, s.find? k = some plan ∧ x.entry.Yields base k plan

theorem resolves_empty : Resolves base [] .empty where
  contains k := by simp [SortedMap.contains, Selection.numbers]
  yields x hx := by cases hx

/-- A selection is refused exactly if something is wrong with it. -/
theorem Resolves.take_eq_error_iff (hs : s.Resolves base xs) :
    take actor base s x = .error cause ↔ x.Offends actor (Selection.numbers xs) cause := by
  cases hnumber : x.number with
  | error fault =>
    rw [Selection.offends_of_error hnumber]
    simp only [take, hnumber, Except.error.injEq, eq_comm]
  | ok k =>
    simp only [take, hnumber]
    by_cases hk : k ∈ Selection.numbers xs
    · rw [add, if_pos ((hs.contains k).2 hk), Except.error.injEq]
      constructor
      · rintro rfl
        exact .twice hnumber hk
      · intro h
        cases h with
        | selector h => rw [hnumber] at h; cases h
        | endless h => rw [hnumber] at h; cases h
        | twice h _ => rw [hnumber] at h; cases h; rfl
        | keys h hnew _ => rw [hnumber] at h; cases h; exact absurd hk hnew
    · have hadd : add actor base x.entry s k = .error cause ↔ ∃ cause',
          PhasePlan.ofEntry actor k x.entry base = .error cause' ∧ cause = .error cause' := by
        rw [add, if_neg (fun h => hk ((hs.contains k).1 h))]
        cases PhasePlan.ofEntry actor k x.entry base <;>
          simp [bind, Except.bind, pure, Except.pure, Except.mapError, eq_comm]
      simp only [hadd, PhasePlan.ofEntry_eq_error_iff]
      constructor
      · rintro ⟨_, ⟨reason, hreason, rfl⟩, rfl⟩
        exact .keys hnumber hk hreason
      · intro h
        cases h with
        | selector h => rw [hnumber] at h; cases h
        | endless h => rw [hnumber] at h; cases h
        | twice h hmem => rw [hnumber] at h; cases h; exact absurd hmem hk
        | keys h _ hreason => rw [hnumber] at h; cases h; exact ⟨_, ⟨_, hreason, rfl⟩, rfl⟩

theorem Resolves.take (hs : s.Resolves base xs) (h : take actor base s x = .ok s') :
    s'.Resolves base (xs ++ [x]) := by
  unfold Schedule.take at h
  split at h
  · next k hnumber =>
    obtain ⟨plan, hplan, hnew, rfl⟩ := add_eq_ok h
    have hyields := PhasePlan.yields_of_ofEntry hplan
    have hlast : Selection.numbers [x] = [k] := by
      simp [Selection.numbers, hnumber, Except.toOption]
    constructor
    · intro j
      rw [Selection.numbers_append, hlast, List.mem_append, List.mem_singleton, ← hs.contains,
        SortedMap.contains, SortedMap.find?_insert, SortedMap.contains]
      by_cases hj : j = k
      · simp [hj]
      · simp [hj]
    · intro y hy j hj
      rw [SortedMap.find?_insert]
      rcases List.mem_append.1 hy with hy | hy
      · obtain ⟨plan', hfind, hyields'⟩ := hs.yields y hy j hj
        refine ⟨plan', ?_, hyields'⟩
        rw [if_neg, hfind]
        rintro rfl
        rw [hnew] at hfind
        cases hfind
      · obtain rfl := List.mem_singleton.1 hy
        rw [hnumber] at hj
        cases hj
        exact ⟨plan, if_pos rfl, hyields⟩
  · cases h

variable (base) in
/-- As long as nothing is wrong a schedule comes about. -/
theorem exists_resolves (h : Selection.Clean actor xs) :
    ∃ s, xs.foldlM (take actor base) SortedMap.empty = .ok s ∧ s.Resolves base xs := by
  induction xs using List.reverseRecOn with
  | nil => exact ⟨_, rfl, resolves_empty⟩
  | append_singleton xs x ih =>
    obtain ⟨hclean, hx⟩ := Selection.clean_snoc_iff.1 h
    obtain ⟨s, hfold, hs⟩ := ih hclean
    rw [List.foldlM_append, hfold]
    cases htake : take actor base s x with
    | error cause => exact absurd (hs.take_eq_error_iff.1 htake) (hx cause)
    | ok s' => exact ⟨s', by simp [bind, Except.bind, htake, pure, Except.pure], hs.take htake⟩

/-- What is wrong first is the error. -/
theorem foldlM_of_firstOffence (h : Selection.FirstOffence actor xs cause) :
    xs.foldlM (take actor base) SortedMap.empty = .error cause := by
  obtain ⟨before, x, after, rfl, hclean, hx⟩ := h
  obtain ⟨s, hfold, hs⟩ := exists_resolves base hclean
  rw [List.foldlM_append, hfold]
  simp [bind, Except.bind, hs.take_eq_error_iff.2 hx]

end Schedule

/-- Either nothing is wrong, or something is wrong first. -/
theorem Selection.clean_or_exists (actor : String) (xs : List Selection) :
    Clean actor xs ∨ ∃ cause, FirstOffence actor xs cause := by
  induction xs using List.reverseRecOn with
  | nil => exact .inl clean_nil
  | append_singleton xs x ih =>
    rcases ih with hclean | ⟨cause, hfirst⟩
    · by_cases hx : ∀ cause, ¬ x.Offends actor (numbers xs) cause
      · exact .inl (clean_snoc_iff.2 ⟨hclean, hx⟩)
      · simp only [not_forall, not_not] at hx
        obtain ⟨cause, hx⟩ := hx
        exact .inr ⟨cause, xs, x, [], rfl, hclean, hx⟩
    · exact .inr ⟨cause, hfirst.append [x]⟩

namespace Schedule

variable {actor : String} {b : Block} {s : Schedule} {cause : OrPanic ConfigError}

theorem exists_ofBlock_iff : (∃ s, ofBlock actor b = .ok s) ↔ Selection.Clean actor b.selections := by
  rw [ofBlock_eq_foldlM]
  constructor
  · rintro ⟨s, hs⟩
    rcases Selection.clean_or_exists actor b.selections with hclean | ⟨cause, hfirst⟩
    · exact hclean
    · rw [foldlM_of_firstOffence hfirst] at hs
      cases hs
  · intro hclean
    obtain ⟨s, hs, -⟩ := exists_resolves b.params hclean
    exact ⟨s, hs⟩

theorem resolves_ofBlock (h : ofBlock actor b = .ok s) : s.Resolves b.params b.selections := by
  obtain ⟨s', hs', hresolves⟩ :=
    exists_resolves b.params (exists_ofBlock_iff.1 ⟨s, h⟩)
  rw [← ofBlock_eq_foldlM, h] at hs'
  cases hs'
  exact hresolves

theorem ofBlock_eq_error_iff :
    ofBlock actor b = .error cause ↔ Selection.FirstOffence actor b.selections cause := by
  constructor
  · intro h
    rcases Selection.clean_or_exists actor b.selections with hclean | ⟨cause', hfirst⟩
    · obtain ⟨s, hs⟩ := exists_ofBlock_iff.2 hclean
      rw [h] at hs
      cases hs
    · rw [ofBlock_eq_foldlM, foldlM_of_firstOffence hfirst] at h
      cases h
      exact hfirst
  · intro h
    rw [ofBlock_eq_foldlM, foldlM_of_firstOffence h]

/-- The phases with a rate have one full limiter each. -/
theorem find?_fullBuckets (hs : s.IsNumbered) (k : Nat) : (fullBuckets s).find? k =
    (s.find? k).bind fun plan => plan.rate.map fun rate => Bucket.full rate 0 := by
  have hentries : (fullBuckets s).entries = s.values.filterMap fun plan =>
      plan.rate.map fun rate => (plan.number, Bucket.full rate 0) := by
    refine SortedMap.entries_foldl_insert (m := .empty) ?_
    refine List.pairwise_filterMap.2 ((values_ascending hs).imp fun {plan plan'} hlt => ?_)
    intro e he e' he'
    obtain ⟨rate, -, rfl⟩ := Option.map_eq_some_iff.1 he
    obtain ⟨rate', -, rfl⟩ := Option.map_eq_some_iff.1 he'
    exact hlt
  refine Option.ext fun bucket => ?_
  rw [SortedMap.find?_eq_some_iff, hentries, List.mem_filterMap, Option.bind_eq_some_iff]
  constructor
  · rintro ⟨plan, hplan, h⟩
    obtain ⟨rate, hrate, h⟩ := Option.map_eq_some_iff.1 h
    cases h
    exact ⟨plan, (mem_values_iff hs).1 hplan, by rw [hrate]; rfl⟩
  · rintro ⟨plan, hfind, h⟩
    obtain ⟨rate, hrate, rfl⟩ := Option.map_eq_some_iff.1 h
    obtain rfl := hs k plan hfind
    exact ⟨plan, (mem_values_iff hs).2 hfind, by rw [hrate]; rfl⟩

/-- Every phase with a rate has a limiter of its own, which is full at first and is not touched by
what becomes of the limiters of other phases. -/
def HasLimiters (s : Schedule) : Prop :=
  ∀ (a : Assembly) (index : Nat) (sink : Sink) (k : Nat),
    ((a.enter index s).system sink).world.bucket? index k =
      ((s.find? k).bind fun plan => plan.rate.map fun rate => Bucket.full rate 0) ∧
    ∀ (w : World) (k' : Nat) (bucket : Bucket), k' ≠ k →
      (w.putBucket index k' bucket).bucket? index k = w.bucket? index k

theorem hasLimiters_ofBlock (h : ofBlock actor b = .ok s) : s.HasLimiters := by
  intro a index sink k
  refine ⟨?_, fun w k' bucket hne => ?_⟩
  · simp only [Assembly.system, World.bucket?, Assembly.enter, SortedMap.find?_insert, if_true,
      Option.bind_some]
    exact find?_fullBuckets (isNumbered_ofBlock h) k
  · rw [World.bucket?_putBucket, if_neg fun h => hne h.2.symm]

theorem keys_ascending (s : Schedule) : s.keys.Pairwise (· < ·) := List.pairwise_map.2 s.sorted

theorem mem_keys_iff {k : Nat} : k ∈ s.keys ↔ s.contains k = true := by
  rw [SortedMap.contains, Option.isSome_iff_exists, SortedMap.keys, List.mem_map]
  simp only [SortedMap.find?_eq_some_iff]
  constructor
  · rintro ⟨e, he, rfl⟩
    exact ⟨e.2, he⟩
  · rintro ⟨plan, h⟩
    exact ⟨_, h, rfl⟩

/-- **How a schedule is resolved.**  It comes about exactly if all selectors of its block can be
read and listed, no phase is selected twice, and the keys of every entry go together.  Its phases
are then the ones that are selected, in ascending order; the plan of each of them is as its own
entry wants it, with a limiter of its own; and none that others wait for goes on without end.
Otherwise the error is that of the first selection at fault, or there is a panic in its place: only
a range of `2 ^ 60` phases or more makes one. -/
theorem resolution (actor : String) (b : Block) :
    ((∃ s, ofBlock actor b = .ok s) ↔
      b.IsReadable ∧ (Selection.numbers b.selections).Nodup ∧ ∀ e ∈ b.phases, e.IsLegal) ∧
    (∀ s, ofBlock actor b = .ok s →
      s.keys.Pairwise (· < ·) ∧ (∀ k, k ∈ s.keys ↔ ∃ e, b.Selects e k) ∧
      (∀ e k, b.Selects e k → ∃ plan, s.find? k = some plan ∧ e.Yields b.params k plan) ∧
      s.HasLimiters ∧ ∀ plan ∈ s.values, plan.blocking = true → plan.policy ≠ .unbounded) ∧
    (∀ cause, ofBlock actor b = .error cause ↔
      Selection.FirstOffence actor b.selections cause) ∧
    (ofBlock actor b = .error .panicked → ∃ e ∈ b.phases, ∃ text lo hi,
      e.phase = some (.range text) ∧ Selector.ends? text.toList = some (lo, hi) ∧ lo ≤ hi ∧
      2 ^ 60 ≤ hi + 1 - lo) := by
  refine ⟨?_, fun s hs => ?_, fun cause => ofBlock_eq_error_iff, fun h => ?_⟩
  · rw [exists_ofBlock_iff, Block.clean_selections_iff]
  · have hresolves := resolves_ofBlock hs
    have hyields : ∀ e k, b.Selects e k →
        ∃ plan, s.find? k = some plan ∧ e.Yields b.params k plan := by
      intro e k hselects
      obtain ⟨x, hx, rfl, hnumber⟩ := Block.selects_iff.1 hselects
      exact hresolves.yields x hx k hnumber
    refine ⟨keys_ascending s, fun k => ?_, hyields, hasLimiters_ofBlock hs, fun plan hplan => ?_⟩
    · rw [mem_keys_iff, hresolves.contains, Block.mem_numbers_selections]
    · -- the entry of a phase that others wait for says when it is over
      have hfind := (mem_values_iff (isNumbered_ofBlock hs)).1 hplan
      obtain ⟨e, hselects⟩ := Block.mem_numbers_selections.1
        ((hresolves.contains plan.number).1 (by rw [SortedMap.contains, hfind]; rfl))
      obtain ⟨plan', hfind', hplan'⟩ := hyields e plan.number hselects
      rw [hfind] at hfind'
      cases hfind'
      obtain ⟨index, numbers, hmem, -, -⟩ := hselects
      have hlegal : e.IsLegal := ((Block.clean_selections_iff.1 (exists_ofBlock_iff.1 ⟨s, hs⟩)).2.2)
        e (List.fst_mem_of_mem_zipIdx hmem)
      exact hplan'.bounded hlegal
  · obtain ⟨before, x, after, hsplit, -, hx⟩ := ofBlock_eq_error_iff.1 h
    cases hx with
    | endless hx =>
      have hmem : x ∈ b.selections := by simp [hsplit]
      obtain ⟨e, he, selector, hphase, hpanics⟩ := Block.exists_of_endless hmem hx
      obtain ⟨text, lo, hi, rfl, hends, hle, hmany⟩ := Selector.phases_eq_panicked_iff.1 hpanics
      exact ⟨e, he, text, lo, hi, hphase, hends, hle, hmany⟩

/-- The one entry of this block selects all phases there are. -/
def endless (nop : Bool) : Block where
  actorType := "HelloWorld"
  name := none
  threads := 1
  phases := [{ phase := some (.range "0..18446744073709551615"), nop := nop }]
  params := []

/-- All phases are a range, yet to select them is a panic: no schedule comes about where nothing is
wrong with the entry, and where it does not say when its work is over, that is no error. -/
theorem resolution_too_long :
    Selector.ends? "0..18446744073709551615".toList = some (0, wordMax) ∧
    (∀ e ∈ (endless true).phases, e.IsLegal) ∧
    ofBlock "HelloWorld" (endless true) = .error .panicked ∧
    (∀ e ∈ (endless false).phases,
      e.Complains "a blocking phase needs Repeat, Duration or UntilSignaled") ∧
    ofBlock "HelloWorld" (endless false) = .error .panicked := by
  have hends : Selector.ends? "0..18446744073709551615".toList = some (0, wordMax) := by
    decide +kernel
  have hpanics (nop : Bool) : ofBlock "HelloWorld" (endless nop) = .error .panicked := by
    have hphases : (Selector.range "0..18446744073709551615").phases = .error .panicked :=
      Selector.phases_eq_panicked_iff.2 ⟨_, _, _, rfl, hends, by decide, by decide⟩
    simp only [ofBlock, endless, List.zipIdx_cons, List.zipIdx_nil, List.foldlM_cons, phasesOf,
      hphases]
    rfl
  refine ⟨hends, ?_, hpanics true, ?_, hpanics false⟩
  · intro e he
    obtain rfl := List.mem_singleton.1 he
    exact .inl rfl
  · intro e he
    obtain rfl := List.mem_singleton.1 he
    exact .aimless rfl rfl rfl rfl rfl

end Schedule

end Lockstep
