import Lockstep.Proofs.KeyStates
import Mathlib.Algebra.GroupWithZero.Nat

/-!
# Shared values are built once

Any number of visits may go to and fro in a store, and come between each other's steps.  The locks
see to it that the history of every key is one of those of `Store.Fate`:

* `Visit.Turn` : what comes of a step of a visit;
* `Traffic.Shows` : how the store and the visits look at each state of a key;
* `Traffic.Sound` : only one visit has the lock of an entry, and nobody goes without an answer;
* `Traffic.shows_fire` : a move makes the history of a key longer by events that are allowed;
* `Traffic.built_once` : **a value is built at most once**, and everybody gets that one, or is told
  why there is none.
-/

namespace Lockstep

@[simp] theorem Cell.type_bump (c more : Cell) : (c.bump more).type = c.type := by
  cases c <;> cases more <;> rfl

namespace Store

/-- The answer from a slot that needs no building. -/
def reading (s : Store) (key : String) (want : CellType) : Slot → Answer
  | .ready ref => s.handOut key want ref
  | .failed reason => .error (.previouslyFailed key reason)
  | .empty => .error (.unregistered key)

theorem contains_eq_true_iff {s : Store} {key : String} :
    s.contains key = true ↔ ∃ e, s.entries.find? key = some e := Option.isSome_iff_exists

theorem contains_eq_false_iff {s : Store} {key : String} :
    s.contains key = false ↔ s.entries.find? key = none := Option.isSome_eq_false_iff.trans
      Option.isNone_iff_eq_none

/-! ### One step of a visit -/

namespace Visit

/-- What a step of a visit can come to. -/
inductive Turn (s : Store) (taken : Bool) : Visit → Stepped → Prop where
  | registers {key : String} {r : Recipe} (h : s.entries.find? key = none) :
      Turn s taken ⟨.register key r, .arriving⟩
        ⟨{ s with entries := s.entries.insert key ⟨some r, .empty⟩ }, .gone, [.registered key r]⟩
  | isRefused {key : String} {r : Recipe} {e : Entry} (h : s.entries.find? key = some e) :
      Turn s taken ⟨.register key r, .arriving⟩
        ⟨s, .gone, [.refused key (.alreadyRegistered key)]⟩
  | misses {key : String} {want : CellType} {init : Option Recipe} {p : Point}
      (hp : p = .arriving ∨ p = .looking) (h : s.entries.find? key = none) :
      Turn s taken ⟨.ask key want init, p⟩
        ⟨s, .gone, [.answered key want (.error (.unregistered key))]⟩
  | enters {key : String} {want : CellType} {init : Option Recipe} :
      Turn s taken ⟨.ask key want init, .arriving⟩ ⟨s.enter key init, .queueing, []⟩
  | waits {key : String} {want : CellType} {init : Option Recipe} (h : taken = true) :
      Turn s taken ⟨.ask key want init, .queueing⟩ ⟨s, .queueing, []⟩
  | locks {key : String} {want : CellType} {init : Option Recipe} (h : taken = false) :
      Turn s taken ⟨.ask key want init, .queueing⟩ ⟨s, .looking, []⟩
  | reads {key : String} {want : CellType} {init : Option Recipe} {e : Entry}
      (he : s.entries.find? key = some e) (hr : recipeFor e init = none) :
      Turn s taken ⟨.ask key want init, .looking⟩
        ⟨s, .gone, [.answered key want (s.reading key want e.slot)]⟩
  | takes {key : String} {want : CellType} {init : Option Recipe} {e : Entry} {used : Origin}
      {r : Recipe} (he : s.entries.find? key = some e) (hr : recipeFor e init = some (used, r)) :
      Turn s taken ⟨.ask key want init, .looking⟩
        ⟨s.takeFactory key e, .building used r, [.ran key used r]⟩
  | finishes {key : String} {want : CellType} {init : Option Recipe} {e : Entry} {used : Origin}
      {r : Recipe} (he : s.entries.find? key = some e) :
      Turn s taken ⟨.ask key want init, .building used r⟩
        (answer key want (s.build key want e used r))
  | loses {key : String} {want : CellType} {init : Option Recipe} {used : Origin} {r : Recipe}
      (he : s.entries.find? key = none) :
      Turn s taken ⟨.ask key want init, .building used r⟩ ⟨s, .gone, []⟩
  | rests {v : Visit} (hv : v.point = .gone ∨ ∃ key r, v.errand = .register key r) :
      Turn s taken v ⟨s, .gone, []⟩

/-- A step comes to nothing else. -/
theorem turn_step (s : Store) (taken : Bool) (v : Visit) : v.Turn s taken (v.step s taken) := by
  obtain ⟨q, p⟩ := v
  cases q with
  | register key r =>
    cases p with
    | arriving =>
      cases h : s.entries.find? key with
      | none =>
        simp only [step, register, contains_eq_false_iff.2 h]
        exact .registers h
      | some e =>
        simp only [step, register, contains_eq_true_iff.2 ⟨e, h⟩]
        exact .isRefused h
    | _ => exact .rests (.inr ⟨key, r, rfl⟩)
  | ask key want init =>
    cases p with
    | arriving =>
      simp only [step]
      split
      · next h =>
        have hnone := contains_eq_false_iff.1 h.2
        simp only [answer, resolve, hnone]
        exact .misses (.inl rfl) hnone
      · exact .enters
    | queueing =>
      cases taken with
      | true => exact .waits rfl
      | false => exact .locks rfl
    | looking =>
      cases he : s.entries.find? key with
      | none =>
        simp only [step, he, answer, resolve]
        exact .misses (.inr rfl) he
      | some e =>
        cases hr : recipeFor e init with
        | none =>
          simp only [step, he, hr, answer, resolve_of_no_recipe want he hr]
          have hread : Turn s taken ⟨.ask key want init, .looking⟩
              ⟨s, .gone, [.answered key want (s.reading key want e.slot)]⟩ := .reads he hr
          cases hs : e.slot <;> simpa only [reading, hs] using hread
        | some x =>
          simp only [step, he, hr]
          exact .takes he hr
    | building used r =>
      cases he : s.entries.find? key with
      | none => simp only [step, he]; exact .loses he
      | some e => simp only [step, he]; exact .finishes he
    | gone => exact .rests (.inl rfl)

/-- A step happens at the key of the visit. -/
theorem Turn.events_key {s : Store} {taken : Bool} {v : Visit} {r : Stepped}
    (h : v.Turn s taken r) : ∀ e ∈ r.events, e.key = v.errand.key := by
  cases h <;> simp [answer, Event.key, Errand.key]

/-- A step leaves the other keys alone. -/
theorem Turn.find?_of_ne {s : Store} {taken : Bool} {v : Visit} {r : Stepped}
    (h : v.Turn s taken r) {key : String} (hkey : v.errand.key ≠ key) :
    r.store.entries.find? key = s.entries.find? key := by
  have hinsert (k : String) (e : Entry) (hk : k ≠ key) :
      (s.entries.insert k e).find? key = s.entries.find? key := by
    rw [SortedMap.find?_insert, if_neg (Ne.symm hk)]
  cases h with
  | registers => exact hinsert _ _ hkey
  | enters =>
    unfold enter
    split
    · exact hinsert _ _ hkey
    · rfl
  | takes => exact hinsert _ _ hkey
  | @finishes _ _ _ _ _ r =>
    cases r <;> exact hinsert _ _ hkey
  | _ => rfl

/-- A step only adds cells. -/
theorem Turn.cell?_of_some {s : Store} {taken : Bool} {v : Visit} {r : Stepped}
    (h : v.Turn s taken r) {ref : Nat} {c : Cell} (hc : s.cell? ref = some c) :
    r.store.cell? ref = some c := by
  cases h with
  | enters => unfold enter; split <;> exact hc
  | @finishes _ _ _ _ _ r =>
    cases r with
    | value c' =>
      have hlt : ref < s.cells.size := (Array.getElem?_eq_some_iff.1 hc).1
      simp only [answer, build, cell?, Array.getElem?_push, if_neg (Nat.ne_of_lt hlt)]
      exact hc
    | _ => exact hc
  | _ => exact hc

/-- The visit carries out a recipe for a key. -/
def builds (key : String) (v : Visit) : Bool :=
  match v.errand, v.point with
  | .ask k _ _, .building _ _ => k = key
  | _, _ => false

theorem hasLock_of_builds {key : String} {v : Visit} (h : v.builds key = true) :
    v.hasLock key = true := by
  obtain ⟨q, p⟩ := v
  cases q <;> cases p <;> simp_all [builds, hasLock]

theorem builds_eq_true_iff {key : String} {v : Visit} :
    v.builds key = true ↔ ∃ want init used r, v = ⟨.ask key want init, .building used r⟩ := by
  obtain ⟨q, p⟩ := v
  cases q <;> cases p <;> simp [builds]

theorem key_of_hasLock {key : String} {v : Visit} (h : v.hasLock key = true) :
    v.errand.key = key := by
  obtain ⟨q, p⟩ := v
  cases q <;> cases p <;> simp_all [hasLock, Errand.key]

end Visit

/-! ### How a key looks -/

/-- The store and the visits look as they do in some state of a key. -/
def Shows (s : Store) (vs : List Visit) (key : String) : Fate → Prop
  | .awaited factory =>
    (s.entries.find? key).getD ⟨none, .empty⟩ = ⟨factory, .empty⟩ ∧ factory ≠ some .panics ∧
      ∀ v ∈ vs, v.builds key = false
  | .building used r =>
    s.entries.find? key = some ⟨none, .empty⟩ ∧ r ≠ .panics ∧
      ∃ (i : Nat) (want : CellType) (init : Option Recipe),
        vs[i]? = some ⟨.ask key want init, .building used r⟩
  | .built ref type =>
    (∃ factory, s.entries.find? key = some ⟨factory, .ready ref⟩) ∧
      (∃ c, s.cell? ref = some c ∧ c.type = type) ∧ ∀ v ∈ vs, v.builds key = false
  | .failed reason =>
    (∃ factory, s.entries.find? key = some ⟨factory, .failed reason⟩) ∧
      ∀ v ∈ vs, v.builds key = false

/-- Only one visit has the lock of an entry. -/
def Exclusive (vs : List Visit) : Prop :=
  ∀ (key : String) (i j : Nat) (v w : Visit), vs[i]? = some v → vs[j]? = some w →
    v.hasLock key = true → w.hasLock key = true → i = j

section

variable {s s' : Store} {vs vs' : List Visit} {key : String} {f : Fate}

/-- What happens elsewhere does not change how a key looks. -/
theorem Shows.frame (h : Shows s vs key f) (hentry : s'.entries.find? key = s.entries.find? key)
    (hcells : ∀ ref c, s.cell? ref = some c → ∃ c', s'.cell? ref = some c' ∧ c'.type = c.type)
    (hbuilds : ∀ (i : Nat) (v : Visit), v.builds key = true →
      (vs'[i]? = some v ↔ vs[i]? = some v)) :
    Shows s' vs' key f := by
  have hnone (h : ∀ v ∈ vs, v.builds key = false) (v : Visit) (hv : v ∈ vs') :
      v.builds key = false := by
    by_contra hb
    obtain ⟨i, hi⟩ := List.mem_iff_getElem?.1 hv
    have hb : v.builds key = true := by simpa using hb
    rw [h v (List.mem_of_getElem? ((hbuilds i v hb).1 hi))] at hb
    cases hb
  cases f with
  | awaited factory =>
    obtain ⟨hfind, hr, hno⟩ := h
    exact ⟨by rw [hentry, hfind], hr, hnone hno⟩
  | building used r =>
    obtain ⟨hfind, hr, i, want, init, hi⟩ := h
    exact ⟨hentry ▸ hfind, hr, i, want, init,
      (hbuilds i _ (Visit.builds_eq_true_iff.2 ⟨_, _, _, _, rfl⟩)).2 hi⟩
  | built ref type =>
    obtain ⟨⟨factory, hfind⟩, ⟨c, hc, htype⟩, hno⟩ := h
    obtain ⟨c', hc', htype'⟩ := hcells ref c hc
    exact ⟨⟨factory, hentry ▸ hfind⟩, ⟨c', hc', htype'.trans htype⟩, hnone hno⟩
  | failed reason =>
    obtain ⟨⟨factory, hfind⟩, hno⟩ := h
    exact ⟨⟨factory, hentry ▸ hfind⟩, hnone hno⟩

/-- Nobody has asked for a key without an entry. -/
theorem Shows.of_none (h : Shows s vs key f) (hfind : s.entries.find? key = none) :
    f = .awaited none := by
  cases f with
  | awaited factory =>
    simp only [Shows, hfind, Option.getD_none, Entry.mk.injEq] at h
    rw [h.1.1]
  | _ => simp [Shows, hfind] at h

/-- An empty slot is awaited, unless somebody is just filling it. -/
theorem Shows.of_empty {factory : Option Recipe} (h : Shows s vs key f)
    (hfind : s.entries.find? key = some ⟨factory, .empty⟩) :
    f = .awaited factory ∨
      ∃ (used : Origin) (r : Recipe) (i : Nat) (want : CellType) (init : Option Recipe),
        f = .building used r ∧ vs[i]? = some ⟨.ask key want init, .building used r⟩ := by
  cases f with
  | awaited factory' =>
    simp only [Shows, hfind, Option.getD_some, Entry.mk.injEq] at h
    exact .inl (congrArg Fate.awaited h.1.1.symm)
  | building used r =>
    obtain ⟨-, -, i, want, init, hi⟩ := h
    exact .inr ⟨used, r, i, want, init, rfl, hi⟩
  | _ => simp [Shows, hfind] at h

theorem Shows.of_ready {factory : Option Recipe} {ref : Nat} (h : Shows s vs key f)
    (hfind : s.entries.find? key = some ⟨factory, .ready ref⟩) :
    ∃ c, s.cell? ref = some c ∧ f = .built ref c.type := by
  cases f with
  | built ref' type =>
    obtain ⟨⟨factory', hfind'⟩, ⟨c, hc, rfl⟩, -⟩ := h
    rw [hfind] at hfind'
    cases hfind'
    exact ⟨c, hc, rfl⟩
  | _ => simp [Shows, hfind] at h

theorem Shows.of_failed {factory : Option Recipe} {reason : String} (h : Shows s vs key f)
    (hfind : s.entries.find? key = some ⟨factory, .failed reason⟩) : f = .failed reason := by
  cases f with
  | failed reason' =>
    obtain ⟨⟨factory', hfind'⟩, -⟩ := h
    rw [hfind] at hfind'
    cases hfind'
    rfl
  | _ => simp [Shows, hfind] at h

/-- Somebody who carries out a recipe is the one who is filling the slot. -/
theorem Shows.of_builds (h : Shows s vs key f) (hex : Exclusive vs) {i : Nat} {want : CellType}
    {init : Option Recipe} {used : Origin} {r : Recipe}
    (hi : vs[i]? = some ⟨.ask key want init, .building used r⟩) :
    f = .building used r := by
  have hbuilds : (⟨.ask key want init, .building used r⟩ : Visit).builds key = true :=
    Visit.builds_eq_true_iff.2 ⟨_, _, _, _, rfl⟩
  have hsome (hno : ∀ v ∈ vs, Visit.builds key v = false) : False := by
    rw [hno _ (List.mem_of_getElem? hi)] at hbuilds
    cases hbuilds
  cases f with
  | awaited => exact (hsome h.2.2).elim
  | building used' r' =>
    obtain ⟨-, -, j, want', init', hj⟩ := h
    obtain rfl := hex key i j _ _ hi hj (Visit.hasLock_of_builds hbuilds)
      (Visit.hasLock_of_builds (Visit.builds_eq_true_iff.2 ⟨_, _, _, _, rfl⟩))
    rw [hi] at hj
    cases hj
    rfl
  | built => exact (hsome h.2.2).elim
  | failed => exact (hsome h.2).elim

/-! ### A step at a key -/

/-- A visit that carries out no recipe before or after its step does not count. -/
theorem builds_set {i : Nat} {v v' : Visit} (hi : vs[i]? = some v) (hv : v.builds key = false)
    (hv' : v'.builds key = false) (j : Nat) (w : Visit) (hw : w.builds key = true) :
    (vs.set i v')[j]? = some w ↔ vs[j]? = some w := by
  by_cases hij : i = j
  · subst hij
    have hlt : i < vs.length := (List.getElem?_eq_some_iff.1 hi).1
    rw [List.getElem?_set_self hlt, hi]
    constructor
    · rintro ⟨⟩; rw [hv'] at hw; cases hw
    · rintro ⟨⟩; rw [hv] at hw; cases hw
  · rw [List.getElem?_set_ne hij]

/-- Who has the lock keeps the others from carrying out a recipe. -/
theorem Exclusive.nobody_builds (hex : Exclusive vs) {i : Nat} {v v' : Visit}
    (hi : vs[i]? = some v) (hlock : v.hasLock key = true) (hv' : v'.builds key = false) :
    ∀ w ∈ vs.set i v', w.builds key = false := by
  intro w hw
  by_contra hb
  have hb : w.builds key = true := by simpa using hb
  obtain ⟨j, hj⟩ := List.mem_iff_getElem?.1 hw
  by_cases hij : i = j
  · subst hij
    have hlt : i < vs.length := (List.getElem?_eq_some_iff.1 hi).1
    rw [List.getElem?_set_self hlt] at hj
    cases hj
    rw [hv'] at hb
    cases hb
  · rw [List.getElem?_set_ne hij] at hj
    exact hij (hex key i j v w hi hj hlock (Visit.hasLock_of_builds hb))

/-- The recipe to be carried out is the one given beforehand, or else the asker's. -/
theorem of_recipeFor {e : Entry} {init : Option Recipe} {used : Origin} {r : Recipe}
    (h : recipeFor e init = some (used, r)) : e.slot = .empty ∧
      (e.factory = some r ∧ used = .registered ∨
        e.factory = none ∧ init = some r ∧ used = .asker) := by
  obtain ⟨factory, slot⟩ := e
  cases slot with
  | empty => cases factory <;> cases init <;> simp_all [recipeFor]
  | _ => cases h

/-- Somebody who looks at an empty slot is the only one there. -/
theorem Shows.of_empty_of_looking {factory : Option Recipe} (h : Shows s vs key f)
    (hex : Exclusive vs) {i : Nat} {want : CellType} {init : Option Recipe}
    (hi : vs[i]? = some ⟨.ask key want init, .looking⟩)
    (hfind : s.entries.find? key = some ⟨factory, .empty⟩) : f = .awaited factory := by
  obtain h | ⟨used, r, j, want', init', -, hj⟩ := h.of_empty hfind
  · exact h
  · obtain rfl := hex key i j _ _ hi hj (by simp [Visit.hasLock]) (by simp [Visit.hasLock])
    rw [hi] at hj
    cases hj

theorem handOut_eq_handed {ref : Nat} {c : Cell} (hc : s.cell? ref = some c) (want : CellType) :
    s.handOut key want ref = handed key ref c.type want := by
  simp [handOut, handed, hc, eq_comm]

/-- A step that carries out no recipe, and changes nothing in the store. -/
theorem Shows.set (h : Shows s vs key f) {i : Nat} {v v' : Visit} (hi : vs[i]? = some v)
    (hv : v.builds key = false) (hv' : v'.builds key = false) : Shows s (vs.set i v') key f :=
  h.frame rfl (fun _ c hc => ⟨c, hc, rfl⟩) (builds_set hi hv hv')

/-- These events go on with the history of the key, and lead to what it looks like. -/
def GoesOn (key : String) (f : Fate) (es : List Event) (s : Store) (vs : List Visit) : Prop :=
  ∃ f', Fate.Path key f es f' ∧ Shows s vs key f'

/-- Nothing happens to the key. -/
theorem Shows.goesOn (h : Shows s vs key f) : GoesOn key f [] s vs := ⟨f, .nil f, h⟩

theorem Shows.enters (hf : Shows s vs key f) {i : Nat} {want : CellType} {init : Option Recipe}
    (hi : vs[i]? = some ⟨.ask key want init, .arriving⟩) :
    GoesOn key f [] (s.enter key init) (vs.set i ⟨.ask key want init, .queueing⟩) := by
  have hset : Shows s (vs.set i ⟨.ask key want init, .queueing⟩) key f := hf.set hi rfl rfl
  by_cases hnew : init.isSome ∧ s.contains key = false
  · obtain rfl := hf.of_none (contains_eq_false_iff.1 hnew.2)
    simp only [enter, if_pos hnew]
    refine ⟨_, .nil _, ?_, by rintro ⟨⟩, hset.2.2⟩
    simp [SortedMap.find?_insert]
  · simp only [enter, if_neg hnew]
    exact hset.goesOn

theorem Shows.reads (hf : Shows s vs key f) (hex : Exclusive vs) {i : Nat} {want : CellType}
    {init : Option Recipe} {e : Entry} (hi : vs[i]? = some ⟨.ask key want init, .looking⟩)
    (he : s.entries.find? key = some e) (hr : recipeFor e init = none) :
    GoesOn key f [.answered key want (s.reading key want e.slot)] s
      (vs.set i ⟨.ask key want init, .gone⟩) := by
  have hset : Shows s (vs.set i ⟨.ask key want init, .gone⟩) key f := hf.set hi rfl rfl
  obtain ⟨factory, slot⟩ := e
  cases slot with
  | ready ref =>
    obtain ⟨c, hc, rfl⟩ := hf.of_ready he
    simp only [reading, handOut_eq_handed hc]
    exact ⟨_, .single (.hands ref c.type want), hset⟩
  | failed reason =>
    obtain rfl := hf.of_failed he
    exact ⟨_, .single (.repeats reason want), hset⟩
  | empty =>
    obtain rfl : factory = none := by cases factory <;> simp_all [recipeFor]
    obtain rfl := hf.of_empty_of_looking hex hi he
    exact ⟨_, .single (.misses want), hset⟩

theorem Shows.takes (hf : Shows s vs key f) (hex : Exclusive vs) {i : Nat} {want : CellType}
    {init : Option Recipe} {e : Entry} {used : Origin} {r : Recipe}
    (hi : vs[i]? = some ⟨.ask key want init, .looking⟩) (hcalm : init ≠ some .panics)
    (he : s.entries.find? key = some e) (hr : recipeFor e init = some (used, r)) :
    GoesOn key f [.ran key used r] (s.takeFactory key e)
      (vs.set i ⟨.ask key want init, .building used r⟩) := by
  obtain ⟨factory, slot⟩ := e
  obtain ⟨rfl, hfrom⟩ := of_recipeFor hr
  obtain rfl := hf.of_empty_of_looking hex hi he
  have hfind : (s.takeFactory key ⟨factory, .empty⟩).entries.find? key = some ⟨none, .empty⟩ := by
    simp [find?_takeFactory]
  have hplace : (vs.set i ⟨.ask key want init, .building used r⟩)[i]? =
      some ⟨.ask key want init, .building used r⟩ :=
    List.getElem?_set_self (List.getElem?_eq_some_iff.1 hi).1
  rcases hfrom with ⟨rfl, rfl⟩ | ⟨rfl, rfl, rfl⟩
  · exact ⟨_, .single (.takes r), hfind, fun h => hf.2.1 (congrArg some h), i, want, init, hplace⟩
  · exact ⟨_, .single (.brings r), hfind, fun h => hcalm (congrArg some h), i, want, _, hplace⟩

theorem Shows.finishes (hf : Shows s vs key f) (hex : Exclusive vs) {i : Nat} {want : CellType}
    {init : Option Recipe} {e : Entry} {used : Origin} {r : Recipe}
    (hi : vs[i]? = some ⟨.ask key want init, .building used r⟩)
    (he : s.entries.find? key = some e) :
    GoesOn key f [.answered key want (s.build key want e used r).answer]
      (s.build key want e used r).store (vs.set i ⟨.ask key want init, .gone⟩) := by
  obtain rfl := hf.of_builds hex hi
  obtain ⟨hfind, hr, -⟩ := hf
  obtain rfl : e = ⟨none, .empty⟩ := Option.some.inj (he.symm.trans hfind)
  have hnobody : ∀ v ∈ vs.set i ⟨.ask key want init, .gone⟩, v.builds key = false :=
    hex.nobody_builds hi (by simp [Visit.hasLock]) rfl
  cases r with
  | value c =>
    have hcell : (s.build key want ⟨none, .empty⟩ used (.value c)).store.cell? s.cells.size =
        some c := by simp [build, cell?]
    refine ⟨.built s.cells.size c.type, .single ?_, ⟨none, ?_⟩, ⟨c, hcell, rfl⟩, hnobody⟩
    · simp only [build] at hcell ⊢
      rw [handOut_eq_handed hcell]
      exact .builds used c s.cells.size want
    · simp [build, SortedMap.find?_insert]
  | fails reason =>
    refine ⟨.failed (StateError.construction key reason).message, .single ?_, ⟨none, ?_⟩, hnobody⟩
    · exact .fails used reason want
    · simp [build, SortedMap.find?_insert]
  | panics => exact absurd rfl hr

/-- A step of a visit makes the history of its key longer by events that are allowed. -/
theorem Shows.turn (hf : Shows s vs key f) (hex : Exclusive vs) {i : Nat} {v : Visit}
    (hi : vs[i]? = some v) (hcalm : v.errand.recipe? ≠ some .panics) {taken : Bool}
    {r : Visit.Stepped} (ht : v.Turn s taken r) (hkey : v.errand.key = key) :
    GoesOn key f r.events r.store (vs.set i { v with point := r.point }) := by
  subst hkey
  cases ht with
  | @registers key r hnone =>
    obtain rfl := hf.of_none hnone
    refine ⟨_, .single (.registers r), ?_, hcalm, (hf.set hi rfl rfl).2.2⟩
    simp [SortedMap.find?_insert, Errand.key]
  | isRefused hsome => exact ⟨f, .single (.refuses f), hf.set hi rfl rfl⟩
  | misses hp hnone =>
    obtain rfl := hf.of_none hnone
    refine ⟨_, .single (.misses _), hf.set hi ?_ rfl⟩
    obtain rfl | rfl := hp <;> rfl
  | enters => exact hf.enters hi
  | waits => exact (hf.set hi rfl rfl).goesOn
  | locks => exact (hf.set hi rfl rfl).goesOn
  | reads he hr => exact hf.reads hex hi he hr
  | takes he hr => exact hf.takes hex hi hcalm he hr
  | finishes he => exact hf.finishes hex hi he
  | loses he =>
    obtain rfl := hf.of_builds hex hi
    cases he.symm.trans hf.1
  | rests hv =>
    refine (hf.set hi ?_ ?_).goesOn
    · obtain ⟨q, p⟩ := v
      obtain rfl | ⟨key, r, rfl⟩ := hv
      · cases q <;> rfl
      · rfl
    · obtain ⟨q, p⟩ := v
      cases q <;> rfl

end

/-! ### Locks and answers -/

namespace Visit

variable {s : Store} {taken : Bool} {v : Visit} {r : Stepped}

/-- A visit takes a lock only when nobody has it. -/
theorem Turn.hasLock (ht : v.Turn s taken r) {key : String}
    (hlock : ({ v with point := r.point } : Visit).hasLock key = true) :
    v.hasLock key = true ∨ taken = false ∧ v.errand.key = key := by
  cases ht with
  | locks h => exact .inr ⟨h, by simpa [Visit.hasLock, Errand.key] using hlock⟩
  | takes => exact .inl hlock
  | rests hv =>
    obtain ⟨q, p⟩ := v
    cases q <;> cases hlock
  | _ => cases hlock

/-- Nobody who asked for a value goes without an answer. -/
theorem Turn.answers (ht : v.Turn s taken r) (hgone : r.point = .gone) {key : String}
    {want : CellType} {init : Option Recipe} (hq : v.errand = .ask key want init) :
    v.point = .gone ∨ (∃ a, Event.answered key want a ∈ r.events) ∨
      s.entries.find? key = none ∧ v.builds key = true := by
  cases ht with
  | misses => cases hq; exact .inr (.inl ⟨_, List.mem_singleton_self _⟩)
  | reads => cases hq; exact .inr (.inl ⟨_, List.mem_singleton_self _⟩)
  | finishes => cases hq; exact .inr (.inl ⟨_, List.mem_singleton_self _⟩)
  | loses he => cases hq; exact .inr (.inr ⟨he, by simp [builds]⟩)
  | rests hv =>
    rcases hv with h | ⟨_, _, h⟩
    · exact .inl h
    · rw [h] at hq; cases hq
  | registers => cases hq
  | isRefused => cases hq
  | _ => cases hgone

end Visit

/-- How many steps a visit has ahead of it at most. -/
def Point.ahead : Point → Nat
  | arriving => 4
  | queueing => 3
  | looking => 2
  | building _ _ => 1
  | gone => 0

/-- A visit goes on, unless it waits for a lock that is taken. -/
theorem Visit.Turn.ahead_lt {s : Store} {taken : Bool} {v : Visit} {r : Stepped}
    (ht : v.Turn s taken r) (hgone : v.point ≠ .gone)
    (hfree : v.point = .queueing → taken = false) : r.point.ahead < v.point.ahead := by
  cases ht with
  | misses hp => obtain rfl | rfl := hp <;> exact Nat.zero_lt_succ _
  | waits h => rw [hfree rfl] at h; cases h
  | rests hv =>
    obtain ⟨q, p⟩ := v
    cases p <;> first | exact absurd rfl hgone | exact Nat.zero_lt_succ _
  | _ => simp [Point.ahead, Visit.answer]

/-- The recipe that somebody brings along comes to an end. -/
def Move.IsCalm : Move → Prop
  | come q => q.recipe? ≠ some .panics
  | _ => True

namespace Traffic

/-- What has happened at a key. -/
def tale (t : Traffic) (key : String) : List Event := t.log.filter fun e => e.key = key

/-- How many steps the visits have ahead of them at most. -/
def ahead (t : Traffic) : Nat := (t.visits.map fun v => v.point.ahead).sum

theorem sum_ahead_set {vs : List Visit} {i : Nat} {v v' : Visit} (hi : vs[i]? = some v)
    (hlt : v'.point.ahead < v.point.ahead) :
    ((vs.set i v').map fun v => v.point.ahead).sum < (vs.map fun v => v.point.ahead).sum := by
  induction vs generalizing i with
  | nil => cases hi
  | cons w ws ih =>
    cases i with
    | zero => cases hi; simpa using hlt
    | succ i => simpa using ih hi

/-- As long as somebody is there, somebody can go on. -/
theorem exists_ahead_lt (t : Traffic) (h : ∃ v ∈ t.visits, v.point ≠ .gone) :
    ∃ i, (t.fire (.go i)).ahead < t.ahead := by
  have hgo {i : Nat} {v : Visit} (hi : t.visits[i]? = some v) (hgone : v.point ≠ .gone)
      (hfree : v.point = .queueing → t.isTaken v.errand.key = false) :
      ∃ i, (t.fire (.go i)).ahead < t.ahead := by
    refine ⟨i, ?_⟩
    rw [fire_go hi]
    exact sum_ahead_set hi ((v.turn_step _ _).ahead_lt hgone hfree)
  obtain ⟨v, hv, hgone⟩ := h
  obtain ⟨i, hi⟩ := List.mem_iff_getElem?.1 hv
  by_cases hblocked : v.point = .queueing ∧ t.isTaken v.errand.key = true
  · -- whoever has the lock is not waiting
    obtain ⟨w, hw, hlock⟩ := List.any_eq_true.1 hblocked.2
    obtain ⟨j, hj⟩ := List.mem_iff_getElem?.1 hw
    obtain ⟨q, p⟩ := w
    refine hgo hj ?_ ?_ <;> rintro rfl <;> cases q <;> cases hlock
  · exact hgo hi hgone fun hp => by simpa [hp] using hblocked

/-! ### Moves -/

/-- Only one visit has the lock of an entry, no recipe panics, and whoever asked for a value and has
left was answered. -/
structure Sound (t : Traffic) : Prop where
  exclusive : Exclusive t.visits
  calm : ∀ v ∈ t.visits, v.errand.recipe? ≠ some .panics
  answered : ∀ key want init, (⟨.ask key want init, .gone⟩ : Visit) ∈ t.visits →
    ∃ a, Event.answered key want a ∈ t.tale key

theorem sound_opening : opening.Sound where
  exclusive _ _ _ _ _ h := by cases h
  calm := List.forall_mem_nil _
  answered _ _ _ h := absurd h List.not_mem_nil

theorem shows_opening (key : String) :
    Shows opening.store opening.visits key (.awaited none) :=
  ⟨rfl, by rintro ⟨⟩, List.forall_mem_nil _⟩

variable {t : Traffic} {key : String} {f : Fate}

theorem isTaken_eq_true {i : Nat} {v : Visit} (hi : t.visits[i]? = some v)
    (hlock : v.hasLock key = true) : t.isTaken key = true :=
  List.any_eq_true.2 ⟨v, List.mem_of_getElem? hi, hlock⟩

theorem exclusive_go (hex : Exclusive t.visits) {i : Nat} {v : Visit} {r : Visit.Stepped}
    (hi : t.visits[i]? = some v) (ht : v.Turn t.store (t.isTaken v.errand.key) r) :
    Exclusive (t.visits.set i { v with point := r.point }) := by
  -- the visit has its lock from before, or else nobody has it
  have hother (key : String) (j : Nat) (w : Visit) (hj : t.visits[j]? = some w)
      (hlock : ({ v with point := r.point } : Visit).hasLock key = true)
      (hwlock : w.hasLock key = true) : i = j := by
    rcases ht.hasLock hlock with h | ⟨hfree, rfl⟩
    · exact hex key i j v w hi hj h hwlock
    · rw [isTaken_eq_true hj hwlock] at hfree
      cases hfree
  intro key j k w x hj hk hw hx
  rw [List.getElem?_set] at hj hk
  split at hj <;> split at hk
  · next h₁ h₂ => exact h₁.symm.trans h₂
  · next h₁ h₂ =>
    subst h₁
    split at hj
    · cases hj; exact hother key k x hk hw hx
    · cases hj
  · next h₁ h₂ =>
    subst h₂
    split at hk
    · cases hk; exact (hother key j w hj hx hw).symm
    · cases hk
  · exact hex key j k w x hj hk hw hx

/-- A move makes the history of a key longer by events that are allowed. -/
theorem shows_fire (ht : t.Sound) (hf : Shows t.store t.visits key f) {m : Move} (hm : m.IsCalm) :
    ∃ f' es, (t.fire m).tale key = t.tale key ++ es ∧ Fate.Path key f es f' ∧
      Shows (t.fire m).store (t.fire m).visits key f' := by
  cases m with
  | come q =>
    refine ⟨f, [], by simp [fire, tale], .nil f, hf.frame rfl (fun _ c hc => ⟨c, hc, rfl⟩) ?_⟩
    intro i v hv
    have hnew : v ≠ ⟨q, .arriving⟩ := by
      rintro rfl
      cases q <;> cases hv
    simp only [fire, List.getElem?_append]
    split
    · exact Iff.rfl
    · next hlt =>
      rw [List.getElem?_eq_none (Nat.le_of_not_lt hlt)]
      refine ⟨fun h => ?_, by rintro ⟨⟩⟩
      exact absurd (List.mem_singleton.1 (List.mem_of_getElem? h)) hnew
  | go i =>
    cases hi : t.visits[i]? with
    | none => exact ⟨f, [], by simp [fire, hi, tale], .nil f, by simpa only [fire, hi] using hf⟩
    | some v =>
      have hturn := v.turn_step t.store (t.isTaken v.errand.key)
      rw [fire_go hi]
      generalize v.step t.store (t.isTaken v.errand.key) = r at hturn
      by_cases hkey : v.errand.key = key
      · have hall : r.events.filter (fun e => e.key = key) = r.events :=
          List.filter_eq_self.2 fun e he => by simp [hturn.events_key e he, hkey]
        obtain ⟨f', hpath, hshows⟩ :=
          hf.turn ht.exclusive hi (ht.calm v (List.mem_of_getElem? hi)) hturn hkey
        exact ⟨f', r.events, by simp [tale, hall], hpath, hshows⟩
      · have hnone : r.events.filter (fun e => e.key = key) = [] :=
          List.filter_eq_nil_iff.2 fun e he => by simp [hturn.events_key e he, hkey]
        refine ⟨f, [], by simp [tale, hnone], .nil f, hf.frame (hturn.find?_of_ne hkey)
          (fun _ c hc => ⟨c, hturn.cell?_of_some hc, rfl⟩) (builds_set hi ?_ ?_)⟩
        · by_contra hb
          exact hkey (Visit.key_of_hasLock (Visit.hasLock_of_builds (by simpa using hb)))
        · by_contra hb
          have := Visit.key_of_hasLock (Visit.hasLock_of_builds (by simpa using hb))
          exact hkey this
  | bump ref more =>
    refine ⟨f, [], by simp [fire, tale], .nil f,
      hf.frame rfl (fun ref' c hc => ?_) fun _ _ _ => .rfl⟩
    simp only [fire, cell?, bump, Array.getElem?_modify]
    rw [cell?] at hc
    split
    · exact ⟨c.bump more, by rw [hc]; rfl, c.type_bump more⟩
    · exact ⟨c, hc, rfl⟩

theorem mem_tale_fire {m : Move} {e : Event} (he : e ∈ t.tale key) : e ∈ (t.fire m).tale key := by
  cases m with
  | go i =>
    cases hi : t.visits[i]? with
    | none => simpa only [fire, hi] using he
    | some v =>
      rw [fire_go hi, tale, List.filter_append]
      exact List.mem_append_left _ he
  | _ => exact he

theorem Sound.fire (ht : t.Sound) (hf : ∀ key, ∃ f, Shows t.store t.visits key f) {m : Move}
    (hm : m.IsCalm) : (t.fire m).Sound := by
  cases m with
  | come q =>
    have hnew (key : String) : (⟨q, .arriving⟩ : Visit).hasLock key = false := by cases q <;> rfl
    have hold {i : Nat} {v : Visit} (key : String)
        (hi : (t.visits ++ [⟨q, .arriving⟩])[i]? = some v)
        (hlock : v.hasLock key = true) : t.visits[i]? = some v := by
      rw [List.getElem?_append] at hi
      split at hi
      · exact hi
      · rw [List.mem_singleton.1 (List.mem_of_getElem? hi), hnew] at hlock
        cases hlock
    refine ⟨fun key i j v w hi hj hv hw =>
      ht.exclusive key i j v w (hold key hi hv) (hold key hj hw) hv hw, fun v hv => ?_,
      fun key want init hv => ht.answered key want init ?_⟩
    · rcases List.mem_append.1 hv with h | h
      · exact ht.calm v h
      · rw [List.mem_singleton.1 h]; exact hm
    · exact (List.mem_append.1 hv).resolve_right fun h => by cases List.mem_singleton.1 h
  | go i =>
    cases hi : t.visits[i]? with
    | none => simpa only [Traffic.fire, hi] using ht
    | some v =>
      have hturn := v.turn_step t.store (t.isTaken v.errand.key)
      have hlog {key : String} {e : Event} (he : e ∈ t.tale key) :
          e ∈ (t.fire (.go i)).tale key := mem_tale_fire he
      rw [fire_go hi] at hlog ⊢
      generalize v.step t.store (t.isTaken v.errand.key) = r at hturn hlog
      refine ⟨exclusive_go ht.exclusive hi hturn, fun w hw => ?_, fun key want init hw => ?_⟩
      · rcases List.mem_or_eq_of_mem_set hw with h | rfl
        · exact ht.calm w h
        · exact ht.calm v (List.mem_of_getElem? hi)
      · rcases List.mem_or_eq_of_mem_set hw with h | h
        · obtain ⟨a, ha⟩ := ht.answered key want init h
          exact ⟨a, hlog ha⟩
        · injection h with hq hp
          rcases hturn.answers hp.symm hq.symm with hgone | ⟨a, ha⟩ | ⟨hnone, hbuilds⟩
          · have hmem := List.mem_of_getElem? hi
            rw [show v = ⟨.ask key want init, .gone⟩ by rw [hq, ← hgone]] at hmem
            obtain ⟨a, ha⟩ := ht.answered key want init hmem
            exact ⟨a, hlog ha⟩
          · refine ⟨a, List.mem_filter.2 ⟨List.mem_append_right _ ha, ?_⟩⟩
            simp [Event.key]
          · -- an entry does not vanish while its value is being built
            obtain ⟨f, hshows⟩ := hf key
            obtain ⟨want', init', used, r', rfl⟩ := Visit.builds_eq_true_iff.1 hbuilds
            obtain rfl := hshows.of_builds ht.exclusive hi
            cases hnone.symm.trans hshows.1
  | bump ref more => exact ⟨ht.exclusive, ht.calm, ht.answered⟩

/-! ### Any number of moves -/

/-- The history of every key is allowed, and leads to what the key looks like. -/
theorem run_invariant (ht : t.Sound) {fates : String → Fate}
    (hf : ∀ key, Shows t.store t.visits key (fates key)) {ms : List Move}
    (hms : ∀ m ∈ ms, m.IsCalm) :
    (t.run ms).Sound ∧ ∀ key, ∃ f' es, (t.run ms).tale key = t.tale key ++ es ∧
      Fate.Path key (fates key) es f' ∧ Shows (t.run ms).store (t.run ms).visits key f' := by
  induction ms generalizing t fates with
  | nil => exact ⟨ht, fun key => ⟨fates key, [], (List.append_nil _).symm, .nil _, hf key⟩⟩
  | cons m ms ih =>
    obtain ⟨hm, hms⟩ := List.forall_mem_cons.1 hms
    choose fates' es htale hpath hshows using fun key => shows_fire ht (hf key) hm
    obtain ⟨hsound, hrest⟩ := ih (ht.fire (fun key => ⟨_, hf key⟩) hm) hshows hms
    refine ⟨hsound, fun key => ?_⟩
    obtain ⟨f', es', htale', hpath', hshows'⟩ := hrest key
    refine ⟨f', es key ++ es', ?_, (hpath key).append hpath', hshows'⟩
    rw [← List.append_assoc, ← htale key]
    exact htale'

/-- What somebody who was handed a cell does to it. -/
def bumps (ref : Nat) : Move → Option Cell
  | .bump ref' more => if ref' = ref then some more else none
  | _ => none

theorem cell?_fire {ref : Nat} {c : Cell} (hc : t.store.cell? ref = some c) (m : Move) :
    (t.fire m).store.cell? ref = some ((bumps ref m).elim c c.bump) := by
  cases m with
  | come q => exact hc
  | go i =>
    cases hi : t.visits[i]? with
    | none => simp only [fire, hi]; exact hc
    | some v => rw [fire_go hi]; exact (v.turn_step _ _).cell?_of_some hc
  | bump ref' more =>
    simp only [fire, cell?, bump, Array.getElem?_modify, bumps]
    rw [cell?] at hc
    split <;> simp [hc]

/-- A cell is changed only by those who were handed it. -/
theorem cell?_run {ref : Nat} {c : Cell} (hc : t.store.cell? ref = some c) (ms : List Move) :
    (t.run ms).store.cell? ref = some ((ms.filterMap (bumps ref)).foldl Cell.bump c) := by
  induction ms generalizing t c with
  | nil => exact hc
  | cons m ms ih =>
    refine (ih (cell?_fire hc m)).trans ?_
    cases h : bumps ref m <;> simp [h]

/-- **Shared state is built at most once.**  Visits may come to a store at any time and come between
each other's steps in any order; no recipe panics.  Then of every key

* at most one recipe is carried out, and one that was given beforehand is the one;
* everybody who gets a value gets the same cell;
* at most one is told that the value has just failed to come about; after that no recipe is carried
  out, and everybody is told of that failure;
* once a recipe has made a value, whoever wants one of its type gets it, and everybody else is told
  that the types differ; the key keeps the cell, which is changed only by those who were handed it;
* a key that is there is not registered, a key that is not there is not got, and the store stays as
  it is;
* whoever has asked and left was answered, and as long as somebody is there, somebody can go on. -/
theorem built_once (ms ms' : List Move) (hms : ∀ m ∈ ms ++ ms', m.IsCalm) (key : String) :
    let t := opening.run ms
    let t' := t.run ms'
    (t.tale key).countP Event.isRun ≤ 1 ∧
      (∀ r used r', .registered key r ∈ t.tale key → .ran key used r' ∈ t.tale key →
        used = .registered ∧ r' = r) ∧
      (∀ want ref want' ref', .answered key want (.value ref) ∈ t.tale key →
        .answered key want' (.value ref') ∈ t.tale key → ref = ref') ∧
      (t.tale key).countP Event.isConstruction ≤ 1 ∧
      (∀ before want reason after,
        t.tale key = before ++ .answered key want (.error (.construction key reason)) :: after →
        (∀ e ∈ after, e.isRun = false) ∧ ∀ want' a, .answered key want' a ∈ after →
          a = .error (.previouslyFailed key (StateError.construction key reason).message)) ∧
      (∀ before used c after, t.tale key = before ++ .ran key used (.value c) :: after →
        ∃ ref, ∀ want a, .answered key want a ∈ after →
          a = if want = c.type then .value ref else .error (.typeMismatch key want.name)) ∧
      (∀ factory ref, t.store.entries.find? key = some ⟨factory, .ready ref⟩ →
        ∃ c, t.store.cell? ref = some c ∧
          (∃ factory', t'.store.entries.find? key = some ⟨factory', .ready ref⟩) ∧
          t'.store.cell? ref = some ((ms'.filterMap (bumps ref)).foldl Cell.bump c)) ∧
      (∀ (i : Nat) (r : Recipe), t.visits[i]? = some ⟨.register key r, .arriving⟩ →
        t.store.contains key = true →
        t.fire (.go i) = ⟨t.store, t.visits.set i ⟨.register key r, .gone⟩,
          t.log ++ [.refused key (.alreadyRegistered key)]⟩) ∧
      (∀ (i : Nat) (want : CellType), t.visits[i]? = some ⟨.get key want, .arriving⟩ →
        t.store.contains key = false →
        t.fire (.go i) = ⟨t.store, t.visits.set i ⟨.get key want, .gone⟩,
          t.log ++ [.answered key want (.error (.unregistered key))]⟩) ∧
      (∀ want init, ⟨.ask key want init, .gone⟩ ∈ t.visits →
        ∃ a, .answered key want a ∈ t.tale key) ∧
      ((∃ v ∈ t.visits, v.point ≠ .gone) → ∃ i, (t.fire (.go i)).ahead < t.ahead) := by
  intro t t'
  obtain ⟨hms₁, hms₂⟩ := List.forall_mem_append.1 hms
  obtain ⟨hsound, hrun⟩ := run_invariant sound_opening shows_opening hms₁
  obtain ⟨f, es, htale, hpath, hshows⟩ := hrun key
  have hpath : Fate.Path key (.awaited none) (t.tale key) f := by rwa [htale]
  refine ⟨hpath.ran_once, fun r used r' => hpath.registered_first, ?_, hpath.failed_once, ?_, ?_,
    ?_, ?_, ?_, hsound.answered key, t.exists_ahead_lt⟩
  · intro want ref want' ref' h h'
    obtain ⟨ref₀, hsame⟩ := hpath.same_ref
    rw [hsame _ _ h, hsame _ _ h']
  · intro before want reason after hsplit
    exact (hsplit ▸ hpath).failure_kept
  · intro before used c after hsplit
    exact (hsplit ▸ hpath).value_kept
  · intro factory ref hfind
    obtain ⟨c, hc, rfl⟩ := hshows.of_ready hfind
    choose fates hfates using fun key => (hrun key).imp fun f h => h.choose_spec.2.2
    obtain ⟨-, hrun'⟩ := run_invariant hsound hfates hms₂
    obtain ⟨f', es', -, hpath', hshows'⟩ := hrun' key
    obtain ⟨c', hc', hfate⟩ := (hfates key).of_ready hfind
    rw [hfate] at hpath'
    obtain rfl := hpath'.eq_built
    exact ⟨c, hc, hshows'.1, cell?_run hc ms'⟩
  · intro i r hi hkey
    rw [fire_go hi]
    simp [Visit.step, register, hkey]
  · intro i want hi hkey
    rw [fire_go hi]
    have hnone := contains_eq_false_iff.1 hkey
    simp [Errand.get, Visit.step, hkey, Visit.answer, resolve, hnone]

/-- Two who want the same counter, the second while the first is just building it. -/
def race : List Move :=
  [.come (.getOrInit "Hits" .counter (.value (.counter 7))), .come (.getOrDefault "Hits" .counter),
    .go 0, .go 1, .go 0, .go 0, .go 1, .go 0, .go 1, .go 1]

/-- The second one waits for the lock, and gets the cell of the first. -/
theorem built_once_race :
    (∀ m ∈ race ++ [.bump 0 (.counter 1)], m.IsCalm) ∧
      (opening.run race).log = [.ran "Hits" .asker (.value (.counter 7)),
        .answered "Hits" .counter (.value 0), .answered "Hits" .counter (.value 0)] ∧
      ((opening.run race).tale "Hits").countP Event.isRun ≤ 1 ∧
      ∃ c, (opening.run race).store.cell? 0 = some c ∧
        ((opening.run race).run [.bump 0 (.counter 1)]).store.cell? 0 =
          some (c.bump (.counter 1)) := by
  have hcalm : ∀ m ∈ race ++ [.bump 0 (.counter 1)], m.IsCalm := by
    simp [race, Move.IsCalm, Errand.getOrInit, Errand.getOrDefault, Errand.recipe?]
  obtain ⟨hruns, -, -, -, -, -, hkept, -⟩ := built_once race [.bump 0 (.counter 1)] hcalm "Hits"
  obtain ⟨c, hc, -, hbumped⟩ := hkept none 0 (by decide)
  exact ⟨hcalm, by decide, hruns, c, hc, hbumped⟩

end Traffic

end Store

end Lockstep
