import Lockstep.Store

/-!
# Visits to a store

Many may want something of a store at the same time.  Each of them pays it a visit, in steps
between which others may come: a visit looks the key up, waits for the lock of its entry, and may
have to carry out a recipe, during which it keeps the lock.

* `Store.Errand` is what a visit is for, and `Store.Point` where it has come to;
* `Store.Visit.step` carries a visit on, and says what has happened by `Store.Event`s;
* `Store.Traffic` is a store with its visits, and `Traffic.run` lets them move in any order;
* `Traffic.run_register`, `Traffic.run_ask` : a visit that nobody disturbs comes to what the
  operations of the store say.
-/

namespace Lockstep

namespace Store

/-- What somebody wants of a store. -/
inductive Errand where
  | register (key : String) (r : Recipe)
  /-- Asks for a value, perhaps with a recipe in case there is none yet. -/
  | ask (key : String) (want : CellType) (init : Option Recipe)
  deriving DecidableEq, Repr

namespace Errand

/-- Asks for the value of a key that has been registered. -/
def get (key : String) (want : CellType) : Errand := .ask key want none

/-- Asks for the value of a key, with a recipe in case there is none yet. -/
def getOrInit (key : String) (want : CellType) (init : Recipe) : Errand := .ask key want (some init)

/-- Asks for the value of a key, which is the initial one of its type if there is none yet. -/
def getOrDefault (key : String) (want : CellType) : Errand :=
  .getOrInit key want (.value (.initial want))

/-- The key it is about. -/
def key : Errand → String
  | register key _ => key
  | ask key _ _ => key

/-- The recipe it brings. -/
def recipe? : Errand → Option Recipe
  | register _ r => some r
  | ask _ _ init => init

end Errand

/-- Where a visit is. -/
inductive Point where
  /-- Has not looked its key up. -/
  | arriving
  /-- Has the entry of its key, and waits for the lock. -/
  | queueing
  /-- Has the lock, and looks at the slot. -/
  | looking
  /-- Carries out a recipe, and keeps the lock. -/
  | building (used : Origin) (r : Recipe)
  | gone
  deriving DecidableEq, Repr

/-- A visit. -/
structure Visit where
  errand : Errand
  point : Point
  deriving DecidableEq, Repr

/-- Something that has happened at a store. -/
inductive Event where
  /-- A key was registered. -/
  | registered (key : String) (r : Recipe)
  /-- A key was not registered. -/
  | refused (key : String) (e : StateError)
  /-- A recipe was carried out. -/
  | ran (key : String) (used : Origin) (r : Recipe)
  /-- A question for a value of some type was answered. -/
  | answered (key : String) (want : CellType) (a : Answer)
  deriving DecidableEq, Repr

/-- The key it is about. -/
def Event.key : Event → String
  | registered key _ => key
  | refused key _ => key
  | ran key _ _ => key
  | answered key _ _ => key

/-- The recipe that somebody has to carry out who finds an entry and brings a recipe himself. -/
def recipeFor (e : Entry) (init : Option Recipe) : Option (Origin × Recipe) :=
  match e.slot with
  | .empty =>
    match e.factory with
    | some r => some (.registered, r)
    | none => init.map fun r => (.asker, r)
  | _ => none

/-- The recipe given beforehand is used up. -/
def takeFactory (s : Store) (key : String) (e : Entry) : Store :=
  { s with entries := s.entries.insert key { e with factory := none } }

theorem find?_takeFactory (s : Store) (key key' : String) (e : Entry) :
    (s.takeFactory key e).entries.find? key' =
      if key' = key then some { e with factory := none } else s.entries.find? key' :=
  SortedMap.find?_insert ..

/-- Using up the recipe given beforehand can be done on its own. -/
theorem build_takeFactory (s : Store) (key : String) (want : CellType) (e e' : Entry)
    (used : Origin) (r : Recipe) :
    (s.takeFactory key e).build key want e' used r = s.build key want e' used r := by
  cases r <;> simp [takeFactory, build, SortedMap.insert_insert]

section

variable {s : Store} {key : String} {e : Entry} {init : Option Recipe} (want : CellType)

/-- Where a recipe has to be carried out, answering is building. -/
theorem resolve_of_recipe {used : Origin} {r : Recipe} (he : s.entries.find? key = some e)
    (hr : recipeFor e init = some (used, r)) :
    s.resolve key want init =
      (s.takeFactory key e).build key want { e with factory := none } used r := by
  rw [build_takeFactory]
  obtain ⟨factory, slot⟩ := e
  cases slot with
  | empty => cases factory <;> cases init <;> simp_all [recipeFor, resolve]
  | _ => simp [recipeFor] at hr

theorem resolve_of_no_recipe (he : s.entries.find? key = some e) (hr : recipeFor e init = none) :
    s.resolve key want init = ⟨s, match e.slot with
      | .ready ref => s.handOut key want ref
      | .failed reason => .error (.previouslyFailed key reason)
      | .empty => .error (.unregistered key), none, []⟩ := by
  obtain ⟨factory, slot⟩ := e
  cases slot with
  | empty => cases factory <;> cases init <;> simp_all [recipeFor, resolve]
  | _ => simp [resolve, he]

end

namespace Visit

/-- The visit has the lock of an entry. -/
def hasLock (key : String) (v : Visit) : Bool :=
  match v.errand, v.point with
  | .ask k _ _, .looking => k = key
  | .ask k _ _, .building _ _ => k = key
  | _, _ => false

/-- What a step of a visit comes to. -/
structure Stepped where
  store : Store
  point : Point
  events : List Event

/-- A question is answered, and the visit ends. -/
def answer (key : String) (want : CellType) (r : Resolved) : Stepped :=
  ⟨r.store, .gone, [.answered key want r.answer]⟩

/-- One step of a visit to a store, where the lock of the entry may be taken. -/
def step (s : Store) (taken : Bool) (v : Visit) : Stepped :=
  match v.errand, v.point with
  | .register key r, .arriving =>
    match s.register key r with
    | .ok s => ⟨s, .gone, [.registered key r]⟩
    | .error e => ⟨s, .gone, [.refused key e]⟩
  | .ask key want init, .arriving =>
    -- without a recipe nobody waits for an entry that is not there
    if init.isNone ∧ s.contains key = false then answer key want (s.resolve key want init)
    else ⟨s.enter key init, .queueing, []⟩
  | .ask _ _ _, .queueing => ⟨s, if taken then .queueing else .looking, []⟩
  | .ask key want init, .looking =>
    match s.entries.find? key with
    | none => answer key want (s.resolve key want init)
    | some e =>
      match recipeFor e init with
      | some (used, r) => ⟨s.takeFactory key e, .building used r, [.ran key used r]⟩
      | none => answer key want (s.resolve key want init)
  | .ask key want _, .building used r =>
    match s.entries.find? key with
    | none => ⟨s, .gone, []⟩
    | some e => answer key want (s.build key want e used r)
  | _, _ => ⟨s, .gone, []⟩

end Visit

/-- A store with its visits, and what has happened so far. -/
structure Traffic where
  store : Store
  visits : List Visit
  log : List Event
  deriving DecidableEq, Repr

/-- What may happen next. -/
inductive Move where
  /-- Somebody comes. -/
  | come (q : Errand)
  /-- A visit takes a step. -/
  | go (i : Nat)
  /-- Somebody changes a cell that has been handed out. -/
  | bump (ref : Nat) (more : Cell)
  deriving DecidableEq, Repr

namespace Traffic

/-- The store without keys, before the first visit. -/
def opening : Traffic := ⟨.empty, [], []⟩

/-- Somebody has the lock of an entry. -/
def isTaken (t : Traffic) (key : String) : Bool := t.visits.any (·.hasLock key)

/-- Carries out a move. -/
def fire (t : Traffic) : Move → Traffic
  | .come q => { t with visits := t.visits ++ [⟨q, .arriving⟩] }
  | .go i =>
    match t.visits[i]? with
    | none => t
    | some v =>
      let r := v.step t.store (t.isTaken v.errand.key)
      ⟨r.store, t.visits.set i { v with point := r.point }, t.log ++ r.events⟩
  | .bump ref more => { t with store := t.store.bump ref more }

/-- Carries out moves one after the other. -/
def run (t : Traffic) (ms : List Move) : Traffic := ms.foldl fire t

theorem run_append (t : Traffic) (ms ms' : List Move) :
    t.run (ms ++ ms') = (t.run ms).run ms' := List.foldl_append

theorem fire_go {t : Traffic} {i : Nat} {v : Visit} (hv : t.visits[i]? = some v) :
    t.fire (.go i) =
      ⟨(v.step t.store (t.isTaken v.errand.key)).store,
        t.visits.set i { v with point := (v.step t.store (t.isTaken v.errand.key)).point },
        t.log ++ (v.step t.store (t.isTaken v.errand.key)).events⟩ := by
  simp only [fire, hv]

/-! ### Visits that nobody disturbs -/

/-- A store with one visit, which is about to begin. -/
def single (s : Store) (q : Errand) : Traffic := ⟨s, [⟨q, .arriving⟩], []⟩

/-- The moves of a visit that nobody disturbs. -/
def undisturbed : List Move := List.replicate 4 (.go 0)

theorem run_register (s : Store) (key : String) (r : Recipe) :
    (single s (.register key r)).run undisturbed =
      match s.register key r with
      | .ok s => ⟨s, [⟨.register key r, .gone⟩], [.registered key r]⟩
      | .error e => ⟨s, [⟨.register key r, .gone⟩], [.refused key e]⟩ := by
  cases h : s.register key r <;>
    simp [undisturbed, single, run, fire, Visit.step, h, List.replicate]

/-- Looking at the slot with the lock of the entry, and building its value if need be, comes to the
same as answering from the entry at once. -/
theorem run_looking (s : Store) (key : String) (want : CellType) (init : Option Recipe) :
    ∃ recipe, run ⟨s, [⟨.ask key want init, .looking⟩], []⟩ [.go 0, .go 0] =
      ⟨(s.resolve key want init).store, [⟨.ask key want init, .gone⟩],
        ((s.resolve key want init).used.toList.map fun used => .ran key used recipe) ++
          [.answered key want (s.resolve key want init).answer]⟩ := by
  cases he : s.entries.find? key with
  | none => exact ⟨.panics, by simp [run, fire, Visit.step, Visit.answer, resolve, he]⟩
  | some e =>
    cases hr : recipeFor e init with
    | none =>
      have hresolve := resolve_of_no_recipe want he hr
      exact ⟨.panics, by simp [run, fire, Visit.step, Visit.answer, he, hr, hresolve]⟩
    | some x =>
      obtain ⟨used, r⟩ := x
      have hresolve := resolve_of_recipe want he hr
      have hused : (s.resolve key want init).used = some used := by
        rw [hresolve]
        cases r <;> rfl
      refine ⟨r, ?_⟩
      simp [run, fire, Visit.step, Visit.answer, he, hr, find?_takeFactory, hused]
      simp [hresolve]

theorem run_ask (s : Store) (key : String) (want : CellType) (init : Option Recipe) :
    let r := (s.enter key init).resolve key want init
    ∃ recipe, (single s (.ask key want init)).run undisturbed =
        ⟨r.store, [⟨.ask key want init, .gone⟩],
          (r.used.toList.map fun used => .ran key used recipe) ++
            [.answered key want r.answer]⟩ := by
  intro r
  by_cases habsent : init.isNone ∧ s.contains key = false
  · obtain ⟨rfl, hkey⟩ : init = none ∧ s.contains key = false := by simpa using habsent
    have hnone : s.entries.find? key = none := by
      simpa [contains, SortedMap.contains] using hkey
    have hr : r = ⟨s, .error (.unregistered key), none, []⟩ := by
      simp [r, enter, resolve, hnone]
    refine ⟨.panics, ?_⟩
    simp [undisturbed, List.replicate, single, run, fire, Visit.step, Visit.answer, hkey, hr,
      resolve, hnone]
  · obtain ⟨recipe, hrun⟩ := run_looking (s.enter key init) key want init
    have henter (taken : Bool) : (⟨.ask key want init, .arriving⟩ : Visit).step s taken =
        ⟨s.enter key init, .queueing, []⟩ := if_neg habsent
    have hlooking : (single s (.ask key want init)).run [.go 0, .go 0] =
        ⟨s.enter key init, [⟨.ask key want init, .looking⟩], []⟩ := by
      simp only [single, run, List.foldl_cons, List.foldl_nil, fire, List.getElem?_cons_zero,
        henter, List.set_cons_zero]
      simp [Visit.step, isTaken, Visit.hasLock]
    exact ⟨recipe, by rw [← hrun, ← hlooking, ← run_append]; rfl⟩

end Traffic

end Store

end Lockstep
