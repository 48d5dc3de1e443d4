import Lockstep.Store.Visit
import Mathlib.Data.List.Basic

/-!
# What may become of a shared value

A key of a store goes through few states, whoever asks for it: nobody has built its value, somebody
is building it, it has been built, or that has failed.  This file says which events may happen at a
key in which of them, and what follows for its history, with no store in sight.

* `Store.Fate` and `Fate.Next` : the states, and the events between them;
* `Fate.Path` : a history of a key leads from one state to another;
* `Path.ran_once`, `Path.same_ref`, `Path.failure_kept`, `Path.value_kept` : in the history of a
  key a recipe is carried out at most once, everybody gets the same cell, and a failure or a value
  is there for good.
-/

namespace Lockstep

namespace Store

/-- What has become of a key. -/
inductive Fate where
  /-- Nobody has built its value, but a recipe may have been given beforehand. -/
  | awaited (factory : Option Recipe)
  | building (used : Origin) (r : Recipe)
  | built (ref : Nat) (type : CellType)
  | failed (reason : String)

/-- The answer to somebody who wants a value of some type, from a cell. -/
def handed (key : String) (ref : Nat) (type want : CellType) : Answer :=
  if want = type then .value ref else .error (.typeMismatch key want.name)

/-- A recipe was carried out. -/
def Event.isRun : Event → Bool
  | ran _ _ _ => true
  | _ => false

/-- Somebody was told that a value has just failed to come about. -/
def Event.isConstruction : Event → Bool
  | answered _ _ (.error (.construction _ _)) => true
  | _ => false

namespace Fate

/-- The events that may happen at a key. -/
inductive Next (key : String) : Fate → Event → Fate → Prop where
  | registers (r : Recipe) : Next key (.awaited none) (.registered key r) (.awaited (some r))
  | refuses (f : Fate) : Next key f (.refused key (.alreadyRegistered key)) f
  | misses (want : CellType) : Next key (.awaited none)
      (.answered key want (.error (.unregistered key))) (.awaited none)
  /-- The recipe given beforehand is carried out. -/
  | takes (r : Recipe) :
      Next key (.awaited (some r)) (.ran key .registered r) (.building .registered r)
  /-- There is none, and the recipe of the asker is carried out. -/
  | brings (r : Recipe) : Next key (.awaited none) (.ran key .asker r) (.building .asker r)
  | builds (used : Origin) (c : Cell) (ref : Nat) (want : CellType) :
      Next key (.building used (.value c))
        (.answered key want (handed key ref c.type want)) (.built ref c.type)
  | fails (used : Origin) (reason : String) (want : CellType) :
      Next key (.building used (.fails reason))
        (.answered key want (.error (.construction key reason)))
        (.failed (StateError.construction key reason).message)
  | hands (ref : Nat) (type want : CellType) :
      Next key (.built ref type) (.answered key want (handed key ref type want)) (.built ref type)
  | repeats (reason : String) (want : CellType) :
      Next key (.failed reason)
        (.answered key want (.error (.previouslyFailed key reason))) (.failed reason)

/-- A history of a key leads from one state to another. -/
inductive Path (key : String) : Fate → List Event → Fate → Prop where
  | nil (f : Fate) : Path key f [] f
  | cons {f f' f'' : Fate} {e : Event} {es : List Event} (h : Next key f e f')
      (hs : Path key f' es f'') : Path key f (e :: es) f''

variable {key : String} {f f' f'' : Fate} {e : Event} {es es' : List Event}

theorem Path.single (h : Next key f e f') : Path key f [e] f' := .cons h (.nil f')

theorem Path.append (h : Path key f es f') (h' : Path key f' es' f'') :
    Path key f (es ++ es') f'' := by
  induction h with
  | nil => exact h'
  | cons h _ ih => exact .cons h (ih h')

theorem Path.split (h : Path key f (es ++ e :: es') f'') :
    ∃ g g', Path key f es g ∧ Next key g e g' ∧ Path key g' es' f'' := by
  induction es generalizing f with
  | nil =>
    cases h with
    | cons h hs => exact ⟨f, _, .nil f, h, hs⟩
  | cons a as ih =>
    cases h with
    | cons h hs =>
      obtain ⟨g, g', h₁, h₂, h₃⟩ := ih hs
      exact ⟨g, g', .cons h h₁, h₂, h₃⟩

/-! ### Histories from a state on -/

/-- Nobody has begun to build the value. -/
def isAwaited : Fate → Bool
  | awaited _ => true
  | _ => false

theorem Next.isAwaited_eq_false (h : Next key f e f') (hf : f.isAwaited = false) :
    f'.isAwaited = false ∧ e.isRun = false ∧ ∀ r, e ≠ .registered key r := by
  cases h <;> simp_all [isAwaited, Event.isRun]

/-- Once somebody has begun to build the value no recipe is carried out, and none given. -/
theorem Path.of_begun (h : Path key f es f') (hf : f.isAwaited = false) :
    f'.isAwaited = false ∧ (∀ e ∈ es, e.isRun = false) ∧ ∀ r, Event.registered key r ∉ es := by
  induction h with
  | nil => exact ⟨hf, by simp, by simp⟩
  | cons h _ ih =>
    obtain ⟨hf', hrun, hreg⟩ := h.isAwaited_eq_false hf
    obtain ⟨hlast, hruns, hregs⟩ := ih hf'
    refine ⟨hlast, List.forall_mem_cons.2 ⟨hrun, hruns⟩, fun r hr => ?_⟩
    exact (List.mem_cons.1 hr).elim (fun h => hreg r h.symm) (hregs r)

/-- A value that has been built is handed out from then on. -/
theorem Path.of_built {ref : Nat} {type : CellType} (h : Path key (.built ref type) es f') :
    ∀ want a, Event.answered key want a ∈ es → a = handed key ref type want := by
  generalize hf : Fate.built ref type = f at h
  induction h with
  | nil => simp
  | cons h _ ih =>
    subst hf
    intro want a ha
    cases h with
    | refuses => exact ih rfl want a (List.mem_of_ne_of_mem (by rintro ⟨⟩) ha)
    | hands =>
      rcases List.mem_cons.1 ha with h | h
      · cases h; rfl
      · exact ih rfl want a h

/-- A value that has been built stays. -/
theorem Path.eq_built {ref : Nat} {type : CellType} (h : Path key (.built ref type) es f') :
    f' = .built ref type := by
  generalize hf : Fate.built ref type = f at h
  induction h with
  | nil => rfl
  | cons h _ ih =>
    subst hf
    cases h <;> exact ih rfl

/-- A failure is told from then on, and nothing else happens. -/
theorem Path.of_failed {reason : String} (h : Path key (.failed reason) es f') :
    ∀ e ∈ es, e = .refused key (.alreadyRegistered key) ∨
      ∃ want, e = .answered key want (.error (.previouslyFailed key reason)) := by
  generalize hf : Fate.failed reason = f at h
  induction h with
  | nil => simp
  | cons h _ ih =>
    subst hf
    cases h with
    | refuses => exact List.forall_mem_cons.2 ⟨.inl rfl, ih rfl⟩
    | repeats => exact List.forall_mem_cons.2 ⟨.inr ⟨_, rfl⟩, ih rfl⟩

/-- A value that is being built will be handed out to everybody. -/
theorem Path.of_building {used : Origin} {c : Cell}
    (h : Path key (.building used (.value c)) es f') :
    ∃ ref, ∀ want a, Event.answered key want a ∈ es → a = handed key ref c.type want := by
  generalize hf : Fate.building used (.value c) = f at h
  induction h with
  | nil => exact ⟨0, by simp⟩
  | cons h hs ih =>
    subst hf
    cases h with
    | refuses =>
      obtain ⟨ref, href⟩ := ih rfl
      exact ⟨ref, fun want a ha => href want a (List.mem_of_ne_of_mem (by rintro ⟨⟩) ha)⟩
    | builds _ _ ref =>
      refine ⟨ref, fun want a ha => ?_⟩
      rcases List.mem_cons.1 ha with h | h
      · cases h; rfl
      · exact hs.of_built want a h

/-- As long as no recipe has been carried out, one that was given is kept. -/
theorem Path.of_awaited {factory factory' : Option Recipe}
    (h : Path key (.awaited factory) es (.awaited factory')) :
    (∀ r, factory = some r → factory' = some r) ∧
      ∀ r, Event.registered key r ∈ es → factory' = some r := by
  generalize hf : Fate.awaited factory = f at h
  generalize hf' : Fate.awaited factory' = f' at h
  induction h generalizing factory with
  | nil =>
    subst hf
    cases hf'
    exact ⟨fun _ hr => hr, by simp⟩
  | cons h hs ih =>
    subst hf hf'
    cases h with
    | registers r =>
      obtain ⟨hkept, hgiven⟩ := ih rfl rfl
      refine ⟨by rintro _ ⟨⟩, fun r' hr' => ?_⟩
      rcases List.mem_cons.1 hr' with h | h
      · cases h; exact hkept r rfl
      · exact hgiven r' h
    | refuses | misses =>
      obtain ⟨hkept, hgiven⟩ := ih rfl rfl
      exact ⟨hkept, fun r hr => hgiven r (List.mem_of_ne_of_mem (by rintro ⟨⟩) hr)⟩
    | takes | brings => cases (hs.of_begun rfl).1

/-! ### Whole histories -/

/-- What forbids itself happens at most once. -/
theorem countP_le_one {α : Type} {p : α → Bool} {l : List α}
    (h : ∀ l₁ a l₂, l = l₁ ++ a :: l₂ → p a = true → ∀ b ∈ l₂, p b = false) :
    l.countP p ≤ 1 := by
  induction l with
  | nil => exact Nat.zero_le 1
  | cons a l ih =>
    cases ha : p a with
    | false =>
      rw [List.countP_cons_of_neg (by simp [ha])]
      exact ih fun l₁ b l₂ hl hb => h (a :: l₁) b l₂ (by rw [hl, List.cons_append]) hb
    | true =>
      have hrest : l.countP p = 0 := List.countP_eq_zero.2 fun b hb => by
        simp [h [] a l rfl ha b hb]
      simp [List.countP_cons_of_pos ha, hrest]

/-- At most one recipe is carried out. -/
theorem Path.ran_once (h : Path key f es f') : es.countP Event.isRun ≤ 1 := by
  refine countP_le_one fun es₁ e es₂ hes he => ?_
  subst hes
  obtain ⟨g, g', -, hnext, hafter⟩ := h.split
  have hbegun : g'.isAwaited = false := by cases hnext <;> simp_all [Event.isRun, isAwaited]
  exact (hafter.of_begun hbegun).2.1

/-- A recipe that was given beforehand is the one that is carried out. -/
theorem Path.registered_first (h : Path key (.awaited none) es f') {r r' : Recipe} {used : Origin}
    (hr : Event.registered key r ∈ es) (hran : Event.ran key used r' ∈ es) :
    used = .registered ∧ r' = r := by
  obtain ⟨es₁, es₂, rfl⟩ := List.append_of_mem hran
  obtain ⟨g, g', hbefore, hnext, hafter⟩ := h.split
  have hbegun : g'.isAwaited = false := by cases hnext <;> rfl
  have hr₁ : Event.registered key r ∈ es₁ := by
    rcases List.mem_append.1 hr with h | h
    · exact h
    · exact absurd (List.mem_of_ne_of_mem (by rintro ⟨⟩) h) ((hafter.of_begun hbegun).2.2 r)
  cases hnext with
  | takes =>
    have := hbefore.of_awaited.2 r hr₁
    exact ⟨rfl, Option.some.inj this⟩
  | brings => cases hbefore.of_awaited.2 r hr₁

/-- Everybody who gets a value gets the same cell. -/
theorem Path.same_ref (h : Path key f es f') :
    ∃ ref, ∀ want ref', Event.answered key want (.value ref') ∈ es → ref' = ref := by
  have hhanded {ref ref' : Nat} {type want : CellType}
      (h : Answer.value ref' = handed key ref type want) : ref' = ref := by
    unfold handed at h
    split at h
    · cases h; rfl
    · cases h
  induction h with
  | nil => exact ⟨0, by simp⟩
  | cons hnext hs ih =>
    cases hnext with
    | builds _ _ ref | hands ref =>
      refine ⟨ref, fun want ref' ha => ?_⟩
      rcases List.mem_cons.1 ha with h | h
      · injection h with _ _ h
        exact hhanded h
      · exact hhanded (hs.of_built want _ h)
    | _ =>
      obtain ⟨ref, href⟩ := ih
      exact ⟨ref, fun want ref' ha => href want ref' (List.mem_of_ne_of_mem (by rintro ⟨⟩) ha)⟩

/-- Only a recipe that has been carried out in vain makes a failure. -/
theorem Next.of_construction {want : CellType} {reason : String}
    (h : Next key f (.answered key want (.error (.construction key reason))) f') :
    f' = .failed (StateError.construction key reason).message := by
  generalize ha : Answer.error (.construction key reason) = a at h
  cases h with
  | misses | repeats => cases ha
  | builds | hands =>
    unfold handed at ha
    split at ha <;> cases ha
  | fails => cases ha; rfl

/-- After a failure nothing is carried out, and everybody is told of it. -/
theorem Path.failure_kept {want : CellType} {reason : String}
    (h : Path key f (es ++ .answered key want (.error (.construction key reason)) :: es') f') :
    (∀ e ∈ es', e.isRun = false) ∧ ∀ want a, Event.answered key want a ∈ es' →
      a = .error (.previouslyFailed key (StateError.construction key reason).message) := by
  obtain ⟨g, g', -, hnext, hafter⟩ := h.split
  cases hnext.of_construction
  refine ⟨fun e he => ?_, fun want a ha => ?_⟩
  · obtain rfl | ⟨_, rfl⟩ := hafter.of_failed e he <;> rfl
  · obtain h | ⟨_, h⟩ := hafter.of_failed _ ha
    · cases h
    · cases h; rfl

/-- Only one is told that the value has just failed to come about. -/
theorem Path.failed_once (h : Path key f es f') : es.countP Event.isConstruction ≤ 1 := by
  refine countP_le_one fun es₁ e es₂ hes he => ?_
  subst hes
  obtain ⟨g, g', -, hnext, hafter⟩ := h.split
  obtain ⟨reason, rfl⟩ : ∃ reason, g' = .failed reason := by
    cases hnext with
    | fails => exact ⟨_, rfl⟩
    | builds | hands =>
      unfold handed at he
      split at he <;> cases he
    | _ => cases he
  intro e' he'
  obtain rfl | ⟨_, rfl⟩ := hafter.of_failed e' he' <;> rfl

/-- A value that has been built is handed out to everybody who wants one of its type, and to nobody
else. -/
theorem Path.value_kept {used : Origin} {c : Cell}
    (h : Path key f (es ++ .ran key used (.value c) :: es') f') :
    ∃ ref, ∀ want a, Event.answered key want a ∈ es' → a = handed key ref c.type want := by
  obtain ⟨g, g', -, hnext, hafter⟩ := h.split
  cases hnext <;> exact hafter.of_building

end Fate

end Store

end Lockstep
