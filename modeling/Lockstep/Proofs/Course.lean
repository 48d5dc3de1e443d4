import Lockstep.Actors.Kinds

/-!
# Actors that loop over phases and iterations

Most actors are one loop in another: as long as there is a next phase, they iterate in it until they
are told to leave it; then they go for the next one, and when there is none their work is complete.
In between they do things of their own, but not for ever, and an error of the barrier they pass on.
They may still fail or panic by themselves.

* `Point` : a place in the loop, with the number of deeds before the next question;
* `Point.Asks`, `Point.Hears` : what is asked there, and where an answer leads;
* `Course` : the minds of actors that follow the loop;
* `Greeter.course`, `PoolUser.course`, `Flaky.course`, `Mind.course` : **the actors there are follow
  it**, flaky ones if they are not told to leave early.
-/

namespace Lockstep

/-- Something an actor does that is no question about phases or iterations. -/
def Ask.isDeed : Ask → Bool
  | pause _ => true
  | begin _ => true
  | count _ _ _ => true
  | report _ => true
  | discard => true
  | bump _ _ => true
  | _ => false

/-- The answers there are to a question. -/
inductive Ask.Gets : Ask → Reply → Prop
  | phase (plan : Option PhasePlan) : Gets .nextPhase (.phase plan)
  | halted (e : SyncError) : Gets .nextPhase (.halted e)
  | iteration (granted : Bool) (n : Nat) : Gets .iterate (.iteration granted n)
  | done {q : Ask} (hq : q.isDeed = true) : Gets q .done
  | recorded (o : Outcome) (r : Except MetricsError Unit) : Gets (.report o) (.recorded r)

/-- An actor fails by itself, with an error that is not one of the barrier, or it panics. -/
def Ending.isFault : Ending → Bool
  | completed => false
  | failed (.sync _) => false
  | failed _ => true
  | panicked _ => true

/-- What an actor is about. -/
inductive Leg where
  /-- Goes for the next phase. -/
  | arriving
  /-- Works in a phase, and goes for the next iteration. -/
  | working
  /-- There are no more phases; its work will be complete. -/
  | closing
  /-- It has met with an error of the barrier, and passes it on. -/
  | quitting (e : SyncError)
  /-- It is going to fail or to panic by itself. -/
  | failing
  deriving DecidableEq

/-- A place in the loop: what the actor is about, and how many deeds come first. -/
structure Point where
  leg : Leg
  deeds : Nat
  deriving DecidableEq

namespace Point

/-- What may be asked at a place: a deed while there are any to come, then the question. -/
def Asks (x : Point) (q : Ask) : Prop :=
  match x.deeds, x.leg with
  | _ + 1, _ => q.isDeed = true
  | 0, .arriving => q = .nextPhase
  | 0, .working => q = .iterate
  | 0, .closing => q = .finish .completed
  | 0, .quitting e => q = .finish (.failed (.sync e))
  | 0, .failing => ∃ e, q = .finish e ∧ e.isFault = true

/-- Where the answer to a question leads. -/
inductive Hears : Point → Reply → Point → Prop
  /-- A deed is done, and fewer are left. -/
  | does {leg : Leg} {n m : Nat} (r : Reply) (h : m ≤ n) : Hears ⟨leg, n + 1⟩ r ⟨leg, m⟩
  | enters (plan : PhasePlan) (n : Nat) :
      Hears ⟨.arriving, 0⟩ (.phase (some plan)) ⟨.working, n⟩
  | closes (n : Nat) : Hears ⟨.arriving, 0⟩ (.phase none) ⟨.closing, n⟩
  | quits (e : SyncError) (n : Nat) : Hears ⟨.arriving, 0⟩ (.halted e) ⟨.quitting e, n⟩
  | iterates (k n : Nat) : Hears ⟨.working, 0⟩ (.iteration true k) ⟨.working, n⟩
  | leaves (k n : Nat) : Hears ⟨.working, 0⟩ (.iteration false k) ⟨.arriving, n⟩
  /-- It may fail anywhere. -/
  | fails {x : Point} (hx : x.leg ≠ .failing) (r : Reply) (n : Nat) : Hears x r ⟨.failing, n⟩

end Point

/-- The minds of actors that follow the loop. -/
structure Course (σ : Type) [Behaviour σ] where
  /-- Such a mind is at a place of the loop. -/
  At : σ → Point → Prop
  asks : ∀ {m : σ} {x : Point}, At m x → x.Asks (Behaviour.ask m)
  hears : ∀ {m : σ} {x : Point}, At m x → ∀ (now : Nat) {r : Reply}, (Behaviour.ask m).Gets r →
    ∃ y, x.Hears r y ∧ At (Behaviour.hear m now r) y

/-- Where an actor is that ends its work. -/
def Ending.point : Ending → Point
  | completed => ⟨.closing, 0⟩
  | failed (.sync e) => ⟨.quitting e, 0⟩
  | failed _ => ⟨.failing, 0⟩
  | panicked _ => ⟨.failing, 0⟩

theorem Ending.asks_finish (e : Ending) : e.point.Asks (.finish e) := by
  cases e with
  | completed => rfl
  | failed e => cases e <;> first | rfl | exact ⟨_, rfl, rfl⟩
  | panicked m => exact ⟨_, rfl, rfl⟩

/-- Who ends its work is not answered any more. -/
theorem Ask.not_gets_finish (e : Ending) (r : Reply) : ¬ (Ask.finish e).Gets r := by
  intro h
  cases h with
  | done hq => cases hq

theorem Ask.Gets.of_nextPhase {r : Reply} (h : nextPhase.Gets r) :
    (∃ plan, r = .phase (some plan)) ∨ r = .phase none ∨ ∃ e, r = .halted e := by
  cases h with
  | phase plan =>
    cases plan with
    | none => exact .inr (.inl rfl)
    | some plan => exact .inl ⟨plan, rfl⟩
  | halted e => exact .inr (.inr ⟨e, rfl⟩)
  | done hq => cases hq

theorem Ask.Gets.of_iterate {r : Reply} (h : iterate.Gets r) :
    ∃ n, r = .iteration true n ∨ r = .iteration false n := by
  cases h with
  | iteration granted n =>
    cases granted with
    | true => exact ⟨n, .inl rfl⟩
    | false => exact ⟨n, .inr rfl⟩
  | done hq => cases hq

/-! ### Greeters -/

namespace Greeter

/-- Where a greeter is. -/
def Step.point : Step → Point
  | seeking => ⟨.arriving, 0⟩
  | iterating => ⟨.working, 0⟩
  | beginning => ⟨.working, 4⟩
  | bumping => ⟨.working, 3⟩
  | counting => ⟨.working, 2⟩
  | reporting => ⟨.working, 1⟩
  | ended e => e.point

/-- Greeters follow the loop. -/
def course : Course Greeter where
  At g x := x = g.step.point
  asks := by
    rintro ⟨operation, counter, messages, message, step⟩ _ rfl
    cases step with
    | ended e => exact e.asks_finish
    | _ => rfl
  hears := by
    rintro ⟨operation, counter, messages, message, step⟩ _ rfl now r hr
    refine ⟨_, ?_, rfl⟩
    cases step with
    | seeking =>
      obtain ⟨plan, rfl⟩ | rfl | ⟨e, rfl⟩ := hr.of_nextPhase
      · exact .enters plan 0
      · exact .closes 0
      · exact .quits e 0
    | iterating =>
      obtain ⟨n, rfl | rfl⟩ := hr.of_iterate
      · exact .iterates n 4
      · exact .leaves n 0
    | reporting =>
      cases hr with
      | recorded o r =>
        cases r with
        | ok _ => exact .does _ (Nat.le_refl 0)
        | error e => exact .fails (by rintro ⟨⟩) _ 0
      | done => exact .does _ (Nat.le_refl 0)
    | ended e => exact absurd hr (Ask.not_gets_finish e r)
    | _ =>
      cases hr
      exact .does _ (Nat.le_refl _)

end Greeter

/-! ### Users of a pool -/

namespace PoolUser

/-- Where a user of a pool is. -/
def Step.point : Step → Point
  | seeking => ⟨.arriving, 0⟩
  | iterating => ⟨.working, 0⟩
  | adding _ => ⟨.working, 1⟩
  | ended e => e.point

/-- Users of a pool follow the loop. -/
def course : Course PoolUser where
  At a x := x = a.step.point
  asks := by
    rintro ⟨pool, step⟩ _ rfl
    cases step with
    | ended e => exact e.asks_finish
    | _ => rfl
  hears := by
    rintro ⟨pool, step⟩ _ rfl now r hr
    refine ⟨_, ?_, rfl⟩
    cases step with
    | seeking =>
      obtain ⟨plan, rfl⟩ | rfl | ⟨e, rfl⟩ := hr.of_nextPhase
      · exact .enters plan 0
      · exact .closes 0
      · exact .quits e 0
    | iterating =>
      obtain ⟨n, rfl | rfl⟩ := hr.of_iterate
      · exact .iterates n 1
      · exact .leaves n 0
    | adding n =>
      cases hr
      exact .does _ (Nat.le_refl _)
    | ended e => exact absurd hr (Ask.not_gets_finish e r)

end PoolUser

/-! ### Flaky actors -/

/-- The actor is not told to leave early. -/
structure FlakyPlan.Stays (p : FlakyPlan) : Prop where
  exitAt : p.exitAt = none
  exitEarly : p.exitEarly = false

namespace Flaky

/-- Where a flaky actor is. -/
def Step.point : Step → Point
  | seeking => ⟨.arriving, 0⟩
  | iterating => ⟨.working, 0⟩
  | beginning _ => ⟨.working, 4⟩
  | working _ _ => ⟨.working, 3⟩
  | counting _ => ⟨.working, 2⟩
  | closing _ => ⟨.working, 1⟩
  | failing _ => ⟨.failing, 1⟩
  | blowing _ => ⟨.failing, 1⟩
  | ended e => e.point

/-- The actor is in no phase told to leave early. -/
structure Stays (a : Flaky) : Prop where
  plans : ∀ k p, a.plans.find? k = some p → p.Stays
  plan : a.plan.Stays

theorem Stays.moveTo {a : Flaky} (ha : a.Stays) (step : Step) : (a.moveTo step).Stays :=
  ⟨ha.plans, ha.plan⟩

theorem Stays.hear {a : Flaky} (ha : a.Stays) (r : Reply) : (a.hear r).Stays := by
  have hafterWork (n : Nat) : (a.afterWork n).Stays := by
    unfold afterWork
    repeat' split
    all_goals exact ha.moveTo _
  unfold Flaky.hear
  split
  · next plan _ =>
    refine ⟨ha.plans, ?_⟩
    cases h : a.plans.find? plan.number with
    | none => exact ⟨rfl, rfl⟩
    | some p => exact ha.plans _ p h
  case h_6 =>
    unfold afterBegin
    repeat' split
    all_goals first | exact hafterWork _ | exact ha.moveTo _
  all_goals first | exact hafterWork _ | exact ha.moveTo _

/-- After the work of an iteration the operation is counted, or the actor is going to fail. -/
theorem hears_afterWork (a : Flaky) (k n : Nat) (h : 2 ≤ n) (r : Reply) :
    Point.Hears ⟨.working, n + 1⟩ r (a.afterWork k).step.point := by
  unfold afterWork
  split
  · exact .fails (by rintro ⟨⟩) _ 1
  · split
    · exact .fails (by rintro ⟨⟩) _ 1
    · exact .does _ h

/-- Flaky actors that stay follow the loop. -/
def course : Course Flaky where
  At a x := a.Stays ∧ x = a.step.point
  asks := by
    rintro ⟨operation, plans, plan, step⟩ _ ⟨-, rfl⟩
    cases step with
    | ended e => exact e.asks_finish
    | closing n =>
      change (Flaky.ask _).isDeed = true
      unfold ask
      simp only
      split <;> rfl
    | _ => rfl
  hears := by
    rintro ⟨operation, plans, plan, step⟩ _ ⟨ha, rfl⟩ now r hr
    refine ⟨_, ?_, ha.hear r, rfl⟩
    cases step with
    | seeking =>
      obtain ⟨plan', rfl⟩ | rfl | ⟨e, rfl⟩ := hr.of_nextPhase
      · have hstays : ((plans.find? plan'.number).getD {}).exitEarly = false :=
          (ha.hear (.phase (some plan'))).plan.exitEarly
        change Point.Hears _ _ (if ((plans.find? plan'.number).getD {}).exitEarly = true then
          Step.ended .completed else .iterating).point
        rw [hstays]
        exact .enters plan' 0
      · exact .closes 0
      · exact .quits e 0
    | iterating =>
      obtain ⟨n, rfl | rfl⟩ := hr.of_iterate
      · exact .iterates n 4
      · exact .leaves n 0
    | beginning n =>
      cases hr
      simp only [Behaviour.hear, hear, afterBegin]
      split
      · exact hears_afterWork _ n 3 (by decide) _
      · split
        · exact .does _ (Nat.le_refl _)
        · exact .fails (by rintro ⟨⟩) _ 0
    | working n d =>
      cases hr
      exact hears_afterWork _ n 2 (Nat.le_refl 2) _
    | counting n =>
      cases hr
      exact .does _ (Nat.le_refl _)
    | closing n =>
      have hgoesOn (r : Reply) : Point.Hears ⟨.working, 1⟩ r
          (if plan.exitAt = some n then Step.ended .completed else .iterating).point := by
        have hno : plan.exitAt ≠ some n := fun h => by cases ha.plan.exitAt.symm.trans h
        rw [if_neg hno]
        exact .does _ (Nat.le_refl 0)
      cases r with
      | recorded r =>
        cases r with
        | ok _ => exact hgoesOn _
        | error e => exact .fails (by rintro ⟨⟩) _ 0
      | _ => exact hgoesOn _
    | failing n =>
      cases hr with
      | recorded o r => cases r <;> exact .does _ (Nat.le_refl 0)
      | done => exact .does _ (Nat.le_refl 0)
    | blowing n =>
      cases hr
      exact .does _ (Nat.le_refl _)
    | ended e => exact absurd hr (Ask.not_gets_finish e r)

end Flaky

/-! ### Actors of any kind -/

/-- Greeters, users of a pool, and flaky actors that stay follow the loop. -/
def Mind.course : Course Mind where
  At
    | greeter g, x => Greeter.course.At g x
    | poolUser a, x => PoolUser.course.At a x
    | flaky a, x => Flaky.course.At a x
    | _, _ => False
  asks {m x} hm := by
    cases m with
    | greeter g => exact Greeter.course.asks hm
    | poolUser a => exact PoolUser.course.asks hm
    | flaky a => exact Flaky.course.asks hm
    | _ => cases hm
  hears {m x} hm now r hr := by
    cases m with
    | greeter g => exact Greeter.course.hears hm now hr
    | poolUser a => exact PoolUser.course.hears hm now hr
    | flaky a => exact Flaky.course.hears hm now hr
    | _ => cases hm

end Lockstep
