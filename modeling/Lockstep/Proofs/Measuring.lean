import Lockstep.Actors.Kinds

/-!
# Actors that measure what they do in an iteration

An actor may begin an operation whenever it likes, and report it much later.  Most actors do both
inside of one iteration.

* `Place` : where an actor is with regard to its iterations and operations, and `Place.after` where
  an answer takes it;
* `Comes` : the states an actor comes to by answers that fit what it asks;
* `Tidy` : **whatever it is answered, the actor begins and reports an operation inside of one
  iteration**;
* `Mind.tidy_greeter`, `Mind.tidy_flaky` : greeters and flaky actors do.
-/

namespace Lockstep

/-- The answer is one to what was asked; an actor that has to wait may be called away instead. -/
def Reply.answers : Reply → Ask → Bool
  | .phase _, .nextPhase => true
  | .halted _, .nextPhase => true
  | .iteration _ _, .iterate => true
  | .noPhase, .iterate => true
  | .recorded _, .report _ => true
  | .finished _, .isFinished => true
  | .done, .isFinished => false
  | .done, .rest => false
  | .done, .finish _ => false
  | .done, _ => true
  | _, _ => false

/-- Where an actor is with regard to its iterations and operations. -/
inductive Place where
  /-- Outside of all iterations. -/
  | between
  /-- In an iteration, in which it measures nothing. -/
  | within
  /-- In the iteration in which it has begun the operation it measures. -/
  | measuring
  deriving DecidableEq, Repr

/-- Where an answer takes an actor. -/
def Place.after (pl : Place) : Ask → Reply → Place
  | .nextPhase, _ => between
  | .isFinished, _ => between
  | .leave, _ => between
  | .iterate, .iteration true _ => within
  | .iterate, _ => between
  | .begin _, _ => measuring
  | .report _, _ => if pl = measuring then within else pl
  | .discard, _ => if pl = measuring then within else pl
  | _, _ => pl

section

variable {σ τ : Type} [Behaviour σ] [Behaviour τ] {m₀ : σ}

/-- The states that an actor comes to from outside of all iterations, with the places it is at. -/
inductive Comes (m₀ : σ) : σ → Place → Prop where
  | start : Comes m₀ m₀ .between
  | hear {m : σ} {pl : Place} (h : Comes m₀ m pl) (now : Nat) {r : Reply}
      (hr : r.answers (Behaviour.ask m) = true) :
      Comes m₀ (Behaviour.hear m now r) (pl.after (Behaviour.ask m) r)

/-- Whatever it is answered, the actor begins an operation only in an iteration, and reports one
only in the iteration in which it has begun it. -/
structure Tidy (m₀ : σ) : Prop where
  begins : ∀ {m pl o}, Comes m₀ m pl → Behaviour.ask m = .begin o → pl ≠ .between
  reports : ∀ {m pl o}, Comes m₀ m pl → Behaviour.ask m = .report o → pl = .measuring

/-- It is enough to say in which states the actor is at which places. -/
theorem Tidy.of_invariant {P : σ → Place → Prop} (hstart : P m₀ .between)
    (hhear : ∀ m pl now r, P m pl → P (Behaviour.hear m now r) (pl.after (Behaviour.ask m) r))
    (hbegins : ∀ m pl o, P m pl → Behaviour.ask m = .begin o → pl ≠ .between)
    (hreports : ∀ m pl o, P m pl → Behaviour.ask m = .report o → pl = .measuring) : Tidy m₀ := by
  have hkept {m : σ} {pl : Place} (hm : Comes m₀ m pl) : P m pl := by
    induction hm with
    | start => exact hstart
    | hear _ now _ ih => exact hhear _ _ now _ ih
  exact ⟨fun hm => hbegins _ _ _ (hkept hm), fun hm => hreports _ _ _ (hkept hm)⟩

/-- An actor is as tidy as it was before it was one of many kinds. -/
theorem Tidy.map {f : σ → τ} (hask : ∀ m, Behaviour.ask (f m) = Behaviour.ask m)
    (hhear : ∀ m now r, Behaviour.hear (f m) now r = f (Behaviour.hear m now r)) (h : Tidy m₀) :
    Tidy (f m₀) := by
  have hcomes {m' : τ} {pl : Place} (hm' : Comes (f m₀) m' pl) : ∃ m, m' = f m ∧ Comes m₀ m pl := by
    induction hm' with
    | start => exact ⟨m₀, rfl, .start⟩
    | hear _ now hr ih =>
      obtain ⟨m, rfl, hm⟩ := ih
      rw [hask] at hr ⊢
      exact ⟨_, hhear m now _, hm.hear now hr⟩
  constructor
  · intro m' pl o hm' hq
    obtain ⟨m, rfl, hm⟩ := hcomes hm'
    exact h.begins hm (hask m ▸ hq)
  · intro m' pl o hm' hq
    obtain ⟨m, rfl, hm⟩ := hcomes hm'
    exact h.reports hm (hask m ▸ hq)

end

/-! ### Greeters -/

namespace Greeter

/-- Where a greeter is from the time it begins a greeting until it has reported it. -/
def Step.place? : Step → Option Place
  | .beginning => some .within
  | .bumping => some .measuring
  | .counting => some .measuring
  | .reporting => some .measuring
  | _ => none

/-- A greeter measures every greeting in an iteration of its own. -/
theorem tidy {g : Greeter} (hg : g.step = .seeking) : Tidy g := by
  refine .of_invariant (P := fun g pl => ∀ x, g.step.place? = some x → pl = x)
    (by simp [hg, Step.place?]) (fun g pl now r h => ?_) (fun g pl o h hq => ?_)
    fun g pl o h hq => ?_
  · change ∀ x, (g.hear r).step.place? = some x → pl.after g.ask r = x
    unfold Greeter.hear Greeter.ask
    split <;> simp_all [Step.place?, moveTo, Place.after]
  · change g.ask = .begin o at hq
    unfold Greeter.ask at hq
    split at hq <;> simp_all [Step.place?]
  · change g.ask = .report o at hq
    unfold Greeter.ask at hq
    split at hq <;> simp_all [Step.place?]

end Greeter

/-! ### Flaky actors -/

namespace Flaky

/-- Where a flaky actor is from the time it begins an operation until it has ended it. -/
def Step.place? : Step → Option Place
  | .beginning _ => some .within
  | .working _ _ => some .measuring
  | .failing _ => some .measuring
  | .blowing _ => some .measuring
  | .counting _ => some .measuring
  | .closing _ => some .measuring
  | _ => none

theorem place?_afterWork (a : Flaky) (n : Nat) : (a.afterWork n).step.place? = some .measuring := by
  unfold afterWork
  split
  · rfl
  · split <;> rfl

/-- An actor that cannot tell how long to work fails before it has ended the operation. -/
theorem place?_afterBegin (a : Flaky) (n : Nat) {x : Place}
    (hx : (a.afterBegin n).step.place? = some x) : x = .measuring := by
  unfold afterBegin at hx
  split at hx
  · exact (Option.some.inj ((place?_afterWork a n).symm.trans hx)).symm
  · split at hx
    · exact (Option.some.inj hx).symm
    · cases hx

/-- A flaky actor measures every operation in an iteration of its own. -/
theorem tidy {a : Flaky} (ha : a.step = .seeking) : Tidy a := by
  refine .of_invariant (P := fun a pl => ∀ x, a.step.place? = some x → pl = x)
    (by simp [ha, Step.place?]) (fun a pl now r h => ?_) (fun a pl o h hq => ?_)
    fun a pl o h hq => ?_
  · change ∀ x, (a.hear r).step.place? = some x → pl.after a.ask r = x
    intro x hx
    unfold Flaky.hear at hx
    split at hx
    case h_1 =>
      dsimp only at hx
      split at hx <;> cases hx
    case h_6 hs =>
      rw [place?_afterBegin a _ hx]
      simp [Flaky.ask, hs, Place.after]
    case h_7 hs =>
      rw [place?_afterWork] at hx
      simpa [Flaky.ask, hs, Place.after] using (h _ (by rw [hs]; rfl)).trans (Option.some.inj hx)
    case h_13 =>
      simp only [moveTo] at hx
      split at hx <;> cases hx
    all_goals simp_all [Flaky.ask, Step.place?, moveTo, Place.after]
  · change a.ask = .begin o at hq
    unfold Flaky.ask at hq
    split at hq
    case h_8 => split at hq <;> cases hq
    all_goals simp_all [Step.place?]
  · change a.ask = .report o at hq
    unfold Flaky.ask at hq
    split at hq
    all_goals simp_all [Step.place?]

end Flaky

namespace Mind

theorem tidy_flaky {a : Flaky} (ha : a.step = .seeking) : Tidy (flaky a) :=
  .map (fun _ => rfl) (fun _ _ _ => rfl) (Flaky.tidy ha)

end Mind

end Lockstep
