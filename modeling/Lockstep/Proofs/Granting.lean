import Lockstep.Proofs.CourseSteps
import Lockstep.Proofs.FailurePhase
import Lockstep.Proofs.Stopping

/-!
# Iterations within their phase

An actor that asks for another iteration may be kept waiting: for a pause, for a permit, or for the
others to go first.  Only then is the signal looked at once more, and the question answered.

* `Task.grants_iff` : with which steps of a task an iteration is granted;
* `System.exists_opens`, `System.IsReady.not_closes` : a phase that is open has been opened, and has
  not been closed since;
* `System.granted_while_open` : **an iteration is granted only while its phase is open and the run
  goes on.**

A phase that does not wait for the actor may close in any of these pauses, so there the last look at
the signal matters.  In a phase that waits for the actor that look says nothing about the phase:
there it is the token, which the actor has kept, that holds the phase open
(`System.IsReady.signal_of_stint`).
-/

namespace Lockstep

/-! ### Steps that grant an iteration -/

/-- An iteration is granted with the last look at the signal, and counted. -/
theorem Pace.answered_true_iff {now : Nat} {b : Barrier} {bucket : Option Bucket} {s : Stint}
    {p : Pace} : (p.step now b bucket s).2.2 = .answered true ↔
      p = .deciding ∧ s.isHalted b.signal = false ∧ s.iterations + 1 < wordLimit := by
  cases p with
  | deciding =>
    simp only [step, true_and]
    cases hh : s.isHalted b.signal with
    | true => simp
    | false =>
      cases hn : addWord? s.iterations 1 with
      | none =>
        have hlimit : ¬ s.iterations + 1 < wordLimit := fun hlt => by
          rw [addWord?, if_pos hlt] at hn
          cases hn
        simp [hlimit]
      | some n =>
        obtain ⟨rfl, hlimit⟩ := addWord?_eq_some_iff.1 hn
        simp [hlimit]
  | _ =>
    simp only [step, reduceCtorEq, false_and, iff_false]
    repeat' split
    all_goals rintro ⟨⟩

namespace Task

variable {σ : Type} {t : Task σ} {w : World}

theorem grants_iff : t.grants w = true ↔ ∃ x, t.stage = .pacing .deciding ∧ t.stint = some x ∧
    x.isHalted w.barrier.signal = false ∧ x.iterations + 1 < wordLimit := by
  unfold grants
  split
  · next p x hs hx =>
    have hiff := @Pace.answered_true_iff w.now w.barrier
      (w.bucket? (t.loop.elim 0 Participant.block) x.plan.number) x p
    simp only [hs, hx, Stage.pacing.injEq, Option.some.injEq]
    generalize (p.step w.now w.barrier _ x).2.2 = r at hiff ⊢
    cases r with
    | answered granted => simpa using hiff
    | _ => simpa using hiff
  · next hno =>
    refine iff_of_false (by decide) ?_
    rintro ⟨x, hs, hx, -⟩
    exact hno _ x hs hx

/-- The actor is told that it has another iteration, and which one it is. -/
theorem step_of_grants [Behaviour σ] (hg : t.grants w = true) {x : Stint} (hx : t.stint = some x) :
    (t.step w).task = tell w.now
      { t with stint := some { x with iterations := x.iterations + 1 } }
      (.iteration true (x.iterations + 1)) := by
  obtain ⟨y, hs, hy, hopen, hlimit⟩ := grants_iff.1 hg
  cases hx.symm.trans hy
  have hadd : addWord? x.iterations 1 = some (x.iterations + 1) := if_pos hlimit
  have hnow (block k : Nat) (b : Option Bucket) : (b.elim w (w.putBucket block k)).now = w.now := by
    cases b <;> rfl
  simp only [step, hs, pace, hx, Pace.step, hopen, hadd, Bool.false_eq_true, if_false, moves, hnow]

end Task

/-! ### Along a run -/

namespace System

variable {σ : Type} [Behaviour σ] {s₀ : System σ} {ls : List Label} {k : Nat}

/-- A phase that is open has been opened by some move. -/
theorem exists_opens (hs : s₀.world.barrier.signal.isOpen = false)
    (hk : (s₀.run ls).world.barrier.signal.phase = k)
    (ho : (s₀.run ls).world.barrier.signal.isOpen = true) :
    ∃ before l after, ls = before ++ l :: after ∧ (s₀.run before).Opens l k := by
  induction ls using List.reverseRecOn with
  | nil => exact absurd (hs.symm.trans ho) (by decide)
  | append_singleton ls l ih =>
    by_cases hbefore : (s₀.run ls).world.barrier.signal.phase = k ∧
        (s₀.run ls).world.barrier.signal.isOpen = true
    · obtain ⟨before, l', after, rfl, hopens⟩ := ih hbefore.1 hbefore.2
      exact ⟨before, l', after ++ [l], by simp, hopens⟩
    · rw [run_snoc] at hk ho
      exact ⟨ls, l, [], rfl, hbefore, hk, ho⟩

/-- A phase that has been closed is past. -/
theorem IsReady.not_closes (hs : s₀.IsReady)
    (hk : (s₀.run ls).world.barrier.signal.phase = k) {before after : List Label} {l : Label}
    (hls : ls = before ++ l :: after) : ¬ (s₀.run before).Closes l k := by
  intro hcloses
  obtain ⟨-, -, -, -, -, -, hclosed⟩ := (hs.balanced_run before).of_closes hcloses
  have hmono := hs.phase_mono (before ++ [l]) after
  rw [List.append_assoc, List.singleton_append, ← hls, hk, run_snoc, hclosed] at hmono
  exact absurd hmono (Nat.not_succ_le_self k)

/-- A run that goes on has gone on all the time, and nobody has stopped or aborted it. -/
theorem IsReady.running_of_isPrefix (hs : s₀.IsReady)
    (hr : (s₀.run ls).world.barrier.signal.halt = .running) :
    (∀ before, before <+: ls → (s₀.run before).world.barrier.signal.halt = .running) ∧
      ∀ l ∈ ls, l ≠ .stop ∧ ∀ f, l ≠ .abort f := by
  have hbefore (before : List Label) (hp : before <+: ls) :
      (s₀.run before).world.barrier.signal.halt = .running := by
    obtain ⟨after, rfl⟩ := hp
    rw [run_append] at hr
    exact (reaches_run _ after).heeds.halt.eq_running hr
  refine ⟨hbefore, fun l hl => ?_⟩
  obtain ⟨before, after, rfl⟩ := List.append_of_mem hl
  have hstart := hbefore before (List.prefix_append _ _)
  have hnext := hbefore (before ++ [l]) ⟨after, by simp⟩
  rw [run_snoc] at hnext
  constructor
  · rintro rfl
    rw [fire, onBarrier, Barrier.stop, if_pos hstart] at hnext
    cases hnext
  · rintro f rfl
    rw [fire, onBarrier, ((hs.balanced_run before).honest.abort f).1] at hnext
    cases hnext

/-- **An iteration is granted only while its phase is open and the run goes on.**  With that step
the actor is told that it has another iteration.  So its phase has been opened before, has not been
closed since, and the run has not been halted. -/
theorem granted_while_open (hs : s₀.IsReady) {i : Nat} {t : Task σ}
    (ht : (s₀.run ls).tasks[i]? = some t) (hg : t.grants (s₀.run ls).world = true) :
    ∃ x, t.stint = some x ∧
      (s₀.run ls).world.barrier.signal = ⟨x.plan.number, true, .running⟩ ∧
      (t.step (s₀.run ls).world).task = Task.tell (s₀.run ls).world.now
        { t with stint := some { x with iterations := x.iterations + 1 } }
        (.iteration true (x.iterations + 1)) ∧
      (∃ before l after, ls = before ++ l :: after ∧ (s₀.run before).Opens l x.plan.number) ∧
      (∀ before l after, ls = before ++ l :: after →
        ¬ (s₀.run before).Closes l x.plan.number) ∧
      (∀ before, before <+: ls → (s₀.run before).world.barrier.signal.halt = .running) ∧
      ∀ l ∈ ls, l ≠ .stop ∧ ∀ f, l ≠ .abort f := by
  obtain ⟨x, -, hx, hhalted, -⟩ := Task.grants_iff.1 hg
  simp only [Stint.isHalted, ne_eq, decide_not, Bool.or_eq_false_iff, Bool.not_eq_eq_eq_not,
    Bool.not_false, decide_eq_true_eq] at hhalted
  obtain ⟨⟨hrunning, -⟩, hlook⟩ := hhalted
  have hphase : (s₀.run ls).world.barrier.signal.phase = x.plan.number ∧
      (s₀.run ls).world.barrier.signal.isOpen = true := by
    cases hb : x.plan.blocking with
    | true => exact hs.signal_of_stint (List.mem_of_getElem? ht) hx hb
    | false => simpa [hb] using hlook
  have hstart : s₀.world.barrier.signal.isOpen = false := by rw [hs.signal]
  refine ⟨x, hx, ?_, Task.step_of_grants hg hx, exists_opens hstart hphase.1 hphase.2,
    fun _ _ _ => hs.not_closes hphase.1, hs.running_of_isPrefix hrunning⟩
  calc (s₀.run ls).world.barrier.signal
      = ⟨(s₀.run ls).world.barrier.signal.phase, (s₀.run ls).world.barrier.signal.isOpen,
          (s₀.run ls).world.barrier.signal.halt⟩ := rfl
    _ = ⟨x.plan.number, true, .running⟩ := by rw [hphase.1, hphase.2, hrunning]

/-- Both actors have come to the last look at the signal. -/
def duetQuestion : List Label :=
  duetEntry ++ List.replicate 5 (.act 0) ++ List.replicate 4 (.act 1)

/-- The phase waits for the host, but not for the guest; both are granted an iteration of it. -/
theorem granted_while_open_duet :
    duet.IsReady ∧ ∀ i ∈ [0, 1], ∃ t, (duet.run duetQuestion).tasks[i]? = some t ∧
      t.grants (duet.run duetQuestion).world = true ∧ ∃ x, t.stint = some x ∧
        (duet.run duetQuestion).world.barrier.signal = ⟨x.plan.number, true, .running⟩ ∧
        ∃ before l after, duetQuestion = before ++ l :: after ∧
          (duet.run before).Opens l x.plan.number := by
  have hgrants : ([0, 1].all fun i => (duet.run duetQuestion).tasks[i]?.any fun t =>
      t.grants (duet.run duetQuestion).world) = true := by decide +kernel
  refine ⟨isReady_duet, fun i hi => ?_⟩
  obtain ⟨t, ht, hg⟩ := Option.any_eq_true _ _ |>.1 (List.all_eq_true.1 hgrants i hi)
  obtain ⟨x, hx, hsignal, -, hopens, -⟩ := granted_while_open isReady_duet ht hg
  exact ⟨t, ht, hg, x, hx, hsignal, hopens⟩

end System

end Lockstep
