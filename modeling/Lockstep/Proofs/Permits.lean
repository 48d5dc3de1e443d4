import Lockstep.Proofs.CourseRuns
import Lockstep.Proofs.Drawing

/-!
# Permits after a halt

Once a run has been halted nobody begins to want a permit for long: every actor comes to its end, or
it wants a permit for ever.  So those who share a bucket stay the same from some moment on, and they
cannot all of them wait for ever.

* `System.IsSupplied` : every bucket is one that feeds all actors;
* `System.IsOnCourse.exists_steady` : from some moment on nobody begins or ceases to want a permit;
* `System.IsOnCourse.getsPermits` : **so whoever wants a permit gets one**, or does without it.
-/

namespace Lockstep

open Decimal

/-- Whoever wants a permit on his course wants one of some bucket. -/
theorem Task.IsAt.exists_draw? {σ : Type} [Behaviour σ] {C : Course σ} {t : Task σ} {x : Point}
    (h : t.IsAt C x) (hd : t.stage.isDrawing = true) :
    ∃ block phase, (t.draw? block phase).isSome = true := by
  cases h with
  | @paces p hs hm hfit =>
    obtain ⟨y, hy⟩ := Option.isSome_iff_exists.1 (hfit.stint rfl)
    rw [hs] at hd
    cases p with
    | drawing d =>
      exact ⟨_, _, Option.isSome_iff_exists.2 ⟨d, draw?_eq_some_iff.2 ⟨hs, y, hy, rfl, rfl⟩⟩⟩
    | _ => cases hd
  | retires hs =>
    unfold Stage.isRetiring at hs
    split at hs
    · next hst => rw [hst] at hd; cases hd
    · next hst => rw [hst] at hd; cases hd
    · next hst => rw [hst] at hd; cases hd
    · cases hs
  | waits hs | acts hs | sleeps hs | advances hs => rw [hs] at hd; cases hd

namespace System

variable {σ : Type}

/-- Every bucket has been filled for a rate that feeds all actors. -/
def IsSupplied (s : System σ) : Prop :=
  ∀ block phase b, s.world.bucket? block phase = some b → ∃ r created, b = .full r created ∧
    created ≤ s.world.now ∧ r.Sound ∧ r.Feeds s.tasks.length

variable [Behaviour σ] {C : Course σ} {s : System σ} {f : Nat → Label} {n i block phase : Nat}

omit [Behaviour σ] in
/-- A company that shares a bucket that has just been filled is in order. -/
theorem inOrder_company (s : System σ) {r : Rate} {created : Nat} (hnow : created ≤ s.world.now) :
    (s.company block phase (.full r created)).InOrder r where
  rate := rfl
  last := hnow
  fraction := ⟨0, .inl ⟨rfl, rfl⟩, zero_le_one⟩
  locked := by rintro ⟨⟩

theorem eq_act_of_share {l : Label} (h : s.share block phase l = .step i) : l = .act i := by
  unfold share at h
  split at h
  · split at h
    · cases h; rfl
    · cases h
  · cases h
  · cases h

/-- **Somebody gets a permit** of a bucket as long as somebody wants one. -/
theorem exists_drawn (hf : ∀ n, (f n).IsCalm) (hfair : Label.IsFair s.tasks.length f)
    (hpauses : s.HasPauses) (hsupplied : s.IsSupplied)
    (hb : (s.world.bucket? block phase).isSome = true) {t : Task σ}
    (ht : (s.after f n).tasks[i]? = some t) (hd : (t.draw? block phase).isSome = true) :
    ∃ m ≥ n, ∃ j u, f m = .act j ∧ (s.after f m).tasks[j]? = some u ∧
      (u.draw? block phase).isSome = true ∧
      (u.step (s.after f m).world).task.draw? block phase = none := by
  have hbuckets (m : Nat) : ∃ b, (s.after f m).world.bucket? block phase = some b :=
    Option.isSome_iff_exists.1 ((isSome_bucket?_run (Label.isCalm_firstMoves hf m)).trans hb)
  choose b hb using hbuckets
  obtain ⟨r, created, hfull, hnow, hr, hfeeds⟩ := hsupplied block phase _ (hb 0)
  obtain ⟨p, hp⟩ := hpauses block phase _ (hb 0)
  obtain ⟨d, hd⟩ := Option.isSome_iff_exists.1 hd
  have hlength : ((s.after f 0).company block phase (b 0)).takers.length = s.tasks.length := by
    rw [company, List.length_map, length_after]
  have horder : ((s.after f 0).company block phase (b 0)).InOrder r := by
    rw [hfull]
    exact inOrder_company _ hnow
  rw [hfull] at hp
  obtain ⟨m, hm, time, hdrawn⟩ := (endless_company hf hfair hb).exists_drawn hr hp horder
    (hlength.symm ▸ hfeeds) (n := n) (i := i) (d := d) (by rw [takers_company ht, hd])
  obtain ⟨-, d', hdraw, htaken⟩ := Company.drawn_eq_some_iff.1 hdrawn
  -- whoever gets the permit does not want it any more
  unfold Company.draw? at hdraw
  split at hdraw
  · next j hj =>
    rw [company, List.getElem?_map] at hdraw
    obtain ⟨u, hu, hd'⟩ := Option.map_eq_some_iff.1 (Option.join_eq_some_iff.1 hdraw)
    refine ⟨m, hm, j, u, eq_act_of_share hj, hu, by rw [hd']; rfl, ?_⟩
    rw [(u.step_of_draw? hd' (hb m)).2]
    exact congrArg (Draw.Progress.next? d') htaken
  · cases hdraw

/-- From some moment on an actor goes on wanting a permit, or goes on wanting none. -/
def Steady (s : System σ) (f : Nat → Label) (n i : Nat) : Prop :=
  ∀ m ≥ n, ∀ k ≥ n, ∀ t u, (s.after f m).tasks[i]? = some t → (s.after f k).tasks[i]? = some u →
    t.stage.isDrawing = u.stage.isDrawing

/-- Whoever shares a bucket goes on doing so. -/
theorem Steady.isSome_draw? (h : s.Steady f n i) (hf : ∀ n, (f n).IsCalm) {m k : Nat} (hm : n ≤ m)
    (hk : m ≤ k) {t : Task σ} (ht : (s.after f m).tasks[i]? = some t)
    (hd : (t.draw? block phase).isSome = true) :
    ∃ u, (s.after f k).tasks[i]? = some u ∧ (u.draw? block phase).isSome = true := by
  have hdraw : t.stage.isDrawing = true := by
    obtain ⟨d, hd⟩ := Option.isSome_iff_exists.1 hd
    rw [(Task.draw?_eq_some_iff.1 hd).1]
    rfl
  induction k, hk using Nat.le_induction with
  | base => exact ⟨t, ht, hd⟩
  | succ k hk ih =>
    obtain ⟨u, hu, hd'⟩ := ih
    rcases exists_task_of_fire (hf k) hu with ⟨hu', -⟩ | ⟨-, hu'⟩
    · exact ⟨u, after_succ s f k ▸ hu', hd'⟩
    · rw [← after_succ] at hu'
      refine ⟨_, hu', Task.isSome_draw?_step hd' ?_⟩
      exact (h _ (by omega) _ hm _ _ hu' ht).trans hdraw

namespace IsOnCourse

/-- Once the run has been halted an actor comes to a stage that it only leaves to want a permit
again. -/
theorem exists_steady (hs : s.IsOnCourse C) (hf : ∀ n, (f n).IsCalm)
    (hsound : ∀ n, (s.after f n).IsSound) (hh : (s.after f n).world.barrier.signal.halt ≠ .running)
    {t : Task σ} (ht : (s.after f n).tasks[i]? = some t) {x : Point} (hx : t.IsAt C x) :
    ∃ m ≥ n, s.Steady f m i := by
  induction hd : t.stage.distance x using WellFoundedLT.induction generalizing n t x with
  | ind d ih =>
    subst hd
    by_cases hcloser : ∃ m ≥ n, ∃ u y, (s.after f m).tasks[i]? = some u ∧ u.IsAt C y ∧
        u.stage.distance y < t.stage.distance x
    · obtain ⟨m, hm, u, y, hu, hy, hlt⟩ := hcloser
      obtain ⟨m', hm', hsteady⟩ :=
        ih _ hlt (fun hr => hh ((heeds_after hm).halt.eq_running hr)) hu hy rfl
      exact ⟨m', hm.trans hm', hsteady⟩
    · -- the task is at the stage that it comes to
      have hsame {m : Nat} (hm : m ≥ n) {u : Task σ} (hu : (s.after f m).tasks[i]? = some u) :
          u.stage.isDrawing = t.stage.isDrawing := by
        obtain ⟨u', y, hu', hy, hlt | ⟨-, heq | ⟨hdraw, hdraw'⟩⟩⟩ :=
          hs.follows_after hf hsound hm hh ht hx
        · exact absurd ⟨m, hm, u', y, hu', hy, hlt⟩ hcloser
        · cases hu.symm.trans hu'
          rw [heq]
        · cases hu.symm.trans hu'
          rw [hdraw, hdraw']
      exact ⟨n, le_rfl, fun m hm k hk u v hu hv => (hsame hm hu).trans (hsame hk hv).symm⟩

/-- **From some moment on nobody begins or ceases to want a permit**, once the run has been
halted. -/
theorem exists_all_steady (hs : s.IsOnCourse C) (hf : ∀ n, (f n).IsCalm)
    (hsound : ∀ n, (s.after f n).IsSound)
    (hh : (s.after f n).world.barrier.signal.halt ≠ .running) :
    ∃ m ≥ n, ∀ i, s.Steady f m i := by
  have hone (i : Fin s.tasks.length) : ∃ m ≥ n, s.Steady f m i := by
    have hlt : i < (s.after f n).tasks.length := (length_after s f n).symm ▸ i.isLt
    have ht := List.getElem?_eq_getElem hlt
    obtain ⟨x, hx⟩ := (hs.course_run (Label.isCalm_firstMoves hf n) (hsound n)).1 _
      (List.mem_of_getElem? ht)
    exact hs.exists_steady hf hsound hh ht hx
  choose m hm hsteady using hone
  refine ⟨max n (Finset.univ.sup m), le_max_left _ _, fun i j hj k hk t u ht hu => ?_⟩
  have hi : i < s.tasks.length := length_after s f j ▸ (List.getElem?_eq_some_iff.1 ht).1
  have hle : m ⟨i, hi⟩ ≤ max n (Finset.univ.sup m) :=
    (Finset.le_sup (Finset.mem_univ (⟨i, hi⟩ : Fin _))).trans (le_max_right _ _)
  exact hsteady ⟨i, hi⟩ j (hle.trans hj) k (hle.trans hk) t u ht hu

/-- **Whoever wants a permit gets one, or does without it**, in a fair schedule after a halt, if
every bucket feeds all actors. -/
theorem getsPermits (hs : s.IsOnCourse C) (hf : ∀ n, (f n).IsCalm)
    (hfair : Label.IsFair s.tasks.length f) (hsound : ∀ n, (s.after f n).IsSound)
    (hpauses : s.HasPauses) (hsupplied : s.IsSupplied)
    (hh : (s.after f n).world.barrier.signal.halt ≠ .running) : s.GetsPermits f n := by
  intro m hm i t ht hdraw
  by_contra hno
  have hwants {k : Nat} (hk : k ≥ m) {u : Task σ} (hu : (s.after f k).tasks[i]? = some u) :
      u.stage.isDrawing = true := by
    by_contra hother
    exact hno ⟨k, hk, u, hu, Bool.eq_false_iff.2 hother⟩
  obtain ⟨steady, hsteady, hall⟩ := hs.exists_all_steady hf hsound hh
  obtain ⟨k, hk, hkm⟩ : ∃ k ≥ steady, m ≤ k := ⟨max steady m, le_max_left _ _, le_max_right _ _⟩
  have hi : i < (s.after f k).tasks.length := by
    rw [length_after, ← length_after s f m]
    exact (List.getElem?_eq_some_iff.1 ht).1
  obtain ⟨u, hu⟩ : ∃ u, (s.after f k).tasks[i]? = some u := ⟨_, List.getElem?_eq_getElem hi⟩
  obtain ⟨x, hx⟩ := (hs.course_run (Label.isCalm_firstMoves hf k) (hsound k)).1 u
    (List.mem_of_getElem? hu)
  obtain ⟨block, phase, hd⟩ := hx.exists_draw? (hwants hkm hu)
  by_cases hb : (s.world.bucket? block phase).isSome = true
  · obtain ⟨j, hj, i', v, hact, hv, hd', hnone⟩ :=
      exists_drawn hf hfair hpauses hsupplied hb hu hd
    obtain ⟨v', hv', hd''⟩ := (hall i').isSome_draw? hf (hk.trans hj) (Nat.le_succ j) hv hd'
    rcases exists_task_of_fire (hf j) hv with ⟨-, hother⟩ | ⟨-, hnext⟩
    · exact hother hact
    · rw [← after_succ, hv'] at hnext
      cases hnext
      rw [hnone] at hd''
      cases hd''
  · -- without a bucket there is nothing to wait for
    obtain ⟨j, hj, hact⟩ := hfair.acts i (length_after s f k ▸ hi) k
    obtain ⟨v, hv, hd'⟩ := (hall i).isSome_draw? hf hk hj hu hd
    obtain ⟨d', hd'⟩ := Option.isSome_iff_exists.1 hd'
    have hnone : (s.after f j).world.bucket? block phase = none := by
      rw [← Option.not_isSome_iff_eq_none, after,
        isSome_bucket?_run (Label.isCalm_firstMoves hf j)]
      exact hb
    rcases exists_task_of_fire (hf j) hv with ⟨-, hother⟩ | ⟨-, hnext⟩
    · exact hother hact
    · rw [← after_succ] at hnext
      have hdrawing := hwants (by omega) hnext
      rw [(Task.step_of_bucket?_eq_none hd' hnone).2] at hdrawing
      cases hdrawing

end IsOnCourse

end System

end Lockstep
