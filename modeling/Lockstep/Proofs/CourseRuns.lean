import Lockstep.Proofs.CourseSteps
import Lockstep.Proofs.Stopping

/-!
# Runs of actors on their course

If all actors follow the loop, and none of them fails or panics, they leave one after the other once
the run has been halted, wherever the halt has met them.

* `System.IsOnCourse` : the systems with which a run of such actors may begin, and
  `System.IsSound` : nobody has failed or panicked by itself;
* `System.IsOnCourse.course_run` : nobody leaves the course, deserts the others, or aborts the run;
* `System.IsOnCourse.ends_of_halted` : **once the run has been halted everybody comes to their
  end**, if the schedule is fair and whoever wants a permit gets one in the end;
* `System.IsOnCourse.conclude_of_stopsAfter` : what is said about a run that was stopped.
-/

namespace Lockstep

/-- The task of an actor that follows the loop and has not begun. -/
structure Task.SetsOut {σ : Type} [Behaviour σ] (C : Course σ) (t : Task σ) : Prop where
  stage : t.stage = .waiting
  lifecycle : t.lifecycle = .constructed
  loop : t.loop.isSome = true
  mind : ∃ n, C.At t.mind ⟨.arriving, n⟩

theorem Task.SetsOut.isAt {σ : Type} [Behaviour σ] {C : Course σ} {t : Task σ} (h : t.SetsOut C) :
    ∃ x, t.IsAt C x := by
  obtain ⟨n, hm⟩ := h.mind
  exact ⟨_, .waits h.stage hm (isFit_of_loop h.loop (.inr rfl))⟩

/-- Whoever only lingers has come to the end, or waits for the clock. -/
theorem Task.wake_of_lingers {σ : Type} {t : Task σ} {now : Nat} (h : t.stage.Lingers now) :
    t.result?.isSome = true ∨ ∃ wake, t.wake? = some wake ∧ now < wake := by
  unfold result? wake?
  unfold Stage.Lingers at h
  split at h
  · next wake hs => rw [hs]; exact .inr ⟨wake, rfl, h⟩
  · next p hs => rw [hs]; exact .inr h
  · next r hs => rw [hs]; exact .inl rfl
  · cases h

/-- The first moves of a schedule are the first ones of more. -/
theorem Label.isPrefix_firstMoves (f : Nat → Label) {n m : Nat} (hnm : n ≤ m) :
    firstMoves f n <+: firstMoves f m := by
  induction m, hnm using Nat.le_induction with
  | base => exact List.prefix_rfl
  | succ m _ ih =>
    rw [firstMoves_succ]
    exact ih.trans (List.prefix_append _ _)

/-- Among what a signal has shown are as many closings as phases have closed. -/
theorem Signal.countP_history (s : Signal) : s.history.countP (fun e => !e.2) = s.phase := by
  have hopen : (if s.isOpen then [(s.phase, true)] else []).countP (fun e => !e.2) = 0 := by
    cases s.isOpen <;> rfl
  rw [history, List.countP_append, hopen, List.countP_flatMap]
  simp [Function.comp_def]

/-- How often a phase has closed. -/
def Record.closings (r : Record) : Nat := r.shown.countP fun e => !e.2

namespace System

variable {σ : Type} [Behaviour σ]

/-- A system with which a run may begin, all of whose actors follow the loop. -/
structure IsOnCourse (C : Course σ) (s : System σ) : Prop where
  ready : s.IsReady
  tasks : ∀ t ∈ s.tasks, t.SetsOut C

omit [Behaviour σ] in
/-- Nobody has failed or panicked by itself. -/
def IsSound (s : System σ) : Prop := ∀ t ∈ s.tasks, ¬ t.IsFaulty

variable {C : Course σ} {s : System σ} {ls ls' : List Label} {l : Label} {i : Nat} {t : Task σ}
  {x : Point}

/-! ### Moves -/

/-- What a move leaves of a task. -/
theorem exists_task_of_fire (hl : l.IsCalm) (ht : s.tasks[i]? = some t) :
    (s.fire l).tasks[i]? = some t ∧ l ≠ .act i ∨
      l = .act i ∧ (s.fire l).tasks[i]? = some (t.step s.world).task := by
  have hi := (List.getElem?_eq_some_iff.1 ht).1
  cases l with
  | act j =>
    by_cases hij : j = i
    · subst hij
      refine .inr ⟨rfl, ?_⟩
      rw [fire_act ht]
      exact List.getElem?_set_self hi
    · refine .inl ⟨?_, fun h => hij (Label.act.inj h)⟩
      rw [fire, act, onTask]
      split
      · exact ht
      · rw [List.getElem?_set_ne hij]
        exact ht
  | interrupt j => cases hl
  | _ => exact .inl ⟨ht, fun h => by cases h⟩

/-- What is sound after a move was so before it. -/
theorem IsSound.of_fire (hl : l.IsCalm) (h : (s.fire l).IsSound) : s.IsSound := by
  intro t ht hfaulty
  obtain ⟨i, hi⟩ := List.getElem?_of_mem ht
  rcases exists_task_of_fire hl hi with ⟨ht', -⟩ | ⟨-, ht'⟩
  · exact h t (List.mem_of_getElem? ht') hfaulty
  · exact h _ (List.mem_of_getElem? ht') (hfaulty.step s.world)

theorem IsSound.of_append (hls : ∀ l ∈ ls ++ ls', l.IsCalm) (h : (s.run (ls ++ ls')).IsSound) :
    (s.run ls).IsSound := by
  induction ls' using List.reverseRecOn with
  | nil => rwa [List.append_nil] at h
  | append_singleton ls' l ih =>
    rw [← List.append_assoc] at hls h
    rw [run_snoc] at h
    exact ih (fun l' hl' => hls l' (List.mem_append_left _ hl')) (h.of_fire (hls l (by simp)))

/-- In a calm move nothing becomes known about failures, if no task accuses anybody. -/
theorem failure_fire (hl : l.IsCalm) (h : ∀ (i : Nat) (t : Task σ), s.tasks[i]? = some t →
    (t.mark? s.world.barrier).bind Mark.accusation? = none) :
    (s.fire l).world.barrier.failure = s.world.barrier.failure := by
  cases l with
  | act i =>
    cases ht : s.tasks[i]? with
    | none => rw [fire, act, onTask_of_none ht]
    | some t =>
      rw [fire_act ht]
      rcases (Task.turn_step s.world t).failure with ⟨-, hfailure, -⟩ | ⟨f, hm, -⟩
      · exact hfailure
      · have hquiet := h i t ht
        rw [hm] at hquiet
        cases hquiet
  | stop =>
    change s.world.barrier.stop.failure = _
    unfold Barrier.stop
    split <;> rfl
  | interrupt i => cases hl
  | abort f => cases hl
  | _ => rfl

/-- Nobody changes names in a calm run. -/
theorem name_id_run (hls : ∀ l ∈ ls, l.IsCalm) (ht : (s.run ls).tasks[i]? = some t) :
    ∃ t₀, s.tasks[i]? = some t₀ ∧ t.name = t₀.name ∧ t.id = t₀.id := by
  induction ls using List.reverseRecOn generalizing t with
  | nil => exact ⟨t, ht, rfl, rfl⟩
  | append_singleton ls l ih =>
    have hcalm : ∀ l ∈ ls, l.IsCalm := fun l hl => hls l (List.mem_append_left _ hl)
    rw [run_snoc] at ht
    obtain ⟨u, hu, ⟨-, rfl⟩ | ⟨-, rfl⟩⟩ := step_of_fire (hls l (by simp)) ht
    · obtain ⟨t₀, ht₀, hname, hid⟩ := ih hcalm hu
      obtain ⟨hname', hid'⟩ := (Task.turn_step (s.run ls).world u).name_id
      exact ⟨t₀, ht₀, hname'.trans hname, hid'.trans hid⟩
    · exact ih hcalm hu

/-! ### Runs -/

namespace IsOnCourse

theorem isRegular_run (hs : s.IsOnCourse C) (ls : List Label) :
    ∀ t ∈ (s.run ls).tasks, t.IsRegular := by
  refine System.isRegular_run (fun t ht => ?_) ls
  have hout := hs.tasks t ht
  exact ⟨by rw [hout.stage, hout.lifecycle]; rfl, by rw [hout.stage]; rintro _ ⟨⟩⟩

/-- A barrier at which nothing is known about a failure has not been aborted. -/
theorem isAborted_run (hs : s.IsOnCourse C) (hf : (s.run ls).world.barrier.failure = none) :
    (s.run ls).world.barrier.isAborted = false := by
  by_contra hb
  have hhalt : (s.run ls).world.barrier.signal.halt = .aborted := by
    simpa [Barrier.isAborted] using hb
  have hsome := (hs.ready.balanced_run ls).honest.1 hhalt
  rw [hf] at hsome
  cases hsome

/-- **Nobody leaves the course**, as long as nobody has failed or panicked by itself; and nobody
aborts the run or deserts the others. -/
theorem course_run (hs : s.IsOnCourse C) (hls : ∀ l ∈ ls, l.IsCalm)
    (hsound : (s.run ls).IsSound) :
    (∀ t ∈ (s.run ls).tasks, ∃ x, t.IsAt C x) ∧ (s.run ls).world.barrier.failure = none ∧
      (s.record ls).desertions = [] := by
  induction ls using List.reverseRecOn with
  | nil => exact ⟨fun t ht => (hs.tasks t ht).isAt, hs.ready.failure, rfl⟩
  | append_singleton ls l ih =>
    have hl : l.IsCalm := hls l (by simp)
    obtain ⟨hat, hfailure, hdesertions⟩ := ih (fun l hl => hls l (List.mem_append_left _ hl))
      (hsound.of_append hls)
    have hquiet (i : Nat) (t : Task σ) (ht : (s.run ls).tasks[i]? = some t) :
        (t.mark? (s.run ls).world.barrier).bind Mark.accusation? = none ∧
          t.mark? (s.run ls).world.barrier ≠ some .desertion := by
      obtain ⟨x, hx⟩ := hat t (List.mem_of_getElem? ht)
      exact hx.mark?_quiet _
    refine ⟨fun t ht => ?_, ?_, ?_⟩
    · rw [run_snoc] at hsound ht
      obtain ⟨i, hi⟩ := List.getElem?_of_mem ht
      obtain ⟨u, hu, ⟨-, rfl⟩ | ⟨-, rfl⟩⟩ := step_of_fire hl hi
      · have hmem := List.mem_of_getElem? hu
        obtain ⟨x, hx⟩ := hat u hmem
        rcases hx.goes_step (hs.isRegular_run ls u hmem) (hs.isAborted_run hfailure) with
          hfaulty | ⟨y, hy, -⟩
        · exact absurd hfaulty (hsound _ ht)
        · exact ⟨y, hy⟩
      · exact hat _ (List.mem_of_getElem? hu)
    · rw [run_snoc, failure_fire hl fun i t ht => (hquiet i t ht).1]
      exact hfailure
    · rw [record_snoc, Record.desertions_append, hdesertions,
        desertions_entries fun i t ht => (hquiet i t ht).2]
      rfl

/-- With a turn in a run that has been halted a task comes nearer to its end, unless it has to
wait. -/
theorem nears_act (hs : s.IsOnCourse C) (hls : ∀ l ∈ ls ++ [.act i], l.IsCalm)
    (hsound : (s.run (ls ++ [.act i])).IsSound)
    (hh : (s.run ls).world.barrier.signal.halt ≠ .running)
    (ht : (s.run ls).tasks[i]? = some t) (hx : t.IsAt C x) :
    ∃ u y, (s.run (ls ++ [.act i])).tasks[i]? = some u ∧ u.IsAt C y ∧
      t.stage.Nears (s.run ls).world.now x u.stage y := by
  have hfailure := (hs.course_run (fun l hl => hls l (List.mem_append_left _ hl))
    (hsound.of_append hls)).2.1
  have hu : (s.run (ls ++ [.act i])).tasks[i]? = some (t.step (s.run ls).world).task := by
    rw [run_snoc, fire_act ht]
    exact List.getElem?_set_self (List.getElem?_eq_some_iff.1 ht).1
  rcases hx.goes_step (hs.isRegular_run ls t (List.mem_of_getElem? ht))
    (hs.isAborted_run hfailure) with hfaulty | ⟨y, hy, hnears⟩
  · exact absurd hfaulty (hsound _ (List.mem_of_getElem? hu))
  · exact ⟨_, y, hu, hy, hnears hh⟩

/-- From any moment after a halt a task only comes nearer to its end. -/
theorem follows_run (hs : s.IsOnCourse C) (hls : ∀ l ∈ ls ++ ls', l.IsCalm)
    (hsound : (s.run (ls ++ ls')).IsSound)
    (hh : (s.run ls).world.barrier.signal.halt ≠ .running)
    (ht : (s.run ls).tasks[i]? = some t) (hx : t.IsAt C x) :
    ∃ u y, (s.run (ls ++ ls')).tasks[i]? = some u ∧ u.IsAt C y ∧
      t.stage.Follows x u.stage y := by
  induction ls' using List.reverseRecOn with
  | nil => exact ⟨t, x, by rwa [List.append_nil], hx, .refl _ _⟩
  | append_singleton ls' l ih =>
    rw [← List.append_assoc] at hls hsound ⊢
    have hcalm : ∀ l ∈ ls ++ ls', l.IsCalm := fun l hl => hls l (List.mem_append_left _ hl)
    obtain ⟨u, y, hu, hy, hfollows⟩ := ih hcalm (hsound.of_append hls)
    rcases exists_task_of_fire (hls l (by simp)) hu with ⟨hu', -⟩ | ⟨rfl, -⟩
    · exact ⟨u, y, by rwa [run_snoc], hy, hfollows⟩
    · have hhalted : (s.run (ls ++ ls')).world.barrier.signal.halt ≠ .running := fun hr => by
        rw [run_append] at hr
        exact hh ((reaches_run (s.run ls) ls').heeds.halt.eq_running hr)
      obtain ⟨v, z, hv, hz, hnears⟩ := hs.nears_act hls hsound hhalted hu hy
      exact ⟨v, z, hv, hz, hfollows.trans hnears.follows⟩

/-- Whoever goes for the next phase only after a halt comes past no phase any more. -/
theorem level_of_later (hs : s.IsOnCourse C) (hls : ∀ l ∈ ls ++ ls', l.IsCalm)
    (hsound : (s.run (ls ++ ls')).IsSound)
    (hh : (s.run ls).world.barrier.signal.halt ≠ .running)
    (ht : (s.run ls).tasks[i]? = some t) (hno : t.stage.isAdvancing = false) {u : Task σ}
    (hu : (s.run (ls ++ ls')).tasks[i]? = some u) {a : Advance} (ha : u.stage = .advancing a) :
    a.level < 6 := by
  obtain ⟨x, hx⟩ := (hs.course_run (fun l hl => hls l (List.mem_append_left _ hl))
    (hsound.of_append hls)).1 t (List.mem_of_getElem? ht)
  obtain ⟨u', y, hu', -, hfollows⟩ := hs.follows_run hls hsound hh ht hx
  cases hu.symm.trans hu'
  rw [ha] at hfollows
  exact Advance.level_lt_of_distance
    (hfollows.le.trans_lt (Stage.distance_lt_of_not_advancing hno x))

end IsOnCourse

/-! ### Endless schedules -/

/-- From some moment on, whoever wants a permit gets one in the end, or does without it. -/
def GetsPermits (s : System σ) (f : Nat → Label) (n : Nat) : Prop :=
  ∀ m ≥ n, ∀ (i : Nat) (t : Task σ), (s.after f m).tasks[i]? = some t → t.stage.isDrawing = true →
    ∃ m' ≥ m, ∃ u, (s.after f m').tasks[i]? = some u ∧ u.stage.isDrawing = false

namespace IsOnCourse

variable {f : Nat → Label} {n m : Nat}

theorem follows_after (hs : s.IsOnCourse C) (hf : ∀ n, (f n).IsCalm)
    (hsound : ∀ n, (s.after f n).IsSound) (hnm : n ≤ m)
    (hh : (s.after f n).world.barrier.signal.halt ≠ .running)
    (ht : (s.after f n).tasks[i]? = some t) (hx : t.IsAt C x) :
    ∃ u y, (s.after f m).tasks[i]? = some u ∧ u.IsAt C y ∧ t.stage.Follows x u.stage y := by
  obtain ⟨ls', hls'⟩ := Label.isPrefix_firstMoves f hnm
  have hcalm := Label.isCalm_firstMoves hf m
  have hsound := hsound m
  unfold after at hsound ⊢
  rw [← hls'] at hcalm hsound ⊢
  exact hs.follows_run hcalm hsound hh ht hx

/-- **Once the run has been halted every task comes to its end**, in a fair schedule in which
whoever wants a permit gets one in the end. -/
theorem over_of_halted (hs : s.IsOnCourse C) (hf : ∀ n, (f n).IsCalm)
    (hfair : Label.IsFair s.tasks.length f) (hsound : ∀ n, (s.after f n).IsSound)
    (hpermits : s.GetsPermits f n) (hh : (s.after f n).world.barrier.signal.halt ≠ .running)
    (ht : (s.after f n).tasks[i]? = some t) (hx : t.IsAt C x) :
    ∃ m ≥ n, ∃ u, (s.after f m).tasks[i]? = some u ∧ u.result?.isSome = true := by
  induction hd : t.stage.distance x using WellFoundedLT.induction generalizing n t x with
  | ind d ih =>
    subst hd
    have hhalted {m : Nat} (hm : n ≤ m) : (s.after f m).world.barrier.signal.halt ≠ .running :=
      fun hr => hh ((heeds_after hm).halt.eq_running hr)
    have hcloser {m : Nat} {u : Task σ} {y : Point} (hm : n ≤ m)
        (hu : (s.after f m).tasks[i]? = some u) (hy : u.IsAt C y)
        (hlt : u.stage.distance y < t.stage.distance x) :
        ∃ m ≥ n, ∃ u, (s.after f m).tasks[i]? = some u ∧ u.result?.isSome = true := by
      obtain ⟨m', hm', hend⟩ :=
        ih _ hlt (fun k hk => hpermits k (hm.trans hk)) (hhalted hm) hu hy rfl
      exact ⟨m', hm.trans hm', hend⟩
    by_cases hover : t.result?.isSome = true
    · exact ⟨n, le_rfl, t, ht, hover⟩
    by_cases hdraw : t.stage.isDrawing = true
    · -- there will be a permit
      obtain ⟨m, hm, u, hu, hno⟩ := hpermits n le_rfl i t ht hdraw
      obtain ⟨u', y, hu', hy, hfollows⟩ := hs.follows_after hf hsound hm hh ht hx
      cases hu.symm.trans hu'
      rcases hfollows with hlt | ⟨-, heq | ⟨-, hdraw'⟩⟩
      · exact hcloser hm hu hy hlt
      · rw [heq, hdraw] at hno; cases hno
      · rw [hdraw'] at hno; cases hno
    -- the task has a turn when it need not wait for the clock any more
    obtain ⟨late, hlate⟩ := exists_now_le hfair s (t.wake?.getD 0)
    have hi : i < s.tasks.length :=
      (hs.ready.balanced_run _).length ▸ (List.getElem?_eq_some_iff.1 ht).1
    obtain ⟨m, hm, hact⟩ := hfair.acts i hi (max n late)
    have hnm : n ≤ m := (le_max_left _ _).trans hm
    obtain ⟨u, y, hu, hy, hlt | ⟨rfl, heq | ⟨hdraw', -⟩⟩⟩ :=
      hs.follows_after hf hsound hnm hh ht hx
    · exact hcloser hnm hu hy hlt
    · have hcalm := Label.isCalm_firstMoves hf (m + 1)
      have hsound' := hsound (m + 1)
      unfold after at hsound'
      rw [Label.firstMoves_succ, hact] at hcalm hsound'
      obtain ⟨v, z, hv, hz, hnears⟩ := hs.nears_act hcalm hsound' (hhalted hnm) hu hy
      rw [← hact, ← Label.firstMoves_succ] at hv
      rw [heq] at hnears
      rcases hnears with hlt | ⟨-, ⟨-, hlingers⟩ | ⟨hdraw', -⟩⟩
      · exact hcloser (hnm.trans m.le_succ) hv hz hlt
      · rcases Task.wake_of_lingers hlingers with hends | ⟨wake, hwake, hnow⟩
        · exact absurd hends hover
        · have hlate := hlate m ((le_max_right _ _).trans hm)
          rw [hwake, Option.getD_some] at hlate
          exact absurd hlate (Nat.not_le.2 hnow)
      · exact absurd hdraw' hdraw
    · exact absurd hdraw' hdraw

/-- **Once the run has been halted it comes to its end.** -/
theorem ends_of_halted (hs : s.IsOnCourse C) (hf : ∀ n, (f n).IsCalm)
    (hfair : Label.IsFair s.tasks.length f) (hsound : ∀ n, (s.after f n).IsSound)
    (hpermits : s.GetsPermits f n) (hh : (s.after f n).world.barrier.signal.halt ≠ .running) :
    ∃ m ≥ n, (s.after f m).isOver = true := by
  have hlength (m : Nat) : (s.after f m).tasks.length = s.tasks.length :=
    (hs.ready.balanced_run (Label.firstMoves f m)).length
  have hat (m : Nat) {t : Task σ} (ht : t ∈ (s.after f m).tasks) : ∃ x, t.IsAt C x :=
    (hs.course_run (Label.isCalm_firstMoves hf m) (hsound m)).1 t ht
  -- the tasks come to their end one after the other, and stay there
  have hfirst (k : Nat) (hk : k ≤ s.tasks.length) : ∃ m ≥ n, ∀ m' ≥ m, ∀ i < k, ∀ t,
      (s.after f m').tasks[i]? = some t → t.result?.isSome = true := by
    induction k with
    | zero => exact ⟨n, le_rfl, fun _ _ i hi => absurd hi (Nat.not_lt_zero i)⟩
    | succ k ih =>
      obtain ⟨m, hm, hall⟩ := ih (Nat.le_of_succ_le hk)
      have hlt : k < (s.after f n).tasks.length := (hlength n).symm ▸ hk
      obtain ⟨x, hx⟩ := hat n (List.getElem_mem hlt)
      obtain ⟨m', hm', u, hu, hend⟩ :=
        hs.over_of_halted hf hfair hsound hpermits hh (List.getElem?_eq_getElem hlt) hx
      refine ⟨max m m', hm.trans (le_max_left _ _), fun j hj i hi v hv => ?_⟩
      by_cases hik : i < k
      · exact hall j ((le_max_left _ _).trans hj) i hik v hv
      · obtain rfl : i = k := by omega
        obtain ⟨y, hy⟩ := hat m' (List.mem_of_getElem? hu)
        have hhalted : (s.after f m').world.barrier.signal.halt ≠ .running := fun hr =>
          hh ((heeds_after hm').halt.eq_running hr)
        obtain ⟨v', z, hv', -, hfollows⟩ :=
          hs.follows_after hf hsound ((le_max_right _ _).trans hj) hhalted hu hy
        cases hv.symm.trans hv'
        obtain ⟨res, hres⟩ := Option.isSome_iff_exists.1 hend
        rw [result?_eq_some_iff.1 hres] at hfollows
        rw [Task.result?, hfollows.of_ended]
        rfl
  obtain ⟨m, hm, hall⟩ := hfirst s.tasks.length le_rfl
  refine ⟨m, hm, List.all_eq_true.2 fun t ht => ?_⟩
  obtain ⟨i, hi⟩ := List.getElem?_of_mem ht
  exact hall m le_rfl i (hlength m ▸ (List.getElem?_eq_some_iff.1 hi).1) t hi

end IsOnCourse

/-! ### What is said at the end -/

/-- **What is said about a run that has ended in which nobody has failed or panicked by itself.** -/
theorem IsOnCourse.conclude_run (hs : s.IsOnCourse C) (hls : ∀ l ∈ ls, l.IsCalm)
    (hsound : (s.run ls).IsSound) (hover : (s.run ls).isOver = true) :
    conclude (s.run ls) = .ok {
      actors := s.tasks.map fun t => ⟨t.name, t.id, .terminated⟩
      phasesCompleted := (s.run ls).world.barrier.signal.phase
      stopped := (s.run ls).world.barrier.isStopped
      elapsed := .between 0 (s.run ls).world.now } := by
  have hregular := hs.isRegular_run ls
  have hactors : ((s.run ls).tasks.map fun t => (⟨t.name, t.id, t.lifecycle⟩ : Finish)) =
      s.tasks.map fun t => ⟨t.name, t.id, .terminated⟩ := by
    refine List.ext_getElem ?_ fun i hi hi' => ?_
    · rw [List.length_map, List.length_map]
      exact (hs.ready.balanced_run ls).length
    · rw [List.length_map] at hi hi'
      rw [List.getElem_map, List.getElem_map]
      obtain ⟨t₀, ht₀, hname, hid⟩ := name_id_run hls (List.getElem?_eq_getElem hi)
      cases ht₀.symm.trans (List.getElem?_eq_getElem hi')
      have hmem := List.getElem_mem hi
      obtain ⟨res, hres⟩ := Option.isSome_iff_exists.1 (List.all_eq_true.1 hover _ hmem)
      have hlifecycle := (hregular _ hmem).lifecycle
      rw [result?_eq_some_iff.1 hres] at hlifecycle
      rw [hname, hid, hlifecycle]
      rfl
  simp only [conclude, (hs.course_run hls hsound).2.1, firstRefusal?_eq_none hregular, hactors]
  rfl

/-- If a stop has taken effect, that is said about the run, and the phases are those that had closed
before. -/
theorem IsOnCourse.conclude_of_stopsAfter (hs : s.IsOnCourse C) (hls : ∀ l ∈ ls, l.IsCalm)
    (hsound : (s.run ls).IsSound) (hover : (s.run ls).isOver = true) {k : Nat}
    (hstops : s.StopsAfter ls k) :
    conclude (s.run ls) = .ok {
      actors := s.tasks.map fun t => ⟨t.name, t.id, .terminated⟩
      phasesCompleted := k
      stopped := true
      elapsed := .between 0 (s.run ls).world.now } := by
  obtain ⟨hhalt, hphase⟩ := hstops.standstill
  have hstopped : (s.run ls).world.barrier.isStopped = true := by
    have haborted := hs.isAborted_run (hs.course_run hls hsound).2.1
    unfold Barrier.isAborted at haborted
    unfold Barrier.isStopped
    cases hh : (s.run ls).world.barrier.signal.halt with
    | running => exact absurd hh hhalt
    | stopped => rfl
    | aborted => rw [hh] at haborted; cases haborted
  rw [hs.conclude_run hls hsound hover, hphase, hstopped]

/-- As many phases have closed as the record says. -/
theorem IsReady.closings_record (hs : s.IsReady) (ls : List Label) :
    (s.record ls).closings = (s.run ls).world.barrier.signal.phase := by
  rw [Record.closings, (hs.balanced_run ls).shown, Signal.countP_history]

end System

end Lockstep
