import Lockstep.Proofs.Faults
import Lockstep.Proofs.Permits
import Lockstep.Proofs.Resolution

/-!
# Runs that are stopped end well

Nobody has to fail because a run is stopped.  If all actors follow the loop, and none of them fails
or panics by itself, they leave one after the other, wherever the stop has met them.

* `System.orderly_stop` : **a stop never becomes a failure**, if all pauses can be computed;
* `System.panics_after_stop` : it may become one if some pause cannot;
* `Assembly.IsCast.isOnCourse` : what has been set up is on its course, if the kinds of its actors
  follow the loop;
* `hasPauses_setUp` : its pauses can be computed, and its buckets feed everybody, if that is so for
  the rates that its entries want.
-/

namespace Lockstep

/-! ### Schedules that go on -/

namespace Label

variable {ls : List Label} {f : Nat → Label}

/-- Some moves, and then those of an endless schedule. -/
def continued (ls : List Label) (f : Nat → Label) (n : Nat) : Label :=
  ls[n]?.getD (f (n - ls.length))

theorem continued_add (ls : List Label) (f : Nat → Label) (n : Nat) :
    continued ls f (ls.length + n) = f n := by
  rw [continued, List.getElem?_eq_none (Nat.le_add_right _ _), Option.getD_none,
    Nat.add_sub_cancel_left]

theorem firstMoves_continued (ls : List Label) (f : Nat → Label) :
    firstMoves (continued ls f) ls.length = ls := by
  refine List.ext_getElem (by rw [firstMoves, List.length_map, List.length_range]) ?_
  intro i hi hi'
  simp only [firstMoves, List.getElem_map, List.getElem_range, continued,
    List.getElem?_eq_getElem hi', Option.getD_some]

theorem isCalm_continued (hls : ∀ l ∈ ls, l.IsCalm) (hf : ∀ n, (f n).IsCalm) (n : Nat) :
    (continued ls f n).IsCalm := by
  unfold continued
  by_cases hn : n < ls.length
  · rw [List.getElem?_eq_getElem hn]
    exact hls _ (List.getElem_mem hn)
  · rw [List.getElem?_eq_none (Nat.not_lt.1 hn)]
    exact hf _

theorem IsFair.continued {count : Nat} (h : IsFair count f) (ls : List Label) :
    IsFair count (continued ls f) where
  acts i hi n := by
    obtain ⟨m, hm, hact⟩ := h.acts i hi n
    exact ⟨ls.length + m, by omega, by rw [continued_add, hact]⟩
  ticks time := by
    obtain ⟨m, now, htime, htick⟩ := h.ticks time
    exact ⟨ls.length + m, now, htime, by rw [continued_add, htick]⟩

end Label

namespace System

section

variable {σ : Type} [Behaviour σ] {s : System σ} {ls : List Label} {f : Nat → Label} {n m : Nat}

/-- Nobody moves any more when everybody has come to their end. -/
theorem tasks_fire_of_isOver {l : Label} (hl : l.IsCalm) (hover : s.isOver = true) :
    (s.fire l).tasks = s.tasks := by
  cases l with
  | act i =>
    cases ht : s.tasks[i]? with
    | none => rw [fire, act, onTask_of_none ht]
    | some t =>
      obtain ⟨res, hres⟩ := Option.isSome_iff_exists.1
        (List.all_eq_true.1 hover t (List.mem_of_getElem? ht))
      have hstep : (t.step s.world).task = t := by
        simp only [Task.step, result?_eq_some_iff.1 hres]
      rw [fire_act ht, hstep]
      obtain ⟨hi, rfl⟩ := List.getElem?_eq_some_iff.1 ht
      exact List.set_getElem_self hi
  | interrupt i => cases hl
  | _ => rfl

theorem tasks_after_of_isOver (hf : ∀ n, (f n).IsCalm) (hover : (s.after f n).isOver = true)
    (hnm : n ≤ m) : (s.after f m).tasks = (s.after f n).tasks := by
  induction m, hnm using Nat.le_induction with
  | base => rfl
  | succ m _ ih =>
    rw [after_succ, tasks_fire_of_isOver (hf m) (by rw [isOver, ih]; exact hover), ih]

/-- Nobody fails by itself in a schedule that goes on from a run that has ended well. -/
theorem errs_after_of_isOver (hf : ∀ n, (f n).IsCalm)
    (hfirst : Label.firstMoves f ls.length = ls) (hover : (s.run ls).isOver = true)
    (herrless : s.isErrless ls = true) (n : Nat) : (s.after f n).errs (f n) = false := by
  rcases Nat.lt_or_ge n ls.length with hlt | hge
  · obtain ⟨late, hlate⟩ := Label.isPrefix_firstMoves f (Nat.succ_le_of_lt hlt)
    rw [Label.firstMoves_succ, hfirst] at hlate
    rw [← hlate, isErrless_append, isErrless_append] at herrless
    simp only [isErrless, Bool.and_true, Bool.and_eq_true, Bool.not_eq_true'] at herrless
    exact herrless.1.2
  · have hend : s.after f ls.length = s.run ls := by rw [after, hfirst]
    have htasks : (s.after f n).tasks = (s.run ls).tasks := by
      rw [tasks_after_of_isOver hf (hend ▸ hover) hge, hend]
    cases hl : f n with
    | act i =>
      rw [errs, htasks]
      cases ht : (s.run ls).tasks[i]? with
      | none => rfl
      | some t =>
        obtain ⟨res, hres⟩ := Option.isSome_iff_exists.1
          (List.all_eq_true.1 hover t (List.mem_of_getElem? ht))
        rw [Option.any_some, Task.errs, result?_eq_some_iff.1 hres]
    | _ => rfl

end

end System

/-! ### Workloads -/

/-- Every actor of this kind follows the loop. -/
def Kind.Follows (k : Kind) (C : Course Mind) : Prop :=
  ∀ s id mind, k.Builds s id mind → ∃ n, C.At mind ⟨.arriving, n⟩

theorem Kind.follows_greeter : greeter.Follows Mind.course := by
  intro s id mind hbuilds
  obtain ⟨loop, site, site', h⟩ := hbuilds
  obtain ⟨messages, ref, -, rfl, -⟩ := greeter_eq_ok h
  exact ⟨0, rfl⟩

/-- **What has been set up is on its course**, if the kinds of its actors follow the loop. -/
theorem Assembly.IsCast.isOnCourse {roster : Roster} {blocks cast : List Block} {a : Assembly}
    {C : Course Mind} (ha : a.IsCast roster blocks cast)
    (hfollows : ∀ b ∈ cast, ∀ kind, roster.find? b.actorType = some kind → kind.Follows C)
    (sink : Sink) : (a.system sink).IsOnCourse C where
  ready := ha.isReady sink
  tasks := by
    intro t ht
    obtain ⟨i, hi⟩ := List.getElem?_of_mem ht
    obtain ⟨b, hb, kind, s, mind, hs, hbuilds, rfl⟩ := ha.plays i t hi
    exact ⟨rfl, rfl, rfl, hfollows b (List.mem_of_getElem? hb) kind hs.found s i mind hbuilds⟩

/-- The actors of every workload of greeters follow the loop. -/
theorem isOnCourse_setUp {w : Workload} {store : Store} {a : Assembly}
    (hset : setUp .builtin w store = (.ok (), a)) (hroom : Block.headcount w.actors < wordLimit)
    (sink : Sink) : (a.system sink).IsOnCourse Mind.course := by
  refine (Assembly.isCast_setUp w.takesPart_builtin hroom hset).isOnCourse ?_ sink
  intro b _ kind hkind
  rw [Roster.builtin, SortedMap.find?_insert] at hkind
  split at hkind
  · cases hkind; exact Kind.follows_greeter
  · cases hkind

/-- A bucket of what has been set up is a full one, for a rate that some entry wants. -/
theorem Assembly.exists_of_bucket? {roster : Roster} {w : Workload} {store : Store} {a : Assembly}
    (hset : setUp roster w store = (.ok (), a)) {sink : Sink} {block phase : Nat} {b : Bucket}
    (hb : (a.system sink).world.bucket? block phase = some b) :
    ∃ blk ∈ w.actors, ∃ e ∈ blk.phases, ∃ r, e.globalRate = some r ∧ b = .full r 0 := by
  let P (_ _ : List Block) (a : Assembly) : Prop :=
    ∀ block phase b, (a.system sink).world.bucket? block phase = some b →
      ∃ blk ∈ w.actors, ∃ e ∈ blk.phases, ∃ r, e.globalRate = some r ∧ b = .full r 0
  refine setUp_induction (P := P) (fun block phase b hb => ?_)
    (fun _ _ a blk kind s hblk hs hP block phase b hb => ?_)
    (fun _ _ _ _ _ _ _ _ _ _ _ hP _ => hP) hset block phase b hb
  · cases hb
  · by_cases hindex : block = s.index
    · subst hindex
      rw [(Schedule.hasLimiters_ofBlock hs.schedule a s.index sink phase).1] at hb
      obtain ⟨plan, hplan, hb⟩ := Option.bind_eq_some_iff.1 hb
      obtain ⟨r, hr, rfl⟩ := Option.map_eq_some_iff.1 hb
      have hvalue := (Schedule.mem_values_iff (Schedule.isNumbered_ofBlock hs.schedule)).2
        ((Schedule.isNumbered_ofBlock hs.schedule phase plan hplan).symm ▸ hplan)
      obtain ⟨d, hd, hentry⟩ := (Schedule.mem_values_ofBlock hs.schedule).1 hvalue
      refine ⟨blk, hblk, d.1, Block.mem_phases_of_mem_described hd, r, ?_, rfl⟩
      obtain ⟨-, rfl⟩ | ⟨-, _, _, -, -, rfl⟩ := PhasePlan.ofEntry_eq_ok hentry
      · cases hr
      · exact hr
    · refine hP block phase b ?_
      simpa only [Assembly.system, World.bucket?, Assembly.enter, SortedMap.find?_insert,
        if_neg hindex] using hb

/-- What has been set up has pauses that can be computed, and feeds everybody, if that is so for all
rates that the entries want. -/
theorem hasPauses_setUp {w : Workload} {store : Store} {a : Assembly}
    (hset : setUp .builtin w store = (.ok (), a)) (hroom : Block.headcount w.actors < wordLimit)
    (hrates : ∀ b ∈ w.actors, ∀ e ∈ b.phases, ∀ r, e.globalRate = some r →
      r.Sound ∧ r.Feeds (Block.headcount w.actors) ∧ ∃ p, (Bucket.full r 0).pause = .ok p)
    (sink : Sink) : (a.system sink).HasPauses ∧ (a.system sink).IsSupplied := by
  have hlength : a.tasks.length = Block.headcount w.actors := by
    rw [(Assembly.isCast_setUp w.takesPart_builtin hroom hset).length, w.length_cast]
  constructor
  · intro block phase b hb
    obtain ⟨blk, hblk, e, he, r, hr, rfl⟩ := Assembly.exists_of_bucket? hset hb
    exact (hrates blk hblk e he r hr).2.2
  · intro block phase b hb
    obtain ⟨blk, hblk, e, he, r, hr, rfl⟩ := Assembly.exists_of_bucket? hset hb
    obtain ⟨hsound, hfeeds, -⟩ := hrates blk hblk e he r hr
    exact ⟨r, 0, rfl, Nat.zero_le _, hsound, hlength.symm ▸ hfeeds⟩

/-! ### Stops -/

namespace System

variable {σ : Type} [Behaviour σ] {C : Course σ}

omit [Behaviour σ] in
/-- A run that is stopped before it begins is stopped at once. -/
theorem launch_stop (s : System σ) :
    (s.onBarrier Barrier.stop).onBarrier Barrier.launch =
      (s.onBarrier Barrier.launch).onBarrier Barrier.stop := by
  have hb : s.world.barrier.stop.launch = s.world.barrier.launch.stop := by
    by_cases hr : s.world.barrier.signal.halt = .running
    · simp [Barrier.stop, Barrier.launch, Barrier.publish, hr]
    · simp [Barrier.stop, Barrier.launch, hr]
  simp only [onBarrier, hb]

/-- Once the run has been halted no answer to a question for the next phase is an error, and there is
no next phase for whoever asks only then. -/
theorem IsOnCourse.answer_of_halted {s : System σ} (hs : s.IsOnCourse C) {early late : List Label}
    (hcalm : ∀ l ∈ early ++ late, l.IsCalm) (hsound : (s.run (early ++ late)).IsSound)
    (hhalt : (s.run early).world.barrier.signal.halt ≠ .running) {i : Nat} {t : Task σ}
    {r : Except SyncError (Option PhasePlan)} (ht : (s.run (early ++ late)).tasks[i]? = some t)
    (hr : t.answer? (s.run (early ++ late)).world.barrier = some r) :
    (∃ found, r = .ok found) ∧
      ∀ u, (s.run early).tasks[i]? = some u → u.stage.isAdvancing = false → r = .ok none := by
  have hhalt' : (s.run (early ++ late)).world.barrier.signal.halt ≠ .running := fun hr => by
    rw [run_append] at hr
    exact hhalt ((reaches_run (s.run early) late).heeds.halt.eq_running hr)
  have haborted := hs.isAborted_run (hs.course_run hcalm hsound).2.1
  obtain ⟨a, p, hst, hanswer⟩ := Task.answer?_eq_some hr
  obtain ⟨found, rfl, hnone⟩ := Advance.answer?_of_halted hhalt' haborted p a hanswer
  refine ⟨⟨found, rfl⟩, fun u hu hno => ?_⟩
  rw [hnone (hs.level_of_later hcalm hsound hhalt hu hno ht hst)]

/-- **A stop never becomes a failure.**  All actors follow the loop, and none of them fails or
panics by itself; they make their moves in any order, and at any moment, be it before the run or
because its time is over, a stop takes effect.  The pauses of all buckets can be computed, and a
word is enough to count the moves before the stop.

Then nobody fails or panics at all.  From the stop on nobody is granted an iteration.  Nobody who
asks for the next phase waits any longer: the answer comes within a few steps, it is never an error,
and it is that there are no more phases if the question comes after the stop.  Nobody aborts the run
or deserts the others.  When the run has ended, every actor has terminated, the run counts as
stopped, and as many phases are said to be completed as had closed before the stop.  The run does
end, in any schedule in which everybody has a turn again and again, and time goes on, if every
bucket feeds all actors. -/
theorem orderly_stop {s₀ : System σ} (hs : s₀.IsOnCourse C) {before after : List Label}
    (hcalm : ∀ l ∈ before ++ .stop :: after, l.IsCalm) (hpauses : s₀.HasPauses)
    (hfew : before.length < wordLimit)
    (hrunning : ((s₀.onBarrier Barrier.launch).run before).world.barrier.signal.halt = .running)
    (herrless : (s₀.onBarrier Barrier.launch).isErrless (before ++ .stop :: after) = true) :
    let s := s₀.onBarrier Barrier.launch
    let s' := s.run (before ++ .stop :: after)
    let said (now : Nat) : Except RunError Summary := .ok {
      actors := s₀.tasks.map fun t => ⟨t.name, t.id, .terminated⟩
      phasesCompleted := (s.record before).closings
      stopped := true
      elapsed := .between 0 now }
    (s₀.fire .stop).onBarrier Barrier.launch = s.fire .stop ∧ s'.IsSound ∧
    (∀ t ∈ s'.tasks, t.grants s'.world = false) ∧
    (∀ t ∈ s'.tasks, ∀ a, t.stage = .advancing a → (t.answer? s'.world.barrier).isSome = true ∨
      ∃ a', (t.step s'.world).task.stage = .advancing a' ∧ a'.left < a.left) ∧
    (∀ (i : Nat) (t : Task σ) (r : Except SyncError (Option PhasePlan)),
      s'.tasks[i]? = some t → t.answer? s'.world.barrier = some r →
      (∃ found, r = .ok found) ∧
      ∀ (early : List Label) (u : Task σ), early <+: after →
        (s.run (before ++ .stop :: early)).tasks[i]? = some u → u.stage.isAdvancing = false →
        r = .ok none) ∧
    (s.record (before ++ .stop :: after)).desertions = [] ∧ s'.world.barrier.failure = none ∧
    (s'.isOver = true → conclude s' = said s'.world.now) ∧
    ∀ f : Nat → Label, (∀ n, (f n).IsCalm) → Label.IsFair s.tasks.length f →
      Label.firstMoves f (before ++ .stop :: after).length = before ++ .stop :: after →
      (∀ n, (s.after f n).errs (f n) = false) → s₀.IsSupplied →
      ∃ m, (s.after f m).isOver = true ∧ conclude (s.after f m) = said (s.after f m).world.now := by
  intro s s' said
  have hcourse : s.IsOnCourse C := ⟨hs.ready.launch, hs.tasks⟩
  have hsound : s'.IsSound := hcourse.isSound_of_stop hcalm hpauses hfew herrless hrunning
  have hstops : s.StopsAfter (before ++ .stop :: after) (s.record before).closings :=
    ⟨before, after, rfl, hrunning, (hcourse.ready.closings_record before).symm⟩
  obtain ⟨hat, hfailure, hdesertions⟩ := hcourse.course_run hcalm hsound
  have hhalted : s'.world.barrier.signal.halt ≠ .running := hstops.standstill.1
  refine ⟨launch_stop s₀, hsound, fun t _ => t.grants_of_halted hhalted,
    fun t ht a ha => Task.answered_of_halted hhalted ?_ ha, fun i t r ht hr => ?_, hdesertions,
    hfailure, fun hover => hcourse.conclude_of_stopsAfter hcalm hsound hover hstops,
    fun f hf hfair hfirst herrs hsupplied => ?_⟩
  · obtain ⟨x, hx⟩ := hat t ht
    exact hx.loop_of_advancing ha
  · -- the answer at the end of `early ++ late` is the one at the end of `after`
    have hanswer (early late : List Label) (hlate : early ++ late = after) :
        (∃ found, r = .ok found) ∧ ∀ u, (s.run (before ++ .stop :: early)).tasks[i]? = some u →
          u.stage.isAdvancing = false → r = .ok none := by
      have hsplit : before ++ .stop :: after = before ++ .stop :: early ++ late := by simp [← hlate]
      have hhalt : (s.run (before ++ .stop :: early)).world.barrier.signal.halt ≠ .running :=
        (StopsAfter.standstill ⟨before, early, rfl, hrunning, rfl⟩).1
      have ht' : (s.run (before ++ .stop :: early ++ late)).tasks[i]? = some t := hsplit ▸ ht
      have hr' : t.answer? (s.run (before ++ .stop :: early ++ late)).world.barrier = some r :=
        hsplit ▸ hr
      exact hcourse.answer_of_halted (hsplit ▸ hcalm) (hsplit ▸ hsound) hhalt ht' hr'
    refine ⟨(hanswer after [] after.append_nil).1, fun early u hearly => ?_⟩
    obtain ⟨late, hlate⟩ := hearly
    exact (hanswer early late hlate).2 u
  · have hsounds := hcourse.isSound_after_of_stop hf hfirst hpauses hfew herrs hrunning
    have hstopped : (s.after f (before ++ .stop :: after).length).world.barrier.signal.halt ≠
        .running := by
      rw [System.after, hfirst]
      exact hhalted
    have hpermits := hcourse.getsPermits hf hfair hsounds hpauses hsupplied hstopped
    obtain ⟨m, hm, hover⟩ := hcourse.ends_of_halted hf hfair hsounds hpermits hstopped
    obtain ⟨ls', hls'⟩ := Label.isPrefix_firstMoves f hm
    rw [hfirst] at hls'
    refine ⟨m, hover, hcourse.conclude_of_stopsAfter (Label.isCalm_firstMoves hf m) (hsounds m)
      hover ?_⟩
    rw [← hls']
    exact hstops.append ls'

/-- A greeter that greets twice, and rests for a second before it wants a permit. -/
def rationed (r : Rate) : Workload where
  actors := [{
    actorType := "HelloWorld"
    name := some "host"
    threads := 1
    phases := [{ repeats := some 2, sleepBefore := some (.ofSecs 1), globalRate := some r }]
    params := [] }]

/-- The greeter has greeted once, and rests again. -/
def rationedUntil : List Label :=
  .replicate 30 (.act 0) ++ .tick 1000000000 :: .replicate 30 (.act 0) ++ [.tick 1500000000]

/-- When it has rested it still wants a permit, and it may wait for it. -/
def rationedAfter : List Label :=
  .tick 2000000000 :: .replicate 10 (.act 0) ++ .tick 12000000000 :: .replicate 20 (.act 0)

/-- Stopped while it rests, the greeter gets a permit after ten seconds, and terminates. -/
theorem orderly_stop_rationed :
    ∃ a s, setUp .builtin (rationed ⟨1, .ofSecs 10⟩) .empty = (.ok (), a) ∧
      s = (a.system .memory).onBarrier Barrier.launch ∧
      (a.system .memory).IsOnCourse Mind.course ∧
      (∀ l ∈ rationedUntil ++ .stop :: rationedAfter, l.IsCalm) ∧
      (a.system .memory).HasPauses ∧ rationedUntil.length < wordLimit ∧
      (s.run rationedUntil).world.barrier.signal.halt = .running ∧
      s.isErrless (rationedUntil ++ .stop :: rationedAfter) = true ∧
      conclude (s.run (rationedUntil ++ .stop :: rationedAfter)) = .ok {
        actors := [⟨"host", 0, .terminated⟩]
        phasesCompleted := 0
        stopped := true
        elapsed := .between 0 12000000000 } ∧
      ∃ f : Nat → Label, (∀ n, (f n).IsCalm) ∧ Label.IsFair 1 f ∧
        (∀ n, (s.after f n).errs (f n) = false) ∧ (a.system .memory).IsSupplied ∧
        ∃ m, (s.after f m).isOver = true := by
  obtain ⟨a, s, hset, rfl, hrunning, herrless, hover, hclosings, hnow, hactors⟩ :
      ∃ a s, setUp .builtin (rationed ⟨1, .ofSecs 10⟩) .empty = (.ok (), a) ∧
        s = (a.system .memory).onBarrier Barrier.launch ∧
        (s.run rationedUntil).world.barrier.signal.halt = .running ∧
        s.isErrless (rationedUntil ++ .stop :: rationedAfter) = true ∧
        (s.run (rationedUntil ++ .stop :: rationedAfter)).isOver = true ∧
        (s.record rationedUntil).closings = 0 ∧
        (s.run (rationedUntil ++ .stop :: rationedAfter)).world.now = 12000000000 ∧
        (a.system .memory).tasks.map (fun t => (⟨t.name, t.id, .terminated⟩ : Finish)) =
          [⟨"host", 0, .terminated⟩] :=
    ⟨_, _, Assembly.setUp_eq_ok (by decide +kernel), rfl, by decide +kernel, by decide +kernel,
      by decide +kernel, by decide +kernel, by decide +kernel, by decide +kernel⟩
  have hcourse := isOnCourse_setUp hset (by decide) .memory
  obtain ⟨hpauses, hsupplied⟩ := hasPauses_setUp hset (by decide) (fun b hb e he r hr => by
    cases List.mem_singleton.1 hb
    cases List.mem_singleton.1 he
    cases hr
    have hsound : Rate.Sound ⟨1, .ofSecs 10⟩ := ⟨by decide, by decide, by decide⟩
    exact ⟨hsound, hsound.feeds (by decide), .ofSecs 10, by decide +kernel⟩) .memory
  have hcalm : ∀ l ∈ rationedUntil ++ .stop :: rationedAfter, l.IsCalm := by decide +kernel
  have hfew : rationedUntil.length < wordLimit := by decide +kernel
  obtain ⟨-, -, -, -, -, -, -, hsaid, hends⟩ :=
    orderly_stop hcourse hcalm hpauses hfew hrunning herrless
  have hsays := hsaid hover
  rw [hclosings, hnow, hactors] at hsays
  -- the schedule goes on after these moves
  let f := Label.continued (rationedUntil ++ .stop :: rationedAfter) (Label.roundRobin 1)
  have hf : ∀ n, (f n).IsCalm := Label.isCalm_continued hcalm (Label.isCalm_roundRobin 1)
  have hfair : Label.IsFair 1 f := (Label.isFair_roundRobin 1).continued _
  have hfirst := Label.firstMoves_continued (rationedUntil ++ .stop :: rationedAfter)
    (Label.roundRobin 1)
  have herrs := errs_after_of_isOver hf hfirst hover herrless
  have hone : (a.system .memory).tasks.length = 1 := by simpa using congrArg List.length hactors
  rw [← hone] at hfair
  obtain ⟨m, hm, -⟩ := hends f hf hfair hfirst herrs hsupplied
  rw [hone] at hfair
  exact ⟨a, _, hset, rfl, hcourse, hcalm, hpauses, hfew, hrunning, herrless, hsays, f, hf, hfair,
    herrs, hsupplied, m, hm⟩

/-- An actor has panicked, and this is what it is said to have panicked with. -/
def panicOf? : Except RunError Summary → Option (String × Nat × Nat × String)
  | .error (.actorPanicked actor id phase message) => some (actor, id, phase, message)
  | _ => none

theorem eq_error_of_panicOf? {r : Except RunError Summary} {actor message : String} {id phase : Nat}
    (h : panicOf? r = some (actor, id, phase, message)) :
    r = .error (.actorPanicked actor id phase message) := by
  unfold panicOf? at h
  split at h
  · cases h; rfl
  · cases h

/-- **A stop becomes a failure where a pause cannot be computed.**  Nobody fails by itself, but the
greeter finds the bucket empty after the stop, and panics. -/
theorem panics_after_stop :
    ∃ a s, setUp .builtin (rationed ⟨1, .ofSecs 18446744073709550592⟩) .empty = (.ok (), a) ∧
      s = (a.system .memory).onBarrier Barrier.launch ∧
      (a.system .memory).IsOnCourse Mind.course ∧
      (∀ l ∈ rationedUntil ++ .stop :: rationedAfter, l.IsCalm) ∧
      rationedUntil.length < wordLimit ∧
      (s.run rationedUntil).world.barrier.signal.halt = .running ∧
      s.isErrless (rationedUntil ++ .stop :: rationedAfter) = true ∧
      (s.run (rationedUntil ++ .stop :: rationedAfter)).isOver = true ∧
      conclude (s.run (rationedUntil ++ .stop :: rationedAfter)) =
        .error (.actorPanicked "host" 0 0 Duration.SecondsFault.tooLong.message) := by
  have hset : setUp .builtin (rationed ⟨1, .ofSecs 18446744073709550592⟩) .empty = (.ok (), _) :=
    Assembly.setUp_eq_ok (by decide +kernel)
  exact ⟨_, _, hset, rfl, isOnCourse_setUp hset (by decide) .memory, by decide +kernel,
    by decide +kernel, by decide +kernel, by decide +kernel, by decide +kernel,
    eq_error_of_panicOf? (by decide +kernel)⟩

end System

end Lockstep
