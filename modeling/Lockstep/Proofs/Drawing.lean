import Lockstep.Proofs.Supply
import Lockstep.Proofs.Yielding

/-!
# The permits of a run

Those who share a bucket in a run are a company, whatever else they do: every move of the run is a
move of the company.

* `Task.draw?` : where an actor is that wants a permit of a bucket, and `Task.step_of_draw?` : what
  its step makes of it and of the bucket;
* `System.company` : the company of those who share a bucket;
* `System.company_fire` : **a move of the run is a move of the company**, if nobody is called away;
* `System.HasPauses` : the pauses of all buckets can be computed, and that stays so.
-/

namespace Lockstep

open Decimal

namespace Pace

variable {now : Nat} {b : Barrier} {bucket : Option Bucket} {x : Stint} {p : Pace}

/-- Only whoever wants a permit touches the bucket. -/
theorem bucket_step (hp : ∀ d, p ≠ drawing d) : (p.step now b bucket x).1 = bucket := by
  cases p with
  | drawing d => exact absurd rfl (hp d)
  | _ =>
    simp only [step]
    repeat' split
    all_goals rfl

end Pace

namespace Task

variable {σ : Type} {t : Task σ} {w : World} {block phase : Nat} {b : Bucket} {d : Draw}

/-- Where the actor is that wants a permit of the bucket of a block and a phase. -/
def draw? (t : Task σ) (block phase : Nat) : Option Draw :=
  match t.stage, t.stint with
  | .pacing (.drawing d), some x =>
    if t.loop.elim 0 Participant.block = block ∧ x.plan.number = phase then some d else none
  | _, _ => none

theorem draw?_eq_some_iff : t.draw? block phase = some d ↔ t.stage = .pacing (.drawing d) ∧
    ∃ x, t.stint = some x ∧ t.loop.elim 0 Participant.block = block ∧ x.plan.number = phase := by
  unfold draw?
  split
  · next d' x hs hx =>
    rw [hs, hx]
    simp only [Option.ite_none_right_eq_some, Option.some.injEq, Stage.pacing.injEq,
      Pace.drawing.injEq, exists_eq_left']
    exact and_comm
  · next hno =>
    refine iff_of_false (by rintro ⟨⟩) ?_
    rintro ⟨hs, x, hx, -⟩
    exact hno d x hs hx

variable [Behaviour σ]

/-- The step of an actor that wants a permit, and the bucket after it. -/
theorem step_of_draw? (h : t.draw? block phase = some d) (hb : w.bucket? block phase = some b) :
    (t.step w).world.bucket? block phase = some (d.step w.now b).1 ∧
      (t.step w).task.draw? block phase = (d.step w.now b).2.next? d := by
  obtain ⟨hs, x, hx, rfl, rfl⟩ := draw?_eq_some_iff.1 h
  have hput (bucket : Bucket) : (w.putBucket (t.loop.elim 0 Participant.block) x.plan.number
      bucket).bucket? (t.loop.elim 0 Participant.block) x.plan.number = some bucket := by
    rw [World.bucket?_putBucket, if_pos ⟨rfl, rfl⟩]
  simp only [step, hs, pace, hx, hb, Pace.step]
  generalize d.step w.now b = r
  obtain ⟨b', r⟩ := r
  cases r with
  | blocked =>
    dsimp only
    exact ⟨hput b', draw?_eq_some_iff.2 ⟨rfl, x, rfl, rfl, rfl⟩⟩
  | moved d' =>
    dsimp only
    exact ⟨hput b', draw?_eq_some_iff.2 ⟨rfl, x, rfl, rfl, rfl⟩⟩
  | taken => exact ⟨hput b', rfl⟩
  | broken message =>
    simp only [world_conclude]
    refine ⟨hput b', Option.eq_none_iff_forall_ne_some.2 fun d' hd' => ?_⟩
    exact stage_conclude_ne _ _ _ _ (draw?_eq_some_iff.1 hd').1

/-- Without a bucket there is nothing to wait for. -/
theorem step_of_bucket?_eq_none (h : t.draw? block phase = some d)
    (hb : w.bucket? block phase = none) :
    (t.step w).world.bucket? block phase = none ∧ (t.step w).task.stage = .pacing .deciding := by
  obtain ⟨hs, x, hx, rfl, rfl⟩ := draw?_eq_some_iff.1 h
  simp only [step, hs, pace, hx, hb, Pace.step]
  exact ⟨hb, rfl⟩

/-- **Nobody touches a bucket but those who want a permit of it.** -/
theorem bucket?_step_of_draw?_eq_none (h : t.draw? block phase = none) :
    (t.step w).world.bucket? block phase = w.bucket? block phase := by
  by_cases hs : ∃ p, t.stage = .pacing p
  swap
  · simp only [World.bucket?, buckets_step fun p hp => hs ⟨p, hp⟩]
  obtain ⟨p, hs⟩ := hs
  cases hx : t.stint with
  | none =>
    simp only [step, hs, pace, hx]
    rfl
  | some x =>
    -- the bucket that is put back is the same one, or another one than this
    have hsame (bucket : Option Bucket) (hbucket : (p.step w.now w.barrier
        (w.bucket? (t.loop.elim 0 Participant.block) x.plan.number) x).1 = bucket) :
        (bucket.elim w (w.putBucket (t.loop.elim 0 Participant.block) x.plan.number)).bucket?
          block phase = w.bucket? block phase := by
      cases bucket with
      | none => rfl
      | some bucket =>
        rw [Option.elim_some, World.bucket?_putBucket]
        split
        · next hplace =>
          rw [Pace.bucket_step] at hbucket
          · rw [hplace.1, hplace.2, hbucket]
          · rintro d rfl
            rw [draw?_eq_some_iff.2 ⟨hs, x, hx, hplace.1.symm, hplace.2.symm⟩] at h
            cases h
        · rfl
    simp only [step, hs, pace, hx]
    generalize p.step w.now w.barrier _ x = r at hsame ⊢
    obtain ⟨bucket, x', r⟩ := r
    cases r with
    | broken message =>
      simp only [world_conclude]
      exact hsame bucket rfl
    | _ => exact hsame bucket rfl

/-- **Whoever begins to want a permit settles the bucket first.** -/
theorem draw?_step_of_draw?_eq_none (h : t.draw? block phase = none)
    (hd : (t.step w).task.draw? block phase = some d) : d = .settling := by
  obtain ⟨hs, y, hy, hblock, hphase⟩ := draw?_eq_some_iff.1 hd
  rcases paces_of_step hs with ⟨-, hasked, -⟩ | ⟨p, x, hpaces⟩
  · cases hasked
  · refine Pace.eq_settling_of_step (fun d' hd' => ?_) hpaces.next
    subst hd'
    cases hpaces.kept.symm.trans hy
    rw [draw?_eq_some_iff.2 ⟨hpaces.stage, _, hpaces.stint, hpaces.loop ▸ hblock, hphase⟩] at h
    cases h

/-- Whoever goes on wanting a permit wants one of the same bucket. -/
theorem isSome_draw?_step (h : (t.draw? block phase).isSome = true)
    (hd : (t.step w).task.stage.isDrawing = true) :
    ((t.step w).task.draw? block phase).isSome = true := by
  obtain ⟨d, h⟩ := Option.isSome_iff_exists.1 h
  obtain ⟨hs, x, hx, hblock, hphase⟩ := draw?_eq_some_iff.1 h
  unfold Stage.isDrawing at hd
  split at hd
  · next q hq =>
    obtain ⟨y, hpaces⟩ := paces_of_pace hs hq
    cases hpaces.stint.symm.trans hx
    cases q with
    | drawing d' =>
      rw [draw?_eq_some_iff.2 ⟨hq, x, hpaces.kept, hpaces.loop.symm ▸ hblock, hphase⟩]
      rfl
    | _ => cases hd
  · cases hd

end Task

namespace System

variable {σ : Type} {s : System σ} {l : Label} {i block phase : Nat} {b : Bucket} {t : Task σ}

/-- Those who share the bucket `b`, which is that of a block and a phase. -/
def company (s : System σ) (block phase : Nat) (b : Bucket) : Company :=
  ⟨s.world.now, b, s.tasks.map fun t => t.draw? block phase⟩

theorem takers_company (ht : s.tasks[i]? = some t) :
    (s.company block phase b).takers[i]? = some (t.draw? block phase) := by
  rw [company, List.getElem?_map, ht, Option.map_some]

variable [Behaviour σ]

/-- What a move is for those who share a bucket. -/
def share (s : System σ) (block phase : Nat) : Label → Company.Move
  | .act i =>
    if ((s.tasks[i]?.bind fun t => t.draw? block phase).isSome ||
      ((s.fire (.act i)).tasks[i]?.bind fun t => t.draw? block phase).isNone) then .step i
    else .want i
  | .tick now => .pass (now - s.world.now)
  | _ => .pass 0

theorem share_ne_quit (s : System σ) (block phase : Nat) (l : Label) (i : Nat) :
    s.share block phase l ≠ .quit i := by
  unfold share
  repeat' split
  all_goals rintro ⟨⟩

/-- Whoever wants a permit takes a step towards it with every turn. -/
theorem share_act (ht : s.tasks[i]? = some t) (hd : (t.draw? block phase).isSome = true) :
    s.share block phase (.act i) = .step i := by
  simp only [share, ht, Option.bind_some, hd, Bool.true_or, if_true]

/-- A step of somebody who wants a permit. -/
theorem company_act_of_some (ht : s.tasks[i]? = some t) {d : Draw}
    (hd : t.draw? block phase = some d) (hb : s.world.bucket? block phase = some b) :
    ∃ b', (s.fire (.act i)).world.bucket? block phase = some b' ∧
      (s.fire (.act i)).company block phase b' =
        (s.company block phase b).fire (s.share block phase (.act i)) := by
  obtain ⟨hb', hd'⟩ := t.step_of_draw? hd hb
  refine ⟨_, by rw [fire_act ht]; exact hb', ?_⟩
  rw [share_act ht (by rw [hd]; rfl), Company.fire_step (by rw [takers_company ht, hd]), fire_act ht]
  simp only [company, List.map_set, Task.now_step s.world t, hd']

/-- A step of somebody who does not want a permit yet: it may begin to want one. -/
theorem company_act_of_none (ht : s.tasks[i]? = some t) (hd : t.draw? block phase = none) :
    (s.fire (.act i)).company block phase b =
      (s.company block phase b).fire (s.share block phase (.act i)) := by
  have hi := (List.getElem?_eq_some_iff.1 ht).1
  have hfree : (s.company block phase b).takers[i]?.join = none := by
    rw [takers_company ht, hd]
    rfl
  have hget : (s.fire (.act i)).tasks[i]? = some (t.step s.world).task := by
    rw [fire_act ht]
    exact List.getElem?_set_self hi
  cases hd' : (t.step s.world).task.draw? block phase with
  | none =>
    have hset : (s.tasks.map fun t => t.draw? block phase).set i none =
        s.tasks.map fun t => t.draw? block phase := by
      refine List.ext_getElem? fun j => ?_
      by_cases hij : i = j
      · subst hij
        rw [List.getElem?_set_self (by rwa [List.length_map]), List.getElem?_map, ht,
          Option.map_some, hd]
      · rw [List.getElem?_set_ne hij]
    simp only [share, hget, Option.bind_some, hd', Option.isNone_none, Bool.or_true, if_true,
      Company.fire, hfree]
    rw [fire_act ht]
    simp only [company, List.map_set, Task.now_step s.world t, hd', hset]
  | some d =>
    obtain rfl := Task.draw?_step_of_draw?_eq_none hd hd'
    simp only [share, ht, hget, Option.bind_some, hd, hd', Option.isSome_none, Option.isNone_some,
      Bool.or_self, Bool.false_eq_true, if_false, Company.fire, hfree, if_true]
    rw [fire_act ht]
    simp only [company, List.map_set, Task.now_step s.world t, hd']

/-- **A move of a run is a move of those who share a bucket**, if nobody is called away. -/
theorem company_fire (hl : l.IsCalm) (hb : s.world.bucket? block phase = some b) :
    ∃ b', (s.fire l).world.bucket? block phase = some b' ∧
      (s.fire l).company block phase b' =
        (s.company block phase b).fire (s.share block phase l) := by
  cases l with
  | act i =>
    cases ht : s.tasks[i]? with
    | none =>
      have hnone : (s.company block phase b).takers[i]? = none := by
        rw [company, List.getElem?_map, ht, Option.map_none]
      have hsame : s.fire (.act i) = s := by rw [fire, act, onTask_of_none ht]
      refine ⟨b, hsame.symm ▸ hb, ?_⟩
      simp only [share, hsame, ht, Option.bind_none, Option.isNone_none, Bool.or_true, if_true,
        Company.fire, hnone, Option.join_none]
    | some t =>
      cases hd : t.draw? block phase with
      | some d => exact company_act_of_some ht hd hb
      | none =>
        refine ⟨b, ?_, company_act_of_none ht hd⟩
        rw [fire_act ht, Task.bucket?_step_of_draw?_eq_none hd, hb]
  | interrupt i => cases hl
  | tick now =>
    refine ⟨b, hb, ?_⟩
    simp only [fire, showing, share, Company.fire, company, Company.mk.injEq, and_true]
    omega
  | _ => exact ⟨b, hb, rfl⟩

/-- No bucket comes up. -/
theorem bucket?_fire_of_none (hl : l.IsCalm) (hb : s.world.bucket? block phase = none) :
    (s.fire l).world.bucket? block phase = none := by
  cases l with
  | act i =>
    cases ht : s.tasks[i]? with
    | none => rw [fire, act, onTask_of_none ht]; exact hb
    | some t =>
      rw [fire_act ht]
      cases hd : t.draw? block phase with
      | none => exact (Task.bucket?_step_of_draw?_eq_none hd).trans hb
      | some d => exact (Task.step_of_bucket?_eq_none hd hb).1
  | interrupt i => cases hl
  | _ => exact hb

theorem isSome_bucket?_run {ls : List Label} (hls : ∀ l ∈ ls, l.IsCalm) :
    ((s.run ls).world.bucket? block phase).isSome = (s.world.bucket? block phase).isSome := by
  induction ls using List.reverseRecOn with
  | nil => rfl
  | append_singleton ls l ih =>
    have hl : l.IsCalm := hls l (by simp)
    rw [← ih fun l hl => hls l (List.mem_append_left _ hl), run_snoc]
    cases hb : (s.run ls).world.bucket? block phase with
    | none => rw [bucket?_fire_of_none hl hb]
    | some b =>
      obtain ⟨b', hb', -⟩ := company_fire hl hb
      rw [hb']
      rfl

omit [Behaviour σ] in
/-- The pauses of all buckets can be computed. -/
def HasPauses (s : System σ) : Prop :=
  ∀ block phase b, s.world.bucket? block phase = some b → ∃ p, b.pause = .ok p

theorem HasPauses.fire (h : s.HasPauses) (hl : l.IsCalm) : (s.fire l).HasPauses := by
  intro block phase b hb
  cases hbefore : s.world.bucket? block phase with
  | none =>
    rw [bucket?_fire_of_none hl hbefore] at hb
    cases hb
  | some b₀ =>
    obtain ⟨b', hb', hfire⟩ := company_fire hl hbefore
    cases hb.symm.trans hb'
    have hpause := (s.company block phase b₀).pause_fire (s.share block phase l)
    rw [← hfire] at hpause
    rw [show b.pause = b₀.pause from hpause]
    exact h block phase b₀ hbefore

/-- **The pauses of all buckets can be computed all along a run**, if they can before it. -/
theorem HasPauses.run (h : s.HasPauses) {ls : List Label} (hls : ∀ l ∈ ls, l.IsCalm) :
    (s.run ls).HasPauses := by
  induction ls using List.reverseRecOn with
  | nil => exact h
  | append_singleton ls l ih =>
    rw [run_snoc]
    exact (ih fun l hl => hls l (List.mem_append_left _ hl)).fire (hls l (by simp))

/-! ### Schedules that go on -/

variable {f : Nat → Label} {b : Nat → Bucket}

theorem length_fire (s : System σ) (l : Label) : (s.fire l).tasks.length = s.tasks.length := by
  have honTask (i : Nat) (f : World → Task σ → Task.Stepped σ) :
      (s.onTask i f).tasks.length = s.tasks.length := by
    unfold onTask
    split
    · rfl
    · exact List.length_set
  cases l with
  | act i => exact honTask i _
  | interrupt i => exact honTask i _
  | _ => rfl

theorem length_after (s : System σ) (f : Nat → Label) (n : Nat) :
    (s.after f n).tasks.length = s.tasks.length := by
  induction n with
  | zero => rfl
  | succ n ih => rw [after_succ, length_fire, ih]

/-- **In a fair schedule those who share a bucket go on without end.** -/
theorem endless_company (hf : ∀ n, (f n).IsCalm) (hfair : Label.IsFair s.tasks.length f)
    (hb : ∀ n, (s.after f n).world.bucket? block phase = some (b n)) :
    Company.Endless (fun n => (s.after f n).company block phase (b n))
      fun n => (s.after f n).share block phase (f n) where
  fires n := by
    obtain ⟨b', hb', hfire⟩ := company_fire (hf n) (hb n)
    rw [← after_succ] at hb' hfire
    cases (hb (n + 1)).symm.trans hb'
    exact hfire
  stays n i := share_ne_quit _ _ _ _ i
  turns n i hwants := by
    have hget (m : Nat) {d : Draw}
        (hd : ((s.after f m).company block phase (b m)).takers[i]? = some (some d)) :
        ∃ t, (s.after f m).tasks[i]? = some t ∧ t.draw? block phase = some d := by
      rw [company, List.getElem?_map] at hd
      obtain ⟨t, ht, hd⟩ := Option.map_eq_some_iff.1 hd
      exact ⟨t, ht, hd⟩
    obtain ⟨d, hd⟩ := hwants n le_rfl
    obtain ⟨t, ht, -⟩ := hget n hd
    obtain ⟨m, hm, hact⟩ := hfair.acts i
      (length_after s f n ▸ (List.getElem?_eq_some_iff.1 ht).1) n
    obtain ⟨d', hd'⟩ := hwants m hm
    obtain ⟨u, hu, hdraw⟩ := hget m hd'
    refine ⟨m, hm, ?_⟩
    rw [hact]
    exact share_act hu (by rw [hdraw]; rfl)
  passes time := by
    obtain ⟨n, hn⟩ := exists_now_le hfair s time
    exact ⟨n, hn n le_rfl⟩

end System

end Lockstep
