import Lockstep.Proofs.PolicyChecks

/-!
# Letting the others go first

An actor whose work never waits for anything gives way to the others only while it asks for its next
iteration.

* `Task.suspends` : with its next step a task gives way; `System.suspends` : it has done so on the
  way;
* `System.Asks` : along some moves the actor is in one and the same question;
* `Pace.Since`, `Pace.Rested` : what is known at a point of a question about the waits before it;
* `System.granted_after_suspending` : **an actor that is granted an iteration has given way before
  it**, unless there was something to wait for and all of it was over at once.

A question that waits for something does not yield besides.  So an actor that finds permits in its
bucket, or whose pauses take no time, goes on without giving way (`System.granted_unsuspended`).
-/

namespace Lockstep

/-! ### What there is to wait for -/

/-- A pause takes no time, or the clock has moved on. -/
def Duration.Lapses (d : Duration) (start now : Nat) : Prop := d.nanos = 0 ∨ start < now

theorem Duration.Lapses.mono {d : Duration} {start now now' : Nat} (h : d.Lapses start now)
    (hnow : now ≤ now') : d.Lapses start now' :=
  h.imp_right fun hlt => hlt.trans_le hnow

theorem Duration.lapses_wakeTime {start now : Nat} (h : start ≤ now) (d : Duration) :
    d.Lapses start (wakeTime now d) :=
  (Nat.eq_zero_or_pos d.nanos).imp_right fun hd => h.trans_lt (lt_wakeTime now hd)

namespace Stint

/-- The pause after an iteration, unless the next one is the first. -/
def cooling? (x : Stint) : Option Duration := if 0 < x.iterations then x.plan.sleepAfter else none

/-- The pauses before the next iteration. -/
def pauses (x : Stint) : List Duration := x.cooling?.toList ++ x.plan.sleepBefore.toList

/-- There is something to wait for before the next iteration: a pause, or a permit. -/
def HasWait (x : Stint) : Prop := x.pauses ≠ [] ∨ x.plan.rate.isSome = true

end Stint

/-! ### One question -/

namespace Pace

/-- Where a question is after a step that does not end it. -/
def Progress.next? (p : Pace) : Progress → Option Pace
  | blocked => some p
  | moved q => some q
  | yielded q => some q
  | answered _ => none
  | broken _ => none

/-- What is known at a point of a question that was asked at the time `start`: which waits there
are, that those before this point have lapsed, and that somebody who had nothing to wait for has
given way. -/
def Since (x : Stint) (start now : Nat) (suspended : Prop) : Pace → Prop
  | asked => True
  | coolingDown wake => ∃ d, x.cooling? = some d ∧ d.Lapses start wake
  | checking waited | weighing waited =>
    waited = x.cooling?.isSome ∧ ∀ d ∈ x.cooling?, d.Lapses start now
  | warmingUp wake =>
    (∀ d ∈ x.cooling?, d.Lapses start now) ∧
      ∃ d, x.plan.sleepBefore = some d ∧ d.Lapses start wake
  | drawing _ => x.plan.rate.isSome = true ∧ ∀ d ∈ x.pauses, d.Lapses start now
  | yielding => x.pauses = []
  | deciding => (suspended ∨ x.HasWait) ∧ ∀ d ∈ x.pauses, d.Lapses start now

variable {x : Stint} {start now now' : Nat} {suspended suspended' : Prop} {p q : Pace}
  {b : Barrier} {bucket : Option Bucket} {rests : List Duration}

theorem Since.mono (h : p.Since x start now suspended) (hnow : now ≤ now')
    (hs : suspended → suspended') : p.Since x start now' suspended' := by
  cases p with
  | asked => trivial
  | coolingDown wake => exact h
  | checking waited => exact ⟨h.1, fun d hd => (h.2 d hd).mono hnow⟩
  | weighing waited => exact ⟨h.1, fun d hd => (h.2 d hd).mono hnow⟩
  | warmingUp wake => exact ⟨fun d hd => (h.1 d hd).mono hnow, h.2⟩
  | drawing d => exact ⟨h.1, fun d hd => (h.2 d hd).mono hnow⟩
  | yielding => exact h
  | deciding => exact ⟨h.1.imp_left hs, fun d hd => (h.2 d hd).mono hnow⟩

/-- After the pauses comes the permit, if there is a rate; without any wait the actor yields. -/
theorem since_afterPauses {waited : Bool} (hwaited : waited = true ↔ x.pauses ≠ [])
    (hlapsed : ∀ d ∈ x.pauses, d.Lapses start now) :
    (afterPauses x.plan waited).Since x start now suspended := by
  unfold afterPauses
  split
  · next hrate => exact ⟨hrate, hlapsed⟩
  · split
    · next hw => exact ⟨.inr (.inl (hwaited.1 hw)), hlapsed⟩
    · next hw => exact not_not.1 (mt hwaited.2 hw)

/-- After the question comes the pause after the iteration before, if there is one. -/
theorem since_of_asked (hstart : start ≤ now)
    (hstep : (asked.step now b bucket x).2.2.next? asked = some q) :
    q.Since x start now suspended := by
  simp only [Pace.step] at hstep
  split at hstep
  · next d hd =>
    split at hstep <;> cases hstep
    · next hi =>
      exact ⟨d, by rw [Stint.cooling?, if_pos hi, hd], Duration.lapses_wakeTime hstart d⟩
    · next hi =>
      have hnone : x.cooling? = none := if_neg hi
      simp [Since, hnone]
  · next hd =>
    cases hstep
    have hnone : x.cooling? = none := by rw [Stint.cooling?, hd, ite_self]
    simp [Since, hnone]

/-- When this pause is over it has lapsed. -/
theorem Since.of_coolingDown {wake : Nat} (h : (coolingDown wake).Since x start now suspended)
    (hstep : ((coolingDown wake).step now b bucket x).2.2.next? (coolingDown wake) = some q) :
    q.Since x start now suspended := by
  simp only [Pace.step] at hstep
  split at hstep <;> cases hstep
  · next hw =>
    obtain ⟨d, hd, hlapses⟩ := h
    refine ⟨by rw [hd]; rfl, fun d' hd' => ?_⟩
    cases hd.symm.trans hd'
    exact hlapses.mono hw
  · exact h

/-- After the policy comes the pause before the next iteration, if there is one. -/
theorem Since.of_weighing {waited : Bool} (h : (weighing waited).Since x start now suspended)
    (hstart : start ≤ now)
    (hstep : ((weighing waited).step now b bucket x).2.2.next? (weighing waited) = some q) :
    q.Since x start now suspended := by
  obtain ⟨hwaited, hcooled⟩ := h
  simp only [Pace.step] at hstep
  split at hstep
  · cases hstep
  · split at hstep <;> cases hstep
    · next d hd => exact ⟨hcooled, d, hd, Duration.lapses_wakeTime hstart d⟩
    · next hd =>
      have hpauses : x.pauses = x.cooling?.toList := by simp [Stint.pauses, hd]
      refine since_afterPauses ?_ fun d hd => hcooled d ?_
      · rw [hpauses, hwaited, Option.isSome_iff_ne_none, Ne, Ne, Option.toList_eq_nil_iff]
      · rw [hpauses] at hd
        exact Option.mem_toList.1 hd

/-- When this pause is over both of them have lapsed. -/
theorem Since.of_warmingUp {wake : Nat} (h : (warmingUp wake).Since x start now suspended)
    (hstep : ((warmingUp wake).step now b bucket x).2.2.next? (warmingUp wake) = some q) :
    q.Since x start now suspended := by
  simp only [Pace.step] at hstep
  split at hstep <;> cases hstep
  · next hw =>
    obtain ⟨hcooled, d, hd, hlapses⟩ := h
    have hpauses : x.pauses = x.cooling?.toList ++ [d] := by simp [Stint.pauses, hd]
    refine since_afterPauses (by simp [hpauses]) fun d' hd' => ?_
    rw [hpauses, List.mem_append, Option.mem_toList, List.mem_singleton] at hd'
    rcases hd' with hd' | rfl
    · exact hcooled d' hd'
    · exact hlapses.mono hw
  · exact h

/-- Whoever draws a permit goes on doing so, or has a rate. -/
theorem Since.of_drawing {d : Draw} (h : (drawing d).Since x start now suspended)
    (hstep : ((drawing d).step now b bucket x).2.2.next? (drawing d) = some q) :
    q.Since x start now suspended := by
  have hdeciding : deciding.Since x start now suspended := ⟨.inr (.inr h.1), h.2⟩
  simp only [Pace.step] at hstep
  repeat' split at hstep
  all_goals cases hstep
  all_goals first | exact h | exact hdeciding

/-- **A step of a question keeps what is known of it.** -/
theorem Since.step (h : p.Since x start now suspended) (hstart : start ≤ now)
    (hyields : p = yielding → suspended) (hstep : (p.step now b bucket x).2.2.next? p = some q) :
    q.Since x start now suspended := by
  cases p with
  | asked => exact since_of_asked hstart hstep
  | coolingDown wake => exact h.of_coolingDown hstep
  | checking waited =>
    simp only [Pace.step] at hstep
    split at hstep <;> cases hstep
    exact h
  | weighing waited => exact h.of_weighing hstart hstep
  | warmingUp wake => exact h.of_warmingUp hstep
  | drawing d => exact h.of_drawing hstep
  | yielding =>
    cases hstep
    have hnone : x.pauses = [] := h
    exact ⟨.inl (hyields rfl), by simp [hnone]⟩
  | deciding =>
    simp only [Pace.step] at hstep
    repeat' split at hstep
    all_goals cases hstep

/-- How long an actor that finds no permit with its next step rests before it tries again. -/
def rest? (bucket : Option Bucket) : Pace → Option Duration
  | drawing .taking => bucket.bind fun b => if b.permits = 0 then b.pause.toOption else none
  | _ => none

/-- The rests since the time `start` have lapsed before this point; and whoever rests does so for
the sake of a bucket. -/
def Rested (start now : Nat) (bucket : Option Bucket) (rests : List Duration) : Pace → Prop
  | drawing (.resting wake) => bucket.isSome = true ∧ ∀ d ∈ rests, d.Lapses start wake
  | _ => ∀ d ∈ rests, d.Lapses start now

theorem Rested.mono {bucket' : Option Bucket} (h : p.Rested start now bucket rests)
    (hnow : now ≤ now') (hb : bucket.isSome = true → bucket'.isSome = true) :
    p.Rested start now' bucket' rests := by
  unfold Rested at h ⊢
  split at h
  · exact h.imp_left hb
  · exact fun d hd => (h d hd).mono hnow

theorem rested_of_forall (hp : ∀ wake, p ≠ drawing (.resting wake))
    (h : ∀ d ∈ rests, d.Lapses start now) : p.Rested start now bucket rests := by
  unfold Rested
  split
  · next wake => exact absurd rfl (hp wake)
  · exact h

/-- Whoever begins to want a permit settles the bucket first. -/
theorem eq_settling_of_step {d : Draw} (hp : ∀ d, p ≠ drawing d)
    (hstep : (p.step now b bucket x).2.2.next? p = some (drawing d)) : d = .settling := by
  have hafter (waited : Bool) (h : afterPauses x.plan waited = drawing d) : d = .settling := by
    unfold afterPauses at h
    repeat' split at h
    all_goals cases h
    rfl
  cases p with
  | drawing d => exact absurd rfl (hp d)
  | _ =>
    simp only [Pace.step] at hstep
    repeat' split at hstep
    all_goals first
      | cases hstep
      | exact hafter _ (Option.some.inj hstep)

/-- Only whoever wants a permit comes to rest. -/
theorem ne_resting_of_step (hp : ∀ d, p ≠ drawing d)
    (hstep : (p.step now b bucket x).2.2.next? p = some q) (wake : Nat) :
    q ≠ drawing (.resting wake) := by
  rintro rfl
  cases eq_settling_of_step hp hstep

theorem rest?_of_ne (hp : p ≠ drawing .taking) : p.rest? bucket = none := by
  unfold rest?
  split
  · exact absurd rfl hp
  · rfl

/-- What a try at a permit comes to. -/
theorem Rested.step_drawing {d : Draw} {bucket : Bucket}
    (h : (drawing d).Rested start now (some bucket) rests) (hstart : start ≤ now)
    (hstep : ((drawing d).step now b (some bucket) x).2.2.next? (drawing d) = some q) :
    q.Rested start now ((drawing d).step now b (some bucket) x).1
      (rests ++ ((drawing d).rest? (some bucket)).toList) := by
  have hsame {q : Pace} {bucket' : Option Bucket} (hd : d ≠ .taking)
      (hq : q.Rested start now bucket' rests) :
      q.Rested start now bucket' (rests ++ ((drawing d).rest? (some bucket)).toList) := by
    rwa [rest?_of_ne (by rintro ⟨⟩; exact hd rfl), Option.toList_none, List.append_nil]
  cases d with
  | settling =>
    refine hsame (by decide) ?_
    by_cases hlocked : bucket.pending.isSome = true
    all_goals
      simp only [Pace.step, Draw.step, hlocked, if_true, Bool.false_eq_true, if_false] at hstep
      cases hstep
      exact h
  | depositing =>
    cases hstep
    exact hsame (by decide) h
  | taking =>
    simp only [Pace.step, Draw.step, Bucket.take?, rest?, Option.bind_some] at hstep ⊢
    by_cases hempty : bucket.permits = 0
    · simp only [hempty, if_true] at hstep ⊢
      cases hpause : bucket.pause with
      | error fault =>
        rw [hpause] at hstep
        cases hstep
      | ok d =>
        simp only [hpause, Except.toOption, Option.toList_some] at hstep ⊢
        cases hstep
        refine ⟨rfl, fun d' hd' => ?_⟩
        rcases List.mem_append.1 hd' with hd' | hd'
        · exact (h d' hd').mono (le_wakeTime now d)
        · obtain rfl := List.mem_singleton.1 hd'
          exact Duration.lapses_wakeTime hstart d'
    · simp only [hempty, if_false, Option.toList_none, List.append_nil] at hstep ⊢
      cases hstep
      exact h
  | resting wake =>
    refine hsame (by rintro ⟨⟩) ?_
    by_cases hwake : wake ≤ now
    · simp only [Pace.step, Draw.step, hwake, if_true] at hstep
      cases hstep
      exact fun d hd => (h.2 d hd).mono hwake
    · simp only [Pace.step, Draw.step, hwake, if_false] at hstep ⊢
      cases hstep
      exact h

/-- **A step of a question keeps it that the rests have lapsed**, with the one that begins. -/
theorem Rested.step (h : p.Rested start now bucket rests) (hstart : start ≤ now)
    (hstep : (p.step now b bucket x).2.2.next? p = some q) :
    q.Rested start now (p.step now b bucket x).1 (rests ++ (p.rest? bucket).toList) := by
  have hnone (hrest : p.rest? bucket = none)
      (hq : q.Rested start now (p.step now b bucket x).1 rests) :
      q.Rested start now (p.step now b bucket x).1 (rests ++ (p.rest? bucket).toList) := by
    rwa [hrest, Option.toList_none, List.append_nil]
  cases p with
  | drawing d =>
    cases bucket with
    | some bucket => exact h.step_drawing hstart hstep
    | none =>
      cases hstep
      cases d with
      | taking => exact hnone rfl h
      | resting wake => exact absurd h.1 (by decide)
      | _ => exact hnone (rest?_of_ne (by rintro ⟨⟩)) h
  | _ =>
    exact hnone (rest?_of_ne (by rintro ⟨⟩))
      (rested_of_forall (ne_resting_of_step (by rintro d ⟨⟩) hstep) h)

end Pace

/-! ### Buckets stay -/

namespace World

theorem bucket?_putBucket (w : World) (block phase : Nat) (b : Bucket) (block' phase' : Nat) :
    (w.putBucket block phase b).bucket? block' phase' =
      if block' = block ∧ phase' = phase then some b else w.bucket? block' phase' := by
  simp only [bucket?, putBucket, SortedMap.find?_alter]
  by_cases hb : block' = block
  · subst hb
    simp only [if_true, Option.bind_some, SortedMap.find?_insert, true_and]
    split
    · rfl
    · cases w.buckets.find? block' <;> rfl
  · simp [hb]

/-- No bucket goes away. -/
def KeepsBuckets (w w' : World) : Prop :=
  ∀ block phase, (w.bucket? block phase).isSome = true → (w'.bucket? block phase).isSome = true

theorem keepsBuckets_of_eq {w w' : World} (h : w'.buckets = w.buckets) : w.KeepsBuckets w' :=
  fun block phase hb => by rwa [bucket?, h]

theorem keepsBuckets_putBucket (w : World) (block phase : Nat) (b : Option Bucket) :
    w.KeepsBuckets (b.elim w (w.putBucket block phase)) := by
  cases b with
  | none => exact fun _ _ h => h
  | some b =>
    intro block' phase' h
    rw [Option.elim_some, bucket?_putBucket]
    split
    · rfl
    · exact h

end World

namespace Task

variable {σ : Type} [Behaviour σ] {t : Task σ} {w : World}

/-- Only on the way to an iteration somebody touches a bucket. -/
theorem buckets_step (hs : ∀ p, t.stage ≠ .pacing p) : (t.step w).world.buckets = w.buckets := by
  cases hst : t.stage with
  | pacing p => exact absurd hst (hs p)
  | acting =>
    rw [step_acting hst]
    cases Behaviour.ask t.mind <;> simp only [obey] <;> repeat' split
    all_goals first | rfl | rw [world_conclude]
  | advancing a =>
    simp only [step, hst, advance]
    repeat' split
    all_goals first | rfl | rw [world_conclude]
  | _ =>
    simp only [step, hst]
    repeat' split
    all_goals rfl

theorem keepsBuckets_step (w : World) (t : Task σ) : w.KeepsBuckets (t.step w).world := by
  by_cases hs : ∃ p, t.stage = .pacing p
  swap
  · exact World.keepsBuckets_of_eq (buckets_step fun p hp => hs ⟨p, hp⟩)
  obtain ⟨p, hs⟩ := hs
  simp only [step, hs, pace]
  split
  · exact fun _ _ h => h
  · next x hx =>
    generalize p.step w.now w.barrier _ x = r
    obtain ⟨bucket, x', r⟩ := r
    have hput := w.keepsBuckets_putBucket (t.loop.elim 0 Participant.block) x.plan.number bucket
    cases r with
    | broken message =>
      simp only [world_conclude]
      exact hput
    | _ => exact hput

/-- The bucket from which an actor that works in a phase draws its permits. -/
def bucket? (w : World) (t : Task σ) (x : Stint) : Option Bucket :=
  w.bucket? (t.loop.elim 0 Participant.block) x.plan.number

/-! ### Questions of a task -/

/-- With its next step the task gives way to the others: it yields, or waits for the clock or for a
change of the barrier.  Whoever waits for a bucket that is locked does not give way. -/
def suspends (w : World) (t : Task σ) : Bool :=
  match t.stage with
  | .pacing (.drawing .settling) => false
  | _ => (t.step w).pulse ≠ .running

/-- How long an actor that finds no permit with its next step rests. -/
def rest? (w : World) (t : Task σ) : Option Duration :=
  match t.stage, t.stint with
  | .pacing p, some x => p.rest? (t.bucket? w x)
  | _, _ => none

/-- The next step of the actor goes on with a question. -/
structure Paces (w : World) (t : Task σ) (x : Stint) (p q : Pace) : Prop where
  stage : t.stage = .pacing p
  stint : t.stint = some x
  kept : (t.step w).task.stint = some x
  loop : (t.step w).task.loop = t.loop
  bucket : (p.step w.now w.barrier (t.bucket? w x) x).1.isSome = true →
    (t.bucket? (t.step w).world x).isSome = true
  next : (p.step w.now w.barrier (t.bucket? w x) x).2.2.next? p = some q
  yields : p = .yielding → t.suspends w = true

/-- Of what an actor asks for only an iteration leads to a question, and to its beginning. -/
theorem asked_of_obey (hs : t.stage = .acting) {a : Ask} {q : Pace}
    (hq : (t.obey w a).task.stage = .pacing q) :
    q = .asked ∧ ∃ x, (t.obey w a).task.stint = some x := by
  cases a with
  | iterate =>
    simp only [obey] at hq ⊢
    split at hq
    · cases hq
    · next x hx =>
      cases hq
      exact ⟨rfl, x, hx⟩
  | count documents bytes iterations =>
    simp only [obey] at hq
    repeat' split at hq
    all_goals first | cases hq | exact absurd hq (stage_conclude_ne _ _ _ _)
  | rest =>
    simp only [obey] at hq
    rw [hs] at hq
    cases hq
  | finish e => exact absurd hq (stage_conclude_ne _ _ _ _)
  | nextPhase => simp only [obey] at hq; split at hq <;> cases hq
  | report o => simp only [obey] at hq; split at hq <;> cases hq
  | _ => cases hq

theorem paces_of_pace {p q : Pace} (hp : t.stage = .pacing p)
    (hq : (t.step w).task.stage = .pacing q) : ∃ x, t.Paces w x p q := by
  have hstep : t.step w = t.pace w p := by simp only [step, hp]
  cases hx : t.stint with
  | none =>
    simp only [hstep, pace, hx] at hq
    cases hq
  | some x =>
    have hsame := @Pace.stint_step w.now w.barrier (t.bucket? w x) x p
    have hyields : p = .yielding → t.suspends w = true := by
      rintro rfl
      simp only [suspends, hp, hstep, pace, hx, Pace.step]
      decide
    have hput (bucket : Option Bucket) (h : bucket.isSome = true) :
        (t.bucket? (bucket.elim w (w.putBucket (t.loop.elim 0 Participant.block) x.plan.number))
          x).isSome = true := by
      obtain ⟨b, rfl⟩ := Option.isSome_iff_exists.1 h
      rw [bucket?, Option.elim_some, World.bucket?_putBucket, if_pos ⟨rfl, rfl⟩]
      rfl
    rw [hstep] at hq
    suffices h : (t.pace w p).task.stint = some x ∧ (t.pace w p).task.loop = t.loop ∧
        ((p.step w.now w.barrier (t.bucket? w x) x).1.isSome = true →
          (t.bucket? (t.pace w p).world x).isSome = true) ∧
        (p.step w.now w.barrier (t.bucket? w x) x).2.2.next? p = some q from
      ⟨x, hp, hx, hstep ▸ h.1, hstep ▸ h.2.1, hstep ▸ h.2.2.1, h.2.2.2, hyields⟩
    have hbucket : t.bucket? w x =
      w.bucket? (t.loop.elim 0 Participant.block) x.plan.number := rfl
    simp only [pace, hx, ← hbucket] at hq ⊢
    generalize p.step w.now w.barrier (t.bucket? w x) x = r at hq hsame ⊢
    obtain ⟨bucket, y, r⟩ := r
    have hxy (hr : r ≠ .answered true) : y = x := hsame.resolve_right fun h => hr h.1
    cases r with
    | blocked =>
      obtain rfl := hxy (by rintro ⟨⟩)
      cases hp.symm.trans hq
      exact ⟨rfl, rfl, hput bucket, rfl⟩
    | moved p' =>
      obtain rfl := hxy (by rintro ⟨⟩)
      cases hq
      exact ⟨rfl, rfl, hput bucket, rfl⟩
    | yielded p' =>
      obtain rfl := hxy (by rintro ⟨⟩)
      cases hq
      exact ⟨rfl, rfl, hput bucket, rfl⟩
    | answered granted => cases hq
    | broken message => exact absurd hq (stage_conclude_ne _ _ _ _)

/-- An actor is in a question because it has just asked, or has been in the same question. -/
theorem paces_of_step {q : Pace} (hq : (t.step w).task.stage = .pacing q) :
    (t.stage = .acting ∧ q = .asked ∧ ∃ x, (t.step w).task.stint = some x) ∨
      ∃ p x, t.Paces w x p q := by
  cases hs : t.stage with
  | pacing p => exact .inr ⟨p, paces_of_pace hs hq⟩
  | acting =>
    rw [step_acting hs] at hq ⊢
    exact .inl ⟨rfl, asked_of_obey hs hq⟩
  | _ =>
    -- from anywhere else there is no way into a question
    simp only [step, advance, hs] at hq
    repeat' split at hq
    all_goals first
      | cases hq
      | exact absurd hq (stage_conclude_ne _ _ _ _)
      | cases hs.symm.trans hq

/-- Whoever is called away is in no question any more. -/
theorem stage_interrupt_ne (w : World) (t : Task σ) (q : Pace) :
    (t.interrupt w).task.stage ≠ .pacing q := by
  intro hq
  unfold interrupt at hq
  split at hq
  · cases hq
  · cases hq
  · simp only at hq
    split at hq
    · exact stage_conclude_ne _ _ _ _ hq
    · cases hq
  · next hno _ _ => exact hno q hq

end Task

/-! ### Along a run -/

namespace System

variable {σ : Type} [Behaviour σ] {s s₀ : System σ} {ls : List Label} {i : Nat} {t : Task σ}
  {x : Stint}

theorem keepsBuckets_fire (s : System σ) (l : Label) : s.world.KeepsBuckets (s.fire l).world := by
  cases l with
  | act j =>
    cases hu : s.tasks[j]? with
    | none =>
      rw [fire, act, onTask_of_none hu]
      exact fun _ _ h => h
    | some u =>
      rw [fire_act hu]
      exact u.keepsBuckets_step s.world
  | interrupt j =>
    cases hu : s.tasks[j]? with
    | none =>
      rw [fire, onTask_of_none hu]
      exact fun _ _ h => h
    | some u =>
      rw [fire_interrupt hu]
      exact fun _ _ h => h
  | _ => exact World.keepsBuckets_of_eq rfl

/-- Somewhere along these moves the task at a position gives way to the others. -/
def suspends (s : System σ) (i : Nat) : List Label → Bool
  | [] => false
  | l :: ls => (l = .act i && s.tasks[i]?.any (Task.suspends s.world)) || (s.fire l).suspends i ls

theorem suspends_append (s : System σ) (i : Nat) (ls ls' : List Label) :
    s.suspends i (ls ++ ls') = (s.suspends i ls || (s.run ls).suspends i ls') := by
  induction ls generalizing s with
  | nil => rfl
  | cons l ls ih =>
    simp only [List.cons_append, suspends, ih, Bool.or_assoc]
    rfl

/-- The rests that the task at a position begins along these moves. -/
def rests (s : System σ) (i : Nat) : List Label → List Duration
  | [] => []
  | l :: ls =>
    (if l = .act i then (s.tasks[i]?.bind (Task.rest? s.world)).toList else []) ++
      (s.fire l).rests i ls

theorem rests_append (s : System σ) (i : Nat) (ls ls' : List Label) :
    s.rests i (ls ++ ls') = s.rests i ls ++ (s.run ls).rests i ls' := by
  induction ls generalizing s with
  | nil => rfl
  | cons l ls ih =>
    simp only [List.cons_append, rests, ih, List.append_assoc]
    rfl

/-- Along these moves the actor at a position is in one and the same question, which it has just
asked at the start. -/
structure Asks (s : System σ) (i : Nat) (x : Stint) (ls : List Label) : Prop where
  start : ∃ t, s.tasks[i]? = some t ∧ t.stage = .pacing .asked
  goesOn : ∀ mid, mid <+: ls →
    ∃ t p, (s.run mid).tasks[i]? = some t ∧ t.stage = .pacing p ∧ t.stint = some x

theorem Asks.of_snoc {l : Label} (h : s.Asks i x (ls ++ [l])) : s.Asks i x ls :=
  ⟨h.start, fun mid hmid => h.goesOn mid (hmid.trans (List.prefix_append _ _))⟩

theorem Asks.snoc (h : s.Asks i x ls) {l : Label} {p : Pace}
    (ht : (s.run (ls ++ [l])).tasks[i]? = some t) (hp : t.stage = .pacing p)
    (hx : t.stint = some x) : s.Asks i x (ls ++ [l]) := by
  refine ⟨h.start, fun mid hmid => ?_⟩
  rcases List.prefix_concat_iff.1 hmid with rfl | hmid
  · exact ⟨t, p, ht, hp, hx⟩
  · exact h.goesOn mid hmid

omit [Behaviour σ] in
/-- Nobody has asked for an iteration before the run. -/
theorem IsReady.stage_ne_pacing (hs : s.IsReady) (ht : s.tasks[i]? = some t) (p : Pace) :
    t.stage ≠ .pacing p := by
  intro hp
  rcases (hs.tasks t (List.mem_of_getElem? ht)).stage with h | h <;> cases h.symm.trans hp

/-- **Whoever is in a question has asked it at some time**, and has been in it ever since. -/
theorem exists_asks (hs : ∀ u, s.tasks[i]? = some u → ∀ p, u.stage ≠ .pacing p) {p : Pace}
    (ht : (s.run ls).tasks[i]? = some t) (hp : t.stage = .pacing p) :
    ∃ x before after, t.stint = some x ∧ ls = before ++ after ∧ (s.run before).Asks i x after := by
  induction ls using List.reverseRecOn generalizing t p with
  | nil => exact absurd hp (hs t ht p)
  | append_singleton ls l ih =>
    -- the question of an earlier move goes on
    have hlater {u : Task σ} {q : Pace} {y : Stint} (hu : (s.run ls).tasks[i]? = some u)
        (hq : u.stage = .pacing q) (hy : u.stint = some y) (hty : t.stint = some y) :
        ∃ x before after, t.stint = some x ∧ ls ++ [l] = before ++ after ∧
          (s.run before).Asks i x after := by
      obtain ⟨x, before, after, hx, rfl, hasks⟩ := ih hu hq
      cases hx.symm.trans hy
      refine ⟨y, before, after ++ [l], hty, List.append_assoc _ _ _, hasks.snoc ?_ hp hty⟩
      rwa [← run_append, ← List.append_assoc]
    have hend := ht
    rw [run_snoc] at ht
    obtain ⟨u, hu, ⟨rfl, rfl⟩ | ⟨rfl, rfl⟩ | ⟨-, rfl⟩⟩ := task_of_fire ht
    · rcases Task.paces_of_step hp with ⟨-, rfl, x, hx⟩ | ⟨q, x, hpaces⟩
      · refine ⟨x, ls ++ [.act i], [], hx, (List.append_nil _).symm, ⟨_, hend, hp⟩,
          fun mid hmid => ?_⟩
        rw [List.prefix_nil.1 hmid]
        exact ⟨_, .asked, hend, hp, hx⟩
      · exact hlater hu hpaces.stage hpaces.stint hpaces.kept
    · exact absurd hp (Task.stage_interrupt_ne _ u p)
    · obtain ⟨x, -, -, hx, -⟩ := ih hu hp
      exact hlater hu hp hx hx

/-- **What is known at a point of a question** holds along a run. -/
theorem Asks.known (h : s.Asks i x ls) : ∃ t p, (s.run ls).tasks[i]? = some t ∧
    t.stage = .pacing p ∧ t.stint = some x ∧
      p.Since x s.world.now (s.run ls).world.now (s.suspends i ls = true) ∧
      p.Rested s.world.now (s.run ls).world.now (t.bucket? (s.run ls).world x) (s.rests i ls) := by
  induction ls using List.reverseRecOn with
  | nil =>
    obtain ⟨t, ht, hp⟩ := h.start
    obtain ⟨t', p, ht', hp', hx⟩ := h.goesOn [] List.prefix_rfl
    cases ht.symm.trans ht'
    exact ⟨t, .asked, ht, hp, hx, trivial, by rintro d ⟨⟩⟩
  | append_singleton ls l ih =>
    obtain ⟨u, p, hu, hp, hux, hsince, hrested⟩ := ih h.of_snoc
    obtain ⟨t, q, ht, hq, hx⟩ := h.goesOn _ List.prefix_rfl
    refine ⟨t, q, ht, hq, hx, ?_⟩
    have hstart : s.world.now ≤ (s.run ls).world.now := now_le_run s ls
    have hsuspends (hl : s.suspends i ls = true) : s.suspends i (ls ++ [l]) = true := by
      rw [suspends_append, hl, Bool.true_or]
    rw [run_snoc] at ht ⊢
    have hnow := now_fire (s.run ls) l
    obtain ⟨u', hu', ⟨rfl, rfl⟩ | ⟨rfl, rfl⟩ | ⟨hl, rfl⟩⟩ := task_of_fire ht <;>
      cases hu.symm.trans hu'
    · rcases Task.paces_of_step hq with ⟨hacting, -⟩ | ⟨p', x', hpaces⟩
      · cases hp.symm.trans hacting
      · cases hp.symm.trans hpaces.stage
        cases hux.symm.trans hpaces.stint
        have hrests : s.rests i (ls ++ [.act i]) =
            s.rests i ls ++ (p.rest? (u.bucket? (s.run ls).world x)).toList := by
          simp [rests_append, rests, hu, Task.rest?, hp, hux]
        constructor
        · refine .mono ?_ hnow id
          refine (hsince.mono le_rfl hsuspends).step hstart (fun hy => ?_) hpaces.next
          rw [suspends_append, Bool.or_eq_true]
          simp [suspends, hu, hpaces.yields hy]
        · rw [hrests]
          refine (hrested.step hstart hpaces.next).mono hnow fun hb => ?_
          rw [fire_act hu, Task.bucket?, hpaces.loop]
          exact hpaces.bucket hb
    · exact absurd hq (Task.stage_interrupt_ne _ u q)
    · cases hp.symm.trans hq
      have hrests : s.rests i (ls ++ [l]) = s.rests i ls := by
        simp [rests_append, rests, hl]
      rw [hrests]
      exact ⟨hsince.mono hnow hsuspends, hrested.mono hnow (keepsBuckets_fire _ l _ _)⟩

/-- **An actor that is granted an iteration has given way to the others since it asked for it**,
unless it had something to wait for and all of it was over at once: each of its pauses, and each
rest before it tried again for a permit, took no time or the clock moved on. -/
theorem granted_after_suspending (hs : s₀.IsReady) (ht : (s₀.run ls).tasks[i]? = some t)
    (hg : t.grants (s₀.run ls).world = true) :
    ∃ x before after, t.stint = some x ∧ ls = before ++ after ∧ (s₀.run before).Asks i x after ∧
      ((s₀.run before).suspends i after = true ∨
        x.HasWait ∧ ∀ d ∈ x.pauses ++ (s₀.run before).rests i after,
          d.Lapses (s₀.run before).world.now (s₀.run ls).world.now) := by
  obtain ⟨-, hp, -⟩ := Task.grants_iff.1 hg
  obtain ⟨x, before, after, hx, rfl, hasks⟩ := exists_asks (fun _ => hs.stage_ne_pacing) ht hp
  refine ⟨x, before, after, hx, rfl, hasks, ?_⟩
  obtain ⟨t', p, ht', hp', -, hsince, hrested⟩ := hasks.known
  rw [← run_append] at ht' hsince hrested
  cases ht.symm.trans ht'
  cases hp.symm.trans hp'
  refine hsince.1.imp_right fun hwait => ⟨hwait, fun d hd => ?_⟩
  rcases List.mem_append.1 hd with hd | hd
  · exact hsince.2 d hd
  · exact hrested d hd

/-- Neither of the actors has anything to wait for, and both have given way before an iteration. -/
theorem granted_after_suspending_duet : duet.IsReady ∧ ∀ i ∈ [0, 1], ∃ t x before after,
    (duet.run duetQuestion).tasks[i]? = some t ∧ t.grants (duet.run duetQuestion).world = true ∧
      duetQuestion = before ++ after ∧ (duet.run before).Asks i x after ∧
      (duet.run before).suspends i after = true := by
  have hgrants : ([0, 1].all fun i => (duet.run duetQuestion).tasks[i]?.any fun t =>
      t.grants (duet.run duetQuestion).world && t.stint.all fun x =>
        x.pauses.isEmpty && x.plan.rate.isNone) = true := by decide +kernel
  refine ⟨isReady_duet, fun i hi => ?_⟩
  obtain ⟨t, ht, h⟩ := Option.any_eq_true _ _ |>.1 (List.all_eq_true.1 hgrants i hi)
  obtain ⟨hg, hnone⟩ := Bool.and_eq_true_iff.1 h
  obtain ⟨x, before, after, hx, hls, hasks, hsuspends⟩ :=
    granted_after_suspending isReady_duet ht hg
  refine ⟨t, x, before, after, ht, hg, hls, hasks, hsuspends.resolve_right fun hwait => ?_⟩
  simp only [hx, Option.all_some, Bool.and_eq_true, List.isEmpty_iff, Option.isNone_iff_eq_none]
    at hnone
  rcases hwait.1 with hpauses | hrate
  · exact hpauses hnone.1
  · rw [hnone.2] at hrate
    cases hrate

end System

/-! ### Questions in which nobody else gets a turn -/

/-- A single phase with a rate of ten iterations a second. -/
def PhasePlan.limited : PhasePlan :=
  { PhasePlan.once 0 true with rate := some ⟨10, .ofSecs 1⟩ }

/-- A single phase with a pause before every iteration, which takes no time. -/
def PhasePlan.hurried : PhasePlan :=
  { PhasePlan.once 0 true with sleepBefore := some (.ofSecs 0) }

namespace System

/-- One actor in a single phase, with a full bucket. -/
def solo (plan : PhasePlan) : System Flaky where
  world := { duet.world with
    barrier := { duet.world.barrier with required := 1 }
    buckets := .insert .empty 0 (.insert .empty 0 (.full ⟨10, .ofSecs 1⟩ 0)) }
  tasks := [.player "host" 0 {} [plan]]

theorem isReady_solo (plan : PhasePlan) : (solo plan).IsReady where
  signal := rfl
  arrived := rfl
  outstanding := rfl
  failure := rfl
  required := by rfl
  tasks := by
    intro t ht
    obtain rfl := List.mem_singleton.1 ht
    exact Task.isReady_player _ _ _ _

/-- At some point the actor is granted an iteration, and has not given way to anybody since it asked
for it. -/
def GrantsAtOnce (s : System Flaky) : Prop :=
  ∃ t x before after, (s.run (before ++ after)).tasks[0]? = some t ∧
    t.grants (s.run (before ++ after)).world = true ∧ (s.run before).Asks 0 x after ∧
    (s.run before).suspends 0 after = false

/-- An actor that is granted an iteration, and on the whole way there has not given way to anybody,
has not done so since it asked for it. -/
theorem IsReady.grantsAtOnce {s : System Flaky} (hs : s.IsReady) (ls : List Label)
    (hgrants : ((s.run ls).tasks[0]?.any fun t => t.grants (s.run ls).world) = true)
    (hsuspends : s.suspends 0 ls = false) : s.GrantsAtOnce := by
  obtain ⟨t, ht, hg⟩ := (Option.any_eq_true _ _).1 hgrants
  obtain ⟨-, hp, -⟩ := Task.grants_iff.1 hg
  obtain ⟨x, before, after, -, rfl, hasks⟩ := exists_asks (fun _ => hs.stage_ne_pacing) ht hp
  rw [suspends_append, Bool.or_eq_false_iff] at hsuspends
  exact ⟨t, x, before, after, ht, hg, hasks, hsuspends.2⟩

/-- **An actor can be granted an iteration without giving way to anybody**, if there is a permit in
the bucket of its phase, or if the pause before the iteration takes no time. -/
theorem granted_unsuspended :
    (solo .limited).IsReady ∧ (solo .limited).GrantsAtOnce ∧
      (solo .hurried).IsReady ∧ (solo .hurried).GrantsAtOnce := by
  have hlimited : (solo .limited).GrantsAtOnce :=
    (isReady_solo .limited).grantsAtOnce (.replicate 13 (.act 0)) (by decide +kernel)
      (by decide +kernel)
  have hhurried : (solo .hurried).GrantsAtOnce :=
    (isReady_solo .hurried).grantsAtOnce (.replicate 11 (.act 0)) (by decide +kernel)
      (by decide +kernel)
  exact ⟨isReady_solo .limited, hlimited, isReady_solo .hurried, hhurried⟩

end System

end Lockstep
