import Lockstep.Proofs.Granting

/-!
# Iterations and the policy of their phase

An actor that asks for another iteration first pauses after the one before; then the policy of the
phase is asked; then come the pauses before the next iteration, and a last look at the signal.

* `Task.Weighs` : the policy is asked, and finds something left to do; `Task.Dwells` : the pauses
  before the iteration are under way;
* `System.exists_weighs` : whoever is in these pauses has been let into them by the policy;
* `Stint.isSpent_mono` : a policy that is exhausted stays so while the actor works in its phase;
* `System.granted_after_weighing` : **an iteration that is granted has been allowed by the policy
  before the pauses**, and so at most one comes after the policy has been exhausted.

The policy is not asked again after the pauses.  In them time goes by, and the end of the phase may
be requested, so that an iteration can come after the policy has been exhausted
(`System.late_iteration`).
-/

namespace Lockstep

/-! ### Policies over time -/

/-- A policy that is exhausted stays exhausted. -/
theorem Policy.isSpent_mono {p : Policy} {m n : Nat} {d e : Duration} {a b : Bool} (hmn : m ≤ n)
    (hde : d.nanos ≤ e.nanos) (hab : a = true → b = true) (h : p.isSpent m d a = true) :
    p.isSpent n e b = true := by
  cases p with
  | count k => exact decide_eq_true ((of_decide_eq_true h).trans hmn)
  | time f => exact decide_eq_true ((of_decide_eq_true h).trans hde)
  | countAndTime k f =>
    simp only [isSpent, Bool.and_eq_true, decide_eq_true_eq] at h ⊢
    exact ⟨h.1.trans hmn, h.2.trans hde⟩
  | untilSignaled => exact hab h
  | unbounded => cases h

theorem Duration.nanos_between_mono (start : Nat) {m n : Nat} (h : m ≤ n) :
    (between start m).nanos ≤ (between start n).nanos := by
  simp only [between, ofNanos]
  omega

namespace Stint

/-- The share of a phase goes on: it has only come further. -/
structure LeadsTo (x y : Stint) : Prop where
  plan : y.plan = x.plan
  last : y.last = x.last
  started : y.started = x.started
  iterations : x.iterations ≤ y.iterations

theorem LeadsTo.refl (x : Stint) : x.LeadsTo x := ⟨rfl, rfl, rfl, le_rfl⟩

theorem LeadsTo.trans {x y z : Stint} (h : x.LeadsTo y) (h' : y.LeadsTo z) : x.LeadsTo z :=
  ⟨h'.plan.trans h.plan, h'.last.trans h.last, h'.started.trans h.started,
    h.iterations.trans h'.iterations⟩

theorem LeadsTo.granted (x : Stint) : x.LeadsTo { x with iterations := x.iterations + 1 } :=
  ⟨rfl, rfl, rfl, Nat.le_succ _⟩

theorem isSpent_mono {x y : Stint} (h : x.LeadsTo y) {m n : Nat} (hmn : m ≤ n) {b b' : Barrier}
    (hb : ∀ k, b.isEndAsked k = true → b'.isEndAsked k = true) (hx : x.isSpent m b = true) :
    y.isSpent n b' = true := by
  unfold isSpent at hx ⊢
  rw [h.plan, h.started]
  exact Policy.isSpent_mono h.iterations (Duration.nanos_between_mono _ hmn) (hb _) hx

/-- A policy that has been exhausted by the time of `n` but not by that of `m`, with no iteration in
between: its time was reached, or the end of the phase was requested. -/
theorem of_isSpent {x : Stint} {m n : Nat} {b b' : Barrier} (hm : x.isSpent m b = false)
    (hn : x.isSpent n b' = true) :
    (∃ d, (x.plan.policy = .time d ∨ ∃ k, x.plan.policy = .countAndTime k d ∧ k ≤ x.iterations) ∧
      (Duration.between x.started m).nanos < d.nanos ∧
        d.nanos ≤ (Duration.between x.started n).nanos) ∨
    x.plan.policy = .untilSignaled ∧ b.isEndAsked x.plan.number = false ∧
      b'.isEndAsked x.plan.number = true := by
  unfold isSpent at hm hn
  cases hp : x.plan.policy with
  | count k =>
    rw [hp] at hm hn
    exact absurd (hm.symm.trans hn) (by decide)
  | time d =>
    rw [hp] at hm hn
    simp only [Policy.isSpent, decide_eq_false_iff_not, not_le, decide_eq_true_eq] at hm hn
    exact .inl ⟨d, .inl rfl, hm, hn⟩
  | countAndTime k d =>
    rw [hp] at hm hn
    simp only [Policy.isSpent, Bool.and_eq_false_iff, Bool.and_eq_true, decide_eq_false_iff_not,
      not_le, decide_eq_true_eq] at hm hn
    exact .inl ⟨d, .inr ⟨k, rfl, hn.1⟩, hm.resolve_left hn.1.not_gt, hn.2⟩
  | untilSignaled =>
    rw [hp] at hm hn
    exact .inr ⟨rfl, hm, hn⟩
  | unbounded => rw [hp] at hn; cases hn

end Stint

/-! ### End requests are not forgotten -/

namespace Barrier

theorem endAsked_step (b : Barrier) (c : Call) : (c.step b).1.endAsked = b.endAsked := by
  have harrive : b.arrive.endAsked = b.endAsked := by unfold arrive; split <;> rfl
  have hback (k : Nat) : (b.handBack k).endAsked = b.endAsked := by unfold handBack; split <;> rfl
  cases c <;> simp only [Call.step] <;> repeat' split
  all_goals first | rfl | exact harrive | exact hback _

theorem isEndAsked_requestEnd (b : Barrier) (j k : Nat) :
    (b.requestEnd j).isEndAsked k = (decide (k = j) || b.isEndAsked k) := by
  unfold requestEnd isEndAsked SortedMap.contains
  rw [SortedMap.find?_insert]
  by_cases hk : k = j <;> simp [hk]

theorem isEndAsked_after (b : Barrier) (e : Event) {k : Nat} (h : b.isEndAsked k = true) :
    (b.after e).isEndAsked k = true := by
  cases e with
  | addTokens n =>
    obtain ⟨r, hr⟩ := after_addTokens b n
    rw [hr]
    exact h
  | extendTo j => exact h
  | launch => exact h
  | requestEnd j => rw [after, isEndAsked_requestEnd, h, Bool.or_true]
  | stop =>
    rw [after, stop]
    split <;> exact h
  | abort f =>
    rw [after, abort]
    split <;> exact h
  | step c =>
    unfold isEndAsked at h ⊢
    rw [after, endAsked_step]
    exact h

theorem Reaches.isEndAsked {b b' : Barrier} (hb : b.Reaches b') {k : Nat}
    (h : b.isEndAsked k = true) : b'.isEndAsked k = true := by
  obtain ⟨es, rfl⟩ := hb
  induction es generalizing b with
  | nil => exact h
  | cons e es ih => exact ih (isEndAsked_after b e h)

end Barrier

/-! ### One question -/

/-- The policy has been asked, and what is left are the pauses before the iteration. -/
def Pace.isAllowed : Pace → Bool
  | .warmingUp _ => true
  | .drawing _ => true
  | .yielding => true
  | .deciding => true
  | _ => false

/-- Nothing is counted but an iteration that is granted. -/
theorem Pace.stint_step {now : Nat} {b : Barrier} {bucket : Option Bucket} {x : Stint} {p : Pace} :
    (p.step now b bucket x).2.1 = x ∨ (p.step now b bucket x).2.2 = .answered true ∧
      (p.step now b bucket x).2.1 = { x with iterations := x.iterations + 1 } := by
  cases p with
  | deciding =>
    simp only [step]
    split
    · exact .inl rfl
    · split
      · next n hn =>
        obtain ⟨rfl, -⟩ := addWord?_eq_some_iff.1 hn
        exact .inr ⟨rfl, rfl⟩
      · exact .inl rfl
  | _ =>
    refine .inl ?_
    simp only [step]
    repeat' split
    all_goals rfl

/-- A question comes to the pauses before the iteration only by the policy. -/
theorem Pace.isAllowed_step {now : Nat} {b : Barrier} {bucket : Option Bucket} {x : Stint}
    {p q : Pace} (h : (p.step now b bucket x).2.2 = .moved q ∨
      (p.step now b bucket x).2.2 = .yielded q) (hq : q.isAllowed = true) :
    p.isAllowed = true ∨ (∃ waited, p = .weighing waited) ∧ x.isSpent now b = false := by
  cases p with
  | weighing waited =>
    refine .inr ⟨⟨waited, rfl⟩, ?_⟩
    simp only [step] at h
    cases hs : x.isSpent now b with
    | true =>
      rw [hs, if_pos rfl] at h
      rcases h with h | h <;> cases h
    | false => rfl
  | warmingUp wake => exact .inl rfl
  | yielding => exact .inl rfl
  | drawing d => exact .inl rfl
  | deciding => exact .inl rfl
  | _ =>
    -- the policy has not been asked yet
    simp only [step] at h
    repeat' split at h
    all_goals
      rcases h with h | h <;> cases h
      try cases hq

namespace Task

variable {σ : Type} {t : Task σ} {w : World} {x : Stint}

/-- The policy is asked with the next step, and finds something left to do. -/
structure Weighs (w : World) (x : Stint) (t : Task σ) : Prop where
  stage : ∃ waited, t.stage = .pacing (.weighing waited)
  stint : t.stint = some x
  unspent : x.isSpent w.now w.barrier = false

/-- The actor is in the pauses before an iteration. -/
structure Dwells (x : Stint) (t : Task σ) : Prop where
  stage : ∃ p, t.stage = .pacing p ∧ p.isAllowed = true
  stint : t.stint = some x

theorem dwells_of_grants (hg : t.grants w = true) (hx : t.stint = some x) : t.Dwells x := by
  obtain ⟨-, hs, -⟩ := grants_iff.1 hg
  exact ⟨⟨.deciding, hs, rfl⟩, hx⟩

theorem not_dwells_of_stage (h : ∀ p, t.stage = .pacing p → p.isAllowed = false) :
    ¬ t.Dwells x := by
  rintro ⟨⟨p, hp, hallowed⟩, -⟩
  exact absurd ((h p hp).symm.trans hallowed) (by decide)

theorem stage_conclude_ne (w : World) (t : Task σ) (e : Ending) (p : Pace) :
    (conclude w t e).task.stage ≠ .pacing p := by
  unfold conclude
  split <;> rintro ⟨⟩

variable [Behaviour σ]

/-- Carrying out what an actor asks for never gets it into the pauses. -/
theorem not_dwells_obey (hs : t.stage = .acting) (q : Ask) : ¬ (t.obey w q).task.Dwells x := by
  refine not_dwells_of_stage fun p hp => ?_
  cases q with
  | iterate =>
    simp only [obey] at hp
    split at hp
    · cases hp
    · cases hp; rfl
  | count documents bytes iterations =>
    simp only [obey] at hp
    repeat' split at hp
    all_goals first | cases hp | exact absurd hp (stage_conclude_ne _ _ _ _)
  | rest =>
    simp only [obey] at hp
    rw [hs] at hp
    cases hp
  | finish e => exact absurd hp (stage_conclude_ne _ _ _ _)
  | nextPhase => simp only [obey] at hp; split at hp <;> cases hp
  | report o => simp only [obey] at hp; split at hp <;> cases hp
  | _ => cases hp

theorem Dwells.of_pace {p : Pace} (hs : t.stage = .pacing p) (h : (t.pace w p).task.Dwells x) :
    t.Dwells x ∨ t.Weighs w x := by
  obtain ⟨⟨q, hq, hallowed⟩, hstint⟩ := h
  cases hx : t.stint with
  | none =>
    simp only [pace, hx] at hq
    cases hq
  | some y =>
    simp only [pace, hx] at hq hstint
    have hfrom (q : Pace) := @Pace.isAllowed_step w.now w.barrier
      (w.bucket? (t.loop.elim 0 Participant.block) y.plan.number) y p q
    have hsame := @Pace.stint_step w.now w.barrier
      (w.bucket? (t.loop.elim 0 Participant.block) y.plan.number) y p
    -- an actor that is in the pauses now has been there before, or has just been let in
    have hback (hy : y = x) (hp : p.isAllowed = true ∨
        (∃ waited, p = .weighing waited) ∧ y.isSpent w.now w.barrier = false) :
        t.Dwells x ∨ t.Weighs w x := by
      subst hy
      rcases hp with hp | ⟨⟨waited, rfl⟩, hp⟩
      · exact .inl ⟨⟨p, hs, hp⟩, hx⟩
      · exact .inr ⟨⟨waited, hs⟩, hx, hp⟩
    generalize p.step w.now w.barrier _ y = r at hq hstint hfrom hsame
    obtain ⟨bucket, y', r⟩ := r
    cases r with
    | blocked =>
      cases hstint
      cases hs.symm.trans hq
      exact hback (hsame.resolve_right (by rintro ⟨⟨⟩, -⟩)).symm (.inl hallowed)
    | moved p' =>
      cases hstint
      cases hq
      exact hback (hsame.resolve_right (by rintro ⟨⟨⟩, -⟩)).symm (hfrom q (.inl rfl) hallowed)
    | yielded p' =>
      cases hstint
      cases hq
      exact hback (hsame.resolve_right (by rintro ⟨⟨⟩, -⟩)).symm (hfrom q (.inr rfl) hallowed)
    | answered granted => cases hq
    | broken message => exact absurd hq (stage_conclude_ne _ _ _ _)

/-- **An actor comes into the pauses before an iteration only by the policy.** -/
theorem Dwells.of_step (h : (t.step w).task.Dwells x) : t.Dwells x ∨ t.Weighs w x := by
  cases hs : t.stage with
  | pacing p =>
    simp only [step, hs] at h
    exact h.of_pace hs
  | acting =>
    simp only [step, hs] at h
    exact absurd h (not_dwells_obey hs _)
  | _ =>
    -- from anywhere else there is no way into a question
    obtain ⟨⟨q, hq, -⟩, -⟩ := h
    simp only [step, advance, hs] at hq
    repeat' split at hq
    all_goals first
      | cases hq
      | exact absurd hq (stage_conclude_ne _ _ _ _)
      | cases hs.symm.trans hq

/-- Whoever is called away is in no pause before an iteration. -/
theorem Dwells.of_interrupt (h : (t.interrupt w).task.Dwells x) : t.Dwells x := by
  cases hs : t.stage with
  | pacing p =>
    simp only [interrupt, hs] at h
    obtain ⟨⟨q, hq, -⟩, -⟩ := h
    cases hq
  | asleep wake =>
    simp only [interrupt, hs] at h
    obtain ⟨⟨q, hq, -⟩, -⟩ := h
    cases hq
  | advancing a =>
    simp only [interrupt, hs] at h
    obtain ⟨⟨q, hq, -⟩, -⟩ := h
    split at hq
    · exact absurd hq (stage_conclude_ne _ _ _ _)
    · cases hq
  | _ => simpa only [interrupt, hs] using h

/-! ### The share of a phase -/

theorem stint_interrupt_eq (w : World) (t : Task σ) : (t.interrupt w).task.stint = t.stint := by
  unfold interrupt
  split
  · rfl
  · rfl
  · simp only
    split
    · exact stint_conclude _ _ _
    · rfl
  · rfl

theorem stint_of_obey {q : Ask} {y : Stint} (h : (t.obey w q).task.stint = some y) :
    t.stint = some y := by
  cases q with
  | nextPhase => simp only [obey] at h; split at h <;> cases h
  | iterate => simp only [obey] at h; split at h <;> exact h
  | count documents bytes iterations =>
    simp only [obey] at h
    repeat' split at h
    all_goals first | exact h | exact (stint_conclude _ _ _).symm.trans h
  | report o => simp only [obey] at h; split at h <;> exact h
  | isFinished => cases h
  | leave => cases h
  | finish e => exact (stint_conclude _ _ _).symm.trans h
  | _ => exact h

theorem stint_of_pace {p : Pace} {y : Stint} (h : (t.pace w p).task.stint = some y) :
    ∃ x, t.stint = some x ∧ x.LeadsTo y := by
  cases hx : t.stint with
  | none =>
    simp only [pace, hx] at h
    cases hx.symm.trans h
  | some x =>
    refine ⟨x, rfl, ?_⟩
    simp only [pace, hx] at h
    have hstep := @Pace.stint_step w.now w.barrier
      (w.bucket? (t.loop.elim 0 Participant.block) x.plan.number) x p
    generalize p.step w.now w.barrier _ x = r at h hstep
    obtain ⟨bucket, x', r⟩ := r
    have hx' : x' = y := by
      cases r with
      | broken message =>
        rw [stint_conclude] at h
        exact Option.some.inj h
      | _ => exact Option.some.inj h
    subst hx'
    rcases hstep with hsame | ⟨-, hnext⟩
    · obtain rfl : x' = x := hsame
      exact .refl x'
    · obtain rfl : x' = { x with iterations := x.iterations + 1 } := hnext
      exact .granted x

/-- Whoever works in a phase goes on in it, or has just been on its way there. -/
theorem stint_of_step {y : Stint} (h : (t.step w).task.stint = some y) :
    t.stage.isAdvancing = true ∨ ∃ x, t.stint = some x ∧ x.LeadsTo y := by
  have hsame (hs : t.stint = some y) :
      t.stage.isAdvancing = true ∨ ∃ x, t.stint = some x ∧ x.LeadsTo y := .inr ⟨y, hs, .refl y⟩
  cases hs : t.stage with
  | advancing a => exact .inl rfl
  | acting =>
    simp only [step, hs] at h
    exact hs ▸ hsame (stint_of_obey h)
  | pacing p =>
    simp only [step, hs] at h
    exact .inr (stint_of_pace h)
  | _ =>
    simp only [step, hs] at h
    refine hs ▸ hsame ?_
    repeat' split at h
    all_goals exact h

end Task

/-! ### Along a run -/

namespace System

variable {σ : Type} [Behaviour σ] {s s₀ : System σ} {ls : List Label} {i : Nat} {t : Task σ}
  {x y : Stint}

theorem now_le_run (s : System σ) (ls : List Label) : s.world.now ≤ (s.run ls).world.now := by
  induction ls generalizing s with
  | nil => exact le_rfl
  | cons l ls ih => exact (now_fire s l).trans (ih (s.fire l))

/-- **Whoever is in the pauses before an iteration has been let into them by the policy**, and has
not left them since. -/
theorem exists_weighs (hs : ∀ u, s.tasks[i]? = some u → ¬ u.Dwells x)
    (ht : (s.run ls).tasks[i]? = some t) (hx : t.Dwells x) :
    ∃ before after u, ls = before ++ .act i :: after ∧ (s.run before).tasks[i]? = some u ∧
      u.Weighs (s.run before).world x ∧ ∀ mid, mid <+: after →
        ∃ v, (s.run (before ++ .act i :: mid)).tasks[i]? = some v ∧ v.Dwells x := by
  induction ls using List.reverseRecOn generalizing t with
  | nil => exact absurd hx (hs t ht)
  | append_singleton ls l ih =>
    -- the pauses of an earlier move go on
    have hlater (v : Task σ) (hv : (s.run ls).tasks[i]? = some v) (hd : v.Dwells x) :
        ∃ before after u, ls ++ [l] = before ++ .act i :: after ∧
          (s.run before).tasks[i]? = some u ∧ u.Weighs (s.run before).world x ∧
          ∀ mid, mid <+: after →
            ∃ v, (s.run (before ++ .act i :: mid)).tasks[i]? = some v ∧ v.Dwells x := by
      obtain ⟨before, after, u, rfl, hu, hw, hmid⟩ := ih hv hd
      refine ⟨before, after ++ [l], u, by simp, hu, hw, fun mid hpre => ?_⟩
      rcases List.prefix_concat_iff.1 hpre with rfl | hpre
      · exact ⟨t, by simpa using ht, hx⟩
      · exact hmid mid hpre
    have hend := ht
    rw [run_snoc] at ht
    obtain ⟨u, hu, ⟨rfl, rfl⟩ | ⟨rfl, rfl⟩ | ⟨hl, rfl⟩⟩ := task_of_fire ht
    · rcases hx.of_step with hd | hw
      · exact hlater u hu hd
      · refine ⟨ls, [], u, rfl, hu, hw, fun mid hpre => ?_⟩
        rw [List.prefix_nil.1 hpre]
        exact ⟨_, hend, hx⟩
    · exact hlater u hu hx.of_interrupt
    · exact hlater t hu hx

/-- Whoever works in a phase has been in it from the start, or on its way to it since. -/
theorem stint_of_run (ht : (s.run ls).tasks[i]? = some t) (hy : t.stint = some y) :
    (∃ mid, mid <+: ls ∧ ∃ v, (s.run mid).tasks[i]? = some v ∧ v.stage.isAdvancing = true) ∨
      ∃ u x, s.tasks[i]? = some u ∧ u.stint = some x ∧ x.LeadsTo y := by
  induction ls using List.reverseRecOn generalizing t y with
  | nil => exact .inr ⟨t, y, ht, hy, .refl y⟩
  | append_singleton ls l ih =>
    rw [run_snoc] at ht
    have hback (v : Task σ) (hv : (s.run ls).tasks[i]? = some v) (z : Stint)
        (hz : v.stint = some z) (hzy : z.LeadsTo y) :
        (∃ mid, mid <+: ls ++ [l] ∧
          ∃ v, (s.run mid).tasks[i]? = some v ∧ v.stage.isAdvancing = true) ∨
        ∃ u x, s.tasks[i]? = some u ∧ u.stint = some x ∧ x.LeadsTo y := by
      rcases ih hv hz with ⟨mid, hmid, hadv⟩ | ⟨u, x, hu, hx, hxz⟩
      · exact .inl ⟨mid, hmid.trans (List.prefix_append _ _), hadv⟩
      · exact .inr ⟨u, x, hu, hx, hxz.trans hzy⟩
    obtain ⟨u, hu, ⟨rfl, rfl⟩ | ⟨rfl, rfl⟩ | ⟨-, rfl⟩⟩ := task_of_fire ht
    · rcases Task.stint_of_step hy with hadv | ⟨z, hz, hzy⟩
      · exact .inl ⟨ls, List.prefix_append _ _, u, hu, hadv⟩
      · exact hback u hu z hz hzy
    · exact hback u hu y ((Task.stint_interrupt_eq _ u).symm.trans hy) (.refl y)
    · exact hback t hu y hy (.refl y)

/-- Once an iteration has been granted although the policy was exhausted, there is no other one
before the actor asks for its next phase. -/
theorem advances_of_granted (ht : s.tasks[i]? = some t) (hg : t.grants s.world = true)
    (hx : t.stint = some x) (hspent : x.isSpent s.world.now s.world.barrier = true)
    {t' : Task σ} (ht' : ((s.fire (.act i)).run ls).tasks[i]? = some t')
    (hg' : t'.grants ((s.fire (.act i)).run ls).world = true) :
    ∃ mid, mid <+: ls ∧
      ∃ v, ((s.fire (.act i)).run mid).tasks[i]? = some v ∧ v.stage.isAdvancing = true := by
  have hlt : i < s.tasks.length := (List.getElem?_eq_some_iff.1 ht).1
  have hnext : (s.fire (.act i)).tasks[i]? = some (t.step s.world).task := by
    rw [fire_act ht, List.getElem?_set_self hlt]
  have htold := Task.step_of_grants hg hx
  obtain ⟨y, -, hy, -⟩ := Task.grants_iff.1 hg'
  -- the policy has been asked again, after the first of the two iterations
  have hno (u : Task σ) (hu : (s.fire (.act i)).tasks[i]? = some u) : ¬ u.Dwells y := by
    refine Task.not_dwells_of_stage fun p hp => ?_
    rw [hnext, htold] at hu
    cases hu
    cases hp
  obtain ⟨before, after, u, rfl, hu, hw, -⟩ :=
    exists_weighs hno ht' (Task.dwells_of_grants hg' hy)
  rcases stint_of_run hu hw.stint with ⟨mid, hmid, hadv⟩ | ⟨v, z, hv, hz, hzy⟩
  · exact ⟨mid, hmid.trans (List.prefix_append _ _), hadv⟩
  · -- there it would have been exhausted
    rw [hnext, htold] at hv
    cases hv
    cases hz
    have hlead : x.LeadsTo y := .trans (.granted x) hzy
    have hnow := (now_fire s (.act i)).trans (now_le_run _ before)
    have hasked (k : Nat) (h : s.world.barrier.isEndAsked k = true) :=
      ((reaches_fire s (.act i)).trans (reaches_run _ before)).isEndAsked h
    have := Stint.isSpent_mono hlead hnow hasked hspent
    exact absurd (hw.unspent.symm.trans this) (by decide)

/-- **An iteration that is granted has been allowed by the policy before the pauses.**  Since then
the actor has only been in these pauses, and has not been granted any other iteration.  If the
policy has been exhausted in the meantime, then because its time was reached or the end of the phase
was requested in these pauses; and then this is the last iteration before the actor asks for its
next phase. -/
theorem granted_after_weighing (hs : s₀.IsReady) (ht : (s₀.run ls).tasks[i]? = some t)
    (hg : t.grants (s₀.run ls).world = true) :
    ∃ x before after u, t.stint = some x ∧ ls = before ++ .act i :: after ∧
      (s₀.run before).tasks[i]? = some u ∧ u.Weighs (s₀.run before).world x ∧
      (∀ mid, mid <+: after →
        ∃ v, (s₀.run (before ++ .act i :: mid)).tasks[i]? = some v ∧ v.Dwells x) ∧
      (x.isSpent (s₀.run ls).world.now (s₀.run ls).world.barrier = true →
        ((∃ d, (x.plan.policy = .time d ∨
            ∃ k, x.plan.policy = .countAndTime k d ∧ k ≤ x.iterations) ∧
          (Duration.between x.started (s₀.run before).world.now).nanos < d.nanos ∧
          d.nanos ≤ (Duration.between x.started (s₀.run ls).world.now).nanos) ∨
        x.plan.policy = .untilSignaled ∧
          (s₀.run before).world.barrier.isEndAsked x.plan.number = false ∧
          (s₀.run ls).world.barrier.isEndAsked x.plan.number = true) ∧
        ∀ ls' t', (s₀.run (ls ++ .act i :: ls')).tasks[i]? = some t' →
          t'.grants (s₀.run (ls ++ .act i :: ls')).world = true → ∃ mid, mid <+: ls' ∧
            ∃ v, (s₀.run (ls ++ .act i :: mid)).tasks[i]? = some v ∧
              v.stage.isAdvancing = true) := by
  obtain ⟨x, -, hx, -⟩ := Task.grants_iff.1 hg
  have hno (u : Task σ) (hu : s₀.tasks[i]? = some u) : ¬ u.Dwells x := by
    refine Task.not_dwells_of_stage fun p hp => ?_
    rcases (hs.tasks u (List.mem_of_getElem? hu)).stage with h | h <;> rw [h] at hp <;> cases hp
  obtain ⟨before, after, u, hls, hu, hw, hmid⟩ :=
    exists_weighs hno ht (Task.dwells_of_grants hg hx)
  refine ⟨x, before, after, u, hx, hls, hu, hw, hmid, fun hspent =>
    ⟨Stint.of_isSpent hw.unspent hspent, fun ls' t' ht' hg' => ?_⟩⟩
  have hsplit (mid : List Label) :
      s₀.run (ls ++ .act i :: mid) = ((s₀.run ls).fire (.act i)).run mid := run_append _ _ _
  rw [hsplit] at ht' hg'
  simp only [hsplit]
  exact advances_of_granted ht hg hx hspent ht' hg'

end System

/-! ### A late iteration -/

/-- A single phase with a pause of two seconds before every iteration. -/
def PhasePlan.delayed (p : Policy) : PhasePlan :=
  { PhasePlan.once 0 true with policy := p, sleepBefore := some (.ofSecs 2) }

namespace System

/-- One actor, in one phase with such a pause. -/
def vigil (p : Policy) : System Flaky where
  world := { duet.world with barrier := { duet.world.barrier with required := 1 } }
  tasks := [.player "host" 0 {} [.delayed p]]

theorem isReady_vigil (p : Policy) : (vigil p).IsReady where
  signal := rfl
  arrived := rfl
  outstanding := rfl
  failure := rfl
  required := by rfl
  tasks := by
    intro t ht
    obtain rfl := List.mem_singleton.1 ht
    exact Task.isReady_player _ _ _ _

/-- In the pause before its first iteration two seconds go by, and the end of the phase is
requested. -/
def vigilUntil : List Label :=
  List.replicate 10 (.act 0) ++ [.requestEnd 0, .tick 2000000000, .act 0]

/-- The pause is over only after a second, and nothing is asked after the policy. -/
theorem grants_vigil : ∀ p ∈ [Policy.time (.ofSecs 1), .untilSignaled],
    (((vigil p).run vigilUntil).tasks[0]?.any fun t =>
      t.grants ((vigil p).run vigilUntil).world && t.stint.any fun x =>
        x.isSpent ((vigil p).run vigilUntil).world.now ((vigil p).run vigilUntil).world.barrier) =
      true := by
  decide +kernel

/-- The iteration of such a phase has been allowed before the pause. -/
theorem granted_after_weighing_vigil :
    (vigil .untilSignaled).IsReady ∧ ∃ before after u x,
      vigilUntil = before ++ .act 0 :: after ∧
        ((vigil .untilSignaled).run before).tasks[0]? = some u ∧
        u.Weighs ((vigil .untilSignaled).run before).world x := by
  obtain ⟨t, ht, h⟩ := Option.any_eq_true _ _ |>.1 (grants_vigil .untilSignaled (by simp))
  obtain ⟨x, before, after, u, -, hls, hu, hw, -⟩ :=
    granted_after_weighing (isReady_vigil _) ht (Bool.and_eq_true_iff.1 h).1
  exact ⟨isReady_vigil _, before, after, u, x, hls, hu, hw⟩

/-- An actor is granted an iteration although the policy of the phase is exhausted. -/
def GrantsSpent {σ : Type} (s : System σ) (i : Nat) : Prop :=
  ∃ t x, s.tasks[i]? = some t ∧ t.grants s.world = true ∧ t.stint = some x ∧
    x.isSpent s.world.now s.world.barrier = true

/-- **An iteration can come after the policy has been exhausted.**  A phase of one second grants one
after two seconds, and a phase that goes on until its end is requested grants one after that. -/
theorem late_iteration :
    ((vigil (.time (.ofSecs 1))).IsReady ∧
      ((vigil (.time (.ofSecs 1))).run vigilUntil).GrantsSpent 0) ∧
    (vigil .untilSignaled).IsReady ∧ ((vigil .untilSignaled).run vigilUntil).GrantsSpent 0 := by
  have hlate (p : Policy) (hp : p ∈ [Policy.time (.ofSecs 1), .untilSignaled]) :
      ((vigil p).run vigilUntil).GrantsSpent 0 := by
    obtain ⟨t, ht, h⟩ := Option.any_eq_true _ _ |>.1 (grants_vigil p hp)
    obtain ⟨hg, h⟩ := Bool.and_eq_true_iff.1 h
    obtain ⟨x, hx, hspent⟩ := Option.any_eq_true _ _ |>.1 h
    exact ⟨t, x, ht, hg, hx, hspent⟩
  exact ⟨⟨isReady_vigil _, hlate _ (by simp)⟩, isReady_vigil _, hlate _ (by simp)⟩

end System

end Lockstep
