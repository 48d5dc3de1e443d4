import Lockstep.Proofs.GreeterRuns

/-!
# Halted runs come to their end

Once a run has been halted nobody begins anything new.  Every step brings its greeter nearer to its
end, or else the greeter only waits for the clock.

* `Task.left` : how far a greeter is from its end, when nothing new is begun;
* `Task.Sings.nears_step` : **a step of a greeter makes this less**, unless it waits for the clock;
* `Label.IsFair` : in an endless schedule everybody has a turn again and again, and time goes on;
* `System.IsChorus.ends_of_halted` : **in a fair schedule a run that has been halted comes to its
  end**;
* `System.IsChorus.ends_of_refused` : and so does one in which the sink has refused an event.
-/

namespace Lockstep

/-! ### How much is left to do -/

/-- The steps that are left, of somebody who gives up a part in the barrier. -/
def Farewell.left : Farewell → Nat
  | checking => 3
  | reading => 2
  | accusing _ => 1

theorem Farewell.left_pos (f : Farewell) : 0 < f.left := by
  cases f <;> simp [left]

theorem Farewell.left_step (b : Barrier) (p : Participant) (f f' : Farewell)
    (h : (f.step b p).2 = some f') : f'.left < f.left := by
  cases f with
  | checking =>
    simp only [step] at h
    split at h
    · cases h; exact (by decide : 2 < 3)
    · cases h
  | reading => cases h; exact (by decide : 1 < 2)
  | accusing phase => cases h

/-- The steps that are left between two phases when no phase opens or closes any more: a phase that
did not wait for the actor may still be entered. -/
def Advance.left : Advance → Nat
  | choosing _ => 8
  | entering _ _ => 8
  | bounding => 9
  | leaving _ => 10
  | passing _ _ _ => 20

/-- The steps that are left when no further round is begun. -/
def Pace.left : Pace → Nat
  | deciding => 12
  | yielding => 13
  | drawing _ => 14
  | warmingUp _ => 14
  | weighing _ => 15
  | checking _ => 16
  | coolingDown _ => 17
  | asked => 18

/-- The steps that are left to a greeter at its own work. -/
def Greeter.Step.left : Greeter.Step → Nat
  | ended _ => 7
  | seeking => 11
  | iterating => 19
  | reporting => 21
  | counting => 22
  | bumping => 23
  | beginning => 24

/-- The steps that are left to a greeter, apart from those in which it only waits. -/
def Task.left (t : Task Mind) : Nat :=
  match t.stage with
  | .over _ => 0
  | .parting _ f => f.left
  | .accusing _ _ => 4
  | .reading _ _ => 5
  | .judging _ => 6
  | .advancing x => x.left
  | .pacing p => p.left
  | .acting =>
    match t.mind with
    | .greeter g => g.step.left
    | _ => 0
  | .waiting => 25
  | _ => 0

theorem Task.left_acting {t : Task Mind} {g : Greeter} (hs : t.stage = .acting)
    (hm : t.mind = .greeter g) : t.left = g.step.left := by
  simp only [left, hs, hm]

/-! ### Between two phases -/

namespace Advance

/-- What a step between two phases comes to in a run that has been halted. -/
def Progress.Drains (x : Advance) : Progress → Prop
  | blocked => False
  | moved y => y.left < x.left
  | entered _ _ => Greeter.Step.left .iterating < x.left
  | broken _ => False
  | _ => True

theorem drains_step {b : Barrier} (hh : b.signal.halt ≠ .running) (p : Participant) (x : Advance) :
    (x.step b p).2.2.Drains x := by
  cases x with
  | leaving c =>
    obtain ⟨r, hstep, -⟩ := Call.step_of_halted hh c
    simp only [step, hstep]
    cases r with
    | ok more => exact (by decide : 9 < 10)
    | error e => trivial
  | bounding =>
    simp only [step]
    split
    · trivial
    · exact (by decide : 8 < 9)
  | choosing last =>
    simp only [step]
    split
    · trivial
    · rw [if_pos (.inr (by simp [Barrier.goesOn, hh]))]
      trivial
  | entering last c =>
    obtain ⟨r, hstep, hno⟩ := Call.step_of_halted hh c
    simp only [step, hstep]
    cases r with
    | ok more =>
      cases more with
      | true => exact absurd rfl hno
      | false => trivial
    | error e => trivial
  | passing last k c =>
    obtain ⟨r, hstep, -⟩ := Call.step_of_halted hh c
    simp only [step, hstep]
    cases r with
    | ok more =>
      dsimp only
      split
      · exact (by decide : 19 < 20)
      · exact (by decide : 8 < 20)
    | error e => trivial

end Advance

/-! ### From round to round -/

namespace Pace

theorem left_bounds (p : Pace) : Greeter.Step.left .seeking < p.left ∧
    p.left < Greeter.Step.left .iterating := by
  cases p <;> simp [left, Greeter.Step.left]

theorem left_afterPauses {plan : PhasePlan} (h : plan.rate = none) (waited : Bool) :
    (afterPauses plan waited).left < 14 := by
  unfold afterPauses
  rw [h]
  cases waited <;> decide

/-- What a step on the way to the next round comes to in a run that has been halted. -/
def Progress.Drains (now : Nat) (p : Pace) : Progress → Prop
  | blocked => ∃ wake, p.wake? = some wake ∧ now < wake
  | moved q => q.left < p.left
  | yielded q => q.left < p.left
  | answered granted => granted = false
  | broken _ => False

theorem drains_step (now : Nat) {b : Barrier} (hh : b.signal.halt ≠ .running)
    (bucket : Option Bucket) {s : Stint} {p : Pace} (hrate : s.plan.rate = none)
    (hp : p.isDrawing = false) :
    (p.step now b bucket s).2.1 = s ∧ (p.step now b bucket s).2.2.Drains now p := by
  have hhalted : s.isHalted b.signal = true := by simp [Stint.isHalted, hh]
  cases p with
  | drawing d => cases hp
  | asked =>
    simp only [step]
    repeat' split
    exacts [⟨rfl, (by decide : 17 < 18)⟩, ⟨rfl, (by decide : 16 < 18)⟩,
      ⟨rfl, (by decide : 16 < 18)⟩]
  | coolingDown wake =>
    refine ⟨rfl, ?_⟩
    simp only [step]
    split
    · exact (by decide : 16 < 17)
    · exact ⟨wake, rfl, Nat.not_le.1 ‹_›⟩
  | checking waited =>
    refine ⟨rfl, ?_⟩
    simp only [step, hhalted]
    rfl
  | weighing waited =>
    simp only [step]
    repeat' split
    · exact ⟨rfl, rfl⟩
    · exact ⟨rfl, (by decide : 14 < 15)⟩
    · exact ⟨rfl, (left_afterPauses hrate waited).trans (by decide : 14 < 15)⟩
  | warmingUp wake =>
    refine ⟨rfl, ?_⟩
    simp only [step]
    split
    · exact left_afterPauses hrate true
    · exact ⟨wake, rfl, Nat.not_le.1 ‹_›⟩
  | yielding => exact ⟨rfl, (by decide : 12 < 13)⟩
  | deciding =>
    simp only [step, if_pos hhalted]
    exact ⟨trivial, rfl⟩

end Pace

/-! ### Steps of a greeter -/

namespace Task

variable {g : Greeter} {s : Schedule} {n : Nat} {w : World} {t : Task Mind}

/-- The task will not begin anything new: the run has been halted, or the sink has refused one of
its events. -/
def IsDoomed (b : Barrier) (t : Task Mind) : Prop :=
  b.signal.halt ≠ .running ∨ t.refusal?.isSome = true

/-- The task has come to its end, or waits for the clock to show a later time than `now`. -/
def Lingers (now : Nat) (t : Task Mind) : Prop :=
  t.result?.isSome = true ∨ ∃ wake, t.wake? = some wake ∧ now < wake

/-- The step leads nearer to the end, or to nothing as long as the task has to wait. -/
def Nears (w : World) (t t' : Task Mind) : Prop := t'.left < t.left ∨ t' = t ∧ t.Lingers w.now

theorem left_tell {u : Greeter} (hm : t.mind = .greeter u) (now : Nat) (r : Reply) :
    (t.tell now r).left = (u.hear r).step.left :=
  left_acting rfl (mind_tell hm now r)

/-- When the work ends, the end is near. -/
theorem left_conclude (w : World) (t : Task Mind) (e : Ending) :
    (conclude w t e).task.left < 7 := by
  unfold conclude
  split
  · exact (by decide : 6 < 7)
  · exact (by decide : 3 < 7)

/-- After the work has ended, every step leads to the end. -/
theorem nears_of_outcome {res : Result} (hs : t.stage.outcome? = some res) :
    t.Nears w (t.step w).task := by
  cases hst : t.stage with
  | judging r =>
    left
    rw [show t.left = 6 by simp only [left, hst]]
    simp only [step, hst]
    split
    · exact (by decide : 5 < 6)
    · exact (by decide : 3 < 6)
  | reading r m =>
    left
    rw [show t.left = 5 by simp only [left, hst]]
    simp only [step, hst]
    exact (by decide : 4 < 5)
  | accusing r f =>
    left
    rw [show t.left = 4 by simp only [left, hst]]
    simp only [step, hst]
    exact (by decide : 3 < 4)
  | parting r f =>
    left
    rw [show t.left = f.left by simp only [left, hst]]
    simp only [step, hst]
    cases hp : t.loop with
    | none => exact f.left_pos
    | some p =>
      have hlt := f.left_step w.barrier p
      simp only
      generalize f.step w.barrier p = y at hlt ⊢
      obtain ⟨b, f' | f'⟩ := y
      · exact f.left_pos
      · exact hlt f' rfl
  | «over» r =>
    refine .inr ⟨by simp only [step, hst], .inl ?_⟩
    rw [result?, hst]
    rfl
  | _ => rw [hst] at hs; cases hs

/-- A greeter on its way to the next round comes nearer to the end of its work. -/
theorem Sings.nears_pace (h : t.Sings g s n) (hh : w.barrier.signal.halt ≠ .running)
    {message : String} (hm : t.mind = .greeter { g with message, step := .iterating }) {p : Pace}
    (hs : t.stage = .pacing p) (hp : p.isDrawing = false) : t.Nears w (t.step w).task := by
  have hleft : t.left = p.left := by simp only [left, hs]
  have hseeks {now : Nat} (r : Reply) (hr : ∀ n, r ≠ .iteration true n) {t' : Task Mind}
      (hm' : t'.mind = t.mind) : (t'.tell now r).left < p.left := by
    rw [left_tell (hm'.trans hm)]
    refine lt_of_eq_of_lt ?_ p.left_bounds.1
    simp only [Greeter.hear]
    rfl
  rw [Nears, hleft]
  simp only [Task.step, hs]
  cases hst : t.stint with
  | none =>
    simp only [Task.pace, hst]
    exact .inl (hseeks .noPhase (by rintro _ ⟨⟩) rfl)
  | some x =>
    obtain ⟨hx, hdrains⟩ := Pace.drains_step w.now hh
      (w.bucket? (t.loop.elim 0 Participant.block) x.plan.number) (h.stint x hst).1 hp
    simp only [Task.pace, hst]
    generalize Pace.step _ _ _ x p = y at hx hdrains ⊢
    obtain ⟨bucket, x', r⟩ := y
    obtain rfl : x' = x := hx
    cases r with
    | blocked =>
      obtain ⟨wake, hwake, hlt⟩ := hdrains
      refine .inr ⟨?_, .inr ⟨wake, by simp only [wake?, hs, hwake], hlt⟩⟩
      -- the stint is put back where it was
      rw [← hst]
    | moved q => exact .inl hdrains
    | yielded q => exact .inl hdrains
    | answered granted =>
      obtain rfl : granted = false := hdrains
      exact .inl (hseeks (.iteration false x'.iterations) (by rintro _ ⟨⟩) rfl)
    | broken message => cases hdrains

/-- A greeter that works in a phase comes nearer to the end of its work. -/
theorem Sings.nears_work (h : t.Sings g s n) (hh : w.barrier.signal.halt ≠ .running)
    {message : String} {u : Greeter.Step} (hm : t.mind = .greeter { g with message, step := u })
    (hserves : t.Serves u) : t.Nears w (t.step w).task := by
  have hacts (hs : t.stage = .acting) (hlt : (t.obey w (Behaviour.ask t.mind)).task.left <
      u.left) : t.Nears w (t.step w).task := by
    rw [step_acting hs]
    exact .inl (hlt.trans_eq (left_acting hs hm).symm)
  have htold {r : Reply} {t' : Task Mind} (hm' : t'.mind = t.mind)
      (hlt : (({ g with message, step := u } : Greeter).hear r).step.left < u.left) :
      (t'.tell w.now r).left < u.left := by
    rwa [left_tell (hm'.trans hm)]
  cases u with
  | iterating =>
    rcases hserves with hs | ⟨p, hs, hp⟩
    · refine hacts hs ?_
      rw [hm]
      change (t.obey w .iterate).task.left < _
      cases hst : t.stint with
      | none => simp only [Task.obey, hst]; exact htold rfl (by decide : 11 < 19)
      | some x => simp only [Task.obey, hst]; exact (by decide : 18 < 19)
    · exact h.nears_pace hh hm hs hp
  | beginning =>
    refine hacts hserves ?_
    rw [hm]
    exact htold rfl (by decide : 23 < 24)
  | bumping =>
    refine hacts hserves.1 ?_
    rw [hm]
    exact htold rfl (by decide : 22 < 23)
  | counting =>
    obtain ⟨hs, m, hx, -⟩ := hserves
    refine hacts hs ?_
    rw [hm]
    change (t.obey w (.count 1 message.utf8ByteSize 0)).task.left < _
    simp only [Task.obey, hx]
    split
    · exact htold rfl (by decide : 21 < 22)
    · exact (left_conclude _ _ _).trans (by decide : 7 < 22)
  | reporting =>
    obtain ⟨hs, m, hx⟩ := hserves
    refine hacts hs ?_
    rw [hm]
    change (t.obey w (.report _)).task.left < _
    simp only [Task.obey, hx]
    generalize (w.sink.report m .success w.now).2 = y
    cases y with
    | ok _ => exact htold rfl (by decide : 19 < 21)
    | error e => exact htold rfl (by decide : 7 < 21)
  | seeking => cases hserves
  | ended e => cases hserves

/-- A greeter between two phases comes nearer to the end of its work. -/
theorem left_advance (hh : w.barrier.signal.halt ≠ .running) {message : String}
    (hm : t.mind = .greeter { g with message, step := .seeking }) {x : Advance}
    (hs : t.stage = .advancing x) : (t.step w).task.left < t.left := by
  have htold {r : Reply} {t' : Task Mind} (hm' : t'.mind = t.mind)
      (hlt : (({ g with message, step := .seeking } : Greeter).hear r).step.left < x.left) :
      (t'.tell w.now r).left < x.left := by
    rwa [left_tell (hm'.trans hm)]
  have hlow : 7 < x.left := by cases x <;> simp [Advance.left]
  rw [show t.left = x.left by simp only [left, hs]]
  simp only [step, hs]
  cases hp : t.loop with
  | none =>
    simp only [advance, hp]
    exact htold rfl hlow
  | some p =>
    have hdrains := Advance.drains_step hh p x
    simp only [advance, hp]
    generalize x.step w.barrier p = y at hdrains ⊢
    obtain ⟨b', p', r⟩ := y
    cases r with
    | blocked => cases hdrains
    | moved y => exact hdrains
    | entered plan last => exact htold rfl hdrains
    | «over» => exact htold rfl hlow
    | failed e => exact htold rfl hlow
    | broken message => cases hdrains

/-- **When nothing new is begun, a step of a greeter leads nearer to its end**, unless the greeter
has to wait for the clock. -/
theorem Sings.nears_step (h : t.Sings g s n) (hdoomed : t.IsDoomed w.barrier) :
    t.Nears w (t.step w).task := by
  have hhalted {message : String} {u : Greeter.Step}
      (hm : t.mind = .greeter { g with message, step := u }) (hu : ∀ e, u ≠ .ended e) :
      w.barrier.signal.halt ≠ .running := by
    refine hdoomed.resolve_right fun hr => ?_
    rw [refusal?_eq hm] at hr
    cases u with
    | ended e => exact hu e rfl
    | _ => cases hr
  cases h.sounds with
  | seeks hm hs =>
    have hh := hhalted hm (by rintro _ ⟨⟩)
    left
    rcases hs with hs | hs | ⟨x, hs⟩
    · rw [show t.left = 25 by simp only [left, hs]]
      simp only [Task.step, hs]
      split
      · exact lt_of_eq_of_lt (left_acting rfl hm) (by decide : 11 < 25)
      · exact (by decide : 3 < 25)
    · rw [step_acting hs, hm, left_acting hs hm]
      change (t.obey w .nextPhase).task.left < 11
      cases hp : t.loop with
      | none =>
        simp only [Task.obey, hp]
        exact (left_tell (t := { t with loop := none, stint := none }) hm w.now
          (.phase none)).trans_lt (by decide : 7 < 11)
      | some p =>
        simp only [Task.obey, hp, Advance.first]
        cases p.owed with
        | none => exact (by decide : 9 < 11)
        | some k => exact (by decide : 10 < 11)
    · exact left_advance hh hm hs
  | works hm _ hserves =>
    refine h.nears_work (hhalted hm ?_) hm hserves
    rintro e rfl
    cases hserves
  | @ends message e hm _ hs =>
    rcases hs with hs | hs
    · left
      rw [step_acting hs, hm, left_acting hs hm]
      exact left_conclude w t e
    · exact nears_of_outcome hs
  | panics hs _ => exact nears_of_outcome hs

theorem IsDoomed.mono {b b' : Barrier} (h : t.IsDoomed b) (hb : b.Heeds b') : t.IsDoomed b' :=
  h.imp_left fun hh hr => hh (hb.halt.eq_running hr)

/-- A greeter that was refused something does not forget it. -/
theorem IsDoomed.step (h : t.IsDoomed w.barrier) (hsings : t.Sings g s n)
    (hb : w.barrier.Heeds (t.step w).world.barrier) :
    (t.step w).task.IsDoomed (t.step w).world.barrier := by
  rcases h with hh | hr
  · exact .inl fun hr => hh (hb.halt.eq_running hr)
  · obtain ⟨err, herr⟩ := Option.isSome_iff_exists.1 hr
    exact .inr (Option.isSome_iff_exists.2 ⟨err, ((hsings.account_step w 0).1 err).2 (.inl herr)⟩)

end Task

/-! ### Endless schedules -/

namespace Label

/-- The first moves of an endless schedule. -/
def firstMoves (f : Nat → Label) (n : Nat) : List Label := (List.range n).map f

/-- Each of so many tasks has a turn again and again, and the clock comes to show any time, or a
later one. -/
structure IsFair (count : Nat) (f : Nat → Label) : Prop where
  acts : ∀ i < count, ∀ n, ∃ m ≥ n, f m = .act i
  ticks : ∀ time, ∃ m now, time ≤ now ∧ f m = .tick now

variable {f : Nat → Label} {n : Nat}

theorem firstMoves_succ (f : Nat → Label) (n : Nat) :
    firstMoves f (n + 1) = firstMoves f n ++ [f n] := by
  rw [firstMoves, List.range_succ, List.map_append]
  rfl

theorem isCalm_firstMoves (hf : ∀ n, (f n).IsCalm) (n : Nat) : ∀ l ∈ firstMoves f n, l.IsCalm := by
  intro l hl
  obtain ⟨m, -, rfl⟩ := List.mem_map.1 hl
  exact hf m

/-- So many tasks take turns, and after each round the clock moves on. -/
def roundRobin (count n : Nat) : Label :=
  if n % (count + 1) = count then .tick n else .act (n % (count + 1))

theorem isCalm_roundRobin (count n : Nat) : (roundRobin count n).IsCalm := by
  unfold roundRobin
  split <;> trivial

theorem isFair_roundRobin (count : Nat) : IsFair count (roundRobin count) where
  acts i hi n := by
    have hmod : ((count + 1) * n + i) % (count + 1) = i := by
      rw [Nat.mul_add_mod, Nat.mod_eq_of_lt (hi.trans count.lt_succ_self)]
    refine ⟨(count + 1) * n + i, ?_, by rw [roundRobin, hmod, if_neg hi.ne]⟩
    exact Nat.le_add_right_of_le (Nat.le_mul_of_pos_left n count.succ_pos)
  ticks time := by
    have hmod : ((count + 1) * time + count) % (count + 1) = count := by
      rw [Nat.mul_add_mod, Nat.mod_eq_of_lt count.lt_succ_self]
    refine ⟨(count + 1) * time + count, _, ?_, by rw [roundRobin, if_pos hmod]⟩
    exact Nat.le_add_right_of_le (Nat.le_mul_of_pos_left time count.succ_pos)

end Label

namespace System

section

variable {σ : Type} [Behaviour σ] {s : System σ} {f : Nat → Label} {n m : Nat}

/-- The system after so many moves of an endless schedule. -/
def after (s : System σ) (f : Nat → Label) (n : Nat) : System σ := s.run (Label.firstMoves f n)

theorem after_succ (s : System σ) (f : Nat → Label) (n : Nat) :
    s.after f (n + 1) = (s.after f n).fire (f n) := by
  rw [after, Label.firstMoves_succ, run_snoc]
  rfl

theorem heeds_after (hnm : n ≤ m) :
    (s.after f n).world.barrier.Heeds (s.after f m).world.barrier := by
  induction m, hnm using Nat.le_induction with
  | base => exact .refl _
  | succ m _ ih =>
    rw [after_succ]
    exact ih.trans (reaches_fire _ _).heeds

theorem mem_reports_firstMoves (hnm : n ≤ m) {r : Recording}
    (hr : r ∈ s.reports (Label.firstMoves f n)) : r ∈ s.reports (Label.firstMoves f m) := by
  induction m, hnm using Nat.le_induction with
  | base => exact hr
  | succ m _ ih =>
    rw [Label.firstMoves_succ, reports_snoc]
    exact List.mem_append_left _ ih

/-- The clock comes to show any time, or a later one, and does not go back. -/
theorem exists_now_le {count : Nat} (hfair : Label.IsFair count f) (s : System σ) (time : Nat) :
    ∃ n, ∀ m ≥ n, time ≤ (s.after f m).world.now := by
  obtain ⟨n, now, htime, hn⟩ := hfair.ticks time
  refine ⟨n + 1, fun m hm => ?_⟩
  induction m, hm using Nat.le_induction with
  | base =>
    rw [after_succ, hn]
    exact htime.trans (le_max_right _ _)
  | succ m _ ih =>
    rw [after_succ]
    exact ih.trans (now_fire _ _)

end

/-! ### The end of a run -/

namespace IsChorus

variable {s : System Mind} {f : Nat → Label} {i n m : Nat} {t : Task Mind}

/-- A greeter that will not begin anything new only comes nearer to its end. -/
theorem nears_after (hs : s.IsChorus) (hf : ∀ n, (f n).IsCalm) (hnm : n ≤ m)
    (ht : (s.after f n).tasks[i]? = some t) (hd : t.IsDoomed (s.after f n).world.barrier) :
    ∃ t', (s.after f m).tasks[i]? = some t' ∧ t'.IsDoomed (s.after f m).world.barrier ∧
      (t' = t ∨ t'.left < t.left) := by
  induction m, hnm using Nat.le_induction with
  | base => exact ⟨t, ht, hd, .inl rfl⟩
  | succ m _ ih =>
    obtain ⟨u, hu, hdoomed, hnear⟩ := ih
    obtain ⟨g, p, -, hsings⟩ := hs.singing_run (Label.isCalm_firstMoves hf m) u
      (List.mem_of_getElem? hu)
    have hheeds := (reaches_fire (s.after f m) (f m)).heeds
    have hi : i < ((s.after f m).fire (f m)).tasks.length := by
      have hlength := (hs.answering_run (Label.isCalm_firstMoves hf (m + 1))).length
      rw [Label.firstMoves_succ, run_snoc] at hlength
      have hlt := (List.getElem?_eq_some_iff.1 hu).1
      have hlength' := (hs.answering_run (Label.isCalm_firstMoves hf m)).length
      exact (hlt.trans_eq hlength').trans_eq hlength.symm
    rw [after_succ]
    obtain ⟨v, hv, ⟨hl, hstep⟩ | ⟨-, hkept⟩⟩ := step_of_fire (hf m) (List.getElem?_eq_getElem hi)
    · cases hu.symm.trans hv
      refine ⟨_, List.getElem?_eq_getElem hi, ?_, ?_⟩
      · rw [hstep, hl, fire_act hu]
        rw [hl, fire_act hu] at hheeds
        exact hdoomed.step hsings hheeds
      · rw [hstep]
        rcases hsings.nears_step hdoomed with hlt | ⟨heq, -⟩
        · exact .inr (hnear.elim (fun h => h ▸ hlt) hlt.trans)
        · rw [heq]
          exact hnear
    · cases hu.symm.trans hv
      exact ⟨_, List.getElem?_eq_getElem hi, hkept ▸ hdoomed.mono hheeds, hkept ▸ hnear⟩

/-- **A greeter that will not begin anything new comes to its end.** -/
theorem over_of_doomed (hs : s.IsChorus) (hf : ∀ n, (f n).IsCalm)
    (hfair : Label.IsFair s.tasks.length f) (ht : (s.after f n).tasks[i]? = some t)
    (hd : t.IsDoomed (s.after f n).world.barrier) :
    ∃ m ≥ n, ∃ t', (s.after f m).tasks[i]? = some t' ∧ t'.result?.isSome = true := by
  induction hleft : t.left using Nat.strong_induction_on generalizing n t with
  | h k ih =>
    subst hleft
    by_cases hover : t.result?.isSome = true
    · exact ⟨n, le_rfl, t, ht, hover⟩
    -- the greeter has a turn when it need not wait for the clock any more
    obtain ⟨late, hlate⟩ := exists_now_le hfair s (t.wake?.getD 0)
    have hi : i < s.tasks.length :=
      (hs.answering_run (Label.isCalm_firstMoves hf n)).length ▸ (List.getElem?_eq_some_iff.1 ht).1
    obtain ⟨m, hm, hact⟩ := hfair.acts i hi (max n late)
    have hnm : n ≤ m := (le_max_left _ _).trans hm
    obtain ⟨u, hu, hdoomed, rfl | hlt⟩ := hs.nears_after hf hnm ht hd
    · obtain ⟨g, p, -, hsings⟩ := hs.singing_run (Label.isCalm_firstMoves hf m) u
        (List.mem_of_getElem? hu)
      obtain ⟨v, hv, hdoomed', -⟩ := hs.nears_after hf m.le_succ hu hdoomed
      have hv' := hv
      rw [after_succ, hact, fire_act hu, List.getElem?_set_self
        (List.getElem?_eq_some_iff.1 hu).1] at hv'
      cases hv'
      rcases hsings.nears_step hdoomed with hlt | ⟨-, hends | ⟨wake, hwake, hnow⟩⟩
      · obtain ⟨m', hm', hend⟩ := ih _ hlt hv hdoomed' rfl
        exact ⟨m', by omega, hend⟩
      · exact absurd hends hover
      · have := hlate m ((le_max_right _ _).trans hm)
        rw [hwake, Option.getD_some] at this
        omega
    · obtain ⟨m', hm', hend⟩ := ih _ hlt hu hdoomed rfl
      exact ⟨m', hnm.trans hm', hend⟩

/-- **In a fair schedule a run that has been halted comes to its end.** -/
theorem ends_of_halted (hs : s.IsChorus) (hf : ∀ n, (f n).IsCalm)
    (hfair : Label.IsFair s.tasks.length f)
    (hh : (s.after f n).world.barrier.signal.halt ≠ .running) :
    ∃ m ≥ n, (s.after f m).isOver = true := by
  have hlength (m : Nat) : (s.after f m).tasks.length = s.tasks.length :=
    (hs.answering_run (Label.isCalm_firstMoves hf m)).length
  have hhalted {m : Nat} (hm : n ≤ m) : (s.after f m).world.barrier.signal.halt ≠ .running :=
    fun hr => hh ((heeds_after hm).halt.eq_running hr)
  -- the greeters come to their end one after the other, and stay there
  have hfirst (k : Nat) (hk : k ≤ s.tasks.length) : ∃ m ≥ n, ∀ i < k, ∀ t,
      (s.after f m).tasks[i]? = some t → t.result?.isSome = true := by
    induction k with
    | zero => exact ⟨n, le_rfl, fun i hi => absurd hi (Nat.not_lt_zero i)⟩
    | succ k ih =>
      obtain ⟨m, hm, hall⟩ := ih (Nat.le_of_succ_le hk)
      have hlt : k < (s.after f m).tasks.length := (hlength m).symm ▸ hk
      obtain ⟨m', hm', u, hu, hend⟩ := hs.over_of_doomed hf hfair (List.getElem?_eq_getElem hlt)
        (.inl (hhalted hm))
      refine ⟨m', hm.trans hm', fun i hi v hv => ?_⟩
      rcases Nat.lt_succ_iff_lt_or_eq.1 hi with hi | rfl
      · have hlt' : i < (s.after f m).tasks.length := hi.trans hlt
        have hv₀ := List.getElem?_eq_getElem hlt'
        obtain ⟨v', hv', -, hnear⟩ := hs.nears_after hf hm' hv₀ (.inl (hhalted hm))
        cases hv.symm.trans hv'
        have hover := hall i hi _ hv₀
        obtain ⟨res, hres⟩ := Option.isSome_iff_exists.1 hover
        have hzero : ((s.after f m).tasks[i]).left = 0 := by
          simp only [Task.left, result?_eq_some_iff.1 hres]
        rcases hnear with rfl | hlt
        · exact hover
        · omega
      · cases hv.symm.trans hu
        exact hend
  obtain ⟨m, hm, hall⟩ := hfirst s.tasks.length le_rfl
  refine ⟨m, hm, List.all_eq_true.2 fun t ht => ?_⟩
  obtain ⟨i, hi⟩ := List.getElem?_of_mem ht
  exact hall i (hlength m ▸ (List.getElem?_eq_some_iff.1 hi).1) t hi

/-- **A refusal ends the run**: the greeter that was refused something aborts it, unless somebody
has done so before, and then everybody comes to their end. -/
theorem ends_of_refused (hs : s.IsChorus) (hf : ∀ n, (f n).IsCalm)
    (hfair : Label.IsFair s.tasks.length f) {r : Recording} {err : MetricsError}
    (hr : r ∈ s.reports (Label.firstMoves f n))
    (herr : r.answer = .error err) : ∃ m ≥ n, (s.after f m).isOver = true := by
  have hcalm := Label.isCalm_firstMoves hf
  obtain ⟨t, ht⟩ := hs.task_of_mem_reports (hcalm n) hr
  have hrefused := (hs.refused_run (hcalm n) ht err).2 ⟨r, hr, rfl, herr⟩
  obtain ⟨m, hm, u, hu, hend⟩ :=
    hs.over_of_doomed hf hfair ht (.inr (Option.isSome_iff_exists.2 ⟨err, hrefused⟩))
  have hr' : r ∈ s.reports (Label.firstMoves f m) := mem_reports_firstMoves hm hr
  have haborted := (hs.answering_run (hcalm m)).isAborted_iff.2
    (hs.accusations_ne_nil (hcalm m) hr' herr hu hend)
  have hhalted : (s.after f m).world.barrier.signal.halt ≠ .running := by
    intro hrunning
    rw [Barrier.isAborted, show (s.run (Label.firstMoves f m)).world.barrier.signal.halt = .running
      from hrunning] at haborted
    cases haborted
  obtain ⟨m', hm', hover⟩ := hs.ends_of_halted hf hfair hhalted
  exact ⟨m', hm.trans hm', hover⟩

end IsChorus

end System

end Lockstep
