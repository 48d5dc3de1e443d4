import Lockstep.Proofs.GreeterSteps

/-!
# What greeters owe, and what they were refused

A greeting that has been added to the counter is owed to the sink until the sink has taken it.  A
greeter that was refused one ends its work with what the sink has said.

* `Task.refusal?` : what the sink has said when it refused an event of a greeter;
* `Task.hears_step` : whoever is told that the run was aborted is told so because it was;
* `Task.Sings.account_step` : **what a step of a greeter does to what is owed and what was
  refused**, whether or not the run has been halted.
-/

namespace Lockstep

namespace Greeter

/-- What the sink has said when it refused an event of the greeter. -/
def refusal? (g : Greeter) : Option MetricsError :=
  match g.step with
  | .ended (.failed (.metrics e)) => some e
  | _ => none

/-- A greeter that neither adds to the counter nor reports anything owes what it has owed, unless it
is told that the run was aborted. -/
theorem hear_quiet {g : Greeter} (hb : g.step ≠ .bumping) (hr : g.step ≠ .reporting) (y : Reply) :
    (g.hear y).refusal? = g.refusal? ∧ ((∀ e, y ≠ .halted e) → (g.hear y).owing = g.owing) := by
  cases hs : g.step with
  | bumping => exact absurd hs hb
  | reporting => exact absurd hs hr
  | seeking =>
    have hnow : g.refusal? = none ∧ g.owing = 0 := by simp only [refusal?, owing, hs, and_self]
    rw [hnow.1, hnow.2]
    cases y with
    | phase plan => cases plan <;> simp only [hear, hs] <;> exact ⟨rfl, fun _ => rfl⟩
    | halted e => simp only [hear, hs]; exact ⟨rfl, fun hno => absurd rfl (hno e)⟩
    | _ => simp only [hear, hs]; exact ⟨rfl, fun _ => rfl⟩
  | iterating =>
    have hnow : g.refusal? = none ∧ g.owing = 0 := by simp only [refusal?, owing, hs, and_self]
    rw [hnow.1, hnow.2]
    cases y with
    | iteration granted n => cases granted <;> simp only [hear, hs] <;> exact ⟨rfl, fun _ => rfl⟩
    | _ => simp only [hear, hs]; exact ⟨rfl, fun _ => rfl⟩
  | ended e => simp only [refusal?, owing, hear, hs, moveTo, implies_true, and_self]
  | _ => simp only [refusal?, owing, hear, hs, moveTo, implies_true, and_self]

end Greeter

namespace Task

section

variable {σ : Type}

/-- The actor hears nothing or is told something; that the run was aborted it is told only when it
was. -/
def Hears [Behaviour σ] (w : World) (t t' : Task σ) : Prop :=
  t'.mind = t.mind ∨ ∃ y, t'.mind = Behaviour.hear t.mind w.now y ∧
    ∀ e, y = .halted e → w.barrier.isAborted = true

theorem hears_conclude [Behaviour σ] (w w' : World) (t : Task σ) (e : Ending) :
    t.Hears w (t.conclude w' e).task := by
  unfold Task.conclude
  split <;> exact .inl rfl

theorem hears_obey [Behaviour σ] (w : World) (t : Task σ) (q : Ask) :
    t.Hears w (t.obey w q).task := by
  cases q with
  | nextPhase =>
    simp only [obey]
    split
    · exact .inr ⟨_, rfl, by rintro _ ⟨⟩⟩
    · exact .inl rfl
  | iterate =>
    simp only [obey]
    split
    · exact .inr ⟨_, rfl, by rintro _ ⟨⟩⟩
    · exact .inl rfl
  | count documents bytes iterations =>
    simp only [obey]
    split
    · exact .inr ⟨_, rfl, by rintro _ ⟨⟩⟩
    · split
      · exact .inr ⟨_, rfl, by rintro _ ⟨⟩⟩
      · exact hears_conclude _ _ _ _
  | report o =>
    simp only [obey]
    split <;> exact .inr ⟨_, rfl, by rintro _ ⟨⟩⟩
  | pause d => exact .inl rfl
  | leave => exact .inl rfl
  | rest => exact .inl rfl
  | finish e => exact hears_conclude _ _ _ _
  | _ => exact .inr ⟨_, rfl, by rintro _ ⟨⟩⟩

theorem hears_pace [Behaviour σ] (w : World) (t : Task σ) (p : Pace) :
    t.Hears w (t.pace w p).task := by
  cases hst : t.stint with
  | none => simp only [pace, hst]; exact .inr ⟨_, rfl, by rintro _ ⟨⟩⟩
  | some x =>
    simp only [pace, hst]
    generalize Pace.step _ _ _ x p = y
    obtain ⟨bucket, x', r⟩ := y
    cases r with
    | answered granted =>
      -- drawing from a bucket leaves the clock alone
      cases bucket <;> exact .inr ⟨.iteration granted x'.iterations, rfl, by rintro _ ⟨⟩⟩
    | broken message => exact hears_conclude _ _ _ _
    | _ => exact .inl rfl

theorem hears_advance [Behaviour σ] (w : World) (t : Task σ) (x : Advance) :
    t.Hears w (t.advance w x).task := by
  cases hp : t.loop with
  | none => simp only [advance, hp]; exact .inr ⟨_, rfl, by rintro _ ⟨⟩⟩
  | some p =>
    have haborted := fun e =>
      Advance.isAborted_of_failed (b := w.barrier) (p := p) (x := x) (e := e)
    simp only [advance, hp]
    generalize x.step w.barrier p = y at haborted ⊢
    obtain ⟨b', p', r⟩ := y
    cases r with
    | blocked => exact .inl rfl
    | moved y => exact .inl rfl
    | broken message => exact hears_conclude _ _ _ _
    | failed e => exact .inr ⟨_, rfl, fun e' _ => haborted e rfl⟩
    | entered plan last => exact .inr ⟨.phase (some plan), rfl, by rintro _ ⟨⟩⟩
    | «over» => exact .inr ⟨.phase none, rfl, by rintro _ ⟨⟩⟩

/-- What an actor hears in a step. -/
theorem hears_step [Behaviour σ] (w : World) (t : Task σ) : t.Hears w (t.step w).task := by
  cases hs : t.stage with
  | acting => rw [step_acting hs]; exact hears_obey _ _ _
  | waiting => simp only [step, hs]; split <;> exact .inl rfl
  | asleep wake =>
    simp only [step, hs]
    split
    · exact .inr ⟨_, rfl, by rintro _ ⟨⟩⟩
    · exact .inl rfl
  | leaving f =>
    simp only [step, hs]
    split
    · exact .inr ⟨_, rfl, by rintro _ ⟨⟩⟩
    · split
      · exact .inl rfl
      · exact .inr ⟨_, rfl, by rintro _ ⟨⟩⟩
  | pacing p => simp only [step, hs]; exact hears_pace _ _ _
  | advancing x => simp only [step, hs]; exact hears_advance _ _ _
  | _ =>
    have hout : ∃ res, t.stage.outcome? = some res := by rw [hs]; exact ⟨_, rfl⟩
    obtain ⟨res, hout⟩ := hout
    exact .inl (step_of_outcome hout).2.1

end

section

variable {g : Greeter} {s : Schedule} {n i : Nat} {w : World} {t : Task Mind}

/-- What the sink has said when it refused an event of the task. -/
def refusal? (t : Task Mind) : Option MetricsError :=
  match t.mind with
  | .greeter g => g.refusal?
  | _ => none

theorem refusal?_eq {u : Greeter} (hm : t.mind = .greeter u) : t.refusal? = u.refusal? := by
  rw [refusal?, hm]

/-- Before its work has ended a task has the mind of a greeter, and is ready for what that does. -/
theorem Sings.mind (h : t.Sings g s n) (hs : t.stage.outcome? = none) :
    ∃ u, t.mind = .greeter u ∧ (u.step = .bumping → t.bump? = some (g.counter, 1)) ∧
      (u.step = .reporting → ∀ w i, ∃ r, t.report? w i = some r) := by
  cases h.sounds with
  | seeks hm _ => exact ⟨_, hm, by rintro ⟨⟩, by rintro ⟨⟩⟩
  | ends hm _ _ => exact ⟨_, hm, by rintro ⟨⟩, by rintro ⟨⟩⟩
  | panics hs' _ => rw [hs] at hs'; cases hs'
  | @works message step hm _ hserves =>
    refine ⟨_, hm, fun hstep => ?_, fun hstep w i => ?_⟩
    · obtain rfl : step = .bumping := hstep
      exact bump?_eq_some_iff.2 ⟨hserves.1, by rw [hm]; rfl⟩
    · obtain rfl : step = .reporting := hstep
      obtain ⟨hacting, m, hx⟩ := hserves
      exact ⟨_, report?_eq_some_iff.2 ⟨_, m, hacting, by rw [hm]; rfl, hx, rfl⟩⟩

/-- Before the run a greeter is on its way to the first phase. -/
theorem Sings.of_waiting (h : t.Sings g s n) (hs : t.stage = .waiting) :
    ∃ u, t.mind = .greeter u ∧ u.step = .seeking := by
  cases h.sounds with
  | seeks hm _ => exact ⟨_, hm, rfl⟩
  | works _ _ hserves =>
    have hwork := hserves.isAtWork
    rw [hs] at hwork
    cases hwork
  | ends _ _ hs' => rcases hs' with hs' | hs' <;> rw [hs] at hs' <;> cases hs'
  | panics hs' _ => rw [hs] at hs'; cases hs'

/-- Whoever was refused something has failed, if nothing worse has happened. -/
theorem Sings.isCulpable_of_refusal (h : t.Sings g s n) {err : MetricsError}
    (hr : t.refusal? = some err) {res : Result} (hs : t.stage.outcome? = some res) :
    res.isCulpable = true := by
  cases h.sounds with
  | seeks hm _ => rw [refusal?_eq hm] at hr; cases hr
  | @works message step hm _ hserves =>
    rw [Stage.outcome?_of_isAtWork hserves.isAtWork] at hs
    cases hs
  | panics hs' _ => cases hs.symm.trans hs'; rfl
  | @ends message e hm _ hs' =>
    rcases hs' with hs' | hs'
    · rw [hs'] at hs; cases hs
    · cases hs.symm.trans hs'
      rw [refusal?_eq hm, Greeter.refusal?] at hr
      split at hr
      · next he => cases he; rfl
      · cases hr

/-- How a greeter may have ended: well, with nothing owed; or refused something; or told that the
run was aborted; or broken off, when some counter had come to its limit. -/
theorem Sings.of_ended (h : t.Sings g s n) {e : Ending} (hs : t.stage.outcome? = some (.ended e)) :
    e = .completed ∧ t.owing = 0 ∨ (∃ err, e = .failed (.metrics err) ∧ t.refusal? = some err) ∨
      (∃ cause, e = .failed (.sync (.aborted cause))) ∨
      (∃ message, e = .panicked message) ∧ wordLimit ≤ n := by
  cases h.sounds with
  | seeks _ hs' => rcases hs' with hs' | hs' | ⟨x, hs'⟩ <;> rw [hs'] at hs <;> cases hs
  | works _ _ hserves => rw [Stage.outcome?_of_isAtWork hserves.isAtWork] at hs; cases hs
  | panics hs' hn => cases hs'.symm.trans hs; exact .inr (.inr (.inr ⟨⟨_, rfl⟩, hn⟩))
  | ends hm he hs' =>
    rcases hs' with hs' | hs'
    · rw [hs'] at hs; cases hs
    · cases hs'.symm.trans hs
      unfold EndsAs at he
      split at he
      · exact .inl ⟨rfl, by rw [owing_eq hm]; rfl⟩
      · exact .inr (.inl ⟨_, rfl, by rw [refusal?_eq hm]; rfl⟩)
      · exact .inr (.inr (.inl ⟨_, rfl⟩))
      · cases he

/-- Only a greeter that is to report something does, or to add to the counter. -/
theorem step_of_ask {u : Greeter} (hm : t.mind = .greeter u) :
    (∀ o, Behaviour.ask t.mind = .report o → u.step = .reporting) ∧
      ∀ ref n, Behaviour.ask t.mind = .bump ref n → u.step = .bumping := by
  rw [hm]
  change (∀ o, u.ask = .report o → _) ∧ ∀ ref n, u.ask = .bump ref n → _
  unfold Greeter.ask
  cases u.step <;> simp

/-- Greeters add one to the counter, and nothing else. -/
theorem Sings.bump?_eq (h : t.Sings g s n) {b : Nat × Int} (hb : t.bump? = some b) :
    b = (g.counter, 1) := by
  obtain ⟨hs, hq⟩ := bump?_eq_some_iff.1 hb
  obtain ⟨u, hm, hbumps, -⟩ := h.mind (by rw [hs]; rfl)
  exact Option.some.inj (hb.symm.trans (hbumps ((step_of_ask hm).2 _ _ hq)))

/-- The sink has answered: what is owed is paid, or the refusal is remembered. -/
theorem Sings.account_report (h : t.Sings g s n) {r : Recording} (hr : t.report? w i = some r) :
    (∀ err, (t.step w).task.refusal? = some err ↔ r.answer = .error err) ∧
      t.refusal? = none ∧ t.bump? = none ∧
      t.owing = (t.step w).task.owing + (Recording.accepted [r]).length := by
  obtain ⟨o, m, hs, hq, hx, rfl⟩ := report?_eq_some_iff.1 hr
  obtain ⟨u, hm, -⟩ := h.mind (by rw [hs]; rfl)
  have hstep := (step_of_ask hm).1 o hq
  have hmind := mind_tell (t := { t with measurement := none }) hm w.now
    (.recorded (w.sink.report m o w.now).2)
  rw [step_of_report hs hq hx]
  change (∀ err, refusal? (tell _ _ _) = some err ↔ _) ∧ _ ∧ _ ∧ _ = owing (tell _ _ _) + _
  rw [refusal?_eq hmind, owing_eq hmind, refusal?_eq hm, owing_eq hm]
  refine ⟨fun err => ?_, by rw [Greeter.refusal?, hstep], by simp only [bump?, hs, hq], ?_⟩
  · cases (w.sink.report m o w.now).2 <;>
      simp [Greeter.hear, hstep, Greeter.moveTo, Greeter.refusal?]
  · cases (w.sink.report m o w.now).2 <;> simp only [Greeter.hear, hstep, Greeter.moveTo,
      Greeter.owing] <;> rfl

/-- What has been added to the counter is owed. -/
theorem Sings.account_bump (h : t.Sings g s n) {b : Nat × Int} (hb : t.bump? = some b) :
    (t.step w).task.refusal? = t.refusal? ∧ (t.step w).task.owing = t.owing + 1 := by
  obtain ⟨hs, hq⟩ := bump?_eq_some_iff.1 hb
  obtain ⟨u, hm, -⟩ := h.mind (by rw [hs]; rfl)
  have hstep := (step_of_ask hm).2 _ _ hq
  have hmind := mind_tell hm w.now .done
  rw [step_of_bump hb]
  change refusal? (tell _ _ _) = _ ∧ owing (tell _ _ _) = _
  rw [refusal?_eq hmind, owing_eq hmind, refusal?_eq hm, owing_eq hm]
  simp only [Greeter.hear, hstep, Greeter.moveTo, Greeter.refusal?, Greeter.owing, Nat.zero_add,
    and_self]

/-- Whatever else a greeter does leaves the accounts alone, unless the run was aborted. -/
theorem Sings.account_quiet (h : t.Sings g s n) (hr : t.report? w i = none)
    (hb : t.bump? = none) : (t.step w).task.refusal? = t.refusal? ∧
      (w.barrier.isAborted = false → (t.step w).task.owing = t.owing) := by
  cases hout : t.stage.outcome? with
  | some res => simp only [refusal?, owing, (step_of_outcome hout).2.1, implies_true, and_self]
  | none =>
    obtain ⟨u, hm, hbumps, hreports⟩ := h.mind hout
    rcases hears_step w t with hmind | ⟨y, hmind, hhalted⟩
    · simp only [refusal?, owing, hmind, implies_true, and_self]
    · have hmind' : (t.step w).task.mind = .greeter (u.hear y) := by rw [hmind, hm]; rfl
      rw [refusal?_eq hmind', owing_eq hmind', refusal?_eq hm, owing_eq hm]
      obtain ⟨hrefusal, howing⟩ := Greeter.hear_quiet (g := u)
        (fun hstep => by rw [hbumps hstep] at hb; cases hb)
        (fun hstep => by obtain ⟨r, hr'⟩ := hreports hstep w i; cases hr.symm.trans hr') y
      refine ⟨hrefusal, fun hno => howing fun e he => ?_⟩
      rw [hhalted e he] at hno
      cases hno

/-- **A step of a greeter keeps the accounts**: what has been added to the counter is owed until it
has been recorded, and what has been refused is remembered. -/
theorem Sings.account_step (h : t.Sings g s n) (w : World) (i : Nat) :
    (∀ err, (t.step w).task.refusal? = some err ↔
      t.refusal? = some err ∨ ∃ r, t.report? w i = some r ∧ r.answer = .error err) ∧
    (w.barrier.isAborted = false → t.owing + t.bump?.toList.length =
      (t.step w).task.owing + (Recording.accepted (t.report? w i).toList).length) := by
  cases hr : t.report? w i with
  | some r =>
    obtain ⟨hanswer, hnone, hb, hpaid⟩ := h.account_report hr
    rw [hnone, hb]
    exact ⟨fun err => by simp [hanswer], fun _ => hpaid⟩
  | none =>
    cases hb : t.bump? with
    | some b =>
      obtain ⟨hrefusal, howing⟩ := h.account_bump (w := w) hb
      rw [hrefusal, howing]
      exact ⟨fun err => by simp, fun _ => rfl⟩
    | none =>
      obtain ⟨hrefusal, howing⟩ := h.account_quiet hr hb
      rw [hrefusal]
      exact ⟨fun err => by simp, fun hno => by rw [howing hno]; rfl⟩

end

end Task

end Lockstep
