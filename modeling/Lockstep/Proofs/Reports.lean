import Lockstep.Proofs.Rounds

/-!
# What is reported

The sink is told of an operation only by the actor that ends it, in one step.  So what it has
accepted is what it has been told of, without what it has refused.

* `Recording` : an operation that an actor ended, with the phase the actor worked in then and the
  answer of the sink;
* `System.reports` : all that is reported along a run, and `System.bumps` all that is added to
  shared counters;
* `Task.rests_step` : other steps leave the sink and the store alone;
* `System.events_run` : **the sink has accepted the events of the reports that it has not refused.**
-/

namespace Lockstep

/-- An actor has ended an operation and reported it. -/
structure Recording where
  /-- The position of the actor's task. -/
  task : Nat
  /-- The phase the actor works in. -/
  stint : Option Stint
  event : Event
  /-- What the sink says to it. -/
  answer : Except MetricsError Unit

namespace Recording

/-- The sink has taken the event. -/
def isAccepted (r : Recording) : Bool := r.answer.isOk

/-- The events that the sink has taken. -/
def accepted (rs : List Recording) : List Event := (rs.filter isAccepted).map event

theorem accepted_append (rs rs' : List Recording) :
    accepted (rs ++ rs') = accepted rs ++ accepted rs' := by
  simp [accepted]

end Recording

/-- The sink takes an event exactly if it does not say otherwise. -/
theorem Sink.events_report (k : Sink) (m : Measurement) (o : Outcome) (now : Nat) :
    (k.report m o now).1.events =
      if (k.report m o now).2.isOk then k.events ++ [m.event o now] else k.events := by
  rw [Sink.report]
  obtain ⟨k', hk, he⟩ | ⟨k', err, hk, he⟩ := k.record_cases (m.event o now) <;> rw [hk] <;> exact he

/-- No time goes by, and the sink and the store are left alone. -/
structure World.Rests (w w' : World) : Prop where
  now : w'.now = w.now
  sink : w'.sink = w.sink
  store : w'.store = w.store

theorem World.Rests.refl (w : World) : w.Rests w := ⟨rfl, rfl, rfl⟩

namespace Task

variable {σ : Type} [Behaviour σ] {w : World} {t : Task σ} {i : Nat} {r : Recording}

/-- What a task, which has a position, reports with its next step. -/
def report? (w : World) (i : Nat) (t : Task σ) : Option Recording :=
  match t.stage, Behaviour.ask t.mind, t.measurement with
  | .acting, .report o, some m => some ⟨i, t.stint, m.event o w.now, (w.sink.report m o w.now).2⟩
  | _, _, _ => none

/-- Who reports something has measured it, and asks for nothing else. -/
theorem report?_eq_some_iff : t.report? w i = some r ↔
    ∃ o m, t.stage = .acting ∧ Behaviour.ask t.mind = .report o ∧ t.measurement = some m ∧
      r = ⟨i, t.stint, m.event o w.now, (w.sink.report m o w.now).2⟩ := by
  constructor
  · intro h
    unfold report? at h
    split at h
    · next o m hs hq hm => exact ⟨o, m, hs, hq, hm, (Option.some.inj h).symm⟩
    · cases h
  · rintro ⟨o, m, hs, hq, hm, rfl⟩
    simp only [report?, hs, hq, hm]

theorem task_of_report? (h : t.report? w i = some r) : r.task = i := by
  obtain ⟨o, m, -, -, -, rfl⟩ := report?_eq_some_iff.1 h
  rfl

/-- How a report is made. -/
theorem step_of_report {o : Outcome} {m : Measurement} (hs : t.stage = .acting)
    (hq : Behaviour.ask t.mind = .report o) (hm : t.measurement = some m) :
    t.step w = moves { w with sink := (w.sink.report m o w.now).1 }
      (tell w.now { t with measurement := none } (.recorded (w.sink.report m o w.now).2)) := by
  rw [step_acting hs, hq]
  simp only [obey, hm]

/-- What a task adds to a shared counter with its next step. -/
def bump? (t : Task σ) : Option (Nat × Int) :=
  match t.stage, Behaviour.ask t.mind with
  | .acting, .bump ref n => some (ref, n)
  | _, _ => none

theorem bump?_eq_some_iff {ref : Nat} {n : Int} : t.bump? = some (ref, n) ↔
    t.stage = .acting ∧ Behaviour.ask t.mind = .bump ref n := by
  constructor
  · intro h
    unfold bump? at h
    split at h
    · next hs hq => cases h; exact ⟨hs, hq⟩
    · cases h
  · rintro ⟨hs, hq⟩
    simp only [bump?, hs, hq]

/-- How something is added to a counter. -/
theorem step_of_bump {ref : Nat} {n : Int} (h : t.bump? = some (ref, n)) :
    t.step w = moves { w with store := w.store.bump ref (.counter n) } (tell w.now t .done) := by
  obtain ⟨hs, hq⟩ := bump?_eq_some_iff.1 h
  rw [step_acting hs, hq]
  rfl

theorem rests_obey {q : Ask} (hreport : ∀ o, q = .report o → t.measurement = none)
    (hbump : ∀ ref n, q ≠ .bump ref n) : w.Rests (t.obey w q).world := by
  cases q with
  | nextPhase => simp only [obey]; split <;> exact .refl w
  | iterate => simp only [obey]; split <;> exact .refl w
  | count documents bytes iterations =>
    simp only [obey]
    split
    · exact .refl w
    · split
      · exact .refl w
      · rw [world_conclude]
        exact .refl w
  | report o => simp only [obey, hreport o rfl]; exact .refl w
  | bump ref n => exact absurd rfl (hbump ref n)
  | finish e => simp only [obey, world_conclude]; exact .refl w
  | _ => exact .refl w

theorem rests_advance (w : World) (t : Task σ) (x : Advance) : w.Rests (t.advance w x).world := by
  unfold advance
  split
  · exact .refl w
  · dsimp only
    split
    all_goals first | exact ⟨rfl, rfl, rfl⟩ | rw [world_conclude]; exact ⟨rfl, rfl, rfl⟩

theorem rests_pace (w : World) (t : Task σ) (p : Pace) : w.Rests (t.pace w p).world := by
  cases hst : t.stint with
  | none => simp only [pace, hst]; exact .refl w
  | some s =>
    simp only [pace, hst]
    generalize Pace.step _ _ _ s p = y
    obtain ⟨bucket, s', r⟩ := y
    have hrests :
        w.Rests (bucket.elim w (w.putBucket (t.loop.elim 0 Participant.block) s.plan.number)) := by
      cases bucket <;> exact ⟨rfl, rfl, rfl⟩
    cases r with
    | broken message => rw [world_conclude]; exact hrests
    | _ => exact hrests

/-- A step that neither reports anything nor adds to a counter takes place unseen by all but the
barrier and the buckets. -/
theorem rests_step (hr : t.report? w i = none) (hb : t.bump? = none) :
    w.Rests (t.step w).world := by
  cases hs : t.stage with
  | acting =>
    rw [step_acting hs]
    refine rests_obey (fun o hq => Option.eq_none_iff_forall_ne_some.2 fun m hm => ?_)
      fun ref n hq => ?_
    · rw [report?_eq_some_iff.2 ⟨o, m, hs, hq, hm, rfl⟩] at hr
      cases hr
    · rw [bump?_eq_some_iff.2 ⟨hs, hq⟩] at hb
      cases hb
  | advancing x => simp only [step, hs]; exact rests_advance w t x
  | pacing p => simp only [step, hs]; exact rests_pace w t p
  | waiting => simp only [step, hs]; split <;> exact .refl w
  | asleep wake => simp only [step, hs]; split <;> exact .refl w
  | leaving f =>
    simp only [step, hs]
    split
    · exact .refl w
    · split <;> exact ⟨rfl, rfl, rfl⟩
  | «over» res => simp only [step, hs]; exact .refl w
  | _ =>
    simp only [step, hs]
    repeat' split
    all_goals exact ⟨rfl, rfl, rfl⟩

/-- A step takes no time. -/
theorem now_step (w : World) (t : Task σ) : (t.step w).world.now = w.now := by
  cases hr : t.report? w 0 with
  | some r =>
    obtain ⟨o, m, hs, hq, hm, -⟩ := report?_eq_some_iff.1 hr
    rw [step_of_report hs hq hm]
    rfl
  | none =>
    cases hb : t.bump? with
    | some b => rw [step_of_bump hb]; rfl
    | none => exact (rests_step hr hb).now

/-- What a step adds to the events. -/
theorem events_step (w : World) (i : Nat) (t : Task σ) : (t.step w).world.sink.events =
    w.sink.events ++ Recording.accepted (t.report? w i).toList := by
  cases hr : t.report? w i with
  | some r =>
    obtain ⟨o, m, hs, hq, hm, rfl⟩ := report?_eq_some_iff.1 hr
    rw [step_of_report hs hq hm]
    refine (w.sink.events_report m o w.now).trans ?_
    cases hok : (w.sink.report m o w.now).2.isOk <;>
      simp [Recording.accepted, Recording.isAccepted, hok]
  | none =>
    have hsink : (t.step w).world.sink = w.sink := by
      cases hb : t.bump? with
      | some b => rw [step_of_bump hb]; rfl
      | none => exact (rests_step hr hb).sink
    rw [hsink]
    exact (List.append_nil _).symm

/-- A step changes the store only by adding to a counter. -/
theorem store_step (hb : t.bump? = none) : (t.step w).world.store = w.store := by
  cases hr : t.report? w 0 with
  | some r =>
    obtain ⟨o, m, hs, hq, hm, -⟩ := report?_eq_some_iff.1 hr
    rw [step_of_report hs hq hm]
    rfl
  | none => exact (rests_step hr hb).store

end Task

namespace System

variable {σ : Type} [Behaviour σ] {s : System σ} {i : Nat} {t : Task σ}

/-- What is reported by a move. -/
def reported (s : System σ) : Label → List Recording
  | .act i => ((s.tasks[i]?).bind fun t => t.report? s.world i).toList
  | _ => []

theorem reported_act (ht : s.tasks[i]? = some t) :
    s.reported (.act i) = (t.report? s.world i).toList := by
  simp only [reported, ht, Option.bind_some]

theorem mem_reported_iff {l : Label} {r : Recording} : r ∈ s.reported l ↔
    ∃ i t, l = .act i ∧ s.tasks[i]? = some t ∧ t.report? s.world i = some r := by
  cases l with
  | act i =>
    simp only [reported, Option.mem_toList, Option.bind_eq_some_iff]
    constructor
    · rintro ⟨t, ht, hr⟩
      exact ⟨i, t, rfl, ht, hr⟩
    · rintro ⟨j, t, hj, ht, hr⟩
      cases hj
      exact ⟨t, ht, hr⟩
  | _ => simp [reported]

/-- All that is reported along a run. -/
def reports (s : System σ) : List Label → List Recording
  | [] => []
  | l :: ls => s.reported l ++ (s.fire l).reports ls

theorem reports_append (s : System σ) (ls ls' : List Label) :
    s.reports (ls ++ ls') = s.reports ls ++ (s.run ls).reports ls' := by
  induction ls generalizing s with
  | nil => rfl
  | cons l ls ih =>
    simp only [List.cons_append, reports, ih, List.append_assoc]
    rfl

theorem reports_snoc (s : System σ) (ls : List Label) (l : Label) :
    s.reports (ls ++ [l]) = s.reports ls ++ (s.run ls).reported l := by
  rw [reports_append]
  simp [reports]

/-- What is added to shared counters by a move. -/
def bumped (s : System σ) : Label → List (Nat × Int)
  | .act i => ((s.tasks[i]?).bind Task.bump?).toList
  | _ => []

theorem bumped_act (ht : s.tasks[i]? = some t) : s.bumped (.act i) = t.bump?.toList := by
  simp only [bumped, ht, Option.bind_some]

/-- All that is added to shared counters along a run. -/
def bumps (s : System σ) : List Label → List (Nat × Int)
  | [] => []
  | l :: ls => s.bumped l ++ (s.fire l).bumps ls

theorem bumps_append (s : System σ) (ls ls' : List Label) :
    s.bumps (ls ++ ls') = s.bumps ls ++ (s.run ls).bumps ls' := by
  induction ls generalizing s with
  | nil => rfl
  | cons l ls ih =>
    simp only [List.cons_append, bumps, ih, List.append_assoc]
    rfl

theorem bumps_snoc (s : System σ) (ls : List Label) (l : Label) :
    s.bumps (ls ++ [l]) = s.bumps ls ++ (s.run ls).bumped l := by
  rw [bumps_append]
  simp [bumps]

/-- The clock does not go back. -/
theorem now_fire (s : System σ) (l : Label) : s.world.now ≤ (s.fire l).world.now := by
  cases l with
  | act i =>
    cases ht : s.tasks[i]? with
    | none => rw [fire, act, onTask_of_none ht]
    | some t => rw [fire_act ht]; exact (t.now_step s.world).ge
  | interrupt i =>
    cases ht : s.tasks[i]? with
    | none => rw [fire, onTask_of_none ht]
    | some t => rw [fire_interrupt ht]
  | tick now => exact le_max_left _ _
  | _ => exact le_rfl

/-- What a move adds to the events. -/
theorem events_fire (s : System σ) (l : Label) : (s.fire l).world.sink.events =
    s.world.sink.events ++ Recording.accepted (s.reported l) := by
  have hnone : s.world.sink.events = s.world.sink.events ++ Recording.accepted [] :=
    (List.append_nil _).symm
  cases l with
  | act i =>
    cases ht : s.tasks[i]? with
    | none =>
      rw [fire, act, onTask_of_none ht, reported, ht]
      exact hnone
    | some t =>
      rw [fire_act ht, reported_act ht]
      exact t.events_step s.world i
  | interrupt i =>
    cases ht : s.tasks[i]? with
    | none => rw [fire, onTask_of_none ht]; exact hnone
    | some t => rw [fire_interrupt ht]; exact hnone
  | _ => exact hnone

/-- **The sink has accepted the events of the reports that it has not refused.** -/
theorem events_run (s : System σ) (ls : List Label) : (s.run ls).world.sink.events =
    s.world.sink.events ++ Recording.accepted (s.reports ls) := by
  induction ls using List.reverseRecOn with
  | nil => exact (List.append_nil _).symm
  | append_singleton ls l ih =>
    rw [run_snoc, events_fire, ih, reports_snoc, Recording.accepted_append, List.append_assoc]

end System

end Lockstep
