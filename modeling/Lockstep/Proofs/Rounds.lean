import Lockstep.Proofs.Completion
import Lockstep.Proofs.Greetings

/-!
# What a greeter does in its phases

A greeter records one greeting in every round of a phase, and goes through all the rounds that the
phase wants.  Before it records a greeting it adds to the counter.

* `Advance.Brings` : while the run goes on, a step between two phases takes the actor into phases
  that wait for it, and past no other one with something to do;
* `Pace.Outcome` : what comes of a step on the way to the next round of a counted phase;
* `Task.Greets` : what a greeter has recorded by the time it has come to some point of its work;
* `Task.Greets.step` : **a step of a greeter records a greeting, or adds to the counter, when it is
  time to do so.**
-/

namespace Lockstep

/-! ### Into a phase -/

namespace Advance

/-- There is nothing to do for the actor in a phase that it passes. -/
def SkipsIdle (p : Participant) : Advance → Prop
  | passing _ k _ => p.busyPlan? k = none
  | _ => True

/-- Where a step between two phases takes the actor: into a phase that waits for it, or past a phase
with nothing to do. -/
structure Brings (s : Schedule) (r : Barrier × Participant × Progress) : Prop where
  moved : ∀ y, r.2.2 = .moved y → y.SkipsIdle r.2.1
  entered : ∀ plan last, r.2.2 = .entered plan last →
    plan ∈ s.busy ∧ r.2.1.owed = some plan.number ∧ plan.number ≤ last

variable {s : Schedule} {b : Barrier} {p : Participant} {x : Advance} {a h : Nat}

theorem SkipsIdle.congr {p' : Participant} (hx : x.SkipsIdle p) (hp : p'.schedule = p.schedule) :
    x.SkipsIdle p' := by
  cases x with
  | passing last k c => rwa [SkipsIdle, Participant.busyPlan?, hp]
  | _ => trivial

/-- The step takes the actor neither into a phase nor past one. -/
theorem Brings.of_keepsOut {r : Barrier × Participant × Progress}
    (hr : r.2.2.keepsOut .bounding = true) : Brings s r where
  moved y hy := by
    rw [hy] at hr
    cases y with
    | passing last k c => cases hr
    | _ => trivial
  entered plan last he := by
    rw [he] at hr
    cases hr

theorem brings_letIn {last k : Nat} (hnum : s.IsNumbered) (hp : p.schedule = s)
    (hblocking : ∀ plan ∈ s.busy, plan.blocking = true) (hk : k ≤ last) :
    Brings s (letIn b p last k) := by
  cases hadd : addWord? p.next 1 with
  | none =>
    simp only [letIn, hadd]
    exact .of_keepsOut rfl
  | some next =>
    simp only [letIn, hadd]
    split
    · next plan hplan =>
      have hfound : s.find? k = some plan ∧ plan.nop = false := by
        rw [Participant.busyPlan?, Option.filter_eq_some_iff, Bool.not_eq_true'] at hplan
        exact hp ▸ hplan
      have hnumber : plan.number = k := hnum k plan hfound.1
      have hbusy : plan ∈ s.busy := (Schedule.mem_busy_iff hnum).2 (hnumber ▸ hfound)
      rw [if_pos (hblocking plan hbusy)]
      refine ⟨by rintro _ ⟨⟩, fun plan' last' he => ?_⟩
      cases he
      exact ⟨hbusy, by rw [hnumber], hnumber ▸ hk⟩
    · next hplan =>
      exact ⟨by rintro _ ⟨⟩; exact hplan, by rintro _ _ ⟨⟩⟩

/-- **Where a step between two phases takes the actor.** -/
theorem brings_step (hnum : s.IsNumbered) (hp : p.schedule = s)
    (hblocking : ∀ plan ∈ s.busy, plan.blocking = true) (hx : x.Fits b p a h)
    (hskip : x.SkipsIdle p) : Brings s (x.step b p) := by
  cases x with
  | leaving c =>
    simp only [step]
    split
    all_goals exact .of_keepsOut rfl
  | bounding =>
    simp only [step]
    split
    all_goals exact .of_keepsOut rfl
  | choosing last =>
    simp only [step]
    repeat' split
    all_goals exact .of_keepsOut rfl
  | entering last c =>
    have hle : p.next ≤ last := hx.2.2.1
    simp only [step]
    split
    case h_3 => exact brings_letIn hnum hp hblocking hle
    all_goals exact .of_keepsOut rfl
  | passing last k c =>
    have hidle : p.busyPlan? k = none := hskip
    simp only [step, hidle]
    split
    case h_2 => exact ⟨by rintro _ ⟨⟩; exact hidle, by rintro _ _ ⟨⟩⟩
    all_goals exact .of_keepsOut rfl

end Advance

/-! ### From round to round -/

namespace Pace

/-- It is certain that another round comes. -/
def isWeighed : Pace → Bool
  | warmingUp _ => true
  | drawing _ => true
  | yielding => true
  | deciding => true
  | _ => false

/-- What comes of a step on the way to the next of `n` rounds. -/
inductive Outcome (n : Nat) (s : Stint) : Stint → Progress → Prop where
  | blocked : Outcome n s s .blocked
  | moved {p : Pace} (h : p.isWeighed = true → s.iterations < n) : Outcome n s s (.moved p)
  | yielded {p : Pace} (h : p.isWeighed = true → s.iterations < n) : Outcome n s s (.yielded p)
  | granted (h : s.iterations < n) :
      Outcome n s { s with iterations := s.iterations + 1 } (.answered true)
  /-- All rounds have been granted. -/
  | spent (h : s.iterations = n) : Outcome n s s (.answered false)
  | broken {s' : Stint} (message : String) : Outcome n s s' (.broken message)

variable {n : Nat} {b : Barrier} {s : Stint} {p : Pace}

/-- Whether another round comes is still to be found out. -/
theorem Outcome.unweighed (hp : p.isWeighed = false) : Outcome n s s (.moved p) :=
  .moved fun h => by rw [hp] at h; cases h

/-- While the phase is open nobody is sent out of it before the last round. -/
theorem outcome_step (now : Nat) (bucket : Option Bucket) (hopen : s.isHalted b.signal = false)
    (hpolicy : s.plan.policy = .count n) (hle : s.iterations ≤ n)
    (hp : p.isWeighed = true → s.iterations < n) :
    Outcome n s (p.step now b bucket s).2.1 (p.step now b bucket s).2.2 := by
  cases p with
  | asked =>
    simp only [step]
    repeat' split
    all_goals exact .unweighed rfl
  | coolingDown wake =>
    simp only [step]
    split
    · exact .unweighed rfl
    · exact .blocked
  | checking waited =>
    simp only [step, hopen]
    exact .unweighed rfl
  | weighing waited =>
    have hspent : s.isSpent now b = decide (n ≤ s.iterations) := by
      rw [Stint.isSpent, hpolicy]
      rfl
    simp only [step, hspent]
    split
    · next hn => exact .spent (le_antisymm hle (by simpa using hn))
    · next hn =>
      have hlt : s.iterations < n := by simpa using hn
      split <;> exact .moved fun _ => hlt
  | warmingUp wake =>
    simp only [step]
    split
    · exact .moved fun _ => hp rfl
    · exact .blocked
  | drawing d =>
    simp only [step]
    split
    · exact .moved fun _ => hp rfl
    · split
      · exact .blocked
      · exact .moved fun _ => hp rfl
      · exact .moved fun _ => hp rfl
      · exact .broken _
  | yielding => exact .yielded fun _ => hp rfl
  | deciding =>
    simp only [step, hopen]
    split
    · next hhalted => cases hhalted
    · split
      · next k hadd =>
        obtain ⟨rfl, -⟩ := addWord?_eq_some_iff.1 hadd
        exact .granted (hp rfl)
      · exact .broken _

end Pace

/-! ### What a greeter has recorded -/

namespace Store

/-- The store in which the greeters have counted to `n`. -/
def counting (n : Nat) : Store :=
  ⟨SortedMap.empty.insert counterKey ⟨none, .ready 0⟩, #[.counter (wrapSigned n)]⟩

/-- The counter wraps around like a sum that is computed at once. -/
theorem wrapSigned_add (n : Int) : wrapSigned (wrapSigned n + 1) = wrapSigned (n + 1) := by
  have h63 : ((Nat.pow 2 63 : Nat) : Int) = 9223372036854775808 := by decide
  have h64 : ((Nat.pow 2 64 : Nat) : Int) = 18446744073709551616 := by decide
  simp only [wrapSigned, h63, h64]
  omega

theorem bump_counting (n : Nat) : (counting n).bump 0 (.counter 1) = counting (n + 1) := by
  have hbump : (counting n).bump 0 (.counter 1) =
      { counting n with cells := #[.counter (wrapSigned (wrapSigned n + 1))] } := rfl
  rw [hbump, wrapSigned_add]
  rfl

end Store

/-- An event is recorded, or else whoever reports it is told why not. -/
theorem Sink.record_cases (k : Sink) (e : Event) :
    (∃ k', k.record e = (k', .ok ()) ∧ k'.events = k.events ++ [e]) ∨
      ∃ k' err, k.record e = (k', .error err) ∧ k'.events = k.events := by
  have hevents := k.events_record e
  unfold Sink.record at hevents ⊢
  split at hevents
  · next hv => exact .inl ⟨_, rfl, by simpa [hv] using hevents⟩
  · next reason hv => exact .inr ⟨_, _, rfl, by simpa [hv] using hevents⟩
  · next hv => exact .inr ⟨_, _, rfl, by simpa [hv] using hevents⟩

/-- The first counts of a measurement are its counts. -/
theorem Measurement.add?_begin {o : Operation} {phase : Option Nat} {now documents bytes n : Nat}
    {m : Measurement} (h : (begin o phase now).add? documents bytes n = some m) :
    m = { begin o phase now with documents, bytes, iterations := n } := by
  have hzero {k k' : Nat} (hk : addWord? 0 k = some k') : k' = k := by
    have := (addWord?_eq_some_iff.1 hk).1
    omega
  obtain ⟨d, hd, h⟩ := Option.bind_eq_some_iff.1 h
  obtain ⟨y, hy, h⟩ := Option.bind_eq_some_iff.1 h
  obtain ⟨i, hi, h⟩ := Option.bind_eq_some_iff.1 h
  cases h
  rw [hzero hd, hzero hy, hzero hi]

namespace Greeter

/-- The greeter at some point of its work in a phase. -/
def inPhase (g : Greeter) (plan : PhasePlan) (step : Step) : Greeter :=
  { g with message := (g.messages.find? plan.number).getD "", step }

/-- What the greeter is to record in the phases it has been handed. -/
def tales (g : Greeter) (out : List (Option PhasePlan)) : List Event :=
  out.flatMap fun x => x.elim [] g.tale

theorem tales_append_none (g : Greeter) (out : List (Option PhasePlan)) :
    g.tales (out ++ [none]) = g.tales out := by
  simp [tales]

theorem tales_append_some (g : Greeter) (out : List (Option PhasePlan)) (plan : PhasePlan) :
    g.tales (out ++ [some plan]) = g.tales out ++ g.tale plan := by
  simp [tales]

/-- How many greetings have been added to the counter but not recorded: the one under way, or one
that the sink has refused. -/
def owing (g : Greeter) : Nat :=
  match g.step with
  | .counting => 1
  | .reporting => 1
  | .ended (.failed _) => 1
  | _ => 0

/-- The measurement of a greeting that has just begun. -/
def measured (g : Greeter) (plan : PhasePlan) (now : Nat) : Measurement :=
  .begin g.operation (some plan.number) now

end Greeter

namespace Task

/-- How many greetings of a task have been added to the counter but not recorded. -/
def owing (t : Task Mind) : Nat :=
  match t.mind with
  | .greeter g => g.owing
  | _ => 0

theorem owing_eq {t : Task Mind} {g : Greeter} (hm : t.mind = .greeter g) :
    t.owing = g.owing := by
  rw [owing, hm]

/-- Where a greeter is in a phase in which it has recorded `c` greetings. -/
inductive Position (g : Greeter) (plan : PhasePlan) (s : Stint) (t : Task Mind) : Nat → Prop where
  | iterates (hm : t.mind = .greeter (g.inPhase plan .iterating)) (hs : t.stage = .acting) :
      Position g plan s t s.iterations
  | paces {p : Pace} (hm : t.mind = .greeter (g.inPhase plan .iterating))
      (hs : t.stage = .pacing p) (hp : p.isWeighed = true → s.iterations < plan.policy.rounds) :
      Position g plan s t s.iterations
  | begins {c : Nat} (hm : t.mind = .greeter (g.inPhase plan .beginning))
      (hs : t.stage = .acting) (hc : s.iterations = c + 1) : Position g plan s t c
  | bumps {c now : Nat} (hm : t.mind = .greeter (g.inPhase plan .bumping))
      (hs : t.stage = .acting) (hc : s.iterations = c + 1)
      (hx : t.measurement = some (g.measured plan now)) : Position g plan s t c
  | counts {c now : Nat} (hm : t.mind = .greeter (g.inPhase plan .counting))
      (hs : t.stage = .acting) (hc : s.iterations = c + 1)
      (hx : t.measurement = some (g.measured plan now)) : Position g plan s t c
  | reports {c now : Nat} (hm : t.mind = .greeter (g.inPhase plan .reporting))
      (hs : t.stage = .acting) (hc : s.iterations = c + 1)
      (hx : t.measurement = some { g.measured plan now with
        documents := 1, bytes := ((g.messages.find? plan.number).getD "").utf8ByteSize }) :
      Position g plan s t c

/-- The task works in a phase, and has recorded `c` greetings there. -/
structure Works (g : Greeter) (plan : PhasePlan) (t : Task Mind) (c : Nat) : Prop where
  counted : plan.IsCounted
  /-- The phase waits for the actor. -/
  owed : ∃ p, t.loop = some p ∧ p.owed = some plan.number
  position : ∃ s, t.stint = some s ∧ s.plan = plan ∧ plan.number ≤ s.last ∧
    s.iterations ≤ plan.policy.rounds ∧ Position g plan s t c

/-- The actor has failed, and is about to abort the run. -/
inductive IsFailing (t : Task Mind) : Prop where
  | ends {g : Greeter} {e : ActorError} (hm : t.mind = .greeter g)
      (hg : g.step = .ended (.failed e)) (hs : t.stage = .acting)
  | fails {e : ActorError} (hs : t.stage = .judging (.ended (.failed e)))
  | panics {message : String} (hs : t.stage = .judging (.ended (.panicked message)))
  | reads {r : Result} {message : String} (hs : t.stage = .reading r message)
  | accuses {r : Result} {f : Failure} (hs : t.stage = .accusing r f)

/-- What a task has recorded that is built as `g` and has been handed `out`. -/
inductive Greets (g : Greeter) (t : Task Mind) (out : List (Option PhasePlan))
    (events : List Event) : Prop where
  | seeks {message : String} {p : Participant}
      (hm : t.mind = .greeter { g with message, step := .seeking }) (hp : t.loop = some p)
      (hs : t.stage = .waiting ∨ t.stage = .acting ∨
        ∃ x, t.stage = .advancing x ∧ x.SkipsIdle p)
      (he : events = g.tales out) : Greets g t out events
  | works {plan : PhasePlan} {c : Nat} {before : List (Option PhasePlan)}
      (h : t.Works g plan c) (hout : out = before ++ [some plan])
      (he : events = g.tales before ++ List.replicate c (g.stamp plan.number)) :
      Greets g t out events
  | ends {message : String}
      (hm : t.mind = .greeter { g with message, step := .ended .completed })
      (hs : t.stage = .acting ∨ t.stage.outcome? = some (.ended .completed))
      (hnone : none ∈ out) (he : events = g.tales out) : Greets g t out events
  | fails (h : t.IsFailing) : Greets g t out events

/-- Beyond the task itself a step adds `n` to the counter of the greeters, and records events. -/
structure Adds (g : Greeter) (w : World) (t : Task Mind) (r : Stepped Mind) (n : Nat)
    (es : List Event) : Prop where
  store : ∀ k, w.store = .counting k → r.world.store = .counting (k + n)
  events : r.world.sink.events = w.sink.events ++ es
  ids : ∀ e ∈ es, e.id = g.operation.id
  owing : t.owing + n = r.task.owing + es.length

/-- What is recorded goes on to be what the task is to record. -/
def GoesOn (g : Greeter) (w : World) (t : Task Mind) (out : List (Option PhasePlan))
    (events : List Event) (r : Stepped Mind) : Prop :=
  ∃ n es, t.Adds g w r n es ∧ r.task.Greets g out (events ++ es.map Event.timeless)

variable {g : Greeter} {w : World} {t : Task Mind} {r : Stepped Mind}
  {out : List (Option PhasePlan)} {events : List Event}

theorem mind_tell {u : Greeter} (hm : t.mind = .greeter u) (now : Nat) (r : Reply) :
    (t.tell now r).mind = .greeter (u.hear r) := by
  rw [tell, hm]
  rfl

/-- A step that the others do not see. -/
theorem GoesOn.quiet (hstore : r.world.store = w.store) (hsink : r.world.sink = w.sink)
    (howing : r.task.owing = t.owing) (h : r.task.Greets g out events) :
    GoesOn g w t out events r := by
  refine ⟨0, [], ⟨fun k hk => hstore.trans hk, ?_, List.forall_mem_nil _, ?_⟩, by simpa using h⟩
  · rw [hsink, List.append_nil]
  · rw [howing, List.length_nil]

/-- A step that the others do not see, and that tells the greeter something. -/
theorem GoesOn.told {w' : World} {t' : Task Mind} {u : Greeter} {now : Nat} {y : Reply}
    (hm : t.mind = .greeter u) (hm' : t'.mind = .greeter u) (hstore : w'.store = w.store)
    (hsink : w'.sink = w.sink) (howing : (u.hear y).owing = u.owing)
    (h : (t'.tell now y).Greets g out events) :
    GoesOn g w t out events (moves w' (t'.tell now y)) := by
  refine .quiet hstore hsink ?_ h
  rw [owing_eq hm, ← howing]
  exact owing_eq (mind_tell hm' now y)

/-! ### Between two phases -/

theorem goesOn_advance {s : Schedule} {message : String} {p : Participant} {x : Advance}
    (hm : t.mind = .greeter { g with message, step := .seeking }) (hp : t.loop = some p)
    (hs : t.stage = .advancing x) (hskip : x.SkipsIdle p) (he : events = g.tales out)
    (hl : t.lifecycle = .running) (hnum : s.IsNumbered) (hschedule : p.schedule = s)
    (hcounted : ∀ plan ∈ s.busy, plan.IsCounted) (hr : w.barrier.signal.halt = .running)
    {a h : Nat} (hx : x.Fits w.barrier p a h) :
    GoesOn g w t (out ++ (t.handout? w.barrier).toList) events (t.advance w x) := by
  have hbrings := Advance.brings_step hnum hschedule (fun plan hplan => (hcounted plan hplan).1)
    hx hskip
  have hkeeps := (Advance.keeps_step w.barrier p x).schedule
  have hfailed : ∀ e, (x.step w.barrier p).2.2 ≠ .failed e := by
    intro e he
    have := Advance.isAborted_of_failed he
    rw [Barrier.isAborted, hr] at this
    cases this
  have hout : t.handout? w.barrier = (x.step w.barrier p).2.2.handout? := by
    simp only [handout?, hs, hp]
  rw [hout]
  simp only [advance, hp]
  generalize x.step w.barrier p = y at hbrings hkeeps hfailed ⊢
  obtain ⟨b, p', r⟩ := y
  cases r with
  | blocked =>
    refine .quiet rfl rfl rfl ?_
    rw [show (out ++ (Advance.Progress.handout? .blocked).toList) = out from List.append_nil _]
    exact .seeks hm rfl (.inr (.inr ⟨x, hs, hskip.congr hkeeps⟩)) he
  | moved y =>
    refine .quiet rfl rfl rfl ?_
    rw [show (out ++ (Advance.Progress.handout? (.moved y)).toList) = out from List.append_nil _]
    exact .seeks hm rfl (.inr (.inr ⟨y, rfl, hbrings.moved y rfl⟩)) he
  | entered plan last =>
    obtain ⟨hbusy, howed, hlast⟩ := hbrings.entered plan last rfl
    refine .told hm hm rfl rfl rfl (.works ⟨hcounted plan hbusy, ⟨p', rfl, howed⟩, _, rfl, rfl,
      hlast, Nat.zero_le _, .iterates (mind_tell hm _ _) rfl⟩ rfl ?_)
    rw [he]
    exact (List.append_nil _).symm
  | «over» =>
    exact .told hm hm rfl rfl rfl (.ends (mind_tell hm _ _) (.inl rfl)
      (List.mem_append_right _ (List.mem_singleton_self _))
      (he.trans (g.tales_append_none out).symm))
  | failed e => exact absurd rfl (hfailed e)
  | broken message =>
    refine .quiet (by simp) (by simp) ?_ (.fails ?_)
    · simp [conclude, hl, Lifecycle.terminate, moves, owing]
    · simp only [conclude, hl, Lifecycle.terminate, moves]
      exact .panics rfl

/-! ### In a phase -/

omit r in
theorem shared_putBucket (w : World) (block phase : Nat) (b : Option Bucket) :
    (b.elim w (w.putBucket block phase)).store = w.store ∧
      (b.elim w (w.putBucket block phase)).sink = w.sink := by
  cases b <;> exact ⟨rfl, rfl⟩

theorem IsFailing.conclude (hl : t.lifecycle = .running) (w : World) (message : String) :
    (conclude w t (.panicked message)).task.IsFailing ∧
      (Task.conclude w t (.panicked message)).task.mind = t.mind := by
  simp only [Task.conclude, hl, Lifecycle.terminate, moves]
  exact ⟨.panics rfl, trivial⟩

section

variable {plan : PhasePlan} {c : Nat} {before : List (Option PhasePlan)} {s : Stint}

/-- A greeter on its way to the next round. -/
theorem goesOn_pace {p : Pace} (hcounted : plan.IsCounted)
    (howed : ∃ q, t.loop = some q ∧ q.owed = some plan.number) (hst : t.stint = some s)
    (hplan : s.plan = plan) (hlast : plan.number ≤ s.last) (hle : s.iterations ≤ plan.policy.rounds)
    (hm : t.mind = .greeter (g.inPhase plan .iterating)) (hs : t.stage = .pacing p)
    (hp : p.isWeighed = true → s.iterations < plan.policy.rounds)
    (hl : t.lifecycle = .running) (hr : w.barrier.signal.halt = .running)
    (hphase : w.barrier.signal.phase = plan.number) (hout : out = before ++ [some plan])
    (he : events = g.tales before ++ List.replicate s.iterations (g.stamp plan.number)) :
    GoesOn g w t out events (t.pace w p) := by
  have hopen : s.isHalted w.barrier.signal = false := by
    simp [Stint.isHalted, hr, hphase, hplan, hcounted.1, hlast]
  have hstep := Pace.outcome_step w.now
    (w.bucket? (t.loop.elim 0 Participant.block) s.plan.number) hopen (hplan ▸ hcounted.2) hle hp
  have hsame := plan_paceStep w.now w.barrier
    (w.bucket? (t.loop.elim 0 Participant.block) s.plan.number) s p
  simp only [pace, hst]
  generalize Pace.step _ _ _ s p = y at hstep hsame ⊢
  obtain ⟨bucket, s', r⟩ := y
  obtain ⟨hstore, hsink⟩ :=
    shared_putBucket w (t.loop.elim 0 Participant.block) s.plan.number bucket
  cases hstep with
  | blocked =>
    exact .quiet hstore hsink rfl (.works ⟨hcounted, howed, _, rfl, hplan, hlast, hle,
      .paces hm hs hp⟩ hout he)
  | moved hp' =>
    exact .quiet hstore hsink rfl (.works ⟨hcounted, howed, _, rfl, hplan, hlast, hle,
      .paces hm rfl hp'⟩ hout he)
  | yielded hp' =>
    exact .quiet hstore hsink rfl (.works ⟨hcounted, howed, _, rfl, hplan, hlast, hle,
      .paces hm rfl hp'⟩ hout he)
  | granted hlt =>
    exact .told hm hm hstore hsink rfl (.works ⟨hcounted, howed, _, rfl, hplan, hlast, hlt,
      .begins (mind_tell hm _ _) rfl rfl⟩ hout he)
  | spent hall =>
    obtain ⟨q, hq, -⟩ := howed
    refine .told hm hm hstore hsink rfl (.seeks (mind_tell hm _ _) hq (.inr (.inl rfl)) ?_)
    rw [he, hout, g.tales_append_some, hall]
    rfl
  | broken message =>
    obtain ⟨hfails, hmind⟩ := IsFailing.conclude (t := { t with stint := some s' }) hl
      (bucket.elim w (w.putBucket (t.loop.elim 0 Participant.block) s.plan.number)) message
    refine .quiet (by simpa using hstore) (by simpa using hsink) ?_ (.fails hfails)
    simp only [owing, hmind]

/-- In the same round of the phase the greeter may go on at another point. -/
def KeepsRound (g : Greeter) (plan : PhasePlan) (s : Stint) (t : Task Mind) : Prop :=
  ∀ {t' : Task Mind} {c : Nat}, t'.loop = t.loop → t'.stint = t.stint →
    Position g plan s t' c → t'.Works g plan c

/-- The document is counted into the operation. -/
theorem goesOn_counts {began : Nat} (hround : KeepsRound g plan s t)
    (hm : t.mind = .greeter (g.inPhase plan .counting)) (hs : t.stage = .acting)
    (hc : s.iterations = c + 1) (hx : t.measurement = some (g.measured plan began))
    (hl : t.lifecycle = .running) (hout : out = before ++ [some plan])
    (he : events = g.tales before ++ List.replicate c (g.stamp plan.number)) :
    GoesOn g w t out events (t.step w) := by
  rw [step_acting hs, hm]
  change GoesOn g w t out events (t.obey w (.count 1 _ 0))
  simp only [obey, hx]
  split
  · next m hadd =>
    refine .told hm hm rfl rfl rfl (.works (hround rfl rfl ?_) hout he)
    have hadded : some m = some { g.measured plan began with
        documents := 1, bytes := ((g.messages.find? plan.number).getD "").utf8ByteSize } := by
      rw [Measurement.add?_begin hadd]
      rfl
    exact .reports (mind_tell hm _ _) rfl hc hadded
  · obtain ⟨hfails, hmind⟩ := IsFailing.conclude hl w overflowText
    refine .quiet (by simp) (by simp) ?_ (.fails hfails)
    simp only [owing, hmind]

/-- The operation is recorded with its stamp, or else the greeter fails. -/
theorem goesOn_reports {began : Nat} (hround : KeepsRound g plan s t)
    (hm : t.mind = .greeter (g.inPhase plan .reporting)) (hs : t.stage = .acting)
    (hc : s.iterations = c + 1)
    (hx : t.measurement = some { g.measured plan began with
      documents := 1, bytes := ((g.messages.find? plan.number).getD "").utf8ByteSize })
    (hout : out = before ++ [some plan])
    (he : events = g.tales before ++ List.replicate c (g.stamp plan.number)) :
    GoesOn g w t out events (t.step w) := by
  rw [step_acting hs, hm]
  change GoesOn g w t out events (t.obey w (.report .success))
  simp only [obey, hx, Sink.report]
  generalize hev : Measurement.event _ _ _ = e
  have hstamp : e.timeless = g.stamp plan.number := by
    rw [← hev]
    rfl
  have hm' : ({ t with measurement := none } : Task Mind).mind = _ := hm
  obtain ⟨k, hrec, hevents⟩ | ⟨k, err, hrec, hevents⟩ := w.sink.record_cases e
  · simp only [hrec]
    refine ⟨0, [e], ⟨fun k hk => hk, hevents, fun e' he' => ?_, ?_⟩, ?_⟩
    · rw [List.mem_singleton.1 he', ← hev]
      rfl
    · rw [owing_eq hm]
      exact (congrArg (· + 1) (owing_eq (mind_tell hm' w.now (.recorded (.ok ()))))).symm
    · refine .works (hround rfl rfl (.iterates (mind_tell hm' _ _) rfl)) hout ?_
      rw [he, hc, List.replicate_succ', List.append_assoc]
      simp [hstamp]
  · simp only [hrec]
    refine ⟨0, [], ⟨fun k hk => hk, hevents.trans (List.append_nil _).symm,
      List.forall_mem_nil _, ?_⟩, ?_⟩
    · rw [owing_eq hm]
      exact (owing_eq (mind_tell hm' w.now (.recorded (.error err)))).symm
    · exact .fails (.ends (mind_tell hm' _ _) rfl rfl)

/-- A greeter in a phase. -/
theorem goesOn_works (h : t.Works g plan c) (hzero : g.counter = 0) (hl : t.lifecycle = .running)
    (hr : w.barrier.signal.halt = .running) (hphase : w.barrier.signal.phase = plan.number)
    (hout : out = before ++ [some plan])
    (he : events = g.tales before ++ List.replicate c (g.stamp plan.number)) :
    GoesOn g w t out events (t.step w) := by
  obtain ⟨hcounted, howed, s, hst, hplan, hlast, hle, hpos⟩ := h
  have hround : KeepsRound g plan s t := fun hl hs hpos =>
    ⟨hcounted, hl ▸ howed, s, hs ▸ hst, hplan, hlast, hle, hpos⟩
  cases hpos with
  | iterates hm hs =>
    rw [step_acting hs, hm]
    change GoesOn g w t out events (t.obey w .iterate)
    simp only [obey, hst]
    exact .quiet rfl rfl rfl (.works (hround rfl hst.symm (.paces hm rfl (by rintro ⟨⟩))) hout he)
  | paces hm hs hp =>
    simp only [step, hs]
    exact goesOn_pace hcounted howed hst hplan hlast hle hm hs hp hl hr hphase hout he
  | begins hm hs hc =>
    rw [step_acting hs, hm]
    refine .told hm hm rfl rfl rfl (.works (hround rfl rfl ?_) hout he)
    have hbegun : some (Measurement.begin g.operation (some w.barrier.currentPhase) w.now) =
        some (g.measured plan w.now) := by
      rw [Greeter.measured, ← hphase]
      rfl
    exact .bumps (mind_tell hm _ _) rfl hc hbegun
  | bumps hm hs hc hx =>
    rw [step_acting hs, hm]
    refine ⟨1, [], ⟨fun k hk => ?_, (List.append_nil _).symm, List.forall_mem_nil _, ?_⟩, ?_⟩
    · change w.store.bump g.counter (.counter 1) = .counting (k + 1)
      rw [hzero, hk, Store.bump_counting]
    · rw [owing_eq hm]
      exact (owing_eq (mind_tell hm _ _)).symm
    · rw [List.map_nil, List.append_nil]
      exact .works (hround rfl rfl (.counts (mind_tell hm _ _) rfl hc hx)) hout he
  | counts hm hs hc hx => exact goesOn_counts hround hm hs hc hx hl hout he
  | reports hm hs hc hx => exact goesOn_reports hround hm hs hc hx hout he

end

/-! ### At the end -/

theorem IsFailing.isAdvancing (h : t.IsFailing) : t.stage.isAdvancing = false := by
  cases h <;> simp only [Stage.isAdvancing, *]

/-- An actor that has failed aborts the run. -/
theorem IsFailing.step (h : t.IsFailing) (hl : t.lifecycle = t.stage.lifecycle)
    (hb : w.barrier.IsHonest) (hr : w.barrier.signal.halt = .running)
    (hr' : (t.step w).world.barrier.signal.halt = .running) :
    (t.step w).task.IsFailing ∧ (t.step w).task.mind = t.mind ∧
      (t.step w).world.store = w.store ∧ (t.step w).world.sink = w.sink := by
  have hnotAborted : w.barrier.isAborted = false := by simp [Barrier.isAborted, hr]
  cases h with
  | @ends u e hm hg hs =>
    have hask : Behaviour.ask t.mind = .finish (.failed e) := by
      rw [hm]
      change u.ask = _
      rw [Greeter.ask, hg]
    have hrunning : t.lifecycle = .running := by rw [hl, hs]; rfl
    have hstep : t.step w = moves w { t with
        lifecycle := .terminated, stage := .judging (.ended (.failed e)) } := by
      rw [step_acting hs, hask]
      simp only [obey, Task.conclude, hrunning, Lifecycle.terminate]
    rw [hstep]
    exact ⟨.fails rfl, rfl, rfl, rfl⟩
  | @fails e hs =>
    have hstep : t.step w = moves w { t with
        stage := .reading (.ended (.failed e)) e.message } := by
      simp only [Task.step, hs, accusation, hnotAborted, Bool.and_false]
      rfl
    rw [hstep]
    exact ⟨.reads rfl, rfl, rfl, rfl⟩
  | @panics message hs =>
    have hstep : t.step w = moves w { t with
        stage := .reading (.ended (.panicked message)) ("panicked: " ++ message) } := by
      simp only [Task.step, hs, accusation]
    rw [hstep]
    exact ⟨.reads rfl, rfl, rfl, rfl⟩
  | reads hs =>
    simp only [Task.step, hs]
    exact ⟨.accuses rfl, rfl, rfl, rfl⟩
  | @accuses r f hs =>
    simp only [Task.step, hs] at hr'
    have := (hb.abort f).1
    rw [show (w.barrier.abort f).signal.halt = .running from hr'] at this
    cases this

/-! ### One step -/

section

variable {plan : PhasePlan} {c : Nat} {s : Schedule} {a h : Nat}

theorem Position.isAtWork {s : Stint} (hpos : Position g plan s t c) : t.stage.isAtWork = true := by
  cases hpos <;> simp only [Stage.isAtWork, *]

/-- The phase stays open as long as the actor works in it. -/
theorem Works.phase_eq (hw : t.Works g plan c) (hf : t.Fits w.barrier a h)
    (hc : w.barrier.Counts a h) (hr : w.barrier.signal.halt = .running) :
    w.barrier.signal.phase = plan.number := by
  obtain ⟨p, hp, howed⟩ := hw.owed
  obtain ⟨_, _, _, _, _, hpos⟩ := hw.position
  have hstands := (hf.standing hr p hp).2
  rw [Stage.fits_of_isAtWork hpos.isAtWork] at hstands
  rcases hstands with hfree | ⟨k, hk, htoken⟩
  · rw [hfree.owed] at howed
    cases howed
  · rw [hk] at howed
    cases howed
    rw [(hc.isOpen_eq_true (by rw [htoken.arrivals, htoken.handbacks]) htoken.opened).2,
      htoken.handbacks]

/-- **A step of a greeter adds to the counter, or records a greeting, when it is time to do so**;
this holds while the run goes on, whatever the others do. -/
theorem Greets.step (hg : t.Greets g out events) (hzero : g.counter = 0) (hnum : s.IsNumbered)
    (hcounted : ∀ plan ∈ s.busy, plan.IsCounted)
    (hschedule : ∀ p, t.loop = some p → p.schedule = s) (hreg : t.IsRegular)
    (hb : w.barrier.IsHonest) (hc : w.barrier.Counts a h) (hf : t.Fits w.barrier a h)
    (hr : w.barrier.signal.halt = .running)
    (hr' : (t.step w).world.barrier.signal.halt = .running) :
    GoesOn g w t (out ++ (t.handout? w.barrier).toList) events (t.step w) := by
  have hlife := hreg.lifecycle
  -- nothing is handed out but between two phases
  have hquiet (hs : t.stage.isAdvancing = false) (h : GoesOn g w t out events (t.step w)) :
      GoesOn g w t (out ++ (t.handout? w.barrier).toList) events (t.step w) := by
    rw [handout?_of_not_advancing hs]
    simpa using h
  cases hg with
  | @seeks message p hm hp hs he =>
    rcases hs with hs | hs | ⟨x, hs, hskip⟩
    · refine hquiet (by rw [hs]; rfl) ?_
      have hnew : t.lifecycle = .constructed := by rw [hlife, hs]; rfl
      simp only [Task.step, hs, hnew, Lifecycle.start]
      exact .quiet rfl rfl rfl (.seeks hm hp (.inr (.inl rfl)) he)
    · refine hquiet (by rw [hs]; rfl) ?_
      rw [step_acting hs, hm]
      change GoesOn g w t out events (t.obey w .nextPhase)
      simp only [obey, hp]
      refine .quiet rfl rfl rfl (.seeks hm rfl (.inr (.inr ⟨_, rfl, ?_⟩)) he)
      unfold Advance.first
      split <;> trivial
    · have hx := (hf.standing hr p hp).2
      rw [hs] at hx hlife
      have hadvance : t.step w = t.advance w x := by simp only [Task.step, hs]
      rw [hadvance]
      exact goesOn_advance hm hp hs hskip he hlife hnum (hschedule p hp) hcounted hr hx
  | works hw hout he =>
    obtain ⟨_, _, _, _, _, hpos⟩ := hw.position
    have hwork := hpos.isAtWork
    rw [Stage.lifecycle_of_isAtWork hwork] at hlife
    refine hquiet (Stage.isAdvancing_of_isAtWork hwork) ?_
    exact goesOn_works hw hzero hlife hr (hw.phase_eq hf hc hr) hout he
  | ends hm hs hnone he =>
    rcases hs with hs | hs
    · refine hquiet (by rw [hs]; rfl) ?_
      have hrunning : t.lifecycle = .running := by rw [hlife, hs]; rfl
      rw [step_acting hs, hm]
      change GoesOn g w t out events (conclude w t .completed)
      simp only [conclude, hrunning, Lifecycle.terminate]
      exact .quiet rfl rfl rfl (.ends hm (.inr rfl) hnone he)
    · obtain ⟨hs', hmind, hstore, hsink⟩ := step_of_outcome (w := w) hs
      refine hquiet (Stage.isAdvancing_of_outcome? hs) (.quiet hstore hsink ?_ ?_)
      · rw [owing, hmind, owing]
      · exact .ends (hmind.trans hm) (.inr hs') hnone he
  | fails hfails =>
    obtain ⟨hfails', hmind, hstore, hsink⟩ := hfails.step hlife hb hr hr'
    refine hquiet hfails.isAdvancing (.quiet hstore hsink ?_ (.fails hfails'))
    rw [owing, hmind, owing]

end

end Task

end Lockstep
