import Lockstep.Proofs.Yielding

/-!
# Answers

What an actor has been told in its phase, whenever it asked for another iteration.

* `Task.verdict?` : the answer that comes with the next step of a task;
* `System.answers` : all answers since the actor was handed its phase;
* `Stint.Declines` : from here on an actor is granted no iteration of its phase any more;
* `Stint.Answered` : what the answers say of an actor's share of a phase;
* `System.answers_of_phase` : **an actor is granted iterations first and refused them afterwards**,
  and is refused the first one for the reason its policy gives.
-/

namespace Lockstep

/-! ### What has been exhausted stays so -/

/-- Whoever else may do what, the barrier and the clock only go on. -/
structure World.LeadsTo (w w' : World) : Prop where
  now : w.now ≤ w'.now
  phase : w.barrier.signal.phase ≤ w'.barrier.signal.phase
  running : w'.barrier.signal.halt = .running → w.barrier.signal.halt = .running
  endAsked : ∀ k, w.barrier.isEndAsked k = true → w'.barrier.isEndAsked k = true

/-- With an iteration that is granted it is counted. -/
theorem Pace.stint_of_granted {now : Nat} {b : Barrier} {bucket : Option Bucket} {x : Stint}
    {p : Pace} (h : (p.step now b bucket x).2.2 = .answered true) :
    (p.step now b bucket x).2.1 = { x with iterations := x.iterations + 1 } := by
  obtain ⟨rfl, hgoesOn, hlimit⟩ := answered_true_iff.1 h
  have hadd : addWord? x.iterations 1 = some (x.iterations + 1) := if_pos hlimit
  simp only [step, hgoesOn, hadd, Bool.false_eq_true, if_false]

namespace Stint

/-- The run has been halted, or has gone past the phase. -/
def IsPast (x : Stint) (s : Signal) : Prop :=
  s.halt ≠ .running ∨ x.last < s.phase ∨ x.plan.blocking = false ∧ x.plan.number < s.phase

theorem IsPast.isHalted {x : Stint} {s : Signal} (h : x.IsPast s) : x.isHalted s = true := by
  rcases h with h | h | ⟨hb, hlt⟩
  · simp [Stint.isHalted, h]
  · simp [Stint.isHalted, h]
  · simp [Stint.isHalted, hb, hlt.ne']

/-- A phase that has opened and is not open any more is past. -/
theorem isPast_of_isHalted {x : Stint} {b : Barrier} (h : x.isHalted b.signal = true)
    (hopened : x.plan.number < b.opened) : x.IsPast b.signal := by
  by_contra hpast
  simp only [IsPast, not_or, not_not, not_and, not_lt] at hpast
  obtain ⟨hrunning, hlast, hphase⟩ := hpast
  simp only [isHalted, hrunning, ne_eq, not_true_eq_false, decide_false, Bool.false_or,
    hlast.not_gt, Bool.and_eq_true, Bool.not_eq_true', Bool.and_eq_false_iff,
    decide_eq_false_iff_not] at h
  obtain ⟨hb, h⟩ := h
  have hle := hphase hb
  have hopen := b.signal.isOpen.toNat_le
  rw [Barrier.opened] at hopened
  rcases h with h | h
  · omega
  · rw [h, Bool.toNat_false] at hopened
    omega

/-- No further iteration of the phase is to come. -/
def IsOver (x : Stint) (w : World) : Prop :=
  x.IsPast w.barrier.signal ∨ x.isSpent w.now w.barrier = true

theorem IsOver.mono {x : Stint} {w w' : World} (h : x.IsOver w) (hw : w.LeadsTo w') :
    x.IsOver w' := by
  rcases h with (h | h | ⟨hb, h⟩) | h
  · exact .inl (.inl (mt hw.running h))
  · exact .inl (.inr (.inl (h.trans_le hw.phase)))
  · exact .inl (.inr (.inr ⟨hb, h.trans_le hw.phase⟩))
  · exact .inr (isSpent_mono (.refl x) hw.now hw.endAsked h)

/-- From this point of a question, or before the next one, an actor is granted no iteration of its
phase any more. -/
def Declines (x : Stint) (w : World) : Option Pace → Prop
  | none => x.IsOver w
  | some (.weighing _) => x.isSpent w.now w.barrier = true
  | some p => p.isAllowed = false ∧ x.IsOver w

variable {x : Stint} {w w' : World} {p q : Pace} {bucket : Option Bucket}

theorem Declines.isOver {p : Option Pace} (h : x.Declines w p) : x.IsOver w := by
  unfold Declines at h
  split at h
  · exact h
  · exact .inr h
  · exact h.2

theorem Declines.isAllowed (h : x.Declines w (some p)) : p.isAllowed = false := by
  cases p <;> first | rfl | exact h.1

theorem Declines.mono {p : Option Pace} (h : x.Declines w p) (hw : w.LeadsTo w') :
    x.Declines w' p := by
  unfold Declines at h ⊢
  split at h
  · exact h.mono hw
  · exact isSpent_mono (.refl x) hw.now hw.endAsked h
  · exact ⟨h.1, h.2.mono hw⟩

/-- What a step of a question comes to that will be answered with no: a pause after the iteration
before is not over yet, the question comes nearer to its answer, or it is answered. -/
inductive Refuses (x : Stint) (w : World) (p : Pace) : Pace.Progress → Prop where
  | waits {wake : Nat} (hp : p = .coolingDown wake) (hwake : w.now < wake) : x.Refuses w p .blocked
  | nears {q : Pace} (hrank : q.rank < p.rank) (h : x.Declines w (some q)) :
    x.Refuses w p (.moved q)
  | answers : x.Refuses w p (.answered false)

/-- **Such a question comes to its answer, and that is no.** -/
theorem Declines.refuses (h : x.Declines w (some p)) (bucket : Option Bucket) :
    x.Refuses w p (p.step w.now w.barrier bucket x).2.2 := by
  cases p with
  | asked =>
    simp only [Pace.step]
    repeat' split
    exacts [.nears (by decide : 6 < 7) ⟨rfl, h.isOver⟩, .nears (by decide : 5 < 7) ⟨rfl, h.isOver⟩,
      .nears (by decide : 5 < 7) ⟨rfl, h.isOver⟩]
  | coolingDown wake =>
    simp only [Pace.step]
    split
    · exact .nears (by decide : 5 < 6) ⟨rfl, h.isOver⟩
    · next hwake => exact .waits rfl (Nat.not_le.1 hwake)
  | checking waited =>
    simp only [Pace.step]
    split
    · exact .answers
    · next hgoesOn =>
      have hspent := h.2.resolve_left fun hpast => hgoesOn hpast.isHalted
      exact .nears (by decide : 4 < 5) hspent
  | weighing waited =>
    have hspent : x.isSpent w.now w.barrier = true := h
    simp only [Pace.step, hspent, if_true]
    exact .answers
  | _ => cases h.isAllowed

/-! ### The answers in a phase -/

/-- What the answers so far say of an actor's share of a phase, at a point of a question or outside
of one. -/
structure Answered (x : Stint) (as : List Bool) (w : World) (p : Option Pace) : Prop where
  answers : ∃ k, as = List.replicate x.iterations true ++ List.replicate k false
  within : ∀ n, x.plan.policy = .count n → x.iterations ≤ n
  /-- In the pauses before an iteration there is one to come. -/
  room : ∀ q, p = some q → q.isAllowed = true → ∀ n, x.plan.policy = .count n → x.iterations < n
  declines : false ∈ as → x.Declines w p

variable {as : List Bool}

theorem answered_begin (plan : PhasePlan) (last now : Nat) (w : World) :
    (begin plan last now).Answered [] w none where
  answers := ⟨0, rfl⟩
  within n _ := Nat.zero_le n
  room := by rintro q ⟨⟩
  declines := by rintro ⟨⟩

theorem Answered.mono {p : Option Pace} (h : x.Answered as w p) (hw : w.LeadsTo w') :
    x.Answered as w' p :=
  { h with declines := fun hfalse => (h.declines hfalse).mono hw }

/-- Outside of a question less is known. -/
theorem Answered.aside {p q : Option Pace} (h : x.Answered as w p)
    (hq : q = none ∨ q = some .asked) : x.Answered as w q where
  answers := h.answers
  within := h.within
  room := by rcases hq with rfl | rfl <;> rintro _ ⟨⟩ ⟨⟩
  declines hfalse := by
    have hover := (h.declines hfalse).isOver
    rcases hq with rfl | rfl
    · exact hover
    · exact ⟨rfl, hover⟩

/-- A step of a question that does not end it keeps what is known. -/
theorem Answered.next (h : x.Answered as w (some p))
    (hq : (p.step w.now w.barrier bucket x).2.2.next? p = some q) :
    x.Answered as w (some q) where
  answers := h.answers
  within := h.within
  room := by
    rintro _ ⟨⟩ hallowed n hn
    have hfrom (hmoved : (p.step w.now w.barrier bucket x).2.2 = .moved q ∨
        (p.step w.now w.barrier bucket x).2.2 = .yielded q) : x.iterations < n := by
      rcases Pace.isAllowed_step hmoved hallowed with hp | ⟨-, hunspent⟩
      · exact h.room p rfl hp n hn
      · simpa [isSpent, hn, Policy.isSpent] using hunspent
    cases hr : (p.step w.now w.barrier bucket x).2.2 with
    | blocked =>
      rw [hr] at hq
      cases hq
      exact h.room p rfl hallowed n hn
    | moved q' =>
      rw [hr] at hq hfrom
      cases hq
      exact hfrom (.inl rfl)
    | yielded q' =>
      rw [hr] at hq hfrom
      cases hq
      exact hfrom (.inr rfl)
    | answered granted => rw [hr] at hq; cases hq
    | broken message => rw [hr] at hq; cases hq
  declines hfalse := by
    have hrefuses := (h.declines hfalse).refuses bucket
    generalize (p.step w.now w.barrier bucket x).2.2 = r at hq hrefuses
    cases hrefuses with
    | waits hp hwake =>
      cases hq
      exact h.declines hfalse
    | nears hrank hdeclines =>
      cases hq
      exact hdeclines
    | answers => cases hq

/-- A question is answered with no because the run has gone past the phase, or because the policy
leaves nothing to do. -/
theorem isHalted_or_isSpent {now : Nat} {b : Barrier}
    (h : (p.step now b bucket x).2.2 = .answered false) :
    x.isHalted b.signal = true ∨ x.isSpent now b = true := by
  cases p with
  | checking waited =>
    simp only [Pace.step] at h
    split at h
    · exact .inl ‹_›
    · cases h
  | weighing waited =>
    simp only [Pace.step] at h
    repeat' split at h
    all_goals first | exact .inr ‹_› | cases h
  | deciding =>
    simp only [Pace.step] at h
    repeat' split at h
    all_goals first | exact .inl ‹_› | cases h
  | _ =>
    simp only [Pace.step] at h
    repeat' split at h
    all_goals cases h

/-- The reason for which an actor is refused an iteration of a phase that waits for it. -/
def HasReason (x : Stint) (now : Nat) (endAsked : Prop) : Prop :=
  match x.plan.policy with
  | .count n => x.iterations = n
  | .time d => d.nanos ≤ (Duration.between x.started now).nanos
  | .countAndTime n d => n ≤ x.iterations ∧ d.nanos ≤ (Duration.between x.started now).nanos
  | .untilSignaled => endAsked
  | .unbounded => False

theorem hasReason_of_isSpent {now : Nat} {b : Barrier} {endAsked : Prop}
    (h : x.isSpent now b = true) (hwithin : ∀ n, x.plan.policy = .count n → x.iterations ≤ n)
    (hasked : b.isEndAsked x.plan.number = true → endAsked) : x.HasReason now endAsked := by
  unfold isSpent at h
  unfold HasReason
  cases hp : x.plan.policy with
  | count n =>
    rw [hp] at h
    exact (hwithin n hp).antisymm (of_decide_eq_true h)
  | time d =>
    rw [hp] at h
    exact of_decide_eq_true h
  | countAndTime n d =>
    rw [hp] at h
    simpa [Policy.isSpent] using h
  | untilSignaled =>
    rw [hp] at h
    exact hasked h
  | unbounded => rw [hp] at h; cases h

/-- **An answer keeps what is known.** -/
theorem Answered.answer (h : x.Answered as w (some p)) (hopened : x.plan.number < w.barrier.opened)
    {granted : Bool} (hstep : (p.step w.now w.barrier bucket x).2.2 = .answered granted) :
    (p.step w.now w.barrier bucket x).2.1.Answered (as ++ [granted]) w none := by
  obtain ⟨k, hk⟩ := h.answers
  cases granted with
  | true =>
    have hnext := Pace.stint_of_granted hstep
    obtain ⟨rfl, -, -⟩ := Pace.answered_true_iff.1 hstep
    have hnone : false ∉ as := fun hfalse => by cases (h.declines hfalse).isAllowed
    have hk0 : k = 0 := by
      by_contra hpos
      exact hnone (hk ▸ List.mem_append_right _ (List.mem_replicate.2 ⟨hpos, rfl⟩))
    rw [hnext]
    subst hk0
    refine ⟨⟨0, ?_⟩, fun n hn => h.room .deciding rfl rfl n hn, by rintro q ⟨⟩, fun hfalse => ?_⟩
    · rw [hk, List.replicate_zero, List.append_nil, List.append_nil, List.replicate_succ']
    · rcases List.mem_append.1 hfalse with hfalse | hfalse
      · exact absurd hfalse hnone
      · cases List.mem_singleton.1 hfalse
  | false =>
    have hsame : (p.step w.now w.barrier bucket x).2.1 = x :=
      Pace.stint_step.resolve_right fun hgranted => by cases hstep.symm.trans hgranted.1
    rw [hsame]
    refine ⟨⟨k + 1, by rw [hk, List.append_assoc, List.replicate_succ']⟩, h.within, by rintro q ⟨⟩,
      fun _ => ?_⟩
    exact (isHalted_or_isSpent hstep).imp_left fun hhalted => isPast_of_isHalted hhalted hopened

end Stint

/-! ### What a task is told -/

/-- A step between two phases lets an actor into one only at its start or while it is passed. -/
theorem Advance.of_entered {b : Barrier} {p : Participant} {x : Advance} {plan : PhasePlan}
    {last : Nat} (h : (x.step b p).2.2 = .entered plan last) :
    (∃ c, x = .entering last c) ∨ ∃ k c, x = .passing last k c := by
  cases x with
  | entering last' c =>
    simp only [step, letIn, conclude] at h
    repeat' split at h
    all_goals cases h
    exact .inl ⟨c, rfl⟩
  | passing last' k c =>
    simp only [step, conclude] at h
    repeat' split at h
    all_goals cases h
    exact .inr ⟨k, c, rfl⟩
  | _ =>
    simp only [step, conclude] at h
    repeat' split at h
    all_goals cases h

namespace Task

variable {σ : Type} {t : Task σ} {w : World} {as : List Bool} {x y : Stint}

/-- Where the actor is in a question, if it is in one. -/
def pace? (t : Task σ) : Option Pace :=
  match t.stage with
  | .pacing p => some p
  | _ => none

theorem pace?_eq_some_iff {p : Pace} : t.pace? = some p ↔ t.stage = .pacing p := by
  unfold pace?
  cases t.stage <;> simp

/-- The answer to a question that comes with the next step. -/
def verdict? (w : World) (t : Task σ) : Option Bool :=
  match t.stage, t.stint with
  | .pacing p, some x =>
    match (p.step w.now w.barrier (t.bucket? w x) x).2.2 with
    | .answered granted => some granted
    | _ => none
  | _, _ => none

theorem verdict?_eq_some_iff {granted : Bool} : t.verdict? w = some granted ↔
    ∃ p x, t.stage = .pacing p ∧ t.stint = some x ∧
      (p.step w.now w.barrier (t.bucket? w x) x).2.2 = .answered granted := by
  unfold verdict?
  split
  · next p x hp hx =>
    simp only [hp, hx, Stage.pacing.injEq, Option.some.injEq, exists_and_left, exists_eq_left',
      ↓existsAndEq, true_and]
    cases (p.step w.now w.barrier (t.bucket? w x) x).2.2 <;> simp
  · next hno => simpa using fun p hp x hx _ => hno p x hp hx

/-- The answers after the next step: an actor that is handed a phase begins anew. -/
def told (w : World) (as : List Bool) (t : Task σ) : List Bool :=
  match t.handout? w.barrier with
  | some (some _) => []
  | _ => as ++ (t.verdict? w).toList

variable [Behaviour σ]

/-- The actor is told the answer, and how many iterations it has been granted. -/
theorem step_of_verdict {granted : Bool} (h : t.verdict? w = some granted) (hx : t.stint = some x) :
    (t.step w).task = tell w.now
      { t with stint := some { x with iterations := x.iterations + granted.toNat } }
      (.iteration granted (x.iterations + granted.toNat)) := by
  obtain ⟨p, y, hp, hy, hr⟩ := verdict?_eq_some_iff.1 h
  cases hx.symm.trans hy
  have hnow (bucket : Option Bucket) (block k : Nat) :
      (bucket.elim w (w.putBucket block k)).now = w.now := by cases bucket <;> rfl
  have hstint : (p.step w.now w.barrier (t.bucket? w x) x).2.1 =
      { x with iterations := x.iterations + granted.toNat } := by
    cases granted with
    | true => exact Pace.stint_of_granted hr
    | false => exact Pace.stint_step.resolve_right fun hyes => by cases hr.symm.trans hyes.1
  rw [bucket?] at hr hstint
  simp only [step, hp, pace, hx, hr, hstint, moves, hnow]

/-- What a step of an actor that works in a phase after it has to do with that phase. -/
inductive Onward (w : World) (t : Task σ) (y : Stint) : Prop where
  /-- It has been let into it. -/
  | enters {a : Advance} {p : Participant} {plan : PhasePlan} {last : Nat}
    (ha : t.stage = .advancing a) (hp : t.loop = some p)
    (hr : (a.step w.barrier p).2.2 = .entered plan last) (hy : y = .begin plan last w.now)
    (hq : (t.step w).task.pace? = none)
  | paces {p q : Pace} (h : t.Paces w y p q) (hq : (t.step w).task.pace? = some q)
  | answered {p : Pace} {x : Stint} {granted : Bool} (hp : t.stage = .pacing p)
    (hx : t.stint = some x)
    (hr : (p.step w.now w.barrier (t.bucket? w x) x).2.2 = .answered granted)
    (hy : y = (p.step w.now w.barrier (t.bucket? w x) x).2.1)
    (hq : (t.step w).task.pace? = none)
  /-- Something else, but for a new question. -/
  | aside (hhandout : ∀ plan, t.handout? w.barrier ≠ some (some plan))
    (hverdict : t.verdict? w = none) (hy : t.stint = some y)
    (hq : (t.step w).task.pace? = none ∨ (t.step w).task.pace? = some .asked)

omit [Behaviour σ] in
theorem pace?_conclude (w : World) (t : Task σ) (e : Ending) :
    (conclude w t e).task.pace? = none :=
  Option.eq_none_iff_forall_ne_some.2 fun p hp =>
    stage_conclude_ne w t e p (pace?_eq_some_iff.1 hp)

omit [Behaviour σ] in
theorem verdict?_of_not_pacing (h : t.pace? = none) : t.verdict? w = none := by
  unfold verdict?
  split
  · next p x hp hx => rw [pace?_eq_some_iff.2 hp] at h; cases h
  · rfl

theorem onward_of_pacing {p : Pace} (hp : t.stage = .pacing p)
    (hy : (t.step w).task.stint = some y) : t.Onward w y := by
  have hstep : t.step w = t.pace w p := by simp only [step, hp]
  cases hx : t.stint with
  | none =>
    simp only [hstep, pace, hx] at hy
    cases hx.symm.trans hy
  | some x =>
    -- the question goes on
    have hgoes {q : Pace} (hq : (t.step w).task.stage = .pacing q) : t.Onward w y := by
      obtain ⟨x', hpaces⟩ := paces_of_pace hp hq
      cases hpaces.kept.symm.trans hy
      exact .paces hpaces (pace?_eq_some_iff.2 hq)
    have hbucket : t.bucket? w x =
      w.bucket? (t.loop.elim 0 Participant.block) x.plan.number := rfl
    rw [hstep] at hgoes
    simp only [hstep, pace, hx, ← hbucket] at hy hgoes
    cases hr : (p.step w.now w.barrier (t.bucket? w x) x).2.2 with
    | answered granted =>
      simp only [hr] at hy
      refine .answered hp hx hr (Option.some.inj hy).symm ?_
      simp only [hstep, pace, hx, ← hbucket, hr]
      rfl
    | broken message =>
      simp only [hr, stint_conclude] at hy
      have hsame := Pace.stint_step.resolve_right fun hgranted => by cases hr.symm.trans hgranted.1
      cases hsame.symm.trans (Option.some.inj hy)
      refine .aside (fun plan => ?_) ?_ hx (.inl ?_)
      · simp [handout?, hp]
      · simp only [verdict?, hp, hx, hr]
      · simp only [hstep, pace, hx, ← hbucket, hr]
        exact pace?_conclude _ _ _
    | _ =>
      simp only [hr] at hgoes
      exact hgoes (by first | rfl | exact hp)

theorem onward_of_advancing {a : Advance} (ha : t.stage = .advancing a)
    (hy : (t.step w).task.stint = some y) : t.Onward w y := by
  have hstep : t.step w = t.advance w a := by simp only [step, ha]
  have hverdict : t.verdict? w = none := verdict?_of_not_pacing (by simp [pace?, ha])
  cases hp : t.loop with
  | none =>
    simp only [hstep, advance, hp] at hy
    refine .aside (fun plan => by simp [handout?, ha, hp]) hverdict hy (.inl ?_)
    simp only [hstep, advance, hp]
    rfl
  | some p =>
    cases hr : (a.step w.barrier p).2.2 with
    | entered plan last =>
      simp only [hstep, advance, hp, hr] at hy
      refine .enters ha hp hr (Option.some.inj hy).symm ?_
      simp only [hstep, advance, hp, hr]
      rfl
    | broken message =>
      simp only [hstep, advance, hp, hr, stint_conclude] at hy
      refine .aside (fun plan => ?_) hverdict hy (.inl ?_)
      · simp [handout?, ha, hp, hr, Advance.Progress.handout?]
      · simp only [hstep, advance, hp, hr]
        exact pace?_conclude _ _ _
    | _ =>
      simp only [hstep, advance, hp, hr] at hy
      refine .aside (fun plan => ?_) hverdict hy (.inl ?_)
      · simp [handout?, ha, hp, hr, Advance.Progress.handout?]
      · simp only [hstep, advance, hp, hr, pace?]
        first | rfl | simp [ha]

/-- **A step goes on with the phase of an actor, or lets it into one.** -/
theorem onward_step (hy : (t.step w).task.stint = some y) : t.Onward w y := by
  cases hs : t.stage with
  | pacing p => exact onward_of_pacing hs hy
  | advancing a => exact onward_of_advancing hs hy
  | acting =>
    have hverdict : t.verdict? w = none := verdict?_of_not_pacing (by simp [pace?, hs])
    refine .aside (fun plan => by simp [handout?, hs]) hverdict ?_ ?_
    · rw [step_acting hs] at hy
      exact stint_of_obey hy
    · rw [step_acting hs]
      cases hq : (t.obey w (Behaviour.ask t.mind)).task.pace? with
      | none => exact .inl rfl
      | some q =>
        obtain ⟨rfl, -⟩ := asked_of_obey hs (pace?_eq_some_iff.1 hq)
        exact .inr rfl
  | _ =>
    have hverdict : t.verdict? w = none := verdict?_of_not_pacing (by simp [pace?, hs])
    refine .aside (fun plan => by simp [handout?, hs]) hverdict ?_ (.inl ?_)
    · simp only [step, hs] at hy
      repeat' split at hy
      all_goals exact hy
    · simp only [step, hs]
      repeat' split
      all_goals first | rfl | simp [pace?, hs]

/-- **A step keeps what is known of an actor's share of its phase.** -/
theorem answered_step (h : ∀ x, t.stint = some x → x.Answered as w t.pace?)
    (hopened : ∀ x, t.stint = some x → x.plan.number < w.barrier.opened)
    (hy : (t.step w).task.stint = some y) :
    y.Answered (t.told w as) w (t.step w).task.pace? := by
  cases onward_step hy with
  | enters ha hp hr hy hq =>
    have htold : t.told w as = [] := by
      simp only [told, handout?, ha, hp, hr, Advance.Progress.handout?]
    rw [htold, hy, hq]
    exact Stint.answered_begin _ _ _ w
  | paces hpaces hq =>
    have htold : t.told w as = as := by
      have hnext := hpaces.next
      simp only [told, handout?, verdict?, hpaces.stage, hpaces.stint]
      split
      · next hr => rw [hr] at hnext; cases hnext
      · exact List.append_nil as
    rw [htold, hq]
    have hbefore := h y hpaces.stint
    rw [pace?_eq_some_iff.2 hpaces.stage] at hbefore
    exact hbefore.next hpaces.next
  | @answered p x granted hp hx hr hy hq =>
    have htold : t.told w as = as ++ [granted] := by
      simp only [told, handout?, verdict?, hp, hx, hr, Option.toList_some]
    rw [htold, hy, hq]
    have hbefore := h _ hx
    rw [pace?_eq_some_iff.2 hp] at hbefore
    exact hbefore.answer (hopened _ hx) hr
  | aside hhandout hverdict hy hq =>
    have htold : t.told w as = as := by
      unfold told
      split
      · next plan hplan => exact absurd hplan (hhandout plan)
      · rw [hverdict]
        exact List.append_nil as
    rw [htold]
    exact (h y hy).aside hq

end Task

/-! ### End requests come from outside -/

section

variable {σ : Type} [Behaviour σ]

theorem Task.Turn.endAsked {t t' : Task σ} {w : World} {b' : Barrier} (h : t.Turn w b' t') :
    b'.endAsked = w.barrier.endAsked := by
  have hadvance (p : Participant) (x : Advance) :
      (x.step w.barrier p).1.endAsked = w.barrier.endAsked := by
    rw [Advance.barrier_eq_call]
    cases x.call? with
    | none => rfl
    | some c => exact Barrier.endAsked_step _ c
  have habort (f : Failure) : (w.barrier.abort f).endAsked = w.barrier.endAsked := by
    unfold Barrier.abort
    split <;> rfl
  have hfarewell (p : Participant) (f : Farewell) :
      (f.step w.barrier p).1.endAsked = w.barrier.endAsked := by
    cases f with
    | accusing k => exact habort _
    | _ => rfl
  cases h with
  | advances => exact hadvance _ _
  | withdraws => exact hfarewell _ _
  | leaves => exact hfarewell _ _
  | parts => exact hfarewell _ _
  | ends => exact hfarewell _ _
  | accuses => exact habort _
  | _ => rfl

end

/-! ### Along a run -/

namespace System

variable {σ : Type} [Behaviour σ] {s s₀ : System σ} {ls : List Label} {i : Nat} {t : Task σ}
  {x : Stint}

theorem isEndAsked_fire {l : Label} {k : Nat}
    (h : (s.fire l).world.barrier.isEndAsked k = true) :
    s.world.barrier.isEndAsked k = true ∨ l = .requestEnd k := by
  cases l with
  | act j =>
    cases hu : s.tasks[j]? with
    | none => exact .inl (by rwa [fire, act, onTask_of_none hu] at h)
    | some u =>
      rw [fire_act hu] at h
      refine .inl ?_
      rwa [Barrier.isEndAsked, (Task.turn_step s.world u).endAsked] at h
  | interrupt j =>
    cases hu : s.tasks[j]? with
    | none => exact .inl (by rwa [fire, onTask_of_none hu] at h)
    | some u => exact .inl (by rwa [fire_interrupt hu] at h)
  | requestEnd j =>
    rw [fire, onBarrier, Barrier.isEndAsked_requestEnd, Bool.or_eq_true, decide_eq_true_eq] at h
    exact h.symm.imp_right fun hk => by rw [hk]
  | stop =>
    rw [fire, onBarrier, Barrier.stop] at h
    exact .inl (by split at h <;> exact h)
  | abort f =>
    rw [fire, onBarrier, Barrier.abort] at h
    exact .inl (by split at h <;> exact h)
  | work => exact .inl h
  | tick now => exact .inl h

/-- The end of a phase is asked for from outside. -/
theorem isEndAsked_run {k : Nat} (h : (s.run ls).world.barrier.isEndAsked k = true) :
    s.world.barrier.isEndAsked k = true ∨ .requestEnd k ∈ ls := by
  induction ls using List.reverseRecOn with
  | nil => exact .inl h
  | append_singleton ls l ih =>
    rw [run_snoc] at h
    rcases isEndAsked_fire h with h | rfl
    · exact (ih h).imp_right fun hmem => List.mem_append_left _ hmem
    · exact .inr (List.mem_append_right _ (List.mem_singleton_self _))

theorem Balanced.leadsTo {r : Record} (h : s₀.Balanced r s) (l : Label) :
    s.world.LeadsTo (s.fire l).world where
  now := now_fire s l
  phase := (h.shift l).le.1
  running := (reaches_fire s l).heeds.halt.eq_running
  endAsked _ := (reaches_fire s l).isEndAsked

/-- The answers that the actor at a position has been given in its phase after a move. -/
def told (s : System σ) (i : Nat) (as : List Bool) : Label → List Bool
  | .act j => if j = i then (s.tasks[i]?).elim as (Task.told s.world as) else as
  | _ => as

/-- The answers that the actor at a position has been given in its phase after some moves. -/
def answers (s : System σ) (i : Nat) (as : List Bool) : List Label → List Bool
  | [] => as
  | l :: ls => (s.fire l).answers i (s.told i as l) ls

theorem answers_snoc (s : System σ) (i : Nat) (as : List Bool) (ls : List Label) (l : Label) :
    s.answers i as (ls ++ [l]) = (s.run ls).told i (s.answers i as ls) l := by
  induction ls generalizing s as with
  | nil => rfl
  | cons l' ls ih => exact ih (s.fire l') (s.told i as l')

omit [Behaviour σ] in
theorem told_of_ne {l : Label} (hl : l ≠ .act i) (as : List Bool) : s.told i as l = as := by
  cases l with
  | act j => exact if_neg fun hji => hl (by rw [hji])
  | _ => rfl

/-- **What the answers say of an actor's share of its phase** holds along a run. -/
theorem IsReady.answered_run (hs : s₀.IsReady) (ht : (s₀.run ls).tasks[i]? = some t)
    (hx : t.stint = some x) : x.Answered (s₀.answers i [] ls) (s₀.run ls).world t.pace? := by
  induction ls using List.reverseRecOn generalizing t x with
  | nil =>
    rw [(hs.tasks t (List.mem_of_getElem? ht)).stint] at hx
    cases hx
  | append_singleton ls l ih =>
    have hbooks := hs.balanced_run ls
    rw [run_snoc] at ht ⊢
    rw [answers_snoc]
    refine Stint.Answered.mono ?_ (hbooks.leadsTo l)
    obtain ⟨u, hu, ⟨rfl, rfl⟩ | ⟨rfl, rfl⟩ | ⟨hl, rfl⟩⟩ := task_of_fire ht
    · have htold (as : List Bool) :
          (s₀.run ls).told i as (.act i) = u.told (s₀.run ls).world as := by
        simp only [told, if_pos, hu, Option.elim_some]
      rw [htold]
      refine Task.answered_step (fun y hy => ih hu hy) (fun y hy => ?_) hx
      have := hbooks.number_stint (List.mem_of_getElem? hu) hy
      omega
    · rw [told_of_ne (by rintro ⟨⟩)]
      refine (ih hu ((Task.stint_interrupt_eq _ u).symm.trans hx)).aside (.inl ?_)
      exact Option.eq_none_iff_forall_ne_some.2 fun p hp =>
        Task.stage_interrupt_ne _ u p (Task.pace?_eq_some_iff.1 hp)
    · rw [told_of_ne hl]
      exact ih hu hx

/-- The last phase of the run is kept in mind by whoever works in a phase. -/
theorem IsReady.last_of_stint (hs : s₀.IsReady)
    (hr : (s₀.run ls).world.barrier.signal.halt = .running)
    (ht : (s₀.run ls).tasks[i]? = some t) (hx : t.stint = some x) :
    s₀.world.barrier.lastPhase = some x.last := by
  induction ls using List.reverseRecOn generalizing t x with
  | nil =>
    rw [(hs.tasks t (List.mem_of_getElem? ht)).stint] at hx
    cases hx
  | append_singleton ls l ih =>
    have hbooks := hs.balanced_run ls
    have hbefore := running_of_snoc hr
    rw [run_snoc] at ht
    obtain ⟨u, hu, ⟨rfl, rfl⟩ | ⟨rfl, rfl⟩ | ⟨-, rfl⟩⟩ := task_of_fire ht
    · cases Task.onward_step hx with
      | @enters a p plan last ha hp hentered hy hq =>
        have hseat : i ∈ s₀.seats := by
          by_contra hseat
          cases (hbooks.apart i u hu hseat).1.symm.trans hp
        have hfits := ((hbooks.fits i u hu hseat).standing hbefore p hp).2
        rw [ha] at hfits
        rw [hy, ← hbooks.lastPhase]
        rcases Advance.of_entered hentered with ⟨c, rfl⟩ | ⟨k, c, rfl⟩
        · exact hfits.2.1
        · exact hfits.1
      | paces hpaces hq => exact ih hbefore hu hpaces.stint
      | @answered p y granted hp hy hgranted hxy hq =>
        have hlast : x.last = y.last := by
          rw [hxy]
          rcases @Pace.stint_step _ _ _ y p with h | ⟨-, h⟩ <;> rw [h]
        rw [hlast]
        exact ih hbefore hu hy
      | aside hhandout hverdict hy hq => exact ih hbefore hu hy
    · exact ih hbefore hu ((Task.stint_interrupt_eq _ u).symm.trans hx)
    · exact ih hbefore hu hx

/-- A phase that waits for an actor is not past while the actor works in it and the run goes on. -/
theorem IsReady.isHalted_eq_false (hs : s₀.IsReady)
    (hr : (s₀.run ls).world.barrier.signal.halt = .running)
    (ht : (s₀.run ls).tasks[i]? = some t) (hx : t.stint = some x) (hb : x.plan.blocking = true) :
    x.isHalted (s₀.run ls).world.barrier.signal = false := by
  have hbooks := hs.balanced_run ls
  have hphase := (hs.signal_of_stint (List.mem_of_getElem? ht) hx hb).1
  have hseat : i ∈ s₀.seats := by
    by_contra hseat
    cases (hbooks.apart i t ht hseat).2.symm.trans hx
  have hfits := hbooks.fits i t ht hseat
  have hnumber := (hfits.stint x hx).1
  obtain ⟨last, hlast, hle⟩ := hfits.bounded (hnumber ▸ Nat.succ_pos _)
  rw [hbooks.lastPhase, hs.last_of_stint hr ht hx] at hlast
  cases hlast
  have hbound : ¬ x.last < (s₀.run ls).world.barrier.signal.phase := by omega
  simp [Stint.isHalted, hr, hb, hbound]

/-- **An actor is granted iterations of its phase first, and refused them afterwards.**  It is
granted no more than the count of the phase.  Once it has been refused one, every further question
comes to its answer, and that is no.  In a phase that waits for the actor, in a run that goes on, it
is refused an iteration only for the reason that the policy gives: the count of the phase has been
granted, its time has gone by, or the end of this phase has been asked for. -/
theorem answers_of_phase (hs : s₀.IsReady) (ht : (s₀.run ls).tasks[i]? = some t)
    (hx : t.stint = some x) :
    ∃ k, s₀.answers i [] ls = List.replicate x.iterations true ++ List.replicate k false ∧
      (∀ n, x.plan.policy = .count n → x.iterations ≤ n) ∧
      (0 < k → ∀ p, t.stage = .pacing p → x.Refuses (s₀.run ls).world p
        (p.step (s₀.run ls).world.now (s₀.run ls).world.barrier
          (t.bucket? (s₀.run ls).world x) x).2.2) ∧
      ∀ granted, t.verdict? (s₀.run ls).world = some granted →
        (t.step (s₀.run ls).world).task = Task.tell (s₀.run ls).world.now
          { t with stint := some { x with iterations := x.iterations + granted.toNat } }
          (.iteration granted (x.iterations + granted.toNat)) ∧
        (0 < k → granted = false) ∧
        (granted = false → x.plan.blocking = true →
          (s₀.run ls).world.barrier.signal.halt = .running →
            x.HasReason (s₀.run ls).world.now
              (s₀.world.barrier.isEndAsked x.plan.number = true ∨
                .requestEnd x.plan.number ∈ ls)) := by
  have hanswered := hs.answered_run ht hx
  obtain ⟨k, hk⟩ := hanswered.answers
  have hrefuses (hpos : 0 < k) (p : Pace) (hp : t.stage = .pacing p) :
      x.Refuses (s₀.run ls).world p (p.step (s₀.run ls).world.now (s₀.run ls).world.barrier
        (t.bucket? (s₀.run ls).world x) x).2.2 := by
    have hfalse : false ∈ s₀.answers i [] ls :=
      hk ▸ List.mem_append_right _ (List.mem_replicate.2 ⟨hpos.ne', rfl⟩)
    have hdeclines := hanswered.declines hfalse
    rw [Task.pace?_eq_some_iff.2 hp] at hdeclines
    exact hdeclines.refuses _
  refine ⟨k, hk, hanswered.within, hrefuses, fun granted hverdict => ⟨?_, fun hpos => ?_, ?_⟩⟩
  · exact Task.step_of_verdict hverdict hx
  · obtain ⟨p, y, hp, hy, hr⟩ := Task.verdict?_eq_some_iff.1 hverdict
    cases hx.symm.trans hy
    have hno := hrefuses hpos p hp
    rw [hr] at hno
    cases hno
    rfl
  · rintro rfl hb hr
    obtain ⟨p, y, hp, hy, hstep⟩ := Task.verdict?_eq_some_iff.1 hverdict
    cases hx.symm.trans hy
    have hgoesOn := hs.isHalted_eq_false hr ht hx hb
    have hspent := (Stint.isHalted_or_isSpent hstep).resolve_left (by rw [hgoesOn]; decide)
    exact Stint.hasReason_of_isSpent hspent hanswered.within isEndAsked_run

/-- The actor is refused a second iteration of a phase with a single one, which it has been
granted. -/
theorem answers_of_phase_solo : (solo (.once 0 true)).IsReady ∧ ∃ t x k,
    ((solo (.once 0 true)).run (.replicate 18 (.act 0))).tasks[0]? = some t ∧ t.stint = some x ∧
      t.verdict? ((solo (.once 0 true)).run (.replicate 18 (.act 0))).world = some false ∧
      (solo (.once 0 true)).answers 0 [] (.replicate 18 (.act 0)) =
        List.replicate 1 true ++ List.replicate k false := by
  have hrefused : (((solo (.once 0 true)).run (.replicate 18 (.act 0))).tasks[0]?.any fun t =>
      t.verdict? ((solo (.once 0 true)).run (.replicate 18 (.act 0))).world = some false &&
        t.stint.any fun x => x.plan.policy = .count 1 && x.plan.blocking) = true ∧
      ((solo (.once 0 true)).run (.replicate 18 (.act 0))).world.barrier.signal.halt =
        .running := by decide +kernel
  obtain ⟨hrefused, hr⟩ := hrefused
  obtain ⟨t, ht, h⟩ := Option.any_eq_true _ _ |>.1 hrefused
  simp only [Bool.and_eq_true, decide_eq_true_eq] at h
  obtain ⟨hverdict, h⟩ := h
  obtain ⟨x, hx, h⟩ := Option.any_eq_true _ _ |>.1 h
  simp only [Bool.and_eq_true, decide_eq_true_eq] at h
  obtain ⟨hpolicy, hb⟩ := h
  obtain ⟨k, hk, -, -, hanswer⟩ := answers_of_phase (isReady_solo _) ht hx
  have hreason := (hanswer false hverdict).2.2 rfl hb hr
  rw [Stint.HasReason, hpolicy] at hreason
  refine ⟨isReady_solo _, t, x, k, ht, hx, hverdict, ?_⟩
  rw [hk, hreason]

end System

end Lockstep
