import Lockstep.Barrier.Crowd
import Lockstep.Proofs.Blame

/-!
# Halting a barrier

Stops, aborts and the steps of any number of calls may come to a barrier in any order.  This file
says what the halt of a barrier does to it and to the calls:

* `Barrier.Event` lists what may happen to a barrier in one piece; a call that goes through several
  points is an event at each of them, and `Call.verdict` is what it says when it has read a halt at
  one time and looks up the failure at a later one;
* `Barrier.Heeds` : the halt is only ever raised, the failure stays, and at a halt the phases and
  the tokens stand still;
* `Barrier.halt_protocol` : **the halt protocol**, for any events in any order;
* `Crowd.reaches_perform?`, `System.reaches_run` : what happens to the barrier of a crowd or of a
  system of tasks is such a list of events.
-/

namespace Lockstep

/-- How the halt of a run may change: it is only ever raised. -/
inductive Halt.RisesTo : Halt → Halt → Prop where
  | same (h : Halt) : RisesTo h h
  | stop : RisesTo .running .stopped
  | abort : RisesTo .running .aborted
  | overrule : RisesTo .stopped .aborted

namespace Halt.RisesTo

theorem to_aborted (h : Halt) : h.RisesTo .aborted := by
  cases h with
  | running => exact .abort
  | stopped => exact .overrule
  | aborted => exact .same _

theorem trans {h h' h'' : Halt} (a : h.RisesTo h') (b : h'.RisesTo h'') : h.RisesTo h'' := by
  cases a with
  | same => exact b
  | stop => cases b with
    | same => exact .stop
    | overrule => exact .abort
  | abort => cases b; exact .abort
  | overrule => cases b; exact .overrule

/-- A run that goes on has not been halted before. -/
theorem eq_running {h h' : Halt} (a : h.RisesTo h') (h'r : h' = .running) : h = .running := by
  subst h'r
  cases a
  rfl

end Halt.RisesTo

/-! ### Calls that read a halt -/

namespace Call

variable {b : Barrier}

/-- The call hands a token back, and only learns whether another phase follows. -/
def isLeaving : Call → Bool
  | returning _ _ => true
  | closing _ => true
  | _ => false

/-- What a call says that has read this halt and looks up the failure in this barrier, which may
have changed in between. -/
def verdict (c : Call) (h : Halt) (b : Barrier) : Except SyncError Bool :=
  if c.isLeaving then (b.answer h).map fun _ => false else b.answer h

/-- At a barrier that is halted every call ends with its verdict. -/
theorem step_eq_verdict (hh : b.signal.halt ≠ .running) (c : Call) :
    c.step b = (b, .done (c.verdict b.signal.halt b)) := by
  cases c with
  | returning k wait => simp only [step, if_pos hh]; rfl
  | closing k => simp only [step, if_pos hh]; rfl
  | _ => simp only [step, if_pos hh]; rfl

/-- At a barrier that is not halted no call fails. -/
theorem step_ne_error (hr : b.signal.halt = .running) (c : Call) (e : SyncError) :
    (c.step b).2 ≠ .done (.error e) := by
  cases c <;> simp only [step, hr, ne_eq, not_true_eq_false, if_false] <;> repeat' split
  all_goals rintro ⟨⟩

theorem verdict_running (c : Call) : ∃ r, c.verdict .running b = .ok r := by
  cases c <;> exact ⟨_, rfl⟩

theorem verdict_stopped (c : Call) : c.verdict .stopped b = .ok false := by
  cases c <;> rfl

theorem verdict_aborted {f : Failure} (hf : b.failure = some f) (c : Call) :
    c.verdict .aborted b = .error (.aborted f.text) := by
  have hanswer : b.answer .aborted = .error (.aborted f.text) := by rw [Barrier.answer, hf]; rfl
  cases c <;> simp [verdict, isLeaving, hanswer, Except.map]

end Call

/-- The text of a failure names the actor first. -/
theorem Failure.text_ne_unknown (f : Failure) : f.text ≠ "unknown failure" := by
  intro h
  have := congrArg (fun s => s.toList.head?) h
  simp [Failure.text, placeText] at this

namespace Barrier

/-! ### Events -/

/-- What may happen to a barrier in one piece. -/
inductive Event where
  /-- More tokens; a number that does not fit a word is refused. -/
  | addTokens (n : Nat)
  | extendTo (k : Nat)
  | launch
  | requestEnd (k : Nat)
  | stop
  | abort (f : Failure)
  /-- A call that has come to this point takes a step. -/
  | step (c : Call)

/-- The failure that an event would record. -/
def Event.failure? : Event → Option Failure
  | abort f => some f
  | _ => none

/-- The barrier after an event. -/
def after (b : Barrier) : Event → Barrier
  | .addTokens n => (b.addTokens? n).getD b
  | .extendTo k => b.extendTo k
  | .launch => b.launch
  | .requestEnd k => b.requestEnd k
  | .stop => b.stop
  | .abort f => b.abort f
  | .step c => (c.step b).1

/-- The barrier after events, one after the other. -/
def afterAll (b : Barrier) (es : List Event) : Barrier := es.foldl after b

/-- How far the phases have come, and where the tokens are. -/
def position (b : Barrier) : Nat × Bool × Nat × Nat :=
  (b.signal.phase, b.signal.isOpen, b.arrived, b.outstanding)

/-- A later barrier: the halt has only been raised, a failure is still the same one, and since a
halt nothing has moved. -/
structure Heeds (b b' : Barrier) : Prop where
  halt : b.signal.halt.RisesTo b'.signal.halt
  failure : ∀ f, b.failure = some f → b'.failure = some f
  position : b.signal.halt ≠ .running → b'.position = b.position

variable {b b' b'' : Barrier}

theorem Heeds.refl (b : Barrier) : b.Heeds b := ⟨.same _, fun _ hf => hf, fun _ => rfl⟩

theorem Heeds.trans (h : b.Heeds b') (h' : b'.Heeds b'') : b.Heeds b'' where
  halt := h.halt.trans h'.halt
  failure f hf := h'.failure f (h.failure f hf)
  position hh := by
    have hh' : b'.signal.halt ≠ .running := fun hr => hh (h.halt.eq_running hr)
    exact (h'.position hh').trans (h.position hh)

/-! ### One event -/

theorem after_addTokens (b : Barrier) (n : Nat) :
    ∃ r, b.after (.addTokens n) = { b with required := r } := by
  cases h : addWord? b.required n with
  | none => exact ⟨b.required, by simp [after, addTokens?, h]⟩
  | some r => exact ⟨r, by simp [after, addTokens?, h]⟩

theorem heeds_stop (b : Barrier) : b.Heeds b.stop := by
  unfold stop
  split
  · next hr =>
    exact ⟨by rw [hr]; exact .stop, fun _ hf => hf, fun hh => absurd hr hh⟩
  · exact .refl b

theorem heeds_abort (b : Barrier) (f : Failure) : b.Heeds (b.abort f) := by
  unfold abort
  split
  · exact .refl b
  · next hf =>
    exact ⟨.to_aborted _, fun g hg => (by rw [hf] at hg; cases hg), fun _ => rfl⟩

theorem heeds_step (b : Barrier) (c : Call) : b.Heeds (c.step b).1 where
  halt := by rw [(Call.failure_step b c).2]; exact .same _
  failure f hf := by rw [(Call.failure_step b c).1, hf]
  position hh := by rw [Call.step_eq_verdict hh c]

theorem heeds_after (b : Barrier) (e : Event) : b.Heeds (b.after e) := by
  cases e with
  | addTokens n =>
    obtain ⟨r, hr⟩ := after_addTokens b n
    rw [hr]
    exact ⟨.same _, fun _ hf => hf, fun _ => rfl⟩
  | extendTo k => exact ⟨.same _, fun _ hf => hf, fun _ => rfl⟩
  | launch => exact ⟨.same _, fun _ hf => hf, fun _ => rfl⟩
  | requestEnd k => exact ⟨.same _, fun _ hf => hf, fun _ => rfl⟩
  | stop => exact heeds_stop b
  | abort f => exact heeds_abort b f
  | step c => exact heeds_step b c

/-- The first failure is recorded, and no other. -/
theorem failure_after (b : Barrier) (e : Event) :
    (b.after e).failure = b.failure.or e.failure? := by
  cases e with
  | addTokens n =>
    obtain ⟨r, hr⟩ := after_addTokens b n
    simp [hr, Event.failure?]
  | stop =>
    show b.stop.failure = _
    unfold stop
    split <;> simp [Event.failure?, publish]
  | abort f => cases hf : b.failure <;> simp [after, abort, hf, Event.failure?, publish]
  | step c => simp [after, (Call.failure_step b c).1, Event.failure?]
  | extendTo k => simp [after, extendTo, Event.failure?]
  | launch => simp [after, launch, Event.failure?]
  | requestEnd k => simp [after, requestEnd, Event.failure?]

theorem IsHonest.after (hb : b.IsHonest) (e : Event) : (b.after e).IsHonest := by
  cases e with
  | addTokens n =>
    obtain ⟨r, hr⟩ := after_addTokens b n
    rw [hr]
    exact hb
  | extendTo k => exact hb
  | launch => exact hb
  | requestEnd k => exact hb
  | stop => exact hb.stop
  | abort f =>
    have h := hb.abort f
    exact ⟨fun _ => by rw [Barrier.after, h.2]; rfl, fun _ => h.1⟩
  | step c =>
    unfold Barrier.IsHonest Barrier.after
    rw [(Call.failure_step b c).1, (Call.failure_step b c).2]
    exact hb

/-! ### Any number of events -/

theorem afterAll_append (b : Barrier) (es es' : List Event) :
    b.afterAll (es ++ es') = (b.afterAll es).afterAll es' := List.foldl_append

theorem heeds_afterAll (b : Barrier) (es : List Event) : b.Heeds (b.afterAll es) := by
  induction es generalizing b with
  | nil => exact .refl b
  | cons e es ih => exact (heeds_after b e).trans (ih (b.after e))

theorem failure_afterAll (b : Barrier) (es : List Event) :
    (b.afterAll es).failure = b.failure.or (es.findSome? Event.failure?) := by
  induction es generalizing b with
  | nil => simp [afterAll]
  | cons e es ih =>
    have hrest := ih (b.after e)
    rw [failure_after, Option.or_assoc] at hrest
    rw [List.findSome?_cons]
    refine hrest.trans ?_
    cases e.failure? <;> rfl

theorem IsHonest.afterAll (hb : b.IsHonest) (es : List Event) : (b.afterAll es).IsHonest := by
  induction es generalizing b with
  | nil => exact hb
  | cons e es ih => exact ih (hb.after e)

theorem isHonest_fresh : fresh.IsHonest := by simp [IsHonest, fresh]

/-- **The halt protocol.**  Whatever has happened to a barrier, in whatever order, and whatever
happens to it from there on: the halt is only raised, and never lowered; the run is aborted just if
a failure is recorded, which is that of the first abort and stays; after a halt neither the phases
nor the tokens move; and every call, wherever it is, goes on at once and ends, with the answer that
belongs to the halt it has read, even if it looks up the failure only later. -/
theorem halt_protocol (es es' : List Event) :
    let b := fresh.afterAll es
    let b' := b.afterAll es'
    b.signal.halt.RisesTo b'.signal.halt ∧
      (b.signal.halt = .aborted ↔ b.failure.isSome) ∧
      b.failure = es.findSome? Event.failure? ∧
      (∀ f, b.failure = some f → b'.failure = some f) ∧
      (b.signal.halt ≠ .running → b'.position = b.position ∧ ∀ c : Call,
        c.isReady b.signal = true ∧ c.step b = (b, .done (c.verdict b.signal.halt b))) ∧
      (b.signal.halt = .stopped → ∀ c : Call,
        c.step b = (b, .done (.ok false)) ∧ c.verdict .stopped b' = .ok false) ∧
      (b.signal.halt = .aborted → ∃ f, es.findSome? Event.failure? = some f ∧ ∀ c : Call,
        c.step b = (b, .done (.error (.aborted f.text))) ∧
          c.verdict .aborted b' = .error (.aborted f.text)) ∧
      ∀ c : Call, (c.step b).2 ≠ .done (.error (.aborted "unknown failure")) ∧
        c.verdict b.signal.halt b' ≠ .error (.aborted "unknown failure") := by
  intro b b'
  have hheeds : b.Heeds b' := heeds_afterAll b es'
  have hhonest : b.IsHonest := isHonest_fresh.afterAll es
  have hfirst : b.failure = es.findSome? Event.failure? := failure_afterAll fresh es
  have hstep (hh : b.signal.halt ≠ .running) (c : Call) := Call.step_eq_verdict hh c
  have hstopped (hs : b.signal.halt = .stopped) (c : Call) :
      c.step b = (b, .done (.ok false)) ∧ c.verdict .stopped b' = .ok false := by
    refine ⟨?_, c.verdict_stopped⟩
    rw [hstep (by rw [hs]; rintro ⟨⟩) c, hs, c.verdict_stopped]
  have haborted (ha : b.signal.halt = .aborted) : ∃ f, es.findSome? Event.failure? = some f ∧
      ∀ c : Call, c.step b = (b, .done (.error (.aborted f.text))) ∧
        c.verdict .aborted b' = .error (.aborted f.text) := by
    obtain ⟨f, hf⟩ := Option.isSome_iff_exists.1 (hhonest.1 ha)
    refine ⟨f, hfirst ▸ hf, fun c => ⟨?_, c.verdict_aborted (hheeds.failure f hf)⟩⟩
    rw [hstep (by rw [ha]; rintro ⟨⟩) c, ha, c.verdict_aborted hf]
  refine ⟨hheeds.halt, hhonest, hfirst, hheeds.failure,
    fun hh => ⟨hheeds.position hh, fun c => ⟨c.isReady_of_halted hh, hstep hh c⟩⟩,
    hstopped, haborted, fun c => ?_⟩
  -- nobody is told of a failure that is not known
  have hknown (f : Failure) : SyncError.aborted f.text ≠ .aborted "unknown failure" :=
    fun h => f.text_ne_unknown (SyncError.aborted.inj h)
  cases hh : b.signal.halt with
  | running =>
    obtain ⟨r, hr⟩ : ∃ r, c.verdict .running b' = .ok r := c.verdict_running
    rw [hr]
    exact ⟨c.step_ne_error hh _, by rintro ⟨⟩⟩
  | stopped =>
    obtain ⟨hs, hv⟩ := hstopped hh c
    rw [hs, hv]
    exact ⟨by rintro ⟨⟩, by rintro ⟨⟩⟩
  | aborted =>
    obtain ⟨f, -, hf⟩ := haborted hh
    rw [(hf c).1, (hf c).2]
    exact ⟨fun h => hknown f (Except.error.inj (Call.Progress.done.inj h)),
      fun h => hknown f (Except.error.inj h)⟩

/-! ### Barriers in use -/

/-- Events lead from one barrier to another. -/
def Reaches (b b' : Barrier) : Prop := ∃ es, b' = b.afterAll es

theorem Reaches.refl (b : Barrier) : b.Reaches b := ⟨[], rfl⟩

theorem Reaches.event (b : Barrier) (e : Event) : b.Reaches (b.after e) := ⟨[e], rfl⟩

theorem Reaches.trans (h : b.Reaches b') (h' : b'.Reaches b'') : b.Reaches b'' := by
  obtain ⟨es, rfl⟩ := h
  obtain ⟨es', rfl⟩ := h'
  exact ⟨es ++ es', (afterAll_append b es es').symm⟩

theorem Reaches.heeds (h : b.Reaches b') : b.Heeds b' := by
  obtain ⟨es, rfl⟩ := h
  exact heeds_afterAll b es

end Barrier

namespace Crowd

open Barrier

theorem reaches_advance (b : Barrier) (c : Call) (fuel : Nat) :
    b.Reaches (advance b c fuel).barrier := by
  induction fuel generalizing b c with
  | zero => exact .refl b
  | succ fuel ih =>
    have hstep : b.Reaches (c.step b).1 := .event b (.step c)
    unfold advance
    generalize c.step b = r at hstep ⊢
    obtain ⟨b', r⟩ := r
    cases r with
    | moved c' => exact hstep.trans (ih b' c')
    | _ => exact hstep

theorem reaches_round (b : Barrier) (calls : List (String × Call)) :
    b.Reaches (round b calls).barrier := by
  induction calls generalizing b with
  | nil => exact .refl b
  | cons call calls ih =>
    have hcall := reaches_advance b call.2 callLength
    simp only [round]
    cases (advance b call.2 callLength).state <;> exact hcall.trans (ih _)

theorem reaches_settleWithin (b : Barrier) (calls : List (String × Call)) (fuel : Nat) :
    b.Reaches (settleWithin b calls fuel).barrier := by
  induction fuel generalizing b calls with
  | zero => exact .refl b
  | succ fuel ih =>
    have hround := reaches_round b calls
    simp only [settleWithin]
    split
    · exact hround
    · exact hround.trans (ih _ _)

theorem reaches_obey? {c c' : Crowd} {o : Order} {notes : List Note}
    (h : c.obey? o = some (c', notes)) : c.barrier.Reaches c'.barrier := by
  cases o with
  | addTokens n =>
    obtain ⟨b, hb, hc⟩ := Option.map_eq_some_iff.1 h
    have hafter : c.barrier.after (.addTokens n) = b := by simp [Barrier.after, hb]
    cases hc
    exact ⟨[.addTokens n], hafter.symm⟩
  | extendTo k => cases h; exact .event _ (.extendTo k)
  | begin name call => cases h; exact .refl _
  | cancel name => cases h; exact .refl _
  | abort f => cases h; exact .event _ (.abort f)
  | stop => cases h; exact .event _ .stop
  | requestEnd k => cases h; exact .event _ (.requestEnd k)
  | look => cases h; exact .refl _

/-- Whatever is done to a crowd, its barrier goes through events. -/
theorem reaches_perform? {c : Crowd} {o : Order} {p : Performed} (h : c.perform? o = some p) :
    c.barrier.Reaches p.crowd.barrier := by
  obtain ⟨⟨c', notes⟩, hobey, h⟩ := Option.bind_eq_some_iff.1 h
  obtain ⟨answers, -, h⟩ := Option.bind_eq_some_iff.1 h
  cases h
  exact (reaches_obey? hobey).trans (reaches_settleWithin _ _ _)

end Crowd

section

variable {σ : Type} [Behaviour σ]

theorem Advance.reaches_step (b : Barrier) (p : Participant) (x : Advance) :
    b.Reaches (x.step b p).1 := by
  rw [barrier_eq_call]
  cases x.call? with
  | none => exact .refl b
  | some c => exact .event b (.step c)

theorem Farewell.reaches_step (b : Barrier) (p : Participant) (f : Farewell) :
    b.Reaches (f.step b p).1 := by
  cases f with
  | checking => exact .refl b
  | reading => exact .refl b
  | accusing k => exact .event b (.abort (failure p k))

theorem Task.Turn.reaches {t t' : Task σ} {w : World} {b' : Barrier} (h : t.Turn w b' t') :
    w.barrier.Reaches b' := by
  cases h with
  | advances => exact Advance.reaches_step _ _ _
  | withdraws => exact Farewell.reaches_step _ _ _
  | leaves => exact Farewell.reaches_step _ _ _
  | parts => exact Farewell.reaches_step _ _ _
  | ends => exact Farewell.reaches_step _ _ _
  | accuses => exact .event _ (.abort _)
  | _ => exact .refl _

namespace System

theorem reaches_fire (s : System σ) (l : Label) :
    s.world.barrier.Reaches (s.fire l).world.barrier := by
  cases l with
  | act i =>
    cases ht : s.tasks[i]? with
    | none => simp only [fire, act, onTask_of_none ht]; exact .refl _
    | some t => rw [fire_act ht]; exact (Task.turn_step s.world t).reaches
  | interrupt i =>
    cases ht : s.tasks[i]? with
    | none => simp only [fire, onTask_of_none ht]; exact .refl _
    | some t => rw [fire_interrupt ht]; exact .refl _
  | work => exact .refl _
  | stop => exact .event _ .stop
  | requestEnd k => exact .event _ (.requestEnd k)
  | abort f => exact .event _ (.abort f)
  | tick now => exact .refl _

/-- Whatever the tasks of a system do, and whatever is done to it, its barrier goes through
events. -/
theorem reaches_run (s : System σ) (ls : List Label) :
    s.world.barrier.Reaches (s.run ls).world.barrier := by
  induction ls generalizing s with
  | nil => exact .refl _
  | cons l ls ih => exact (reaches_fire s l).trans (ih (s.fire l))

end System

end

end Lockstep
