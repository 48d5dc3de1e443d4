import Lockstep.Proofs.Holding
import Lockstep.Proofs.Stopping

/-!
# The phase of a failure

Whoever aborts a run names a phase.  It is the one that the barrier shows when the actor looks it
up, which is not always the one the actor is in: a phase that did not wait for the actor may have
closed since then, and all phases may have.

* `System.ReadsPhase` : a task looked up the phase for its failure;
* `System.Dates` : every failure that is known carries the phase that was looked up for it;
* `System.IsReady.of_handout` : an actor is only handed phases that have opened and that it has
  arrived for;
* `System.phase_of_failure` : **the phase that an error names** is no earlier than any that the
  actor was handed and at most one past the last one; and it is the one the actor is in if that one
  has waited for it.
-/

namespace Lockstep

/-- The actor and the phase that the error of a run names. -/
def RunError.place? : RunError → Option (String × Nat × Nat)
  | actorFailed actor id phase _ => some (actor, id, phase)
  | actorPanicked actor id phase _ => some (actor, id, phase)
  | actorExited actor id phase => some (actor, id, phase)
  | _ => none

theorem place?_blame (f : Failure) (e : Ending) :
    (blame f (some (.ended e))).place? = some (f.actor, f.id, f.phase) := by
  cases e <;> rfl

namespace Stage

/-- The actor is about to look up the phase for a failure. -/
def isReading : Stage → Bool
  | .reading _ _ => true
  | .leaving .reading => true
  | .parting _ .reading => true
  | _ => false

/-- The phase that has been looked up for a failure. -/
def named? : Stage → Option Nat
  | .accusing _ f => some f.phase
  | .leaving (.accusing k) => some k
  | .parting _ (.accusing k) => some k
  | _ => none

theorem named?_of_isAtWork {g : Stage} (hg : g.isAtWork = true) : g.named? = none := by
  cases g <;> first | rfl | cases hg

end Stage

namespace Task

variable {σ : Type} {t t' : Task σ} {w : World} {b : Barrier} {b' : Barrier}

/-! ### Looking up the phase -/

theorem named?_conclude (w : World) (t : Task σ) (e : Ending) :
    (conclude w t e).task.stage.named? = none := by
  unfold conclude
  split <;> rfl

theorem named?_of_mark {f : Failure} (hm : t.mark? b = some (.accusation f)) :
    t.stage.named? = some f.phase := by
  have hfarewell {p : Participant} {g : Farewell} (hg : g.mark? b p = some (.accusation f)) :
      g = .accusing f.phase := by
    cases g with
    | checking => simp only [Farewell.mark?] at hg; split at hg <;> cases hg
    | reading => cases hg
    | accusing phase => cases hg; rfl
  unfold mark? at hm
  split at hm
  · next x p hs hp =>
    have hq := (x.mark?_quiet b).1
    rw [hm] at hq
    cases hq
  · next g p hs hp => rw [hs, hfarewell hm]; rfl
  · next r g p hs hp => rw [hs, hfarewell hm]; rfl
  · next r g hs => cases hm; rw [hs]; rfl
  · cases hm

variable [Behaviour σ]

theorem Quits.named? (hq : t.Quits t') : t'.stage.named? = none := by
  cases hq with
  | leaves hk hs => rw [hs]; rfl
  | ends w e hk he => exact named?_conclude w _ e

theorem Worked.named? (hw : t.Worked t') : t'.stage.named? = none := by
  cases hw with
  | goesOn hk hs => exact Stage.named?_of_isAtWork hs
  | departs hs hp => rfl
  | quits hq => exact hq.named?

/-- The phase for a failure is looked up in one step. -/
theorem Turn.of_named (ht : t.Turn w b' t') {k : Nat} (hk : t'.stage.named? = some k) :
    t.stage.isReading = true ∧ w.barrier.signal.phase = k := by
  -- a part in the barrier that is being given up
  have hfarewell {p : Participant} {f f' : Farewell} (hf : (f.step w.barrier p).2 = some f')
      (hf' : f' = .accusing k) : f = .reading ∧ w.barrier.signal.phase = k := by
    subst hf'
    rcases Farewell.of_step_some hf with ⟨-, hf', -⟩ | ⟨rfl, -⟩
    · cases hf'
    · cases hf
      exact ⟨rfl, rfl⟩
  cases ht with
  | works hs hw => rw [hw.named?] at hk; cases hk
  | advances hs hp hadv =>
    generalize Advance.step _ _ _ = r at hadv
    obtain ⟨b, p, r⟩ := r
    cases hadv with
    | blocked => rw [show ({ t with loop := some p } : Task σ).stage = t.stage from rfl, hs] at hk
                 cases hk
    | broken w message => rw [named?_conclude] at hk; cases hk
    | _ => cases hk
  | @withdraws f f' p hs hp hstep =>
    have hf' : f' = .accusing k := by
      cases f' <;> cases hk
      rfl
    obtain ⟨rfl, hphase⟩ := hfarewell hstep hf'
    exact ⟨by rw [hs]; rfl, hphase⟩
  | @parts r f f' p hs hp hstep =>
    have hf' : f' = .accusing k := by
      cases f' <;> cases hk
      rfl
    obtain ⟨rfl, hphase⟩ := hfarewell hstep hf'
    exact ⟨by rw [hs]; rfl, hphase⟩
  | reads hs => cases hk; exact ⟨by rw [hs]; rfl, rfl⟩
  | rests hs => rw [hs] at hk; cases hk
  | _ => cases hk

theorem named?_interrupt (w : World) {k : Nat} (hk : (t.interrupt w).task.stage.named? = some k) :
    t.stage.named? = some k := by
  rcases interrupt_worked w t with he | ⟨hs, hw⟩ | ⟨x, hs, hq⟩
  · rwa [he] at hk
  · rw [hw.named?] at hk; cases hk
  · rw [hq.named?] at hk; cases hk

/-! ### Nothing more to be handed -/

/-- The actor will not be handed anything any more. -/
inductive HasQuit (t : Task σ) : Prop where
  | alone (hp : t.loop = none)
  | leaves {f : Farewell} (hs : t.stage = .leaving f)
  | ended {r : Result} (hs : t.stage.outcome? = some r)

omit [Behaviour σ] in
theorem HasQuit.of_isReading (hs : t.stage.isReading = true) : t.HasQuit := by
  cases hst : t.stage with
  | leaving f => exact .leaves hst
  | reading r message => exact .ended (by rw [hst]; rfl)
  | parting r f => exact .ended (by rw [hst]; rfl)
  | _ => rw [hst] at hs; cases hs

omit [Behaviour σ] in
theorem HasQuit.handout? (hq : t.HasQuit) (b : Barrier) : t.handout? b = none := by
  unfold Task.handout?
  split
  · next x p hs hp =>
    cases hq with
    | alone hn => rw [hp] at hn; cases hn
    | leaves hl => rw [hs] at hl; cases hl
    | ended ho => rw [hs] at ho; cases ho
  · rfl

omit [Behaviour σ] in
theorem hasQuit_conclude (w : World) (t : Task σ) (e : Ending) : (conclude w t e).task.HasQuit := by
  unfold conclude
  split
  · exact .ended (r := .ended e) rfl
  · exact .ended (r := .refused _) rfl

theorem Quits.hasQuit (hq : t.Quits t') : t'.HasQuit := by
  cases hq with
  | leaves hk hs => exact .leaves hs
  | ends w e hk he => exact hasQuit_conclude w _ e

theorem HasQuit.worked (h : t.HasQuit) (hs : t.stage.isAtWork = true) (hw : t.Worked t') :
    t'.HasQuit := by
  have hp : t.loop = none := by
    cases h with
    | alone hp => exact hp
    | leaves hl => rw [hl] at hs; cases hs
    | ended ho => rw [Stage.outcome?_of_isAtWork hs] at ho; cases ho
  cases hw with
  | goesOn hk hs' => exact .alone (hk.loop.trans hp)
  | departs hs' hp' => rw [hp] at hp'; cases hp'
  | quits hq => exact hq.hasQuit

theorem HasQuit.turn (h : t.HasQuit) (ht : t.Turn w b' t') : t'.HasQuit := by
  cases ht with
  | works hs hw => exact h.worked hs hw
  | advances hs hp hadv =>
    cases h with
    | alone hn => rw [hp] at hn; cases hn
    | leaves hl => rw [hs] at hl; cases hl
    | ended ho => rw [hs] at ho; cases ho
  | begins hs hstart =>
    cases h with
    | alone hn => exact .alone hn
    | leaves hl => rw [hs] at hl; cases hl
    | ended ho => rw [hs] at ho; cases ho
  | idles hs hp hr => exact .alone hp
  | withdraws hs hp hstep => exact .leaves rfl
  | leaves hs hp hstep => exact .alone rfl
  | refuses hs hstart => exact .ended (r := .refused _) rfl
  | blames hs hacc => exact .ended rfl
  | acquits hs hacc => exact .ended rfl
  | reads hs => exact .ended rfl
  | accuses hs => exact .ended rfl
  | parts hs hp hstep => exact .ended rfl
  | ends hs hp hstep => exact .alone rfl
  | closes hs hp => exact .alone hp
  | rests hs => exact h

theorem HasQuit.interrupt (h : t.HasQuit) (w : World) : (t.interrupt w).task.HasQuit := by
  rcases interrupt_worked w t with he | ⟨hs, hw⟩ | ⟨x, hs, hq⟩
  · rw [he]; exact h
  · exact h.worked hs hw
  · exact hq.hasQuit

/-! ### Phases an actor works in -/

omit [Behaviour σ] in
theorem stint_conclude (w : World) (t : Task σ) (e : Ending) :
    (conclude w t e).task.stint = t.stint := by
  unfold conclude
  split <;> rfl

/-- An actor goes on in its phase, or is handed one. -/
theorem Turn.stint (ht : t.Turn w b' t') {x' : Stint} (hx : t'.stint = some x') :
    (∃ x, t.stint = some x ∧ x'.plan = x.plan) ∨
      t.handout? w.barrier = some (some x'.plan) := by
  have hsame (hs : t'.stint = t.stint) : (∃ x, t.stint = some x ∧ x'.plan = x.plan) ∨
      t.handout? w.barrier = some (some x'.plan) := .inl ⟨x', hs ▸ hx, rfl⟩
  cases ht with
  | works hs hw =>
    cases hw with
    | goesOn hk hs' => exact .inl (hk.stint x' hx)
    | departs hs' hp => cases hx
    | quits hq =>
      cases hq with
      | leaves hk hs' => exact .inl (hk.stint x' hx)
      | ends w' e hk he => rw [stint_conclude] at hx; exact .inl (hk.stint x' hx)
  | @advances y p t' hs hp hadv =>
    have hout : t.handout? w.barrier = (y.step w.barrier p).2.2.handout? := by
      simp only [Task.handout?, hs, hp]
    rw [hout]
    generalize y.step w.barrier p = r at hadv
    obtain ⟨b, p', r⟩ := r
    cases hadv with
    | entered plan last now => cases hx; exact .inr rfl
    | broken w' message => rw [stint_conclude] at hx; exact .inl ⟨x', hx, rfl⟩
    | _ => exact .inl ⟨x', hx, rfl⟩
  | _ => exact hsame rfl

theorem stint_interrupt (w : World) {x' : Stint} (hx : (t.interrupt w).task.stint = some x') :
    ∃ x, t.stint = some x ∧ x'.plan = x.plan := by
  have hquits (hq : t.Quits (t.interrupt w).task) : ∃ x, t.stint = some x ∧ x'.plan = x.plan := by
    generalize (t.interrupt w).task = t' at hq hx
    cases hq with
    | leaves hk hs => exact hk.stint x' hx
    | ends w e hk he => rw [stint_conclude] at hx; exact hk.stint x' hx
  rcases interrupt_worked w t with he | ⟨hs, hw⟩ | ⟨x, hs, hq⟩
  · exact ⟨x', he ▸ hx, rfl⟩
  · generalize (t.interrupt w).task = t' at hw hx hquits
    cases hw with
    | goesOn hk hs' => exact hk.stint x' hx
    | departs hs' hp => cases hx
    | quits hq => exact hquits hq
  · exact hquits hq

end Task

namespace System

variable {σ : Type} [Behaviour σ] {s₀ s : System σ} {ls : List Label} {i k : Nat} {t : Task σ}

/-- A task that has quit is handed nothing any more. -/
theorem handouts_of_hasQuit (h : ∀ t, s.tasks[i]? = some t → t.HasQuit) (ls : List Label) :
    s.handouts i ls = [] := by
  induction ls generalizing s with
  | nil => rfl
  | cons l ls ih =>
    have hnone : s.dealt i l = [] := by
      by_cases hl : l = .act i
      · subst hl
        cases ht : s.tasks[i]? with
        | none => simp [dealt, ht]
        | some t => rw [dealt_self ht, (h t ht).handout?]; rfl
      · exact dealt_of_ne hl
    rw [handouts, hnone, List.nil_append]
    refine ih fun t' ht' => ?_
    obtain ⟨u, hu, ⟨-, rfl⟩ | ⟨-, rfl⟩ | ⟨-, rfl⟩⟩ := task_of_fire ht'
    · exact (h u hu).turn (Task.turn_step _ u)
    · exact (h u hu).interrupt _
    · exact h t' hu

/-! ### The phase that is named -/

/-- In a run the task at a position looked up the phase for its failure when phase `k` was in
progress or came next. -/
def ReadsPhase (s₀ : System σ) (ls : List Label) (i k : Nat) : Prop :=
  ∃ before after t, ls = before ++ .act i :: after ∧ (s₀.run before).tasks[i]? = some t ∧
    t.stage.isReading = true ∧ (s₀.run before).world.barrier.signal.phase = k

theorem ReadsPhase.append (h : s₀.ReadsPhase ls i k) (ls' : List Label) :
    s₀.ReadsPhase (ls ++ ls') i k := by
  obtain ⟨before, after, t, rfl, ht, hs, hk⟩ := h
  exact ⟨before, after ++ ls', t, by simp, ht, hs, hk⟩

/-- Every phase that a task is about to name, or has named, was looked up by it. -/
structure Dates (s₀ : System σ) (ls : List Label) : Prop where
  named : ∀ i t k, (s₀.run ls).tasks[i]? = some t → t.stage.named? = some k →
    s₀.ReadsPhase ls i k
  accused : ∀ i f, (i, f) ∈ (s₀.record ls).accusations → s₀.ReadsPhase ls i f.phase

/-- Whoever is accused in a move is accused by the task that takes a step. -/
theorem of_mem_accusations {l : Label} {f : Failure}
    (h : (i, f) ∈ Record.accusations (s.entries l)) : ∃ u, l = .act i ∧ s.tasks[i]? = some u ∧
      u.mark? s.world.barrier = some (.accusation f) := by
  rw [entries, Record.accusations_append, Record.accusations_change, List.append_nil] at h
  cases l with
  | act j =>
    cases hu : s.tasks[j]? with
    | none => simp [deeds, hu, Record.accusations] at h
    | some u =>
      rw [Record.accusations_deeds hu] at h
      obtain ⟨g, hg, heq⟩ := List.mem_map.1 h
      cases heq
      obtain ⟨m, hm, hacc⟩ := Option.bind_eq_some_iff.1 (Option.mem_toList.1 hg)
      cases m <;> cases hacc
      exact ⟨u, rfl, hu, hm⟩
  | _ => cases h

/-- **Every phase that is named was looked up by whoever names it.** -/
theorem dates_run (hs : ∀ t ∈ s₀.tasks, t.stage.named? = none) (ls : List Label) :
    s₀.Dates ls := by
  induction ls using List.reverseRecOn with
  | nil =>
    refine ⟨fun i t k ht hk => ?_, fun i f hf => by cases hf⟩
    rw [hs t (List.mem_of_getElem? ht)] at hk
    cases hk
  | append_singleton ls l ih =>
    refine ⟨fun i t k ht hk => ?_, fun i f hf => ?_⟩
    · rw [run_snoc] at ht
      obtain ⟨u, hu, ⟨rfl, rfl⟩ | ⟨rfl, rfl⟩ | ⟨-, rfl⟩⟩ := task_of_fire ht
      · obtain ⟨hreads, hphase⟩ := (Task.turn_step _ u).of_named hk
        exact ⟨ls, [], u, rfl, hu, hreads, hphase⟩
      · exact (ih.named i u k hu (Task.named?_interrupt _ hk)).append _
      · exact (ih.named i t k hu hk).append _
    · rw [record_snoc, Record.accusations_append, List.mem_append] at hf
      rcases hf with hf | hf
      · exact (ih.accused i f hf).append _
      · obtain ⟨u, rfl, hu, hm⟩ := of_mem_accusations hf
        exact (ih.named i u _ hu (Task.named?_of_mark hm)).append _

/-! ### The phases that are handed out -/

omit [Behaviour σ] in
/-- A task without a part in the barrier is handed nothing. -/
theorem handout?_of_isApart (ha : t.IsApart) (b : Barrier) : t.handout? b = none :=
  (Task.HasQuit.alone ha.1).handout? b

/-- Whoever has been handed a phase works in it. -/
theorem stint_of_handout {plan : PhasePlan} (h : t.handout? s.world.barrier = some (some plan)) :
    ∃ x, (t.step s.world).task.stint = some x ∧ x.plan = plan := by
  unfold Task.handout? at h
  split at h
  · next y p hs hp =>
    simp only [Task.step, hs, Task.advance, hp]
    generalize y.step s.world.barrier p = r at h
    obtain ⟨b, p', r⟩ := r
    cases r <;> cases h
    exact ⟨_, rfl, rfl⟩
  · cases h

/-- An actor is only handed phases that have opened and that it has arrived for. -/
theorem IsReady.of_handout (hs : s₀.IsReady) {plan : PhasePlan}
    (h : some plan ∈ s₀.handouts i ls) :
    i ∈ s₀.seats ∧ plan.number < ((s₀.record ls).arrivals i).length ∧
      plan.number < (s₀.run ls).world.barrier.opened := by
  induction ls using List.reverseRecOn with
  | nil => cases h
  | append_singleton ls l ih =>
    have hbooks := hs.balanced_run ls
    have hbooks' := hs.balanced_run (ls ++ [l])
    rw [handouts_snoc, List.mem_append] at h
    rcases h with h | h
    · obtain ⟨hseat, harrived, hopened⟩ := ih h
      rw [record_snoc, run_snoc, Record.arrivals_append, List.length_append]
      exact ⟨hseat, by omega, hopened.trans_le (hbooks.shift l).le.2⟩
    · by_cases hl : l = .act i
      · subst hl
        cases hu : (s₀.run ls).tasks[i]? with
        | none => simp [dealt, hu] at h
        | some u =>
          rw [dealt_self hu, Option.mem_toList] at h
          have hseat : i ∈ s₀.seats := by
            by_contra hseat
            rw [handout?_of_isApart (hbooks.apart i u hu hseat)] at h
            cases h
          obtain ⟨x, hx, rfl⟩ := stint_of_handout h
          have hset : (s₀.run (ls ++ [.act i])).tasks[i]? =
              some (u.step (s₀.run ls).world).task := by
            rw [run_snoc, fire_act hu]
            exact List.getElem?_set_self (List.getElem?_eq_some_iff.1 hu).1
          obtain ⟨hnum, hop⟩ := (hbooks'.fits i _ hset hseat).stint x hx
          exact ⟨hseat, by omega, by omega⟩
      · rw [dealt_of_ne hl] at h
        cases h

/-- The phase that an actor works in has been handed to it. -/
theorem IsReady.mem_handouts (hs : s₀.IsReady) (ht : (s₀.run ls).tasks[i]? = some t) {x : Stint}
    (hx : t.stint = some x) : some x.plan ∈ s₀.handouts i ls := by
  induction ls using List.reverseRecOn generalizing t x with
  | nil =>
    rw [(hs.tasks t (List.mem_of_getElem? ht)).stint] at hx
    cases hx
  | append_singleton ls l ih =>
    rw [run_snoc] at ht
    rw [handouts_snoc, List.mem_append]
    obtain ⟨u, hu, ⟨rfl, rfl⟩ | ⟨rfl, rfl⟩ | ⟨-, rfl⟩⟩ := task_of_fire ht
    · rcases (Task.turn_step _ u).stint hx with ⟨y, hy, hplan⟩ | hout
      · exact .inl (hplan ▸ ih hu hy)
      · exact .inr (by rw [dealt_self hu, hout]; exact List.mem_singleton_self _)
    · obtain ⟨y, hy, hplan⟩ := Task.stint_interrupt _ hx
      exact .inl (hplan ▸ ih hu hy)
    · exact .inl (ih hu hx)

/-- A phase that an actor was handed is the one in progress as long as the actor has not handed back
its token. -/
theorem IsReady.phase_of_handout (hs : s₀.IsReady) {plan : PhasePlan}
    (h : some plan ∈ s₀.handouts i ls) (htoken : plan.number ∉ (s₀.record ls).handbacks i) :
    (s₀.run ls).world.barrier.signal.phase = plan.number := by
  have hbooks := hs.balanced_run ls
  obtain ⟨hseat, harrived, hopened⟩ := hs.of_handout h
  rw [hbooks.mem_handbacks, not_lt] at htoken
  have hc := hbooks.counts hseat
  cases ho : (s₀.run ls).world.barrier.signal.isOpen with
  | true => have := hc.working ho; omega
  | false =>
    have := hc.gathering ho
    rw [Barrier.opened, ho, Bool.toNat_false] at hopened
    omega

/-! ### Along a run -/

/-- The phases go on along a run. -/
theorem IsReady.phase_mono (hs : s₀.IsReady) (ls ls' : List Label) :
    (s₀.run ls).world.barrier.signal.phase ≤ (s₀.run (ls ++ ls')).world.barrier.signal.phase := by
  induction ls' using List.reverseRecOn with
  | nil => rw [List.append_nil]
  | append_singleton ls' l ih =>
    rw [← List.append_assoc, run_snoc]
    exact ih.trans ((hs.balanced_run (ls ++ ls')).shift l).le.1

/-- **A phase that was looked up for a failure** is no earlier than any the actor was handed, and
none has come after it that the phases have not come to. -/
theorem IsReady.of_readsPhase (hs : s₀.IsReady) (h : s₀.ReadsPhase ls i k) :
    k ≤ (s₀.run ls).world.barrier.signal.phase ∧
      ∀ plan, some plan ∈ s₀.handouts i ls → plan.number ≤ k := by
  obtain ⟨before, after, t, rfl, ht, hreads, rfl⟩ := h
  refine ⟨hs.phase_mono _ _, fun plan hplan => ?_⟩
  -- whoever looks up a phase will not be handed anything any more
  have hquit : ∀ u, (s₀.run before).tasks[i]? = some u → u.HasQuit := fun u hu => by
    cases ht.symm.trans hu
    exact .of_isReading hreads
  rw [handouts_append, handouts_of_hasQuit hquit, List.append_nil] at hplan
  have hopened := (hs.of_handout hplan).2.2
  have := (s₀.run before).world.barrier.signal.isOpen.toNat_le
  rw [Barrier.opened] at hopened
  omega

/-- **The phase that the error of a run names** is the one that the barrier showed when the actor
looked it up for its failure.  So it is no earlier than any phase the actor was handed, and at most
one past the last one; and it is the phase the actor was handed as long as the actor had not handed
back the token of that phase, in particular if the actor failed in a phase that waited for it.

This holds in every order of the moves, whatever the actors do, and whenever they fail, panic or
leave. -/
theorem phase_of_failure (hready : s₀.IsReady) (hfresh : s₀.IsFresh)
    (hls : ∀ f, Label.abort f ∉ ls)
    (hover : ((s₀.onBarrier Barrier.launch).run ls).isOver = true) {err : RunError}
    (herr : conclude ((s₀.onBarrier Barrier.launch).run ls) = .error err) :
    let s₁ := s₀.onBarrier Barrier.launch
    ∃ i t k, (s₁.run ls).tasks[i]? = some t ∧ err.place? = some (t.name, t.id, k) ∧
      s₁.ReadsPhase ls i k ∧ k ≤ s₁.world.barrier.span ∧
      (∀ plan, some plan ∈ s₁.handouts i ls → plan.number ≤ k ∧
        (plan.number ∉ (s₁.record ls).handbacks i → k = plan.number)) ∧
      ∀ x, t.stint = some x → x.plan.blocking = true → k = x.plan.number := by
  intro s₁
  have hs : s₁.IsReady := hready.launch
  have hanswering : s₀.Answering (s₁.record ls) (s₁.run ls) := hfresh.answering_run hls
  have hdates : s₁.Dates ls := dates_run (fun t ht => by
    rw [(hfresh.tasks t ht).stage]; rfl) ls
  cases hacc : (s₁.record ls).accusations.head? with
  | none =>
    -- a run that nobody has aborted ends well
    rw [hanswering.conclude_of_nil hover (List.head?_eq_none_iff.1 hacc)] at herr
    cases herr
  | some first =>
    obtain ⟨i, f⟩ := first
    obtain ⟨t, e, ht, hactor, hid, -, -, hblame⟩ :=
      hanswering.conclude_of_cons hfresh.ids hover hacc
    rw [hblame] at herr
    cases herr
    have hreads := hdates.accused i f (List.mem_of_mem_head? hacc)
    obtain ⟨hle, hhanded⟩ := hs.of_readsPhase hreads
    refine ⟨i, t, f.phase, ht, by rw [place?_blame, hactor, hid], hreads,
      hle.trans (hs.phase_le_span ls), fun plan hplan => ⟨hhanded plan hplan, fun htoken => ?_⟩,
      fun x hx hb => ?_⟩
    · exact le_antisymm (hle.trans (hs.phase_of_handout hplan htoken).le) (hhanded plan hplan)
    · have hphase := (hs.signal_of_stint (List.mem_of_getElem? ht) hx hb).1
      exact le_antisymm (hle.trans hphase.le) (hhanded _ (hs.mem_handouts ht hx))

/-- The place that the error of a run names. -/
def namedPlace? : Except RunError Summary → Option (String × Nat × Nat)
  | .error err => err.place?
  | .ok _ => none

theorem exists_error_of_namedPlace {r : Except RunError Summary} {p : String × Nat × Nat}
    (h : namedPlace? r = some p) : ∃ err, r = .error err ∧ err.place? = some p := by
  cases r with
  | error err => exact ⟨err, rfl, h⟩
  | ok summary => cases h

/-- The guest fails while the host holds the phase open, so the error names this phase. -/
theorem phase_of_failure_duet :
    duet.IsReady ∧ duet.IsFresh ∧ (∀ f, Label.abort f ∉ duetFailure) ∧
      ((duet.onBarrier Barrier.launch).run duetFailure).isOver = true ∧
      ∃ err, conclude ((duet.onBarrier Barrier.launch).run duetFailure) = .error err ∧
        err.place? = some ("guest", 1, 0) ∧
        (duet.onBarrier Barrier.launch).ReadsPhase duetFailure 1 0 := by
  have hls : ∀ f, Label.abort f ∉ duetFailure := by
    intro f hf
    simp [duetFailure] at hf
  have hover : ((duet.onBarrier Barrier.launch).run duetFailure).isOver = true := by decide +kernel
  obtain ⟨err, hc, hplace⟩ :
      ∃ err, conclude ((duet.onBarrier Barrier.launch).run duetFailure) = .error err ∧
        err.place? = some ("guest", 1, 0) := exists_error_of_namedPlace (by decide +kernel)
  have hids : ((duet.onBarrier Barrier.launch).run duetFailure).tasks.map Task.id = [0, 1] := by
    decide +kernel
  obtain ⟨i, t, k, ht, hnamed, hreads, -⟩ :=
    phase_of_failure isReady_duet isFresh_duet hls hover hc
  obtain ⟨-, hid, rfl⟩ : t.name = "guest" ∧ t.id = 1 ∧ k = 0 := by
    simpa [hnamed] using hplace
  have hi : [0, 1][i]? = some 1 := by
    rw [← hids, List.getElem?_map, ht, Option.map_some, hid]
  -- only the second task has the id 1
  obtain rfl : i = 1 := by
    obtain _ | _ | i := i <;> simp_all
  exact ⟨isReady_duet, isFresh_duet, hls, hover, err, hc, hplace, hreads⟩

/-- The guest is at work in phase 0, which does not wait for it, while the host closes the phase;
then the guest fails. -/
def duetLateFailure : List Label :=
  List.replicate 6 (.act 0) ++ List.replicate 14 (.act 1) ++ List.replicate 30 (.act 0) ++
    List.replicate 30 (.act 1)

/-- The guest was handed phase 0 and no other, and there is no other phase; but the error that names
the guest names phase 1. -/
theorem late_failure_duet :
    duet.IsReady ∧ duet.IsFresh ∧ (∀ f, Label.abort f ∉ duetLateFailure) ∧
      ((duet.onBarrier Barrier.launch).run duetLateFailure).isOver = true ∧
      duet.world.barrier.lastPhase = some 0 ∧
      ((duet.onBarrier Barrier.launch).handouts 1 duetLateFailure).map
        (Option.map PhasePlan.number) = [some 0] ∧
      ∃ err, conclude ((duet.onBarrier Barrier.launch).run duetLateFailure) = .error err ∧
        err.place? = some ("guest", 1, 1) := by
  exact ⟨isReady_duet, isFresh_duet, fun f hf => by simp [duetLateFailure] at hf,
    by decide +kernel, rfl, by decide +kernel,
    exists_error_of_namedPlace (by decide +kernel)⟩

end System

end Lockstep
