import Lockstep.Proofs.Updates

/-!
# Runs that are stopped

A stop takes effect only while the run goes on, and from then on the phases stand still.

* `System.StopsAfter` : a stop took effect when so many phases had closed;
* `System.exists_stopsAfter`, `System.StopsAfter.standstill` : nothing else stops a run, and no
  phase closes after it;
* `System.stopped_iff` : **what is said about stops and phases of a run that ended well**: it counts
  as stopped exactly if a stop took effect, and fewer phases than there are have closed exactly if
  one did so before the last phase had closed.

A stop may also come after the last phase has closed, while some actor has not come to its end yet.
The run then counts as stopped although all of its phases have closed (`System.stopped_encore`).
-/

namespace Lockstep

/-- An abort does not stop a run in order. -/
theorem Barrier.halt_abort_ne_stopped {b : Barrier} (hr : b.signal.halt = .running) (f : Failure) :
    (b.abort f).signal.halt ≠ .stopped := by
  unfold abort
  split
  · rw [hr]; rintro ⟨⟩
  · rintro ⟨⟩

namespace System

variable {σ : Type} [Behaviour σ] {s₀ s : System σ} {r : Record} {ls : List Label}

/-! ### How a run comes to be stopped -/

/-- A stop took effect in a run when `k` phases had closed. -/
def StopsAfter (s₀ : System σ) (ls : List Label) (k : Nat) : Prop :=
  ∃ before after, ls = before ++ .stop :: after ∧
    (s₀.run before).world.barrier.signal.halt = .running ∧
    (s₀.run before).world.barrier.signal.phase = k

/-- Only a stop makes a run a stopped one. -/
theorem eq_stop_of_fire {l : Label} (hr : s.world.barrier.signal.halt = .running)
    (hs : (s.fire l).world.barrier.signal.halt = .stopped) : l = .stop := by
  have hsame (h : (s.fire l).world.barrier.signal.halt = s.world.barrier.signal.halt) :
      l = .stop := by
    rw [h, hr] at hs
    cases hs
  cases l with
  | stop => rfl
  | act i =>
    cases ht : s.tasks[i]? with
    | none => exact hsame (by rw [fire, act, onTask_of_none ht])
    | some t =>
      rw [fire_act ht] at hs hsame
      rcases (Task.turn_step s.world t).failure with ⟨-, -, hhalt⟩ | ⟨f, -, habort⟩
      · exact hsame hhalt
      · rw [habort] at hs
        exact absurd hs (Barrier.halt_abort_ne_stopped hr f)
  | interrupt i =>
    cases ht : s.tasks[i]? with
    | none => exact hsame (by rw [fire, onTask_of_none ht])
    | some t => exact hsame (by rw [fire_interrupt ht])
  | abort f => exact absurd hs (Barrier.halt_abort_ne_stopped hr f)
  | work => exact hsame rfl
  | requestEnd k => exact hsame rfl
  | tick now => exact hsame rfl

/-- Whatever follows a stop that took effect, it has taken effect. -/
theorem StopsAfter.append {k : Nat} (h : s₀.StopsAfter ls k) (ls' : List Label) :
    s₀.StopsAfter (ls ++ ls') k := by
  obtain ⟨before, after, rfl, hr, hk⟩ := h
  exact ⟨before, after ++ ls', by simp, hr, hk⟩

/-- A run that has been stopped has been so by a stop. -/
theorem exists_stopsAfter (hr : s₀.world.barrier.signal.halt = .running)
    (hs : (s₀.run ls).world.barrier.signal.halt = .stopped) : ∃ k, s₀.StopsAfter ls k := by
  induction ls using List.reverseRecOn with
  | nil => exact absurd (hr.symm.trans hs) (by rintro ⟨⟩)
  | append_singleton ls l ih =>
    cases hbefore : (s₀.run ls).world.barrier.signal.halt with
    | running =>
      rw [run_snoc] at hs
      obtain rfl := eq_stop_of_fire hbefore hs
      exact ⟨_, ls, [], rfl, hbefore, rfl⟩
    | stopped =>
      obtain ⟨k, hk⟩ := ih hbefore
      exact ⟨k, hk.append [l]⟩
    | aborted =>
      -- an abort is final
      have hrise := (reaches_fire (s₀.run ls) l).heeds.halt
      rw [hbefore, ← run_snoc, hs] at hrise
      cases hrise

/-- After a stop that took effect the run does not go on, and no phase closes any more. -/
theorem StopsAfter.standstill {k : Nat} (h : s₀.StopsAfter ls k) :
    (s₀.run ls).world.barrier.signal.halt ≠ .running ∧
      (s₀.run ls).world.barrier.signal.phase = k := by
  obtain ⟨before, after, rfl, hr, rfl⟩ := h
  have hstop : (s₀.run (before ++ [.stop])).world.barrier =
      (s₀.run before).world.barrier.publish
        { (s₀.run before).world.barrier.signal with halt := .stopped } := by
    rw [run_snoc]
    exact if_pos hr
  have hhalt : (s₀.run (before ++ [.stop])).world.barrier.signal.halt ≠ .running := by
    rw [hstop]; rintro ⟨⟩
  have hheeds := (reaches_run (s₀.run (before ++ [.stop])) after).heeds
  rw [← run_append, List.append_assoc, List.singleton_append] at hheeds
  refine ⟨fun hrun => hhalt (hheeds.halt.eq_running hrun), ?_⟩
  have := congrArg Prod.fst (hheeds.position hhalt)
  rw [hstop] at this
  exact this

/-! ### How far a run has come -/

/-- The phases only go on. -/
theorem Shift.le {l : Label} (h : s.Shift l) :
    s.world.barrier.signal.phase ≤ (s.fire l).world.barrier.signal.phase ∧
      s.world.barrier.opened ≤ (s.fire l).world.barrier.opened := by
  cases h with
  | none hp ho => simp only [Barrier.opened, hp, ho, le_refl, and_self]
  | opens _ _ _ hs hs' => simp [Barrier.opened, hs, hs']
  | closes _ _ _ hs hs' => simp [Barrier.opened, hs, hs']

/-- No more phases close than there are. -/
theorem IsReady.phase_le_span (hs : s₀.IsReady) (ls : List Label) :
    (s₀.run ls).world.barrier.signal.phase ≤ s₀.world.barrier.span := by
  induction ls using List.reverseRecOn with
  | nil =>
    have hstart : (s₀.run []).world.barrier.signal.phase = 0 := congrArg Signal.phase hs.signal
    rw [hstart]
    exact Nat.zero_le _
  | append_singleton ls l ih =>
    have hbooks := hs.balanced_run ls
    rw [run_snoc]
    cases hbooks.shift l with
    | none hp _ => rw [hp]; exact ih
    | opens _ _ _ hsig hsig' => rw [hsig] at ih; rw [hsig']; exact ih
    | @closes i k t _ ht hm _ hsig' =>
      -- whoever hands a token back has arrived for a phase there is
      obtain ⟨-, harrived, -⟩ := hbooks.isDue ht hm
      have hseat : i ∈ s₀.seats := by
        by_contra hseat
        rcases (hbooks.apart i t ht hseat).mark?_eq (s₀.run ls).world.barrier with he | ⟨f, he⟩ <;>
          rw [he] at hm <;> cases hm
      obtain ⟨last, hlast, hbound⟩ :=
        (hbooks.fits i t ht hseat).bounded (by rw [harrived]; exact k.succ_pos)
      rw [hbooks.lastPhase] at hlast
      rw [hsig', Barrier.span, hlast, ← harrived]
      exact hbound

omit [Behaviour σ] in
/-- Whoever has come to its end has given up its part in the barrier. -/
theorem Balanced.loop_of_isOver (h : s₀.Balanced r s) (hover : s.isOver = true) {t : Task σ}
    (ht : t ∈ s.tasks) : t.loop = none := by
  obtain ⟨i, hi⟩ := List.getElem?_of_mem ht
  obtain ⟨res, hres⟩ := Option.isSome_iff_exists.1 (List.all_eq_true.1 hover t ht)
  by_cases hseat : i ∈ s₀.seats
  · exact (h.fits i t hi hseat).ended res (result?_eq_some_iff.1 hres)
  · exact (h.apart i t hi hseat).1

omit [Behaviour σ] in
/-- In a run that has ended without being halted all phases have closed. -/
theorem Balanced.phase_of_isOver (h : s₀.Balanced r s) (hseats : s₀.seats.Nonempty)
    (hl : s₀.world.barrier.launched = true) (hr : s.world.barrier.signal.halt = .running)
    (hover : s.isOver = true) : s.world.barrier.signal.phase = s₀.world.barrier.span := by
  have hsignal := h.signal_of_finished hseats hr (h.launched.trans hl) fun t ht p hp => by
    rw [h.loop_of_isOver hover ht] at hp
    cases hp
  rw [hsignal, Barrier.span, h.lastPhase, Barrier.span]

omit [Behaviour σ] in
/-- What is said about a run that ended well is read off the barrier, which nobody has aborted. -/
theorem of_conclude_eq_ok {summary : Summary} (hb : s.world.barrier.IsHonest)
    (hok : conclude s = .ok summary) :
    summary.phasesCompleted = s.world.barrier.signal.phase ∧
      (summary.stopped = true ↔ s.world.barrier.signal.halt = .stopped) ∧
      s.world.barrier.signal.halt ≠ .aborted := by
  unfold conclude at hok
  split at hok
  · cases hok
  · next hfailure =>
    split at hok
    · cases hok
    · cases hok
      refine ⟨rfl, by simp [Barrier.isStopped], fun haborted => ?_⟩
      have := hb.1 haborted
      rw [hfailure] at this
      cases this

/-- **What is said about stops and phases of a run that ended well.**  It counts as stopped exactly
if a stop took effect, and then as many phases have closed as had closed at that time; otherwise all
of them have.  So fewer phases than there are have closed exactly if a stop took effect before the
last one had closed.  This holds in every order of the moves, whatever the actors do. -/
theorem stopped_iff (hs : s₀.IsReady) (hl : s₀.world.barrier.launched = true)
    (hN : 0 < s₀.world.barrier.required) (hover : (s₀.run ls).isOver = true) {summary : Summary}
    (hok : conclude (s₀.run ls) = .ok summary) :
    (summary.stopped = true ↔ ∃ k, s₀.StopsAfter ls k) ∧
    (∀ k, s₀.StopsAfter ls k → summary.phasesCompleted = k) ∧
    (summary.stopped = false → summary.phasesCompleted = s₀.world.barrier.span) ∧
    summary.phasesCompleted ≤ s₀.world.barrier.span ∧
    (summary.phasesCompleted < s₀.world.barrier.span ↔
      ∃ k < s₀.world.barrier.span, s₀.StopsAfter ls k) := by
  have h := hs.balanced_run ls
  have hseats : s₀.seats.Nonempty := Finset.card_pos.1 (hs.required ▸ hN)
  obtain ⟨hphases, hstopped, haborted⟩ := of_conclude_eq_ok h.honest hok
  have hstart : s₀.world.barrier.signal.halt = .running := by rw [hs.signal]
  have hiff : summary.stopped = true ↔ ∃ k, s₀.StopsAfter ls k := by
    refine hstopped.trans ⟨exists_stopsAfter hstart, fun ⟨k, hk⟩ => ?_⟩
    cases hhalt : (s₀.run ls).world.barrier.signal.halt with
    | running => exact absurd hhalt hk.standstill.1
    | stopped => rfl
    | aborted => exact absurd hhalt haborted
  have hclosed (k : Nat) (hk : s₀.StopsAfter ls k) : summary.phasesCompleted = k :=
    hphases.trans hk.standstill.2
  have hall (hno : summary.stopped = false) :
      summary.phasesCompleted = s₀.world.barrier.span := by
    refine hphases.trans (h.phase_of_isOver hseats hl ?_ hover)
    cases hhalt : (s₀.run ls).world.barrier.signal.halt with
    | running => rfl
    | stopped => rw [hstopped.2 hhalt] at hno; cases hno
    | aborted => exact absurd hhalt haborted
  refine ⟨hiff, hclosed, hall, hphases.trans_le (hs.phase_le_span ls), fun hlt => ?_,
    fun ⟨k, hlt, hk⟩ => hclosed k hk ▸ hlt⟩
  obtain ⟨k, hk⟩ := hiff.1 (by
    by_contra hno
    exact hlt.ne (hall (by simpa using hno)))
  exact ⟨k, hclosed k hk ▸ hlt, hk⟩

/-! ### An early stop and a late one -/

/-- Two actors in one phase that waits for the host, but not for the guest. -/
def encore : System Flaky where
  world := duet.world
  tasks := [.player "host" 0 {} [.once 0 true], .player "guest" 1 {} [.once 0 false]]

theorem isReady_encore : encore.IsReady where
  signal := rfl
  arrived := rfl
  outstanding := rfl
  failure := rfl
  required := by decide
  tasks := by
    intro t ht
    rcases List.mem_pair.1 ht with rfl | rfl
    · exact Task.isReady_player _ _ _ _
    · exact Task.isReady_player _ _ _ _

/-- The guest is in its iteration while the host takes `n` steps; then the run is stopped. -/
def encoreUntil (n : Nat) : List Label :=
  List.replicate 6 (.act 0) ++ List.replicate 14 (.act 1) ++ List.replicate n (.act 0)

/-- Both go on to their ends after a stop. -/
def encoreStopped (n : Nat) : List Label :=
  encoreUntil n ++ .stop :: (List.replicate 24 (.act 0) ++ List.replicate 24 (.act 1))

/-- Stopped while both are at work, the run ends before its phase has closed. -/
theorem stopped_iff_encore :
    encore.IsReady ∧ encore.world.barrier.launched = true ∧ 0 < encore.world.barrier.required ∧
      (encore.run (encoreStopped 4)).isOver = true ∧ encore.world.barrier.span = 1 ∧
      encore.StopsAfter (encoreStopped 4) 0 ∧
      ∃ summary, conclude (encore.run (encoreStopped 4)) = .ok summary ∧
        summary.stopped = true ∧ summary.phasesCompleted = 0 := by
  have hover : (encore.run (encoreStopped 4)).isOver = true := by decide +kernel
  have hstops : encore.StopsAfter (encoreStopped 4) 0 :=
    ⟨encoreUntil 4, _, rfl, by decide +kernel, by decide +kernel⟩
  have hwell : (conclude (encore.run (encoreStopped 4))).toOption.isSome = true := by
    decide +kernel
  refine ⟨isReady_encore, rfl, by decide, hover, rfl, hstops, ?_⟩
  cases hok : conclude (encore.run (encoreStopped 4)) with
  | error err => rw [hok] at hwell; cases hwell
  | ok summary =>
    obtain ⟨hstopped, hclosed, -⟩ := stopped_iff isReady_encore rfl (by decide) hover hok
    exact ⟨summary, rfl, hstopped.2 ⟨0, hstops⟩, hclosed 0 hstops⟩

/-- The host has come to its end, and the phase has closed, when the run is stopped while the guest
is still at work.  The run counts as stopped although its only phase has closed. -/
theorem stopped_encore :
    encore.IsReady ∧ encore.world.barrier.launched = true ∧ encore.world.barrier.span = 1 ∧
      (encore.run (encoreUntil 22)).world.barrier.signal = ⟨1, false, .running⟩ ∧
      (encore.run (encoreStopped 22)).isOver = true ∧
      ∃ summary, conclude (encore.run (encoreStopped 22)) = .ok summary ∧
        ¬ (summary.stopped = true ↔ summary.phasesCompleted < encore.world.barrier.span) := by
  have hsaid : ((conclude (encore.run (encoreStopped 22))).toOption.any fun summary =>
      summary.stopped && summary.phasesCompleted == 1) = true := by decide +kernel
  refine ⟨isReady_encore, rfl, rfl, by decide +kernel, by decide +kernel, ?_⟩
  cases hok : conclude (encore.run (encoreStopped 22)) with
  | error err => rw [hok] at hsaid; cases hsaid
  | ok summary =>
    rw [hok, Except.toOption, Option.any_some, Bool.and_eq_true, beq_iff_eq] at hsaid
    refine ⟨summary, rfl, fun hiff => ?_⟩
    have hlt := hiff.1 hsaid.1
    rw [hsaid.2] at hlt
    exact absurd hlt (by decide)

end System

end Lockstep
