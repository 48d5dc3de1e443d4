import Lockstep.Proofs.Handouts
import Lockstep.Proofs.SetUpTasks

/-!
# Runs that are completed

A run that is neither stopped nor aborted, and all of whose actors go on until they are told that
there are no more phases, goes through all phases of its workload.

* `System.Balanced.signal_of_finished` : when everybody has finished, all phases have closed;
* `Task.IsRegular` : an actor that began its run once, and ends it once;
* `System.complete_schedule` : **each actor is handed the phases its block configures, in ascending
  order, and then told that there are no more; the run ends well, with all phases completed.**
-/

namespace Lockstep

/-! ### Actors that begin and end once -/

namespace Task

variable {σ : Type} {t t' : Task σ}

/-- The actor is where its stage says it is in its life, and has not been refused. -/
structure IsRegular (t : Task σ) : Prop where
  lifecycle : t.lifecycle = t.stage.lifecycle
  unrefused : ∀ state, t.stage.outcome? ≠ some (.refused state)

theorem isRegular_fresh (name : String) (id : Nat) (mind : σ) (loop : Option Participant) :
    (Task.fresh name id mind loop).IsRegular :=
  ⟨rfl, by rintro _ ⟨⟩⟩

/-- At most stages there is nothing to say but that the work goes on. -/
theorem IsRegular.of_running (hl : t.lifecycle = .running) (hs : t.stage.lifecycle = .running)
    (ho : t.stage.outcome? = none) : t.IsRegular :=
  ⟨hl.trans hs.symm, fun _ h => by rw [ho] at h; cases h⟩

theorem isRegular_conclude (w : World) (hl : t.lifecycle = .running) (e : Ending) :
    (conclude w t e).task.IsRegular := by
  simp only [conclude, hl, Lifecycle.terminate]
  exact ⟨rfl, by rintro _ ⟨⟩⟩

variable [Behaviour σ]

theorem IsRegular.quits (hl : t.lifecycle = .running) (hq : t.Quits t') : t'.IsRegular := by
  cases hq with
  | leaves hk hs => exact .of_running (hk.lifecycle.trans hl) (by rw [hs]; rfl) (by rw [hs]; rfl)
  | ends w e hk he => exact isRegular_conclude w (hk.lifecycle.trans hl) e

theorem IsRegular.worked (hl : t.lifecycle = .running) (hw : t.Worked t') : t'.IsRegular := by
  cases hw with
  | goesOn hk hs =>
    exact .of_running (hk.lifecycle.trans hl) (Stage.lifecycle_of_isAtWork hs)
      (Stage.outcome?_of_isAtWork hs)
  | departs hs hp => exact .of_running hl rfl rfl
  | quits hq => exact .quits hl hq

theorem IsRegular.turn {w : World} {b' : Barrier} (h : t.IsRegular) (ht : t.Turn w b' t') :
    t'.IsRegular := by
  have hlife := h.lifecycle
  have hunrefused := h.unrefused
  cases ht with
  | works hs hw =>
    rw [Stage.lifecycle_of_isAtWork hs] at hlife
    exact .worked hlife hw
  | begins hs hstart =>
    rw [hs] at hlife
    rw [show t.lifecycle = .constructed from hlife] at hstart
    cases hstart
    exact .of_running rfl rfl rfl
  | refuses hs hstart =>
    rw [hs] at hlife
    rw [show t.lifecycle = .constructed from hlife] at hstart
    cases hstart
  | advances hs hp ha =>
    rw [hs] at hlife
    generalize Advance.step _ _ _ = y at ha
    obtain ⟨b, p, r⟩ := y
    cases ha with
    | blocked => exact ⟨by rw [hs]; exact hlife, by rw [hs]; rintro _ ⟨⟩⟩
    | moved a => exact .of_running hlife rfl rfl
    | entered plan last now => exact .of_running hlife rfl rfl
    | finishes now => exact .of_running hlife rfl rfl
    | failed now e => exact .of_running hlife rfl rfl
    | broken w message => exact isRegular_conclude (t := { t with loop := some p }) w hlife _
  | idles hs hp hr =>
    refine .of_running (hlife.trans ?_) rfl rfl
    rcases hs with ⟨x, hs⟩ | ⟨f, hs⟩ <;> rw [hs] <;> rfl
  | withdraws hs hp h => rw [hs] at hlife; exact .of_running hlife rfl rfl
  | leaves hs hp h => rw [hs] at hlife; exact .of_running hlife rfl rfl
  | blames hs h => rw [hs] at hlife hunrefused; exact ⟨hlife, hunrefused⟩
  | acquits hs h => rw [hs] at hlife hunrefused; exact ⟨hlife, hunrefused⟩
  | reads hs => rw [hs] at hlife hunrefused; exact ⟨hlife, hunrefused⟩
  | accuses hs => rw [hs] at hlife hunrefused; exact ⟨hlife, hunrefused⟩
  | parts hs hp h => rw [hs] at hlife hunrefused; exact ⟨hlife, hunrefused⟩
  | ends hs hp h => rw [hs] at hlife hunrefused; exact ⟨hlife, hunrefused⟩
  | closes hs hp => rw [hs] at hlife hunrefused; exact ⟨hlife, hunrefused⟩
  | rests hs => exact h

theorem IsRegular.interrupt (h : t.IsRegular) (w : World) : (t.interrupt w).task.IsRegular := by
  have hlife := h.lifecycle
  rcases interrupt_worked w t with he | ⟨hs, hw⟩ | ⟨x, hs, hq⟩
  · rw [he]; exact h
  · rw [Stage.lifecycle_of_isAtWork hs] at hlife
    exact .worked hlife hw
  · rw [hs] at hlife
    exact .quits hlife hq

end Task

theorem Assembly.IsCast.isRegular {roster : Roster} {blocks cast : List Block} {a : Assembly}
    (ha : a.IsCast roster blocks cast) : ∀ t ∈ a.tasks, t.IsRegular := by
  intro t ht
  obtain ⟨i, hi⟩ := List.getElem?_of_mem ht
  obtain ⟨b, -, kind, s, mind, -, -, rfl⟩ := ha.plays i t hi
  exact Task.isRegular_fresh _ _ _ _

namespace System

variable {σ : Type} {s₀ s : System σ} {r : Record}

section

variable [Behaviour σ]

theorem isRegular_run (h : ∀ t ∈ s₀.tasks, t.IsRegular) (ls : List Label) :
    ∀ t ∈ (s₀.run ls).tasks, t.IsRegular := by
  refine run_induction (P := fun _ s => ∀ t ∈ s.tasks, t.IsRegular) ls h ?_
  intro r s l _ hs t ht
  obtain ⟨i, hi⟩ := List.getElem?_of_mem ht
  obtain ⟨u, hu, ⟨-, rfl⟩ | ⟨-, rfl⟩ | ⟨-, rfl⟩⟩ := task_of_fire hi
  · exact (hs u (List.mem_of_getElem? hu)).turn (Task.turn_step s.world u)
  · exact (hs u (List.mem_of_getElem? hu)).interrupt s.world
  · exact hs t (List.mem_of_getElem? hu)

end

/-- Nobody was refused, where everybody began once. -/
theorem firstRefusal?_eq_none (hs : ∀ t ∈ s.tasks, t.IsRegular) :
    firstRefusal? s.tasks = none := by
  refine List.findSome?_eq_none_iff.2 fun t ht => ?_
  split
  · next state hres =>
    rw [result?_eq_some_iff] at hres
    exact absurd (by rw [hres]; rfl) ((hs t ht).unrefused state)
  · rfl

/-- What is said about a run that has not been halted and in which nobody was refused. -/
theorem conclude_of_running (hb : s.world.barrier.IsHonest)
    (hr : s.world.barrier.signal.halt = .running) (hs : ∀ t ∈ s.tasks, t.IsRegular) :
    ∃ summary, conclude s = .ok summary ∧ summary.stopped = false ∧
      summary.phasesCompleted = s.world.barrier.signal.phase := by
  have hfailure : s.world.barrier.failure = none := by
    by_contra hf
    have := hb.2 (Option.isSome_iff_ne_none.2 hf)
    rw [hr] at this
    cases this
  simp only [conclude, hfailure, firstRefusal?_eq_none hs]
  exact ⟨_, rfl, by simp [Barrier.isStopped, hr], rfl⟩

/-! ### When everybody has finished -/

/-- When everybody has finished all phases have closed. -/
theorem Balanced.signal_of_finished (h : s₀.Balanced r s) (hseats : s₀.seats.Nonempty)
    (hr : s.world.barrier.signal.halt = .running) (hl : s.world.barrier.launched = true)
    (hfin : ∀ t ∈ s.tasks, ∀ p, t.loop = some p → p.finished = true) :
    s.world.barrier.signal = ⟨s.world.barrier.span, false, .running⟩ := by
  have hdone : ∀ i ∈ s₀.seats, (r.handbacks i).length = (r.arrivals i).length ∧
      s.world.barrier.span = (r.arrivals i).length := by
    intro i hi
    obtain ⟨t, ht⟩ := h.task_of_mem_seats hi
    have hfits := h.fits i t ht hi
    obtain ⟨hsame, hpast⟩ := hfits.of_finished hr hl (hfin t (List.mem_of_getElem? ht))
    refine ⟨hsame, le_antisymm (Barrier.span_le_iff.2 hpast) ?_⟩
    -- nobody arrives for a phase that is not to come
    rcases Nat.eq_zero_or_pos (r.arrivals i).length with h0 | hpos
    · omega
    · obtain ⟨last, hlast, hle⟩ := hfits.bounded hpos
      rwa [Barrier.span, hlast]
  have hclosed : s.world.barrier.signal.isOpen = false := by
    by_contra ho
    -- somebody would still have the token of the phase that is open
    have hw := h.accounts.working (by simpa using ho)
    obtain ⟨j, hj⟩ := Finset.card_pos.1 (hw.outstanding ▸ hw.held)
    obtain ⟨hseat, hheld⟩ := Finset.mem_filter.1 hj
    have := hw.arrivals j hseat
    have := (hdone j hseat).1
    omega
  obtain ⟨i, hi⟩ := hseats
  have hphase : s.world.barrier.signal.phase = s.world.barrier.span := by
    rw [(hdone i hi).2, ← (hdone i hi).1, (h.accounts.gathering hclosed).handbacks i hi]
  rw [← hphase, ← hclosed, ← hr]

/-! ### Complete runs -/

/-- What an actor of a block is handed: the phases with something to do that the block configures,
each once and in ascending order, and only after all of them, as often as the actor asks, that there
are no more. -/
def IsServed (roster : Roster) (b : Block) (out : List (Option PhasePlan)) : Prop :=
  ∃ (kind : Kind) (plans : List PhasePlan), roster.find? b.actorType = some kind ∧
    plans.Pairwise (fun plan plan' => plan.number < plan'.number) ∧
    (∀ plan, plan ∈ plans ↔
      plan.nop = false ∧ b.Configures (b.name.getD kind.defaultName) plan) ∧
    (∃ n, out <+: plans.map some ++ List.replicate n none) ∧
    (none ∈ out → ∃ n, out = plans.map some ++ List.replicate (n + 1) none)

theorem isServed_of_deals {roster : Roster} {b : Block} {kind : Kind} {setting : Setting}
    (hs : b.IsSetting roster kind setting) {m : Nat} {out : List (Option PhasePlan)}
    (h : setting.schedule.Deals m out) : IsServed roster b out := by
  have hnum := Schedule.isNumbered_ofBlock hs.schedule
  refine ⟨kind, setting.schedule.busy, hs.found, Schedule.busy_ascending hnum, fun plan => ?_,
    h.isPrefix hnum, h.of_none_mem⟩
  rw [Schedule.busy, List.mem_filter, Schedule.mem_values_ofBlock hs.schedule, hs.name,
    Bool.not_eq_true', and_comm]

/-- **Every actor is handed the phases its block configures**, and then told that there are no more.
When all of them have been told so, the phases up to the last one that any block configures have
closed, and a run that ends like that ends well.  This holds in every order of the moves, as long as
nobody stops or aborts the run, so that it still goes on.

The tokens are counted in a word, so there are fewer actors than a word can count. -/
theorem complete_schedule {roster : Roster} {w : Workload} {store : Store} {a : Assembly}
    {sink : Sink} {ls : List Label} (hset : setUp roster w store = (.ok (), a))
    (hparts : w.TakesPart roster) (hsome : 0 < Block.headcount w.actors)
    (hroom : Block.headcount w.actors < wordLimit)
    (hr : (((a.system sink).onBarrier Barrier.launch).run ls).world.barrier.signal.halt =
      .running) :
    let s₀ := (a.system sink).onBarrier Barrier.launch
    let s := s₀.run ls
    s.tasks.length = Block.headcount w.actors ∧
    (∀ i b, w.cast[i]? = some b → IsServed roster b (s₀.handouts i ls)) ∧
    ((∀ i < Block.headcount w.actors, none ∈ s₀.handouts i ls) →
      s.world.barrier.signal = ⟨w.phaseCount, false, .running⟩ ∧
      (s.isOver = true → ∃ summary, conclude s = .ok summary ∧ summary.stopped = false ∧
        summary.phasesCompleted = w.phaseCount)) := by
  intro s₀ s
  have hcast := Assembly.isCast_setUp hparts hroom hset
  have hready : s₀.IsReady := (hcast.isReady sink).launch
  have hbooks := hready.balanced_run ls
  have hlength : s.tasks.length = Block.headcount w.actors :=
    hbooks.length.trans (hcast.length.trans w.length_cast)
  have hspan : s.world.barrier.span = w.phaseCount := by
    rw [Barrier.span, hbooks.lastPhase]
    exact hcast.span
  -- every place in the cast is filled by an actor that goes through the schedule of its block
  have hdealt (i : Nat) (b : Block) (hb : w.cast[i]? = some b) : ∃ kind setting,
      b.IsSetting roster kind setting ∧
        ∀ t, s.tasks[i]? = some t → t.IsDealt setting.schedule (s₀.handouts i ls) := by
    have hi : i < a.tasks.length := hcast.length ▸ (List.getElem?_eq_some_iff.1 hb).1
    obtain ⟨b', hb', kind, setting, mind, hs, -, ht⟩ :=
      hcast.plays i _ (List.getElem?_eq_getElem hi)
    cases hb.symm.trans hb'
    exact ⟨kind, setting, hs, fun t ht' => hready.isDealt_run hr
      ((List.getElem?_eq_getElem hi).trans (congrArg some ht)) rfl
      (hcast.fitsIn (w.mem_actors_of_mem_cast (List.mem_of_getElem? hb)) hs) ht'⟩
  refine ⟨hlength, fun i b hb => ?_, fun htold => ?_⟩
  · obtain ⟨kind, setting, hs, hall⟩ := hdealt i b hb
    have hi : i < s.tasks.length := by
      rw [hlength, ← w.length_cast]
      exact (List.getElem?_eq_some_iff.1 hb).1
    obtain ⟨m, hdeals⟩ := (hall _ (List.getElem?_eq_getElem hi)).dealt
    exact isServed_of_deals hs hdeals
  · have hfinished : ∀ t ∈ s.tasks, ∀ p, t.loop = some p → p.finished = true := by
      intro t ht p hp
      obtain ⟨i, hi⟩ := List.getElem?_of_mem ht
      have hlt : i < Block.headcount w.actors := hlength ▸ (List.getElem?_eq_some_iff.1 hi).1
      obtain ⟨kind, setting, -, hall⟩ :=
        hdealt i _ (List.getElem?_eq_getElem (w.length_cast ▸ hlt))
      exact (hall t hi).finished p hp (htold i hlt)
    have hseats : s₀.seats.Nonempty := by
      rw [← Finset.card_pos, ← hready.required]
      have hrequired : s₀.world.barrier.required = a.tasks.length :=
        congrArg Barrier.required hcast.barrier
      rw [hrequired, hcast.length, w.length_cast]
      exact hsome
    have hsignal := hbooks.signal_of_finished hseats hr hbooks.launched hfinished
    rw [hspan] at hsignal
    refine ⟨hsignal, fun _ => ?_⟩
    obtain ⟨summary, hok, hstopped, hphases⟩ := conclude_of_running hbooks.honest hr
      (isRegular_run (fun t ht => hcast.isRegular t ht) ls)
    exact ⟨summary, hok, hstopped, hphases.trans (congrArg Signal.phase hsignal)⟩

/-- A host that greets once in phase 0, and a guest that greets once in phase 1. -/
def greetingPair : Workload where
  actors :=
    [⟨"HelloWorld", some "host", 1, [{ repeats := some 1 }], []⟩,
      ⟨"HelloWorld", some "guest", 1, [{ nop := true }, { repeats := some 1 }], []⟩]

/-- The pair with everything set up. -/
def greetingAssembly : Assembly := (setUp .builtin greetingPair .empty).2

/-- The two take turns until both have come to their end. -/
def greetingTurns : List Label := (List.replicate 48 [.act 0, .act 1]).flatten

theorem setUp_greetingPair :
    setUp .builtin greetingPair .empty = (.ok (), greetingAssembly) :=
  Assembly.setUp_eq_ok (by decide +kernel)

/-- The guest passes phase 0, greets in phase 1, and is told that there are no more phases. -/
theorem complete_schedule_pair :
    setUp .builtin greetingPair .empty = (.ok (), greetingAssembly) ∧
    greetingPair.TakesPart .builtin ∧ Block.headcount greetingPair.actors = 2 ∧
    let s₀ := (greetingAssembly.system .memory).onBarrier Barrier.launch
    (s₀.run greetingTurns).world.barrier.signal.halt = .running ∧
    (s₀.handouts 1 greetingTurns).map (Option.map PhasePlan.number) = [some 1, none] ∧
    (∃ b, greetingPair.cast[1]? = some b ∧ IsServed .builtin b (s₀.handouts 1 greetingTurns)) ∧
    ∃ summary, conclude (s₀.run greetingTurns) = .ok summary ∧ summary.stopped = false ∧
      summary.phasesCompleted = 2 := by
  have hr : (((greetingAssembly.system .memory).onBarrier Barrier.launch).run
      greetingTurns).world.barrier.signal.halt = .running := by decide +kernel
  obtain ⟨-, hserved, hend⟩ := complete_schedule setUp_greetingPair
    (greetingPair.takesPart_builtin) (by decide) (by decide) hr
  have htold : ∀ i < 2, (((greetingAssembly.system .memory).onBarrier Barrier.launch).handouts i
      greetingTurns).any Option.isNone = true := by decide +kernel
  refine ⟨setUp_greetingPair, greetingPair.takesPart_builtin, rfl, hr, by decide +kernel,
    ⟨_, rfl, hserved 1 _ rfl⟩, ?_⟩
  refine (hend fun i hi => ?_).2 (by decide +kernel)
  obtain ⟨x, hx, hnone⟩ := List.any_eq_true.1 (htold i hi)
  rwa [Option.isNone_iff_eq_none.1 hnone] at hx

end System

end Lockstep
