import Lockstep.Proofs.Holding
import Lockstep.Proofs.SetUpSystems

/-!
# Parts in the barrier that are given up

Before a run the parts in the barrier are made one by one, and some of them may be given up again.
A part that is made brings its token, and nothing takes the token back.

* `Participant.giveUp` : what giving up a part does to the barrier when nothing comes in between;
* `Ensemble.prepare?` : the parts that are made and given up before a run;
* `Ensemble.Sound` : as many tokens are required as parts were made;
* `System.Attended` : a token that somebody waits for belongs to a part that is still there;
* `System.attended_or_closed` : **this holds at all times of a run when no part was given up before
  it; otherwise no phase ever opens.**
-/

namespace Lockstep

/-! ### Before a run -/

/-- What giving up a part does to the barrier when nothing comes in between. -/
def Participant.giveUp (p : Participant) (b : Barrier) : Barrier :=
  match Farewell.checking.step b p with
  | (b, none) => b
  | (b, some f) =>
    match f.step b p with
    | (b, none) => b
    | (b, some f) => (f.step b p).1

/-- Whoever gives up a part too early aborts a run that goes on, and nothing else changes. -/
theorem Participant.giveUp_eq (p : Participant) (b : Barrier) : p.giveUp b =
    if !p.finished && b.launched && b.goesOn then b.abort (Farewell.failure p b.currentPhase)
    else b := by
  cases hmissed : !p.finished && b.launched && b.goesOn <;>
    simp [giveUp, Farewell.step, hmissed]

/-- The parts in a barrier, and those that were given up. -/
structure Ensemble where
  barrier : Barrier
  parts : List Participant
  gone : List Participant

namespace Ensemble

/-- What may be done before a run. -/
inductive Preparation where
  /-- A part is made, together with its token. -/
  | build (actor : String) (id block : Nat) (schedule : Schedule) (numbered : schedule.IsNumbered)
  | giveUp (i : Nat)
  /-- The run lasts at least until a phase. -/
  | extendTo (phase : Nat)

/-- Nothing has been done. -/
def start : Ensemble := ⟨.fresh, [], []⟩

/-- Prepares a run further; nothing comes of it when the number of tokens would not fit a word. -/
def prepare? (e : Ensemble) : Preparation → Option Ensemble
  | .build actor id block schedule _ =>
    (e.barrier.addTokens? 1).map fun barrier =>
      { e with barrier, parts := e.parts ++ [.fresh actor id block schedule] }
  | .giveUp i =>
    some (match e.parts[i]? with
    | none => e
    | some p => ⟨p.giveUp e.barrier, e.parts.eraseIdx i, e.gone ++ [p]⟩)
  | .extendTo k => some { e with barrier := e.barrier.extendTo k }

/-- Prepares a run step by step. -/
def prepareAll? (steps : List Preparation) : Option Ensemble := steps.foldlM prepare? start

/-- Nothing has happened at the barrier but that every part that was made has brought its token. -/
structure Sound (e : Ensemble) : Prop where
  signal : e.barrier.signal = ⟨0, false, .running⟩
  arrived : e.barrier.arrived = 0
  outstanding : e.barrier.outstanding = 0
  failure : e.barrier.failure = none
  launched : e.barrier.launched = false
  required : e.barrier.required = e.parts.length + e.gone.length
  ready : ∀ p ∈ e.parts ++ e.gone, p.IsReady

theorem sound_start : start.Sound := ⟨rfl, rfl, rfl, rfl, rfl, rfl, nofun⟩

variable {e e' : Ensemble}

/-- A step of the preparations. -/
theorem Sound.prepare? (h : e.Sound) {step : Preparation} (he : e.prepare? step = some e') :
    e'.Sound := by
  cases step with
  | build actor id block schedule numbered =>
    obtain ⟨b, hb, rfl⟩ := Option.map_eq_some_iff.1 he
    obtain ⟨n, hn, rfl⟩ := Option.map_eq_some_iff.1 hb
    obtain ⟨rfl, -⟩ := addWord?_eq_some_iff.1 hn
    refine ⟨h.signal, h.arrived, h.outstanding, h.failure, h.launched, ?_, fun p hp => ?_⟩
    · simp [h.required]
      omega
    · simp only [List.mem_append, List.mem_singleton] at hp
      rcases hp with (hp | rfl) | hp
      · exact h.ready p (List.mem_append_left _ hp)
      · exact ⟨rfl, rfl, rfl, numbered⟩
      · exact h.ready p (List.mem_append_right _ hp)
  | giveUp i =>
    cases hp : e.parts[i]? with
    | none =>
      simp only [Ensemble.prepare?, hp] at he
      cases he
      exact h
    | some p =>
      have hsame : p.giveUp e.barrier = e.barrier := by
        rw [p.giveUp_eq, h.launched]
        simp
      simp only [Ensemble.prepare?, hp, hsame] at he
      cases he
      have hi : i < e.parts.length := (List.getElem?_eq_some_iff.1 hp).1
      refine ⟨h.signal, h.arrived, h.outstanding, h.failure, h.launched, ?_, fun q hq => ?_⟩
      · rw [h.required, List.length_eraseIdx_of_lt hi, List.length_append, List.length_singleton]
        omega
      · refine h.ready q ?_
        simp only [List.mem_append, List.mem_singleton] at hq ⊢
        rcases hq with hq | hq | rfl
        · exact .inl (List.mem_of_mem_eraseIdx hq)
        · exact .inr hq
        · exact .inl (List.mem_of_getElem? hp)
  | extendTo k =>
    cases he
    exact ⟨h.signal, h.arrived, h.outstanding, h.failure, h.launched, h.required, h.ready⟩

/-- All preparations. -/
theorem Sound.prepareAll? {steps : List Preparation} (h : e.Sound)
    (he : steps.foldlM Ensemble.prepare? e = some e') : e'.Sound := by
  induction steps generalizing e with
  | nil => cases he; exact h
  | cons step steps ih =>
    rw [List.foldlM_cons] at he
    obtain ⟨e₁, h₁, he⟩ := Option.bind_eq_some_iff.1 he
    exact ih (h.prepare? h₁) he

end Ensemble

namespace System

variable {σ : Type} {s₀ s : System σ} {e : Ensemble}

/-- A run begins with the parts that have been made and not been given up. -/
structure Begins (s : System σ) (e : Ensemble) : Prop where
  barrier : s.world.barrier = e.barrier.launch
  parts : s.tasks.filterMap Task.loop = e.parts
  idle : ∀ t ∈ s.tasks, (t.stage = .waiting ∨ t.stage = .acting) ∧ t.stint = none

/-- More tasks come to a system. -/
def joinedBy (s : System σ) (ts : List (Task σ)) : System σ := { s with tasks := s.tasks ++ ts }

/-- With tasks for the parts that were given up a system would be ready to run. -/
theorem Begins.isReady (hb : s.Begins e) (he : e.Sound) {ts : List (Task σ)}
    (hparts : ts.filterMap Task.loop = e.gone) (hidle : ∀ t ∈ ts, t.stage = .waiting ∧ t.stint = none) :
    (s.joinedBy ts).IsReady := by
  have hall : (s.tasks ++ ts).filterMap Task.loop = e.parts ++ e.gone := by
    rw [List.filterMap_append, hb.parts, hparts]
  have hbarrier : (s.joinedBy ts).world.barrier = e.barrier.launch := hb.barrier
  refine ⟨?_, ?_, ?_, ?_, ?_, fun t ht => ?_⟩
  · rw [hbarrier]; exact he.signal
  · rw [hbarrier]; exact he.arrived
  · rw [hbarrier]; exact he.outstanding
  · rw [hbarrier]; exact he.failure
  · rw [hbarrier, joinedBy, card_seats, ← List.length_filterMap_eq_countP, hall, List.length_append]
    exact he.required
  · have hloop (p : Participant) (hp : t.loop = some p) : p.IsReady :=
      he.ready p (hall ▸ List.mem_filterMap.2 ⟨t, ht, hp⟩)
    rcases List.mem_append.1 ht with ht | ht
    · exact ⟨(hb.idle t ht).1, (hb.idle t ht).2, hloop⟩
    · exact ⟨.inl (hidle t ht).1, (hidle t ht).2, hloop⟩

/-! ### While nobody was given up before -/

/-- The positions of the parts in the barrier that have neither finished nor been given up. -/
def engaged (s : System σ) : Finset Nat :=
  (Finset.range s.tasks.length).filter fun i =>
    (s.tasks[i]?.bind Task.loop).any fun p => !p.finished

theorem mem_engaged {i : Nat} : i ∈ s.engaged ↔
    ∃ t p, s.tasks[i]? = some t ∧ t.loop = some p ∧ p.finished = false := by
  simp only [engaged, Finset.mem_filter, Finset.mem_range]
  constructor
  · rintro ⟨hi, h⟩
    rw [List.getElem?_eq_getElem hi] at h ⊢
    obtain ⟨p, hp, hfin⟩ := (Option.any_eq_true _ _).1 h
    exact ⟨_, p, rfl, hp, by simpa using hfin⟩
  · rintro ⟨t, p, ht, hp, hfin⟩
    exact ⟨(List.getElem?_eq_some_iff.1 ht).1, by simp [ht, hp, hfin]⟩

/-- The number of phases of a run. -/
def phases (s : System σ) : Nat := s.world.barrier.lastPhase.elim 0 (· + 1)

/-- A token that somebody waits for belongs to a part that is still there. -/
structure Attended (s₀ : System σ) (r : Record) (s : System σ) : Prop where
  /-- Whoever is not there any more has arrived for all phases, and has handed back all tokens. -/
  settled : ∀ i ∈ s₀.seats, i ∉ s.engaged →
    r.arrivals i = List.range s.phases ∧ r.handbacks i = List.range s.phases
  /-- Before a phase opens, as many parts are there as tokens are required. -/
  tokens : s.world.barrier.signal.isOpen = false → s.world.barrier.signal.phase < s.phases →
    s.world.barrier.required = s.engaged.card
  /-- While a phase is open, as many parts are there as tokens have not been handed back. -/
  held : s.world.barrier.signal.isOpen = true →
    s.world.barrier.outstanding ≤ s.engaged.card
  /-- Somebody whose part is there does not wait for the barrier. -/
  moving : s.engaged.Nonempty → ∃ t ∈ s.tasks, ∃ p, t.loop = some p ∧ p.finished = false ∧
    ∀ c, t.call? = some c → c.isReady s.world.barrier.signal = true

theorem Balanced.settled {r : Record} (h : s₀.Balanced r s)
    (hr : s.world.barrier.signal.halt = .running) (hl : s.world.barrier.launched = true) {i : Nat}
    (hi : i ∈ s₀.seats) (hgone : i ∉ s.engaged) :
    (r.arrivals i).length = s.phases ∧ (r.handbacks i).length = s.phases := by
  obtain ⟨t, ht⟩ := h.task_of_mem_seats hi
  have hfits := h.fits i t ht hi
  obtain ⟨hback, hlast⟩ := hfits.of_finished hr hl fun p hp => by
    by_contra hfin
    exact hgone (mem_engaged.2 ⟨t, p, ht, hp, by simpa using hfin⟩)
  have hphases : (r.arrivals i).length = s.phases := by
    unfold phases
    cases hend : s.world.barrier.lastPhase with
    | none =>
      by_contra hne
      obtain ⟨last, hlast, -⟩ := hfits.bounded (Nat.pos_of_ne_zero hne)
      rw [hend] at hlast
      cases hlast
    | some last =>
      have hlt := hlast last hend
      obtain ⟨last', hend', hle⟩ := hfits.bounded (by omega)
      rw [hend] at hend'
      cases hend'
      show _ = last + 1
      omega
  exact ⟨hphases, hback.trans hphases⟩

theorem Balanced.attended {r : Record} (h : s₀.Balanced r s)
    (hr : s.world.barrier.signal.halt = .running) (hl : s.world.barrier.launched = true) :
    s₀.Attended r s := by
  have hseat {i : Nat} (hi : i ∈ s.engaged) : i ∈ s₀.seats := by
    obtain ⟨t, p, ht, hp, -⟩ := mem_engaged.1 hi
    exact h.mem_seats ht hp
  refine ⟨fun i hi hgone => ?_, fun hclosed hphase => ?_, fun hopen => ?_, fun hne => ?_⟩
  · obtain ⟨ha, hh⟩ := h.settled hr hl hi hgone
    rw [h.arrivals i, h.handbacks i, ha, hh]
    exact ⟨rfl, rfl⟩
  · -- nobody has handed back the token of a phase that has not opened
    rw [h.accounts.required]
    congr 1
    refine Finset.Subset.antisymm (fun i hi => ?_) fun i hi => hseat hi
    by_contra hgone
    have hback := (h.settled hr hl hi hgone).2
    have := ((h.counts hi).gathering hclosed).1
    omega
  · have hworking := h.accounts.working hopen
    rw [hworking.outstanding]
    refine Finset.card_le_card fun i hi => ?_
    obtain ⟨hi, hheld⟩ := Finset.mem_filter.1 hi
    by_contra hgone
    obtain ⟨ha, hh⟩ := h.settled hr hl hi hgone
    have := hworking.arrivals i hi
    omega
  · obtain ⟨i, hi⟩ := hne
    obtain ⟨t, p, ht, hp, hfin⟩ := mem_engaged.1 hi
    obtain ⟨j, u, q, hu, hq, hfin, hready⟩ := h.exists_not_waiting hr hl ht hp hfin
    exact ⟨u, List.mem_of_getElem? hu, q, hq, hfin, hready⟩

/-! ### After somebody was given up before -/

theorem onTask_joinedBy {i : Nat} (hi : i < s.tasks.length) (ts : List (Task σ))
    (f : World → Task σ → Task.Stepped σ) :
    (s.joinedBy ts).onTask i f = (s.onTask i f).joinedBy ts := by
  have ht : s.tasks[i]? = some s.tasks[i] := List.getElem?_eq_getElem hi
  have ht' : (s.joinedBy ts).tasks[i]? = some s.tasks[i] := by
    rw [joinedBy, List.getElem?_append_left hi, ht]
  rw [onTask_of_some ht, onTask_of_some ht', joinedBy, List.set_append_left _ _ hi]
  rfl

variable [Behaviour σ]

/-- The tasks that have come to a system do not matter as long as they do nothing. -/
theorem fire_joinedBy {l : Label} (ts : List (Task σ))
    (hl : ∀ i, l = .act i ∨ l = .interrupt i → i < s.tasks.length) :
    (s.joinedBy ts).fire l = (s.fire l).joinedBy ts := by
  cases l with
  | act i => exact onTask_joinedBy (hl i (.inl rfl)) ts _
  | interrupt i => exact onTask_joinedBy (hl i (.inr rfl)) ts _
  | _ => rfl

/-- The books of a system to which tasks have come that have done nothing. -/
structure Shadowed (s₀ : System σ) (ts : List (Task σ)) (r : Record) (s : System σ) : Prop where
  balanced : (s₀.joinedBy ts).Balanced r (s.joinedBy ts)
  idle : ∀ i, s₀.tasks.length ≤ i → r.arrivals i = []

theorem Shadowed.fire {ts : List (Task σ)} {r : Record} (h : s₀.Shadowed ts r s) (l : Label) :
    ∃ r', s₀.Shadowed ts r' (s.fire l) := by
  have hlength : s.tasks.length = s₀.tasks.length := by
    have := h.balanced.length
    simpa [joinedBy] using this
  by_cases hl : ∀ i, l = .act i ∨ l = .interrupt i → i < s.tasks.length
  · refine ⟨r ++ (s.joinedBy ts).entries l, fire_joinedBy ts hl ▸ h.balanced.fire l, fun i hi => ?_⟩
    have hne : l ≠ .act i := fun heq => by
      have := hl i (.inl heq)
      omega
    rw [(Record.numbers_of_marks_nil r (marks_entries_of_ne hne)).1, h.idle i hi]
  · -- there is no such task in the system
    simp only [not_forall] at hl
    obtain ⟨i, hi, hlt⟩ := hl
    have hnone : s.tasks[i]? = none := List.getElem?_eq_none (Nat.le_of_not_lt hlt)
    have hsame : s.fire l = s := by
      rcases hi with rfl | rfl
      · exact onTask_of_none hnone _
      · exact onTask_of_none hnone _
    rw [hsame]
    exact ⟨r, h⟩

omit [Behaviour σ] in
/-- As long as somebody has not arrived for the first phase, it does not open. -/
theorem Shadowed.closed {ts : List (Task σ)} {r : Record} (h : s₀.Shadowed ts r s) {i : Nat}
    (hi : i ∈ (s₀.joinedBy ts).seats) (hlate : s₀.tasks.length ≤ i) :
    s.world.barrier.signal.phase = 0 ∧ s.world.barrier.signal.isOpen = false := by
  have hcounts : s.world.barrier.Counts 0 (r.handbacks i).length := by
    have := h.balanced.counts hi
    rwa [h.idle i hlate] at this
  have hphase : s.world.barrier.signal.phase = 0 := by
    have := hcounts.phase_le
    have := hcounts.handbacks_le
    omega
  exact ⟨hphase, hcounts.isOpen_eq_false (Nat.zero_le _)⟩

/-- A task for a part that was given up, which does nothing any more. -/
def shade (m : σ) (p : Participant) : Task σ := .fresh p.actor p.id m (some p)

theorem Begins.shadowed (hb : s₀.Begins e) (he : e.Sound) (m : σ) (ls : List Label) :
    ∃ r, s₀.Shadowed (e.gone.map (shade m)) r (s₀.run ls) ∧
      (s₀.run ls).world.barrier.required = e.parts.length + e.gone.length := by
  have hready : (s₀.joinedBy (e.gone.map (shade m))).IsReady := by
    refine hb.isReady he ?_ fun t ht => ?_
    · rw [List.filterMap_map]
      exact List.filterMap_some
    · obtain ⟨p, -, rfl⟩ := List.mem_map.1 ht
      exact ⟨rfl, rfl⟩
  have hrequired : (s₀.joinedBy (e.gone.map (shade m))).seats.card =
      e.parts.length + e.gone.length :=
    hready.required.symm.trans ((congrArg Barrier.required hb.barrier).trans he.required)
  obtain ⟨r, h⟩ : ∃ r, s₀.Shadowed (e.gone.map (shade m)) r (s₀.run ls) := by
    refine (reachable_run s₀ ls).invariant
      (P := fun s => ∃ r, s₀.Shadowed (e.gone.map (shade m)) r s) ⟨[], ?_, fun _ _ => rfl⟩ ?_
    · exact hready.balanced
    · rintro s l ⟨r, h⟩
      exact h.fire l
  exact ⟨r, h, h.balanced.accounts.required.trans hrequired⟩

/-- Where there are no tasks nothing happens to the tokens. -/
theorem agrees_fire_of_isEmpty [IsEmpty σ] (s : System σ) (l : Label) :
    s.world.barrier.Agrees (s.fire l).world.barrier :=
  s.agrees_fire fun i _ => by
    cases s.tasks[i]? with
    | none => rfl
    | some t => exact isEmptyElim t.mind

theorem Begins.required (hb : s₀.Begins e) (he : e.Sound) (ls : List Label) :
    (s₀.run ls).world.barrier.required = e.parts.length + e.gone.length := by
  rcases isEmpty_or_nonempty σ with hσ | ⟨⟨m⟩⟩
  · refine (reachable_run s₀ ls).invariant
      (P := fun s => s.world.barrier.required = e.parts.length + e.gone.length) ?_ fun s l h => ?_
    · rw [hb.barrier]
      exact he.required
    · exact (s.agrees_fire_of_isEmpty l).required.trans h
  · obtain ⟨r, -, h⟩ := hb.shadowed he m ls
    exact h

/-- A run that begins after a part was given up does not come to its first phase. -/
theorem Begins.closed (hb : s₀.Begins e) (he : e.Sound) (hgone : e.gone ≠ []) (ls : List Label) :
    (s₀.run ls).world.barrier.signal.phase = 0 ∧
      (s₀.run ls).world.barrier.signal.isOpen = false := by
  rcases isEmpty_or_nonempty σ with hσ | ⟨⟨m⟩⟩
  · refine (reachable_run s₀ ls).invariant (P := fun s => s.world.barrier.signal.phase = 0 ∧
      s.world.barrier.signal.isOpen = false) ?_ fun s l h => ?_
    · rw [hb.barrier]
      exact ⟨congrArg Signal.phase he.signal, congrArg Signal.isOpen he.signal⟩
    · have hagrees := s.agrees_fire_of_isEmpty l
      exact ⟨hagrees.phase.trans h.1, hagrees.isOpen.trans h.2⟩
  · obtain ⟨r, h, -⟩ := hb.shadowed he m ls
    obtain ⟨p, gone, hp⟩ := List.exists_cons_of_ne_nil hgone
    refine h.closed (i := s₀.tasks.length) ?_ le_rfl
    exact mem_seats.2 ⟨shade m p, by simp [joinedBy, hp], rfl⟩

/-- **As long as a run goes on, no part waits for a token that nobody will bring, provided that no
part was given up before the run**: as many tokens are required as parts are there until a phase
opens, a part that is not there any more has served all phases, and somebody whose part is there
can go on.  **When a part was given up before the run, its token is required all the same, and no
phase ever opens.** -/
theorem attended_or_closed {steps : List Ensemble.Preparation}
    (he : Ensemble.prepareAll? steps = some e) (hb : s₀.Begins e) (ls : List Label) :
    (s₀.run ls).world.barrier.required = e.parts.length + e.gone.length ∧
    (e.gone = [] → (s₀.run ls).world.barrier.signal.halt = .running →
      s₀.Attended (s₀.record ls) (s₀.run ls)) ∧
    (e.gone ≠ [] → (s₀.run ls).world.barrier.signal.phase = 0 ∧
      (s₀.run ls).world.barrier.signal.isOpen = false) := by
  have hsound := Ensemble.sound_start.prepareAll? he
  refine ⟨hb.required hsound ls, fun hgone hr => ?_, fun hgone => hb.closed hsound hgone ls⟩
  have hready : s₀.IsReady := by
    have hnobody : (s₀.joinedBy []).IsReady :=
      hb.isReady hsound (by rw [hgone]; rfl) fun t ht => absurd ht List.not_mem_nil
    rwa [joinedBy, List.append_nil] at hnobody
  have hbooks := hready.balanced_run ls
  refine hbooks.attended hr (hbooks.launched.trans ?_)
  rw [hb.barrier]
  rfl

/-- A host whose guest has been given up before the run. -/
def remnant : System Flaky where
  world :=
    { now := 0
      barrier := { Barrier.fresh with required := 2, lastPhase := some 0, launched := true }
      buckets := .empty, store := .empty, sink := .memory }
  tasks := [.player "host" 0 {} [.once 0 true]]

/-- How this has come about. -/
def remnantSteps : List Ensemble.Preparation :=
  [.build "host" 0 0 (.ofPlans [.once 0 true]) (Schedule.isNumbered_ofPlans _),
    .build "guest" 1 1 (.ofPlans [.once 0 true]) (Schedule.isNumbered_ofPlans _),
    .giveUp 1,
    .extendTo 0]

/-- What it has come to. -/
def remnantEnsemble : Ensemble where
  barrier := { Barrier.fresh with required := 2, lastPhase := some 0 }
  parts := [.fresh "host" 0 0 (.ofPlans [.once 0 true])]
  gone := [.fresh "guest" 1 1 (.ofPlans [.once 0 true])]

theorem prepareAll?_remnant : Ensemble.prepareAll? remnantSteps = some remnantEnsemble := rfl

theorem begins_remnant : remnant.Begins remnantEnsemble where
  barrier := rfl
  parts := rfl
  idle := by
    intro t ht
    cases List.mem_singleton.1 ht
    exact ⟨.inl rfl, rfl⟩

/-- How the parts of the duet have come about. -/
def duetSteps : List Ensemble.Preparation :=
  [.build "host" 0 0 (.ofPlans [.once 0 true]) (Schedule.isNumbered_ofPlans _),
    .extendTo 0,
    .build "guest" 1 1 (.ofPlans [.once 0 false]) (Schedule.isNumbered_ofPlans _)]

/-- The parts of the duet. -/
def duetEnsemble : Ensemble where
  barrier := { Barrier.fresh with required := 2, lastPhase := some 0 }
  parts :=
    [.fresh "host" 0 0 (.ofPlans [.once 0 true]), .fresh "guest" 1 1 (.ofPlans [.once 0 false])]
  gone := []

theorem prepareAll?_duet : Ensemble.prepareAll? duetSteps = some duetEnsemble := rfl

theorem begins_duet : duet.Begins duetEnsemble where
  barrier := rfl
  parts := rfl
  idle t ht := ⟨(isReady_duet.tasks t ht).stage, (isReady_duet.tasks t ht).stint⟩

/-- The guest of the duet is still there while the host waits for it; the host of the remnant waits
for a phase that does not open. -/
theorem attended_or_closed_pair :
    (Ensemble.prepareAll? duetSteps = some duetEnsemble ∧ duet.Begins duetEnsemble ∧
      duet.Attended (duet.record (List.replicate 6 (.act 0)))
        (duet.run (List.replicate 6 (.act 0)))) ∧
    Ensemble.prepareAll? remnantSteps = some remnantEnsemble ∧ remnant.Begins remnantEnsemble ∧
      ∀ ls, (remnant.run ls).world.barrier.signal.isOpen = false :=
  ⟨⟨prepareAll?_duet, begins_duet,
      (attended_or_closed prepareAll?_duet begins_duet _).2.1 rfl (by decide)⟩,
    prepareAll?_remnant, begins_remnant,
    fun ls => ((attended_or_closed prepareAll?_remnant begins_remnant ls).2.2 nofun).2⟩

/-- The host waits for the token of a part that was given up; nobody halts the run, and the phase
does not open whatever happens. -/
theorem stranded_remnant :
    Ensemble.prepareAll? remnantSteps = some remnantEnsemble ∧ remnant.Begins remnantEnsemble ∧
      (remnant.run (List.replicate 6 (.act 0))).world.barrier.signal = ⟨0, false, .running⟩ ∧
      (∀ t ∈ (remnant.run (List.replicate 6 (.act 0))).tasks, t.call? = some (.opening 0) ∧
        (t.step (remnant.run (List.replicate 6 (.act 0))).world).pulse = .blocked) ∧
      (∀ ls, (remnant.run ls).world.barrier.signal.isOpen = false) ∧
      ¬ remnant.Attended (remnant.record (List.replicate 6 (.act 0)))
        (remnant.run (List.replicate 6 (.act 0))) := by
  have hsound := Ensemble.sound_start.prepareAll? prepareAll?_remnant
  refine ⟨prepareAll?_remnant, begins_remnant, by decide, by decide, fun ls => ?_, fun h => ?_⟩
  · exact (begins_remnant.closed hsound nofun ls).2
  · exact absurd (h.tokens (by decide) (by decide)) (by decide)

end System

end Lockstep
