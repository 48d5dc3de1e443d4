import Lockstep.Proofs.InStep

/-!
# Nobody waits forever

* `Task.pulse_step` : a task that cannot go on is at its own work, has come to its end, or waits in
  a call of the barrier for the signal to change;
* `System.deadlock_free` : **as long as some part in the barrier has not finished, somebody with
  such a part can go on**; and nobody can miss the phase it waits for.

When a phase is open, somebody still has its token, and is not waiting for anything but that phase.
When none is open, somebody has not arrived yet; it has not finished either, unless everybody has.
-/

namespace Lockstep

namespace Advance

theorem letIn_ne_blocked (b : Barrier) (p : Participant) (last k : Nat) :
    (letIn b p last k).2.2 ≠ .blocked := by
  simp only [letIn]
  repeat' split
  all_goals rintro ⟨⟩

theorem call?_of_blocked {b : Barrier} {p : Participant} {x : Advance}
    (h : (x.step b p).2.2 = .blocked) : ∃ c, x.call? = some c ∧ (c.step b).2 = .blocked := by
  cases x with
  | leaving c =>
    simp only [step] at h
    split at h
    · next hstep => exact ⟨c, rfl, by rw [hstep]⟩
    all_goals cases h
  | bounding =>
    simp only [step] at h
    split at h <;> cases h
  | choosing last =>
    simp only [step] at h
    repeat' split at h
    all_goals cases h
  | entering last c =>
    simp only [step] at h
    split at h
    · next hstep => exact ⟨c, rfl, by rw [hstep]⟩
    · cases h
    · exact absurd h (letIn_ne_blocked _ _ _ _)
    all_goals cases h
  | passing last k c =>
    simp only [step] at h
    split at h
    · next hstep => exact ⟨c, rfl, by rw [hstep]⟩
    · cases h
    · split at h <;> cases h
    all_goals cases h

end Advance

namespace Task

variable {σ : Type}

theorem pulse_conclude (w : World) (t : Task σ) (e : Ending) :
    (conclude w t e).pulse = .running := by
  unfold conclude
  split <;> rfl

variable [Behaviour σ]

/-- A task that cannot go on is at its own work, or has come to its end, or waits at the barrier. -/
theorem pulse_step {w : World} {t : Task σ} (h : (t.step w).pulse = .blocked) :
    t.stage.isAtWork = true ∨ (∃ r, t.stage = .over r) ∨
      ∃ c, t.call? = some c ∧ c.isReady w.barrier.signal = false := by
  cases hs : t.stage with
  | acting => exact .inl rfl
  | pacing p => exact .inl rfl
  | asleep wake => exact .inl rfl
  | «over» r => exact .inr (.inl ⟨r, rfl⟩)
  | waiting =>
    simp only [step, hs] at h
    split at h <;> cases h
  | advancing x =>
    cases hp : t.loop with
    | none => simp only [step, hs, advance, hp] at h; cases h
    | some p =>
      have hblocked : (x.step w.barrier p).2.2 = .blocked := by
        simp only [step, hs, advance, hp] at h
        generalize x.step w.barrier p = r at h ⊢
        obtain ⟨b, p', r⟩ := r
        cases r with
        | blocked => rfl
        | broken message => simp only [pulse_conclude] at h; cases h
        | _ => cases h
      obtain ⟨c, hc, hstep⟩ := Advance.call?_of_blocked hblocked
      exact .inr (.inr ⟨c, by simp only [call?, hs, hp, hc], Call.step_eq_blocked_iff.1 hstep⟩)
  | leaving f =>
    simp only [step, hs] at h
    repeat' split at h
    all_goals cases h
  | judging r =>
    simp only [step, hs] at h
    split at h <;> cases h
  | reading r message => simp only [step, hs] at h; cases h
  | accusing r f => simp only [step, hs] at h; cases h
  | parting r f =>
    simp only [step, hs] at h
    repeat' split at h
    all_goals cases h

end Task

/-! ### Where an actor waits -/

/-- The numbers of arrivals and handbacks of an actor in a call. -/
def Call.IsAt (a h : Nat) : Call → Prop
  | starting k => a = k ∧ h = k
  | arriving k => a = k ∧ h = k
  | opening k => a = k + 1 ∧ h = k
  | returning k _ => a = k + 1 ∧ h = k
  | closing k => a = k + 1 ∧ h = k + 1

theorem Advance.Fits.isAt {b : Barrier} {p : Participant} {a h : Nat} {x : Advance} {c : Call}
    (hx : x.Fits b p a h) (hc : x.call? = some c) : c.IsAt a h := by
  have hclosing {k : Nat} (hf : p.IsFree b a h) (hn : p.next = k + 1) : (Call.closing k).IsAt a h :=
    ⟨hf.arrivals.trans hn, hf.handbacks.trans hn⟩
  match x, hx with
  | leaving (.returning k wait), ⟨_, ht⟩ => cases hc; exact ⟨ht.arrivals, ht.handbacks⟩
  | leaving (.closing k), ⟨hf, hn⟩ => cases hc; exact hclosing hf hn
  | bounding, _ => cases hc
  | choosing last, _ => cases hc
  | entering last (.starting k), ⟨_, _, _, hk, hf⟩ =>
    cases hc
    exact ⟨hf.arrivals.trans hk.symm, hf.handbacks.trans hk.symm⟩
  | entering last (.arriving k), ⟨_, _, _, hk, hf, _⟩ =>
    cases hc
    exact ⟨hf.arrivals.trans hk.symm, hf.handbacks.trans hk.symm⟩
  | entering last (.opening k), ⟨_, _, _, _, _, ha, hh⟩ => cases hc; exact ⟨ha, hh⟩
  | passing last k (.returning k' wait), ⟨_, hk, _, ht⟩ =>
    cases hc
    exact ⟨hk ▸ ht.arrivals, hk ▸ ht.handbacks⟩
  | passing last k (.closing k'), ⟨_, hk, hf, hn⟩ =>
    cases hc
    exact hk ▸ hclosing hf hn

namespace Task

variable {σ : Type} {t : Task σ} {b : Barrier} {a h : Nat} {c : Call}

theorem Fits.isAt (hf : t.Fits b a h) (hr : b.signal.halt = .running) (hc : t.call? = some c) :
    c.IsAt a h := by
  obtain ⟨x, p, hs, hp, hx⟩ := call?_eq_some hc
  have hst := (hf.standing hr p hp).2
  rw [hs] at hst
  exact Advance.Fits.isAt hst hx

/-- Whoever has finished or given up has handed back every token, and has no phase left. -/
theorem Fits.of_finished (hf : t.Fits b a h) (hr : b.signal.halt = .running)
    (hl : b.launched = true) (hfin : ∀ p, t.loop = some p → p.finished = true) :
    h = a ∧ ∀ last, b.lastPhase = some last → last < a := by
  cases hp : t.loop with
  | none => exact hf.gone hr hl hp
  | some p => exact (hf.standing hr p hp).1.finished (hfin p hp)

end Task

namespace Barrier.Counts

variable {b : Barrier} {a h : Nat} {c : Call}

/-- An actor that cannot go on in a call has arrived for the phase that opens next and waits for the
others, or has left the phase that is open and waits for it to close. -/
theorem of_waiting (hc : b.Counts a h) (hat : c.IsAt a h) (hno : c.isReady b.signal = false) :
    b.signal.isOpen = false ∧ a = b.signal.phase + 1 ∨
      b.signal.isOpen = true ∧ h = b.signal.phase + 1 := by
  cases ho : b.signal.isOpen with
  | false =>
    obtain ⟨hphase, ha⟩ := hc.gathering ho
    refine .inl ⟨rfl, ?_⟩
    cases c with
    | starting k =>
      obtain ⟨-, hne⟩ : b.signal.halt = .running ∧ b.signal.phase ≠ k := by
        simpa [Call.isReady, ho] using hno
      exact absurd (hphase.symm.trans hat.2) hne
    | opening k => rw [hat.1, ← hphase, hat.2]
    | closing k =>
      obtain ⟨-, hle⟩ : b.signal.halt = .running ∧ b.signal.phase ≤ k := by
        simpa [Call.isReady] using hno
      have := hat.2
      omega
    | _ => cases hno
  | true =>
    obtain ⟨hphase, ha⟩ := hc.working ho
    refine .inr ⟨rfl, ?_⟩
    cases c with
    | starting k => rw [hat.2, ← hat.1, hphase]
    | opening k =>
      obtain ⟨-, hne⟩ : b.signal.halt = .running ∧ b.signal.phase ≠ k := by
        simpa [Call.isReady, ho] using hno
      have := hat.1
      omega
    | closing k => rw [hat.2, ← hat.1, hphase]
    | _ => cases hno

end Barrier.Counts

namespace System

variable {σ : Type} {s₀ s : System σ} {r : Record}

theorem Balanced.mem_seats (h : s₀.Balanced r s) {i : Nat} {t : Task σ} (ht : s.tasks[i]? = some t)
    {p : Participant} (hp : t.loop = some p) : i ∈ s₀.seats := by
  by_contra hi
  rw [(h.apart i t ht hi).1] at hp
  cases hp

theorem Balanced.task_of_mem_seats (h : s₀.Balanced r s) {i : Nat} (hi : i ∈ s₀.seats) :
    ∃ t, s.tasks[i]? = some t := by
  obtain ⟨t, ht, -⟩ := System.mem_seats.1 hi
  have hlt : i < s.tasks.length := h.length ▸ (List.getElem?_eq_some_iff.1 ht).1
  exact ⟨_, List.getElem?_eq_getElem hlt⟩

/-- In an open phase somebody has arrived and not yet handed its token back. -/
theorem Balanced.exists_holder (h : s₀.Balanced r s) (ho : s.world.barrier.signal.isOpen = true) :
    ∃ i ∈ s₀.seats, (r.arrivals i).length = s.world.barrier.signal.phase + 1 ∧
      (r.handbacks i).length ≤ s.world.barrier.signal.phase := by
  have hw := h.accounts.working ho
  obtain ⟨i, hi⟩ := Finset.card_pos.1 (hw.outstanding ▸ hw.held)
  obtain ⟨hseat, hheld⟩ := Finset.mem_filter.1 hi
  exact ⟨i, hseat, hw.arrivals i hseat, hheld⟩

/-- Between two phases somebody has not arrived for the next one. -/
theorem Balanced.exists_missing (h : s₀.Balanced r s) (hseats : s₀.seats.Nonempty)
    (ho : s.world.barrier.signal.isOpen = false) :
    ∃ i ∈ s₀.seats, (r.arrivals i).length ≤ s.world.barrier.signal.phase := by
  have hg := h.accounts.gathering ho
  have hlt := hg.missing hseats
  by_contra hall
  simp only [not_exists, not_and, not_le] at hall
  rw [hg.arrived, Finset.filter_true_of_mem hall] at hlt
  exact lt_irrefl _ hlt

/-- The barrier keeps this part waiting: it has arrived for the next phase, or has handed back its
token of the open one. -/
def Awaits (s : System σ) (r : Record) (i : Nat) : Prop :=
  s.world.barrier.signal.isOpen = false ∧
      (r.arrivals i).length = s.world.barrier.signal.phase + 1 ∨
    s.world.barrier.signal.isOpen = true ∧
      (r.handbacks i).length = s.world.barrier.signal.phase + 1

/-- In an open phase, some part that has not finished is not kept waiting. -/
theorem Balanced.exists_working (h : s₀.Balanced r s)
    (hr : s.world.barrier.signal.halt = .running) (hl : s.world.barrier.launched = true)
    (ho : s.world.barrier.signal.isOpen = true) :
    ∃ (j : Nat) (u : Task σ) (q : Participant), s.tasks[j]? = some u ∧ u.loop = some q ∧
      q.finished = false ∧ ¬ s.Awaits r j := by
  obtain ⟨j, hseat, ha, hheld⟩ := h.exists_holder ho
  obtain ⟨u, hu⟩ := h.task_of_mem_seats hseat
  by_cases hq : ∀ q, u.loop = some q → q.finished = true
  · have := ((h.fits j u hu hseat).of_finished hr hl hq).1
    omega
  · simp only [not_forall] at hq
    obtain ⟨q, hq, hfin⟩ := hq
    refine ⟨j, u, q, hu, hq, by simpa using hfin, ?_⟩
    rintro (⟨hclosed, -⟩ | ⟨-, hh⟩)
    · rw [ho] at hclosed
      cases hclosed
    · omega

/-- Nor are all of them kept waiting between two phases. -/
theorem Balanced.exists_late (h : s₀.Balanced r s)
    (hr : s.world.barrier.signal.halt = .running) (hl : s.world.barrier.launched = true)
    (ho : s.world.barrier.signal.isOpen = false) {i : Nat} {t : Task σ} {p : Participant}
    (ht : s.tasks[i]? = some t) (hp : t.loop = some p) (hfin : p.finished = false) :
    ∃ (j : Nat) (u : Task σ) (q : Participant), s.tasks[j]? = some u ∧ u.loop = some q ∧
      q.finished = false ∧ ¬ s.Awaits r j := by
  have hi := h.mem_seats ht hp
  by_cases hwait : s.Awaits r i
  · obtain ⟨j, hseat, hlate⟩ := h.exists_missing ⟨i, hi⟩ ho
    obtain ⟨u, hu⟩ := h.task_of_mem_seats hseat
    have ha : (r.arrivals i).length = s.world.barrier.signal.phase + 1 := by
      rcases hwait with ⟨-, ha⟩ | ⟨hopen, -⟩
      · exact ha
      · rw [ho] at hopen
        cases hopen
    by_cases hq : ∀ q, u.loop = some q → q.finished = true
    · -- so all phases have closed, and there was none for the part that waits to arrive for
      obtain ⟨-, hlast⟩ := (h.fits j u hu hseat).of_finished hr hl hq
      obtain ⟨last, hlast', hle⟩ := (h.fits i t ht hi).bounded (by omega)
      have := hlast last hlast'
      omega
    · simp only [not_forall] at hq
      obtain ⟨q, hq, hfin⟩ := hq
      refine ⟨j, u, q, hu, hq, by simpa using hfin, ?_⟩
      rintro (⟨-, ha⟩ | ⟨hopen, -⟩)
      · omega
      · rw [ho] at hopen
        cases hopen
  · exact ⟨i, t, p, ht, hp, hfin, hwait⟩

/-- While the run goes on, not everybody who has not finished can be waiting. -/
theorem Balanced.exists_not_waiting (h : s₀.Balanced r s)
    (hr : s.world.barrier.signal.halt = .running) (hl : s.world.barrier.launched = true)
    {i : Nat} {t : Task σ} {p : Participant} (ht : s.tasks[i]? = some t) (hp : t.loop = some p)
    (hfin : p.finished = false) :
    ∃ (j : Nat) (u : Task σ) (q : Participant), s.tasks[j]? = some u ∧ u.loop = some q ∧
      q.finished = false ∧ ∀ c, u.call? = some c → c.isReady s.world.barrier.signal = true := by
  obtain ⟨j, u, q, hu, hq, hfin, hnot⟩ : ∃ (j : Nat) (u : Task σ) (q : Participant),
      s.tasks[j]? = some u ∧ u.loop = some q ∧ q.finished = false ∧ ¬ s.Awaits r j := by
    cases ho : s.world.barrier.signal.isOpen with
    | true => exact h.exists_working hr hl ho
    | false => exact h.exists_late hr hl ho ht hp hfin
  refine ⟨j, u, q, hu, hq, hfin, fun c hc => ?_⟩
  by_contra hready
  have hseat := h.mem_seats hu hq
  exact hnot ((h.counts hseat).of_waiting ((h.fits j u hu hseat).isAt hr hc) (by simpa using hready))

variable [Behaviour σ]

/-- A phase that opens or closes by the step of another task does so for everybody. -/
theorem Balanced.counts_fire (h : s₀.Balanced r s) {i j : Nat} {u : Task σ}
    (hu : s.tasks[j]? = some u) (hi : i ∈ s₀.seats) (hij : j ≠ i) :
    (s.fire (.act j)).world.barrier.Counts (r.arrivals i).length (r.handbacks i).length := by
  have hc := (h.fire (.act j)).counts hi
  obtain ⟨ha, hh⟩ := Record.numbers_of_marks_nil r ((marks_entries_act hu i).trans (if_neg hij))
  rw [ha, hh] at hc
  exact hc

/-- When a phase opens, everybody has arrived for it who does not do so in that very move. -/
theorem Balanced.arrived_of_opens (h : s₀.Balanced r s) {l : Label} {k i : Nat} (ho : s.Opens l k)
    {t : Task σ} (hi : s.tasks[i]? = some t) (hseat : i ∈ s₀.seats)
    (ht : t.call? ≠ some (.arriving k)) : k < (r.arrivals i).length := by
  obtain ⟨j, u, rfl, hu, hm, hs, hs'⟩ := h.of_opens ho
  by_cases hji : j = i
  · subst hji
    cases hu.symm.trans hi
    exact absurd (Task.call?_of_arrival hm) ht
  · have hworking := (h.counts_fire hu hseat hji).working (by rw [hs'])
    rw [hs'] at hworking
    exact hworking.1.ge

/-- When a phase closes, everybody has handed its token back who does not do so in that very
move. -/
theorem Balanced.returned_of_closes (h : s₀.Balanced r s) {l : Label} {k i : Nat}
    (hc : s.Closes l k) {t : Task σ} (hi : s.tasks[i]? = some t) (hseat : i ∈ s₀.seats)
    (ht : ∀ wait, t.call? ≠ some (.returning k wait)) : k < (r.handbacks i).length := by
  obtain ⟨j, u, rfl, hu, hm, hs, hs'⟩ := h.of_closes hc
  by_cases hji : j = i
  · subst hji
    cases hu.symm.trans hi
    obtain ⟨wait, hcall⟩ := Task.call?_of_handback hm
    exact absurd hcall (ht wait)
  · have hgathering := (h.counts_fire hu hseat hji).gathering (by rw [hs'])
    rw [hs'] at hgathering
    exact hgathering.1.ge

/-- Nobody misses the phase it waits for. -/
theorem Balanced.not_missed (h : s₀.Balanced r s) {t : Task σ} (ht : t ∈ s.tasks) (l : Label)
    (k : Nat) :
    (t.call? = some (.starting k) → ¬ s.Opens l k) ∧
    (t.call? = some (.opening k) → ¬ s.Closes l k) ∧
    (t.call? = some (.closing k) → ¬ s.Opens l (k + 1)) := by
  obtain ⟨i, hi⟩ := List.getElem?_of_mem ht
  have hat {c : Call} (hc : t.call? = some c) (hr : s.world.barrier.signal.halt = .running) :
      i ∈ s₀.seats ∧ c.IsAt (r.arrivals i).length (r.handbacks i).length := by
    obtain ⟨x, p, -, hp, -⟩ := Task.call?_eq_some hc
    have hseat := h.mem_seats hi hp
    exact ⟨hseat, (h.fits i t hi hseat).isAt hr hc⟩
  have hopens {k : Nat} (ho : s.Opens l k) : s.world.barrier.signal.halt = .running := by
    obtain ⟨_, _, -, -, -, hs, -⟩ := h.of_opens ho
    rw [hs]
  refine ⟨fun hc ho => ?_, fun hc hcl => ?_, fun hc ho => ?_⟩
  · obtain ⟨hseat, ha, -⟩ := hat hc (hopens ho)
    have := h.arrived_of_opens ho hi hseat (by rw [hc]; rintro ⟨⟩)
    omega
  · have hr : s.world.barrier.signal.halt = .running := by
      obtain ⟨_, _, -, -, -, hs, -⟩ := h.of_closes hcl
      rw [hs]
    obtain ⟨hseat, -, hh⟩ := hat hc hr
    have := h.returned_of_closes hcl hi hseat (by rw [hc]; rintro _ ⟨⟩)
    omega
  · obtain ⟨hseat, ha, -⟩ := hat hc (hopens ho)
    have := h.arrived_of_opens ho hi hseat (by rw [hc]; rintro ⟨⟩)
    omega

/-- **As long as some part in the barrier has neither finished nor been given up, somebody with such
a part can go on**: it is at its own work, or can take a step.  And nobody misses the phase it waits
for: phase `k` does not open before the actor has arrived for it, nor close before it has gone in,
nor does phase `k + 1` open before the actor has seen phase `k` closed. -/
theorem deadlock_free (hs : s₀.IsReady) (hl : s₀.world.barrier.launched = true)
    (h : s₀.Reachable s) :
    ((∃ t ∈ s.tasks, ∃ p, t.loop = some p ∧ p.finished = false) →
      ∃ t ∈ s.tasks, ∃ p, t.loop = some p ∧ p.finished = false ∧
        (t.stage.isAtWork = true ∨ (t.step s.world).pulse ≠ .blocked)) ∧
    ∀ t ∈ s.tasks, ∀ l k,
      (t.call? = some (.starting k) → ¬ s.Opens l k) ∧
      (t.call? = some (.opening k) → ¬ s.Closes l k) ∧
      (t.call? = some (.closing k) → ¬ s.Opens l (k + 1)) := by
  obtain ⟨ls, rfl⟩ := reachable_iff_run.1 h
  have hbooks := hs.balanced_run ls
  refine ⟨fun ⟨t, ht, p, hp, hfin⟩ => ?_, fun t ht l k => hbooks.not_missed ht l k⟩
  obtain ⟨i, hi⟩ := List.getElem?_of_mem ht
  -- somebody with such a part does not wait in a call
  obtain ⟨j, u, q, hu, hq, hfin, hready⟩ : ∃ (j : Nat) (u : Task σ) (q : Participant),
      (s₀.run ls).tasks[j]? = some u ∧ u.loop = some q ∧ q.finished = false ∧
      ∀ c, u.call? = some c → c.isReady (s₀.run ls).world.barrier.signal = true := by
    by_cases hr : (s₀.run ls).world.barrier.signal.halt = .running
    · exact hbooks.exists_not_waiting hr (hbooks.launched.trans hl) hi hp hfin
    · exact ⟨i, t, p, hi, hp, hfin, fun c _ => c.isReady_of_halted hr⟩
  refine ⟨u, List.mem_of_getElem? hu, q, hq, hfin, ?_⟩
  by_contra hno
  obtain ⟨hwork, hpulse⟩ := not_or.1 hno
  rcases Task.pulse_step (not_not.1 hpulse) with hw | ⟨r, hover⟩ | ⟨c, hc, hwaits⟩
  · exact hwork hw
  · rw [(hbooks.fits j u hu (hbooks.mem_seats hu hq)).ended r hover] at hq
    cases hq
  · rw [hready c hc] at hwaits
    cases hwaits

/-- While the host waits for the phase to open, the guest can go on. -/
theorem deadlock_free_duet :
    duet.IsReady ∧ duet.world.barrier.launched = true ∧
      (((duet.run (List.replicate 6 (.act 0))).tasks.map fun t => t.call?) =
        [some (.opening 0), none]) ∧
      ∃ t ∈ (duet.run (List.replicate 6 (.act 0))).tasks, ∃ p, t.loop = some p ∧
        p.finished = false ∧ (t.stage.isAtWork = true ∨
          (t.step (duet.run (List.replicate 6 (.act 0))).world).pulse ≠ .blocked) :=
  ⟨isReady_duet, rfl, by decide,
    (deadlock_free isReady_duet rfl (reachable_run duet (List.replicate 6 (.act 0)))).1
      ⟨_, List.mem_cons_self, _, rfl, rfl⟩⟩

end System

end Lockstep
