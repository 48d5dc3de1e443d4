import Lockstep.Proofs.GreeterBalance
import Lockstep.Proofs.Updates

/-!
# Runs of greeters, whatever happens to them

Greeters with one counter sing through a run that may be stopped, or aborted by one of them, at any
time.

* `System.IsChorus` : greeters with one counter that have not begun, with no rate in any phase;
* `System.IsChorus.singing_run` : they sing all along the run;
* `System.IsChorus.desertions_run` : nobody deserts the others;
* `System.IsChorus.refused_run` : **a greeter remembers a refusal exactly if the sink has refused
  one of its events**;
* `System.IsChorus.accounts_run` : **while nobody has aborted the run, what has been added to the
  counter has been recorded or is owed**.
-/

namespace Lockstep

/-- Nobody is called away, and nobody outside aborts the run. -/
def Label.IsCalm : Label → Prop
  | .interrupt _ => False
  | .abort _ => False
  | _ => True

instance : DecidablePred Label.IsCalm
  | .interrupt _ | .abort _ => inferInstanceAs (Decidable False)
  | .act _ | .work | .stop | .requestEnd _ | .tick _ => inferInstanceAs (Decidable True)

/-- Whoever has given up a part in a run that was halted has done so in any later one. -/
theorem Task.PartsWell.mono {b b' : Barrier} {t : Task Mind} (h : t.PartsWell b)
    (hb : b.Heeds b') : t.PartsWell b' := by
  intro r f hf
  obtain ⟨hchecking, hwell⟩ := h r f hf
  exact ⟨hchecking, fun p hp => (hwell p hp).imp_right fun hh hr => hh (hb.halt.eq_running hr)⟩

namespace System

section

variable {σ : Type} [Behaviour σ]

omit [Behaviour σ] in
theorem onBarrier_launch {s : System σ} (hl : s.world.barrier.launched = true) :
    s.onBarrier Barrier.launch = s := by
  have hb : s.world.barrier.launch = s.world.barrier := by
    unfold Barrier.launch
    rw [← hl]
  rw [onBarrier, hb]

/-- In a calm run only a step changes a task. -/
theorem step_of_fire {s : System σ} {l : Label} (hl : l.IsCalm) {i : Nat} {t' : Task σ}
    (h : (s.fire l).tasks[i]? = some t') : ∃ t, s.tasks[i]? = some t ∧
      (l = .act i ∧ t' = (t.step s.world).task ∨ l ≠ .act i ∧ t' = t) := by
  obtain ⟨t, ht, hact | ⟨rfl, -⟩ | hkept⟩ := task_of_fire h
  · exact ⟨t, ht, .inl hact⟩
  · cases hl
  · exact ⟨t, ht, .inr hkept⟩

/-- A desertion is on record only if a task has deserted with this move. -/
theorem desertions_entries {s : System σ} {l : Label}
    (h : ∀ (i : Nat) (t : Task σ), s.tasks[i]? = some t →
      t.mark? s.world.barrier ≠ some .desertion) : Record.desertions (s.entries l) = [] := by
  have hquiet (hd : s.deeds l = []) : Record.desertions (s.entries l) = [] := by
    rw [entries, hd, List.nil_append]
    exact Record.desertions_change _ _
  cases l with
  | act i =>
    cases ht : s.tasks[i]? with
    | none => exact hquiet (by simp [deeds, ht])
    | some t => rw [desertions_entries_act ht, if_neg (h i t ht)]
  | _ => exact hquiet rfl

end

/-- Greeters with one counter, none of which has begun, and no phase of which has a rate. -/
structure IsChorus (s : System Mind) : Prop where
  fresh : s.IsFresh
  launched : s.world.barrier.launched = true
  store : s.world.store = .counting 0 ∨ s.tasks = [] ∧ s.world.store = .empty
  singing : ∀ t ∈ s.tasks, t.IsSinging 0

namespace IsChorus

variable {s : System Mind} {ls : List Label}

theorem answering_run (hs : s.IsChorus) (hls : ∀ l ∈ ls, l.IsCalm) :
    s.Answering (s.record ls) (s.run ls) := by
  have h : s.Answering ((s.onBarrier Barrier.launch).record ls)
      ((s.onBarrier Barrier.launch).run ls) := hs.fresh.answering_run fun f hf => hls _ hf
  rwa [onBarrier_launch hs.launched] at h

theorem isRegular_run (hs : s.IsChorus) (ls : List Label) :
    ∀ t ∈ (s.run ls).tasks, t.IsRegular := by
  refine System.isRegular_run (fun t ht => ?_) ls
  have hfresh := hs.fresh.tasks t ht
  exact ⟨by rw [hfresh.stage, hfresh.lifecycle]; rfl, by rw [hfresh.stage]; rintro _ ⟨⟩⟩

/-- Before the run every greeter is on its way to its first phase. -/
theorem seeks (hs : s.IsChorus) {t : Task Mind} (ht : t ∈ s.tasks) :
    t.refusal? = none ∧ t.owing = 0 := by
  obtain ⟨g, p, -, hsings⟩ := hs.singing t ht
  obtain ⟨u, hm, hstep⟩ := hsings.of_waiting (hs.fresh.tasks t ht).stage
  rw [Task.refusal?_eq hm, Task.owing_eq hm, Greeter.refusal?, Greeter.owing, hstep]
  exact ⟨rfl, rfl⟩

/-- **The greeters sing all along the run.** -/
theorem singing_run (hs : s.IsChorus) (hls : ∀ l ∈ ls, l.IsCalm) :
    ∀ t ∈ (s.run ls).tasks, t.IsSinging ls.length := by
  induction ls using List.reverseRecOn with
  | nil => exact hs.singing
  | append_singleton ls l ih =>
    have hbefore := ih fun l hl => hls l (List.mem_append_left _ hl)
    intro t ht
    rw [run_snoc] at ht
    obtain ⟨i, hi⟩ := List.getElem?_of_mem ht
    obtain ⟨u, hu, ⟨-, rfl⟩ | ⟨-, rfl⟩⟩ := step_of_fire (hls l (by simp)) hi
    · have hmem := List.mem_of_getElem? hu
      rw [List.length_append]
      exact (hbefore u hmem).step (hs.isRegular_run ls u hmem)
    · exact (hbefore t (List.mem_of_getElem? hu)).mono (by simp)

theorem partsWell_run (hs : s.IsChorus) (hls : ∀ l ∈ ls, l.IsCalm) :
    ∀ t ∈ (s.run ls).tasks, t.PartsWell (s.run ls).world.barrier := by
  induction ls using List.reverseRecOn with
  | nil =>
    intro t ht r f hf
    rw [(hs.fresh.tasks t ht).stage] at hf
    cases hf
  | append_singleton ls l ih =>
    have hcalm : ∀ l ∈ ls, l.IsCalm := fun l hl => hls l (List.mem_append_left _ hl)
    intro t ht
    rw [run_snoc] at ht ⊢
    obtain ⟨i, hi⟩ := List.getElem?_of_mem ht
    obtain ⟨u, hu, ⟨rfl, rfl⟩ | ⟨-, rfl⟩⟩ := step_of_fire (hls l (by simp)) hi
    · have hmem := List.mem_of_getElem? hu
      obtain ⟨g, p, -, hsings⟩ := hs.singing_run hcalm u hmem
      rw [fire_act hu]
      exact (ih hcalm u hmem).step hsings (hs.isRegular_run ls u hmem)
        (hs.answering_run hcalm).honest
    · exact (ih hcalm t (List.mem_of_getElem? hu)).mono (reaches_fire _ l).heeds

/-- **Nobody deserts the others.** -/
theorem desertions_run (hs : s.IsChorus) (hls : ∀ l ∈ ls, l.IsCalm) :
    (s.record ls).desertions = [] := by
  induction ls using List.reverseRecOn with
  | nil => rfl
  | append_singleton ls l ih =>
    have hcalm : ∀ l ∈ ls, l.IsCalm := fun l hl => hls l (List.mem_append_left _ hl)
    rw [record_snoc, Record.desertions_append, ih hcalm, List.nil_append]
    refine desertions_entries fun i t ht => ?_
    have hmem := List.mem_of_getElem? ht
    obtain ⟨g, p, -, hsings⟩ := hs.singing_run hcalm t hmem
    exact (hs.partsWell_run hcalm t hmem).mark?_ne hsings

/-- **A greeter remembers a refusal exactly if the sink has refused one of its events**, and then it
remembers what the sink has said. -/
theorem refused_run (hs : s.IsChorus) (hls : ∀ l ∈ ls, l.IsCalm) {i : Nat} {t : Task Mind}
    (ht : (s.run ls).tasks[i]? = some t) (err : MetricsError) :
    t.refusal? = some err ↔ ∃ r ∈ s.reports ls, r.task = i ∧ r.answer = .error err := by
  induction ls using List.reverseRecOn generalizing t with
  | nil =>
    rw [(hs.seeks (List.mem_of_getElem? ht)).1]
    simp [reports]
  | append_singleton ls l ih =>
    have hcalm : ∀ l ∈ ls, l.IsCalm := fun l hl => hls l (List.mem_append_left _ hl)
    rw [run_snoc] at ht
    rw [reports_snoc]
    simp only [List.mem_append, or_and_right, exists_or]
    obtain ⟨u, hu, ⟨rfl, rfl⟩ | ⟨hl, rfl⟩⟩ := step_of_fire (hls l (by simp)) ht
    · obtain ⟨g, p, -, hsings⟩ := hs.singing_run hcalm u (List.mem_of_getElem? hu)
      rw [(hsings.account_step _ i).1, ih hcalm hu, reported_act hu]
      refine or_congr_right ⟨?_, ?_⟩
      · rintro ⟨r, hr, herr⟩
        exact ⟨r, Option.mem_toList.2 hr, Task.task_of_report? hr, herr⟩
      · rintro ⟨r, hr, -, herr⟩
        exact ⟨r, Option.mem_toList.1 hr, herr⟩
    · rw [ih hcalm hu, or_iff_left]
      rintro ⟨r, hr, hi, -⟩
      obtain ⟨j, v, rfl, -, hv⟩ := mem_reported_iff.1 hr
      rw [← hi, Task.task_of_report? hv] at hl
      exact hl rfl

/-- Every report has been made by one of the greeters. -/
theorem task_of_mem_reports (hs : s.IsChorus) (hls : ∀ l ∈ ls, l.IsCalm) {r : Recording}
    (hr : r ∈ s.reports ls) : ∃ t, (s.run ls).tasks[r.task]? = some t := by
  have hlength := (hs.answering_run hls).length
  suffices h : r.task < s.tasks.length from ⟨_, List.getElem?_eq_getElem (hlength ▸ h)⟩
  clear hlength
  induction ls using List.reverseRecOn with
  | nil => cases hr
  | append_singleton ls l ih =>
    have hcalm : ∀ l ∈ ls, l.IsCalm := fun l hl => hls l (List.mem_append_left _ hl)
    rw [reports_snoc] at hr
    rcases List.mem_append.1 hr with hr | hr
    · exact ih hcalm hr
    · obtain ⟨j, u, -, hu, hv⟩ := mem_reported_iff.1 hr
      rw [Task.task_of_report? hv, ← (hs.answering_run hcalm).length]
      exact (List.getElem?_eq_some_iff.1 hu).1

/-- When a greeter has come to its end that was refused something, somebody has aborted the run. -/
theorem accusations_ne_nil (hs : s.IsChorus) (hls : ∀ l ∈ ls, l.IsCalm) {r : Recording}
    {err : MetricsError} (hr : r ∈ s.reports ls) (herr : r.answer = .error err) {t : Task Mind}
    (ht : (s.run ls).tasks[r.task]? = some t) (hend : t.result?.isSome = true) :
    (s.record ls).accusations ≠ [] := by
  obtain ⟨res, hres⟩ := Option.isSome_iff_exists.1 hend
  have hstage := result?_eq_some_iff.1 hres
  have hanswering := hs.answering_run hls
  have hi : r.task < s.tasks.length := hanswering.length ▸ (List.getElem?_eq_some_iff.1 ht).1
  have hanswers := (hanswering.tasks _ _ t (List.getElem?_eq_getElem hi) ht).answers
  obtain ⟨g, p, -, hsings⟩ := hs.singing_run hls t (List.mem_of_getElem? ht)
  rw [hstage] at hanswers
  exact hanswers (hsings.isCulpable_of_refusal ((hs.refused_run hls ht err).2 ⟨r, hr, rfl, herr⟩)
    (by rw [hstage]; rfl))

/-- **While nobody has aborted the run, what has been added to the counter has been recorded or is
owed.** -/
theorem accounts_run (hs : s.IsChorus) (hls : ∀ l ∈ ls, l.IsCalm)
    (ha : (s.run ls).world.barrier.isAborted = false) : (s.bumps ls).length =
      (Recording.accepted (s.reports ls)).length + (s.run ls).owing := by
  induction ls using List.reverseRecOn with
  | nil =>
    have hnone : s.owing = 0 := by
      refine List.sum_eq_zero fun n hn => ?_
      obtain ⟨t, ht, rfl⟩ := List.mem_map.1 hn
      exact (hs.seeks ht).2
    exact hnone.symm.trans (Nat.zero_add _).symm
  | append_singleton ls l ih =>
    have hcalm : ∀ l ∈ ls, l.IsCalm := fun l hl => hls l (List.mem_append_left _ hl)
    rw [run_snoc] at ha
    have hbefore : (s.run ls).world.barrier.isAborted = false := by
      by_contra hno
      have hrise := (reaches_fire (s.run ls) l).heeds.halt
      rw [show (s.run ls).world.barrier.signal.halt = .aborted by
        simpa [Barrier.isAborted] using hno] at hrise
      generalize hh : ((s.run ls).fire l).world.barrier.signal.halt = h at hrise
      cases hrise
      simp [Barrier.isAborted, hh] at ha
    have hsum := ih hcalm hbefore
    rw [bumps_snoc, reports_snoc, Recording.accepted_append, List.length_append, List.length_append,
      run_snoc]
    cases l with
    | act i =>
      cases ht : (s.run ls).tasks[i]? with
      | none =>
        rw [fire, act, onTask_of_none ht]
        simpa [bumped, reported, ht, Recording.accepted] using hsum
      | some t =>
        obtain ⟨g, p, -, hsings⟩ := hs.singing_run hcalm t (List.mem_of_getElem? ht)
        have hstep := (hsings.account_step (s.run ls).world i).2 hbefore
        have howing := owing_set ht (t.step (s.run ls).world).task
        rw [fire_act ht, bumped_act ht, reported_act ht]
        simp only [owing] at hsum ⊢
        omega
    | interrupt i => cases hls (.interrupt i) (by simp)
    | _ => exact hsum

/-- The counter shows how often something has been added to it. -/
theorem store_run (hs : s.IsChorus) (hls : ∀ l ∈ ls, l.IsCalm) :
    (s.run ls).world.store = .counting (s.bumps ls).length ∨
      s.tasks = [] ∧ (s.run ls).world.store = .empty ∧ s.bumps ls = [] := by
  induction ls using List.reverseRecOn with
  | nil => exact hs.store.imp_right fun ⟨hnone, hempty⟩ => ⟨hnone, hempty, rfl⟩
  | append_singleton ls l ih =>
    have hcalm : ∀ l ∈ ls, l.IsCalm := fun l hl => hls l (List.mem_append_left _ hl)
    have hsame (hstore : ((s.run ls).fire l).world.store = (s.run ls).world.store)
        (hbumped : (s.run ls).bumped l = []) :
        (s.run (ls ++ [l])).world.store = .counting (s.bumps (ls ++ [l])).length ∨ s.tasks = [] ∧
          (s.run (ls ++ [l])).world.store = .empty ∧ s.bumps (ls ++ [l]) = [] := by
      rw [run_snoc, bumps_snoc, hstore, hbumped, List.append_nil]
      exact ih hcalm
    cases l with
    | act i =>
      cases ht : (s.run ls).tasks[i]? with
      | none => exact hsame (by rw [fire, act, onTask_of_none ht]) (by simp [bumped, ht])
      | some t =>
        cases hb : t.bump? with
        | none =>
          refine hsame ?_ (by rw [bumped_act ht, hb]; rfl)
          rw [fire_act ht]
          exact Task.store_step hb
        | some b =>
          obtain ⟨g, p, hsuits, hsings⟩ := hs.singing_run hcalm t (List.mem_of_getElem? ht)
          obtain rfl := hsings.bump?_eq hb
          left
          rcases ih hcalm with hstore | ⟨hnone, -⟩
          · rw [run_snoc, bumps_snoc, fire_act ht, Task.step_of_bump hb, bumped_act ht, hb,
              List.length_append, hsuits.counter]
            change (s.run ls).world.store.bump 0 (.counter 1) = _
            rw [hstore]
            exact Store.bump_counting _
          · have hlt := (List.getElem?_eq_some_iff.1 ht).1
            rw [(hs.answering_run hcalm).length, hnone] at hlt
            exact absurd hlt (Nat.not_lt_zero i)
    | interrupt i => cases hls (.interrupt i) (by simp)
    | _ => exact hsame rfl rfl

end IsChorus

end System

end Lockstep
