import Lockstep.Proofs.Entries
import Lockstep.Proofs.Halting
import Lockstep.Proofs.Progress

/-!
# What an actor is handed

An actor that asks for its next phase is handed a plan, or told that there are no more phases.

* `System.handouts` : all that the task at a position is handed along a run;
* `Schedule.Deals` : a list of handouts goes through a schedule up to a phase;
* `Task.IsDealt` : the handouts of a task go as far as the task has come;
* `System.IsReady.isDealt_run` : **they do after every run that is not halted**, so that they go
  through the schedule of the actor in its order, and it is told that there are no more phases only
  after all of them.
-/

namespace Lockstep

/-! ### Handouts -/

/-- What a step between two phases hands to the actor: a plan, or that there are no more phases. -/
def Advance.Progress.handout? : Advance.Progress → Option (Option PhasePlan)
  | .entered plan _ => some (some plan)
  | .over => some none
  | _ => none

section

variable {σ : Type}

/-- What the next step of a task hands to the actor. -/
def Task.handout? (b : Barrier) (t : Task σ) : Option (Option PhasePlan) :=
  match t.stage, t.loop with
  | .advancing x, some p => (x.step b p).2.2.handout?
  | _, _ => none

namespace System

/-- What a move hands to the task at a position. -/
def dealt (s : System σ) (i : Nat) : Label → List (Option PhasePlan)
  | .act j =>
    if j = i then ((s.tasks[i]?).bind fun t => t.handout? s.world.barrier).toList else []
  | _ => []

theorem dealt_self {s : System σ} {i : Nat} {t : Task σ} (ht : s.tasks[i]? = some t) :
    s.dealt i (.act i) = (t.handout? s.world.barrier).toList := by
  simp only [dealt, if_pos, ht, Option.bind_some]

theorem dealt_of_ne {s : System σ} {i : Nat} {l : Label} (hl : l ≠ .act i) : s.dealt i l = [] := by
  cases l with
  | act j => exact if_neg fun hji => hl (by rw [hji])
  | _ => rfl

variable [Behaviour σ]

/-- All that is handed to the task at a position along a run. -/
def handouts (s : System σ) (i : Nat) : List Label → List (Option PhasePlan)
  | [] => []
  | l :: ls => s.dealt i l ++ (s.fire l).handouts i ls

theorem handouts_append (s : System σ) (i : Nat) (ls ls' : List Label) :
    s.handouts i (ls ++ ls') = s.handouts i ls ++ (s.run ls).handouts i ls' := by
  induction ls generalizing s with
  | nil => rfl
  | cons l ls ih =>
    simp only [List.cons_append, handouts, ih, List.append_assoc]
    rfl

theorem handouts_snoc (s : System σ) (i : Nat) (ls : List Label) (l : Label) :
    s.handouts i (ls ++ [l]) = s.handouts i ls ++ (s.run ls).dealt i l := by
  rw [handouts_append]
  simp [handouts]

end System

end

/-! ### Going through a schedule -/

namespace Schedule

variable {s : Schedule} {m : Nat} {out : List (Option PhasePlan)}

theorem busyBefore_isPrefix (hs : s.IsNumbered) (n : Nat) : s.busyBefore n <+: s.busy := by
  have hgrow (j : Nat) : s.busyBefore n <+: s.busyBefore (n + j) := by
    induction j with
    | zero => exact List.prefix_rfl
    | succ j ih => exact ih.trans (busyBefore_succ hs (n + j) ▸ List.prefix_append _ _)
  -- far enough on there is nothing but what comes before
  have hall : s.busyBefore (n + countUpTo (s.busy.map PhasePlan.number)) = s.busy :=
    busyBefore_of_lt fun plan hplan => by
      have := countUpTo_le_iff.1 le_rfl plan.number (List.mem_map_of_mem hplan)
      omega
  exact hall ▸ hgrow _

/-- The handouts are the plans of the schedule before phase `m`; and after the last one, any number
of times, that there are no more phases. -/
def Deals (s : Schedule) (m : Nat) (out : List (Option PhasePlan)) : Prop :=
  ∃ n, out = (s.busyBefore m).map some ++ List.replicate n none ∧
    (0 < n → s.busyBefore m = s.busy)

theorem deals_nil (s : Schedule) : s.Deals 0 [] :=
  ⟨0, by simp [busyBefore_zero], fun h => absurd h (lt_irrefl 0)⟩

/-- The next phase with something to do is handed out. -/
theorem Deals.enter (h : s.Deals m out) (hs : s.IsNumbered) {plan : PhasePlan}
    (hplan : ((s.find? m).filter fun plan => !plan.nop) = some plan) :
    s.Deals (m + 1) (out ++ [some plan]) := by
  obtain ⟨n, rfl, hfull⟩ := h
  have hnext : s.busyBefore (m + 1) = s.busyBefore m ++ [plan] := by
    rw [busyBefore_succ hs, hplan]
    rfl
  obtain rfl : n = 0 := by
    by_contra hn
    -- all plans have been handed out, but not this one
    have hmem : plan ∈ s.busyBefore (m + 1) := by rw [hnext]; simp
    have hbusy := List.mem_of_mem_filter hmem
    rw [← hfull (Nat.pos_of_ne_zero hn)] at hbusy
    have hlt : plan.number < m := by simpa using (List.mem_filter.1 hbusy).2
    rw [hs m plan (Option.filter_eq_some_iff.1 hplan).1] at hlt
    exact lt_irrefl m hlt
  exact ⟨0, by simp [hnext], fun h => absurd h (lt_irrefl 0)⟩

/-- A phase with nothing to do is not handed out. -/
theorem Deals.skip (h : s.Deals m out) (hs : s.IsNumbered)
    (hplan : ((s.find? m).filter fun plan => !plan.nop) = none) : s.Deals (m + 1) out := by
  have hsame : s.busyBefore (m + 1) = s.busyBefore m := by
    rw [busyBefore_succ hs, hplan]
    exact List.append_nil _
  rwa [Deals, hsame]

/-- After the last phase the actor is told so. -/
theorem Deals.close (h : s.Deals m out) (hfull : s.busyBefore m = s.busy) :
    s.Deals m (out ++ [none]) := by
  obtain ⟨n, rfl, -⟩ := h
  exact ⟨n + 1, by rw [List.append_assoc, List.replicate_succ'], fun _ => hfull⟩

/-- The handouts go through the schedule in its order. -/
theorem Deals.isPrefix (h : s.Deals m out) (hs : s.IsNumbered) :
    ∃ n, out <+: s.busy.map some ++ List.replicate n none := by
  obtain ⟨n, rfl, hfull⟩ := h
  rcases Nat.eq_zero_or_pos n with rfl | hn
  · exact ⟨0, by simpa using (busyBefore_isPrefix hs m).map some⟩
  · exact ⟨n, by rw [hfull hn]⟩

/-- Whoever has been told that there are no more phases has been handed all of them. -/
theorem Deals.of_none_mem (h : s.Deals m out) (hnone : none ∈ out) :
    ∃ n, out = s.busy.map some ++ List.replicate (n + 1) none := by
  obtain ⟨_ | n, rfl, hfull⟩ := h
  · simp at hnone
  · exact ⟨n, by rw [hfull n.succ_pos]⟩

end Schedule

/-! ### One step between two phases -/

/-- The phases before this one have been dealt with: the plan of each has been handed out, or else
there is nothing to do in it. -/
def Stage.cursor? (p : Participant) : Stage → Option Nat
  | .waiting => some p.next
  | .acting => some p.next
  | .pacing _ => some p.next
  | .asleep _ => some p.next
  -- what there is to do in phase `k` is still to be handed out
  | .advancing (.passing _ k _) => some k
  | .advancing _ => some p.next
  | _ => none

/-- The actor is between two phases. -/
def Stage.isAdvancing : Stage → Bool
  | .advancing _ => true
  | _ => false

theorem Stage.cursor?_of_isAtWork {g : Stage} (hg : g.isAtWork = true) (p : Participant) :
    g.cursor? p = some p.next := by
  cases g <;> first | rfl | cases hg

theorem Stage.isAdvancing_of_isAtWork {g : Stage} (hg : g.isAtWork = true) :
    g.isAdvancing = false := by
  cases g <;> first | rfl | cases hg

theorem Stage.isAdvancing_of_outcome? {g : Stage} {r : Result} (hg : g.outcome? = some r) :
    g.isAdvancing = false := by
  cases g <;> first | rfl | cases hg

namespace Advance

variable {s : Schedule} {b : Barrier} {p : Participant} {x : Advance}
  {out : List (Option PhasePlan)} {a h : Nat}

theorem finished_letIn (b : Barrier) (p : Participant) (last k : Nat) :
    (letIn b p last k).2.1.finished = p.finished ∧ (letIn b p last k).2.2 ≠ .over := by
  simp only [letIn]
  repeat' split
  all_goals exact ⟨rfl, by rintro ⟨⟩⟩

/-- Nobody who has finished starts over, and whoever is told that there are no more phases has
finished. -/
theorem finished_step (b : Barrier) (p : Participant) (x : Advance) :
    (p.finished = true → (x.step b p).2.1.finished = true) ∧
      ((x.step b p).2.2 = .over → (x.step b p).2.1.finished = true) := by
  have hletIn (b : Barrier) (last : Nat) :
      (p.finished = true → (letIn b p last p.next).2.1.finished = true) ∧
        ((letIn b p last p.next).2.2 = .over → (letIn b p last p.next).2.1.finished = true) :=
    ⟨(finished_letIn b p last p.next).1.trans, fun ho => absurd ho (finished_letIn _ _ _ _).2⟩
  cases x with
  | leaving c =>
    simp only [step]
    split
    case h_4 => exact ⟨fun _ => rfl, by rintro ⟨⟩⟩
    all_goals exact ⟨id, by rintro ⟨⟩⟩
  | bounding =>
    simp only [step]
    split
    · exact ⟨fun _ => rfl, fun _ => rfl⟩
    · exact ⟨id, by rintro ⟨⟩⟩
  | choosing last =>
    simp only [step]
    split
    · next hfin => exact ⟨fun _ => hfin, fun _ => hfin⟩
    · split
      · exact ⟨fun _ => rfl, fun _ => rfl⟩
      · exact ⟨id, by rintro ⟨⟩⟩
  | entering last c =>
    simp only [step]
    split
    case h_3 => exact hletIn _ last
    case h_4 => exact ⟨fun _ => rfl, fun _ => rfl⟩
    case h_5 => exact ⟨fun _ => rfl, by rintro ⟨⟩⟩
    all_goals exact ⟨id, by rintro ⟨⟩⟩
  | passing last k c =>
    simp only [step]
    split
    case h_3 => split <;> exact ⟨id, by rintro ⟨⟩⟩
    case h_4 => exact ⟨fun _ => rfl, by rintro ⟨⟩⟩
    all_goals exact ⟨id, by rintro ⟨⟩⟩

/-- What a step hands out goes through the schedule up to where the step leads. -/
def Deals (s : Schedule) (x : Advance) (out : List (Option PhasePlan))
    (r : Barrier × Participant × Progress) : Prop :=
  ∀ m, (r.2.2.stage x).cursor? r.2.1 = some m → s.Deals m (out ++ r.2.2.handout?.toList)

/-- Nothing is handed out, and the actor has come no further. -/
theorem Deals.quiet {r : Barrier × Participant × Progress} {m : Nat} (hd : s.Deals m out)
    (hr : r.2.2.handout? = none) (hm : ∀ m', (r.2.2.stage x).cursor? r.2.1 = some m' → m' = m) :
    Deals s x out r := by
  intro m' hm'
  rw [hr, hm m' hm']
  simpa using hd

/-- The actor is told that there are no more phases. -/
theorem Deals.over {b : Barrier} {q : Participant} (hd : s.Deals q.next out)
    (hfull : s.busyBefore q.next = s.busy) : Deals s x out (b, q, .over) := by
  rintro m ⟨⟩
  exact hd.close hfull

theorem deals_leaving {c : Call} (hd : s.Deals p.next out) :
    Deals s (leaving c) out ((leaving c).step b p) := by
  generalize hr : (leaving c).step b p = r
  simp only [step] at hr
  split at hr <;> subst hr
  · exact .quiet hd rfl (by rintro _ ⟨⟩; rfl)
  · exact .quiet hd rfl (by rintro _ ⟨⟩; rfl)
  · exact .quiet hd rfl (by rintro _ ⟨⟩; rfl)
  · exact .quiet hd rfl (by rintro _ ⟨⟩; rfl)
  · exact .quiet hd rfl (by rintro _ ⟨⟩)

theorem deals_bounding (hd : s.Deals p.next out) (hfit : s.FitsIn b) :
    Deals s bounding out (bounding.step b p) := by
  simp only [step]
  split
  · next hl =>
    exact .over (q := { p with finished := true }) hd
      (hfit.busyBefore fun last h => by rw [hl] at h; cases h)
  · exact .quiet hd rfl (by rintro _ ⟨⟩; rfl)

theorem deals_choosing {last : Nat} (hd : s.Deals p.next out) (hfit : s.FitsIn b)
    (hr : b.signal.halt = .running) (hc : b.Counts a h) (hs : p.IsSound b a h)
    (hx : (choosing last).Fits b p a h) :
    Deals s (choosing last) out ((choosing last).step b p) := by
  obtain ⟨hf, hl⟩ := hx
  have hfull (hlast : last < p.next) : s.busyBefore p.next = s.busy :=
    hfit.busyBefore fun last' h => by rw [hl] at h; cases h; exact hlast
  simp only [step]
  split
  · next hfin =>
    -- whoever has finished has come past the last phase
    exact .over hd (hfull (hf.arrivals ▸ (hs.finished hfin).2 last hl))
  · split
    · next hend =>
      refine .over (q := { p with finished := true }) hd (hfull ?_)
      rcases hend with hend | hend
      · exact hend
      · have := (Barrier.goesOn_eq_false_iff hr).1 hend last hl
        exact hf.arrivals ▸ this.trans_le (hc.phase_le.trans hc.handbacks_le)
    · exact .quiet hd rfl (by rintro _ ⟨⟩; rfl)

theorem deals_letIn {last : Nat} (hd : s.Deals p.next out) (hnum : s.IsNumbered)
    (hp : p.schedule = s) : Deals s x out (letIn b p last p.next) := by
  cases hadd : addWord? p.next 1 with
  | none => simp only [letIn, hadd]; exact .quiet hd rfl (by rintro _ ⟨⟩)
  | some next =>
    obtain ⟨rfl, -⟩ := addWord?_eq_some_iff.1 hadd
    have hpass : Deals s x out (b, { p with next := p.next + 1 },
        .moved (.passing last p.next (.finish p.next false))) :=
      .quiet hd rfl (by rintro _ ⟨⟩; rfl)
    simp only [letIn, hadd]
    split
    · next plan hplan =>
      split
      · rintro m ⟨⟩
        exact hd.enter hnum (hp ▸ hplan)
      · exact hpass
    · exact hpass

theorem deals_entering {last : Nat} {c : Call} (hd : s.Deals p.next out) (hnum : s.IsNumbered)
    (hp : p.schedule = s) (hr : b.signal.halt = .running) (hx : (entering last c).Fits b p a h) :
    Deals s (entering last c) out ((entering last c).step b p) := by
  have hblocked (b : Barrier) : Deals s (entering last c) out (b, p, .blocked) :=
    .quiet hd rfl (by rintro _ ⟨⟩; rfl)
  have hmoved (b : Barrier) (c' : Call) :
      Deals s (entering last c) out (b, p, .moved (.entering last c')) :=
    .quiet hd rfl (by rintro _ ⟨⟩; rfl)
  have hin (b : Barrier) : Deals s (entering last c) out (letIn b p last p.next) :=
    deals_letIn hd hnum hp
  match c, hx with
  | .starting k, _ =>
    by_cases hphase : b.signal.phase = k ∧ b.signal.isOpen = false
    · simp only [step, Call.step_starting hr, if_pos hphase]
      exact hmoved b (.arriving k)
    · simp only [step, Call.step_starting hr, if_neg hphase]
      exact hblocked b
  | .arriving k, _ =>
    by_cases hlast : b.opensNow = true
    · simp only [step, Call.step_arriving hr, if_pos hlast]
      exact hin b.arrive
    · simp only [step, Call.step_arriving hr, if_neg hlast]
      exact hmoved b.arrive (.opening k)
  | .opening k, _ =>
    by_cases hphase : b.signal.phase = k ∧ b.signal.isOpen = true
    · simp only [step, Call.step_opening hr, if_pos hphase]
      exact hin b
    · simp only [step, Call.step_opening hr, if_neg hphase]
      exact hblocked b

theorem deals_afterPassing {last k : Nat} (hd : s.Deals k out) (hnum : s.IsNumbered)
    (hp : p.schedule = s) (hk : p.next = k + 1) :
    Deals s x out (afterPassing b p last k) := by
  unfold afterPassing
  split
  · next plan hplan =>
    rintro m ⟨⟩
    rw [hk]
    exact hd.enter hnum (hp ▸ hplan)
  · next hplan =>
    rintro m ⟨⟩
    rw [hk]
    simpa [Progress.handout?] using hd.skip hnum (hp ▸ hplan)

theorem deals_passing {last k : Nat} {c : Call} (hd : s.Deals k out) (hnum : s.IsNumbered)
    (hp : p.schedule = s) (hr : b.signal.halt = .running) (hs : p.IsSound b a h)
    (hx : (passing last k c).Fits b p a h) :
    Deals s (passing last k c) out ((passing last k c).step b p) := by
  obtain ⟨-, hx⟩ := hx
  have hafter (b : Barrier) (hk : p.next = k + 1) :
      Deals s (passing last k c) out (afterPassing b p last k) :=
    deals_afterPassing hd hnum hp hk
  have hmoved (b : Barrier) (c' : Call) :
      Deals s (passing last k c) out (b, p, .moved (.passing last k c')) :=
    .quiet hd rfl (by rintro _ ⟨⟩; rfl)
  match c, hx with
  | .returning k' wait, ⟨hkk, _, ht⟩ =>
    subst hkk
    have hlt : k' + 1 < wordLimit := ht.next ▸ hs.next_lt
    by_cases hwait : b.closesNow = false ∧ wait = true
    · simp only [step, Call.step_returning hr hlt, if_pos hwait]
      exact hmoved (b.handBack k') (.closing k')
    · simp only [step, Call.step_returning hr hlt, if_neg hwait]
      exact hafter (b.handBack k') ht.next
  | .closing k', ⟨hkk, _, hn⟩ =>
    subst hkk
    by_cases hphase : k' < b.signal.phase
    · simp only [step, Call.step_closing hr, if_pos hphase]
      exact hafter b hn
    · simp only [step, Call.step_closing hr, if_neg hphase]
      exact .quiet hd rfl (by rintro _ ⟨⟩; rfl)

/-- **While the run goes on, a step between two phases hands out what comes next in the
schedule.** -/
theorem deals_step (hnum : s.IsNumbered) (hp : p.schedule = s) (hfit : s.FitsIn b)
    (hr : b.signal.halt = .running) (hc : b.Counts a h) (hs : p.IsSound b a h)
    (hx : x.Fits b p a h)
    (hd : ∀ m, (Stage.advancing x).cursor? p = some m → s.Deals m out) :
    Deals s x out (x.step b p) := by
  cases x with
  | leaving c => exact deals_leaving (hd _ rfl)
  | bounding => exact deals_bounding (hd _ rfl) hfit
  | choosing last => exact deals_choosing (hd _ rfl) hfit hr hc hs hx
  | entering last c => exact deals_entering (hd _ rfl) hnum hp hr hx
  | passing last k c => exact deals_passing (hd _ rfl) hnum hp hr hs hx

end Advance

/-! ### Tasks -/

namespace Task

variable {σ : Type} {s : Schedule} {t t' : Task σ} {out : List (Option PhasePlan)}

/-- The handouts of a task go through its schedule, as far as the task has come. -/
structure IsDealt (s : Schedule) (t : Task σ) (out : List (Option PhasePlan)) : Prop where
  dealt : ∃ m, s.Deals m out
  schedule : ∀ p, t.loop = some p → p.schedule = s
  /-- Whoever has been told that there are no more phases has finished. -/
  finished : ∀ p, t.loop = some p → none ∈ out → p.finished = true
  cursor : ∀ p m, t.loop = some p → t.stage.cursor? p = some m → s.Deals m out

theorem IsDealt.start {p : Participant} (hp : p.IsReady) (hl : t.loop = some p)
    (hs : t.stage = .waiting ∨ t.stage = .acting) : t.IsDealt p.schedule [] where
  dealt := ⟨0, p.schedule.deals_nil⟩
  schedule q hq := by rw [hl] at hq; cases hq; rfl
  finished q hq hnone := absurd hnone List.not_mem_nil
  cursor q m hq hm := by
    rw [hl] at hq
    cases hq
    obtain rfl : p.next = m := by rcases hs with hs | hs <;> rw [hs] at hm <;> cases hm <;> rfl
    rw [hp.next]
    exact p.schedule.deals_nil

/-- Nothing is handed out where the actor keeps its part in the barrier and comes no further. -/
theorem IsDealt.frame (hd : t.IsDealt s out) (hl : ∀ p, t'.loop = some p → t.loop = some p)
    (hg : ∀ p m, t'.loop = some p → t'.stage.cursor? p = some m → t.stage.cursor? p = some m) :
    t'.IsDealt s out where
  dealt := hd.dealt
  schedule p hp := hd.schedule p (hl p hp)
  finished p hp := hd.finished p (hl p hp)
  cursor p m hp hm := hd.cursor p m (hl p hp) (hg p m hp hm)

variable [Behaviour σ]

theorem IsDealt.quits (hd : t.IsDealt s out) (hq : t.Quits t') : t'.IsDealt s out := by
  cases hq with
  | leaves hk hs =>
    exact hd.frame (fun p hp => hk.loop ▸ hp) fun p m _ hm => by rw [hs] at hm; cases hm
  | ends w e hk he =>
    unfold conclude
    split
    all_goals exact hd.frame (fun p hp => hk.loop ▸ hp) (by rintro p m - ⟨⟩)

theorem IsDealt.worked (hd : t.IsDealt s out) (hs : t.stage.isAtWork = true) (hw : t.Worked t') :
    t'.IsDealt s out := by
  cases hw with
  | goesOn hk hs' =>
    refine hd.frame (fun p hp => hk.loop ▸ hp) fun p m _ hm => ?_
    rw [Stage.cursor?_of_isAtWork hs'] at hm
    rw [Stage.cursor?_of_isAtWork hs, hm]
  | @departs p hacting hp =>
    have hfirst : (Advance.first p).1.schedule = p.schedule ∧
        (Advance.first p).1.finished = p.finished ∧
        (Stage.advancing (Advance.first p).2).cursor? (Advance.first p).1 = some p.next := by
      unfold Advance.first
      split <;> exact ⟨rfl, rfl, rfl⟩
    refine ⟨hd.dealt, ?_, ?_, ?_⟩
    · rintro _ ⟨⟩
      exact hfirst.1.trans (hd.schedule p hp)
    · rintro _ ⟨⟩ hnone
      exact hfirst.2.1.trans (hd.finished p hp hnone)
    · rintro _ m ⟨⟩ hm
      refine hd.cursor p m hp ?_
      rw [hacting]
      exact hfirst.2.2.symm.trans hm
  | quits hq => exact hd.quits hq

omit [Behaviour σ] in
theorem handout?_of_not_advancing {b : Barrier} (h : t.stage.isAdvancing = false) :
    t.handout? b = none := by
  unfold handout?
  split
  · next x p hs hp => rw [hs] at h; cases h
  · rfl

theorem IsDealt.advanced {w : World} {a h : Nat} (hd : t.IsDealt s out) (hnum : s.IsNumbered)
    (hfit : s.FitsIn w.barrier) (hr : w.barrier.signal.halt = .running)
    (hc : w.barrier.Counts a h) (hf : t.Fits w.barrier a h) {x : Advance} {p : Participant}
    (hs : t.stage = .advancing x) (hp : t.loop = some p)
    (ht : t.Advanced (x.step w.barrier p).2.1 (x.step w.barrier p).2.2 t') :
    t'.IsDealt s (out ++ (t.handout? w.barrier).toList) := by
  obtain ⟨hsound, hx⟩ := hf.standing hr p hp
  rw [hs] at hx
  have hdeals : Advance.Deals s x out (x.step w.barrier p) :=
    Advance.deals_step hnum (hd.schedule p hp) hfit hr hc hsound hx fun m hm =>
      hd.cursor p m hp (hs ▸ hm)
  have hkeeps := (Advance.keeps_step w.barrier p x).schedule
  obtain ⟨hfin, hover⟩ := Advance.finished_step w.barrier p x
  have hout : t.handout? w.barrier = (x.step w.barrier p).2.2.handout? := by
    simp only [handout?, hs, hp]
  rw [hout]
  generalize x.step w.barrier p = y at hdeals hkeeps hfin hover ht ⊢
  obtain ⟨b', p', r⟩ := y
  simp only at hkeeps hfin hover ht ⊢
  -- the task has the part `p'` in the barrier, and is where the step leads, or at its end
  have hmain (t' : Task σ) (hl : t'.loop = some p')
      (hg : ∀ m, t'.stage.cursor? p' = some m → (r.stage x).cursor? p' = some m) :
      t'.IsDealt s (out ++ r.handout?.toList) := by
    refine ⟨?_, fun q hq => ?_, fun q hq hnone => ?_, fun q m hq hm => ?_⟩
    · cases r with
      | entered plan last => exact ⟨_, hdeals _ rfl⟩
      | «over» => exact ⟨_, hdeals _ rfl⟩
      | _ => simpa [Advance.Progress.handout?] using hd.dealt
    · rw [hl] at hq
      cases hq
      exact hkeeps.trans (hd.schedule p hp)
    · rw [hl] at hq
      cases hq
      rcases List.mem_append.1 hnone with hnone | hnone
      · exact hfin (hd.finished p hp hnone)
      · cases r with
        | «over» => exact hover rfl
        | _ => simp [Advance.Progress.handout?] at hnone
    · rw [hl] at hq
      cases hq
      exact hdeals m (hg m hm)
  cases ht with
  | blocked => exact hmain _ rfl fun m hm => (congrArg (Stage.cursor? p') hs).symm.trans hm
  | moved y => exact hmain _ rfl fun m hm => hm
  | entered plan last now => exact hmain _ rfl fun m hm => hm
  | finishes now => exact hmain _ rfl fun m hm => hm
  | failed now e => exact hmain _ rfl fun m hm => hm
  | broken w message =>
    unfold conclude
    split
    all_goals exact hmain _ rfl (by rintro m ⟨⟩)

/-- **A step of a task hands out what comes next in its schedule.** -/
theorem IsDealt.turn {w : World} {b' : Barrier} {a h : Nat} (hd : t.IsDealt s out)
    (hnum : s.IsNumbered) (hfit : s.FitsIn w.barrier) (hr : w.barrier.signal.halt = .running)
    (hc : w.barrier.Counts a h) (hf : t.Fits w.barrier a h) (ht : t.Turn w b' t') :
    t'.IsDealt s (out ++ (t.handout? w.barrier).toList) := by
  -- nothing is handed out but between two phases
  have hquiet (hs : t.stage.isAdvancing = false) (hd' : t'.IsDealt s out) :
      t'.IsDealt s (out ++ (t.handout? w.barrier).toList) := by
    rw [handout?_of_not_advancing hs]
    simpa using hd'
  -- where the work has ended the part in the barrier is at most given up
  have hgone {f : Stage} (hs : t.stage = f) (hf : f.isAdvancing = false)
      (hl : ∀ p, t'.loop = some p → t.loop = some p) (hg : ∀ p, t'.stage.cursor? p = none) :
      t'.IsDealt s (out ++ (t.handout? w.barrier).toList) :=
    hquiet (hs ▸ hf) (hd.frame hl fun p m _ hm => by rw [hg p] at hm; cases hm)
  cases ht with
  | works hs h =>
    exact hquiet (Stage.isAdvancing_of_isAtWork hs) (hd.worked hs h)
  | advances hs hp h => exact hd.advanced hnum hfit hr hc hf hs hp h
  | begins hs h =>
    exact hquiet (by rw [hs]; rfl)
      (hd.frame (fun p hp => hp) fun p m _ hm => by rw [hs]; exact hm)
  | refuses hs h => exact hgone hs rfl (fun p hp => hp) fun _ => rfl
  | idles hs hp hr =>
    have hnone : t.handout? w.barrier = none := by
      unfold handout?
      rw [hp]
      split <;> simp_all
    rw [hnone]
    simp only [Option.toList_none, List.append_nil]
    refine hd.frame (fun p hp' => hp') fun p m hp' _ => ?_
    rw [show t.loop = some p from hp'] at hp
    cases hp
  | withdraws hs hp h => exact hgone hs rfl (fun p hp => hp) fun _ => rfl
  | leaves hs hp h =>
    exact hquiet (by rw [hs]; rfl) (hd.frame (by rintro _ ⟨⟩) (by rintro _ _ ⟨⟩))
  | blames hs h => exact hgone hs rfl (fun p hp => hp) fun _ => rfl
  | acquits hs h => exact hgone hs rfl (fun p hp => hp) fun _ => rfl
  | reads hs => exact hgone hs rfl (fun p hp => hp) fun _ => rfl
  | accuses hs => exact hgone hs rfl (fun p hp => hp) fun _ => rfl
  | parts hs hp h => exact hgone hs rfl (fun p hp => hp) fun _ => rfl
  | ends hs hp h => exact hgone hs rfl (by rintro _ ⟨⟩) fun _ => rfl
  | closes hs hp => exact hgone hs rfl (fun p hp => hp) fun _ => rfl
  | rests hs => exact hgone hs rfl (fun p hp => hp) fun p => by rw [hs]; rfl

theorem IsDealt.interrupt (hd : t.IsDealt s out) (w : World) :
    (t.interrupt w).task.IsDealt s out := by
  rcases interrupt_worked w t with he | ⟨hs, hw⟩ | ⟨x, -, hq⟩
  · rw [he]; exact hd
  · exact hd.worked hs hw
  · exact hd.quits hq

end Task

/-! ### Runs -/

namespace System

variable {σ : Type} [Behaviour σ] {s₀ s : System σ}

/-- A run that is not halted was not halted before. -/
theorem running_of_snoc {ls : List Label} {l : Label}
    (hr : (s₀.run (ls ++ [l])).world.barrier.signal.halt = .running) :
    (s₀.run ls).world.barrier.signal.halt = .running := by
  rw [run_snoc] at hr
  exact (reaches_fire _ l).heeds.halt.eq_running hr

/-- A move does nothing to a task but let it take a step or call it away. -/
theorem task_of_fire {l : Label} {i : Nat} {t' : Task σ} (h : (s.fire l).tasks[i]? = some t') :
    ∃ t, s.tasks[i]? = some t ∧ (l = .act i ∧ t' = (t.step s.world).task ∨
      l = .interrupt i ∧ t' = (t.interrupt s.world).task ∨ l ≠ .act i ∧ t' = t) := by
  cases l with
  | act j =>
    cases hu : s.tasks[j]? with
    | none =>
      rw [fire, act, onTask_of_none hu] at h
      refine ⟨t', h, .inr (.inr ⟨fun hl => ?_, rfl⟩)⟩
      cases hl
      cases hu.symm.trans h
    | some u =>
      rw [fire_act hu] at h
      obtain ⟨rfl, rfl⟩ | ⟨hne, h⟩ := of_getElem?_set h
      · exact ⟨u, hu, .inl ⟨rfl, rfl⟩⟩
      · exact ⟨t', h, .inr (.inr ⟨fun hl => hne (Label.act.inj hl).symm, rfl⟩)⟩
  | interrupt j =>
    cases hu : s.tasks[j]? with
    | none =>
      rw [fire, onTask_of_none hu] at h
      exact ⟨t', h, .inr (.inr ⟨by rintro ⟨⟩, rfl⟩)⟩
    | some u =>
      rw [fire_interrupt hu] at h
      obtain ⟨rfl, rfl⟩ | ⟨-, h⟩ := of_getElem?_set h
      · exact ⟨u, hu, .inr (.inl ⟨rfl, rfl⟩)⟩
      · exact ⟨t', h, .inr (.inr ⟨by rintro ⟨⟩, rfl⟩)⟩
  | _ => exact ⟨t', h, .inr (.inr ⟨by rintro ⟨⟩, rfl⟩)⟩

/-- **What a task has been handed goes through its schedule**, whatever order the moves come in and
whatever the others are handed. -/
theorem IsReady.isDealt_run (hs : s₀.IsReady) {ls : List Label}
    (hr : (s₀.run ls).world.barrier.signal.halt = .running) {i : Nat} {t₀ : Task σ}
    {p₀ : Participant} (ht₀ : s₀.tasks[i]? = some t₀) (hp₀ : t₀.loop = some p₀)
    (hfit : p₀.schedule.FitsIn s₀.world.barrier) {t : Task σ}
    (ht : (s₀.run ls).tasks[i]? = some t) : t.IsDealt p₀.schedule (s₀.handouts i ls) := by
  have hready := hs.tasks t₀ (List.mem_of_getElem? ht₀)
  have hseat : i ∈ s₀.seats := (mem_seats_of_getElem? ht₀).2 (by rw [hp₀]; rfl)
  induction ls using List.reverseRecOn generalizing t with
  | nil =>
    cases ht₀.symm.trans ht
    exact .start (hready.loop p₀ hp₀) hp₀ hready.stage
  | append_singleton ls l ih =>
    have hrun := running_of_snoc hr
    have hbooks := hs.balanced_run ls
    rw [run_snoc] at ht
    obtain ⟨u, hu, hmove⟩ := task_of_fire ht
    rw [handouts_snoc]
    rcases hmove with ⟨rfl, rfl⟩ | ⟨rfl, rfl⟩ | ⟨hl, rfl⟩
    · rw [dealt_self hu]
      refine (ih hrun hu).turn (hready.loop p₀ hp₀).numbered (fun plan hplan => ?_) hrun
        (hbooks.counts hseat) (hbooks.fits i u hu hseat) (Task.turn_step _ u)
      rw [hbooks.lastPhase]
      exact hfit plan hplan
    · simpa [dealt] using (ih hrun hu).interrupt _
    · rw [dealt_of_ne hl, List.append_nil]
      exact ih hrun hu

end System

end Lockstep
