import Lockstep.Proofs.Tokens

/-!
# The balance of a record

What is recorded of a run agrees with the barrier and with where the tasks are.

* `Signal.history` : what a signal must have come to show before, if the phases come in their order;
* `System.Balanced` : the record of a run, the counters of the barrier and the tasks agree;
* `System.IsReady.balanced_run` : **they do after every run of a system that is ready.**

One move is followed by `Balanced.fire`.  A move from outside changes no token
(`Barrier.Agrees`), and for a step of a task everything follows from what it does at the barrier
(`Task.mark?`), which is done when it counts (`Mark.IsDue`).
-/

namespace Lockstep

/-! ### The record of a move -/

namespace Record

@[simp] theorem marks_change (s s' : Signal) (i : Nat) : marks (s.change s') i = [] := by
  unfold Signal.change
  split <;> rfl

@[simp] theorem shown_deeds {σ : Type} (s : System σ) (l : Label) : shown (s.deeds l) = [] := by
  cases l with
  | act i =>
    simp only [System.deeds]
    cases s.tasks[i]?.bind fun t => t.mark? s.world.barrier <;> rfl
  | _ => rfl

theorem marks_deeds_act {σ : Type} {s : System σ} {i : Nat} {t : Task σ} (ht : s.tasks[i]? = some t)
    (j : Nat) : marks (s.deeds (.act i)) j =
      if i = j then (t.mark? s.world.barrier).toList else [] := by
  simp only [System.deeds, ht, Option.bind_some]
  cases t.mark? s.world.barrier with
  | none => split <;> rfl
  | some m =>
    simp only [marks, Option.map_some, Option.toList_some, List.filterMap_cons, List.filterMap_nil]
    split
    · next hm => split at hm <;> simp_all
    · next hm => split at hm <;> simp_all

theorem numbers_of_marks_self {r : Record} {i : Nat} {m : Option Mark}
    (hr : marks r i = m.toList) :
    arrivals r i = (m.bind Mark.arrival?).toList ∧
      handbacks r i = (m.bind Mark.handback?).toList := by
  rw [arrivals, handbacks, hr]
  cases m with
  | none => exact ⟨rfl, rfl⟩
  | some m => cases m <;> exact ⟨rfl, rfl⟩

theorem numbers_of_marks_nil (r : Record) {r' : Record} {i : Nat} (hr : marks r' i = []) :
    arrivals (r ++ r') i = arrivals r i ∧ handbacks (r ++ r') i = handbacks r i := by
  simp [arrivals, handbacks, marks_append, hr]

end Record

section

variable {σ : Type} [Behaviour σ]

/-- Of a task what it does at the barrier is recorded. -/
theorem System.marks_entries_act {s : System σ} {i : Nat} {t : Task σ}
    (ht : s.tasks[i]? = some t) (j : Nat) : Record.marks (s.entries (.act i)) j =
      if i = j then (t.mark? s.world.barrier).toList else [] := by
  rw [entries, Record.marks_append, Record.marks_change, List.append_nil,
    Record.marks_deeds_act ht]

theorem System.shown_entries (s : System σ) (l : Label) : Record.shown (s.entries l) =
    Record.shown (s.world.barrier.signal.change (s.fire l).world.barrier.signal) := by
  simp [System.entries, Record.shown_append]

end

/-! ### What a signal has shown -/

namespace Signal

/-- Every phase that has come has opened, and all but the present one have closed. -/
def history (s : Signal) : List (Nat × Bool) :=
  (List.range s.phase).flatMap (fun k => [(k, true), (k + 1, false)]) ++
    if s.isOpen then [(s.phase, true)] else []

theorem change_eq_nil {s s' : Signal} (hp : s'.phase = s.phase) (ho : s'.isOpen = s.isOpen) :
    s.change s' = [] := if_pos ⟨hp.symm, ho.symm⟩

theorem history_congr {s s' : Signal} (hp : s'.phase = s.phase) (ho : s'.isOpen = s.isOpen) :
    s'.history = s.history := by
  rw [history, hp, ho, history]

end Signal

/-- What is done at a barrier when it counts moves the phases on in their order. -/
theorem Mark.history_act {b : Barrier} {a h : Nat} {m : Option Mark}
    (hm : ∀ m', m = some m' → m'.IsDue b a h) :
    (act b m).signal.history =
      b.signal.history ++ Record.shown (b.signal.change (act b m).signal) := by
  have hsame {s' : Signal} (hp : s'.phase = b.signal.phase) (ho : s'.isOpen = b.signal.isOpen) :
      s'.history = b.signal.history ++ Record.shown (b.signal.change s') := by
    rw [Signal.change_eq_nil hp ho, Signal.history_congr hp ho]
    exact (List.append_nil _).symm
  match m, hm with
  | none, _ => exact hsame rfl rfl
  | some desertion, _ => exact hsame rfl rfl
  | some (accusation f), _ => exact hsame (b.agrees_abort f).phase (b.agrees_abort f).isOpen
  | some (arrival k), hm =>
    obtain ⟨hs, -⟩ := hm _ rfl
    simp only [act]
    cases hopen : b.opensNow with
    | false => rw [Barrier.arrive_of_not_opensNow hopen]; exact hsame rfl rfl
    | true =>
      rw [Barrier.arrive_of_opensNow hopen]
      simp [Barrier.publish, Signal.change, Signal.history, Record.shown, hs]
  | some (handback k), hm =>
    obtain ⟨hs, -⟩ := hm _ rfl
    simp only [act]
    cases hclose : b.closesNow with
    | false => rw [Barrier.handBack_of_not_closesNow hclose]; exact hsame rfl rfl
    | true =>
      rw [Barrier.handBack_of_closesNow hclose]
      simp [Barrier.publish, Signal.change, Signal.history, Record.shown, hs, List.range_succ]

/-- Arrivals come in the order of the phases. -/
theorem Mark.range_arrivals {b : Barrier} {a h : Nat} {m : Option Mark}
    (hm : ∀ m', m = some m' → m'.IsDue b a h) :
    List.range a ++ (m.bind arrival?).toList = List.range (a + arrivals m) := by
  match m, hm with
  | some (arrival k), hm =>
    obtain ⟨-, hk, -⟩ := hm _ rfl
    rw [arrivals, List.range_succ, hk]
    rfl
  | none, _ => exact List.append_nil _
  | some (handback k), _ => exact List.append_nil _
  | some desertion, _ => exact List.append_nil _
  | some (accusation f), _ => exact List.append_nil _

/-- Handbacks come in the order of the phases. -/
theorem Mark.range_handbacks {b : Barrier} {a h : Nat} {m : Option Mark}
    (hm : ∀ m', m = some m' → m'.IsDue b a h) :
    List.range h ++ (m.bind handback?).toList = List.range (h + handbacks m) := by
  match m, hm with
  | some (handback k), hm =>
    obtain ⟨-, -, hk, -⟩ := hm _ rfl
    rw [handbacks, List.range_succ, hk]
    rfl
  | none, _ => exact List.append_nil _
  | some (arrival k), _ => exact List.append_nil _
  | some desertion, _ => exact List.append_nil _
  | some (accusation f), _ => exact List.append_nil _

/-- What is done at a barrier when it counts keeps the accounts. -/
theorem Barrier.Accounts.act {b : Barrier} {seats : Finset Nat} {a h a' h' : Nat → Nat} {i : Nat}
    {m : Option Mark} (hacc : b.Accounts seats a h) (hi : i ∈ seats)
    (hm : ∀ m', m = some m' → m'.IsDue b (a i) (h i))
    (hai : a' i = a i + Mark.arrivals m) (ha : ∀ j, j ≠ i → a' j = a j)
    (hhi : h' i = h i + Mark.handbacks m) (hh : ∀ j, j ≠ i → h' j = h j) :
    (Mark.act b m).Accounts seats a' h' := by
  have hasame (h0 : Mark.arrivals m = 0) : a' = a := by
    funext j
    by_cases hj : j = i
    · rw [hj, hai, h0]; rfl
    · exact ha j hj
  have hhsame (h0 : Mark.handbacks m = 0) : h' = h := by
    funext j
    by_cases hj : j = i
    · rw [hj, hhi, h0]; rfl
    · exact hh j hj
  match m, hm with
  | none, _ => rw [hasame rfl, hhsame rfl]; exact hacc
  | some .desertion, _ => rw [hasame rfl, hhsame rfl]; exact hacc
  | some (.accusation f), _ =>
    rw [hasame rfl, hhsame rfl]
    exact hacc.congr (b.agrees_abort f)
  | some (.arrival k), hm =>
    obtain ⟨hs, hak, -⟩ := hm _ rfl
    have hphase : b.signal.phase = k := by rw [hs]
    rw [hhsame rfl]
    exact hacc.arrive hi (by rw [hs]) (hak.trans hphase.symm)
      (hai.trans (by rw [hak, hphase]; rfl)) ha
  | some (.handback k), hm =>
    obtain ⟨hs, -, hhk, -⟩ := hm _ rfl
    have hphase : b.signal.phase = k := by rw [hs]
    rw [hasame rfl]
    have := hacc.handBack hi (by rw [hs]) (hhk.trans hphase.symm)
      (hhi.trans (by rw [hhk, hphase]; rfl)) hh
    rw [hphase] at this
    exact this

theorem Mark.isHonest_act {b : Barrier} (hb : b.IsHonest) (m : Option Mark) :
    (act b m).IsHonest := by
  match m with
  | none => exact hb
  | some desertion => exact hb
  | some (arrival _) => exact hb.arrive
  | some (handback k) => exact hb.handBack k
  | some (accusation f) =>
    obtain ⟨hh, hf⟩ := hb.abort f
    exact ⟨fun _ => by rw [act, hf]; rfl, fun _ => hh⟩

/-! ### The books -/

namespace System

variable {σ : Type}

/-- What is recorded of a run from `s₀` agrees with the system it has led to. -/
structure Balanced (s₀ : System σ) (r : Record) (s : System σ) : Prop where
  length : s.tasks.length = s₀.tasks.length
  honest : s.world.barrier.IsHonest
  lastPhase : s.world.barrier.lastPhase = s₀.world.barrier.lastPhase
  launched : s.world.barrier.launched = s₀.world.barrier.launched
  accounts : s.world.barrier.Accounts s₀.seats (fun i => (r.arrivals i).length)
    (fun i => (r.handbacks i).length)
  fits : ∀ i t, s.tasks[i]? = some t → i ∈ s₀.seats →
    t.Fits s.world.barrier (r.arrivals i).length (r.handbacks i).length
  apart : ∀ i t, s.tasks[i]? = some t → i ∉ s₀.seats → t.IsApart
  /-- Everybody arrives for the phases in their order, and hands the tokens back in it. -/
  arrivals : ∀ i, r.arrivals i = List.range (r.arrivals i).length
  handbacks : ∀ i, r.handbacks i = List.range (r.handbacks i).length
  shown : r.shown = s.world.barrier.signal.history

theorem Balanced.counts {s₀ s : System σ} {r : Record} (h : s₀.Balanced r s) {i : Nat}
    (hi : i ∈ s₀.seats) : s.world.barrier.Counts (r.arrivals i).length (r.handbacks i).length :=
  h.accounts.counts hi

theorem IsReady.balanced {s : System σ} (hs : s.IsReady) : s.Balanced [] s where
  length := rfl
  honest := by simp [Barrier.IsHonest, hs.signal, hs.failure]
  lastPhase := rfl
  launched := rfl
  accounts := by
    refine ⟨hs.required, fun _ => ?_, fun ho => by rw [hs.signal] at ho; cases ho⟩
    have hphase : s.world.barrier.signal.phase = 0 := by rw [hs.signal]
    refine ⟨fun _ _ => hphase.symm, fun _ _ => .inl hphase.symm, hs.outstanding, ?_, ?_⟩
    · have hnobody : (s.seats.filter fun i =>
          s.world.barrier.signal.phase < (Record.arrivals [] i).length) = ∅ :=
        Finset.filter_false_of_mem fun _ _ => Nat.not_lt_zero _
      exact hs.arrived.trans (congrArg Finset.card hnobody).symm
    · rw [hs.arrived]
      exact Finset.card_pos.2
  fits i t ht hi :=
    (hs.tasks t (List.mem_of_getElem? ht)).fits ((mem_seats_of_getElem? ht).1 hi) _
  apart i t ht hi :=
    ⟨by simpa using fun h => hi ((mem_seats_of_getElem? ht).2 h),
      (hs.tasks t (List.mem_of_getElem? ht)).stint⟩
  arrivals _ := rfl
  handbacks _ := rfl
  shown := by rw [hs.signal]; rfl

/-! ### Moves -/

/-- A move from outside. -/
theorem Balanced.agrees {s₀ s s' : System σ} {r : Record} (h : s₀.Balanced r s)
    (hb : s.world.barrier.Agrees s'.world.barrier) (hh : s'.world.barrier.IsHonest)
    (ht : s'.tasks = s.tasks) : s₀.Balanced r s' where
  length := by rw [ht]; exact h.length
  honest := hh
  lastPhase := hb.lastPhase.trans h.lastPhase
  launched := hb.launched.trans h.launched
  accounts := h.accounts.congr hb
  fits i t hi hseat := (h.fits i t (ht ▸ hi) hseat).mono hb.leadsTo
  apart i t hi hseat := h.apart i t (ht ▸ hi) hseat
  arrivals := h.arrivals
  handbacks := h.handbacks
  shown := by rw [Signal.history_congr hb.phase hb.isOpen]; exact h.shown

section

variable {s₀ s : System σ} {r r' : Record} {i : Nat} {m : Option Mark}

/-- What is entered for one task is added to its numbers. -/
theorem numbers_entered (hr' : ∀ j, Record.marks r' j = if i = j then m.toList else []) :
    (Record.arrivals (r ++ r') i).length = (r.arrivals i).length + Mark.arrivals m ∧
      (Record.handbacks (r ++ r') i).length = (r.handbacks i).length + Mark.handbacks m := by
  have hself := Record.numbers_of_marks_self ((hr' i).trans (if_pos rfl))
  rw [Record.arrivals_append, Record.handbacks_append, hself.1, hself.2, List.length_append,
    List.length_append]
  rcases m with _ | _ | _ | _ | _ <;> exact ⟨rfl, rfl⟩

/-- The numbers of the others stay as they are. -/
theorem numbers_of_other (hr' : ∀ j, Record.marks r' j = if i = j then m.toList else []) {j : Nat}
    (hj : j ≠ i) : Record.arrivals (r ++ r') j = r.arrivals j ∧
      Record.handbacks (r ++ r') j = r.handbacks j :=
  Record.numbers_of_marks_nil r ((hr' j).trans (if_neg (Ne.symm hj)))

/-- The accounts of the barrier are kept, also if the task has no part in it. -/
theorem Balanced.accounts_act (h : s₀.Balanced r s)
    (hr' : ∀ j, Record.marks r' j = if i = j then m.toList else [])
    (hdue : ∀ m', m = some m' →
      m'.IsDue s.world.barrier (r.arrivals i).length (r.handbacks i).length)
    (hout : i ∉ s₀.seats → m = none ∨ ∃ f, m = some (.accusation f)) :
    (Mark.act s.world.barrier m).Accounts s₀.seats
      (fun j => (Record.arrivals (r ++ r') j).length)
      fun j => (Record.handbacks (r ++ r') j).length := by
  obtain ⟨ha, hh⟩ := numbers_entered (r := r) hr'
  have hother (j : Nat) (hj : j ≠ i) := numbers_of_other (r := r) hr' hj
  by_cases hi : i ∈ s₀.seats
  · exact h.accounts.act hi hdue ha (fun j hj => by rw [(hother j hj).1]) hh
      fun j hj => by rw [(hother j hj).2]
  · -- nobody else has a token
    have hagree : s.world.barrier.Agrees (Mark.act s.world.barrier m) := by
      rcases hout hi with rfl | ⟨f, rfl⟩
      · exact .refl _
      · exact s.world.barrier.agrees_abort f
    have hzero : Mark.arrivals m = 0 ∧ Mark.handbacks m = 0 := by
      rcases hout hi with rfl | ⟨f, rfl⟩ <;> exact ⟨rfl, rfl⟩
    have hsame (j : Nat) : (Record.arrivals (r ++ r') j).length = (r.arrivals j).length ∧
        (Record.handbacks (r ++ r') j).length = (r.handbacks j).length := by
      by_cases hj : j = i
      · rw [hj, ha, hh, hzero.1, hzero.2]
        exact ⟨rfl, rfl⟩
      · rw [(hother j hj).1, (hother j hj).2]
        exact ⟨rfl, rfl⟩
    simp only [(hsame _).1, (hsame _).2]
    exact h.accounts.congr hagree

/-- Everybody goes on arriving for the phases in their order, and handing the tokens back in it. -/
theorem Balanced.ranges_act (h : s₀.Balanced r s)
    (hr' : ∀ j, Record.marks r' j = if i = j then m.toList else [])
    (hdue : ∀ m', m = some m' →
      m'.IsDue s.world.barrier (r.arrivals i).length (r.handbacks i).length) (j : Nat) :
    Record.arrivals (r ++ r') j = List.range (Record.arrivals (r ++ r') j).length ∧
      Record.handbacks (r ++ r') j = List.range (Record.handbacks (r ++ r') j).length := by
  by_cases hj : j = i
  · subst hj
    obtain ⟨ha, hh⟩ := numbers_entered (r := r) hr'
    have hself := Record.numbers_of_marks_self ((hr' j).trans (if_pos rfl))
    rw [ha, hh, Record.arrivals_append, Record.handbacks_append, hself.1, hself.2,
      ← Mark.range_arrivals hdue, ← Mark.range_handbacks hdue, ← h.arrivals j, ← h.handbacks j]
    exact ⟨rfl, rfl⟩
  · rw [(numbers_of_other hr' hj).1, (numbers_of_other hr' hj).2]
    exact ⟨h.arrivals j, h.handbacks j⟩

/-- What a task does at the barrier when it counts is entered in its place. -/
theorem Balanced.task (h : s₀.Balanced r s) {t' : Task σ} {w' : World}
    (hr' : ∀ j, Record.marks r' j = if i = j then m.toList else [])
    (hb : w'.barrier = Mark.act s.world.barrier m)
    (hshown : r'.shown = Record.shown (s.world.barrier.signal.change w'.barrier.signal))
    (hdue : ∀ m', m = some m' →
      m'.IsDue s.world.barrier (r.arrivals i).length (r.handbacks i).length)
    (hout : i ∉ s₀.seats → m = none ∨ ∃ f, m = some (.accusation f))
    (hfit : i ∈ s₀.seats → t'.Fits w'.barrier ((r.arrivals i).length + Mark.arrivals m)
      ((r.handbacks i).length + Mark.handbacks m))
    (hapart : i ∉ s₀.seats → t'.IsApart) :
    s₀.Balanced (r ++ r') ⟨w', s.tasks.set i t'⟩ := by
  have hto : s.world.barrier.LeadsTo w'.barrier := by
    rw [hb]
    exact Mark.leadsTo_act fun k hm => hdue _ hm
  refine ⟨List.length_set.trans h.length, ?_, hto.lastPhase.trans h.lastPhase,
    hto.launched.trans h.launched, ?_, fun j u hu hj => ?_, fun j u hu hj => ?_,
    fun j => (h.ranges_act hr' hdue j).1, fun j => (h.ranges_act hr' hdue j).2, ?_⟩
  · simp only [hb]
    exact Mark.isHonest_act h.honest m
  · simp only [hb]
    exact h.accounts_act hr' hdue hout
  · rcases of_getElem?_set hu with ⟨rfl, rfl⟩ | ⟨hji, hu⟩
    · obtain ⟨ha, hh⟩ := numbers_entered (r := r) hr'
      rw [ha, hh]
      exact hfit hj
    · rw [(numbers_of_other hr' hji).1, (numbers_of_other hr' hji).2]
      exact (h.fits j u hu hj).mono hto
  · rcases of_getElem?_set hu with ⟨rfl, rfl⟩ | ⟨hji, hu⟩
    · exact hapart hj
    · exact h.apart j u hu hj
  · rw [Record.shown_append, h.shown, hshown]
    simp only [hb]
    exact (Mark.history_act hdue).symm

end

theorem Balanced.isDue {s₀ s : System σ} {r : Record} (h : s₀.Balanced r s) {i : Nat} {t : Task σ}
    (ht : s.tasks[i]? = some t) {m : Mark} (hm : t.mark? s.world.barrier = some m) :
    m.IsDue s.world.barrier (r.arrivals i).length (r.handbacks i).length := by
  by_cases hseat : i ∈ s₀.seats
  · exact (h.fits i t ht hseat).isDue (h.counts hseat) hm
  · rcases (h.apart i t ht hseat).mark?_eq s.world.barrier with he | ⟨f, he⟩
    · rw [he] at hm; cases hm
    · rw [he] at hm; cases hm; trivial

variable [Behaviour σ]

/-- A step of a task changes the barrier by what the task does there. -/
theorem Balanced.barrier_act {s₀ s : System σ} {r : Record} (h : s₀.Balanced r s) {i : Nat}
    {t : Task σ} (ht : s.tasks[i]? = some t) : (s.fire (.act i)).world.barrier =
      Mark.act s.world.barrier (t.mark? s.world.barrier) := by
  rw [fire_act ht]
  exact (Task.turn_step s.world t).barrier fun k hk => (h.isDue ht hk).2.2.2

/-- A step of a task is entered as what the task does at the barrier. -/
theorem Balanced.act {s₀ s : System σ} {r : Record} (h : s₀.Balanced r s) {i : Nat} {t : Task σ}
    (ht : s.tasks[i]? = some t) :
    s₀.Balanced (r ++ s.entries (.act i)) (s.fire (.act i)) := by
  have hturn := Task.turn_step s.world t
  have hb := h.barrier_act ht
  rw [fire_act ht] at hb ⊢
  refine h.task (marks_entries_act ht) hb ?_ (fun m' hm => h.isDue ht hm)
    (fun hi => (h.apart i t ht hi).mark?_eq s.world.barrier)
    (fun hi => (h.fits i t ht hi).turn (h.counts hi) h.honest hturn)
    (fun hi => (h.apart i t ht hi).turn hturn)
  rw [shown_entries, fire_act ht]

/-- Calling a task away is not entered. -/
theorem Balanced.interrupt {s₀ s : System σ} {r : Record} (h : s₀.Balanced r s) {i : Nat}
    {t : Task σ} (ht : s.tasks[i]? = some t) :
    s₀.Balanced (r ++ []) ⟨s.world, s.tasks.set i (t.interrupt s.world).task⟩ := by
  refine h.task (m := none) (fun j => ?_) rfl ?_ (by rintro _ ⟨⟩) (fun _ => .inl rfl)
    (fun hi => (h.fits i t ht hi).interrupt s.world)
    (fun hi => (h.apart i t ht hi).interrupt s.world)
  · split <;> rfl
  · rw [Signal.change_eq_nil rfl rfl]

/-- Only the steps of the tasks move tokens. -/
theorem agrees_fire (s : System σ) {l : Label} (hl : ∀ i, l = .act i → s.tasks[i]? = none) :
    s.world.barrier.Agrees (s.fire l).world.barrier := by
  cases l with
  | act i => rw [fire, System.act, onTask_of_none (hl i rfl)]; exact .refl _
  | interrupt i =>
    cases ht : s.tasks[i]? with
    | none => rw [fire, onTask_of_none ht]; exact .refl _
    | some t => rw [fire_interrupt ht]; exact .refl _
  | work => exact .refl _
  | stop => exact Barrier.agrees_stop _
  | requestEnd k => exact Barrier.agrees_requestEnd _ k
  | abort f => exact Barrier.agrees_abort _ f
  | tick now => exact .refl _

/-- A move keeps the books. -/
theorem Balanced.fire {s₀ s : System σ} {r : Record} (h : s₀.Balanced r s) (l : Label) :
    s₀.Balanced (r ++ s.entries l) (s.fire l) := by
  -- nothing is entered for a move from outside
  have houtside (hl : ∀ i, l = .act i → s.tasks[i]? = none)
      (hh : (s.fire l).world.barrier.IsHonest) (ht : (s.fire l).tasks = s.tasks) :
      s₀.Balanced (r ++ s.entries l) (s.fire l) := by
    have hb := s.agrees_fire hl
    have hdeeds : s.deeds l = [] := by
      cases l <;> first | rfl | simp [deeds, hl]
    rw [entries, hdeeds, Signal.change_eq_nil hb.phase hb.isOpen, List.append_nil, List.append_nil]
    exact h.agrees hb hh ht
  cases l with
  | act i =>
    cases ht : s.tasks[i]? with
    | some t => exact h.act ht
    | none =>
      have hfire : s.fire (.act i) = s := onTask_of_none ht _
      exact houtside (fun j hj => by cases hj; exact ht) (by rw [hfire]; exact h.honest)
        (by rw [hfire])
  | interrupt i =>
    cases ht : s.tasks[i]? with
    | some t =>
      rw [entries, fire_interrupt ht, Signal.change_eq_nil rfl rfl]
      exact h.interrupt ht
    | none =>
      have hfire : s.fire (.interrupt i) = s := onTask_of_none ht _
      exact houtside (by rintro _ ⟨⟩) (by rw [hfire]; exact h.honest) (by rw [hfire])
  | work => exact houtside (by rintro _ ⟨⟩) h.honest rfl
  | stop => exact houtside (by rintro _ ⟨⟩) h.honest.stop rfl
  | requestEnd k => exact houtside (by rintro _ ⟨⟩) h.honest rfl
  | abort f =>
    exact houtside (by rintro _ ⟨⟩) (Mark.isHonest_act h.honest (some (.accusation f))) rfl
  | tick now => exact houtside (by rintro _ ⟨⟩) h.honest rfl

/-- **After every run of a system that is ready the books agree**, whatever order its moves come
in. -/
theorem IsReady.balanced_run {s₀ : System σ} (hs : s₀.IsReady) (ls : List Label) :
    s₀.Balanced (s₀.record ls) (s₀.run ls) :=
  run_induction ls hs.balanced fun _ _ l _ h => h.fire l

end System

end Lockstep
