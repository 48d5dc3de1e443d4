import Lockstep.Proofs.Culpability
import Lockstep.Proofs.Ready
import Lockstep.Run

/-!
# Who is to blame

A run whose tasks have all come to their end is concluded: it went well, or an error names the actor
to blame.

* `System.IsFresh` : the systems with which a run may begin as far as blame is concerned;
* `System.Answering` : what holds along a run that nobody aborts from outside;
* `System.root_cause` : **a run fails exactly if some actor failed by itself, panicked, or gave up
  its part too early, and then the error is about the actor that was the first to abort the run**,
  and about what came of that actor.

The barrier keeps the first failure.  Nothing ties it to what comes of the actor later on but the
identity of the actor; `Task.Stands` says that this leads to the right end.
-/

namespace Lockstep

section

variable {σ : Type} [Behaviour σ]

/-- An actor that has not begun. -/
structure Task.IsFresh (t : Task σ) : Prop where
  stage : t.stage = .waiting
  lifecycle : t.lifecycle = .constructed
  loop : ∀ p, t.loop = some p → p.actor = t.name ∧ p.id = t.id
  candid : Candid t.mind

/-- Actors that have not begun, each with an identity of its own, and a barrier at which no failure
has been recorded. -/
structure System.IsFresh (s : System σ) : Prop where
  failure : s.world.barrier.failure = none
  halt : s.world.barrier.signal.halt ≠ .aborted
  tasks : ∀ t ∈ s.tasks, t.IsFresh
  ids : (s.tasks.map Task.id).Nodup

end

/-! ### Failures at the barrier -/

/-- Calls neither halt a run nor record a failure. -/
theorem Call.failure_step (b : Barrier) (c : Call) :
    (c.step b).1.failure = b.failure ∧ (c.step b).1.signal.halt = b.signal.halt := by
  have harrive : b.arrive.failure = b.failure ∧ b.arrive.signal.halt = b.signal.halt := by
    unfold Barrier.arrive
    split <;> exact ⟨rfl, rfl⟩
  have hhandBack (k : Nat) :
      (b.handBack k).failure = b.failure ∧ (b.handBack k).signal.halt = b.signal.halt := by
    unfold Barrier.handBack
    split <;> exact ⟨rfl, rfl⟩
  cases c <;> simp only [step] <;> repeat' split
  all_goals first | exact ⟨rfl, rfl⟩ | exact harrive | exact hhandBack _

namespace Task

variable {σ : Type} [Behaviour σ] {t t' : Task σ} {w : World} {b' : Barrier}

/-- A task changes what is known about failures only by accusing somebody. -/
theorem Turn.failure (ht : t.Turn w b' t') :
    (t.mark? w.barrier).bind Mark.accusation? = none ∧ b'.failure = w.barrier.failure ∧
        b'.signal.halt = w.barrier.signal.halt ∨
      ∃ f, t.mark? w.barrier = some (.accusation f) ∧ b' = w.barrier.abort f := by
  have hfarewell {p : Participant} {f : Farewell} (hm : t.mark? w.barrier = f.mark? w.barrier p) :
      (t.mark? w.barrier).bind Mark.accusation? = none ∧
          (f.step w.barrier p).1.failure = w.barrier.failure ∧
          (f.step w.barrier p).1.signal.halt = w.barrier.signal.halt ∨
        ∃ g, t.mark? w.barrier = some (.accusation g) ∧
          (f.step w.barrier p).1 = w.barrier.abort g := by
    rw [hm]
    cases f with
    | checking => exact .inl ⟨by simp only [Farewell.mark?]; split <;> rfl, rfl, rfl⟩
    | reading => exact .inl ⟨rfl, rfl, rfl⟩
    | accusing phase => exact .inr ⟨_, rfl, rfl⟩
  have hnone (hm : t.mark? w.barrier = none) :
      (t.mark? w.barrier).bind Mark.accusation? = none := by rw [hm]; rfl
  cases ht with
  | works hs h => exact .inl ⟨hnone (mark?_of_isAtWork _ hs), rfl, rfl⟩
  | @advances x p t' hs hp h =>
    have hmark : t.mark? w.barrier = x.mark? w.barrier := by simp only [mark?, hs, hp]
    refine .inl ⟨hmark ▸ (x.mark?_quiet w.barrier).1, ?_⟩
    rw [Advance.barrier_eq_call]
    cases x.call? with
    | none => exact ⟨rfl, rfl⟩
    | some c => exact c.failure_step w.barrier
  | withdraws hs hp h => exact hfarewell (by simp only [mark?, hs, hp])
  | leaves hs hp h => exact hfarewell (by simp only [mark?, hs, hp])
  | parts hs hp h => exact hfarewell (by simp only [mark?, hs, hp])
  | ends hs hp h => exact hfarewell (by simp only [mark?, hs, hp])
  | accuses hs => exact .inr ⟨_, by simp only [mark?, hs], rfl⟩
  | idles hs hp hr =>
    exact .inl ⟨hnone (by rcases hs with ⟨x, hs⟩ | ⟨f, hs⟩ <;> simp only [mark?, hs, hp]), rfl, rfl⟩
  | closes hs hp => exact .inl ⟨hnone (by simp only [mark?, hs, hp]), rfl, rfl⟩
  | begins hs h => exact .inl ⟨hnone (by simp only [mark?, hs]), rfl, rfl⟩
  | refuses hs h => exact .inl ⟨hnone (by simp only [mark?, hs]), rfl, rfl⟩
  | blames hs h => exact .inl ⟨hnone (by simp only [mark?, hs]), rfl, rfl⟩
  | acquits hs h => exact .inl ⟨hnone (by simp only [mark?, hs]), rfl, rfl⟩
  | reads hs => exact .inl ⟨hnone (by simp only [mark?, hs]), rfl, rfl⟩
  | rests hs => exact .inl ⟨hnone (by simp only [mark?, hs]), rfl, rfl⟩

end Task

/-! ### Accusations on the record -/

namespace Record

theorem accusations_deeds {σ : Type} {s : System σ} {i : Nat} {t : Task σ}
    (ht : s.tasks[i]? = some t) : accusations (s.deeds (.act i)) =
      ((t.mark? s.world.barrier).bind Mark.accusation?).toList.map (i, ·) := by
  simp only [System.deeds, ht, Option.bind_some]
  cases t.mark? s.world.barrier with
  | none => rfl
  | some m => cases m <;> rfl

theorem desertions_deeds {σ : Type} {s : System σ} {i : Nat} {t : Task σ}
    (ht : s.tasks[i]? = some t) : desertions (s.deeds (.act i)) =
      if t.mark? s.world.barrier = some .desertion then [i] else [] := by
  simp only [System.deeds, ht, Option.bind_some]
  cases t.mark? s.world.barrier with
  | none => rfl
  | some m => cases m <;> rfl

theorem accusations_change (s s' : Signal) : accusations (s.change s') = [] := by
  unfold Signal.change
  split <;> rfl

theorem desertions_change (s s' : Signal) : desertions (s.change s') = [] := by
  unfold Signal.change
  split <;> rfl

end Record

namespace System

variable {σ : Type} [Behaviour σ]

theorem accusations_entries_act {s : System σ} {i : Nat} {t : Task σ} (ht : s.tasks[i]? = some t) :
    Record.accusations (s.entries (.act i)) =
      ((t.mark? s.world.barrier).bind Mark.accusation?).toList.map (i, ·) := by
  rw [entries, Record.accusations_append, Record.accusations_change, List.append_nil,
    Record.accusations_deeds ht]

theorem desertions_entries_act {s : System σ} {i : Nat} {t : Task σ} (ht : s.tasks[i]? = some t) :
    Record.desertions (s.entries (.act i)) =
      if t.mark? s.world.barrier = some .desertion then [i] else [] := by
  rw [entries, Record.desertions_append, Record.desertions_change, List.append_nil,
    Record.desertions_deeds ht]

theorem grows_act (r : Record) {s : System σ} {i : Nat} {t : Task σ} (ht : s.tasks[i]? = some t) :
    r.Grows (r ++ s.entries (.act i)) i (t.mark? s.world.barrier) := by
  refine ⟨by rw [Record.accusations_append, accusations_entries_act ht], ?_⟩
  rw [Record.desertions_append, desertions_entries_act ht, List.mem_append]
  split
  · next hm => simp [hm]
  · next hm => simp [hm]

/-- What holds along a run from `s₀` that nobody aborts from outside. -/
structure Answering (s₀ : System σ) (r : Record) (s : System σ) : Prop where
  length : s.tasks.length = s₀.tasks.length
  honest : s.world.barrier.IsHonest
  /-- The barrier keeps the first failure. -/
  failure : s.world.barrier.failure = r.accusations.head?.map Prod.snd
  tasks : ∀ (i : Nat) (t₀ t : Task σ), s₀.tasks[i]? = some t₀ → s.tasks[i]? = some t →
    t₀.Stands t r i
  accusers : ∀ i f, (i, f) ∈ r.accusations → ∃ t₀, s₀.tasks[i]? = some t₀ ∧
    f.actor = t₀.name ∧ f.id = t₀.id
  deserters : ∀ i ∈ r.desertions, i < s₀.tasks.length

theorem Answering.isAborted_iff {s₀ s : System σ} {r : Record} (h : s₀.Answering r s) :
    s.world.barrier.isAborted = true ↔ r.accusations ≠ [] := by
  have hsome : s.world.barrier.failure.isSome = true ↔ r.accusations ≠ [] := by
    rw [h.failure]
    cases r.accusations <;> simp
  simpa [Barrier.isAborted] using h.honest.trans hsome

theorem IsFresh.answering {s : System σ} (hs : s.IsFresh) :
    s.Answering [] (s.onBarrier Barrier.launch) where
  length := rfl
  honest := by
    refine ⟨fun hh => absurd hh hs.halt, fun hf => ?_⟩
    have hf : s.world.barrier.failure.isSome = true := hf
    rw [hs.failure] at hf
    cases hf
  failure := hs.failure
  tasks i t₀ t ht₀ ht := by
    obtain rfl : t₀ = t := Option.some.inj (ht₀.symm.trans ht)
    have hfresh := hs.tasks t₀ (List.mem_of_getElem? ht)
    have hstage := hfresh.stage
    refine ⟨rfl, rfl, hfresh.loop, by rw [hstage, hfresh.lifecycle]; rfl, fun _ => .inl .start,
      fun res hres => ?_, by rw [hstage]; trivial, fun res f hf => ?_, fun hd => ?_,
      by rintro ⟨⟩, ?_⟩
    · rw [hstage] at hres; cases hres
    · rw [hstage] at hf; cases hf
    · rw [hstage] at hd; cases hd
    · rintro ⟨f, hf⟩
      cases hf
  accusers _ _ hf := by cases hf
  deserters _ hi := by cases hi

/-- A move that records nothing and changes at most one task. -/
theorem Answering.quiet {s₀ s s' : System σ} {r : Record} (h : s₀.Answering r s)
    (hlength : s'.tasks.length = s.tasks.length) (hh : s'.world.barrier.IsHonest)
    (hf : s'.world.barrier.failure = s.world.barrier.failure)
    (htasks : ∀ (i : Nat) (t₀ t : Task σ), s₀.tasks[i]? = some t₀ → s'.tasks[i]? = some t →
      t₀.Stands t r i)
    {r' : Record} (hr' : r'.accusations = [] ∧ r'.desertions = []) :
    s₀.Answering (r ++ r') s' := by
  have hacc : Record.accusations (r ++ r') = r.accusations := by
    rw [Record.accusations_append, hr'.1, List.append_nil]
  have hdes : Record.desertions (r ++ r') = r.desertions := by
    rw [Record.desertions_append, hr'.2, List.append_nil]
  refine ⟨hlength.trans h.length, hh, ?_, fun i t₀ t ht₀ ht => ?_, ?_, ?_⟩
  · rw [hacc, hf]; exact h.failure
  · refine (htasks i t₀ t ht₀ ht).mono (by rw [hacc]) (fun ha => ?_) (by rw [hdes])
    obtain ⟨f, hmem⟩ := ha
    exact ⟨f, hacc ▸ hmem⟩
  · rw [hacc]; exact h.accusers
  · rw [hdes]; exact h.deserters

/-- What a task does that accuses nobody leaves the failure as it is, and an accusation is kept if
it is the first one. -/
theorem Answering.barrier_act {s₀ s : System σ} {r : Record} (h : s₀.Answering r s) {i : Nat}
    {t t' : Task σ} {b' : Barrier} (ht : s.tasks[i]? = some t) (hturn : t.Turn s.world b' t') :
    b'.IsHonest ∧
      b'.failure = (Record.accusations (r ++ s.entries (.act i))).head?.map Prod.snd := by
  rw [(grows_act r ht).accusations]
  rcases hturn.failure with ⟨hm, hfail, hhalt⟩ | ⟨f, hm, rfl⟩
  · rw [hm]
    refine ⟨?_, by simpa [hfail] using h.failure⟩
    unfold Barrier.IsHonest
    rw [hfail, hhalt]
    exact h.honest
  · obtain ⟨hhalt, hfail⟩ := h.honest.abort f
    refine ⟨⟨fun _ => by rw [hfail]; rfl, fun _ => hhalt⟩, ?_⟩
    rw [hm, hfail, h.failure]
    cases r.accusations <;> rfl

theorem Answering.act {s₀ s : System σ} {r : Record} (hs : s₀.IsFresh) (h : s₀.Answering r s)
    {i : Nat} {t : Task σ} (ht : s.tasks[i]? = some t) :
    s₀.Answering (r ++ s.entries (.act i)) (s.fire (.act i)) := by
  have hturn := Task.turn_step s.world t
  obtain ⟨hhonest, hfailure⟩ := h.barrier_act ht hturn
  have hgrows := grows_act r ht
  have hi : i < s₀.tasks.length := h.length ▸ (List.getElem?_eq_some_iff.1 ht).1
  obtain ⟨t₀, ht₀⟩ : ∃ t₀, s₀.tasks[i]? = some t₀ := ⟨_, List.getElem?_eq_getElem hi⟩
  have hstands := h.tasks i t₀ t ht₀ ht
  rw [fire_act ht]
  refine ⟨List.length_set.trans h.length, hhonest, hfailure, fun j u₀ u hu₀ hu => ?_,
    fun j f hf => ?_, fun j hj => ?_⟩
  · rcases of_getElem?_set hu with ⟨rfl, rfl⟩ | ⟨hji, hu⟩
    · cases ht₀.symm.trans hu₀
      exact hstands.turn (hs.tasks t₀ (List.mem_of_getElem? ht₀)).candid h.isAborted_iff hgrows
        hturn
    · -- what the others do is recorded under their own positions
      refine (h.tasks j u₀ u hu₀ hu).mono hgrows.accusations_prefix ?_ ?_
      · rintro ⟨f, hf⟩
        rw [hgrows.accusations, List.mem_append] at hf
        rcases hf with hf | hf
        · exact ⟨f, hf⟩
        · obtain ⟨g, -, hg⟩ := List.mem_map.1 hf
          exact absurd (congrArg Prod.fst hg).symm hji
      · rw [Record.desertions_append, desertions_entries_act ht, List.mem_append]
        refine or_iff_left fun hj => hji ?_
        split at hj
        · exact List.mem_singleton.1 hj
        · cases hj
  · rw [hgrows.accusations, List.mem_append] at hf
    rcases hf with hf | hf
    · exact h.accusers j f hf
    · obtain ⟨g, hg, heq⟩ := List.mem_map.1 hf
      cases heq
      rw [Option.mem_toList] at hg
      obtain ⟨m, hm, hacc⟩ := Option.bind_eq_some_iff.1 hg
      cases m <;> cases hacc
      exact ⟨t₀, ht₀, hstands.of_accusation hm⟩
  · rw [Record.desertions_append, desertions_entries_act ht, List.mem_append] at hj
    rcases hj with hj | hj
    · exact h.deserters j hj
    · split at hj
      · rw [List.mem_singleton.1 hj]; exact hi
      · cases hj

/-- A move keeps it, unless it aborts the run from outside. -/
theorem Answering.fire {s₀ s : System σ} {r : Record} (hs : s₀.IsFresh) (h : s₀.Answering r s)
    {l : Label} (hl : ∀ f, l ≠ .abort f) : s₀.Answering (r ++ s.entries l) (s.fire l) := by
  have hentries (hd : s.deeds l = []) :
      Record.accusations (s.entries l) = [] ∧ Record.desertions (s.entries l) = [] := by
    rw [entries, hd, List.nil_append]
    exact ⟨Record.accusations_change _ _, Record.desertions_change _ _⟩
  have houtside (hh : (s.fire l).world.barrier.IsHonest)
      (hf : (s.fire l).world.barrier.failure = s.world.barrier.failure)
      (ht : (s.fire l).tasks = s.tasks) (hd : s.deeds l = []) :
      s₀.Answering (r ++ s.entries l) (s.fire l) := by
    refine h.quiet (by rw [ht]) hh hf ?_ (hentries hd)
    rw [ht]
    exact h.tasks
  have hsame (hf : s.fire l = s) (hd : s.deeds l = []) :
      s₀.Answering (r ++ s.entries l) (s.fire l) :=
    houtside (by rw [hf]; exact h.honest) (by rw [hf]) (by rw [hf]) hd
  cases l with
  | act i =>
    cases ht : s.tasks[i]? with
    | some t => exact h.act hs ht
    | none => exact hsame (onTask_of_none ht _) (by simp [deeds, ht])
  | interrupt i =>
    cases ht : s.tasks[i]? with
    | none => exact hsame (onTask_of_none ht _) rfl
    | some t =>
      refine h.quiet ?_ ?_ ?_ (fun j u₀ u hu₀ hu => ?_) (hentries rfl)
      · rw [fire_interrupt ht]; exact List.length_set
      · rw [fire_interrupt ht]; exact h.honest
      · rw [fire_interrupt ht]
      · rw [fire_interrupt ht] at hu
        rcases of_getElem?_set hu with ⟨rfl, rfl⟩ | ⟨-, hu⟩
        · exact (h.tasks j u₀ t hu₀ ht).interrupt
            (hs.tasks u₀ (List.mem_of_getElem? hu₀)).candid s.world
        · exact h.tasks j u₀ u hu₀ hu
  | work => exact houtside h.honest rfl rfl rfl
  | stop =>
    refine houtside h.honest.stop ?_ rfl rfl
    simp only [System.fire, onBarrier, Barrier.stop]
    split <;> rfl
  | requestEnd k => exact houtside h.honest rfl rfl rfl
  | abort f => exact absurd rfl (hl f)
  | tick now => exact houtside h.honest rfl rfl rfl

theorem IsFresh.answering_run {s₀ : System σ} (hs : s₀.IsFresh) {ls : List Label}
    (hls : ∀ f, Label.abort f ∉ ls) :
    s₀.Answering ((s₀.onBarrier Barrier.launch).record ls)
      ((s₀.onBarrier Barrier.launch).run ls) :=
  run_induction ls hs.answering fun _ _ _ hl h => h.fire hs fun f hf => hls f (hf ▸ hl)

/-! ### The end of a run -/

omit [Behaviour σ] in
theorem result?_eq_some_iff {t : Task σ} {res : Result} :
    t.result? = some res ↔ t.stage = .over res := by
  unfold Task.result?
  split
  · next r hr => rw [hr]; exact ⟨fun h => by cases h; rfl, fun h => by cases h; rfl⟩
  · next hno => exact ⟨by rintro ⟨⟩, fun h => absurd h (hno res)⟩

omit [Behaviour σ] in
/-- Every identity leads to the one task that has it. -/
theorem resultOf?_id {tasks : List (Task σ)} (hids : (tasks.map Task.id).Nodup) {i : Nat}
    {t : Task σ} (ht : tasks[i]? = some t) : resultOf? tasks t.id = t.result? := by
  have hmem := List.mem_of_getElem? ht
  have hfind : tasks.find? (fun u => u.id = t.id) = some t := by
    cases hf : tasks.find? fun u => u.id = t.id with
    | none => exact absurd (List.find?_eq_none.1 hf t hmem) (by simp)
    | some u =>
      have hu : u.id = t.id := by simpa using List.find?_some hf
      exact congrArg some (List.inj_on_of_nodup_map hids (List.mem_of_find?_eq_some hf) hmem hu)
  rw [resultOf?, hfind, Option.bind_some]

namespace Answering

variable {s₀ s : System σ} {r : Record}

/-- What the tasks keep from the start can be read off from the start. -/
theorem map_tasks {α : Type} (h : s₀.Answering r s) {f g : Task σ → α}
    (hfg : ∀ (i : Nat) (t₀ t : Task σ), s₀.tasks[i]? = some t₀ → s.tasks[i]? = some t →
      t₀.Stands t r i → f t = g t₀) : s.tasks.map f = s₀.tasks.map g := by
  refine List.ext_getElem (by simp [h.length]) fun i hi hi₀ => ?_
  rw [List.length_map] at hi hi₀
  rw [List.getElem_map, List.getElem_map]
  have ht := List.getElem?_eq_getElem hi
  have ht₀ := List.getElem?_eq_getElem hi₀
  exact hfg i _ _ ht₀ ht (h.tasks i _ _ ht₀ ht)

/-- A task at its end, with where it has come from. -/
theorem of_isOver (h : s₀.Answering r s) (hover : s.isOver = true) {i : Nat} {t : Task σ}
    (ht : s.tasks[i]? = some t) : ∃ t₀ res, s₀.tasks[i]? = some t₀ ∧ t₀.Stands t r i ∧
      t.stage = .over res := by
  have hi : i < s₀.tasks.length := h.length ▸ (List.getElem?_eq_some_iff.1 ht).1
  have hend : t.result?.isSome = true := List.all_eq_true.1 hover t (List.mem_of_getElem? ht)
  obtain ⟨res, hres⟩ := Option.isSome_iff_exists.1 hend
  exact ⟨_, res, List.getElem?_eq_getElem hi, h.tasks i _ t (List.getElem?_eq_getElem hi) ht,
    result?_eq_some_iff.1 hres⟩

/-- Somebody has aborted the run exactly if there was a reason to. -/
theorem accusations_eq_nil_iff (h : s₀.Answering r s) (hover : s.isOver = true) :
    r.accusations = [] ↔
      (∀ t ∈ s.tasks, ∀ res, t.result? = some res → res.isCulpable = false) ∧
        r.desertions = [] := by
  constructor
  · intro hr
    refine ⟨fun t ht res hres => ?_, List.eq_nil_iff_forall_not_mem.2 fun i hi => ?_⟩
    · obtain ⟨i, hi⟩ := List.getElem?_of_mem ht
      obtain ⟨t₀, res', -, hstands, hstage⟩ := h.of_isOver hover hi
      rw [result?_eq_some_iff, hstage] at hres
      cases hres
      have hanswers := hstands.answers
      rw [hstage] at hanswers
      by_contra hc
      exact hanswers (by simpa using hc) hr
    · have hlt : i < s.tasks.length := h.length ▸ h.deserters i hi
      obtain ⟨t₀, res, -, hstands, hstage⟩ := h.of_isOver hover (List.getElem?_eq_getElem hlt)
      rcases hstands.deserted hi with hne | hd
      · exact hne hr
      · rw [hstage] at hd; cases hd
  · rintro ⟨hres, hdes⟩
    by_contra hne
    obtain ⟨⟨i, f⟩, es, hr⟩ := List.exists_cons_of_ne_nil hne
    have hmem : (i, f) ∈ r.accusations := by rw [hr]; exact List.mem_cons_self
    obtain ⟨t₀, ht₀, -⟩ := h.accusers i f hmem
    have hlt : i < s.tasks.length := h.length ▸ (List.getElem?_eq_some_iff.1 ht₀).1
    obtain ⟨_, res, -, hstands, hstage⟩ := h.of_isOver hover (List.getElem?_eq_getElem hlt)
    rcases (hstands.accused ⟨f, hmem⟩).2 with hd | ⟨res', hout, hc⟩
    · rw [hdes] at hd; cases hd
    · rw [hstage] at hout
      cases hout
      rw [hres _ (List.getElem_mem hlt) res (result?_eq_some_iff.2 hstage)] at hc
      cases hc

/-- The conclusion of a run that nobody has aborted. -/
theorem conclude_of_nil (h : s₀.Answering r s) (hover : s.isOver = true)
    (hr : r.accusations = []) : conclude s = .ok {
      actors := s₀.tasks.map fun t => ⟨t.name, t.id, .terminated⟩
      phasesCompleted := s.world.barrier.currentPhase
      stopped := s.world.barrier.isStopped
      elapsed := .between 0 s.world.now } := by
  have hfailure : s.world.barrier.failure = none := by rw [h.failure, hr]; rfl
  have hrefusal : firstRefusal? s.tasks = none := by
    refine List.findSome?_eq_none_iff.2 fun t ht => ?_
    obtain ⟨i, hi⟩ := List.getElem?_of_mem ht
    obtain ⟨t₀, res, -, hstands, hstage⟩ := h.of_isOver hover hi
    obtain ⟨e, rfl, -⟩ := hstands.outcome res (by rw [hstage]; rfl)
    rw [result?_eq_some_iff.2 hstage]
  have hactors : (s.tasks.map fun t => (⟨t.name, t.id, t.lifecycle⟩ : Finish)) =
      s₀.tasks.map fun t => ⟨t.name, t.id, .terminated⟩ := by
    refine h.map_tasks fun i t₀ t _ ht hstands => ?_
    obtain ⟨_, res, -, -, hstage⟩ := h.of_isOver hover ht
    rw [hstands.name, hstands.id, hstands.lifecycle, hstage]
    rfl
  simp only [conclude, hfailure, hrefusal, hactors]

/-- The conclusion of a run that somebody has aborted. -/
theorem conclude_of_cons (h : s₀.Answering r s) (hids : (s₀.tasks.map Task.id).Nodup)
    (hover : s.isOver = true) {i : Nat} {f : Failure} (hr : r.accusations.head? = some (i, f)) :
    ∃ t e, s.tasks[i]? = some t ∧ f.actor = t.name ∧ f.id = t.id ∧
      t.result? = some (.ended e) ∧ (∀ err, e = .failed err → err.isAftermath = false) ∧
      conclude s = .error (blame f (some (.ended e))) := by
  have hmem : (i, f) ∈ r.accusations := List.mem_of_mem_head? hr
  obtain ⟨t₀, ht₀, hactor, hid⟩ := h.accusers i f hmem
  have hlt : i < s.tasks.length := h.length ▸ (List.getElem?_eq_some_iff.1 ht₀).1
  have ht := List.getElem?_eq_getElem hlt
  have hstands := h.tasks i t₀ _ ht₀ ht
  obtain ⟨_, res, -, -, hstage⟩ := h.of_isOver hover ht
  obtain ⟨e, rfl, hexcuse⟩ := hstands.outcome res (by rw [hstage]; rfl)
  have hresult := result?_eq_some_iff.2 hstage
  refine ⟨_, e, ht, hactor.trans hstands.name.symm, hid.trans hstands.id.symm, hresult,
    fun err he => ?_, ?_⟩
  · -- an actor that only passes on that the run was aborted was not the first to abort it
    by_contra haft
    obtain ⟨e', he', hne⟩ := hexcuse err he (by simpa using haft)
    rw [hr] at he'
    cases he'
    exact hne rfl
  · have hnodup : (s.tasks.map Task.id).Nodup := by
      rw [h.map_tasks fun i t₀ t _ _ hst => hst.id]
      exact hids
    have hfailure : s.world.barrier.failure = some f := by rw [h.failure, hr]; rfl
    simp only [conclude, hfailure]
    rw [hid, ← hstands.id, resultOf?_id hnodup ht, hresult]

end Answering

/-- **A run of fresh actors that nobody aborts from outside goes well exactly if no actor failed by
itself, panicked, or gave up its part while the others needed it.**  Then all actors have completed
their work, and are listed in their order.  Otherwise the error is about the actor that was the
first to abort the run, and about what came of that very actor. -/
theorem root_cause {s₀ : System σ} (hs : s₀.IsFresh) {ls : List Label}
    (hls : ∀ f, Label.abort f ∉ ls) {s : System σ} (hrun : s = (s₀.onBarrier Barrier.launch).run ls)
    {r : Record} (hr : r = (s₀.onBarrier Barrier.launch).record ls) (hover : s.isOver = true) :
    ((∃ sum, conclude s = .ok sum) ↔
      (∀ t ∈ s.tasks, ∀ res, t.result? = some res → res.isCulpable = false) ∧
        r.desertions = []) ∧
    (∀ sum, conclude s = .ok sum →
      (∀ t ∈ s.tasks, t.result? = some (.ended .completed)) ∧
        sum.actors = s₀.tasks.map fun t => ⟨t.name, t.id, .terminated⟩) ∧
    (∀ err, conclude s = .error err → ∃ i f t, r.accusations.head? = some (i, f) ∧
      s.tasks[i]? = some t ∧ f.actor = t.name ∧ f.id = t.id ∧
        ((∃ e, t.result? = some (.ended (.failed e)) ∧ e.isAftermath = false ∧
            err = .actorFailed t.name t.id f.phase e) ∨
          (∃ message, t.result? = some (.ended (.panicked message)) ∧
            err = .actorPanicked t.name t.id f.phase message) ∨
          (t.result? = some (.ended .completed) ∧
            err = .actorExited t.name t.id f.phase))) := by
  have h : s₀.Answering r s := by
    rw [hrun, hr]
    exact hs.answering_run hls
  have hiff := h.accusations_eq_nil_iff hover
  cases hacc : r.accusations with
  | nil =>
    have hok := h.conclude_of_nil hover hacc
    obtain ⟨hinnocent, -⟩ := hiff.1 hacc
    refine ⟨⟨fun _ => hiff.1 hacc, fun _ => ⟨_, hok⟩⟩, fun sum hsum => ⟨fun t ht => ?_, ?_⟩,
      fun err herr => ?_⟩
    · obtain ⟨i, hi⟩ := List.getElem?_of_mem ht
      obtain ⟨t₀, res, -, hstands, hstage⟩ := h.of_isOver hover hi
      have hresult := result?_eq_some_iff.2 hstage
      obtain ⟨e, rfl, hexcuse⟩ := hstands.outcome res (by rw [hstage]; rfl)
      have hinnocent := hinnocent t ht _ hresult
      cases e with
      | completed => exact hresult
      | failed err =>
        have haft : err.isAftermath = true := by simpa [Result.isCulpable] using hinnocent
        exact absurd hacc (hexcuse err rfl haft).accusations_ne_nil
      | panicked message => cases hinnocent
    · rw [hok] at hsum; cases hsum; rfl
    · rw [hok] at herr; cases herr
  | cons a as =>
    obtain ⟨i, f⟩ := a
    have hhead : r.accusations.head? = some (i, f) := by rw [hacc]; rfl
    obtain ⟨t, e, ht, hactor, hid, hresult, hown, herr⟩ :=
      h.conclude_of_cons hs.ids hover hhead
    have hne : r.accusations ≠ [] := by rw [hacc]; exact List.cons_ne_nil _ _
    refine ⟨⟨?_, fun hno => absurd (hiff.2 hno) hne⟩, fun sum hsum => ?_,
      fun err herr' => ⟨i, f, t, hacc ▸ hhead, ht, hactor, hid, ?_⟩⟩
    · rintro ⟨sum, hsum⟩
      rw [herr] at hsum; cases hsum
    · rw [herr] at hsum; cases hsum
    · rw [herr] at herr'
      cases herr'
      rw [← hactor, ← hid]
      cases e with
      | failed err => exact .inl ⟨err, hresult, hown err rfl, rfl⟩
      | panicked message => exact .inr (.inl ⟨message, hresult, rfl⟩)
      | completed => exact .inr (.inr ⟨hresult, rfl⟩)

theorem isFresh_duet : duet.IsFresh where
  failure := rfl
  halt := by decide
  tasks := by
    intro t ht
    have hplayer (name : String) (id : Nat) (plan : FlakyPlan) (phases : List PhasePlan) :
        (Task.player name id plan phases).IsFresh :=
      ⟨rfl, rfl, fun p hp => by cases hp; exact ⟨rfl, rfl⟩, Flaky.candid (by rintro _ ⟨⟩)⟩
    rcases List.mem_pair.1 ht with rfl | rfl
    · exact hplayer _ _ _ _
    · exact hplayer _ _ _ _
  ids := by decide

/-- The guest fails while the host waits for it. -/
def duetFailure : List Label :=
  List.replicate 6 (.act 0) ++ List.replicate 30 (.act 1) ++ List.replicate 30 (.act 0)

/-- The failure of the guest is the one that counts, though the host has failed after it. -/
theorem root_cause_duet :
    duet.IsFresh ∧ (∀ f, Label.abort f ∉ duetFailure) ∧
      ((duet.onBarrier Barrier.launch).run duetFailure).isOver = true ∧
      ∃ e, e.isAftermath = false ∧
        conclude ((duet.onBarrier Barrier.launch).run duetFailure) =
          .error (.actorFailed "guest" 1 0 e) := by
  have hls : ∀ f, Label.abort f ∉ duetFailure := by
    intro f hf
    simp [duetFailure] at hf
  have hover : ((duet.onBarrier Barrier.launch).run duetFailure).isOver = true := by decide +kernel
  have hacc : ((duet.onBarrier Barrier.launch).record duetFailure).accusations.head? =
      some (1, ⟨"guest", 1, 0, "step 1 failed"⟩) := by decide +kernel
  have hfailed : (((duet.onBarrier Barrier.launch).run duetFailure).tasks[1]?.any fun t =>
      t.result?.any Result.isFailure) = true := by decide +kernel
  obtain ⟨hok, -, herror⟩ := root_cause isFresh_duet hls rfl rfl hover
  refine ⟨isFresh_duet, hls, hover, ?_⟩
  obtain ⟨t, ht, hany⟩ := (Option.any_eq_true _ _).1 hfailed
  obtain ⟨res, hres, hcase⟩ := (Option.any_eq_true _ _).1 hany
  cases hc : conclude ((duet.onBarrier Barrier.launch).run duetFailure) with
  | ok sum =>
    have hinnocent := (hok.1 ⟨sum, hc⟩).1 t (List.mem_of_getElem? ht) res hres
    rw [Result.isCulpable_of_isFailure hcase] at hinnocent
    cases hinnocent
  | error err =>
    obtain ⟨i, f, u, hhead, hu, hactor, hid, hway⟩ := herror err hc
    cases hacc.symm.trans hhead
    cases ht.symm.trans hu
    rw [← hactor, ← hid] at hway
    rcases hway with ⟨e, he, haft, rfl⟩ | ⟨m, hm, -⟩ | ⟨hm, -⟩
    · exact ⟨e, haft, rfl⟩
    · cases hres.symm.trans hm; cases hcase
    · cases hres.symm.trans hm; cases hcase

end System

end Lockstep
