import Lockstep.Proofs.Answers
import Lockstep.Proofs.CourseRuns
import Lockstep.Proofs.Drawing
import Lockstep.Proofs.Headroom

/-!
# Where faults come from

An actor may fail or panic by itself.  Or something breaks off while it waits: a number leaves the
range of a word, or a pause cannot be computed.

* `Task.errs` : with its next step the actor fails or panics by itself;
* `Task.Fault` : **where the fault of a step comes from** (`Task.fault_of_step`);
* `Task.Counts` : nothing has been counted beyond the number of moves;
* `System.errs` and `System.isErrless` : the same for a move, and for none of the moves of a run;
* `System.IsOnCourse.isSound_of_stop` : **where nobody fails or panics by itself, nothing breaks
  off**, if the pauses can be computed, and if the run is stopped before there have been too many
  moves.
-/

namespace Lockstep

/-! ### Steps that break off -/

/-- A part in the barrier comes past one phase at a time. -/
theorem Advance.next_step (b : Barrier) (p : Participant) (x : Advance) :
    (x.step b p).2.1.next ≤ p.next + 1 := by
  have hletIn (b : Barrier) (last k : Nat) : (letIn b p last k).2.1.next ≤ p.next + 1 := by
    unfold letIn
    split
    · exact Nat.le_succ _
    · next next hadd =>
      obtain ⟨rfl, -⟩ := addWord?_eq_some_iff.1 hadd
      dsimp only
      repeat' split
      all_goals exact le_rfl
  cases x <;> simp only [step] <;> repeat' split
  all_goals first
    | exact Nat.le_succ _
    | exact hletIn _ _ _

/-- A question only breaks off at an iteration that cannot be counted, or at a pause that cannot be
computed. -/
theorem Pace.of_broken {now : Nat} {b : Barrier} {bucket : Option Bucket} {x : Stint} {p : Pace}
    {message : String} (h : (p.step now b bucket x).2.2 = .broken message) :
    x.isHalted b.signal = false ∧ wordLimit ≤ x.iterations + 1 ∨
      ∃ bucket' fault, bucket = some bucket' ∧ bucket'.pause = .error fault := by
  cases p with
  | deciding =>
    simp only [step] at h
    split at h
    · cases h
    · next hgoes =>
      refine .inl ⟨Bool.eq_false_iff.2 hgoes, ?_⟩
      split at h
      · cases h
      · next hadd => exact addWord?_eq_none_iff.1 hadd
  | drawing d =>
    cases bucket with
    | none => cases h
    | some bucket =>
      right
      simp only [step] at h
      generalize hd : d.step now bucket = r at h
      obtain ⟨bucket', r⟩ := r
      cases r with
      | broken message =>
        obtain ⟨fault, hfault⟩ := Draw.pause_of_step_eq_broken (congrArg Prod.snd hd)
        exact ⟨bucket, fault, rfl, hfault⟩
      | _ => cases h
  | _ =>
    simp only [step] at h
    repeat' split at h
    all_goals cases h

namespace Task

variable {σ : Type} [Behaviour σ] {t : Task σ} {w : World} {n : Nat}

/-- With its next step the actor fails or panics by itself: it ends its work so, or what it counts
into an operation does not fit a word. -/
def errs (t : Task σ) : Bool :=
  match t.stage with
  | .acting =>
    match Behaviour.ask t.mind with
    | .finish e => e.isFault
    | .count documents bytes iterations =>
      t.measurement.any fun m => (m.add? documents bytes iterations).isNone
    | _ => false
  | _ => false

/-- Where the fault of a step comes from. -/
inductive Fault (w : World) (t : Task σ) : Prop where
  | own (h : t.errs = true)
  | advance {a : Advance} {p : Participant} {message : String} (hs : t.stage = .advancing a)
    (hp : t.loop = some p) (hr : (a.step w.barrier p).2.2 = .broken message)
  | pace {p : Pace} {x : Stint} {message : String} (hs : t.stage = .pacing p)
    (hx : t.stint = some x)
    (hr : (p.step w.now w.barrier (t.bucket? w x) x).2.2 = .broken message)

omit [Behaviour σ] in
theorem not_isFaulty_of_outcome? (h : t.stage.outcome? = none) : ¬ t.IsFaulty := by
  rintro ⟨e, he, -⟩
  rw [h] at he
  cases he

omit [Behaviour σ] in
/-- Work that ends is faulty if its ending is. -/
theorem isFault_of_conclude {u : Task σ} {e : Ending} (h : (conclude w u e).task.IsFaulty) :
    e.isFault = true := by
  obtain ⟨e', he, hfault⟩ := h
  unfold conclude at he
  split at he
  · cases he; exact hfault
  · cases he

/-- An actor that is at work comes to a fault by itself. -/
theorem errs_of_acting (hs : t.stage = .acting) (hf : (t.step w).task.IsFaulty) :
    t.errs = true := by
  rw [step_acting hs] at hf
  simp only [errs, hs]
  generalize Behaviour.ask t.mind = q at hf ⊢
  cases q with
  | finish e => exact isFault_of_conclude hf
  | count documents bytes iterations =>
    simp only [obey] at hf
    split at hf
    · exact absurd hf (not_isFaulty_of_outcome? rfl)
    · next m hm =>
      rw [hm]
      split at hf
      · exact absurd hf (not_isFaulty_of_outcome? rfl)
      · next hadd => simp [hadd]
  | rest => exact absurd hf (not_isFaulty_of_outcome? (by rw [obey, hs]; rfl))
  | _ =>
    simp only [obey] at hf
    repeat' split at hf
    all_goals exact absurd hf (not_isFaulty_of_outcome? rfl)

/-- Between two phases a number leaves the range of a word. -/
theorem fault_of_advancing {a : Advance} (hs : t.stage = .advancing a)
    (hf : (t.step w).task.IsFaulty) : t.Fault w := by
  simp only [step, hs, advance] at hf
  split at hf
  · exact absurd hf (not_isFaulty_of_outcome? rfl)
  · next p hp =>
    generalize hr : a.step w.barrier p = r at hf
    obtain ⟨b, p', r⟩ := r
    cases r with
    | broken message => exact .advance hs hp (by rw [hr])
    | _ => exact absurd hf (not_isFaulty_of_outcome? rfl)

/-- On the way to an iteration a number does so, or a pause cannot be computed. -/
theorem fault_of_pacing {p : Pace} (hs : t.stage = .pacing p) (hf : (t.step w).task.IsFaulty) :
    t.Fault w := by
  simp only [step, hs, pace] at hf
  split at hf
  · exact absurd hf (not_isFaulty_of_outcome? rfl)
  · next x hx =>
    generalize hr : p.step w.now w.barrier
      (w.bucket? (t.loop.elim 0 Participant.block) x.plan.number) x = r at hf
    obtain ⟨bucket, x', r⟩ := r
    cases r with
    | broken message => exact .pace hs hx (by rw [bucket?, hr])
    | _ => exact absurd hf (not_isFaulty_of_outcome? rfl)

/-- **Where faults come from.** -/
theorem fault_of_step (h : ¬ t.IsFaulty) (hf : (t.step w).task.IsFaulty) : t.Fault w := by
  cases hs : t.stage with
  | acting => exact .own (errs_of_acting hs hf)
  | advancing a => exact fault_of_advancing hs hf
  | pacing p => exact fault_of_pacing hs hf
  | judging r | reading r message | accusing r f | parting r f | «over» r =>
    -- the work has ended already
    obtain ⟨e, he, hfault⟩ := hf
    have hres : t.stage.outcome? = some r := by rw [hs]; rfl
    rw [(step_of_outcome hres).1] at he
    cases he
    exact absurd ⟨e, hres, hfault⟩ h
  | _ =>
    simp only [step, hs] at hf
    repeat' split at hf
    all_goals first
      | exact absurd hf (not_isFaulty_of_outcome? rfl)
      | exact absurd hf h
      | (obtain ⟨e, he, -⟩ := hf; cases he)

/-! ### What is counted -/

/-- Nothing has been counted beyond `n`: no phase the actor has come past, and no iteration. -/
structure Counts (n : Nat) (t : Task σ) : Prop where
  next : ∀ p, t.loop = some p → p.next ≤ n
  iterations : ∀ x, t.stint = some x → x.iterations ≤ n

omit [Behaviour σ] in
theorem IsReady.counts (h : t.IsReady) : t.Counts 0 where
  next p hp := (h.loop p hp).next.le
  iterations x hx := by rw [h.stint] at hx; cases hx

omit [Behaviour σ] in
theorem Counts.mono (h : t.Counts n) {n' : Nat} (hn : n ≤ n') : t.Counts n' where
  next p hp := (h.next p hp).trans hn
  iterations x hx := (h.iterations x hx).trans hn

theorem loop_of_quits {u : Task σ} (h : t.Quits u) : u.loop = t.loop := by
  cases h with
  | leaves hk _ => exact hk.loop
  | ends w e hk _ => exact (loop_conclude w _ e).1.trans hk.loop

/-- With a step an actor comes past one phase at most. -/
theorem next_of_step {p' : Participant} (hp' : (t.step w).task.loop = some p') :
    ∃ p, t.loop = some p ∧ p'.next ≤ p.next + 1 := by
  have hturn := t.turn_step w
  have hsame {u : Task σ} (hu : u.loop = some p') (hl : u.loop = t.loop) :
      ∃ p, t.loop = some p ∧ p'.next ≤ p.next + 1 := ⟨p', hl ▸ hu, Nat.le_succ _⟩
  generalize (t.step w).task = u, (t.step w).world.barrier = b' at hturn hp'
  cases hturn with
  | works hs hw =>
    cases hw with
    | goesOn hk _ => exact hsame hp' hk.loop
    | @departs p _ hp =>
      refine ⟨p, hp, ?_⟩
      cases hp'
      unfold Advance.first
      split <;> exact Nat.le_succ _
    | quits hq => exact hsame hp' (loop_of_quits hq)
  | @advances x p u hs hp ha =>
    refine ⟨p, hp, ?_⟩
    have hnext := Advance.next_step w.barrier p x
    generalize Advance.step _ _ _ = r at ha hnext
    obtain ⟨b, q, r⟩ := r
    suffices h : u.loop = some q by
      cases h.symm.trans hp'
      exact hnext
    cases ha with
    | broken w message => exact (loop_conclude w _ _).1
    | _ => rfl
  | leaves | ends => cases hp'
  | _ => exact hsame hp' rfl

/-- **A step counts one phase or one iteration at most.** -/
theorem Counts.step (h : t.Counts n) (w : World) : (t.step w).task.Counts (n + 1) where
  next p' hp' := by
    obtain ⟨p, hp, hle⟩ := next_of_step hp'
    exact hle.trans (Nat.succ_le_succ (h.next p hp))
  iterations y hy := by
    have hle := fun x hx => (h.iterations x hx).trans (Nat.le_succ n)
    cases onward_step hy with
    | enters _ _ _ hy _ => rw [hy]; exact Nat.zero_le _
    | paces hpaces _ => exact hle y hpaces.stint
    | aside _ _ hy _ => exact hle y hy
    | @answered p x granted _ hx _ hy _ =>
      rcases @Pace.stint_step w.now w.barrier (t.bucket? w x) x p with hsame | ⟨-, hnext⟩
      · rw [hy, hsame]
        exact hle x hx
      · rw [hy, hnext]
        exact Nat.succ_le_succ (h.iterations x hx)

end Task

namespace System

variable {σ : Type} [Behaviour σ] {C : Course σ} {s : System σ} {ls ls' : List Label} {l : Label}

/-- **Nothing is counted beyond the number of moves.** -/
theorem IsReady.counts_run (hs : s.IsReady) (hls : ∀ l ∈ ls, l.IsCalm) :
    ∀ t ∈ (s.run ls).tasks, t.Counts ls.length := by
  induction ls using List.reverseRecOn with
  | nil => exact fun t ht => (hs.tasks t ht).counts
  | append_singleton ls l ih =>
    have hbefore := ih fun l hl => hls l (List.mem_append_left _ hl)
    intro t ht
    rw [run_snoc] at ht
    rw [List.length_append]
    obtain ⟨i, hi⟩ := List.getElem?_of_mem ht
    obtain ⟨u, hu, ⟨-, rfl⟩ | ⟨-, rfl⟩⟩ := step_of_fire (hls l (by simp)) hi
    · exact (hbefore u (List.mem_of_getElem? hu)).step _
    · exact (hbefore t (List.mem_of_getElem? hu)).mono (Nat.le_succ _)

/-! ### Runs in which nobody fails by itself -/

/-- With this move an actor fails or panics by itself. -/
def errs (s : System σ) : Label → Bool
  | .act i => s.tasks[i]?.any Task.errs
  | _ => false

/-- Nobody fails or panics by itself along a run. -/
def isErrless (s : System σ) : List Label → Bool
  | [] => true
  | l :: ls => !s.errs l && (s.fire l).isErrless ls

theorem isErrless_append (s : System σ) (ls ls' : List Label) :
    s.isErrless (ls ++ ls') = (s.isErrless ls && (s.run ls).isErrless ls') := by
  induction ls generalizing s with
  | nil => rfl
  | cons l ls ih =>
    rw [List.cons_append, isErrless, ih, isErrless, Bool.and_assoc]
    rfl

theorem isErrless_firstMoves {f : Nat → Label} (h : ∀ n, (s.after f n).errs (f n) = false)
    (n : Nat) : s.isErrless (Label.firstMoves f n) = true := by
  induction n with
  | zero => rfl
  | succ n ih =>
    have hn := h n
    rw [after] at hn
    rw [Label.firstMoves_succ, isErrless_append, ih, isErrless, hn]
    rfl

/-- A move is carried out in a run that has been halted, or before too many moves, or it is no step
of an actor. -/
def HasMargin (s : System σ) (ls : List Label) (l : Label) : Prop :=
  (∀ i, l ≠ .act i) ∨ (s.run ls).world.barrier.signal.halt ≠ .running ∨ ls.length + 1 < wordLimit

theorem IsReady.hasRoom_run (hs : s.IsReady) (ls : List Label) :
    (s.run ls).world.barrier.lastPhase = s.world.barrier.lastPhase ∧
      ∀ t ∈ (s.run ls).tasks, t.HasRoom s.world.barrier.lastPhase := by
  refine System.hasRoom_run (fun t ht => .of_loop (fun p hp => ?_) fun x hx => ?_) ls
  · have hready := (hs.tasks t ht).loop p hp
    refine ⟨hready.next ▸ (by decide), fun k hk => ?_⟩
    rw [hready.owed] at hk
    cases hk
  · rcases (hs.tasks t ht).stage with hst | hst <;> cases hst.symm.trans hx

namespace IsOnCourse

/-- Nothing breaks off with a move. -/
theorem isSound_snoc (hs : s.IsOnCourse C) (hls : ∀ l' ∈ ls ++ [l], l'.IsCalm)
    (hpauses : s.HasPauses) (hsound : (s.run ls).IsSound) (herrs : (s.run ls).errs l = false)
    (hmargin : s.HasMargin ls l) : (s.run (ls ++ [l])).IsSound := by
  have hcalm : ∀ l ∈ ls, l.IsCalm := fun l hl => hls l (List.mem_append_left _ hl)
  intro t ht hfaulty
  rw [run_snoc] at ht
  obtain ⟨i, hi⟩ := List.getElem?_of_mem ht
  obtain ⟨u, hu, ⟨rfl, rfl⟩ | ⟨-, rfl⟩⟩ := step_of_fire (hls l (by simp)) hi
  swap
  · exact hsound t (List.mem_of_getElem? hu) hfaulty
  have hmem := List.mem_of_getElem? hu
  have hcounts := hs.ready.counts_run hcalm u hmem
  have hmargin := hmargin.resolve_left fun h => h i rfl
  cases Task.fault_of_step (hsound u hmem) hfaulty with
  | own herrs' =>
    rw [errs, hu, Option.any_some, herrs'] at herrs
    cases herrs
  | @advance a p message hst hp hr =>
    rcases hmargin with hhalted | hfew
    · have hdrains := Advance.drains_step hhalted p a
      rw [hr] at hdrains
      exact hdrains
    · obtain ⟨hlast, hroom⟩ := hs.ready.hasRoom_run ls
      have hroom := hroom u hmem
      rw [← hlast] at hroom
      have hbroken := ((hroom.stage a p hst hp).step (hroom.loop p hp)).2
      rw [hr] at hbroken
      have hnext := hcounts.next p hp
      rw [hbroken.1, wordMax] at hnext
      omega
  | @pace p x message hst hx hr =>
    rcases Pace.of_broken hr with ⟨hgoes, hmany⟩ | ⟨b, fault, hb, hfault⟩
    · rcases hmargin with hhalted | hfew
      · simp [Stint.isHalted, hhalted] at hgoes
      · have := hcounts.iterations x hx
        omega
    · obtain ⟨d, hd⟩ := hpauses.run hcalm _ _ b hb
      rw [hd] at hfault
      cases hfault

/-- **Nothing breaks off** where nobody fails or panics by itself, the pauses can be computed, and
there is a margin at every move. -/
theorem isSound_run (hs : s.IsOnCourse C) (hls : ∀ l ∈ ls, l.IsCalm) (hpauses : s.HasPauses)
    (herrless : s.isErrless ls = true)
    (hmargin : ∀ ls' l, ls' ++ [l] <+: ls → s.HasMargin ls' l) : (s.run ls).IsSound := by
  induction ls using List.reverseRecOn with
  | nil =>
    intro t ht
    refine Task.not_isFaulty_of_outcome? ?_
    rw [(hs.tasks t ht).stage]
    rfl
  | append_singleton ls l ih =>
    simp only [isErrless_append, isErrless, Bool.and_true, Bool.and_eq_true,
      Bool.not_eq_true'] at herrless
    refine hs.isSound_snoc hls hpauses ?_ herrless.2 (hmargin ls l List.prefix_rfl)
    exact ih (fun l hl => hls l (List.mem_append_left _ hl)) herrless.1 fun ls' l' h =>
      hmargin ls' l' (h.trans (List.prefix_append _ _))

/-- **Nothing breaks off in a run that is stopped** before there have been too many moves. -/
theorem isSound_of_stop (hs : s.IsOnCourse C) {before after : List Label}
    (hls : ∀ l ∈ before ++ .stop :: after, l.IsCalm) (hpauses : s.HasPauses)
    (hfew : before.length < wordLimit) (herrless : s.isErrless (before ++ .stop :: after) = true)
    (hrunning : (s.run before).world.barrier.signal.halt = .running) :
    (s.run (before ++ .stop :: after)).IsSound := by
  refine hs.isSound_run hls hpauses herrless fun ls l hprefix => ?_
  obtain ⟨rest, hrest⟩ := hprefix
  rcases lt_trichotomy ls.length before.length with hlt | heq | hgt
  · exact .inr (.inr (by omega))
  · rw [List.append_assoc] at hrest
    obtain ⟨-, hl⟩ := List.append_inj hrest heq
    cases hl
    exact .inl (by rintro i ⟨⟩)
  · -- the stop has taken effect
    rw [List.append_assoc] at hrest
    have hpast : before ++ [.stop] <+: before ++ .stop :: after := ⟨after, by simp⟩
    obtain ⟨early, rfl⟩ := List.prefix_of_prefix_length_le hpast ⟨_, hrest⟩ (by simpa using hgt)
    refine .inr (.inl ?_)
    rw [List.append_assoc, List.singleton_append]
    exact (StopsAfter.standstill ⟨before, early, rfl, hrunning, rfl⟩).1

/-- **Nothing breaks off in a schedule that goes on** in which the run is stopped before there have
been too many moves. -/
theorem isSound_after_of_stop (hs : s.IsOnCourse C) {f : Nat → Label} (hf : ∀ n, (f n).IsCalm)
    {before after : List Label}
    (hfirst : Label.firstMoves f (before ++ .stop :: after).length = before ++ .stop :: after)
    (hpauses : s.HasPauses) (hfew : before.length < wordLimit)
    (herrs : ∀ n, (s.after f n).errs (f n) = false)
    (hrunning : (s.run before).world.barrier.signal.halt = .running) (n : Nat) :
    (s.after f n).IsSound := by
  have hcalm := Label.isCalm_firstMoves hf
  -- there is no harm in looking at some more moves
  let m := max n (before ++ .stop :: after).length
  obtain ⟨more, hmore⟩ := Label.isPrefix_firstMoves f
    (le_max_right n (before ++ .stop :: after).length)
  obtain ⟨late, hlate⟩ := Label.isPrefix_firstMoves f
    (le_max_left n (before ++ .stop :: after).length)
  rw [hfirst, List.append_assoc, List.cons_append] at hmore
  have hsound : (s.run (Label.firstMoves f m)).IsSound := by
    rw [← hmore]
    refine hs.isSound_of_stop ?_ hpauses hfew ?_ hrunning
    · rw [hmore]
      exact hcalm m
    · rw [hmore]
      exact isErrless_firstMoves herrs m
  have hcalm' := hcalm m
  rw [← hlate] at hsound hcalm'
  exact hsound.of_append hcalm'

end IsOnCourse

end System

end Lockstep
