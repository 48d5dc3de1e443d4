import Lockstep.Actors.Flaky
import Lockstep.Proofs.TokenPlaces

/-!
# How the work of an actor ends

What can be said of a task, from its beginning to its end, about who is to blame.

* `Result.isCulpable` : the actor has failed by itself, or panicked; one that only passes on that
  the run was aborted (`ActorError.isAftermath`) is not to blame;
* `Candid` : an actor passes that on only if it has been told so;
* `Record.Excuses` : somebody else was the first to abort the run;
* `Task.Stands` : what holds of a task along a run, and `Task.Stands.turn` : **a step keeps it**.

The one difficulty is an actor that says that the run was aborted: it must not be the one that has
aborted it.  It was told so by a call of the barrier, so it still had its part in the barrier then,
and whoever aborts the run has none any more or has ended its work.
-/

namespace Lockstep

/-- The actor has failed by itself, or panicked. -/
def Result.isCulpable : Result → Bool
  | ended (.failed e) => !e.isAftermath
  | ended (.panicked _) => true
  | _ => false

/-- The actor has failed by itself, and has not panicked. -/
def Result.isFailure : Result → Bool
  | ended (.failed e) => !e.isAftermath
  | _ => false

theorem Result.isCulpable_of_isFailure {res : Result} (h : res.isFailure = true) :
    res.isCulpable = true := by
  unfold isFailure at h
  split at h
  · exact h
  · cases h

/-- An actor does not say that the run was aborted unless it has been told so. -/
def Candid {σ : Type} [Behaviour σ] (m₀ : σ) : Prop :=
  ∀ m, Unwarned m₀ m → ∀ e, Behaviour.ask m = .finish (.failed e) → e.isAftermath = false

/-- It is enough to have something that the answers keep. -/
theorem Candid.of_invariant {σ : Type} [Behaviour σ] {P : σ → Prop} {m₀ : σ} (hstart : P m₀)
    (hhear : ∀ m now r, P m → r.isWarning = false → P (Behaviour.hear m now r))
    (hask : ∀ m e, P m → Behaviour.ask m = .finish (.failed e) → e.isAftermath = false) :
    Candid m₀ := by
  intro m hm
  have hkept : P m := by
    induction hm with
    | start => exact hstart
    | hear _ now hr ih => exact hhear _ now _ ih hr
  exact fun e => hask m e hkept

namespace Flaky

/-- How the work of the actor is to end does not blame the run. -/
def IsOwn (a : Flaky) : Prop := ∀ e, a.step = .ended (.failed e) → e.isAftermath = false

theorem isOwn_afterWork (a : Flaky) (n : Nat) : (a.afterWork n).IsOwn := by
  unfold afterWork
  repeat' split
  all_goals rintro e ⟨⟩

theorem isOwn_afterBegin (a : Flaky) (n : Nat) : (a.afterBegin n).IsOwn := by
  unfold afterBegin
  split
  · exact isOwn_afterWork a n
  · split
    · rintro e ⟨⟩
    · rintro e ⟨⟩
      rfl

theorem IsOwn.hear {a : Flaky} (ha : a.IsOwn) {r : Reply} (hr : r.isWarning = false) :
    (a.hear r).IsOwn := by
  unfold Flaky.hear
  split
  · intro e he
    simp only at he
    split at he <;> cases he
  · next e _ =>
    intro e' he
    cases he
    cases e with
    | aborted cause => cases hr
    | closed => rfl
  · rintro e ⟨⟩
  · rintro e ⟨⟩
  · rintro e ⟨⟩
  · exact isOwn_afterBegin _ _
  · exact isOwn_afterWork _ _
  · rintro e ⟨⟩
    rfl
  · rintro e ⟨⟩
    rfl
  · rintro e ⟨⟩
  · rintro e ⟨⟩
  · rintro e ⟨⟩
    rfl
  · intro e he
    simp only [moveTo] at he
    split at he <;> cases he
  · next e hs =>
    intro e' he
    cases he
    exact ha e' hs

/-- A flaky actor only fails because it is to, or because it is told that it cannot go on. -/
theorem candid {a : Flaky} (ha : a.IsOwn) : Candid a := by
  refine .of_invariant ha (fun m now r hm hr => IsOwn.hear hm hr) fun m e hown he => ?_
  change Flaky.ask m = .finish (.failed e) at he
  unfold Flaky.ask at he
  split at he
  case h_8 => split at he <;> cases he
  case h_9 hs => cases he; exact hown e hs
  all_goals cases he

end Flaky

namespace Stage

/-- What came of the work, once it has ended. -/
def outcome? : Stage → Option Result
  | .judging r => some r
  | .reading r _ => some r
  | .accusing r _ => some r
  | .parting r _ => some r
  | .over r => some r
  | _ => none

/-- Where the actor is in its life. -/
def lifecycle : Stage → Lifecycle
  | .waiting => .constructed
  | .judging _ => .terminated
  | .reading _ _ => .terminated
  | .accusing _ _ => .terminated
  | .parting _ _ => .terminated
  | .over _ => .terminated
  | _ => .running

/-- The actor gives up its part in the barrier although the others would miss it. -/
def isDeserting : Stage → Bool
  | .leaving .reading => true
  | .leaving (.accusing _) => true
  | .parting _ .reading => true
  | .parting _ (.accusing _) => true
  | _ => false

/-- An actor that is to blame is about to abort the run, or somebody has aborted it. -/
def Answers (r : Record) : Stage → Prop
  | .reading res _ => res.isCulpable = true
  | .accusing res _ => res.isCulpable = true
  | .parting res _ => res.isCulpable = true → r.accusations ≠ []
  | .over res => res.isCulpable = true → r.accusations ≠ []
  | _ => True

theorem lifecycle_of_isAtWork {g : Stage} (hg : g.isAtWork = true) : g.lifecycle = .running := by
  cases g <;> first | rfl | cases hg

theorem outcome?_of_isAtWork {g : Stage} (hg : g.isAtWork = true) : g.outcome? = none := by
  cases g <;> first | rfl | cases hg

theorem isDeserting_of_isAtWork {g : Stage} (hg : g.isAtWork = true) : g.isDeserting = false := by
  cases g <;> first | rfl | cases hg

end Stage

namespace Record

/-- The task has aborted the run, or tried to. -/
def Accuses (r : Record) (i : Nat) : Prop := ∃ f, (i, f) ∈ r.accusations

/-- Somebody else was the first to abort the run. -/
def Excuses (r : Record) (i : Nat) : Prop := ∃ e, r.accusations.head? = some e ∧ e.1 ≠ i

theorem Excuses.of_not_accuses {r : Record} {i : Nat} (hr : r.accusations ≠ [])
    (hi : ¬ r.Accuses i) : r.Excuses i := by
  cases ha : r.accusations with
  | nil => exact absurd ha hr
  | cons e es =>
    refine ⟨e, by rw [ha]; rfl, fun he => hi ⟨e.2, ?_⟩⟩
    rw [ha, ← he]
    exact List.mem_cons_self

theorem Excuses.mono {r r' : Record} {i : Nat} (h : r.Excuses i)
    (hr : r.accusations <+: r'.accusations) : r'.Excuses i := by
  obtain ⟨e, he, hne⟩ := h
  obtain ⟨es, hes⟩ := hr
  refine ⟨e, ?_, hne⟩
  rw [← hes, List.head?_append, he]
  rfl

/-- What the task `i` does has been added to a record. -/
structure Grows (r r' : Record) (i : Nat) (m : Option Mark) : Prop where
  accusations : r'.accusations = r.accusations ++ (m.bind Mark.accusation?).toList.map (i, ·)
  desertions : i ∈ r'.desertions ↔ i ∈ r.desertions ∨ m = some .desertion

namespace Grows

variable {r r' : Record} {i : Nat} {m : Option Mark}

theorem accusations_prefix (h : r.Grows r' i m) : r.accusations <+: r'.accusations := by
  rw [h.accusations]
  exact List.prefix_append _ _

theorem accusations_ne_nil (h : r.Grows r' i m) (hr : r.accusations ≠ []) :
    r'.accusations ≠ [] := fun hr' => hr (List.prefix_nil.1 (hr' ▸ h.accusations_prefix))

theorem mem_desertions (h : r.Grows r' i m) (hd : i ∈ r.desertions) : i ∈ r'.desertions :=
  h.desertions.2 (.inl hd)

theorem accuses (h : r.Grows r' i m) (hm : m.bind Mark.accusation? = none)
    (ha : r'.Accuses i) : r.Accuses i := by
  obtain ⟨f, hf⟩ := ha
  rw [h.accusations, hm] at hf
  exact ⟨f, by simpa using hf⟩

end Grows

theorem Excuses.accusations_ne_nil {r : Record} {i : Nat} (h : r.Excuses i) :
    r.accusations ≠ [] := by
  obtain ⟨e, he, -⟩ := h
  intro hr
  rw [hr] at he
  cases he

end Record

namespace Task

variable {σ : Type} [Behaviour σ]

/-- Where the work has ended, nothing happens but at the barrier. -/
theorem step_of_outcome {w : World} {t : Task σ} {res : Result}
    (hs : t.stage.outcome? = some res) :
    (t.step w).task.stage.outcome? = some res ∧ (t.step w).task.mind = t.mind ∧
      (t.step w).world.store = w.store ∧ (t.step w).world.sink = w.sink := by
  cases hst : t.stage with
  | judging r =>
    rw [hst] at hs
    simp only [step, hst]
    split <;> exact ⟨hs, rfl, rfl, rfl⟩
  | reading r message =>
    rw [hst] at hs
    simp only [step, hst]
    exact ⟨hs, rfl, rfl, rfl⟩
  | accusing r f =>
    rw [hst] at hs
    simp only [step, hst]
    exact ⟨hs, rfl, rfl, rfl⟩
  | parting r f =>
    rw [hst] at hs
    simp only [step, hst]
    split
    · exact ⟨hs, rfl, rfl, rfl⟩
    · split <;> exact ⟨hs, rfl, rfl, rfl⟩
  | «over» r =>
    have hstep : t.step w = ⟨w, t, .blocked⟩ := by simp only [step, hst]
    rw [hstep]
    exact ⟨hs, rfl, rfl, rfl⟩
  | _ => rw [hst] at hs; cases hs

/-- There the task goes nowhere, and only gives up its part in the barrier. -/
theorem loop_of_outcome {w : World} {t : Task σ} {res : Result}
    (hs : t.stage.outcome? = some res) :
    (∀ p, (t.step w).task.loop = some p → t.loop = some p) ∧ (t.step w).task.stint = t.stint := by
  cases hst : t.stage with
  | judging r =>
    simp only [step, hst]
    split <;> exact ⟨fun _ hp => hp, rfl⟩
  | reading r message => simp only [step, hst]; exact ⟨fun _ hp => hp, rfl⟩
  | accusing r f => simp only [step, hst]; exact ⟨fun _ hp => hp, rfl⟩
  | parting r f =>
    cases hp : t.loop with
    | none => simp only [step, hst, hp]; exact ⟨fun _ hp => hp, rfl⟩
    | some q =>
      simp only [step, hst, hp]
      split
      · exact ⟨fun _ hp' => hp', rfl⟩
      · exact ⟨by rintro _ ⟨⟩, rfl⟩
  | «over» r => simp only [step, hst]; exact ⟨fun _ hp => hp, trivial⟩
  | _ => rw [hst] at hs; cases hs

/-- What holds of the task `i`, which has come from `t₀`, along a run with a record. -/
structure Stands (t₀ t : Task σ) (r : Record) (i : Nat) : Prop where
  name : t.name = t₀.name
  id : t.id = t₀.id
  loop : ∀ p, t.loop = some p → p.actor = t₀.name ∧ p.id = t₀.id
  lifecycle : t.lifecycle = t.stage.lifecycle
  mind : t.stage.outcome? = none → Unwarned t₀.mind t.mind ∨ r.Excuses i
  outcome : ∀ res, t.stage.outcome? = some res → ∃ e, res = .ended e ∧
    ∀ err, e = .failed err → err.isAftermath = true → r.Excuses i
  answers : t.stage.Answers r
  accusing : ∀ res f, t.stage = .accusing res f → f.actor = t₀.name ∧ f.id = t₀.id
  deserting : t.stage.isDeserting = true → i ∈ r.desertions ∧ t.loop.isSome
  deserted : i ∈ r.desertions → r.accusations ≠ [] ∨ t.stage.isDeserting = true
  /-- Whoever has aborted the run will hear nothing from the barrier any more. -/
  accused : r.Accuses i → (t.loop = none ∨ t.stage.outcome?.isSome) ∧
    (i ∈ r.desertions ∨ ∃ res, t.stage.outcome? = some res ∧ res.isCulpable = true)

variable {t₀ t t' : Task σ} {r r' : Record} {i : Nat}

theorem Stands.excuses (h : t₀.Stands t r i) (hr : r.accusations ≠ []) {p : Participant}
    (hp : t.loop = some p) (hs : t.stage.outcome? = none) : r.Excuses i := by
  refine .of_not_accuses hr fun ha => ?_
  rcases (h.accused ha).1 with hnone | hsome
  · rw [hp] at hnone; cases hnone
  · rw [hs] at hsome; cases hsome

/-- What others do does not matter, unless they abort the run. -/
theorem Stands.mono (h : t₀.Stands t r i) (hacc : r.accusations <+: r'.accusations)
    (hself : r'.Accuses i → r.Accuses i) (hdes : i ∈ r'.desertions ↔ i ∈ r.desertions) :
    t₀.Stands t r' i := by
  have hfail (hr : r.accusations ≠ []) : r'.accusations ≠ [] := fun hr' =>
    hr (List.prefix_nil.1 (hr' ▸ hacc))
  refine ⟨h.name, h.id, h.loop, h.lifecycle, fun hs => (h.mind hs).imp_right (·.mono hacc),
    fun res hres => ?_, ?_, h.accusing, fun hs => ?_, fun hd => ?_, fun ha => ?_⟩
  · obtain ⟨e, he, hexcuse⟩ := h.outcome res hres
    exact ⟨e, he, fun err herr haft => (hexcuse err herr haft).mono hacc⟩
  · have hanswers := h.answers
    cases hs : t.stage with
    | reading res m => rw [hs] at hanswers; exact hanswers
    | accusing res f => rw [hs] at hanswers; exact hanswers
    | parting res f => rw [hs] at hanswers; exact fun hc => hfail (hanswers hc)
    | «over» res => rw [hs] at hanswers; exact fun hc => hfail (hanswers hc)
    | _ => trivial
  · exact ⟨hdes.2 (h.deserting hs).1, (h.deserting hs).2⟩
  · exact (h.deserted (hdes.1 hd)).imp_left hfail
  · obtain ⟨h1, h2⟩ := h.accused (hself ha)
    exact ⟨h1, h2.imp_left hdes.2⟩

/-! ### While the work goes on -/

/-- The work goes on. -/
theorem Stands.working (h : t₀.Stands t r i) (hs : t.stage.outcome? = none)
    (hd : t.stage.isDeserting = false) (hs' : t'.stage.outcome? = none)
    (hd' : t'.stage.isDeserting = false) (hname : t'.name = t.name) (hid : t'.id = t.id)
    (hloop : ∀ p', t'.loop = some p' → ∃ p, t.loop = some p ∧ p.Keeps p')
    (hlife : t'.lifecycle = t'.stage.lifecycle)
    (hmind : Unwarned t₀.mind t.mind ∨ r.Excuses i → Unwarned t₀.mind t'.mind ∨ r.Excuses i) :
    t₀.Stands t' r i where
  name := hname.trans h.name
  id := hid.trans h.id
  loop p' hp' := by
    obtain ⟨p, hp, hk⟩ := hloop p' hp'
    rw [hk.actor, hk.id]
    exact h.loop p hp
  lifecycle := hlife
  mind _ := hmind (h.mind hs)
  outcome res hres := by rw [hs'] at hres; cases hres
  answers := by
    cases hst : t'.stage with
    | reading res m => rw [hst] at hs'; cases hs'
    | accusing res f => rw [hst] at hs'; cases hs'
    | parting res f => rw [hst] at hs'; cases hs'
    | «over» res => rw [hst] at hs'; cases hs'
    | _ => trivial
  accusing res f hst := by rw [hst] at hs'; cases hs'
  deserting hst := by rw [hd'] at hst; cases hst
  deserted hdes := (h.deserted hdes).imp_right fun hst => by rw [hd] at hst; cases hst
  accused ha := by
    obtain ⟨hgone, hwhy⟩ := h.accused ha
    simp only [hs, Option.isSome_none, Bool.false_eq_true, or_false] at hgone
    refine ⟨.inl ?_, .inl ?_⟩
    · refine Option.eq_none_iff_forall_ne_some.2 fun p' hp' => ?_
      obtain ⟨p, hp, -⟩ := hloop p' hp'
      rw [hgone] at hp
      cases hp
    · rcases hwhy with hdes | ⟨res, hres, -⟩
      · exact hdes
      · rw [hs] at hres; cases hres

/-- The work ends. -/
theorem Stands.conclude (h : t₀.Stands t r i) (hs : t.stage.outcome? = none)
    (hd : t.stage.isDeserting = false) (hlife : t.stage.lifecycle = .running) (w : World)
    (hname : t'.name = t.name) (hid : t'.id = t.id) (hlife' : t'.lifecycle = t.lifecycle)
    (hloop : ∀ p', t'.loop = some p' → ∃ p, t.loop = some p ∧ p.Keeps p') {e : Ending}
    (he : ∀ err, e = .failed err → err.isAftermath = true → r.Excuses i) :
    t₀.Stands (Task.conclude w t' e).task r i := by
  have hrunning : t'.lifecycle = .running := hlife'.trans (h.lifecycle.trans hlife)
  have hconclude : (Task.conclude w t' e).task =
      { t' with lifecycle := .terminated, stage := .judging (.ended e) } := by
    simp only [Task.conclude, hrunning, Lifecycle.terminate, moves]
  rw [hconclude]
  refine ⟨hname.trans h.name, hid.trans h.id, fun p' hp' => ?_, rfl, by rintro ⟨⟩,
    fun res hres => ?_, trivial, by rintro _ _ ⟨⟩, by rintro ⟨⟩, fun hdes => ?_,
    fun ha => ⟨.inr rfl, .inl ?_⟩⟩
  · obtain ⟨p, hp, hk⟩ := hloop p' hp'
    rw [hk.actor, hk.id]
    exact h.loop p hp
  · cases hres
    exact ⟨e, rfl, he⟩
  · refine (h.deserted hdes).imp_right fun hst => ?_
    rw [hd] at hst
    cases hst
  · rcases (h.accused ha).2 with hdes | ⟨res, hres, -⟩
    · exact hdes
    · rw [hs] at hres; cases hres

theorem Stands.quits (h : t₀.Stands t r i) (hm : Candid t₀.mind) (hs : t.stage.outcome? = none)
    (hd : t.stage.isDeserting = false) (hlife : t.stage.lifecycle = .running)
    (hq : t.Quits t') : t₀.Stands t' r i := by
  have hkept {u : Task σ} (hk : t.Keeps u) (p : Participant) (hp : u.loop = some p) :
      ∃ q, t.loop = some q ∧ q.Keeps p := ⟨p, hk.loop ▸ hp, rfl, rfl, rfl⟩
  cases hq with
  | leaves hk hs' =>
    refine h.working hs hd (by rw [hs']; rfl) (by rw [hs']; rfl) hk.name hk.id (hkept hk) ?_
      (Or.imp_left (·.trans hk.mind))
    rw [hk.lifecycle, h.lifecycle, hlife, hs']
    rfl
  | ends w e hk he =>
    refine h.conclude hs hd hlife w hk.name hk.id hk.lifecycle (hkept hk) fun err herr haft => ?_
    rcases h.mind hs with hunwarned | hexcused
    · rcases he with hask | ⟨m, hpanic⟩
      · -- a candid actor that has not been warned has failed by itself
        have := hm _ (hunwarned.trans hk.mind) err (herr ▸ hask)
        rw [haft] at this
        cases this
      · rw [hpanic] at herr; cases herr
    · exact hexcused

theorem Stands.worked (h : t₀.Stands t r i) (hm : Candid t₀.mind) (hs : t.stage.isAtWork = true)
    (hw : t.Worked t') : t₀.Stands t' r i := by
  have hout := Stage.outcome?_of_isAtWork hs
  have hdes := Stage.isDeserting_of_isAtWork hs
  have hlife := Stage.lifecycle_of_isAtWork hs
  cases hw with
  | goesOn hk hs' =>
    refine h.working hout hdes (Stage.outcome?_of_isAtWork hs') (Stage.isDeserting_of_isAtWork hs')
      hk.name hk.id (fun p hp => ⟨p, hk.loop ▸ hp, rfl, rfl, rfl⟩) ?_
      (Or.imp_left (·.trans hk.mind))
    rw [hk.lifecycle, h.lifecycle, hlife, Stage.lifecycle_of_isAtWork hs']
  | @departs p hacting hp =>
    refine h.working hout hdes rfl rfl rfl rfl (fun p' hp' => ⟨p, hp, ?_⟩) ?_ fun hu => hu
    · cases hp'; exact Advance.keeps_first p
    · rw [h.lifecycle, hlife]; rfl
  | quits hq => exact h.quits hm hout hdes hlife hq

theorem Stands.advanced (h : t₀.Stands t r i) {x : Advance} {p p' : Participant}
    {y : Advance.Progress} (hs : t.stage = .advancing x) (hp : t.loop = some p) (hk : p.Keeps p')
    (hfail : ∀ e, y = .failed e → r.Excuses i) (ht : t.Advanced p' y t') : t₀.Stands t' r i := by
  have hout : t.stage.outcome? = none := by rw [hs]; rfl
  have hdes : t.stage.isDeserting = false := by rw [hs]; rfl
  have hlife : t.stage.lifecycle = .running := by rw [hs]; rfl
  have hrunning : t.lifecycle = .running := h.lifecycle.trans hlife
  have hloop {u : Task σ} (hu : u.loop = some p') (q : Participant) (hq : u.loop = some q) :
      ∃ p, t.loop = some p ∧ p.Keeps q := ⟨p, hp, by rw [hu] at hq; cases hq; exact hk⟩
  have htell (now : Nat) {reply : Reply} (hr : reply.isWarning = false) :
      Unwarned t₀.mind t.mind ∨ r.Excuses i →
        Unwarned t₀.mind (Behaviour.hear t.mind now reply) ∨ r.Excuses i :=
    Or.imp_left (·.hear now hr)
  cases ht with
  | blocked =>
    exact h.working hout hdes hout hdes rfl rfl (hloop rfl) h.lifecycle fun hu => hu
  | moved a => exact h.working hout hdes rfl rfl rfl rfl (hloop rfl) hrunning fun hu => hu
  | entered plan last now =>
    exact h.working hout hdes rfl rfl rfl rfl (hloop rfl) hrunning (htell now rfl)
  | finishes now => exact h.working hout hdes rfl rfl rfl rfl (hloop rfl) hrunning (htell now rfl)
  | failed now e =>
    exact h.working hout hdes rfl rfl rfl rfl (hloop rfl) hrunning fun _ => .inr (hfail e rfl)
  | broken w message =>
    have hkept := hloop (u := { t with loop := some p' }) rfl
    refine h.conclude hout hdes hlife w ?_ ?_ ?_ hkept ?_
    · rfl
    · rfl
    · rfl
    · intro err herr
      cases herr

/-! ### After the work has ended -/

/-- Whoever has ended its work goes on to the end, and may abort the run on the way. -/
theorem Stands.ended (h : t₀.Stands t r i) {res : Result} (hs : t.stage.outcome? = some res)
    (hs' : t'.stage.outcome? = some res) (hname : t'.name = t.name) (hid : t'.id = t.id)
    (hlife : t'.lifecycle = t.lifecycle) (hloop : t'.loop = t.loop ∨ t'.loop = none)
    (hacc : r.accusations <+: r'.accusations) (hanswers : t'.stage.Answers r')
    (haccusing : ∀ res f, t'.stage = .accusing res f → f.actor = t₀.name ∧ f.id = t₀.id)
    (hdeserting : t'.stage.isDeserting = true → i ∈ r'.desertions ∧ t'.loop.isSome)
    (hdeserted : i ∈ r'.desertions → r'.accusations ≠ [] ∨ t'.stage.isDeserting = true)
    (haccused : r'.Accuses i → i ∈ r'.desertions ∨ res.isCulpable = true) : t₀.Stands t' r' i where
  name := hname.trans h.name
  id := hid.trans h.id
  loop p hp := by
    rcases hloop with hloop | hloop
    · exact h.loop p (hloop ▸ hp)
    · rw [hloop] at hp; cases hp
  lifecycle := by
    have hterminated {g : Stage} (hg : g.outcome? = some res) : g.lifecycle = .terminated := by
      cases g <;> first | rfl | cases hg
    rw [hlife, h.lifecycle, hterminated hs, hterminated hs']
  mind hnone := by rw [hs'] at hnone; cases hnone
  outcome res' hres := by
    obtain ⟨e, he, hexcuse⟩ := h.outcome res' (hs.trans (hs'.symm.trans hres))
    exact ⟨e, he, fun err herr haft => (hexcuse err herr haft).mono hacc⟩
  answers := hanswers
  accusing := haccusing
  deserting := hdeserting
  deserted := hdeserted
  accused ha := by
    refine ⟨.inr (by rw [hs']; rfl), (haccused ha).imp_right fun hc => ⟨res, hs', hc⟩⟩

omit [Behaviour σ] in
/-- Whoever is to blame for the end of its work is blamed for it. -/
theorem isCulpable_of_accusation {b : Barrier} {res : Result} {message : String}
    (hacc : accusation b res = some message)
    (haft : ∀ err, res = .ended (.failed err) → err.isAftermath = true → b.isAborted = true) :
    res.isCulpable = true := by
  match res with
  | .ended (.failed err) =>
    cases he : err.isAftermath with
    | false => simp [Result.isCulpable, he]
    | true =>
      have := haft err rfl he
      simp [accusation, he, this] at hacc
  | .ended (.panicked m) => rfl
  | .ended .completed => cases hacc
  | .refused s => cases hacc

omit [Behaviour σ] in
theorem isCulpable_of_no_accusation {b : Barrier} {res : Result}
    (hacc : accusation b res = none) : res.isCulpable = false := by
  match res with
  | .ended (.failed err) =>
    cases he : err.isAftermath with
    | false => simp [accusation, he] at hacc
    | true => simp [Result.isCulpable, he]
  | .ended (.panicked m) => cases hacc
  | .ended .completed => rfl
  | .refused s => rfl

end Task

/-! ### What a step adds to the record -/

theorem Call.isAborted_of_error {b b' : Barrier} {c : Call} {e : SyncError}
    (h : c.step b = (b', .done (.error e))) : b.isAborted = true := by
  have hanswer (he : b.answer b.signal.halt = .error e) : b.isAborted = true := by
    cases hh : b.signal.halt with
    | aborted => simp [Barrier.isAborted, hh]
    | _ => rw [hh] at he; cases he
  have hleft (he : leftHalted b = .error e) : b.isAborted = true := by
    refine hanswer ?_
    unfold leftHalted at he
    cases ha : b.answer b.signal.halt with
    | ok v => rw [ha] at he; cases he
    | error e' => rw [ha] at he; cases he; rfl
  cases c <;> simp only [step] at h <;> repeat' split at h
  all_goals first | (simp at h; done) | skip
  all_goals simp only [Prod.mk.injEq, Progress.done.injEq] at h
  all_goals first | exact hanswer h.2 | exact hleft h.2

namespace Advance

theorem letIn_ne_failed (b : Barrier) (p : Participant) (last k : Nat) (e : SyncError) :
    (letIn b p last k).2.2 ≠ .failed e := by
  simp only [letIn]
  repeat' split
  all_goals rintro ⟨⟩

/-- An actor is told about a failure only when the run has been aborted. -/
theorem isAborted_of_failed {b : Barrier} {p : Participant} {x : Advance} {e : SyncError}
    (h : (x.step b p).2.2 = .failed e) : b.isAborted = true := by
  cases x with
  | leaving c =>
    simp only [step] at h
    split at h
    case h_4 hstep => cases h; exact Call.isAborted_of_error hstep
    all_goals cases h
  | bounding =>
    simp only [step] at h
    split at h <;> cases h
  | choosing last =>
    simp only [step] at h
    repeat' split at h
    all_goals cases h
  | entering last c =>
    simp only [step] at h
    split at h
    case h_3 => exact absurd h (letIn_ne_failed _ _ _ _ _)
    case h_5 hstep => cases h; exact Call.isAborted_of_error hstep
    all_goals cases h
  | passing last k c =>
    simp only [step] at h
    split at h
    case h_3 => split at h <;> cases h
    case h_4 hstep => cases h; exact Call.isAborted_of_error hstep
    all_goals cases h

/-- Between two phases nobody is accused. -/
theorem mark?_quiet (b : Barrier) (x : Advance) :
    (x.mark? b).bind Mark.accusation? = none ∧ x.mark? b ≠ some .desertion := by
  unfold mark?
  split
  · cases x.call? with
    | none => exact ⟨rfl, by rintro ⟨⟩⟩
    | some c => cases c <;> exact ⟨rfl, by rintro ⟨⟩⟩
  · exact ⟨rfl, by rintro ⟨⟩⟩

end Advance

namespace Farewell

variable {b : Barrier} {p : Participant} {f : Farewell}

theorem of_step_some {f' : Farewell} (h : (f.step b p).2 = some f') :
    f = checking ∧ f' = reading ∧ f.mark? b p = some .desertion ∨
      f = reading ∧ ∃ phase, f' = accusing phase := by
  cases f with
  | checking =>
    simp only [step] at h
    split at h
    · next hc => cases h; exact .inl ⟨rfl, rfl, by simp only [mark?, if_pos hc]⟩
    · cases h
  | reading => cases h; exact .inr ⟨rfl, _, rfl⟩
  | accusing phase => cases h

theorem of_step_none (h : (f.step b p).2 = none) :
    f = checking ∧ f.mark? b p = none ∨ ∃ phase, f = accusing phase := by
  cases f with
  | checking =>
    simp only [step] at h
    split at h
    · cases h
    · next hc => exact .inl ⟨rfl, by simp only [mark?, if_neg hc]⟩
  | reading => cases h
  | accusing phase => exact .inr ⟨phase, rfl⟩

end Farewell

namespace Task

variable {σ : Type} [Behaviour σ] {t₀ t t' : Task σ} {r r' : Record} {i : Nat} {w : World}
  {b' : Barrier}

/-- A step that accuses nobody, and deserts nobody. -/
theorem Stands.quiet {m : Option Mark} (h : t₀.Stands t r i) (hg : r.Grows r' i m)
    (hm : m.bind Mark.accusation? = none) (hd : m ≠ some .desertion) : t₀.Stands t r' i :=
  h.mono hg.accusations_prefix (hg.accuses hm) (by rw [hg.desertions]; exact or_iff_left hd)

theorem Stands.not_accuses (h : t₀.Stands t r i) {p : Participant} (hp : t.loop = some p)
    (hs : t.stage.outcome? = none) : ¬ r.Accuses i := fun ha => by
  rcases (h.accused ha).1 with hgone | hout
  · rw [hp] at hgone; cases hgone
  · rw [hs] at hout; cases hout

/-- An actor finds that the others would miss it, and looks for the phase. -/
theorem Stands.withdraws (h : t₀.Stands t r i) {p : Participant} {f f' : Farewell}
    (hs : t.stage = .leaving f) (hp : t.loop = some p)
    (hstep : (f.step w.barrier p).2 = some f') (hg : r.Grows r' i (f.mark? w.barrier p)) :
    t₀.Stands { t with stage := .leaving f' } r' i := by
  have hlife : t.lifecycle = .running := by rw [h.lifecycle, hs]; rfl
  have hmind := h.mind (by rw [hs]; rfl)
  have hinnocent := h.not_accuses hp (by rw [hs]; rfl)
  have hsome : t.loop.isSome := by rw [hp]; rfl
  rcases Farewell.of_step_some hstep with ⟨rfl, rfl, hdesert⟩ | ⟨rfl, phase, rfl⟩
  · have hin : i ∈ r'.desertions := hg.desertions.2 (.inr hdesert)
    have hself := hg.accuses (by rw [hdesert]; rfl)
    exact ⟨h.name, h.id, h.loop, hlife, fun _ => hmind.imp_right (·.mono hg.accusations_prefix),
      by rintro _ ⟨⟩, trivial, by rintro _ _ ⟨⟩, fun _ => ⟨hin, hsome⟩, fun _ => .inr rfl,
      fun ha => (hinnocent (hself ha)).elim⟩
  · have hin := (h.deserting (by rw [hs]; rfl)).1
    refine Stands.quiet ?_ hg rfl (by rintro ⟨⟩)
    exact ⟨h.name, h.id, h.loop, hlife, fun _ => hmind, by rintro _ ⟨⟩, trivial, by rintro _ _ ⟨⟩,
      fun _ => ⟨hin, hsome⟩, fun _ => .inr rfl, fun ha => (hinnocent ha).elim⟩

/-- An actor has given up its part, and goes on. -/
theorem Stands.leaves (h : t₀.Stands t r i) {p : Participant} {f : Farewell}
    (hs : t.stage = .leaving f) (hstep : (f.step w.barrier p).2 = none)
    (hg : r.Grows r' i (f.mark? w.barrier p)) :
    t₀.Stands (tell w.now { t with loop := none } .done) r' i := by
  have hlife : t.lifecycle = .running := by rw [h.lifecycle, hs]; rfl
  have hmind := h.mind (by rw [hs]; rfl)
  rcases Farewell.of_step_none hstep with ⟨rfl, hsilent⟩ | ⟨phase, rfl⟩
  · refine Stands.quiet ?_ hg (by rw [hsilent]; rfl) (by rw [hsilent]; rintro ⟨⟩)
    exact h.working (by rw [hs]; rfl) (by rw [hs]; rfl) rfl rfl rfl rfl (by rintro _ ⟨⟩) hlife
      (Or.imp_left (·.hear _ rfl))
  · -- the actor aborts the run and has no part in the barrier any more
    have hin := hg.mem_desertions (h.deserting (by rw [hs]; rfl)).1
    have hfailed : r'.accusations ≠ [] := by
      rw [hg.accusations]
      exact List.append_ne_nil_of_right_ne_nil _ (List.cons_ne_nil _ _)
    refine ⟨h.name, h.id, by rintro _ ⟨⟩, hlife, fun _ => ?_, by rintro _ ⟨⟩, trivial,
      by rintro _ _ ⟨⟩, by rintro ⟨⟩, fun _ => .inl hfailed, fun _ => ⟨.inl rfl, .inl hin⟩⟩
    rcases hmind with hmind | hmind
    · exact .inl (hmind.hear _ rfl)
    · exact .inr (hmind.mono hg.accusations_prefix)

/-- The work has ended, and the actor goes on without accusing anybody or leaving anybody. -/
theorem Stands.goesOn (h : t₀.Stands t r i) {res : Result} {g : Stage}
    (hs : t.stage.outcome? = some res) (hs' : g.outcome? = some res) (hanswers : g.Answers r)
    (haccusing : ∀ res f, g = .accusing res f → f.actor = t₀.name ∧ f.id = t₀.id)
    (hd : t.stage.isDeserting = false) (hd' : g.isDeserting = false) :
    t₀.Stands { t with stage := g } r i := by
  refine h.ended hs hs' rfl rfl rfl (.inl rfl) (List.prefix_refl _) hanswers haccusing
    (fun hst => ?_) (fun hin => (h.deserted hin).imp_right fun hst => ?_) fun ha => ?_
  · exact absurd (hd'.symm.trans hst) (by decide)
  · exact absurd (hd.symm.trans hst) (by decide)
  · rcases (h.accused ha).2 with hin | ⟨res', hres, hc⟩
    · exact .inl hin
    · rw [hs] at hres; cases hres; exact .inr hc

/-- Whoever has accused somebody, or tried to, has a reason. -/
theorem Stands.reason (h : t₀.Stands t r i) {res : Result} {m : Option Mark}
    (hs : t.stage.outcome? = some res) (hg : r.Grows r' i m)
    (hm : m.bind Mark.accusation? = none) (ha : r'.Accuses i) :
    i ∈ r'.desertions ∨ res.isCulpable = true := by
  rcases (h.accused (hg.accuses hm ha)).2 with hin | ⟨res', hres, hc⟩
  · exact .inl (hg.mem_desertions hin)
  · rw [hs] at hres; cases hres; exact .inr hc

/-- An actor that is to blame aborts the run. -/
theorem Stands.accuses (h : t₀.Stands t r i) {res : Result} {f : Failure}
    (hs : t.stage = .accusing res f) (hg : r.Grows r' i (some (.accusation f))) :
    t₀.Stands { t with stage := .parting res .checking } r' i := by
  have hculpable : res.isCulpable = true := by
    have hanswers := h.answers
    rw [hs] at hanswers
    exact hanswers
  have hfailed : r'.accusations ≠ [] := by
    rw [hg.accusations]
    exact List.append_ne_nil_of_right_ne_nil _ (List.cons_ne_nil _ _)
  exact h.ended (by rw [hs]; rfl) rfl rfl rfl rfl (.inl rfl) hg.accusations_prefix
    (fun _ => hfailed) (by rintro _ _ ⟨⟩) (by rintro ⟨⟩) (fun _ => .inl hfailed)
    fun _ => .inr hculpable

/-- An actor whose work has ended finds that the others would miss it, and looks for the phase. -/
theorem Stands.parts (h : t₀.Stands t r i) {res : Result} {p : Participant} {f f' : Farewell}
    (hs : t.stage = .parting res f) (hp : t.loop = some p)
    (hstep : (f.step w.barrier p).2 = some f') (hg : r.Grows r' i (f.mark? w.barrier p)) :
    t₀.Stands { t with stage := .parting res f' } r' i := by
  have hout : t.stage.outcome? = some res := by rw [hs]; rfl
  have hsome : t.loop.isSome := by rw [hp]; rfl
  have hanswers : res.isCulpable = true → r'.accusations ≠ [] := fun hc => by
    have hanswers := h.answers
    rw [hs] at hanswers
    exact hg.accusations_ne_nil (hanswers hc)
  rcases Farewell.of_step_some hstep with ⟨rfl, rfl, hdesert⟩ | ⟨rfl, phase, rfl⟩
  · have hin : i ∈ r'.desertions := hg.desertions.2 (.inr hdesert)
    have hreason := h.reason hout hg (by rw [hdesert]; rfl)
    exact h.ended hout rfl rfl rfl rfl (.inl rfl) hg.accusations_prefix hanswers
      (by rintro _ _ ⟨⟩) (fun _ => ⟨hin, hsome⟩) (fun _ => .inr rfl) hreason
  · have hin := hg.mem_desertions (h.deserting (by rw [hs]; rfl)).1
    exact h.ended hout rfl rfl rfl rfl (.inl rfl) hg.accusations_prefix hanswers
      (by rintro _ _ ⟨⟩) (fun _ => ⟨hin, hsome⟩) (fun _ => .inr rfl) (h.reason hout hg rfl)

/-- The task comes to its end. -/
theorem Stands.ends (h : t₀.Stands t r i) {res : Result} {p : Participant} {f : Farewell}
    (hs : t.stage = .parting res f) (hstep : (f.step w.barrier p).2 = none)
    (hg : r.Grows r' i (f.mark? w.barrier p)) :
    t₀.Stands { t with loop := none, stage := .over res } r' i := by
  have hout : t.stage.outcome? = some res := by rw [hs]; rfl
  have hanswers : res.isCulpable = true → r'.accusations ≠ [] := fun hc => by
    have hanswers := h.answers
    rw [hs] at hanswers
    exact hg.accusations_ne_nil (hanswers hc)
  rcases Farewell.of_step_none hstep with ⟨rfl, hsilent⟩ | ⟨phase, rfl⟩
  · have hquiet : (Farewell.checking.mark? w.barrier p).bind Mark.accusation? = none := by
      rw [hsilent]; rfl
    refine h.ended hout rfl rfl rfl rfl (.inr rfl) hg.accusations_prefix hanswers
      (by rintro _ _ ⟨⟩) (by rintro ⟨⟩) (fun hin => .inl ?_) (h.reason hout hg hquiet)
    have hin : i ∈ r.desertions := (hg.desertions.1 hin).resolve_right (by rw [hsilent]; rintro ⟨⟩)
    refine hg.accusations_ne_nil ((h.deserted hin).resolve_right fun hst => ?_)
    rw [hs] at hst
    cases hst
  · have hin := hg.mem_desertions (h.deserting (by rw [hs]; rfl)).1
    have hfailed : r'.accusations ≠ [] := by
      rw [hg.accusations]
      exact List.append_ne_nil_of_right_ne_nil _ (List.cons_ne_nil _ _)
    exact h.ended hout rfl rfl rfl rfl (.inr rfl) hg.accusations_prefix hanswers
      (by rintro _ _ ⟨⟩) (by rintro ⟨⟩) (fun _ => .inl hfailed) fun _ => .inl hin

/-- Whoever is about to desert the others has its part in the barrier yet. -/
theorem Stands.not_deserting (h : t₀.Stands t r i) (hp : t.loop = none) :
    t.stage.isDeserting = false := by
  by_contra hd
  have hsome := (h.deserting (by simpa using hd)).2
  rw [hp] at hsome
  cases hsome

/-- An actor that has not begun begins. -/
theorem Stands.begins (h : t₀.Stands t r i) {l : Lifecycle} (hs : t.stage = .waiting)
    (hstart : t.lifecycle.start = .ok l) :
    t₀.Stands { t with lifecycle := l, stage := .acting } r i := by
  rw [h.lifecycle, hs] at hstart
  cases hstart
  exact h.working (by rw [hs]; rfl) (by rw [hs]; rfl) rfl rfl rfl rfl
    (fun p hp => ⟨p, hp, rfl, rfl, rfl⟩) rfl fun hu => hu

/-- A step between two phases, with a part in the barrier. -/
theorem Stands.advances (h : t₀.Stands t r i) (hb : w.barrier.isAborted = true ↔ r.accusations ≠ [])
    {x : Advance} {p : Participant} (hs : t.stage = .advancing x) (hp : t.loop = some p)
    (hadv : t.Advanced (x.step w.barrier p).2.1 (x.step w.barrier p).2.2 t')
    (hg : r.Grows r' i (x.mark? w.barrier)) : t₀.Stands t' r' i := by
  obtain ⟨hq, hd⟩ := x.mark?_quiet w.barrier
  refine Stands.quiet ?_ hg hq hd
  refine h.advanced hs hp (Advance.keeps_step _ _ _) (fun e he => ?_) hadv
  exact h.excuses (hb.1 (Advance.isAborted_of_failed he)) hp (by rw [hs]; rfl)

/-- An actor without a part in the barrier is told something else than that the run was aborted. -/
theorem Stands.idles (h : t₀.Stands t r i) {reply : Reply} (hp : t.loop = none)
    (hs : (∃ x, t.stage = .advancing x) ∨ ∃ f, t.stage = .leaving f)
    (hr : reply.isWarning = false) : t₀.Stands (tell w.now t reply) r i := by
  obtain ⟨hout, hrunning⟩ : t.stage.outcome? = none ∧ t.stage.lifecycle = .running := by
    rcases hs with ⟨x, hs⟩ | ⟨f, hs⟩ <;> exact ⟨by rw [hs]; rfl, by rw [hs]; rfl⟩
  exact h.working hout (h.not_deserting hp) rfl rfl rfl rfl (fun p hp => ⟨p, hp, rfl, rfl, rfl⟩)
    (h.lifecycle.trans hrunning) (Or.imp_left (·.hear _ hr))

/-- Whoever is to blame for the end of its work is going to say so. -/
theorem Stands.blames (h : t₀.Stands t r i) (hb : w.barrier.isAborted = true ↔ r.accusations ≠ [])
    {res : Result} {message : String} (hs : t.stage = .judging res)
    (haccuse : accusation w.barrier res = some message) :
    t₀.Stands { t with stage := .reading res message } r i := by
  refine h.goesOn (by rw [hs]; rfl) rfl ?_ (by rintro _ _ ⟨⟩) (by rw [hs]; rfl) rfl
  refine isCulpable_of_accusation haccuse fun err herr haft => hb.2 ?_
  obtain ⟨e, he, hexcuse⟩ := h.outcome res (by rw [hs]; rfl)
  rw [herr] at he
  cases he
  exact (hexcuse err rfl haft).accusations_ne_nil

/-- Whoever is not to blame has nothing to say. -/
theorem Stands.acquits (h : t₀.Stands t r i) {res : Result} (hs : t.stage = .judging res)
    (haccuse : accusation w.barrier res = none) :
    t₀.Stands { t with stage := .parting res .checking } r i := by
  refine h.goesOn (by rw [hs]; rfl) rfl (fun hc => ?_) (by rintro _ _ ⟨⟩) (by rw [hs]; rfl) rfl
  rw [isCulpable_of_no_accusation haccuse] at hc
  cases hc

/-- Whoever says that it is to blame says so under its own name. -/
theorem Stands.reads (h : t₀.Stands t r i) {res : Result} {message : String} (phase : Nat)
    (hs : t.stage = .reading res message) :
    t₀.Stands { t with stage := .accusing res ⟨t.name, t.id, phase, message⟩ } r i := by
  have hanswers := h.answers
  rw [hs] at hanswers
  refine h.goesOn (by rw [hs]; rfl) rfl hanswers (fun res f hf => ?_) (by rw [hs]; rfl) rfl
  cases hf
  exact ⟨h.name, h.id⟩

/-- A task without a part in the barrier comes to its end. -/
theorem Stands.closes (h : t₀.Stands t r i) {res : Result} {f : Farewell}
    (hs : t.stage = .parting res f) (hp : t.loop = none) :
    t₀.Stands { t with stage := .over res } r i := by
  have hanswers := h.answers
  rw [hs] at hanswers
  exact h.goesOn (by rw [hs]; rfl) rfl hanswers (by rintro _ _ ⟨⟩) (h.not_deserting hp) rfl

/-- **A step of a task keeps what can be said about it.** -/
theorem Stands.turn (h : t₀.Stands t r i) (hm : Candid t₀.mind)
    (hb : w.barrier.isAborted = true ↔ r.accusations ≠ [])
    (hg : r.Grows r' i (t.mark? w.barrier)) (ht : t.Turn w b' t') : t₀.Stands t' r' i := by
  have hnone (hn : t.mark? w.barrier = none) (h' : t₀.Stands t' r i) : t₀.Stands t' r' i :=
    h'.quiet hg (by rw [hn]; rfl) (by rw [hn]; rintro ⟨⟩)
  cases ht with
  | works hs hw => exact hnone (mark?_of_isAtWork _ hs) (h.worked hm hs hw)
  | begins hs hstart => exact hnone (by simp only [mark?, hs]) (h.begins hs hstart)
  | refuses hs hstart =>
    -- an actor that has not begun can begin
    rw [h.lifecycle, hs] at hstart
    cases hstart
  | advances hs hp hadv =>
    simp only [mark?, hs, hp] at hg
    exact h.advances hb hs hp hadv hg
  | idles hs hp hr =>
    refine hnone ?_ (h.idles hp hs hr)
    rcases hs with ⟨x, hs⟩ | ⟨f, hs⟩ <;> simp only [mark?, hs, hp]
  | withdraws hs hp hstep =>
    simp only [mark?, hs, hp] at hg
    exact h.withdraws hs hp hstep hg
  | leaves hs hp hstep =>
    simp only [mark?, hs, hp] at hg
    exact h.leaves hs hstep hg
  | blames hs haccuse => exact hnone (by simp only [mark?, hs]) (h.blames hb hs haccuse)
  | acquits hs haccuse => exact hnone (by simp only [mark?, hs]) (h.acquits hs haccuse)
  | reads hs => exact hnone (by simp only [mark?, hs]) (h.reads _ hs)
  | accuses hs =>
    simp only [mark?, hs] at hg
    exact h.accuses hs hg
  | parts hs hp hstep =>
    simp only [mark?, hs, hp] at hg
    exact h.parts hs hp hstep hg
  | ends hs hp hstep =>
    simp only [mark?, hs, hp] at hg
    exact h.ends hs hstep hg
  | closes hs hp => exact hnone (by simp only [mark?, hs, hp]) (h.closes hs hp)
  | rests hs => exact hnone (by simp only [mark?, hs]) h

/-- So does calling the actor away. -/
theorem Stands.interrupt (h : t₀.Stands t r i) (hm : Candid t₀.mind) (w : World) :
    t₀.Stands (t.interrupt w).task r i := by
  rcases interrupt_worked w t with he | ⟨hs, hw⟩ | ⟨x, hs, hq⟩
  · rw [he]; exact h
  · exact h.worked hm hs hw
  · exact h.quits hm (by rw [hs]; rfl) (by rw [hs]; rfl) (by rw [hs]; rfl) hq

omit [Behaviour σ] in
theorem of_farewell_mark {b : Barrier} {p : Participant} {f : Farewell} {g : Failure}
    (hm : f.mark? b p = some (.accusation g)) : g.actor = p.actor ∧ g.id = p.id := by
  cases f with
  | checking =>
    simp only [Farewell.mark?] at hm
    split at hm <;> cases hm
  | reading => cases hm
  | accusing phase => cases hm; exact ⟨rfl, rfl⟩

/-- Whoever aborts the run gives its own name. -/
theorem Stands.of_accusation (h : t₀.Stands t r i) {b : Barrier} {f : Failure}
    (hm : t.mark? b = some (.accusation f)) : f.actor = t₀.name ∧ f.id = t₀.id := by
  have hpart {p : Participant} {g : Farewell} (hp : t.loop = some p)
      (hg : g.mark? b p = some (.accusation f)) : f.actor = t₀.name ∧ f.id = t₀.id := by
    obtain ⟨hactor, hid⟩ := of_farewell_mark hg
    obtain ⟨hpactor, hpid⟩ := h.loop p hp
    exact ⟨hactor.trans hpactor, hid.trans hpid⟩
  unfold mark? at hm
  split at hm
  · next x p hs hp =>
    have hq := (x.mark?_quiet b).1
    rw [hm] at hq
    cases hq
  · next g p hs hp => exact hpart hp hm
  · next g p hs hp => exact hpart hp hm
  · next res g hs =>
    cases hm
    exact h.accusing _ _ hs
  · cases hm

end Task

end Lockstep
