import Lockstep.Proofs.Handouts
import Lockstep.Proofs.SetUpResults

/-!
# Room for the next phase

Phases are numbered by words, and three places ask for the number after one of them: the number of
phases in a run, the phase that an actor starts after the one it has been let into, and the phase
that comes when one has closed.

* `Participant.HasRoom`, `Advance.HasRoom` : the phases that an actor is to leave have a number
  after them, and it only arrives for phases of the run;
* `Kind.IsPlain` : building actors of this kind leaves the phases alone, as it does for all kinds
  there are (`Kind.isPlain`);
* `System.phase_numbers` : **no number leaves the range of a word unless the configuration describes
  the last phase that a word can number**;
* `System.phase_numbers_overflow` : if it does, the number of phases cannot be told, and an actor
  that is let into that phase breaks.

The invariant is about each actor alone, so it holds whatever the others do, and however many of
them there are.
-/

namespace Lockstep

/-! ### Calls and steps between two phases -/

/-- There is no number after the last one. -/
theorem addWord?_one_eq_none_iff {n : Nat} : addWord? n 1 = none ↔ wordMax ≤ n := by
  rw [addWord?_eq_none_iff, wordMax, Nat.sub_le_iff_le_add]

/-- A phase that this call leaves has a number after it. -/
def Call.HasRoom : Call → Prop
  | returning k _ => k + 1 < wordLimit
  | _ => True

/-- The phase to start next is numbered by a word, and the phase that is still to be left has a
number after it. -/
structure Participant.HasRoom (p : Participant) : Prop where
  next : p.next < wordLimit
  owed : ∀ k, p.owed = some k → k + 1 < wordLimit

/-- The phase that is left has a number after it, and a phase that the actor arrives for does not
come after the last one. -/
def Advance.HasRoom (last? : Option Nat) (p : Participant) : Advance → Prop
  | leaving c => c.HasRoom
  | bounding => True
  | choosing last => last? = some last
  | entering last c => c.HasRoom ∧ last? = some last ∧ p.next ≤ last
  | passing last _ c => c.HasRoom ∧ last? = some last

/-- What a step from `x`, which takes the part `p` to `p'`, has come to: it only breaks at the last
phase that a word can number. -/
def Advance.Progress.HasRoom (last? : Option Nat) (p p' : Participant) (x : Advance) :
    Advance.Progress → Prop
  | .blocked => x.HasRoom last? p'
  | .moved y => y.HasRoom last? p'
  | .broken _ => p.next = wordMax ∧ ∃ last, last? = some last ∧ wordMax ≤ last
  | _ => True

section

variable {b : Barrier} {p : Participant} {c : Call} {x : Advance}

/-- A call that leaves a phase with a number after it does not break. -/
theorem Call.HasRoom.step (h : c.HasRoom) (b : Barrier) :
    (c.step b).2 ≠ .overflow ∧ ∀ c', (c.step b).2 = .moved c' → c'.HasRoom := by
  cases c with
  | returning k wait =>
    have hk : k + 1 < wordLimit := h
    simp only [Call.step, if_pos hk]
    repeat' split
    all_goals exact ⟨by rintro ⟨⟩, by rintro _ ⟨⟩ <;> trivial⟩
  | _ =>
    simp only [Call.step]
    repeat' split
    all_goals exact ⟨by rintro ⟨⟩, by rintro _ ⟨⟩ <;> trivial⟩

theorem Participant.HasRoom.first (hp : p.HasRoom) (last? : Option Nat) :
    (Advance.first p).1.HasRoom ∧ (Advance.first p).2.HasRoom last? (Advance.first p).1 := by
  unfold Advance.first
  split
  · next k hk => exact ⟨⟨hp.next, nofun⟩, hp.owed k hk⟩
  · exact ⟨hp, trivial⟩

namespace Advance

theorem HasRoom.of_call {last? : Option Nat} (hx : x.HasRoom last? p) (hc : x.call? = some c) :
    c.HasRoom := by
  cases x with
  | leaving c' => cases hc; exact hx
  | bounding => cases hc
  | choosing last => cases hc
  | entering last c' => cases hc; exact hx.1
  | passing last k c' => cases hc; exact hx.1

/-- Whoever is let into a phase of the run has room for the next one, unless there is no number for
it. -/
theorem hasRoom_letIn {last? : Option Nat} {last : Nat} (b : Barrier) (x : Advance)
    (hp : p.HasRoom) (hlast : last? = some last) (hle : p.next ≤ last) :
    (letIn b p last p.next).2.1.HasRoom ∧
      (letIn b p last p.next).2.2.HasRoom last? p (letIn b p last p.next).2.1 x := by
  cases hadd : addWord? p.next 1 with
  | none =>
    have hmax : p.next = wordMax :=
      le_antisymm (Nat.le_sub_one_of_lt hp.next) (addWord?_one_eq_none_iff.1 hadd)
    simp only [letIn, hadd]
    exact ⟨hp, hmax, last, hlast, hmax ▸ hle⟩
  | some next =>
    obtain ⟨rfl, hlt⟩ := addWord?_eq_some_iff.1 hadd
    simp only [letIn, hadd]
    split
    · split
      · exact ⟨⟨hlt, by rintro _ ⟨⟩; exact hlt⟩, trivial⟩
      · exact ⟨⟨hlt, hp.owed⟩, hlt, hlast⟩
    · exact ⟨⟨hlt, hp.owed⟩, hlt, hlast⟩

/-- **A step between two phases** keeps the room there is, and only breaks where an actor is let
into the last phase that a word can number. -/
theorem HasRoom.step (hp : p.HasRoom) (hx : x.HasRoom b.lastPhase p) :
    (x.step b p).2.1.HasRoom ∧ (x.step b p).2.2.HasRoom b.lastPhase p (x.step b p).2.1 x := by
  have hover : { p with finished := true }.HasRoom := ⟨hp.next, hp.owed⟩
  cases x with
  | leaving c =>
    obtain ⟨hfits, hmoved⟩ := Call.HasRoom.step hx b
    simp only [step]
    generalize c.step b = y at hfits hmoved ⊢
    obtain ⟨b', _ | c' | (e | more) | _⟩ := y
    · exact ⟨hp, hx⟩
    · exact ⟨hp, hmoved c' rfl⟩
    · exact ⟨hover, trivial⟩
    · exact ⟨hp, trivial⟩
    · exact absurd rfl hfits
  | bounding =>
    simp only [step]
    split
    · exact ⟨hover, trivial⟩
    · next last hlast => exact ⟨hp, hlast⟩
  | choosing last =>
    simp only [step]
    split
    · exact ⟨hp, trivial⟩
    · split
      · exact ⟨hover, trivial⟩
      · next hgo => exact ⟨hp, trivial, hx, not_lt.1 fun hlt => hgo (.inl hlt)⟩
  | entering last c =>
    obtain ⟨hc, hlast, hle⟩ := hx
    obtain ⟨hfits, hmoved⟩ := hc.step b
    simp only [step]
    generalize c.step b = y at hfits hmoved ⊢
    obtain ⟨b', _ | c' | (e | more) | _⟩ := y
    · exact ⟨hp, hc, hlast, hle⟩
    · exact ⟨hp, hmoved c' rfl, hlast, hle⟩
    · exact ⟨hover, trivial⟩
    · cases more with
      | false => exact ⟨hover, trivial⟩
      | true => exact hasRoom_letIn b' _ hp hlast hle
    · exact absurd rfl hfits
  | passing last k c =>
    obtain ⟨hc, hlast⟩ := hx
    obtain ⟨hfits, hmoved⟩ := hc.step b
    simp only [step]
    generalize c.step b = y at hfits hmoved ⊢
    obtain ⟨b', _ | c' | (e | more) | _⟩ := y
    · exact ⟨hp, hc, hlast⟩
    · exact ⟨hp, hmoved c' rfl, hlast⟩
    · exact ⟨hover, trivial⟩
    · simp only
      split
      · exact ⟨hp, trivial⟩
      · exact ⟨hp, hlast⟩
    · exact absurd rfl hfits

end Advance

end

/-! ### Tasks -/

namespace Task

variable {σ : Type} {t t' : Task σ} {last? : Option Nat}

/-- The actor's part in the barrier has room, wherever the actor is. -/
structure HasRoom (last? : Option Nat) (t : Task σ) : Prop where
  loop : ∀ p, t.loop = some p → p.HasRoom
  stage : ∀ x p, t.stage = .advancing x → t.loop = some p → x.HasRoom last? p

theorem hasRoom_fresh (name : String) (id : Nat) (mind : σ) {loop : Option Participant}
    (hloop : ∀ p, loop = some p → p.HasRoom) :
    (Task.fresh name id mind loop).HasRoom last? :=
  ⟨hloop, nofun⟩

/-- Where an actor is not between two phases only its part counts. -/
theorem HasRoom.of_loop (hloop : ∀ p, t.loop = some p → p.HasRoom)
    (hs : ∀ x, t.stage ≠ .advancing x) : t.HasRoom last? :=
  ⟨hloop, fun x _ hx => absurd hx (hs x)⟩

/-- An actor that has kept its part, or given it up, and is not between two phases. -/
theorem HasRoom.elsewhere (h : t.HasRoom last?) (hl : t'.loop = t.loop ∨ t'.loop = none)
    (hs : ∀ x, t'.stage ≠ .advancing x) : t'.HasRoom last? := by
  refine .of_loop (fun p hp => ?_) hs
  rcases hl with hl | hl
  · exact h.loop p (hl ▸ hp)
  · rw [hl] at hp; cases hp

/-- The part of an actor whose work ends is given up only after that. -/
theorem loop_conclude (w : World) (t : Task σ) (e : Ending) :
    (conclude w t e).task.loop = t.loop ∧ ∀ x, (conclude w t e).task.stage ≠ .advancing x := by
  unfold conclude
  split <;> exact ⟨rfl, nofun⟩

variable [Behaviour σ]

theorem HasRoom.quits (h : t.HasRoom last?) (hq : t.Quits t') : t'.HasRoom last? := by
  cases hq with
  | leaves hk hs => exact h.elsewhere (.inl hk.loop) (by rw [hs]; nofun)
  | @ends t' w e hk he =>
    obtain ⟨hl, hs⟩ := loop_conclude w t' e
    exact h.elsewhere (.inl (hl.trans hk.loop)) hs

theorem HasRoom.worked (h : t.HasRoom last?) (hw : t.Worked t') : t'.HasRoom last? := by
  cases hw with
  | goesOn hk hs => exact h.elsewhere (.inl hk.loop) fun x hx => by rw [hx] at hs; cases hs
  | @departs p hs hp =>
    obtain ⟨hloop, hstage⟩ := (h.loop p hp).first last?
    exact ⟨by rintro _ ⟨⟩; exact hloop, by rintro _ _ ⟨⟩ ⟨⟩; exact hstage⟩
  | quits hq => exact h.quits hq

/-- What has come of a step between two phases has room if the part and the step have. -/
theorem HasRoom.advanced {x : Advance} {p₀ p : Participant} {r : Advance.Progress}
    (hs : t.stage = .advancing x) (hp : p.HasRoom) (hr : r.HasRoom last? p₀ p x)
    (ha : t.Advanced p r t') : t'.HasRoom last? := by
  have hloop : ∀ p', some p = some p' → p'.HasRoom := by rintro _ ⟨⟩; exact hp
  cases ha with
  | blocked =>
    refine ⟨hloop, ?_⟩
    rintro y _ hy ⟨⟩
    cases hs.symm.trans hy
    exact hr
  | moved y => exact ⟨hloop, by rintro _ _ ⟨⟩ ⟨⟩; exact hr⟩
  | entered plan last now => exact .of_loop hloop nofun
  | finishes now => exact .of_loop hloop nofun
  | failed now e => exact .of_loop hloop nofun
  | broken w message =>
    obtain ⟨hl, hs⟩ := loop_conclude w { t with loop := some p } (.panicked message)
    exact .of_loop (fun p' hp' => hloop p' (hl.symm.trans hp')) hs

/-- **A step of a task keeps the room there is.** -/
theorem HasRoom.turn {w : World} {b' : Barrier} (h : t.HasRoom w.barrier.lastPhase)
    (ht : t.Turn w b' t') : t'.HasRoom w.barrier.lastPhase := by
  cases ht with
  | works hs hw => exact h.worked hw
  | @advances x p t' hs hp ha =>
    obtain ⟨hloop, hroom⟩ := (h.stage x p hs hp).step (h.loop p hp)
    exact .advanced hs hloop hroom ha
  | rests hs => exact h
  | leaves hs hp h' => exact h.elsewhere (.inr rfl) nofun
  | ends hs hp h' => exact h.elsewhere (.inr rfl) nofun
  | _ => exact h.elsewhere (.inl rfl) nofun

theorem HasRoom.interrupt (h : t.HasRoom last?) (w : World) :
    (t.interrupt w).task.HasRoom last? := by
  rcases interrupt_worked w t with he | ⟨-, hw⟩ | ⟨x, -, hq⟩
  · rw [he]; exact h
  · exact h.worked hw
  · exact h.quits hq

end Task

/-! ### Runs -/

theorem Call.lastPhase_step (b : Barrier) (c : Call) : (c.step b).1.lastPhase = b.lastPhase := by
  cases c with
  | arriving k =>
    simp only [step]
    split
    · rfl
    · split <;> exact b.leadsTo_arrive.lastPhase
  | returning k wait =>
    have hback : (b.handBack k).lastPhase = b.lastPhase := by
      unfold Barrier.handBack
      split <;> rfl
    simp only [step]
    repeat' split
    all_goals first | rfl | exact hback
  | _ =>
    simp only [step]
    repeat' split
    all_goals rfl

theorem Advance.lastPhase_step (b : Barrier) (p : Participant) (x : Advance) :
    (x.step b p).1.lastPhase = b.lastPhase := by
  rw [barrier_eq_call]
  cases x.call? with
  | none => rfl
  | some c => exact c.lastPhase_step b

theorem Farewell.lastPhase_step (b : Barrier) (p : Participant) (f : Farewell) :
    (f.step b p).1.lastPhase = b.lastPhase := by
  cases f with
  | accusing k => exact (b.agrees_abort _).lastPhase
  | _ => rfl

section

variable {σ : Type} [Behaviour σ] {s₀ s : System σ}

theorem Task.Turn.lastPhase {t t' : Task σ} {w : World} {b' : Barrier} (h : t.Turn w b' t') :
    b'.lastPhase = w.barrier.lastPhase := by
  cases h with
  | advances => exact Advance.lastPhase_step _ _ _
  | withdraws => exact Farewell.lastPhase_step _ _ _
  | leaves => exact Farewell.lastPhase_step _ _ _
  | parts => exact Farewell.lastPhase_step _ _ _
  | ends => exact Farewell.lastPhase_step _ _ _
  | accuses => exact (Barrier.agrees_abort _ _).lastPhase
  | _ => rfl

namespace System

theorem lastPhase_fire (s : System σ) (l : Label) :
    (s.fire l).world.barrier.lastPhase = s.world.barrier.lastPhase := by
  cases l with
  | act i =>
    cases ht : s.tasks[i]? with
    | none => rw [fire, act, onTask_of_none ht]
    | some t => rw [fire_act ht]; exact (Task.turn_step s.world t).lastPhase
  | interrupt i =>
    cases ht : s.tasks[i]? with
    | none => rw [fire, onTask_of_none ht]
    | some t => rw [fire_interrupt ht]
  | stop => exact s.world.barrier.agrees_stop.lastPhase
  | abort f => exact (s.world.barrier.agrees_abort f).lastPhase
  | _ => rfl

/-- **Every run keeps the room there is**, and lasts until the same phase. -/
theorem hasRoom_run (h : ∀ t ∈ s₀.tasks, t.HasRoom s₀.world.barrier.lastPhase) (ls : List Label) :
    (s₀.run ls).world.barrier.lastPhase = s₀.world.barrier.lastPhase ∧
      ∀ t ∈ (s₀.run ls).tasks, t.HasRoom s₀.world.barrier.lastPhase := by
  refine (reachable_run s₀ ls).invariant (P := fun s =>
    s.world.barrier.lastPhase = s₀.world.barrier.lastPhase ∧
      ∀ t ∈ s.tasks, t.HasRoom s₀.world.barrier.lastPhase) ⟨rfl, h⟩ ?_
  rintro s l ⟨hlast, hs⟩
  refine ⟨(lastPhase_fire s l).trans hlast, fun t ht => ?_⟩
  obtain ⟨i, hi⟩ := List.getElem?_of_mem ht
  obtain ⟨u, hu, hmove⟩ := task_of_fire hi
  have hroom := hs u (List.mem_of_getElem? hu)
  rcases hmove with ⟨-, rfl⟩ | ⟨-, rfl⟩ | ⟨-, rfl⟩
  · rw [← hlast] at hroom ⊢
    exact hroom.turn (Task.turn_step s.world u)
  · exact hroom.interrupt s.world
  · exact hroom

end System

end

/-! ### Kinds that leave the phases alone -/

namespace Building

variable {α β : Type} {P : α → Prop} {Q : β → Prop}

/-- Where something is built, the last phase of the run stays what it is, and what has been built is
as `P` says. -/
def Gives (f : Building α) (P : α → Prop) : Prop :=
  ∀ site a site', f.run.run site = (.ok a, site') →
    site'.barrier.lastPhase = site.barrier.lastPhase ∧ P a

theorem Gives.bind {f : Building α} {g : α → Building β} (hf : Gives f P)
    (hg : ∀ a, P a → Gives (g a) Q) : Gives (f >>= g) Q := by
  intro site b site' h
  obtain ⟨a, site₁, hfirst, hrest⟩ := bind_eq_ok h
  obtain ⟨hlast, ha⟩ := hf site a site₁ hfirst
  obtain ⟨hlast', hb⟩ := hg a ha site₁ b site' hrest
  exact ⟨hlast'.trans hlast, hb⟩

theorem gives_pure {a : α} (ha : P a) : Gives (pure a) P := by
  intro site b site' h
  cases h
  exact ⟨rfl, ha⟩

theorem Gives.mapM {f : β → Building α} (hf : ∀ b, Gives (f b) fun _ => True) (bs : List β) :
    Gives (bs.mapM f) fun _ => True := by
  induction bs with
  | nil => exact gives_pure trivial
  | cons b bs ih =>
    rw [List.mapM_cons]
    exact (hf b).bind fun _ _ => ih.bind fun _ _ => gives_pure trivial

theorem gives_configured (e : Except ConfigError α) : Gives (configured e) fun _ => True := by
  intro site a site' h
  obtain ⟨-, rfl⟩ := configured_eq_ok h
  exact ⟨rfl, trivial⟩

theorem gives_shared (key : String) (want : CellType) (init : Recipe) :
    Gives (shared key want init) fun _ => True := by
  intro site ref site' h
  obtain ⟨-, rfl⟩ := shared_eq_ok h
  exact ⟨rfl, trivial⟩

theorem gives_takePart (s : Setting) (id : Nat) :
    Gives (takePart s id) fun p => p = .fresh s.name id s.index s.schedule := by
  intro site p site' h
  obtain ⟨rfl, rfl⟩ := takePart_eq_ok h
  exact ⟨Barrier.lastPhase_addTokens _ 1, rfl⟩

end Building

/-- Building an actor of this kind leaves the phases of the run alone, and the part of the actor in
the barrier, if it gets one, has not begun. -/
def Kind.IsPlain (k : Kind) : Prop :=
  ∀ s id, Building.Gives (k.build s id) fun built =>
    ∀ p, built.2 = some p → p = .fresh s.name id s.index s.schedule

namespace Probe

open Building

theorem gives_checked (strict : Bool) (as : List Answer) :
    Gives (checked strict as) fun _ => True := by
  have hall : Gives (forIn as PUnit.unit fun a _ => do
      let _ ← configured a
      pure (ForInStep.yield PUnit.unit)) fun _ => True := by
    induction as with
    | nil => exact gives_pure trivial
    | cons a as ih =>
      rw [List.forIn_cons, bind_assoc]
      exact (gives_configured a).bind fun _ _ => by simpa using ih
  cases strict with
  | false => exact gives_pure trivial
  | true => exact hall.bind fun _ _ => gives_pure trivial

theorem gives_nextIds (n : Nat) : Gives (nextIds n) fun _ => True := by
  have hid : Gives nextId fun _ => True := by
    intro site id site' h
    cases h
    exact ⟨rfl, trivial⟩
  induction n with
  | zero => exact gives_pure trivial
  | succ n ih => exact hid.bind fun _ _ => ih.bind fun _ _ => gives_pure trivial

theorem gives_build (plan : Plan) (s : Setting) (id : Nat) :
    Gives (build plan s id) fun _ => True := by
  have hsite : Gives (getThe Site) fun _ => True := by
    intro site found site' h
    cases h
    exact ⟨rfl, trivial⟩
  exact (gives_nextIds _).bind fun _ _ => (gives_checked _ _).bind fun _ _ =>
    (Gives.mapM (fun _ => (gives_checked _ _).bind fun _ _ => gives_pure trivial) _).bind fun _ _ =>
      (gives_takePart s id).bind fun _ _ => hsite.bind fun _ _ => gives_pure trivial

end Probe

namespace Kind

open Building

/-- The actor gets the part that it is given while it is built. -/
theorem gives_part {α : Type} {f : Building (α × Participant)} {g : α → Mind} {s : Setting}
    {id : Nat} (hf : Gives f fun built => built.2 = .fresh s.name id s.index s.schedule) :
    Gives (do let (a, loop) ← f; return (g a, some loop)) fun built =>
      ∀ p, built.2 = some p → p = .fresh s.name id s.index s.schedule :=
  hf.bind fun built hbuilt => gives_pure (by rintro _ ⟨⟩; exact hbuilt)

/-- **All kinds there are leave the phases alone.** -/
theorem isPlain (plan : Probe.Plan) :
    ∀ k ∈ [greeter, flaky, broken, needsDatabase, poolUser, puppet, bystander, probe plan],
      k.IsPlain := by
  simp only [List.forall_mem_cons, List.not_mem_nil, false_implies, implies_true, and_true]
  refine ⟨?greeter, ?flaky, ?broken, ?database, ?pool, ?puppet, ?bystander, ?probe⟩ <;> intro s id
  case greeter =>
    exact gives_part <| (gives_configured _).bind fun _ _ => (gives_takePart s id).bind fun _ hp =>
      (gives_shared _ _ _).bind fun _ _ => gives_pure hp
  case flaky =>
    exact gives_part <| (gives_configured _).bind fun _ _ => (gives_takePart s id).bind fun _ hp =>
      gives_pure hp
  case broken =>
    exact (gives_configured _).bind fun _ _ => (gives_takePart s id).bind fun _ hp =>
      gives_pure (by rintro _ ⟨⟩; exact hp)
  case database => exact (gives_shared _ _ _).bind fun _ _ => gives_pure nofun
  case pool =>
    exact gives_part <| (gives_configured _).bind fun _ _ => (gives_shared _ _ _).bind fun _ _ =>
      (gives_configured _).bind fun _ _ => (gives_takePart s id).bind fun _ hp => gives_pure hp
  case puppet =>
    exact (gives_configured _).bind fun _ _ => (gives_takePart s id).bind fun _ hp =>
      gives_pure (by rintro _ ⟨⟩; exact hp)
  case bystander =>
    exact (gives_configured _).bind fun _ _ => (gives_takePart s id).bind fun _ _ =>
      gives_pure nofun
  case probe => exact (Probe.gives_build plan s id).bind fun _ _ => gives_pure nofun

end Kind

/-! ### Workloads that have been set up -/

/-- All actors that a workload wants are of plain kinds. -/
def Workload.IsPlain (w : Workload) (roster : Roster) : Prop :=
  ∀ b ∈ w.actors, ∀ kind, roster.find? b.actorType = some kind → kind.IsPlain

theorem Workload.isPlain_builtin (w : Workload) : w.IsPlain .builtin := by
  intro b _ kind hkind
  rw [Roster.builtin, SortedMap.find?_insert] at hkind
  split at hkind
  · cases hkind
    exact Kind.isPlain .silent _ (by simp)
  · cases hkind

namespace Assembly

variable {roster : Roster} {blocks : List Block} {a : Assembly} {b : Block} {kind : Kind}
  {s : Setting} {w : Workload} {store : Store}

/-- The run lasts until the last phase of the blocks entered so far, and nobody has begun. -/
structure HasRoom (roster : Roster) (blocks : List Block) (a : Assembly) : Prop where
  last : IsLast {k | ∃ b ∈ blocks, b.Schedules roster k} a.site.barrier.lastPhase
  tasks : ∀ t ∈ a.tasks, ∀ last?, t.HasRoom last?

theorem HasRoom.start (store : Store) : (Assembly.start store).HasRoom roster [] where
  last := by simp [IsLast, Assembly.start, Barrier.fresh]
  tasks _ ht := by cases ht

theorem HasRoom.push (ha : a.HasRoom roster blocks) (hkind : kind.IsPlain) {t : Task Mind}
    {site : Site} (h : (buildTask kind s).run.run a.site = (.ok t, site)) :
    ({ a with site, tasks := a.tasks ++ [t] } : Assembly).HasRoom roster blocks := by
  obtain ⟨mind, loop, hbuilt, rfl⟩ := buildTask_eq_ok h
  obtain ⟨hlast, hloop⟩ := hkind _ _ _ _ _ hbuilt
  refine ⟨by simpa only [hlast] using ha.last, fun t ht last? => ?_⟩
  rcases List.mem_append.1 ht with ht | ht
  · exact ha.tasks t ht last?
  · rw [List.mem_singleton.1 ht]
    refine Task.hasRoom_fresh _ _ _ fun p hp => ?_
    rw [hloop p hp]
    exact ⟨Nat.pow_pos (by decide), nofun⟩

theorem hasRoom_setUp (hplain : w.IsPlain roster) (h : setUp roster w store = (.ok (), a)) :
    a.HasRoom roster w.actors :=
  setUp_induction (P := fun blocks _ a => a.HasRoom roster blocks) (.start store)
    (fun _ _ _ _ _ _ _ hs ha => ⟨isLast_enter ha.last hs, ha.tasks⟩)
    (fun _ _ _ b kind _ _ _ hb hs _ ha ht => ha.push (hplain b hb kind hs.found) ht) h

end Assembly

/-- The number of phases follows from the last one, and cannot be told if there is no number after
it. -/
theorem Barrier.phaseCount?_of_isLast {b : Barrier} {S : Set Nat} (h : IsLast S b.lastPhase) :
    (S = ∅ → b.phaseCount? = some 0) ∧
    (∀ k, IsGreatest S k → k < wordMax → b.phaseCount? = some (k + 1)) ∧
    (b.phaseCount? = none ↔ ∃ k ∈ S, wordMax ≤ k) := by
  unfold phaseCount?
  cases hlast : b.lastPhase with
  | none =>
    rw [hlast] at h
    obtain rfl : S = ∅ := h
    exact ⟨fun _ => rfl, fun k hk => absurd hk.1 (Set.notMem_empty k), by simp⟩
  | some last =>
    rw [hlast] at h
    have hgreatest : IsGreatest S last := h
    refine ⟨fun hnone => ?_, fun k hk hlt => ?_, fun hover => ?_, ?_⟩
    · rw [hnone] at hgreatest
      exact absurd hgreatest.1 (Set.notMem_empty last)
    · obtain rfl := hk.unique hgreatest
      exact addWord?_eq_some_iff.2 ⟨rfl, Nat.add_lt_of_lt_sub hlt⟩
    · exact ⟨last, hgreatest.1, addWord?_one_eq_none_iff.1 hover⟩
    · rintro ⟨k, hk, hmax⟩
      exact addWord?_one_eq_none_iff.2 (hmax.trans (hgreatest.2 hk))

namespace System

variable {roster : Roster} {w : Workload} {store : Store} {a : Assembly} {sink : Sink}

/-- **Numbers of phases.**  A workload that has been set up has as many phases as the number after
the largest one that it describes, and that number can always be told unless it describes the last
phase that a word can number.  Whatever happens in a run, no call that leaves a phase asks for a
number that is not there, and a step to the next phase only does so when the actor is let into that
last phase, which is one of those described. -/
theorem phase_numbers (hset : setUp roster w store = (.ok (), a)) (hplain : w.IsPlain roster) :
    let S := {k | ∃ b ∈ w.actors, b.Schedules roster k}
    (S = ∅ → a.site.barrier.phaseCount? = some 0) ∧
    (∀ k, IsGreatest S k → k < wordMax → a.site.barrier.phaseCount? = some (k + 1)) ∧
    (a.site.barrier.phaseCount? = none ↔ ∃ k ∈ S, wordMax ≤ k) ∧
    ∀ ls, let s := ((a.system sink).onBarrier Barrier.launch).run ls
      s.world.barrier.phaseCount? = a.site.barrier.phaseCount? ∧
      ∀ t ∈ s.tasks, ∀ x p, t.stage = .advancing x → t.loop = some p →
        (∀ c, x.call? = some c → (c.step s.world.barrier).2 ≠ .overflow) ∧
        ∀ message, (x.step s.world.barrier p).2.2 = .broken message →
          p.next = wordMax ∧ ∃ k ∈ S, wordMax ≤ k := by
  intro S
  have hassembly := Assembly.hasRoom_setUp hplain hset
  obtain ⟨hempty, hcount, hover⟩ := Barrier.phaseCount?_of_isLast hassembly.last
  refine ⟨hempty, hcount, hover, fun ls => ?_⟩
  intro s
  obtain ⟨hlast, hroom⟩ : s.world.barrier.lastPhase = a.site.barrier.lastPhase ∧ _ :=
    hasRoom_run (fun t ht => hassembly.tasks t ht _) ls
  refine ⟨by rw [Barrier.phaseCount?, hlast, Barrier.phaseCount?], fun t ht x p hs hp => ?_⟩
  have hx : x.HasRoom a.site.barrier.lastPhase p := (hroom t ht).stage x p hs hp
  refine ⟨fun c hc => ((hx.of_call hc).step _).1, fun message hbroken => ?_⟩
  rw [← hlast] at hx
  have hstep := (hx.step ((hroom t ht).loop p hp)).2
  rw [hbroken] at hstep
  obtain ⟨hnext, last, hl, hmax⟩ := hstep
  have hgreatest := hassembly.last
  rw [← hlast, hl] at hgreatest
  exact ⟨hnext, last, hgreatest.1, hmax⟩

/-- The quintet has three phases, and none of its steps to the next phase breaks. -/
theorem phase_numbers_quintet :
    ∃ a, setUp .builtin Assembly.quintet .empty = (.ok (), a) ∧
      Assembly.quintet.IsPlain .builtin ∧ a.site.barrier.phaseCount? = some 3 ∧
      ∀ ls, ∀ t ∈ (((a.system .memory).onBarrier Barrier.launch).run ls).tasks, ∀ x p message,
        t.stage = .advancing x → t.loop = some p →
        (x.step (((a.system .memory).onBarrier Barrier.launch).run ls).world.barrier p).2.2 ≠
          .broken message := by
  have hplain := Assembly.quintet.isPlain_builtin
  have hset : setUp .builtin Assembly.quintet .empty =
      (.ok (), (setUp .builtin Assembly.quintet .empty).2) :=
    Assembly.setUp_eq_ok (by decide +kernel)
  have hlast : (setUp .builtin Assembly.quintet .empty).2.site.barrier.lastPhase = some 2 := by
    decide +kernel
  have hgreatest := (Assembly.hasRoom_setUp hplain hset).last
  rw [hlast] at hgreatest
  obtain ⟨-, hcount, -, hrun⟩ := @phase_numbers _ _ _ _ .memory hset hplain
  refine ⟨_, hset, hplain, hcount 2 hgreatest (by decide), ?_⟩
  intro ls t ht x p message hs hp hbroken
  obtain ⟨-, k, hk, hmax⟩ := ((hrun ls).2 t ht x p hs hp).2 message hbroken
  exact absurd (hmax.trans (hgreatest.2 hk)) (by decide)

end System

/-! ### The last phase that a word can number -/

/-- Phase `k` is to come, and there is a single token for it. -/
structure Barrier.Awaits (b : Barrier) (last k : Nat) : Prop where
  signal : b.signal = ⟨k, false, .running⟩
  required : b.required = 1
  arrived : b.arrived = 0
  lastPhase : b.lastPhase = some last

section

variable {b : Barrier} {p : Participant} {last k : Nat}

/-- An actor for which a phase is to come is about to arrive for it after two steps. -/
theorem Barrier.Awaits.arrives (hb : b.Awaits last k) (hk : k ≤ last) (hnext : p.next = k)
    (hp : p.finished = false) :
    (Advance.choosing last).step b p = (b, p, .moved (.entering last (.starting k))) ∧
      (Advance.entering last (.starting k)).step b p =
        (b, p, .moved (.entering last (.arriving k))) := by
  have hgoes : b.goesOn = true := by simp [Barrier.goesOn, hb.signal, hb.lastPhase, hk]
  constructor
  · simp only [Advance.step, hp, hnext, hgoes, Call.start]
    simp [hk]
  · simp [Advance.step, Call.step, hb.signal]

/-- The only token opens the phase, and lets the actor in. -/
theorem Barrier.Awaits.letsIn (hb : b.Awaits last k) (hnext : p.next = k) :
    (Advance.entering last (.arriving k)).step b p = Advance.letIn b.arrive p last k := by
  have hopens : b.opensNow = true := by simp [Barrier.opensNow, hb.required, hb.arrived]
  simp [Advance.step, Call.step_arriving (congrArg Signal.halt hb.signal), hopens, hnext]

/-- The only token closes the phase that it has opened. -/
theorem Barrier.Awaits.passes (hb : b.Awaits last k) (hroom : k + 1 < wordLimit)
    (hidle : p.busyPlan? k = none) :
    (b.arrive.handBack k).Awaits last (k + 1) ∧
      (Advance.passing last k (.returning k false)).step b.arrive p =
        (b.arrive.handBack k, p, .moved (.choosing last)) := by
  have hopens : b.opensNow = true := by simp [Barrier.opensNow, hb.required, hb.arrived]
  have harrive := Barrier.arrive_of_opensNow hopens
  have hcloses : b.arrive.closesNow = true := by
    simp [harrive, Barrier.closesNow, Barrier.publish, hb.required]
  have hrunning : b.arrive.signal.halt = .running := by
    simp [harrive, Barrier.publish, hb.signal]
  refine ⟨?_, ?_⟩
  · rw [Barrier.handBack_of_closesNow hcloses, harrive]
    exact ⟨by simp [Barrier.publish, hb.signal], hb.required, rfl, hb.lastPhase⟩
  · simp [Advance.step, Call.step_returning hrunning hroom, hidle]

end

namespace System

variable {σ : Type} {w : World} {t : Task σ} {b b' : Barrier} {p p' : Participant} {x y : Advance}
  {last k : Nat}

/-- A system whose only actor is at a point between two phases. -/
def alone (w : World) (t : Task σ) (b : Barrier) (p : Participant) (x : Advance) : System σ where
  world := { w with barrier := b }
  tasks := [{ t with loop := some p, stage := .advancing x }]

variable [Behaviour σ]

theorem fire_alone (h : x.step b p = (b', p', .moved y)) :
    (alone w t b p x).fire (.act 0) = alone w t b' p' y := by
  rw [alone, fire_act (List.getElem?_cons_zero ..)]
  simp only [Task.step, Task.advance, h, Task.moves, List.set_cons_zero]
  rfl

/-- Where the only actor has nothing to do it arrives for the phase, which opens and closes at
once. -/
theorem pass_alone (hb : b.Awaits last k) (hk : k ≤ last) (hroom : k + 1 < wordLimit)
    (hnext : p.next = k) (hp : p.finished = false) (hidle : p.busyPlan? k = none) :
    ∃ b', b'.Awaits last (k + 1) ∧
      (alone w t b p (.choosing last)).run (.replicate 4 (.act 0)) =
        alone w t b' { p with next := k + 1 } (.choosing last) := by
  obtain ⟨hchoose, hstart⟩ := hb.arrives hk hnext hp
  have hadd : addWord? p.next 1 = some (k + 1) := addWord?_eq_some_iff.2 ⟨by rw [hnext], hroom⟩
  have henter : (Advance.entering last (.arriving k)).step b p =
      (b.arrive, { p with next := k + 1 }, .moved (.passing last k (.returning k false))) := by
    have hidle' : { p with next := k + 1 }.busyPlan? k = none := hidle
    rw [hb.letsIn hnext]
    simp only [Advance.letIn, hadd, hidle', Call.finish]
  obtain ⟨hb', hpass⟩ := hb.passes (p := { p with next := k + 1 }) hroom hidle
  refine ⟨_, hb', ?_⟩
  simp only [List.replicate_succ, List.replicate_zero, run, List.foldl_cons, List.foldl_nil,
    fire_alone hchoose, fire_alone hstart, fire_alone henter, fire_alone hpass]

/-- Phase after phase, the only actor comes to any phase before which it has nothing to do. -/
theorem reach_alone (hb : b.Awaits last 0) (hlast : last < wordLimit) (hp : p.finished = false)
    (hidle : ∀ k < last, p.busyPlan? k = none) (hk : k ≤ last) :
    ∃ b', b'.Awaits last k ∧
      (alone w t b { p with next := 0 } (.choosing last)).run (.replicate (4 * k) (.act 0)) =
        alone w t b' { p with next := k } (.choosing last) := by
  induction k with
  | zero => exact ⟨b, hb, rfl⟩
  | succ k ih =>
    obtain ⟨b₁, hb₁, hrun⟩ := ih (Nat.le_of_succ_le hk)
    obtain ⟨b₂, hb₂, hpass⟩ := pass_alone (w := w) (t := t) (p := { p with next := k }) hb₁
      (Nat.le_of_succ_le hk) (hk.trans_lt hlast) rfl hp (hidle k hk)
    refine ⟨b₂, hb₂, ?_⟩
    rw [Nat.mul_succ, List.replicate_add, run_append, hrun, hpass]

/-- An actor that asks for its first phase looks for the last one after two steps. -/
theorem run_fresh (w : World) (name : String) (id : Nat) {mind : σ}
    (hask : Behaviour.ask mind = .nextPhase) (howed : p.owed = none) : ∃ t,
      (⟨w, [Task.fresh name id mind (some p)]⟩ : System σ).run [.act 0, .act 0] =
        alone w t w.barrier p .bounding := by
  have hfirst : Advance.first p = (p, .bounding) := by rw [Advance.first, howed]
  let t (g : Stage) : Task σ := ⟨name, id, .running, mind, some p, none, none, g⟩
  have hbegin : (Task.fresh name id mind (some p)).step w = Task.moves w (t .acting) := rfl
  have hobey : (t .acting).step w = Task.moves w (t (.advancing .bounding)) := by
    simp only [t, Task.step, hask, Task.obey, hfirst]
  refine ⟨t .acting, ?_⟩
  rw [run, List.foldl_cons, fire_act rfl, hbegin, List.foldl_cons, List.foldl_nil]
  refine (fire_act (t := t .acting) rfl).trans ?_
  simp only [Task.moves, hobey]
  rfl

/-- **The last phase that a word can number** is too far for an actor that has nothing to do before
it: it comes there, is let in, and breaks. -/
theorem break_alone (hb : b.Awaits wordMax 0) (hp : p.finished = false)
    (hidle : ∀ k < wordMax, p.busyPlan? k = none) :
    ∃ b' x, (alone w t b { p with next := 0 } .bounding).run
        ([.act 0] ++ .replicate (4 * wordMax) (.act 0) ++ [.act 0, .act 0]) =
          alone w t b' { p with next := wordMax } x ∧
      (x.step b' { p with next := wordMax }).2.2 = .broken overflowText := by
  have hword : wordMax < wordLimit := Nat.sub_lt (Nat.pow_pos (by decide)) Nat.one_pos
  obtain ⟨b', hb', hrun⟩ := reach_alone (w := w) (t := t) hb hword hp hidle le_rfl
  obtain ⟨hchoose, hstart⟩ := hb'.arrives (p := { p with next := wordMax }) le_rfl rfl hp
  have hbound : (alone w t b { p with next := 0 } .bounding).run [.act 0] =
      alone w t b { p with next := 0 } (.choosing wordMax) :=
    fire_alone (by simp only [Advance.step, hb.lastPhase])
  have hend : (alone w t b' { p with next := wordMax } (.choosing wordMax)).run [.act 0, .act 0] =
      alone w t b' { p with next := wordMax } (.entering wordMax (.arriving wordMax)) := by
    rw [run, List.foldl_cons, fire_alone hchoose]
    exact fire_alone hstart
  refine ⟨b', .entering wordMax (.arriving wordMax), ?_, ?_⟩
  · rw [run_append, run_append, hbound, hrun, hend]
  · rw [hb'.letsIn rfl]
    simp only [Advance.letIn, addWord?_one_eq_none_iff.2 le_rfl]

/-- A greeter that has something to do only in the last phase that a word can number. -/
def finale : Workload where
  actors :=
    [⟨"HelloWorld", none, 1,
      [{ phase := some (.range "18446744073709551615..18446744073709551615"), repeats := some 1 }],
      []⟩]

/-- The greeter as it is set up: it is to ask for its first phase, and has nothing to do before the
last one. -/
theorem setUp_finale : ∃ a, setUp .builtin finale .empty = (.ok (), a) ∧
    a.site.barrier.Awaits wordMax 0 ∧
    ∃ name mind p, a.tasks = [Task.fresh name 0 mind (some p)] ∧
      Behaviour.ask mind = .nextPhase ∧ p.owed = none ∧ p.next = 0 ∧ p.finished = false ∧
      ∀ k < wordMax, p.busyPlan? k = none := by
  have hset : setUp .builtin finale .empty = (.ok (), (setUp .builtin finale .empty).2) :=
    Assembly.setUp_eq_ok (by decide +kernel)
  have hlast : (setUp .builtin finale .empty).2.site.barrier.lastPhase = some wordMax := by
    decide +kernel
  have hkeys : ((setUp .builtin finale .empty).2.tasks.map fun t =>
      t.loop.map fun p => p.schedule.keys) = [some [wordMax]] := by decide +kernel
  generalize (setUp .builtin finale .empty).2 = a at hset hlast hkeys
  have hcast := Assembly.isCast_setUp finale.takesPart_builtin (by decide) hset
  have hlength : a.tasks.length = 1 := hcast.length
  obtain ⟨t, ht⟩ := List.length_eq_one_iff.1 hlength
  obtain ⟨b, hb, kind, s, mind, hs, ⟨loop, site, site', hbuild⟩, rfl⟩ :=
    hcast.plays 0 t (by rw [ht]; rfl)
  cases hb
  obtain rfl : kind = .greeter := (Option.some.inj hs.found).symm
  obtain ⟨messages, ref, -, rfl, -⟩ := Kind.greeter_eq_ok hbuild
  have hbarrier := hcast.barrier
  rw [hlength] at hbarrier
  refine ⟨a, hset, ⟨?_, ?_, ?_, hlast⟩, _, _, _, ht, rfl, rfl, rfl, rfl, fun k hk => ?_⟩
  · rw [hbarrier]; rfl
  · rw [hbarrier]
  · rw [hbarrier]; rfl
  · rw [ht] at hkeys
    have hschedule : s.schedule.keys = [wordMax] := Option.some.inj (List.cons.inj hkeys).1
    have hnone : s.schedule.find? k = none := by
      refine Option.eq_none_iff_forall_ne_some.2 fun plan hplan => hk.ne ?_
      have hmem : k ∈ s.schedule.keys := List.mem_map_of_mem (SortedMap.find?_eq_some_iff.1 hplan)
      rw [hschedule] at hmem
      exact List.mem_singleton.1 hmem
    simp [Participant.busyPlan?, Participant.fresh, hnone]

/-- **The greeter can be set up, but the number of its phases cannot be told**: there is none after
the last phase it describes.  It goes through all phases before that one, is let into it, and
breaks. -/
theorem phase_numbers_overflow :
    ∃ a, setUp .builtin finale .empty = (.ok (), a) ∧
      IsGreatest {k | ∃ b ∈ finale.actors, b.Schedules .builtin k} wordMax ∧
      a.site.barrier.phaseCount? = none ∧
      ∃ ls t x p, t ∈ (((a.system .memory).onBarrier Barrier.launch).run ls).tasks ∧
        t.stage = .advancing x ∧ t.loop = some p ∧ p.next = wordMax ∧
        (x.step (((a.system .memory).onBarrier Barrier.launch).run ls).world.barrier p).2.2 =
          .broken overflowText := by
  obtain ⟨a, hset, hawaits, name, mind, p, ht, hask, howed, hnext, hp, hidle⟩ := setUp_finale
  have hgreatest := (Assembly.hasRoom_setUp finale.isPlain_builtin hset).last
  rw [hawaits.lastPhase] at hgreatest
  have hcount : a.site.barrier.phaseCount? = none := by
    rw [Barrier.phaseCount?, hawaits.lastPhase]
    exact addWord?_one_eq_none_iff.2 le_rfl
  let w : World := ((a.system .memory).onBarrier Barrier.launch).world
  have hstart : (a.system .memory).onBarrier Barrier.launch =
      ⟨w, [Task.fresh name 0 mind (some p)]⟩ := by
    rw [← ht]
    rfl
  have hlaunched : w.barrier.Awaits wordMax 0 := { hawaits with }
  have hfirst : p = { p with next := 0 } := by rw [← hnext]
  obtain ⟨t, hfresh⟩ := run_fresh w name 0 hask howed
  obtain ⟨b', x, hrun, hbroken⟩ := break_alone (w := w) (t := t) hlaunched hp hidle
  refine ⟨a, hset, hgreatest, hcount,
    [.act 0, .act 0] ++ ([.act 0] ++ .replicate (4 * wordMax) (.act 0) ++ [.act 0, .act 0]), ?_⟩
  rw [run_append, hstart, hfresh, hfirst, hrun]
  exact ⟨_, x, _, List.mem_singleton_self _, rfl, rfl, rfl, hbroken⟩

end System

end Lockstep
