import Lockstep.Proofs.SetUpTasks
import Mathlib.Data.List.Forall2
import Mathlib.Order.Bounds.Basic

/-!
# What setting up comes to

A workload is set up block by block, and a block actor by actor.  Each of these attempts may fail;
the first one that does fails the whole workload.

* `Kind.Makes` : some actors of a block are built one after the other;
* `Block.SetsUp` and `Block.Fails` : a block is set up, or cannot be set up for some reason;
* `Block.Raises` : some blocks are set up one after the other;
* `Assembly.wiring` : **a workload is set up exactly if all of its blocks are, and otherwise the
  error or panic is that of the first block that fails**; its actors then come in the order of the document,
  numbered from zero, and the barrier requires a token for each of them and lasts until the last
  phase of any schedule.
-/

namespace Lockstep

/-! ### One after the other -/

section

variable {ε α β τ : Type}

theorem bind_eq_ok_iff {x : ExceptT ε (StateM τ) α} {f : α → ExceptT ε (StateM τ) β} {s s' : τ}
    {b : β} : (x >>= f).run.run s = (.ok b, s') ↔
      ∃ a s₁, x.run.run s = (.ok a, s₁) ∧ (f a).run.run s₁ = (.ok b, s') := by
  refine ⟨bind_eq_ok, ?_⟩
  rintro ⟨a, s₁, hx, hf⟩
  rw [ExceptT.run_bind, StateT.run_bind, hx]
  exact hf

/-- Two things done one after the other fail if one of them does. -/
theorem bind_fails_iff {x : ExceptT ε (StateM τ) α} {f : α → ExceptT ε (StateM τ) β} {s : τ}
    {e : ε} : ((x >>= f).run.run s).1 = .error e ↔
      (x.run.run s).1 = .error e ∨
      ∃ a s₁, x.run.run s = (.ok a, s₁) ∧ ((f a).run.run s₁).1 = .error e := by
  rw [ExceptT.run_bind, StateT.run_bind]
  generalize x.run.run s = r
  obtain ⟨e' | a, s₁⟩ := r
  · change Except.error e' = Except.error e ↔ _
    constructor
    · intro h
      exact .inl (by rw [Except.error.inj h])
    · rintro (h | ⟨a, s₂, h, -⟩)
      · rw [Except.error.inj h]
      · cases h
  · constructor
    · intro h
      exact .inr ⟨a, s₁, rfl, h⟩
    · rintro (h | ⟨a', s₂, h, hf⟩)
      · cases h
      · cases h
        exact hf

end

/-! ### Blocks -/

/-- Actors of a block are built one after the other, each of them where the one before it has left
off. -/
inductive Kind.Makes (kind : Kind) (s : Setting) : Site → List (Task Mind) → Site → Prop where
  | nobody (site : Site) : Makes kind s site [] site
  | another {site site' site'' : Site} {t : Task Mind} {ts : List (Task Mind)}
      (h : (buildTask kind s).run.run site = (.ok t, site')) (hrest : Makes kind s site' ts site'') :
      Makes kind s site (t :: ts) site''

/-- The block at a position is set up: its type is known, its schedule can be resolved, and as many
actors are built as it has threads. -/
def Block.SetsUp (roster : Roster) (index : Nat) (b : Block) (a a' : Assembly) : Prop :=
  ∃ kind s ts site, b.IsSetting roster kind s ∧ s.index = index ∧ ts.length = b.threads ∧
    kind.Makes s (a.enter index s.schedule).site ts site ∧
    a' = { a.enter index s.schedule with site, tasks := a.tasks ++ ts }

/-- The block at a position cannot be set up; there is an error, or a panic where one of the steps
panics. -/
inductive Block.Fails (roster : Roster) (index : Nat) (b : Block) (a : Assembly) :
    OrPanic RunError → Prop where
  /-- Nobody knows its type. -/
  | type (h : roster.find? b.actorType = none) :
      Fails roster index b a (.error (.config (.unknownActorType b.actorType)))
  /-- Its type is known, but its schedule cannot be resolved. -/
  | schedule {kind : Kind} {cause : OrPanic ConfigError} (h : roster.find? b.actorType = some kind)
      (hcause : Schedule.ofBlock (b.name.getD kind.defaultName) b = .error cause) :
      Fails roster index b a (cause.map .config)
  /-- Some actors have been built, but the next one cannot be. -/
  | actor {kind : Kind} {s : Setting} {ts : List (Task Mind)} {site : Site}
      {cause : OrPanic SetupError}
      (h : b.IsSetting roster kind s) (hindex : s.index = index)
      (hmade : kind.Makes s (a.enter index s.schedule).site ts site) (hmore : ts.length < b.threads)
      (hcause : ((buildTask kind s).run.run site).1 = .error cause) :
      Fails roster index b a (cause.map (.setup s.name))

/-- Blocks are set up one after the other, the first of them at a position. -/
inductive Block.Raises (roster : Roster) : Nat → List Block → Assembly → Assembly → Prop where
  | nothing (index : Nat) (a : Assembly) : Raises roster index [] a a
  | another {index : Nat} {b : Block} {bs : List Block} {a a' a'' : Assembly}
      (h : b.SetsUp roster index a a') (hrest : Raises roster (index + 1) bs a' a'') :
      Raises roster index (b :: bs) a a''

/-- The schedule is all that a setting adds to the block, its position and its kind. -/
theorem Block.IsSetting.exists_schedule {roster : Roster} {b : Block} {kind : Kind} {s : Setting}
    {index : Nat} (hs : b.IsSetting roster kind s) (hindex : s.index = index) :
    ∃ schedule, Schedule.ofBlock (b.name.getD kind.defaultName) b = .ok schedule ∧
      s = ⟨b, index, b.name.getD kind.defaultName, schedule⟩ := by
  obtain ⟨block, index', name, schedule⟩ := s
  obtain ⟨-, hblock, hname, hschedule⟩ := hs
  simp only at hblock hname hschedule hindex
  subst hblock hname hindex
  exact ⟨schedule, hschedule, rfl⟩

section

variable {roster : Roster} {kind : Kind} {s : Setting} {index n : Nat} {a a' : Assembly}
  {b : Block} {bs : List Block} {e : OrPanic RunError}

theorem buildActor_eq_ok_iff : (buildActor kind s).run.run a = (.ok (), a') ↔
    ∃ t site, (buildTask kind s).run.run a.site = (.ok t, site) ∧
      a' = { a with site, tasks := a.tasks ++ [t] } := by
  refine ⟨buildActor_eq_ok, ?_⟩
  rintro ⟨t, site, hbuild, rfl⟩
  refine bind_eq_ok_iff.2 ⟨a, a, rfl, ?_⟩
  have hrun : ((buildTask kind s).run a.site).run = (.ok t, site) := hbuild
  rw [hrun]
  rfl

theorem buildActor_fails_iff : ((buildActor kind s).run.run a).1 = .error e ↔
    ∃ cause, ((buildTask kind s).run.run a.site).1 = .error cause ∧
      e = cause.map (.setup s.name) := by
  have hrun : ((buildActor kind s).run.run a).1 =
      (((buildTask kind s).run.run a.site).1.mapError (OrPanic.map (.setup s.name))).map
        fun _ => () := by
    change ((takeIn s ((buildTask kind s).run.run a.site).1 _).run.run a).1 = _
    cases ((buildTask kind s).run.run a.site).1 <;> rfl
  rw [hrun]
  cases ((buildTask kind s).run.run a.site).1 with
  | ok t => simp [Except.mapError, Except.map]
  | error cause => simp [Except.mapError, Except.map, eq_comm]

theorem repeatedly_eq_ok_iff : (repeatedly (buildActor kind s) n).run.run a = (.ok (), a') ↔
    ∃ ts site, ts.length = n ∧ kind.Makes s a.site ts site ∧
      a' = { a with site, tasks := a.tasks ++ ts } := by
  induction n generalizing a with
  | zero =>
    constructor
    · intro h
      cases h
      exact ⟨[], _, rfl, .nobody _, by rw [List.append_nil]⟩
    · rintro ⟨ts, site, hlength, hmade, rfl⟩
      obtain rfl := List.length_eq_zero_iff.1 hlength
      rw [List.append_nil]
      cases hmade
      rfl
  | succ n ih =>
    rw [repeatedly, bind_eq_ok_iff]
    constructor
    · rintro ⟨_, a₁, hfirst, hrest⟩
      obtain ⟨t, site, hbuild, rfl⟩ := buildActor_eq_ok_iff.1 hfirst
      obtain ⟨ts, site', rfl, hmade, rfl⟩ := ih.1 hrest
      exact ⟨t :: ts, site', rfl, .another hbuild hmade, by simp⟩
    · rintro ⟨ts, site', hlength, hmade, rfl⟩
      cases hmade with
      | nobody => cases hlength
      | another hbuild hrest =>
        refine ⟨(), _, buildActor_eq_ok_iff.2 ⟨_, _, hbuild, rfl⟩, ih.2 ⟨_, _, ?_, hrest, by simp⟩⟩
        simpa using hlength

theorem repeatedly_fails_iff : ((repeatedly (buildActor kind s) n).run.run a).1 = .error e ↔
    ∃ ts site cause, ts.length < n ∧ kind.Makes s a.site ts site ∧
      ((buildTask kind s).run.run site).1 = .error cause ∧ e = cause.map (.setup s.name) := by
  induction n generalizing a with
  | zero =>
    constructor
    · rintro ⟨⟩
    · rintro ⟨ts, site, cause, hlength, -⟩
      exact absurd hlength (Nat.not_lt_zero _)
  | succ n ih =>
    rw [repeatedly, bind_fails_iff, buildActor_fails_iff]
    constructor
    · rintro (⟨cause, hcause, rfl⟩ | ⟨_, a₁, hfirst, hrest⟩)
      · exact ⟨[], a.site, cause, Nat.succ_pos n, .nobody _, hcause, rfl⟩
      · obtain ⟨t, site, hbuild, rfl⟩ := buildActor_eq_ok_iff.1 hfirst
        obtain ⟨ts, site', cause, hlength, hmade, hcause, rfl⟩ := ih.1 hrest
        exact ⟨t :: ts, site', cause, Nat.succ_lt_succ hlength, .another hbuild hmade, hcause, rfl⟩
    · rintro ⟨ts, site', cause, hlength, hmade, hcause, rfl⟩
      cases hmade with
      | nobody => exact .inl ⟨cause, hcause, rfl⟩
      | another hbuild hrest =>
        refine .inr ⟨(), _, buildActor_eq_ok_iff.2 ⟨_, _, hbuild, rfl⟩, ih.2 ?_⟩
        exact ⟨_, _, cause, Nat.lt_of_succ_lt_succ hlength, hrest, hcause, rfl⟩

theorem setUpBlock_eq_ok_iff :
    (setUpBlock roster index b).run.run a = (.ok (), a') ↔ b.SetsUp roster index a a' := by
  constructor
  · intro h
    obtain ⟨kind, schedule, hkind, hschedule, hbuilt⟩ := setUpBlock_eq_ok h
    obtain ⟨ts, site, hlength, hmade, rfl⟩ := repeatedly_eq_ok_iff.1 hbuilt
    exact ⟨kind, ⟨b, index, _, schedule⟩, ts, site, ⟨hkind, rfl, rfl, hschedule⟩, rfl, hlength,
      hmade, rfl⟩
  · rintro ⟨kind, s, ts, site, hs, hindex, hlength, hmade, rfl⟩
    have hfound := hs.found
    obtain ⟨schedule, hschedule, rfl⟩ := hs.exists_schedule hindex
    unfold setUpBlock
    simp only [hfound, hschedule]
    exact bind_eq_ok_iff.2 ⟨(), _, rfl, repeatedly_eq_ok_iff.2 ⟨ts, site, hlength, hmade, rfl⟩⟩

theorem setUpBlock_fails_iff :
    ((setUpBlock roster index b).run.run a).1 = .error e ↔ b.Fails roster index a e := by
  unfold setUpBlock
  constructor
  · intro h
    split at h
    · next hkind => cases h; exact .type hkind
    · next kind hkind =>
      cases hschedule : Schedule.ofBlock (b.name.getD kind.defaultName) b with
      | error cause =>
        simp only [hschedule] at h
        cases h
        exact .schedule hkind hschedule
      | ok schedule =>
        simp only [hschedule] at h
        rcases bind_fails_iff.1 h with h | ⟨_, _, hentered, h⟩
        · cases h
        · cases hentered
          obtain ⟨ts, site, cause, hlength, hmade, hcause, rfl⟩ := repeatedly_fails_iff.1 h
          exact .actor (s := ⟨b, index, _, schedule⟩) ⟨hkind, rfl, rfl, hschedule⟩ rfl hmade hlength
            hcause
  · intro h
    cases h with
    | type h => simp only [h]; rfl
    | schedule h hcause => simp only [h, hcause]; rfl
    | @actor kind s ts site cause h hindex hmade hmore hcause =>
      have hfound := h.found
      obtain ⟨schedule, hschedule, rfl⟩ := h.exists_schedule hindex
      simp only [hfound, hschedule]
      exact bind_fails_iff.2 (.inr ⟨(), _, rfl,
        repeatedly_fails_iff.2 ⟨ts, site, cause, hmore, hmade, hcause, rfl⟩⟩)

theorem setUpBlocks_eq_ok_iff :
    (setUpBlocks roster index bs).run.run a = (.ok (), a') ↔ Block.Raises roster index bs a a' := by
  induction bs generalizing index a with
  | nil =>
    constructor
    · intro h
      cases h
      exact .nothing _ _
    · intro h
      cases h
      rfl
  | cons b bs ih =>
    rw [setUpBlocks, bind_eq_ok_iff]
    constructor
    · rintro ⟨_, a₁, hfirst, hrest⟩
      exact .another (setUpBlock_eq_ok_iff.1 hfirst) (ih.1 hrest)
    · intro h
      cases h with
      | another h hrest => exact ⟨(), _, setUpBlock_eq_ok_iff.2 h, ih.2 hrest⟩

theorem setUpBlocks_fails_iff : ((setUpBlocks roster index bs).run.run a).1 = .error e ↔
    ∃ before b after a', bs = before ++ b :: after ∧ Block.Raises roster index before a a' ∧
      b.Fails roster (index + before.length) a' e := by
  induction bs generalizing index a with
  | nil =>
    constructor
    · rintro ⟨⟩
    · rintro ⟨before, b, after, a', h, -⟩
      simp at h
  | cons b bs ih =>
    rw [setUpBlocks, bind_fails_iff, setUpBlock_fails_iff]
    constructor
    · rintro (h | ⟨_, a₁, hfirst, hrest⟩)
      · exact ⟨[], b, bs, a, rfl, .nothing _ _, h⟩
      · obtain ⟨before, c, after, a', rfl, hraises, hfails⟩ := ih.1 hrest
        refine ⟨b :: before, c, after, a', rfl, .another (setUpBlock_eq_ok_iff.1 hfirst) hraises, ?_⟩
        rwa [List.length_cons, Nat.add_comm before.length, ← Nat.add_assoc]
    · rintro ⟨before, c, after, a', hbs, hraises, hfails⟩
      cases hraises with
      | nothing =>
        cases hbs
        exact .inl hfails
      | @another _ _ before _ a₁ _ h hrest =>
        cases hbs
        refine .inr ⟨(), a₁, setUpBlock_eq_ok_iff.2 h, ih.2 ⟨before, c, after, a', rfl, hrest, ?_⟩⟩
        rwa [List.length_cons, Nat.add_comm before.length, ← Nat.add_assoc] at hfails

end

/-! ### What has been set up -/

/-- The largest of some numbers, if there are any. -/
def IsLast (S : Set Nat) : Option Nat → Prop
  | none => S = ∅
  | some k => IsGreatest S k

theorem isLast_last? {ν : Type} (m : SortedMap Nat ν) : IsLast {k | k ∈ m.keys} m.last? := by
  have hsorted : m.keys.Pairwise (· < ·) := List.pairwise_map.2 m.sorted
  unfold SortedMap.last?
  rcases List.eq_nil_or_concat m.keys with hnil | ⟨ks, last, hlast⟩
  · simp [hnil, IsLast]
  · rw [hlast, List.concat_eq_append] at hsorted ⊢
    rw [List.getLast?_concat]
    refine ⟨by simp, fun k hk => ?_⟩
    rcases List.mem_append.1 hk with hk | hk
    · exact ((List.pairwise_append.1 hsorted).2.2 k hk last (List.mem_singleton_self _)).le
    · exact (List.mem_singleton.1 hk).le

theorem IsLast.union {S T : Set Nat} {o : Option Nat} {k : Nat} (hS : IsLast S o)
    (hT : IsGreatest T k) : IsLast (S ∪ T) (some (o.elim k (max · k))) := by
  cases o with
  | none =>
    rw [show S = ∅ from hS, Set.empty_union]
    exact hT
  | some j => exact IsGreatest.union hS hT

/-- Tokens that are required, or refused, do not make a run any longer. -/
theorem Barrier.lastPhase_addTokens (b : Barrier) (n : Nat) :
    ((b.addTokens? n).getD b).lastPhase = b.lastPhase := by
  unfold addTokens?
  cases addWord? b.required n <;> rfl

/-- The schedule of a block has this phase. -/
def Block.Schedules (roster : Roster) (b : Block) (k : Nat) : Prop :=
  ∃ kind s, b.IsSetting roster kind s ∧ k ∈ s.schedule.keys

theorem Block.IsSetting.schedules_iff {roster : Roster} {b : Block} {kind : Kind} {s : Setting}
    (hs : b.IsSetting roster kind s) {k : Nat} :
    b.Schedules roster k ↔ k ∈ s.schedule.keys := by
  refine ⟨?_, fun hk => ⟨kind, s, hs, hk⟩⟩
  rintro ⟨kind', s', hs', hk⟩
  have hkind : kind' = kind := Option.some.inj (hs'.found.symm.trans hs.found)
  have hschedule := hs'.schedule
  rw [hs'.name, hkind, ← hs.name, hs.schedule] at hschedule
  rwa [Except.ok.inj hschedule]

namespace Assembly

variable {roster : Roster} {blocks cast : List Block} {a : Assembly} {b : Block} {kind : Kind}
  {s : Setting}

/-- With one more block the run lasts until the last phase of any of them. -/
theorem isLast_enter
    (ha : IsLast {k | ∃ c ∈ blocks, c.Schedules roster k} a.site.barrier.lastPhase)
    (hs : b.IsSetting roster kind s) :
    IsLast {k | ∃ c ∈ blocks ++ [b], c.Schedules roster k}
      (a.enter s.index s.schedule).site.barrier.lastPhase := by
  have hphases : {k | ∃ c ∈ blocks ++ [b], c.Schedules roster k} =
      {k | ∃ c ∈ blocks, c.Schedules roster k} ∪ {k | k ∈ s.schedule.keys} := by
    ext k
    simp [or_and_right, exists_or, hs.schedules_iff]
  have hkeys := isLast_last? s.schedule
  rw [hphases, Assembly.enter]
  cases hlast : s.schedule.last? with
  | none =>
    rw [hlast] at hkeys
    rw [show {k | k ∈ s.schedule.keys} = ∅ from hkeys, Set.union_empty]
    exact ha
  | some k =>
    rw [hlast] at hkeys
    exact ha.union hkeys

/-- The actors built so far are numbered from zero and fill the places in the cast, a token is
required for each of them, and the run lasts until the last phase of the blocks entered so far. -/
structure IsWired (roster : Roster) (blocks cast : List Block) (a : Assembly) : Prop where
  nextId : a.site.nextId = cast.length
  ids : a.tasks.map Task.id = List.range cast.length
  plays : List.Forall₂ (fun b t => Task.Plays roster b t.id t) cast a.tasks
  required : cast.length < wordLimit → a.site.barrier.required = cast.length
  last : IsLast {k | ∃ b ∈ blocks, b.Schedules roster k} a.site.barrier.lastPhase

theorem isWired_start (store : Store) : (Assembly.start store).IsWired roster [] [] where
  nextId := rfl
  ids := rfl
  plays := .nil
  required _ := rfl
  last := by simp [IsLast, Assembly.start, Barrier.fresh]

theorem IsWired.enter (ha : a.IsWired roster blocks cast) (hs : b.IsSetting roster kind s) :
    (a.enter s.index s.schedule).IsWired roster (blocks ++ [b]) cast where
  nextId := ha.nextId
  ids := ha.ids
  plays := ha.plays
  required hroom := by
    rw [Assembly.enter]
    cases s.schedule.last? <;> exact ha.required hroom
  last := isLast_enter ha.last hs

theorem IsWired.push (ha : a.IsWired roster blocks cast) (hs : b.IsSetting roster kind s)
    (hkind : kind.TakesPart) {t : Task Mind} {site : Site}
    (h : (buildTask kind s).run.run a.site = (.ok t, site)) :
    ({ a with site, tasks := a.tasks ++ [t] } : Assembly).IsWired roster blocks (cast ++ [b]) := by
  obtain ⟨mind, loop, hbuilt, rfl⟩ := buildTask_eq_ok h
  obtain ⟨rfl, store, rfl⟩ := hkind hbuilt
  constructor
  · simp [ha.nextId]
  · simp [ha.ids, ha.nextId, List.range_succ, Task.fresh]
  · refine List.rel_append ha.plays (.cons ?_ .nil)
    exact ⟨kind, s, mind, hs, ⟨_, _, _, hbuilt⟩, rfl⟩
  · intro hroom
    rw [List.length_append, List.length_singleton] at hroom
    have hrequired := ha.required (by omega)
    have hadd : addWord? a.site.barrier.required 1 = some (cast.length + 1) :=
      addWord?_eq_some_iff.2 ⟨by rw [hrequired], hroom⟩
    simp [Barrier.addTokens?, hadd]
  · simp only [Barrier.lastPhase_addTokens]
    exact ha.last

variable {w : Workload} {store : Store}

theorem isWired_setUp (hparts : w.TakesPart roster) (h : setUp roster w store = (.ok (), a)) :
    a.IsWired roster w.actors w.cast :=
  setUp_induction (P := fun blocks cast a => a.IsWired roster blocks cast) (isWired_start store)
    (fun _ _ _ _ _ _ _ hs ha => ha.enter hs)
    (fun _ _ _ b kind _ _ _ hb hs _ ha ht => ha.push hs (hparts b hb kind hs.found) ht) h

/-- **How a workload is set up.**  It is set up exactly if every block is, one after the other, and
otherwise the error or panic is that of the first block that fails.  Where every actor gets its part in the
barrier, the actors then come block by block, as many of each as it has threads; they are numbered
from zero; a token is required for each of them; and the run lasts until the last phase that any
block has, if there is one. -/
theorem wiring (hparts : w.TakesPart roster) :
    ((setUp roster w store).1 = .ok () ↔
      ∃ a, Block.Raises roster 0 w.actors (.start store) a) ∧
    (∀ e, (setUp roster w store).1 = .error e ↔ ∃ before b after a,
      w.actors = before ++ b :: after ∧ Block.Raises roster 0 before (.start store) a ∧
      b.Fails roster before.length a e) ∧
    ∀ a, setUp roster w store = (.ok (), a) →
      a.tasks.map Task.id = List.range (Block.headcount w.actors) ∧
      List.Forall₂ (fun b t => Task.Plays roster b t.id t) w.cast a.tasks ∧
      (Block.headcount w.actors < wordLimit →
        a.site.barrier.required = Block.headcount w.actors) ∧
      IsLast {k | ∃ b ∈ w.actors, b.Schedules roster k} a.site.barrier.lastPhase := by
  refine ⟨?_, fun e => ?_, fun a h => ?_⟩
  · constructor
    · intro h
      exact ⟨_, setUpBlocks_eq_ok_iff.1 (Prod.ext h rfl)⟩
    · rintro ⟨a, ha⟩
      exact congrArg Prod.fst (setUpBlocks_eq_ok_iff.2 ha)
  · refine setUpBlocks_fails_iff.trans ?_
    simp only [Nat.zero_add]
  · have hwired := isWired_setUp hparts h
    rw [← w.length_cast]
    exact ⟨hwired.ids, hwired.plays, hwired.required, hwired.last⟩

/-- Two greeters in phase 0, and three others in phase 2. -/
def quintet : Workload where
  actors :=
    [⟨"HelloWorld", none, 2, [{ repeats := some 1 }], []⟩,
      ⟨"HelloWorld", some "Second", 3, [{ phase := some (.number 2), repeats := some 1 }], []⟩]

/-- All five are set up, and the run is to last until phase 2. -/
theorem wiring_quintet :
    quintet.TakesPart .builtin ∧ ∃ a, setUp .builtin quintet .empty = (.ok (), a) ∧
      a.tasks.map Task.id = [0, 1, 2, 3, 4] ∧
      a.tasks.map Task.name = ["HelloWorld", "HelloWorld", "Second", "Second", "Second"] ∧
      a.site.barrier.required = 5 ∧
      IsGreatest {k | ∃ b ∈ quintet.actors, b.Schedules .builtin k} 2 := by
  have hset : setUp .builtin quintet .empty = (.ok (), (setUp .builtin quintet .empty).2) :=
    setUp_eq_ok (by decide +kernel)
  have hlast : (setUp .builtin quintet .empty).2.site.barrier.lastPhase = some 2 := by
    decide +kernel
  obtain ⟨hids, -, hrequired, hphases⟩ := (wiring quintet.takesPart_builtin).2.2 _ hset
  rw [hlast] at hphases
  exact ⟨quintet.takesPart_builtin, _, hset, hids, by decide +kernel, hrequired (by decide), hphases⟩

end Assembly

end Lockstep
