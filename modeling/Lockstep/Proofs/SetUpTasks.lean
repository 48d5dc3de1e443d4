import Lockstep.Proofs.Entries
import Lockstep.Proofs.SetUpSystems

/-!
# Who takes part in a run

What the actors of a workload are, once they have all been built.

* `Workload.cast` : the block of every actor, in the order in which the actors are built;
* `setUp_induction` : what entering a block and building an actor keep holds of all that is set up;
* `Kind.TakesPart` : a kind of actors each of which gets its part in the barrier;
* `Assembly.IsCast` : **what has been set up is one actor for each place in the cast**, with the
  schedule of its block, and a barrier that requires one token for each of them and lasts until the
  last phase of any block (`isCast_setUp`).
-/

namespace Lockstep

/-- The blocks of the actors, in the order in which the actors are built. -/
def Workload.cast (w : Workload) : List Block :=
  w.actors.flatMap fun b => List.replicate b.threads b

theorem Workload.length_cast (w : Workload) : w.cast.length = Block.headcount w.actors := by
  unfold cast
  induction w.actors with
  | nil => rfl
  | cons b blocks ih =>
    rw [List.flatMap_cons, List.length_append, List.length_replicate, ih]
    rfl

theorem Workload.mem_actors_of_mem_cast (w : Workload) {b : Block} (hb : b ∈ w.cast) :
    b ∈ w.actors := by
  obtain ⟨b', hb', hmem⟩ := List.mem_flatMap.1 hb
  rw [(List.mem_replicate.1 hmem).2]
  exact hb'

/-! ### Setting up step by step -/

/-- What the actors of a block see, if the block can be set up. -/
structure Block.IsSetting (roster : Roster) (b : Block) (kind : Kind) (s : Setting) : Prop where
  found : roster.find? b.actorType = some kind
  block : s.block = b
  name : s.name = b.name.getD kind.defaultName
  schedule : Schedule.ofBlock s.name b = .ok s.schedule

section

variable {roster : Roster} {w : Workload} {store : Store} {a a' : Assembly}
  {P : List Block → List Block → Assembly → Prop} {blocks cast : List Block}

theorem repeatedly_buildActor {kind : Kind} {s : Setting} {n : Nat}
    (hbuild : ∀ cast a t site, cast ++ [s.block] <+: w.cast → P blocks cast a →
      (buildTask kind s).run.run a.site = (.ok t, site) →
      P blocks (cast ++ [s.block]) { a with site, tasks := a.tasks ++ [t] })
    (hcast : cast ++ List.replicate n s.block <+: w.cast) (ha : P blocks cast a)
    (h : (repeatedly (buildActor kind s) n).run.run a = (.ok (), a')) :
    P blocks (cast ++ List.replicate n s.block) a' := by
  induction n generalizing cast a with
  | zero => cases h; simpa using ha
  | succ n ih =>
    obtain ⟨_, a₁, hfirst, h⟩ := bind_eq_ok h
    obtain ⟨t, site, hbuilt, rfl⟩ := buildActor_eq_ok hfirst
    rw [List.replicate_succ, List.append_cons] at hcast ⊢
    exact ih hcast (hbuild cast a t site ((List.prefix_append _ _).trans hcast) ha hbuilt) h

/-- What holds at the start, and is kept by entering a block and by building one of its actors,
holds of all that is set up. -/
theorem setUp_induction (hstart : P [] [] (.start store))
    (henter : ∀ blocks cast a b kind s, b ∈ w.actors → b.IsSetting roster kind s →
      P blocks cast a → P (blocks ++ [b]) cast (a.enter s.index s.schedule))
    (hbuild : ∀ blocks cast a b kind s t site, b ∈ w.actors → b.IsSetting roster kind s →
      cast ++ [b] <+: w.cast → P blocks cast a →
      (buildTask kind s).run.run a.site = (.ok t, site) →
      P blocks (cast ++ [b]) { a with site, tasks := a.tasks ++ [t] })
    (h : setUp roster w store = (.ok (), a)) : P w.actors w.cast a := by
  have hblocks (bs : List Block) (index : Nat) (blocks cast : List Block) (a₀ : Assembly)
      (hactors : blocks ++ bs = w.actors)
      (hcast : (cast ++ bs.flatMap fun b => List.replicate b.threads b) = w.cast)
      (ha : P blocks cast a₀) (h : (setUpBlocks roster index bs).run.run a₀ = (.ok (), a)) :
      P w.actors w.cast a := by
    induction bs generalizing index blocks cast a₀ with
    | nil =>
      cases h
      rw [List.append_nil] at hactors
      rw [List.flatMap_nil, List.append_nil] at hcast
      rw [← hactors, ← hcast]
      exact ha
    | cons b bs ih =>
      have hmem : b ∈ w.actors := by rw [← hactors]; simp
      rw [List.flatMap_cons, ← List.append_assoc] at hcast
      obtain ⟨_, a₁, hfirst, h⟩ := bind_eq_ok h
      refine ih _ (blocks ++ [b]) (cast ++ List.replicate b.threads b) a₁
        (by rw [← hactors, List.append_assoc]; rfl) hcast ?_ h
      obtain ⟨kind, schedule, hkind, hschedule, hbuilt⟩ := setUpBlock_eq_ok hfirst
      have hsetting : b.IsSetting roster kind ⟨b, index, _, schedule⟩ :=
        ⟨hkind, rfl, rfl, hschedule⟩
      exact repeatedly_buildActor (s := ⟨b, index, _, schedule⟩)
        (fun cast a t site hprefix hP hb =>
          hbuild _ cast a b kind _ t site hmem hsetting hprefix hP hb)
        (hcast ▸ List.prefix_append _ _)
        (henter blocks cast a₀ b kind _ hmem hsetting ha) hbuilt
  exact hblocks w.actors 0 [] [] _ rfl rfl hstart h

end

/-! ### Kinds that take part -/

/-- Every actor of this kind gets its part in the barrier, together with the one token that is
required for it. -/
def Kind.TakesPart (k : Kind) : Prop :=
  ∀ {s id site m loop site'}, (k.build s id).run.run site = (.ok (m, loop), site') →
    loop = some (.fresh s.name id s.index s.schedule) ∧ ∃ store, site' =
      { site with barrier := (site.barrier.addTokens? 1).getD site.barrier, store }

theorem Kind.takesPart_greeter : greeter.TakesPart := by
  intro s id site m loop site' h
  obtain ⟨_, _, -, -, rfl, -, rfl⟩ := greeter_eq_ok h
  exact ⟨rfl, _, rfl⟩

/-- All actors that a workload wants are of kinds that take part. -/
def Workload.TakesPart (w : Workload) (roster : Roster) : Prop :=
  ∀ b ∈ w.actors, ∀ kind, roster.find? b.actorType = some kind → kind.TakesPart

theorem Workload.takesPart_builtin (w : Workload) : w.TakesPart .builtin := by
  intro b _ kind hkind
  rw [Roster.builtin, SortedMap.find?_insert] at hkind
  split at hkind
  · cases hkind; exact Kind.takesPart_greeter
  · cases hkind

/-- The actor with a number may have this mind when it has been built. -/
def Kind.Builds (k : Kind) (s : Setting) (id : Nat) (mind : Mind) : Prop :=
  ∃ loop site site', (k.build s id).run.run site = (.ok (mind, loop), site')

/-- A task is an actor of a block that has not begun, with a number and a part in the barrier. -/
def Task.Plays (roster : Roster) (b : Block) (i : Nat) (t : Task Mind) : Prop :=
  ∃ kind s mind, b.IsSetting roster kind s ∧ kind.Builds s i mind ∧
    t = .fresh s.name i mind (some (.fresh s.name i s.index s.schedule))

/-- How many phases a run lasts. -/
def Barrier.span (b : Barrier) : Nat := b.lastPhase.elim 0 (· + 1)

theorem Barrier.span_le_iff {b : Barrier} {n : Nat} :
    b.span ≤ n ↔ ∀ last, b.lastPhase = some last → last < n := by
  unfold span
  cases b.lastPhase with
  | none => exact ⟨by rintro _ _ ⟨⟩, fun _ => Nat.zero_le n⟩
  | some last => exact ⟨by rintro h _ ⟨⟩; exact h, fun h => h last rfl⟩

namespace Assembly

/-- The blocks have been entered, and all places so far in the cast have been filled. -/
structure IsCast (roster : Roster) (blocks cast : List Block) (a : Assembly) : Prop where
  barrier : a.site.barrier =
    { Barrier.fresh with required := a.tasks.length, lastPhase := a.site.barrier.lastPhase }
  span : a.site.barrier.span = countUpTo (blocks.flatMap fun b => b.described.map Prod.snd)
  nextId : a.site.nextId = a.tasks.length
  length : a.tasks.length = cast.length
  plays : ∀ i t, a.tasks[i]? = some t → ∃ b, cast[i]? = some b ∧ Task.Plays roster b i t

variable {roster : Roster} {blocks cast : List Block} {a : Assembly} {b : Block} {kind : Kind}
  {s : Setting}

theorem IsCast.start (store : Store) : (Assembly.start store).IsCast roster [] [] where
  barrier := rfl
  span := rfl
  nextId := rfl
  length := rfl
  plays _ _ ht := by cases ht

theorem span_enter (hs : b.IsSetting roster kind s) (n : Nat) :
    (a.enter s.index s.schedule).site.barrier.span ≤ n ↔
      a.site.barrier.span ≤ n ∧ countUpTo (b.described.map Prod.snd) ≤ n := by
  have hlast : countUpTo (b.described.map Prod.snd) ≤ n ↔
      ∀ k, s.schedule.last? = some k → k < n := by
    rw [countUpTo_le_iff, SortedMap.last?_lt_iff]
    exact forall_congr' fun k => by rw [(Schedule.keys_ofBlock hs.schedule).mem_iff]
  rw [hlast, Assembly.enter]
  cases hl : s.schedule.last? with
  | none => simp
  | some k =>
    simp only [Option.elim, Barrier.extendTo, Barrier.span, Option.some.injEq, forall_eq']
    cases a.site.barrier.lastPhase <;> simp only <;> omega

theorem IsCast.enter (ha : a.IsCast roster blocks cast) (hs : b.IsSetting roster kind s) :
    (a.enter s.index s.schedule).IsCast roster (blocks ++ [b]) cast where
  barrier := by
    rw [Assembly.enter]
    cases s.schedule.last? with
    | none => exact ha.barrier
    | some k => rw [Option.elim, Barrier.extendTo, ha.barrier]
  span := by
    refine eq_of_forall_ge_iff fun n => ?_
    rw [span_enter hs, ha.span, List.flatMap_append, countUpTo_le_iff, countUpTo_le_iff,
      countUpTo_le_iff, List.forall_mem_append]
    simp
  nextId := ha.nextId
  length := ha.length
  plays := ha.plays

theorem IsCast.push (ha : a.IsCast roster blocks cast) (hs : b.IsSetting roster kind s)
    (hkind : kind.TakesPart) (hroom : cast.length + 1 < wordLimit) {t : Task Mind} {site : Site}
    (h : (buildTask kind s).run.run a.site = (.ok t, site)) :
    ({ a with site, tasks := a.tasks ++ [t] } : Assembly).IsCast roster blocks (cast ++ [b]) := by
  obtain ⟨mind, loop, hbuilt, rfl⟩ := buildTask_eq_ok h
  obtain ⟨rfl, store, rfl⟩ := hkind hbuilt
  have hrequired : a.site.barrier.required = a.tasks.length := by rw [ha.barrier]
  have hadd : addWord? a.tasks.length 1 = some (a.tasks.length + 1) :=
    addWord?_eq_some_iff.2 ⟨rfl, by rw [ha.length]; exact hroom⟩
  refine ⟨?_, ?_, ?_, ?_, fun i t ht => ?_⟩
  · simp only [Barrier.addTokens?, hrequired, hadd, Option.map_some, Option.getD_some,
      List.length_append, List.length_singleton]
    rw [ha.barrier]
  · simp only [Barrier.addTokens?, hrequired, hadd, Option.map_some, Option.getD_some]
    exact ha.span
  · simp [ha.nextId]
  · simp [ha.length]
  · rcases lt_trichotomy i a.tasks.length with hlt | rfl | hgt
    · rw [List.getElem?_append_left hlt] at ht
      obtain ⟨b', hb', hplays⟩ := ha.plays i t ht
      exact ⟨b', by rw [List.getElem?_append_left (ha.length ▸ hlt)]; exact hb', hplays⟩
    · rw [List.getElem?_concat_length] at ht
      cases ht
      refine ⟨b, by rw [ha.length]; exact List.getElem?_concat_length .., kind, s, mind, hs, ?_, ?_⟩
      · exact ⟨_, _, _, ha.nextId ▸ hbuilt⟩
      · rw [ha.nextId]
    · rw [List.getElem?_eq_none (by simp; omega)] at ht
      cases ht

variable {w : Workload} {store : Store}

/-- Errors cannot be compared, but it can be computed that there is none. -/
theorem setUp_eq_ok (h : (setUp roster w store).1.toBool = true) :
    setUp roster w store = (.ok (), (setUp roster w store).2) := by
  generalize setUp roster w store = r at h
  obtain ⟨o, a⟩ := r
  cases o with
  | ok u => rfl
  | error e => cases h

/-- **What has been set up is one actor for each place in the cast.** -/
theorem isCast_setUp (hparts : w.TakesPart roster)
    (hroom : Block.headcount w.actors < wordLimit) (h : setUp roster w store = (.ok (), a)) :
    a.IsCast roster w.actors w.cast := by
  refine setUp_induction (P := fun blocks cast a => a.IsCast roster blocks cast) (.start store)
    (fun _ _ _ _ _ _ _ hs ha => ha.enter hs)
    (fun blocks cast a b kind s t site hb hs hcast ha ht => ?_) h
  refine ha.push hs (hparts b hb kind hs.found) ?_ ht
  have := hcast.length_le
  rw [w.length_cast, List.length_append] at this
  exact this.trans_lt hroom

/-- A run may begin with all that has been set up. -/
theorem IsCast.isReady (ha : a.IsCast roster blocks cast) (sink : Sink) :
    (a.system sink).IsReady := by
  have htasks : ∀ t ∈ a.tasks, t.IsReady ∧ t.loop.isSome := by
    intro t ht
    obtain ⟨i, hi⟩ := List.getElem?_of_mem ht
    obtain ⟨b, -, kind, s, mind, hs, -, rfl⟩ := ha.plays i t hi
    refine ⟨⟨.inl rfl, rfl, fun p hp => ?_⟩, rfl⟩
    cases hp
    exact ⟨rfl, rfl, rfl, Schedule.isNumbered_ofBlock hs.schedule⟩
  refine ⟨?_, ?_, ?_, ?_, ?_, fun t ht => (htasks t ht).1⟩
  · exact congrArg Barrier.signal ha.barrier
  · exact congrArg Barrier.arrived ha.barrier
  · exact congrArg Barrier.outstanding ha.barrier
  · exact congrArg Barrier.failure ha.barrier
  · rw [system, System.card_seats, List.countP_eq_length.2 fun t ht => (htasks t ht).2]
    exact congrArg Barrier.required ha.barrier

/-- The run lasts as long as any schedule wants. -/
theorem IsCast.fitsIn (ha : a.IsCast roster blocks cast) (hb : b ∈ blocks)
    (hs : b.IsSetting roster kind s) : s.schedule.FitsIn a.site.barrier := by
  intro plan hplan
  have hnumber : plan.number ∈ b.described.map Prod.snd := by
    rw [← (Schedule.keys_ofBlock hs.schedule).mem_iff]
    have hfind := ((Schedule.mem_busy_iff (Schedule.isNumbered_ofBlock hs.schedule)).1 hplan).1
    exact List.mem_map_of_mem (SortedMap.find?_eq_some_iff.1 hfind)
  have hlt : plan.number < a.site.barrier.span := by
    rw [ha.span]
    exact countUpTo_le_iff.1 le_rfl _ (List.mem_flatMap.2 ⟨b, hb, hnumber⟩)
  cases hlast : a.site.barrier.lastPhase with
  | none => rw [Barrier.span, hlast] at hlt; exact absurd hlt (Nat.not_lt_zero _)
  | some last => rw [Barrier.span, hlast] at hlt; exact ⟨last, rfl, Nat.lt_succ_iff.1 hlt⟩

/-- What holds of all plans that the entries may describe holds of the plans that are followed. -/
theorem IsCast.forall_busy {P : PhasePlan → Prop} (ha : a.IsCast roster blocks cast)
    (hP : ∀ b ∈ cast, ∀ e ∈ b.phases, ∀ actor k plan,
      PhasePlan.ofEntry actor k e b.params = .ok plan → plan.nop = false → P plan)
    {t : Task Mind} (ht : t ∈ a.tasks) {p : Participant} (hp : t.loop = some p) :
    ∀ plan ∈ p.schedule.busy, P plan := by
  intro plan hplan
  obtain ⟨i, hi⟩ := List.getElem?_of_mem ht
  obtain ⟨b, hb, kind, s, mind, hs, -, rfl⟩ := ha.plays i t hi
  cases hp
  obtain ⟨hvalue, hnop⟩ := List.mem_filter.1 hplan
  obtain ⟨d, hd, hentry⟩ := (Schedule.mem_values_ofBlock hs.schedule).1 hvalue
  exact hP b (List.mem_of_getElem? hb) d.1 (Block.mem_phases_of_mem_described hd) _ _ plan hentry
    (by simpa using hnop)

end Assembly

end Lockstep
