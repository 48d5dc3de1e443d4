import Lockstep.Proofs.Blame
import Lockstep.Setup
import Mathlib.Data.List.Induction

/-!
# Workloads that have been set up

A workload that has been set up without an error makes a system with which a run may begin.

* `Kind.IsFair` : a kind of actors each of which gets its part in the barrier together with the one
  token that is required for it;
* `Assembly.IsReady` : what holds of all that has been set up so far;
* `System.isReady_setUp` and `System.isFresh_setUp` : **what holds at the start of a run holds of
  every workload of fair kinds**, as long as the number of its actors fits a word;
* `System.outcome_setUp` : what is said about a run is concluded from such a system and its moves.
-/

namespace Lockstep

/-! ### Steps of setting up -/

section

variable {ε α β τ : Type}

/-- Two things done one after the other go well if both of them do. -/
theorem bind_eq_ok {x : ExceptT ε (StateM τ) α} {f : α → ExceptT ε (StateM τ) β} {s s' : τ} {b : β}
    (h : (x >>= f).run.run s = (.ok b, s')) :
    ∃ a s₁, x.run.run s = (.ok a, s₁) ∧ (f a).run.run s₁ = (.ok b, s') := by
  rw [ExceptT.run_bind, StateT.run_bind] at h
  generalize x.run.run s = r at h ⊢
  obtain ⟨_ | a, s₁⟩ := r
  · cases h
  · exact ⟨a, s₁, rfl, h⟩

end

section

variable {kind : Kind} {s : Setting} {site site' : Site} {a a' : Assembly} {t : Task Mind}

theorem buildTask_eq_ok (h : (buildTask kind s).run.run site = (.ok t, site')) :
    ∃ m loop, (kind.build s site.nextId).run.run { site with nextId := site.nextId + 1 } =
      (.ok (m, loop), site') ∧ t = .fresh s.name site.nextId m loop := by
  obtain ⟨_, _, hid, h⟩ := bind_eq_ok h
  cases hid
  obtain ⟨⟨m, loop⟩, _, hbuild, h⟩ := bind_eq_ok h
  cases h
  exact ⟨m, loop, hbuild, rfl⟩

theorem takeIn_eq_ok {built : Except (OrPanic SetupError) (Task Mind)}
    (h : (takeIn s built site).run.run a = (.ok (), a')) :
    ∃ t, built = .ok t ∧ a' = { a with site, tasks := a.tasks ++ [t] } := by
  cases built with
  | ok t => cases h; exact ⟨t, rfl, rfl⟩
  | error cause => cases h

theorem buildActor_eq_ok (h : (buildActor kind s).run.run a = (.ok (), a')) :
    ∃ t site, (buildTask kind s).run.run a.site = (.ok t, site) ∧
      a' = { a with site, tasks := a.tasks ++ [t] } := by
  obtain ⟨_, _, hget, h⟩ := bind_eq_ok h
  cases hget
  obtain ⟨t, hbuilt, rfl⟩ := takeIn_eq_ok h
  exact ⟨t, _, Prod.ext hbuilt rfl, rfl⟩

/-- What each time keeps, while there is one time less to come, holds after all of them. -/
theorem repeatedly_eq_ok {f : SettingUp Unit} {P : Nat → Assembly → Prop}
    (hf : ∀ n a a', P (n + 1) a → f.run.run a = (.ok (), a') → P n a') {n m : Nat}
    (ha : P (m + n) a) (h : (repeatedly f n).run.run a = (.ok (), a')) : P m a' := by
  induction n generalizing a with
  | zero => cases h; exact ha
  | succ n ih =>
    obtain ⟨_, a₁, hfirst, h⟩ := bind_eq_ok h
    exact ih (hf _ _ _ ha hfirst) h

/-- A block that has been set up is of a kind that is known and has a schedule; the schedule has
been entered before the actors were built. -/
theorem setUpBlock_eq_ok {roster : Roster} {index : Nat} {b : Block}
    (h : (setUpBlock roster index b).run.run a = (.ok (), a')) :
    ∃ kind schedule, roster.find? b.actorType = some kind ∧
      Schedule.ofBlock (b.name.getD kind.defaultName) b = .ok schedule ∧
      (repeatedly (buildActor kind ⟨b, index, b.name.getD kind.defaultName, schedule⟩)
        b.threads).run.run (a.enter index schedule) = (.ok (), a') := by
  unfold setUpBlock at h
  split at h
  · cases h
  · next kind hkind =>
    cases hschedule : Schedule.ofBlock (b.name.getD kind.defaultName) b with
    | error cause => simp only [hschedule] at h; cases h
    | ok schedule =>
      simp only [hschedule] at h
      obtain ⟨_, _, hentered, hbuilt⟩ := bind_eq_ok h
      cases hentered
      exact ⟨kind, schedule, hkind, hschedule, hbuilt⟩

end

/-! ### Fair kinds -/

/-- Building an actor of this kind requires one more token if the actor gets a part in the barrier,
and none if it gets no part; and the actor does not say that the run was aborted unless it has been
told so. -/
structure Kind.IsFair (k : Kind) : Prop where
  barrier : ∀ {s id site m loop site'}, (k.build s id).run.run site = (.ok (m, loop), site') →
    site'.barrier = if loop.isSome then (site.barrier.addTokens? 1).getD site.barrier
      else site.barrier
  nextId : ∀ {s id site m loop site'}, (k.build s id).run.run site = (.ok (m, loop), site') →
    site'.nextId = site.nextId
  loop : ∀ {s id site m loop site'}, (k.build s id).run.run site = (.ok (m, loop), site') →
    ∀ p, loop = some p → p = .fresh s.name id s.index s.schedule
  candid : ∀ {s id site m loop site'}, (k.build s id).run.run site = (.ok (m, loop), site') →
    Candid m

/-- All kinds that a workload may name are fair. -/
def Roster.IsFair (r : Roster) : Prop := ∀ name kind, r.find? name = some kind → kind.IsFair

section

variable {s : Setting} {id : Nat} {site site' : Site}

theorem configured_eq_ok {α : Type} {e : Except ConfigError α} {a : α}
    (h : (configured e).run.run site = (.ok a, site')) : e = .ok a ∧ site' = site := by
  cases e with
  | ok a => cases h; exact ⟨rfl, rfl⟩
  | error cause => cases h

theorem takePart_eq_ok {p : Participant}
    (h : (takePart s id).run.run site = (.ok p, site')) :
    p = .fresh s.name id s.index s.schedule ∧
      site' = { site with barrier := (site.barrier.addTokens? 1).getD site.barrier } := by
  unfold takePart at h
  obtain ⟨_, _, hget, h⟩ := bind_eq_ok h
  cases hget
  split at h
  · cases h
  · next barrier hadd =>
    cases h
    exact ⟨rfl, by rw [hadd]; rfl⟩

/-- Shared state that has been asked for is what the store answers. -/
theorem shared_eq_ok {key : String} {want : CellType} {init : Recipe} {ref : Nat}
    (h : (shared key want init).run.run site = (.ok ref, site')) :
    (site.store.getOrInit key want init).answer = .value ref ∧
      site' = { site with store := (site.store.getOrInit key want init).store } := by
  unfold shared at h
  obtain ⟨_, _, hget, h⟩ := bind_eq_ok h
  cases hget
  obtain ⟨_, _, hset, h⟩ := bind_eq_ok h
  cases hset
  split at h
  · next ref' hanswer => cases h; exact ⟨hanswer, rfl⟩
  · cases h
  · cases h

end

/-- What a greeter is once it has been built. -/
theorem Kind.greeter_eq_ok {s : Setting} {id : Nat} {m : Mind} {loop : Option Participant}
    {site site' : Site} (h : (greeter.build s id).run.run site = (.ok (m, loop), site')) :
    ∃ messages ref, s.configure Greeter.readMessage = .ok messages ∧
      m = .greeter ⟨⟨s.name, "hello", id⟩, ref, messages, "", .seeking⟩ ∧
      loop = some (.fresh s.name id s.index s.schedule) ∧
      (site.store.getOrInit counterKey .counter (.value (.counter 0))).answer = .value ref ∧
      site' = { site with
        barrier := (site.barrier.addTokens? 1).getD site.barrier
        store := (site.store.getOrInit counterKey .counter (.value (.counter 0))).store } := by
  obtain ⟨⟨g, p⟩, _, hbuild, h⟩ := bind_eq_ok h
  cases h
  obtain ⟨messages, _, hconfig, hrest⟩ := bind_eq_ok hbuild
  obtain ⟨hmessages, rfl⟩ := configured_eq_ok hconfig
  obtain ⟨_, _, hpart, hlast⟩ := bind_eq_ok hrest
  obtain ⟨rfl, rfl⟩ := takePart_eq_ok hpart
  obtain ⟨counter, _, hshared, hend⟩ := bind_eq_ok hlast
  obtain ⟨hvalue, rfl⟩ := shared_eq_ok hshared
  cases hend
  exact ⟨messages, _, hmessages, rfl, rfl, hvalue, rfl⟩

/-- A kind whose actors all get a part in the barrier. -/
theorem Kind.isFair_of_takesPart {k : Kind}
    (hbuild : ∀ {s id site m loop site'}, (k.build s id).run.run site = (.ok (m, loop), site') →
      loop = some (.fresh s.name id s.index s.schedule) ∧ Candid m ∧
      ∃ store, site' =
        { site with barrier := (site.barrier.addTokens? 1).getD site.barrier, store }) :
    k.IsFair where
  barrier h := by
    obtain ⟨rfl, -, store, rfl⟩ := hbuild h
    rfl
  nextId h := by
    obtain ⟨-, -, store, rfl⟩ := hbuild h
    rfl
  loop h p hp := by
    obtain ⟨rfl, -⟩ := hbuild h
    exact (Option.some.inj hp).symm
  candid h := (hbuild h).2.1

/-- An actor is as candid as it was before it was one of many kinds. -/
theorem Candid.map {σ τ : Type} [Behaviour σ] [Behaviour τ] {f : σ → τ} {m₀ : σ}
    (hask : ∀ m, Behaviour.ask (f m) = Behaviour.ask m)
    (hhear : ∀ m now r, Behaviour.hear (f m) now r = f (Behaviour.hear m now r))
    (h : Candid m₀) : Candid (f m₀) := by
  refine .of_invariant (P := fun m' => ∃ m, m' = f m ∧ Unwarned m₀ m) ⟨m₀, rfl, .start⟩ ?_ ?_
  · rintro _ now r ⟨m, rfl, hm⟩ hr
    exact ⟨_, hhear m now r, hm.hear now hr⟩
  · rintro _ e ⟨m, rfl, hm⟩ he
    rw [hask] at he
    exact h m hm e he

namespace Greeter

/-- A greeter only fails because it is told that it cannot go on, or cannot report. -/
theorem candid {g : Greeter} (hg : ∀ e, g.step ≠ .ended e) : Candid g := by
  refine .of_invariant (P := fun g : Greeter => ∀ e, g.step = .ended (.failed e) →
    e.isAftermath = false) (fun e he => absurd he (hg _)) (fun g now r hg hr => ?_)
    fun g e hown he => ?_
  · change ∀ e, (g.hear r).step = .ended (.failed e) → e.isAftermath = false
    unfold Greeter.hear
    split
    · rintro e ⟨⟩
    · next cause _ =>
      rintro e ⟨⟩
      cases cause with
      | aborted cause => cases hr
      | closed => rfl
    · rintro e ⟨⟩
    · rintro e ⟨⟩
    · rintro e ⟨⟩
    · rintro e ⟨⟩
    · rintro e ⟨⟩
    · rintro e ⟨⟩
    · rintro e ⟨⟩
      rfl
    · rintro e ⟨⟩
    · next e hs =>
      rintro e' ⟨⟩
      exact hg e' hs
  · change Greeter.ask g = .finish (.failed e) at he
    unfold Greeter.ask at he
    split at he
    case h_7 hs => cases he; exact hown e hs
    all_goals cases he

end Greeter

namespace Kind

theorem isFair_greeter : greeter.IsFair := by
  refine isFair_of_takesPart fun {s id site m loop site'} h => ?_
  obtain ⟨_, _, -, rfl, rfl, -, rfl⟩ := greeter_eq_ok h
  exact ⟨rfl, .map (fun _ => rfl) (fun _ _ _ => rfl) (Greeter.candid (by rintro _ ⟨⟩)), _, rfl⟩

end Kind

namespace Roster

theorem IsFair.enter {r : Roster} (hr : r.IsFair) {k : Kind} (hk : k.IsFair) (name : String) :
    (r.enter name k).IsFair := by
  intro name' kind h
  rw [Roster.enter, SortedMap.find?_insert] at h
  split at h
  · cases h; exact hk
  · exact hr name' kind h

/-- The kinds that are always there are fair. -/
theorem isFair_builtin : builtin.IsFair :=
  IsFair.enter (fun name kind h => by simp at h) Kind.isFair_greeter _

end Roster

/-- How many actors some blocks want. -/
def Block.headcount : List Block → Nat
  | [] => 0
  | block :: blocks => block.threads + headcount blocks

/-- What has been set up so far may be part of a run, and there is room for `n` more actors. -/
structure Assembly.IsReady (n : Nat) (a : Assembly) : Prop where
  signal : a.site.barrier.signal = ⟨0, false, .running⟩
  arrived : a.site.barrier.arrived = 0
  outstanding : a.site.barrier.outstanding = 0
  failure : a.site.barrier.failure = none
  required : a.site.barrier.required = a.tasks.countP fun t => t.loop.isSome
  ready : ∀ t ∈ a.tasks, t.IsReady
  fresh : ∀ t ∈ a.tasks, t.IsFresh
  /-- All identities have been taken before. -/
  taken : ∀ t ∈ a.tasks, t.id < a.site.nextId
  ids : (a.tasks.map Task.id).Nodup
  room : a.tasks.length + n < wordLimit

namespace Assembly.IsReady

variable {n : Nat} {a a' : Assembly}

theorem start (store : Store) (hn : n < wordLimit) : (Assembly.start store).IsReady n where
  signal := rfl
  arrived := rfl
  outstanding := rfl
  failure := rfl
  required := rfl
  ready _ ht := by cases ht
  fresh _ ht := by cases ht
  taken _ ht := by cases ht
  ids := .nil
  room := by simpa [Assembly.start] using hn

theorem enter (ha : a.IsReady n) (index : Nat) (s : Schedule) : (a.enter index s).IsReady n := by
  have hbarrier : (a.enter index s).site.barrier =
      { a.site.barrier with lastPhase := (a.enter index s).site.barrier.lastPhase } := by
    simp only [Assembly.enter]
    cases s.last? <;> rfl
  refine ⟨?_, ?_, ?_, ?_, ?_, ha.ready, ha.fresh, ha.taken, ha.ids, ha.room⟩
  · rw [hbarrier]; exact ha.signal
  · rw [hbarrier]; exact ha.arrived
  · rw [hbarrier]; exact ha.outstanding
  · rw [hbarrier]; exact ha.failure
  · rw [hbarrier]; exact ha.required

/-- One more actor gets an identity of its own, and one token is required for its part. -/
theorem push {kind : Kind} (hk : kind.IsFair) {s : Setting} (hs : s.schedule.IsNumbered)
    (ha : a.IsReady (n + 1)) {t : Task Mind} {site : Site}
    (h : (buildTask kind s).run.run a.site = (.ok t, site)) :
    ({ a with site, tasks := a.tasks ++ [t] } : Assembly).IsReady n := by
  obtain ⟨m, loop, hbuild, rfl⟩ := buildTask_eq_ok h
  have hroom := ha.room
  -- there is room for one more token
  have hcount : a.site.barrier.required ≤ a.tasks.length := by
    rw [ha.required]
    exact List.countP_le_length
  have hbarrier : site.barrier = { a.site.barrier with
      required := a.site.barrier.required + loop.isSome.toNat } := by
    rw [hk.barrier hbuild]
    cases loop with
    | none => rfl
    | some p =>
      have hadd : addWord? a.site.barrier.required 1 = some (a.site.barrier.required + 1) :=
        addWord?_eq_some_iff.2 ⟨rfl, by omega⟩
      simp [Barrier.addTokens?, hadd]
  have hid : site.nextId = a.site.nextId + 1 := hk.nextId hbuild
  have hfresh : ∀ p, loop = some p → p = .fresh s.name a.site.nextId s.index s.schedule :=
    hk.loop hbuild
  refine ⟨?_, ?_, ?_, ?_, ?_, ?_, ?_, ?_, ?_, ?_⟩
  · rw [hbarrier]; exact ha.signal
  · rw [hbarrier]; exact ha.arrived
  · rw [hbarrier]; exact ha.outstanding
  · rw [hbarrier]; exact ha.failure
  · rw [hbarrier, List.countP_append, ← ha.required]
    cases loop <;> rfl
  · intro t ht
    rcases List.mem_append.1 ht with ht | ht
    · exact ha.ready t ht
    · rw [List.mem_singleton.1 ht]
      refine ⟨.inl rfl, rfl, fun p hp => ?_⟩
      rw [hfresh p hp]
      exact ⟨rfl, rfl, rfl, hs⟩
  · intro t ht
    rcases List.mem_append.1 ht with ht | ht
    · exact ha.fresh t ht
    · rw [List.mem_singleton.1 ht]
      refine ⟨rfl, rfl, fun p hp => ?_, hk.candid hbuild⟩
      rw [hfresh p hp]
      exact ⟨rfl, rfl⟩
  · intro t ht
    simp only [hid]
    rcases List.mem_append.1 ht with ht | ht
    · exact (ha.taken t ht).trans (Nat.lt_succ_self _)
    · rw [List.mem_singleton.1 ht]
      exact Nat.lt_succ_self _
  · rw [List.map_append, List.nodup_append]
    refine ⟨ha.ids, List.nodup_singleton _, fun i hi j hj => ?_⟩
    obtain ⟨t, ht, rfl⟩ := List.mem_map.1 hi
    rw [List.mem_singleton.1 hj]
    exact (ha.taken t ht).ne
  · simp only [List.length_append, List.length_singleton]
    omega

theorem block {roster : Roster} (hroster : roster.IsFair)
    {index : Nat} {block : Block} (ha : a.IsReady (n + block.threads))
    (h : (setUpBlock roster index block).run.run a = (.ok (), a')) : a'.IsReady n := by
  obtain ⟨kind, schedule, hkind, hschedule, h⟩ := setUpBlock_eq_ok h
  refine repeatedly_eq_ok (P := fun n a => a.IsReady n) (fun n a a' ha h => ?_)
    (ha.enter index schedule) h
  obtain ⟨t, site, hbuild, rfl⟩ := buildActor_eq_ok h
  exact ha.push (hroster _ _ hkind) (Schedule.isNumbered_ofBlock hschedule) hbuild

theorem blocks {roster : Roster} (hroster : roster.IsFair) {index : Nat}
    {blocks : List Block} (ha : a.IsReady (n + Block.headcount blocks))
    (h : (setUpBlocks roster index blocks).run.run a = (.ok (), a')) : a'.IsReady n := by
  induction blocks generalizing a index with
  | nil => cases h; exact ha
  | cons b blocks ih =>
    obtain ⟨_, a₁, hfirst, h⟩ := bind_eq_ok h
    refine ih (block hroster (n := n + Block.headcount blocks) ?_ hfirst) h
    rw [Nat.add_assoc, Nat.add_comm _ b.threads]
    exact ha

end Assembly.IsReady

/-! ### Systems that have been set up -/

namespace System

/-- The seats are as many as the tasks with a part in the barrier. -/
theorem card_seats {σ : Type} (w : World) (ts : List (Task σ)) :
    (⟨w, ts⟩ : System σ).seats.card = ts.countP fun t => t.loop.isSome := by
  induction ts using List.reverseRecOn with
  | nil => rfl
  | append_singleton ts t ih =>
    have hbefore : (Finset.range ts.length).filter (fun i =>
        (((ts ++ [t])[i]?).bind Task.loop).isSome) = (⟨w, ts⟩ : System σ).seats := by
      refine Finset.filter_congr fun i hi => ?_
      rw [List.getElem?_append_left (Finset.mem_range.1 hi)]
    rw [List.countP_append, ← ih, ← hbefore]
    simp only [seats, List.length_append, List.length_singleton]
    rw [Finset.range_add_one, Finset.filter_insert]
    cases hl : t.loop with
    | none => simp [hl]
    | some p =>
      rw [if_pos (by simp [hl]), Finset.card_insert_of_notMem (by simp)]
      simp [hl]

variable {roster : Roster} {w : Workload} {store : Store} {a : Assembly}

/-- Whatever is set up is ready. -/
theorem isReady_assembly (hroster : roster.IsFair)
    (hroom : Block.headcount w.actors < wordLimit)
    (h : setUp roster w store = (.ok (), a)) : a.IsReady 0 :=
  Assembly.IsReady.blocks hroster (.start store (by rwa [Nat.zero_add])) h

/-- **Every workload of fair kinds makes a system that is ready to run.** -/
theorem isReady_setUp (hroster : roster.IsFair)
    (hroom : Block.headcount w.actors < wordLimit)
    (h : setUp roster w store = (.ok (), a)) (sink : Sink) : (a.system sink).IsReady := by
  have ha := isReady_assembly hroster hroom h
  refine ⟨ha.signal, ha.arrived, ha.outstanding, ha.failure, ?_, ha.ready⟩
  rw [Assembly.system, card_seats]
  exact ha.required

/-- **Its actors have not begun, and each has an identity of its own.** -/
theorem isFresh_setUp (hroster : roster.IsFair)
    (hroom : Block.headcount w.actors < wordLimit)
    (h : setUp roster w store = (.ok (), a)) (sink : Sink) : (a.system sink).IsFresh := by
  have ha := isReady_assembly hroster hroom h
  refine ⟨ha.failure, ?_, ha.fresh, ha.ids⟩
  rw [Assembly.system, ha.signal]
  decide

/-- What is said about a run of such a workload, whatever happens to it from outside, is concluded
from a system in which all actors have come to their end, and to which the launched system has come
without being aborted from outside. -/
theorem outcome_setUp (hroster : roster.IsFair) (hroom : Block.headcount w.actors < wordLimit)
    (h : setUp roster w store = (.ok (), a)) {sink : Sink} {events : List (Nat × Interference)}
    {o : Except RunError Summary}
    (ho : ((Run.start (a.system sink)).follow events).outcome = some o) :
    (a.system sink).IsFresh ∧ ∃ ls, (∀ f, Label.abort f ∉ ls) ∧
      (((a.system sink).onBarrier Barrier.launch).run ls).isOver = true ∧
      o = conclude (((a.system sink).onBarrier Barrier.launch).run ls) := by
  refine ⟨isFresh_setUp hroster hroom h sink, ?_⟩
  obtain ⟨s, ⟨ls, hls, rfl⟩, hover, rfl⟩ := Run.outcome_follow ho
  exact ⟨ls, fun f hf => hls _ hf, hover, rfl⟩

/-- So it is with every workload of the kinds that are always there. -/
theorem outcome_setUp_builtin (hroom : Block.headcount w.actors < wordLimit)
    (h : setUp .builtin w store = (.ok (), a)) {sink : Sink} {events : List (Nat × Interference)}
    {o : Except RunError Summary}
    (ho : ((Run.start (a.system sink)).follow events).outcome = some o) :
    (a.system sink).IsFresh ∧ ∃ ls, (∀ f, Label.abort f ∉ ls) ∧
      (((a.system sink).onBarrier Barrier.launch).run ls).isOver = true ∧
      o = conclude (((a.system sink).onBarrier Barrier.launch).run ls) :=
  outcome_setUp Roster.isFair_builtin hroom h ho

end System

end Lockstep
