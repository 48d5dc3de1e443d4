import Lockstep.Proofs.SetUpTasks
import Mathlib.Algebra.GroupWithZero.Nat

/-!
# What greeters are to record

A workload of greeters says how often each of its actors is to greet in which phase, and with which
words.  This file works that out from the document alone, and finds it again in the schedule and
the greetings that an actor is built with.

* `Toml.Table.find?_overlay` : in a table put over another one a key is looked up first in the top
  one;
* `Block.greetings` : the events that an actor of a block is to record, apart from their times;
* `Workload.IsGreeting` : a workload of greeters only, whose phases are counted or have nothing to
  do;
* `Greeter.tales_perm` : **the phases that a greeter is handed ask for these events**.
-/

namespace Lockstep

open Toml

/-! ### Tables -/

namespace Toml.Table

variable {t base top : Table} {key : String} {v : Value}

/-- No key occurs twice. -/
def IsKeyed (t : Table) : Prop := (t.map Prod.fst).Nodup

theorem find?_cons (entry : String × Value) (t : Table) (key : String) :
    find? (entry :: t) key = if entry.1 = key then some entry.2 else t.find? key := by
  unfold find?
  by_cases h : entry.1 = key
  · rw [List.find?_cons_of_pos (by simpa using h), if_pos h]
    rfl
  · rw [List.find?_cons_of_neg (by simpa using h), if_neg h]

theorem find?_eq_none (h : key ∉ t.map Prod.fst) : t.find? key = none := by
  induction t with
  | nil => rfl
  | cons entry t ih =>
    rw [List.map_cons, List.mem_cons, not_or] at h
    rw [find?_cons, if_neg fun he => h.1 he.symm, ih h.2]

theorem find?_eq_some_iff (ht : t.IsKeyed) : t.find? key = some v ↔ (key, v) ∈ t := by
  induction t with
  | nil => simp [find?]
  | cons entry t ih =>
    obtain ⟨hnew, ht⟩ := List.nodup_cons.1 ht
    rw [find?_cons, List.mem_cons, ← ih ht]
    split
    · next hk =>
      subst hk
      rw [find?_eq_none hnew]
      simp [Prod.ext_iff, eq_comm]
    · next hk => simp [Prod.ext_iff, Ne.symm hk]

/-- The order of the entries does not matter. -/
theorem find?_perm {t' : Table} (h : t.Perm t') (ht : t.IsKeyed) (key : String) :
    t'.find? key = t.find? key := by
  have ht' : t'.IsKeyed := (h.map Prod.fst).nodup_iff.1 ht
  refine Option.ext fun v => ?_
  rw [find?_eq_some_iff ht', find?_eq_some_iff ht, h.mem_iff]

theorem mem_keys_put {other : String} (h : other ∈ (t.put key v).map Prod.fst) :
    other = key ∨ other ∈ t.map Prod.fst := by
  induction t with
  | nil => simpa [put] using h
  | cons entry t ih =>
    rw [put] at h
    split at h
    · exact (List.mem_cons.1 h).imp_right (List.mem_cons_of_mem _)
    · rcases List.mem_cons.1 h with rfl | h
      · exact .inr List.mem_cons_self
      · exact (ih h).imp_right (List.mem_cons_of_mem _)

theorem IsKeyed.put (ht : t.IsKeyed) (key : String) (v : Value) : (t.put key v).IsKeyed := by
  induction t with
  | nil => exact List.nodup_singleton _
  | cons entry t ih =>
    obtain ⟨hnew, hrest⟩ := List.nodup_cons.1 ht
    rw [Table.put]
    split
    · next hk => exact List.nodup_cons.2 ⟨hk ▸ hnew, hrest⟩
    · next hk =>
      refine List.nodup_cons.2 ⟨fun hmem => ?_, ih hrest⟩
      exact (mem_keys_put hmem).elim hk hnew

theorem IsKeyed.overlay (hb : base.IsKeyed) (top : Table) : (base.overlay top).IsKeyed := by
  unfold Table.overlay
  induction top generalizing base with
  | nil => exact hb
  | cons entry top ih => exact ih (hb.put entry.1 entry.2)

/-- **A key is looked up in the top table first.** -/
theorem find?_overlay (htop : top.IsKeyed) (base : Table) (key : String) :
    (base.overlay top).find? key = (top.find? key).or (base.find? key) := by
  induction top generalizing base with
  | nil => rfl
  | cons entry top ih =>
    obtain ⟨hnew, htop⟩ := List.nodup_cons.1 htop
    have hrest : (base.overlay (entry :: top)) = (base.put entry.1 entry.2).overlay top := rfl
    rw [hrest, ih htop, find?_put, find?_cons]
    by_cases hk : entry.1 = key
    · subst hk
      rw [find?_eq_none hnew, if_pos rfl, if_pos rfl]
      rfl
    · rw [if_neg hk, if_neg (Ne.symm hk)]

end Toml.Table

/-! ### The greeting of a phase -/

/-- The greeting that a parameter asks for, if it is there. -/
def Greeter.messageOf (v : Option Value) : String :=
  (v.bind fun v => (asString v.momentless).toOption).getD defaultMessage

theorem Greeter.readMessage_eq_ok {params : Table} (hp : params.IsKeyed) {message : String}
    (h : readMessage params = .ok message) : message = messageOf (params.find? "Message") := by
  have hfold (t : Table) (ht : t.IsKeyed) (start : String)
      (h : t.foldlM (fun (m : String) (entry : String × Value) =>
        if entry.1 = "Message" then asString entry.2.momentless else .ok m) start =
          .ok message) :
      message = ((t.find? "Message").bind fun v => (asString v.momentless).toOption).getD start := by
    induction t generalizing start with
    | nil => cases h; rfl
    | cons entry t ih =>
      obtain ⟨hnew, ht⟩ := List.nodup_cons.1 ht
      rw [List.foldlM_cons] at h
      rw [Table.find?_cons]
      by_cases hk : entry.1 = "Message"
      · rw [if_pos hk] at h ⊢
        cases hv : asString entry.2.momentless with
        | error e => rw [hv] at h; cases h
        | ok m =>
          rw [hv] at h
          -- no other entry changes the message
          rw [ih ht m h, Table.find?_eq_none (hk ▸ hnew)]
          simp [hv, Except.toOption]
      · rw [if_neg hk] at h ⊢
        exact ih ht start h
  exact hfold params hp Greeter.defaultMessage h

/-- The greeting of a phase that an entry describes: its own, or else that of the block. -/
def Block.greeting (b : Block) (e : PhaseItem) : String :=
  Greeter.messageOf ((e.params.find? "Message").or (b.params.find? "Message"))

/-! ### Counted phases -/

/-- How often a policy wants the work to be repeated, if that is all it says. -/
def Policy.rounds : Policy → Nat
  | count n => n
  | _ => 0

/-- The phase waits for its actors, which repeat their work so often and not longer. -/
def PhasePlan.IsCounted (plan : PhasePlan) : Prop :=
  plan.blocking = true ∧ plan.policy = .count plan.policy.rounds

namespace PhaseItem

/-- The entry wants a blocking phase with a count and nothing else. -/
structure IsCounted (e : PhaseItem) : Prop where
  blocking : e.blocking = none
  repeats : e.repeats.isSome
  duration : e.duration = none
  unsignaled : e.untilSignaled = false

/-- How often the work is to be repeated. -/
def rounds (e : PhaseItem) : Nat := if e.nop then 0 else e.repeats.getD 0

end PhaseItem

/-- The parameters of a plan are those of the block, with those of the entry put over them. -/
theorem PhasePlan.params_ofEntry {actor : String} {k : Nat} {e : PhaseItem} {params : Table}
    {plan : PhasePlan} (h : ofEntry actor k e params = .ok plan) :
    plan.params = Table.sorted (Table.overlay params e.params) := by
  obtain ⟨-, rfl⟩ | ⟨-, _, _, -, -, rfl⟩ := ofEntry_eq_ok h <;> rfl

/-- The plan of a phase is counted like its entry. -/
theorem PhasePlan.ofEntry_isCounted {actor : String} {k : Nat} {e : PhaseItem} {params : Table}
    {plan : PhasePlan} (he : e.nop = true ∨ e.IsCounted) (h : ofEntry actor k e params = .ok plan) :
    plan.nop = e.nop ∧ plan.policy.rounds = e.rounds ∧ (plan.nop = false → plan.IsCounted) := by
  cases hnop : e.nop with
  | true =>
    simp only [ofEntry, hnop, if_true] at h
    cases h
    exact ⟨rfl, by rw [PhaseItem.rounds, hnop]; rfl, by rintro ⟨⟩⟩
  | false =>
    obtain hnop' | he := he
    · rw [hnop] at hnop'; cases hnop'
    obtain ⟨n, hn⟩ := Option.isSome_iff_exists.1 he.repeats
    simp only [ofEntry, hnop, blockingOf, policyOf, he.blocking, hn, he.duration,
      he.unsignaled] at h
    cases h
    exact ⟨rfl, by rw [PhaseItem.rounds, hnop, hn]; rfl, fun _ => ⟨rfl, rfl⟩⟩

/-! ### Events -/

namespace Event

/-- The event without the times at which it began and ended. -/
def timeless (e : Event) : Event := { e with started := 0, finished := 0 }

/-- The event of one greeting, apart from its times. -/
def greeting (actor : String) (id phase : Nat) (message : String) : Event :=
  ⟨actor, id, "hello", some phase, 0, 0, .success, 1, message.utf8ByteSize, 0⟩

end Event

namespace Block

/-- The events that an actor of the block is to record in a phase. -/
def greetingsIn (b : Block) (id : Nat) (d : PhaseItem × Nat) : List Event :=
  List.replicate d.1.rounds
    (.greeting (b.name.getD Kind.greeter.defaultName) id d.2 (b.greeting d.1))

/-- All events that an actor of the block is to record. -/
def greetings (b : Block) (id : Nat) : List Event := b.described.flatMap (b.greetingsIn id)

/-- How often an actor of the block is to repeat its work. -/
def rounds (b : Block) : Nat := (b.described.map fun d => d.1.rounds).sum

theorem length_greetings (b : Block) (id : Nat) : (b.greetings id).length = b.rounds := by
  simp [greetings, greetingsIn, rounds, List.length_flatMap]

/-- A block of greeters whose phases are counted or have nothing to do. -/
structure IsGreeting (roster : Roster) (b : Block) : Prop where
  kind : roster.find? b.actorType = some .greeter
  phases : ∀ e ∈ b.phases, e.nop = true ∨ e.IsCounted
  /-- A parameter is given at most once. -/
  params : b.params.IsKeyed
  phaseParams : ∀ e ∈ b.phases, e.params.IsKeyed

end Block

namespace Workload

/-- Only greeters, whose phases are counted or have nothing to do. -/
def IsGreeting (w : Workload) (roster : Roster) : Prop := ∀ b ∈ w.actors, b.IsGreeting roster

/-- All events that the actors are to record. -/
def greetings (w : Workload) : List Event := w.cast.zipIdx.flatMap fun c => c.1.greetings c.2

/-- How often the actors of all blocks are to repeat their work. -/
def rounds (w : Workload) : Nat := (w.actors.map fun b => b.threads * b.rounds).sum

theorem length_greetings (w : Workload) : w.greetings.length = w.rounds := by
  have hcast : (w.cast.map Block.rounds).sum = w.rounds := by
    unfold cast rounds
    induction w.actors with
    | nil => rfl
    | cons b blocks ih =>
      rw [List.flatMap_cons, List.map_append, List.sum_append, ih]
      simp
  rw [← hcast, greetings, List.length_flatMap, ← List.zipIdx_map_fst 0 w.cast, List.map_map]
  simp only [Block.length_greetings, Function.comp_def, List.zipIdx_map_fst]

end Workload

/-! ### What a greeter is handed -/

/-- Every phase with something to do has been configured from its own parameters. -/
theorem Setting.find?_configure {α : Type} {s : Setting} {read : Table → Except DecodeError α}
    {m : SortedMap Nat α} (hnum : s.schedule.IsNumbered) (h : s.configure read = .ok m)
    {plan : PhasePlan} (hplan : plan ∈ s.schedule.busy) :
    ∃ a, read plan.params = .ok a ∧ m.find? plan.number = some a := by
  have hfold (plans : List PhasePlan) (m₀ : SortedMap Nat α)
      (hplans : plans.Pairwise fun plan plan' => plan.number < plan'.number)
      (h : plans.foldlM (fun (m : SortedMap Nat α) plan => do
        return m.insert plan.number (← s.phaseConfig plan read)) m₀ = .ok m) :
      (∀ plan ∈ plans, ∃ a, read plan.params = .ok a ∧ m.find? plan.number = some a) ∧
        ∀ k, (∀ plan ∈ plans, plan.number ≠ k) → m.find? k = m₀.find? k := by
    induction plans generalizing m₀ with
    | nil => cases h; exact ⟨List.forall_mem_nil _, fun _ _ => rfl⟩
    | cons plan plans ih =>
      obtain ⟨hfirst, hplans⟩ := List.pairwise_cons.1 hplans
      rw [List.foldlM_cons] at h
      obtain ⟨m₁, hinsert, hrest⟩ := exists_of_bind_eq_ok h
      obtain ⟨a, hconfig, hend⟩ := exists_of_bind_eq_ok hinsert
      cases hend
      have hread : read plan.params = .ok a := eq_ok_of_mapError_eq_ok hconfig
      obtain ⟨hall, hkeep⟩ := ih _ hplans hrest
      refine ⟨List.forall_mem_cons.2 ⟨⟨a, hread, ?_⟩, hall⟩, fun k hk => ?_⟩
      · rw [hkeep plan.number fun plan' h' => (hfirst plan' h').ne', SortedMap.find?_insert,
          if_pos rfl]
      · obtain ⟨hne, hk⟩ := List.forall_mem_cons.1 hk
        rw [hkeep k hk, SortedMap.find?_insert, if_neg hne.symm]
  exact (hfold s.schedule.busy .empty (Schedule.busy_ascending hnum) h).1 plan hplan

namespace Greeter

/-- The event of one greeting in a phase, apart from its times. -/
def stamp (g : Greeter) (k : Nat) : Event :=
  ⟨g.operation.actor, g.operation.id, g.operation.name, some k, 0, 0, .success, 1,
    ((g.messages.find? k).getD "").utf8ByteSize, 0⟩

/-- What the greeter is to record in a phase. -/
def tale (g : Greeter) (plan : PhasePlan) : List Event :=
  List.replicate plan.policy.rounds (g.stamp plan.number)

/-- The greeter as it has been built for a block. -/
structure IsBuilt (roster : Roster) (b : Block) (id : Nat) (s : Setting) (g : Greeter) : Prop where
  setting : b.IsSetting roster Kind.greeter s
  messages : s.configure readMessage = .ok g.messages
  operation : g.operation = ⟨s.name, "hello", id⟩

variable {roster : Roster} {b : Block} {id : Nat} {s : Setting} {g : Greeter}

/-- In a phase with something to do the greeter has the greeting of the entry for it. -/
theorem IsBuilt.find?_messages (hg : g.IsBuilt roster b id s) (hparams : b.params.IsKeyed)
    (hphases : ∀ e ∈ b.phases, e.params.IsKeyed) {d : PhaseItem × Nat} (hd : d ∈ b.described)
    {plan : PhasePlan} (hplan : PhasePlan.ofEntry s.name d.2 d.1 b.params = .ok plan)
    (hbusy : plan ∈ s.schedule.busy) :
    g.messages.find? plan.number = some (b.greeting d.1) := by
  have hnum := Schedule.isNumbered_ofBlock hg.setting.schedule
  obtain ⟨message, hread, hfind⟩ := s.find?_configure hnum hg.messages hbusy
  have hkeyed : (Table.overlay b.params d.1.params).IsKeyed := hparams.overlay _
  have hperm := (List.mergeSort_perm (Table.overlay b.params d.1.params)
    fun a b => decide (a.1 ≤ b.1)).symm
  -- the parameters are kept in the order of their keys
  rw [PhasePlan.params_ofEntry hplan] at hread
  rw [hfind, readMessage_eq_ok ((hperm.map Prod.fst).nodup_iff.1 hkeyed) hread,
    Table.find?_perm hperm hkeyed,
    Table.find?_overlay (hphases d.1 (Block.mem_phases_of_mem_described hd))]
  rfl

/-- A plan asks for the events that its entry does. -/
theorem IsBuilt.tale_eq (hb : b.IsGreeting roster) (hg : g.IsBuilt roster b id s)
    {d : PhaseItem × Nat} (hd : d ∈ b.described) {plan : PhasePlan}
    (hplan : PhasePlan.ofEntry s.name d.2 d.1 b.params = .ok plan)
    (hbusy : plan ∈ s.schedule.busy) :
    g.tale plan = b.greetingsIn id d := by
  have hentry := Block.mem_phases_of_mem_described hd
  obtain ⟨-, hrounds, -⟩ := PhasePlan.ofEntry_isCounted (hb.phases d.1 hentry) hplan
  rw [tale, Block.greetingsIn, hrounds, stamp,
    hg.find?_messages hb.params hb.phaseParams hd hplan hbusy, hg.operation, hg.setting.name,
    PhasePlan.number_ofEntry hplan]
  rfl

/-- **The phases that a greeter is handed ask for the events that its block does.** -/
theorem IsBuilt.tales_perm (hb : b.IsGreeting roster) (hg : g.IsBuilt roster b id s) :
    (s.schedule.busy.flatMap g.tale).Perm (b.greetings id) := by
  obtain ⟨plans, hperm, hplans⟩ := Schedule.values_ofBlock hg.setting.schedule
  have hbusy : (plans.filter fun plan => !plan.nop).Perm s.schedule.busy :=
    (hperm.filter _).symm
  refine (hbusy.symm.flatMap_right g.tale).trans (List.Perm.of_eq ?_)
  have hmem : ∀ plan ∈ plans, plan.nop = false → plan ∈ s.schedule.busy := by
    intro plan hplan hnop
    exact hbusy.mem_iff.1 (List.mem_filter.2 ⟨hplan, by simpa using hnop⟩)
  have hall (ds : List (PhaseItem × Nat)) (hds : ∀ d ∈ ds, d ∈ b.described)
      (hpart : ∀ plan ∈ plans, plan.nop = false → plan ∈ s.schedule.busy)
      (h : List.Forall₂ (fun d plan => PhasePlan.ofEntry s.name d.2 d.1 b.params = .ok plan)
        ds plans) :
      (plans.filter fun plan => !plan.nop).flatMap g.tale = ds.flatMap (b.greetingsIn id) := by
    clear hperm hbusy hmem hplans
    induction h with
    | nil => rfl
    | @cons d plan ds plans hplan _ ih =>
      obtain ⟨hd, hds⟩ := List.forall_mem_cons.1 hds
      obtain ⟨hbusy, hpart⟩ := List.forall_mem_cons.1 hpart
      obtain ⟨hnop, -, -⟩ := PhasePlan.ofEntry_isCounted
        (hb.phases d.1 (Block.mem_phases_of_mem_described hd)) hplan
      rw [List.flatMap_cons, ← ih hds hpart]
      cases h : plan.nop with
      | true =>
        -- there is nothing to record where there is nothing to do
        rw [List.filter_cons_of_neg (by simp [h]), Block.greetingsIn, PhaseItem.rounds,
          if_pos (hnop ▸ h)]
        rfl
      | false =>
        rw [List.filter_cons_of_pos (by simp [h]), List.flatMap_cons,
          hg.tale_eq hb hd hplan (hbusy h)]
  exact hall b.described (fun d hd => hd) hmem hplans

end Greeter

end Lockstep
