import Lockstep.Proofs.Rounds
import Mathlib.Algebra.BigOperators.Group.List.Basic

/-!
# No lost updates

All greeters of a run add to one counter, and record their greetings in one sink, in whatever order
their steps come.  Nothing gets lost on the way.

* `Assembly.SharesCounter` : the greeters that have been set up count with one counter;
* `System.Tells` : the counter shows how many greetings have been recorded, but for those that are
  still under way, and each greeter has recorded what `Task.Greets` says;
* `System.IsGreeting.tells_run` : **this holds after every run that goes on**;
* `System.no_lost_updates` : **a run of greeters that ends well has counted and recorded exactly the
  greetings that its workload asks for.**
-/

namespace Lockstep

/-! ### One counter -/

namespace Store

/-- What somebody reads who asks for the counter of the greeters. -/
def greetings? (s : Store) : Option Cell :=
  let r := s.getOrDefault counterKey .counter
  match r.answer with
  | .value ref => r.store.cell? ref
  | _ => none

theorem getOrInit_counting (n : Nat) :
    ((counting n).getOrInit counterKey .counter (.value (.counter 0))).answer = .value 0 ∧
      ((counting n).getOrInit counterKey .counter (.value (.counter 0))).store = counting n :=
  ⟨rfl, rfl⟩

theorem getOrInit_empty :
    (empty.getOrInit counterKey .counter (.value (.counter 0))).answer = .value 0 ∧
      (empty.getOrInit counterKey .counter (.value (.counter 0))).store = counting 0 := by
  decide

theorem greetings?_counting (n : Nat) :
    (counting n).greetings? = some (.counter (wrapSigned n)) := rfl

theorem greetings?_empty : empty.greetings? = some (.counter (wrapSigned (0 : Nat))) := by
  decide

end Store

/-- The greeters that have been set up count with the one counter there is. -/
structure Assembly.SharesCounter (a : Assembly) : Prop where
  store : a.site.store = .counting 0 ∨ a.tasks = [] ∧ a.site.store = .empty
  counters : ∀ t ∈ a.tasks, ∀ g, t.mind = .greeter g → g.counter = 0

section

variable {roster : Roster} {w : Workload} {a : Assembly} {sink : Sink}

theorem Assembly.SharesCounter.push (ha : a.SharesCounter) {s : Setting} {t : Task Mind}
    {site : Site} (h : (buildTask Kind.greeter s).run.run a.site = (.ok t, site)) :
    ({ a with site, tasks := a.tasks ++ [t] } : Assembly).SharesCounter := by
  obtain ⟨mind, loop, hbuilt, rfl⟩ := buildTask_eq_ok h
  obtain ⟨messages, ref, -, rfl, -, href, rfl⟩ := Kind.greeter_eq_ok hbuilt
  have hcounter : (a.site.store.getOrInit counterKey .counter (.value (.counter 0))).answer =
      .value 0 ∧ (a.site.store.getOrInit counterKey .counter (.value (.counter 0))).store =
        .counting 0 := by
    rcases ha.store with hs | ⟨-, hs⟩
    · rw [hs]; exact Store.getOrInit_counting 0
    · rw [hs]; exact Store.getOrInit_empty
  refine ⟨.inl hcounter.2, fun u hu g hg => ?_⟩
  rcases List.mem_append.1 hu with hu | hu
  · exact ha.counters u hu g hg
  · cases List.mem_singleton.1 hu
    cases hg
    rw [hcounter.1] at href
    cases href
    rfl

/-- All actors that a workload wants are greeters. -/
def Workload.IsOfGreeters (w : Workload) (roster : Roster) : Prop :=
  ∀ b ∈ w.actors, roster.find? b.actorType = some .greeter

theorem Workload.IsGreeting.isOfGreeters (hw : w.IsGreeting roster) : w.IsOfGreeters roster :=
  fun b hb => (hw b hb).kind

theorem Workload.IsOfGreeters.sharesCounter (hw : w.IsOfGreeters roster)
    (h : setUp roster w .empty = (.ok (), a)) : a.SharesCounter := by
  refine setUp_induction (P := fun _ _ a => a.SharesCounter)
    ⟨.inr ⟨rfl, rfl⟩, fun t ht => by cases ht⟩
    (fun _ _ _ _ _ _ _ _ ha => ⟨ha.store, ha.counters⟩)
    (fun blocks cast a b kind s t site hb hs _ ha ht => ?_) h
  obtain rfl : kind = .greeter := Option.some.inj (hs.found.symm.trans (hw b hb))
  exact ha.push ht

theorem Assembly.sharesCounter_setUp (hw : w.IsGreeting roster)
    (h : setUp roster w .empty = (.ok (), a)) : a.SharesCounter :=
  hw.isOfGreeters.sharesCounter h

theorem Workload.IsOfGreeters.takesPart (hw : w.IsOfGreeters roster) : w.TakesPart roster := by
  intro b hb kind hkind
  obtain rfl : kind = .greeter := Option.some.inj (hkind.symm.trans (hw b hb))
  exact Kind.takesPart_greeter

theorem Workload.IsGreeting.takesPart (hw : w.IsGreeting roster) : w.TakesPart roster :=
  hw.isOfGreeters.takesPart

/-- A greeter that has been set up for a block, and has not begun. -/
structure Task.IsGreeter (roster : Roster) (b : Block) (i : Nat) (s : Setting) (g : Greeter)
    (t : Task Mind) : Prop where
  built : g.IsBuilt roster b i s
  counter : g.counter = 0
  step : g.step = .seeking
  fresh : t = .fresh s.name i (.greeter g) (some (.fresh s.name i s.index s.schedule))

/-- Every place in the cast is filled by a greeter. -/
theorem Assembly.IsCast.isGreeter (ha : a.IsCast roster w.actors w.cast)
    (hw : w.IsOfGreeters roster) (hshared : a.SharesCounter) {i : Nat} {t : Task Mind}
    (ht : a.tasks[i]? = some t) :
    ∃ b s g, w.cast[i]? = some b ∧ b ∈ w.actors ∧ t.IsGreeter roster b i s g := by
  obtain ⟨b, hb, kind, s, mind, hs, ⟨loop, site, site', hbuilt⟩, rfl⟩ := ha.plays i t ht
  have hmem := w.mem_actors_of_mem_cast (List.mem_of_getElem? hb)
  obtain rfl : kind = .greeter := Option.some.inj (hs.found.symm.trans (hw b hmem))
  obtain ⟨messages, ref, hmessages, rfl, -, -, -⟩ := Kind.greeter_eq_ok hbuilt
  exact ⟨b, s, _, hb, hmem, ⟨hs, hmessages, rfl⟩,
    hshared.counters _ (List.mem_of_getElem? ht) _ rfl, rfl, rfl⟩

theorem Assembly.IsCast.greeter (ha : a.IsCast roster w.actors w.cast) (hw : w.IsGreeting roster)
    (hshared : a.SharesCounter) {i : Nat} {t : Task Mind} (ht : a.tasks[i]? = some t) :
    ∃ b s g, w.cast[i]? = some b ∧ b ∈ w.actors ∧ t.IsGreeter roster b i s g :=
  ha.isGreeter hw.isOfGreeters hshared ht

end

/-! ### Systems of greeters -/

namespace Sink

/-- What an actor has recorded, apart from the times. -/
def eventsOf (k : Sink) (id : Nat) : List Event :=
  (k.events.filter fun e => e.id = id).map Event.timeless

theorem eventsOf_append {k k' : Sink} {es : List Event} {i : Nat}
    (h : k'.events = k.events ++ es) (hes : ∀ e ∈ es, e.id = i) (j : Nat) :
    k'.eventsOf j = if j = i then k.eventsOf j ++ es.map Event.timeless else k.eventsOf j := by
  rw [eventsOf, h, List.filter_append, List.map_append]
  split
  · next hj =>
    have hall : es.filter (fun e => e.id = j) = es :=
      List.filter_eq_self.2 fun e he => by simp [hes e he, hj]
    rw [hall]
    rfl
  · next hj =>
    have hnone : es.filter (fun e => e.id = j) = [] :=
      List.filter_eq_nil_iff.2 fun e he => by simpa [hes e he] using Ne.symm hj
    rw [hnone]
    exact List.append_nil _

end Sink

namespace System

/-- How many greetings have been added to the counter but not recorded. -/
def owing (s : System Mind) : Nat := (s.tasks.map Task.owing).sum

theorem owing_set {tasks : List (Task Mind)} {i : Nat} {t : Task Mind} (ht : tasks[i]? = some t)
    (u : Task Mind) :
    ((tasks.set i u).map Task.owing).sum + t.owing = (tasks.map Task.owing).sum + u.owing := by
  induction tasks generalizing i with
  | nil => cases ht
  | cons t' tasks ih =>
    cases i with
    | zero =>
      cases ht
      simp only [List.set_cons_zero, List.map_cons, List.sum_cons]
      omega
    | succ i =>
      have := ih ht
      simp only [List.set_cons_succ, List.map_cons, List.sum_cons]
      omega

/-- A system of greeters with one counter, none of which has begun. -/
structure IsGreeting (s : System Mind) : Prop where
  ready : s.IsReady
  regular : ∀ t ∈ s.tasks, t.IsRegular
  store : s.world.store = .counting 0 ∨ s.tasks = [] ∧ s.world.store = .empty
  silent : s.world.sink.events = []
  greeters : ∀ (i : Nat) (t : Task Mind), s.tasks[i]? = some t → ∃ g p, t.mind = .greeter g ∧
    g.step = .seeking ∧ g.counter = 0 ∧ g.operation.id = i ∧ t.loop = some p ∧
    t.stage = .waiting ∧ p.schedule.FitsIn s.world.barrier ∧
    ∀ plan ∈ p.schedule.busy, plan.IsCounted

/-- The greeters have counted and recorded what they should have by now. -/
structure Tells (s₀ : System Mind) (ls : List Label) (s : System Mind) : Prop where
  store : s.world.store = .counting (s.world.sink.events.length + s.owing) ∨
    s₀.tasks = [] ∧ s.world.store = .empty
  ids : ∀ e ∈ s.world.sink.events, e.id < s₀.tasks.length
  greets : ∀ (i : Nat) (t₀ t : Task Mind) (g : Greeter), s₀.tasks[i]? = some t₀ →
    t₀.mind = .greeter g → s.tasks[i]? = some t →
    t.Greets g (s₀.handouts i ls) (s.world.sink.eventsOf i)

variable {s₀ s s' : System Mind} {ls : List Label} {l : Label}

theorem IsGreeting.tells (hs : s₀.IsGreeting) : s₀.Tells [] s₀ := by
  have hnew : ∀ (i : Nat) (t : Task Mind), s₀.tasks[i]? = some t →
      ∃ g, t.mind = .greeter g ∧ t.Greets g [] [] := by
    intro i t ht
    obtain ⟨g, p, hm, hstep, -, -, hp, hs, -, -⟩ := hs.greeters i t ht
    have hseeking : t.mind = .greeter { g with message := g.message, step := .seeking } := by
      rw [hm, ← hstep]
    exact ⟨g, hm, .seeks hseeking hp (.inl hs) rfl⟩
  have howing : s₀.owing = 0 := by
    refine List.sum_eq_zero fun n hn => ?_
    obtain ⟨t, ht, rfl⟩ := List.mem_map.1 hn
    obtain ⟨i, hi⟩ := List.getElem?_of_mem ht
    obtain ⟨g, p, hm, hstep, -⟩ := hs.greeters i t hi
    rw [Task.owing_eq hm, Greeter.owing, hstep]
  refine ⟨?_, by simp [hs.silent], fun i t₀ u g ht₀ hm ht => ?_⟩
  · rw [hs.silent, howing]
    exact hs.store.imp_right fun h => h
  · cases ht₀.symm.trans ht
    obtain ⟨g', hm', hgreets⟩ := hnew i t₀ ht
    cases hm.symm.trans hm'
    rw [Sink.eventsOf, hs.silent]
    exact hgreets

/-- A move that the greeters have no part in. -/
theorem Tells.frame (h : s₀.Tells ls s) (htasks : s'.tasks = s.tasks)
    (hstore : s'.world.store = s.world.store)
    (hsink : s'.world.sink.events = s.world.sink.events)
    (hdealt : ∀ i, (s₀.run ls).dealt i l = []) : s₀.Tells (ls ++ [l]) s' := by
  refine ⟨?_, by rw [hsink]; exact h.ids, fun i t₀ t g ht₀ hm ht => ?_⟩
  · rw [hstore, hsink, owing, htasks]
    exact h.store
  · rw [htasks] at ht
    rw [handouts_snoc, hdealt, List.append_nil, Sink.eventsOf, hsink]
    exact h.greets i t₀ t g ht₀ hm ht

/-- A step of a greeter. -/
theorem Tells.act (hs : s₀.IsGreeting) (h : s₀.Tells ls (s₀.run ls)) {i : Nat} {t : Task Mind}
    (ht : (s₀.run ls).tasks[i]? = some t)
    (hr : (s₀.run (ls ++ [.act i])).world.barrier.signal.halt = .running) :
    s₀.Tells (ls ++ [.act i]) (s₀.run (ls ++ [.act i])) := by
  have hbooks := hs.ready.balanced_run ls
  have hi : i < s₀.tasks.length := hbooks.length ▸ (List.getElem?_eq_some_iff.1 ht).1
  have ht₀ := List.getElem?_eq_getElem hi
  obtain ⟨g, p, hm, -, hcounter, hid, hp, -, hfit, hcounted⟩ := hs.greeters i _ ht₀
  have hseat : i ∈ s₀.seats := (mem_seats_of_getElem? ht₀).2 (by rw [hp]; rfl)
  have hbefore := running_of_snoc hr
  have hdealt := hs.ready.isDealt_run hbefore ht₀ hp hfit ht
  have hnum := ((hs.ready.tasks _ (List.mem_of_getElem? ht₀)).loop p hp).numbered
  rw [run_snoc, fire_act ht] at hr ⊢
  obtain ⟨n, es, hadds, hgreets⟩ := (h.greets i _ t g ht₀ hm ht).step hcounter hnum hcounted
    hdealt.schedule (isRegular_run hs.regular ls t (List.mem_of_getElem? ht)) hbooks.honest
    (hbooks.counts hseat) (hbooks.fits i t ht hseat) hbefore hr
  have hids : ∀ e ∈ es, e.id = i := fun e he => (hadds.ids e he).trans hid
  refine ⟨?_, fun e he => ?_, fun j t₀ u g' ht₀' hm' hu => ?_⟩
  · rcases h.store with hstore | ⟨hnone, -⟩
    · left
      have hsum := owing_set ht (t.step (s₀.run ls).world).task
      have howing := hadds.owing
      rw [hadds.store _ hstore, hadds.events, List.length_append]
      congr 1
      simp only [owing]
      omega
    · rw [hnone] at hi
      exact absurd hi (Nat.not_lt_zero i)
  · rw [hadds.events] at he
    rcases List.mem_append.1 he with he | he
    · exact h.ids e he
    · rw [hids e he]
      exact hi
  · rw [Sink.eventsOf_append hadds.events hids, handouts_snoc]
    obtain ⟨rfl, rfl⟩ | ⟨hne, hu⟩ := of_getElem?_set hu
    · cases ht₀.symm.trans ht₀'
      cases hm.symm.trans hm'
      rw [if_pos rfl, dealt_self ht]
      exact hgreets
    · rw [if_neg hne, dealt_of_ne fun he => hne (Label.act.inj he).symm, List.append_nil]
      exact h.greets j t₀ u g' ht₀' hm' hu

/-- **While a run goes on, its greeters have counted and recorded what they should have**, whatever
order the moves come in. -/
theorem IsGreeting.tells_run (hs : s₀.IsGreeting) (hls : ∀ i, Label.interrupt i ∉ ls)
    (hr : (s₀.run ls).world.barrier.signal.halt = .running) : s₀.Tells ls (s₀.run ls) := by
  induction ls using List.reverseRecOn with
  | nil => exact hs.tells
  | append_singleton ls l ih =>
    have hbefore := ih (fun i hi => hls i (List.mem_append_left _ hi)) (running_of_snoc hr)
    have hquiet (hl : ∀ i, l ≠ .act i) (i : Nat) : (s₀.run ls).dealt i l = [] :=
      dealt_of_ne (hl i)
    cases l with
    | act i =>
      cases ht : (s₀.run ls).tasks[i]? with
      | none =>
        rw [run_snoc, fire, act, onTask_of_none ht]
        refine hbefore.frame rfl rfl rfl fun j => ?_
        by_cases hj : i = j
        · simp [dealt, ← hj, ht]
        · exact dealt_of_ne fun he => hj (Label.act.inj he)
      | some t => exact hbefore.act hs ht hr
    | interrupt i => exact absurd (List.mem_append_right _ (List.mem_singleton_self _)) (hls i)
    | work => rw [run_snoc]; exact hbefore.frame rfl rfl rfl (hquiet (by rintro _ ⟨⟩))
    | stop => rw [run_snoc]; exact hbefore.frame rfl rfl rfl (hquiet (by rintro _ ⟨⟩))
    | requestEnd k => rw [run_snoc]; exact hbefore.frame rfl rfl rfl (hquiet (by rintro _ ⟨⟩))
    | abort f => rw [run_snoc]; exact hbefore.frame rfl rfl rfl (hquiet (by rintro _ ⟨⟩))
    | tick now => rw [run_snoc]; exact hbefore.frame rfl rfl rfl (hquiet (by rintro _ ⟨⟩))

/-! ### When the run has ended -/

/-- A run that ends well and has not been stopped has not been halted. -/
theorem running_of_conclude {σ : Type} {s : System σ} {summary : Summary}
    (hb : s.world.barrier.IsHonest) (hok : conclude s = .ok summary)
    (hstop : summary.stopped = false) : s.world.barrier.signal.halt = .running := by
  unfold conclude at hok
  split at hok
  · cases hok
  · next hfailure =>
    split at hok
    · cases hok
    · cases hok
      cases hhalt : s.world.barrier.signal.halt with
      | running => rfl
      | stopped => simp [Barrier.isStopped, hhalt] at hstop
      | aborted =>
        have := hb.1 hhalt
        rw [hfailure] at this
        cases this

/-- At its end each greeter has recorded what its schedule asks for, and nothing is owed. -/
theorem IsGreeting.of_isOver (hs : s₀.IsGreeting) (hls : ∀ i, Label.interrupt i ∉ ls)
    (hr : (s₀.run ls).world.barrier.signal.halt = .running) (hover : (s₀.run ls).isOver = true) :
    (s₀.run ls).owing = 0 ∧ ∀ (i : Nat) (t₀ : Task Mind) (g : Greeter) (p : Participant),
      s₀.tasks[i]? = some t₀ → t₀.mind = .greeter g → t₀.loop = some p →
      (s₀.run ls).world.sink.eventsOf i = p.schedule.busy.flatMap g.tale := by
  have hlength := (hs.ready.balanced_run ls).length
  have htells := hs.tells_run hls hr
  have hend (i : Nat) (t : Task Mind) (ht : (s₀.run ls).tasks[i]? = some t) :
      t.owing = 0 ∧ ∀ (t₀ : Task Mind) (g : Greeter) (p : Participant), s₀.tasks[i]? = some t₀ →
        t₀.mind = .greeter g → t₀.loop = some p →
        (s₀.run ls).world.sink.eventsOf i = p.schedule.busy.flatMap g.tale := by
    have hi : i < s₀.tasks.length := hlength ▸ (List.getElem?_eq_some_iff.1 ht).1
    have ht₀ := List.getElem?_eq_getElem hi
    obtain ⟨g, p, hm, -, -, -, hp, -, hfit, -⟩ := hs.greeters i _ ht₀
    have hres : t.result?.isSome = true := List.all_eq_true.1 hover t (List.mem_of_getElem? ht)
    obtain ⟨res, hres⟩ := Option.isSome_iff_exists.1 hres
    have hstage := result?_eq_some_iff.1 hres
    -- whoever has come to its end well has been told that there are no more phases
    cases htells.greets i _ t g ht₀ hm ht with
    | seeks _ _ hst _ => simp [hstage] at hst
    | works hw _ _ =>
      obtain ⟨_, _, _, _, _, hpos⟩ := hw.position
      have := hpos.isAtWork
      rw [hstage] at this
      cases this
    | fails hf => cases hf <;> simp_all
    | ends hmind _ hnone he =>
      refine ⟨Task.owing_eq hmind, fun t₀ g' p' ht₀' hm' hp' => ?_⟩
      cases ht₀.symm.trans ht₀'
      cases hm.symm.trans hm'
      cases hp.symm.trans hp'
      obtain ⟨m, hdeals⟩ := (hs.ready.isDealt_run hr ht₀ hp hfit ht).dealt
      obtain ⟨n, hout⟩ := hdeals.of_none_mem hnone
      rw [he, hout, Greeter.tales, List.flatMap_append, List.flatMap_map]
      simp [List.flatMap_replicate]
  refine ⟨List.sum_eq_zero fun n hn => ?_, fun i t₀ g p ht₀ => ?_⟩
  · obtain ⟨t, ht, rfl⟩ := List.mem_map.1 hn
    obtain ⟨i, hi⟩ := List.getElem?_of_mem ht
    exact (hend i t hi).1
  · have hi : i < (s₀.run ls).tasks.length := hlength ▸ (List.getElem?_eq_some_iff.1 ht₀).1
    exact (hend i _ (List.getElem?_eq_getElem hi)).2 t₀ g p ht₀

end System

section

variable {roster : Roster} {w : Workload} {a : Assembly} {sink : Sink}

/-- What has been set up for a workload of greeters is a system of greeters. -/
theorem Assembly.IsCast.isGreeting (ha : a.IsCast roster w.actors w.cast)
    (hw : w.IsGreeting roster) (hshared : a.SharesCounter) (hsink : sink.accepted = []) :
    ((a.system sink).onBarrier Barrier.launch).IsGreeting where
  ready := (ha.isReady sink).launch
  regular := ha.isRegular
  store := hshared.store
  silent := by
    change sink.events = []
    rw [Sink.events, hsink]
    rfl
  greeters := by
    intro i t ht
    obtain ⟨b, s, g, hb, hmem, hg⟩ := ha.greeter hw hshared ht
    have hnum := Schedule.isNumbered_ofBlock hg.built.setting.schedule
    obtain rfl := hg.fresh
    refine ⟨g, _, rfl, hg.step, hg.counter, by rw [hg.built.operation], rfl, rfl,
      ha.fitsIn hmem hg.built.setting, fun plan hplan => ?_⟩
    -- the plan is that of an entry, and is counted like it
    have hvalue := List.mem_of_mem_filter hplan
    obtain ⟨d, hd, hentry⟩ := (Schedule.mem_values_ofBlock hg.built.setting.schedule).1 hvalue
    exact (PhasePlan.ofEntry_isCounted
      ((hw b hmem).phases d.1 (Block.mem_phases_of_mem_described hd)) hentry).2.2
      ((Schedule.mem_busy_iff hnum).1 hplan).2

end

/-- All events are those of the actors taken together. -/
theorem Sink.flatMap_eventsOf (k : Sink) {n : Nat} (h : ∀ e ∈ k.events, e.id < n) :
    ((List.range n).flatMap k.eventsOf).Perm (k.events.map Event.timeless) := by
  have hsplit (n : Nat) (es : List Event) (h : ∀ e ∈ es, e.id < n) :
      ((List.range n).flatMap fun i => es.filter fun e => e.id = i).Perm es := by
    induction n generalizing es with
    | zero =>
      rw [List.eq_nil_iff_forall_not_mem.2 fun e he => Nat.not_lt_zero _ (h e he)]
      rfl
    | succ n ih =>
      -- the events of actor `n` apart, and all others
      have hothers : ∀ i ∈ List.range n, (es.filter fun e => e.id = i) =
          (es.filter fun e => !decide (e.id = n)).filter fun e => e.id = i := by
        intro i hi
        rw [List.filter_filter]
        refine List.filter_congr fun e _ => ?_
        have := List.mem_range.1 hi
        by_cases he : e.id = i
        · simp [he, this.ne]
        · simp [he]
      rw [List.range_succ, List.flatMap_append, List.flatMap_congr hothers, List.flatMap_singleton]
      refine ((ih _ fun e he => ?_).append_right _).trans
        (List.perm_append_comm.trans (List.filter_append_perm _ es))
      obtain ⟨hmem, hne⟩ := List.mem_filter.1 he
      exact (Nat.lt_succ_iff.1 (h e hmem)).lt_of_ne (by simpa using hne)
  have hmap := (hsplit n k.events h).map Event.timeless
  rw [List.map_flatMap] at hmap
  exact hmap

/-- Of all that an actor is to record, what belongs to one phase. -/
theorem Block.filter_greetings {b : Block} (hb : (b.described.map Prod.snd).Nodup) (id : Nat)
    {d : PhaseItem × Nat} (hd : d ∈ b.described) :
    (b.greetings id).filter (fun e => e.phase = some d.2) = b.greetingsIn id d := by
  have hone (d' : PhaseItem × Nat) : (b.greetingsIn id d').filter (fun e => e.phase = some d.2) =
      if d'.2 = d.2 then b.greetingsIn id d' else [] := by
    rw [greetingsIn, List.filter_replicate]
    simp [Event.greeting]
  rw [greetings, List.filter_flatMap]
  simp only [hone]
  generalize b.described = ds at hb hd
  induction ds with
  | nil => cases hd
  | cons d' ds ih =>
    obtain ⟨hnew, hds⟩ := List.nodup_cons.1 hb
    have hnone (hk : d'.2 = d.2) : (ds.flatMap fun d' =>
        if d'.2 = d.2 then b.greetingsIn id d' else []) = [] := by
      refine List.flatMap_eq_nil_iff.2 fun d'' hd'' => if_neg fun hk' => hnew ?_
      rw [hk, ← hk']
      exact List.mem_map_of_mem hd''
    rw [List.flatMap_cons]
    rcases List.mem_cons.1 hd with rfl | hd
    · rw [if_pos rfl, hnone rfl, List.append_nil]
    · have hk : d'.2 ≠ d.2 := fun hk => hnew (hk ▸ List.mem_map_of_mem hd)
      rw [if_neg hk, List.nil_append, ih hds hd]

namespace System

/-- **A run of greeters that ends well has counted and recorded exactly the greetings that its
workload asks for.**  Each actor has recorded, in each phase, as many as the phase wants, each of
them as one document with the greeting of that phase; and the counter shows how many there are in
all, wrapping around.  Only the times of the events depend on the order of the moves.

Greeters wait for whatever they have asked for, so no move calls one of them away.  The sink may be
any one that is empty: had it refused an event, the run would not have ended well. -/
theorem no_lost_updates {roster : Roster} {w : Workload} {a : Assembly} {sink : Sink}
    {ls : List Label} {summary : Summary} (hw : w.IsGreeting roster)
    (hset : setUp roster w .empty = (.ok (), a)) (hroom : Block.headcount w.actors < wordLimit)
    (hsink : sink.accepted = []) (hls : ∀ i, Label.interrupt i ∉ ls)
    (hover : (((a.system sink).onBarrier Barrier.launch).run ls).isOver = true)
    (hok : conclude (((a.system sink).onBarrier Barrier.launch).run ls) = .ok summary)
    (hstop : summary.stopped = false) :
    let s := ((a.system sink).onBarrier Barrier.launch).run ls
    s.world.store.greetings? = some (.counter (wrapSigned w.rounds)) ∧
    (s.world.sink.events.map Event.timeless).Perm w.greetings ∧
    ∀ i b, w.cast[i]? = some b → ∀ d ∈ b.described,
      (s.world.sink.events.filter fun e => e.id = i ∧ e.phase = some d.2).map Event.timeless =
        List.replicate d.1.rounds
          (.greeting (b.name.getD Kind.greeter.defaultName) i d.2 (b.greeting d.1)) := by
  intro s
  have hcast := Assembly.isCast_setUp hw.takesPart hroom hset
  have hshared := Assembly.sharesCounter_setUp hw hset
  have hgreeting := hcast.isGreeting hw hshared hsink
  have hr := running_of_conclude (hgreeting.ready.balanced_run ls).honest hok hstop
  have htells := hgreeting.tells_run hls hr
  obtain ⟨howing, hall⟩ := hgreeting.of_isOver hls hr hover
  -- every actor has recorded what its block asks for
  have hevents (i : Nat) (b : Block) (hb : w.cast[i]? = some b) :
      (s.world.sink.eventsOf i).Perm (b.greetings i) ∧ (b.described.map Prod.snd).Nodup := by
    have hi : i < a.tasks.length := hcast.length ▸ (List.getElem?_eq_some_iff.1 hb).1
    have ht := List.getElem?_eq_getElem hi
    obtain ⟨b', setting, g, hb', hmem, hg⟩ := hcast.greeter hw hshared ht
    cases hb.symm.trans hb'
    have hevents := hall i _ g _ ht (by rw [hg.fresh]; rfl) (by rw [hg.fresh]; rfl)
    refine ⟨?_, (Schedule.keys_ofBlock hg.built.setting.schedule).nodup_iff.1 ?_⟩
    · rw [hevents]
      exact hg.built.tales_perm (hw b hmem)
    · exact (List.pairwise_map.2 setting.schedule.sorted).imp fun hlt => Nat.ne_of_lt hlt
  have hperm : (s.world.sink.events.map Event.timeless).Perm w.greetings := by
    have hids : ∀ e ∈ s.world.sink.events, e.id < w.cast.length := by
      rw [← hcast.length]
      exact htells.ids
    have hplaces : List.range w.cast.length = w.cast.zipIdx.map Prod.snd := by
      rw [List.zipIdx_map_snd, List.range_eq_range']
    refine (s.world.sink.flatMap_eventsOf hids).symm.trans ?_
    rw [hplaces, List.flatMap_map]
    exact List.Perm.flatMap_left _ fun c hc => (hevents c.2 c.1 (List.mem_zipIdx_iff_getElem?.1 hc)).1
  refine ⟨?_, hperm, fun i b hb d hd => ?_⟩
  · have hcount : s.world.sink.events.length = w.rounds := by
      rw [← w.length_greetings, ← hperm.length_eq, List.length_map]
    rcases htells.store with hstore | ⟨hnone, hstore⟩
    · rw [hstore, howing, Nat.add_zero, hcount]
      exact Store.greetings?_counting _
    · have hnobody : w.cast = [] :=
        List.eq_nil_of_length_eq_zero (hcast.length.symm.trans (congrArg List.length hnone))
      rw [hstore, ← w.length_greetings, Workload.greetings, hnobody]
      exact Store.greetings?_empty
  · obtain ⟨hmine, hnodup⟩ := hevents i b hb
    have hphase := hmine.filter fun e => e.phase = some d.2
    rw [Block.filter_greetings hnodup i hd, Block.greetingsIn, List.perm_replicate] at hphase
    rw [← hphase, Sink.eventsOf, List.filter_map, List.filter_filter]
    congr 1
    refine List.filter_congr fun e _ => ?_
    change decide (e.id = i ∧ e.phase = some d.2) =
      (decide (e.phase = some d.2) && decide (e.id = i))
    rw [Bool.decide_and, Bool.and_comm]

/-- The last words of the voices in a choir. -/
def lastWords : PhaseItem where
  repeats := some 1
  params := [("Message", .string "Bonjour")]

/-- Two voices that greet twice in phase 0, and once with other words in phase 2. -/
def voices : Block :=
  ⟨"HelloWorld", some "voice", 2, [{ repeats := some 2 }, { nop := true }, lastWords],
    [("Message", .string "Hallo")]⟩

/-- One that greets in phase 1 alone. -/
def soloist : Block :=
  ⟨"HelloWorld", none, 1, [{ phase := some (.number 1), repeats := some 1 }], []⟩

/-- The voices and the soloist. -/
def choir : Workload where
  actors := [voices, soloist]

/-- The choir with everything set up. -/
def choirAssembly : Assembly := (setUp .builtin choir .empty).2

/-- All of them take turns until they have come to their end. -/
def choirTurns : List Label := (List.replicate 100 [.act 0, .act 1, .act 2]).flatten

theorem isGreeting_choir : choir.IsGreeting .builtin := by
  have hempty : Toml.Table.IsKeyed [] := List.nodup_nil
  have hsingle (v : Toml.Value) : Toml.Table.IsKeyed [("Message", v)] := List.nodup_singleton _
  intro b hb
  rcases List.mem_pair.1 hb with rfl | rfl
  · refine ⟨rfl, ?_, hsingle _, ?_⟩
    · rintro e (_ | ⟨_, _ | ⟨_, _ | ⟨_, ⟨⟩⟩⟩⟩)
      · exact .inr ⟨rfl, rfl, rfl, rfl⟩
      · exact .inl rfl
      · exact .inr ⟨rfl, rfl, rfl, rfl⟩
    · rintro e (_ | ⟨_, _ | ⟨_, _ | ⟨_, ⟨⟩⟩⟩⟩)
      · exact hempty
      · exact hempty
      · exact hsingle _
  · refine ⟨rfl, ?_, hempty, ?_⟩
    · rintro e (_ | ⟨_, ⟨⟩⟩)
      exact .inr ⟨rfl, rfl, rfl, rfl⟩
    · rintro e (_ | ⟨_, ⟨⟩⟩)
      exact hempty

theorem setUp_choir : setUp .builtin choir .empty = (.ok (), choirAssembly) :=
  Assembly.setUp_eq_ok (by decide +kernel)

/-- Seven greetings in all; and the last words of the second voice. -/
theorem no_lost_updates_choir :
    choir.IsGreeting .builtin ∧ setUp .builtin choir .empty = (.ok (), choirAssembly) ∧
    Block.headcount choir.actors = 3 ∧
    let s := ((choirAssembly.system .memory).onBarrier Barrier.launch).run choirTurns
    s.isOver = true ∧ (∃ summary, conclude s = .ok summary ∧ summary.stopped = false) ∧
    s.world.store.greetings? = some (.counter 7) ∧
    (s.world.sink.events.map Event.timeless).Perm choir.greetings ∧
    (s.world.sink.events.filter fun e => e.id = 1 ∧ e.phase = some 2).map Event.timeless =
      [.greeting "voice" 1 2 "Bonjour"] := by
  have hover : (((choirAssembly.system .memory).onBarrier Barrier.launch).run choirTurns).isOver =
      true := by decide +kernel
  have hwell : (conclude (((choirAssembly.system .memory).onBarrier Barrier.launch).run
      choirTurns)).toOption.any (fun summary => !summary.stopped) = true := by decide +kernel
  obtain ⟨summary, hok, hstop⟩ : ∃ summary, conclude (((choirAssembly.system .memory).onBarrier
      Barrier.launch).run choirTurns) = .ok summary ∧ summary.stopped = false := by
    generalize conclude _ = o at hwell
    cases o with
    | error e => cases hwell
    | ok summary => exact ⟨summary, rfl, by simpa [Except.toOption] using hwell⟩
  have hturns : ∀ i, Label.interrupt i ∉ choirTurns := by
    intro i hi
    obtain ⟨turns, hturns, hi⟩ := List.mem_flatten.1 hi
    rw [List.eq_of_mem_replicate hturns] at hi
    simp at hi
  obtain ⟨hcounter, hperm, hphase⟩ := no_lost_updates isGreeting_choir setUp_choir (by decide) rfl
    hturns hover hok hstop
  have hseven : wrapSigned choir.rounds = 7 := by decide +kernel
  rw [hseven] at hcounter
  have hlast : (lastWords, 2) ∈ voices.described := by
    simp [Block.described, voices, PhaseItem.numbers, lastWords, List.zipIdx]
  refine ⟨isGreeting_choir, setUp_choir, rfl, hover, ⟨summary, hok, hstop⟩, hcounter, hperm, ?_⟩
  rw [hphase 1 voices rfl (lastWords, 2) hlast]
  decide +kernel

end System

end Lockstep
