import Lockstep.Proofs.Draining

/-!
# No event is lost in silence

A sink may refuse any event.  A run of greeters never passes over that.

* `Block.IsUnrated` : a block of greeters no phase of which has a rate;
* `System.IsChorus.conclude_of_accused` : a run that was aborted has failed because of an event that
  was refused, and the error tells what the sink has said to the actor it is about;
* `System.IsChorus.conclude_of_ok` : a run that ends well, stopped or not, has recorded as many
  events as the counter shows;
* `System.refusals_fail` : **all of this for every such workload**, and that a refusal ends the run.
-/

namespace Lockstep

namespace System.IsChorus

variable {s : System Mind} {ls : List Label}

/-- **A run that was aborted has failed because of an event that was refused.**  The error is about
an actor one of whose own events was refused, and tells what the sink has said to that. -/
theorem conclude_of_accused (hs : s.IsChorus) (hls : ∀ l ∈ ls, l.IsCalm)
    (hlength : ls.length < wordLimit) (hover : (s.run ls).isOver = true)
    (hne : (s.record ls).accusations ≠ []) :
    ∃ i t k err, (s.run ls).tasks[i]? = some t ∧
      conclude (s.run ls) = .error (.actorFailed t.name t.id k (.metrics err)) ∧
      ∃ r ∈ s.reports ls, r.task = i ∧ r.answer = .error err := by
  have hanswering := hs.answering_run hls
  obtain ⟨⟨i, f⟩, as, hacc⟩ := List.exists_cons_of_ne_nil hne
  have hhead : (s.record ls).accusations.head? = some (i, f) := by rw [hacc]; rfl
  obtain ⟨t, e, ht, hactor, hid, hresult, hown, herr⟩ :=
    hanswering.conclude_of_cons hs.fresh.ids hover hhead
  obtain ⟨g, p, -, hsings⟩ := hs.singing_run hls t (List.mem_of_getElem? ht)
  have hstage := result?_eq_some_iff.1 hresult
  rcases hsings.of_ended (by rw [hstage]; rfl) with ⟨rfl, -⟩ | ⟨err, rfl, hrefused⟩ | ⟨cause, rfl⟩ |
    ⟨-, hlimit⟩
  · -- somebody who has done well has not aborted the run, for nobody deserts the others
    have hi : i < s.tasks.length := hanswering.length ▸ (List.getElem?_eq_some_iff.1 ht).1
    have hmem : (i, f) ∈ (s.record ls).accusations := List.mem_of_mem_head? hhead
    rcases ((hanswering.tasks i _ t (List.getElem?_eq_getElem hi) ht).accused ⟨f, hmem⟩).2 with
      hdeserted | ⟨res, hres, hculpable⟩
    · rw [hs.desertions_run hls] at hdeserted
      cases hdeserted
    · rw [hstage] at hres
      cases hres
      cases hculpable
  · refine ⟨i, t, f.phase, err, ht, ?_, (hs.refused_run hls ht err).1 hrefused⟩
    rw [herr, ← hactor, ← hid]
    rfl
  · cases hown _ rfl
  · omega

/-- **A run that ends well has lost nothing**, even if it was stopped: the sink has accepted as many
events as have been added to the counter, and that is what the counter shows. -/
theorem conclude_of_ok (hs : s.IsChorus) (hls : ∀ l ∈ ls, l.IsCalm)
    (hover : (s.run ls).isOver = true) {summary : Summary}
    (hok : conclude (s.run ls) = .ok summary) :
    (s.run ls).world.sink.events.length = s.world.sink.events.length + (s.bumps ls).length ∧
    (s.run ls).world.store.greetings? = some (.counter (wrapSigned (s.bumps ls).length)) := by
  have hanswering := hs.answering_run hls
  have hacc : (s.record ls).accusations = [] := by
    by_contra hne
    obtain ⟨⟨i, f⟩, as, hacc⟩ := List.exists_cons_of_ne_nil hne
    obtain ⟨_, _, -, -, -, -, -, herr⟩ := hanswering.conclude_of_cons hs.fresh.ids hover (i := i)
      (f := f) (by rw [hacc]; rfl)
    rw [hok] at herr
    cases herr
  have hinnocent := ((hanswering.accusations_eq_nil_iff hover).1 hacc).1
  have howing : (s.run ls).owing = 0 := by
    refine List.sum_eq_zero fun n hn => ?_
    obtain ⟨t, ht, rfl⟩ := List.mem_map.1 hn
    obtain ⟨i, hi⟩ := List.getElem?_of_mem ht
    obtain ⟨t₀, res, -, hstands, hstage⟩ := hanswering.of_isOver hover hi
    obtain ⟨e, rfl, hexcuse⟩ := hstands.outcome res (by rw [hstage]; rfl)
    have hnot := hinnocent t ht _ (result?_eq_some_iff.2 hstage)
    obtain ⟨g, p, -, hsings⟩ := hs.singing_run hls t ht
    rcases hsings.of_ended (by rw [hstage]; rfl) with ⟨-, hnone⟩ | ⟨err, rfl, -⟩ | ⟨cause, rfl⟩ |
      ⟨⟨message, rfl⟩, -⟩
    · exact hnone
    · cases hnot
    · exact absurd hacc (hexcuse _ rfl rfl).accusations_ne_nil
    · cases hnot
  have hquiet : (s.run ls).world.barrier.isAborted = false := by
    by_contra hno
    exact hanswering.isAborted_iff.1 (by simpa using hno) hacc
  refine ⟨?_, ?_⟩
  · rw [events_run, List.length_append, hs.accounts_run hls hquiet, howing, Nat.add_zero]
  · rcases hs.store_run hls with hstore | ⟨-, hstore, hnone⟩
    · rw [hstore]
      exact Store.greetings?_counting _
    · rw [hstore, hnone]
      exact Store.greetings?_empty

end System.IsChorus

/-! ### Workloads -/

/-- A block of greeters no phase of which has a rate. -/
structure Block.IsUnrated (roster : Roster) (b : Block) : Prop where
  kind : roster.find? b.actorType = some .greeter
  unrated : ∀ e ∈ b.phases, e.globalRate = none
  /-- A parameter is given at most once. -/
  params : b.params.IsKeyed
  phaseParams : ∀ e ∈ b.phases, e.params.IsKeyed
  /-- Every greeting fits into memory. -/
  brief : ∀ e ∈ b.phases, (b.greeting e).utf8ByteSize < wordLimit

/-- Only greeters, and no phase with a rate. -/
def Workload.IsUnrated (w : Workload) (roster : Roster) : Prop :=
  ∀ b ∈ w.actors, b.IsUnrated roster

section

variable {roster : Roster} {w : Workload} {a : Assembly}

/-- What has been set up for such a workload is a chorus. -/
theorem Assembly.IsCast.isChorus (ha : a.IsCast roster w.actors w.cast) (hw : w.IsUnrated roster)
    (hshared : a.SharesCounter) (sink : Sink) :
    ((a.system sink).onBarrier Barrier.launch).IsChorus := by
  have hgreeter {i : Nat} {t : Task Mind} (ht : a.tasks[i]? = some t) :=
    ha.isGreeter (fun b hb => (hw b hb).kind) hshared ht
  have hids : a.tasks.map Task.id = List.range a.tasks.length := by
    refine List.ext_getElem (by simp) fun i hi _ => ?_
    rw [List.length_map] at hi
    obtain ⟨b, s, g, -, -, hg⟩ := hgreeter (List.getElem?_eq_getElem hi)
    rw [List.getElem_map, List.getElem_range, hg.fresh]
    rfl
  have hbarrier := (ha.isReady sink).launch
  refine ⟨⟨hbarrier.failure, ?_, fun t ht => ?_, ?_⟩, rfl, hshared.store, fun t ht => ?_⟩
  · rw [hbarrier.signal]
    rintro ⟨⟩
  · obtain ⟨i, hi⟩ := List.getElem?_of_mem ht
    obtain ⟨b, s, g, -, -, hg⟩ := hgreeter hi
    rw [hg.fresh]
    refine ⟨rfl, rfl, fun p hp => by cases hp; exact ⟨rfl, rfl⟩, ?_⟩
    change Candid (Mind.greeter g)
    refine .map (fun _ => rfl) (fun _ _ _ => rfl) (Greeter.candid fun e he => ?_)
    rw [hg.step] at he
    cases he
  · change (a.tasks.map Task.id).Nodup
    rw [hids]
    exact List.nodup_range
  · obtain ⟨i, hi⟩ := List.getElem?_of_mem ht
    obtain ⟨b, s, g, -, hmem, hg⟩ := hgreeter hi
    have hb := hw b hmem
    refine ⟨g, s.schedule, ⟨hg.counter, Schedule.isNumbered_ofBlock hg.built.setting.schedule,
      ?_, fun plan hplan => ?_⟩, hg.fresh ▸ Task.sings_fresh hg.step _ _ _ _⟩
    · refine ha.forall_busy (P := fun plan => plan.rate = none) ?_ ht (by rw [hg.fresh]; rfl)
      intro b hb e he actor k plan hplan hnop
      rw [(PhasePlan.of_ofEntry hplan hnop).2.2.2]
      exact (hw b (w.mem_actors_of_mem_cast hb)).unrated e he
    · obtain ⟨d, hd, hentry⟩ := (Schedule.mem_values_ofBlock hg.built.setting.schedule).1
        (List.mem_of_mem_filter hplan)
      rw [hg.built.find?_messages hb.params hb.phaseParams hd hentry hplan]
      exact hb.brief d.1 (Block.mem_phases_of_mem_described hd)

end

namespace System

/-- **No event is lost in silence by a run of greeters**, whatever their phases are, as long as none
of them has a rate, and whatever the sink accepts or refuses.

If the sink has refused an event, the run ends, in every schedule in which all actors have a turn
again and again and time goes on; and then it fails with an error about one actor, which tells what
the sink has said when it refused an event of that very actor.  A run that ends well, stopped or
not, has recorded as many events as have been added to the counter.

All this holds in every order of the moves, also when the run is stopped at any time.  Greeters wait
for whatever they have asked for, so no move calls one of them away, and nobody outside aborts the
run.  The phases and the rounds of a phase are counted in words, and a run fails for another reason
when such a count overflows; so there are fewer moves than a word can count. -/
theorem refusals_fail {roster : Roster} {w : Workload} {a : Assembly} (hw : w.IsUnrated roster)
    (hset : setUp roster w .empty = (.ok (), a)) (hroom : Block.headcount w.actors < wordLimit)
    (sink : Sink) :
    let s₀ := (a.system sink).onBarrier Barrier.launch
    (∀ ls : List Label, (∀ l ∈ ls, l.IsCalm) → (s₀.run ls).isOver = true →
      ((∃ r ∈ s₀.reports ls, ∃ e, r.answer = .error e) → ls.length < wordLimit →
        ∃ i t k err, (s₀.run ls).tasks[i]? = some t ∧
          conclude (s₀.run ls) = .error (.actorFailed t.name t.id k (.metrics err)) ∧
          ∃ r ∈ s₀.reports ls, r.task = i ∧ r.answer = .error err) ∧
      (∀ summary, conclude (s₀.run ls) = .ok summary →
        (s₀.run ls).world.sink.events.length = sink.events.length + (s₀.bumps ls).length ∧
        (s₀.run ls).world.store.greetings? =
          some (.counter (wrapSigned (s₀.bumps ls).length)))) ∧
    ∀ f : Nat → Label, (∀ n, (f n).IsCalm) → Label.IsFair (Block.headcount w.actors) f → ∀ n,
      (∃ r ∈ s₀.reports (Label.firstMoves f n), ∃ e, r.answer = .error e) →
        ∃ m ≥ n, (s₀.run (Label.firstMoves f m)).isOver = true := by
  intro s₀
  have hgreeters : w.IsOfGreeters roster := fun b hb => (hw b hb).kind
  have hcast := Assembly.isCast_setUp hgreeters.takesPart hroom hset
  have hs : s₀.IsChorus := hcast.isChorus hw (hgreeters.sharesCounter hset) sink
  refine ⟨fun ls hls hover => ⟨?_, fun summary hok => hs.conclude_of_ok hls hover hok⟩, ?_⟩
  · rintro ⟨r, hr, e, herr⟩ hlength
    obtain ⟨t, ht⟩ := hs.task_of_mem_reports hls hr
    have hend := List.all_eq_true.1 hover t (List.mem_of_getElem? ht)
    exact hs.conclude_of_accused hls hlength hover (hs.accusations_ne_nil hls hr herr ht hend)
  · rintro f hf hfair n ⟨r, hr, e, herr⟩
    have hcount : s₀.tasks.length = Block.headcount w.actors :=
      hcast.length.trans w.length_cast
    exact hs.ends_of_refused hf (hcount ▸ hfair) hr herr

theorem isUnrated_choir : choir.IsUnrated .builtin := by
  intro b hb
  have hgreeting := isGreeting_choir b hb
  refine ⟨hgreeting.kind, ?_, hgreeting.params, hgreeting.phaseParams, ?_⟩
  · rcases List.mem_pair.1 hb with rfl | rfl <;> decide +kernel
  · rcases List.mem_pair.1 hb with rfl | rfl <;> decide +kernel

/-- The third greeting of the choir is refused; with a better sink nothing is lost. -/
theorem refusals_fail_choir :
    choir.IsUnrated .builtin ∧ setUp .builtin choir .empty = (.ok (), choirAssembly) ∧
    Block.headcount choir.actors = 3 ∧
    let s := (choirAssembly.system (.limited 2)).onBarrier Barrier.launch
    let s' := (choirAssembly.system .memory).onBarrier Barrier.launch
    (s.run choirTurns).isOver = true ∧
    (∃ i t k err, (s.run choirTurns).tasks[i]? = some t ∧
      conclude (s.run choirTurns) = .error (.actorFailed t.name t.id k (.metrics err)) ∧
      ∃ r ∈ s.reports choirTurns, r.task = i ∧ r.answer = .error err) ∧
    (∃ m ≥ 200, (s.run (Label.firstMoves (Label.roundRobin 3) m)).isOver = true) ∧
    (s'.bumps choirTurns).length = 7 ∧ (s'.run choirTurns).world.sink.events.length = 7 := by
  have hheads : Block.headcount choir.actors = 3 := rfl
  have hrefused {rs : List Recording} (h : rs.any (fun r => !r.isAccepted) = true) :
      ∃ r ∈ rs, ∃ e, r.answer = .error e := by
    obtain ⟨r, hr, hno⟩ := List.any_eq_true.1 h
    refine ⟨r, hr, ?_⟩
    cases ha : r.answer with
    | ok _ => rw [Recording.isAccepted, ha] at hno; cases hno
    | error e => exact ⟨e, rfl⟩
  have hcalm : ∀ l ∈ choirTurns, l.IsCalm := by
    intro l hl
    obtain ⟨turns, hturns, hl⟩ := List.mem_flatten.1 hl
    rw [List.eq_of_mem_replicate hturns] at hl
    simp only [List.mem_cons, List.not_mem_nil, or_false] at hl
    rcases hl with rfl | rfl | rfl <;> trivial
  have hover : (((choirAssembly.system (.limited 2)).onBarrier Barrier.launch).run
      choirTurns).isOver = true := by decide +kernel
  have hover' : (((choirAssembly.system .memory).onBarrier Barrier.launch).run choirTurns).isOver =
      true := by decide +kernel
  have hseven : (((choirAssembly.system .memory).onBarrier Barrier.launch).bumps
      choirTurns).length = 7 := by decide +kernel
  obtain ⟨summary, hok⟩ : ∃ summary, conclude (((choirAssembly.system .memory).onBarrier
      Barrier.launch).run choirTurns) = .ok summary := by
    have hwell : (conclude (((choirAssembly.system .memory).onBarrier Barrier.launch).run
        choirTurns)).isOk = true := by decide +kernel
    generalize conclude _ = o at hwell
    cases o with
    | error e => cases hwell
    | ok summary => exact ⟨summary, rfl⟩
  obtain ⟨hends, hfair⟩ :=
    refusals_fail isUnrated_choir setUp_choir (hheads.trans_lt (by decide)) (.limited 2)
  obtain ⟨hwhole, -⟩ :=
    refusals_fail isUnrated_choir setUp_choir (hheads.trans_lt (by decide)) .memory
  refine ⟨isUnrated_choir, setUp_choir, hheads, hover, ?_, ?_, hseven, ?_⟩
  · exact (hends choirTurns hcalm hover).1 (hrefused (by decide +kernel)) (by decide +kernel)
  · exact hfair _ (Label.isCalm_roundRobin 3) (Label.isFair_roundRobin 3) 200
      (hrefused (by decide +kernel))
  · rw [((hwhole choirTurns hcalm hover').2 summary hok).1, hseven]
    rfl

end System

end Lockstep
