import Lockstep.Metrics.Relay
import Lockstep.Proofs.TallyMerge

/-!
# The background adds up what was sent

However the steps of the background fall between those of the senders, no event is lost and none is
counted twice.

* `Collector.contents` : what a collector has handed on, has in hand and has before it, in order; a
  step does not change it;
* `Collector.IsBounded` : no batch is empty or too long;
* `Background.outlook` : the tally there will be once everything that waits is added up; a step does
  not change it, and a whole turn comes to it;
* `Relay.IsFaithful` : what holds of a sink and its background at any time;
* `Relay.background_faithful` : **the background returns the tally of exactly the events sent**.
-/

namespace Lockstep

namespace Collector

variable {α : Type} {size : Nat} {c c' : Collector α}

/-- What has been handed on, what is in hand, and what waits. -/
def contents (c : Collector α) : List α := c.batches.flatten ++ c.batch ++ c.queue

/-- How many steps the collector can take at most before it waits. -/
def left (c : Collector α) : Nat := 2 * c.queue.length + if c.batch = [] then 0 else 1

/-- No batch is empty, and none is longer than the size allows, or than a single item. -/
structure IsBounded (size : Nat) (c : Collector α) : Prop where
  batches : ∀ b ∈ c.batches, b ≠ [] ∧ b.length ≤ max size 1
  batch : c.batch.length ≤ max size 1

/-- What a step does: it takes the first item, takes one more, or hands on the batch. -/
theorem step_cases (h : c.step size = some c') :
    (∃ a queue, c.queue = a :: queue ∧ (c.batch = [] ∨ c.batch.length < size) ∧
      c' = { c with queue, batch := c.batch ++ [a] }) ∨
    (c.batch ≠ [] ∧ c' = c.handOn) := by
  obtain ⟨queue, batch, batches⟩ := c
  cases batch with
  | nil =>
    cases queue with
    | nil => cases h
    | cons a queue => exact .inl ⟨a, queue, rfl, .inl rfl, (Option.some.inj h).symm⟩
  | cons b bs =>
    cases queue with
    | nil => exact .inr ⟨List.cons_ne_nil b bs, (Option.some.inj h).symm⟩
    | cons a queue =>
      by_cases hsize : (b :: bs).length < size
      · simp only [step, if_pos hsize] at h
        exact .inl ⟨a, queue, rfl, .inr hsize, (Option.some.inj h).symm⟩
      · simp only [step, if_neg hsize] at h
        exact .inr ⟨List.cons_ne_nil b bs, (Option.some.inj h).symm⟩

theorem step_eq_none_iff : c.step size = none ↔ c.batch = [] ∧ c.queue = [] := by
  obtain ⟨queue, batch, batches⟩ := c
  cases batch with
  | nil => cases queue <;> simp [step]
  | cons b bs =>
    cases queue with
    | nil => simp [step]
    | cons a queue => by_cases hsize : bs.length + 1 < size <;> simp [step, hsize]

theorem contents_step (h : c.step size = some c') : c'.contents = c.contents := by
  obtain ⟨a, queue, hqueue, -, rfl⟩ | ⟨-, rfl⟩ := step_cases h
  · simp [contents, hqueue]
  · simp [contents, handOn]

@[simp] theorem contents_send (c : Collector α) (a : α) :
    (c.send a).contents = c.contents ++ [a] := by
  simp [contents, send]

/-- A collector that waits has handed on everything. -/
theorem flatten_of_waiting (h : c.step size = none) : c.batches.flatten = c.contents := by
  obtain ⟨hbatch, hqueue⟩ := step_eq_none_iff.1 h
  simp [contents, hbatch, hqueue]

theorem left_step (h : c.step size = some c') : c'.left < c.left := by
  obtain ⟨a, queue, hqueue, -, rfl⟩ | ⟨hbatch, rfl⟩ := step_cases h
  · have hlength := congrArg List.length hqueue
    simp only [List.length_cons] at hlength
    simp only [left, List.append_ne_nil_of_right_ne_nil _ (List.cons_ne_nil a []), if_false]
    split <;> omega
  · simp [left, handOn, hbatch]

theorem isBounded_idle (size : Nat) : (idle : Collector α).IsBounded size :=
  ⟨fun _ hb => (List.not_mem_nil hb).elim, Nat.zero_le _⟩

theorem IsBounded.send (h : c.IsBounded size) (a : α) : (c.send a).IsBounded size :=
  ⟨h.batches, h.batch⟩

theorem IsBounded.step (hc : c.IsBounded size) (h : c.step size = some c') :
    c'.IsBounded size := by
  obtain ⟨a, queue, hqueue, hroom, rfl⟩ | ⟨hbatch, rfl⟩ := step_cases h
  · refine ⟨hc.batches, ?_⟩
    simp only [List.length_append, List.length_singleton]
    rcases hroom with hnil | hlt
    · rw [hnil, List.length_nil]
      exact Nat.le_max_right ..
    · exact Nat.le_trans hlt (Nat.le_max_left ..)
  · refine ⟨fun b hb => ?_, Nat.zero_le _⟩
    rcases List.mem_append.1 hb with hb | hb
    · exact hc.batches b hb
    · rw [List.mem_singleton.1 hb]
      exact ⟨hbatch, hc.batch⟩

theorem contents_run (size : Nat) (c : Collector α) (fuel : Nat) :
    (c.run size fuel).contents = c.contents := by
  induction fuel generalizing c with
  | zero => rfl
  | succ fuel ih =>
    rw [run]
    cases h : c.step size with
    | none => rfl
    | some c' => rw [ih, contents_step h]

/-- With a step for each that is left the collector comes to wait. -/
theorem waits_run {fuel : Nat} (h : c.left ≤ fuel) : (c.run size fuel).step size = none := by
  induction fuel generalizing c with
  | zero =>
    rw [run, step_eq_none_iff]
    unfold left at h
    split at h
    · next hbatch => exact ⟨hbatch, List.length_eq_zero_iff.1 (by omega)⟩
    · omega
  | succ fuel ih =>
    rw [run]
    cases hstep : c.step size with
    | none => exact hstep
    | some c' => exact ih (by have := left_step hstep; omega)

/-- A drained collector has handed on everything. -/
theorem flatten_drain (size : Nat) (c : Collector α) :
    (c.drain size).batches.flatten = c.contents := by
  have hleft : c.left ≤ 2 * c.queue.length + 2 := by
    unfold left
    split <;> omega
  exact (flatten_of_waiting (waits_run hleft)).trans (contents_run ..)

end Collector

/-! ### The tally to come -/

namespace Tally

@[simp] theorem consumeAll?_nil (t : Tally) : t.consumeAll? [] = some t := rfl

theorem consumeAll?_append (t : Tally) (es es' : List Event) :
    t.consumeAll? (es ++ es') = (t.consumeAll? es).bind fun u => u.consumeAll? es' :=
  List.foldlM_append

/-- Batches are added up like their events. -/
theorem foldlM_consumeAll? (t : Tally) (batches : List (List Event)) :
    batches.foldlM consumeAll? t = t.consumeAll? batches.flatten := by
  induction batches generalizing t with
  | nil => rfl
  | cons batch batches ih =>
    rw [List.foldlM_cons, List.flatten_cons, consumeAll?_append]
    exact Option.bind_congr fun u _ => ih u

end Tally

namespace Background

variable {b : Background}

/-- The tally there will be once everything that waits is added up. -/
def outlook (b : Background) : Option Tally :=
  b.tally.bind fun t => t.consumeAll? (b.collector.batch ++ b.collector.queue)

theorem outlook_of_waiting (h : b.collector.step b.size = none) : b.outlook = b.tally := by
  obtain ⟨hbatch, hqueue⟩ := Collector.step_eq_none_iff.1 h
  simp [outlook, hbatch, hqueue]

theorem outlook_send (b : Background) (e : Event) :
    (b.send e).outlook = b.outlook.bind fun t => t.consumeAll? [e] := by
  rw [outlook, outlook, Option.bind_assoc]
  refine Option.bind_congr fun t _ => ?_
  rw [← Tally.consumeAll?_append, List.append_assoc]
  rfl

/-- What a step does with the room for a batch: nothing, since it waits; an event is taken; or the
batch in hand is added up. -/
theorem turn_cases (hroom : b.hasRoom = true) :
    (b.collector.step b.size = none ∧ b.turn = b) ∨
    (∃ a queue, b.collector.queue = a :: queue ∧
      b.turn = { b with collector := { b.collector with queue, batch := b.collector.batch ++ [a] } }) ∨
    (b.turn = { b with
      collector := b.collector.handOn
      tally := b.tally.bind fun t => t.consumeAll? b.collector.batch }) := by
  unfold turn
  rw [if_pos hroom]
  cases h : b.collector.step b.size with
  | none => exact .inl ⟨rfl, rfl⟩
  | some c =>
    refine .inr ?_
    obtain ⟨a, queue, hqueue, -, rfl⟩ | ⟨-, rfl⟩ := Collector.step_cases h
    · refine .inl ⟨a, queue, hqueue, ?_⟩
      simp
    · refine .inr ?_
      simp [Collector.handOn]

@[simp] theorem size_turn (b : Background) : b.turn.size = b.size := by
  unfold turn
  split
  · split <;> rfl
  · rfl

@[simp] theorem hasRoom_turn (b : Background) : b.turn.hasRoom = b.hasRoom := by
  rw [hasRoom, size_turn, hasRoom]

theorem outlook_turn (hroom : b.hasRoom = true) : b.turn.outlook = b.outlook := by
  obtain ⟨-, h⟩ | ⟨a, queue, hqueue, h⟩ | h := turn_cases hroom
  · rw [h]
  · rw [h, outlook, outlook, hqueue]
    simp
  · rw [h, outlook, outlook]
    simp [Collector.handOn, Tally.consumeAll?_append, Option.bind_assoc]

theorem collector_turn (hroom : b.hasRoom = true) :
    b.turn.collector = (b.collector.step b.size).getD b.collector := by
  rw [turn, if_pos hroom]
  cases b.collector.step b.size <;> rfl

/-- A whole turn adds up everything that waits. -/
theorem tally_work (hroom : b.hasRoom = true) (hbatches : b.collector.batches = []) :
    b.work.tally = b.outlook := by
  have hcontents : b.collector.contents = b.collector.batch ++ b.collector.queue := by
    simp [Collector.contents, hbatches]
  unfold work
  rw [hasRoom] at hroom
  simp only [hroom, if_true, Tally.foldlM_consumeAll?, Collector.flatten_drain, hcontents]
  rfl

theorem outlook_iterate_turn (hroom : b.hasRoom = true) (n : Nat) :
    (turn^[n] b).outlook = b.outlook := by
  induction n generalizing b with
  | zero => rfl
  | succ n ih => rw [Function.iterate_succ_apply, ih (by rwa [hasRoom_turn]), outlook_turn hroom]

/-- **A whole turn comes to what its steps come to**, once they leave nothing that waits. -/
theorem tally_iterate_turn (hroom : b.hasRoom = true) (hbatches : b.collector.batches = [])
    {n : Nat} (hwait : (turn^[n] b).isWaiting = true) : (turn^[n] b).tally = b.work.tally := by
  have hstep : (turn^[n] b).collector.step (turn^[n] b).size = none := by
    simpa using (Bool.and_eq_true_iff.1 hwait).2
  rw [← outlook_of_waiting hstep, outlook_iterate_turn hroom, tally_work hroom hbatches]

end Background

/-! ### Sinks that stream -/

namespace Sink

/-- The sink takes everything and sends it to this background, where it will be added up. -/
structure Streams (s : Sink) (size : Nat) (b : Background) : Prop where
  background : s.background = some b
  judge : s.judge = fun _ _ => .accept
  size : b.size = size
  outlook : b.outlook = Tally.ofEvents? s.events

/-- Records events, one after the other. -/
def recordAll (s : Sink) (es : List Event) : Sink := es.foldl (fun s e => (s.record e).1) s

variable {s : Sink} {size : Nat} {b : Background}

theorem streams_streaming (size : Nat) : (streaming size).Streams size (.fresh size) :=
  ⟨rfl, rfl, rfl, rfl⟩

namespace Streams

theorem verdict_eq (h : s.Streams size b) (e : Event) :
    s.verdict e = if b.isBroken = true then .gone else .accept := by
  simp [verdict, h.background, h.judge]

/-- After the background has broken down no event is taken. -/
theorem record_of_broken (h : s.Streams size b) (hb : b.isBroken = true) (e : Event) :
    (s.record e).1.Streams size b ∧ (s.record e).1.events = s.events ∧
      (s.record e).2 = .error (.disconnected e.key) := by
  have hverdict : s.verdict e = .gone := by rw [h.verdict_eq, if_pos hb]
  simp only [record, hverdict]
  exact ⟨⟨h.background, h.judge, h.size, h.outlook⟩, rfl, trivial⟩

/-- Before, every one is. -/
theorem record_of_not_broken (h : s.Streams size b) (hb : b.isBroken = false) (e : Event) :
    (s.record e).1.Streams size (b.send e) ∧ (s.record e).1.events = s.events ++ [e] ∧
      (s.record e).2 = .ok () := by
  have hverdict : s.verdict e = .accept := by rw [h.verdict_eq, hb]; rfl
  have hevents : (s.record e).1.events = s.events ++ [e] := by
    rw [events_record, if_pos hverdict]
  refine ⟨⟨?_, ?_, h.size, ?_⟩, hevents, ?_⟩
  · simp [record, hverdict, accept, h.background]
  · simp [record, hverdict, accept, h.judge]
  · rw [hevents, Background.outlook_send, h.outlook, Tally.ofEvents?, Tally.ofEvents?,
      Tally.consumeAll?_append]
  · simp [record, hverdict]

theorem turn (h : s.Streams size b) (hroom : b.hasRoom = true) : s.turn.Streams size b.turn := by
  refine ⟨?_, h.judge, ?_, (Background.outlook_turn hroom).trans h.outlook⟩
  · rw [Sink.turn, h.background]
    rfl
  · rw [Background.size_turn, h.size]

end Streams

/-- A sink in memory keeps everything. -/
theorem kept_recordAll (hs : s.background = none) (hjudge : s.judge = fun _ _ => .accept)
    (es : List Event) :
    (s.recordAll es).background = none ∧ (s.recordAll es).events = s.events ++ es := by
  induction es generalizing s with
  | nil => exact ⟨hs, (List.append_nil _).symm⟩
  | cons e es ih =>
    have hverdict : s.verdict e = .accept := by simp [verdict, hs, hjudge]
    have hfirst : (s.record e).1.events = s.events ++ [e] := by
      rw [events_record, if_pos hverdict]
    obtain ⟨hbackground, hevents⟩ := ih (s := (s.record e).1)
      (by simp [record, hverdict, accept, hs]) (by simp [record, hverdict, accept, hjudge])
    refine ⟨hbackground, ?_⟩
    rw [recordAll, List.foldl_cons, ← recordAll, hevents, hfirst, List.append_assoc]
    rfl

theorem record_eq_ok_iff {e : Event} : (s.record e).2 = .ok () ↔ s.verdict e = .accept := by
  unfold record
  cases s.verdict e <;> simp

/-- What a sink keeps in memory is added up in the end. -/
theorem totals?_memory (es : List Event) :
    (memory.recordAll es).totals? = (Tally.ofEvents? es).map .tally := by
  obtain ⟨hbackground, hevents⟩ := kept_recordAll (s := memory) rfl rfl es
  rw [totals?, hbackground, hevents]
  rfl

end Sink

/-! ### Any interleaving -/

namespace Relay

variable {r : Relay} {size : Nat} {b : Background}

theorem run_cons (r : Relay) (m : Move) (ms : List Move) : r.run (m :: ms) = (r.fire m).run ms :=
  rfl

/-- What holds at any time when there is room for a batch: what has been handed on, what is in hand
and what waits are the events sent, in order, and the background is done only when it has added up
all of them. -/
structure IsFaithful (r : Relay) (size : Nat) (b : Background) : Prop where
  streams : r.sink.Streams size b
  contents : b.collector.contents = r.sink.events
  bounded : b.collector.IsBounded size
  ended : r.ended = true →
    r.senders = 0 ∧ b.collector.step b.size = none ∧ b.isBroken = false

theorem isFaithful_spawn (size : Nat) : (spawn size).IsFaithful size (.fresh size) :=
  ⟨Sink.streams_streaming size, rfl, Collector.isBounded_idle size, fun h => nomatch h⟩

namespace IsFaithful

theorem isRunning_eq (h : r.IsFaithful size b) : r.isRunning = (!r.ended && !b.isBroken) := by
  rw [isRunning, h.streams.background]
  rfl

theorem send (h : r.IsFaithful size b) (e : Event) :
    ∃ b', (r.fire (.send e)).IsFaithful size b' := by
  by_cases hsenders : r.senders = 0
  · exact ⟨b, by rwa [fire, if_pos hsenders]⟩
  · have hended (hr : r.ended = true) : False := hsenders (h.ended hr).1
    rw [fire, if_neg hsenders]
    cases hb : b.isBroken with
    | true =>
      obtain ⟨hstreams, hevents, -⟩ := h.streams.record_of_broken hb e
      exact ⟨b, hstreams, h.contents.trans hevents.symm, h.bounded, fun hr => (hended hr).elim⟩
    | false =>
      obtain ⟨hstreams, hevents, -⟩ := h.streams.record_of_not_broken hb e
      refine ⟨b.send e, hstreams, ?_, h.bounded.send e, fun hr => (hended hr).elim⟩
      rw [hevents, ← h.contents]
      exact Collector.contents_send ..

theorem hasRoom (h : r.IsFaithful size b) (hsize : memoryHolds Event.width size = true) :
    b.hasRoom = true := by
  rw [Background.hasRoom, h.streams.size, hsize]

/-- A turn of the background: nothing more, once it is done or has broken down; it is done when
nothing waits and nobody is left to send; or it takes a step. -/
theorem turn_cases (h : r.IsFaithful size b) (hsize : memoryHolds Event.width size = true) :
    (r.isRunning = false ∧ r.fire .turn = r) ∨
    (r.isRunning = true ∧ r.senders = 0 ∧ b.collector.step b.size = none ∧
      r.fire .turn = { r with ended := true }) ∨
    (r.isRunning = true ∧ (r.senders = 0 → b.collector.step b.size ≠ none) ∧
      r.fire .turn = { r with sink := r.sink.turn }) := by
  have hwaiting : r.sink.background.any Background.isWaiting =
      (b.collector.step b.size).isNone := by
    rw [h.streams.background, Option.any_some, Background.isWaiting, h.hasRoom hsize, Bool.true_and]
  rw [Relay.fire, hwaiting]
  cases hrunning : r.isRunning with
  | false => exact .inl ⟨rfl, rfl⟩
  | true =>
    by_cases hend : r.senders = 0 ∧ b.collector.step b.size = none
    · refine .inr (.inl ⟨rfl, hend.1, hend.2, ?_⟩)
      simp [hend]
    · refine .inr (.inr ⟨rfl, fun hsenders hstep => hend ⟨hsenders, hstep⟩, ?_⟩)
      simp only [Option.isNone_iff_eq_none, if_neg hend, if_true]

theorem turned (h : r.IsFaithful size b) (hsize : memoryHolds Event.width size = true)
    (hrunning : r.isRunning = true) :
    ({ r with sink := r.sink.turn } : Relay).IsFaithful size b.turn := by
  have hroom := h.hasRoom hsize
  have hended : r.ended = false := by
    rw [h.isRunning_eq] at hrunning
    simp_all
  refine ⟨h.streams.turn hroom, ?_, ?_, fun hr => ?_⟩
  · rw [Background.collector_turn hroom]
    refine Eq.trans ?_ h.contents
    cases hstep : b.collector.step b.size with
    | none => rfl
    | some c => exact Collector.contents_step hstep
  · rw [Background.collector_turn hroom]
    cases hstep : b.collector.step b.size with
    | none => exact h.bounded
    | some c => exact h.bounded.step (h.streams.size ▸ hstep)
  · exact absurd hr (by simp [hended])

theorem turn (h : r.IsFaithful size b) (hsize : memoryHolds Event.width size = true) :
    ∃ b', (r.fire .turn).IsFaithful size b' := by
  obtain ⟨-, hfire⟩ | ⟨hrunning, hsenders, hstep, hfire⟩ | ⟨hrunning, -, hfire⟩ := h.turn_cases hsize
  · exact ⟨b, by rwa [hfire]⟩
  · rw [h.isRunning_eq] at hrunning
    rw [hfire]
    exact ⟨b, h.streams, h.contents, h.bounded, fun _ => ⟨hsenders, hstep, by simp_all⟩⟩
  · exact ⟨b.turn, by rw [hfire]; exact h.turned hsize hrunning⟩

/-- **A move keeps faith.** -/
theorem fire (h : r.IsFaithful size b) (hsize : memoryHolds Event.width size = true) (m : Move) :
    ∃ b', (r.fire m).IsFaithful size b' := by
  cases m with
  | send e => exact h.send e
  | join =>
    refine ⟨b, ?_⟩
    rw [Relay.fire]
    split
    · exact h
    · next hsenders => exact ⟨h.streams, h.contents, h.bounded, fun hr => absurd (h.ended hr).1 hsenders⟩
  | leave =>
    refine ⟨b, h.streams, h.contents, h.bounded, fun hr => ?_⟩
    obtain ⟨hsenders, hrest⟩ := h.ended hr
    exact ⟨by rw [Relay.fire, hsenders], hrest⟩
  | turn => exact h.turn hsize

theorem run (h : r.IsFaithful size b) (hsize : memoryHolds Event.width size = true)
    (ms : List Move) : ∃ b', (r.run ms).IsFaithful size b' := by
  induction ms generalizing r b with
  | nil => exact ⟨b, h⟩
  | cons m ms ih =>
    obtain ⟨b', h'⟩ := h.fire hsize m
    exact ih h'

/-- A background that has come to its end has returned the tally of the events sent, or has broken
down over it. -/
theorem returned?_eq (h : r.IsFaithful size b) (hstop : r.isRunning = false) :
    r.returned? = Tally.ofEvents? r.sink.events := by
  rw [h.isRunning_eq] at hstop
  rw [← h.streams.outlook, returned?, h.streams.background]
  cases hended : r.ended with
  | true => exact (Background.outlook_of_waiting (h.ended hended).2.1).symm
  | false =>
    have hbroken : b.tally = none := by simpa [hended, Background.isBroken] using hstop
    rw [Background.outlook, hbroken]
    rfl

end IsFaithful

/-- Without a sender only the background moves. -/
theorem fire_of_no_sender (h : r.senders = 0) {m : Move} (hm : m ≠ .turn) : r.fire m = r := by
  obtain ⟨sink, senders, ended⟩ := r
  cases h
  cases m with
  | send e => rfl
  | join => rfl
  | leave => rfl
  | turn => exact absurd rfl hm

/-- **Without a sender the background comes to its end** within a turn for each step that is
left. -/
theorem IsFaithful.ends (h : r.IsFaithful size b)
    (hsize : memoryHolds Event.width size = true) (hsenders : r.senders = 0) {ms : List Move}
    (hms : b.collector.left < ms.count .turn ∨ r.isRunning = false) :
    (r.run ms).isRunning = false ∧ (r.run ms).sink.events = r.sink.events := by
  induction ms generalizing r b with
  | nil => exact ⟨hms.resolve_left (Nat.not_lt_zero _), rfl⟩
  | cons m ms ih =>
    by_cases hm : m = .turn
    · subst hm
      rw [List.count_cons_self] at hms
      rw [run_cons]
      obtain ⟨hstop, hfire⟩ | ⟨-, -, -, hfire⟩ | ⟨hrunning, hstep, hfire⟩ := h.turn_cases hsize
      · rw [hfire]
        exact ih h hsenders (.inr hstop)
      · obtain ⟨b', h'⟩ := h.turn hsize
        rw [hfire] at h' ⊢
        exact ih h' hsenders (.inr rfl)
      · rw [hfire]
        obtain ⟨c, hc⟩ := Option.ne_none_iff_exists'.1 (hstep hsenders)
        have hleft : b.turn.collector.left < b.collector.left := by
          rw [Background.collector_turn (h.hasRoom hsize), hc]
          exact Collector.left_step hc
        have hcount := hms.resolve_right (by simp [hrunning])
        exact ih (h.turned hsize hrunning) hsenders (.inl (by omega))
    · rw [List.count_cons_of_ne hm] at hms
      rw [run_cons, fire_of_no_sender hsenders hm]
      exact ih h hsenders hms

/-- The events that are taken from the senders, one after the other. -/
def sent (r : Relay) : List Move → List Event
  | [] => []
  | .send e :: ms =>
    if r.senders ≠ 0 ∧ (r.sink.record e).2 = .ok () then e :: (r.fire (.send e)).sent ms
    else (r.fire (.send e)).sent ms
  | m :: ms => (r.fire m).sent ms

theorem sent_send (r : Relay) (e : Event) (ms : List Move) :
    r.sent (.send e :: ms) =
      if r.senders ≠ 0 ∧ (r.sink.record e).2 = .ok () then e :: (r.fire (.send e)).sent ms
      else (r.fire (.send e)).sent ms := rfl

/-- The sink keeps the events in the order in which they are taken. -/
theorem events_run (r : Relay) (ms : List Move) :
    (r.run ms).sink.events = r.sink.events ++ r.sent ms := by
  induction ms generalizing r with
  | nil => exact (List.append_nil _).symm
  | cons m ms ih =>
    rw [run_cons, ih]
    cases m with
    | send e =>
      rw [sent_send, fire]
      by_cases hsenders : r.senders = 0
      · simp [hsenders]
      · rw [if_neg hsenders]
        by_cases hok : (r.sink.record e).2 = .ok ()
        · rw [if_pos ⟨hsenders, hok⟩, Sink.events_record, if_pos (Sink.record_eq_ok_iff.1 hok)]
          simp
        · rw [if_neg fun h => hok h.2, Sink.events_record,
            if_neg fun h => hok (Sink.record_eq_ok_iff.2 h)]
    | join =>
      have hevents : (r.fire .join).sink = r.sink := by
        rw [fire]
        split <;> rfl
      rw [hevents]
      rfl
    | leave => rfl
    | turn =>
      have hevents : (r.fire .turn).sink.events = r.sink.events := by
        rw [fire]
        split
        · split <;> rfl
        · rfl
      rw [hevents]
      rfl

/-! ### No room -/

/-- Without room for a batch a move does not bring the background to its end. -/
theorem ended_fire_of_no_room (hroom : r.sink.background.any Background.hasRoom = false)
    (hended : r.ended = false) (m : Move) :
    (r.fire m).sink.background.any Background.hasRoom = false ∧ (r.fire m).ended = false := by
  cases m with
  | send e =>
    rw [fire]
    split
    · exact ⟨hroom, hended⟩
    · refine ⟨?_, hended⟩
      unfold Sink.record
      split
      · simp only [Sink.accept, Option.any_map]
        exact hroom
      · exact hroom
      · exact hroom
  | join =>
    rw [fire]
    split <;> exact ⟨hroom, hended⟩
  | leave => exact ⟨hroom, hended⟩
  | turn =>
    have hwaiting : r.sink.background.any Background.isWaiting = false := by
      cases hb : r.sink.background with
      | none => rfl
      | some b =>
        have hb : b.hasRoom = false := by simpa [hb] using hroom
        rw [Option.any_some, Background.isWaiting, hb, Bool.false_and]
    rw [fire, hwaiting]
    split
    · have hnot : ¬ (r.senders = 0 ∧ false = true) := by simp
      rw [if_neg hnot]
      refine ⟨?_, hended⟩
      simpa only [Sink.turn, Option.any_map, Background.hasRoom_turn] using hroom
    · exact ⟨hroom, hended⟩

/-- Without room for a batch nothing is ever returned. -/
theorem returned?_of_no_room (hsize : memoryHolds Event.width size = false) (ms : List Move) :
    ((spawn size).run ms).returned? = none := by
  have hend (r : Relay) (hroom : r.sink.background.any Background.hasRoom = false)
      (hended : r.ended = false) : (r.run ms).ended = false := by
    induction ms generalizing r with
    | nil => exact hended
    | cons m ms ih =>
      obtain ⟨hroom, hended⟩ := ended_fire_of_no_room hroom hended m
      exact ih _ hroom hended
  rw [returned?, hend (spawn size) hsize rfl]
  rfl

/-- Two visitors, one of whom the other one has brought along; the background is slow. -/
def visitors : List Move :=
  [.join, .send Tally.hello, .turn, .send Tally.goodbye, .leave, .turn, .leave]

/-- **What is added up in the background is what was sent.**  With room for a batch, whatever the
moves of senders and background: no batch is empty or longer than the size allows; the batches
handed on, the one in hand and what waits are the events sent, in order; the background breaks down
only when their sum overflows; and once all senders are gone it returns, after a turn for each step
that is left, the tally of exactly these events, which is what a sink in memory makes of them.
Without room for a batch it returns nothing. -/
theorem background_faithful (size : Nat) (ms : List Move) :
    (memoryHolds Event.width size = true →
      ∃ b, ((spawn size).run ms).sink.background = some b ∧
        (∀ batch ∈ b.collector.batches, batch ≠ [] ∧ batch.length ≤ max size 1) ∧
        b.collector.batches.flatten ++ b.collector.batch ++ b.collector.queue =
          (spawn size).sent ms ∧
        (b.isBroken = true → Tally.ofEvents? ((spawn size).sent ms) = none) ∧
        (((spawn size).run ms).ended = true → ((spawn size).run ms).senders = 0 ∧
          b.collector.batches.flatten = (spawn size).sent ms) ∧
        (((spawn size).run ms).senders = 0 →
          ∀ ms', b.collector.left < ms'.count .turn →
            ((spawn size).run (ms ++ ms')).returned? = Tally.ofEvents? ((spawn size).sent ms) ∧
            ((spawn size).run (ms ++ ms')).returned?.map Sink.Totals.tally =
              (Sink.memory.recordAll ((spawn size).sent ms)).totals?)) ∧
    (memoryHolds Event.width size = false → ((spawn size).run ms).returned? = none) := by
  refine ⟨fun hsize => ?_, fun hsize => returned?_of_no_room hsize ms⟩
  obtain ⟨b, h⟩ := (isFaithful_spawn size).run hsize ms
  have hevents : ((spawn size).run ms).sink.events = (spawn size).sent ms := events_run ..
  have hcontents := h.contents.trans hevents
  refine ⟨b, h.streams.background, h.bounded.batches, hcontents, fun hb => ?_, fun hended => ?_,
    fun hsenders ms' hms' => ?_⟩
  · have htally : b.tally = none := by simpa [Background.isBroken] using hb
    rw [← hevents, ← h.streams.outlook, Background.outlook, htally]
    rfl
  · obtain ⟨hsenders, hstep, -⟩ := h.ended hended
    exact ⟨hsenders, (Collector.flatten_of_waiting hstep).trans hcontents⟩
  · obtain ⟨b', h'⟩ := h.run hsize ms'
    obtain ⟨hstop, hkept⟩ := h.ends hsize hsenders (.inl hms')
    have hreturned := h'.returned?_eq hstop
    rw [hkept, hevents] at hreturned
    have hrun : (spawn size).run (ms ++ ms') = ((spawn size).run ms).run ms' :=
      List.foldl_append
    rw [hrun, Sink.totals?_memory, hreturned]
    exact ⟨rfl, rfl⟩

theorem background_faithful_pair :
    memoryHolds Event.width 2 = true ∧
      ∃ b, ((spawn 2).run visitors).sink.background = some b ∧
        ((spawn 2).run visitors).senders = 0 ∧
        ((spawn 2).run (visitors ++ List.replicate (b.collector.left + 1) .turn)).returned? =
          Tally.ofEvents? ((spawn 2).sent visitors) := by
  have hsize : memoryHolds Event.width 2 = true := by decide
  have hsenders : ((spawn 2).run visitors).senders = 0 := by decide
  obtain ⟨b, hb, -, -, -, -, hend⟩ := (background_faithful 2 visitors).1 hsize
  have hcount : b.collector.left <
      (List.replicate (b.collector.left + 1) Move.turn).count .turn := by simp
  exact ⟨hsize, b, hb, hsenders, (hend hsenders _ hcount).1⟩

/-- Two events that are sent before the background has its first turn. -/
def earlyBirds : List Move := [.send Tally.hello, .send Tally.goodbye, .leave]

/-- With the largest batch there is nothing is returned, although the events can be added up. -/
theorem background_lost :
    (spawn wordMax).sent earlyBirds = [Tally.hello, Tally.goodbye] ∧
      ((spawn wordMax).run earlyBirds).senders = 0 ∧
      (Tally.ofEvents? [Tally.hello, Tally.goodbye]).isSome = true ∧
      ∀ n, ((spawn wordMax).run (earlyBirds ++ List.replicate n .turn)).returned? = none :=
  ⟨by decide, by decide, by decide, fun n => returned?_of_no_room (by decide) _⟩

end Relay

end Lockstep
