import Lockstep.Metrics.Desk
import Lockstep.Proofs.TallyMerge
import Mathlib.Algebra.GroupWithZero.Nat
import Mathlib.Data.List.Forall2

/-!
# The logbook of a desk

All that is done at a desk is written down in its logbook: the time and the phase, the order, the
reply and the warnings.  The logbook alone tells what every measurement has come to.

* `Desk.Serves` : the desk has carried out the orders of a logbook, while the phases of its barrier
  went on in any way;
* `Desk.Measures` : the measurement that is under way by the logbook, with all that was added to it
  since its start;
* `Desk.Entry.Answers` : the reply and the warnings that an order has to get after all before;
* `Desk.Keeps.order` : what one order preserves, and `Desk.Keeps.of_serves` what all of them do;
* `Desk.accounted` : **every operation is accounted for**: what the sink keeps, what it refuses,
  what is discarded, and what is dropped with one warning.
-/

namespace Lockstep

/-! ### The number of entries of a map -/

namespace SortedMap

variable {κ ν : Type} [LT κ] [DecidableEq κ] [LE κ] [Std.IsLinearOrder κ] [Std.LawfulOrderLT κ]

omit [Std.IsLinearOrder κ] in
/-- The map without one of its keys. -/
theorem find?_filter_ne (m : SortedMap κ ν) (k k' : κ) :
    (m.filter fun key _ => key != k).find? k' = if k' = k then none else m.find? k' := by
  refine Option.ext fun v => ?_
  rw [find?_eq_some_iff]
  split
  · next h => simp [filter, h]
  · next h => simp [filter, h, find?_eq_some_iff]

variable [DecidableLT κ]

theorem size_insert (m : SortedMap κ ν) (k : κ) (v : ν) :
    (m.insert k v).size = (m.filter fun key _ => key != k).size + 1 := by
  have hperm : (m.insert k v).entries.Perm ((k, v) :: (m.filter fun key _ => key != k).entries) := by
    refine (List.perm_ext_iff_of_nodup (m.insert k v).nodup_entries ?_).2 fun ⟨k', v'⟩ => ?_
    · refine List.nodup_cons.2 ⟨?_, (m.filter _).nodup_entries⟩
      simp [filter]
    · rw [← find?_eq_some_iff, find?_insert, List.mem_cons, ← find?_eq_some_iff, find?_filter_ne]
      by_cases hk : k' = k
      · simp [hk, eq_comm]
      · simp [hk]
  exact hperm.length_eq

/-- A key that is in the map counts one. -/
theorem size_of_find? {m : SortedMap κ ν} {k : κ} {v : ν} (h : m.find? k = some v) :
    m.size = (m.filter fun key _ => key != k).size + 1 := by
  have hm : m.insert k v = m := by
    refine ext_find? fun k' => ?_
    rw [find?_insert]
    split
    · next hk => rw [hk, h]
    · rfl
  rw [← size_insert m k v, hm]

omit [DecidableLT κ] in
/-- A key that is not in the map counts nothing. -/
theorem filter_ne_of_find? {m : SortedMap κ ν} {k : κ} (h : m.find? k = none) :
    (m.filter fun key _ => key != k) = m := by
  refine ext_find? fun k' => ?_
  rw [find?_filter_ne]
  split
  · next hk => rw [hk, h]
  · rfl

end SortedMap

/-! ### Sinks that keep events -/

namespace Sink

/-- A sink that keeps everything, or only as many events. -/
def upTo : Option Nat → Sink
  | none => memory
  | some n => limited n

/-- What becomes of the report of an operation, when the sink was asked so often before. -/
def answer (limit : Option Nat) (asked : Nat) (m : Measurement) : Except MetricsError Unit :=
  if limit.all (asked < ·) then .ok ()
  else .error (.rejected (operationKey m.operation.actor m.operation.name) "backend down")

theorem judge_upTo (limit : Option Nat) (asked : Nat) (e : Event) : (upTo limit).judge asked e =
    if limit.all (asked < ·) then .accept else .refuse "backend down" := by
  cases limit with
  | none => rfl
  | some n => simp [upTo, limited]

/-- The sink is one of these, whatever it was asked before. -/
structure KeepsUpTo (limit : Option Nat) (s : Sink) : Prop where
  judge : s.judge = (upTo limit).judge
  alone : s.background = none

theorem keepsUpTo_upTo (limit : Option Nat) : (upTo limit).KeepsUpTo limit := by
  cases limit <;> exact ⟨rfl, rfl⟩

variable {limit : Option Nat} {s : Sink}

/-- What comes of a report. -/
theorem KeepsUpTo.report (h : s.KeepsUpTo limit) (m : Measurement) (o : Outcome) (now : Nat) :
    (s.report m o now).1.KeepsUpTo limit ∧
      (s.report m o now).1.asked = s.asked + 1 ∧
      (s.report m o now).2 = answer limit s.asked m ∧
      (s.report m o now).1.events =
        if limit.all (s.asked < ·) then s.events ++ [m.event o now] else s.events := by
  by_cases hroom : limit.all (s.asked < ·)
  · have hverdict : s.verdict (m.event o now) = .accept := by
      rw [verdict, h.alone, h.judge, judge_upTo, if_pos hroom]
      rfl
    rw [Sink.report, record, hverdict, answer, if_pos hroom, if_pos hroom]
    exact ⟨⟨h.judge, by simp [accept, h.alone]⟩, rfl, rfl, by simp [events, accept]⟩
  · have hverdict : s.verdict (m.event o now) = .refuse "backend down" := by
      rw [verdict, h.alone, h.judge, judge_upTo, if_neg hroom]
      rfl
    rw [Sink.report, record, hverdict, answer, if_neg hroom, if_neg hroom]
    exact ⟨⟨h.judge, h.alone⟩, rfl, rfl, rfl⟩

theorem KeepsUpTo.kept (h : s.KeepsUpTo limit) : s.kept = s.events := by
  rw [Sink.kept, h.alone]
  rfl

theorem KeepsUpTo.work (h : s.KeepsUpTo limit) : s.work = s := by
  rw [Sink.work, h.alone]
  exact congrArg (Sink.mk s.judge s.asked s.accepted) h.alone.symm

end Sink

/-! ### The logbook -/

namespace Desk

/-- What was done at a desk at one time. -/
structure Entry where
  now : Nat
  /-- The phase of the barrier at that time. -/
  phase : Nat
  order : Order
  reply : Reply
  notes : List Note

namespace Entry

/-- The measurement that begins here. -/
def begins (e : Entry) : Option String :=
  match e.order, e.reply with
  | .start name _, .nothing => some name
  | _, _ => none

/-- The measurement that ends here. -/
def ends (e : Entry) : Option String :=
  match e.order, e.reply with
  | .finish _ _, .unknown => none
  | .finish name _, _ => some name
  | _, _ => none

/-- What is added to a measurement here: documents, bytes and iterations. -/
def added (name : String) (e : Entry) : Nat × Nat × Nat :=
  match e.order, e.reply with
  | .add name' documents bytes iterations, .nothing =>
    if name' = name then (documents, bytes, iterations) else (0, 0, 0)
  | _, _ => (0, 0, 0)

/-- The operation that gets a handle here. -/
def operation? (handle : String) (e : Entry) : Option Operation :=
  match e.order with
  | .operation handle' o => if handle' = handle then some o else none
  | _ => none

/-- A report that the sink took. -/
def isAccepted (e : Entry) : Bool :=
  match e.reply with
  | .recorded (.ok ()) => true
  | _ => false

/-- A report that the sink did not take. -/
def isRefused (e : Entry) : Bool :=
  match e.reply with
  | .recorded (.error _) => true
  | _ => false

/-- A measurement was discarded. -/
def isDiscarded (e : Entry) : Bool :=
  match e.reply with
  | .discarded => true
  | _ => false

end Entry

/-- Every entry, with all before it. -/
def pasts (log : List Entry) : List (List Entry × Entry) := log.mapIdx fun i e => (log.take i, e)

theorem pasts_concat (log : List Entry) (e : Entry) :
    pasts (log ++ [e]) = pasts log ++ [(log, e)] := by
  unfold pasts
  rw [List.mapIdx_concat, List.take_left]
  congr 1
  refine List.mapIdx_eq_mapIdx_iff.2 fun i hi => ?_
  rw [List.take_append_of_le_length (Nat.le_of_lt hi)]

/-- The operation that has a handle. -/
def operation? (log : List Entry) (handle : String) : Option Operation :=
  (log.filterMap (Entry.operation? handle)).getLast?

/-- All that is added to a measurement: documents, bytes and iterations. -/
def added (name : String) (log : List Entry) : Nat × Nat × Nat :=
  ((log.map fun e => (e.added name).1).sum, (log.map fun e => (e.added name).2.1).sum,
    (log.map fun e => (e.added name).2.2).sum)

/-- How often the sink was asked. -/
def asked (log : List Entry) : Nat := log.countP Entry.isAccepted + log.countP Entry.isRefused

theorem countP_concat (p : Entry → Bool) (log : List Entry) (e : Entry) :
    (log ++ [e]).countP p = log.countP p + (p e).toNat := by
  rw [List.countP_append, List.countP_singleton]
  cases p e <;> rfl

theorem asked_concat (log : List Entry) (e : Entry) :
    asked (log ++ [e]) = asked log + (e.isAccepted.toNat + e.isRefused.toNat) := by
  rw [asked, countP_concat, countP_concat, asked]
  omega

end Desk

/-! ### Measurements under way -/

namespace Measurement

/-- A measurement after more has been counted: documents, bytes and iterations. -/
def plus (m : Measurement) (c : Nat × Nat × Nat) : Measurement :=
  { m with
    documents := m.documents + c.1
    bytes := m.bytes + c.2.1
    iterations := m.iterations + c.2.2 }

/-- The counters fit words. -/
def Fits (m : Measurement) : Prop :=
  m.documents < wordLimit ∧ m.bytes < wordLimit ∧ m.iterations < wordLimit

theorem plus_zero (m : Measurement) : m.plus (0, 0, 0) = m := rfl

/-- What is added at last is counted after what has been added before. -/
theorem plus_added (m : Measurement) (name : String) (log : List Desk.Entry) (e : Desk.Entry) :
    m.plus (Desk.added name (log ++ [e])) = (m.plus (Desk.added name log)).plus (e.added name) := by
  simp [plus, Desk.added, Nat.add_assoc]

/-- What is added is counted as long as it fits. -/
theorem add?_eq_some_iff {m m' : Measurement} {a b c : Nat} :
    m.add? a b c = some m' ↔ m.plus (a, b, c) = m' ∧ m'.Fits := by
  constructor
  · intro h
    obtain ⟨x, hx, h⟩ := Option.bind_eq_some_iff.1 h
    obtain ⟨y, hy, h⟩ := Option.bind_eq_some_iff.1 h
    obtain ⟨z, hz, h⟩ := Option.bind_eq_some_iff.1 h
    cases h
    obtain ⟨rfl, hx⟩ := addWord?_eq_some_iff.1 hx
    obtain ⟨rfl, hy⟩ := addWord?_eq_some_iff.1 hy
    obtain ⟨rfl, hz⟩ := addWord?_eq_some_iff.1 hz
    exact ⟨rfl, hx, hy, hz⟩
  · rintro ⟨rfl, hx, hy, hz⟩
    have hx := addWord?_eq_some_iff.2 ⟨rfl, hx⟩
    have hy := addWord?_eq_some_iff.2 ⟨rfl, hy⟩
    have hz := addWord?_eq_some_iff.2 ⟨rfl, hz⟩
    exact Option.bind_eq_some_iff.2 ⟨_, hx, Option.bind_eq_some_iff.2 ⟨_, hy,
      Option.bind_eq_some_iff.2 ⟨_, hz, rfl⟩⟩⟩

end Measurement

namespace Desk

variable {tracks : Bool} {limit : Option Nat} {log : List Entry} {e : Entry} {d d' : Desk}
  {name : String} {m : Measurement}

/-- The measurement under way under a name: nothing after its start has ended it or begun another
one, and it has counted what was added to it there. -/
inductive Measures (tracks : Bool) (log : List Entry) (name : String) : Measurement → Prop where
  | mk {before after : List Entry} {s : Entry} {handle : String} {o : Operation}
    (log_eq : log = before ++ s :: after)
    (order : s.order = .start name handle)
    (reply : s.reply = .nothing)
    (operation : operation? before handle = some o)
    (goes_on : ∀ e ∈ after, e.begins ≠ some name ∧ e.ends ≠ some name) :
    Measures tracks log name
      ((Measurement.begin o (if tracks then some s.phase else none) s.now).plus (added name after))

/-- What one more entry makes of the measurement under a name. -/
theorem measures_concat : Measures tracks (log ++ [e]) name m ↔
    (∃ handle o, e.order = .start name handle ∧ e.reply = .nothing ∧
      operation? log handle = some o ∧
      m = .begin o (if tracks then some e.phase else none) e.now) ∨
    (e.begins ≠ some name ∧ e.ends ≠ some name ∧
      ∃ m', Measures tracks log name m' ∧ m = m'.plus (e.added name)) := by
  constructor
  · rintro ⟨hlog, horder, hreply, hoperation, hgoes⟩
    next before after s handle o =>
    rcases List.eq_nil_or_concat after with rfl | ⟨after, e', rfl⟩
    · obtain ⟨rfl, he⟩ := List.append_inj' hlog rfl
      cases he
      exact .inl ⟨handle, o, horder, hreply, hoperation, Measurement.plus_zero _⟩
    · have hlog' : log ++ [e] = (before ++ s :: after) ++ [e'] := by simpa using hlog
      obtain ⟨rfl, he⟩ := List.append_inj' hlog' rfl
      cases he
      refine .inr ⟨(hgoes e (by simp)).1, (hgoes e (by simp)).2, _,
        ⟨rfl, horder, hreply, hoperation, fun e' he' => hgoes e' (by simp [he'])⟩, ?_⟩
      rw [List.concat_eq_append, Measurement.plus_added]
  · rintro (⟨handle, o, horder, hreply, hoperation, rfl⟩ | ⟨hbegins, hends, m', hm, rfl⟩)
    · exact ⟨rfl, horder, hreply, hoperation, by simp⟩
    · obtain ⟨rfl, horder, hreply, hoperation, hgoes⟩ := hm
      next before after s handle o =>
      rw [← Measurement.plus_added]
      refine ⟨List.append_assoc .., horder, hreply, hoperation, fun e' he' => ?_⟩
      rcases List.mem_append.1 he' with he' | he'
      · exact hgoes e' he'
      · cases List.mem_singleton.1 he'
        exact ⟨hbegins, hends⟩

/-- An entry that neither begins nor ends a measurement adds to it. -/
theorem measures_concat_of_goes_on (hbegins : e.begins ≠ some name) (hends : e.ends ≠ some name) :
    Measures tracks (log ++ [e]) name m ↔
      ∃ m', Measures tracks log name m' ∧ m = m'.plus (e.added name) := by
  rw [measures_concat]
  constructor
  · rintro (⟨handle, o, horder, hreply, -⟩ | ⟨-, -, h⟩)
    · exact absurd (by rw [Entry.begins, horder, hreply]) hbegins
    · exact h
  · exact fun h => .inr ⟨hbegins, hends, h⟩

/-- An entry that has nothing to do with a measurement. -/
theorem measures_concat_of_idle (hbegins : e.begins ≠ some name) (hends : e.ends ≠ some name)
    (hadded : e.added name = (0, 0, 0)) :
    Measures tracks (log ++ [e]) name m ↔ Measures tracks log name m := by
  rw [measures_concat_of_goes_on hbegins hends, hadded]
  simp [Measurement.plus_zero]

/-- What is under way after a measurement has begun. -/
theorem measures_concat_of_start {name' handle : String} {o : Operation}
    (horder : e.order = .start name' handle) (hreply : e.reply = .nothing)
    (ho : operation? log handle = some o) :
    Measures tracks (log ++ [e]) name m ↔
      if name = name' then m = .begin o (if tracks then some e.phase else none) e.now
      else Measures tracks log name m := by
  have hbegins : e.begins = some name' := by rw [Entry.begins, horder, hreply]
  split
  · next hname =>
    subst hname
    rw [measures_concat]
    constructor
    · rintro (⟨handle', o', horder', -, ho', rfl⟩ | ⟨hne, -⟩)
      · cases horder.symm.trans horder'
        cases ho.symm.trans ho'
        rfl
      · exact absurd hbegins hne
    · rintro rfl
      exact .inl ⟨handle, o, horder, hreply, ho, rfl⟩
  · next hname =>
    refine measures_concat_of_idle ?_ ?_ ?_
    · rw [hbegins]
      exact fun heq => hname (Option.some.inj heq).symm
    · simp [Entry.ends, horder]
    · simp [Entry.added, horder]

/-- What is under way after a measurement has ended. -/
theorem measures_concat_of_ends {name' : String} (hends : e.ends = some name') :
    Measures tracks (log ++ [e]) name m ↔ name ≠ name' ∧ Measures tracks log name m := by
  have horder : ∃ x, e.order = .finish name' x := by
    unfold Entry.ends at hends
    split at hends
    · cases hends
    · next x horder _ =>
      cases hends
      exact ⟨x, horder⟩
    · cases hends
  obtain ⟨x, horder⟩ := horder
  have hbegins : e.begins = none := by simp [Entry.begins, horder]
  by_cases hname : name = name'
  · refine iff_of_false ?_ fun h => h.1 hname
    rw [measures_concat]
    rintro (⟨handle, _, hstart, -⟩ | ⟨-, hne, -⟩)
    · rw [horder] at hstart
      cases hstart
    · exact hne (hname ▸ hends)
  · rw [measures_concat_of_idle (by simp [hbegins]) ?_ ?_]
    · exact (and_iff_right hname).symm
    · rw [hends]
      exact fun heq => hname (Option.some.inj heq).symm
    · simp [Entry.added, horder]

/-! ### What an order does -/

/-- What one order does at a desk: the desk after it, the reply and the warnings. -/
inductive Step (d : Desk) : Order → Desk → Reply → List Note → Prop where
  | operation (handle : String) (o : Operation) :
    Step d (.operation handle o) { d with operations := d.operations.insert handle o }
      (.operation o) []
  | start {name handle : String} {o : Operation} (ho : d.operations.find? handle = some o) :
    Step d (.start name handle) { d with live := d.live.insert name (.begin o d.stamp d.now) }
      .nothing ((d.live.find? name).elim [] fun old => [old.lostNote])
  | unnamed {name handle : String} (ho : d.operations.find? handle = none) :
    Step d (.start name handle) d .unknown []
  | add {name : String} {documents bytes iterations : Nat} {m : Measurement}
    (hm : d.live.find? name = some m) (hfits : (m.plus (documents, bytes, iterations)).Fits) :
    Step d (.add name documents bytes iterations)
      { d with live := d.live.insert name (m.plus (documents, bytes, iterations)) } .nothing []
  | notAdded {name : String} {documents bytes iterations : Nat} (hm : d.live.find? name = none) :
    Step d (.add name documents bytes iterations) d .unknown []
  | report {name : String} {m : Measurement} (hm : d.live.find? name = some m) (o : Outcome) :
    Step d (.finish name (.report o))
      { d with
        live := d.live.filter fun key _ => key != name
        sink := (d.sink.report m o d.now).1 } (.recorded (d.sink.report m o d.now).2) []
  | discard {name : String} {m : Measurement} (hm : d.live.find? name = some m) :
    Step d (.finish name .discard) { d with live := d.live.filter fun key _ => key != name }
      .discarded []
  | drop {name : String} {m : Measurement} (hm : d.live.find? name = some m) :
    Step d (.finish name .drop) { d with live := d.live.filter fun key _ => key != name }
      .dropped [m.lostNote]
  | notFinished {name : String} {x : End} (hm : d.live.find? name = none) :
    Step d (.finish name x) d .unknown []
  | sleep (t : Duration) :
    Step d (.sleep t)
      { d with
        now := wakeTime d.now t
        sink := if d.now < wakeTime d.now t then d.sink.work else d.sink } .nothing []
  | phase (b : Barrier) (started more : Bool) :
    Step d .phase { d with barrier := b } (.phase started more b.currentPhase) []

theorem step_of_carryOut {o : Order} {r : Reply} {notes : List Note}
    (h : d.carryOut o = some (d', r, notes)) : Step d o d' r notes := by
  cases o with
  | operation handle o =>
    cases h
    exact .operation handle o
  | start name handle =>
    rw [carryOut] at h
    split at h
    · next ho =>
      cases h
      exact .unnamed ho
    · next o ho =>
      cases h
      exact .start ho
  | add name documents bytes iterations =>
    rw [carryOut] at h
    split at h
    · next hm =>
      cases h
      exact .notAdded hm
    · next m hm =>
      obtain ⟨m', hadd, h⟩ := Option.bind_eq_some_iff.1 h
      obtain ⟨rfl, hfits⟩ := Measurement.add?_eq_some_iff.1 hadd
      cases h
      exact .add hm hfits
  | finish name x =>
    rw [carryOut] at h
    split at h
    · next hm =>
      cases h
      exact .notFinished hm
    · next m hm =>
      cases x with
      | report o =>
        cases h
        exact .report hm o
      | discard =>
        cases h
        exact .discard hm
      | drop =>
        cases h
        exact .drop hm
  | sleep t =>
    cases h
    exact .sleep t
  | phase =>
    cases h
    exact .phase ..

/-- The orders that cannot be carried out are those that a counter has no room for. -/
theorem carryOut_eq_none {o : Order} (h : d.carryOut o = none) :
    ∃ name documents bytes iterations m, o = .add name documents bytes iterations ∧
      d.live.find? name = some m ∧ ¬ (m.plus (documents, bytes, iterations)).Fits := by
  cases o with
  | add name documents bytes iterations =>
    rw [carryOut] at h
    split at h
    · cases h
    · next m hm =>
      refine ⟨name, documents, bytes, iterations, m, rfl, hm, fun hfits => ?_⟩
      rw [Measurement.add?_eq_some_iff.2 ⟨rfl, hfits⟩] at h
      cases h
  | start name handle =>
    rw [carryOut] at h
    split at h <;> cases h
  | finish name x =>
    rw [carryOut] at h
    split at h <;> cases h
  | operation handle o => cases h
  | sleep t => cases h
  | phase => cases h

/-! ### What the logbook tells -/

/-- The entry for an order. -/
def entry (d : Desk) (o : Order) (r : Reply) (notes : List Note) : Entry :=
  ⟨d.now, d.barrier.currentPhase, o, r, notes⟩

/-- The reply and the warnings that an order has to get after what is in the logbook. -/
inductive Entry.Answers (limit : Option Nat) (tracks : Bool) (log : List Entry) : Entry → Prop where
  | operation {now phase : Nat} {handle : String} {o : Operation} :
    Answers limit tracks log ⟨now, phase, .operation handle o, .operation o, []⟩
  /-- A measurement begins. -/
  | start {now phase : Nat} {name handle : String} {o : Operation}
    (ho : Desk.operation? log handle = some o) (hfree : ∀ m, ¬ Measures tracks log name m) :
    Answers limit tracks log ⟨now, phase, .start name handle, .nothing, []⟩
  /-- A measurement begins; the one under the same name is dropped. -/
  | restart {now phase : Nat} {name handle : String} {o : Operation} {m : Measurement}
    (ho : Desk.operation? log handle = some o) (hm : Measures tracks log name m) :
    Answers limit tracks log ⟨now, phase, .start name handle, .nothing, [m.lostNote]⟩
  | unnamed {now phase : Nat} {name handle : String} (ho : Desk.operation? log handle = none) :
    Answers limit tracks log ⟨now, phase, .start name handle, .unknown, []⟩
  | add {now phase : Nat} {name : String} {documents bytes iterations : Nat} {m : Measurement}
    (hm : Measures tracks log name m) :
    Answers limit tracks log ⟨now, phase, .add name documents bytes iterations, .nothing, []⟩
  | report {now phase : Nat} {name : String} {o : Outcome} {m : Measurement}
    (hm : Measures tracks log name m) :
    Answers limit tracks log
      ⟨now, phase, .finish name (.report o), .recorded (Sink.answer limit (asked log) m), []⟩
  | discard {now phase : Nat} {name : String} {m : Measurement} (hm : Measures tracks log name m) :
    Answers limit tracks log ⟨now, phase, .finish name .discard, .discarded, []⟩
  | drop {now phase : Nat} {name : String} {m : Measurement} (hm : Measures tracks log name m) :
    Answers limit tracks log ⟨now, phase, .finish name .drop, .dropped, [m.lostNote]⟩
  | notAdded {now phase : Nat} {name : String} {documents bytes iterations : Nat}
    (hm : ∀ m, ¬ Measures tracks log name m) :
    Answers limit tracks log ⟨now, phase, .add name documents bytes iterations, .unknown, []⟩
  | notFinished {now phase : Nat} {name : String} {x : End}
    (hm : ∀ m, ¬ Measures tracks log name m) :
    Answers limit tracks log ⟨now, phase, .finish name x, .unknown, []⟩
  | sleep {now phase : Nat} {t : Duration} :
    Answers limit tracks log ⟨now, phase, .sleep t, .nothing, []⟩
  | phase {now phase : Nat} {started more : Bool} {current : Nat} :
    Answers limit tracks log ⟨now, phase, .phase, .phase started more current, []⟩

/-- The event of a report that comes after all in a logbook. -/
def Reports (tracks : Bool) (p : List Entry × Entry) (event : Event) : Prop :=
  ∃ name m o, p.2.order = .finish name (.report o) ∧ Measures tracks p.1 name m ∧
    event = m.event o p.2.now

/-- The desk agrees with its logbook. -/
structure Keeps (limit : Option Nat) (tracks : Bool) (log : List Entry) (d : Desk) : Prop where
  tracksPhases : d.tracksPhases = tracks
  operations : ∀ handle, d.operations.find? handle = operation? log handle
  live : ∀ name m, d.live.find? name = some m ↔ Measures tracks log name m
  sink : d.sink.KeepsUpTo limit
  sink_asked : d.sink.asked = asked log
  events : List.Forall₂ (Reports tracks) ((pasts log).filter fun p => p.2.isAccepted) d.sink.events
  balance : log.countP (fun e => e.begins.isSome) =
    log.countP Entry.isAccepted + log.countP Entry.isRefused + log.countP Entry.isDiscarded +
      (log.flatMap Entry.notes).length + d.live.size
  answers : ∀ p ∈ pasts log, p.2.Answers limit tracks p.1

variable {o : Order} {r : Reply} {notes : List Note}

theorem Keeps.free (h : d.Keeps limit tracks log) (hm : d.live.find? name = none) (m : Measurement) :
    ¬ Measures tracks log name m := by
  intro hmeasures
  rw [(h.live name m).2 hmeasures] at hm
  cases hm

theorem Keeps.named (h : d.Keeps limit tracks log) {handle : String} {o : Option Operation}
    (ho : d.operations.find? handle = o) : operation? log handle = o := by
  rw [← h.operations, ho]

/-- The order gets what it has to get. -/
theorem Keeps.answers_step (h : d.Keeps limit tracks log) (hstep : Step d o d' r notes) :
    (d.entry o r notes).Answers limit tracks log := by
  cases hstep with
  | operation handle o => exact .operation
  | start ho =>
    next name handle o =>
    have ho := h.named ho
    cases hm : d.live.find? name with
    | none => exact .start ho (h.free hm)
    | some m => exact .restart ho ((h.live name m).1 hm)
  | unnamed ho => exact .unnamed (h.named ho)
  | add hm hfits => exact .add ((h.live _ _).1 hm)
  | notAdded hm => exact .notAdded (h.free hm)
  | report hm o =>
    rw [(h.sink.report _ o d.now).2.2.1, h.sink_asked]
    exact .report ((h.live _ _).1 hm)
  | discard hm => exact .discard ((h.live _ _).1 hm)
  | drop hm => exact .drop ((h.live _ _).1 hm)
  | notFinished hm => exact .notFinished (h.free hm)
  | sleep t => exact .sleep
  | phase b started more => exact .phase

/-- The operations after an order. -/
theorem Keeps.operations_step (h : d.Keeps limit tracks log) (hstep : Step d o d' r notes)
    (handle : String) :
    d'.operations.find? handle = operation? (log ++ [d.entry o r notes]) handle := by
  have hidle (h' : (d.entry o r notes).operation? handle = none)
      (hd : d'.operations = d.operations) :
      d'.operations.find? handle = operation? (log ++ [d.entry o r notes]) handle := by
    simp [hd, h.operations, operation?, h']
  cases hstep with
  | operation handle' o =>
    rw [SortedMap.find?_insert, h.operations]
    by_cases heq : handle = handle'
    · simp [operation?, Entry.operation?, entry, heq]
    · simp [operation?, Entry.operation?, entry, heq, Ne.symm heq]
  | _ => exact hidle rfl rfl

/-- The measurements under way after an order. -/
theorem Keeps.live_step (h : d.Keeps limit tracks log) (hstep : Step d o d' r notes)
    (name : String) (m : Measurement) :
    d'.live.find? name = some m ↔ Measures tracks (log ++ [d.entry o r notes]) name m := by
  have hidle (hbegins : (d.entry o r notes).begins ≠ some name)
      (hends : (d.entry o r notes).ends ≠ some name)
      (hadded : (d.entry o r notes).added name = (0, 0, 0))
      (hd : d'.live.find? name = d.live.find? name) :
      d'.live.find? name = some m ↔ Measures tracks (log ++ [d.entry o r notes]) name m := by
    rw [measures_concat_of_idle hbegins hends hadded, hd]
    exact h.live name m
  have hend {name' : String} (hends : (d.entry o r notes).ends = some name')
      (hd : d'.live = d.live.filter fun key _ => key != name') :
      d'.live.find? name = some m ↔ Measures tracks (log ++ [d.entry o r notes]) name m := by
    rw [hd, SortedMap.find?_filter_ne, measures_concat_of_ends hends, ← h.live name m]
    by_cases hname : name = name'
    · simp [hname]
    · simp [hname]
  cases hstep with
  | start ho =>
    next name' handle o =>
    have hstamp : d.stamp = if tracks then some d.barrier.currentPhase else none := by
      rw [stamp, h.tracksPhases]
    rw [SortedMap.find?_insert, measures_concat_of_start rfl rfl (h.named ho), hstamp]
    split
    · exact Option.some_inj.trans eq_comm
    · exact h.live name m
  | add hm hfits =>
    next name' documents bytes iterations m' =>
    have hbegins : (d.entry (.add name' documents bytes iterations) .nothing []).begins ≠
        some name := by simp [entry, Entry.begins]
    have hends : (d.entry (.add name' documents bytes iterations) .nothing []).ends ≠
        some name := by simp [entry, Entry.ends]
    by_cases hname : name = name'
    · subst hname
      have hadded : (d.entry (.add name documents bytes iterations) .nothing []).added name =
          (documents, bytes, iterations) := if_pos rfl
      rw [SortedMap.find?_insert, if_pos rfl, measures_concat_of_goes_on hbegins hends, hadded]
      constructor
      · rintro ⟨⟩
        exact ⟨m', (h.live name m').1 hm, rfl⟩
      · rintro ⟨m'', hm'', rfl⟩
        cases hm.symm.trans ((h.live name m'').2 hm'')
        rfl
    · refine hidle hbegins hends (if_neg (Ne.symm hname)) ?_
      rw [SortedMap.find?_insert, if_neg hname]
  | report hm o => exact hend rfl rfl
  | discard hm => exact hend rfl rfl
  | drop hm => exact hend rfl rfl
  | _ => exact hidle (by simp [entry, Entry.begins]) (by simp [entry, Entry.ends]) rfl rfl

/-- What the sink has kept after an order. -/
theorem Keeps.sink_step (h : d.Keeps limit tracks log) (hstep : Step d o d' r notes) :
    d'.sink.KeepsUpTo limit ∧ d'.sink.asked = asked (log ++ [d.entry o r notes]) ∧
      List.Forall₂ (Reports tracks)
        ((pasts (log ++ [d.entry o r notes])).filter fun p => p.2.isAccepted) d'.sink.events := by
  have hidle (haccepted : (d.entry o r notes).isAccepted = false)
      (hrefused : (d.entry o r notes).isRefused = false) (hd : d'.sink = d.sink) :
      d'.sink.KeepsUpTo limit ∧ d'.sink.asked = asked (log ++ [d.entry o r notes]) ∧
        List.Forall₂ (Reports tracks)
          ((pasts (log ++ [d.entry o r notes])).filter fun p => p.2.isAccepted)
          d'.sink.events := by
    refine ⟨hd ▸ h.sink, ?_, ?_⟩
    · rw [asked_concat, haccepted, hrefused, hd]
      exact h.sink_asked
    · simpa [hd, pasts_concat, haccepted] using h.events
  cases hstep with
  | report hm o =>
    next name m =>
    obtain ⟨hkeeps, hasked, hanswer, hevents⟩ := h.sink.report m o d.now
    rw [hanswer, h.sink_asked, Sink.answer]
    rw [h.sink_asked] at hasked hevents
    rw [asked_concat, pasts_concat, List.filter_append]
    by_cases hroom : limit.all (asked log < ·)
    · rw [if_pos hroom] at hevents ⊢
      refine ⟨hkeeps, hasked, ?_⟩
      show List.Forall₂ _ _ (d.sink.report m o d.now).1.events
      rw [hevents]
      exact List.rel_append h.events (.cons ⟨name, m, o, rfl, (h.live name m).1 hm, rfl⟩ .nil)
    · rw [if_neg hroom] at hevents ⊢
      refine ⟨hkeeps, hasked, ?_⟩
      show List.Forall₂ _ _ (d.sink.report m o d.now).1.events
      rw [hevents]
      exact (List.append_nil _).symm ▸ h.events
  | sleep t =>
    refine hidle rfl rfl ?_
    dsimp only
    split
    · exact h.sink.work
    · rfl
  | _ => exact hidle rfl rfl rfl

/-- A measurement that begins is one more under way; one that is reported, discarded or dropped is
one less. -/
theorem Step.balance (hstep : Step d o d' r notes) :
    (d.entry o r notes).begins.isSome.toNat + d.live.size =
      (d.entry o r notes).isAccepted.toNat + (d.entry o r notes).isRefused.toNat +
        (d.entry o r notes).isDiscarded.toNat + notes.length + d'.live.size := by
  cases hstep with
  | start ho =>
    next name handle o =>
    show 1 + d.live.size = 0 + 0 + 0 + _ + (d.live.insert name (.begin o d.stamp d.now)).size
    rw [SortedMap.size_insert]
    cases hm : d.live.find? name with
    | none =>
      rw [SortedMap.filter_ne_of_find? hm]
      show 1 + d.live.size = 0 + 0 + 0 + 0 + (d.live.size + 1)
      omega
    | some m =>
      rw [← SortedMap.size_of_find? hm]
      show 1 + d.live.size = 0 + 0 + 0 + 1 + d.live.size
      omega
  | add hm hfits =>
    next name documents bytes iterations m =>
    show 0 + d.live.size = 0 + 0 + 0 + 0 +
      (d.live.insert name (m.plus (documents, bytes, iterations))).size
    rw [SortedMap.size_insert, ← SortedMap.size_of_find? hm]
  | report hm o =>
    next name m =>
    have hsize := SortedMap.size_of_find? hm
    rcases (d.sink.report m o d.now).2 with _ | _
    · show 0 + d.live.size = 0 + 1 + 0 + 0 + (d.live.filter fun key _ => key != name).size
      omega
    · show 0 + d.live.size = 1 + 0 + 0 + 0 + (d.live.filter fun key _ => key != name).size
      omega
  | discard hm =>
    next name m =>
    have hsize := SortedMap.size_of_find? hm
    show 0 + d.live.size = 0 + 0 + 1 + 0 + (d.live.filter fun key _ => key != name).size
    omega
  | drop hm =>
    next name m =>
    have hsize := SortedMap.size_of_find? hm
    show 0 + d.live.size = 0 + 0 + 0 + 1 + (d.live.filter fun key _ => key != name).size
    omega
  | _ => rfl

/-- How many measurements have begun, and what has become of them. -/
theorem Keeps.balance_step (h : d.Keeps limit tracks log) (hstep : Step d o d' r notes) :
    (log ++ [d.entry o r notes]).countP (fun e => e.begins.isSome) =
      (log ++ [d.entry o r notes]).countP Entry.isAccepted +
        (log ++ [d.entry o r notes]).countP Entry.isRefused +
        (log ++ [d.entry o r notes]).countP Entry.isDiscarded +
        ((log ++ [d.entry o r notes]).flatMap Entry.notes).length + d'.live.size := by
  have hbalance := h.balance
  have hentry := hstep.balance
  have hnotes : ((log ++ [d.entry o r notes]).flatMap Entry.notes).length =
      (log.flatMap Entry.notes).length + notes.length := by
    rw [List.flatMap_append, List.flatMap_singleton, List.length_append]
    rfl
  rw [countP_concat, countP_concat, countP_concat, countP_concat, hnotes]
  omega

/-- What one order preserves. -/
theorem Keeps.order (h : d.Keeps limit tracks log) (hstep : Step d o d' r notes) :
    d'.Keeps limit tracks (log ++ [d.entry o r notes]) where
  tracksPhases := by
    cases hstep <;> exact h.tracksPhases
  operations := h.operations_step hstep
  live := h.live_step hstep
  sink := (h.sink_step hstep).1
  sink_asked := (h.sink_step hstep).2.1
  events := (h.sink_step hstep).2.2
  balance := h.balance_step hstep
  answers := by
    rw [pasts_concat, List.forall_mem_append]
    refine ⟨h.answers, fun p hp => ?_⟩
    cases List.mem_singleton.1 hp
    exact h.answers_step hstep

/-- The phases that go on elsewhere do not matter. -/
theorem Keeps.elsewhere (h : d.Keeps limit tracks log) (b : Barrier) :
    ({ d with barrier := b } : Desk).Keeps limit tracks log :=
  ⟨h.tracksPhases, h.operations, h.live, h.sink, h.sink_asked, h.events, h.balance, h.answers⟩

/-! ### All orders -/

/-- A desk where nothing was done yet, with a sink that keeps everything or only as many events. -/
def fresh (limit : Option Nat) (tracks : Bool) (now : Nat) (b : Barrier) : Desk :=
  ⟨now, .upTo limit, b, tracks, .empty, .empty⟩

/-- The desk has carried out the orders of a logbook; the phases may also go on without it. -/
inductive Serves (d₀ : Desk) : List Entry → Desk → Prop where
  | nothing : Serves d₀ [] d₀
  | order {log : List Entry} {d d' : Desk} {o : Order} {r : Reply} {notes : List Note}
    (h : Serves d₀ log d) (ho : d.carryOut o = some (d', r, notes)) :
    Serves d₀ (log ++ [d.entry o r notes]) d'
  | elsewhere {log : List Entry} {d : Desk} (h : Serves d₀ log d) (b : Barrier) :
    Serves d₀ log { d with barrier := b }

/-- What all orders preserve. -/
theorem Keeps.of_serves {now : Nat} {b : Barrier} (h : (fresh limit tracks now b).Serves log d) :
    d.Keeps limit tracks log := by
  induction h with
  | nothing =>
    refine ⟨rfl, fun _ => rfl, fun name m => iff_of_false (by simp [fresh]) ?_,
      Sink.keepsUpTo_upTo limit, ?_, ?_, rfl, nofun⟩
    · rintro ⟨hlog, -⟩
      simp at hlog
    · cases limit <;> rfl
    · cases limit <;> exact .nil
  | order h ho ih => exact ih.order (step_of_carryOut ho)
  | elsewhere h b ih => exact ih.elsewhere b

/-- Everything that was begun at a desk is accounted for in its logbook and in its sink. -/
structure Accounts (limit : Option Nat) (tracks : Bool) (log : List Entry) (d : Desk) : Prop where
  /-- Every order got the reply and the warnings that it has to get after all before. -/
  answers : ∀ p ∈ pasts log, p.2.Answers limit tracks p.1
  /-- The sink has kept the accepted reports, in their order. -/
  kept : List.Forall₂ (Reports tracks) ((pasts log).filter fun p => p.2.isAccepted) d.sink.kept
  /-- What was begun was accepted, refused, discarded or dropped with one warning, or is still under
  way. -/
  balance : log.countP (fun e => e.begins.isSome) =
    log.countP Entry.isAccepted + log.countP Entry.isRefused + log.countP Entry.isDiscarded +
      (log.flatMap Entry.notes).length + d.live.size
  /-- These are the names of the measurements under way. -/
  live : ∀ name, name ∈ d.live.keys ↔ ∃ m, Measures tracks log name m
  /-- When the desk closes, there is one warning about each of them. -/
  left : List.Forall₂ (fun name note => ∃ m, Measures tracks log name m ∧ note = m.lostNote)
    d.live.keys d.close
  /-- An order is carried out unless a counter has no room for it. -/
  obeys : ∀ o, d.carryOut o = none → ∃ name documents bytes iterations m,
    o = .add name documents bytes iterations ∧ Measures tracks log name m ∧
      ¬ (m.plus (documents, bytes, iterations)).Fits

/-- **Every operation is accounted for**, whatever the orders were and however the phases went on:
replies, warnings and events are those that the logbook asks for, and each measurement that was begun
has come to one end or is still under way. -/
theorem accounted {now : Nat} {b : Barrier} (h : (fresh limit tracks now b).Serves log d) :
    d.Accounts limit tracks log := by
  have hkeeps := Keeps.of_serves h
  have hentry {name : String} {m : Measurement} (he : (name, m) ∈ d.live.entries) :
      Measures tracks log name m :=
    (hkeeps.live name m).1 (SortedMap.find?_eq_some_iff.2 he)
  refine ⟨hkeeps.answers, hkeeps.sink.kept ▸ hkeeps.events, hkeeps.balance, fun name => ?_, ?_,
    fun o ho => ?_⟩
  · rw [SortedMap.keys, List.mem_map]
    constructor
    · rintro ⟨⟨name, m⟩, he, rfl⟩
      exact ⟨m, hentry he⟩
    · rintro ⟨m, hm⟩
      exact ⟨(name, m), SortedMap.find?_eq_some_iff.1 ((hkeeps.live name m).2 hm), rfl⟩
  · rw [close, SortedMap.values, List.map_map, SortedMap.keys, List.forall₂_map_left_iff,
      List.forall₂_map_right_iff, List.forall₂_same]
    rintro ⟨name, m⟩ he
    exact ⟨m, hentry he, rfl⟩
  · obtain ⟨name, documents, bytes, iterations, m, rfl, hm, hfits⟩ := carryOut_eq_none ho
    exact ⟨name, documents, bytes, iterations, m, rfl, (hkeeps.live name m).1 hm, hfits⟩

/-- Two reports to a sink that keeps one event. -/
theorem accounted_refusal : ∃ log d,
    (fresh (some 1) true 0 default).Serves log d ∧ d.Accounts (some 1) true log ∧
      log.countP Entry.isAccepted = 1 ∧ log.countP Entry.isRefused = 1 := by
  have hstart : (fresh (some 1) true 0 default).Serves [] (fresh (some 1) true 0 default) := .nothing
  have hserves := hstart
    |>.order (o := .operation "run" ⟨"A", "run", 0⟩) rfl
    |>.order (o := .start "first" "run") rfl
    |>.order (o := .finish "first" (.report .success)) rfl
    |>.order (o := .start "second" "run") rfl
    |>.order (o := .finish "second" (.report .failure)) rfl
  exact ⟨_, _, hserves, accounted hserves, rfl, rfl⟩

end Desk

end Lockstep
