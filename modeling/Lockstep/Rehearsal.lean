import Lockstep.Run
import Lockstep.Setup

/-!
# Rehearsals

In a rehearsal the puppets of a workload are led through its phases by hand.  After every cue all
of them go on until they wait.

* `Cue` lists what may be called out;
* `Rehearsal.follow` carries a cue out, and collects what came of it.
-/

namespace Lockstep

/-- What may be called out in a rehearsal. -/
inductive Cue where
  /-- An order to the puppet of some identity. -/
  | order (id : Nat) (o : Order)
  | stop
  | abort (f : Failure)
  | requestEnd (phase : Nat)
  | sleep (d : Duration)
  /-- A run without actors, which only marks the barrier as launched. -/
  | execute

/-- What came of a cue: the deeds of the puppets, and what is said about a run. -/
structure Scene where
  deeds : List (Nat × Nat × Deed)
  run : Option (Nat × Except RunError Summary)
  timeline : Timeline Mind

namespace Rehearsal

/-- The puppets of a system, which only wait for orders. -/
def cast (s : System Mind) : Timeline Mind :=
  .ofSystem { s with tasks := s.tasks.filterMap fun t =>
    match t.mind with
    | .puppet _ => some { t with lifecycle := .running, stage := .acting }
    | _ => none }

/-- Changes the puppets. -/
def onPuppets (s : System Mind) (f : (id : Nat) → Puppet → Puppet) : System Mind :=
  { s with tasks := s.tasks.map fun t =>
      match t.mind with
      | .puppet p => { t with mind := .puppet (f t.id p) }
      | _ => t }

/-- What the puppets have done, in the order of time and identity. -/
def deeds (s : System Mind) : List (Nat × Nat × Deed) :=
  let all := s.tasks.flatMap fun t =>
    match t.mind with
    | .puppet p => p.deeds.reverse.map fun d => (d.1, t.id, d.2)
    | _ => []
  all.mergeSort fun a b => a.1 < b.1 || (a.1 = b.1 && a.2.1 ≤ b.2.1)

/-- The puppets go on until they wait; what they have done is collected. -/
def collect (t : Timeline Mind) (run : Option (Nat × Except RunError Summary)) : Scene :=
  let t := t.settle
  ⟨deeds t.system, run, t.onSystem (onPuppets · fun _ p => { p with deeds := [] })⟩

/-- Gives an order to a puppet. -/
def order (t : Timeline Mind) (id : Nat) (o : Order) : Timeline Mind :=
  (t.onSystem (onPuppets · fun id' p => if id' = id then p.order o else p)).summon
    fun task => task.id = id && task.isIdle

/-- Carries a cue out. -/
def follow (t : Timeline Mind) : Cue → Scene
  | .order id o => collect (order t id o) none
  | .stop => collect (t.onBarrier Barrier.stop) none
  | .abort f => collect (t.onBarrier (Barrier.abort · f)) none
  | .requestEnd k => collect (t.onBarrier (Barrier.requestEnd · k)) none
  | .sleep d => collect (t.runBefore (wakeTime t.system.world.now d)) none
  | .execute =>
    let t := t.onBarrier Barrier.launch
    let w := t.system.world
    collect t (some (w.now, conclude (⟨w, []⟩ : System Mind)))

/-- Carries out cues one after the other. -/
def followAll (t : Timeline Mind) : List Cue → List Scene
  | [] => []
  | c :: cs =>
    let scene := follow t c
    scene :: followAll scene.timeline cs

end Rehearsal

end Lockstep
