import Lockstep.Barrier.Call
import Lockstep.Stint

/-!
# Going through the phases

A `Participant` is an actor's part in the barrier: it takes the actor from phase to phase in
lockstep with the others.  Phases in which the actor has nothing to do are passed, but the actor
arrives for them and leaves them like everybody else.

* `Advance` lists the points at which an actor may be between two of its phases, and
  `Advance.step` carries it on;
* `Farewell` is how a participant is given up: one that has not finished while the run goes on
  aborts the run, because the others would wait for it forever.
-/

namespace Lockstep

/-- An actor's part in the barrier. -/
structure Participant where
  actor : String
  id : Nat
  /-- The block of the actor, which shares its buckets. -/
  block : Nat
  schedule : Schedule
  /-- The phase to start next. -/
  next : Nat
  /-- The phase that is still to be left. -/
  owed : Option Nat
  /-- There are no more phases for this actor. -/
  finished : Bool

namespace Participant

/-- The part of an actor before the first phase. -/
def fresh (actor : String) (id : Nat) (block : Nat) (schedule : Schedule) : Participant :=
  ⟨actor, id, block, schedule, 0, none, false⟩

/-- The plan of a phase, if there is something to do in it. -/
def busyPlan? (p : Participant) (k : Nat) : Option PhasePlan :=
  (p.schedule.find? k).filter fun plan => !plan.nop

end Participant

/-- Where an actor is between two of its phases. -/
inductive Advance where
  /-- Hands back the token of the phase it worked in. -/
  | leaving (c : Call)
  /-- Looks for the last phase of the run. -/
  | bounding
  /-- Looks whether there is a next phase. -/
  | choosing (last : Nat)
  /-- Arrives for the next phase. -/
  | entering (last : Nat) (c : Call)
  /-- Hands back the token of a phase that need not wait for the actor. -/
  | passing (last k : Nat) (c : Call)
  deriving DecidableEq, Repr

namespace Advance

/-- The first point: the phase the actor worked in is left, if it is still to be left. -/
def first (p : Participant) : Participant × Advance :=
  match p.owed with
  | some k => ({ p with owed := none }, leaving (.finish k true))
  | none => (p, bounding)

/-- What a step comes to. -/
inductive Progress where
  /-- The barrier has to change first. -/
  | blocked
  | moved (a : Advance)
  /-- The actor has a phase to work in. -/
  | entered (plan : PhasePlan) (last : Nat)
  /-- There are no more phases for the actor. -/
  | over
  | failed (e : SyncError)
  | broken (message : String)

/-- The actor has no more phases. -/
def conclude (b : Barrier) (p : Participant) (r : Progress) : Barrier × Participant × Progress :=
  (b, { p with finished := true }, r)

/-- The actor has been let into phase `k`. -/
def letIn (b : Barrier) (p : Participant) (last k : Nat) :
    Barrier × Participant × Progress :=
  match addWord? p.next 1 with
  | none => (b, p, .broken overflowText)
  | some next =>
    let p := { p with next }
    match p.busyPlan? k with
    | some plan =>
      -- the token of a blocking phase stays with the actor until it asks for the next one
      if plan.blocking then (b, { p with owed := some k }, .entered plan last)
      else (b, p, .moved (.passing last k (.finish k false)))
    | none => (b, p, .moved (.passing last k (.finish k false)))

/-- One step from phase to phase. -/
def step (b : Barrier) (p : Participant) : Advance → Barrier × Participant × Progress
  | leaving c =>
    match c.step b with
    | (b, .blocked) => (b, p, .blocked)
    | (b, .moved c) => (b, p, .moved (.leaving c))
    | (b, .done (.ok _)) => (b, p, .moved .bounding)
    | (b, .done (.error e)) => conclude b p (.failed e)
    | (b, .overflow) => (b, p, .broken overflowText)
  | bounding =>
    match b.lastPhase with
    | none => conclude b p .over
    | some last => (b, p, .moved (.choosing last))
  | choosing last =>
    -- one that has finished may ask again, and gets the same answer
    if p.finished then (b, p, .over)
    else if last < p.next ∨ b.goesOn = false then conclude b p .over
    else (b, p, .moved (.entering last (.start p.next)))
  | entering last c =>
    match c.step b with
    | (b, .blocked) => (b, p, .blocked)
    | (b, .moved c) => (b, p, .moved (.entering last c))
    | (b, .done (.ok true)) => letIn b p last p.next
    | (b, .done (.ok false)) => conclude b p .over
    | (b, .done (.error e)) => conclude b p (.failed e)
    | (b, .overflow) => (b, p, .broken overflowText)
  | passing last k c =>
    match c.step b with
    | (b, .blocked) => (b, p, .blocked)
    | (b, .moved c) => (b, p, .moved (.passing last k c))
    | (b, .done (.ok _)) =>
      -- the phase goes on while others hold it open, so there may be work in it
      match p.busyPlan? k with
      | some plan => (b, p, .entered plan last)
      | none => (b, p, .moved (.choosing last))
    | (b, .done (.error e)) => conclude b p (.failed e)
    | (b, .overflow) => (b, p, .broken overflowText)

end Advance

/-- Where a participant is that is being given up. -/
inductive Farewell where
  /-- Looks whether the others would miss it. -/
  | checking
  /-- They would; looks for the phase. -/
  | reading
  /-- Aborts the run in this phase. -/
  | accusing (phase : Nat)
  deriving DecidableEq, Repr

namespace Farewell

/-- The failure of an actor that has left too early. -/
def failure (p : Participant) (phase : Nat) : Failure :=
  ⟨p.actor, p.id, phase, "exited before completing its phase schedule"⟩

/-- One step; nothing is left to do after the last one. -/
def step (b : Barrier) (p : Participant) : Farewell → Barrier × Option Farewell
  | checking => (b, if !p.finished && b.launched && b.goesOn then some reading else none)
  | reading => (b, some (accusing b.currentPhase))
  | accusing phase => (b.abort (failure p phase), none)

end Farewell

end Lockstep
