import Lockstep.Actors.Kinds
import Lockstep.System

/-!
# Setting up a workload

All actors are built before any of them runs: block by block, as many of each block as it has
threads.  The first block that cannot be set up fails the whole workload.

* `Assembly` is what has been set up so far;
* `setUp` sets a workload up, and `Assembly.system` is the system that is ready to run.
-/

namespace Lockstep

/-- What has been set up so far. -/
structure Assembly where
  site : Site
  buckets : SortedMap Nat (SortedMap Nat Bucket)
  tasks : List (Task Mind)

namespace Assembly

/-- Nothing has been set up, but there is some shared state. -/
def start (store : Store) : Assembly := ⟨⟨.fresh, store, 0⟩, .empty, []⟩

/-- The system that is ready to run. -/
def system (a : Assembly) (sink : Sink) : System Mind where
  world :=
    { now := 0, barrier := a.site.barrier, buckets := a.buckets, store := a.site.store, sink }
  tasks := a.tasks

end Assembly

/-- Sets something up; what has been set up stays so even when setting up fails. -/
abbrev SettingUp := ExceptT (OrPanic RunError) (StateM Assembly)

/-- The task of an actor of a block, with an identity of its own. -/
def buildTask (kind : Kind) (s : Setting) : Building (Task Mind) := do
  let id ← nextId
  let (mind, loop) ← kind.build s id
  return .fresh s.name id mind loop

/-- Takes in what an attempt to build an actor has come to. -/
def takeIn (s : Setting) (built : Except (OrPanic SetupError) (Task Mind)) (site : Site) :
    SettingUp Unit := do
  -- what the attempt has taken, such as a number, stays taken
  modifyThe Assembly fun a => { a with site }
  match built with
  | .ok task => modifyThe Assembly fun a => { a with tasks := a.tasks ++ [task] }
  | .error cause => throw (cause.map (.setup s.name))

/-- Builds an actor of a block. -/
def buildActor (kind : Kind) (s : Setting) : SettingUp Unit := do
  let a ← getThe Assembly
  let (built, site) := ((buildTask kind s).run a.site).run
  takeIn s built site

/-- The full buckets of the phases with a rate. -/
def fullBuckets (s : Schedule) : SortedMap Nat Bucket :=
  SortedMap.ofList (s.values.filterMap fun plan =>
    plan.rate.map fun rate => (plan.number, Bucket.full rate 0))

/-- The run lasts as long as a schedule wants, and the rates of the schedule get their buckets. -/
def Assembly.enter (a : Assembly) (index : Nat) (s : Schedule) : Assembly :=
  { a with
    site := { a.site with barrier := s.last?.elim a.site.barrier a.site.barrier.extendTo }
    buckets := a.buckets.insert index (fullBuckets s) }

/-- Does something `n` times. -/
def repeatedly (f : SettingUp Unit) : (n : Nat) → SettingUp Unit
  | 0 => return ()
  | n + 1 => do
    f
    repeatedly f n

/-- Sets a block up. -/
def setUpBlock (roster : Roster) (index : Nat) (block : Block) : SettingUp Unit := do
  match roster.find? block.actorType with
  | none => throw (.error (.config (.unknownActorType block.actorType)))
  | some kind =>
    let name := block.name.getD kind.defaultName
    match Schedule.ofBlock name block with
    | .error cause => throw (cause.map .config)
    | .ok schedule =>
      modifyThe Assembly (Assembly.enter · index schedule)
      repeatedly (buildActor kind ⟨block, index, name, schedule⟩) block.threads

/-- Sets all blocks up. -/
def setUpBlocks (roster : Roster) : (index : Nat) → List Block → SettingUp Unit
  | _, [] => return ()
  | index, block :: blocks => do
    setUpBlock roster index block
    setUpBlocks roster (index + 1) blocks

/-- Sets a workload up, given the kinds it may name and some shared state. -/
def setUp (roster : Roster) (w : Workload) (store : Store) :
    Except (OrPanic RunError) Unit × Assembly :=
  ((setUpBlocks roster 0 w.actors).run (.start store)).run

end Lockstep
