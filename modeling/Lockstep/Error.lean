import Lockstep.Selector
import Lockstep.Toml.Decode

/-!
# Errors

Every stage of a run has its own type of errors.  Setup errors stop a run before any actor starts;
errors during the run end it, and a `RunError` names the actor and the phase that failed.

* `message` is the text of an error, and `sources` are the texts of the errors behind it, the
  nearest first; an error that only passes another one on has the text and the sources of that one;
* `ActorError.isAftermath` tells the actors that only failed because the run was aborted.
-/

namespace Lockstep

/-- How an identity is written. -/
def actorText (id : Nat) : String := "#" ++ toString id

/-- The words that say which actor an error is about. -/
def placeText (actor : String) (id : Nat) (verb : String) (phase : Nat) : String :=
  "actor `" ++ actor ++ "` (" ++ actorText id ++ ") " ++ verb ++ " in phase " ++ toString phase

/-- A workload that cannot be read or set up. -/
inductive ConfigError where
  | parse (cause : Toml.DecodeError)
  | read (path reason : String)
  | noActors
  | unknownActorType (name : String)
  | noThreads (actor : String)
  | invalidDuration (text : String)
  | invalidRate (text : String)
  | invalidPhase (actor : String) (phase : Nat) (reason : String)
  | duplicatePhase (actor : String) (phase : Nat)
  | param (actor : String) (phase : Option Nat) (cause : Toml.DecodeError)
  | missingParam (actor key : String)

namespace ConfigError

/-- The text of the error. -/
def message : ConfigError → String
  | parse cause => "failed to parse workload configuration: " ++ cause.message
  | read path reason => "failed to read " ++ path ++ ": " ++ reason
  | noActors => "workload defines no actors"
  | unknownActorType name => "unknown actor type `" ++ name ++ "`"
  | noThreads actor => "actor `" ++ actor ++ "`: Threads must be at least 1"
  | invalidDuration text => Toml.durationComplaint text
  | invalidRate text => Toml.rateComplaint text
  | invalidPhase actor phase reason =>
    "actor `" ++ actor ++ "` phase " ++ toString phase ++ ": " ++ reason
  | duplicatePhase actor phase =>
    "actor `" ++ actor ++ "` defines phase " ++ toString phase ++ " more than once"
  | param actor phase cause =>
    let place := match phase with
      | some n => " in phase " ++ toString n
      | none => ""
    "actor `" ++ actor ++ "`: invalid parameter" ++ place ++ ": " ++ cause.message
  | missingParam actor key => "actor `" ++ actor ++ "`: missing parameter `" ++ key ++ "`"

/-- The texts of the errors behind it. -/
def sources : ConfigError → List String
  | parse cause => [cause.message]
  | read _ reason => [reason]
  | param _ _ cause => [cause.message]
  | _ => []

end ConfigError

/-- What an actor learns at a barrier of a run that is over. -/
inductive SyncError where
  | aborted (reason : String)
  | closed
  deriving DecidableEq, Repr

/-- The text of the error. -/
def SyncError.message : SyncError → String
  | aborted reason => "run aborted: " ++ reason
  | closed => "orchestrator is gone"

/-- A measurement that was not recorded. -/
inductive MetricsError where
  | disconnected (operation : String)
  | rejected (operation reason : String)
  deriving DecidableEq, Repr

/-- The text of the error. -/
def MetricsError.message : MetricsError → String
  | disconnected operation =>
    "metrics backend disconnected while recording `" ++ operation ++ "`"
  | rejected operation reason =>
    "metrics backend rejected `" ++ operation ++ "`: " ++ reason

/-- A piece of shared state that is not to be had. -/
inductive StateError where
  | construction (key reason : String)
  | previouslyFailed (key reason : String)
  | typeMismatch (key expected : String)
  | unregistered (key : String)
  | alreadyRegistered (key : String)
  deriving DecidableEq, Repr

namespace StateError

/-- The text of the error. -/
def message : StateError → String
  | construction key reason => "failed to construct shared state `" ++ key ++ "`: " ++ reason
  | previouslyFailed key reason =>
    "shared state `" ++ key ++ "` failed to construct earlier: " ++ reason
  | typeMismatch key expected =>
    "shared state `" ++ key ++ "` holds a different type than `" ++ expected ++ "`"
  | unregistered key => "shared state `" ++ key ++ "` has no registered factory"
  | alreadyRegistered key => "shared state `" ++ key ++ "` is already registered"

/-- The texts of the errors behind it. -/
def sources : StateError → List String
  | construction _ reason => [reason]
  | _ => []

end StateError

/-- An actor that cannot be built. -/
inductive SetupError where
  | config (cause : ConfigError)
  | state (cause : StateError)

namespace SetupError

/-- The text of the error. -/
def message : SetupError → String
  | config cause => cause.message
  | state cause => cause.message

/-- The texts of the errors behind it. -/
def sources : SetupError → List String
  | config cause => cause.sources
  | state cause => cause.sources

end SetupError

/-- What an actor itself found wrong. -/
inductive WorkloadFault where
  | text (s : String)
  | config (cause : ConfigError)

namespace WorkloadFault

/-- The text of the error. -/
def message : WorkloadFault → String
  | text s => s
  | config cause => cause.message

/-- The texts of the errors behind it. -/
def sources : WorkloadFault → List String
  | text _ => []
  | config cause => cause.sources

end WorkloadFault

/-- An actor that failed while it was running. -/
inductive ActorError where
  | sync (cause : SyncError)
  | metrics (cause : MetricsError)
  | state (cause : StateError)
  | workload (cause : WorkloadFault)

namespace ActorError

/-- The text of the error. -/
def message : ActorError → String
  | sync cause => cause.message
  | metrics cause => cause.message
  | state cause => cause.message
  | workload cause => cause.message

/-- The texts of the errors behind it. -/
def sources : ActorError → List String
  | sync _ => []
  | metrics _ => []
  | state cause => cause.sources
  | workload cause => cause.message :: cause.sources

/-- The actor only failed because another one had aborted the run. -/
def isAftermath : ActorError → Bool
  | sync (.aborted _) => true
  | _ => false

end ActorError

/-- Where an actor is in its life; it goes through the three states in this order. -/
inductive Lifecycle where
  | constructed
  | running
  | terminated
  deriving DecidableEq, Repr

/-- The name of the state. -/
def Lifecycle.text : Lifecycle → String
  | constructed => "Constructed"
  | running => "Running"
  | terminated => "Terminated"

/-- The complaint about a step that an actor in this state cannot take. -/
def Lifecycle.complaint (s : Lifecycle) : String := "actor is already " ++ s.text

/-- The first failure of a run. -/
structure Failure where
  actor : String
  id : Nat
  phase : Nat
  message : String
  deriving DecidableEq, Repr

/-- The text of a failure. -/
def Failure.text (f : Failure) : String :=
  placeText f.actor f.id "failed" f.phase ++ ": " ++ f.message

/-- A run that failed. -/
inductive RunError where
  | config (cause : ConfigError)
  | setup (actor : String) (cause : SetupError)
  | actorFailed (actor : String) (id : Nat) (phase : Nat) (cause : ActorError)
  | actorPanicked (actor : String) (id : Nat) (phase : Nat) (message : String)
  | actorExited (actor : String) (id : Nat) (phase : Nat)
  | lifecycle (state : Lifecycle)

namespace RunError

/-- The text of the error. -/
def message : RunError → String
  | config cause => "invalid workload: " ++ cause.message
  | setup actor cause => "failed to set up actor `" ++ actor ++ "`: " ++ cause.message
  | actorFailed actor id phase cause => placeText actor id "failed" phase ++ ": " ++ cause.message
  | actorPanicked actor id phase message =>
    placeText actor id "panicked" phase ++ ": " ++ message
  | actorExited actor id phase =>
    placeText actor id "exited" phase ++ " before completing its phase schedule"
  | lifecycle state => state.complaint

/-- The texts of the errors behind it. -/
def sources : RunError → List String
  | config cause => cause.message :: cause.sources
  | setup _ cause => cause.message :: cause.sources
  | actorFailed _ _ _ cause => cause.message :: cause.sources
  | _ => []

end RunError

end Lockstep
