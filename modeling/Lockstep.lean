import Lockstep.Actors.Flaky
import Lockstep.Actors.Greeter
import Lockstep.Actors.Kinds
import Lockstep.Actors.PoolUser
import Lockstep.Actors.Probe
import Lockstep.Actors.Puppet
import Lockstep.Actors.Script
import Lockstep.Barrier
import Lockstep.Barrier.Call
import Lockstep.Barrier.Crowd
import Lockstep.Behaviour
import Lockstep.Bucket
import Lockstep.Bucket.Company
import Lockstep.Bucket.Draw
import Lockstep.Bucket.Race
import Lockstep.Build
import Lockstep.Clock
import Lockstep.Config
import Lockstep.Decimal.Binary64
import Lockstep.Decimal.Layout
import Lockstep.Decimal.Nearest
import Lockstep.Decimal.Rounding
import Lockstep.Decimal.Shortest
import Lockstep.Duration
import Lockstep.Duration.Grammar
import Lockstep.Duration.Layout
import Lockstep.Error
import Lockstep.Json.Read
import Lockstep.Json.Render
import Lockstep.Metrics.Background
import Lockstep.Metrics.Census
import Lockstep.Metrics.Collector
import Lockstep.Metrics.Desk
import Lockstep.Metrics.Event
import Lockstep.Metrics.Relay
import Lockstep.Metrics.Sink
import Lockstep.Metrics.Tally
import Lockstep.Note
import Lockstep.Participant
import Lockstep.Policy
import Lockstep.Proofs.Accounts
import Lockstep.Proofs.Answers
import Lockstep.Proofs.Arithmetic
import Lockstep.Proofs.Batches
import Lockstep.Proofs.Blame
import Lockstep.Proofs.Completion
import Lockstep.Proofs.Conservation
import Lockstep.Proofs.Course
import Lockstep.Proofs.CourseRuns
import Lockstep.Proofs.CourseSteps
import Lockstep.Proofs.Culpability
import Lockstep.Proofs.Decimals
import Lockstep.Proofs.DeskLog
import Lockstep.Proofs.Draining
import Lockstep.Proofs.Drawing
import Lockstep.Proofs.Entries
import Lockstep.Proofs.FailurePhase
import Lockstep.Proofs.Faults
import Lockstep.Proofs.FloatValues
import Lockstep.Proofs.GivenUpParts
import Lockstep.Proofs.Granting
import Lockstep.Proofs.GreeterBalance
import Lockstep.Proofs.GreeterRuns
import Lockstep.Proofs.GreeterSteps
import Lockstep.Proofs.Greetings
import Lockstep.Proofs.Halting
import Lockstep.Proofs.Handouts
import Lockstep.Proofs.Headroom
import Lockstep.Proofs.Holding
import Lockstep.Proofs.InStep
import Lockstep.Proofs.JsonCharacters
import Lockstep.Proofs.JsonTexts
import Lockstep.Proofs.KeyStates
import Lockstep.Proofs.Measuring
import Lockstep.Proofs.Naming
import Lockstep.Proofs.OrderlyStop
import Lockstep.Proofs.Pausing
import Lockstep.Proofs.Permits
import Lockstep.Proofs.PolicyChecks
import Lockstep.Proofs.Progress
import Lockstep.Proofs.Ready
import Lockstep.Proofs.Record
import Lockstep.Proofs.RecordBalance
import Lockstep.Proofs.Refusals
import Lockstep.Proofs.ReportJson
import Lockstep.Proofs.Reports
import Lockstep.Proofs.Resolution
import Lockstep.Proofs.Rounds
import Lockstep.Proofs.Scaling
import Lockstep.Proofs.Seconds
import Lockstep.Proofs.SetUpResults
import Lockstep.Proofs.SetUpSystems
import Lockstep.Proofs.SetUpTasks
import Lockstep.Proofs.Sharing
import Lockstep.Proofs.ShortestDecimals
import Lockstep.Proofs.Stamps
import Lockstep.Proofs.Stopping
import Lockstep.Proofs.Supply
import Lockstep.Proofs.TallyJson
import Lockstep.Proofs.TallyMerge
import Lockstep.Proofs.TextGrammars
import Lockstep.Proofs.TokenPlaces
import Lockstep.Proofs.Tokens
import Lockstep.Proofs.Trimming
import Lockstep.Proofs.Turn
import Lockstep.Proofs.Updates
import Lockstep.Proofs.Yielding
import Lockstep.Rate
import Lockstep.Rehearsal
import Lockstep.Report
import Lockstep.Run
import Lockstep.Schedule
import Lockstep.Selector
import Lockstep.Setup
import Lockstep.SortedMap
import Lockstep.Stint
import Lockstep.Store
import Lockstep.Store.Session
import Lockstep.Store.Visit
import Lockstep.System
import Lockstep.Task
import Lockstep.Text.Blank
import Lockstep.Text.Glyph
import Lockstep.Text.Numeral
import Lockstep.Text.Quoted
import Lockstep.Timeline
import Lockstep.Toml.Decode
import Lockstep.Toml.Lexeme
import Lockstep.Toml.Moment
import Lockstep.Toml.Outline
import Lockstep.Toml.Reader
import Lockstep.Toml.Recognize
import Lockstep.Toml.Scan
import Lockstep.Toml.Value
import Lockstep.Word
