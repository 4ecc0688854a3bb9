import CodeReader.Txn.Prog
import CodeReader.Txn.System
import CodeReader.Txn.RelyGuarantee
import CodeReader.Txn.Transaction
import CodeReader.Txn.Commits
import CodeReader.Txn.Keyed
import CodeReader.Txn.Lift
import CodeReader.Txn.Ensures
import CodeReader.Txn.Embed
import CodeReader.Txn.Tenants
import CodeReader.Txn.History
import CodeReader.Text.Hex
import CodeReader.Text.Json
import CodeReader.Ledger.Links
import CodeReader.Ledger.Suffix
import CodeReader.Ledger.Batch
import CodeReader.Core.Calendar
import CodeReader.Core.Idempotency
import CodeReader.Models.UserState
import CodeReader.Streak.Service
import CodeReader.Streak.Recon
import CodeReader.Streak.Router
import CodeReader.Streak.Spec
import CodeReader.Attempts.Service
import CodeReader.Attempts.Spec
import CodeReader.Runs.Serial
import CodeReader.Runs.LedgerStep
import CodeReader.Runs.Chain
import CodeReader.Runs.Timezone
import CodeReader.Runs.Eastward
import CodeReader.Runs.SingleZone
import CodeReader.Runs.Repair
import CodeReader.Runs.Declarative
import CodeReader.Runs.Freezes
import CodeReader.Runs.Grants
import CodeReader.Requests.System
import CodeReader.Requests.Frame
import CodeReader.Requests.Commands
import CodeReader.Requests.Rely
import CodeReader.Requests.Handlers
import CodeReader.Requests.OncePerDay
import CodeReader.Requests.Serializable
import CodeReader.Requests.Midnight
import CodeReader.Requests.RepairOwner
import CodeReader.Requests.Users
import CodeReader.Requests.Outages
import CodeReader.Grading.Service
import CodeReader.Grading.Tally
import CodeReader.Grading.Spec
import CodeReader.Grading.Serial
import CodeReader.Grading.Concurrent
import CodeReader.Exercises.Service
import CodeReader.Exercises.Spec
import CodeReader.Exercises.Versions
import CodeReader.Sessions.Sampler
import CodeReader.Sessions.Service
import CodeReader.Sessions.Spec
import CodeReader.Sessions.Completion
import CodeReader.Sessions.Stable
import CodeReader.Auth.Service
import CodeReader.Auth.Spec
import CodeReader.Auth.Usernames
import CodeReader.Auth.Beta
import CodeReader.Auth.Refresh
import CodeReader.Email.Consent
import CodeReader.Email.Ownership
import CodeReader.Email.Concurrent
import CodeReader.Email.Candidates
import CodeReader.Core.Ratelimit
import CodeReader.Grading.Mastery
import CodeReader.Grading.Rubric
import CodeReader.Txn.Script
import CodeReader.Sessions.SamplerLaw
import CodeReader.Sessions.Payload
import CodeReader.Requests.Reservations
import CodeReader.Text.Lines
import CodeReader.Text.Difflib
import CodeReader.Pipeline.Schemas
import CodeReader.Pipeline.SandboxGate
import CodeReader.Attempts.Grading
import CodeReader.Pipeline.SemanticGates
import CodeReader.Pipeline.Publish
import CodeReader.Pipeline.Answerable
import CodeReader.Pipeline.LineNumbers
import CodeReader.Pipeline.Orchestrator
import CodeReader.Pipeline.Resolution
import CodeReader.Pipeline.Batch
import CodeReader.Email.Dispatch
import CodeReader.Email.DeliveryProtocol
import CodeReader.Core.Network
import CodeReader.Text.Integers
import CodeReader.Core.IsoWeeks
import CodeReader.Email.RecapPeriods
import CodeReader.Streak.FreezeNotes
import CodeReader.Email.Recap
import CodeReader.Pipeline.Shuffling
import CodeReader.Pipeline.Reshuffle
import CodeReader.Pipeline.FixKeys
import CodeReader.Core.Months
import CodeReader.Jobs.Partitions
import CodeReader.Jobs.Maintenance
import CodeReader.Text.Base64
import CodeReader.Text.PyJson
import CodeReader.Text.Uuids
import CodeReader.Auth.Tokens
import CodeReader.Email.Unsubscribe
import CodeReader.Pipeline.Scoring
import CodeReader.Pipeline.VerifiedLines
import CodeReader.Pipeline.AvoidPatterns
import CodeReader.Jobs.Percentiles
import CodeReader.Text.Nesting
import CodeReader.Frontend.Signature
import CodeReader.Text.Replace
import CodeReader.Pipeline.Prompts
import CodeReader.Python.Ast
import CodeReader.Python.Renaming
import CodeReader.Pipeline.StaticGate
import CodeReader.Pipeline.Dedup
import CodeReader.Core.Batches
import CodeReader.Pipeline.Ingest
import CodeReader.Text.Urls
import CodeReader.Core.Db
import CodeReader.Text.Regex
import CodeReader.Email.Address
import CodeReader.Disputes.Concurrent
import CodeReader.Reviews.Concurrent
import CodeReader.Core.Zones
import CodeReader.Sessions.Windows
import CodeReader.Core.Sentry
import CodeReader.Email.SentOnce
import CodeReader.Email.RetryWindow
import CodeReader.Email.Withdrawn
import CodeReader.Core.Expiring
import CodeReader.Core.GraderHealth
import CodeReader.Http.Layers
import CodeReader.Http.App
import CodeReader.Http.Flood
import CodeReader.Txn.Sequel
import CodeReader.Email.Triggers
import CodeReader.Jobs.Trigger
import CodeReader.Frontend.Refresh
import CodeReader.Core.Metrics
import CodeReader.Auth.OAuth
import CodeReader.Frontend.Player
import CodeReader.Frontend.AnswerShape
import CodeReader.Pipeline.Report
