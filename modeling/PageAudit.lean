import PageAudit.Attempt.Engine
import PageAudit.Attempt.Error
import PageAudit.Attempt.Flow
import PageAudit.Attempt.Run
import PageAudit.Attempt.Site
import PageAudit.Attempt.Url
import PageAudit.Browser.Chrome
import PageAudit.Browser.Executable
import PageAudit.Browser.Profile
import PageAudit.Browser.Startup
import PageAudit.Calendar.Date
import PageAudit.Calendar.Stamp
import PageAudit.Command.Error
import PageAudit.Command.Programs
import PageAudit.Command.Session
import PageAudit.Concurrency.Basic
import PageAudit.Concurrency.Window
import PageAudit.Config.Basic
import PageAudit.Config.Document
import PageAudit.Config.Environment
import PageAudit.Config.Error
import PageAudit.Config.Load
import PageAudit.Config.Validity
import PageAudit.Decimal.Layout
import PageAudit.Decimal.Numeral
import PageAudit.Decimal.Shortest
import PageAudit.Document.Data
import PageAudit.Document.Lookup
import PageAudit.Document.Record
import PageAudit.Engine.Manifest
import PageAudit.Engine.Node
import PageAudit.Engine.Output
import PageAudit.Files.Path
import PageAudit.Files.Slot
import PageAudit.Files.Tree
import PageAudit.Job.Basic
import PageAudit.Job.Calls
import PageAudit.Job.Result
import PageAudit.Json.Printer
import PageAudit.Json.Reader
import PageAudit.Ledger.Entry
import PageAudit.Ledger.Folder
import PageAudit.Ledger.Store
import PageAudit.Log.Line
import PageAudit.Log.Run
import PageAudit.Memory.Monitor
import PageAudit.Memory.Pressure
import PageAudit.Plan
import PageAudit.Pool.Report
import PageAudit.Pool.Session
import PageAudit.Pool.Settle
import PageAudit.Pool.State
import PageAudit.Pool.Turn
import PageAudit.Progress.Event
import PageAudit.Progress.Reporter
import PageAudit.Progress.Summary
import PageAudit.Proofs.Attempt.Addresses
import PageAudit.Proofs.Attempt.Balance
import PageAudit.Proofs.Attempt.Crew
import PageAudit.Proofs.Attempt.Holdings
import PageAudit.Proofs.Attempt.Interruptions
import PageAudit.Proofs.Attempt.Minding
import PageAudit.Proofs.Attempt.Outcomes
import PageAudit.Proofs.Browser.Profiles
import PageAudit.Proofs.Calendar.Days
import PageAudit.Proofs.Calendar.Stamps
import PageAudit.Proofs.Concurrency.Changes
import PageAudit.Proofs.Concurrency.Courses
import PageAudit.Proofs.Concurrency.Growth
import PageAudit.Proofs.Concurrency.Regulation
import PageAudit.Proofs.Concurrency.Window
import PageAudit.Proofs.Config.Validity
import PageAudit.Proofs.Decimal.Digits
import PageAudit.Proofs.Engine.Output
import PageAudit.Proofs.Files.Tree
import PageAudit.Proofs.Job.Calls
import PageAudit.Proofs.Job.Steps
import PageAudit.Proofs.Json.Records
import PageAudit.Proofs.Json.RoundTrip
import PageAudit.Proofs.Keys
import PageAudit.Proofs.Ledger.Calls
import PageAudit.Proofs.Ledger.Store
import PageAudit.Proofs.Memory.Smoothing
import PageAudit.Proofs.Plan
import PageAudit.Proofs.Plan.Loading
import PageAudit.Proofs.Pool.Accounts
import PageAudit.Proofs.Pool.Act
import PageAudit.Proofs.Pool.Attempts
import PageAudit.Proofs.Pool.Bounds
import PageAudit.Proofs.Pool.Browsers
import PageAudit.Proofs.Pool.Collisions
import PageAudit.Proofs.Pool.Consistency
import PageAudit.Proofs.Pool.Courses
import PageAudit.Proofs.Pool.Delays
import PageAudit.Proofs.Pool.Dispatching
import PageAudit.Proofs.Pool.Draining
import PageAudit.Proofs.Pool.Endings
import PageAudit.Proofs.Pool.Flights
import PageAudit.Proofs.Pool.Foregone
import PageAudit.Proofs.Pool.Hearing
import PageAudit.Proofs.Pool.Interruptions
import PageAudit.Proofs.Pool.Minding
import PageAudit.Proofs.Pool.Parts
import PageAudit.Proofs.Pool.Phases
import PageAudit.Proofs.Pool.Places
import PageAudit.Proofs.Pool.PlanOrder
import PageAudit.Proofs.Pool.Preemption
import PageAudit.Proofs.Pool.Reference
import PageAudit.Proofs.Pool.Requeues
import PageAudit.Proofs.Pool.Runs
import PageAudit.Proofs.Pool.Session
import PageAudit.Proofs.Pool.Settling
import PageAudit.Proofs.Pool.Slots
import PageAudit.Proofs.Pool.Sound
import PageAudit.Proofs.Pool.Tracking
import PageAudit.Proofs.Pool.Turns
import PageAudit.Proofs.Pool.Waiting
import PageAudit.Proofs.Pool.Weights
import PageAudit.Proofs.Progress.Course
import PageAudit.Proofs.Progress.LogFile
import PageAudit.Proofs.Retry.Alone
import PageAudit.Proofs.Retry.Delays
import PageAudit.Proofs.Run.Accounts
import PageAudit.Proofs.Run.Actions
import PageAudit.Proofs.Run.Browsers
import PageAudit.Proofs.Run.Calls
import PageAudit.Proofs.Run.Closing
import PageAudit.Proofs.Run.Collisions
import PageAudit.Proofs.Run.Completeness
import PageAudit.Proofs.Run.Conduct
import PageAudit.Proofs.Run.Courses
import PageAudit.Proofs.Run.Draining
import PageAudit.Proofs.Run.History
import PageAudit.Proofs.Run.Interruptions
import PageAudit.Proofs.Run.Leading
import PageAudit.Proofs.Run.Minding
import PageAudit.Proofs.Run.Parts
import PageAudit.Proofs.Run.Returning
import PageAudit.Proofs.Run.Shown
import PageAudit.Proofs.Run.Steps
import PageAudit.Proofs.Run.Unaudited
import PageAudit.Proofs.Supervisor.Balance
import PageAudit.Proofs.Supervisor.Leases
import PageAudit.Proofs.Supervisor.Limits
import PageAudit.Proofs.Supervisor.Minding
import PageAudit.Proofs.Supervisor.Operations
import PageAudit.Proofs.Supervisor.Places
import PageAudit.Proofs.Supervisor.Receding
import PageAudit.Proofs.Supervisor.Recovery
import PageAudit.Proofs.Supervisor.Sweeping
import PageAudit.Proofs.Supervisor.Traffic
import PageAudit.Proofs.Text.Lines
import PageAudit.Proofs.Text.Utf8
import PageAudit.Retry
import PageAudit.Run.Control
import PageAudit.Run.Coordinator
import PageAudit.Run.Error
import PageAudit.Run.History
import PageAudit.Run.Report
import PageAudit.Run.State
import PageAudit.Scenario.Pool
import PageAudit.Scenario.Script
import PageAudit.Shell.Script
import PageAudit.Shell.Token
import PageAudit.Simulation.Executor
import PageAudit.Simulation.Order
import PageAudit.Simulation.PoolRun
import PageAudit.Simulation.RunOverTime
import PageAudit.Supervisor.Basic
import PageAudit.Supervisor.Desk
import PageAudit.Supervisor.Kills
import PageAudit.Supervisor.Launcher
import PageAudit.Supervisor.Registry
import PageAudit.Supervisor.Session
import PageAudit.Text.Basic
import PageAudit.Text.Lines
import PageAudit.Text.Utf8
import PageAudit.Toml.Reader
import PageAudit.Toml.Scalar
import PageAudit.Toml.Table
import PageAudit.Main
