import Switchboard.Agent.Basic
import Switchboard.Agent.Capable
import Switchboard.Agent.Orchestrating
import Switchboard.Agent.Scripted
import Switchboard.Breaker.Basic
import Switchboard.Breaker.Call
import Switchboard.Breaker.Registry
import Switchboard.Bus.Basic
import Switchboard.Bus.Directory
import Switchboard.Bus.Gate
import Switchboard.Bus.Waiters
import Switchboard.Collect.Basic
import Switchboard.Collect.Collector
import Switchboard.Collect.Desk
import Switchboard.Console.Config
import Switchboard.Console.Demo
import Switchboard.Console.Home
import Switchboard.Console.Status
import Switchboard.Console.Transcript
import Switchboard.Decimal.Shortest
import Switchboard.Fault
import Switchboard.Flow.Basic
import Switchboard.Flow.Operation
import Switchboard.Graph.Basic
import Switchboard.Graph.Plan
import Switchboard.Http.Basic
import Switchboard.Http.Guarded
import Switchboard.Http.Proxy
import Switchboard.Http.Retry
import Switchboard.Inquiry
import Switchboard.Json.Basic
import Switchboard.Json.Numeral
import Switchboard.Json.Printer
import Switchboard.Json.Reader
import Switchboard.Json.Record
import Switchboard.Json.Written
import Switchboard.Main
import Switchboard.Message
import Switchboard.Network.Requests
import Switchboard.Orchestrate.Job
import Switchboard.Orchestrate.Progress
import Switchboard.Orchestrate.Report
import Switchboard.Orchestrate.Run
import Switchboard.Proofs.Breaker.Recovery
import Switchboard.Proofs.Breaker.Slots
import Switchboard.Proofs.Breaker.Traffic
import Switchboard.Proofs.Breaker.Verdicts
import Switchboard.Proofs.Graph.Built
import Switchboard.Proofs.Graph.Cycles
import Switchboard.Proofs.Graph.Order
import Switchboard.Proofs.Graph.Waves
import Switchboard.Proofs.Keyed
import Switchboard.Settings
import Switchboard.Text.Blank
import Switchboard.Text.CaseTable
import Switchboard.Text.LowerCase
import Switchboard.Text.Utf8
import Switchboard.Time.Span
import Switchboard.Time.Timestamp
import Switchboard.World.Answer
import Switchboard.World.Basic
import Switchboard.World.Run
import Switchboard.World.Turn
import Switchboard.Proofs.Collect.Standing
import Switchboard.Proofs.Collect.Operations
import Switchboard.Proofs.Collect.Correspondence
import Switchboard.Proofs.Collect.Answers
import Switchboard.Proofs.Collect.Strategies
import Switchboard.Proofs.Collect.Deadlines
import Switchboard.Proofs.Flow.Courses
import Switchboard.Proofs.World.Rounds
import Switchboard.Proofs.Orchestrate.Schedules
import Switchboard.Proofs.Orchestrate.Steps
import Switchboard.Proofs.World.Courses
import Switchboard.Proofs.Orchestrate.Records
import Switchboard.Proofs.Orchestrate.Waves
import Switchboard.Proofs.Orchestrate.Accounts
import Switchboard.Proofs.Orchestrate.Contexts
import Switchboard.Proofs.Orchestrate.Deadlines
import Switchboard.Proofs.World.Alerts
import Switchboard.Proofs.World.Grounds
import Switchboard.Proofs.World.Breakers
import Switchboard.Proofs.Timetable.Assignments
import Switchboard.Proofs.Timetable.Handlers
import Switchboard.Proofs.Collect.Backlog
import Switchboard.Proofs.Collect.Expiries
import Switchboard.Proofs.Timetable.Rosters
import Switchboard.Proofs.Timetable.Errands
import Switchboard.Proofs.Timetable.Servings
import Switchboard.Proofs.Timetable.Deliveries
import Switchboard.Proofs.Timetable.Pauses
import Switchboard.Proofs.Timetable.Timetables
import Switchboard.Proofs.Timetable.Turns
import Switchboard.Proofs.Timetable.Keeping
import Switchboard.Proofs.Timetable.Punctual
import Switchboard.Proofs.Orchestrate.Keys
import Switchboard.Proofs.Orchestrate.Sequences
import Switchboard.Proofs.Bus.Providers
import Switchboard.Proofs.Bus.Requests
import Switchboard.Proofs.Bus.Histories
import Switchboard.Proofs.Bus.Arrivals
import Switchboard.Proofs.World.Passages
import Switchboard.Proofs.World.Watch
import Switchboard.Proofs.World.Deeds
import Switchboard.Proofs.Bus.Collections
import Switchboard.Proofs.Bus.Amendments
import Switchboard.Proofs.World.Exchanges
import Switchboard.Proofs.Orchestrate.Apart
import Switchboard.Proofs.Bus.Expectations
import Switchboard.Proofs.Bus.Evictions
import Switchboard.Proofs.Inquiry.Replies
import Switchboard.Proofs.Inquiry.Requests
import Switchboard.Proofs.Flow.Endings
import Switchboard.Proofs.Agent.Answers
import Switchboard.Proofs.Agent.Turns
import Switchboard.Proofs.Agent.Handlings
import Switchboard.Proofs.Http.Retries
import Switchboard.Proofs.Http.Sessions
import Switchboard.Proofs.Json.Fields
import Switchboard.Proofs.Collect.Merging
import Switchboard.Proofs.Http.Hosts
import Switchboard.Proofs.Inquiry.Cleanup
import Switchboard.Proofs.Http.Exemptions
import Switchboard.Proofs.Collect.Sweeps
import Switchboard.Proofs.Breaker.Refusals
import Switchboard.Proofs.Bus.Fallbacks
import Switchboard.Proofs.Reports
import Switchboard.Proofs.Graph.Reading
import Switchboard.Proofs.Orchestrate.Listings
import Switchboard.Proofs.Json.Printer
import Switchboard.Proofs.Orchestrate.Summaries
import Switchboard.Proofs.Json.Readers
import Switchboard.Proofs.Json.Remnants
import Switchboard.Proofs.Settings
