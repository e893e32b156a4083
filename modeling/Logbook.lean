import Logbook.CommandLine
import Logbook.Config.Datum
import Logbook.Config.Decode
import Logbook.Config.Load
import Logbook.Config.Schema
import Logbook.Config.Validation
import Logbook.Delivery.Memory
import Logbook.Delivery.Shipper
import Logbook.Diagnostic
import Logbook.Diagnostic.Filter
import Logbook.Failure
import Logbook.Http.Handoff
import Logbook.Http.InFlight
import Logbook.Http.Listener
import Logbook.Http.Request
import Logbook.Http.Response
import Logbook.Json
import Logbook.Json.Reader
import Logbook.KeyMap
import Logbook.Main
import Logbook.Metrics
import Logbook.Net.Address
import Logbook.Net.Listening
import Logbook.Number.Decimal
import Logbook.Number.Digits
import Logbook.Number.Shortest
import Logbook.Proofs.Config.Accepted
import Logbook.Proofs.Config.Rules
import Logbook.Proofs.Counters
import Logbook.Proofs.Delivery.Shipment
import Logbook.Proofs.Delivery.Shipped
import Logbook.Proofs.Delivery.Torn
import Logbook.Proofs.Http.Agreement
import Logbook.Proofs.Http.Answered
import Logbook.Proofs.Http.Completion
import Logbook.Proofs.Http.Custody
import Logbook.Proofs.Http.Front
import Logbook.Proofs.Http.Idle
import Logbook.Proofs.Http.Tracked
import Logbook.Proofs.Http.Verdict
import Logbook.Proofs.Json.Distinct
import Logbook.Proofs.Json.Hidden
import Logbook.Proofs.Json.Numerals
import Logbook.Proofs.Json.ReadBack
import Logbook.Proofs.Json.Strings
import Logbook.Proofs.Json.Written
import Logbook.Proofs.Lists
import Logbook.Proofs.Mask.Members
import Logbook.Proofs.Mask.Offsets
import Logbook.Proofs.Mask.Orders
import Logbook.Proofs.Mask.Quoted
import Logbook.Proofs.Mask.Scan
import Logbook.Proofs.Mask.Segments
import Logbook.Proofs.Mask.Settled
import Logbook.Proofs.Mask.Stretches
import Logbook.Proofs.Mask.Truncated
import Logbook.Proofs.Number.Digits
import Logbook.Proofs.Number.Hexadecimal
import Logbook.Proofs.Number.Rounding
import Logbook.Proofs.Number.Text
import Logbook.Proofs.Number.Unsigned
import Logbook.Proofs.Record.Contents
import Logbook.Proofs.Record.Ending
import Logbook.Proofs.Record.History
import Logbook.Proofs.Record.Kept
import Logbook.Proofs.Record.Logs
import Logbook.Proofs.Record.OneLine
import Logbook.Proofs.Shutdown.Budgets
import Logbook.Proofs.Shutdown.Closings
import Logbook.Proofs.Shutdown.Configured
import Logbook.Proofs.Shutdown.Deadline
import Logbook.Proofs.Shutdown.Deeds
import Logbook.Proofs.Shutdown.Drains
import Logbook.Proofs.Shutdown.Order
import Logbook.Proofs.Shutdown.Runs
import Logbook.Proofs.Shutdown.StopRecord
import Logbook.Proofs.Shutdown.Stopped
import Logbook.Proofs.Shutdown.Stopping
import Logbook.Proofs.Startup.Calls
import Logbook.Proofs.Startup.Histories
import Logbook.Proofs.Text.Ascii
import Logbook.Proofs.Text.Blank
import Logbook.Proofs.Text.Utf8
import Logbook.Proofs.Trace.Decoded
import Logbook.Proofs.Trace.Issued
import Logbook.Proofs.Trace.Layout
import Logbook.Proofs.Trace.Registered
import Logbook.Proofs.Trace.TypePaths
import Logbook.Proofs.Trace.Writes
import Logbook.Proofs.Work.Calm
import Logbook.Proofs.Work.Conservation
import Logbook.Proofs.Work.Drained
import Logbook.Proofs.Work.Executor
import Logbook.Proofs.Work.Gauges
import Logbook.Proofs.Work.Ledger
import Logbook.Proofs.Work.Lineage
import Logbook.Proofs.Work.Losses
import Logbook.Proofs.Work.Traffic
import Logbook.Proofs.Work.Unit
import Logbook.Proofs.Work.Whole
import Logbook.Proofs.Work.Workshop
import Logbook.Record
import Logbook.Record.Line
import Logbook.Record.Outcome
import Logbook.Rehearsal.Activity
import Logbook.Rehearsal.Answer
import Logbook.Rehearsal.Bodies
import Logbook.Rehearsal.Drains
import Logbook.Rehearsal.Orders
import Logbook.Rehearsal.Requests
import Logbook.Rehearsal.Schedule
import Logbook.Rehearsal.Script
import Logbook.Rehearsal.Shipping
import Logbook.Rehearsal.Transcript
import Logbook.Rehearsal.Waits
import Logbook.Rehearsal.World
import Logbook.Service
import Logbook.Service.Launch
import Logbook.Shutdown.Sequencer
import Logbook.Shutdown.Stage
import Logbook.Shutdown.Standard
import Logbook.Startup
import Logbook.Text.Ascii
import Logbook.Text.Blank
import Logbook.Text.Escaped
import Logbook.Text.Lossy
import Logbook.Text.Unseen
import Logbook.Text.Utf8
import Logbook.Time.Date
import Logbook.Toml.Document
import Logbook.Toml.Number
import Logbook.Toml.Text
import Logbook.Toml.Value
import Logbook.Trace.Census
import Logbook.Trace.Id
import Logbook.Trace.Mask
import Logbook.Trace.Scope
import Logbook.Trace.TypePath
import Logbook.Waiters
import Logbook.Work.Crew
import Logbook.Work.Pool
import Logbook.Work.Tracker
import Logbook.Work.Unit
