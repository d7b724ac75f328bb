import OnceOnly.Address
import OnceOnly.Call.Basic
import OnceOnly.Call.Controller
import OnceOnly.Call.Exchange
import OnceOnly.Call.Failure
import OnceOnly.Call.Phase
import OnceOnly.Call.Registry
import OnceOnly.Call.Response
import OnceOnly.Dedup.Basic
import OnceOnly.Dedup.Client
import OnceOnly.Dedup.Interrupted
import OnceOnly.Dedup.Record
import OnceOnly.Dedup.Sweep
import OnceOnly.Endpoint
import OnceOnly.Issuer
import OnceOnly.Keyed.SortedMap
import OnceOnly.Ledger.Account
import OnceOnly.Ledger.Budget
import OnceOnly.Ledger.ChargedMap
import OnceOnly.Ledger.Workbook
import OnceOnly.Problem
import OnceOnly.Proofs.Agreement
import OnceOnly.Proofs.Authority
import OnceOnly.Proofs.CallLife
import OnceOnly.Proofs.Codec
import OnceOnly.Proofs.Drivers
import OnceOnly.Proofs.Invariant
import OnceOnly.Proofs.Issuer
import OnceOnly.Proofs.LowWater
import OnceOnly.Proofs.Mark
import OnceOnly.Proofs.Record
import OnceOnly.Proofs.Registered
import OnceOnly.Proofs.Requests
import OnceOnly.Proofs.Run
import OnceOnly.Proofs.Session
import OnceOnly.Proofs.SortedMap
import OnceOnly.Proofs.Spans
import OnceOnly.Proofs.Strict
import OnceOnly.Proofs.Grammar
import OnceOnly.Proofs.Isolation
import OnceOnly.Proofs.Issuance
import OnceOnly.Proofs.Utf8
import OnceOnly.Proofs.Waiters
import OnceOnly.RequestId
import OnceOnly.Scenario.Answer
import OnceOnly.Scenario.CallerSteps
import OnceOnly.Scenario.Machine
import OnceOnly.Scenario.ServerSteps
import OnceOnly.Scenario.Step
import OnceOnly.Scenario.World
import OnceOnly.Service.Connection
import OnceOnly.Service.Inbound
import OnceOnly.Service.Timing
import OnceOnly.Settings.Calls
import OnceOnly.Settings.Dedup
import OnceOnly.Settings.Json
import OnceOnly.Settings.Number
import OnceOnly.Text.Quoted
import OnceOnly.Text.Unprintable
import OnceOnly.Text.Utf8
import OnceOnly.Time
import OnceOnly.Total
import OnceOnly.Width
import OnceOnly.Wire.Body
import OnceOnly.Wire.Codec
import OnceOnly.Wire.Frame
import OnceOnly.Wire.Headers
import OnceOnly.Wire.Status
import OnceOnly.Proofs.Frame
import OnceOnly.Proofs.RoundTrip
import OnceOnly.Proofs.Charges
import OnceOnly.Proofs.Metered
import OnceOnly.Proofs.Account
import OnceOnly.Proofs.Conservation
import OnceOnly.Proofs.Answering
import OnceOnly.Proofs.Reports
import OnceOnly.Proofs.Routing
import OnceOnly.Proofs.Collected
import OnceOnly.Proofs.Watermark
import OnceOnly.Proofs.Serialized
import OnceOnly.Proofs.Timeouts
import OnceOnly.Proofs.Watch
import OnceOnly.Proofs.Expiry
import OnceOnly.Proofs.Lasting
import OnceOnly.Proofs.Layout
import OnceOnly.Proofs.Pressure
import OnceOnly.Proofs.Controlled
import OnceOnly.Proofs.Decimal
import OnceOnly.Proofs.JsonValues
import OnceOnly.Proofs.JsonRecords
import OnceOnly.Proofs.Configured
