import SessionVault.Buffer.Basic
import SessionVault.Buffer.Service
import SessionVault.Calendar.Date
import SessionVault.Calendar.Timestamp
import SessionVault.Config.Basic
import SessionVault.Config.Layers
import SessionVault.Config.Location
import SessionVault.Config.Text
import SessionVault.Decimal.Nearest
import SessionVault.Decimal.Numeral
import SessionVault.Decimal.Plain
import SessionVault.Decimal.Shortest
import SessionVault.Digest.Sha256
import SessionVault.Glob.Pattern
import SessionVault.Glob.Row
import SessionVault.Glob.Token
import SessionVault.Json.Basic
import SessionVault.Json.Numeral
import SessionVault.Json.Printer
import SessionVault.Json.Quoted
import SessionVault.Json.Reader
import SessionVault.Octets
import SessionVault.Remote.Fault
import SessionVault.Remote.Pool
import SessionVault.Remote.Reply
import SessionVault.Remote.Retry
import SessionVault.Remote.Service
import SessionVault.Script
import SessionVault.Session.Attribute
import SessionVault.Session.Basic
import SessionVault.Session.Context
import SessionVault.Session.Id
import SessionVault.Session.Manager
import SessionVault.Session.Payload
import SessionVault.Session.Registry
import SessionVault.Settings.Endpoint
import SessionVault.Settings.Error
import SessionVault.Settings.Placeholder
import SessionVault.Settings.Policy
import SessionVault.Settings.Resolve
import SessionVault.Settings.Session
import SessionVault.Settings.Topology
import SessionVault.Shop.Cart
import SessionVault.Stack
import SessionVault.Store.Command
import SessionVault.Store.Error
import SessionVault.Store.Memory
import SessionVault.Table
import SessionVault.Text.Blank
import SessionVault.Text.Split
import SessionVault.Time
import SessionVault.Toml.Basic
import SessionVault.Toml.Entries
import SessionVault.Toml.Fields
import SessionVault.Toml.Printer
import SessionVault.Toml.Quoted
import SessionVault.Toml.Reader
import SessionVault.Toml.Scalar
import SessionVault.Trial.Faulty
import SessionVault.Trial.Lab
import SessionVault.Trial.Timeline
import SessionVault.Proofs.Buffer.Coverage
import SessionVault.Proofs.Calendar.Date
import SessionVault.Proofs.Calendar.Timestamp
import SessionVault.Proofs.Decimal.Magnitude
import SessionVault.Proofs.Decimal.Padded
import SessionVault.Proofs.History
import SessionVault.Proofs.Json.Depth
import SessionVault.Proofs.Json.Numeral
import SessionVault.Proofs.Json.Quoted
import SessionVault.Proofs.Json.Reader
import SessionVault.Proofs.Json.Sorted
import SessionVault.Proofs.Script
import SessionVault.Proofs.Session.Abandonment
import SessionVault.Proofs.Session.Coherence
import SessionVault.Proofs.Session.Manager
import SessionVault.Proofs.Session.Payload
import SessionVault.Proofs.Session.Recall
import SessionVault.Proofs.Session.Registry
import SessionVault.Proofs.Session.Reload
import SessionVault.Proofs.Session.Renewal
import SessionVault.Proofs.Store.Contents
import SessionVault.Proofs.Store.Lapse
import SessionVault.Proofs.Store.Lifetime
import SessionVault.Proofs.Table
import SessionVault.Proofs.Trial.Faulty
import SessionVault.Proofs.Store.Punctual
import SessionVault.Proofs.Buffer.Resync
import SessionVault.Proofs.Buffer.Mixing
import SessionVault.Proofs.Buffer.Calls
import SessionVault.Proofs.Buffer.Transparency
import SessionVault.Proofs.Session.Claims
import SessionVault.Proofs.Session.Visits
import SessionVault.Proofs.Session.Outage
import SessionVault.Proofs.Buffer.Isolation
import SessionVault.Proofs.Buffer.Requests
import SessionVault.Proofs.Buffer.Timed
import SessionVault.Proofs.Buffer.Removal
import SessionVault.Proofs.Buffer.Idle
import SessionVault.Proofs.Buffer.Lifespan
import SessionVault.Proofs.Buffer.Failures
import SessionVault.Proofs.Remote.Claiming
import SessionVault.Proofs.Buffer.Revival
import SessionVault.Proofs.Session.Mutation
import SessionVault.Proofs.Settings.Resolve
import SessionVault.Proofs.Session.Footprint
import SessionVault.Proofs.Session.Abort
import SessionVault.Proofs.Toml.Quoted
import SessionVault.Proofs.Toml.Scalar
import SessionVault.Proofs.Toml.Reader
import SessionVault.Proofs.Toml.Lines
import SessionVault.Proofs.Toml.Entries
import SessionVault.Proofs.Toml.Fields
import SessionVault.Proofs.Config.Text
import SessionVault.Proofs.Remote.Retry
import SessionVault.Proofs.Session.Atomicity
import SessionVault.Proofs.Session.Repetition
import SessionVault.Proofs.Session.Lookup
import SessionVault.Proofs.Session.Proposals
import SessionVault.Proofs.Buffer.Report
import SessionVault.Proofs.Json.Figures
import SessionVault.Proofs.Json.Brackets
import SessionVault.Proofs.Json.Truncation
import SessionVault.Proofs.Session.Truncation
import SessionVault.Proofs.Json.Unambiguous
import SessionVault.Proofs.Session.Fingerprint
import SessionVault.Proofs.Session.Tracking
import SessionVault.Proofs.Session.WriteThrough
import SessionVault.Proofs.Buffer.Maintenance
import SessionVault.Proofs.Buffer.Recollection
import SessionVault.Proofs.Text.Split
import SessionVault.Proofs.Text.Trim
import SessionVault.Proofs.Settings.Placeholder
import SessionVault.Proofs.Settings.Endpoint
import SessionVault.Proofs.Settings.Hosts
import SessionVault.Proofs.Config.Layers
