import Telemetry.Agent.Courier
import Telemetry.Agent.Pipeline
import Telemetry.Agent.Report
import Telemetry.Agent.Samples
import Telemetry.Agent.Schedule
import Telemetry.Backoff
import Telemetry.Binary64.Basic
import Telemetry.Binary64.Rounding
import Telemetry.Binary64.Shortest
import Telemetry.Binary64.Text
import Telemetry.Catalog
import Telemetry.Digest.Crc32
import Telemetry.Digest.Hmac
import Telemetry.Digest.Sha256
import Telemetry.Gzip.Bits
import Telemetry.Gzip.Huffman
import Telemetry.Gzip.Inflate
import Telemetry.Gzip.Member
import Telemetry.Heap
import Telemetry.Http.Coding
import Telemetry.Http.Connection
import Telemetry.Http.Handler
import Telemetry.Http.Listing
import Telemetry.Http.Log
import Telemetry.Http.Message
import Telemetry.Http.Route
import Telemetry.Http.Server
import Telemetry.Json.Reader
import Telemetry.Json.Scalar
import Telemetry.Json.Skip
import Telemetry.Json.Writer
import Telemetry.Metric.Basic
import Telemetry.Metric.Draft
import Telemetry.Metric.Wire
import Telemetry.Program
import Telemetry.Schema
import Telemetry.Settings.Agent
import Telemetry.Settings.Server
import Telemetry.Settings.Source
import Telemetry.Signature
import Telemetry.Store
import Telemetry.Store.Database
import Telemetry.Store.Disk
import Telemetry.Store.Failure
import Telemetry.Store.Persistent
import Telemetry.Store.Relation
import Telemetry.Store.Snapshot
import Telemetry.Store.Table
import Telemetry.Store.Turn
import Telemetry.Text.Boundary
import Telemetry.Text.Bytes
import Telemetry.Text.Hex
import Telemetry.Text.Integer
import Telemetry.Text.Percent
import Telemetry.Text.Split
import Telemetry.Text.Trim
import Telemetry.Toml.Basic
import Telemetry.Toml.Reader
import Telemetry.Toml.Scalar
import Telemetry.Url.Basic
import Telemetry.Url.Host
import Telemetry.Url.Punycode
import Telemetry.Main
import Telemetry.Proofs.Agent.Carried
import Telemetry.Proofs.Agent.Chronicle
import Telemetry.Proofs.Agent.Credit
import Telemetry.Proofs.Agent.Echoes
import Telemetry.Proofs.Agent.Freshness
import Telemetry.Proofs.Agent.Ledger
import Telemetry.Proofs.Agent.Network
import Telemetry.Proofs.Agent.Numbering
import Telemetry.Proofs.Agent.Reports
import Telemetry.Proofs.Agent.Requests
import Telemetry.Proofs.Agent.Samples
import Telemetry.Proofs.Backoff
import Telemetry.Proofs.Binary64.Computation
import Telemetry.Proofs.Binary64.Error
import Telemetry.Proofs.Binary64.Rounding
import Telemetry.Proofs.Binary64.Shortest
import Telemetry.Proofs.Gzip.Stored
import Telemetry.Proofs.Heap
import Telemetry.Proofs.Http.Agreement
import Telemetry.Proofs.Http.Calls
import Telemetry.Proofs.Http.Counting
import Telemetry.Proofs.Http.Deadlines
import Telemetry.Proofs.Http.Deliveries
import Telemetry.Proofs.Http.Excerpt
import Telemetry.Proofs.Http.Histories
import Telemetry.Proofs.Http.Limits
import Telemetry.Proofs.Http.Listing
import Telemetry.Proofs.Http.Merging
import Telemetry.Proofs.Http.Paths
import Telemetry.Proofs.Http.Signing
import Telemetry.Proofs.Http.Updates
import Telemetry.Proofs.Json.Digits
import Telemetry.Proofs.Json.Faults
import Telemetry.Proofs.Json.Layout
import Telemetry.Proofs.Json.Number
import Telemetry.Proofs.Json.Scalar
import Telemetry.Proofs.Json.Scaling
import Telemetry.Proofs.Metric.Decoding
import Telemetry.Proofs.Metric.Display
import Telemetry.Proofs.Metric.Documents
import Telemetry.Proofs.Metric.Level
import Telemetry.Proofs.Metric.Refusal
import Telemetry.Proofs.Metric.Roundtrip
import Telemetry.Proofs.Metric.Wire
import Telemetry.Proofs.Places
import Telemetry.Proofs.Signature
import Telemetry.Proofs.Signature.Verdicts
import Telemetry.Proofs.Store.Abandonment
import Telemetry.Proofs.Store.Accumulation
import Telemetry.Proofs.Store.Alike
import Telemetry.Proofs.Store.Contents
import Telemetry.Proofs.Store.Counting
import Telemetry.Proofs.Store.Disk
import Telemetry.Proofs.Store.FileRefinement
import Telemetry.Proofs.Store.Interruption
import Telemetry.Proofs.Store.Locks
import Telemetry.Proofs.Store.Merging
import Telemetry.Proofs.Store.Mirroring
import Telemetry.Proofs.Store.Persistent
import Telemetry.Proofs.Store.Readers
import Telemetry.Proofs.Store.Rearranging
import Telemetry.Proofs.Store.Refinement
import Telemetry.Proofs.Store.Representation
import Telemetry.Proofs.Store.Restoring
import Telemetry.Proofs.Store.Retries
import Telemetry.Proofs.Store.Snapshot
import Telemetry.Proofs.Store.Soundness
import Telemetry.Proofs.Store.Steps
import Telemetry.Proofs.Store.Turn
import Telemetry.Proofs.Store.Upkeep
import Telemetry.Proofs.Store.Visibility
import Telemetry.Proofs.Store.Writers
import Telemetry.Proofs.Text.Hex
import Telemetry.Proofs.Text.Percent
import Telemetry.Proofs.Text.Split
import Telemetry.Proofs.Text.Utf8
