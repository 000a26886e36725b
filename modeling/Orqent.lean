import Orqent.Lib.Trace
import Orqent.Lib.Dict
import Orqent.Lib.Decimal
import Orqent.Lib.Text
import Orqent.Lib.LogStore
import Orqent.Engine.State
import Orqent.Graph.Model
import Orqent.Engine.Snapshot
import Orqent.Engine.Scheduler
import Orqent.Nodes.Contract
import Orqent.Engine.Invocation
import Orqent.Engine.SchedulerFacts
import Orqent.Service.Rows
import Orqent.Service.ApplyTick
import Orqent.Service.History
import Orqent.Service.Invariant
import Orqent.Service.LegalTick
import Orqent.Lib.Digraph
import Orqent.Lib.ClosedWalk
import Orqent.Service.Terminal
import Orqent.Service.EventLog
import Orqent.Service.Isolation
import Orqent.Graph.Issues
import Orqent.Graph.Validation.Config
import Orqent.Graph.Validation.Handles
import Orqent.Graph.Validation.Structure
import Orqent.Graph.Validation
import Orqent.Graph.Cycles
import Orqent.Graph.CyclePath
import Orqent.Graph.CycleCover
import Orqent.Graph.Publishable
import Orqent.Graph.Reachability
import Orqent.Service.Progress
import Orqent.Queue.Table
import Orqent.Queue.Order
import Orqent.Queue.Protocol
import Orqent.Queue.Shares
import Orqent.Queue.Fairness
import Orqent.Runtime.System
import Orqent.Runtime.Steps
import Orqent.Runtime.Parking
import Orqent.Runtime.Launches
import Orqent.Runtime.Exclusion
import Orqent.Runtime.AtMostOnce
import Orqent.Runtime.Stale
import Orqent.Runtime.Resumed
import Orqent.Runtime.Inputs
import Orqent.Runtime.Budget
import Orqent.Runtime.Siblings
import Orqent.Runtime.Reachability
import Orqent.Graph.Evaluate
import Orqent.Service.Reference
import Orqent.Runtime.Reference
import Orqent.Lib.LockStore
import Orqent.Versions.GraphRows
import Orqent.Versions.GraphStore
import Orqent.Versions.Tables
import Orqent.Versions.SaveLoad
import Orqent.Versions.CopyOnWrite
import Orqent.Versions.Payload
import Orqent.Versions.Opening
import Orqent.Versions.Service
import Orqent.Versions.Publishing
import Orqent.Versions.Revisions
import Orqent.Memory.Chunking
import Orqent.Memory.Ingest
import Orqent.Memory.Agreement
import Orqent.Memory.Offsets
import Orqent.Memory.Coverage
import Orqent.Memory.Corpora
import Orqent.Memory.Retrieval
import Orqent.Memory.Separation
import Orqent.Lib.RowTxn
import Orqent.Auth.Tables
import Orqent.Auth.Service
import Orqent.Auth.Rotation
import Orqent.Auth.Reset
import Orqent.Auth.Links
import Orqent.Auth.Browser
import Orqent.Auth.Session
import Orqent.Auth.PageLoad
import Orqent.Triggers.Tables
import Orqent.Triggers.Service
import Orqent.Triggers.Webhook
import Orqent.Triggers.Lifecycle
import Orqent.Triggers.Dispatch
import Orqent.Triggers.Occurrences
import Orqent.Triggers.Publish
import Orqent.Lib.TwoRun
import Orqent.Tenancy.Database
import Orqent.Tenancy.Ownership
import Orqent.Tenancy.RunService
import Orqent.Tenancy.Twin
import Orqent.Tenancy.Isolation
import Orqent.Worker.Lease
import Orqent.Worker.Fleet
import Orqent.Worker.Process
import Orqent.Worker.Loop
import Orqent.Lib.SlidingWindow
import Orqent.Lib.Json
import Orqent.RateLimit.Limiter
import Orqent.RateLimit.History
import Orqent.RateLimit.Sweep
import Orqent.RateLimit.RetryAfter
import Orqent.RateLimit.Dependency
import Orqent.Nodes.Condition
import Orqent.Nodes.Tools
import Orqent.Nodes.Agent
import Orqent.Graph.Construct
import Orqent.Graph.Diagnosis
import Orqent.Graph.Typing
import Orqent.Runtime.Deployment
import Orqent.Runtime.Projection
import Orqent.Runtime.Tokens
import Orqent.Runtime.Provenance
import Orqent.Runtime.TypeSafety
import Orqent.Nodes.Catalogue
import Orqent.Nodes.Behaviour
import Orqent.Runtime.BuiltIns
import Orqent.Runtime.Denotation
import Orqent.Builder.Canvas
import Orqent.Builder.Drawing
import Orqent.Builder.Drafts
import Orqent.Builder.Page
import Orqent.Builder.Saving
import Orqent.Builder.Clean
import Orqent.Builder.Stranded
