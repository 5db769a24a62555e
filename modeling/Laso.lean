import Laso.Core.Table
import Laso.Core.Program
import Laso.Core.Machine
import Laso.Core.Types
import Laso.Coordination.Lease
import Laso.Coordination.Fencing
import Laso.Workers.Interaction
import Laso.Runtime.Graph
import Laso.Runtime.Storage
import Laso.Runtime.Requests
import Laso.Runtime.Operations
import Laso.Runtime.Executor
import Laso.Runtime.View
import Laso.Runtime.ExecutorLaw
import Laso.Runtime.BranchLaw
import Laso.Cluster.Seen
import Laso.Cluster.OperationLaw
import Laso.Cluster.SectionLaw
import Laso.Cluster.Effects
import Laso.Cluster.Machine
import Laso.Cluster.LostUpdates
import Laso.Cluster.Approvals
import Laso.Core.ReadCommitted
import Laso.Runtime.Guards
import Laso.Cluster.NodeWork
import Laso.Runtime.Attempts
import Laso.Runtime.Retries
import Laso.Core.Transaction
import Laso.Sessions.Store
import Laso.Sessions.Protocol
import Laso.Sessions.Transactions
import Laso.Sessions.Machine
import Laso.Sessions.Dispatch
import Laso.Workers.Jobs
import Laso.Runtime.BranchLoop
import Laso.Cluster.Joins
import Laso.Runtime.Groups
import Laso.Solo.Machine
import Laso.Solo.Coroutines
import Laso.Solo.Drain
import Laso.Scheduler.Cron
import Laso.Scheduler.Definitions
import Laso.Scheduler.Calls
import Laso.Scheduler.Process
import Laso.Scheduler.Moves
import Laso.Scheduler.Passes
import Laso.Scheduler.Machine
import Laso.Scheduler.Launches
import Laso.Scheduler.Sides
import Laso.Scheduler.Deliveries
import Laso.Scheduler.Cursor
import Laso.Scheduler.Overlap
import Laso.Scheduler.CatchUp
import Laso.Sessions.Generations
import Laso.Sessions.Submission
import Laso.Sessions.Reduction
import Laso.Sessions.Continuations
import Laso.Sessions.Promotion
import Laso.Scheduler.References
import Laso.Scheduler.Updates
import Laso.Scheduler.Coverage
import Laso.Scheduler.Replay
import Laso.Scheduler.Cascades
import Laso.Workers.Changes
import Laso.Workers.Submissions
import Laso.Workers.Outcomes
import Laso.Workers.Capacity
import Laso.Workers.Budget
import Laso.Workers.Once
import Laso.Ingress.Dedup
import Laso.Workers.Decisions
import Laso.Workers.Continuation
import Laso.Scheduler.Registry
import Laso.Artifacts.Store
import Laso.Scheduler.CronLanguage
import Laso.Scheduler.Disabled
import Laso.Artifacts.Workspace
import Laso.Operator.AuditPages
import Laso.Operator.Diagnostics
import Laso.Ingress.Counters
