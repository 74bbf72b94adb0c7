import AnvilMQ.Relational.Table
import AnvilMQ.Relational.Select
import AnvilMQ.Relational.Ddl
import AnvilMQ.Transition.Run
import AnvilMQ.Transition.Rotation
import AnvilMQ.Transition.Recurrence
import AnvilMQ.Transition.Backlog
import AnvilMQ.Transition.Pool
import AnvilMQ.Limiter.FixedWindow
import AnvilMQ.Limiter.SlidingWindow
import AnvilMQ.Text.Decimal
import AnvilMQ.Text.Escape
import AnvilMQ.Text.Words
import AnvilMQ.Text.Base64
import AnvilMQ.Text.Sqlite
import AnvilMQ.Text.Exposition
import AnvilMQ.Rust
import AnvilMQ.Protocol
import AnvilMQ.Schema
import AnvilMQ.Migration
import AnvilMQ.Telemetry
import AnvilMQ.Scheduling
import AnvilMQ.Store
import AnvilMQ.IngressLimit
import AnvilMQ.RateLimit
import AnvilMQ.Enqueue
import AnvilMQ.Flow
import AnvilMQ.Claim
import AnvilMQ.Leases
import AnvilMQ.Finish
import AnvilMQ.Retention
import AnvilMQ.Schedulers
import AnvilMQ.Broker
import AnvilMQ.Fts
import AnvilMQ.Endpoints
import AnvilMQ.Search
import AnvilMQ.NamedSeries
import AnvilMQ.Client.SendAdd
import AnvilMQ.Client.Outbox
import AnvilMQ.Client.Worker
import AnvilMQ.Client.Link
import AnvilMQ.Client.FanOut
import AnvilMQ.Client.Connection
import AnvilMQ.Client.AddBulk
import AnvilMQ.Client.Prometheus
import AnvilMQ.Ledger.Machine
import AnvilMQ.Ledger.Statements
import AnvilMQ.Ledger.Enqueues
import AnvilMQ.Ledger.Flows
import AnvilMQ.Ledger.Lifecycle
import AnvilMQ.Ledger.Maintenance
import AnvilMQ.Ledger.Identity
import AnvilMQ.Ledger.Kinship
import AnvilMQ.Ledger.Refinement
import AnvilMQ.Ledger.Margins
import AnvilMQ.Ledger.Ticks
import AnvilMQ.Properties.Gate
import AnvilMQ.Properties.Cascade
import AnvilMQ.Properties.Fencing
import AnvilMQ.Properties.Conservation
import AnvilMQ.Properties.Idempotency
import AnvilMQ.Properties.Lineage
import AnvilMQ.Properties.Ingress
import AnvilMQ.Properties.Gauges
import AnvilMQ.Properties.SafetyFloor
import AnvilMQ.Properties.Results
import AnvilMQ.Properties.Quarantine
import AnvilMQ.Properties.Attempts
import AnvilMQ.Properties.Pending
import AnvilMQ.Properties.Bulk
import AnvilMQ.Properties.Rejections
import AnvilMQ.Properties.DispatchLimit
import AnvilMQ.Properties.Fairness
import AnvilMQ.Properties.Production
import AnvilMQ.Properties.Reconcile
import AnvilMQ.Properties.Starvation
import AnvilMQ.Properties.Archiving
import AnvilMQ.Properties.FlowValidation
import AnvilMQ.Properties.TreeCaps
import AnvilMQ.Properties.Migration
import AnvilMQ.Properties.OutboxDelivery
import AnvilMQ.Properties.OutboxStates
import AnvilMQ.Properties.WorkerAcks
import AnvilMQ.Properties.WorkerLoop
import AnvilMQ.Properties.Receipts
import AnvilMQ.Properties.SendOnce
import AnvilMQ.Properties.FanOut
import AnvilMQ.Properties.Backoff
import AnvilMQ.Properties.LeaseRange
import AnvilMQ.Properties.IngressWindow
import AnvilMQ.Properties.LimitStatus
import AnvilMQ.Properties.Validators
import AnvilMQ.Properties.FlowBulk
import AnvilMQ.Properties.RetentionLimit
import AnvilMQ.Properties.Backup
import AnvilMQ.Properties.FullText
import AnvilMQ.Properties.Connection
import AnvilMQ.Properties.AddBulk
import AnvilMQ.Properties.JobDetail
import AnvilMQ.Properties.Payload
import AnvilMQ.Properties.Search
import AnvilMQ.Properties.Cron
import AnvilMQ.Properties.Labels
import AnvilMQ.Client.Fleet
import AnvilMQ.Properties.Handover
import AnvilMQ.Properties.HeldLease
import AnvilMQ.Properties.Recovery
import AnvilMQ.Properties.Fleet
import AnvilMQ.Properties.Drain
