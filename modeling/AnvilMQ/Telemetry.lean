import AnvilMQ.Schema

/-!
# The level gauges

The gauges of `Metrics` (`src/telemetry.rs`) that mirror the store: jobs by
state, retained receipts, active schedulers and flow nodes parked on children.
They are seeded from the database by `initialize` and from then on moved by the
calls the requests make after their commit.  The monotone event counters have no
counterpart in the store and are left out.

A request does not touch the gauges itself; it returns the list of its
`MetricCall`s, in the order the source makes them, and `Metrics.record` applies
them once the transaction has committed.
-/

namespace AnvilMQ

/-- `STATES`: the states with a gauge of their own.  `WaitingChildren` is not
among them. -/
inductive StateLabel
  | waiting
  | delayed
  | active
  | completed
  | failed
deriving DecidableEq

/-- The position of a live state in `STATES`. -/
def LiveState.label : LiveState → Option StateLabel
  | .waiting => some .waiting
  | .delayed => some .delayed
  | .active => some .active
  | .waitingChildren => none

/-- The position of a terminal state in `STATES`. -/
def TerminalState.label : TerminalState → StateLabel
  | .completed => .completed
  | .failed => .failed

/-- The level gauges. -/
inductive Gauge
  | jobs (label : StateLabel)
  | enqueueReceipts
  | schedulersActive
  | flowWaitingChildren
deriving DecidableEq

/-- The values of the level gauges. -/
abbrev Metrics := Gauge → ℤ

/-- The number of stored rows a gauge stands for. -/
def Db.level (db : Db) : Gauge → ℤ
  | .jobs label =>
    db.jobs.count (fun row => decide (row.state.label = some label)) +
      db.jobHistory.count (fun row => decide (row.state.label = label))
  | .enqueueReceipts => db.enqueueReceipts.count fun _ => true
  | .schedulersActive => db.jobSchedulers.count fun row => row.nextRunAt.isSome
  | .flowWaitingChildren => db.jobs.count fun row => decide (row.state = .waitingChildren)

/-- `Metrics::initialize`. -/
def Metrics.initialize (db : Db) : Metrics := fun gauge => db.level gauge

/-- The targets of `retention_deleted`. -/
inductive RetentionTarget
  | completed
  | failed
  | receipt
deriving DecidableEq

/-- The gauge a retention target decrements. -/
def RetentionTarget.gauge : RetentionTarget → Gauge
  | .completed => .jobs .completed
  | .failed => .jobs .failed
  | .receipt => .enqueueReceipts

/-- A call that moves a level gauge. -/
inductive MetricCall
  | transition (source target : Option StateLabel)
  | enqueueReceiptCreated
  | dedupReleased (n : ℕ)
  | retentionDeleted (target : RetentionTarget) (n : ℕ)
  | schedulerActivated
  | schedulerDeactivated
  | flowWaitingChildrenInc (n : ℕ)
  | flowWaitingChildrenDec (n : ℕ)
deriving DecidableEq

/-- One unit on the gauge of a state, if the state has one. -/
def unitAt (label : Option StateLabel) (gauge : Gauge) : ℤ :=
  if label.map Gauge.jobs = some gauge then 1 else 0

/-- By how much a call moves each gauge. -/
def MetricCall.delta : MetricCall → Gauge → ℤ
  | transition source target, gauge => unitAt target gauge - unitAt source gauge
  | enqueueReceiptCreated, gauge => if gauge = .enqueueReceipts then 1 else 0
  | dedupReleased n, gauge => if gauge = .enqueueReceipts then -(n : ℤ) else 0
  | retentionDeleted target n, gauge => if gauge = target.gauge then -(n : ℤ) else 0
  | schedulerActivated, gauge => if gauge = .schedulersActive then 1 else 0
  | schedulerDeactivated, gauge => if gauge = .schedulersActive then -1 else 0
  | flowWaitingChildrenInc n, gauge => if gauge = .flowWaitingChildren then (n : ℤ) else 0
  | flowWaitingChildrenDec n, gauge => if gauge = .flowWaitingChildren then -(n : ℤ) else 0

/-- Apply the calls of a committed request. -/
def Metrics.record (metrics : Metrics) (calls : List MetricCall) : Metrics :=
  fun gauge => metrics gauge + (calls.map fun call => call.delta gauge).sum

end AnvilMQ
