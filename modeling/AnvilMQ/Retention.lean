import AnvilMQ.Relational.Select
import AnvilMQ.Telemetry

/-!
# Retention

`src/retention.rs`: the configuration of the sweeper with its validator, and one
bounded sweep.  Every `DELETE` removes at most `batch` rows; which rows a bounded
statement picks depends on its query plan, so each statement takes a `Scan`.
-/

namespace AnvilMQ

open Rust Relational

/-- `RetentionConfig`. -/
structure RetentionConfig where
  completedAgeMs : ℤ := 86400000
  completedCount : ℤ := 1000
  failedAgeMs : ℤ := 604800000
  failedCount : ℤ := 0
  intervalMs : ℕ := 60000
  batch : ℤ := 1000
  chainCounterTtlMs : ℤ := 604800000
  facetDispatchTtlMs : ℤ := 604800000
  rejectionsAgeMs : ℤ := 604800000
  minAgeMs : ℤ := 60000
deriving DecidableEq

namespace RetentionConfig

/-- The floor on an age setting; `0` disables the prune. -/
def checkAge (key : String) (age minAge : ℤ) : Except String Unit :=
  if age ≠ 0 ∧ age < minAge then
    .error s!"{key}={age} is below the {minAge}ms safety floor (use 0 to disable)"
  else .ok ()

/-- A setting that must not be negative. -/
def checkNonnegative (key : String) (value : ℤ) : Except String Unit :=
  if value < 0 then .error s!"{key}={value} must be >= 0" else .ok ()

/-- `validate`. -/
def validate (cfg : RetentionConfig) : Except String Unit := do
  checkAge "ANVILMQ_RETENTION_COMPLETED_AGE_MS" cfg.completedAgeMs cfg.minAgeMs
  checkAge "ANVILMQ_RETENTION_FAILED_AGE_MS" cfg.failedAgeMs cfg.minAgeMs
  checkNonnegative "ANVILMQ_RETENTION_COMPLETED_COUNT" cfg.completedCount
  checkNonnegative "ANVILMQ_RETENTION_FAILED_COUNT" cfg.failedCount
  let batch := cfg.batch
  if batch ≤ 0 then .error s!"ANVILMQ_RETENTION_BATCH={batch} must be positive"
  else if cfg.intervalMs = 0 then .error "ANVILMQ_RETENTION_INTERVAL_MS must be positive"
  else do
    checkNonnegative "ANVILMQ_MAX_CHAIN_COUNTER_TTL_MS" cfg.chainCounterTtlMs
    checkNonnegative "ANVILMQ_FACET_DISPATCH_TTL_MS" cfg.facetDispatchTtlMs
    checkNonnegative "ANVILMQ_RETENTION_REJECTIONS_AGE_MS" cfg.rejectionsAgeMs

end RetentionConfig

/-! ## The statements -/

/-- The bound of `LIMIT batch` over `available` rows; a negative bound is none. -/
def sqlLimit (batch : ℤ) (available : ℕ) : ℕ := if batch < 0 then available else batch.toNat

/-- `DELETE … WHERE key IN (…)` over the keys of the selected rows, with the number
of rows deleted. -/
def deleteSelected {ρ κ : Type} [DecidableEq κ] {key : ρ → κ} (table : Table key)
    (selected : List ρ) : Table key × ℕ :=
  let chosen := fun row => (selected.map key).contains (key row)
  (table.delete chosen, table.count chosen)

/-- `prune_age`. -/
def pruneAge (scan : Scan HistoryRow) (db : Db) (state : TerminalState) (cutoff batch : ℤ) :
    Db × ℕ :=
  let aged := db.jobHistory.rows.filter fun row =>
    decide (row.state = state) && decide (row.finishedAt < cutoff)
  let (history, deleted) := deleteSelected db.jobHistory
    (scan.limitBy HistoryRow.finishedAt (sqlLimit batch aged.length) aged)
  ({ db with jobHistory := history }, deleted)

/-- `ORDER BY finished_at DESC, id DESC`: `a` comes strictly before `b`. -/
def newer (a b : HistoryRow) : Bool :=
  decide (b.finishedAt < a.finishedAt) ||
    (decide (a.finishedAt = b.finishedAt) && decide (b.id < a.id))

/-- `ROW_NUMBER() OVER (PARTITION BY name ORDER BY finished_at DESC, id DESC)` of a
row among the rows of a state. -/
def rowNumber (history : Table HistoryRow.id) (state : TerminalState) (row : HistoryRow) : ℕ :=
  history.count (fun other => decide (other.state = state) && decide (other.name = row.name) &&
    newer other row) + 1

/-- `prune_count`: keep the newest `keep` rows per name. -/
def pruneCount (scan : Scan HistoryRow) (db : Db) (state : TerminalState) (keep batch : ℤ) :
    Db × ℕ :=
  let overflow := db.jobHistory.rows.filter fun row =>
    decide (row.state = state) && decide (keep < rowNumber db.jobHistory state row)
  let (history, deleted) := deleteSelected db.jobHistory
    (scan.limit (sqlLimit batch overflow.length) overflow)
  ({ db with jobHistory := history }, deleted)

/-- A receipt whose job is neither live nor archived. -/
def orphaned (db : Db) (receipt : Receipt) : Bool :=
  decide (¬ db.jobs.Has receipt.jobId) && decide (¬ db.jobHistory.Has receipt.jobId)

/-- `prune_receipts`. -/
def pruneReceipts (scan : Scan Receipt) (db : Db) (batch : ℤ) : Db × ℕ :=
  let orphans := db.enqueueReceipts.rows.filter (orphaned db)
  let (receipts, deleted) := deleteSelected db.enqueueReceipts
    (scan.limit (sqlLimit batch orphans.length) orphans)
  ({ db with enqueueReceipts := receipts }, deleted)

/-- `prune_chain_counters`. -/
def pruneChainCounters (scan : Scan ChainCounter) (db : Db) (cutoff batch : ℤ) : Db × ℕ :=
  let idle := db.chainCounters.rows.filter fun row => decide (row.updatedAt < cutoff)
  let (counters, deleted) := deleteSelected db.chainCounters
    (scan.limitBy ChainCounter.updatedAt (sqlLimit batch idle.length) idle)
  ({ db with chainCounters := counters }, deleted)

/-- `prune_facet_dispatch`. -/
def pruneFacetDispatch (scan : Scan FacetDispatch) (db : Db) (cutoff batch : ℤ) : Db × ℕ :=
  let idle := db.facetDispatch.rows.filter fun row =>
    decide (row.lastServedAt < cutoff) &&
      db.jobs.rows.all fun job => decide (job.rateLimitFacet.getD "" ≠ row.facetKey)
  let (dispatch, deleted) := deleteSelected db.facetDispatch
    (scan.limitBy FacetDispatch.lastServedAt (sqlLimit batch idle.length) idle)
  ({ db with facetDispatch := dispatch }, deleted)

/-- `prune_rejections`. -/
def pruneRejections (scan : Scan Rejection) (db : Db) (cutoff batch : ℤ) : Db × ℕ :=
  let aged := db.enqueueRejections.rows.filter fun row => decide (row.rejectedAt < cutoff)
  let (rejections, deleted) := deleteSelected db.enqueueRejections
    (scan.limitBy Rejection.rejectedAt (sqlLimit batch aged.length) aged)
  ({ db with enqueueRejections := rejections }, deleted)

/-! ## The sweep -/

/-- One query plan per bounded statement of a sweep. -/
structure SweepPlan where
  completedAge : Scan HistoryRow := .stored
  failedAge : Scan HistoryRow := .stored
  completedCount : Scan HistoryRow := .stored
  failedCount : Scan HistoryRow := .stored
  receipts : Scan Receipt := .stored
  chainCounters : Scan ChainCounter := .stored
  facetDispatch : Scan FacetDispatch := .stored
  rejections : Scan Rejection := .stored

/-- `SweepOutcome`: rows deleted per statement. -/
structure SweepOutcome where
  completedAge : ℕ
  completedCount : ℕ
  failedAge : ℕ
  failedCount : ℕ
  receipts : ℕ
  chainCounters : ℕ
  facetDispatch : ℕ
  rejections : ℕ
deriving DecidableEq

/-- Run a statement of the sweep when its setting enables it. -/
def whenPositive (setting : ℤ) (db : Db) (statement : Db → Db × ℕ) : Db × ℕ :=
  if 0 < setting then statement db else (db, 0)

/-- `sweep_blocking`. -/
def sweep (plan : SweepPlan) (clock : Clock) (db : Db) (cfg : RetentionConfig) :
    SweepOutcome × Db × List MetricCall :=
  let now := clock 0
  let (db, completedAge) := whenPositive cfg.completedAgeMs db fun db =>
    pruneAge plan.completedAge db .completed (saturatingSub now cfg.completedAgeMs) cfg.batch
  let (db, failedAge) := whenPositive cfg.failedAgeMs db fun db =>
    pruneAge plan.failedAge db .failed (saturatingSub now cfg.failedAgeMs) cfg.batch
  let (db, completedCount) := whenPositive cfg.completedCount db fun db =>
    pruneCount plan.completedCount db .completed cfg.completedCount cfg.batch
  let (db, failedCount) := whenPositive cfg.failedCount db fun db =>
    pruneCount plan.failedCount db .failed cfg.failedCount cfg.batch
  let (db, receipts) := pruneReceipts plan.receipts db cfg.batch
  let (db, chainCounters) := whenPositive cfg.chainCounterTtlMs db fun db =>
    pruneChainCounters plan.chainCounters db (saturatingSub now cfg.chainCounterTtlMs) cfg.batch
  let (db, facetDispatch) := whenPositive cfg.facetDispatchTtlMs db fun db =>
    pruneFacetDispatch plan.facetDispatch db (saturatingSub now cfg.facetDispatchTtlMs) cfg.batch
  let (db, rejections) := whenPositive cfg.rejectionsAgeMs db fun db =>
    pruneRejections plan.rejections db (saturatingSub now cfg.rejectionsAgeMs) cfg.batch
  ({ completedAge, completedCount, failedAge, failedCount, receipts, chainCounters,
      facetDispatch, rejections }, db,
    [.retentionDeleted .completed completedAge, .retentionDeleted .completed completedCount,
      .retentionDeleted .failed failedAge, .retentionDeleted .failed failedCount,
      .retentionDeleted .receipt receipts])

end AnvilMQ
