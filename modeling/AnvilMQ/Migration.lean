import AnvilMQ.Relational.Ddl
import AnvilMQ.Schema

/-!
# The migration

`DatabaseManager::run_migrations` (`src/db.rs`): the statements that bring a database
of any earlier version to the current tables, in the order the source executes them
and inside one transaction.

The rest of the model starts from the migrated tables and has a row type for each
(`Db`).  Here the tables are the ones SQLite sees, with columns that may be missing, so
that the script can be run on a database of an earlier version; `Db.stored` is the
current database as SQLite holds it.

## Design notes

A table is a list of column definitions with rows that map column names to values.
Primary keys are left out, since no statement of the script inserts a row or writes a
key column.  An index is its name and the columns it mentions, those of its `WHERE`
clause included: creating it fails when one of them is missing, which is what makes the
order of the script matter.
-/

namespace AnvilMQ.Migration

open Rust Relational

/-! ## Names and values -/

/-- The tables. -/
inductive TableName
  | jobs
  | jobHistory
  | rateLimitRules
  | enqueueReceipts
  | rateLimitCounters
  | ingressLimitRules
  | ingressLimitCounters
  | chainCounters
  | facetDispatch
  | enqueueRejections
  | jobSchedulers
deriving DecidableEq

/-- The column names of all tables. -/
inductive ColumnName
  | id | name | state | priority | payload | parentId | traceId | executionDepth | attempts
  | maxAttempts | createdAt | updatedAt | rateLimitFacet | workerId | lastError
  | leaseExpiresAtMs | availableAt | retryBackoffMs | retryBackoffMaxMs | retryJitter
  | pendingChildren | failParentOnFailure | treeId | treeDepth
  | finishedAt | result
  | facetPattern | maxJobs | windowDurationMs
  | queueName | idempotencyKey | request | jobId | initialState | releaseOnFinish
  | facetKey | currentCount | windowExpiresAt | currentWindowStart | previousCount
  | jobCount | lastServedSeq | lastServedAt
  | rejectedAt | kind | detail
  | jobName | cron | timezone | producedCount | nextRunAt | lastJobId
deriving DecidableEq

/-- The indexes. -/
inductive IndexName
  | idxJobsWaitingQueue
  | idxChainCountersUpdated
  | idxFacetDispatchSeq
  | idxFacetDispatchServedAt
  | idxRejectionsRejectedAt
  | idxRejectionsNameRejected
  | idxSchedulersDue
  | idxJobsActiveLease
  | idxJobsSchedulable
  | idxJobsParent
  | idxReceiptsRelease
  | idxJobsPressure
  | idxHistoryStateFinished
  | idxHistoryNameStateFinished
  | idxHistoryTrace
deriving DecidableEq

/-- A value SQLite stores. -/
inductive SqlValue
  | null
  | integer (value : ℤ)
  | real (value : F64)
  | text (value : String)
  | blob (value : Bytes)
deriving DecidableEq

/-- A stored database. -/
abbrev Stored := Database TableName ColumnName IndexName SqlValue.null

/-- A stored table. -/
abbrev StoredTable := DynTable ColumnName SqlValue.null

/-- A stored row. -/
abbrev StoredRow := Row ColumnName SqlValue

/-- `column type`. -/
def nullable (column : ColumnName) (type : SqlType) : Column ColumnName SqlValue :=
  ⟨column, type, false, .null⟩

/-- `column type NOT NULL`. -/
def required (column : ColumnName) (type : SqlType) : Column ColumnName SqlValue :=
  ⟨column, type, true, .null⟩

/-- `column type NOT NULL DEFAULT value`. -/
def defaulted (column : ColumnName) (type : SqlType) (value : SqlValue) :
    Column ColumnName SqlValue :=
  ⟨column, type, true, value⟩

/-! ## The tables as `CREATE TABLE` declares them -/

/-- The columns of the `CREATE TABLE` statements. -/
def declaredColumns : TableName → List (Column ColumnName SqlValue)
  | .jobs =>
    [nullable .id .text, required .name .text, required .state .text,
      required .priority .integer, required .payload .blob, nullable .parentId .text,
      required .traceId .text, required .executionDepth .integer,
      defaulted .attempts .integer (.integer 0), defaulted .maxAttempts .integer (.integer 3),
      required .createdAt .integer, required .updatedAt .integer,
      nullable .rateLimitFacet .text]
  | .jobHistory =>
    [nullable .id .text, required .name .text, required .state .text,
      required .priority .integer, required .payload .blob, nullable .parentId .text,
      required .traceId .text, required .executionDepth .integer, required .attempts .integer,
      required .maxAttempts .integer, required .createdAt .integer,
      required .finishedAt .integer, nullable .result .blob]
  | .rateLimitRules =>
    [nullable .facetPattern .text, required .maxJobs .integer,
      required .windowDurationMs .integer]
  | .enqueueReceipts =>
    [required .queueName .text, required .idempotencyKey .text, required .request .blob,
      required .jobId .text, required .initialState .text, required .createdAt .integer,
      defaulted .releaseOnFinish .integer (.integer 0)]
  | .rateLimitCounters =>
    [nullable .facetKey .text, required .currentCount .integer,
      required .windowExpiresAt .integer]
  | .ingressLimitRules =>
    [nullable .facetPattern .text, required .maxJobs .integer,
      required .windowDurationMs .integer]
  | .ingressLimitCounters =>
    [nullable .facetKey .text, required .currentWindowStart .integer,
      required .currentCount .integer, required .previousCount .integer]
  | .chainCounters =>
    [nullable .traceId .text, required .jobCount .integer, required .updatedAt .integer]
  | .facetDispatch =>
    [nullable .facetKey .text, required .lastServedSeq .integer,
      required .lastServedAt .integer]
  | .enqueueRejections =>
    [nullable .id .integer, required .rejectedAt .integer, required .kind .text,
      required .name .text, nullable .traceId .text, nullable .parentId .text,
      nullable .executionDepth .integer, nullable .rateLimitFacet .text,
      required .detail .text]
  | .jobSchedulers =>
    [nullable .id .text, required .jobName .text, required .payload .blob,
      required .cron .text, nullable .timezone .text,
      defaulted .producedCount .integer (.integer 0), nullable .nextRunAt .integer,
      nullable .lastJobId .text, nullable .priority .integer, nullable .maxAttempts .integer,
      nullable .retryBackoffMs .integer, nullable .retryBackoffMaxMs .integer,
      nullable .retryJitter .real, nullable .rateLimitFacet .text,
      required .createdAt .integer, required .updatedAt .integer]

/-! ## The script -/

/-- A statement of the migration. -/
abbrev Step := Statement TableName ColumnName IndexName SqlValue

def createTable (table : TableName) : Step := ⟨table, .createTable (declaredColumns table)⟩

def createIndex (index : IndexName) (table : TableName) (columns : List ColumnName) : Step :=
  ⟨table, .createIndex index columns⟩

/-- `PRAGMA table_info`, and `ALTER TABLE … ADD COLUMN` when the column is not listed. -/
def addColumn (table : TableName) (column : Column ColumnName SqlValue) : Step :=
  ⟨table, .addColumn column⟩

/-- The first `execute_batch`. -/
def createTables : List Step :=
  [createTable .jobs,
    createIndex .idxJobsWaitingQueue .jobs [.state, .priority, .createdAt],
    createTable .jobHistory,
    createTable .rateLimitRules,
    createTable .enqueueReceipts,
    createTable .rateLimitCounters,
    createTable .ingressLimitRules,
    createTable .ingressLimitCounters,
    createTable .chainCounters,
    createIndex .idxChainCountersUpdated .chainCounters [.updatedAt],
    createTable .facetDispatch,
    createIndex .idxFacetDispatchSeq .facetDispatch [.lastServedSeq],
    createIndex .idxFacetDispatchServedAt .facetDispatch [.lastServedAt],
    createTable .enqueueRejections,
    createIndex .idxRejectionsRejectedAt .enqueueRejections [.rejectedAt],
    createIndex .idxRejectionsNameRejected .enqueueRejections [.name, .rejectedAt],
    createTable .jobSchedulers,
    createIndex .idxSchedulersDue .jobSchedulers [.nextRunAt]]

/-- `state = 'Active' AND lease_expires_at_ms IS NULL`. -/
def needsLease (row : StoredRow) : Bool :=
  decide (row .state = some (.text "Active")) && decide (row .leaseExpiresAtMs = some .null)

/-- Legacy Active jobs with no lease are eligible for recovery immediately. -/
def fixLease : Step :=
  ⟨.jobs, .update [.state, .leaseExpiresAtMs] .leaseExpiresAtMs (fun _ => .integer 0) needsLease⟩

/-- `available_at IS NULL AND state != 'Delayed'`; a comparison with `NULL` is not true. -/
def needsAvailableAt (row : StoredRow) : Bool :=
  decide (row .availableAt = some .null) &&
    match row .state with
    | none | some .null => false
    | some state => decide (state ≠ .text "Delayed")

/-- Old Delayed jobs have no recoverable deadline; leave them unscheduled. -/
def fixAvailableAt : Step :=
  ⟨.jobs, .update [.availableAt, .state, .createdAt] .availableAt
    (fun row => (row .createdAt).getD .null) needsAvailableAt⟩

/-- The statements of the migration, in order. -/
def script : List Step :=
  createTables ++
    [addColumn .jobs (nullable .workerId .text),
      addColumn .jobs (nullable .lastError .text),
      addColumn .jobHistory (nullable .workerId .text),
      addColumn .jobHistory (nullable .lastError .text),
      addColumn .jobHistory (nullable .rateLimitFacet .text),
      addColumn .jobs (nullable .leaseExpiresAtMs .integer),
      fixLease,
      createIndex .idxJobsActiveLease .jobs [.leaseExpiresAtMs, .state],
      addColumn .jobs (nullable .availableAt .integer),
      addColumn .jobs (defaulted .retryBackoffMs .integer (.integer 0)),
      addColumn .jobs (defaulted .retryBackoffMaxMs .integer (.integer 60000)),
      addColumn .jobs (defaulted .retryJitter .real (.real .zero)),
      fixAvailableAt,
      createIndex .idxJobsSchedulable .jobs [.priority, .createdAt, .id, .availableAt, .state],
      addColumn .enqueueReceipts (defaulted .releaseOnFinish .integer (.integer 0)),
      addColumn .jobHistory (nullable .result .blob),
      addColumn .jobs (defaulted .pendingChildren .integer (.integer 0)),
      addColumn .jobs (defaulted .failParentOnFailure .integer (.integer 0)),
      addColumn .jobs (nullable .treeId .text),
      addColumn .jobs (defaulted .treeDepth .integer (.integer 0)),
      addColumn .jobHistory (defaulted .failParentOnFailure .integer (.integer 0)),
      addColumn .jobHistory (nullable .treeId .text),
      addColumn .jobHistory (defaulted .treeDepth .integer (.integer 0)),
      createIndex .idxJobsParent .jobs [.parentId],
      createIndex .idxReceiptsRelease .enqueueReceipts [.jobId, .releaseOnFinish],
      createIndex .idxJobsPressure .jobs
        [.name, .state, .availableAt, .createdAt, .leaseExpiresAtMs],
      createIndex .idxHistoryStateFinished .jobHistory [.state, .finishedAt],
      createIndex .idxHistoryNameStateFinished .jobHistory [.name, .state, .finishedAt],
      createIndex .idxHistoryTrace .jobHistory [.traceId, .finishedAt]]

/-- `run_migrations`: one transaction, so a failing statement leaves the database as it
was. -/
def runMigrations (db : Stored) : Except DdlError Stored := execAll SqlValue.null script db

/-! ## The current database as SQLite holds it -/

/-- A nullable column. -/
def SqlValue.ofOption {α : Type} (value : α → SqlValue) : Option α → SqlValue
  | none => .null
  | some a => value a

/-- A flag. -/
def SqlValue.flag (b : Bool) : SqlValue := .integer b.toNat

/-- `state` of a live job. -/
def liveText : LiveState → SqlValue
  | .waiting => .text "Waiting"
  | .delayed => .text "Delayed"
  | .active => .text "Active"
  | .waitingChildren => .text "WaitingChildren"

/-- `state` of an archived job. -/
def terminalText : TerminalState → SqlValue
  | .completed => .text "Completed"
  | .failed => .text "Failed"

/-- `kind` of a rejection. -/
def kindText : RejectionKind → SqlValue
  | .ingressVelocity => .text "ingress_velocity"
  | .parentNotFound => .text "parent_not_found"
  | .inconsistentDepth => .text "inconsistent_depth"
  | .circuitBreaker => .text "circuit_breaker"
  | .chainQuarantine => .text "chain_quarantine"

/-- The columns the script adds to a table as `CREATE TABLE` declares it. -/
def laterColumns : TableName → List (Column ColumnName SqlValue)
  | .jobs =>
    [nullable .workerId .text, nullable .lastError .text, nullable .leaseExpiresAtMs .integer,
      nullable .availableAt .integer, defaulted .retryBackoffMs .integer (.integer 0),
      defaulted .retryBackoffMaxMs .integer (.integer 60000),
      defaulted .retryJitter .real (.real .zero),
      defaulted .pendingChildren .integer (.integer 0),
      defaulted .failParentOnFailure .integer (.integer 0), nullable .treeId .text,
      defaulted .treeDepth .integer (.integer 0)]
  | .jobHistory =>
    [nullable .workerId .text, nullable .lastError .text, nullable .rateLimitFacet .text,
      defaulted .failParentOnFailure .integer (.integer 0), nullable .treeId .text,
      defaulted .treeDepth .integer (.integer 0)]
  | _ => []

/-- **The full current column set.** -/
def currentColumns (table : TableName) : List (Column ColumnName SqlValue) :=
  declaredColumns table ++ laterColumns table

/-- The columns of a table before any was added. -/
def originalColumns : TableName → List (Column ColumnName SqlValue)
  | .jobHistory => (declaredColumns .jobHistory).dropLast
  | .enqueueReceipts => (declaredColumns .enqueueReceipts).dropLast
  | table => declaredColumns table

theorem currentColumns_distinct (table : TableName) :
    ((currentColumns table).map Column.name).Nodup := by
  cases table <;> decide

def jobEntries (row : JobRow) : List (ColumnName × SqlValue) :=
  [(.id, .text row.id), (.name, .text row.name), (.state, liveText row.state),
    (.priority, .integer row.priority), (.payload, .blob row.payload),
    (.parentId, .ofOption .text row.parentId), (.traceId, .text row.traceId),
    (.executionDepth, .integer row.executionDepth), (.attempts, .integer row.attempts),
    (.maxAttempts, .integer row.maxAttempts), (.createdAt, .integer row.createdAt),
    (.updatedAt, .integer row.updatedAt), (.rateLimitFacet, .ofOption .text row.rateLimitFacet),
    (.workerId, .ofOption .text row.workerId), (.lastError, .ofOption .text row.lastError),
    (.leaseExpiresAtMs, .ofOption .integer row.leaseExpiresAtMs),
    (.availableAt, .ofOption .integer row.availableAt),
    (.retryBackoffMs, .integer row.retryBackoffMs),
    (.retryBackoffMaxMs, .integer row.retryBackoffMaxMs), (.retryJitter, .real row.retryJitter),
    (.pendingChildren, .integer row.pendingChildren),
    (.failParentOnFailure, .flag row.failParentOnFailure), (.treeId, .ofOption .text row.treeId),
    (.treeDepth, .integer row.treeDepth)]

def historyEntries (row : HistoryRow) : List (ColumnName × SqlValue) :=
  [(.id, .text row.id), (.name, .text row.name), (.state, terminalText row.state),
    (.priority, .integer row.priority), (.payload, .blob row.payload),
    (.parentId, .ofOption .text row.parentId), (.traceId, .text row.traceId),
    (.executionDepth, .integer row.executionDepth), (.attempts, .integer row.attempts),
    (.maxAttempts, .integer row.maxAttempts), (.createdAt, .integer row.createdAt),
    (.finishedAt, .integer row.finishedAt), (.result, .ofOption .blob row.result),
    (.workerId, .ofOption .text row.workerId), (.lastError, .ofOption .text row.lastError),
    (.rateLimitFacet, .ofOption .text row.rateLimitFacet),
    (.failParentOnFailure, .flag row.failParentOnFailure), (.treeId, .ofOption .text row.treeId),
    (.treeDepth, .integer row.treeDepth)]

def receiptEntries (row : Receipt) : List (ColumnName × SqlValue) :=
  [(.queueName, .text row.queueName), (.idempotencyKey, .text row.idempotencyKey),
    (.request, .blob row.request), (.jobId, .text row.jobId),
    (.initialState, liveText row.initialState), (.createdAt, .integer row.createdAt),
    (.releaseOnFinish, .flag row.releaseOnFinish)]

def ruleEntries (row : LimitRule) : List (ColumnName × SqlValue) :=
  [(.facetPattern, .text row.facetPattern), (.maxJobs, .integer row.maxJobs),
    (.windowDurationMs, .integer row.windowDurationMs)]

def rateCounterEntries (row : RateLimitCounter) : List (ColumnName × SqlValue) :=
  [(.facetKey, .text row.facetKey), (.currentCount, .integer row.currentCount),
    (.windowExpiresAt, .integer row.windowExpiresAt)]

def ingressCounterEntries (row : IngressCounter) : List (ColumnName × SqlValue) :=
  [(.facetKey, .text row.facetKey), (.currentWindowStart, .integer row.bucket.start),
    (.currentCount, .integer row.bucket.current), (.previousCount, .integer row.bucket.previous)]

def chainCounterEntries (row : ChainCounter) : List (ColumnName × SqlValue) :=
  [(.traceId, .text row.traceId), (.jobCount, .integer row.jobCount),
    (.updatedAt, .integer row.updatedAt)]

def dispatchEntries (row : FacetDispatch) : List (ColumnName × SqlValue) :=
  [(.facetKey, .text row.facetKey), (.lastServedSeq, .integer row.lastServedSeq),
    (.lastServedAt, .integer row.lastServedAt)]

def rejectionEntries (row : Rejection) : List (ColumnName × SqlValue) :=
  [(.id, .integer row.id), (.rejectedAt, .integer row.rejectedAt), (.kind, kindText row.kind),
    (.name, .text row.name), (.traceId, .ofOption .text row.traceId),
    (.parentId, .ofOption .text row.parentId),
    (.executionDepth, .ofOption .integer row.executionDepth),
    (.rateLimitFacet, .ofOption .text row.rateLimitFacet), (.detail, .text row.detail)]

def schedulerEntries (row : JobSchedulerRow) : List (ColumnName × SqlValue) :=
  [(.id, .text row.id), (.jobName, .text row.jobName), (.payload, .blob row.payload),
    (.cron, .text row.cron), (.timezone, .ofOption .text row.timezone),
    (.producedCount, .integer row.producedCount), (.nextRunAt, .ofOption .integer row.nextRunAt),
    (.lastJobId, .ofOption .text row.lastJobId), (.priority, .ofOption .integer row.priority),
    (.maxAttempts, .ofOption (fun n : ℕ => .integer n) row.maxAttempts),
    (.retryBackoffMs, .ofOption .integer row.retryBackoffMs),
    (.retryBackoffMaxMs, .ofOption .integer row.retryBackoffMaxMs),
    (.retryJitter, .ofOption .real row.retryJitter),
    (.rateLimitFacet, .ofOption .text row.rateLimitFacet), (.createdAt, .integer row.createdAt),
    (.updatedAt, .integer row.updatedAt)]

/-- The rows of a table, written out. -/
def storedRows (db : Db) : TableName → List (List (ColumnName × SqlValue))
  | .jobs => db.jobs.rows.map jobEntries
  | .jobHistory => db.jobHistory.rows.map historyEntries
  | .rateLimitRules => db.rateLimitRules.rows.map ruleEntries
  | .enqueueReceipts => db.enqueueReceipts.rows.map receiptEntries
  | .rateLimitCounters => db.rateLimitCounters.rows.map rateCounterEntries
  | .ingressLimitRules => db.ingressLimitRules.rows.map ruleEntries
  | .ingressLimitCounters => db.ingressLimitCounters.rows.map ingressCounterEntries
  | .chainCounters => db.chainCounters.rows.map chainCounterEntries
  | .facetDispatch => db.facetDispatch.rows.map dispatchEntries
  | .enqueueRejections => db.enqueueRejections.rows.map rejectionEntries
  | .jobSchedulers => db.jobSchedulers.rows.map schedulerEntries

theorem liveText_ne_null (state : LiveState) : liveText state ≠ .null := by
  cases state <;> simp [liveText]

theorem terminalText_ne_null (state : TerminalState) : terminalText state ≠ .null := by
  cases state <;> simp [terminalText]

theorem kindText_ne_null (kind : RejectionKind) : kindText kind ≠ .null := by
  cases kind <;> simp [kindText]

/-- The rows of the model fit the current columns. -/
theorem storedRows_fit (db : Db) (table : TableName) :
    ∀ entries ∈ storedRows db table, FitsColumns SqlValue.null (currentColumns table) entries := by
  intro entries mem
  cases table
  all_goals
    obtain ⟨row, -, rfl⟩ := List.mem_map.mp mem
    simp [FitsColumns, currentColumns, declaredColumns, laterColumns, nullable, required, defaulted,
      jobEntries, historyEntries, receiptEntries, ruleEntries, rateCounterEntries,
      ingressCounterEntries, chainCounterEntries, dispatchEntries, rejectionEntries,
      schedulerEntries, liveText_ne_null, terminalText_ne_null, kindText_ne_null, SqlValue.flag]

/-- **The database of the model as SQLite holds it**, with all its indexes. -/
def stored (db : Db) : Stored where
  tables := fun table => some (.ofEntries (currentColumns table) (currentColumns_distinct table)
    (storedRows db table) (storedRows_fit db table))
  indexes := script.filterMap fun step => step.change.index?

end AnvilMQ.Migration
