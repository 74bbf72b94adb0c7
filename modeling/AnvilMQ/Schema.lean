import AnvilMQ.Protocol
import AnvilMQ.Relational.Table

/-!
# The database schema

The tables of `DatabaseManager::run_migrations` (`src/db.rs`) with their rows,
and the configuration the requests run under.  Every table is a
`Relational.Table` over its primary key, so key uniqueness is part of the type.

`INTEGER` flags that only ever hold `0` and `1` are `Bool`, and a nullable
column is an `Option`.  Indexes change no result and are left out.

## Design notes

`Externals` gathers what the broker calls but does not contain: the UUID
generator, the protobuf encoder, the cron library and the `f64` arithmetic of
the ingress estimate.  Of these only the UUID generator carries a law, that a
UUID is never generated twice and is not blank; the generator is indexed by the
request that asks and a slot within that request, so a request's own calls and
the calls of different requests are kept apart without any bookkeeping.
-/

namespace AnvilMQ

open Rust Relational

/-! ## Rows -/

/-- A row of `jobs`. -/
structure JobRow where
  id : JobId
  name : String
  state : LiveState
  priority : ℤ
  payload : Bytes
  parentId : Option JobId
  traceId : String
  executionDepth : ℤ
  attempts : ℕ := 0
  maxAttempts : ℕ
  createdAt : ℤ
  updatedAt : ℤ
  rateLimitFacet : Option String
  workerId : Option String := none
  lastError : Option String := none
  leaseExpiresAtMs : Option ℤ := none
  availableAt : Option ℤ
  retryBackoffMs : ℤ
  retryBackoffMaxMs : ℤ
  retryJitter : F64
  pendingChildren : ℤ := 0
  failParentOnFailure : Bool := false
  treeId : Option JobId := none
  treeDepth : ℤ := 0
deriving DecidableEq

/-- A row of `job_history`. -/
structure HistoryRow where
  id : JobId
  name : String
  state : TerminalState
  priority : ℤ
  payload : Bytes
  parentId : Option JobId
  traceId : String
  executionDepth : ℤ
  attempts : ℕ
  maxAttempts : ℕ
  createdAt : ℤ
  finishedAt : ℤ
  result : Option Bytes := none
  workerId : Option String
  lastError : Option String
  rateLimitFacet : Option String
  failParentOnFailure : Bool := false
  treeId : Option JobId := none
  treeDepth : ℤ := 0
deriving DecidableEq

/-- A row of `enqueue_receipts`. -/
structure Receipt where
  queueName : String
  idempotencyKey : String
  request : Bytes
  jobId : JobId
  initialState : LiveState
  createdAt : ℤ
  releaseOnFinish : Bool
deriving DecidableEq

/-- The primary key of `enqueue_receipts`. -/
def Receipt.key (receipt : Receipt) : String × String :=
  (receipt.queueName, receipt.idempotencyKey)

/-- A row of `rate_limit_rules` or `ingress_limit_rules`. -/
structure LimitRule where
  facetPattern : String
  maxJobs : ℕ
  windowDurationMs : ℤ
deriving DecidableEq

/-- A row of `rate_limit_counters`. -/
structure RateLimitCounter where
  facetKey : String
  currentCount : ℕ
  windowExpiresAt : ℤ
deriving DecidableEq

/-- Two adjacent fixed-window counter buckets: the start of the current window,
the admissions counted in it and the total of the window before it. -/
structure Bucket where
  start : ℤ
  current : ℤ
  previous : ℤ
deriving DecidableEq

/-- A row of `ingress_limit_counters`. -/
structure IngressCounter where
  facetKey : String
  bucket : Bucket
deriving DecidableEq

/-- A row of `chain_counters`. -/
structure ChainCounter where
  traceId : String
  jobCount : ℕ
  updatedAt : ℤ
deriving DecidableEq

/-- A row of `facet_dispatch`. -/
structure FacetDispatch where
  facetKey : String
  lastServedSeq : ℤ
  lastServedAt : ℤ
deriving DecidableEq

/-- The kinds of admission-time rejection. -/
inductive RejectionKind
  | ingressVelocity
  | parentNotFound
  | inconsistentDepth
  | circuitBreaker
  | chainQuarantine
deriving DecidableEq

/-- A row of `enqueue_rejections`. -/
structure Rejection where
  id : ℕ
  rejectedAt : ℤ
  kind : RejectionKind
  name : String
  traceId : Option String
  parentId : Option String
  executionDepth : Option ℤ
  rateLimitFacet : Option String
  detail : String
deriving DecidableEq

/-- A row of `job_schedulers`. -/
structure JobSchedulerRow where
  id : String
  jobName : String
  payload : Bytes
  cron : String
  timezone : Option String
  producedCount : ℕ
  nextRunAt : Option ℤ
  lastJobId : Option JobId
  priority : Option ℤ
  maxAttempts : Option ℕ
  retryBackoffMs : Option ℤ
  retryBackoffMaxMs : Option ℤ
  retryJitter : Option F64
  rateLimitFacet : Option String
  createdAt : ℤ
  updatedAt : ℤ
deriving DecidableEq

/-! ## The database -/

/-- The persisted state of the broker. -/
structure Db where
  jobs : Table JobRow.id
  jobHistory : Table HistoryRow.id
  enqueueReceipts : Table Receipt.key
  rateLimitRules : Table LimitRule.facetPattern
  rateLimitCounters : Table RateLimitCounter.facetKey
  ingressLimitRules : Table LimitRule.facetPattern
  ingressLimitCounters : Table IngressCounter.facetKey
  chainCounters : Table ChainCounter.traceId
  facetDispatch : Table FacetDispatch.facetKey
  enqueueRejections : Table Rejection.id
  /-- The `AUTOINCREMENT` sequence of `enqueue_rejections`: the last id given out. -/
  rejectionSeq : ℕ
  jobSchedulers : Table JobSchedulerRow.id
deriving DecidableEq

/-- A freshly migrated database. -/
def Db.empty : Db where
  jobs := Table.empty
  jobHistory := Table.empty
  enqueueReceipts := Table.empty
  rateLimitRules := Table.empty
  rateLimitCounters := Table.empty
  ingressLimitRules := Table.empty
  ingressLimitCounters := Table.empty
  chainCounters := Table.empty
  facetDispatch := Table.empty
  enqueueRejections := Table.empty
  rejectionSeq := 0
  jobSchedulers := Table.empty

/-! ## Configuration -/

/-- The settings of `MyQueueService`. -/
structure Service where
  maxExecutionDepth : ℕ := 10
  maxChainSize : ℕ := 0
  fairnessEnabled : Bool := false
  leaseDurationMs : ℤ := 30000
  maxFlowDepth : ℕ := 10
  maxFlowNodes : ℕ := 1000
  maxFlowBulk : ℕ := 100
deriving DecidableEq

/-- The readings of the wall clock a request takes, in order.  Nothing relates
one reading to another. -/
abbrev Clock := ℕ → ℤ

/-- What the broker calls but does not contain. -/
structure Externals where
  /-- `Uuid::new_v4().to_string()`: the UUID drawn at slot `k` while serving
  request `t`. -/
  newV4 : ℕ → ℕ → JobId
  /-- UUIDs never repeat. -/
  newV4_injective : ∀ {t k t' k' : ℕ}, newV4 t k = newV4 t' k' → t = t' ∧ k = k'
  /-- The text of a UUID is not blank. -/
  newV4_not_blank : ∀ t k : ℕ, isBlank (newV4 t k) = false
  /-- `prost::Message::encode_to_vec` on a normalised request. -/
  encodeToVec : AddJobRequest → Bytes
  /-- The `f64` nearest to an exact finite result. -/
  roundF64 : ℚ → ℚ
  /-- `croner::Cron::from_str`: the error text of a pattern it does not parse. -/
  cronFromStr : String → Except String Unit
  /-- Whether `chrono_tz` knows a time zone name. -/
  tzFromStr : String → Bool
  /-- `find_next_occurrence` of a pattern in a time zone, strictly after a time. -/
  findNextOccurrence : String → String → ℤ → Except String ℤ

/-- An id that spells out the request and the slot it was drawn at. -/
def unaryId (t k : ℕ) : JobId :=
  String.ofList (List.replicate t 'a' ++ '-' :: List.replicate k 'b')

theorem unaryId_injective {t k t' k' : ℕ} (same : unaryId t k = unaryId t' k') :
    t = t' ∧ k = k' := by
  have letters : List.replicate t 'a' ++ '-' :: List.replicate k 'b' =
      List.replicate t' 'a' ++ '-' :: List.replicate k' 'b' := by
    simpa only [unaryId, String.toList_ofList] using congrArg String.toList same
  constructor
  · simpa [List.count_replicate] using congrArg (List.count 'a') letters
  · simpa [List.count_replicate] using congrArg (List.count 'b') letters

/-- An environment that meets the assumptions: unary ids, exact floats, and a cron
that fires every minute. -/
def Externals.unary : Externals where
  newV4 := unaryId
  newV4_injective := unaryId_injective
  newV4_not_blank := by
    intro t k
    simp [isBlank, unaryId, isWhitespace]
  encodeToVec := fun _ => []
  roundF64 := id
  cronFromStr := fun _ => .ok ()
  tzFromStr := fun _ => true
  findNextOccurrence := fun _ _ now => .ok ((now / 60000 + 1) * 60000)

/-! ## The rows that leave `jobs` -/

/-- The `job_history` row a finished job is copied to: every column of the live
row, with the outcome, its time, the last error and the result. -/
def JobRow.toHistory (row : JobRow) (state : TerminalState) (finishedAt : ℤ)
    (lastError : Option String) (result : Option Bytes) : HistoryRow where
  id := row.id
  name := row.name
  state := state
  priority := row.priority
  payload := row.payload
  parentId := row.parentId
  traceId := row.traceId
  executionDepth := row.executionDepth
  attempts := row.attempts
  maxAttempts := row.maxAttempts
  createdAt := row.createdAt
  finishedAt := finishedAt
  result := result
  workerId := row.workerId
  lastError := lastError
  rateLimitFacet := row.rateLimitFacet
  failParentOnFailure := row.failParentOnFailure
  treeId := row.treeId
  treeDepth := row.treeDepth

/-- The `job_history` row of `recover_expired`.  Its `INSERT` names neither
`result` nor the three flow columns, which therefore take their defaults. -/
def JobRow.toExpiredHistory (row : JobRow) (now : ℤ) : HistoryRow where
  id := row.id
  name := row.name
  state := .failed
  priority := row.priority
  payload := row.payload
  parentId := row.parentId
  traceId := row.traceId
  executionDepth := row.executionDepth
  attempts := row.attempts
  maxAttempts := row.maxAttempts
  createdAt := row.createdAt
  finishedAt := now
  workerId := row.workerId
  lastError := some "Worker lease expired"
  rateLimitFacet := row.rateLimitFacet

end AnvilMQ
