import AnvilMQ.IngressLimit
import AnvilMQ.Telemetry

/-!
# Enqueue

`src/enqueue.rs`: validation and normalisation of an `AddJobRequest`, the
admission core `enqueueOne` shared by single, bulk and scheduled enqueues, and
the all-or-nothing batch around it.

A business rejection carries a forensic record.  The batch transaction is rolled
back first and the record is written in a transaction of its own, so a rejected
batch changes nothing but `enqueue_rejections`.
-/

namespace AnvilMQ

open Rust Relational

/-- `MAX_BULK_BATCH_SIZE`. -/
def maxBulkBatchSize : ℕ := 5000

/-- `RejectionRecord`. -/
structure RejectionRecord where
  kind : RejectionKind
  traceId : Option String
  parentId : Option String
  executionDepth : Option ℤ
  rateLimitFacet : Option String
  detail : String
deriving DecidableEq

/-- `EnqueueFailure`: a plain status, or a rejection to be recorded. -/
inductive EnqueueFailure
  | status (status : Status)
  | rejected (status : Status) (record : RejectionRecord) (name : String)
deriving DecidableEq

/-- The status a failure is answered with. -/
def EnqueueFailure.toStatus : EnqueueFailure → Status
  | status s => s
  | rejected s _ _ => s

/-- What one enqueue hands back to its transaction: the response, the gauge calls
to make after the commit, the database and the number of UUIDs generated so far. -/
structure EnqueueOutcome where
  response : AddJobResponse
  calls : List MetricCall
  db : Db
  uuids : ℕ

/-! ## Validation -/

/-- `60_000.max(base)` when the cap is left at zero. -/
def effectiveBackoffMax (base cap : ℤ) : ℤ := if cap = 0 then max 60000 base else cap

/-- `validate_and_prepare`: the normalised request and its serialised receipt
request, `none` when deduplication is disabled. -/
def validateAndPrepare (ext : Externals) (maxExecutionDepth : ℕ) (req : AddJobRequest) :
    Except Status (AddJobRequest × Option Bytes) :=
  if req.idempotencyKey ≠ "" ∧ (isBlank req.idempotencyKey ∨ 256 < byteLen req.idempotencyKey) then
    .error (.invalidArgument "idempotency_key must be nonblank and at most 256 UTF-8 bytes")
  else if req.releaseOnFinish ∧ req.idempotencyKey = "" then
    .error (.invalidArgument "release_on_finish requires an idempotency_key")
  else if req.delayMs < 0 ∨ req.retryBackoffMs < 0 ∨ req.retryBackoffMaxMs < 0 then
    .error (.invalidArgument "delays must not be negative")
  else if effectiveBackoffMax req.retryBackoffMs req.retryBackoffMaxMs < req.retryBackoffMs then
    .error (.invalidArgument "backoff cap must be at least the base")
  else if req.retryJitter.isNan ∨ ¬ req.retryJitter.inUnitInterval then
    .error (.invalidArgument "retry_jitter must be a fraction in [0, 1]")
  else
    let metadata := req.metadata.getD {}
    if maxExecutionDepth < metadata.executionDepth then
      let depth := metadata.executionDepth
      .error (.resourceExhausted
        s!"Circuit breaker tripped: execution depth {depth} exceeds max allowed {maxExecutionDepth}")
    else
      let normalized := { req with
        retryBackoffMaxMs := effectiveBackoffMax req.retryBackoffMs req.retryBackoffMaxMs
        maxAttempts := if req.maxAttempts = 0 then 3 else req.maxAttempts
        metadata := some metadata }
      .ok (normalized,
        if req.idempotencyKey = "" then none else some (ext.encodeToVec normalized))

/-! ## Ancestry -/

/-- The depth and trace of a job, live or archived (`UNION ALL … LIMIT 1`). -/
def Db.lineage (db : Db) (id : JobId) : Option (ℤ × String) :=
  match db.jobs.find? id with
  | some row => some (row.executionDepth, row.traceId)
  | none => (db.jobHistory.find? id).map fun row => (row.executionDepth, row.traceId)

/-- The depth and trace of a new job and the number of UUIDs generated so far.
With a parent the server owns both; without one the request's values stand and
an absent trace id is generated. -/
def deriveLineage (ext : Externals) (t k : ℕ) (db : Db) (name : String) (metadata : JobMetadata) :
    Except EnqueueFailure (ℤ × String × ℕ) :=
  if metadata.parentId = "" then
    if metadata.traceId = "" then .ok ((metadata.executionDepth : ℤ), ext.newV4 t k, k + 1)
    else .ok ((metadata.executionDepth : ℤ), metadata.traceId, k)
  else
    let parent := metadata.parentId
    match db.lineage parent with
    | none =>
      let message := s!"ancestry: parent {parent} not found"
      .error (.rejected (.failedPrecondition message)
        { kind := .parentNotFound
          traceId := none
          parentId := some parent
          executionDepth := none
          rateLimitFacet := none
          detail := message } name)
    | some (parentDepth, parentTrace) =>
      let derived := parentDepth + 1
      if metadata.executionDepth = 0 ∨ (metadata.executionDepth : ℤ) = derived then
        .ok (derived, parentTrace, k)
      else
        let depth := metadata.executionDepth
        let message := s!"ancestry: execution_depth {depth} must equal parent depth + 1 ({derived})"
        .error (.rejected (.invalidArgument message)
          { kind := .inconsistentDepth
            traceId := some parentTrace
            parentId := some parent
            executionDepth := some (metadata.executionDepth : ℤ)
            rateLimitFacet := none
            detail := message } name)

/-- `parent_id` as a column: the empty string is `NULL`. -/
def JobMetadata.parentColumn (metadata : JobMetadata) : Option JobId :=
  if metadata.parentId = "" then none else some metadata.parentId

/-- An optional text column: the empty string is `NULL`. -/
def textColumn (text : String) : Option String := if text = "" then none else some text

/-! ## Admission -/

/-- The ingress check: jobs without a facet are never throttled. -/
def admitRequest (ext : Externals) (db : Db) (req : AddJobRequest) (now : ℤ) :
    Except EnqueueFailure Db :=
  if req.rateLimitFacet = "" then .ok db
  else
    match admitIngress ext db req.rateLimitFacet now with
    | some db => .ok db
    | none =>
      let facet := req.rateLimitFacet
      let message := s!"ingress velocity limit exceeded for facet {facet}"
      .error (.rejected (.resourceExhausted message)
        { kind := .ingressVelocity
          traceId := none
          parentId := none
          executionDepth := none
          rateLimitFacet := some facet
          detail := message } req.name)

/-- The circuit breaker on the derived depth. -/
def checkDepth (maxExecutionDepth : ℕ) (name traceId : String) (parentId : Option JobId)
    (depth : ℤ) : Except EnqueueFailure Unit :=
  if (maxExecutionDepth : ℤ) < depth then
    let message :=
      s!"Circuit breaker tripped: execution depth {depth} exceeds max allowed {maxExecutionDepth}"
    .error (.rejected (.resourceExhausted message)
      { kind := .circuitBreaker
        traceId := some traceId
        parentId := parentId
        executionDepth := some depth
        rateLimitFacet := none
        detail := message } name)
  else .ok ()

/-- The runaway-chain quarantine: count the job against its lineage, or refuse
it when the lineage is full.  A cap of zero disables both. -/
def checkChain (maxChainSize : ℕ) (db : Db) (name traceId : String) (parentId : Option JobId)
    (depth now : ℤ) : Except EnqueueFailure Db :=
  if maxChainSize = 0 then .ok db
  else
    let current := ((db.chainCounters.find? traceId).map ChainCounter.jobCount).getD 0
    if maxChainSize ≤ current then
      let message := s!"chain quarantined: lineage {traceId} exceeded max chain size {maxChainSize}"
      .error (.rejected (.resourceExhausted message)
        { kind := .chainQuarantine
          traceId := some traceId
          parentId := parentId
          executionDepth := some depth
          rateLimitFacet := none
          detail := message } name)
    else
      .ok { db with
        chainCounters := db.chainCounters.upsert
          { traceId := traceId, jobCount := 1, updatedAt := now }
          (fun counter => { counter with
            jobCount := counter.jobCount + 1
            updatedAt := now }) fun _ => rfl }

/-- The row `enqueue_one` inserts. -/
def enqueuedRow (req : AddJobRequest) (id : JobId) (parentId : Option JobId) (traceId : String)
    (depth now availableAt : ℤ) : JobRow where
  id := id
  name := req.name
  state := if 0 < req.delayMs then .delayed else .waiting
  priority := req.priority
  payload := req.payload
  parentId := parentId
  traceId := traceId
  executionDepth := depth
  maxAttempts := req.maxAttempts
  createdAt := now
  updatedAt := now
  rateLimitFacet := textColumn req.rateLimitFacet
  availableAt := some availableAt
  retryBackoffMs := req.retryBackoffMs
  retryBackoffMaxMs := req.retryBackoffMaxMs
  retryJitter := req.retryJitter

/-- The receipt of a keyed request. -/
def enqueueReceipt (req : AddJobRequest) (original : Bytes) (row : JobRow) (now : ℤ) : Receipt where
  queueName := req.name
  idempotencyKey := req.idempotencyKey
  request := original
  jobId := row.id
  initialState := row.state
  createdAt := now
  releaseOnFinish := req.releaseOnFinish

/-- Write the receipt, when deduplication is enabled. -/
def writeReceipt (db : Db) (req : AddJobRequest) (receiptRequest : Option Bytes) (row : JobRow)
    (now : ℤ) : Except Status Db :=
  match receiptRequest with
  | none => .ok db
  | some original => db.insertReceipt (enqueueReceipt req original row now)

/-- Run a statement inside the enqueue core (`db_fail`). -/
def dbFail {α : Type} : Except Status α → Except EnqueueFailure α
  | .ok a => .ok a
  | .error status => .error (.status status)

/-- The insertion half of `enqueue_one`: the request has no receipt to replay. -/
def insertEnqueued (ext : Externals) (service : Service) (t k : ℕ) (db : Db)
    (req : AddJobRequest) (receiptRequest : Option Bytes) (now : ℤ) :
    Except EnqueueFailure EnqueueOutcome := do
  let db ← admitRequest ext db req now
  match checkedAdd now req.delayMs with
  | none => .error (.status (.invalidArgument "delay timestamp overflows"))
  | some availableAt =>
    let id := ext.newV4 t k
    let metadata := req.metadata.getD {}
    let parentId := metadata.parentColumn
    let (depth, traceId, uuids) ← deriveLineage ext t (k + 1) db req.name metadata
    checkDepth service.maxExecutionDepth req.name traceId parentId depth
    let db ← checkChain service.maxChainSize db req.name traceId parentId depth now
    let row := enqueuedRow req id parentId traceId depth now availableAt
    let db ← dbFail (db.insertJob row)
    let db ← dbFail (writeReceipt db req receiptRequest row now)
    .ok
      { response := { id := id, state := row.state, replayed := false }
        calls := (if receiptRequest.isSome then [.enqueueReceiptCreated] else []) ++
          [.transition none row.state.label]
        db := db
        uuids := uuids }

/-- `enqueue_one`: replay the receipt of the key, refuse a different request for
it, or admit and insert the job. -/
def enqueueOne (ext : Externals) (service : Service) (t k : ℕ) (db : Db) (req : AddJobRequest)
    (receiptRequest : Option Bytes) (now : ℤ) : Except EnqueueFailure EnqueueOutcome :=
  match receiptRequest with
  | none => insertEnqueued ext service t k db req none now
  | some expected =>
    match db.receiptFor req.name req.idempotencyKey with
    | none => insertEnqueued ext service t k db req (some expected) now
    | some receipt =>
      if receipt.request ≠ expected then
        .error (.status (.alreadyExists
          "idempotency key was already used for a different enqueue request"))
      else
        .ok
          { response :=
              { id := receipt.jobId, state := receipt.initialState, replayed := true }
            calls := []
            db := db
            uuids := k }

/-! ## The batch -/

/-- `record_rejection`, in its own transaction. -/
def recordRejection (db : Db) (now : ℤ) (name : String) (record : RejectionRecord) : Db :=
  let row : Rejection :=
    { id := db.rejectionSeq + 1
      rejectedAt := now
      kind := record.kind
      name := name
      traceId := record.traceId
      parentId := record.parentId
      executionDepth := record.executionDepth
      rateLimitFacet := record.rateLimitFacet
      detail := record.detail }
  match db.enqueueRejections.insert row with
  | some rejections => { db with enqueueRejections := rejections, rejectionSeq := row.id }
  | none => db

/-- A batch that committed: the responses in request order, the gauge calls, the
database and the number of UUIDs generated. -/
structure BatchOutcome where
  responses : List AddJobResponse
  calls : List MetricCall
  db : Db
  uuids : ℕ

/-- The loop of `execute_batch`: enqueue the requests in order inside one
transaction.  A failure carries the index of the request that failed. -/
def enqueueAll (ext : Externals) (service : Service) (t : ℕ) (now : ℤ) :
    ℕ → ℕ → Db → List (AddJobRequest × Option Bytes) → Except (ℕ × EnqueueFailure) BatchOutcome
  | _, k, db, [] => .ok { responses := [], calls := [], db := db, uuids := k }
  | index, k, db, (req, receiptRequest) :: rest =>
    match enqueueOne ext service t k db req receiptRequest now with
    | .error failure => .error (index, failure)
    | .ok outcome =>
      match enqueueAll ext service t now (index + 1) outcome.uuids outcome.db rest with
      | .error failure => .error failure
      | .ok batch =>
        .ok
          { responses := outcome.response :: batch.responses
            calls := outcome.calls ++ batch.calls
            db := batch.db
            uuids := batch.uuids }

/-- `execute_batch`: all or nothing, with the single offending rejection recorded
after the rollback.  `indexPrefix` tags a rejection with its batch position. -/
def executeBatch (ext : Externals) (service : Service) (t : ℕ) (clock : Clock) (db : Db)
    (jobs : List (AddJobRequest × Option Bytes)) (indexPrefix : Bool) :
    Db × Except Status (List AddJobResponse × List MetricCall) :=
  match enqueueAll ext service t (clock 0) 0 0 db jobs with
  | .ok batch => (batch.db, .ok (batch.responses, batch.calls))
  | .error (_, .status status) => (db, .error status)
  | .error (index, .rejected status record name) =>
    let message := status.message
    (recordRejection db (clock 0) name record,
      .error (if indexPrefix then ⟨status.code, s!"bulk job {index}: {message}"⟩ else status))

/-- `enqueue` (`AddJob`). -/
def enqueue (ext : Externals) (service : Service) (t : ℕ) (clock : Clock) (db : Db)
    (req : AddJobRequest) : Db × Except Status (List AddJobResponse × List MetricCall) :=
  match validateAndPrepare ext service.maxExecutionDepth req with
  | .error status => (db, .error status)
  | .ok job => executeBatch ext service t clock db [job] false

/-- `enqueue_bulk` (`AddJobBulk`): every request is validated before the
transaction opens. -/
def enqueueBulk (ext : Externals) (service : Service) (t : ℕ) (clock : Clock) (db : Db)
    (requests : List AddJobRequest) : Db × Except Status (List AddJobResponse × List MetricCall) :=
  if requests = [] then (db, .error (.invalidArgument "bulk enqueue requires at least one job"))
  else if maxBulkBatchSize < requests.length then
    (db, .error (.invalidArgument s!"bulk enqueue exceeds max batch size {maxBulkBatchSize}"))
  else
    match requests.mapM (validateAndPrepare ext service.maxExecutionDepth) with
    | .error status => (db, .error status)
    | .ok jobs => executeBatch ext service t clock db jobs true

/-- `enqueue_scheduled`: one job inside the scheduler's transaction, without a
receipt and without a rejection record. -/
def enqueueScheduled (ext : Externals) (service : Service) (t k : ℕ) (db : Db)
    (req : AddJobRequest) (now : ℤ) : Except Status EnqueueOutcome :=
  match validateAndPrepare ext service.maxExecutionDepth req with
  | .error status => .error status
  | .ok (req, receiptRequest) =>
    match enqueueOne ext service t k db req receiptRequest now with
    | .ok outcome => .ok outcome
    | .error failure => .error failure.toStatus

end AnvilMQ
