import AnvilMQ.Scheduling
import AnvilMQ.Store
import AnvilMQ.Telemetry

/-!
# Completion and failure

`finish_job` of `src/main.rs`, shared by `CompleteJob` and `FailJob`: the checks
of the acknowledged claim, then a retry, a completion that counts down the
parent, or a terminal failure that cascades to flagged ancestors.

The clock readings are those of the source's statements in order: reading `0` is
`now`, reading `1` stamps the job itself, and later readings stamp the released
parent or the failed ancestors.
-/

namespace AnvilMQ

open Rust Relational

/-- `MAX_RESULT_BYTES`. -/
def maxResultBytes : ℕ := 256 * 1024

/-! ## The acknowledged claim -/

/-- The answer `finish_job` gives for a job that is not live: only the exact
successful completion is replayed. -/
def acknowledgeArchived (db : Db) (id workerId : String) (attempt : ℕ) (failed : Bool) :
    Except Status Unit :=
  match db.jobHistory.find? id with
  | none => .error (.notFound "job not found")
  | some row =>
    if ¬ failed ∧ row.state = .completed ∧ row.workerId = some workerId ∧
        row.attempts = max attempt 1 then .ok ()
    else .error (.failedPrecondition "job already finished with a different outcome or claim")

/-- The checks of the acknowledgment against the live row. -/
def checkClaim (row : JobRow) (workerId : String) (attempt : ℕ) (now : ℤ) : Except Status Unit :=
  if row.state ≠ .active then .error (.failedPrecondition "job is not Active")
  else if row.workerId ≠ some workerId then
    .error (.permissionDenied "worker does not own this job")
  else if (if attempt = 0 then 1 else attempt) ≠ row.attempts then
    .error (.failedPrecondition "attempt does not match the active claim")
  else if row.leaseExpiresAtMs.all fun lease => decide (lease ≤ now) then
    .error (.failedPrecondition "claim lease has expired")
  else .ok ()

/-! ## Retry -/

/-- The delay of a retry after its jitter. -/
def failureRetryDelay (row : JobRow) (jittered : ℤ) : ℤ :=
  applyJitter (retryDelay row.retryBackoffMs row.retryBackoffMaxMs row.attempts) row.retryJitter
    jittered

/-- The retry branch. -/
def finishRetry (clock : Clock) (jittered : ℤ) (db : Db) (row : JobRow) (error : String) :
    Db × List MetricCall :=
  let delay := failureRetryDelay row jittered
  let state := Db.restingState delay
  (db.requeue row.id state (saturatingAdd (clock 0) delay) error (clock 1),
    [.dedupReleased 0, .transition (some .active) state.label, .flowWaitingChildrenDec 0])

/-! ## Completion -/

/-- Whether a counted-down parent's gate opens. -/
def gateOpens (parent : JobRow) : Bool :=
  decide (parent.state = .waitingChildren) && decide (parent.pendingChildren ≤ 0)

/-- Where a released parent goes: `Delayed` while its `available_at` is ahead. -/
def releasedState (parent : JobRow) (now : ℤ) : LiveState :=
  if parent.availableAt.any fun at_ => decide (now < at_) then .delayed else .waiting

/-- Count a completed child off its parent and open the parent's gate when none
is pending.  Returns the state a released parent went to. -/
def countDown (db : Db) (parentId : JobId) (now updatedAt : ℤ) : Db × Option LiveState :=
  let counted := db.jobs.modify parentId
    (fun row => { row with pendingChildren := row.pendingChildren - 1 }) fun _ => rfl
  match counted.find? parentId with
  | none => ({ db with jobs := counted }, none)
  | some parent =>
    if gateOpens parent then
      let state := releasedState parent now
      ({ db with
          jobs := counted.modify parentId
            (fun row => { row with state := state, updatedAt := updatedAt }) fun _ => rfl },
        some state)
    else ({ db with jobs := counted }, none)

/-- Count a completed job off its parent, if it has one. -/
def releaseParent (db : Db) (parentId : Option JobId) (now updatedAt : ℤ) :
    Db × Option LiveState :=
  match parentId with
  | none => (db, none)
  | some parentId => countDown db parentId now updatedAt

/-- The calls for a released parent. -/
def releaseCalls : Option LiveState → List MetricCall
  | none => []
  | some state => [.flowWaitingChildrenDec 1, .transition none state.label]

/-- The completion branch. -/
def finishCompleted (clock : Clock) (db : Db) (row : JobRow) (result : Option Bytes) :
    Except Status (Db × List MetricCall) := do
  let (db, released) ← db.archive row.id fun row =>
    row.toHistory .completed (clock 1) row.lastError result
  let (db, parentReleased) := releaseParent db row.parentId (clock 0) (clock 2)
  .ok (db, [.dedupReleased released, .transition (some .active) (some .completed)] ++
    releaseCalls parentReleased ++ [.flowWaitingChildrenDec 0])

/-! ## Terminal failure -/

/-- What the cascade loop accumulates: the ancestors failed, and how many of them
were parked on children. -/
structure CascadeOutcome where
  db : Db
  parentFailures : ℕ
  parentsLeftWaiting : ℕ

/-- The `failParentOnFailure` loop from `ancestor` upwards.  Every round deletes a
live job, so as much fuel as there are live jobs is never used up. -/
def cascade (failedId : JobId) (clock : Clock) :
    ℕ → ℕ → Db → Bool → Option JobId → Except Status CascadeOutcome
  | 0, _, db, _, _ => .ok ⟨db, 0, 0⟩
  | fuel + 1, reading, db, flag, ancestor =>
    if ¬ flag then .ok ⟨db, 0, 0⟩
    else
      match ancestor.bind db.jobs.find? with
      | none => .ok ⟨db, 0, 0⟩
      | some parent => do
        let (db, _) ← db.archive parent.id fun row =>
          row.toHistory .failed (clock reading)
            (some s!"failParentOnFailure: child {failedId} failed") none
        let outcome ← cascade failedId clock fuel (reading + 1) db parent.failParentOnFailure
          parent.parentId
        .ok
          { db := outcome.db
            parentFailures := outcome.parentFailures + 1
            parentsLeftWaiting := outcome.parentsLeftWaiting +
              if parent.state = .waitingChildren then 1 else 0 }

/-- The terminal failure branch. -/
def finishFailed (clock : Clock) (db : Db) (row : JobRow) (error : String) :
    Except Status (Db × List MetricCall) := do
  let (db, released) ← db.archive row.id fun row =>
    row.toHistory .failed (clock 1) (some error) none
  let outcome ← cascade row.id clock db.jobs.rows.length 2 db row.failParentOnFailure row.parentId
  .ok (outcome.db, [.dedupReleased released, .transition (some .active) (some .failed),
    .flowWaitingChildrenDec outcome.parentsLeftWaiting] ++
    List.replicate outcome.parentFailures (.transition none (some .failed)))

/-! ## The requests -/

/-- How a worker acknowledges a claim: a completion with its result, or a failure. -/
inductive Acknowledgment
  | completed (result : Option Bytes)
  | failed (error : String) (nonRetryable : Bool)

/-- Whether the acknowledgment reports a failure. -/
def Acknowledgment.isFailure : Acknowledgment → Bool
  | completed _ => false
  | failed _ _ => true

/-- The three branches of `finish_job` on an accepted acknowledgment.  Returns
whether the job moved to `Failed`. -/
def settle (clock : Clock) (jittered : ℤ) (db : Db) (row : JobRow) :
    Acknowledgment → Except Status (Bool × Db × List MetricCall)
  | .completed result => do
    let (db, calls) ← finishCompleted clock db row result
    .ok (false, db, calls)
  | .failed error nonRetryable =>
    if row.attempts < row.maxAttempts ∧ ¬ nonRetryable then
      let (db, calls) := finishRetry clock jittered db row error
      .ok (false, db, calls)
    else do
      let (db, calls) ← finishFailed clock db row error
      .ok (true, db, calls)

/-- `finish_job`. -/
def finishJob (clock : Clock) (jittered : ℤ) (db : Db) (id workerId : String) (attempt : ℕ)
    (ack : Acknowledgment) : Except Status (Bool × Db × List MetricCall) :=
  if isBlank id ∨ isBlank workerId then
    .error (.invalidArgument "id and worker_id must not be blank")
  else
    match db.jobs.find? id with
    | none => do
      acknowledgeArchived db id workerId attempt ack.isFailure
      .ok (false, db, [])
    | some row => do
      checkClaim row workerId attempt (clock 0)
      settle clock jittered db row ack

/-- `complete_job`: oversize results are refused before the transaction, an empty
result is stored as `NULL`. -/
def completeJob (clock : Clock) (db : Db) (req : CompleteJobRequest) :
    Except Status (Db × List MetricCall) :=
  if maxResultBytes < req.result.length then
    .error (.invalidArgument s!"result exceeds {maxResultBytes} bytes")
  else do
    let (_, db, calls) ← finishJob clock 0 db req.id req.workerId req.attempt
      (.completed (if req.result.isEmpty then none else some req.result))
    .ok (db, calls)

/-- `fail_job`: returns `moved_to_failed_state`. -/
def failJob (clock : Clock) (jittered : ℤ) (db : Db) (req : FailJobRequest) :
    Except Status (Bool × Db × List MetricCall) :=
  finishJob clock jittered db req.id req.workerId req.attempt
    (.failed req.errorMessage req.nonRetryable)

end AnvilMQ
