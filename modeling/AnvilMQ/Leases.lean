import AnvilMQ.Scheduling
import AnvilMQ.Store
import AnvilMQ.Telemetry
import Mathlib.Data.List.Sort

/-!
# Leases

`src/leases.rs`: renewing the lease of a claim, and the sweep that takes expired
claims back.
-/

namespace AnvilMQ

open Rust Relational

/-! ## The lease duration -/

/-- `LEASE_DURATION_MS`, the default. -/
def defaultLeaseDurationMs : ℤ := 30000

/-- `MIN_LEASE_DURATION_MS`. -/
def minLeaseDurationMs : ℤ := 1000

/-- Why a configured lease duration is refused: it is not an integer, or below the minimum. -/
inductive LeaseDurationError
  | notInteger (value : String)
  | tooShort (parsed : ℤ)
deriving DecidableEq

/-- `parse_lease_duration_ms`. -/
def parseLeaseDurationMs : Option String → Except LeaseDurationError ℤ
  | none => .ok defaultLeaseDurationMs
  | some value =>
    match parseI64 (trim value) with
    | none => .error (.notInteger value)
    | some parsed =>
      if parsed < minLeaseDurationMs then .error (.tooShort parsed) else .ok parsed

/-! ## Heartbeat -/

/-- `renew_lease`: returns the new expiry.  A lease is never shortened when the
clock moves backwards. -/
def renewLease (service : Service) (clock : Clock) (db : Db) (req : HeartbeatRequest) :
    Except Status (ℤ × Db) :=
  if isBlank req.id ∨ isBlank req.workerId ∨ req.attempt = 0 then
    .error (.invalidArgument "id, worker_id, and a positive attempt are required")
  else
    match db.jobs.find? req.id with
    | none =>
      if db.jobHistory.Has req.id then .error (.failedPrecondition "job already finished")
      else .error (.notFound "job not found")
    | some row =>
      if row.state ≠ .active then .error (.failedPrecondition "job is not Active")
      else if row.workerId ≠ some req.workerId then
        .error (.permissionDenied "worker does not own this job")
      else
        match row.leaseExpiresAtMs with
        | none => .error (.failedPrecondition "claim is stale or expired")
        | some lease =>
          if row.attempts ≠ req.attempt ∨ lease ≤ clock 0 then
            .error (.failedPrecondition "claim is stale or expired")
          else
            let expiry := max lease (wrappingAdd (clock 0) service.leaseDurationMs)
            .ok (expiry, { db with
              jobs := db.jobs.modify req.id
                (fun row => { row with
                  leaseExpiresAtMs := some expiry
                  updatedAt := clock 0 }) fun _ => rfl })

/-! ## Recovery -/

/-- `WHERE state = 'Active' AND lease_expires_at_ms <= ?1`. -/
def leaseExpired (now : ℤ) (row : JobRow) : Bool :=
  decide (row.state = .active) && row.leaseExpiresAtMs.any fun lease => decide (lease ≤ now)

/-- `ORDER BY lease_expires_at_ms, id`. -/
def expiresBefore (a b : JobRow) : Bool :=
  let leaseA := a.leaseExpiresAtMs.getD 0
  let leaseB := b.leaseExpiresAtMs.getD 0
  decide (leaseA < leaseB) || (decide (leaseA = leaseB) && decide (a.id ≤ b.id))

/-- The expired claims one sweep takes back. -/
def selectExpired (db : Db) (now : ℤ) (batchSize : ℕ) : List JobRow :=
  ((db.jobs.rows.filter (leaseExpired now)).insertionSort fun a b => expiresBefore a b).take
    batchSize

/-- The delay of the retry of an expired claim. -/
def expiredRetryDelay (row : JobRow) : ℤ :=
  retryDelay row.retryBackoffMs row.retryBackoffMaxMs row.attempts

/-- One round of the recovery loop: requeue the job while attempts remain,
otherwise archive it as failed.  Returns the number of receipts released. -/
def recoverOne (now : ℤ) (db : Db) (row : JobRow) : Except Status (Db × ℕ) :=
  if row.attempts < row.maxAttempts then
    let delay := expiredRetryDelay row
    .ok (db.requeue row.id (Db.restingState delay) (saturatingAdd now delay)
      "Worker lease expired" now, 0)
  else db.archive row.id fun row => row.toExpiredHistory now

/-- The recovery loop, with the number of receipts released so far. -/
def recoverAll (now : ℤ) : Db → ℕ → List JobRow → Except Status (Db × ℕ)
  | db, released, [] => .ok (db, released)
  | db, released, row :: rest => do
    let (db, n) ← recoverOne now db row
    recoverAll now db (released + n) rest

/-- The transition reported for a recovered job. -/
def recoveredLabel (row : JobRow) : Option StateLabel :=
  if row.attempts < row.maxAttempts then (Db.restingState (expiredRetryDelay row)).label
  else some .failed

/-- `recover_expired`: returns the number of claims taken back. -/
def recoverExpired (clock : Clock) (db : Db) (batchSize : ℕ) :
    Except Status (ℕ × Db × List MetricCall) := do
  let jobs := selectExpired db (clock 0) batchSize
  let (db, released) ← recoverAll (clock 0) db 0 jobs
  .ok (jobs.length, db, .dedupReleased released ::
    jobs.map fun row => .transition (some .active) (recoveredLabel row))

end AnvilMQ
