import AnvilMQ.Schema

/-!
# Statements shared by the requests

The SQL statements that more than one request runs, as functions on the
database.  A statement that can violate a primary key fails with the text
SQLite reports; the surrounding transaction then rolls back.
-/

namespace AnvilMQ

open Rust Relational

namespace Db

/-- `INSERT INTO jobs`. -/
def insertJob (db : Db) (row : JobRow) : Except Status Db :=
  match db.jobs.insert row with
  | some jobs => .ok { db with jobs := jobs }
  | none => .error (.internal "UNIQUE constraint failed: jobs.id")

/-- `INSERT INTO enqueue_receipts`. -/
def insertReceipt (db : Db) (receipt : Receipt) : Except Status Db :=
  match db.enqueueReceipts.insert receipt with
  | some receipts => .ok { db with enqueueReceipts := receipts }
  | none => .error (.internal
      "UNIQUE constraint failed: enqueue_receipts.queue_name, enqueue_receipts.idempotency_key")

/-- `SELECT … FROM enqueue_receipts WHERE queue_name = ?1 AND idempotency_key = ?2`. -/
def receiptFor (db : Db) (queueName idempotencyKey : String) : Option Receipt :=
  db.enqueueReceipts.find? (queueName, idempotencyKey)

/-- The rows `DELETE FROM enqueue_receipts WHERE job_id = ?1 AND
release_on_finish = 1` removes. -/
def releasable (id : JobId) (receipt : Receipt) : Bool :=
  decide (receipt.jobId = id) && receipt.releaseOnFinish

/-- The answer to an archiving `INSERT` whose id is already in `job_history`. -/
def historyConflict : Status := .internal "UNIQUE constraint failed: job_history.id"

/-- Move a job to history: copy the live row with `INSERT … SELECT`, delete it,
and release its receipts.  Returns the number of receipts released. -/
def archive (db : Db) (id : JobId) (toHistory : JobRow → HistoryRow) : Except Status (Db × ℕ) :=
  let receipts := db.enqueueReceipts.delete (releasable id)
  let released := db.enqueueReceipts.count (releasable id)
  match db.jobs.find? id with
  | none => .ok ({ db with enqueueReceipts := receipts }, released)
  | some row =>
    match db.jobHistory.insert (toHistory row) with
    | none => .error historyConflict
    | some history =>
      .ok ({ db with
        jobs := db.jobs.erase id
        jobHistory := history
        enqueueReceipts := receipts }, released)

/-- Put an `Active` job back: `UPDATE jobs SET state, available_at, worker_id =
NULL, lease_expires_at_ms = NULL, last_error, updated_at`. -/
def requeue (db : Db) (id : JobId) (state : LiveState) (availableAt : ℤ) (lastError : String)
    (updatedAt : ℤ) : Db :=
  { db with jobs := db.jobs.modify id (fun row =>
      { row with
        state := state
        availableAt := some availableAt
        workerId := none
        leaseExpiresAtMs := none
        lastError := some lastError
        updatedAt := updatedAt }) fun _ => rfl }

/-- Where a retried or delayed job rests: `Waiting` without a delay. -/
def restingState (delay : ℤ) : LiveState := if delay = 0 then .waiting else .delayed

end Db

end AnvilMQ
