import AnvilMQ.Enqueue
import AnvilMQ.Scheduling
import Mathlib.Data.List.Sort

/-!
# Job schedulers

`src/schedulers.rs` and `src/scheduler.rs` with their statements in `src/db.rs`:
the declarative cron records, and the loop that produces one job per due record.
A fire inserts its job and advances its record in one transaction of its own.
-/

namespace AnvilMQ

open Rust Relational

/-- `MAX_SCHEDULER_PAYLOAD_BYTES`. -/
def maxSchedulerPayloadBytes : ℕ := 1024 * 1024

/-- `map_scheduler_error`. -/
def mapSchedulerError : SchedulerError → Status
  | .invalidCron message => .invalidArgument s!"invalid cron: {message}"
  | .invalidTimezone message => .invalidArgument s!"invalid timezone: {message}"
  | .compute message => .internal s!"next-run computation failed: {message}"

/-! ## Records -/

/-- The template checks of `upsert`, after the cron pattern has been validated. -/
def checkTemplate (template : JobTemplate) : Except Status Unit :=
  if template.retryJitter.any fun jitter => jitter.isNan || !jitter.inUnitInterval then
    .error (.invalidArgument "retry_jitter must be a fraction in [0, 1]")
  else if template.retryBackoffMs.any (fun v => decide (v < 0)) ||
      template.retryBackoffMaxMs.any (fun v => decide (v < 0)) then
    .error (.invalidArgument "backoff delays must not be negative")
  else if template.retryBackoffMs.any fun base =>
      template.retryBackoffMaxMs.any fun cap => decide (cap < base) then
    .error (.invalidArgument "retry_backoff_max_ms must be at least retry_backoff_ms")
  else .ok ()

/-- `upsert_scheduler`: an update keeps the record's runtime bookkeeping. -/
def upsertScheduler (db : Db) (spec : JobSchedulerRow) : Db :=
  { db with
    jobSchedulers := db.jobSchedulers.upsert spec
      (fun row => { row with
        jobName := spec.jobName
        payload := spec.payload
        cron := spec.cron
        timezone := spec.timezone
        nextRunAt := spec.nextRunAt
        priority := spec.priority
        maxAttempts := spec.maxAttempts
        retryBackoffMs := spec.retryBackoffMs
        retryBackoffMaxMs := spec.retryBackoffMaxMs
        retryJitter := spec.retryJitter
        rateLimitFacet := spec.rateLimitFacet
        updatedAt := spec.updatedAt }) fun _ => rfl }

/-- The record a request describes, due at `next`. -/
def schedulerSpec (id jobName cron timezone : String) (template : JobTemplate) (next now : ℤ) :
    JobSchedulerRow where
  id := id
  jobName := jobName
  payload := template.payload
  cron := cron
  timezone := textColumn timezone
  producedCount := 0
  nextRunAt := some next
  lastJobId := none
  priority := template.priority
  maxAttempts := template.maxAttempts
  retryBackoffMs := template.retryBackoffMs
  retryBackoffMaxMs := template.retryBackoffMaxMs
  retryJitter := template.retryJitter
  rateLimitFacet := template.rateLimitFacet
  createdAt := now
  updatedAt := now

/-- `upsert`: returns the trimmed id and the first run.  Only a new record counts
as an activation. -/
def upsertJobScheduler (ext : Externals) (clock : Clock) (db : Db)
    (req : UpsertJobSchedulerRequest) :
    Except Status ((String × ℤ) × Db × List MetricCall) :=
  let id := trim req.id
  if id = "" then .error (.invalidArgument "id must not be blank")
  else
    match req.template, req.repeatSpec with
    | none, _ => .error (.invalidArgument "template is required")
    | some _, none => .error (.invalidArgument "repeat is required")
    | some template, some spec =>
      let jobName := trim template.name
      let cron := trim spec.cron
      let timezone := trim spec.timezone
      if jobName = "" then .error (.invalidArgument "template.name must not be blank")
      else if maxSchedulerPayloadBytes < template.payload.length then
        .error (.invalidArgument s!"payload exceeds {maxSchedulerPayloadBytes} bytes")
      else if cron = "" then .error (.invalidArgument "repeat.cron must not be blank")
      else
        match validateCron ext cron timezone with
        | .error e => .error (mapSchedulerError e)
        | .ok _ =>
          match checkTemplate template with
          | .error status => .error status
          | .ok () =>
            match nextCronAfter ext (clock 0) cron timezone with
            | .error e => .error (mapSchedulerError e)
            | .ok next =>
              .ok ((id, next),
                upsertScheduler db
                  (schedulerSpec id jobName cron timezone template next (clock 0)),
                if db.jobSchedulers.Has id then [] else [.schedulerActivated])

/-- `delete`: returns whether the record existed. -/
def deleteJobScheduler (db : Db) (id : String) : Except Status (Bool × Db × List MetricCall) :=
  let id := trim id
  if id = "" then .error (.invalidArgument "id must not be blank")
  else
    .ok (decide (db.jobSchedulers.Has id),
      { db with jobSchedulers := db.jobSchedulers.erase id },
      if db.jobSchedulers.Has id then [.schedulerDeactivated] else [])

/-! ## Firing -/

/-- `build_request`: a scheduled job is a root job without a delay and without an
idempotency key. -/
def buildRequest (row : JobSchedulerRow) : AddJobRequest where
  name := row.jobName
  payload := row.payload
  priority := row.priority.getD 0
  metadata := none
  maxAttempts := row.maxAttempts.getD 0
  delayMs := 0
  rateLimitFacet := row.rateLimitFacet.getD ""
  retryBackoffMs := row.retryBackoffMs.getD 0
  retryBackoffMaxMs := row.retryBackoffMaxMs.getD 0
  idempotencyKey := ""
  retryJitter := row.retryJitter.getD F64.zero
  releaseOnFinish := false

/-- `FireError`. -/
inductive FireError
  | enqueue (message : String)
  | cron (error : SchedulerError)

/-- `advance_scheduler`. -/
def advanceScheduler (db : Db) (id : String) (nextRunAt : ℤ) (lastJobId : JobId) (now : ℤ) : Db :=
  { db with
    jobSchedulers := db.jobSchedulers.modify id
      (fun row => { row with
        nextRunAt := some nextRunAt
        producedCount := row.producedCount + 1
        lastJobId := some lastJobId
        updatedAt := now }) fun _ => rfl }

/-- `fire_one`: produce the job of a due record and advance the record. -/
def fireOne (ext : Externals) (service : Service) (t k : ℕ) (now : ℤ) (db : Db)
    (row : JobSchedulerRow) : Except FireError (Db × List MetricCall) :=
  match enqueueScheduled ext service t k db (buildRequest row) now with
  | .error status => .error (.enqueue status.message)
  | .ok outcome =>
    match nextCronAfter ext now row.cron (row.timezone.getD "") with
    | .error e => .error (.cron e)
    | .ok advance =>
      .ok (advanceScheduler outcome.db row.id advance outcome.response.id now, outcome.calls)

/-- `ORDER BY next_run_at, id`. -/
def runsBefore (a b : JobSchedulerRow) : Bool :=
  let runA := a.nextRunAt.getD 0
  let runB := b.nextRunAt.getD 0
  decide (runA < runB) || (decide (runA = runB) && decide (a.id ≤ b.id))

/-- `select_due_schedulers`. -/
def selectDueSchedulers (db : Db) (now : ℤ) (limit : ℕ) : List JobSchedulerRow :=
  ((db.jobSchedulers.rows.filter fun row =>
      row.nextRunAt.any fun next => decide (next ≤ now)).insertionSort
    fun a b => runsBefore a b).take limit

/-- The loop of `run_once`: each record fires in its own transaction and a failed
fire leaves no trace.  A fire generates at most two UUIDs, the job id and its
trace id, so the `i`-th fire draws from slot `2 * i` on. -/
def fireAll (ext : Externals) (service : Service) (t : ℕ) (clock : Clock) :
    ℕ → Db → List JobSchedulerRow → ℕ × Db × List MetricCall
  | _, db, [] => (0, db, [])
  | i, db, row :: rest =>
    match fireOne ext service t (2 * i) (clock (i + 1)) db row with
    | .error _ => fireAll ext service t clock (i + 1) db rest
    | .ok (db, calls) =>
      let (produced, db, more) := fireAll ext service t clock (i + 1) db rest
      (produced + 1, db, calls ++ more)

/-- `run_once`: one scheduler tick; returns the number of jobs produced. -/
def runOnce (ext : Externals) (service : Service) (t : ℕ) (clock : Clock) (db : Db)
    (batchSize : ℕ) : ℕ × Db × List MetricCall :=
  fireAll ext service t clock 0 db (selectDueSchedulers db (clock 0) batchSize)

end AnvilMQ
