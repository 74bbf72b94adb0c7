import AnvilMQ.RateLimit
import AnvilMQ.Relational.Select
import AnvilMQ.Telemetry

/-!
# Claiming

`get_next_job` of `src/main.rs`: pick the first due job that is not rate-limited,
count the claim and lease the job to the worker.
-/

namespace AnvilMQ

open Rust Relational

/-- `WHERE state IN ('Waiting', 'Delayed') AND available_at <= ?1 [AND name IN …]`. -/
def due (now : ℤ) (queueNames : List String) (row : JobRow) : Bool :=
  (decide (row.state = .waiting) || decide (row.state = .delayed)) &&
    row.availableAt.any (fun at_ => decide (at_ ≤ now)) &&
    (queueNames.isEmpty || queueNames.contains row.name)

/-- `COALESCE(d.last_served_seq, 0)` of the job's facet. -/
def lastServed (db : Db) (row : JobRow) : ℤ :=
  ((db.facetDispatch.find? (row.rateLimitFacet.getD "")).map FacetDispatch.lastServedSeq).getD 0

/-- The claim order: priority, then with fairness the least recently served
facet, then age, then id. -/
def claimsBefore (fairnessEnabled : Bool) (db : Db) (a b : JobRow) : Bool :=
  if a.priority ≠ b.priority then decide (a.priority < b.priority)
  else if fairnessEnabled ∧ lastServed db a ≠ lastServed db b then
    decide (lastServed db a < lastServed db b)
  else if a.createdAt ≠ b.createdAt then decide (a.createdAt < b.createdAt)
  else decide (a.id < b.id)

/-- The job a poll selects. -/
def selectNext (service : Service) (db : Db) (now : ℤ) (queueNames : List String) :
    Option JobRow :=
  firstBy (claimsBefore service.fairnessEnabled db)
    (db.jobs.rows.filter fun row => due now queueNames row && !blocked db now row)

/-- The row of a job after its claim. -/
def JobRow.leased (row : JobRow) (workerId : String) (now lease : ℤ) : JobRow :=
  { row with
    state := .active
    workerId := some workerId
    attempts := row.attempts + 1
    updatedAt := now
    leaseExpiresAtMs := some lease }

/-- Record the facet of a claimed job as the most recently served. -/
def recordDispatch (db : Db) (row : JobRow) (now : ℤ) : Db :=
  let nextSeq := ((db.facetDispatch.rows.map FacetDispatch.lastServedSeq).max?).getD 0 + 1
  { db with
    facetDispatch := db.facetDispatch.upsert
      { facetKey := row.rateLimitFacet.getD "", lastServedSeq := nextSeq, lastServedAt := now }
      (fun d => { d with lastServedSeq := nextSeq, lastServedAt := now }) fun _ => rfl }

/-- Lease a selected job to a worker at `now`. -/
def leaseTo (service : Service) (db : Db) (row : JobRow) (workerId : String) (now : ℤ) : Db :=
  let leased := { db with
    jobs := db.jobs.modify row.id
      (fun row => row.leased workerId now (wrappingAdd now service.leaseDurationMs)) fun _ => rfl }
  if service.fairnessEnabled then recordDispatch leased row now else leased

/-- The answer to a poll that claimed `row` at `now`. -/
def claimedJob (service : Service) (row : JobRow) (now : ℤ) : ClaimedJob where
  id := row.id
  name := row.name
  payload := row.payload
  metadata :=
    { parentId := row.parentId.getD ""
      traceId := row.traceId
      executionDepth := row.executionDepth.toNat }
  attempts := row.attempts + 1
  leaseExpiresAtMs := wrappingAdd now service.leaseDurationMs

/-- `get_next_job`.  The second clock reading is taken after the rate limit has
been consumed. -/
def getNextJob (service : Service) (clock : Clock) (db : Db) (req : GetNextJobRequest) :
    Except Status (Option ClaimedJob × Db × List MetricCall) :=
  if isBlank req.workerId then .error (.invalidArgument "worker_id must not be blank")
  else if req.queueNames.any isBlank then
    .error (.invalidArgument "queue_names must not contain blank names")
  else
    match selectNext service db (clock 0) req.queueNames with
    | none => .ok (none, db, [])
    | some row =>
      if u32Max ≤ row.attempts then .error (.internal "Query is not read-only")
      else
        .ok (some (claimedJob service row (clock 1)),
          leaseTo service (consume db row (clock 0)) row req.workerId (clock 1),
          [.transition row.state.label (some .active)])

end AnvilMQ
