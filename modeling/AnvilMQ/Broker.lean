import AnvilMQ.Claim
import AnvilMQ.Finish
import AnvilMQ.Flow
import AnvilMQ.Leases
import AnvilMQ.Retention
import AnvilMQ.Schedulers
import AnvilMQ.Transition.Run
import Mathlib.Data.Int.ConditionallyCompleteOrder
import Mathlib.Order.ConditionallyCompleteLattice.Basic

/-!
# The broker

The requests and background sweeps of the broker as one transition system.
Every operation is one atomic step: `DatabaseManager` hands out a single shared
connection behind a mutex and each operation runs to its commit or rollback
while it holds it.

An `Op` carries everything its outcome depends on besides the database: the
request, the clock readings taken while serving it, the rounded jitter of a
retry and the query plans of a sweep.  A statement about every run therefore
quantifies over all of these.
-/

namespace AnvilMQ

open Rust Relational Transition

/-- An operation of the broker. -/
inductive Op
  | addJob (clock : Clock) (req : AddJobRequest)
  | addJobBulk (clock : Clock) (requests : List AddJobRequest)
  | addFlow (clock : Clock) (flow : Option FlowJob)
  | addFlowBulk (clock : Clock) (flows : List FlowJob)
  | addFlowMerge (clock : Clock) (flow : Option FlowJob)
  | getNextJob (clock : Clock) (req : GetNextJobRequest)
  | heartbeat (clock : Clock) (req : HeartbeatRequest)
  | completeJob (clock : Clock) (req : CompleteJobRequest)
  | failJob (clock : Clock) (jittered : ℤ) (req : FailJobRequest)
  | recoverExpired (clock : Clock) (batchSize : ℕ)
  | sweep (plan : SweepPlan) (clock : Clock) (cfg : RetentionConfig)
  | upsertRateLimitRule (clock : Clock) (req : UpsertLimitRuleRequest)
  | deleteRateLimitRule (facetKey : String)
  | upsertIngressLimitRule (clock : Clock) (req : UpsertLimitRuleRequest)
  | deleteIngressLimitRule (facetKey : String)
  | upsertJobScheduler (clock : Clock) (req : UpsertJobSchedulerRequest)
  | deleteJobScheduler (id : String)
  | runOnce (clock : Clock) (batchSize : ℕ)

/-- A successful answer. -/
inductive Reply
  | enqueued (responses : List AddJobResponse)
  | planted (trees : List AddFlowResponse)
  | merged (response : AddFlowMergeResponse)
  | claimed (job : Option ClaimedJob)
  | renewed (leaseExpiresAtMs : ℤ)
  | completed
  | failed (movedToFailedState : Bool)
  | recovered (jobs : ℕ)
  | swept (outcome : SweepOutcome)
  | ruleUpserted
  | ruleDeleted (deleted : Bool)
  | schedulerUpserted (id : String) (nextRunAt : ℤ)
  | schedulerDeleted (deleted : Bool)
  | produced (jobs : ℕ)
deriving DecidableEq

/-- The outcome of an operation: the database it leaves, and its answer with the
gauge calls made after the commit. -/
abbrev Served := Db × Except Status (Reply × List MetricCall)

/-- A transaction that rolls back on failure. -/
def transact (db : Db) (outcome : Except Status (Reply × Db × List MetricCall)) : Served :=
  match outcome with
  | .error status => (db, .error status)
  | .ok (reply, db, calls) => (db, .ok (reply, calls))

theorem transact_error {α : Type} {db : Db} {outcome : Except Status α}
    {pack : α → Reply × Db × List MetricCall} {status : Status} :
    (transact db (outcome.map pack)).2 = .error status ↔ outcome = .error status := by
  cases outcome with
  | error other => simp [transact, Except.map]
  | ok a => simp [transact, Except.map]

/-- Serve one operation; `t` is the number of operations served before it. -/
def serve (ext : Externals) (service : Service) (t : ℕ) (db : Db) : Op → Served
  | .addJob clock req =>
    let (db, answer) := enqueue ext service t clock db req
    (db, answer.map fun (responses, calls) => (.enqueued responses, calls))
  | .addJobBulk clock requests =>
    let (db, answer) := enqueueBulk ext service t clock db requests
    (db, answer.map fun (responses, calls) => (.enqueued responses, calls))
  | .addFlow clock flow =>
    transact db ((addFlow ext service t clock db flow).map fun (response, db, calls) =>
      (.planted [response], db, calls))
  | .addFlowBulk clock flows =>
    transact db ((addFlowBulk ext service t clock db flows).map fun (responses, db, calls) =>
      (.planted responses, db, calls))
  | .addFlowMerge clock flow =>
    transact db ((addFlowMerge ext service t clock db flow).map fun (response, db, calls) =>
      (.merged response, db, calls))
  | .getNextJob clock req =>
    transact db ((getNextJob service clock db req).map fun (job, db, calls) =>
      (.claimed job, db, calls))
  | .heartbeat clock req =>
    transact db ((renewLease service clock db req).map fun (expiry, db) =>
      (.renewed expiry, db, []))
  | .completeJob clock req =>
    transact db ((completeJob clock db req).map fun (db, calls) => (.completed, db, calls))
  | .failJob clock jittered req =>
    transact db ((failJob clock jittered db req).map fun (moved, db, calls) =>
      (.failed moved, db, calls))
  | .recoverExpired clock batchSize =>
    transact db ((recoverExpired clock db batchSize).map fun (jobs, db, calls) =>
      (.recovered jobs, db, calls))
  | .sweep plan clock cfg =>
    let (outcome, db, calls) := sweep plan clock db cfg
    (db, .ok (.swept outcome, calls))
  | .upsertRateLimitRule clock req =>
    transact db ((upsertRateLimitRule db clock req).map fun db => (.ruleUpserted, db, []))
  | .deleteRateLimitRule facetKey =>
    transact db ((deleteRateLimitRule db facetKey).map fun (deleted, db) =>
      (.ruleDeleted deleted, db, []))
  | .upsertIngressLimitRule clock req =>
    transact db ((upsertIngressLimitRule db clock req).map fun db => (.ruleUpserted, db, []))
  | .deleteIngressLimitRule facetKey =>
    transact db ((deleteIngressLimitRule db facetKey).map fun (deleted, db) =>
      (.ruleDeleted deleted, db, []))
  | .upsertJobScheduler clock req =>
    transact db ((upsertJobScheduler ext clock db req).map fun ((id, next), db, calls) =>
      (.schedulerUpserted id next, db, calls))
  | .deleteJobScheduler id =>
    transact db ((deleteJobScheduler db id).map fun (deleted, db, calls) =>
      (.schedulerDeleted deleted, db, calls))
  | .runOnce clock batchSize =>
    let (produced, db, calls) := runOnce ext service t clock db batchSize
    (db, .ok (.produced produced, calls))

/-! ## Runs -/

/-- The broker between two operations: the database, the gauges and the number of
operations served. -/
structure World where
  db : Db
  metrics : Metrics
  served : ℕ

namespace World

/-- A freshly migrated database with gauges seeded from it. -/
def init : World := ⟨Db.empty, Metrics.initialize Db.empty, 0⟩

/-- Restart the process: the gauges are seeded from the database. -/
def restart (w : World) : World := { w with metrics := Metrics.initialize w.db }

/-- Move the gauges by the calls of a committed operation. -/
def flush (metrics : Metrics) : Except Status (Reply × List MetricCall) → Metrics
  | .error _ => metrics
  | .ok (_, calls) => metrics.record calls

/-- Serve one operation. -/
def step (ext : Externals) (service : Service) (w : World) (op : Op) : World :=
  let (db, answer) := serve ext service w.served w.db op
  { db := db, metrics := flush w.metrics answer, served := w.served + 1 }

/-- The state a run reaches from a freshly migrated database. -/
def after (ext : Externals) (service : Service) (run : List Op) : World :=
  Transition.after (step ext service) init run

end World

section Runs

variable (ext : Externals) (service : Service)

/-- The database a run reaches from a freshly migrated one. -/
def dbAfter (run : List Op) : Db := (World.after ext service run).db

/-- What the operation after a run is served with. -/
def servedNext (run : List Op) (op : Op) : Served :=
  serve ext service run.length (dbAfter ext service run) op

/-- The answer of the operation after a run, if it succeeds. -/
def replyTo (run : List Op) (op : Op) : Option Reply :=
  (servedNext ext service run op).2.toOption.map Prod.fst

/-- The status the operation after a run is refused with, if it fails. -/
def refusalOf (run : List Op) (op : Op) : Option Status :=
  match (servedNext ext service run op).2 with
  | .error status => some status
  | .ok _ => none

@[simp] theorem served_after (run : List Op) :
    (World.after ext service run).served = run.length := by
  induction run using List.reverseRecOn with
  | nil => rfl
  | append_singleton run op ih =>
    simpa [World.after, World.step] using ih

@[simp] theorem dbAfter_nil : dbAfter ext service [] = Db.empty := rfl

theorem dbAfter_concat (run : List Op) (op : Op) :
    dbAfter ext service (run ++ [op]) = (servedNext ext service run op).1 := by
  rw [dbAfter, World.after, after_concat, servedNext, ← served_after ext service run]
  rfl

/-- The operation after a run changes the database. -/
def Changes (run : List Op) (op : Op) : Prop :=
  dbAfter ext service (run ++ [op]) ≠ dbAfter ext service run

/-- The operation after a run is refused and changes nothing. -/
def Refused (run : List Op) (op : Op) : Prop :=
  replyTo ext service run op = none ∧ ¬ Changes ext service run op

/-- What the answers of a run have told an observer. -/
def told {α : Type} (see : Op → Reply → List α) (run : List Op) : List α :=
  observe (World.step ext service)
    (fun w op => match (serve ext service w.served w.db op).2 with
      | .error _ => []
      | .ok (reply, _) => see op reply) World.init run

@[simp] theorem told_nil {α : Type} (see : Op → Reply → List α) :
    told ext service see [] = [] := rfl

theorem told_concat {α : Type} (see : Op → Reply → List α) (run : List Op) (op : Op) :
    told ext service see (run ++ [op]) =
      told ext service see run ++ ((replyTo ext service run op).map (see op)).getD [] := by
  rw [told, observe_concat, ← told]
  congr 1
  rw [replyTo, servedNext, dbAfter, ← served_after ext service run, World.after]
  cases (serve ext service _ _ op).2 with
  | error status => rfl
  | ok answer => rfl

end Runs

/-- The parent links among the nodes a flow request reports. -/
def nodeLinks (nodes : List FlowNode) : List (JobId × JobId) :=
  (nodes.filter fun node => decide (node.parentId ≠ "")).map fun node => (node.id, node.parentId)

/-- The parent links an answer reports. -/
def Reply.links : Reply → List (JobId × JobId)
  | planted trees => trees.flatMap fun tree => nodeLinks tree.nodes
  | merged response => nodeLinks response.attached
  | _ => []

/-- **The flow children of a run**: the pairs of a child and its parent that
`AddFlow`, `AddFlowBulk` and `AddFlowMerge` have created. -/
def flowLinks (ext : Externals) (service : Service) (run : List Op) : List (JobId × JobId) :=
  told ext service (fun _ reply => reply.links) run

/-- The nodes a flow request would create: the root of a merge is the target. -/
def Op.newNodes : Op → List FlowOptions
  | addFlow _ flow => FlowJob.allOptionsList flow.toList
  | addFlowBulk _ flows => FlowJob.allOptionsList flows
  | addFlowMerge _ flow => (flow.map fun tree => FlowJob.allOptionsList tree.children).getD []
  | _ => []

/-! ## New jobs -/

/-- The live jobs of a database that an earlier one did not have. -/
def newRows (db db' : Db) : List JobRow :=
  db'.jobs.rows.filter fun row => !decide (db.jobs.Has row.id)

/-- The rows appended to a table are the new ones. -/
theorem newRows_of_append {db db' : Db} {new : List JobRow}
    (rows : db'.jobs.rows = db.jobs.rows ++ new) : newRows db db' = new := by
  have nodup := db'.jobs.nodup
  rw [rows, List.map_append] at nodup
  have fresh : ∀ row ∈ new, ¬ db.jobs.Has row.id := by
    intro row mem has
    obtain ⟨old, stored, same⟩ := Table.has_iff.mp has
    exact List.disjoint_of_nodup_append nodup (List.mem_map.mpr ⟨old, stored, same⟩)
      (List.mem_map_of_mem mem)
  rw [newRows, rows, List.filter_append]
  have noneOld : db.jobs.rows.filter (fun row => !decide (db.jobs.Has row.id)) = [] := by
    refine List.filter_eq_nil_iff.mpr fun row mem => ?_
    simpa using Table.has_of_mem mem
  have all : new.filter (fun row => !decide (db.jobs.Has row.id)) = new :=
    List.filter_eq_self.mpr fun row mem => by simpa using fresh row mem
  rw [noneOld, all, List.nil_append]

/-! ## Clocks -/

/-- The clock an operation reads, if it reads one. -/
def Op.clock? : Op → Option Clock
  | addJob clock _ => some clock
  | addJobBulk clock _ => some clock
  | addFlow clock _ => some clock
  | addFlowBulk clock _ => some clock
  | addFlowMerge clock _ => some clock
  | getNextJob clock _ => some clock
  | heartbeat clock _ => some clock
  | completeJob clock _ => some clock
  | failJob clock _ _ => some clock
  | recoverExpired clock _ => some clock
  | sweep _ clock _ => some clock
  | upsertRateLimitRule clock _ => some clock
  | deleteRateLimitRule _ => none
  | upsertIngressLimitRule clock _ => some clock
  | deleteIngressLimitRule _ => none
  | upsertJobScheduler clock _ => some clock
  | deleteJobScheduler _ => none
  | runOnce clock _ => some clock

/-- **The clock never goes back**, neither within an operation nor from one to the
next. -/
structure ClockAdvances (run : List Op) : Prop where
  within : ∀ op ∈ run, ∀ clock ∈ op.clock?, Monotone clock
  across : run.Pairwise fun earlier later =>
    ∀ clock ∈ earlier.clock?, ∀ clock' ∈ later.clock?, ∀ i j, clock i ≤ clock' j

/-- Every reading is below the largest `i64`.  `now_ms` converts the result of
`julianday('now')`, and SQLite has no dates after the year 9999. -/
def ClockInRange (run : List Op) : Prop :=
  ∀ op ∈ run, ∀ clock ∈ op.clock?, ∀ i, clock i < i64Max

theorem ClockAdvances.of_concat {run : List Op} {op : Op} (advances : ClockAdvances (run ++ [op])) :
    ClockAdvances run where
  within := fun other mem => advances.within other (List.mem_append_left _ mem)
  across := (List.pairwise_append.mp advances.across).1

/-! ## Requests for sample runs -/

/-- A clock that stands still. -/
def stopped : Clock := fun _ => 0

/-- A poll of one queue by the worker `w`. -/
def poll (queue : String) : Op := .getNextJob stopped { workerId := "w", queueNames := [queue] }

/-- Ingress of the facet `f` is paused. -/
def pauseFacet : Op :=
  .upsertIngressLimitRule stopped { facetPattern := "f", maxJobs := 0, windowDurationMs := 1000 }

/-- A record of a scheduler that fires every minute, for jobs of a facet. -/
def schedule (id facet : String) : Op :=
  .upsertJobScheduler stopped
    { id := id
      template := some { name := id, rateLimitFacet := some facet }
      repeatSpec := some { cron := "* * * * *" } }

/-- A scheduler tick at a standing clock. -/
def tickAt (now : ℤ) (batchSize : ℕ) : Op := .runOnce (fun _ => now) batchSize

end AnvilMQ
