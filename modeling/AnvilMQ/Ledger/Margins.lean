import AnvilMQ.Ledger.Flows
import AnvilMQ.Ledger.Lifecycle
import AnvilMQ.Ledger.Maintenance

/-!
# The tables beside the ledger

The ledger machine leaves out the dispatch rate limits, the rotation of the facets
and the chain counters: a handful of operations write them, and nothing the
ledger records depends on them; neither does it on the rejections.  The scheduler
records are on the ledger, but no event tells which request wrote one.  This
module says which operations write which of these tables.
-/

namespace AnvilMQ

open Rust Relational

/-- The tables beside the ledger. -/
structure Margins where
  rateLimitRules : Table LimitRule.facetPattern
  rateLimitCounters : Table RateLimitCounter.facetKey
  facetDispatch : Table FacetDispatch.facetKey
  chainCounters : Table ChainCounter.traceId
  jobSchedulers : Table JobSchedulerRow.id
  enqueueRejections : Table Rejection.id
  rejectionSeq : ℕ

/-- The margins of a database. -/
def Db.margins (db : Db) : Margins where
  rateLimitRules := db.rateLimitRules
  rateLimitCounters := db.rateLimitCounters
  facetDispatch := db.facetDispatch
  chainCounters := db.chainCounters
  jobSchedulers := db.jobSchedulers
  enqueueRejections := db.enqueueRejections
  rejectionSeq := db.rejectionSeq

variable {ext : Externals} {service : Service} {t k : ℕ} {clock : Clock} {db db' : Db}
  {calls : List MetricCall} {now : ℤ} {receiptRequest : Option Bytes}

/-! ## Statements -/

theorem insertReceipt_margins {receipt : Receipt} (ok : db.insertReceipt receipt = .ok db') :
    db'.margins = db.margins := by
  rw [Db.insertReceipt] at ok
  split at ok <;> cases ok
  rfl

theorem archive_margins {id : JobId} {toHistory : JobRow → HistoryRow} {n : ℕ}
    (ok : db.archive id toHistory = .ok (db', n)) : db'.margins = db.margins := by
  simp only [Db.archive] at ok
  split at ok
  · cases ok
    rfl
  · split at ok <;> cases ok
    rfl

/-! ## Completion and failure -/

theorem releaseParent_margins (db : Db) (parentId : Option JobId) (now updatedAt : ℤ) :
    (releaseParent db parentId now updatedAt).1.margins = db.margins := by
  cases parentId with
  | none => rfl
  | some p =>
    simp only [releaseParent, countDown]
    split
    · rfl
    · split <;> rfl

/-- A cascade leaves the margins alone, -/
theorem cascade_margins {failedId : JobId} {fuel reading : ℕ} {flag : Bool}
    {ancestor : Option JobId} {outcome : CascadeOutcome}
    (ok : cascade failedId clock fuel reading db flag ancestor = .ok outcome) :
    outcome.db.margins = db.margins := by
  induction fuel generalizing reading db flag ancestor outcome with
  | zero =>
    cases ok
    rfl
  | succ fuel ih =>
    simp only [cascade] at ok
    split at ok
    · cases ok
      rfl
    split at ok
    · cases ok
      rfl
    simp only [bind_eq_ok] at ok
    obtain ⟨⟨db₁, n⟩, archived, rest, cascaded, same⟩ := ok
    cases same
    exact (ih cascaded).trans (archive_margins archived)

/-- and so does every acknowledgment. -/
theorem settle_margins {jittered : ℤ} {row : JobRow} {ack : Acknowledgment} {moved : Bool}
    (ok : settle clock jittered db row ack = .ok (moved, db', calls)) :
    db'.margins = db.margins := by
  cases ack with
  | completed result =>
    simp only [settle, finishCompleted, bind_eq_ok] at ok
    obtain ⟨⟨db₁, calls₁⟩, ⟨⟨db₂, n⟩, archived, done⟩, same⟩ := ok
    cases done
    cases same
    exact (releaseParent_margins _ _ _ _).trans (archive_margins archived)
  | failed error nonRetryable =>
    simp only [settle] at ok
    split at ok
    · cases ok
      rfl
    · simp only [finishFailed, bind_eq_ok] at ok
      obtain ⟨⟨db₁, calls₁⟩, ⟨⟨db₂, n⟩, archived, outcome, cascaded, done⟩, same⟩ := ok
      cases done
      cases same
      exact (cascade_margins cascaded).trans (archive_margins archived)

theorem finishJob_margins {jittered : ℤ} {id workerId : String} {attempt : ℕ} {ack : Acknowledgment}
    {moved : Bool}
    (ok : finishJob clock jittered db id workerId attempt ack = .ok (moved, db', calls)) :
    db'.margins = db.margins := by
  simp only [finishJob] at ok
  split at ok
  · cases ok
  split at ok
  · simp only [bind_eq_ok] at ok
    obtain ⟨⟨⟩, -, same⟩ := ok
    cases same
    rfl
  · simp only [bind_eq_ok] at ok
    obtain ⟨⟨⟩, -, settled⟩ := ok
    exact settle_margins settled

theorem completeJob_margins {req : CompleteJobRequest}
    (ok : completeJob clock db req = .ok (db', calls)) : db'.margins = db.margins := by
  simp only [completeJob] at ok
  split at ok
  · cases ok
  simp only [bind_eq_ok] at ok
  obtain ⟨⟨moved, db₁, calls₁⟩, finished, same⟩ := ok
  cases same
  exact finishJob_margins finished

/-! ## Leases -/

theorem renewLease_margins {req : HeartbeatRequest} {expiry : ℤ}
    (ok : renewLease service clock db req = .ok (expiry, db')) : db'.margins = db.margins := by
  obtain ⟨row, lease, -, -, -, -, -, -, -, -, rfl⟩ := renewLease_ok ok
  rfl

theorem recoverOne_margins {row : JobRow} {n : ℕ} (ok : recoverOne now db row = .ok (db', n)) :
    db'.margins = db.margins := by
  rw [recoverOne] at ok
  split at ok
  · cases ok
    rfl
  · exact archive_margins ok

theorem recoverAll_margins {rows : List JobRow} {released released' : ℕ}
    (ok : recoverAll now db released rows = .ok (db', released')) : db'.margins = db.margins := by
  induction rows generalizing db released with
  | nil =>
    cases ok
    rfl
  | cons row rest ih =>
    simp only [recoverAll, bind_eq_ok] at ok
    obtain ⟨⟨db₁, n⟩, recovered, others⟩ := ok
    exact (ih others).trans (recoverOne_margins recovered)

/-! ## Flows -/

theorem insertNode_margins {place : Placement} {node : PreparedNode}
    (ok : insertNode ext place now db node = .ok db') : db'.margins = db.margins := by
  obtain ⟨jobs, -, -, ⟨-, rfl⟩ | ⟨-, receipt⟩⟩ := insertNode_ok ok
  · rfl
  · have kept : db'.margins = ({ db with jobs := jobs } : Db).margins :=
      insertReceipt_margins receipt
    exact kept

theorem plant_margins : PlantRelation ext fun db db' => db'.margins = db.margins where
  refl := fun _ => rfl
  trans := fun first second => second.trans first
  inserted := insertNode_margins
  adopted := by
    intro db target
    rw [adoptTree]
    split <;> rfl
  regated := by
    intro db target n clock
    rw [regate]
    split <;> rfl

/-! ## Enqueues -/

/-- The margins but for the chain counters. -/
def Margins.offChains (m : Margins) : Margins := { m with chainCounters := Table.empty }

/-- The margins but for what an intake writes: the chain counters, the scheduler
records and the rejections. -/
def Margins.offIntake (m : Margins) : Margins :=
  { m with
    chainCounters := Table.empty
    jobSchedulers := Table.empty
    enqueueRejections := Table.empty
    rejectionSeq := 0 }

/-- An admission leaves them alone as well. -/
theorem admitRequest_margins {req : AddJobRequest} (ok : admitRequest ext db req now = .ok db') :
    db'.margins = db.margins := by
  rw [admitRequest] at ok
  split at ok
  · cases ok
    rfl
  split at ok
  · cases ok
    rename_i admitted
    rw [admitIngress] at admitted
    split at admitted
    · cases admitted
      rfl
    · split at admitted <;> cases admitted
      rfl
  · cases ok

theorem checkChain_margins {maxChainSize : ℕ} {name traceId : String} {parentId : Option JobId}
    {depth : ℤ} (ok : checkChain maxChainSize db name traceId parentId depth now = .ok db') :
    db'.margins.offChains = db.margins.offChains := by
  rw [checkChain] at ok
  split at ok
  · cases ok
    rfl
  · dsimp only at ok
    split at ok <;> cases ok
    rfl

theorem writeReceipt_margins {req : AddJobRequest} {row : JobRow}
    (ok : writeReceipt db req receiptRequest row now = .ok db') : db'.margins = db.margins := by
  cases receiptRequest with
  | none =>
    cases ok
    rfl
  | some original => exact insertReceipt_margins ok

/-- Of the margins an enqueue writes the chain counters. -/
theorem insertEnqueued_margins {req : AddJobRequest} {out : EnqueueOutcome}
    (ok : insertEnqueued ext service t k db req receiptRequest now = .ok out) :
    out.db.margins.offChains = db.margins.offChains := by
  obtain ⟨db₁, db₂, availableAt, depth, trace, jobs, admitted, -, -, -, chained, -, written, -⟩ :=
    insertEnqueued_ok ok
  have inserted : ({ db₂ with jobs := jobs } : Db).margins = db₂.margins := rfl
  rw [writeReceipt_margins written, inserted, checkChain_margins chained,
    admitRequest_margins admitted]

/-- A view that does not show the rejections does not show a record of one. -/
theorem recordRejection_view {α : Type} (view : Db → α)
    (outside : ∀ db rejections seq,
      view { db with enqueueRejections := rejections, rejectionSeq := seq } = view db)
    (db : Db) (now : ℤ) (name : String) (record : RejectionRecord) :
    view (recordRejection db now name record) = view db := by
  rw [recordRejection]
  split
  · exact outside db _ _
  · rfl

theorem intake_margins : IntakeRelation ext service t (fun _ => True)
    fun db db' => db'.margins.offIntake = db.margins.offIntake where
  refl := fun _ => rfl
  trans := fun first second => second.trans first
  inserted := by
    intro k db req receiptRequest now out _ ok
    have same := congrArg Margins.offIntake (insertEnqueued_margins ok)
    exact same

/-! ## Claims, rules and sweeps -/

/-- The margins but for what a poll writes: the counters of the rate limits and the
rotation of the facets. -/
def Margins.offPoll (m : Margins) : Margins :=
  { m with
    rateLimitCounters := Table.empty
    facetDispatch := Table.empty }

theorem getNextJob_margins {req : GetNextJobRequest} {job : Option ClaimedJob}
    (ok : getNextJob service clock db req = .ok (job, db', calls)) :
    db'.margins.offPoll = db.margins.offPoll := by
  rcases getNextJob_cases ok with ⟨-, rfl, -⟩ | ⟨row, -, -, -, -, rfl⟩
  · rfl
  · have counted : (consume db row (clock 0)).margins.offPoll = db.margins.offPoll := by
      rw [consume]
      split <;> rfl
    refine Eq.trans ?_ counted
    rw [leaseTo]
    split <;> rfl

section Sweep

variable (plan : SweepPlan) (cfg : RetentionConfig)

theorem whenPositive_view {α : Type} (view : Db → α) {setting : ℤ} {statement : Db → Db × ℕ}
    (outside : ∀ db, view (statement db).1 = view db) (db : Db) :
    view (whenPositive setting db statement).1 = view db := by
  rw [whenPositive]
  split
  · exact outside db
  · rfl

/-- The database after the statements of a sweep on history and receipts. -/
def booksSwept (clock : Clock) (db : Db) : Db :=
  let now := clock 0
  let db := (whenPositive cfg.completedAgeMs db fun db =>
    pruneAge plan.completedAge db .completed (saturatingSub now cfg.completedAgeMs) cfg.batch).1
  let db := (whenPositive cfg.failedAgeMs db fun db =>
    pruneAge plan.failedAge db .failed (saturatingSub now cfg.failedAgeMs) cfg.batch).1
  let db := (whenPositive cfg.completedCount db fun db =>
    pruneCount plan.completedCount db .completed cfg.completedCount cfg.batch).1
  let db := (whenPositive cfg.failedCount db fun db =>
    pruneCount plan.failedCount db .failed cfg.failedCount cfg.batch).1
  (pruneReceipts plan.receipts db cfg.batch).1

theorem booksSwept_margins : (booksSwept plan cfg clock db).margins = db.margins :=
  (whenPositive_view Db.margins (fun _ => rfl) _).trans
    ((whenPositive_view Db.margins (fun _ => rfl) _).trans
      ((whenPositive_view Db.margins (fun _ => rfl) _).trans
        (whenPositive_view Db.margins (fun _ => rfl) _)))

/-- The database after the prune of idle chains as well. -/
def chainsSwept (clock : Clock) (db : Db) : Db :=
  (whenPositive cfg.chainCounterTtlMs (booksSwept plan cfg clock db) fun db =>
    pruneChainCounters plan.chainCounters db (saturatingSub (clock 0) cfg.chainCounterTtlMs)
      cfg.batch).1

/-- The database after the prune of idle facets as well. -/
def facetsSwept (clock : Clock) (db : Db) : Db :=
  (whenPositive cfg.facetDispatchTtlMs (chainsSwept plan cfg clock db) fun db =>
    pruneFacetDispatch plan.facetDispatch db (saturatingSub (clock 0) cfg.facetDispatchTtlMs)
      cfg.batch).1

/-- The last statement of a sweep prunes rejections and nothing else. -/
theorem sweep_view {α : Type} (view : Db → α)
    (outside : ∀ db cutoff,
      view (pruneRejections plan.rejections db cutoff cfg.batch).1 = view db) :
    view (sweep plan clock db cfg).2.1 = view (facetsSwept plan cfg clock db) := by
  simp only [sweep]
  exact whenPositive_view view (fun db => outside db _) (facetsSwept plan cfg clock db)

/-- The margins but for what a sweep deletes from: the chain counters, the rotation of
the facets and the rejections. -/
def Margins.offSweep (m : Margins) : Margins :=
  { m with
    chainCounters := Table.empty
    facetDispatch := Table.empty
    enqueueRejections := Table.empty }

theorem sweep_margins :
    (sweep plan clock db cfg).2.1.margins.offSweep = db.margins.offSweep := by
  let view := fun db : Db => db.margins.offSweep
  have chains : view (chainsSwept plan cfg clock db) = view (booksSwept plan cfg clock db) :=
    whenPositive_view view (fun _ => rfl) _
  have facets : view (facetsSwept plan cfg clock db) = view (chainsSwept plan cfg clock db) :=
    whenPositive_view view (fun _ => rfl) _
  have books : view (booksSwept plan cfg clock db) = view db :=
    congrArg Margins.offSweep (booksSwept_margins plan cfg)
  exact (sweep_view plan cfg view fun _ _ => rfl).trans (facets.trans (chains.trans books))

/-- A statement that runs when its setting is positive deletes what it deletes. -/
theorem whenPositive_deletes {ρ κ : Type} {key : ρ → κ} (view : Db → Table key)
    {P : ρ → Prop} {setting : ℤ} {db : Db} {statement : Db → Db × ℕ}
    (deletes : 0 < setting → (view db).DeletesOnly P (view (statement db).1)) :
    (view db).DeletesOnly P (view (whenPositive setting db statement).1) := by
  rw [whenPositive]
  split
  · exact deletes ‹_›
  · exact .refl P _

/-- The chain counters are pruned after the history and the receipts. -/
theorem sweep_chainCounters_eq (clock : Clock) (db : Db) :
    (booksSwept plan cfg clock db).chainCounters = db.chainCounters ∧
    (sweep plan clock db cfg).2.1.chainCounters =
      (chainsSwept plan cfg clock db).chainCounters := by
  have facets : (facetsSwept plan cfg clock db).chainCounters =
      (chainsSwept plan cfg clock db).chainCounters :=
    whenPositive_view Db.chainCounters (fun _ => rfl) _
  have whole : (sweep plan clock db cfg).2.1.chainCounters =
      (facetsSwept plan cfg clock db).chainCounters :=
    sweep_view plan cfg Db.chainCounters fun _ _ => rfl
  exact ⟨congrArg Margins.chainCounters (booksSwept_margins plan cfg), whole.trans facets⟩

/-- The facets are pruned after the chain counters. -/
theorem sweep_facetDispatch_eq (clock : Clock) (db : Db) :
    (chainsSwept plan cfg clock db).facetDispatch = db.facetDispatch ∧
    (sweep plan clock db cfg).2.1.facetDispatch =
      (facetsSwept plan cfg clock db).facetDispatch := by
  have books : (booksSwept plan cfg clock db).facetDispatch = db.facetDispatch :=
    congrArg Margins.facetDispatch (booksSwept_margins plan cfg)
  have chains : (chainsSwept plan cfg clock db).facetDispatch =
      (booksSwept plan cfg clock db).facetDispatch :=
    whenPositive_view Db.facetDispatch (fun _ => rfl) _
  exact ⟨chains.trans books, sweep_view plan cfg Db.facetDispatch fun _ _ => rfl⟩

/-- The rejections are pruned last. -/
theorem facetsSwept_rejections (clock : Clock) (db : Db) :
    (facetsSwept plan cfg clock db).enqueueRejections = db.enqueueRejections := by
  have books : (booksSwept plan cfg clock db).enqueueRejections = db.enqueueRejections :=
    congrArg Margins.enqueueRejections (booksSwept_margins plan cfg)
  have chains : (chainsSwept plan cfg clock db).enqueueRejections =
      (booksSwept plan cfg clock db).enqueueRejections :=
    whenPositive_view Db.enqueueRejections (fun _ => rfl) _
  have facets : (facetsSwept plan cfg clock db).enqueueRejections =
      (chainsSwept plan cfg clock db).enqueueRejections :=
    whenPositive_view Db.enqueueRejections (fun _ => rfl) _
  exact facets.trans (chains.trans books)

/-- A sweep deletes chain counters and changes none. -/
theorem sweep_chainCounters :
    db.chainCounters.DeletesOnly (fun _ => True) (sweep plan clock db cfg).2.1.chainCounters := by
  obtain ⟨books, whole⟩ := sweep_chainCounters_eq plan cfg clock db
  rw [whole, ← books]
  exact whenPositive_deletes Db.chainCounters fun _ => ⟨_, rfl, fun _ _ _ => trivial⟩

/-- A sweep deletes facets from the rotation and changes none. -/
theorem sweep_facetDispatch :
    db.facetDispatch.DeletesOnly (fun _ => True) (sweep plan clock db cfg).2.1.facetDispatch := by
  obtain ⟨chains, whole⟩ := sweep_facetDispatch_eq plan cfg clock db
  rw [whole, ← chains]
  exact whenPositive_deletes Db.facetDispatch fun _ => ⟨_, rfl, fun _ _ _ => trivial⟩

/-- A sweep deletes rejections and changes none. -/
theorem sweep_rejections :
    db.enqueueRejections.DeletesOnly (fun _ => True)
      (sweep plan clock db cfg).2.1.enqueueRejections := by
  simp only [sweep]
  rw [← facetsSwept_rejections plan cfg clock db]
  exact whenPositive_deletes Db.enqueueRejections fun _ => ⟨_, rfl, fun _ _ _ => trivial⟩

end Sweep

/-! ## Operations -/

/-- The operations that write no margin. -/
def Op.LeavesMargins : Op → Prop
  | addJob _ _ => False
  | addJobBulk _ _ => False
  | runOnce _ _ => False
  | getNextJob _ _ => False
  | sweep _ _ _ => False
  | upsertRateLimitRule _ _ => False
  | deleteRateLimitRule _ => False
  | upsertJobScheduler _ _ => False
  | deleteJobScheduler _ => False
  | _ => True

/-- The operations that enqueue. -/
def Op.Enqueues : Op → Prop
  | addJob _ _ => True
  | addJobBulk _ _ => True
  | runOnce _ _ => True
  | _ => False

/-- What a transaction keeps when it commits it always keeps. -/
theorem transact_view {α β : Type} (view : Db → β) {outcome : Except Status α}
    {pack : α → Reply × Db × List MetricCall}
    (keeps : ∀ a, outcome = .ok a → view (pack a).2.1 = view db) :
    view (transact db (outcome.map pack)).1 = view db := by
  cases outcome with
  | error status => rfl
  | ok a => exact keeps a rfl

/-- **Every other operation leaves the margins alone.** -/
theorem serve_margins {op : Op} (leaves : op.LeavesMargins) :
    (serve ext service t db op).1.margins = db.margins := by
  cases op with
  | addFlow clock flow =>
    refine transact_view Db.margins ?_
    rintro ⟨response, db', calls⟩ ok
    exact plant_margins.addFlow ok
  | addFlowBulk clock flows =>
    refine transact_view Db.margins ?_
    rintro ⟨responses, db', calls⟩ ok
    exact plant_margins.addFlowBulk ok
  | addFlowMerge clock flow =>
    refine transact_view Db.margins ?_
    rintro ⟨response, db', calls⟩ ok
    exact plant_margins.addFlowMerge ok
  | heartbeat clock req =>
    refine transact_view Db.margins ?_
    rintro ⟨expiry, db'⟩ ok
    exact renewLease_margins ok
  | completeJob clock req =>
    refine transact_view Db.margins ?_
    rintro ⟨db', calls⟩ ok
    exact completeJob_margins ok
  | failJob clock jittered req =>
    refine transact_view Db.margins ?_
    rintro ⟨moved, db', calls⟩ ok
    exact finishJob_margins ok
  | recoverExpired clock batchSize =>
    refine transact_view Db.margins ?_
    rintro ⟨jobs, db', calls⟩ ok
    simp only [recoverExpired, bind_eq_ok] at ok
    obtain ⟨⟨db₁, released⟩, recovered, same⟩ := ok
    cases same
    exact recoverAll_margins recovered
  | upsertIngressLimitRule clock req =>
    refine transact_view Db.margins fun db' ok => ?_
    simp only [upsertIngressLimitRule, bind_eq_ok] at ok
    obtain ⟨⟨⟩, -, ok⟩ := ok
    split at ok
    · cases ok
    split at ok <;> cases ok
    rfl
  | deleteIngressLimitRule facetKey =>
    refine transact_view Db.margins ?_
    rintro ⟨deleted, db'⟩ ok
    simp only [deleteIngressLimitRule, bind_eq_ok] at ok
    obtain ⟨⟨⟩, -, same⟩ := ok
    cases same
    rfl
  | _ => exact leaves.elim

/-- The rule for enqueues: a relation that an intake keeps, whatever is asked, holds
across every operation that enqueues. -/
theorem IntakeRelation.serve {R : Db → Db → Prop}
    (relation : IntakeRelation ext service t (fun _ => True) R)
    (recorded : ∀ db now name record, R db (recordRejection db now name record))
    (advanced : ∀ db id next jobId now, R db (advanceScheduler db id next jobId now)) {op : Op}
    (enqueues : op.Enqueues) : R db (serve ext service t db op).1 := by
  cases op with
  | addJob clock req => exact relation.enqueue recorded fun _ _ => trivial
  | addJobBulk clock requests => exact relation.enqueueBulk recorded fun _ _ _ _ => trivial
  | runOnce clock batchSize => exact relation.fireAll advanced (fun _ _ _ _ => trivial) 0 db
  | _ => exact enqueues.elim

theorem serve_enqueues {op : Op} (enqueues : op.Enqueues) :
    (serve ext service t db op).1.margins.offIntake = db.margins.offIntake :=
  intake_margins.serve (recordRejection_view (fun db => db.margins.offIntake) fun _ _ _ => rfl)
    (fun _ _ _ _ _ => rfl) enqueues

theorem serve_getNextJob {req : GetNextJobRequest} :
    (serve ext service t db (.getNextJob clock req)).1.margins.offPoll = db.margins.offPoll := by
  refine transact_view (fun db => db.margins.offPoll) ?_
  rintro ⟨job, db', calls⟩ ok
  exact getNextJob_margins ok

/-- The operations on dispatch rate limits. -/
def Op.RulesDispatch : Op → Prop
  | upsertRateLimitRule _ _ => True
  | deleteRateLimitRule _ => True
  | _ => False

/-- The margins but for the rate limits. -/
def Margins.offLimits (m : Margins) : Margins :=
  { m with
    rateLimitRules := Table.empty
    rateLimitCounters := Table.empty }

theorem serve_rulesDispatch {op : Op} (rules : op.RulesDispatch) :
    (serve ext service t db op).1.margins.offLimits = db.margins.offLimits := by
  cases op with
  | upsertRateLimitRule clock req =>
    refine transact_view (fun db => db.margins.offLimits) fun db' ok => ?_
    obtain ⟨-, rfl⟩ := upsertRateLimitRule_eq ok
    rfl
  | deleteRateLimitRule facetKey =>
    refine transact_view (fun db => db.margins.offLimits) ?_
    rintro ⟨deleted, db'⟩ ok
    rw [deleteRateLimitRule_eq ok]
    rfl
  | _ => exact rules.elim

/-- The requests about scheduler records. -/
def Op.RulesSchedule : Op → Prop
  | upsertJobScheduler _ _ => True
  | deleteJobScheduler _ => True
  | _ => False

/-- The margins but for the scheduler records. -/
def Margins.offSchedule (m : Margins) : Margins := { m with jobSchedulers := Table.empty }

theorem serve_rulesSchedule {op : Op} (rules : op.RulesSchedule) :
    (serve ext service t db op).1.margins.offSchedule = db.margins.offSchedule := by
  cases op with
  | upsertJobScheduler clock req =>
    refine transact_view (fun db => db.margins.offSchedule) ?_
    rintro ⟨⟨id, next⟩, db', calls⟩ ok
    obtain ⟨template, spec, -, -, -, -, rfl, -⟩ := upsertJobScheduler_ok ok
    rfl
  | deleteJobScheduler id =>
    refine transact_view (fun db => db.margins.offSchedule) ?_
    rintro ⟨deleted, db', calls⟩ ok
    obtain ⟨rfl, -⟩ := deleteJobScheduler_ok ok
    rfl
  | _ => exact rules.elim

theorem insertEnqueued_jobSchedulers {req : AddJobRequest} {out : EnqueueOutcome}
    (ok : insertEnqueued ext service t k db req receiptRequest now = .ok out) :
    out.db.jobSchedulers = db.jobSchedulers :=
  congrArg Margins.jobSchedulers (insertEnqueued_margins ok)

/-- Enqueues leave the scheduler records to the tick that makes them. -/
theorem intake_jobSchedulers : IntakeRelation ext service t (fun _ => True)
    fun db db' => db'.jobSchedulers = db.jobSchedulers where
  refl := fun _ => rfl
  trans := fun first second => second.trans first
  inserted := fun _ => insertEnqueued_jobSchedulers

/-! ## One operation of a run -/

section Runs

variable (ext service) (run : List Op) {op : Op}

/-- Every operation leaves the margins alone, enqueues, polls, sweeps, or is about
the dispatch limits or the scheduler records. -/
theorem Op.margins_cases (op : Op) :
    op.LeavesMargins ∨ op.Enqueues ∨ (∃ clock req, op = .getNextJob clock req) ∨
      (∃ plan clock cfg, op = .sweep plan clock cfg) ∨ op.RulesDispatch ∨ op.RulesSchedule := by
  cases op with
  | addJob clock req => exact .inr (.inl trivial)
  | addJobBulk clock requests => exact .inr (.inl trivial)
  | runOnce clock batchSize => exact .inr (.inl trivial)
  | getNextJob clock req => exact .inr (.inr (.inl ⟨clock, req, rfl⟩))
  | sweep plan clock cfg => exact .inr (.inr (.inr (.inl ⟨plan, clock, cfg, rfl⟩)))
  | upsertRateLimitRule clock req => exact .inr (.inr (.inr (.inr (.inl trivial))))
  | deleteRateLimitRule facetKey => exact .inr (.inr (.inr (.inr (.inl trivial))))
  | upsertJobScheduler clock req => exact .inr (.inr (.inr (.inr (.inr trivial))))
  | deleteJobScheduler id => exact .inr (.inr (.inr (.inr (.inr trivial))))
  | _ => exact .inl trivial

/-- **The rule for a margin**: an operation leaves a part of the margins alone if what the
operations of its kind write is not in it. -/
theorem margin_after {α : Type} (view : Margins → α)
    (intake : op.Enqueues → ∀ m : Margins, view m.offIntake = view m)
    (poll : ∀ clock req, op = .getNextJob clock req → ∀ m : Margins, view m.offPoll = view m)
    (swept : ∀ plan clock cfg, op = .sweep plan clock cfg →
      ∀ m : Margins, view m.offSweep = view m)
    (limits : op.RulesDispatch → ∀ m : Margins, view m.offLimits = view m)
    (schedule : op.RulesSchedule → ∀ m : Margins, view m.offSchedule = view m) :
    view (dbAfter ext service (run ++ [op])).margins =
      view (dbAfter ext service run).margins := by
  have through : ∀ {off : Margins → Margins} {m m' : Margins},
      (∀ m, view (off m) = view m) → off m = off m' → view m = view m' := fun outside same => by
    rw [← outside, same, outside]
  rw [dbAfter_concat, servedNext]
  rcases op.margins_cases with
    leaves | enqueues | ⟨clock, req, rfl⟩ | ⟨plan, clock, cfg, rfl⟩ | rules | records
  · exact congrArg view (serve_margins leaves)
  · exact through (intake enqueues) (serve_enqueues enqueues)
  · exact through (poll clock req rfl) serve_getNextJob
  · exact through (swept plan clock cfg rfl) (sweep_margins plan cfg)
  · exact through (limits rules) (serve_rulesDispatch rules)
  · exact through (schedule records) (serve_rulesSchedule records)

/-- Only `UpsertRateLimitRule` and `DeleteRateLimitRule` change the rules. -/
theorem rateLimitRules_after (other : ¬ op.RulesDispatch) :
    (dbAfter ext service (run ++ [op])).rateLimitRules =
      (dbAfter ext service run).rateLimitRules :=
  margin_after ext service run Margins.rateLimitRules (fun _ _ => rfl) (fun _ _ _ _ => rfl)
    (fun _ _ _ _ _ => rfl) (fun rules => absurd rules other) fun _ _ => rfl

/-- Only these and the claims change the counters of the rules. -/
theorem rateLimitCounters_after (other : ¬ op.RulesDispatch)
    (unpolled : ∀ clock req, op ≠ .getNextJob clock req) :
    (dbAfter ext service (run ++ [op])).rateLimitCounters =
      (dbAfter ext service run).rateLimitCounters :=
  margin_after ext service run Margins.rateLimitCounters (fun _ _ => rfl)
    (fun clock req polls => absurd polls (unpolled clock req)) (fun _ _ _ _ _ => rfl)
    (fun rules => absurd rules other) fun _ _ => rfl

/-- Only claims and sweeps change the rotation of the facets. -/
theorem facetDispatch_after (unpolled : ∀ clock req, op ≠ .getNextJob clock req)
    (unswept : ∀ plan clock cfg, op ≠ .sweep plan clock cfg) :
    (dbAfter ext service (run ++ [op])).facetDispatch =
      (dbAfter ext service run).facetDispatch :=
  margin_after ext service run Margins.facetDispatch (fun _ _ => rfl)
    (fun clock req polls => absurd polls (unpolled clock req))
    (fun plan clock cfg sweeps => absurd sweeps (unswept plan clock cfg)) (fun _ _ => rfl)
    fun _ _ => rfl

/-- Only enqueues and sweeps change the chain counters. -/
theorem chainCounters_after (other : ¬ op.Enqueues)
    (unswept : ∀ plan clock cfg, op ≠ .sweep plan clock cfg) :
    (dbAfter ext service (run ++ [op])).chainCounters =
      (dbAfter ext service run).chainCounters :=
  margin_after ext service run Margins.chainCounters (fun enqueues => absurd enqueues other)
    (fun _ _ _ _ => rfl) (fun plan clock cfg sweeps => absurd sweeps (unswept plan clock cfg))
    (fun _ _ => rfl) fun _ _ => rfl

/-- Only `UpsertJobScheduler`, `DeleteJobScheduler` and the ticks change the scheduler
records. -/
theorem jobSchedulers_after (other : ¬ op.RulesSchedule)
    (unticked : ∀ clock batchSize, op ≠ .runOnce clock batchSize) :
    (dbAfter ext service (run ++ [op])).jobSchedulers =
      (dbAfter ext service run).jobSchedulers := by
  by_cases enqueues : op.Enqueues
  · rw [dbAfter_concat, servedNext]
    cases op with
    | addJob clock req =>
      exact intake_jobSchedulers.enqueue (recordRejection_view Db.jobSchedulers fun _ _ _ => rfl)
        fun _ _ => trivial
    | addJobBulk clock requests =>
      exact intake_jobSchedulers.enqueueBulk
        (recordRejection_view Db.jobSchedulers fun _ _ _ => rfl)
        fun _ _ _ _ => trivial
    | runOnce clock batchSize => exact absurd rfl (unticked clock batchSize)
    | _ => exact enqueues.elim
  · exact margin_after ext service run Margins.jobSchedulers (fun here => absurd here enqueues)
      (fun _ _ _ _ => rfl) (fun _ _ _ _ _ => rfl) (fun _ _ => rfl)
      fun records => absurd records other

/-- Only enqueues and sweeps change the rejections. -/
theorem rejections_after (other : ¬ op.Enqueues)
    (unswept : ∀ plan clock cfg, op ≠ .sweep plan clock cfg) :
    (dbAfter ext service (run ++ [op])).enqueueRejections =
      (dbAfter ext service run).enqueueRejections :=
  margin_after ext service run Margins.enqueueRejections (fun enqueues => absurd enqueues other)
    (fun _ _ _ _ => rfl) (fun plan clock cfg sweeps => absurd sweeps (unswept plan clock cfg))
    (fun _ _ => rfl) fun _ _ => rfl

/-- Only enqueues advance their sequence. -/
theorem rejectionSeq_after (other : ¬ op.Enqueues) :
    (dbAfter ext service (run ++ [op])).rejectionSeq = (dbAfter ext service run).rejectionSeq :=
  margin_after ext service run Margins.rejectionSeq (fun enqueues => absurd enqueues other)
    (fun _ _ _ _ => rfl) (fun _ _ _ _ _ => rfl) (fun _ _ => rfl) fun _ _ => rfl

end Runs

end AnvilMQ
