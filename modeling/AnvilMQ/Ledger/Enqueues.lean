import AnvilMQ.Ledger.Statements
import AnvilMQ.Schedulers

/-!
# Enqueues as events

A job that `enqueue_one` inserts is one `enqueued` event, followed by a
`receipted` event when the request is keyed; a replay is no event at all.  Bulk
enqueues and scheduler ticks are sequences of these.
-/

namespace AnvilMQ

open Rust Relational Transition

variable {ext : Externals} {service : Service} {db db' : Db} {t k slot : ℕ}
  {calls : List MetricCall} {now : ℤ} {req : AddJobRequest} {out : EnqueueOutcome} {clock : Clock}
  {receiptRequest : Option Bytes} {requests : List AddJobRequest}
  {job : AddJobRequest × Option Bytes} {batch : BatchOutcome}
  {answer : Except Status (List AddJobResponse × List MetricCall)} {parentId : Option JobId}
  {depth : ℤ}

/-! ## Admission -/

/-- Two databases with the same books, up to the ingress buckets. -/
structure SameBooks (db db' : Db) : Prop where
  jobs : db'.jobs = db.jobs
  jobHistory : db'.jobHistory = db.jobHistory
  enqueueReceipts : db'.enqueueReceipts = db.enqueueReceipts
  ingressLimitRules : db'.ingressLimitRules = db.ingressLimitRules
  jobSchedulers : db'.jobSchedulers = db.jobSchedulers

namespace SameBooks

theorem refl (db : Db) : SameBooks db db := ⟨rfl, rfl, rfl, rfl, rfl⟩

theorem trans {db'' : Db} (first : SameBooks db db') (second : SameBooks db' db'') :
    SameBooks db db'' :=
  ⟨second.1.trans first.1, second.2.trans first.2, second.3.trans first.3,
    second.4.trans first.4, second.5.trans first.5⟩

theorem level (same : SameBooks db db') (gauge : Gauge) : db'.level gauge = db.level gauge := by
  rw [Db.level_eq, Db.level_eq, same.jobs, same.jobHistory, same.enqueueReceipts,
    same.jobSchedulers]

end SameBooks

/-- An admitted job changes nothing but its facet's bucket. -/
theorem admitIngress_ok {facet : String} (ok : admitIngress ext db facet now = some db') :
    SameBooks db db' ∧
      (db.ledger t k).admission ext (some facet) now = some db'.ingressBucket := by
  rw [admitIngress] at ok
  simp only [Ledger.admission, Db.ledger]
  cases ruled : db.ingressLimitRules.find? facet with
  | none =>
    simp only [ruled, Option.some.injEq] at ok
    subst ok
    exact ⟨.refl db, rfl⟩
  | some rule =>
    simp only [ruled] at ok
    cases admitted : admitBucket ext rule (db.ingressBucket facet) now with
    | none => simp [admitted] at ok
    | some bucket =>
      simp only [admitted, Option.some.injEq] at ok
      subst ok
      refine ⟨⟨rfl, rfl, rfl, rfl, rfl⟩, ?_⟩
      simp only [admitted, Option.map_some, Option.some.injEq]
      funext f
      simp only [Db.ingressBucket, Table.find?_upsert, Function.update_apply]
      by_cases here : f = facet
      · subst here
        cases db.ingressLimitCounters.find? f <;> simp
      · simp [here]

/-- A request that is admitted has taken its place in the bucket and changed no books. -/
theorem admitRequest_ok (ok : admitRequest ext db req now = .ok db') :
    SameBooks db db' ∧
      (db.ledger t k).admission ext (textColumn req.rateLimitFacet) now =
        some db'.ingressBucket := by
  rw [admitRequest] at ok
  split at ok
  · rename_i unfaceted
    cases ok
    refine ⟨.refl db, ?_⟩
    simp [textColumn, unfaceted, Ledger.admission, Db.ledger]
  · rename_i faceted
    cases admitted : admitIngress ext db req.rateLimitFacet now with
    | none => simp [admitted] at ok
    | some db1 =>
      simp only [admitted, Except.ok.injEq] at ok
      subst ok
      simpa [textColumn, faceted] using admitIngress_ok admitted

/-! ## Lineage -/

/-- A job with a parent takes its depth and trace from the parent. -/
theorem deriveLineage_ok {name : String} {metadata : JobMetadata} {trace : String} {uuids : ℕ}
    (ok : deriveLineage ext t k db name metadata = .ok (depth, trace, uuids)) :
    (k ≤ uuids ∧ uuids ≤ k + 1) ∧
      ∀ p, metadata.parentColumn = some p → db.lineage p = some (depth - 1, trace) := by
  rw [deriveLineage] at ok
  split at ok
  · rename_i root
    refine ⟨?_, by simp [JobMetadata.parentColumn, root]⟩
    split at ok <;> simp only [Except.ok.injEq, Prod.mk.injEq] at ok <;> omega
  · rename_i child
    dsimp only at ok
    cases found : db.lineage metadata.parentId with
    | none => simp [found] at ok
    | some lineage =>
      obtain ⟨parentDepth, parentTrace⟩ := lineage
      simp only [found] at ok
      split at ok
      · simp only [Except.ok.injEq, Prod.mk.injEq] at ok
        obtain ⟨rfl, rfl, rfl⟩ := ok
        refine ⟨⟨le_rfl, Nat.le_succ _⟩, ?_⟩
        intro p column
        simp only [JobMetadata.parentColumn, child, if_false, Option.some.injEq] at column
        rw [← column, found, add_sub_cancel_right]
      · cases ok

/-- A chain under its cap leaves the books and the ingress buckets alone. -/
theorem checkChain_ok {maxChainSize : ℕ} {name trace : String}
    (ok : checkChain maxChainSize db name trace parentId depth now = .ok db') :
    SameBooks db db' ∧ db'.ingressBucket = db.ingressBucket := by
  rw [checkChain] at ok
  split at ok
  · cases ok
    exact ⟨.refl db, rfl⟩
  · dsimp only at ok
    split at ok
    · cases ok
    · cases ok
      exact ⟨⟨rfl, rfl, rfl, rfl, rfl⟩, rfl⟩

theorem dbFail_ok {α : Type} {x : Except Status α} {a : α} (ok : dbFail x = .ok a) :
    x = .ok a := by
  cases x with
  | error status => cases ok
  | ok b => cases ok; rfl

/-! ## One job -/

/-- The row and the bucket of an admitted job are one `enqueued` event. -/
theorem ledger_enqueued {row : JobRow} {jobs : Table JobRow.id} (same : SameBooks db db')
    (admission : (db.ledger t k).admission ext row.rateLimitFacet now = some db'.ingressBucket)
    (inserted : db'.jobs.insert row = some jobs) : ({ db' with jobs := jobs } : Db).ledger t slot =
      (db.ledger t k).apply ext (.enqueued row now slot) := by
  refine Ledger.ext (funext fun j => ?_) (funext fun j => ?_) (funext fun key => ?_)
    (funext fun facet => ?_) ?_ (funext fun id => ?_) (funext fun gauge => ?_) rfl rfl
  · simp [Db.ledger, Ledger.apply, Table.find?_of_insert inserted, same.jobs, eq_comm]
  · simp [Db.ledger, Ledger.apply, same.jobHistory]
  · simp [Db.ledger, Ledger.apply, same.enqueueReceipts]
  · simp [Db.ledger, Ledger.apply, same.ingressLimitRules]
  · simp only [Ledger.apply, Event.bucketsAfter, admission, Option.getD_some]
    rfl
  · simp [Db.ledger, Ledger.apply, same.jobSchedulers]
  · simp [Db.ledger, Ledger.apply, level_insert_job inserted, same.level]

/-- The events of one insertion. -/
def enqueueEvents (ext : Externals) (req : AddJobRequest) (keyed : Bool) (row : JobRow) (now : ℤ)
    (slot : ℕ) : List Event :=
  .enqueued row now slot ::
    if keyed then [.receipted (enqueueReceipt req (ext.encodeToVec req) row now) req] else []

/-- What `validate_and_prepare` hands to the enqueue core: a normalised request with
its own encoding as receipt request, if it has one. -/
structure Prepared (ext : Externals) (job : AddJobRequest × Option Bytes) : Prop where
  normalized : job.1.Normalized
  encoded : ∀ bytes ∈ job.2, bytes = ext.encodeToVec job.1

/-- The receipt of a request is one event of the books. -/
theorem writeReceipt_refines {row : JobRow} (prepared : Prepared ext (req, receiptRequest))
    (live : db.jobs.Has row.id) (ok : writeReceipt db req receiptRequest row now = .ok db') :
    Chain (Step ext) (db.ledger t k)
      (if receiptRequest.isSome then
        [.receipted (enqueueReceipt req (ext.encodeToVec req) row now) req] else [])
      (db'.ledger t k) := by
  cases receiptRequest with
  | none =>
    cases ok
    exact .nil _
  | some original =>
    have normalized : req.Normalized := prepared.normalized
    obtain rfl : original = ext.encodeToVec req := prepared.encoded original rfl
    obtain ⟨receipts, inserted, rfl⟩ := insertReceipt_ok ok
    refine .single ⟨⟨?_, live, normalized, rfl, rfl, rfl⟩, ledger_receipted inserted req⟩
    exact Table.not_has_iff.mp (Table.not_has_of_insert inserted)

/-- What `insert_enqueued` answers for a row. -/
structure Inserted (ext : Externals) (t k : ℕ) (req : AddJobRequest) (keyed : Bool) (row : JobRow)
    (out : EnqueueOutcome) : Prop where
  id : row.id = ext.newV4 t k
  name : row.name = req.name
  facet : row.rateLimitFacet = textColumn req.rateLimitFacet
  response : out.response = { id := row.id, state := row.state, replayed := false }
  calls : out.calls = (if keyed then [.enqueueReceiptCreated] else []) ++
    [.transition none row.state.label]
  drawn : k < out.uuids
  atMostTwo : out.uuids ≤ k + 2

theorem enqueuedRow_claimable {id : JobId} {trace : String} {availableAt : ℤ} :
    (enqueuedRow req id parentId trace depth now availableAt).state.Claimable := by
  simp only [enqueuedRow, LiveState.Claimable]
  split <;> simp

/-- The row of a request may be inserted once it is admitted and its lineage is
derived. -/
theorem enqueuedRow_enqueueable {trace : String} {availableAt : ℤ} {uuids : ℕ}
    (normalized : req.Normalized) (ahead : slot ≤ k) (drawn : k < uuids)
    (absent : ¬ db.jobs.Has (ext.newV4 t k))
    (lineage : ∀ p, parentId = some p → db.lineage p = some (depth - 1, trace))
    (admitted : ((db.ledger t slot).admission ext (textColumn req.rateLimitFacet) now).isSome) :
    Enqueueable ext (db.ledger t slot)
      (enqueuedRow req (ext.newV4 t k) parentId trace depth now availableAt) now uuids where
  draws := ⟨k, ahead, drawn, rfl⟩
  absent := Table.not_has_iff.mp absent
  untouched := ⟨rfl, rfl, rfl⟩
  attemptable := Nat.pos_of_ne_zero normalized.maxAttempts
  claimable := enqueuedRow_claimable
  childless := rfl
  unflagged := rfl
  treeless := rfl
  treeDepth := rfl
  lineage := lineage
  admitted := admitted

/-- A receipt is written beside the jobs. -/
theorem writeReceipt_jobs {req : AddJobRequest} {receiptRequest : Option Bytes} {row : JobRow}
    {now : ℤ} (ok : writeReceipt db req receiptRequest row now = .ok db') :
    db'.jobs = db.jobs := by
  cases receiptRequest with
  | none =>
    cases ok
    rfl
  | some original =>
    obtain ⟨receipts, -, rfl⟩ := insertReceipt_ok ok
    rfl

/-- **What an insertion is made of**: the ingress admission, the lineage, the depth
breaker, the quarantine, the row and the receipt. -/
theorem insertEnqueued_ok {req : AddJobRequest} {receiptRequest : Option Bytes} {now : ℤ}
    {out : EnqueueOutcome}
    (ok : insertEnqueued ext service t k db req receiptRequest now = .ok out) :
    ∃ db₁ db₂ availableAt depth trace jobs,
      let row := enqueuedRow req (ext.newV4 t k) (req.metadata.getD {}).parentColumn trace depth now
        availableAt
      admitRequest ext db req now = .ok db₁ ∧
      checkedAdd now req.delayMs = some availableAt ∧
      deriveLineage ext t (k + 1) db₁ req.name (req.metadata.getD {}) =
        .ok (depth, trace, out.uuids) ∧
      checkDepth service.maxExecutionDepth req.name trace (req.metadata.getD {}).parentColumn
        depth = .ok () ∧
      checkChain service.maxChainSize db₁ req.name trace (req.metadata.getD {}).parentColumn depth
        now = .ok db₂ ∧
      db₂.jobs.insert row = some jobs ∧
      writeReceipt { db₂ with jobs := jobs } req receiptRequest row now = .ok out.db ∧
      out.response = { id := row.id, state := row.state, replayed := false } ∧
      out.calls = (if receiptRequest.isSome then [.enqueueReceiptCreated] else []) ++
        [.transition none row.state.label] := by
  simp only [insertEnqueued, bind_eq_ok] at ok
  obtain ⟨db₁, admitted, ok⟩ := ok
  cases delayed : checkedAdd now req.delayMs with
  | none => simp [delayed] at ok
  | some availableAt =>
    simp only [delayed, bind_eq_ok] at ok
    obtain ⟨⟨depth, trace, uuids⟩, derived, ⟨⟩, shallow, db₂, chained, db₃, inserted, db₄,
      written, same⟩ := ok
    cases same
    obtain ⟨jobs, insert, rfl⟩ := insertJob_ok (dbFail_ok inserted)
    exact ⟨db₁, db₂, availableAt, depth, trace, jobs, admitted, rfl, derived, shallow, chained,
      insert, dbFail_ok written, rfl, rfl⟩

/-- **The insertion of a job is a chain of events.** -/
theorem insertEnqueued_refines (prepared : Prepared ext (req, receiptRequest)) (ahead : slot ≤ k)
    (ok : insertEnqueued ext service t k db req receiptRequest now = .ok out) :
    ∃ row, Inserted ext t k req receiptRequest.isSome row out ∧ row.state.Claimable ∧
      Chain (Step ext) (db.ledger t slot)
        (enqueueEvents ext req receiptRequest.isSome row now out.uuids)
        (out.db.ledger t out.uuids) := by
  obtain ⟨db₁, db₂, availableAt, depth, trace, jobs, admitted, -, derived, -, chained, insert,
    written, response, calls⟩ := insertEnqueued_ok ok
  obtain ⟨books, admission⟩ := admitRequest_ok (t := t) (k := slot) admitted
  obtain ⟨⟨drawn, atMostTwo⟩, lineage⟩ := deriveLineage_ok derived
  obtain ⟨books', buckets⟩ := checkChain_ok chained
  have absent := Table.not_has_of_insert insert
  rw [books'.jobs, books.jobs] at absent
  have origin : ∀ p, (req.metadata.getD {}).parentColumn = some p →
      db.lineage p = some (depth - 1, trace) := by
    intro p column
    have := lineage p column
    rwa [Db.lineage, books.jobs, books.jobHistory] at this
  refine ⟨_, ⟨rfl, rfl, rfl, response, calls, drawn, atMostTwo⟩, enqueuedRow_claimable,
    .cons ⟨?_, ?_⟩ (writeReceipt_refines prepared ?_ written)⟩
  · exact enqueuedRow_enqueueable prepared.1 ahead drawn absent origin (by rw [admission]; rfl)
  · exact ledger_enqueued (books.trans books') (by rw [buckets]; exact admission) insert
  · exact (Table.has_of_insert insert).mpr (.inr rfl)

/-- The events of `enqueue_one`: none for a replay. -/
theorem enqueueOne_refines (prepared : Prepared ext (req, receiptRequest)) (ahead : slot ≤ k)
    (ok : enqueueOne ext service t k db req receiptRequest now = .ok out) :
    (out.db = db ∧ out.calls = [] ∧ out.uuids = k ∧ out.response.replayed = true) ∨
    ∃ row, Inserted ext t k req receiptRequest.isSome row out ∧ row.state.Claimable ∧
      Chain (Step ext) (db.ledger t slot)
        (enqueueEvents ext req receiptRequest.isSome row now out.uuids)
        (out.db.ledger t out.uuids) := by
  cases receiptRequest with
  | none => exact .inr (insertEnqueued_refines prepared ahead ok)
  | some expected =>
    simp only [enqueueOne] at ok
    cases used : db.receiptFor req.name req.idempotencyKey with
    | none =>
      simp only [used] at ok
      exact .inr (insertEnqueued_refines prepared ahead ok)
    | some receipt =>
      simp only [used] at ok
      split at ok
      · cases ok
      · cases ok
        exact .inl ⟨rfl, rfl, rfl, rfl⟩

/-! ## Batches -/

/-- The events of enqueues and scheduler ticks. -/
def Event.IsIntake : Event → Prop
  | enqueued _ _ _ => True
  | receipted _ _ => True
  | schedulerStored _ _ => True
  | _ => False

theorem effectiveBackoffMax_ne_zero (base cap : ℤ) : effectiveBackoffMax base cap ≠ 0 := by
  rw [effectiveBackoffMax]
  split
  · omega
  · assumption

namespace AddJobRequest

/-- The request is in order but for its depth: the key, its release, the delays, the backoff cap
and the jitter. -/
def WellFormed (req : AddJobRequest) : Prop :=
  (req.idempotencyKey = "" ∨
    isBlank req.idempotencyKey = false ∧ byteLen req.idempotencyKey ≤ 256) ∧
  (req.releaseOnFinish = true → req.idempotencyKey ≠ "") ∧
  0 ≤ req.delayMs ∧ 0 ≤ req.retryBackoffMs ∧ 0 ≤ req.retryBackoffMaxMs ∧
  (req.retryBackoffMaxMs = 0 ∨ req.retryBackoffMs ≤ req.retryBackoffMaxMs) ∧
  req.retryJitter.inUnitInterval = true

instance (req : AddJobRequest) : Decidable req.WellFormed := inferInstanceAs (Decidable (_ ∧ _))

/-- The depth the request supplies. -/
def suppliedDepth (req : AddJobRequest) : ℕ := (req.metadata.getD {}).executionDepth

/-- The request gets past the checks before the transaction: it is in order and supplies no depth
above the breaker. -/
def Passes (maxExecutionDepth : ℕ) (req : AddJobRequest) : Prop :=
  req.WellFormed ∧ req.suppliedDepth ≤ maxExecutionDepth

instance (maxExecutionDepth : ℕ) (req : AddJobRequest) : Decidable (req.Passes maxExecutionDepth) :=
  inferInstanceAs (Decidable (_ ∧ _))

end AddJobRequest

section Validation

variable {maxExecutionDepth : ℕ}

/-- The two checks on the backoff cap. -/
theorem effectiveBackoffMax_lt_iff {base cap : ℤ} :
    effectiveBackoffMax base cap < base ↔ cap ≠ 0 ∧ cap < base := by
  rw [effectiveBackoffMax]
  split <;> omega

/-- NaN is not in the unit interval. -/
theorem isNan_or_outside_iff {jitter : F64} :
    (jitter.isNan = true ∨ ¬ jitter.inUnitInterval = true) ↔ ¬ jitter.inUnitInterval = true := by
  cases jitter <;> simp [F64.isNan, F64.inUnitInterval]

/-- A request that is not in order is invalid. -/
theorem validateAndPrepare_of_not_wellFormed (bad : ¬ req.WellFormed) :
    ∃ message, validateAndPrepare ext maxExecutionDepth req =
      .error (.invalidArgument message) := by
  rw [validateAndPrepare]
  split
  · exact ⟨_, rfl⟩
  rename_i key
  split
  · exact ⟨_, rfl⟩
  rename_i release
  split
  · exact ⟨_, rfl⟩
  rename_i delays
  split
  · exact ⟨_, rfl⟩
  rename_i cap
  split
  · exact ⟨_, rfl⟩
  rename_i jitter
  rw [effectiveBackoffMax_lt_iff] at cap
  rw [isNan_or_outside_iff] at jitter
  refine absurd ⟨?_, ?_, by omega, by omega, by omega, by omega, not_not.mp jitter⟩ bad
  · by_cases unkeyed : req.idempotencyKey = ""
    · exact .inl unkeyed
    · simp only [not_and, not_or, Bool.not_eq_true, Nat.not_lt] at key
      exact .inr (key unkeyed)
  · exact fun released unkeyed => release ⟨released, unkeyed⟩

/-- Of a request in order only the supplied depth is left to check. -/
theorem validateAndPrepare_of_wellFormed (well : req.WellFormed) :
    (maxExecutionDepth < req.suppliedDepth ∧ ∃ message,
      validateAndPrepare ext maxExecutionDepth req = .error (.resourceExhausted message)) ∨
    (req.suppliedDepth ≤ maxExecutionDepth ∧ ∃ job,
      validateAndPrepare ext maxExecutionDepth req = .ok job) := by
  obtain ⟨key, release, delay, base, cap, capped, jitter⟩ := well
  have keyed : ¬ (req.idempotencyKey ≠ "" ∧
      (isBlank req.idempotencyKey = true ∨ 256 < byteLen req.idempotencyKey)) := by
    rintro ⟨keyed, bad⟩
    rcases key with unkeyed | ⟨nonblank, short⟩
    · exact keyed unkeyed
    · rw [nonblank] at bad
      rcases bad with blank | long
      · cases blank
      · omega
  rw [validateAndPrepare, if_neg keyed, if_neg fun bad => release bad.1 bad.2, if_neg (by omega),
    if_neg (by rw [effectiveBackoffMax_lt_iff]; omega),
    if_neg (isNan_or_outside_iff.not.mpr (not_not.mpr jitter))]
  by_cases deep : maxExecutionDepth < req.suppliedDepth
  · exact .inl ⟨deep, _, if_pos deep⟩
  · exact .inr ⟨not_lt.mp deep, _, if_neg deep⟩

end Validation

/-- **What a validated request becomes.** -/
theorem validateAndPrepare_eq {maxExecutionDepth : ℕ}
    (ok : validateAndPrepare ext maxExecutionDepth req = .ok job) :
    ∃ normalized : AddJobRequest, normalized = { req with
        retryBackoffMaxMs := effectiveBackoffMax req.retryBackoffMs req.retryBackoffMaxMs
        maxAttempts := if req.maxAttempts = 0 then 3 else req.maxAttempts
        metadata := some (req.metadata.getD {}) } ∧
      job = (normalized,
        if req.idempotencyKey = "" then none else some (ext.encodeToVec normalized)) := by
  unfold validateAndPrepare at ok
  simp only [guard_eq_ok] at ok
  obtain ⟨-, -, -, -, -, -, done⟩ := ok
  exact ⟨_, rfl, (Except.ok.inj done).symm⟩

/-- A validated request is normalised and carries its own encoding. -/
theorem validateAndPrepare_ok {maxExecutionDepth : ℕ}
    (ok : validateAndPrepare ext maxExecutionDepth req = .ok job) :
    Prepared ext job ∧ job.1.name = req.name ∧ job.1.idempotencyKey = req.idempotencyKey ∧
      (job.2.isSome ↔ req.idempotencyKey ≠ "") := by
  obtain ⟨normalized, rfl, rfl⟩ := validateAndPrepare_eq ok
  refine ⟨⟨⟨rfl, ?_, effectiveBackoffMax_ne_zero _ _⟩, by simp⟩, rfl, rfl, ?_⟩
  · dsimp only
    split <;> omega
  · dsimp only
    split <;> simp_all

/-- An item that is enqueued or answered from its receipt leaves a trace. -/
theorem enqueueOne_trace (prepared : Prepared ext (req, receiptRequest)) (ahead : slot ≤ k)
    (ok : enqueueOne ext service t k db req receiptRequest now = .ok out) :
    out.uuids ≤ k + 2 ∧ ∃ slot' events, slot' ≤ out.uuids ∧
      Trace ext Event.IsIntake True t slot slot' db out.db out.calls events := by
  rcases enqueueOne_refines prepared ahead ok with replay | ⟨row, inserted, claimable, chain⟩
  · obtain ⟨same, silent, unmoved, -⟩ := replay
    rw [same, silent, unmoved]
    exact ⟨by omega, slot, [], ahead, .nil⟩
  · refine ⟨inserted.atMostTwo, _, _, le_rfl, chain, ?_, ?_⟩
    · intro e mem
      simp only [enqueueEvents, List.mem_cons] at mem
      rcases mem with rfl | mem
      · trivial
      · split at mem
        · rw [List.mem_singleton.mp mem]
          trivial
        · cases mem
    · intro _ gauge
      rw [inserted.calls, enqueueEvents]
      cases receiptRequest.isSome <;>
        simp [MetricCall.delta, claimable.unit_eq, receiptUnit, add_comm]

/-- A batch that succeeds has enqueued its first request and then the others. -/
theorem enqueueAll_cons_ok {now : ℤ} {job : AddJobRequest × Option Bytes}
    {rest : List (AddJobRequest × Option Bytes)} {index : ℕ}
    (ok : enqueueAll ext service t now index k db (job :: rest) = .ok batch) :
    ∃ out others, enqueueOne ext service t k db job.1 job.2 now = .ok out ∧
      enqueueAll ext service t now (index + 1) out.uuids out.db rest = .ok others ∧
      batch =
        { responses := out.response :: others.responses
          calls := out.calls ++ others.calls
          db := others.db
          uuids := others.uuids } := by
  obtain ⟨req, receiptRequest⟩ := job
  simp only [enqueueAll] at ok
  split at ok
  · cases ok
  · rename_i out one
    split at ok
    · cases ok
    · rename_i others later
      exact ⟨out, others, one, later, (Except.ok.inj ok).symm⟩

/-- The traces of a batch follow each other. -/
theorem enqueueAll_trace {jobs : List (AddJobRequest × Option Bytes)} {index : ℕ}
    (prepared : ∀ job ∈ jobs, Prepared ext job) (ahead : slot ≤ k)
    (ok : enqueueAll ext service t now index k db jobs = .ok batch) :
    ∃ slot' events, Trace ext Event.IsIntake True t slot slot' db batch.db batch.calls events := by
  induction jobs generalizing index k slot db batch with
  | nil =>
    simp only [enqueueAll, Except.ok.injEq] at ok
    subst ok
    exact ⟨slot, [], .nil⟩
  | cons job rest ih =>
    obtain ⟨out, others, one, later, rfl⟩ := enqueueAll_cons_ok ok
    obtain ⟨-, slot', events, behind, first⟩ :=
      enqueueOne_trace (prepared _ List.mem_cons_self) ahead one
    obtain ⟨slot'', events', second⟩ :=
      ih (fun job mem => prepared job (List.mem_cons_of_mem _ mem)) behind later
    exact ⟨slot'', events ++ events', first.append id second⟩

/-- A batch leaves its events, or nothing that the ledger sees. -/
theorem executeBatch_trace {jobs : List (AddJobRequest × Option Bytes)} {indexPrefix : Bool}
    (prepared : ∀ job ∈ jobs, Prepared ext job)
    (done : executeBatch ext service t clock db jobs indexPrefix = (db', answer)) :
    (db'.ledger t 0 = db.ledger t 0 ∧ ∃ status, answer = .error status) ∨
    ∃ responses calls slot events, answer = .ok (responses, calls) ∧
      Trace ext Event.IsIntake True t 0 slot db db' calls events := by
  rw [executeBatch] at done
  cases ran : enqueueAll ext service t (clock 0) 0 0 db jobs with
  | ok batch =>
    simp only [ran, Prod.mk.injEq] at done
    obtain ⟨rfl, rfl⟩ := done
    obtain ⟨slot, events, trace⟩ := enqueueAll_trace prepared le_rfl ran
    exact .inr ⟨_, _, slot, events, rfl, trace⟩
  | error failure =>
    left
    obtain ⟨index, failure⟩ := failure
    cases failure with
    | status status =>
      simp only [ran, Prod.mk.injEq] at done
      obtain ⟨rfl, rfl⟩ := done
      exact ⟨rfl, _, rfl⟩
    | rejected status record name =>
      simp only [ran, Prod.mk.injEq] at done
      obtain ⟨rfl, rfl⟩ := done
      refine ⟨?_, _, rfl⟩
      rw [recordRejection]
      split <;> rfl

/-- **`AddJob`** is refused and leaves the books alone, or leaves a trace. -/
theorem enqueue_trace (done : enqueue ext service t clock db req = (db', answer)) :
    (db'.ledger t 0 = db.ledger t 0 ∧ ∃ status, answer = .error status) ∨
    ∃ responses calls slot events, answer = .ok (responses, calls) ∧
      Trace ext Event.IsIntake True t 0 slot db db' calls events := by
  rw [enqueue] at done
  cases valid : validateAndPrepare ext service.maxExecutionDepth req with
  | error status =>
    simp only [valid, Prod.mk.injEq] at done
    exact .inl ⟨by rw [done.1], status, done.2.symm⟩
  | ok job =>
    simp only [valid] at done
    refine executeBatch_trace ?_ done
    intro other mem
    rw [List.mem_singleton.mp mem]
    exact (validateAndPrepare_ok valid).1

/-- What a list of requests is prepared to comes from its members. -/
theorem mem_of_mapM_ok {maxExecutionDepth : ℕ} {jobs : List (AddJobRequest × Option Bytes)}
    (ok : requests.mapM (validateAndPrepare ext maxExecutionDepth) = .ok jobs) (mem : job ∈ jobs) :
    ∃ req ∈ requests, validateAndPrepare ext maxExecutionDepth req = .ok job := by
  induction requests generalizing jobs with
  | nil =>
    cases ok
    cases mem
  | cons req rest ih =>
    simp only [List.mapM_cons, bind_eq_ok] at ok
    obtain ⟨first, valid, others, prepared, same⟩ := ok
    cases same
    rcases List.mem_cons.mp mem with rfl | later
    · exact ⟨req, List.mem_cons_self, valid⟩
    · obtain ⟨other, here, from_⟩ := ih prepared later
      exact ⟨other, List.mem_cons_of_mem _ here, from_⟩

theorem mapM_validate_ok {maxExecutionDepth : ℕ} {jobs : List (AddJobRequest × Option Bytes)}
    (ok : requests.mapM (validateAndPrepare ext maxExecutionDepth) = .ok jobs) :
    ∀ job ∈ jobs, Prepared ext job := by
  intro job mem
  obtain ⟨req, -, valid⟩ := mem_of_mapM_ok ok mem
  exact (validateAndPrepare_ok valid).1

/-- **`AddJobBulk`**, likewise. -/
theorem enqueueBulk_trace (done : enqueueBulk ext service t clock db requests = (db', answer)) :
    (db'.ledger t 0 = db.ledger t 0 ∧ ∃ status, answer = .error status) ∨
    ∃ responses calls slot events, answer = .ok (responses, calls) ∧
      Trace ext Event.IsIntake True t 0 slot db db' calls events := by
  simp only [enqueueBulk] at done
  split at done
  · cases done
    exact .inl ⟨rfl, _, rfl⟩
  split at done
  · cases done
    exact .inl ⟨rfl, _, rfl⟩
  cases valid : requests.mapM (validateAndPrepare ext service.maxExecutionDepth) with
  | error status =>
    simp only [valid, Prod.mk.injEq] at done
    exact .inl ⟨by rw [done.1], status, done.2.symm⟩
  | ok jobs =>
    simp only [valid] at done
    exact executeBatch_trace (mapM_validate_ok valid) done

/-! ## Scheduler ticks -/

/-- Every scheduler record has a next run. -/
def Ledger.SchedulersActive (l : Ledger) : Prop :=
  ∀ id row, l.jobSchedulers id = some row → row.nextRunAt.isSome

/-- No event leaves a scheduler without its next run. -/
theorem Step.schedulersActive {l l' : Ledger} {e : Event} (step : Step ext l e l')
    (active : l.SchedulersActive) : l'.SchedulersActive := by
  obtain ⟨enabled, rfl⟩ := step
  intro id row found
  simp only [Ledger.apply] at found
  cases e with
  | schedulerStored stored old =>
    simp only [Event.schedulerAfter] at found
    split at found
    · cases found
      exact enabled.2
    · exact active id row found
  | schedulerDropped dropped old =>
    simp only [Event.schedulerAfter] at found
    split at found
    · cases found
    · exact active id row found
  | _ => exact active id row found

/-- Every scheduler record of a database has a next run. -/
def Db.SchedulersActive (db : Db) : Prop := (db.ledger 0 0).SchedulersActive

theorem Trace.schedulersActive {kind : Event → Prop} {safe : Prop} {events : List Event}
    (trace : Trace ext kind safe t k slot db db' calls events) (active : db.SchedulersActive) :
    db'.SchedulersActive := by
  have reached : (db'.ledger t slot).SchedulersActive :=
    Chain.preserves (R := Step ext) Step.schedulersActive trace.chain active
  exact reached

/-- Advancing a record is one event, or none when the record is gone. -/
theorem advanceScheduler_trace (ext : Externals) (t k : ℕ) (db : Db) (id : String) (next : ℤ)
    (jobId : JobId) (now : ℤ) :
    ∃ events, Trace ext Event.IsIntake db.SchedulersActive t k k db
      (advanceScheduler db id next jobId now) [] events := by
  rw [advanceScheduler]
  cases found : db.jobSchedulers.find? id with
  | none =>
    rw [Table.modify_of_not_has (Table.not_has_iff.mpr found)]
    exact ⟨[], .nil⟩
  | some row =>
    have here := Table.key_of_find? found
    refine ⟨_, .single ⟨?_, ledger_schedulerModified _ found⟩, by simp [Event.IsIntake], ?_⟩
    · exact ⟨by simpa [Db.ledger, here] using found, rfl⟩
    · intro active gauge
      have scheduled := active id row found
      simp [schedulerUnit, scheduled]

/-- **What a fire is made of**: the job of the record's request, and the advance of
the record to the next occurrence. -/
theorem fireOne_ok {row : JobSchedulerRow}
    (ok : fireOne ext service t k now db row = .ok (db', calls)) :
    ∃ req receiptRequest out next,
      validateAndPrepare ext service.maxExecutionDepth (buildRequest row) =
        .ok (req, receiptRequest) ∧
      enqueueOne ext service t k db req receiptRequest now = .ok out ∧
      nextCronAfter ext now row.cron (row.timezone.getD "") = .ok next ∧
      db' = advanceScheduler out.db row.id next out.response.id now ∧ calls = out.calls := by
  simp only [fireOne, enqueueScheduled] at ok
  split at ok
  · cases ok
  rename_i out scheduled
  split at ok
  · cases ok
  rename_i next found
  cases ok
  split at scheduled
  · cases scheduled
  rename_i req receiptRequest valid
  split at scheduled
  · rename_i produced one
    cases scheduled
    exact ⟨req, receiptRequest, out, next, valid, one, found, rfl, rfl⟩
  · cases scheduled

/-- A fire that commits leaves the trace of its job and its record. -/
theorem fireOne_trace {row : JobSchedulerRow} (ahead : slot ≤ k)
    (ok : fireOne ext service t k now db row = .ok (db', calls)) :
    ∃ slot' events, slot' ≤ k + 2 ∧
      Trace ext Event.IsIntake db.SchedulersActive t slot slot' db db' calls events := by
  obtain ⟨req, receiptRequest, out, next, valid, one, -, rfl, rfl⟩ := fireOne_ok ok
  obtain ⟨few, slot', events, behind, first⟩ :=
    enqueueOne_trace (validateAndPrepare_ok valid).1 ahead one
  obtain ⟨events', second⟩ := advanceScheduler_trace ext t slot' out.db row.id next
    out.response.id now
  refine ⟨slot', events ++ events', behind.trans few, ?_⟩
  have first' := first.weaken (fun _ : db.SchedulersActive => trivial)
  simpa using first'.append first.schedulersActive second

/-- A failed fire leaves no trace; the others follow one another. -/
theorem fireAll_trace {rows : List JobSchedulerRow} {i produced : ℕ} (ahead : slot ≤ 2 * i)
    (done : fireAll ext service t clock i db rows = (produced, db', calls)) :
    ∃ slot' events,
      Trace ext Event.IsIntake db.SchedulersActive t slot slot' db db' calls events := by
  induction rows generalizing i slot db produced db' calls with
  | nil =>
    simp only [fireAll, Prod.mk.injEq] at done
    obtain ⟨-, rfl, rfl⟩ := done
    exact ⟨slot, [], .nil⟩
  | cons row rest ih =>
    simp only [fireAll] at done
    cases fired : fireOne ext service t (2 * i) (clock (i + 1)) db row with
    | error e =>
      simp only [fired] at done
      exact ih (by omega) done
    | ok outcome =>
      obtain ⟨db1, calls1⟩ := outcome
      simp only [fired, Prod.mk.injEq] at done
      obtain ⟨-, rfl, rfl⟩ := done
      obtain ⟨slot1, events1, behind, first⟩ := fireOne_trace ahead fired
      obtain ⟨slot2, events2, second⟩ := ih (i := i + 1) (by omega) rfl
      exact ⟨slot2, events1 ++ events2, first.append first.schedulersActive second⟩

theorem runOnce_trace {batchSize produced : ℕ}
    (done : runOnce ext service t clock db batchSize = (produced, db', calls)) :
    ∃ slot events,
      Trace ext Event.IsIntake db.SchedulersActive t 0 slot db db' calls events :=
  fireAll_trace (Nat.zero_le _) done

/-! ## What every intake keeps -/

/-- A relation between the database before and after that composes and that holds
across every insertion for a request that meets `asks`. -/
structure IntakeRelation (ext : Externals) (service : Service) (t : ℕ)
    (asks : AddJobRequest → Prop) (R : Db → Db → Prop) : Prop where
  refl : ∀ db, R db db
  trans : ∀ {db db' db''}, R db db' → R db' db'' → R db db''
  inserted : ∀ {k db req receiptRequest now out}, asks req →
    insertEnqueued ext service t k db req receiptRequest now = .ok out → R db out.db

namespace IntakeRelation

variable {asks : AddJobRequest → Prop} {R : Db → Db → Prop}

theorem enqueueOne (relation : IntakeRelation ext service t asks R) (asked : asks req)
    (ok : enqueueOne ext service t k db req receiptRequest now = .ok out) : R db out.db := by
  cases receiptRequest with
  | none => exact relation.inserted asked ok
  | some expected =>
    simp only [AnvilMQ.enqueueOne] at ok
    split at ok
    · exact relation.inserted asked ok
    · split at ok <;> cases ok
      exact relation.refl db

theorem enqueueAll (relation : IntakeRelation ext service t asks R) {index : ℕ}
    {jobs : List (AddJobRequest × Option Bytes)} (asked : ∀ job ∈ jobs, asks job.1)
    (ok : enqueueAll ext service t now index k db jobs = .ok batch) : R db batch.db := by
  induction jobs generalizing index k db batch with
  | nil =>
    cases ok
    exact relation.refl db
  | cons job rest ih =>
    obtain ⟨out, others, one, rested, rfl⟩ := enqueueAll_cons_ok ok
    have first := relation.enqueueOne (asked job List.mem_cons_self) one
    have later := ih (fun job mem => asked job (List.mem_cons_of_mem _ mem)) rested
    exact relation.trans first later

/-- A batch that is rolled back leaves at most a record of its rejection. -/
theorem executeBatch (relation : IntakeRelation ext service t asks R)
    (recorded : ∀ db now name record, R db (recordRejection db now name record))
    {jobs : List (AddJobRequest × Option Bytes)} {indexPrefix : Bool}
    (asked : ∀ job ∈ jobs, asks job.1) :
    R db (executeBatch ext service t clock db jobs indexPrefix).1 := by
  rw [AnvilMQ.executeBatch]
  split
  · exact relation.enqueueAll asked ‹_›
  · exact relation.refl db
  · exact recorded _ _ _ _

theorem enqueue (relation : IntakeRelation ext service t asks R)
    (recorded : ∀ db now name record, R db (recordRejection db now name record))
    (asked : ∀ job, validateAndPrepare ext service.maxExecutionDepth req = .ok job → asks job.1) :
    R db (enqueue ext service t clock db req).1 := by
  rw [AnvilMQ.enqueue]
  split
  · exact relation.refl db
  · rename_i job valid
    refine relation.executeBatch recorded fun other mem => ?_
    rw [List.mem_singleton.mp mem]
    exact asked job valid

/-- What every insertion keeps a batch keeps. -/
theorem enqueueBulk (relation : IntakeRelation ext service t asks R)
    (recorded : ∀ db now name record, R db (recordRejection db now name record))
    (asked : ∀ req ∈ requests, ∀ job,
      validateAndPrepare ext service.maxExecutionDepth req = .ok job → asks job.1) :
    R db (enqueueBulk ext service t clock db requests).1 := by
  rw [AnvilMQ.enqueueBulk]
  split
  · exact relation.refl db
  split
  · exact relation.refl db
  split
  · exact relation.refl db
  · rename_i jobs valid
    refine relation.executeBatch recorded fun job mem => ?_
    obtain ⟨req, here, prepared⟩ := mem_of_mapM_ok valid mem
    exact asked req here job prepared

/-- A tick keeps what its fires and the advance of their records keep. -/
theorem fireAll (relation : IntakeRelation ext service t asks R)
    (advanced : ∀ db id next jobId now, R db (advanceScheduler db id next jobId now))
    {rows : List JobSchedulerRow}
    (asked : ∀ row ∈ rows, ∀ job, validateAndPrepare ext service.maxExecutionDepth
      (buildRequest row) = .ok job → asks job.1) (i : ℕ) (db : Db) :
    R db (fireAll ext service t clock i db rows).2.1 := by
  induction rows generalizing i db with
  | nil => exact relation.refl db
  | cons row rest ih =>
    have later := ih fun row mem => asked row (List.mem_cons_of_mem _ mem)
    simp only [AnvilMQ.fireAll]
    split
    · exact later (i + 1) db
    · rename_i db₁ calls fired
      obtain ⟨req, receiptRequest, out, next, valid, one, -, rfl, -⟩ := fireOne_ok fired
      have produced := relation.enqueueOne (asked row List.mem_cons_self _ valid) one
      exact relation.trans produced (relation.trans (advanced _ _ _ _ _) (later (i + 1) _))

end IntakeRelation

end AnvilMQ
