import AnvilMQ.Properties.Reasons

/-!
# Recorded rejections

An enqueue that is refused on admission leaves a row in `enqueue_rejections`.  The refusals are
made in two places, though, and by three callers: a request that supplies too great a depth is
turned away before the transaction opens, and a scheduler fire is rolled back by a loop that keeps
no record.  Neither leaves a row.

The refusal that is due is a function of the call and the state it meets (`EnqueueCall.refusal`);
the requests of a batch are judged one after the other, each in the state the accepted ones before
it leave.
-/

namespace AnvilMQ

open Rust Relational Transition

/-! ## Calls and their refusals -/

section Batches

variable (ext : Externals) (service : Service) (t : ℕ) (now : ℤ)

/-- The refusal a batch stops at: of the first request with a reason, in the state the requests
before it leave.  A request that fails for anything else ends the batch without one. -/
def batchRefusal : ℕ → Db → List AddJobRequest → Option Refusal
  | _, _, [] => none
  | k, db, req :: rest =>
    match req.reason ext service db now (ext.newV4 t (k + 1)) with
    | some kind => some (kind, req.name)
    | none =>
      match validateAndPrepare ext service.maxExecutionDepth req with
      | .error _ => none
      | .ok job =>
        match enqueueOne ext service t k db job.1 job.2 now with
        | .error _ => none
        | .ok out => batchRefusal out.uuids out.db rest

end Batches

/-- What a request that is turned away is refused for: the depth, unless it is not in order. -/
def AddJobRequest.earlyRefusal (req : AddJobRequest) : Option Refusal :=
  if req.WellFormed then some (.circuitBreaker, req.name) else none

/-- The error of a result. -/
def errorOf {α : Type} : Except Status α → Option Status
  | .ok _ => none
  | .error status => some status

/-- One use of the admission core: a request, or one fire of a scheduler tick, with
the slot and the clock reading the tick fires it at. -/
inductive EnqueueCall
  | addJob (clock : Clock) (req : AddJobRequest)
  | addJobBulk (clock : Clock) (requests : List AddJobRequest)
  | fire (slot : ℕ) (now : ℤ) (row : JobSchedulerRow)

namespace EnqueueCall

/-- The first slot of the UUID generator the call may use. -/
def slot : EnqueueCall → ℕ
  | fire slot _ _ => slot
  | _ => 0

/-- The clock reading of the call. -/
def now : EnqueueCall → ℤ
  | addJob clock _ => clock 0
  | addJobBulk clock _ => clock 0
  | fire _ now _ => now

/-- The requests the call brings to the core; none when its size is refused. -/
def requests : EnqueueCall → List AddJobRequest
  | addJob _ req => [req]
  | addJobBulk _ requests => if maxBulkBatchSize < requests.length then [] else requests
  | fire _ _ row => [buildRequest row]

variable (ext : Externals) (service : Service) (t : ℕ)

/-- The first request of the call that is turned away before the transaction. -/
def turnedAway (call : EnqueueCall) : Option AddJobRequest :=
  call.requests.find? fun req => decide ¬ req.Passes service.maxExecutionDepth

/-- **The refusal that is due**: for its depth, if a request in order is turned away, and the one
the batch stops at, if none is. -/
def refusal (db : Db) (call : EnqueueCall) : Option Refusal :=
  match call.turnedAway service with
  | some req => req.earlyRefusal
  | none => batchRefusal ext service t call.now call.slot db call.requests

/-- The database the call leaves. -/
def after (db : Db) : EnqueueCall → Db
  | addJob clock req => (enqueue ext service t clock db req).1
  | addJobBulk clock requests => (enqueueBulk ext service t clock db requests).1
  | fire slot now row =>
    match fireOne ext service t slot now db row with
    | .ok (db, _) => db
    | .error _ => db

/-- The status the core fails the call with, if it does. -/
def error (db : Db) : EnqueueCall → Option Status
  | addJob clock req => errorOf (enqueue ext service t clock db req).2
  | addJobBulk clock requests => errorOf (enqueueBulk ext service t clock db requests).2
  | fire slot now row => errorOf (enqueueScheduled ext service t slot db (buildRequest row) now)

/-- **The calls that are recorded as they should be.** -/
structure Audited (db : Db) (call : EnqueueCall) : Prop where
  /-- No request is turned away for its depth alone. -/
  early : ∀ req, call.turnedAway service = some req → ¬ req.WellFormed
  /-- The facet of a fire is not full, and neither is the chain of its fresh trace; with the clock
  out of range the chain is not looked at. -/
  fired : ∀ slot now row, call = fire slot now row → (buildRequest row).WellFormed →
    ¬ FacetFull ext db now (row.rateLimitFacet.getD "") ∧
      (checkedAdd now 0 ≠ none → ¬ ChainFull service db (ext.newV4 t (slot + 1)))

end EnqueueCall

/-- `db'` is `db` with one more rejection, for this reason and of this job. -/
def AddsRejection (db db' : Db) (refusal : Refusal) : Prop :=
  ∃ row rejections, row.kind = refusal.1 ∧ row.name = refusal.2 ∧
    db.enqueueRejections.insert row = some rejections ∧
    db' = { db with enqueueRejections := rejections, rejectionSeq := row.id }

/-- What a call with this refusal should leave: one record of the refusal and no
other change, or no record when there is no refusal. -/
def LeavesRecord (db db' : Db) : Option Refusal → Prop
  | some refusal => AddsRejection db db' refusal
  | none => db'.enqueueRejections = db.enqueueRejections

/-- How a call with this refusal is answered: with the code of the reason, or with no code that
only a refusal has. -/
def AnswersRefusal (error : Option Status) : Option Refusal → Prop
  | some refusal => ∃ status, error = some status ∧ status.code = refusal.1.code
  | none => ∀ status, error = some status → ¬ status.code.OfRefusal

/-- **Every admission rejection is recorded once**, for one call. -/
def RecordedOnce (ext : Externals) (service : Service) (t : ℕ) (db : Db) (call : EnqueueCall) :
    Prop :=
  LeavesRecord db (call.after ext service t db) (call.refusal ext service t db)

variable {ext : Externals} {service : Service} {t k : ℕ} {db db' : Db} {req : AddJobRequest}
  {now : ℤ} {requests : List AddJobRequest} {jobs : List (AddJobRequest × Option Bytes)}
  {row : JobSchedulerRow}

/-! ## The sequence of the records -/

/-- The ids of the records are those the sequence has given out. -/
def Db.Numbered (db : Db) : Prop :=
  ∀ id, db.enqueueRejections.Has id → id ≤ db.rejectionSeq

theorem insertEnqueued_rejections {receiptRequest : Option Bytes} {out : EnqueueOutcome}
    (ok : insertEnqueued ext service t k db req receiptRequest now = .ok out) :
    out.db.enqueueRejections = db.enqueueRejections ∧ out.db.rejectionSeq = db.rejectionSeq :=
  ⟨congrArg Margins.enqueueRejections (insertEnqueued_margins ok),
    congrArg Margins.rejectionSeq (insertEnqueued_margins ok)⟩

/-- An enqueue that succeeds leaves no record. -/
theorem intake_rejections : IntakeRelation ext service t (fun _ => True) fun db db' =>
    db'.enqueueRejections = db.enqueueRejections ∧ db'.rejectionSeq = db.rejectionSeq where
  refl := fun _ => ⟨rfl, rfl⟩
  trans := fun first second => ⟨second.1.trans first.1, second.2.trans first.2⟩
  inserted := fun _ => insertEnqueued_rejections

/-- The next number of the sequence is free, so the record is written. -/
theorem Db.Numbered.records (numbered : db.Numbered) (now : ℤ) (name : String)
    (record : RejectionRecord) :
    AddsRejection db (recordRejection db now name record) (record.kind, name) := by
  have absent : ¬ db.enqueueRejections.Has (db.rejectionSeq + 1) := fun has => by
    have := numbered _ has
    omega
  rw [recordRejection]
  split
  · rename_i rejections inserted
    exact ⟨_, rejections, rfl, rfl, inserted, rfl⟩
  · rename_i conflict
    exact absurd (Table.insert_eq_none.mp conflict) absent

theorem Db.Numbered.of_same (rejections : db'.enqueueRejections = db.enqueueRejections)
    (seq : db'.rejectionSeq = db.rejectionSeq) (numbered : db.Numbered) : db'.Numbered := by
  intro id has
  rw [rejections] at has
  rw [seq]
  exact numbered id has

theorem Db.Numbered.recordRejection (numbered : db.Numbered) (now : ℤ) (name : String)
    (record : RejectionRecord) : (recordRejection db now name record).Numbered := by
  rw [AnvilMQ.recordRejection]
  split
  · rename_i rejections inserted
    intro id has
    rcases (Table.has_of_insert inserted).mp has with old | rfl
    · exact Nat.le_succ_of_le (numbered id old)
    · exact le_rfl
  · exact numbered

/-- The records of a run are numbered. -/
theorem numbered_after (run : List Op) : (dbAfter ext service run).Numbered := by
  induction run using List.reverseRecOn with
  | nil =>
    intro id has
    cases has
  | append_singleton run op ih =>
    by_cases enqueues : op.Enqueues
    · have relation : IntakeRelation ext service run.length (fun _ => True)
          fun db db' => db.Numbered → db'.Numbered :=
        ⟨fun _ => id, fun first second numbered => second (first numbered), fun _ ok =>
          .of_same (insertEnqueued_rejections ok).1 (insertEnqueued_rejections ok).2⟩
      rw [dbAfter_concat, servedNext]
      exact relation.serve (fun _ now name record numbered =>
        numbered.recordRejection now name record) (fun _ _ _ _ _ => id) enqueues ih
    · have seq := rejectionSeq_after ext service run enqueues
      by_cases sweeps : ∃ plan clock cfg, op = .sweep plan clock cfg
      · obtain ⟨plan, clock, cfg, rfl⟩ := sweeps
        intro id has
        rw [seq]
        rw [dbAfter_concat, servedNext, serve] at has
        exact ih id (Table.DeletesOnly.has_of (sweep_rejections plan cfg) has)
      · have same := rejections_after ext service run enqueues
          fun plan clock cfg here => sweeps ⟨plan, clock, cfg, here⟩
        exact ih.of_same same seq

/-! ## Batches -/

theorem leavesRecord_self {refusal : Option Refusal} :
    LeavesRecord db db refusal ↔ refusal = none := by
  cases refusal with
  | none => simp [LeavesRecord]
  | some refusal =>
    refine iff_of_false ?_ (Option.some_ne_none refusal)
    rintro ⟨row, rejections, -, -, inserted, same⟩
    have grown := congrArg List.length (Table.rows_of_insert inserted)
    have kept : db.enqueueRejections = rejections := congrArg Db.enqueueRejections same
    rw [← kept, List.length_append, List.length_singleton] at grown
    omega

/-- A batch ends as the request it stops at is judged. -/
theorem enqueueAll_judged
    (valid : requests.mapM (validateAndPrepare ext service.maxExecutionDepth) = .ok jobs) (t : ℕ)
    (now : ℤ) (index k : ℕ) (db : Db) :
    Judged ((enqueueAll ext service t now index k db jobs).mapError Prod.snd)
      (batchRefusal ext service t now k db requests) := by
  induction requests generalizing jobs index k db with
  | nil =>
    cases valid
    exact .of_ok _
  | cons req rest ih =>
    simp only [List.mapM_cons, bind_eq_ok] at valid
    obtain ⟨job, first, others, later, same⟩ := valid
    cases same
    have judged := enqueueOne_judged first t k db now
    rw [batchRefusal, enqueueAll, first]
    cases due : req.reason ext service db now (ext.newV4 t (k + 1)) with
    | some kind =>
      rw [due] at judged
      obtain ⟨status, record, failed, isKind, code⟩ := judged
      rw [failed]
      exact ⟨status, record, rfl, isKind, code⟩
    | none =>
      rw [due] at judged
      dsimp only
      cases one : enqueueOne ext service t k db job.1 job.2 now with
      | error failure =>
        obtain ⟨status, rfl, plain⟩ := judged failure one
        exact .of_status plain
      | ok out =>
        have tail := ih later (index + 1) out.uuids out.db
        dsimp only
        cases ran : enqueueAll ext service t now (index + 1) out.uuids out.db others with
        | error failure =>
          rw [ran] at tail
          exact tail
        | ok batch =>
          rw [ran] at tail
          exact tail.of_accepted _

/-- **A batch leaves the record of the request it stops at**, and answers for it. -/
theorem executeBatch_judged (numbered : db.Numbered) {clock : Clock}
    (valid : requests.mapM (validateAndPrepare ext service.maxExecutionDepth) = .ok jobs)
    (indexPrefix : Bool) :
    LeavesRecord db (executeBatch ext service t clock db jobs indexPrefix).1
        (batchRefusal ext service t (clock 0) 0 db requests) ∧
      AnswersRefusal (errorOf (executeBatch ext service t clock db jobs indexPrefix).2)
        (batchRefusal ext service t (clock 0) 0 db requests) := by
  have judged := enqueueAll_judged valid t (clock 0) 0 0 db
  rw [executeBatch]
  cases due : batchRefusal ext service t (clock 0) 0 db requests with
  | some refusal =>
    rw [due] at judged
    obtain ⟨status, record, failed, isKind, code⟩ := judged
    cases ran : enqueueAll ext service t (clock 0) 0 0 db jobs with
    | ok batch =>
      rw [ran] at failed
      cases failed
    | error indexed =>
      obtain ⟨i, failure⟩ := indexed
      rw [ran] at failed
      cases failed
      refine ⟨?_, _, rfl, ?_⟩
      · have recorded := numbered.records (clock 0) refusal.2 record
        rwa [isKind] at recorded
      · cases indexPrefix <;> exact code
  | none =>
    rw [due] at judged
    cases ran : enqueueAll ext service t (clock 0) 0 0 db jobs with
    | ok batch =>
      refine ⟨(intake_rejections.enqueueAll (fun _ _ => trivial) ran).1, ?_⟩
      rintro status ⟨⟩
    | error indexed =>
      obtain ⟨i, failure⟩ := indexed
      rw [ran] at judged
      obtain ⟨status, rfl, plain⟩ := judged failure rfl
      refine ⟨rfl, ?_⟩
      rintro answer ⟨⟩
      exact plain

/-! ## Requests that are turned away -/

/-- A request that is turned away is answered for its depth, or as invalid. -/
theorem validate_turnedAway (ext : Externals) (away : ¬ req.Passes service.maxExecutionDepth) :
    ∃ status, validateAndPrepare ext service.maxExecutionDepth req = .error status ∧
      AnswersRefusal (some status) req.earlyRefusal := by
  rw [AddJobRequest.earlyRefusal]
  by_cases well : req.WellFormed
  · rw [if_pos well]
    rcases validateAndPrepare_of_wellFormed well with ⟨-, message, failed⟩ | ⟨within, -⟩
    · exact ⟨_, failed, _, rfl, rfl⟩
    · exact absurd ⟨well, within⟩ away
  · rw [if_neg well]
    obtain ⟨message, failed⟩ := validateAndPrepare_of_not_wellFormed well
    refine ⟨_, failed, ?_⟩
    rintro status ⟨⟩ (code | code) <;> cases code

/-- Requests of which none is turned away enter the transaction together. -/
theorem mapM_validate_of_none (ext : Externals)
    (passed : requests.find? (fun req => decide ¬ req.Passes service.maxExecutionDepth) = none) :
    ∃ jobs, requests.mapM (validateAndPrepare ext service.maxExecutionDepth) = .ok jobs := by
  induction requests with
  | nil => exact ⟨[], rfl⟩
  | cons req rest ih =>
    rw [List.find?_eq_none] at passed ih
    have passes : req.Passes service.maxExecutionDepth := by
      simpa using passed req List.mem_cons_self
    obtain ⟨jobs, others⟩ := ih fun req mem => passed req (List.mem_cons_of_mem _ mem)
    rcases validateAndPrepare_of_wellFormed passes.1 with ⟨deep, -⟩ | ⟨-, job, valid⟩
    · exact absurd passes.2 (not_le.mpr deep)
    · refine ⟨job :: jobs, ?_⟩
      rw [List.mapM_cons, valid, others]
      rfl

/-- Otherwise the first of them that is turned away is answered. -/
theorem mapM_validate_of_some (ext : Externals)
    (away : requests.find? (fun req => decide ¬ req.Passes service.maxExecutionDepth) =
      some req) :
    ∃ status, requests.mapM (validateAndPrepare ext service.maxExecutionDepth) = .error status ∧
      AnswersRefusal (some status) req.earlyRefusal := by
  obtain ⟨fails, before, rest, rfl, passed⟩ := List.find?_eq_some_iff_append.mp away
  have none_before : before.find? (fun req => decide ¬ req.Passes service.maxExecutionDepth) =
      none := List.find?_eq_none.mpr fun earlier mem => by simpa using passed earlier mem
  obtain ⟨jobs, valid⟩ := mapM_validate_of_none ext none_before
  obtain ⟨status, failed, answers⟩ := validate_turnedAway ext (of_decide_eq_true fails)
  refine ⟨status, ?_, answers⟩
  rw [List.mapM_append, valid, List.mapM_cons, failed]
  rfl

section Calls

variable {call : EnqueueCall}

theorem ok_of_mapM_singleton
    (valid : [req].mapM (validateAndPrepare ext service.maxExecutionDepth) = .ok jobs) :
    ∃ job, validateAndPrepare ext service.maxExecutionDepth req = .ok job ∧ jobs = [job] := by
  rw [List.mapM_cons, bind_eq_ok] at valid
  obtain ⟨job, first, done⟩ := valid
  cases done
  exact ⟨job, first, rfl⟩

theorem error_of_mapM_singleton {status : Status}
    (failed : [req].mapM (validateAndPrepare ext service.maxExecutionDepth) = .error status) :
    validateAndPrepare ext service.maxExecutionDepth req = .error status := by
  rw [List.mapM_cons, bind_eq_error] at failed
  rcases failed with failed | ⟨job, -, done⟩
  · exact failed
  · cases done

/-- A call that is turned away changes nothing. -/
theorem EnqueueCall.of_turnedAway (away : call.turnedAway service = some req) :
    call.after ext service t db = db ∧
      AnswersRefusal (call.error ext service t db) req.earlyRefusal := by
  obtain ⟨status, failed, answers⟩ := mapM_validate_of_some ext away
  cases call with
  | addJob clock req =>
    rw [EnqueueCall.after, EnqueueCall.error, enqueue, error_of_mapM_singleton failed]
    exact ⟨rfl, answers⟩
  | addJobBulk clock requests =>
    rw [EnqueueCall.requests] at failed
    rw [EnqueueCall.after, EnqueueCall.error, enqueueBulk]
    by_cases long : maxBulkBatchSize < requests.length
    · rw [if_pos long] at failed
      cases failed
    · rw [if_neg long] at failed
      have nonempty : requests ≠ [] := by
        rintro rfl
        cases failed
      rw [if_neg nonempty, if_neg long, failed]
      exact ⟨rfl, answers⟩
  | fire slot now row =>
    rw [EnqueueCall.after, EnqueueCall.error, fireOne, enqueueScheduled,
      error_of_mapM_singleton failed]
    exact ⟨rfl, answers⟩

/-- Such a call is as it should be when the request is not in order. -/
theorem EnqueueCall.recordedOnce_of_turnedAway (away : call.turnedAway service = some req) :
    RecordedOnce ext service t db call ↔ call.Audited ext service t db := by
  have unrefused : req.earlyRefusal = none ↔ ¬ req.WellFormed := by
    rw [AddJobRequest.earlyRefusal]
    split <;> simp [*]
  rw [RecordedOnce, (of_turnedAway away).1, leavesRecord_self, refusal, away]
  refine unrefused.trans ⟨fun bad => ⟨?_, ?_⟩, fun audited => audited.early req away⟩
  · intro other same
    cases away.symm.trans same
    exact bad
  · -- the request of a fire is the only one that can be turned away
    rintro slot now row rfl well
    cases List.mem_singleton.mp (List.mem_of_find?_eq_some away)
    exact absurd well bad

/-! ## Calls that get to their transaction -/

theorem EnqueueCall.refusal_of_none (passed : call.turnedAway service = none) :
    call.refusal ext service t db =
      batchRefusal ext service t call.now call.slot db call.requests := by
  rw [refusal, passed]

/-- What is asked of a call that is no fire and not turned away. -/
theorem EnqueueCall.audited_of_none (passed : call.turnedAway service = none)
    (other : ∀ slot now row, call ≠ fire slot now row) : call.Audited ext service t db where
  early := by
    intro req away
    cases passed.symm.trans away
  fired := fun slot now row fires => absurd fires (other slot now row)

theorem addJob_judged (numbered : db.Numbered) {clock : Clock}
    (passed : (EnqueueCall.addJob clock req).turnedAway service = none) :
    RecordedOnce ext service t db (.addJob clock req) ∧
      AnswersRefusal ((EnqueueCall.addJob clock req).error ext service t db)
        ((EnqueueCall.addJob clock req).refusal ext service t db) := by
  obtain ⟨jobs, valid⟩ := mapM_validate_of_none ext passed
  obtain ⟨job, first, rfl⟩ := ok_of_mapM_singleton valid
  rw [RecordedOnce, EnqueueCall.refusal_of_none passed, EnqueueCall.after, EnqueueCall.error,
    enqueue, first]
  exact executeBatch_judged numbered valid false

/-- A batch that is not turned away is recorded and answered as its requests are judged. -/
theorem addJobBulk_judged (numbered : db.Numbered) {clock : Clock}
    (passed : (EnqueueCall.addJobBulk clock requests).turnedAway service = none) :
    RecordedOnce ext service t db (.addJobBulk clock requests) ∧
      AnswersRefusal ((EnqueueCall.addJobBulk clock requests).error ext service t db)
        ((EnqueueCall.addJobBulk clock requests).refusal ext service t db) := by
  have invalid : ∀ message, AnswersRefusal (some (Status.invalidArgument message)) none := by
    rintro message status ⟨⟩ (code | code) <;> cases code
  obtain ⟨jobs, valid⟩ := mapM_validate_of_none ext passed
  rw [RecordedOnce, EnqueueCall.refusal_of_none passed, EnqueueCall.after, EnqueueCall.error,
    enqueueBulk]
  rw [EnqueueCall.requests] at valid ⊢
  by_cases nothing : requests = []
  · subst nothing
    exact ⟨rfl, invalid _⟩
  by_cases long : maxBulkBatchSize < requests.length
  · rw [if_neg nothing, if_pos long, if_pos long]
    exact ⟨rfl, invalid _⟩
  · rw [if_neg long] at valid
    rw [if_neg nothing, if_neg long, if_neg long, valid]
    exact executeBatch_judged numbered valid true

/-- **What a fire can be refused for**: its facet, or the chain of its fresh trace. -/
theorem reason_buildRequest_eq_none {fresh : String} :
    (buildRequest row).reason ext service db now fresh = none ↔
      ¬ FacetFull ext db now (row.rateLimitFacet.getD "") ∧
        (checkedAdd now 0 ≠ none → ¬ ChainFull service db fresh) := by
  have unfound : ¬ (buildRequest row).HasReason ext service db now fresh .parentNotFound :=
    fun missing => missing.1 rfl
  have wrong : ¬ (buildRequest row).HasReason ext service db now fresh .inconsistentDepth :=
    fun wrong => wrong.1 rfl
  have deep : ¬ (buildRequest row).HasReason ext service db now fresh .circuitBreaker :=
    not_lt.mpr (Int.natCast_nonneg service.maxExecutionDepth)
  have facet : (buildRequest row).HasReason ext service db now fresh .ingressVelocity ↔
      FacetFull ext db now (row.rateLimitFacet.getD "") := Iff.rfl
  have chain : (buildRequest row).HasReason ext service db now fresh .chainQuarantine ↔
      ChainFull service db fresh := Iff.rfl
  have delay : (buildRequest row).delayMs = 0 := rfl
  rw [AddJobRequest.reason, if_neg (fun keyed => keyed.1 rfl), AddJobRequest.admissionReason]
  by_cases full : FacetFull ext db now (row.rateLimitFacet.getD "")
  · simp [facet, full]
  · by_cases overflows : checkedAdd now 0 = none
    · simp [facet, full, delay, overflows]
    · simp [facet, full, delay, overflows, unfound, wrong, deep, chain]

theorem batchRefusal_singleton :
    batchRefusal ext service t now k db [req] =
      (req.reason ext service db now (ext.newV4 t (k + 1))).map (·, req.name) := by
  rw [batchRefusal]
  cases req.reason ext service db now (ext.newV4 t (k + 1)) with
  | some kind => rfl
  | none =>
    dsimp only
    split
    · rfl
    · split <;> rfl

/-- A fire whose enqueue fails leaves the database as it was. -/
theorem fireOne_of_error {slot : ℕ} {status : Status}
    (failed : enqueueScheduled ext service t slot db (buildRequest row) now = .error status) :
    (EnqueueCall.fire slot now row).after ext service t db = db := by
  rw [EnqueueCall.after, fireOne, failed]

/-- One whose enqueue succeeds leaves the rejections as they were. -/
theorem fireOne_rejections {slot : ℕ} :
    ((EnqueueCall.fire slot now row).after ext service t db).enqueueRejections =
      db.enqueueRejections := by
  rw [EnqueueCall.after]
  split
  · rename_i fired
    obtain ⟨req, receiptRequest, out, next, -, one, -, rfl, -⟩ := fireOne_ok fired
    exact (intake_rejections.enqueueOne trivial one).1
  · rfl

/-- A fire that is not turned away is recorded exactly when it is audited. -/
theorem fire_judged {slot : ℕ} {now : ℤ} {row : JobSchedulerRow}
    (passed : (EnqueueCall.fire slot now row).turnedAway service = none) :
    (RecordedOnce ext service t db (.fire slot now row) ↔
      (EnqueueCall.fire slot now row).Audited ext service t db) ∧
      AnswersRefusal ((EnqueueCall.fire slot now row).error ext service t db)
        ((EnqueueCall.fire slot now row).refusal ext service t db) := by
  obtain ⟨jobs, valid⟩ := mapM_validate_of_none ext passed
  obtain ⟨job, first, rfl⟩ := ok_of_mapM_singleton valid
  have judged := enqueueOne_judged first t slot db now
  have well : (buildRequest row).WellFormed := by
    have passes := List.find?_eq_none.mp passed (buildRequest row) List.mem_cons_self
    rw [decide_eq_true_iff, not_not] at passes
    exact passes.1
  have audited : (EnqueueCall.fire slot now row).Audited ext service t db ↔
      (buildRequest row).reason ext service db now (ext.newV4 t (slot + 1)) = none := by
    rw [reason_buildRequest_eq_none]
    refine ⟨fun audited => audited.fired slot now row rfl well, fun free => ⟨?_, ?_⟩⟩
    · intro req away
      cases passed.symm.trans away
    · rintro _ _ _ ⟨⟩ -
      exact free
  have due : (EnqueueCall.fire slot now row).refusal ext service t db =
      ((buildRequest row).reason ext service db now (ext.newV4 t (slot + 1))).map
        (·, (buildRequest row).name) :=
    (EnqueueCall.refusal_of_none passed).trans batchRefusal_singleton
  rw [RecordedOnce, due, audited, EnqueueCall.error, enqueueScheduled, first]
  cases reason : (buildRequest row).reason ext service db now (ext.newV4 t (slot + 1)) with
  | some kind =>
    rw [reason] at judged
    obtain ⟨status, record, failed, -, code⟩ := judged
    have scheduled : enqueueScheduled ext service t slot db (buildRequest row) now =
        .error status := by
      rw [enqueueScheduled, first]
      dsimp only
      rw [failed]
      rfl
    rw [fireOne_of_error scheduled, leavesRecord_self]
    dsimp only
    rw [failed]
    exact ⟨by simp, status, rfl, code⟩
  | none =>
    rw [reason] at judged
    refine ⟨iff_of_true fireOne_rejections rfl, ?_⟩
    dsimp only
    cases one : enqueueOne ext service t slot db job.1 job.2 now with
    | ok out => rintro status ⟨⟩
    | error failure =>
      obtain ⟨status, rfl, plain⟩ := judged failure one
      rintro answer ⟨⟩
      exact plain

end Calls

/-- **Every call is answered with the refusal that is due, and exactly the audited calls are
recorded as they should be**, in every reachable state. -/
theorem recorded_once_iff (ext : Externals) (service : Service) (run : List Op)
    (call : EnqueueCall) :
    AnswersRefusal (call.error ext service run.length (dbAfter ext service run))
        (call.refusal ext service run.length (dbAfter ext service run)) ∧
      (RecordedOnce ext service run.length (dbAfter ext service run) call ↔
        call.Audited ext service run.length (dbAfter ext service run)) := by
  cases passed : call.turnedAway service with
  | some req =>
    refine ⟨?_, EnqueueCall.recordedOnce_of_turnedAway passed⟩
    rw [EnqueueCall.refusal, passed]
    exact (EnqueueCall.of_turnedAway passed).2
  | none =>
    cases call with
    | addJob clock req =>
      obtain ⟨recorded, answered⟩ := addJob_judged (numbered_after run) passed
      exact ⟨answered, iff_of_true recorded (EnqueueCall.audited_of_none passed
        fun _ _ _ fires => EnqueueCall.noConfusion fires)⟩
    | addJobBulk clock requests =>
      obtain ⟨recorded, answered⟩ := addJobBulk_judged (numbered_after run) passed
      exact ⟨answered, iff_of_true recorded (EnqueueCall.audited_of_none passed
        fun _ _ _ fires => EnqueueCall.noConfusion fires)⟩
    | fire slot now row => exact (fire_judged passed).symm

/-! ## Samples -/

section Samples

theorem not_recordedOnce {call : EnqueueCall} {refusal : Refusal}
    (refused : call.refusal ext service t db = some refusal)
    (unrecorded : (call.after ext service t db).enqueueRejections.rows = []) :
    ¬ RecordedOnce ext service t db call := by
  rw [RecordedOnce, refused]
  rintro ⟨row, rejections, -, -, inserted, same⟩
  rw [same, Table.rows_of_insert inserted] at unrecorded
  exact List.append_ne_nil_of_right_ne_nil _ (List.cons_ne_nil _ _) unrecorded

/-- A request deeper than the breaker lets through. -/
def deepCall : EnqueueCall :=
  .addJob stopped { name := "a", metadata := some { traceId := "t", executionDepth := 11 } }

/-- A scheduler of the facet `f` with the ingress of the facet paused. -/
def pausedRun : List Op := [schedule "s" "f", pauseFacet]

/-- The record of the scheduler. -/
def pausedRow : JobSchedulerRow :=
  schedulerSpec "s" "s" "* * * * *" "" { name := "s", rateLimitFacet := some "f" } 60000 0

/-- The fire of the scheduler at its time. -/
def pausedFire : EnqueueCall := .fire 0 60000 pausedRow

/-- **Two refusals that leave no record**: of a request that supplies too great a
depth, and of a fire whose facet is paused. -/
theorem early_and_fired_unrecorded :
    (deepCall.refusal .unary {} 0 (dbAfter .unary {} []) = some (.circuitBreaker, "a") ∧
      ¬ RecordedOnce .unary {} 0 (dbAfter .unary {} []) deepCall) ∧
    (pausedRow ∈ (dbAfter .unary {} pausedRun).jobSchedulers.rows ∧
      pausedFire.refusal .unary {} 2 (dbAfter .unary {} pausedRun) =
        some (.ingressVelocity, "s") ∧
      ¬ RecordedOnce .unary {} 2 (dbAfter .unary {} pausedRun) pausedFire) := by
  have deep : deepCall.refusal .unary {} 0 (dbAfter .unary {} []) =
      some (.circuitBreaker, "a") := by decide +kernel
  have paused : pausedFire.refusal .unary {} 2 (dbAfter .unary {} pausedRun) =
      some (.ingressVelocity, "s") := by decide +kernel
  exact ⟨⟨deep, not_recordedOnce deep (by decide +kernel)⟩, by decide +kernel, paused,
    not_recordedOnce paused (by decide +kernel)⟩

/-- A request for the facet that is paused. -/
def pausedRequest : EnqueueCall := .addJob stopped { name := "a", rateLimitFacet := "f" }

/-- The same facet asked for by a request: the refusal is recorded. -/
theorem paused_request_recorded :
    RecordedOnce .unary {} 2 (dbAfter .unary {} pausedRun) pausedRequest ∧
      pausedRequest.refusal .unary {} 2 (dbAfter .unary {} pausedRun) =
        some (.ingressVelocity, "a") := by
  have passed : pausedRequest.turnedAway {} = none := by decide +kernel
  refine ⟨(recorded_once_iff .unary {} pausedRun pausedRequest).2.mpr ?_, by decide +kernel⟩
  exact EnqueueCall.audited_of_none passed fun _ _ _ fires => EnqueueCall.noConfusion fires

end Samples

end AnvilMQ
