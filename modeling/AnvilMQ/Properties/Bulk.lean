import AnvilMQ.Broker
import AnvilMQ.Ledger.Enqueues

/-!
# A bulk enqueue is a sequence of enqueues

`AddJobBulk` validates every request first and then runs them in one transaction,
where each sees what the ones before it inserted.  This module compares it with
`AddJob` called on the requests one after another, at the same clock reading and
with the same supply of UUIDs.
-/

namespace AnvilMQ

open Rust Relational

/-! ## One enqueue after another -/

section Sequence

variable (ext : Externals) (service : Service) (t : ℕ) (clock : Clock)

/-- The validation and the transaction of an `AddJob` that draws its UUIDs from slot
`k` on. -/
def addJobAt (k : ℕ) (db : Db) (req : AddJobRequest) : Except EnqueueFailure EnqueueOutcome :=
  match validateAndPrepare ext service.maxExecutionDepth req with
  | .error status => .error (.status status)
  | .ok (req, receiptRequest) => enqueueOne ext service t k db req receiptRequest (clock 0)

/-- The database an `AddJob` leaves: it commits, or it rolls back and records its
rejection. -/
def settled (db : Db) : Except EnqueueFailure EnqueueOutcome → Db
  | .ok outcome => outcome.db
  | .error (.status _) => db
  | .error (.rejected _ record name) => recordRejection db (clock 0) name record

/-- `AddJob` on the requests in order, up to the first one that is refused.  The
number is the slot of the UUID generator that was reached. -/
def addJobs : ℕ → Db → List AddJobRequest → Db × Except EnqueueFailure (List AddJobResponse × ℕ)
  | k, db, [] => (db, .ok ([], k))
  | k, db, req :: rest =>
    let attempt := addJobAt ext service t clock k db req
    match attempt with
    | .error failure => (settled clock db attempt, .error failure)
    | .ok outcome =>
      match addJobs outcome.uuids (settled clock db attempt) rest with
      | (db, .error failure) => (db, .error failure)
      | (db, .ok (responses, k)) => (db, .ok (outcome.response :: responses, k))

/-- **A bulk enqueue is a sequence of enqueues.** -/
structure BulkIsSequence (db : Db) (requests : List AddJobRequest) : Prop where
  succeeds : (∃ answer, (enqueueBulk ext service t clock db requests).2 = .ok answer) ↔
    ∃ answer, (addJobs ext service t clock 0 db requests).2 = .ok answer
  /-- A batch that succeeds leaves the same database and the same responses. -/
  agrees : ∀ responses calls,
    (enqueueBulk ext service t clock db requests).2 = .ok (responses, calls) →
    ∃ k, addJobs ext service t clock 0 db requests =
      ((enqueueBulk ext service t clock db requests).1, .ok (responses, k))
  /-- A batch that fails leaves the tables of the enqueue as they were. -/
  restores : ∀ status, (enqueueBulk ext service t clock db requests).2 = .error status →
    (enqueueBulk ext service t clock db requests).1.jobs = db.jobs ∧
    (enqueueBulk ext service t clock db requests).1.enqueueReceipts = db.enqueueReceipts ∧
    (enqueueBulk ext service t clock db requests).1.ingressLimitCounters =
      db.ingressLimitCounters ∧
    (enqueueBulk ext service t clock db requests).1.chainCounters = db.chainCounters
  /-- It changes nothing at all, or it adds the record of the request the sequence
  refuses on admission. -/
  records : ∀ status, (enqueueBulk ext service t clock db requests).2 = .error status →
    (enqueueBulk ext service t clock db requests).1 = db ∨
    ∃ refusal record name,
      (addJobs ext service t clock 0 db requests).2 = .error (.rejected refusal record name) ∧
      (enqueueBulk ext service t clock db requests).1 = recordRejection db (clock 0) name record

end Sequence

variable {ext : Externals} {service : Service} {t : ℕ} {clock : Clock} {db : Db}

/-! ## The supply of UUIDs -/

/-- The environment after `k` UUIDs have been drawn for request `t`. -/
def Externals.advance (ext : Externals) (t k : ℕ) : Externals where
  newV4 := fun t' j => if t' = t then ext.newV4 t (k + j) else ext.newV4 t' j
  newV4_injective := by
    intro t₁ k₁ t₂ k₂ same
    split at same <;> split at same <;> have := ext.newV4_injective same <;> omega
  newV4_not_blank := by
    intro t' j
    split <;> exact ext.newV4_not_blank _ _
  encodeToVec := ext.encodeToVec
  roundF64 := ext.roundF64
  cronFromStr := ext.cronFromStr
  tzFromStr := ext.tzFromStr
  findNextOccurrence := ext.findNextOccurrence

theorem deriveLineage_advance (k : ℕ) (name : String) (metadata : JobMetadata) :
    deriveLineage (ext.advance t k) t 1 db name metadata =
      (deriveLineage ext t (k + 1) db name metadata).map fun (depth, traceId, uuids) =>
        (depth, traceId, uuids - k) := by
  simp only [deriveLineage]
  split
  · split
    · simp [Externals.advance, Except.map, Nat.add_assoc]
    · simp [Except.map]
  · split
    · rfl
    · split
      · simp [Except.map]
      · rfl

theorem newV4_advance (k : ℕ) : (ext.advance t k).newV4 t 0 = ext.newV4 t k := if_pos rfl

theorem admitRequest_advance (k : ℕ) (req : AddJobRequest) (now : ℤ) :
    admitRequest (ext.advance t k) db req now = admitRequest ext db req now := rfl

/-- An insertion from an advanced generator is one further on in the supply. -/
theorem insertEnqueued_advance (k : ℕ) (req : AddJobRequest) (receiptRequest : Option Bytes)
    (now : ℤ) :
    insertEnqueued (ext.advance t k) service t 0 db req receiptRequest now =
      (insertEnqueued ext service t k db req receiptRequest now).map fun outcome =>
        { outcome with uuids := outcome.uuids - k } := by
  simp only [insertEnqueued, admitRequest_advance, newV4_advance, Nat.zero_add,
    deriveLineage_advance]
  -- each statement of the transaction fails in both or succeeds in both
  cases admitRequest ext db req now with
  | error failure => rfl
  | ok db₁ =>
    simp only [bind, Except.bind]
    cases checkedAdd now req.delayMs with
    | none => rfl
    | some availableAt =>
      dsimp only
      cases deriveLineage ext t (k + 1) db₁ req.name (req.metadata.getD {}) with
      | error failure => rfl
      | ok derived =>
        obtain ⟨depth, traceId, uuids⟩ := derived
        dsimp only [Except.map]
        split
        · rfl
        split
        · rfl
        split
        · rfl
        split
        · rfl
        · rfl

theorem enqueueOne_advance (k : ℕ) (req : AddJobRequest) (receiptRequest : Option Bytes)
    (now : ℤ) :
    enqueueOne (ext.advance t k) service t 0 db req receiptRequest now =
      (enqueueOne ext service t k db req receiptRequest now).map fun outcome =>
        { outcome with uuids := outcome.uuids - k } := by
  cases receiptRequest with
  | none => exact insertEnqueued_advance k req none now
  | some expected =>
    simp only [enqueueOne]
    split
    · exact insertEnqueued_advance k req (some expected) now
    · split
      · rfl
      · simp [Except.map]

/-- **`addJobAt` is `AddJob`** with a UUID generator that has been advanced. -/
theorem enqueue_advance (k : ℕ) (req : AddJobRequest) :
    enqueue (ext.advance t k) service t clock db req =
      (settled clock db (addJobAt ext service t clock k db req),
        match addJobAt ext service t clock k db req with
        | .ok outcome => .ok ([outcome.response], outcome.calls)
        | .error failure => .error failure.toStatus) := by
  have valid : validateAndPrepare (ext.advance t k) service.maxExecutionDepth req =
      validateAndPrepare ext service.maxExecutionDepth req := rfl
  rw [enqueue, valid, addJobAt]
  cases validateAndPrepare ext service.maxExecutionDepth req with
  | error status => rfl
  | ok job =>
    obtain ⟨req, receiptRequest⟩ := job
    simp only [executeBatch, enqueueAll, enqueueOne_advance]
    cases enqueueOne ext service t k db req receiptRequest (clock 0) with
    | ok outcome => simp [Except.map, settled]
    | error failure => cases failure <;> rfl

/-! ## Batches -/

/-- The transaction of a batch runs as the sequence does. -/
theorem addJobs_of_enqueueAll {requests : List AddJobRequest}
    {jobs : List (AddJobRequest × Option Bytes)}
    (valid : requests.mapM (validateAndPrepare ext service.maxExecutionDepth) = .ok jobs)
    (index k : ℕ) (db : Db) :
    (∀ batch, enqueueAll ext service t (clock 0) index k db jobs = .ok batch →
      addJobs ext service t clock k db requests =
        (batch.db, .ok (batch.responses, batch.uuids))) ∧
    ∀ i failure, enqueueAll ext service t (clock 0) index k db jobs = .error (i, failure) →
      (addJobs ext service t clock k db requests).2 = .error failure := by
  induction requests generalizing jobs index k db with
  | nil =>
    cases valid
    refine ⟨fun batch ran => ?_, fun i failure ran => ?_⟩ <;> cases ran
    rfl
  | cons req rest ih =>
    simp only [List.mapM_cons, bind_eq_ok] at valid
    obtain ⟨⟨prepared, receiptRequest⟩, validated, others, validRest, same⟩ := valid
    cases same
    have attempt : addJobAt ext service t clock k db req =
        enqueueOne ext service t k db prepared receiptRequest (clock 0) := by
      rw [addJobAt, validated]
    simp only [enqueueAll, addJobs, attempt]
    cases enqueueOne ext service t k db prepared receiptRequest (clock 0) with
    | error failure =>
      refine ⟨fun batch ran => ?_, fun i other ran => ?_⟩ <;> cases ran
      rfl
    | ok outcome =>
      obtain ⟨succeeds, fails⟩ := ih validRest (index + 1) outcome.uuids outcome.db
      dsimp only [settled]
      cases ran : enqueueAll ext service t (clock 0) (index + 1) outcome.uuids outcome.db
          others with
      | error indexed =>
        obtain ⟨i, failure⟩ := indexed
        have later := fails i failure ran
        refine ⟨fun batch' ran' => ?_, fun i' failure' ran' => ?_⟩ <;> cases ran'
        split
        · rename_i ended
          rw [ended] at later
          exact later
        · rename_i ended
          rw [ended] at later
          cases later
      | ok batch =>
        refine ⟨fun batch' ran' => ?_, fun i' failure' ran' => ?_⟩ <;> cases ran'
        rw [succeeds batch ran]

/-- A sequence that succeeds has valid requests only. -/
theorem validate_of_addJobs {requests : List AddJobRequest} {k : ℕ}
    {answer : List AddJobResponse × ℕ}
    (ok : (addJobs ext service t clock k db requests).2 = .ok answer) :
    ∃ jobs, requests.mapM (validateAndPrepare ext service.maxExecutionDepth) = .ok jobs := by
  induction requests generalizing k db answer with
  | nil => exact ⟨[], rfl⟩
  | cons req rest ih =>
    simp only [addJobs] at ok
    cases attempt : addJobAt ext service t clock k db req with
    | error failure =>
      rw [attempt] at ok
      cases ok
    | ok outcome =>
      rw [attempt] at ok
      dsimp only at ok
      split at ok
      · cases ok
      rename_i later
      obtain ⟨jobs, valid⟩ := ih (congrArg Prod.snd later)
      rw [addJobAt] at attempt
      split at attempt
      · cases attempt
      rename_i prepared receiptRequest validated
      refine ⟨(prepared, receiptRequest) :: jobs, ?_⟩
      simp only [List.mapM_cons, bind_eq_ok]
      exact ⟨_, validated, jobs, valid, rfl⟩

theorem recordRejection_books (db : Db) (now : ℤ) (name : String) (record : RejectionRecord) :
    (recordRejection db now name record).jobs = db.jobs ∧
      (recordRejection db now name record).enqueueReceipts = db.enqueueReceipts ∧
      (recordRejection db now name record).ingressLimitCounters = db.ingressLimitCounters ∧
      (recordRejection db now name record).chainCounters = db.chainCounters := by
  rw [recordRejection]
  split <;> exact ⟨rfl, rfl, rfl, rfl⟩

/-- An error is no answer. -/
theorem unanswered {ε α : Type} {e : ε} {p : Prop} (answered : ∃ a : α, Except.error e = .ok a) :
    p := by
  obtain ⟨a, same⟩ := answered
  cases same

variable (ext service t clock db) in
/-- **A bulk enqueue is a sequence of enqueues**: from every database, for every batch
of 1 to 5000 requests, at one clock reading and with one supply of UUIDs. -/
theorem bulk_is_sequence (requests : List AddJobRequest) (nonempty : 1 ≤ requests.length)
    (small : requests.length ≤ maxBulkBatchSize) :
    BulkIsSequence ext service t clock db requests := by
  have filled : requests ≠ [] := List.ne_nil_of_length_pos nonempty
  have within : ¬ maxBulkBatchSize < requests.length := not_lt.mpr small
  cases valid : requests.mapM (validateAndPrepare ext service.maxExecutionDepth) with
  | error status =>
    have bulk : enqueueBulk ext service t clock db requests = (db, .error status) := by
      rw [enqueueBulk, if_neg filled, if_neg within, valid]
    have unsequenced : ∀ answer, (addJobs ext service t clock 0 db requests).2 ≠ .ok answer := by
      intro answer ok
      obtain ⟨jobs, valid'⟩ := validate_of_addJobs ok
      rw [valid] at valid'
      cases valid'
    refine ⟨?_, ?_, ?_, ?_⟩ <;> rw [bulk]
    · refine ⟨unanswered, ?_⟩
      rintro ⟨answer, ok⟩
      exact absurd ok (unsequenced answer)
    · rintro responses calls same
      cases same
    · exact fun _ _ => ⟨rfl, rfl, rfl, rfl⟩
    · exact fun _ _ => .inl rfl
  | ok jobs =>
    have bulk : enqueueBulk ext service t clock db requests =
        executeBatch ext service t clock db jobs true := by
      rw [enqueueBulk, if_neg filled, if_neg within, valid]
    obtain ⟨succeeds, fails⟩ := addJobs_of_enqueueAll (t := t) valid 0 0 db
    rw [executeBatch] at bulk
    cases ran : enqueueAll ext service t (clock 0) 0 0 db jobs with
    | ok batch =>
      rw [ran] at bulk
      have sequence := succeeds batch ran
      refine ⟨?_, ?_, ?_, ?_⟩ <;> rw [bulk]
      · rw [sequence]
        exact ⟨fun _ => ⟨_, rfl⟩, fun _ => ⟨_, rfl⟩⟩
      · rintro responses calls same
        cases same
        exact ⟨batch.uuids, sequence⟩
      · rintro status same
        cases same
      · rintro status same
        cases same
    | error indexed =>
      obtain ⟨i, failure⟩ := indexed
      rw [ran] at bulk
      have sequence := fails i failure ran
      cases failure with
      | status status =>
        refine ⟨?_, ?_, ?_, ?_⟩ <;> rw [bulk]
        · rw [sequence]
          exact ⟨unanswered, unanswered⟩
        · rintro responses calls same
          cases same
        · exact fun _ _ => ⟨rfl, rfl, rfl, rfl⟩
        · exact fun _ _ => .inl rfl
      | rejected refusal record name =>
        refine ⟨?_, ?_, ?_, ?_⟩ <;> rw [bulk]
        · rw [sequence]
          exact ⟨unanswered, unanswered⟩
        · rintro responses calls same
          cases same
        · exact fun _ _ => recordRejection_books _ _ _ _
        · exact fun _ _ => .inr ⟨refusal, record, name, sequence, rfl⟩

/-- Two requests with one idempotency key: the second replays the first within the
batch. -/
def replayedBatch : List AddJobRequest :=
  [{ name := "a", idempotencyKey := "x" }, { name := "a", idempotencyKey := "x" }]

theorem replayedBatch_is_sequence :
    BulkIsSequence .unary {} 0 stopped Db.empty replayedBatch ∧
      (addJobs .unary {} 0 stopped 0 Db.empty replayedBatch).2 =
        .ok ([{ id := unaryId 0 0, state := .waiting, replayed := false },
          { id := unaryId 0 0, state := .waiting, replayed := true }], 2) :=
  ⟨bulk_is_sequence .unary {} 0 stopped Db.empty replayedBatch (by decide) (by decide),
    by decide +kernel⟩

end AnvilMQ
