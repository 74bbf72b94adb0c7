import AnvilMQ.Properties.Cascade
import AnvilMQ.Properties.Conservation

/-!
# What archiving keeps of a job

Three statements move a job from `jobs` to `job_history`, each with a column list of
its own: the one of `finish_job`, the one of its cascade and the one of
`recover_expired`.  The first two name every column the tables share.  The third
was not extended when the flow columns were added: it leaves
`fail_parent_on_failure`, `tree_id` and `tree_depth` to their defaults, so that the
history of a flow node whose last lease expires no longer says which tree it was in.
-/

namespace AnvilMQ

open Rust Relational Transition

/-! ## The columns of the history -/

/-- **The history row says of the job what its live row said.** -/
structure HistoryRow.Preserves (entry : HistoryRow) (row : JobRow) : Prop where
  id : entry.id = row.id
  name : entry.name = row.name
  priority : entry.priority = row.priority
  payload : entry.payload = row.payload
  parentId : entry.parentId = row.parentId
  traceId : entry.traceId = row.traceId
  executionDepth : entry.executionDepth = row.executionDepth
  attempts : entry.attempts = row.attempts
  maxAttempts : entry.maxAttempts = row.maxAttempts
  createdAt : entry.createdAt = row.createdAt
  workerId : entry.workerId = row.workerId
  rateLimitFacet : entry.rateLimitFacet = row.rateLimitFacet
  failParentOnFailure : entry.failParentOnFailure = row.failParentOnFailure
  treeId : entry.treeId = row.treeId
  treeDepth : entry.treeDepth = row.treeDepth

/-- The flow columns of the job have the defaults of the schema. -/
structure JobRow.Standalone (row : JobRow) : Prop where
  failParentOnFailure : row.failParentOnFailure = false
  treeId : row.treeId = none
  treeDepth : row.treeDepth = 0

/-- The sweeps that take expired claims back. -/
def Op.IsRecovery : Op → Prop
  | recoverExpired _ _ => True
  | _ => False

/-- The row is written by the column list of `finish_job` or of its cascade. -/
def CopiesAll (row : JobRow) (entry : HistoryRow) : Prop :=
  ∃ state finishedAt lastError result, entry = row.toHistory state finishedAt lastError result

/-- The row is written by the column list of `recover_expired`. -/
def CopiesExpired (row : JobRow) (entry : HistoryRow) : Prop :=
  ∃ now, entry = row.toExpiredHistory now

theorem CopiesAll.preserves {row : JobRow} {entry : HistoryRow} (copies : CopiesAll row entry) :
    entry.Preserves row := by
  obtain ⟨state, finishedAt, lastError, result, rfl⟩ := copies
  exact ⟨rfl, rfl, rfl, rfl, rfl, rfl, rfl, rfl, rfl, rfl, rfl, rfl, rfl, rfl, rfl⟩

theorem CopiesExpired.preserves_iff {row : JobRow} {entry : HistoryRow}
    (copies : CopiesExpired row entry) : entry.Preserves row ↔ row.Standalone := by
  obtain ⟨now, rfl⟩ := copies
  constructor
  · intro same
    exact ⟨same.failParentOnFailure.symm, same.treeId.symm, same.treeDepth.symm⟩
  · intro alone
    exact ⟨rfl, rfl, rfl, rfl, rfl, rfl, rfl, rfl, rfl, rfl, rfl, rfl,
      alone.failParentOnFailure.symm, alone.treeId.symm, alone.treeDepth.symm⟩

/-! ## One transaction -/

variable {ext : Externals} {service : Service} {t : ℕ} {db db' : Db} {clock : Clock}
  {run : List Op} {op : Op} {j : JobId} {row : JobRow} {calls : List MetricCall}

/-- **The archivings of a transaction**: its events lead from one database to the
other, and every job they archive is copied from the row it had before the
transaction. -/
structure Archivings (ext : Externals) (t : ℕ) (db db' : Db)
    (writes : JobRow → HistoryRow → Prop) (events : List Event) : Prop where
  chain : Chain (Step ext) (db.ledger t 0) events (db'.ledger t 0)
  kept : ∀ e ∈ events, e.forgets = []
  copied : ∀ e ∈ events, ∀ row entry, e.retires = some (row, entry) →
    db.jobs.find? row.id = some row ∧ writes row entry

/-- A job that is live before the transaction and not after it has been archived. -/
theorem Archivings.archived {writes : JobRow → HistoryRow → Prop} {events : List Event}
    (archivings : Archivings ext t db db' writes events) (sound : (db.ledger t 0).Sound ext)
    (live : db.jobs.find? j = some row) (gone : ¬ db'.jobs.Has j) :
    ∃ entry, db'.jobHistory.find? j = some entry ∧ writes row entry := by
  have alive : ((db.ledger t 0).jobs j).isSome := Option.isSome_iff_exists.mpr ⟨row, live⟩
  rcases Ledger.Sound.live_or_retired_of_chain archivings.chain alive with
    stays | ⟨e, mem, retired⟩
  · exact absurd stays gone
  · obtain ⟨found, entry, retires, rfl⟩ := Event.retires_of_retiredId retired
    obtain ⟨here, written⟩ := archivings.copied e mem found entry retires
    cases here.symm.trans live
    refine ⟨entry, sound.archived_of_chain archivings.chain mem retires fun e mem => ?_, written⟩
    rw [archivings.kept e mem]
    exact List.not_mem_nil

/-- A failure does not touch the rows of other jobs, so what a chain of failures
archives are the rows it started from. -/
theorem failures_quote {l l' : Ledger} {events : List Event} (chain : Chain (Step ext) l events l')
    (failures : ∀ e ∈ events, ∃ row entry cause n, e = .failed row entry cause n) :
    ∀ e ∈ events, ∀ row entry, e.retires = some (row, entry) → l.jobs row.id = some row := by
  induction chain with
  | nil => simp
  | @cons l next final first events head rest ih =>
    obtain ⟨failed, written, cause, n, rfl⟩ := failures first List.mem_cons_self
    intro e mem row entry retires
    rcases List.mem_cons.mp mem with rfl | later
    · exact (head.1.retires retires).1
    · have found := ih (fun e mem => failures e (List.mem_cons_of_mem _ mem)) e later row entry
        retires
      obtain ⟨-, rfl⟩ := head
      rcases Ledger.apply_jobs found with ⟨born, -⟩ | ⟨old, was, rfl, -⟩
      · cases born
      · exact was

/-- The archiving of a completion. -/
theorem finishCompleted_archivings {result : Option Bytes} (found : db.jobs.find? row.id = some row)
    (active : row.state = .active) (ok : finishCompleted clock db row result = .ok (db', calls)) :
    Archivings ext t db db' CopiesAll [completionEvent clock db row result] := by
  refine ⟨(finishCompleted_trace found active ok).1, fun e mem => ?_,
    fun e mem quoted entry retires => ?_⟩
  · rw [List.mem_singleton.mp mem]
    rfl
  · rw [List.mem_singleton.mp mem] at retires
    cases retires
    exact ⟨found, _, _, _, _, rfl⟩

/-- The archivings of a terminal failure: the job and the ancestors it takes along. -/
theorem finishFailed_archivings {error : String} (found : db.jobs.find? row.id = some row)
    (active : row.state = .active) (sound : (db.ledger t 0).Sound ext)
    (ok : finishFailed clock db row error = .ok (db', calls)) :
    ∃ events, Archivings ext t db db' CopiesAll events := by
  obtain ⟨n, ancestors, events, -, cascaded, chain, -⟩ :=
    finishFailed_trace (t := t) (k := 0) found active sound.parentsOlder ok
  have failures : ∀ e ∈ Event.failed row (row.toHistory .failed (clock 1) (some error) none)
      .reported n :: events, ∃ row entry cause n, e = .failed row entry cause n ∧
        cause ≠ .expired := by
    intro e mem
    rcases List.mem_cons.mp mem with rfl | later
    · exact ⟨_, _, _, _, rfl, fun same => by cases same⟩
    · obtain ⟨ancestor, entry, m, rfl⟩ := cascaded.mem e later
      exact ⟨_, _, _, _, rfl, fun same => by cases same⟩
  refine ⟨_, chain, fun e mem => ?_, fun e mem quoted entry retires => ⟨?_, ?_⟩⟩
  · obtain ⟨_, _, _, _, rfl, -⟩ := failures e mem
    rfl
  · refine failures_quote chain (fun e mem => ?_) e mem quoted entry retires
    obtain ⟨row, entry, cause, n, rfl, -⟩ := failures e mem
    exact ⟨row, entry, cause, n, rfl⟩
  · obtain ⟨_, _, cause, _, rfl, reported⟩ := failures e mem
    obtain ⟨l, l', step⟩ := chain.step_of_mem mem
    have writes := step.1.2
    cases retires
    cases cause with
    | reported =>
      obtain ⟨-, at_, error, rfl⟩ := writes
      exact ⟨_, _, _, _, rfl⟩
    | cascaded =>
      obtain ⟨at_, error, rfl⟩ := writes
      exact ⟨_, _, _, _, rfl⟩
    | expired => exact absurd rfl reported

variable (ext t) in
/-- The archivings of a recovery: the exhausted ones among the expired claims. -/
theorem recoverExpired_archivings {batchSize jobs : ℕ}
    (ok : recoverExpired clock db batchSize = .ok (jobs, db', calls)) :
    ∃ events, Archivings ext t db db' CopiesExpired events := by
  obtain ⟨counts, -, chain, -⟩ := recoverExpired_trace (t := t) (k := 0) ok
  have batch := selectExpired_batch db (clock 0) batchSize
  have rounds : ∀ e ∈ List.zipWith (recoveryEvent (clock 0)) (selectExpired db (clock 0) batchSize)
      counts, ∃ row ∈ selectExpired db (clock 0) batchSize, ∃ n,
        e = recoveryEvent (clock 0) row n := by
    intro e mem
    rw [← List.map_uncurry_zip_eq_zipWith] at mem
    obtain ⟨⟨row, n⟩, pair, rfl⟩ := List.mem_map.mp mem
    exact ⟨row, (List.of_mem_zip pair).1, n, rfl⟩
  refine ⟨_, chain, fun e mem => ?_, fun e mem quoted entry retires => ?_⟩
  · obtain ⟨row, -, n, rfl⟩ := rounds e mem
    rw [recoveryEvent]
    split <;> rfl
  · obtain ⟨row, selected, n, rfl⟩ := rounds e mem
    rw [recoveryEvent] at retires
    split at retires
    · cases retires
    · cases retires
      exact ⟨batch.found _ selected, _, rfl⟩

/-- An acknowledgment that is only replayed archives nothing. -/
theorem Archivings.refl (ext : Externals) (t : ℕ) (db : Db)
    (writes : JobRow → HistoryRow → Prop) : Archivings ext t db db writes [] where
  chain := .nil _
  kept := fun _ mem => by cases mem
  copied := fun _ mem => by cases mem

variable (ext t) in
/-- A completion archives a full copy of the job. -/
theorem completeJob_archivings {req : CompleteJobRequest}
    (ok : completeJob clock db req = .ok (db', calls)) :
    ∃ events, Archivings ext t db db' CopiesAll events := by
  simp only [completeJob] at ok
  obtain ⟨-, ok⟩ := guard_eq_ok.mp ok
  simp only [bind_eq_ok, Except.ok.injEq, Prod.mk.injEq] at ok
  obtain ⟨⟨moved, db₁, calls₁⟩, finished, rfl, rfl⟩ := ok
  rcases finishJob_cases finished with ⟨-, -, -, -, rfl, -⟩ | ⟨row, live, accepts, settled⟩
  · exact ⟨[], .refl ext t db₁ _⟩
  · simp only [settle, bind_eq_ok, Except.ok.injEq, Prod.mk.injEq] at settled
    obtain ⟨⟨db₂, calls₂⟩, completed, -, rfl, rfl⟩ := settled
    have here := Table.key_of_find? live
    exact ⟨_, finishCompleted_archivings (by rwa [here]) accepts.active completed⟩

/-- A failure archives faithful copies, of the job and of those it takes along. -/
theorem failJob_archivings {jittered : ℤ} {req : FailJobRequest} {moved : Bool}
    (sound : (db.ledger t 0).Sound ext)
    (ok : failJob clock jittered db req = .ok (moved, db', calls)) :
    ∃ events, Archivings ext t db db' CopiesAll events := by
  rcases finishJob_cases ok with ⟨-, -, -, -, rfl, -⟩ | ⟨row, live, accepts, settled⟩
  · exact ⟨[], .refl ext t db' _⟩
  have here := Table.key_of_find? live
  have found : db.jobs.find? row.id = some row := by rwa [here]
  simp only [settle] at settled
  split at settled
  · -- A job that is tried again stays live.
    rename_i again
    simp only [Except.ok.injEq, Prod.mk.injEq] at settled
    obtain ⟨-, rfl, -⟩ := settled
    refine ⟨_, (finishRetry_trace found accepts.active again.1).1, fun e mem => ?_,
      fun e mem quoted entry retires => ?_⟩
    · rw [List.mem_singleton.mp mem]
      rfl
    · rw [List.mem_singleton.mp mem] at retires
      cases retires
  · simp only [bind_eq_ok, Except.ok.injEq, Prod.mk.injEq] at settled
    obtain ⟨⟨db₂, calls₂⟩, failed, -, rfl, -⟩ := settled
    exact finishFailed_archivings found accepts.active sound failed

/-! ## One operation -/

/-- What an operation that archives a job writes for it. -/
theorem archived_by (live : (dbAfter ext service run).jobs.find? j = some row)
    (gone : ¬ (dbAfter ext service (run ++ [op])).jobs.Has j) :
    ∃ entry, (dbAfter ext service (run ++ [op])).jobHistory.find? j = some entry ∧
      ((¬ op.IsRecovery ∧ CopiesAll row entry) ∨ (op.IsRecovery ∧ CopiesExpired row entry)) := by
  have sound := sound_after ext service run
  have alive := Table.has_iff_find?.mpr ⟨row, live⟩
  have archives := ((live_after ext service run op alive).resolve_left gone).1
  have commits : ¬ Refused ext service run op := by
    rintro ⟨-, unchanged⟩
    rw [not_not.mp unchanged] at gone
    exact gone alive
  -- The three operations differ in what they copy.
  have written : ∀ {db' writes}, dbAfter ext service (run ++ [op]) = db' →
      (∃ events, Archivings ext run.length (dbAfter ext service run) db' writes events) →
      ∃ entry, (dbAfter ext service (run ++ [op])).jobHistory.find? j = some entry ∧
        writes row entry := by
    rintro db' writes rfl ⟨events, archivings⟩
    exact archivings.archived sound live gone
  cases op with
  | completeJob clock req =>
    rcases transact_cases ext service run (.completeJob clock req) rfl with
      refused | ⟨⟨db', calls⟩, ok, -, after⟩
    · exact absurd refused commits
    obtain ⟨entry, found, copies⟩ := written after (completeJob_archivings ext run.length ok)
    exact ⟨entry, found, .inl ⟨id, copies⟩⟩
  | failJob clock jittered req =>
    rcases transact_cases ext service run (.failJob clock jittered req) rfl with
      refused | ⟨⟨moved, db', calls⟩, ok, -, after⟩
    · exact absurd refused commits
    obtain ⟨entry, found, copies⟩ := written after (failJob_archivings sound ok)
    exact ⟨entry, found, .inl ⟨id, copies⟩⟩
  | recoverExpired clock batchSize =>
    rcases transact_cases ext service run (.recoverExpired clock batchSize) rfl with
      refused | ⟨⟨jobs, db', calls⟩, ok, -, after⟩
    · exact absurd refused commits
    obtain ⟨entry, found, copies⟩ := written after (recoverExpired_archivings ext run.length ok)
    exact ⟨entry, found, .inr ⟨trivial, copies⟩⟩
  | _ => exact archives.elim

/-- **When archiving loses nothing**: a job that leaves `jobs` has a history row,
and that row preserves it unless a recovery archived a job with a flow column set. -/
theorem archiving_preserves_iff (ext : Externals) (service : Service) (run : List Op) (op : Op)
    (j : JobId) (row : JobRow) (live : (dbAfter ext service run).jobs.find? j = some row)
    (gone : ¬ (dbAfter ext service (run ++ [op])).jobs.Has j) :
    ∃ entry, (dbAfter ext service (run ++ [op])).jobHistory.find? j = some entry ∧
      (entry.Preserves row ↔ (op.IsRecovery → row.Standalone)) := by
  obtain ⟨entry, found, ⟨other, copies⟩ | ⟨recovery, copies⟩⟩ := archived_by live gone
  · exact ⟨entry, found, iff_of_true copies.preserves fun recovery => absurd recovery other⟩
  · refine ⟨entry, found, copies.preserves_iff.trans ?_⟩
    exact ⟨fun alone _ => alone, fun alone => alone recovery⟩

/-! ## A flow node whose lease expires -/

section Samples

/-- A job of no flow with a single attempt, claimed by a worker that is not heard of
again. -/
def crashAlone : List Op :=
  [.addJob stopped { name := "a", maxAttempts := 1 }, poll "a"]

/-- The recovery of a job of no flow loses nothing. -/
theorem recovery_preserves_standalone :
    ∃ row entry, (dbAfter .unary {} crashAlone).jobs.find? (unaryId 0 0) = some row ∧
      (dbAfter .unary {} (crashAlone ++ [recoverLater])).jobHistory.find? (unaryId 0 0) =
        some entry ∧ entry.Preserves row := by
  have alive : ((dbAfter .unary {} crashAlone).jobs.find? (unaryId 0 0)).isSome := by
    decide +kernel
  obtain ⟨row, live⟩ := Option.isSome_iff_exists.mp alive
  have columns : ((dbAfter .unary {} crashAlone).jobs.find? (unaryId 0 0)).map
      (fun row => (row.failParentOnFailure, row.treeId, row.treeDepth)) =
        some (false, none, 0) := by decide +kernel
  rw [live, Option.map_some, Option.some.injEq, Prod.mk.injEq, Prod.mk.injEq] at columns
  obtain ⟨entry, found, preserves⟩ := archiving_preserves_iff .unary {} crashAlone recoverLater
    (unaryId 0 0) row live (by decide +kernel)
  exact ⟨row, entry, live, found,
    preserves.mpr fun _ => ⟨columns.1, columns.2.1, columns.2.2⟩⟩

/-- **The history of an expired flow node forgets its tree**: the child of the flow
is live with the id of its root for its tree, and the row the recovery archives it
under has none. -/
theorem recovery_forgets_tree :
    ∃ row entry, (dbAfter .unary {} crashRun).jobs.find? childJob = some row ∧
      (dbAfter .unary {} (crashRun ++ [recoverLater])).jobHistory.find? childJob = some entry ∧
      row.treeId = some parentJob ∧ entry.treeId = none ∧ ¬ entry.Preserves row := by
  have treed : ((dbAfter .unary {} crashRun).jobs.find? childJob).bind JobRow.treeId =
      some parentJob := by decide +kernel
  have forgotten : ((dbAfter .unary {} (crashRun ++ [recoverLater])).jobHistory.find?
      childJob).map HistoryRow.treeId = some none := by decide +kernel
  obtain ⟨row, live, tree⟩ := Option.bind_eq_some_iff.mp treed
  obtain ⟨entry, found, forgot⟩ := Option.map_eq_some_iff.mp forgotten
  refine ⟨row, entry, live, found, tree, forgot, fun same => ?_⟩
  have agrees := same.treeId
  rw [forgot, tree] at agrees
  cases agrees

end Samples

end AnvilMQ
