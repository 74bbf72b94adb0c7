import AnvilMQ.Properties.Idempotency
import AnvilMQ.Properties.Quarantine

/-!
# Receipts and their jobs

A receipt is written with a job of its own, whichever request writes it.  So no two receipts
name the same job, in any run.  With that, an `AddJob` under a key has three outcomes: it is
refused, it is answered from the receipt of its key, or it inserts one job and writes the
receipt of its key.
-/

namespace AnvilMQ

open Rust Relational Transition

variable {ext : Externals} {service : Service} {db db' : Db} {t : ℕ} {run : List Op} {op : Op}

/-! ## Receipts are written with a job -/

/-- **Jobs and receipts were added**, and each new receipt has a new job of its own. -/
structure Registers (db db' : Db) : Prop where
  live : ∀ {j}, db.jobs.Has j → db'.jobs.Has j
  kept : ∀ {key receipt}, db.enqueueReceipts.find? key = some receipt →
    db'.enqueueReceipts.find? key = some receipt
  fresh : ∀ {key receipt}, db'.enqueueReceipts.find? key = some receipt →
    db.enqueueReceipts.find? key = some receipt ∨
      (db.enqueueReceipts.find? key = none ∧ ¬ db.jobs.Has receipt.jobId ∧
        db'.jobs.Has receipt.jobId)
  apart : ∀ {key key' receipt receipt'}, db'.enqueueReceipts.find? key = some receipt →
    db'.enqueueReceipts.find? key' = some receipt' → db.enqueueReceipts.find? key = none →
    db.enqueueReceipts.find? key' = none → receipt.jobId = receipt'.jobId → key = key'

namespace Registers

theorem of_same (live : ∀ {j}, db.jobs.Has j → db'.jobs.Has j)
    (receipts : db'.enqueueReceipts = db.enqueueReceipts) : Registers db db' where
  live := live
  kept := fun found => receipts ▸ found
  fresh := fun found => .inl (receipts ▸ found)
  apart := by
    intro key key' receipt receipt' found _ free
    rw [receipts, free] at found
    cases found

/-- Additions follow each other. -/
theorem trans {db'' : Db} (first : Registers db db') (second : Registers db' db'') :
    Registers db db'' where
  live := fun has => second.live (first.live has)
  kept := fun found => second.kept (first.kept found)
  fresh := by
    intro key receipt found
    rcases second.fresh found with stood | ⟨free, absent, has⟩
    · rcases first.fresh stood with old | ⟨free, absent, has⟩
      · exact .inl old
      · exact .inr ⟨free, absent, second.live has⟩
    · refine .inr ⟨?_, fun was => absent (first.live was), has⟩
      refine Option.eq_none_iff_forall_ne_some.mpr fun old was => ?_
      rw [first.kept was] at free
      cases free
  apart := by
    intro key key' receipt receipt' found found' free free' same
    -- Each of the two was written by the first part or by the second.
    rcases second.fresh found with stood | ⟨middle, absent, -⟩
    · rcases second.fresh found' with stood' | ⟨-, absent', -⟩
      · exact first.apart stood stood' free free' same
      · rcases first.fresh stood with old | ⟨-, -, has⟩
        · cases free.symm.trans old
        · exact absurd (same ▸ has) absent'
    · rcases second.fresh found' with stood' | ⟨middle', -, -⟩
      · rcases first.fresh stood' with old | ⟨-, -, has⟩
        · cases free'.symm.trans old
        · exact absurd (same.symm ▸ has) absent
      · exact second.apart found found' middle middle' same

/-- A job is inserted, alone or with its receipt. -/
theorem of_insert {row : JobRow} (inserted : db.jobs.insert row = some db'.jobs)
    (receipts : db'.enqueueReceipts = db.enqueueReceipts ∨ ∃ receipt, receipt.jobId = row.id ∧
      db.enqueueReceipts.insert receipt = some db'.enqueueReceipts) : Registers db db' := by
  have live : ∀ {j}, db.jobs.Has j → db'.jobs.Has j :=
    fun has => (Table.has_of_insert inserted).mpr (.inl has)
  rcases receipts with same | ⟨written, own, inserted'⟩
  · exact of_same live same
  have free := Table.not_has_of_insert inserted'
  have find : ∀ {key receipt}, db'.enqueueReceipts.find? key = some receipt →
      (key = written.key ∧ receipt = written) ∨ db.enqueueReceipts.find? key = some receipt := by
    intro key receipt found
    rw [Table.find?_of_insert inserted'] at found
    split at found
    · rename_i here
      exact .inl ⟨here, (Option.some.inj found).symm⟩
    · exact .inr found
  refine ⟨live, fun {key receipt} found => ?_, fun {key receipt} found => ?_, ?_⟩
  · have apart : key ≠ written.key := fun same =>
      free (Table.has_iff_find?.mpr ⟨receipt, same ▸ found⟩)
    rw [Table.find?_of_insert inserted', if_neg apart]
    exact found
  · rcases find found with ⟨rfl, rfl⟩ | old
    · refine .inr ⟨Table.not_has_iff.mp free, ?_, ?_⟩
      · rw [own]
        exact Table.not_has_of_insert inserted
      · rw [own]
        exact (Table.has_of_insert inserted).mpr (.inr rfl)
    · exact .inl old
  · intro key key' receipt receipt' found found' unused unused' _
    rcases find found with ⟨rfl, -⟩ | old
    · rcases find found' with ⟨rfl, -⟩ | old'
      · rfl
      · cases unused'.symm.trans old'
    · cases unused.symm.trans old

end Registers

/-- An insertion adds a job, and at most one receipt, its own. -/
theorem insertEnqueued_registers {k : ℕ} {req : AddJobRequest} {receiptRequest : Option Bytes}
    {now : ℤ} {out : EnqueueOutcome}
    (ok : insertEnqueued ext service t k db req receiptRequest now = .ok out) :
    Registers db out.db := by
  obtain ⟨db₁, db₂, availableAt, depth, trace, jobs, admitted, -, -, -, chained, insert, written,
    -⟩ := insertEnqueued_ok ok
  have books := (admitRequest_ok (t := 0) (k := 0) admitted).1.trans (checkChain_ok chained).1
  rw [books.jobs] at insert
  cases receiptRequest with
  | none =>
    rw [← Except.ok.inj written]
    exact .of_insert insert (.inl books.enqueueReceipts)
  | some original =>
    obtain ⟨receipts, inserted, same⟩ := insertReceipt_ok written
    rw [books.enqueueReceipts] at inserted
    rw [same]
    exact .of_insert insert (.inr ⟨_, rfl, inserted⟩)

theorem intake_registers : IntakeRelation ext service t (fun _ => True) Registers where
  refl := fun _ => .of_same id rfl
  trans := Registers.trans
  inserted := fun _ => insertEnqueued_registers

/-- The planting of a flow adds jobs and their receipts. -/
theorem plant_registers : PlantRelation ext Registers where
  refl := fun _ => .of_same id rfl
  trans := Registers.trans
  inserted := by
    intro place now db node db' ok
    obtain ⟨jobs, insert, -, ⟨-, rfl⟩ | ⟨-, written⟩⟩ := insertNode_ok ok
    · exact .of_insert insert (.inl rfl)
    · obtain ⟨receipts, inserted, rfl⟩ := insertReceipt_ok written
      exact .of_insert insert (.inr ⟨_, rfl, inserted⟩)
  adopted := by
    intro db target
    unfold adoptTree
    split
    · exact .of_same id rfl
    · refine .of_same (fun has => ?_) rfl
      rw [Table.has_modify]
      exact has
  regated := by
    intro db target n clock
    unfold regate
    split
    · refine .of_same (fun has => ?_) rfl
      rw [Table.has_modify, Table.has_modify]
      exact has
    · refine .of_same (fun has => ?_) rfl
      rw [Table.has_modify]
      exact has

theorem serve_registers (enqueues : op.Enqueues) :
    Registers db (serve ext service t db op).1 := by
  refine intake_registers.serve (fun db now name record => ?_) (fun _ _ _ _ _ => .of_same id rfl)
    enqueues
  have jobs := recordRejection_view Db.jobs (fun _ _ _ => rfl) db now name record
  have receipts := recordRejection_view Db.enqueueReceipts (fun _ _ _ => rfl) db now name record
  exact .of_same (fun has => jobs ▸ has) receipts

variable (ext service run op) in
/-- Every request that creates jobs only adds jobs and receipts. -/
theorem registers_after (creates : op.Creates) :
    Registers (dbAfter ext service run) (dbAfter ext service (run ++ [op])) := by
  have enqueued : op.Enqueues → Registers (dbAfter ext service run)
      (dbAfter ext service (run ++ [op])) := by
    intro enqueues
    rw [dbAfter_concat]
    exact serve_registers enqueues
  cases op with
  | addJob clock req => exact enqueued trivial
  | addJobBulk clock requests => exact enqueued trivial
  | runOnce clock batchSize => exact enqueued trivial
  | addFlow clock flow =>
    rcases transact_cases ext service run (.addFlow clock flow) rfl with
      ⟨-, same⟩ | ⟨⟨response, db', calls⟩, ok, -, after⟩
    · rw [not_not.mp same]
      exact .of_same id rfl
    · rw [after]
      exact plant_registers.addFlow ok
  | addFlowBulk clock flows =>
    rcases transact_cases ext service run (.addFlowBulk clock flows) rfl with
      ⟨-, same⟩ | ⟨⟨responses, db', calls⟩, ok, -, after⟩
    · rw [not_not.mp same]
      exact .of_same id rfl
    · rw [after]
      exact plant_registers.addFlowBulk ok
  | addFlowMerge clock flow =>
    rcases transact_cases ext service run (.addFlowMerge clock flow) rfl with
      ⟨-, same⟩ | ⟨⟨response, db', calls⟩, ok, -, after⟩
    · rw [not_not.mp same]
      exact .of_same id rfl
    · rw [after]
      exact plant_registers.addFlowMerge ok
  | _ => exact creates.elim

/-! ## No two receipts name the same job -/

/-- No two receipts name the same job. -/
def Db.ReceiptsApart (db : Db) : Prop :=
  ∀ key key' receipt receipt', db.enqueueReceipts.find? key = some receipt →
    db.enqueueReceipts.find? key' = some receipt' → receipt.jobId = receipt'.jobId → key = key'

/-- Only a request that creates jobs writes receipts. -/
theorem Op.Emits.creates_of_registers {e : Event} {receipt : Receipt}
    (emits : op.Emits service db e) (registers : e.registers = some receipt) : op.Creates := by
  obtain ⟨request, rfl⟩ := Event.receipted_of_registers registers
  cases op with
  | getNextJob _ _ | heartbeat _ _ | completeJob _ _ | failJob _ _ _ | recoverExpired _ _ =>
    exact (emits.isWork trivial).elim
  | addJob _ _ | addJobBulk _ _ | addFlow _ _ | addFlowBulk _ _ | addFlowMerge _ _ | runOnce _ _ =>
    exact trivial
  | _ => exact emits.elim

/-- Only the operations that create jobs write receipts. -/
theorem receipt_stood (other : ¬ op.Creates) {key : String × String} {receipt : Receipt}
    (found : (dbAfter ext service (run ++ [op])).enqueueReceipts.find? key = some receipt) :
    (dbAfter ext service run).enqueueReceipts.find? key = some receipt := by
  rcases stood_or_registers_of_chain (next_chain ext service run op) found with
    stood | ⟨e, mem, registers⟩
  · exact stood
  · obtain ⟨slot, refines⟩ := eventsOf_refines ext service run op
    rcases List.mem_append.mp mem with here | last
    · exact absurd ((refines.emits e here).creates_of_registers registers) other
    · rw [List.mem_singleton.mp last] at registers
      cases registers

variable (ext service) in
/-- **Receipts name different jobs**, in every run. -/
theorem receipts_apart_after (run : List Op) : (dbAfter ext service run).ReceiptsApart := by
  induction run using List.reverseRecOn with
  | nil =>
    intro key key' receipt receipt' found
    cases found
  | append_singleton run op ih =>
    by_cases creates : op.Creates
    · have registers := registers_after ext service run op creates
      have registered := registered_after ext service run
      -- An id that was drawn before and is not live any more never comes back.
      have drawn : ∀ {key receipt}, (dbAfter ext service run).enqueueReceipts.find? key =
          some receipt → ¬ (dbAfter ext service run).jobs.Has receipt.jobId →
          ¬ (dbAfter ext service (run ++ [op])).jobs.Has receipt.jobId := by
        intro key receipt stood gone
        have never := Ledger.Sound.gone_of_chain (next_chain ext service run op)
          (registered.drawn stood) (Table.not_has_iff.mp gone)
        exact Table.not_has_iff.mpr never
      intro key key' receipt receipt' found found' same
      rcases registers.fresh found with old | ⟨free, absent, has⟩
      · rcases registers.fresh found' with old' | ⟨-, absent', has'⟩
        · exact ih key key' receipt receipt' old old' same
        · exact absurd (same ▸ has') (drawn old (same ▸ absent'))
      · rcases registers.fresh found' with old' | ⟨free', -, -⟩
        · exact absurd (same ▸ has) (drawn old' (same ▸ absent))
        · exact registers.apart found found' free free' same
    · intro key key' receipt receipt' found found' same
      exact ih key key' receipt receipt' (receipt_stood creates found)
        (receipt_stood creates found') same

variable (ext service) in
/-- **A receipt names a job that was live at some point.** -/
theorem created_of_receipt (run : List Op) {key : String × String} {receipt : Receipt}
    (found : (dbAfter ext service run).enqueueReceipts.find? key = some receipt) :
    Created ext service run receipt.jobId := by
  induction run using List.reverseRecOn with
  | nil => cases found
  | append_singleton run op ih =>
    have earlier : (dbAfter ext service run).enqueueReceipts.find? key = some receipt →
        Created ext service (run ++ [op]) receipt.jobId := by
      intro stood
      obtain ⟨before, part, live⟩ := ih stood
      exact ⟨before, part.trans (List.prefix_append run [op]), live⟩
    by_cases creates : op.Creates
    · rcases (registers_after ext service run op creates).fresh found with stood | ⟨-, -, live⟩
      · exact earlier stood
      · exact ⟨run ++ [op], List.prefix_rfl, live⟩
    · exact earlier (receipt_stood creates found)

/-! ## An `AddJob` under a key -/

/-- **The outcomes of an `AddJob` under a key.** -/
inductive Delivered (req : AddJobRequest) (db : Db) : Served → Prop
  /-- It is refused, and jobs and receipts stay as they are. -/
  | refused {db' : Db} {status : Status} (jobs : db'.jobs = db.jobs)
      (receipts : db'.enqueueReceipts = db.enqueueReceipts) :
      Delivered req db (db', .error status)
  /-- It is answered from the receipt of its key. -/
  | replayed {receipt : Receipt}
      (found : db.receiptFor req.name req.idempotencyKey = some receipt) :
      Delivered req db (db, .ok (.enqueued [receipt.replay], []))
  /-- It inserts one job and writes the receipt of its key. -/
  | created {db' : Db} {row : JobRow} {receipt : Receipt} {calls : List MetricCall}
      (free : db.receiptFor req.name req.idempotencyKey = none)
      (rows : db'.jobs.rows = db.jobs.rows ++ [row])
      (parent : row.parentId = (req.metadata.getD {}).parentColumn)
      (found : db'.receiptFor req.name req.idempotencyKey = some receipt)
      (own : receipt.jobId = row.id) :
      Delivered req db
        (db', .ok (.enqueued [{ id := row.id, state := row.state, replayed := false }], calls))

/-- No job is new where the jobs are the same. -/
theorem newRows_of_same (jobs : db'.jobs = db.jobs) : newRows db db' = [] := by
  refine newRows_of_append ?_
  rw [jobs, List.append_nil]

/-- What the insertion of a keyed request leaves: its row and its receipt. -/
theorem insertEnqueued_created {k : ℕ} {req : AddJobRequest} {bytes : Bytes} {now : ℤ}
    {out : EnqueueOutcome}
    (ok : insertEnqueued ext service t k db req (some bytes) now = .ok out) :
    ∃ row, out.db.jobs.rows = db.jobs.rows ++ [row] ∧
      row.parentId = (req.metadata.getD {}).parentColumn ∧
      out.response = { id := row.id, state := row.state, replayed := false } ∧
      out.db.receiptFor req.name req.idempotencyKey = some (enqueueReceipt req bytes row now) := by
  obtain ⟨db₁, db₂, availableAt, depth, trace, jobs, admitted, -, -, -, chained, insert, written,
    response, -⟩ := insertEnqueued_ok ok
  have books := (admitRequest_ok (t := 0) (k := 0) admitted).1.trans (checkChain_ok chained).1
  obtain ⟨receipts, inserted, same⟩ := insertReceipt_ok written
  rw [books.jobs] at insert
  refine ⟨_, ?_, rfl, response, ?_⟩
  · rw [same]
    exact Table.rows_of_insert insert
  · rw [Db.receiptFor, same, Table.find?_of_insert inserted]
    exact if_pos rfl

variable (ext service) in
/-- **`AddJob` under a key**, by how it is served. -/
theorem addJob_delivered (run : List Op) (clock : Clock) {req : AddJobRequest}
    (keyed : req.idempotencyKey ≠ "") :
    Delivered req (dbAfter ext service run)
      (servedNext ext service run (.addJob clock req)) := by
  set db := dbAfter ext service run with here
  cases valid : validateAndPrepare ext service.maxExecutionDepth req with
  | error status =>
    have served : servedNext ext service run (.addJob clock req) = (db, .error status) := by
      simp only [servedNext, serve, enqueue, valid]
      rfl
    rw [served]
    exact .refused rfl rfl
  | ok job =>
    obtain ⟨normalized, shape, rfl⟩ := validateAndPrepare_eq valid
    rw [if_neg keyed] at valid
    have name : normalized.name = req.name := by rw [shape]
    have key : normalized.idempotencyKey = req.idempotencyKey := by rw [shape]
    have metadata : normalized.metadata.getD {} = req.metadata.getD {} := by rw [shape]; rfl
    cases one : enqueueOne ext service run.length 0 db normalized
        (some (ext.encodeToVec normalized)) (clock 0) with
    | error failure =>
      cases failure with
      | status status =>
        have served : servedNext ext service run (.addJob clock req) =
            (db, .error status) := by
          simp only [servedNext, serve, enqueue, valid, executeBatch, enqueueAll, one, ← here]
          rfl
        rw [served]
        exact .refused rfl rfl
      | rejected status record name =>
        have served : servedNext ext service run (.addJob clock req) =
            (recordRejection db (clock 0) name record, .error status) := by
          simp only [servedNext, serve, enqueue, valid, executeBatch, enqueueAll, one, ← here]
          rfl
        rw [served]
        exact .refused (recordRejection_view Db.jobs (fun _ _ _ => rfl) db _ _ _)
          (recordRejection_view Db.enqueueReceipts (fun _ _ _ => rfl) db _ _ _)
    | ok out =>
      have served : servedNext ext service run (.addJob clock req) =
          (out.db, .ok (.enqueued [out.response], out.calls ++ [])) := by
        simp only [servedNext, serve, enqueue, valid, executeBatch, enqueueAll, one, ← here]
        rfl
      rw [served]
      simp only [enqueueOne, name, key] at one
      cases found : db.receiptFor req.name req.idempotencyKey with
      | some receipt =>
        simp only [found] at one
        split at one
        · cases one
        · cases one
          exact .replayed found
      | none =>
        simp only [found] at one
        obtain ⟨row, rows, parent, response, stored⟩ := insertEnqueued_created one
        rw [name, key] at stored
        rw [metadata] at parent
        rw [response]
        exact .created found rows parent stored rfl

end AnvilMQ
