import AnvilMQ.Relational.Mirror
import AnvilMQ.Schema

/-!
# The full-text index

`src/fts.rs`: the table `job_history_fts` with its two triggers, and the backfill of the rows that
were archived before.  A row of `job_history` has an implicit `rowid` beside its primary key, and
the index is keyed by it.  SQLite gives a new row a `rowid` that no row of the table has; one that
a deleted row had may come back.

The index is the rows it holds; what its tokenizer makes of them enters with the queries of
`/v1/search`, in `Search`.
-/

namespace AnvilMQ

open Rust Relational

/-- A row of `job_history` with its `rowid`. -/
structure Stored where
  rowid : ℤ
  row : HistoryRow
deriving DecidableEq

/-- A row of `job_history_fts`. -/
structure FtsRow where
  rowid : ℤ
  id : JobId
  name : String
  traceId : String
  lastError : Option String
deriving DecidableEq

/-- `VALUES (new.rowid, new.id, new.name, new.trace_id, new.last_error)`, of the trigger
`job_history_fts_ai`. -/
def FtsRow.ofInserted (new : Stored) : FtsRow where
  rowid := new.rowid
  id := new.row.id
  name := new.row.name
  traceId := new.row.traceId
  lastError := new.row.lastError

/-- `SELECT h.rowid, h.id, h.name, h.trace_id, h.last_error`, of the backfill. -/
def FtsRow.ofSelected (h : Stored) : FtsRow where
  rowid := h.rowid
  id := h.row.id
  name := h.row.name
  traceId := h.row.traceId
  lastError := h.row.lastError

theorem FtsRow.rowid_ofInserted (new : Stored) : (FtsRow.ofInserted new).rowid = new.rowid := rfl

/-- The two column lists agree. -/
theorem FtsRow.ofSelected_eq : FtsRow.ofSelected = FtsRow.ofInserted := rfl

/-- `job_history` and what `SETUP_SQL` adds to it. -/
structure FtsState where
  history : Table Stored.rowid
  /-- `job_history_fts`, once it was created. -/
  index : Option (Table FtsRow.rowid) := none
  /-- The trigger `job_history_fts_ai` exists. -/
  onInsert : Bool := false
  /-- The trigger `job_history_fts_ad` exists. -/
  onDelete : Bool := false

/-- Why a statement fails. -/
inductive FtsError
  | noSuchTable
  | constraint
deriving DecidableEq

namespace FtsState

/-- `setup_blocking`: what exists is left as it is. -/
def setupBlocking (s : FtsState) : FtsState :=
  { s with
    index := some (s.index.getD .empty)
    onInsert := true
    onDelete := true }

/-- `job_history_fts_ai`. -/
def afterInsert (s : FtsState) (new : Stored) : Except FtsError FtsState :=
  if s.onInsert then
    match s.index with
    | none => .error .noSuchTable
    | some index =>
      match index.insert (.ofInserted new) with
      | none => .error .constraint
      | some index => .ok { s with index := some index }
  else .ok s

/-- `INSERT INTO job_history`, with its trigger.  The primary key is the `id`. -/
def insertHistory (s : FtsState) (new : Stored) : Except FtsError FtsState :=
  if s.history.rows.any fun old => decide (old.row.id = new.row.id) then .error .constraint
  else
    match s.history.insert new with
    | none => .error .constraint
    | some history => afterInsert { s with history } new

/-- `job_history_fts_ad`, for each row that was deleted. -/
def afterDelete (s : FtsState) (deleted : List Stored) : Except FtsError FtsState :=
  if s.onDelete && !deleted.isEmpty then
    match s.index with
    | none => .error .noSuchTable
    | some index =>
      let index := deleted.foldl (fun index old => index.erase old.rowid) index
      .ok { s with index := some index }
  else .ok s

/-- `DELETE FROM job_history WHERE …`, with its trigger. -/
def deleteHistory (s : FtsState) (doomed : Stored → Bool) : Except FtsError FtsState :=
  afterDelete { s with history := s.history.delete doomed } (s.history.rows.filter doomed)

/-- The rows without an entry of the index:
`NOT EXISTS (SELECT 1 FROM job_history_fts f WHERE f.rowid = h.rowid)`. -/
def unindexed (s : FtsState) : List Stored := missing s.history (s.index.getD .empty)

/-- One round of the loop of `backfill_blocking`, with the number of rows inserted. -/
def backfillBatch (s : FtsState) (batch : ℤ) (scan : Scan Stored) :
    Except FtsError (FtsState × ℕ) :=
  match s.index with
  | none => .error .noSuchTable
  | some index =>
    let rows := scan.limit (max batch 1).toNat (missing s.history index)
    match index.insertAll (rows.map .ofSelected) with
    | none => .error .constraint
    | some index => .ok ({ s with index := some index }, rows.length)

/-- A round on an index inserts the rows it selects, and they are unindexed no more. -/
theorem backfillBatch_of_index {s : FtsState} {index : Table FtsRow.rowid}
    (exists_ : s.index = some index) (batch : ℤ) (scan : Scan Stored) :
    ∃ index', s.backfillBatch batch scan = .ok ({ s with index := some index' },
        (scan.limit (max batch 1).toNat (missing s.history index)).length) ∧
      (MirrorOf FtsRow.ofInserted s.history index → MirrorOf FtsRow.ofInserted s.history index') ∧
      (missing s.history index').length +
          (scan.limit (max batch 1).toNat (missing s.history index)).length ≤
        (missing s.history index).length := by
  have nodup : ((scan.limit (max batch 1).toNat (missing s.history index)).map
    Stored.rowid).Nodup := Scan.nodup_map_limit (nodup_missing s.history index)
  obtain ⟨index', all, mirrors, fewer⟩ := insertAll_missing FtsRow.rowid_ofInserted nodup
    fun _ => Scan.mem_of_mem_limit
  refine ⟨index', ?_, mirrors, fewer⟩
  rw [backfillBatch, exists_]
  dsimp only
  rw [FtsRow.ofSelected_eq, all]

/-- A round leaves fewer rows without an entry, by as many as it has inserted. -/
theorem unindexed_of_backfillBatch {s s' : FtsState} {batch : ℤ} {scan : Scan Stored}
    {inserted : ℕ} (ok : s.backfillBatch batch scan = .ok (s', inserted)) :
    s'.unindexed.length + inserted ≤ s.unindexed.length := by
  cases created : s.index with
  | none =>
    rw [backfillBatch, created] at ok
    cases ok
  | some index =>
    obtain ⟨index', done, -, fewer⟩ := backfillBatch_of_index created batch scan
    rw [done] at ok
    cases ok
    rw [unindexed, unindexed, created]
    exact fewer

/-- The loop of `backfill_blocking` from a round on. -/
def backfillFrom (batch : ℤ) (scans : ℕ → Scan Stored) (s : FtsState) (round total : ℕ) :
    Except FtsError (FtsState × ℕ) :=
  match _done : s.backfillBatch batch (scans round) with
  | .error error => .error error
  | .ok (s', inserted) =>
    if inserted = 0 then .ok (s', total)
    else backfillFrom batch scans s' (round + 1) (total + inserted)
termination_by s.unindexed.length
decreasing_by
  have fewer := unindexed_of_backfillBatch _done
  omega

/-- `backfill_blocking`. -/
def backfillBlocking (s : FtsState) (batch : ℤ) (scans : ℕ → Scan Stored) :
    Except FtsError (FtsState × ℕ) :=
  backfillFrom batch scans s 0 0

/-- `DatabaseManager::enable_fts`. -/
def enableFts (s : FtsState) (batch : ℤ) (scans : ℕ → Scan Stored) :
    Except FtsError (FtsState × ℕ) :=
  s.setupBlocking.backfillBlocking batch scans

end FtsState

end AnvilMQ
