import AnvilMQ.Fts
import AnvilMQ.Relational.Pruning
import AnvilMQ.Transition.Run

/-!
# The full-text index mirrors the history

Two triggers and a batched backfill write one index.  Rows are archived and swept while the
backfill is under way, it may stop between two batches and start again, and a row may take over the
`rowid` of one that was deleted.

Once the triggers exist every statement keeps `Mirrored`, and the rows without an entry never get
more: a trigger indexes what is inserted, and a batch takes what it copies.  That bounds the
batches of a backfill whatever happens between them, and a batch that finds nothing leaves an index
that is complete and stays so.
-/

namespace AnvilMQ

open Rust Relational Transition

/-! ## Operations -/

/-- What is done to `job_history` and its index. -/
inductive FtsOp
  | setup
  /-- One round of a backfill with a batch size, under a query plan. -/
  | batch (size : ℤ) (scan : Scan Stored)
  | insert (new : Stored)
  | delete (doomed : Stored → Bool)

namespace FtsState

/-- Perform an operation, with the number of rows a batch has inserted. -/
def perform (s : FtsState) : FtsOp → Except FtsError (FtsState × ℕ)
  | .setup => .ok (s.setupBlocking, 0)
  | .batch size scan => s.backfillBatch size scan
  | .insert new => (s.insertHistory new).map fun s' => (s', 0)
  | .delete doomed => (s.deleteHistory doomed).map fun s' => (s', 0)

/-- The state after an operation; one that fails changes nothing. -/
def step (s : FtsState) (op : FtsOp) : FtsState :=
  match s.perform op with
  | .ok (s', _) => s'
  | .error _ => s

/-- The rows that the batch of an operation inserts. -/
def inserted (s : FtsState) (op : FtsOp) : ℕ :=
  match s.perform op with
  | .ok (_, n) => n
  | .error _ => 0

/-- The rowids of the index are those of the history. -/
def Covers (s : FtsState) : Prop :=
  ∃ index, s.index = some index ∧ ∀ rowid, index.Has rowid ↔ s.history.Has rowid

end FtsState

/-! ## What an operation keeps -/

/-- The index and both triggers exist, and every row of the index is the copy of a history row. -/
structure Mirrored (s : FtsState) (index : Table FtsRow.rowid) : Prop where
  created : s.index = some index
  onInsert : s.onInsert = true
  onDelete : s.onDelete = true
  mirror : MirrorOf FtsRow.ofInserted s.history index

section Step

variable {s s' : FtsState} {index : Table FtsRow.rowid}

theorem FtsState.step_of_ok (op : FtsOp) {n : ℕ} (ok : s.perform op = .ok (s', n)) :
    s.step op = s' ∧ s.inserted op = n := by
  rw [step, inserted, ok]
  exact ⟨rfl, rfl⟩

theorem FtsState.step_of_error (op : FtsOp) {error : FtsError}
    (failed : s.perform op = .error error) : s.step op = s ∧ s.inserted op = 0 := by
  rw [step, inserted, failed]
  exact ⟨rfl, rfl⟩

/-- The delete trigger removes the entries of the rows that were deleted. -/
theorem mem_foldl_erase {deleted : List Stored} {x : FtsRow} :
    x ∈ deleted.foldl (fun index old => index.erase old.rowid) index ↔
      x ∈ index ∧ ∀ old ∈ deleted, x.rowid ≠ old.rowid := by
  induction deleted generalizing index with
  | nil => simp
  | cons old rest ih => rw [List.foldl_cons, ih, Table.mem_erase, List.forall_mem_cons, and_assoc]

/-- The insert trigger accepts what the history has accepted. -/
theorem Mirrored.insert (mirrored : Mirrored s index) {new : Stored}
    {history : Table Stored.rowid} (inserted : s.history.insert new = some history) :
    ∃ index', FtsState.afterInsert { s with history } new =
        .ok { s with history, index := some index' } ∧
      Mirrored { s with history, index := some index' } index' ∧
      ∀ x ∈ missing history index', x ∈ missing s.history index := by
  obtain ⟨index', copied, mirror, fewer⟩ := mirrored.mirror.insert FtsRow.rowid_ofInserted inserted
  refine ⟨index', ?_, ⟨rfl, mirrored.onInsert, mirrored.onDelete, mirror⟩, fewer⟩
  rw [FtsState.afterInsert]
  dsimp only
  rw [if_pos mirrored.onInsert, mirrored.created]
  dsimp only
  rw [copied]

/-- The delete trigger, where there is an index, removes entry after entry. -/
theorem FtsState.afterDelete_of_index (created : s.index = some index) (trigger : s.onDelete = true)
    (deleted : List Stored) :
    s.afterDelete deleted = .ok { s with
      index := some (deleted.foldl (fun index old => index.erase old.rowid) index) } := by
  cases deleted with
  | nil => rw [afterDelete, if_neg (by simp), List.foldl_nil, ← created]
  | cons old rest => rw [afterDelete, if_pos (by simp [trigger]), created]

/-- A deletion takes the entries with the rows. -/
theorem Mirrored.delete (mirrored : Mirrored s index) (doomed : Stored → Bool) :
    ∃ s' index', s.deleteHistory doomed = .ok s' ∧ Mirrored s' index' ∧
      ∀ x ∈ missing s'.history index', x ∈ missing s.history index := by
  let index' := (s.history.rows.filter doomed).foldl
    (fun index old => index.erase old.rowid) index
  have follows : ∀ x, x ∈ index' ↔
      x ∈ index ∧ ¬ ∃ r ∈ s.history, doomed r = true ∧ r.rowid = x.rowid := by
    intro x
    rw [mem_foldl_erase]
    refine and_congr_right fun _ => ⟨?_, ?_⟩
    · rintro apart ⟨r, stored, gone, same⟩
      exact apart r (List.mem_filter.mpr ⟨stored, gone⟩) same.symm
    · intro unmatched old gone same
      obtain ⟨stored, picked⟩ := List.mem_filter.mp gone
      exact unmatched ⟨old, stored, picked, same.symm⟩
  obtain ⟨mirror, fewer⟩ := mirrored.mirror.delete FtsRow.rowid_ofInserted follows
  have triggered := FtsState.afterDelete_of_index
    (s := { s with history := s.history.delete doomed }) mirrored.created mirrored.onDelete
    (s.history.rows.filter doomed)
  exact ⟨_, index', triggered, ⟨rfl, mirrored.onInsert, mirrored.onDelete, mirror⟩, fewer⟩

/-- **What one operation keeps.**  The index stays a mirror, and the rows without an entry get
fewer by what a batch inserts. -/
theorem Mirrored.step (mirrored : Mirrored s index) (op : FtsOp) :
    ∃ index', Mirrored (s.step op) index' ∧
      (missing (s.step op).history index').length + s.inserted op ≤
        (missing s.history index).length := by
  cases op with
  | setup =>
    obtain ⟨stepped, nothing⟩ := FtsState.step_of_ok (s := s) .setup rfl
    refine ⟨index, ?_, ?_⟩
    · rw [stepped]
      refine ⟨?_, rfl, rfl, mirrored.mirror⟩
      rw [FtsState.setupBlocking, mirrored.created]
      rfl
    · rw [stepped, nothing]
      exact le_rfl
  | batch size scan =>
    obtain ⟨index', done, mirrors, fewer⟩ :=
      FtsState.backfillBatch_of_index mirrored.created size scan
    obtain ⟨stepped, count⟩ := FtsState.step_of_ok (.batch size scan) done
    rw [stepped, count]
    exact ⟨index', ⟨rfl, mirrored.onInsert, mirrored.onDelete, mirrors mirrored.mirror⟩, fewer⟩
  | insert new =>
    cases refused : s.insertHistory new with
    | error e =>
      have failed : s.perform (.insert new) = .error e := by
        rw [FtsState.perform, refused]
        rfl
      -- a statement that is refused is rolled back with its trigger
      obtain ⟨same, nothing⟩ := FtsState.step_of_error _ failed
      rw [same, nothing]
      exact ⟨index, mirrored, le_rfl⟩
    | ok s' =>
      have ok : s.perform (.insert new) = .ok (s', 0) := by
        rw [FtsState.perform, refused]
        rfl
      obtain ⟨stepped, nothing⟩ := FtsState.step_of_ok _ ok
      rw [stepped, nothing]
      rw [FtsState.insertHistory] at refused
      split at refused
      · cases refused
      · split at refused
        · cases refused
        · rename_i history inserted
          obtain ⟨index', triggered, kept, fewer⟩ := mirrored.insert inserted
          rw [triggered] at refused
          cases refused
          exact ⟨index', kept, length_missing_le fewer⟩
  | delete doomed =>
    obtain ⟨s', index', deleted, kept, fewer⟩ := mirrored.delete doomed
    have ok : s.perform (.delete doomed) = .ok (s', 0) := by
      rw [FtsState.perform, deleted]
      rfl
    obtain ⟨stepped, nothing⟩ := FtsState.step_of_ok _ ok
    rw [stepped, nothing]
    exact ⟨index', kept, length_missing_le fewer⟩

end Step

/-! ## Runs -/

section Runs

variable {s s' : FtsState} {index : Table FtsRow.rowid}

theorem Mirrored.run (mirrored : Mirrored s index) (run : List FtsOp) :
    ∃ index', Mirrored (after FtsState.step s run) index' := by
  induction run generalizing s index with
  | nil => exact ⟨index, mirrored⟩
  | cons op rest ih =>
    obtain ⟨index', kept, -⟩ := mirrored.step op
    exact ih kept

/-- Neither the index nor a trigger exists. -/
structure Bare (s : FtsState) : Prop where
  index : s.index = none
  onInsert : s.onInsert = false
  onDelete : s.onDelete = false

/-- The setup of a bare history creates an empty index and both triggers. -/
theorem Bare.setup (bare : Bare s) : Mirrored (s.step .setup) Table.empty := by
  show Mirrored s.setupBlocking Table.empty
  refine ⟨?_, rfl, rfl, fun x mem => absurd mem (Table.notMem_empty x)⟩
  rw [FtsState.setupBlocking, bare.index]
  rfl

/-- Nothing but the setup creates anything. -/
theorem Bare.step (bare : Bare s) {op : FtsOp} (other : op ≠ .setup) : Bare (s.step op) := by
  rw [FtsState.step]
  cases done : s.perform op with
  | error e => exact bare
  | ok result =>
    obtain ⟨s', n⟩ := result
    show Bare s'
    cases op with
    | setup => exact absurd rfl other
    | batch size scan =>
      -- there is no table to insert into yet
      rw [FtsState.perform, FtsState.backfillBatch, bare.index] at done
      cases done
    | insert new =>
      obtain ⟨s'', inserted, same⟩ := map_eq_ok.mp done
      cases same
      rw [FtsState.insertHistory] at inserted
      split at inserted
      · cases inserted
      · split at inserted
        · cases inserted
        · rw [FtsState.afterInsert] at inserted
          dsimp only at inserted
          rw [bare.onInsert] at inserted
          cases inserted
          exact ⟨bare.index, rfl, bare.onDelete⟩
    | delete doomed =>
      obtain ⟨s'', deleted, same⟩ := map_eq_ok.mp done
      cases same
      rw [FtsState.deleteHistory, FtsState.afterDelete] at deleted
      dsimp only at deleted
      rw [bare.onDelete] at deleted
      cases deleted
      exact ⟨bare.index, bare.onInsert, rfl⟩

/-- From a bare history on, a run that has set up is mirrored. -/
theorem Bare.run (bare : Bare s) {run : List FtsOp} (setup : .setup ∈ run) :
    ∃ index, Mirrored (after FtsState.step s run) index := by
  induction run generalizing s with
  | nil => cases setup
  | cons op rest ih =>
    rw [after_cons]
    by_cases first : op = .setup
    · subst first
      exact bare.setup.run rest
    · have later : .setup ∈ rest := (List.mem_cons.mp setup).resolve_left fun same =>
        first same.symm
      exact ih (bare.step first) later

/-- **The batches of a run copy no more rows than have no entry when it starts.** -/
theorem Mirrored.batches (mirrored : Mirrored s index) (run : List FtsOp) :
    (observe FtsState.step (fun s op => if s.inserted op = 0 then [] else [op]) s run).length ≤
      (missing s.history index).length := by
  induction run generalizing s index with
  | nil => exact Nat.zero_le _
  | cons op rest ih =>
    obtain ⟨index', kept, fewer⟩ := mirrored.step op
    have later := ih kept
    rw [observe, List.length_append]
    split
    · rw [List.length_nil]
      omega
    · rw [List.length_singleton]
      omega

/-- An index that lacks nothing covers the history. -/
theorem Mirrored.covers (mirrored : Mirrored s index) (complete : missing s.history index = []) :
    s.Covers :=
  ⟨index, mirrored.created, mirrored.mirror.has_iff_of_complete FtsRow.rowid_ofInserted complete⟩

/-- An index that lacks nothing goes on to lack nothing. -/
theorem Mirrored.covers_after (mirrored : Mirrored s index)
    (complete : missing s.history index = []) (run : List FtsOp) :
    (after FtsState.step s run).Covers := by
  induction run generalizing s index with
  | nil => exact mirrored.covers complete
  | cons op rest ih =>
    obtain ⟨index', kept, fewer⟩ := mirrored.step op
    rw [complete, List.length_nil] at fewer
    exact ih kept (List.length_eq_zero_iff.mp (by omega))

/-- A batch that inserts nothing has found nothing to insert. -/
theorem Mirrored.complete_of_empty (mirrored : Mirrored s index) {size : ℤ} {scan : Scan Stored}
    (empty : s.backfillBatch size scan = .ok (s', 0)) :
    ∃ index', Mirrored s' index' ∧ missing s'.history index' = [] := by
  obtain ⟨index', done, mirrors, fewer⟩ :=
    FtsState.backfillBatch_of_index mirrored.created size scan
  rw [empty] at done
  obtain ⟨rfl, noRows⟩ := Prod.mk.inj (Except.ok.inj done)
  -- a batch of one row or more would have had a row to select
  have nothing : missing s.history index = [] :=
    Scan.eq_nil_of_limit (by omega) (List.length_eq_zero_iff.mp noRows.symm)
  rw [nothing, List.length_nil] at fewer
  have complete : missing s.history index' = [] := List.length_eq_zero_iff.mp (by omega)
  exact ⟨index', ⟨rfl, mirrored.onInsert, mirrored.onDelete, mirrors mirrored.mirror⟩, complete⟩

/-- **The loop of a backfill returns**, with an index that lacks nothing. -/
theorem Mirrored.backfillFrom (mirrored : Mirrored s index) (size : ℤ) (scans : ℕ → Scan Stored)
    (round total : ℕ) :
    ∃ s' total' index', FtsState.backfillFrom size scans s round total = .ok (s', total') ∧
      s'.history = s.history ∧ Mirrored s' index' ∧ missing s'.history index' = [] := by
  -- on the rows without an entry, which every round but the last makes fewer
  induction left : (missing s.history index).length using Nat.strong_induction_on
    generalizing s index round total with
  | _ n ih =>
    obtain ⟨index', done, mirrors, fewer⟩ :=
      FtsState.backfillBatch_of_index mirrored.created size (scans round)
    generalize count : ((scans round).limit (max size 1).toNat
      (missing s.history index)).length = inserted at done fewer
    rw [FtsState.backfillFrom]
    split
    · rename_i failed
      rw [done] at failed
      cases failed
    · rename_i s' inserted' done'
      rw [done] at done'
      cases done'
      split
      · rename_i noRows
        subst noRows
        obtain ⟨index'', kept, complete⟩ := mirrored.complete_of_empty done
        exact ⟨_, total, index'', rfl, rfl, kept, complete⟩
      · have kept : Mirrored { s with index := some index' } index' :=
          ⟨rfl, mirrored.onInsert, mirrored.onDelete, mirrors mirrored.mirror⟩
        have smaller : (missing s.history index').length < n := by omega
        exact ih _ smaller kept (round + 1) (total + inserted) rfl

/-- The index refuses no row that the history accepts. -/
theorem Mirrored.accepts (mirrored : Mirrored s index) (new : Stored) :
    (s.insertHistory new).isOk = (FtsState.insertHistory { history := s.history } new).isOk := by
  rw [FtsState.insertHistory, FtsState.insertHistory]
  split
  · rfl
  · cases inserted : s.history.insert new with
    | none => rfl
    | some history =>
      obtain ⟨index', triggered, -⟩ := mirrored.insert inserted
      dsimp only
      rw [triggered]
      rfl

/-- **Enabling the index at start-up** returns, with an index that covers the history from then
on. -/
theorem Bare.enableFts (bare : Bare s) (size : ℤ) (scans : ℕ → Scan Stored) :
    ∃ s' total, s.enableFts size scans = .ok (s', total) ∧ s'.history = s.history ∧
      ∀ more, (after FtsState.step s' more).Covers := by
  have mirrored : Mirrored s.setupBlocking Table.empty := bare.setup
  obtain ⟨s', total, index, returned, same, kept, complete⟩ :=
    mirrored.backfillFrom size scans 0 0
  exact ⟨s', total, returned, same, kept.covers_after complete⟩

end Runs

/-! ## The index mirrors the history -/

/-- **What holds in every run from a state.** -/
structure FullTextMirrors (start : FtsState) : Prop where
  /-- Once it was set up, every row of the index has the columns of the history row with its rowid,
  and no rowid is indexed twice. -/
  mirrors : ∀ run, .setup ∈ run → ∃ index, (after FtsState.step start run).index = some index ∧
    (∀ x ∈ index, ∃ stored ∈ (after FtsState.step start run).history,
      x.rowid = stored.rowid ∧ x.id = stored.row.id ∧ x.name = stored.row.name ∧
        x.traceId = stored.row.traceId ∧ x.lastError = stored.row.lastError) ∧
    (index.rows.map FtsRow.rowid).Nodup
  /-- The index is no reason to refuse a history row, a deletion or a batch. -/
  accepts : ∀ run, .setup ∈ run →
    (∀ new, ((after FtsState.step start run).insertHistory new).isOk =
      (FtsState.insertHistory { history := (after FtsState.step start run).history } new).isOk) ∧
    (∀ doomed, ((after FtsState.step start run).deleteHistory doomed).isOk = true) ∧
    ∀ size scan, ((after FtsState.step start run).backfillBatch size scan).isOk = true
  /-- A backfill whose batches are interleaved with anything has only as many that insert a row as
  there are rows without an entry. -/
  batches : ∀ run more, .setup ∈ run →
    (observe FtsState.step (fun s op => if s.inserted op = 0 then [] else [op])
      (after FtsState.step start run) more).length ≤
      (after FtsState.step start run).unindexed.length
  /-- After a batch that inserts nothing the rowids are those of the history, and stay so. -/
  completes : ∀ run size scan s, .setup ∈ run →
    (after FtsState.step start run).backfillBatch size scan = .ok (s, 0) →
    ∀ more, (after FtsState.step s more).Covers
  /-- A backfill that is not interrupted returns after such a batch. -/
  returns : ∀ run size scans, .setup ∈ run → ∃ s total,
    (after FtsState.step start run).backfillBlocking size scans = .ok (s, total) ∧
    s.history = (after FtsState.step start run).history ∧
    ∀ more, (after FtsState.step s more).Covers

/-- **The full-text index mirrors the history**, from every history without an index. -/
theorem full_text_mirrors (history : Table Stored.rowid) : FullTextMirrors { history } := by
  have bare : Bare { history } := ⟨rfl, rfl, rfl⟩
  constructor
  · intro run setup
    obtain ⟨index, mirrored⟩ := bare.run setup
    refine ⟨index, mirrored.created, fun x mem => ?_, index.nodup⟩
    obtain ⟨stored, here, rfl⟩ := mirrored.mirror x mem
    exact ⟨stored, here, rfl, rfl, rfl, rfl, rfl⟩
  · intro run setup
    obtain ⟨index, mirrored⟩ := bare.run setup
    refine ⟨mirrored.accepts, fun doomed => ?_, fun size scan => ?_⟩
    · obtain ⟨s, index', deleted, -⟩ := mirrored.delete doomed
      rw [deleted]
      rfl
    · obtain ⟨index', done, -⟩ := FtsState.backfillBatch_of_index mirrored.created size scan
      rw [done]
      rfl
  · intro run more setup
    obtain ⟨index, mirrored⟩ := bare.run setup
    rw [FtsState.unindexed, mirrored.created]
    exact mirrored.batches more
  · intro run size scan s setup empty more
    obtain ⟨index, mirrored⟩ := bare.run setup
    obtain ⟨index', kept, complete⟩ := mirrored.complete_of_empty empty
    exact kept.covers_after complete more
  · intro run size scans setup
    obtain ⟨index, mirrored⟩ := bare.run setup
    obtain ⟨s, total, index', returned, same, kept, complete⟩ :=
      mirrored.backfillFrom size scans 0 0
    exact ⟨s, total, returned, same, kept.covers_after complete⟩

/-- A history row of a job. -/
def archivedAs (id : JobId) : HistoryRow where
  id
  name := "mail"
  state := .failed
  priority := 0
  payload := []
  parentId := none
  traceId := "t"
  executionDepth := 0
  attempts := 1
  maxAttempts := 1
  createdAt := 0
  finishedAt := 0
  workerId := none
  lastError := some "boom"
  rateLimitFacet := none

/-- The `rowid` of a row that was swept comes back, and the entry under it is that of the new
row. -/
example :
    let run := [.insert ⟨1, archivedAs "a"⟩, .setup, .batch 0 .stored, .delete fun _ => true,
      .insert ⟨1, archivedAs "b"⟩]
    (after FtsState.step { history := .empty } run).index.map Table.rows =
      some [FtsRow.ofInserted ⟨1, archivedAs "b"⟩] := by decide +kernel

end AnvilMQ
