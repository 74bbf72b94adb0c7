import AnvilMQ.Migration
import AnvilMQ.Properties.Attempts
import AnvilMQ.Properties.TreeCaps

/-!
# Migration

`run_migrations` runs at every start, on a database of any earlier version and on the
current one alike.  On the first it must add what is missing and lose nothing; on the
second it must not touch a row, although two of its statements write to `jobs`.

The statements about one table do not see the others, so the script is followed table by
table.  Only `jobs` has more to it than columns added one after another: two updates
stand between the additions, each reading columns added just before.
-/

namespace AnvilMQ.Migration

open Rust Relational Transition

variable {table : TableName} {t t' : StoredTable} {old new row : StoredRow} {db : Stored}

/-! ## Databases of earlier versions -/

/-- A table with the original columns and any of the later ones. -/
structure LegacyTable (table : TableName) (t : StoredTable) : Prop where
  original : ∀ column ∈ originalColumns table, column ∈ t.columns
  known : ∀ column ∈ t.columns, column ∈ currentColumns table

/-- A database of an earlier version.  Tables that did not exist yet are missing. -/
def Legacy (db : Stored) : Prop := ∀ table t, db.tables table = some t → LegacyTable table t

/-- The row has no value in a column. -/
def Lacks (row : StoredRow) (c : ColumnName) : Prop := row c = none ∨ row c = some .null

/-- An Active row with a null lease. -/
def GetsLease (row : StoredRow) : Prop :=
  row .state = some (.text "Active") ∧ Lacks row .leaseExpiresAtMs

/-- A row that is not Delayed with a null `available_at`. -/
def GetsAvailableAt (row : StoredRow) : Prop :=
  row .state ≠ some (.text "Delayed") ∧ Lacks row .availableAt

/-- The columns the data fix-ups write. -/
def FixedUp (table : TableName) (row : StoredRow) (c : ColumnName) : Prop :=
  table = .jobs ∧
    (c = .leaseExpiresAtMs ∧ GetsLease row ∨ c = .availableAt ∧ GetsAvailableAt row)

/-- What a migration does to a row. -/
structure RowMigrated (table : TableName) (old new : StoredRow) : Prop where
  kept : ∀ c v, old c = some v → ¬ FixedUp table old c → new c = some v
  added : ∀ column ∈ currentColumns table, old column.name = none →
    ¬ FixedUp table old column.name → new column.name = some column.default
  lease : table = .jobs → GetsLease old → new .leaseExpiresAtMs = some (.integer 0)
  availableAt : table = .jobs → GetsAvailableAt old → new .availableAt = old .createdAt

/-- The rows of a table that may not exist. -/
def rowsOf : Option StoredTable → List StoredRow
  | none => []
  | some t => t.rows

/-- What a migration does to a table: it has the current columns, and its rows are the
old ones, in order, each migrated. -/
structure TableMigrated (table : TableName) (found : Option StoredTable) (t : StoredTable) :
    Prop where
  columns : ∀ column, column ∈ t.columns ↔ column ∈ currentColumns table
  rows : List.Forall₂ (RowMigrated table) (rowsOf found) t.rows

/-! ## Columns -/

theorem original_subset (table : TableName) :
    ∀ column ∈ originalColumns table, column ∈ declaredColumns table := by
  intro column mem
  cases table with
  | jobHistory => exact List.dropLast_subset _ mem
  | enqueueReceipts => exact List.dropLast_subset _ mem
  | _ => exact mem

/-- A column of a legacy table is the current one of its name. -/
theorem LegacyTable.of_name (legacy : LegacyTable table t) {column : Column ColumnName SqlValue}
    (mem : column ∈ currentColumns table) (named : column.name ∈ t.names) :
    column ∈ t.columns := by
  obtain ⟨other, declared, same⟩ := List.mem_map.mp named
  have equal : other = column :=
    List.inj_on_of_nodup_map (currentColumns_distinct table) (legacy.known other declared) mem same
  exact equal ▸ declared

/-- Added columns leave a table legacy, and are then there. -/
theorem LegacyTable.extend (legacy : LegacyTable table t)
    {columns : List (Column ColumnName SqlValue)}
    (current : ∀ column ∈ columns, column ∈ currentColumns table)
    (extended : Extends columns t t') :
    LegacyTable table t' ∧ (∀ column ∈ t.columns, column ∈ t'.columns) ∧
      ∀ column ∈ columns, column ∈ t'.columns := by
  refine ⟨⟨fun column mem => ?_, fun column mem => ?_⟩, fun column mem => ?_, fun column mem => ?_⟩
  · exact (extended.columns column).mpr (.inl (legacy.original column mem))
  · rcases (extended.columns column).mp mem with was | ⟨added, -⟩
    · exact legacy.known column was
    · exact current column added
  · exact (extended.columns column).mpr (.inl mem)
  · refine (extended.columns column).mpr ?_
    by_cases named : column.name ∈ t.names
    · exact .inl (legacy.of_name (current column mem) named)
    · exact .inr ⟨mem, named⟩

/-- A legacy table with every later column has the current columns. -/
theorem LegacyTable.columns_iff (legacy : LegacyTable table t)
    (later : ∀ column ∈ currentColumns table, column ∉ originalColumns table →
      column ∈ t.columns) (column : Column ColumnName SqlValue) :
    column ∈ t.columns ↔ column ∈ currentColumns table := by
  refine ⟨legacy.known column, fun mem => ?_⟩
  by_cases original : column ∈ originalColumns table
  · exact legacy.original column original
  · exact later column mem original

theorem mem_names {c : ColumnName} (columns : ∀ column, column ∈ t.columns ↔
    column ∈ currentColumns table) (mem : c ∈ (currentColumns table).map Column.name) :
    c ∈ t.names := by
  obtain ⟨column, current, rfl⟩ := List.mem_map.mp mem
  exact List.mem_map_of_mem ((columns column).mpr current)

theorem declared_distinct (table : TableName) :
    ((declaredColumns table).map Column.name).Nodup := by
  have all := currentColumns_distinct table
  rw [currentColumns, List.map_append] at all
  exact (List.nodup_append'.mp all).1

/-- The table as the script finds it after `CREATE TABLE`. -/
def found (table : TableName) (existing : Option StoredTable) : StoredTable :=
  existing.getD (.create (declaredColumns table) (declared_distinct table))

theorem runAll_found (rest : List (Change ColumnName IndexName SqlValue))
    (existing : Option StoredTable) :
    runAll SqlValue.null (.createTable (declaredColumns table) :: rest) existing =
      runAll SqlValue.null rest (some (found table existing)) :=
  runAll_createTable rest (declared_distinct table) existing

theorem legacy_found (existing : Option StoredTable)
    (legacy : ∀ t, existing = some t → LegacyTable table t) :
    LegacyTable table (found table existing) := by
  cases existing with
  | some t => exact legacy t rfl
  | none =>
    refine ⟨original_subset table, fun column mem => ?_⟩
    exact List.mem_append_left _ mem

theorem rows_found (existing : Option StoredTable) :
    (found table existing).rows = rowsOf existing := by
  cases existing <;> rfl

/-! ## Tables without fix-ups -/

/-- The columns the script adds where they are missing, in its order. -/
def addedColumns (table : TableName) : List (Column ColumnName SqlValue) :=
  (changesOn table script).filterMap fun
    | .addColumn column => some column
    | _ => none

/-- The indexes of a table. -/
def indexesOn (table : TableName) : List (IndexName × List ColumnName) :=
  (changesOn table script).filterMap fun
    | .createIndex index columns => some (index, columns)
    | _ => none

theorem added_current (table : TableName) :
    ∀ column ∈ addedColumns table, column ∈ currentColumns table := by
  cases table <;> decide

theorem added_distinct (table : TableName) : ((addedColumns table).map Column.name).Nodup := by
  cases table <;> decide

theorem added_sound (table : TableName) :
    ∀ column ∈ addedColumns table, column.notNull = true → column.default ≠ SqlValue.null := by
  cases table <;> decide

/-- What is not original is added. -/
theorem added_of_current (table : TableName) :
    ∀ column ∈ currentColumns table, column ∉ originalColumns table →
      column ∈ addedColumns table := by
  cases table <;> decide

theorem indexes_known (table : TableName) :
    ∀ index ∈ indexesOn table, ∀ c ∈ index.2, c ∈ (currentColumns table).map Column.name := by
  cases table <;> decide

/-- Outside `jobs` the script creates a table, adds columns and indexes them. -/
theorem changesOn_plain (plain : table ≠ .jobs) :
    changesOn table script = .createTable (declaredColumns table) ::
      ((addedColumns table).map .addColumn ++
        (indexesOn table).map fun index => .createIndex index.1 index.2) := by
  cases table with
  | jobs => exact absurd rfl plain
  | _ => rfl

/-- A row of a legacy table lacks only columns that are added. -/
theorem LegacyTable.added_of_none (legacy : LegacyTable table t) (mem : row ∈ t.rows)
    {column : Column ColumnName SqlValue} (current : column ∈ currentColumns table)
    (missing : row column.name = none) : column ∈ addedColumns table := by
  refine added_of_current table column current fun original => ?_
  have present := (t.shaped row mem column.name).mpr
    (List.mem_map_of_mem (legacy.original column original))
  rw [missing] at present
  cases present

/-- Filling a row is all the migration does to it where nothing is fixed up. -/
theorem LegacyTable.rowMigrated (legacy : LegacyTable table t) (plain : table ≠ .jobs)
    (mem : row ∈ t.rows) : RowMigrated table row (row.fill (addedColumns table)) where
  kept := fun _ _ value _ => Row.fill_of_some value
  added := fun _ current missing _ => Row.fill_of_none (added_distinct table)
    (legacy.added_of_none mem current missing) missing
  lease := fun jobs => absurd jobs plain
  availableAt := fun jobs => absurd jobs plain

/-- Every table but `jobs` is migrated column by column. -/
theorem migrates_plain (plain : table ≠ .jobs) (existing : Option StoredTable)
    (legacy : ∀ t, existing = some t → LegacyTable table t) :
    ∃ t, runAll SqlValue.null (changesOn table script) existing = .ok (some t) ∧
      TableMigrated table existing t := by
  have older := legacy_found existing legacy
  obtain ⟨t, ran, extended⟩ := runAll_addColumns
    ((indexesOn table).map fun index => Change.createIndex index.1 index.2)
    (added_distinct table) (added_sound table)
  obtain ⟨older', -, there⟩ := older.extend (added_current table) extended
  have columns := older'.columns_iff fun column current later =>
    there column (added_of_current table column current later)
  refine ⟨t, ?_, columns, ?_⟩
  · rw [changesOn_plain plain, runAll_found]
    refine ran.trans (runAll_createIndexes _ fun index mem c mentioned => ?_)
    exact mem_names columns (indexes_known table index mem c mentioned)
  · rw [extended.rows, rows_found, List.forall₂_map_right_iff, List.forall₂_same]
    intro row mem
    rw [← rows_found] at mem
    exact older.rowMigrated plain mem

/-! ## The table of jobs -/

/-- The row after a fix-up of one column. -/
def setIf (cond : Bool) (c : ColumnName) (v : SqlValue) (row : StoredRow) : StoredRow :=
  if cond then Function.update row c (some v) else row

theorem fill_setIf (columns : List (Column ColumnName SqlValue)) (cond : Bool) (c : ColumnName)
    (v : SqlValue) (row : StoredRow) :
    Row.fill columns (setIf cond c v row) = setIf cond c v (row.fill columns) := by
  cases cond with
  | true => exact Row.fill_update columns row c v
  | false => rfl

theorem setIf_self (c : ColumnName) (v : SqlValue) (row : StoredRow) :
    setIf true c v row c = some v := by
  rw [setIf, if_pos rfl, Function.update_self]

theorem setIf_of_ne {cond : Bool} {c other : ColumnName} {v : SqlValue} (apart : other ≠ c) :
    setIf cond c v row other = row other := by
  cases cond with
  | true => exact Function.update_of_ne apart _ _
  | false => rfl

/-- The columns added before the leases are filled in, and before the schedule is. -/
def leaseColumns : List (Column ColumnName SqlValue) := (laterColumns .jobs).take 3

def scheduleColumns : List (Column ColumnName SqlValue) := ((laterColumns .jobs).drop 3).take 4

def treeColumns : List (Column ColumnName SqlValue) := (laterColumns .jobs).drop 7

/-- The statements about `jobs` from the tree columns on. -/
def treeStage : List (Change ColumnName IndexName SqlValue) :=
  treeColumns.map .addColumn ++
    [(.idxJobsParent, [.parentId]),
      (.idxJobsPressure, [.name, .state, .availableAt, .createdAt, .leaseExpiresAtMs])].map
      fun index : IndexName × List ColumnName => .createIndex index.1 index.2

/-- The statements about `jobs` from the schedule columns on. -/
def scheduleStage : List (Change ColumnName IndexName SqlValue) :=
  scheduleColumns.map .addColumn ++ fixAvailableAt.change ::
    .createIndex .idxJobsSchedulable [.priority, .createdAt, .id, .availableAt, .state] ::
      treeStage

theorem changesOn_jobs :
    changesOn .jobs script = .createTable (declaredColumns .jobs) ::
      .createIndex .idxJobsWaitingQueue [.state, .priority, .createdAt] ::
        (leaseColumns.map .addColumn ++ fixLease.change ::
          .createIndex .idxJobsActiveLease [.leaseExpiresAtMs, .state] :: scheduleStage) :=
  rfl

/-- What the first update makes of a row. -/
def withLease (row : StoredRow) : StoredRow :=
  setIf (needsLease row) .leaseExpiresAtMs (.integer 0) row

/-- What the second update makes of a row. -/
def withAvailableAt (row : StoredRow) : StoredRow :=
  setIf (needsAvailableAt row) .availableAt ((row .createdAt).getD .null) row

/-- What the statements about `jobs` make of a row. -/
def migratedJob (row : StoredRow) : StoredRow :=
  Row.fill treeColumns (withAvailableAt (Row.fill scheduleColumns
    (withLease (Row.fill leaseColumns row))))

/-- A row of `jobs` has what the fix-ups rely on. -/
structure Sound (row : StoredRow) : Prop where
  state : ∃ v, row .state = some v ∧ v ≠ .null
  createdAt : ∃ v, row .createdAt = some v ∧ v ≠ .null

theorem LegacyTable.sound (legacy : LegacyTable .jobs t) (mem : row ∈ t.rows) : Sound row := by
  have strict : ∀ column ∈ originalColumns .jobs, column.notNull = true →
      ∃ v, row column.name = some v ∧ v ≠ .null := by
    intro column original strict
    have declared := legacy.original column original
    obtain ⟨v, value⟩ := Option.isSome_iff_exists.mp
      ((t.shaped row mem column.name).mpr (List.mem_map_of_mem declared))
    refine ⟨v, value, fun null => ?_⟩
    exact t.nonNull row mem column declared strict (value.trans (congrArg some null))
  exact ⟨strict (required .state .text) (by decide) rfl,
    strict (required .createdAt .integer) (by decide) rfl⟩

theorem needsLease_iff : needsLease row = true ↔
    row .state = some (.text "Active") ∧ row .leaseExpiresAtMs = some .null := by
  simp [needsLease]

theorem needsAvailableAt_iff {v : SqlValue} (state : row .state = some v) (value : v ≠ .null) :
    needsAvailableAt row = true ↔ v ≠ .text "Delayed" ∧ row .availableAt = some .null := by
  rw [needsAvailableAt, state]
  cases v with
  | null => exact absurd rfl value
  | _ => simp [and_comm]

/-- A column that is added as `NULL` is null afterwards exactly where it had no value. -/
theorem fill_eq_null {columns : List (Column ColumnName SqlValue)} {c : ColumnName}
    (distinct : (columns.map Column.name).Nodup) (mem : nullable c .integer ∈ columns) :
    Row.fill columns row c = some .null ↔ Lacks row c := by
  cases value : row c with
  | none =>
    have filled := Row.fill_of_none distinct mem value
    exact iff_of_true filled (.inl value)
  | some v =>
    rw [Row.fill_of_some value, Lacks, value]
    simp

/-- The first update writes the leases it should. -/
theorem needsLease_fill (sound : Sound row) :
    needsLease (Row.fill leaseColumns row) = true ↔ GetsLease row := by
  obtain ⟨v, state, -⟩ := sound.state
  rw [needsLease_iff, GetsLease, Row.fill_of_some state, state,
    fill_eq_null (by decide) (by decide)]

/-- Before the second update, the row has the columns added so far. -/
theorem schedule_withLease : Row.fill scheduleColumns (withLease (Row.fill leaseColumns row)) =
    setIf (needsLease (Row.fill leaseColumns row)) .leaseExpiresAtMs (.integer 0)
      (Row.fill (leaseColumns ++ scheduleColumns) row) := by
  rw [withLease, fill_setIf, ← Row.fill_append]

/-- The second update writes the times it should. -/
theorem needsAvailableAt_fill (sound : Sound row) :
    needsAvailableAt (Row.fill scheduleColumns (withLease (Row.fill leaseColumns row))) = true ↔
      GetsAvailableAt row := by
  obtain ⟨v, state, value⟩ := sound.state
  rw [schedule_withLease]
  have filled : setIf (needsLease (Row.fill leaseColumns row)) .leaseExpiresAtMs (.integer 0)
      (Row.fill (leaseColumns ++ scheduleColumns) row) .state = some v := by
    rw [setIf_of_ne (by decide), Row.fill_of_some state]
  rw [needsAvailableAt_iff filled value, setIf_of_ne (by decide),
    fill_eq_null (by decide) (by decide), GetsAvailableAt, state]
  simp

/-- **A migrated job** has the defaults of the columns it lacked, and the two fix-ups. -/
theorem migratedJob_eq (sound : Sound row) :
    migratedJob row =
      setIf (needsAvailableAt (Row.fill scheduleColumns (withLease (Row.fill leaseColumns row))))
        .availableAt ((row .createdAt).getD .null)
        (setIf (needsLease (Row.fill leaseColumns row)) .leaseExpiresAtMs (.integer 0)
          (Row.fill (laterColumns .jobs) row)) := by
  obtain ⟨v, createdAt, -⟩ := sound.createdAt
  have read : Row.fill scheduleColumns (withLease (Row.fill leaseColumns row)) .createdAt =
      row .createdAt := by
    rw [schedule_withLease, setIf_of_ne (by decide), Row.fill_of_some createdAt, createdAt]
  have columns : laterColumns .jobs = leaseColumns ++ scheduleColumns ++ treeColumns := rfl
  rw [migratedJob, withAvailableAt, fill_setIf, read, schedule_withLease, fill_setIf, columns,
    ← Row.fill_append]

theorem migratedJob_of_ne (sound : Sound row) {c : ColumnName}
    (lease : c = .leaseExpiresAtMs → ¬ GetsLease row)
    (available : c = .availableAt → ¬ GetsAvailableAt row) :
    migratedJob row c = Row.fill (laterColumns .jobs) row c := by
  rw [migratedJob_eq sound]
  have first : setIf (needsLease (Row.fill leaseColumns row)) .leaseExpiresAtMs (.integer 0)
      (Row.fill (laterColumns .jobs) row) c = Row.fill (laterColumns .jobs) row c := by
    by_cases here : c = .leaseExpiresAtMs
    · rw [Bool.eq_false_iff.mpr (mt (needsLease_fill sound).mp (lease here))]
      rfl
    · exact setIf_of_ne here
  by_cases here : c = .availableAt
  · rw [Bool.eq_false_iff.mpr (mt (needsAvailableAt_fill sound).mp (available here))]
    exact first
  · exact (setIf_of_ne here).trans first

/-- A row of `jobs` keeps its values but for the two fix-ups. -/
theorem LegacyTable.jobMigrated (legacy : LegacyTable .jobs t) (mem : row ∈ t.rows) :
    RowMigrated .jobs row (migratedJob row) := by
  have sound := legacy.sound mem
  have untouched : ∀ c, ¬ FixedUp .jobs row c →
      migratedJob row c = Row.fill (laterColumns .jobs) row c := fun c free =>
    migratedJob_of_ne sound (fun here gets => free ⟨rfl, .inl ⟨here, gets⟩⟩)
      (fun here gets => free ⟨rfl, .inr ⟨here, gets⟩⟩)
  constructor
  case kept =>
    intro c v value free
    rw [untouched c free]
    exact Row.fill_of_some value
  case added =>
    intro column current missing free
    rw [untouched column.name free]
    exact Row.fill_of_none (added_distinct .jobs) (legacy.added_of_none mem current missing)
      missing
  case lease =>
    intro _ gets
    rw [migratedJob_eq sound, setIf_of_ne (by decide), (needsLease_fill sound).mpr gets,
      setIf_self]
  case availableAt =>
    intro _ gets
    obtain ⟨v, createdAt, -⟩ := sound.createdAt
    rw [migratedJob_eq sound, (needsAvailableAt_fill sound).mpr gets, createdAt, setIf_self]
    rfl

theorem LegacyTable.named (legacy : LegacyTable table t) {c : ColumnName}
    (mem : c ∈ (originalColumns table).map Column.name) : c ∈ t.names := by
  obtain ⟨column, original, rfl⟩ := List.mem_map.mp mem
  exact List.mem_map_of_mem (legacy.original column original)

/-- **A stage of the script**: columns are added, one that may be null is filled in, and
an index is created. -/
theorem LegacyTable.stage (legacy : LegacyTable table t)
    {columns : List (Column ColumnName SqlValue)} {reads indexed : List ColumnName}
    {target : ColumnName} {value : StoredRow → SqlValue} {cond : StoredRow → Bool}
    {index : IndexName} (rest : List (Change ColumnName IndexName SqlValue))
    (current : ∀ column ∈ columns, column ∈ currentColumns table)
    (distinct : (columns.map Column.name).Nodup)
    (sound : ∀ column ∈ columns, column.notNull = true → column.default ≠ SqlValue.null)
    (named : ∀ c ∈ target :: reads ++ indexed,
      c ∈ (originalColumns table ++ columns).map Column.name)
    (nullable : ∀ column ∈ currentColumns table, column.name = target → column.notNull = false) :
    ∃ t', runAll SqlValue.null (columns.map .addColumn ++ .update reads target value cond ::
        .createIndex index indexed :: rest) (some t) = runAll SqlValue.null rest (some t') ∧
      LegacyTable table t' ∧ (∀ column ∈ t.columns, column ∈ t'.columns) ∧
      (∀ column ∈ columns, column ∈ t'.columns) ∧
      t'.rows = DynTable.updated (t.rows.map (Row.fill columns)) target value cond := by
  obtain ⟨t₁, ran₁, extended⟩ := @runAll_addColumns _ IndexName _ SqlValue.null _ _ t columns
    (.update reads target value cond :: .createIndex index indexed :: rest) distinct sound
  obtain ⟨older, kept, there⟩ := legacy.extend current extended
  have names : ∀ c ∈ target :: reads ++ indexed, c ∈ t₁.names := by
    intro c mentioned
    obtain ⟨column, either, rfl⟩ := List.mem_map.mp (named c mentioned)
    refine List.mem_map_of_mem ?_
    exact (List.mem_append.mp either).elim (older.original column) (there column)
  rw [List.cons_append] at names
  obtain ⟨known, others⟩ := List.forall_mem_cons.mp names
  obtain ⟨t₂, ran₂, same, rows⟩ := @runAll_update _ IndexName _ SqlValue.null _ _ t₁ reads target
    value cond (.createIndex index indexed :: rest) known
    (fun c mem => others c (List.mem_append_left _ mem))
    (fun column mem => nullable column (older.known column mem))
  refine ⟨t₂, ?_, ?_, ?_, ?_, ?_⟩
  · rw [ran₁, ran₂]
    refine runAll_createIndex rest fun c mem => ?_
    rw [DynTable.names, same]
    exact others c (List.mem_append_right _ mem)
  · exact ⟨same ▸ older.original, same ▸ older.known⟩
  · rw [same]
    exact kept
  · rw [same]
    exact there
  · rw [rows, extended.rows]

theorem lease_stage (legacy : LegacyTable .jobs t) :
    ∃ t', runAll SqlValue.null (leaseColumns.map .addColumn ++ fixLease.change ::
        .createIndex .idxJobsActiveLease [.leaseExpiresAtMs, .state] :: scheduleStage) (some t) =
          runAll SqlValue.null scheduleStage (some t') ∧
      LegacyTable .jobs t' ∧ (∀ column ∈ t.columns, column ∈ t'.columns) ∧
      (∀ column ∈ leaseColumns, column ∈ t'.columns) ∧
      t'.rows = DynTable.updated (t.rows.map (Row.fill leaseColumns)) .leaseExpiresAtMs
        (fun _ => .integer 0) needsLease := by
  refine legacy.stage scheduleStage ?_ ?_ ?_ ?_ ?_ <;> decide

theorem schedule_stage (legacy : LegacyTable .jobs t) :
    ∃ t', runAll SqlValue.null scheduleStage (some t) =
          runAll SqlValue.null treeStage (some t') ∧
      LegacyTable .jobs t' ∧ (∀ column ∈ t.columns, column ∈ t'.columns) ∧
      (∀ column ∈ scheduleColumns, column ∈ t'.columns) ∧
      t'.rows = DynTable.updated (t.rows.map (Row.fill scheduleColumns)) .availableAt
        (fun row => (row .createdAt).getD .null) needsAvailableAt := by
  refine legacy.stage treeStage ?_ ?_ ?_ ?_ ?_ <;> decide

/-- The table `jobs` is migrated with its fix-ups. -/
theorem migrates_jobs (existing : Option StoredTable)
    (legacy : ∀ t, existing = some t → LegacyTable .jobs t) :
    ∃ t, runAll SqlValue.null (changesOn .jobs script) existing = .ok (some t) ∧
      TableMigrated .jobs existing t := by
  have older := legacy_found existing legacy
  -- First the leases, then the schedule, then the columns of the trees.
  obtain ⟨t₁, ran₁, older₁, -, there₁, rows₁⟩ := lease_stage older
  obtain ⟨t₂, ran₂, older₂, kept₂, there₂, rows₂⟩ := schedule_stage older₁
  obtain ⟨t₃, ran₃, extended⟩ := @runAll_addColumns _ IndexName _ SqlValue.null _ _ t₂ treeColumns
    ([(.idxJobsParent, [.parentId]),
      (.idxJobsPressure, [.name, .state, .availableAt, .createdAt, .leaseExpiresAtMs])].map
      fun index : IndexName × List ColumnName => .createIndex index.1 index.2)
    (by decide) (by decide)
  obtain ⟨older₃, kept₃, there₃⟩ := older₂.extend (by decide) extended
  have columns := older₃.columns_iff fun column current later => by
    rcases List.mem_append.mp current with declared | added
    · exact absurd declared later
    · have split : column ∈ leaseColumns ++ scheduleColumns ++ treeColumns := added
      rcases List.mem_append.mp split with front | tree
      · rcases List.mem_append.mp front with lease | schedule
        · exact kept₃ column (kept₂ column (there₁ column lease))
        · exact kept₃ column (there₂ column schedule)
      · exact there₃ column tree
  refine ⟨t₃, ?_, columns, ?_⟩
  · have waiting : ∀ c ∈ [ColumnName.state, .priority, .createdAt],
        c ∈ (found .jobs existing).names := by
      intro c mem
      refine older.named ?_
      revert c
      decide
    rw [changesOn_jobs, runAll_found, runAll_createIndex _ waiting]
    rw [ran₁, ran₂]
    refine ran₃.trans (runAll_createIndexes _ fun index mem c within => ?_)
    refine mem_names columns ?_
    revert index c
    decide
  · have rows : t₃.rows = (rowsOf existing).map migratedJob := by
      rw [extended.rows, rows₂, rows₁, rows_found]
      simp only [DynTable.updated, List.map_map]
      rfl
    rw [rows, List.forall₂_map_right_iff, List.forall₂_same]
    intro row mem
    rw [← rows_found] at mem
    exact older.jobMigrated mem

/-- **The migration succeeds on a legacy database**, and migrates every table. -/
theorem migrates (legacy : Legacy db) :
    ∃ migrated, runMigrations db = .ok migrated ∧
      (∀ table, ∃ t, migrated.tables table = some t ∧ TableMigrated table (db.tables table) t) ∧
      ∀ step ∈ script, ∀ index, step.change.index? = some index → index ∈ migrated.indexes := by
  have each : ∀ table, ∃ t, runAll SqlValue.null (changesOn table script) (db.tables table) =
      .ok (some t) ∧ TableMigrated table (db.tables table) t := by
    intro table
    by_cases jobs : table = .jobs
    · subst jobs
      exact migrates_jobs _ (legacy .jobs)
    · exact migrates_plain jobs _ (legacy table)
  obtain ⟨migrated, ran, effects, indexes⟩ := exists_execAll fun table =>
    (each table).imp' some fun _ both => both.1
  refine ⟨migrated, ran, fun table => ?_, fun step mem index creates => ?_⟩
  · obtain ⟨t, effect, done⟩ := each table
    exact ⟨t, Except.ok.inj ((effects table).symm.trans effect), done⟩
  · exact (indexes index).mpr (.inr ⟨step, mem, creates⟩)

/-! ## Current databases -/

/-- A database the migration has nothing to do on. -/
structure Current (db : Stored) : Prop where
  tables : ∀ table, ∃ t, db.tables table = some t ∧
    ∀ column, column ∈ t.columns ↔ column ∈ currentColumns table
  jobs : ∀ t, db.tables .jobs = some t → ∀ row ∈ t.rows,
    needsLease row = false ∧ needsAvailableAt row = false
  indexes : ∀ step ∈ script, ∀ index, step.change.index? = some index → index ∈ db.indexes

/-- The columns a statement refers to. -/
def mentioned : Change ColumnName IndexName SqlValue → List ColumnName
  | .createTable _ => []
  | .createIndex _ columns => columns
  | .addColumn column => [column.name]
  | .update reads column _ _ => column :: reads

theorem mentioned_current :
    ∀ step ∈ script, ∀ c ∈ mentioned step.change,
      c ∈ (currentColumns step.table).map Column.name := by
  decide

/-- Whether a statement writes to rows. -/
def updates : Change ColumnName IndexName SqlValue → Bool
  | .update _ _ _ _ => true
  | _ => false

/-- The statements that write to rows are the two fix-ups. -/
theorem script_updates : script.filter (fun step => updates step.change) =
    [fixLease, fixAvailableAt] := rfl

/-- **On a current database the migration changes nothing.** -/
theorem Current.unchanged (current : Current db) : runMigrations db = .ok db := by
  refine execAll_eq_self (fun step mem => ?_) current.indexes
  obtain ⟨t, found, columns⟩ := current.tables step.table
  have known : ∀ c ∈ mentioned step.change, c ∈ t.names := fun c mention =>
    mem_names columns (mentioned_current step mem c mention)
  rw [found]
  cases change : step.change with
  | createTable declared => rfl
  | createIndex index indexed =>
    rw [change] at known
    exact if_pos known
  | addColumn column =>
    rw [change] at known
    exact dif_pos (known column.name List.mem_cons_self)
  | update reads target value cond =>
    rw [change] at known
    have fixup : step ∈ [fixLease, fixAvailableAt] := by
      rw [← script_updates]
      exact List.mem_filter.mpr ⟨mem, by rw [change]; rfl⟩
    refine run_update_idle (known target List.mem_cons_self)
      (fun c read => known c (List.mem_cons_of_mem _ read)) fun row stored => ?_
    rcases List.mem_pair.mp fixup with rfl | rfl
    · cases change
      exact (current.jobs t found row stored).1
    · cases change
      exact (current.jobs t found row stored).2

/-- A value that is null after the migration, and was not fixed up, was missing before. -/
theorem RowMigrated.lacks (migrated : RowMigrated table old new) {c : ColumnName}
    (free : ¬ FixedUp table old c) (null : new c = some .null) : Lacks old c := by
  cases value : old c with
  | none => exact .inl value
  | some v => exact .inr (value.trans ((migrated.kept c v value free).symm.trans null))

/-- A migrated job calls for no fix-up. -/
theorem RowMigrated.fixed (sound : Sound old) (migrated : RowMigrated .jobs old new) :
    needsLease new = false ∧ needsAvailableAt new = false := by
  obtain ⟨v, state, value⟩ := sound.state
  have kept : new .state = some v := migrated.kept .state v state fun fixed => by
    rcases fixed.2 with ⟨other, -⟩ | ⟨other, -⟩ <;> cases other
  constructor
  · refine Bool.eq_false_iff.mpr fun needs => ?_
    obtain ⟨active, null⟩ := needsLease_iff.mp needs
    by_cases gets : GetsLease old
    · rw [migrated.lease rfl gets] at null
      cases null
    · refine gets ⟨state.trans (kept.symm.trans active), migrated.lacks (fun fixed => ?_) null⟩
      rcases fixed.2 with ⟨-, other⟩ | ⟨other, -⟩
      · exact gets other
      · cases other
  · refine Bool.eq_false_iff.mpr fun needs => ?_
    obtain ⟨apart, null⟩ := (needsAvailableAt_iff kept value).mp needs
    by_cases gets : GetsAvailableAt old
    · obtain ⟨w, createdAt, time⟩ := sound.createdAt
      rw [migrated.availableAt rfl gets, createdAt] at null
      exact time (Option.some.inj null)
    · have other : old .state ≠ some (.text "Delayed") := fun delayed =>
        apart (Option.some.inj (state.symm.trans delayed))
      refine gets ⟨other, migrated.lacks (fun fixed => ?_) null⟩
      rcases fixed.2 with ⟨elsewhere, -⟩ | ⟨-, here⟩
      · cases elsewhere
      · exact gets here

theorem fixed_of_migrated {before after : List StoredRow}
    (migrated : List.Forall₂ (RowMigrated .jobs) before after)
    (sound : ∀ row ∈ before, Sound row) :
    ∀ row ∈ after, needsLease row = false ∧ needsAvailableAt row = false := by
  induction migrated with
  | nil => simp
  | cons head _ ih =>
    obtain ⟨first, others⟩ := List.forall_mem_cons.mp sound
    exact List.forall_mem_cons.mpr ⟨head.fixed first, ih others⟩

/-- **A migrated database is current.** -/
theorem current_of_migrated {migrated : Stored} (legacy : Legacy db)
    (tables : ∀ table, ∃ t, migrated.tables table = some t ∧
      TableMigrated table (db.tables table) t)
    (indexes : ∀ step ∈ script, ∀ index, step.change.index? = some index →
      index ∈ migrated.indexes) : Current migrated := by
  refine ⟨fun table => ?_, fun t found => ?_, indexes⟩
  · obtain ⟨t, found, done⟩ := tables table
    exact ⟨t, found, done.columns⟩
  · obtain ⟨t', found', done⟩ := tables .jobs
    cases found.symm.trans found'
    refine fixed_of_migrated done.rows fun row mem => ?_
    cases existing : db.tables .jobs with
    | none =>
      rw [existing] at mem
      cases mem
    | some t =>
      rw [existing] at mem
      exact (legacy .jobs t existing).sound mem

/-! ## Reachable states -/

section Reachable

variable {ext : Externals} {service : Service} {run : List Op} {op : Op} {l l' : Ledger} {e : Event}

/-- A new job is given the time it becomes available. -/
theorem datedRule (service : Service) :
    InsertionRule service (fun row => row.availableAt.isSome = true) where
  enqueued := fun _ _ _ _ _ _ _ _ => rfl
  planted := fun _ _ _ _ _ => rfl

/-- No event takes the time away. -/
theorem evolve_dated (e : Event) (j : JobId) {row : JobRow} (dated : row.availableAt.isSome) :
    (e.evolve j row).availableAt.isSome := by
  cases e with
  | requeued held cause state availableAt lastError updatedAt =>
    rw [Event.evolve]
    split
    · rfl
    · exact dated
  | claimed held workerId now lease =>
    rw [Event.evolve]
    split <;> exact dated
  | renewed held lease now =>
    rw [Event.evolve]
    split <;> exact dated
  | completed held entry parent now updatedAt released =>
    rw [Event.evolve]
    split
    · rw [JobRow.countedDown]
      split <;> exact dated
    · exact dated
  | adopted target =>
    rw [Event.evolve]
    split <;> exact dated
  | regated target n updatedAt =>
    rw [Event.evolve]
    split <;> exact dated
  | _ => exact dated

/-- Every job in `jobs` has the time it becomes available. -/
theorem dated_after (ext : Externals) (service : Service) (run : List Op) {j : JobId}
    {row : JobRow} (found : (dbAfter ext service run).jobs.find? j = some row) :
    row.availableAt.isSome := by
  induction run using List.reverseRecOn generalizing j row with
  | nil => cases found
  | append_singleton run op ih =>
    by_cases has : (dbAfter ext service run).jobs.Has j
    · -- The job was there before the operation, and no event forgets its time.
      obtain ⟨old, was⟩ := Table.has_iff_find?.mp has
      have chain := next_chain ext service run op
      have drawn := (sound_after ext service run).drawn was
      refine chain.preserves_of (I := fun l => ∀ r, l.jobs j = some r → r.availableAt.isSome)
        (G := fun e => ∀ newborn, e.born = some newborn → newborn.id ≠ j) ?_ ?_
        (fun r live => ih live) row found
      · intro l e l' unborn step dated r live
        rw [step.2] at live
        rcases Ledger.apply_jobs live with ⟨born, here⟩ | ⟨before, lived, rfl, -⟩
        · exact absurd here (unborn r born)
        · exact evolve_dated e j (dated before lived)
      · rintro e mem newborn born rfl
        exact Ledger.Sound.born_not_drawn chain mem born drawn
    · have inserted : row ∈ insertedBy ext service run op := by
        refine List.mem_filter.mpr ⟨Table.mem_of_find? found, ?_⟩
        rw [Table.key_of_find? found]
        simpa using has
      exact (datedRule service).insertedBy row inserted

/-- The lease and the time of a stored job. -/
theorem ofEntries_jobEntries (row : JobRow) :
    Row.ofEntries (jobEntries row) .state = some (liveText row.state) ∧
      Row.ofEntries (jobEntries row) .leaseExpiresAtMs =
        some (.ofOption .integer row.leaseExpiresAtMs) ∧
      Row.ofEntries (jobEntries row) .availableAt = some (.ofOption .integer row.availableAt) :=
  ⟨rfl, rfl, rfl⟩

theorem ofOption_ne_null {α : Type} {value : α → SqlValue} (proper : ∀ a, value a ≠ .null)
    {a : Option α} (present : a.isSome) : SqlValue.ofOption value a ≠ .null := by
  cases a with
  | none => cases present
  | some a => exact proper a

/-- **The database of every reachable state is current.** -/
theorem stored_current (ext : Externals) (service : Service) (run : List Op) :
    Current (stored (dbAfter ext service run)) := by
  refine ⟨fun table => ⟨_, rfl, fun column => Iff.rfl⟩, fun t found row mem => ?_,
    fun step mem index creates => List.mem_filterMap.mpr ⟨step, mem, creates⟩⟩
  cases found
  obtain ⟨entries, written, rfl⟩ := List.mem_map.mp mem
  obtain ⟨job, live, rfl⟩ := List.mem_map.mp written
  have here := Table.find?_of_mem live
  obtain ⟨state, lease, time⟩ := ofEntries_jobEntries job
  constructor
  · refine Bool.eq_false_iff.mpr fun needs => ?_
    obtain ⟨active, null⟩ := needsLease_iff.mp needs
    rw [state] at active
    have running : job.state = .active := by
      cases held : job.state with
      | active => rfl
      | _ =>
        rw [held] at active
        simp [liveText] at active
    obtain ⟨-, -, -, leased⟩ := ((budget_after ext service run).budgeted here).held running
    rw [lease] at null
    exact ofOption_ne_null (fun _ => SqlValue.noConfusion) leased (Option.some.inj null)
  · refine Bool.eq_false_iff.mpr fun needs => ?_
    have null := ((needsAvailableAt_iff state (liveText_ne_null _)).mp needs).2
    rw [time] at null
    exact ofOption_ne_null (fun _ => SqlValue.noConfusion) (dated_after ext service run here)
      (Option.some.inj null)

end Reachable

/-! ## The guarantee -/

/-- **The migration is safe.**  On every database of an earlier version it succeeds, with
the full current columns, every old value but the two fix-ups, and the declared defaults;
a second run changes nothing; and neither does a run on the database of a reachable state. -/
theorem run_migrations_safe :
    (∀ db : Stored, Legacy db → ∃ migrated, runMigrations db = .ok migrated ∧
      (∀ table, ∃ t, migrated.tables table = some t ∧ TableMigrated table (db.tables table) t) ∧
      runMigrations migrated = .ok migrated) ∧
    ∀ ext service run, runMigrations (stored (dbAfter ext service run)) =
      .ok (stored (dbAfter ext service run)) := by
  constructor
  · intro db legacy
    obtain ⟨migrated, ran, tables, indexes⟩ := migrates legacy
    exact ⟨migrated, ran, tables, (current_of_migrated legacy tables indexes).unchanged⟩
  · intro ext service run
    exact (stored_current ext service run).unchanged

/-- A job of a database without any later column. -/
def oldJob : List (ColumnName × SqlValue) :=
  [(.id, .text "job"), (.name, .text "mail"), (.state, .text "Active"), (.priority, .integer 0),
    (.payload, .blob []), (.parentId, .null), (.traceId, .text "trace"),
    (.executionDepth, .integer 0), (.attempts, .integer 1), (.maxAttempts, .integer 3),
    (.createdAt, .integer 7), (.updatedAt, .integer 9), (.rateLimitFacet, .null)]

/-- A database of the first version, with one Active job. -/
def oldDatabase : Stored where
  tables
    | .jobs => some (.ofEntries (originalColumns .jobs) (by decide) [oldJob] (by
        simp [FitsColumns, oldJob, originalColumns, declaredColumns, nullable, required,
          defaulted]))
    | .jobHistory => some (.create (originalColumns .jobHistory) (by decide))
    | .enqueueReceipts => some (.create (originalColumns .enqueueReceipts) (by decide))
    | _ => none
  indexes := []

theorem oldDatabase_legacy : Legacy oldDatabase := by
  intro table t found
  cases table <;> cases found <;> exact ⟨by decide, by decide⟩

/-- The old database is migrated: its Active job has neither a lease nor a time. -/
theorem oldDatabase_migrates :
    ∃ migrated, runMigrations oldDatabase = .ok migrated ∧
      (∀ table, ∃ t, migrated.tables table = some t ∧
        TableMigrated table (oldDatabase.tables table) t) ∧
      runMigrations migrated = .ok migrated :=
  run_migrations_safe.1 oldDatabase oldDatabase_legacy

end AnvilMQ.Migration
