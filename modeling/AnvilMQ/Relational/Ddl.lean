import Mathlib.Data.List.Nodup
import Mathlib.Logic.Function.Basic

/-!
# Tables whose columns change

`Relational.Table` is a table with a fixed row type.  A migration changes the
columns themselves, so here a table is a list of column definitions and rows that
are finite maps from column names to values: a row has a value for exactly the
columns of its table, and none of them is `NULL` where the column forbids it.

A migration is a list of statements, each about one table.  Statements about
different tables do not see each other, so the effect of a script on one table is
that of the statements about it, and a proof about a script can be made table by
table.
-/

namespace Relational

universe u v w x

/-- The declared type of a column. -/
inductive SqlType
  | text
  | integer
  | real
  | blob
deriving DecidableEq

/-- A column definition: `name type [NOT NULL] [DEFAULT default]`. -/
structure Column (ν : Type u) (V : Type v) where
  name : ν
  type : SqlType
  notNull : Bool
  default : V
deriving DecidableEq

/-- A row: the values of its columns. -/
abbrev Row (ν : Type u) (V : Type v) := ν → Option V

/-- A table with the columns it was given.  `null` is the value `NULL`. -/
structure DynTable (ν : Type u) {V : Type v} (null : V) where
  columns : List (Column ν V)
  rows : List (Row ν V)
  distinct : (columns.map Column.name).Nodup
  shaped : ∀ row ∈ rows, ∀ c, (row c).isSome ↔ c ∈ columns.map Column.name
  nonNull : ∀ row ∈ rows, ∀ column ∈ columns, column.notNull = true →
    row column.name ≠ some null

/-- Why a statement fails. -/
inductive DdlError
  | noSuchTable
  | noSuchColumn
  | duplicateColumn
  | nullDefault
  | notNull
deriving DecidableEq

namespace DynTable

variable {ν : Type u} {V : Type v} {null : V}

/-- The names of the columns. -/
def names (t : DynTable ν null) : List ν := t.columns.map Column.name

/-- A table without rows. -/
def create (columns : List (Column ν V)) (distinct : (columns.map Column.name).Nodup) :
    DynTable ν null where
  columns := columns
  rows := []
  distinct := distinct
  shaped := fun _ mem => by cases mem
  nonNull := fun _ mem => by cases mem

variable [DecidableEq ν]

/-- `ALTER TABLE … ADD COLUMN`: the existing rows get the default. -/
def addColumn (t : DynTable ν null) (column : Column ν V) (fresh : column.name ∉ t.names)
    (sound : column.notNull = true → column.default ≠ null) : DynTable ν null where
  columns := t.columns ++ [column]
  rows := t.rows.map fun row => Function.update row column.name (some column.default)
  distinct := by
    rw [List.map_append, List.map_singleton]
    exact List.nodup_append'.mpr ⟨t.distinct, List.nodup_singleton _,
      List.disjoint_singleton.mpr fresh⟩
  shaped := by
    intro row mem c
    obtain ⟨old, stored, rfl⟩ := List.mem_map.mp mem
    rw [List.map_append, List.map_singleton, List.mem_append, List.mem_singleton]
    by_cases here : c = column.name
    · subst here
      simp
    · rw [Function.update_of_ne here, t.shaped old stored]
      simp [here]
  nonNull := by
    intro row mem other declared strict
    obtain ⟨old, stored, rfl⟩ := List.mem_map.mp mem
    rcases List.mem_append.mp declared with was | new
    · have away : other.name ≠ column.name := fun same =>
        fresh (same ▸ List.mem_map_of_mem was)
      rw [Function.update_of_ne away]
      exact t.nonNull old stored other was strict
    · rw [List.mem_singleton.mp new] at strict ⊢
      rw [Function.update_self]
      exact fun same => sound strict (Option.some.inj same)

/-- The rows after `UPDATE … SET column = value WHERE cond`. -/
def updated (rows : List (Row ν V)) (column : ν) (value : Row ν V → V) (cond : Row ν V → Bool) :
    List (Row ν V) :=
  rows.map fun row => if cond row then Function.update row column (some (value row)) else row

/-- The update writes no `NULL` where the column forbids it. -/
def Permits (t : DynTable ν null) (column : ν) (value : Row ν V → V) (cond : Row ν V → Bool) :
    Prop :=
  ∀ row ∈ t.rows, cond row = true → ∀ definition ∈ t.columns, definition.name = column →
    definition.notNull = true → value row ≠ null

/-- `UPDATE … SET column = value WHERE cond`, on a column the table has. -/
def setWhere (t : DynTable ν null) (column : ν) (value : Row ν V → V) (cond : Row ν V → Bool)
    (known : column ∈ t.names) (permitted : t.Permits column value cond) : DynTable ν null where
  columns := t.columns
  rows := updated t.rows column value cond
  distinct := t.distinct
  shaped := by
    intro row mem c
    obtain ⟨old, stored, rfl⟩ := List.mem_map.mp mem
    split
    · by_cases here : c = column
      · rw [here, Function.update_self]
        exact iff_of_true rfl known
      · rw [Function.update_of_ne here]
        exact t.shaped old stored c
    · exact t.shaped old stored c
  nonNull := by
    intro row mem definition declared strict
    obtain ⟨old, stored, rfl⟩ := List.mem_map.mp mem
    split
    · rename_i holds
      by_cases here : definition.name = column
      · rw [here, Function.update_self]
        exact fun same =>
          permitted old stored holds definition declared here strict (Option.some.inj same)
      · rw [Function.update_of_ne here]
        exact t.nonNull old stored definition declared strict
    · exact t.nonNull old stored definition declared strict

@[simp] theorem names_setWhere {t : DynTable ν null} {column : ν} {value : Row ν V → V}
    {cond : Row ν V → Bool} {known : column ∈ t.names} {permitted : t.Permits column value cond} :
    (t.setWhere column value cond known permitted).names = t.names := rfl

instance decidablePermits [DecidableEq V] (t : DynTable ν null) (column : ν)
    (value : Row ν V → V) (cond : Row ν V → Bool) : Decidable (t.Permits column value cond) := by
  unfold Permits
  infer_instance

end DynTable

/-! ## Rows written out -/

section Entries

variable {ν : Type u} {V : Type v} {null : V} {columns : List (Column ν V)}
  {entries : List (ν × V)}

/-- A row written out: a value for each column, none of them `NULL` where the column
forbids it. -/
def FitsColumns (null : V) (columns : List (Column ν V)) (entries : List (ν × V)) : Prop :=
  List.Forall₂ (fun column entry => column.name = entry.1 ∧
    (column.notNull = true → entry.2 ≠ null)) columns entries

theorem FitsColumns.names (fits : FitsColumns null columns entries) :
    columns.map Column.name = entries.map Prod.fst := by
  induction fits with
  | nil => rfl
  | cons head _ ih => rw [List.map_cons, List.map_cons, head.1, ih]

variable [DecidableEq ν]

/-- The row with the entries of a list. -/
def Row.ofEntries (entries : List (ν × V)) : Row ν V :=
  fun c => (entries.find? fun entry => decide (entry.1 = c)).map Prod.snd

theorem Row.ofEntries_isSome (c : ν) :
    (Row.ofEntries entries c).isSome ↔ c ∈ entries.map Prod.fst := by
  simp [Row.ofEntries, List.find?_isSome]

/-- A row written out has no `NULL` where a column forbids it. -/
theorem FitsColumns.ne_null (fits : FitsColumns null columns entries)
    (distinct : (columns.map Column.name).Nodup) {column : Column ν V} (mem : column ∈ columns)
    (strict : column.notNull = true) : Row.ofEntries entries column.name ≠ some null := by
  induction fits with
  | nil => cases mem
  | @cons first entry others rest head tail ih =>
    rw [List.map_cons, List.nodup_cons] at distinct
    rw [Row.ofEntries, List.find?_cons]
    rcases List.mem_cons.mp mem with rfl | later
    · rw [decide_eq_true head.1.symm]
      exact fun same => head.2 strict (Option.some.inj same)
    · have other : entry.1 ≠ column.name := fun same =>
        distinct.1 (head.1.trans same ▸ List.mem_map_of_mem later)
      rw [decide_eq_false other]
      exact ih distinct.2 later

/-- The table with the given rows. -/
def DynTable.ofEntries (columns : List (Column ν V)) (distinct : (columns.map Column.name).Nodup)
    (rows : List (List (ν × V))) (fits : ∀ entries ∈ rows, FitsColumns null columns entries) :
    DynTable ν null where
  columns := columns
  rows := rows.map Row.ofEntries
  distinct := distinct
  shaped := by
    intro row mem c
    obtain ⟨entries, stored, rfl⟩ := List.mem_map.mp mem
    rw [Row.ofEntries_isSome, (fits entries stored).names]
  nonNull := by
    intro row mem column declared strict
    obtain ⟨entries, stored, rfl⟩ := List.mem_map.mp mem
    exact (fits entries stored).ne_null distinct declared strict

end Entries

/-! ## Statements -/

/-- What a statement does to its table.  Creation is guarded by `IF NOT EXISTS`, and
`ADD COLUMN` by a look at the columns. -/
inductive Change (ν : Type u) (ι : Type w) (V : Type v)
  | createTable (columns : List (Column ν V))
  | createIndex (index : ι) (columns : List ν)
  | addColumn (column : Column ν V)
  | update (reads : List ν) (column : ν) (value : Row ν V → V) (cond : Row ν V → Bool)

/-- A statement about a table. -/
structure Statement (τ : Type x) (ν : Type u) (ι : Type w) (V : Type v) where
  table : τ
  change : Change ν ι V

/-- A database: its tables, and the names of its indexes. -/
structure Database (τ : Type x) (ν : Type u) (ι : Type w) {V : Type v} (null : V) where
  tables : τ → Option (DynTable ν null)
  indexes : List ι

section Run

variable {τ : Type x} {ν : Type u} {ι : Type w} {V : Type v} (null : V) [DecidableEq ν]
  [DecidableEq V]

/-- The effect of a statement on its table.  An index is checked against the columns
of its table; the table itself does not change. -/
def Change.run :
    Change ν ι V → Option (DynTable ν null) → Except DdlError (Option (DynTable ν null))
  | createTable columns, none =>
    if distinct : (columns.map Column.name).Nodup then .ok (some (.create columns distinct))
    else .error .duplicateColumn
  | createTable _, some t => .ok (some t)
  | createIndex _ columns, some t =>
    if ∀ c ∈ columns, c ∈ t.names then .ok (some t) else .error .noSuchColumn
  | addColumn column, some t =>
    if present : column.name ∈ t.names then .ok (some t)
    else if sound : column.notNull = true → column.default ≠ null then
      .ok (some (t.addColumn column present sound))
    else .error .nullDefault
  | update reads column value cond, some t =>
    if known : column ∈ t.names ∧ ∀ c ∈ reads, c ∈ t.names then
      if permitted : t.Permits column value cond then
        .ok (some (t.setWhere column value cond known.1 permitted))
      else .error .notNull
    else .error .noSuchColumn
  | _, none => .error .noSuchTable

/-- The effect of several statements on their table. -/
def runAll : List (Change ν ι V) → Option (DynTable ν null) →
    Except DdlError (Option (DynTable ν null))
  | [], t => .ok t
  | change :: rest, t => (change.run null t).bind (runAll rest)

variable [DecidableEq τ] [DecidableEq ι]

/-- Execute a statement. -/
def Statement.exec (s : Statement τ ν ι V) (db : Database τ ν ι null) :
    Except DdlError (Database τ ν ι null) :=
  match s.change with
  | .createIndex index columns =>
    if index ∈ db.indexes then .ok db
    else (Change.run null (.createIndex index columns) (db.tables s.table)).map fun _ =>
      { db with indexes := db.indexes ++ [index] }
  | change => (change.run null (db.tables s.table)).map fun t =>
    { db with tables := Function.update db.tables s.table t }

/-- Execute a script. -/
def execAll : List (Statement τ ν ι V) → Database τ ν ι null →
    Except DdlError (Database τ ν ι null)
  | [], db => .ok db
  | s :: rest, db => (s.exec null db).bind (execAll rest)

/-- The statements of a script about one table. -/
def changesOn (table : τ) (script : List (Statement τ ν ι V)) : List (Change ν ι V) :=
  (script.filter fun s => decide (s.table = table)).map Statement.change

/-- The indexes a script creates. -/
def Change.index? : Change ν ι V → Option ι
  | createIndex index _ => some index
  | _ => none

end Run

section Scripts

variable {τ : Type x} {ν : Type u} {ι : Type w} {V : Type v} {null : V} [DecidableEq ν]
  [DecidableEq V] [DecidableEq τ] [DecidableEq ι] {script : List (Statement τ ν ι V)}
  {db db' : Database τ ν ι null}

omit [DecidableEq ι] in
theorem run_createIndex {index : ι} {columns : List ν} {t t' : Option (DynTable ν null)}
    (ok : (Change.createIndex index columns : Change ν ι V).run null t = .ok t') : t' = t := by
  cases t with
  | none => cases ok
  | some t =>
    rw [Change.run] at ok
    split at ok
    · exact (Except.ok.inj ok).symm
    · cases ok

/-- A statement whose effect on its table is known has that effect. -/
theorem exists_exec {s : Statement τ ν ι V} {t : Option (DynTable ν null)}
    (ok : s.change.run null (db.tables s.table) = .ok t) :
    ∃ db', s.exec null db = .ok db' ∧ db'.tables = Function.update db.tables s.table t ∧
      ∀ index, index ∈ db'.indexes ↔ index ∈ db.indexes ∨ s.change.index? = some index := by
  obtain ⟨table, change⟩ := s
  cases change with
  | createIndex index columns =>
    have same := run_createIndex ok
    have tables : db.tables = Function.update db.tables table t := by
      rw [same, Function.update_eq_self]
    rw [Statement.exec]
    by_cases present : index ∈ db.indexes
    · refine ⟨db, if_pos present, tables, fun other => ?_⟩
      simp only [Change.index?, Option.some.injEq]
      exact ⟨.inl, fun either => either.elim id fun here => here ▸ present⟩
    · refine ⟨{ db with indexes := db.indexes ++ [index] }, ?_, tables, fun other => ?_⟩
      · simp only [if_neg present]
        rw [show (Change.createIndex index columns : Change ν ι V).run null (db.tables table) =
          .ok t from ok]
        rfl
      · simp only [Change.index?, Option.some.injEq, List.mem_append, List.mem_singleton]
        exact or_congr_right eq_comm
  | createTable columns =>
    refine ⟨{ db with tables := Function.update db.tables table t }, ?_, rfl, by
      simp [Change.index?]⟩
    exact congrArg (Except.map _) ok
  | addColumn column =>
    refine ⟨{ db with tables := Function.update db.tables table t }, ?_, rfl, by
      simp [Change.index?]⟩
    exact congrArg (Except.map _) ok
  | update reads column value cond =>
    refine ⟨{ db with tables := Function.update db.tables table t }, ?_, rfl, by
      simp [Change.index?]⟩
    exact congrArg (Except.map _) ok

/-- **A script succeeds when, table by table, its statements do**, and it then has on
each table the effect of the statements about it. -/
theorem exists_execAll
    (runs : ∀ table, ∃ t, runAll null (changesOn table script) (db.tables table) = .ok t) :
    ∃ db', execAll null script db = .ok db' ∧
      (∀ table, runAll null (changesOn table script) (db.tables table) = .ok (db'.tables table)) ∧
      ∀ index, index ∈ db'.indexes ↔
        index ∈ db.indexes ∨ ∃ s ∈ script, s.change.index? = some index := by
  induction script generalizing db with
  | nil => exact ⟨db, rfl, fun _ => rfl, by simp⟩
  | cons s rest ih =>
    have here : changesOn s.table (s :: rest) = s.change :: changesOn s.table rest := by
      simp [changesOn]
    have elsewhere : ∀ table, s.table ≠ table →
        changesOn table (s :: rest) = changesOn table rest := by
      intro table other
      simp [changesOn, other]
    -- The first statement is the first one about its table.
    obtain ⟨final, all⟩ := runs s.table
    rw [here, runAll] at all
    cases first : s.change.run null (db.tables s.table) with
    | error e =>
      rw [first] at all
      cases all
    | ok t =>
      rw [first] at all
      obtain ⟨db₁, executed, tables, indexes⟩ := exists_exec first
      have runs₁ : ∀ table, ∃ t, runAll null (changesOn table rest) (db₁.tables table) =
          .ok t := by
        intro table
        rw [tables]
        by_cases same : s.table = table
        · rw [← same, Function.update_self]
          exact ⟨final, all⟩
        · rw [Function.update_of_ne (Ne.symm same), ← elsewhere table same]
          exact runs table
      obtain ⟨db', rested, effects, created⟩ := ih runs₁
      refine ⟨db', ?_, fun table => ?_, fun index => ?_⟩
      · rw [execAll, executed]
        exact rested
      · have effect := effects table
        rw [tables] at effect
        by_cases same : s.table = table
        · subst same
          rw [Function.update_self] at effect
          rw [here, runAll, first]
          exact effect
        · rw [Function.update_of_ne (Ne.symm same)] at effect
          rwa [elsewhere table same]
      · rw [created, indexes, List.exists_mem_cons_iff, or_assoc]

/-- **A script whose statements all find their work done changes nothing.** -/
theorem execAll_eq_self
    (idle : ∀ s ∈ script, s.change.run null (db.tables s.table) = .ok (db.tables s.table))
    (indexed : ∀ s ∈ script, ∀ index, s.change.index? = some index → index ∈ db.indexes) :
    execAll null script db = .ok db := by
  induction script with
  | nil => rfl
  | cons s rest ih =>
    obtain ⟨first, others⟩ := List.forall_mem_cons.mp idle
    obtain ⟨index, indexes⟩ := List.forall_mem_cons.mp indexed
    have executed : s.exec null db = .ok db := by
      obtain ⟨table, change⟩ := s
      have same : ∀ t : Option (DynTable ν null), t = db.tables table →
          ({ db with tables := Function.update db.tables table t } : Database τ ν ι null) =
            db := by
        rintro t rfl
        rw [Function.update_eq_self]
      cases change with
      | createIndex name columns => exact if_pos (index name rfl)
      | createTable columns =>
        exact (congrArg (Except.map _) first).trans (congrArg Except.ok (same _ rfl))
      | addColumn column =>
        exact (congrArg (Except.map _) first).trans (congrArg Except.ok (same _ rfl))
      | update reads column value cond =>
        exact (congrArg (Except.map _) first).trans (congrArg Except.ok (same _ rfl))
    rw [execAll, executed]
    exact ih others indexes

end Scripts

/-! ## The effect on one table -/

section Effects

variable {ν : Type u} {ι : Type w} {V : Type v} {null : V} [DecidableEq ν] [DecidableEq V]
  {t : DynTable ν null}

/-- A row with the defaults of the columns it lacks. -/
def Row.fill (columns : List (Column ν V)) (row : Row ν V) : Row ν V :=
  fun c => (row c).or ((columns.find? fun column => decide (column.name = c)).map Column.default)

/-- A table has been extended by columns: its rows are filled, and the columns it
lacked are appended. -/
structure Extends (columns : List (Column ν V)) (t t' : DynTable ν null) : Prop where
  rows : t'.rows = t.rows.map (Row.fill columns)
  columns : ∀ column, column ∈ t'.columns ↔
    column ∈ t.columns ∨ (column ∈ columns ∧ column.name ∉ t.names)

omit [DecidableEq V] in
theorem Row.fill_nil (row : Row ν V) : row.fill [] = row := by
  funext c
  simp [Row.fill]

omit [DecidableEq V] in
theorem Row.fill_cons (column : Column ν V) (rest : List (Column ν V)) (row : Row ν V) :
    row.fill (column :: rest) = Row.fill rest (Row.fill [column] row) := by
  funext c
  simp only [Row.fill, List.find?_cons, List.find?_nil]
  by_cases here : column.name = c
  · cases row c <;> simp [here]
  · simp [here]

omit [DecidableEq V] in
theorem Row.fill_append (columns others : List (Column ν V)) (row : Row ν V) :
    row.fill (columns ++ others) = Row.fill others (row.fill columns) := by
  induction columns generalizing row with
  | nil => rw [List.nil_append, Row.fill_nil]
  | cons column rest ih =>
    rw [List.cons_append, Row.fill_cons, ih, ← Row.fill_cons]

omit [DecidableEq V] in
/-- Filling a row keeps the values it has. -/
theorem Row.fill_of_some {columns : List (Column ν V)} {row : Row ν V} {c : ν} {v : V}
    (value : row c = some v) : row.fill columns c = some v := by
  simp [Row.fill, value]

omit [DecidableEq V] in
/-- A column the row lacks gets its default. -/
theorem Row.fill_of_none {columns : List (Column ν V)} {row : Row ν V} {column : Column ν V}
    (distinct : (columns.map Column.name).Nodup) (mem : column ∈ columns)
    (missing : row column.name = none) :
    row.fill columns column.name = some column.default := by
  have found : columns.find? (fun other => decide (other.name = column.name)) = some column := by
    obtain ⟨before, after, rfl⟩ := List.append_of_mem mem
    rw [List.map_append, List.map_cons, List.nodup_append'] at distinct
    have earlier : before.find? (fun other => decide (other.name = column.name)) = none := by
      refine List.find?_eq_none.mpr fun other here => ?_
      have apart : other.name ≠ column.name := fun same =>
        distinct.2.2 (List.mem_map_of_mem here) (same ▸ List.mem_cons_self)
      simp [apart]
    rw [List.find?_append, earlier, List.find?_cons_of_pos (by simp)]
    rfl
  rw [Row.fill, missing, found]
  rfl

omit [DecidableEq V] in
/-- Filling does not touch a value that was written. -/
theorem Row.fill_update (columns : List (Column ν V)) (row : Row ν V) (c : ν) (v : V) :
    Row.fill columns (Function.update row c (some v)) =
      Function.update (row.fill columns) c (some v) := by
  funext other
  by_cases here : other = c
  · subst here
    simp [Row.fill]
  · simp [Row.fill, Function.update_of_ne here]

/-- Adding one column. -/
theorem run_addColumn (column : Column ν V)
    (sound : column.notNull = true → column.default ≠ null) :
    ∃ t', (Change.addColumn column : Change ν ι V).run null (some t) = .ok (some t') ∧
      Extends [column] t t' ∧ ∀ c, c ∈ t'.names ↔ c ∈ t.names ∨ c = column.name := by
  rw [Change.run]
  by_cases present : column.name ∈ t.names
  · refine ⟨t, dif_pos present, ⟨?_, fun other => ?_⟩, fun c => ?_⟩
    · refine (List.map_id _).symm.trans (List.map_congr_left fun row mem => ?_)
      funext c
      by_cases here : column.name = c
      · have defined := (t.shaped row mem c).mpr (here ▸ present)
        obtain ⟨v, value⟩ := Option.isSome_iff_exists.mp defined
        simp [Row.fill, value]
      · simp [Row.fill, here]
    · rw [List.mem_singleton]
      constructor
      · exact .inl
      · rintro (was | ⟨rfl, absent⟩)
        · exact was
        · exact absurd present absent
    · exact ⟨.inl, fun either => either.elim id fun here => here ▸ present⟩
  · refine ⟨t.addColumn column present sound, (dif_neg present).trans (dif_pos sound),
      ⟨List.map_congr_left fun row mem => ?_, fun other => ?_⟩, fun c => ?_⟩
    · have undefined : row column.name = none :=
        Option.not_isSome_iff_eq_none.mp (mt (t.shaped row mem _).mp present)
      funext c
      by_cases here : column.name = c
      · subst here
        simp [Row.fill, undefined]
      · rw [Function.update_of_ne (Ne.symm here)]
        simp [Row.fill, here]
    · rw [DynTable.addColumn, List.mem_append, List.mem_singleton]
      exact or_congr_right ⟨fun same => ⟨same, same ▸ present⟩, And.left⟩
    · rw [DynTable.names, DynTable.addColumn, List.map_append, List.mem_append,
        List.map_singleton, List.mem_singleton]
      rfl

/-- **Adding columns fills the rows with the defaults.** -/
theorem runAll_addColumns {columns : List (Column ν V)} (rest : List (Change ν ι V))
    (distinct : (columns.map Column.name).Nodup)
    (sound : ∀ column ∈ columns, column.notNull = true → column.default ≠ null) :
    ∃ t', runAll null (columns.map Change.addColumn ++ rest) (some t) =
        runAll null rest (some t') ∧ Extends columns t t' := by
  induction columns generalizing t with
  | nil =>
    refine ⟨t, rfl, ?_, by simp⟩
    exact (List.map_id _).symm.trans (List.map_congr_left fun row _ => (row.fill_nil).symm)
  | cons column others ih =>
    rw [List.map_cons, List.nodup_cons] at distinct
    obtain ⟨here, there⟩ := List.forall_mem_cons.mp sound
    obtain ⟨t₁, first, step, names⟩ := @run_addColumn ν ι V null _ _ t column here
    obtain ⟨t', ran, later⟩ := @ih t₁ distinct.2 there
    refine ⟨t', ?_, ?_, fun other => ?_⟩
    · rw [List.map_cons, List.cons_append, runAll, first]
      exact ran
    · rw [later.rows, step.rows, List.map_map]
      exact List.map_congr_left fun row _ => (Row.fill_cons column others row).symm
    · rw [later.columns, step.columns, List.mem_singleton, List.mem_cons, names, or_assoc]
      refine or_congr_right ?_
      constructor
      · rintro (⟨rfl, absent⟩ | ⟨mem, absent⟩)
        · exact ⟨.inl rfl, absent⟩
        · exact ⟨.inr mem, fun was => absent (.inl was)⟩
      · rintro ⟨rfl | mem, absent⟩
        · exact .inl ⟨rfl, absent⟩
        · refine .inr ⟨mem, ?_⟩
          rintro (was | same)
          · exact absent was
          · exact distinct.1 (same ▸ List.mem_map_of_mem mem)

/-- An update of a column that may be `NULL`. -/
theorem runAll_update {reads : List ν} {column : ν} {value : Row ν V → V} {cond : Row ν V → Bool}
    (rest : List (Change ν ι V)) (known : column ∈ t.names) (read : ∀ c ∈ reads, c ∈ t.names)
    (nullable : ∀ definition ∈ t.columns, definition.name = column → definition.notNull = false) :
    ∃ t', runAll null (Change.update reads column value cond :: rest) (some t) =
        runAll null rest (some t') ∧
      t'.columns = t.columns ∧ t'.rows = DynTable.updated t.rows column value cond := by
  have permitted : t.Permits column value cond := by
    intro row mem holds definition declared here strict
    rw [nullable definition declared here] at strict
    cases strict
  refine ⟨t.setWhere column value cond known permitted, ?_, rfl, rfl⟩
  rw [runAll, Change.run, dif_pos ⟨known, read⟩, dif_pos permitted]
  rfl

/-- An index over columns the table has. -/
theorem runAll_createIndex {index : ι} {columns : List ν} (rest : List (Change ν ι V))
    (known : ∀ c ∈ columns, c ∈ t.names) :
    runAll null (Change.createIndex index columns :: rest) (some t) =
      runAll null rest (some t) := by
  rw [runAll, Change.run, if_pos known]
  rfl

/-- Indexes over columns the table has leave it as it is. -/
theorem runAll_createIndexes (indexes : List (ι × List ν))
    (known : ∀ index ∈ indexes, ∀ c ∈ index.2, c ∈ t.names) :
    runAll null (indexes.map fun index => Change.createIndex index.1 index.2) (some t) =
      .ok (some t) := by
  induction indexes with
  | nil => rfl
  | cons index rest ih =>
    obtain ⟨here, there⟩ := List.forall_mem_cons.mp known
    rw [List.map_cons, runAll_createIndex _ here]
    exact ih there

/-- A table is there after it was created, if it was not there before. -/
theorem runAll_createTable {columns : List (Column ν V)} (rest : List (Change ν ι V))
    (distinct : (columns.map Column.name).Nodup) (found : Option (DynTable ν null)) :
    runAll null (Change.createTable columns :: rest) found =
      runAll null rest (some (found.getD (.create columns distinct))) := by
  cases found with
  | none =>
    rw [runAll, Change.run, dif_pos distinct]
    rfl
  | some t => rfl

/-- An update that no row calls for changes nothing. -/
theorem run_update_idle {reads : List ν} {column : ν} {value : Row ν V → V}
    {cond : Row ν V → Bool} (known : column ∈ t.names) (read : ∀ c ∈ reads, c ∈ t.names)
    (idle : ∀ row ∈ t.rows, cond row = false) :
    (Change.update reads column value cond : Change ν ι V).run null (some t) = .ok (some t) := by
  have permitted : t.Permits column value cond := by
    intro row mem holds
    rw [idle row mem] at holds
    cases holds
  have same : t.setWhere column value cond known permitted = t := by
    have rows : DynTable.updated t.rows column value cond = t.rows := by
      refine (List.map_congr_left fun row mem => ?_).trans (List.map_id _)
      rw [idle row mem]
      rfl
    unfold DynTable.setWhere
    congr
  rw [Change.run, dif_pos ⟨known, read⟩, dif_pos permitted, same]

end Effects

end Relational
