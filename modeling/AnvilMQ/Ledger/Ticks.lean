import AnvilMQ.Ledger.Margins

/-!
# Ticks

A scheduler tick attempts the records it has selected one by one, each in a
transaction of its own.  This module takes a tick apart into its attempts and says once
what an attempt does: one that fails does nothing, one that succeeds inserts one job
and advances its own record.
-/

namespace AnvilMQ

open Rust Relational

/-! ## Due records -/

/-- The records due at `now`, in the order of `select_due_schedulers`. -/
def dueSchedulers (db : Db) (now : ℤ) : List JobSchedulerRow :=
  (db.jobSchedulers.rows.filter fun row =>
    row.nextRunAt.any fun next => decide (next ≤ now)).insertionSort fun a b => runsBefore a b

section Due

variable {db : Db} {now : ℤ} {limit : ℕ} {row : JobSchedulerRow}

theorem selectDueSchedulers_eq :
    selectDueSchedulers db now limit = (dueSchedulers db now).take limit := rfl

theorem due_of_selected (selected : row ∈ selectDueSchedulers db now limit) :
    row ∈ dueSchedulers db now := List.mem_of_mem_take selected

theorem mem_dueSchedulers : row ∈ dueSchedulers db now ↔
    db.jobSchedulers.find? row.id = some row ∧ ∃ next, row.nextRunAt = some next ∧ next ≤ now := by
  unfold dueSchedulers
  rw [List.mem_insertionSort, List.mem_filter, Option.any_eq_true]
  constructor
  · rintro ⟨mem, next, stored, passed⟩
    exact ⟨Table.find?_of_mem mem, next, stored, of_decide_eq_true passed⟩
  · rintro ⟨found, next, stored, passed⟩
    exact ⟨Table.mem_of_find? found, next, stored, decide_eq_true passed⟩

theorem dueSchedulers_nodup : ((dueSchedulers db now).map JobSchedulerRow.id).Nodup := by
  unfold dueSchedulers
  have perm := (List.perm_insertionSort (fun a b => runsBefore a b = true)
    (db.jobSchedulers.rows.filter fun row =>
      row.nextRunAt.any fun next => decide (next ≤ now))).map JobSchedulerRow.id
  exact perm.nodup_iff.mpr (db.jobSchedulers.nodup.sublist (List.filter_sublist.map _))

/-- The order of a tick is a total one. -/
instance : Std.Total fun a b : JobSchedulerRow => runsBefore a b = true where
  total a b := by
    unfold runsBefore
    simp only [Bool.or_eq_true, Bool.and_eq_true, decide_eq_true_eq]
    rcases lt_trichotomy (a.nextRunAt.getD 0) (b.nextRunAt.getD 0) with earlier | same | later
    · exact .inl (.inl earlier)
    · rcases String.le_total a.id b.id with below | above
      · exact .inl (.inr ⟨same, below⟩)
      · exact .inr (.inr ⟨same.symm, above⟩)
    · exact .inr (.inl later)

instance : IsTrans JobSchedulerRow fun a b => runsBefore a b = true where
  trans a b c := by
    unfold runsBefore
    simp only [Bool.or_eq_true, Bool.and_eq_true, decide_eq_true_eq]
    rintro (earlier | ⟨same, below⟩) (earlier' | ⟨same', below'⟩)
    · exact .inl (earlier.trans earlier')
    · exact .inl (earlier.trans_eq same')
    · exact .inl (same.trans_lt earlier')
    · exact .inr ⟨same.trans same', String.le_trans below below'⟩

theorem id_eq_of_runsBefore {a b : JobSchedulerRow} (before : runsBefore a b = true)
    (after : runsBefore b a = true) : a.id = b.id := by
  unfold runsBefore at before after
  simp only [Bool.or_eq_true, Bool.and_eq_true, decide_eq_true_eq] at before after
  rcases before with earlier | ⟨same, below⟩
  · rcases after with later | ⟨same, -⟩
    · exact absurd later earlier.asymm
    · exact absurd same earlier.ne'
  · rcases after with later | ⟨-, above⟩
    · exact absurd same later.ne'
    · exact String.le_antisymm below above

theorem dueSchedulers_sorted :
    (dueSchedulers db now).Pairwise fun a b => runsBefore a b = true := by
  unfold dueSchedulers
  exact List.pairwise_insertionSort _ _

/-- Due records are told apart by their ids. -/
theorem eq_of_due {row' : JobSchedulerRow} (mem : row ∈ dueSchedulers db now)
    (mem' : row' ∈ dueSchedulers db now) (same : row.id = row'.id) : row = row' := by
  have stored := (mem_dueSchedulers.mp mem).1
  rw [same, (mem_dueSchedulers.mp mem').1] at stored
  exact (Option.some.inj stored).symm

/-- **The due records of a database are the only list of its kind**: a sorted one with
the same members is the same. -/
theorem dueSchedulers_eq {rows : List JobSchedulerRow}
    (sorted : rows.Pairwise fun a b => runsBefore a b = true)
    (nodup : rows.Nodup) (members : ∀ row, row ∈ dueSchedulers db now ↔ row ∈ rows) :
    dueSchedulers db now = rows := by
  have perm : (dueSchedulers db now).Perm rows :=
    (List.perm_ext_iff_of_nodup (List.Nodup.of_map _ dueSchedulers_nodup) nodup).mpr members
  refine perm.eq_of_pairwise (fun a b due listed before after => ?_) dueSchedulers_sorted sorted
  exact eq_of_due due ((members b).mpr listed) (id_eq_of_runsBefore before after)

end Due

/-- **Every occurrence `next_cron_after` finds lies strictly in the future.** -/
def CronAdvances (ext : Externals) : Prop :=
  ∀ {now cron tz next}, nextCronAfter ext now cron tz = .ok next → now < next

/-- The sample library knows one pattern, every minute. -/
theorem nextCronAfter_unary {now next : ℤ} {cron tz : String}
    (found : nextCronAfter .unary now cron tz = .ok next) : next = (now / 60000 + 1) * 60000 := by
  simp only [nextCronAfter, bind_eq_ok] at found
  obtain ⟨pattern, -, zone, -, found⟩ := found
  exact (Except.ok.inj found).symm

theorem unary_cronAdvances : CronAdvances .unary := by
  intro now cron tz next found
  rw [nextCronAfter_unary found]
  omega

/-! ## Attempts -/

/-- An attempt of a tick: the record as selected, the reading of the clock, the
database before and after, and whether a job was produced. -/
structure Attempt where
  record : JobSchedulerRow
  time : ℤ
  before : Db
  after : Db
  succeeded : Bool

section Attempts

variable (ext : Externals) (service : Service) (t : ℕ) (clock : Clock)

/-- One round of the loop of `run_once`. -/
def attempt (i : ℕ) (db : Db) (row : JobSchedulerRow) : Attempt :=
  let outcome := fireAll ext service t clock i db [row]
  { record := row
    time := clock (i + 1)
    before := db
    after := outcome.2.1
    succeeded := decide (outcome.1 = 1) }

/-- The attempts of a tick from its `i`-th round on. -/
def attempts : ℕ → Db → List JobSchedulerRow → List Attempt
  | _, _, [] => []
  | i, db, row :: rest =>
    let now := attempt ext service t clock i db row
    now :: attempts (i + 1) now.after rest

/-- The attempts of the operation after a run. -/
def attemptsOf (run : List Op) : Op → List Attempt
  | .runOnce clock batchSize =>
    attempts ext service run.length clock 0 (dbAfter ext service run)
      (selectDueSchedulers (dbAfter ext service run) (clock 0) batchSize)
  | _ => []

/-- A record that has fired. -/
def JobSchedulerRow.advanced (row : JobSchedulerRow) (next : ℤ) (job : JobId) (now : ℤ) :
    JobSchedulerRow :=
  { row with
    nextRunAt := some next
    producedCount := row.producedCount + 1
    lastJobId := some job
    updatedAt := now }

/-- **What a successful attempt does**: it inserts one job and advances its own record
to the next occurrence. -/
def Attempt.Fires (a : Attempt) (job : JobRow) (next : ℤ) : Prop :=
  nextCronAfter ext a.time a.record.cron (a.record.timezone.getD "") = .ok next ∧
    newRows a.before a.after = [job] ∧
    ∀ id, a.after.jobSchedulers.find? id =
      if id = a.record.id then some (a.record.advanced next job.id a.time)
      else a.before.jobSchedulers.find? id

end Attempts

section Rounds

variable {ext : Externals} {service : Service} {t k i : ℕ} {clock : Clock} {db db' : Db}
  {row : JobSchedulerRow} {rows : List JobSchedulerRow}

/-- A tick goes through its attempts. -/
theorem fireAll_cons :
    (fireAll ext service t clock i db (row :: rows)).2.1 =
      (fireAll ext service t clock (i + 1)
        (attempt ext service t clock i db row).after rows).2.1 := by
  unfold attempt
  simp only [fireAll]
  cases fireOne ext service t (2 * i) (clock (i + 1)) db row with
  | error e => rfl
  | ok outcome => rfl

/-- An attempt fails and changes nothing, or it is a fire. -/
theorem attempt_cases :
    ((attempt ext service t clock i db row).succeeded = false ∧
      (attempt ext service t clock i db row).after = db) ∨
    ((attempt ext service t clock i db row).succeeded = true ∧
      ∃ calls, fireOne ext service t (2 * i) (clock (i + 1)) db row =
        .ok ((attempt ext service t clock i db row).after, calls)) := by
  cases fired : fireOne ext service t (2 * i) (clock (i + 1)) db row with
  | error e =>
    refine .inl ?_
    unfold attempt
    simp only [fireAll, fired]
    exact ⟨rfl, trivial⟩
  | ok outcome =>
    refine .inr ⟨?_, outcome.2, ?_⟩
    · unfold attempt
      simp only [fireAll, fired]
      rfl
    · unfold attempt
      simp only [fireAll, fired]

/-- An enqueue that is no replay inserts one job. -/
theorem insertEnqueued_rows {req : AddJobRequest} {receiptRequest : Option Bytes} {now : ℤ}
    {out : EnqueueOutcome}
    (ok : insertEnqueued ext service t k db req receiptRequest now = .ok out) :
    ∃ job : JobRow, out.db.jobs.rows = db.jobs.rows ++ [job] ∧ out.response.id = job.id := by
  obtain ⟨db₁, db₂, availableAt, depth, trace, jobs, admitted, -, -, -, chained, insert, written,
    response, -⟩ := insertEnqueued_ok ok
  refine ⟨_, ?_, by rw [response]⟩
  have admission : db₁.jobs = db.jobs := (admitRequest_ok (t := 0) (k := 0) admitted).1.jobs
  have counted : db₂.jobs = db₁.jobs := (checkChain_ok chained).1.jobs
  rw [writeReceipt_jobs written, ← admission, ← counted]
  exact Table.rows_of_insert insert

/-- A fire that commits is a successful attempt. -/
theorem fireOne_fires {now : ℤ} {calls : List MetricCall}
    (stored : db.jobSchedulers.find? row.id = some row)
    (ok : fireOne ext service t k now db row = .ok (db', calls)) :
    ∃ job next, (⟨row, now, db, db', true⟩ : Attempt).Fires ext job next := by
  obtain ⟨req, receiptRequest, out, next, valid, one, cron, rfl, -⟩ := fireOne_ok ok
  have unkeyed : receiptRequest = none := by
    have keyed := (validateAndPrepare_ok valid).2.2.2
    cases receiptRequest with
    | none => rfl
    | some original => exact absurd rfl (keyed.mp rfl)
  rw [unkeyed] at one
  obtain ⟨job, rows, id⟩ := insertEnqueued_rows one
  have records : out.db.jobSchedulers = db.jobSchedulers := insertEnqueued_jobSchedulers one
  refine ⟨job, next, cron, newRows_of_append rows, fun other => ?_⟩
  unfold advanceScheduler
  rw [Table.find?_modify, records, stored, id]
  rfl

/-- **What an attempt does**: nothing when it fails, a fire when it succeeds. -/
theorem attempt_spec (stored : db.jobSchedulers.find? row.id = some row) :
    ((attempt ext service t clock i db row).succeeded = false ∧
      (attempt ext service t clock i db row).after = db) ∨
    ((attempt ext service t clock i db row).succeeded = true ∧
      ∃ job next, (attempt ext service t clock i db row).Fires ext job next) := by
  rcases attempt_cases with failed | ⟨succeeded, calls, fired⟩
  · exact .inl failed
  · exact .inr ⟨succeeded, fireOne_fires stored fired⟩

/-- An attempt leaves the records of the others alone. -/
theorem find?_attempt_of_ne (stored : db.jobSchedulers.find? row.id = some row) {id : String}
    (other : id ≠ row.id) :
    (attempt ext service t clock i db row).after.jobSchedulers.find? id =
      db.jobSchedulers.find? id := by
  rcases attempt_spec stored with ⟨-, same⟩ | ⟨-, job, next, -, -, records⟩
  · rw [same]
  · rw [records]
    exact if_neg other

/-- The records still to come are stored as they were selected. -/
theorem stored_of_cons
    (stored : ∀ r ∈ row :: rows, db.jobSchedulers.find? r.id = some r)
    (nodup : ((row :: rows).map JobSchedulerRow.id).Nodup) :
    ∀ r ∈ rows, (attempt ext service t clock i db row).after.jobSchedulers.find? r.id = some r := by
  intro r mem
  have other : r.id ≠ row.id := fun same =>
    (List.nodup_cons.mp nodup).1 (List.mem_map.mpr ⟨r, mem, same⟩)
  rw [find?_attempt_of_ne (stored row List.mem_cons_self) other]
  exact stored r (List.mem_cons_of_mem row mem)

/-- Every record selected is attempted, in the order of the selection. -/
theorem attempts_record :
    (attempts ext service t clock i db rows).map Attempt.record = rows := by
  induction rows generalizing i db with
  | nil => rfl
  | cons row rest ih =>
    unfold attempts
    rw [List.map_cons, ih]
    rfl

/-- **What the attempts of a tick are.** -/
theorem attempts_spec (stored : ∀ r ∈ rows, db.jobSchedulers.find? r.id = some r)
    (nodup : (rows.map JobSchedulerRow.id).Nodup) {a : Attempt}
    (mem : a ∈ attempts ext service t clock i db rows) :
    a.record ∈ rows ∧ a.before.jobSchedulers.find? a.record.id = some a.record ∧
      (∃ j, a.time = clock (j + 1)) ∧
      ((a.succeeded = false ∧ a.after = a.before) ∨
        (a.succeeded = true ∧ ∃ job next, a.Fires ext job next)) := by
  induction rows generalizing i db with
  | nil => cases mem
  | cons row rest ih =>
    rcases List.mem_cons.mp mem with rfl | later
    · have here := stored row List.mem_cons_self
      exact ⟨List.mem_cons_self, here, ⟨i, rfl⟩, attempt_spec here⟩
    · obtain ⟨selected, others⟩ :=
        ih (stored_of_cons stored nodup) (List.nodup_cons.mp nodup).2 later
      exact ⟨List.mem_cons_of_mem row selected, others⟩

/-- A tick leaves the records it has not fired. -/
theorem find?_fireAll_of_unfired (stored : ∀ r ∈ rows, db.jobSchedulers.find? r.id = some r)
    (nodup : (rows.map JobSchedulerRow.id).Nodup) {id : String}
    (unfired : ∀ a ∈ attempts ext service t clock i db rows, a.record.id = id →
      a.succeeded = false) :
    (fireAll ext service t clock i db rows).2.1.jobSchedulers.find? id =
      db.jobSchedulers.find? id := by
  induction rows generalizing i db with
  | nil => rfl
  | cons row rest ih =>
    have here := stored row List.mem_cons_self
    rw [fireAll_cons, ih (stored_of_cons stored nodup) (List.nodup_cons.mp nodup).2
      fun a mem => unfired a (List.mem_cons_of_mem _ mem)]
    by_cases own : row.id = id
    · have failed := unfired _ List.mem_cons_self own
      rcases attempt_spec here with ⟨-, same⟩ | ⟨succeeded, -⟩
      · rw [same]
      · rw [failed] at succeeded
        cases succeeded
    · exact find?_attempt_of_ne here (Ne.symm own)

/-- **A tick advances each record it fires, once.** -/
theorem find?_fireAll_of_fired (stored : ∀ r ∈ rows, db.jobSchedulers.find? r.id = some r)
    (nodup : (rows.map JobSchedulerRow.id).Nodup) {a : Attempt}
    (mem : a ∈ attempts ext service t clock i db rows) (succeeded : a.succeeded = true) :
    ∃ job next, nextCronAfter ext a.time a.record.cron (a.record.timezone.getD "") = .ok next ∧
      (fireAll ext service t clock i db rows).2.1.jobSchedulers.find? a.record.id =
        some (a.record.advanced next job a.time) := by
  induction rows generalizing i db with
  | nil => cases mem
  | cons row rest ih =>
    have stored' : ∀ r ∈ rest,
        (attempt ext service t clock i db row).after.jobSchedulers.find? r.id = some r :=
      stored_of_cons stored nodup
    obtain ⟨fresh, nodup'⟩ := List.nodup_cons.mp nodup
    rw [fireAll_cons]
    rcases List.mem_cons.mp mem with rfl | later
    · rcases attempt_spec (stored row List.mem_cons_self) with ⟨failed, -⟩ | ⟨-, job, next, fires⟩
      · rw [failed] at succeeded
        cases succeeded
      · obtain ⟨cron, -, records⟩ := fires
        refine ⟨job.id, next, cron, ?_⟩
        rw [find?_fireAll_of_unfired stored' nodup', records, if_pos rfl]
        -- the record is not attempted again
        intro other mem same
        have selected := (attempts_spec stored' nodup' mem).1
        exact absurd (List.mem_map.mpr ⟨other.record, selected, same⟩) fresh
    · exact ih stored' nodup' later

end Rounds

section Selected

variable {ext : Externals} {service : Service} {run : List Op} {op : Op}

theorem stored_of_selectDue {db : Db} {now : ℤ} {limit : ℕ} :
    ∀ r ∈ selectDueSchedulers db now limit, db.jobSchedulers.find? r.id = some r :=
  fun _ mem => (mem_dueSchedulers.mp (due_of_selected mem)).1

theorem selectDue_nodup {db : Db} {now : ℤ} {limit : ℕ} :
    ((selectDueSchedulers db now limit).map JobSchedulerRow.id).Nodup :=
  dueSchedulers_nodup.sublist ((List.take_sublist _ _).map _)

/-- **What the attempts of an operation are**: the operation is a tick, the record is
stored and due at the first reading of the clock, and the attempt fails without a trace
or fires. -/
theorem attemptsOf_spec {a : Attempt} (mem : a ∈ attemptsOf ext service run op) :
    ∃ clock j, op.clock? = some clock ∧ a.time = clock (j + 1) ∧
      a.before.jobSchedulers.find? a.record.id = some a.record ∧
      (∃ due, a.record.nextRunAt = some due ∧ due ≤ clock 0) ∧
      ((a.succeeded = false ∧ a.after = a.before) ∨
        (a.succeeded = true ∧ ∃ job next, a.Fires ext job next)) := by
  cases op with
  | runOnce clock batchSize =>
    obtain ⟨selected, stored, ⟨j, time⟩, outcome⟩ :=
      attempts_spec stored_of_selectDue selectDue_nodup mem
    have due := (mem_dueSchedulers.mp (due_of_selected selected)).2
    exact ⟨clock, j, rfl, time, stored, due, outcome⟩
  | _ => cases mem

end Selected

end AnvilMQ
