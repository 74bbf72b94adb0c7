import AnvilMQ.Properties.Validators

/-!
# Declarative reconcile

Clients keep their schedulers in step by deleting the records they no longer declare
and upserting the rest.  An upsert does not look at the record it replaces: it computes
the next occurrence after the present moment and writes it over `next_run_at`.  So a
record that is declared again waits for an occurrence in the future, and one whose time
had come and whose job was still to be produced loses that occurrence.  A request that
is not valid changes nothing.
-/

namespace AnvilMQ

open Rust Relational Transition

/-! ## Reconciles -/

/-- **The request is valid at `now`**: it is complete and in range, and the cron library
finds an occurrence of its pattern after `now`. -/
def UpsertJobSchedulerRequest.Valid (ext : Externals) (now : ℤ)
    (req : UpsertJobSchedulerRequest) : Prop :=
  ∃ template spec next, req.Declares ext now template spec next

/-- A record is due: a tick at `now` finds it. -/
def DueAt (db : Db) (id : String) (now : ℤ) : Prop := ∃ row ∈ dueSchedulers db now, row.id = id

instance (db : Db) (id : String) (now : ℤ) : Decidable (DueAt db id now) :=
  inferInstanceAs (Decidable (∃ row ∈ dueSchedulers db now, row.id = id))

/-- The request has the id, the cron pattern and the time zone of a record. -/
def UpsertJobSchedulerRequest.Repeats (req : UpsertJobSchedulerRequest) (row : JobSchedulerRow) :
    Prop :=
  trim req.id = row.id ∧ ∃ spec, req.repeatSpec = some spec ∧
    trim spec.cron = row.cron ∧ textColumn (trim spec.timezone) = row.timezone

/-- **The writes of a reconcile at `now` that declares a record as it stands**: other
records are deleted and declared, this one is declared with its own pattern. -/
inductive Reconciles (row : JobSchedulerRow) (now : ℤ) : Op → Prop
  | delete {name : String} (other : trim name ≠ row.id) :
      Reconciles row now (.deleteJobScheduler name)
  | declareOther {clock : Clock} {req : UpsertJobSchedulerRequest} (other : trim req.id ≠ row.id) :
      Reconciles row now (.upsertJobScheduler clock req)
  | declare {clock : Clock} {req : UpsertJobSchedulerRequest} (time : clock 0 = now)
      (repeats : req.Repeats row) :
      Reconciles row now (.upsertJobScheduler clock req)

/-- **What upserts do to the times of the records.** -/
structure Reschedules (ext : Externals) (service : Service) : Prop where
  /-- A valid upsert is answered, and its record waits for the next occurrence of its
  pattern, which lies in the future. -/
  accepted : ∀ run clock req, req.Valid ext (clock 0) → ∃ spec next row,
    req.repeatSpec = some spec ∧
    nextCronAfter ext (clock 0) (trim spec.cron) (trim spec.timezone) = .ok next ∧
    clock 0 < next ∧
    replyTo ext service run (.upsertJobScheduler clock req) =
      some (.schedulerUpserted (trim req.id) next) ∧
    (dbAfter ext service (run ++ [.upsertJobScheduler clock req])).jobSchedulers.find?
      (trim req.id) = some row ∧ row.nextRunAt = some next
  /-- Any other is refused and changes nothing. -/
  refused : ∀ run clock req, ¬ req.Valid ext (clock 0) →
    Refused ext service run (.upsertJobScheduler clock req)
  /-- After the writes of any number of reconciles a due record is still due exactly when
  no valid upsert of it is among them. -/
  reconciled : ∀ run now row writes, row ∈ dueSchedulers (dbAfter ext service run) now →
    (∀ op ∈ writes, Reconciles row now op) →
    (DueAt (dbAfter ext service (run ++ writes)) row.id now ↔
      ∀ clock req, .upsertJobScheduler clock req ∈ writes → trim req.id = row.id →
        ¬ req.Valid ext now)

/-! ## What a reconcile does to a due record -/

section Steps

variable {ext : Externals} {op : Op} {row : JobSchedulerRow} {now : ℤ}

theorem dueAt_iff {db : Db} {id : String} :
    DueAt db id now ↔ ∃ row, db.jobSchedulers.find? id = some row ∧
      ∃ next, row.nextRunAt = some next ∧ next ≤ now := by
  unfold DueAt
  constructor
  · rintro ⟨row, mem, rfl⟩
    exact ⟨row, mem_dueSchedulers.mp mem⟩
  · rintro ⟨row, found, due⟩
    have here := Table.key_of_find? found
    refine ⟨row, mem_dueSchedulers.mpr ⟨?_, due⟩, here⟩
    exact (congrArg _ here).trans found

theorem dueAt_congr {db db' : Db} {id : String}
    (same : db'.jobSchedulers.find? id = db.jobSchedulers.find? id) :
    DueAt db' id now ↔ DueAt db id now := by
  rw [dueAt_iff, dueAt_iff, same]

/-- The stored time is that of the request, whether the record is new or not. -/
theorem nextRunAt_upsertScheduler {db : Db} {spec : JobSchedulerRow}
    (stored : (upsertScheduler db spec).jobSchedulers.find? spec.id = some row) :
    row.nextRunAt = spec.nextRunAt := by
  unfold upsertScheduler at stored
  rw [Table.find?_upsert, if_pos rfl] at stored
  cases Option.some.inj stored
  cases db.jobSchedulers.find? spec.id with
  | none => rfl
  | some old => rfl

/-- A valid upsert stores its record for the next occurrence. -/
theorem upsert_accepted (cron : CronAdvances ext) (service : Service) (run : List Op)
    {clock : Clock} {req : UpsertJobSchedulerRequest} (valid : req.Valid ext (clock 0)) :
    ∃ spec next row, req.repeatSpec = some spec ∧
      nextCronAfter ext (clock 0) (trim spec.cron) (trim spec.timezone) = .ok next ∧
      clock 0 < next ∧
      replyTo ext service run (.upsertJobScheduler clock req) =
        some (.schedulerUpserted (trim req.id) next) ∧
      (dbAfter ext service (run ++ [.upsertJobScheduler clock req])).jobSchedulers.find?
        (trim req.id) = some row ∧ row.nextRunAt = some next := by
  obtain ⟨template, spec, next, declares⟩ := valid
  obtain ⟨answered, after⟩ := replied_of_transact ext service run (.upsertJobScheduler clock req)
    rfl (upsertJobScheduler_ok_iff.mpr ⟨template, spec, next, declares, rfl⟩)
  obtain ⟨row, stored, -⟩ := find?_upsertScheduler (dbAfter ext service run)
    (schedulerSpec (trim req.id) (trim template.name) (trim spec.cron) (trim spec.timezone)
      template next (clock 0))
  refine ⟨spec, next, row, declares.repeated, declares.found, cron declares.found, answered, ?_,
    nextRunAt_upsertScheduler stored⟩
  rw [after]
  exact stored

/-- An upsert that is not valid is refused. -/
theorem upsert_refused (service : Service) (run : List Op) {clock : Clock}
    {req : UpsertJobSchedulerRequest} (invalid : ¬ req.Valid ext (clock 0)) :
    Refused ext service run (.upsertJobScheduler clock req) := by
  rcases transact_cases ext service run (.upsertJobScheduler clock req) rfl with
    refused | ⟨answer, ok, -⟩
  · exact refused
  · obtain ⟨template, spec, next, declares, -⟩ := upsertJobScheduler_ok_iff.mp ok
    exact absurd ⟨template, spec, next, declares⟩ invalid

/-- A valid upsert of the record `id`. -/
def Op.Redeclares (ext : Externals) (now : ℤ) (id : String) (op : Op) : Prop :=
  ∃ clock req, op = .upsertJobScheduler clock req ∧ trim req.id = id ∧ req.Valid ext now

/-- **A step of a reconcile** leaves the record alone, or it is a valid upsert of it and makes it
wait for the next occurrence. -/
theorem Reconciles.step (reconciles : Reconciles row now op) (cron : CronAdvances ext)
    (service : Service) (run : List Op) :
    (¬ op.Redeclares ext now row.id ∧
      (dbAfter ext service (run ++ [op])).jobSchedulers.find? row.id =
        (dbAfter ext service run).jobSchedulers.find? row.id) ∨
    (op.Redeclares ext now row.id ∧
      ¬ DueAt (dbAfter ext service (run ++ [op])) row.id now) := by
  cases reconciles with
  | @delete name other =>
    refine .inl ⟨fun ⟨_, _, here, _⟩ => Op.noConfusion here, ?_⟩
    rcases transact_cases ext service run (.deleteJobScheduler name) rfl with
      ⟨-, unchanged⟩ | ⟨⟨deleted, db', calls⟩, ok, -, after⟩
    · rw [not_not.mp unchanged]
    · obtain ⟨rfl, -⟩ := deleteJobScheduler_ok ok
      rw [after, Table.find?_erase, if_neg (Ne.symm other)]
  | @declareOther clock req other =>
    refine .inl ⟨?_, ?_⟩
    · rintro ⟨_, _, ⟨⟩, own, -⟩
      exact other own
    rcases transact_cases ext service run (.upsertJobScheduler clock req) rfl with
      ⟨-, unchanged⟩ | ⟨⟨⟨name, next⟩, db', calls⟩, ok, -, after⟩
    · rw [not_not.mp unchanged]
    · obtain ⟨template, spec, -, -, -, -, rfl, -⟩ := upsertJobScheduler_ok ok
      rw [after]
      unfold upsertScheduler
      exact (Table.find?_upsert _).trans (if_neg (Ne.symm other))
  | @declare clock req time repeats =>
    subst time
    by_cases valid : req.Valid ext (clock 0)
    · refine .inr ⟨⟨clock, req, rfl, repeats.1, valid⟩, ?_⟩
      obtain ⟨spec, next, stored, -, -, later, -, found, waits⟩ :=
        upsert_accepted cron service run valid
      rw [dueAt_iff, ← repeats.1, found]
      rintro ⟨_, ⟨⟩, due, isDue, passed⟩
      cases waits.symm.trans isDue
      exact absurd later (not_lt.mpr passed)
    · refine .inl ⟨?_, by rw [not_not.mp (upsert_refused service run valid).2]⟩
      rintro ⟨_, _, ⟨⟩, -, other⟩
      exact valid other

/-- The whole of a reconcile, by induction on its writes. -/
theorem dueAt_reconciled (cron : CronAdvances ext) (service : Service) (run : List Op)
    (due : row ∈ dueSchedulers (dbAfter ext service run) now) (writes : List Op)
    (reconciles : ∀ op ∈ writes, Reconciles row now op) :
    DueAt (dbAfter ext service (run ++ writes)) row.id now ↔
      ∀ op ∈ writes, ¬ op.Redeclares ext now row.id := by
  induction writes using List.reverseRecOn with
  | nil =>
    rw [List.append_nil]
    exact iff_of_true ⟨row, due, rfl⟩ (List.forall_mem_nil _)
  | append_singleton writes op ih =>
    rw [List.forall_mem_append, List.forall_mem_singleton,
      ← ih fun other mem => reconciles other (List.mem_append_left _ mem), ← List.append_assoc]
    have last : Reconciles row now op := reconciles op (by simp)
    rcases last.step cron service (run ++ writes) with ⟨other, kept⟩ | ⟨redeclares, lost⟩
    · rw [dueAt_congr kept, and_iff_left other]
    · exact iff_of_false lost fun both => both.2 redeclares

end Steps

/-- **An accepted upsert moves its record into the future, a refused one changes nothing**, and a
reconcile keeps a due record due exactly when it has no valid upsert of it. -/
theorem upsert_reschedules (ext : Externals) (service : Service) (cron : CronAdvances ext) :
    Reschedules ext service where
  accepted := fun run _ _ valid => upsert_accepted cron service run valid
  refused := fun run _ _ invalid => upsert_refused service run invalid
  reconciled := by
    intro run now row writes due reconciles
    rw [dueAt_reconciled cron service run due writes reconciles]
    constructor
    · rintro none_valid clock req mem own valid
      exact none_valid _ mem ⟨clock, req, rfl, own, valid⟩
    · rintro invalid op mem ⟨clock, req, rfl, own, valid⟩
      exact invalid clock req mem own valid

/-! ## A lost job -/

section Samples

/-- The scheduler of `schedule`, declared again at a later time. -/
def declareAgain (name : String) (now : ℤ) : Op :=
  .upsertJobScheduler (fun _ => now)
    { id := "s"
      template := some { name := name, rateLimitFacet := some "" }
      repeatSpec := some { cron := "* * * * *" } }

/-- The record of `schedule`, due for the first time. -/
def waitingRow : JobSchedulerRow :=
  schedulerSpec "s" "s" "* * * * *" "" { name := "s", rateLimitFacet := some "" } 60000 0

/-- The record is due at the tick's time, and a tick would produce its job.  It is
declared again as it stands, and the tick produces nothing. -/
theorem reconcile_loses_fire :
    waitingRow ∈ dueSchedulers (dbAfter .unary {} [schedule "s" ""]) 60000 ∧
    Reconciles waitingRow 60000 (declareAgain "s" 60000) ∧
    replyTo .unary {} [schedule "s" ""] (tickAt 60000 10) = some (.produced 1) ∧
    ¬ DueAt (dbAfter .unary {} [schedule "s" "", declareAgain "s" 60000]) "s" 60000 ∧
    replyTo .unary {} [schedule "s" "", declareAgain "s" 60000] (tickAt 60000 10) =
      some (.produced 0) :=
  ⟨by decide +kernel, .declare rfl ⟨rfl, _, rfl, by decide, by decide⟩, by decide +kernel,
    by decide +kernel, by decide +kernel⟩

/-- A declaration with a blank name is refused, and another record is dropped: the
record stays due. -/
theorem refused_declaration_keeps_fire :
    DueAt (dbAfter .unary {}
      ([schedule "s" ""] ++ [declareAgain "" 60000, .deleteJobScheduler "r"]))
      waitingRow.id 60000 := by
  refine ((upsert_reschedules .unary {} unary_cronAdvances).reconciled [schedule "s" ""] 60000
    waitingRow [declareAgain "" 60000, .deleteJobScheduler "r"] (by decide +kernel) ?_).mpr ?_
  · intro op mem
    rcases List.mem_pair.mp mem with rfl | rfl
    · exact .declare rfl ⟨rfl, _, rfl, by decide, by decide⟩
    · exact .delete (by decide)
  · rintro clock req mem - ⟨template, spec, next, declares⟩
    rcases List.mem_pair.mp mem with same | other
    · cases same
      cases declares.given
      exact declares.name (by decide)
    · cases other

end Samples

end AnvilMQ
