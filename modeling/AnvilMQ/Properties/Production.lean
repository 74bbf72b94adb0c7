import AnvilMQ.Ledger.Refinement
import AnvilMQ.Ledger.Ticks
import AnvilMQ.Transition.Recurrence

/-!
# Scheduled production

A scheduler record is a recurring record: a tick fires it when its time has come,
counts the job and sets the next time in the transaction that inserts the job.  That
makes the count exact and puts an occurrence of the pattern between any two fires,
however long the ticks have been away.

What the cron library computes is assumed: the first occurrence strictly after a time.
-/

namespace AnvilMQ

open Rust Relational Transition Recurrence

/-! ## The guarantee -/

/-- A cron pattern with its time zone. -/
abbrev Pattern := String × String

/-- The pattern of a record. -/
def JobSchedulerRow.pattern (row : JobSchedulerRow) : Pattern := (row.cron, row.timezone.getD "")

/-- **`next_cron_after` returns the first occurrence strictly after a time**, where
`occurs` says what the occurrences of a pattern are. -/
def CronIsLeast (ext : Externals) (occurs : Pattern → ℤ → Prop) : Prop :=
  ∀ now cron tz next, nextCronAfter ext now cron tz = .ok next →
    IsLeast {u | now < u ∧ occurs (cron, tz) u} next

/-- The fires of a scheduler in an attempt: one for each job the attempt inserts. -/
def Attempt.labels (id : String) (a : Attempt) : List (Label Pattern JobId) :=
  if a.record.id = id then
    (newRows a.before a.after).map fun job => .fired a.record.pattern a.time job.id
  else []

section Statement

variable (ext : Externals) (service : Service)

/-- What the operation after a run does to a scheduler. -/
def schedulerEvents (id : String) (run : List Op) (op : Op) : List (Label Pattern JobId) :=
  match op with
  | .upsertJobScheduler _ req =>
    if trim req.id = id ∧ (replyTo ext service run op).isSome then
      [if (dbAfter ext service run).jobSchedulers.Has id then .edited else .created]
    else []
  | .deleteJobScheduler name =>
    if trim name = id ∧ (replyTo ext service run op).isSome ∧
        (dbAfter ext service run).jobSchedulers.Has id then [.deleted]
    else []
  | op => (attemptsOf ext service run op).flatMap (Attempt.labels id)

/-- What a run has done to a scheduler. -/
def schedulerLog (id : String) (run : List Op) : List (Label Pattern JobId) :=
  collect (schedulerEvents ext service id) [] run

/-- **Exactly-once scheduled production.** -/
structure ExactlyOnce (occurs : Pattern → ℤ → Prop) (run : List Op) : Prop where
  /-- A record has counted the jobs committed for it since it was created, and names
  the last of them. -/
  tallied : ∀ id row, (dbAfter ext service run).jobSchedulers.find? id = some row →
    ∃ old recent, schedulerLog ext service id run = old ++ .created :: recent ∧
      (∀ l ∈ recent, l ≠ .created ∧ l ≠ .deleted) ∧
      row.producedCount = (produced recent).length ∧ row.lastJobId = (produced recent).getLast?
  /-- A fire happens when the stored time has passed, inserts one job, and leaves a
  later time. -/
  fires : ∀ before op a, before ++ [op] <+: run → a ∈ attemptsOf ext service before op →
    a.succeeded = true →
    (∃ row due, a.before.jobSchedulers.find? a.record.id = some row ∧ row.nextRunAt = some due ∧
      due ≤ a.time) ∧
    (∃ job, newRows a.before a.after = [job]) ∧
    ∃ row next, a.after.jobSchedulers.find? a.record.id = some row ∧ row.nextRunAt = some next ∧
      a.time < next
  /-- A failed fire leaves the jobs and the records as they were. -/
  fails : ∀ before op a, before ++ [op] <+: run → a ∈ attemptsOf ext service before op →
    a.succeeded = false →
    a.after.jobs = a.before.jobs ∧ a.after.jobSchedulers = a.before.jobSchedulers
  /-- Between two fires of a record without an upsert in between lies an occurrence. -/
  spaced : ∀ id before between after p p' t t' job job',
    schedulerLog ext service id run =
      before ++ .fired p t job :: (between ++ .fired p' t' job' :: after) →
    (∀ l ∈ between, l ≠ .created ∧ l ≠ .edited) → ∃ u, occurs p u ∧ t < u ∧ u ≤ t'

end Statement

/-! ## Records -/

/-- A scheduler record as a recurring one. -/
def JobSchedulerRow.recurring (row : JobSchedulerRow) : Record Pattern JobId :=
  ⟨row.pattern, row.nextRunAt, row.producedCount, row.lastJobId⟩

/-- The recurring record of a scheduler, if it has one. -/
def recordOf (db : Db) (id : String) : Option (Record Pattern JobId) :=
  (db.jobSchedulers.find? id).map JobSchedulerRow.recurring

variable {ext : Externals} {service : Service} {occurs : Pattern → ℤ → Prop} {id : String}

section Rounds

variable {t i : ℕ} {clock : Clock} {db : Db} {row : JobSchedulerRow} {rows : List JobSchedulerRow}

theorem newRows_self (db : Db) : newRows db db = [] := newRows_of_append (by simp)

/-- An attempt of a record that is due is a step of it, or nothing. -/
theorem Attempt.chain (cron : CronIsLeast ext occurs) {a : Attempt}
    (stored : a.before.jobSchedulers.find? a.record.id = some a.record)
    (due : ∃ due, a.record.nextRunAt = some due ∧ due ≤ a.time)
    (outcome : (a.succeeded = false ∧ a.after = a.before) ∨
      (a.succeeded = true ∧ ∃ job next, a.Fires ext job next)) :
    Chain (Recurrence.Step occurs) (recordOf a.before id) (a.labels id) (recordOf a.after id) := by
  unfold Attempt.labels
  rcases outcome with ⟨-, same⟩ | ⟨-, job, next, found, inserted, records⟩
  · rw [same, newRows_self, List.map_nil, ite_self]
    exact .nil _
  · obtain ⟨due, waits, passed⟩ := due
    unfold recordOf
    rw [inserted, records]
    by_cases own : a.record.id = id
    · rw [if_pos own, if_pos own.symm, ← own, stored]
      exact .single (.fired waits passed (cron _ _ _ _ found))
    · rw [if_neg own, if_neg (Ne.symm own)]
      exact .nil _

/-- The rounds of a tick are steps of the recurrence of a record. -/
theorem rounds_chain (cron : CronIsLeast ext occurs) (monotone : Monotone clock)
    (stored : ∀ r ∈ rows, db.jobSchedulers.find? r.id = some r)
    (nodup : (rows.map JobSchedulerRow.id).Nodup)
    (due : ∀ r ∈ rows, ∃ due, r.nextRunAt = some due ∧ due ≤ clock 0) :
    Chain (Recurrence.Step occurs) (recordOf db id)
      ((attempts ext service t clock i db rows).flatMap (Attempt.labels id))
      (recordOf (fireAll ext service t clock i db rows).2.1 id) := by
  induction rows generalizing i db with
  | nil => exact .nil _
  | cons row rest ih =>
    rw [fireAll_cons]
    have here := stored row List.mem_cons_self
    obtain ⟨time, waits, passed⟩ := due row List.mem_cons_self
    refine .append (Attempt.chain cron here ⟨time, waits, ?_⟩ (attempt_spec here)) ?_
    · exact passed.trans (monotone (Nat.zero_le _))
    exact ih (stored_of_cons stored nodup) (List.nodup_cons.mp nodup).2
      fun r mem => due r (List.mem_cons_of_mem row mem)

end Rounds

section Runs

variable {run : List Op} {op : Op}

/-- An upsert creates a record or edits it, and keeps what has been counted. -/
theorem recordOf_upsertScheduler {db : Db} {spec : JobSchedulerRow} {name : String}
    (named : spec.id = name) (fresh : spec.producedCount = 0 ∧ spec.lastJobId = none) :
    Chain (Recurrence.Step occurs) (recordOf db id)
      (if name = id then [if db.jobSchedulers.Has id then .edited else .created] else [])
      (recordOf (upsertScheduler db spec) id) := by
  subst named
  unfold recordOf upsertScheduler
  rw [Table.find?_upsert]
  by_cases own : spec.id = id
  · rw [if_pos own, if_pos own.symm]
    cases found : db.jobSchedulers.find? id with
    | none =>
      rw [if_neg (Table.not_has_iff.mpr found)]
      have start : spec.recurring = ⟨spec.pattern, spec.nextRunAt, 0, none⟩ := by
        unfold JobSchedulerRow.recurring
        rw [fresh.1, fresh.2]
      show Chain _ _ _ (some spec.recurring)
      rw [start]
      exact .single .created
    | some row =>
      rw [if_pos (Table.has_iff_find?.mpr ⟨row, found⟩)]
      exact .single .edited
  · rw [if_neg own, if_neg (Ne.symm own)]
    exact .nil _

/-- A deletion ends the recurrence of its record. -/
theorem recordOf_erase {db : Db} {name : String} :
    Chain (Recurrence.Step occurs) (recordOf db id)
      (if name = id ∧ db.jobSchedulers.Has id then [.deleted] else [])
      (recordOf { db with jobSchedulers := db.jobSchedulers.erase name } id) := by
  unfold recordOf
  rw [Table.find?_erase]
  by_cases own : name = id
  · rw [if_pos own.symm]
    cases found : db.jobSchedulers.find? id with
    | none =>
      rw [if_neg fun both => Table.not_has_iff.mpr found both.2]
      exact .nil _
    | some row =>
      rw [if_pos ⟨own, Table.has_iff_find?.mpr ⟨row, found⟩⟩]
      exact .single .deleted
  · rw [if_neg (Ne.symm own), if_neg fun both => own both.1]
    exact .nil _

/-- **Every operation takes a scheduler through steps of a recurring record.** -/
theorem record_step (cron : CronIsLeast ext occurs)
    (monotone : ∀ clock ∈ op.clock?, Monotone clock) :
    Chain (Recurrence.Step occurs) (recordOf (dbAfter ext service run) id)
      (schedulerEvents ext service id run op)
      (recordOf (dbAfter ext service (run ++ [op])) id) := by
  by_cases quiet : ¬ op.RulesSchedule ∧ ∀ clock batchSize, op ≠ .runOnce clock batchSize
  · have silent : schedulerEvents ext service id run op = [] := by
      cases op with
      | runOnce clock batchSize => exact absurd rfl (quiet.2 clock batchSize)
      | upsertJobScheduler clock req => exact absurd trivial quiet.1
      | deleteJobScheduler name => exact absurd trivial quiet.1
      | _ => rfl
    rw [silent]
    unfold recordOf
    rw [jobSchedulers_after ext service run quiet.1 quiet.2]
    exact .nil _
  cases op with
  | upsertJobScheduler clock req =>
    unfold schedulerEvents
    rcases transact_cases ext service run (.upsertJobScheduler clock req) rfl with
      ⟨unanswered, unchanged⟩ | ⟨⟨⟨name, next⟩, db', calls⟩, ok, answered, after⟩
    · simp only [unanswered, Option.isSome_none, Bool.false_eq_true, and_false, if_false,
        not_not.mp unchanged]
      exact .nil _
    · obtain ⟨template, spec, -, -, -, -, rfl, -⟩ := upsertJobScheduler_ok ok
      simp only [answered, after, Option.isSome_some, and_true]
      exact recordOf_upsertScheduler rfl ⟨rfl, rfl⟩
  | deleteJobScheduler name =>
    unfold schedulerEvents
    rcases transact_cases ext service run (.deleteJobScheduler name) rfl with
      ⟨unanswered, unchanged⟩ | ⟨⟨deleted, db', calls⟩, ok, answered, after⟩
    · simp only [unanswered, Option.isSome_none, Bool.false_eq_true, false_and, and_false,
        if_false, not_not.mp unchanged]
      exact .nil _
    · have dropped := (deleteJobScheduler_ok ok).1
      simp only [answered, after, Option.isSome_some, true_and, dropped]
      exact recordOf_erase
  | runOnce clock batchSize =>
    rw [dbAfter_concat]
    exact rounds_chain cron (monotone clock rfl) stored_of_selectDue selectDue_nodup
      fun r mem => (mem_dueSchedulers.mp (due_of_selected mem)).2
  | _ => exact absurd ⟨fun rules => rules.elim, fun _ _ same => Op.noConfusion same⟩ quiet

theorem record_chain (cron : CronIsLeast ext occurs) (advances : ClockAdvances run) :
    Chain (Recurrence.Step occurs) none (schedulerLog ext service id run)
      (recordOf (dbAfter ext service run) id) := by
  induction run using List.reverseRecOn with
  | nil => exact .nil _
  | append_singleton run op ih =>
    unfold schedulerLog
    rw [collect_concat, List.nil_append]
    refine (ih advances.of_concat).append (record_step cron fun clock reads => ?_)
    exact advances.within op (List.mem_append_right _ (List.mem_singleton_self op)) clock reads

end Runs

/-- **Scheduled production is exactly-once in every run**, with a clock that never goes
back and a cron library that finds the first occurrence. -/
theorem production_exactly_once (ext : Externals) (service : Service)
    (occurs : Pattern → ℤ → Prop) (cron : CronIsLeast ext occurs) (run : List Op)
    (advances : ClockAdvances run) : ExactlyOnce ext service occurs run := by
  refine ⟨fun id row found => ?_, fun before op a le mem succeeded => ?_,
    fun before op a le mem failed => ?_, fun id before between after p p' t t' job job' log =>
      fun unedited => ?_⟩
  · refine tallied_of_chain (record_chain cron advances) row.recurring ?_
    unfold recordOf
    rw [found]
    rfl
  · obtain ⟨clock, j, reads, time, stored, ⟨due, waits, passed⟩, outcome⟩ := attemptsOf_spec mem
    have monotone : Monotone clock := advances.within op (le.subset (by simp)) clock reads
    rcases outcome with ⟨failed, -⟩ | ⟨-, job, next, found, inserted, records⟩
    · rw [failed] at succeeded
      cases succeeded
    · refine ⟨⟨a.record, due, stored, waits, ?_⟩, ⟨job, inserted⟩, _, next,
        (records _).trans (if_pos rfl), rfl, (cron _ _ _ _ found).1.1⟩
      rw [time]
      exact passed.trans (monotone (Nat.zero_le _))
  · obtain ⟨clock, j, -, -, -, -, outcome⟩ := attemptsOf_spec mem
    rcases outcome with ⟨-, same⟩ | ⟨succeeded, -⟩
    · rw [same]
      exact ⟨rfl, rfl⟩
    · rw [failed] at succeeded
      cases succeeded
  · have chain : Chain (Recurrence.Step occurs) none (schedulerLog ext service id run)
        (recordOf (dbAfter ext service run) id) := record_chain cron advances
    rw [log] at chain
    exact occurrence_between chain unedited

/-! ## A scheduler that fires every minute -/

section Samples

/-- The first minute strictly after a time. -/
theorem unary_cronIsLeast : CronIsLeast .unary fun _ u => 60000 ∣ u := by
  intro now cron tz next found
  rw [nextCronAfter_unary found]
  refine ⟨⟨by omega, Dvd.intro_left _ rfl⟩, ?_⟩
  rintro u ⟨later, k, rfl⟩
  omega

/-- Two ticks when the scheduler is due, and one after an outage of two minutes. -/
def outageRun : List Op := [schedule "s" "", tickAt 60000 10, tickAt 60000 10, tickAt 200000 10]

theorem outageRun_advances : ClockAdvances outageRun where
  within := by
    intro op mem clock reads
    simp only [outageRun, schedule, tickAt, List.mem_cons, List.not_mem_nil, or_false] at mem
    rcases mem with rfl | rfl | rfl | rfl <;> cases reads <;> exact monotone_const
  across := by
    simp [outageRun, schedule, tickAt, Op.clock?, stopped]

/-- The second tick produces nothing, the last one job for the two occurrences missed. -/
theorem outage_produces_once :
    ExactlyOnce .unary {} (fun _ u => 60000 ∣ u) outageRun ∧
      schedulerLog .unary {} "s" outageRun =
        [.created, .fired ("* * * * *", "") 60000 (unaryId 1 0),
          .fired ("* * * * *", "") 200000 (unaryId 3 0)] :=
  ⟨production_exactly_once .unary {} _ unary_cronIsLeast outageRun outageRun_advances,
    by decide +kernel⟩

end Samples

end AnvilMQ
