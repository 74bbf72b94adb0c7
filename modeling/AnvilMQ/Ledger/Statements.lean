import AnvilMQ.Ledger.Machine
import AnvilMQ.Retention
import Mathlib.Tactic.Linarith
import Mathlib.Tactic.Ring

/-!
# Statements as events

Each SQL statement that touches the books is one event of the ledger machine:
the abstraction of the database after the statement is `Ledger.apply` of the
event to the abstraction before it.  The lookups come from the laws of
`Relational.Table`, the gauge levels from its counting laws.
-/

namespace AnvilMQ

open Rust Relational Transition

variable {ext : Externals} {db db' : Db} {t k slot : ℕ} {j : JobId} {history : Table HistoryRow.id}
  {events : List Event} {entry : HistoryRow} {receipt : Receipt}

/-! ## Gauge sums -/

/-- By how much a list of calls moves a gauge. -/
def callDelta (calls : List MetricCall) (gauge : Gauge) : ℤ :=
  (calls.map fun call => call.delta gauge).sum

/-- By how much a list of events moves a level. -/
def eventDelta (events : List Event) (gauge : Gauge) : ℤ :=
  (events.map fun e => e.delta gauge).sum

section Sums

variable (gauge : Gauge)

@[simp] theorem callDelta_nil : callDelta [] gauge = 0 := rfl

@[simp] theorem callDelta_cons (call : MetricCall) (calls : List MetricCall) :
    callDelta (call :: calls) gauge = call.delta gauge + callDelta calls gauge := by
  simp [callDelta]

@[simp] theorem callDelta_append (calls calls' : List MetricCall) :
    callDelta (calls ++ calls') gauge = callDelta calls gauge + callDelta calls' gauge := by
  simp [callDelta]

@[simp] theorem eventDelta_nil : eventDelta [] gauge = 0 := rfl

@[simp] theorem eventDelta_cons (e : Event) (events : List Event) :
    eventDelta (e :: events) gauge = e.delta gauge + eventDelta events gauge := by
  simp [eventDelta]

@[simp] theorem eventDelta_append (events events' : List Event) :
    eventDelta (events ++ events') gauge =
      eventDelta events gauge + eventDelta events' gauge := by
  simp [eventDelta]

/-- The level after a chain is the level before it plus what its events add. -/
theorem level_of_chain {l l' : Ledger} (chain : Chain (Step ext) l events l') :
    l'.level gauge = l.level gauge + eventDelta events gauge := by
  induction chain with
  | nil l => simp
  | cons step _ ih =>
    rw [ih, step.2, eventDelta_cons, ← add_assoc]
    rfl

theorem LiveState.Claimable.unit_eq {state : LiveState} (claimable : state.Claimable) :
    state.unit gauge = unitAt state.label gauge := by
  rcases claimable with rfl | rfl <;> simp [LiveState.unit]

@[simp] theorem active_unit : LiveState.active.unit gauge = unitAt (some .active) gauge := by
  simp [LiveState.unit, LiveState.label]

@[simp] theorem waitingChildren_unit : LiveState.waitingChildren.unit gauge =
    if gauge = .flowWaitingChildren then 1 else 0 := by
  simp [LiveState.unit, LiveState.label, unitAt]

@[simp] theorem unitAt_none : unitAt none gauge = 0 := by
  simp [unitAt]

end Sums

/-! ## Traces -/

/-- **What a request does**: a chain of events of one kind.  When `safe` holds,
its gauge calls mirror them. -/
structure Trace (ext : Externals) (kind : Event → Prop) (safe : Prop) (t k slot : ℕ) (db db' : Db)
    (calls : List MetricCall) (events : List Event) : Prop where
  chain : Chain (Step ext) (db.ledger t k) events (db'.ledger t slot)
  only : ∀ e ∈ events, kind e
  gauges : safe → ∀ gauge, callDelta calls gauge = eventDelta events gauge

namespace Trace

variable {kind : Event → Prop} {safe : Prop}

theorem nil : Trace ext kind safe t k k db db [] [] :=
  ⟨.nil _, by simp, by simp⟩

theorem append {db'' : Db} {slot' : ℕ} {calls calls' : List MetricCall} {events' : List Event}
    {safe' : Prop} (first : Trace ext kind safe t k slot db db' calls events) (stays : safe → safe')
    (second : Trace ext kind safe' t slot slot' db' db'' calls' events') :
    Trace ext kind safe t k slot' db db'' (calls ++ calls') (events ++ events') where
  chain := first.chain.append second.chain
  only := by
    intro e mem
    rcases List.mem_append.mp mem with early | late
    · exact first.only e early
    · exact second.only e late
  gauges := by
    intro holds gauge
    rw [callDelta_append, eventDelta_append, first.gauges holds, second.gauges (stays holds)]

/-- The gauges may be promised under a stronger condition. -/
theorem weaken {safe' : Prop} {calls : List MetricCall}
    (trace : Trace ext kind safe t k slot db db' calls events) (implies : safe' → safe) :
    Trace ext kind safe' t k slot db db' calls events :=
  ⟨trace.chain, trace.only, fun holds => trace.gauges (implies holds)⟩

end Trace

/-! ## Levels -/

section Levels

/-- The rows of `jobs` a gauge counts. -/
def Gauge.live (gauge : Gauge) (row : JobRow) : Bool := decide (row.state.unit gauge = 1)

/-- The rows of `job_history` a gauge counts. -/
def Gauge.terminal (gauge : Gauge) (row : HistoryRow) : Bool := decide (row.state.unit gauge = 1)

/-- The rows of `job_schedulers` a gauge counts. -/
def Gauge.scheduled (gauge : Gauge) (row : JobSchedulerRow) : Bool :=
  decide (gauge = .schedulersActive) && row.nextRunAt.isSome

theorem Gauge.live_unit (gauge : Gauge) (row : JobRow) :
    row.state.unit gauge = ((if gauge.live row then 1 else 0 : ℕ) : ℤ) := by
  rw [Gauge.live]
  cases row.state <;> rcases gauge with (_ | _ | _ | _ | _) | _ | _ | _ <;> decide

theorem Gauge.terminal_unit (gauge : Gauge) (row : HistoryRow) :
    row.state.unit gauge = ((if gauge.terminal row then 1 else 0 : ℕ) : ℤ) := by
  rw [Gauge.terminal]
  cases row.state <;> rcases gauge with (_ | _ | _ | _ | _) | _ | _ | _ <;> decide

theorem Gauge.scheduled_unit (gauge : Gauge) (row : JobSchedulerRow) :
    schedulerUnit (some row) gauge = ((if gauge.scheduled row then 1 else 0 : ℕ) : ℤ) := by
  simp only [schedulerUnit, Gauge.scheduled, Option.any_some, Bool.and_eq_true, decide_eq_true_eq]
  split <;> simp

theorem TerminalState.unit_zero_or_one (state : TerminalState) (gauge : Gauge) :
    state.unit gauge = 0 ∨ state.unit gauge = 1 := by
  cases state <;> rcases gauge with (_ | _ | _ | _ | _) | _ | _ | _ <;> decide

/-- Unfold the four gauges of a level: each table contributes to some of them. -/
theorem Db.level_eq (db : Db) (gauge : Gauge) :
    db.level gauge = db.jobs.count gauge.live + db.jobHistory.count gauge.terminal +
      (db.enqueueReceipts.count fun _ => true) * receiptUnit gauge +
      db.jobSchedulers.count gauge.scheduled := by
  cases gauge with
  | jobs label =>
    have live : (Gauge.jobs label).live = fun row => decide (row.state.label = some label) := by
      funext row
      rw [Gauge.live]
      cases row.state <;> cases label <;> decide
    have terminal : (Gauge.jobs label).terminal =
        fun row => decide (row.state.label = label) := by
      funext row
      rw [Gauge.terminal]
      cases row.state <;> cases label <;> decide
    simp [Db.level, live, terminal, receiptUnit, Table.count, Gauge.scheduled]
  | enqueueReceipts =>
    have live : Gauge.enqueueReceipts.live = fun _ => false := by
      funext row
      rw [Gauge.live]
      cases row.state <;> decide
    have terminal : Gauge.enqueueReceipts.terminal = fun _ => false := by
      funext row
      rw [Gauge.terminal]
      cases row.state <;> decide
    simp [Db.level, live, terminal, receiptUnit, Table.count, Gauge.scheduled]
  | schedulersActive =>
    have live : Gauge.schedulersActive.live = fun _ => false := by
      funext row
      rw [Gauge.live]
      cases row.state <;> decide
    have terminal : Gauge.schedulersActive.terminal = fun _ => false := by
      funext row
      rw [Gauge.terminal]
      cases row.state <;> decide
    have active : Gauge.schedulersActive.scheduled = fun row => row.nextRunAt.isSome := by
      funext row
      simp [Gauge.scheduled]
    simp [Db.level, live, terminal, receiptUnit, active, Table.count]
  | flowWaitingChildren =>
    have live : Gauge.flowWaitingChildren.live =
        fun row => decide (row.state = .waitingChildren) := by
      funext row
      rw [Gauge.live]
      cases row.state <;> decide
    have terminal : Gauge.flowWaitingChildren.terminal = fun _ => false := by
      funext row
      rw [Gauge.terminal]
      cases row.state <;> decide
    simp [Db.level, live, terminal, receiptUnit, Table.count, Gauge.scheduled]

theorem level_insert_job {row : JobRow} {jobs : Table JobRow.id}
    (inserted : db.jobs.insert row = some jobs) (gauge : Gauge) :
    ({ db with jobs := jobs } : Db).level gauge = db.level gauge + row.state.unit gauge := by
  have counted := Table.count_of_insert (p := gauge.live) inserted
  simp only [Db.level_eq, gauge.live_unit]
  omega

theorem level_modify_job {row : JobRow} {f : JobRow → JobRow} (keeps : ∀ r, (f r).id = r.id)
    (found : db.jobs.find? j = some row) (gauge : Gauge) :
    ({ db with jobs := db.jobs.modify j f keeps } : Db).level gauge =
      db.level gauge + ((f row).state.unit gauge - row.state.unit gauge) := by
  have counted : (db.jobs.modify j f keeps).count gauge.live + _ = _ := Table.count_modify found
  simp only [Db.level_eq, gauge.live_unit]
  omega

theorem level_erase_job {row : JobRow} (found : db.jobs.find? j = some row) (gauge : Gauge) :
    ({ db with jobs := db.jobs.erase j } : Db).level gauge =
      db.level gauge - row.state.unit gauge := by
  have counted := Table.count_erase (p := gauge.live) found
  simp only [Db.level_eq, gauge.live_unit]
  omega

theorem level_insert_history (db : Db) (inserted : db.jobHistory.insert entry = some history)
    (gauge : Gauge) : ({ db with jobHistory := history } : Db).level gauge =
      db.level gauge + entry.state.unit gauge := by
  have counted := Table.count_of_insert (p := gauge.terminal) inserted
  simp only [Db.level_eq, gauge.terminal_unit]
  omega

theorem level_insert_receipt {receipts : Table Receipt.key}
    (inserted : db.enqueueReceipts.insert receipt = some receipts) (gauge : Gauge) :
    ({ db with enqueueReceipts := receipts } : Db).level gauge =
      db.level gauge + receiptUnit gauge := by
  have counted := Table.count_of_insert (p := fun _ => true) inserted
  rw [Db.level_eq, Db.level_eq]
  simp only [counted, if_true]
  push_cast
  ring

theorem level_delete_receipts (db : Db) (p : Receipt → Bool) (gauge : Gauge) :
    ({ db with enqueueReceipts := db.enqueueReceipts.delete p } : Db).level gauge =
      db.level gauge - db.enqueueReceipts.count p * receiptUnit gauge := by
  have counted := Table.count_delete (t := db.enqueueReceipts) (p := fun _ => true) p
  simp only [Bool.true_and] at counted
  change _ + db.enqueueReceipts.count p = _ at counted
  simp only [Db.level_eq, ← counted]
  push_cast
  ring

/-- Deleting history rows of one state lowers the gauge of that state. -/
theorem level_delete_history {p : HistoryRow → Bool} {state : TerminalState}
    (only : ∀ row ∈ db.jobHistory, p row = true → row.state = state) (gauge : Gauge) :
    ({ db with jobHistory := db.jobHistory.delete p } : Db).level gauge =
      db.level gauge - db.jobHistory.count p * state.unit gauge := by
  have counted := Table.count_delete (t := db.jobHistory) (p := gauge.terminal) p
  have selected : (db.jobHistory.rows.countP (fun row => gauge.terminal row && p row) : ℤ) =
      db.jobHistory.count p * state.unit gauge := by
    rcases state.unit_zero_or_one gauge with zero | one
    · rw [zero, mul_zero, Nat.cast_eq_zero, List.countP_eq_zero]
      intro row mem both
      simp only [Gauge.terminal, Bool.and_eq_true, decide_eq_true_eq] at both
      rw [only row mem both.2, zero] at both
      exact absurd both.1 (by decide)
    · rw [one, mul_one, Nat.cast_inj]
      refine List.countP_congr fun row mem => ?_
      simp only [Gauge.terminal, Bool.and_eq_true, decide_eq_true_eq, and_iff_right_iff_imp]
      intro chosen
      rw [only row mem chosen, one]
  simp only [Db.level_eq, ← counted, ← selected]
  push_cast
  ring

end Levels

/-! ## Inserts -/

section Inserts

theorem insertJob_ok {row : JobRow} (ok : db.insertJob row = .ok db') :
    ∃ jobs, db.jobs.insert row = some jobs ∧ db' = { db with jobs := jobs } := by
  rw [Db.insertJob] at ok
  cases inserted : db.jobs.insert row with
  | none => simp [inserted] at ok
  | some jobs =>
    simp only [inserted, Except.ok.injEq] at ok
    exact ⟨jobs, rfl, ok.symm⟩

theorem insertReceipt_ok (ok : db.insertReceipt receipt = .ok db') :
    ∃ receipts, db.enqueueReceipts.insert receipt = some receipts ∧
      db' = { db with enqueueReceipts := receipts } := by
  rw [Db.insertReceipt] at ok
  cases inserted : db.enqueueReceipts.insert receipt with
  | none => simp [inserted] at ok
  | some receipts =>
    simp only [inserted, Except.ok.injEq] at ok
    exact ⟨receipts, rfl, ok.symm⟩

theorem ledger_planted {row : JobRow} {jobs : Table JobRow.id}
    (inserted : db.jobs.insert row = some jobs) :
    ({ db with jobs := jobs } : Db).ledger t slot =
      (db.ledger t k).apply ext (.planted row slot) := by
  refine Ledger.ext (funext fun j => ?_) (funext fun j => ?_) (funext fun key => ?_) rfl rfl rfl
    (funext fun gauge => level_insert_job inserted gauge) rfl rfl
  · simp [Db.ledger, Ledger.apply, Table.find?_of_insert inserted, eq_comm]
  · simp [Db.ledger, Ledger.apply]
  · simp [Db.ledger, Ledger.apply]

theorem ledger_receipted {receipts : Table Receipt.key}
    (inserted : db.enqueueReceipts.insert receipt = some receipts) (request : AddJobRequest) :
    ({ db with enqueueReceipts := receipts } : Db).ledger t k =
      (db.ledger t k).apply ext (.receipted receipt request) := by
  refine Ledger.ext (funext fun j => ?_) (funext fun j => ?_) (funext fun key => ?_) rfl rfl rfl
    (funext fun gauge => level_insert_receipt inserted gauge) rfl rfl
  · simp [Db.ledger, Ledger.apply]
  · simp [Db.ledger, Ledger.apply]
  · simp [Db.ledger, Ledger.apply, Table.find?_of_insert inserted, eq_comm]

end Inserts

/-! ## Updates of one row -/

section Updates

/-- Change the row of one job and nothing else. -/
def Ledger.adjust (l : Ledger) (j : JobId) (f : JobRow → JobRow) (d : Gauge → ℤ) : Ledger :=
  { l with
    jobs := fun i => (l.jobs i).map fun row => if i = j then f row else row
    level := fun gauge => l.level gauge + d gauge }

theorem ledger_modify {row : JobRow} {f : JobRow → JobRow} (keeps : ∀ r, (f r).id = r.id)
    (found : db.jobs.find? j = some row) :
    ({ db with jobs := db.jobs.modify j f keeps } : Db).ledger t k =
      (db.ledger t k).adjust j f fun gauge => (f row).state.unit gauge - row.state.unit gauge := by
  refine Ledger.ext (funext fun i => ?_) rfl rfl rfl rfl rfl
    (funext fun gauge => level_modify_job keeps found gauge) rfl rfl
  simp only [Db.ledger, Ledger.adjust, Table.find?_modify]
  split
  · rename_i same
    rw [same]
  · simp

theorem Event.IsUpdate.apply_eq {l : Ledger} {e : Event} (update : e.IsUpdate) {f : JobRow → JobRow}
    (evolve : ∀ i row, e.evolve i row = if i = j then f row else row) :
    l.apply ext e = l.adjust j f e.delta := by
  cases e <;> simp only [Event.IsUpdate] at update
  all_goals
    refine Ledger.ext (funext fun i => ?_) (funext fun i => ?_) (funext fun key => ?_)
      rfl rfl rfl rfl rfl rfl
    · simp only [Ledger.apply, Ledger.adjust, evolve]
      simp
    · simp [Ledger.apply, Ledger.adjust]
    · simp [Ledger.apply, Ledger.adjust]

/-- An update of a live row is an update event, when the event does to the row and
to the gauges what the statement does. -/
theorem ledger_update (e : Event) (update : e.IsUpdate) {row : JobRow} {f : JobRow → JobRow}
    (keeps : ∀ r, (f r).id = r.id) (found : db.jobs.find? j = some row)
    (evolve : ∀ i row, e.evolve i row = if i = j then f row else row)
    (delta : ∀ gauge, e.delta gauge = (f row).state.unit gauge - row.state.unit gauge) :
    ({ db with jobs := db.jobs.modify j f keeps } : Db).ledger t k =
      (db.ledger t k).apply ext e := by
  rw [ledger_modify keeps found, update.apply_eq evolve]
  exact congrArg _ (funext fun gauge => (delta gauge).symm)

end Updates

/-! ## Archiving -/

section Archiving

/-- What an archiving writes. -/
theorem archive_ok {row : JobRow} {toHistory : JobRow → HistoryRow} {n : ℕ}
    (found : db.jobs.find? row.id = some row)
    (ok : db.archive row.id toHistory = .ok (db', n)) :
    ∃ history, db.jobHistory.insert (toHistory row) = some history ∧
      n = db.enqueueReceipts.count (Db.releasable row.id) ∧
      db' = { db with
        jobs := db.jobs.erase row.id
        jobHistory := history
        enqueueReceipts := db.enqueueReceipts.delete (Db.releasable row.id) } := by
  simp only [Db.archive, found] at ok
  cases inserted : db.jobHistory.insert (toHistory row) with
  | none => simp [inserted] at ok
  | some history =>
    simp only [inserted, Except.ok.injEq, Prod.mk.injEq] at ok
    exact ⟨history, rfl, ok.2.symm, ok.1.symm⟩

/-- Archiving fails only on a history row of the same id. -/
theorem archive_error {row : JobRow} {toHistory : JobRow → HistoryRow} {status : Status}
    (found : db.jobs.find? row.id = some row)
    (failed : db.archive row.id toHistory = .error status) :
    status = Db.historyConflict ∧ db.jobHistory.Has (toHistory row).id := by
  simp only [Db.archive, found] at failed
  cases inserted : db.jobHistory.insert (toHistory row) with
  | none =>
    simp only [inserted, Except.error.injEq] at failed
    exact ⟨failed.symm, Table.insert_eq_none.mp inserted⟩
  | some history => simp [inserted] at failed

/-- The statements that archive a row are one event. -/
theorem ledger_archived {row : JobRow} (found : db.jobs.find? row.id = some row)
    (same : entry.id = row.id) (inserted : db.jobHistory.insert entry = some history) {e : Event}
    (kind : (∃ now updatedAt, e = .completed row entry none now updatedAt
        (db.enqueueReceipts.count (Db.releasable row.id))) ∨
      ∃ cause, e = .failed row entry cause (db.enqueueReceipts.count (Db.releasable row.id))) :
    ({ db with
        jobs := db.jobs.erase row.id
        jobHistory := history
        enqueueReceipts := db.enqueueReceipts.delete (Db.releasable row.id) } : Db).ledger t k =
      (db.ledger t k).apply ext e := by
  have levels : ∀ gauge, ({ db with
        jobs := db.jobs.erase row.id
        jobHistory := history
        enqueueReceipts := db.enqueueReceipts.delete (Db.releasable row.id) } : Db).level gauge =
      db.level gauge + (entry.state.unit gauge - row.state.unit gauge -
        db.enqueueReceipts.count (Db.releasable row.id) * receiptUnit gauge) := by
    intro gauge
    have erased := level_erase_job found gauge
    have written := level_insert_history { db with jobs := db.jobs.erase row.id } inserted gauge
    have released := level_delete_receipts
      { db with jobs := db.jobs.erase row.id, jobHistory := history } (Db.releasable row.id) gauge
    linarith
  rcases kind with ⟨now, updatedAt, rfl⟩ | ⟨cause, rfl⟩
  all_goals
    refine Ledger.ext (funext fun i => ?_) (funext fun i => ?_) (funext fun key => ?_)
      rfl rfl rfl (funext fun gauge => ?_) rfl rfl
    · simp [Db.ledger, Ledger.apply, Table.find?_erase, eq_comm]
    · simp [Db.ledger, Ledger.apply, Table.find?_of_insert inserted, same, eq_comm]
    · simp [Db.ledger, Ledger.apply, Table.find?_delete]
    · simpa [Db.ledger, Ledger.apply] using levels gauge

@[simp] theorem JobRow.countedDown_id (row : JobRow) (now updatedAt : ℤ) :
    (row.countedDown now updatedAt).id = row.id := by
  rw [JobRow.countedDown]
  split <;> rfl

/-- The state a counted-down parent is released to, if its gate opens. -/
def JobRow.opened (row : JobRow) (now : ℤ) : Option LiveState :=
  let counted := { row with pendingChildren := row.pendingChildren - 1 }
  if gateOpens counted then some (releasedState counted now) else none

/-- The two updates of a parent are one, and the released state is read off the
row the first of them finds. -/
theorem countDown_eq (db : Db) (p : JobId) (now updatedAt : ℤ) :
    countDown db p now updatedAt =
      ({ db with
          jobs := db.jobs.modify p (fun row => row.countedDown now updatedAt)
            fun row => row.countedDown_id now updatedAt },
        (db.jobs.find? p).bind fun row => row.opened now) := by
  simp only [countDown, Table.find?_modify, if_true]
  cases found : db.jobs.find? p with
  | none =>
    have absent := Table.not_has_iff.mpr found
    simp [Table.modify_of_not_has absent]
  | some parent =>
    simp only [Option.map_some, Option.bind_some, JobRow.opened]
    split
    · rename_i opens
      rw [Table.modify_modify]
      refine Prod.ext ?_ rfl
      refine congrArg (fun jobs => ({ db with jobs := jobs } : Db)) (Table.modify_congr ?_)
      intro row here
      cases found.symm.trans here
      rw [JobRow.countedDown, if_pos opens]
    · rename_i shut
      refine Prod.ext ?_ rfl
      refine congrArg (fun jobs => ({ db with jobs := jobs } : Db)) (Table.modify_congr ?_)
      intro row here
      cases found.symm.trans here
      rw [JobRow.countedDown, if_neg shut]

/-- Counting off a live parent is an adjustment of its row after the archiving. -/
theorem apply_completed_some (l : Ledger) (row p : JobRow) (entry : HistoryRow)
    (now updatedAt : ℤ) (n : ℕ) :
    l.apply ext (.completed row entry (some p) now updatedAt n) =
      (l.apply ext (.completed row entry none now updatedAt n)).adjust p.id
        (fun row => row.countedDown now updatedAt)
        fun gauge => (p.countedDown now updatedAt).state.unit gauge - p.state.unit gauge := by
  refine Ledger.ext (funext fun i => ?_) rfl rfl rfl rfl rfl (funext fun gauge => ?_) rfl rfl
  · simp only [Ledger.apply, Ledger.adjust, Event.retiredId, Event.born, Event.evolve]
    by_cases here : row.id = i
    · simp [here]
    · simp [here, eq_comm (a := p.id)]
  · simp only [Ledger.apply, Ledger.adjust, Event.delta, Option.map_some, Option.map_none,
      Option.getD_some, Option.getD_none]
    ring

/-- A completion that counts off its parent is one event. -/
theorem ledger_completed {row : JobRow} (found : db.jobs.find? row.id = some row)
    (same : entry.id = row.id) (inserted : db.jobHistory.insert entry = some history)
    (now updatedAt : ℤ) (archived : db' = { db with
      jobs := db.jobs.erase row.id
      jobHistory := history
      enqueueReceipts := db.enqueueReceipts.delete (Db.releasable row.id) }) :
    (releaseParent db' row.parentId now updatedAt).1.ledger t k =
      (db.ledger t k).apply ext (.completed row entry (row.parentId.bind db'.jobs.find?) now
        updatedAt (db.enqueueReceipts.count (Db.releasable row.id))) := by
  have retired : db'.ledger t k = (db.ledger t k).apply ext (.completed row entry none now
      updatedAt (db.enqueueReceipts.count (Db.releasable row.id))) := by
    rw [archived]
    exact ledger_archived found same inserted (.inl ⟨now, updatedAt, rfl⟩)
  cases parentId : row.parentId with
  | none => simpa [releaseParent] using retired
  | some p =>
    simp only [releaseParent, countDown_eq, Option.bind_some]
    cases live : db'.jobs.find? p with
    | none =>
      rw [Table.modify_of_not_has (Table.not_has_iff.mpr live)]
      exact retired
    | some parent =>
      obtain rfl := Table.key_of_find? live
      rw [apply_completed_some, ← retired]
      exact ledger_modify _ live

end Archiving

/-! ## Pruning -/

section Pruning

theorem deleteSelected_find? {ρ κ : Type} [DecidableEq κ] {key : ρ → κ} (table : Table key)
    (selected : List ρ) (i : κ) :
    (deleteSelected table selected).1.find? i =
      if i ∈ selected.map key then none else table.find? i := by
  rw [deleteSelected, Table.find?_delete]
  cases found : table.find? i with
  | none => simp
  | some row =>
    rw [Option.filter_some, Table.key_of_find? found]
    by_cases chosen : i ∈ selected.map key <;> simp [chosen]

/-- A prune of the history is one event. -/
theorem ledger_historyPruned {selected : List HistoryRow} {state : TerminalState}
    (only : ∀ row ∈ selected, row ∈ db.jobHistory ∧ row.state = state) :
    ({ db with jobHistory := (deleteSelected db.jobHistory selected).1 } : Db).ledger t k =
      (db.ledger t k).apply ext (.historyPruned state (selected.map HistoryRow.id)
        (deleteSelected db.jobHistory selected).2) := by
  refine Ledger.ext (funext fun i => ?_) (funext fun i => ?_) (funext fun key => ?_)
    rfl rfl rfl (funext fun gauge => ?_) rfl rfl
  · simp [Db.ledger, Ledger.apply]
  · simp [Db.ledger, Ledger.apply, deleteSelected_find?]
  · simp [Db.ledger, Ledger.apply]
  · simp only [Db.ledger, Ledger.apply, Event.delta, deleteSelected]
    rw [level_delete_history, sub_eq_add_neg]
    intro row mem chosen
    obtain ⟨other, picked, sameId⟩ : ∃ other ∈ selected, other.id = row.id := by
      simpa using chosen
    have := only other picked
    rw [← Table.eq_of_key_eq this.1 mem sameId]
    exact this.2

theorem ledger_receiptsPruned (selected : List Receipt) :
    ({ db with enqueueReceipts := (deleteSelected db.enqueueReceipts selected).1 } : Db).ledger
        t k =
      (db.ledger t k).apply ext (.receiptsPruned (selected.map Receipt.key)
        (deleteSelected db.enqueueReceipts selected).2) := by
  refine Ledger.ext (funext fun i => ?_) (funext fun i => ?_) (funext fun key => ?_)
    rfl rfl rfl (funext fun gauge => ?_) rfl rfl
  · simp [Db.ledger, Ledger.apply]
  · simp [Db.ledger, Ledger.apply]
  · simp [Db.ledger, Ledger.apply, deleteSelected_find?]
  · simp only [Db.ledger, Ledger.apply, Event.delta, deleteSelected]
    rw [level_delete_receipts, sub_eq_add_neg]

end Pruning

/-! ## Ingress rules and scheduler records -/

section Records

/-- Dropping a rule and its bucket is one event, -/
theorem ledger_ruleDropped (facet : String) :
    ({ db with
        ingressLimitRules := db.ingressLimitRules.erase facet
        ingressLimitCounters := db.ingressLimitCounters.erase facet } : Db).ledger t k =
      (db.ledger t k).apply ext (.ruleDropped facet) := by
  refine Ledger.ext (funext fun j => ?_) (funext fun j => ?_) (funext fun key => ?_)
    (funext fun f => ?_) (funext fun f => ?_) rfl (funext fun gauge => ?_) rfl rfl
  · simp [Db.ledger, Ledger.apply]
  · simp [Db.ledger, Ledger.apply]
  · simp [Db.ledger, Ledger.apply]
  · simp [Db.ledger, Ledger.apply, Table.find?_erase]
  · simp only [Db.ledger, Ledger.apply, Event.bucketsAfter, Db.ingressBucket, Table.find?_erase,
      Function.update_apply]
    split <;> rfl
  · simp only [Db.ledger, Ledger.apply, Event.delta, add_zero]
    rfl

/-- and so is storing a rule and clearing its bucket. -/
theorem ledger_ruleStored {rule : LimitRule} {f : LimitRule → LimitRule}
    (keeps : ∀ r, (f r).facetPattern = r.facetPattern)
    (replaces : ∀ r : LimitRule, r.facetPattern = rule.facetPattern → f r = rule) :
    ({ db with
        ingressLimitRules := db.ingressLimitRules.upsert rule f keeps
        ingressLimitCounters := db.ingressLimitCounters.erase rule.facetPattern } : Db).ledger
        t k =
      (db.ledger t k).apply ext (.ruleStored rule) := by
  refine Ledger.ext (funext fun j => ?_) (funext fun j => ?_) (funext fun key => ?_)
    (funext fun g => ?_) (funext fun g => ?_) rfl (funext fun gauge => ?_) rfl rfl
  · simp [Db.ledger, Ledger.apply]
  · simp [Db.ledger, Ledger.apply]
  · simp [Db.ledger, Ledger.apply]
  · simp only [Db.ledger, Ledger.apply, Event.ruleAfter, Table.find?_upsert]
    split
    · rename_i here
      cases found : db.ingressLimitRules.find? g with
      | none => rfl
      | some old => simp [replaces old ((Table.key_of_find? found).trans here)]
    · rfl
  · simp only [Db.ledger, Ledger.apply, Event.bucketsAfter, Db.ingressBucket, Table.find?_erase,
      Function.update_apply]
    split <;> rfl
  · simp only [Db.ledger, Ledger.apply, Event.delta, add_zero]
    rfl

/-- A scheduler event touches no book but the records. -/
theorem apply_scheduler {l : Ledger} {e : Event} (schedulers : String → Option JobSchedulerRow)
    (kind : (∃ row old, e = .schedulerStored row old) ∨ ∃ id old, e = .schedulerDropped id old)
    (after : ∀ id, schedulers id = e.schedulerAfter id (l.jobSchedulers id)) :
    l.apply ext e = { l with
      jobSchedulers := schedulers
      level := fun gauge => l.level gauge + e.delta gauge } := by
  rcases kind with ⟨row, old, rfl⟩ | ⟨id, old, rfl⟩
  all_goals
    refine Ledger.ext (funext fun j => ?_) (funext fun j => ?_) (funext fun key => ?_)
      rfl rfl (funext fun id => (after id).symm) rfl rfl rfl
    · simp [Ledger.apply]
    · simp [Ledger.apply]
    · simp [Ledger.apply]

theorem ledger_schedulerInserted {row : JobSchedulerRow} {table : Table JobSchedulerRow.id}
    (inserted : db.jobSchedulers.insert row = some table) :
    ({ db with jobSchedulers := table } : Db).ledger t k =
      (db.ledger t k).apply ext (.schedulerStored row none) := by
  rw [apply_scheduler table.find? (.inl ⟨_, _, rfl⟩)
    fun id => by simp [Table.find?_of_insert inserted, Db.ledger]]
  refine Ledger.ext rfl rfl rfl rfl rfl rfl (funext fun gauge => ?_) rfl rfl
  have counted := Table.count_of_insert (p := gauge.scheduled) inserted
  have unscheduled : schedulerUnit none gauge = 0 := by simp [schedulerUnit]
  simp only [Db.ledger, Event.delta, Db.level_eq, unscheduled, gauge.scheduled_unit]
  omega

theorem ledger_schedulerModified {id : String} {row : JobSchedulerRow}
    {f : JobSchedulerRow → JobSchedulerRow} (keeps : ∀ r, (f r).id = r.id)
    (found : db.jobSchedulers.find? id = some row) :
    ({ db with jobSchedulers := db.jobSchedulers.modify id f keeps } : Db).ledger t k =
      (db.ledger t k).apply ext (.schedulerStored (f row) (some row)) := by
  have sameId : (f row).id = id := (keeps row).trans (Table.key_of_find? found)
  rw [apply_scheduler (db.jobSchedulers.modify id f keeps).find?
    (.inl ⟨_, _, rfl⟩) fun i => by simp [Table.find?_modify, Db.ledger, found, sameId]]
  refine Ledger.ext rfl rfl rfl rfl rfl rfl (funext fun gauge => ?_) rfl rfl
  have counted : (db.jobSchedulers.modify id f keeps).count
      gauge.scheduled + _ = _ := Table.count_modify found
  simp only [Db.ledger, Event.delta, Db.level_eq, gauge.scheduled_unit]
  omega

theorem ledger_schedulerDropped (id : String) :
    ({ db with jobSchedulers := db.jobSchedulers.erase id } : Db).ledger t k =
      (db.ledger t k).apply ext (.schedulerDropped id (db.jobSchedulers.find? id)) := by
  rw [apply_scheduler (db.jobSchedulers.erase id).find?
    (.inr ⟨_, _, rfl⟩) fun i => by simp [Table.find?_erase, Db.ledger]]
  refine Ledger.ext rfl rfl rfl rfl rfl rfl (funext fun gauge => ?_) rfl rfl
  cases found : db.jobSchedulers.find? id with
  | none =>
    rw [Table.erase_of_not_has (Table.not_has_iff.mpr found)]
    simp [Db.ledger, schedulerUnit]
  | some row =>
    have counted := Table.count_erase (p := gauge.scheduled) found
    simp only [Db.ledger, Event.delta, Db.level_eq, gauge.scheduled_unit]
    omega

end Records

end AnvilMQ
