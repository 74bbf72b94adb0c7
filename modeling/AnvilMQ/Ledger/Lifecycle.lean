import AnvilMQ.Ledger.Statements
import AnvilMQ.Leases

/-!
# The life of a claim as events

Claiming, renewing, completing, failing and recovering a job.  Each accepted
acknowledgment is one event, except a terminal failure, which is followed by one
event for every ancestor the failure cascades to.
-/

namespace AnvilMQ

open Rust Relational Transition

variable {ext : Externals} {service : Service} {db db' : Db} {t k : ℕ} {calls : List MetricCall}
  {workerId : String} {now : ℤ} {ancestor : Option JobId} {row : JobRow} {clock : Clock}
  {toHistory : JobRow → HistoryRow} {flag : Bool} {n attempt : ℕ} {jittered : ℤ}

/-! ## Claims -/

/-- A poll selects a due job of the table. -/
theorem selectNext_some {queueNames : List String}
    (selected : selectNext service db now queueNames = some row) :
    db.jobs.find? row.id = some row ∧ row.state.Claimable := by
  have mem := mem_of_firstBy selected
  rw [List.mem_filter] at mem
  refine ⟨Table.find?_of_mem mem.1, ?_⟩
  have due := mem.2
  simp only [AnvilMQ.due, Bool.and_eq_true, Bool.or_eq_true, decide_eq_true_eq] at due
  exact due.1.1.1

theorem leaseTo_ledger {later : ℤ} :
    (leaseTo service (consume db row now) row workerId later).ledger t k =
      ({ db with
        jobs := db.jobs.modify row.id
          (fun row => row.leased workerId later (wrappingAdd later service.leaseDurationMs))
          fun _ => rfl } : Db).ledger t k := by
  have consumed : ∃ counters, consume db row now = { db with rateLimitCounters := counters } := by
    rw [consume]
    split
    · exact ⟨db.rateLimitCounters, rfl⟩
    · exact ⟨_, rfl⟩
  obtain ⟨counters, same⟩ := consumed
  rw [same, leaseTo]
  split <;> rfl

/-- What a poll does: nothing, or one claim of the job it selects. -/
theorem getNextJob_cases {req : GetNextJobRequest} {job : Option ClaimedJob}
    (ok : getNextJob service clock db req = .ok (job, db', calls)) :
    (job = none ∧ db' = db ∧ calls = []) ∨
    ∃ row, selectNext service db (clock 0) req.queueNames = some row ∧
      isBlank req.workerId = false ∧
      job = some (claimedJob service row (clock 1)) ∧
      calls = [.transition row.state.label (some .active)] ∧
      db' = leaseTo service (consume db row (clock 0)) row req.workerId (clock 1) := by
  simp only [getNextJob] at ok
  split at ok
  · cases ok
  rename_i worker
  split at ok
  · cases ok
  cases selected : selectNext service db (clock 0) req.queueNames with
  | none =>
    simp only [selected, Except.ok.injEq, Prod.mk.injEq] at ok
    exact .inl ⟨ok.1.symm, ok.2.1.symm, ok.2.2.symm⟩
  | some row =>
    simp only [selected] at ok
    split at ok
    · cases ok
    · simp only [Except.ok.injEq, Prod.mk.injEq] at ok
      exact .inr ⟨row, rfl, by simpa using worker, ok.1.symm, ok.2.2.symm, ok.2.1.symm⟩

/-- The event of a claim. -/
def claimEvent (service : Service) (row : JobRow) (workerId : String) (now : ℤ) : Event :=
  .claimed row workerId now (wrappingAdd now service.leaseDurationMs)

theorem claim_step {later : ℤ} (live : db.jobs.find? row.id = some row)
    (claimable : row.state.Claimable) (worker : isBlank workerId = false) :
    Step ext (db.ledger t k) (claimEvent service row workerId later)
      ((leaseTo service (consume db row now) row workerId later).ledger t k) := by
  refine ⟨⟨live, claimable, worker⟩, ?_⟩
  rw [leaseTo_ledger]
  exact ledger_update (claimEvent service row workerId later) trivial _ live (fun _ _ => rfl)
    fun _ => rfl

theorem claim_gauges (claimable : row.state.Claimable) (gauge : Gauge) :
    callDelta [.transition row.state.label (some .active)] gauge =
      (claimEvent service row workerId now).delta gauge := by
  simp [claimEvent, MetricCall.delta, claimable.unit_eq]

/-! ## Heartbeats -/

/-- The database with the lease of a job renewed. -/
def leaseRenewed (db : Db) (j : JobId) (expiry now : ℤ) : Db :=
  { db with
    jobs := db.jobs.modify j
      (fun row => { row with
        leaseExpiresAtMs := some expiry
        updatedAt := now }) fun _ => rfl }

/-- **What a heartbeat is accepted on**, and what it writes. -/
theorem renewLease_ok {req : HeartbeatRequest} {expiry : ℤ}
    (ok : renewLease service clock db req = .ok (expiry, db')) :
    ∃ row lease, db.jobs.find? req.id = some row ∧ row.state = .active ∧
      row.workerId = some req.workerId ∧ row.attempts = req.attempt ∧ req.attempt ≠ 0 ∧
      row.leaseExpiresAtMs = some lease ∧ clock 0 < lease ∧
      expiry = max lease (wrappingAdd (clock 0) service.leaseDurationMs) ∧
      db' = leaseRenewed db req.id expiry (clock 0) := by
  simp only [renewLease, guard_eq_ok] at ok
  obtain ⟨wellFormed, ok⟩ := ok
  cases found : db.jobs.find? req.id with
  | none =>
    simp only [found] at ok
    split at ok <;> cases ok
  | some row =>
    simp only [found, guard_eq_ok] at ok
    obtain ⟨active, owner, ok⟩ := ok
    cases leased : row.leaseExpiresAtMs with
    | none => simp [leased] at ok
    | some lease =>
      simp only [leased, guard_eq_ok, Except.ok.injEq, Prod.mk.injEq] at ok
      obtain ⟨current, rfl, rfl⟩ := ok
      simp only [not_or, not_not, not_le] at wellFormed active owner current
      exact ⟨row, lease, rfl, active, owner, current.1, wellFormed.2.2, leased, current.2,
        rfl, rfl⟩

/-- A heartbeat that succeeds is one of the holder, in time. -/
theorem renewLease_cases {req : HeartbeatRequest} {expiry : ℤ}
    (ok : renewLease service clock db req = .ok (expiry, db')) :
    ∃ row lease, db.jobs.find? req.id = some row ∧ row.state = .active ∧
      row.workerId = some req.workerId ∧ row.attempts = req.attempt ∧ req.attempt ≠ 0 ∧
      row.leaseExpiresAtMs = some lease ∧ clock 0 < lease ∧
      expiry = max lease (wrappingAdd (clock 0) service.leaseDurationMs) ∧
      Step ext (db.ledger t k) (.renewed row expiry (clock 0)) (db'.ledger t k) := by
  obtain ⟨row, lease, found, active, owner, attempt, positive, leased, running, extended, rfl⟩ :=
    renewLease_ok ok
  have here : row.id = req.id := Table.key_of_find? found
  refine ⟨row, lease, found, active, owner, attempt, positive, leased, running, extended,
    ⟨?_, active⟩, ?_⟩
  · rw [here]
    exact found
  · refine ledger_update (.renewed row _ _) trivial _ found ?_ ?_
    · intro i r
      rw [Event.evolve, here]
    · simp

/-! ## Acknowledgments -/

/-- **What an acknowledgment is accepted on**: the job is active, leased to the
worker under the acknowledged attempt, and the lease is running. -/
structure Accepts (row : JobRow) (workerId : String) (attempt : ℕ) (now : ℤ) : Prop where
  active : row.state = .active
  owner : row.workerId = some workerId
  attempt : row.attempts = max attempt 1
  running : ∃ lease, row.leaseExpiresAtMs = some lease ∧ now < lease

/-- `check_claim` passes exactly the holder of a lease that runs. -/
theorem checkClaim_ok :
    checkClaim row workerId attempt now = .ok () ↔ Accepts row workerId attempt now := by
  have aliased : (if attempt = 0 then 1 else attempt) = max attempt 1 := by
    split <;> omega
  rw [checkClaim, aliased]
  constructor
  · intro ok
    split at ok
    · cases ok
    rename_i active
    split at ok
    · cases ok
    rename_i owner
    split at ok
    · cases ok
    rename_i current
    split at ok
    · cases ok
    rename_i running
    refine ⟨not_not.mp active, not_not.mp owner, (not_not.mp current).symm, ?_⟩
    cases leased : row.leaseExpiresAtMs with
    | none => simp [leased] at running
    | some lease => exact ⟨lease, rfl, by simpa [leased] using running⟩
  · rintro ⟨active, owner, current, lease, leased, running⟩
    simp [active, owner, current, leased, running]

/-! ## Cascades -/

/-- **The ancestors a failure takes along.**  `Cascade jobs flag ancestor chain`:
starting with `ancestor` and while the flag of the last job is set, `chain` lists
the live ancestors, and it stops only where the flag is unset or no parent is
live. -/
inductive Cascade (jobs : JobId → Option JobRow) : Bool → Option JobId → List JobRow → Prop
  | stop {flag : Bool} {ancestor : Option JobId} (ends : flag = false ∨ ancestor.bind jobs = none) :
      Cascade jobs flag ancestor []
  | step {ancestor : Option JobId} {parent : JobRow} {chain : List JobRow}
      (live : ancestor.bind jobs = some parent)
      (above : Cascade jobs parent.failParentOnFailure parent.parentId chain) :
      Cascade jobs true ancestor (parent :: chain)

/-- The ancestors are determined by the job. -/
theorem Cascade.unique {jobs : JobId → Option JobRow} {chain chain' : List JobRow}
    (first : Cascade jobs flag ancestor chain) (second : Cascade jobs flag ancestor chain') :
    chain = chain' := by
  induction first generalizing chain' with
  | stop ends =>
    cases second with
    | stop _ => rfl
    | step live _ => simp [live] at ends
  | step live above ih =>
    cases second with
    | stop ends => simp [live] at ends
    | step live' above' =>
      cases live.symm.trans live'
      rw [ih above']

/-- Either nothing is taken along, or the live parent of a flagged job is. -/
theorem Cascade.inv {jobs : JobId → Option JobRow} {chain : List JobRow}
    (cascade : Cascade jobs flag ancestor chain) :
    chain = [] ∨ ∃ parent rest, flag = true ∧ ancestor.bind jobs = some parent ∧
      chain = parent :: rest ∧ Cascade jobs parent.failParentOnFailure parent.parentId rest := by
  cases cascade with
  | stop _ => exact .inl rfl
  | step live above => exact .inr ⟨_, _, rfl, live, rfl, above⟩

/-- Either the chain ends here, or the live parent is in it. -/
theorem Cascade.nil_or_parent {jobs : JobId → Option JobRow} {chain : List JobRow}
    (cascade : Cascade jobs flag ancestor chain) :
    flag = false ∨ ancestor.bind jobs = none ∨
      ∃ parent ∈ chain, ancestor.bind jobs = some parent := by
  cases cascade with
  | stop ends => exact ends.imp_right .inl
  | step live _ => exact .inr (.inr ⟨_, List.mem_cons_self, live⟩)

/-- Every live parent is older than its child. -/
def ParentsOlder (ext : Externals) (jobs : JobId → Option JobRow) : Prop :=
  ∀ j row, jobs j = some row → row.id = j ∧ ∀ p, row.parentId = some p → Older ext p j

/-- Removing a job does not change the ancestors of its parent. -/
theorem Cascade.restore {jobs : JobId → Option JobRow} {chain : List JobRow} {j : JobId}
    (older : ParentsOlder ext jobs) (above : ∀ a, ancestor = some a → Older ext a j)
    (cascade : Cascade (Function.update jobs j none) flag ancestor chain) :
    Cascade jobs flag ancestor chain := by
  have elsewhere : ∀ a, Older ext a j → Function.update jobs j none a = jobs a := by
    intro a before
    refine Function.update_of_ne ?_ _ _
    rintro rfl
    exact before.irrefl
  have looked : ∀ ancestor : Option JobId, (∀ a, ancestor = some a → Older ext a j) →
      ancestor.bind (Function.update jobs j none) = ancestor.bind jobs := by
    intro ancestor above
    cases ancestor with
    | none => rfl
    | some a => exact elsewhere a (above a rfl)
  induction cascade with
  | stop ends => exact .stop (by rwa [looked _ above] at ends)
  | @step ancestor parent chain live higher ih =>
    rw [looked _ above] at live
    refine .step live (ih ?_)
    intro p here
    cases ancestor with
    | none => cases live
    | some a => exact ((older a parent live).2 p here).trans (above a rfl)

/-! ## Archiving a failed job -/

theorem archive_find? (found : db.jobs.find? row.id = some row)
    (ok : db.archive row.id toHistory = .ok (db', n)) :
    db'.jobs.find? = Function.update db.jobs.find? row.id none := by
  obtain ⟨history, -, -, rfl⟩ := archive_ok found ok
  funext j
  simp [Table.find?_erase, Function.update_apply]

theorem archive_length (found : db.jobs.find? row.id = some row)
    (ok : db.archive row.id toHistory = .ok (db', n)) :
    db'.jobs.rows.length + 1 = db.jobs.rows.length := by
  obtain ⟨history, -, -, rfl⟩ := archive_ok found ok
  have counted := Table.count_erase (p := fun _ => true) found
  simpa [Table.count] using counted

/-- Releasing the receipts of one job does not give another one more. -/
theorem archive_receipts_le (found : db.jobs.find? row.id = some row)
    (ok : db.archive row.id toHistory = .ok (db', n)) (p : Receipt → Bool) :
    db'.enqueueReceipts.count p ≤ db.enqueueReceipts.count p := by
  obtain ⟨history, -, -, rfl⟩ := archive_ok found ok
  have counted := Table.count_delete (t := db.enqueueReceipts) (p := p) (Db.releasable row.id)
  exact Nat.le.intro counted

theorem failed_step (cause : FailureCause) (found : db.jobs.find? row.id = some row)
    (same : (toHistory row).id = row.id) (writes : cause.Writes row (toHistory row))
    (ok : db.archive row.id toHistory = .ok (db', n)) :
    Step ext (db.ledger t k) (.failed row (toHistory row) cause n) (db'.ledger t k) := by
  obtain ⟨history, inserted, rfl, rfl⟩ := archive_ok found ok
  exact ⟨⟨found, writes⟩, ledger_archived found same inserted (.inr ⟨cause, rfl⟩)⟩

/-- The events of a cascade: every ancestor is archived as failed. -/
def CascadeEvents (receipts : Table Receipt.key) : List JobRow → List Event → Prop :=
  List.Forall₂ fun row e => ∃ entry n, e = .failed row entry .cascaded n ∧
    n ≤ receipts.count (Db.releasable row.id)

/-- What the cascade loop leaves behind, in terms of the ancestors it took along. -/
structure Cascaded (ext : Externals) (t k : ℕ) (db : Db) (outcome : CascadeOutcome)
    (chain : List JobRow) (events : List Event) : Prop where
  runs : Chain (Step ext) (db.ledger t k) events (outcome.db.ledger t k)
  events : CascadeEvents db.enqueueReceipts chain events
  failures : outcome.parentFailures = chain.length
  leftWaiting : outcome.parentsLeftWaiting =
    chain.countP fun row => decide (row.state = .waitingChildren)

/-- **The cascade loop takes along exactly the ancestors of `Cascade`**, and with
as much fuel as there are live jobs it does not stop short of them. -/
theorem cascade_ok {failedId : JobId} {fuel reading : ℕ} {outcome : CascadeOutcome}
    (ok : cascade failedId clock fuel reading db flag ancestor = .ok outcome)
    (enough : db.jobs.rows.length ≤ fuel) (older : ParentsOlder ext db.jobs.find?) :
    ∃ chain events, Cascade db.jobs.find? flag ancestor chain ∧
      Cascaded ext t k db outcome chain events := by
  have stopped : ∀ outcome : CascadeOutcome, outcome = ⟨db, 0, 0⟩ →
      Cascaded ext t k db outcome [] [] := by
    rintro _ rfl
    exact ⟨.nil _, .nil, rfl, rfl⟩
  induction fuel generalizing reading db flag ancestor outcome with
  | zero =>
    simp only [cascade, Except.ok.injEq] at ok
    refine ⟨[], [], .stop (.inr ?_), stopped _ ok.symm⟩
    have nobody : ∀ j, db.jobs.find? j = none := by
      intro j
      refine Table.find?_eq_none.mpr fun row mem => ?_
      rw [Table.mem_def, List.length_eq_zero_iff.mp (Nat.le_zero.mp enough)] at mem
      cases mem
    cases ancestor with
    | none => rfl
    | some a => exact nobody a
  | succ fuel ih =>
    simp only [cascade] at ok
    split at ok
    · rename_i unset
      simp only [Except.ok.injEq] at ok
      exact ⟨[], [], .stop (.inl (by simpa using unset)), stopped _ ok.symm⟩
    rename_i set
    have set : flag = true := by simpa using set
    subst set
    cases live : ancestor.bind db.jobs.find? with
    | none =>
      simp only [live, Except.ok.injEq] at ok
      exact ⟨[], [], .stop (.inr live), stopped _ ok.symm⟩
    | some parent =>
      simp only [live, bind_eq_ok, Except.ok.injEq] at ok
      obtain ⟨⟨db₁, n⟩, archived, above, rest, rfl⟩ := ok
      have found : db.jobs.find? parent.id = some parent := by
        cases ancestor with
        | none => cases live
        | some a =>
          have found : db.jobs.find? a = some parent := live
          rwa [← Table.key_of_find? found] at found
      have looked := archive_find? found archived
      have shorter := archive_length found archived
      have older₁ : ParentsOlder ext db₁.jobs.find? := by
        rw [looked]
        intro j row here
        rw [Function.update_apply] at here
        split at here
        · cases here
        · exact older j row here
      have enough₁ : db₁.jobs.rows.length ≤ fuel := by omega
      obtain ⟨chain, events, higher, upper⟩ := ih rest enough₁ older₁ (by
        rintro _ rfl
        exact ⟨.nil _, .nil, rfl, rfl⟩)
      rw [looked] at higher
      refine ⟨parent :: chain, _ :: events,
        .step live (higher.restore older (older _ _ found).2),
        ⟨.cons (failed_step .cascaded found rfl ⟨_, _, rfl⟩ archived) upper.runs, ?_, ?_, ?_⟩⟩
      · refine .cons ⟨_, n, rfl, ?_⟩ (upper.events.imp ?_)
        · obtain ⟨-, -, counted, -⟩ := archive_ok found archived
          exact counted.le
        · rintro row e ⟨entry, m, rfl, le⟩
          exact ⟨entry, m, rfl, le.trans (archive_receipts_le found archived _)⟩
      · simp [upper.failures]
      · simp [upper.leftWaiting, List.countP_cons]

/-! ## The three outcomes of an acknowledgment -/

/-- The event of a retry. -/
def retryEvent (clock : Clock) (jittered : ℤ) (row : JobRow) (error : String) : Event :=
  let delay := failureRetryDelay row jittered
  .requeued row .retry (Db.restingState delay) (saturatingAdd (clock 0) delay) error (clock 1)

theorem restingState_claimable (delay : ℤ) : (Db.restingState delay).Claimable := by
  rw [Db.restingState]
  split
  · exact .inl rfl
  · exact .inr rfl

theorem requeue_step {cause : RequeueCause} {state : LiveState} {availableAt : ℤ}
    {lastError : String} {updatedAt : ℤ} (found : db.jobs.find? row.id = some row)
    (active : row.state = .active) (claimable : state.Claimable)
    (again : row.attempts < row.maxAttempts) :
    Step ext (db.ledger t k) (.requeued row cause state availableAt lastError updatedAt)
      ((db.requeue row.id state availableAt lastError updatedAt).ledger t k) :=
  ⟨⟨found, active, claimable, again⟩, ledger_update (.requeued row cause state availableAt lastError
    updatedAt) trivial _ found (fun _ _ => rfl) fun _ => rfl⟩

theorem finishRetry_trace {error : String} (found : db.jobs.find? row.id = some row)
    (active : row.state = .active) (again : row.attempts < row.maxAttempts) :
    Chain (Step ext) (db.ledger t k) [retryEvent clock jittered row error]
        ((finishRetry clock jittered db row error).1.ledger t k) ∧
      ∀ gauge, callDelta (finishRetry clock jittered db row error).2 gauge =
        eventDelta [retryEvent clock jittered row error] gauge := by
  refine ⟨.single (requeue_step found active (restingState_claimable _) again), fun gauge => ?_⟩
  have rests := (restingState_claimable (failureRetryDelay row jittered)).unit_eq gauge
  simp [finishRetry, retryEvent, MetricCall.delta, rests, active]

/-- The event of a completion. -/
def completionEvent (clock : Clock) (db : Db) (row : JobRow) (result : Option Bytes) : Event :=
  .completed row (row.toHistory .completed (clock 1) row.lastError result)
    (row.parentId.bind (Function.update db.jobs.find? row.id none)) (clock 0) (clock 2)
    (db.enqueueReceipts.count (Db.releasable row.id))

theorem dedupReleased_delta (n : ℕ) (gauge : Gauge) :
    (MetricCall.dedupReleased n).delta gauge = -(n * receiptUnit gauge) := by
  rw [MetricCall.delta, receiptUnit]
  split <;> simp

theorem flowWaitingChildrenDec_delta (n : ℕ) (gauge : Gauge) :
    (MetricCall.flowWaitingChildrenDec n).delta gauge =
      -(n * LiveState.waitingChildren.unit gauge) := by
  rw [MetricCall.delta, waitingChildren_unit]
  split <;> simp

/-- The calls for a released parent are what its count-down does to the gauges. -/
theorem releaseCalls_delta (parent : JobRow) (now updatedAt : ℤ) (gauge : Gauge) :
    callDelta (releaseCalls (parent.opened now)) gauge =
      (parent.countedDown now updatedAt).state.unit gauge - parent.state.unit gauge := by
  simp only [JobRow.opened, JobRow.countedDown]
  split
  · rename_i opens
    have waiting : parent.state = .waitingChildren := by
      simp only [gateOpens, Bool.and_eq_true, decide_eq_true_eq] at opens
      exact opens.1
    have released : ∀ parent, (releasedState parent now).Claimable := by
      intro parent
      rw [releasedState]
      split
      · exact .inr rfl
      · exact .inl rfl
    simp only [releaseCalls, callDelta_cons, callDelta_nil, MetricCall.delta, unitAt_none, waiting,
      waitingChildren_unit, (released _).unit_eq]
    split <;> simp
    ring
  · simp [releaseCalls]

/-- **A completion** is one event, and its gauge calls are those of the event. -/
theorem finishCompleted_trace {result : Option Bytes} (found : db.jobs.find? row.id = some row)
    (active : row.state = .active) (ok : finishCompleted clock db row result = .ok (db', calls)) :
    Chain (Step ext) (db.ledger t k) [completionEvent clock db row result] (db'.ledger t k) ∧
      ∀ gauge, callDelta calls gauge =
        eventDelta [completionEvent clock db row result] gauge := by
  simp only [finishCompleted, bind_eq_ok, Except.ok.injEq, Prod.mk.injEq] at ok
  obtain ⟨⟨db₁, n⟩, archived, rfl, rfl⟩ := ok
  have looked := archive_find? found archived
  obtain ⟨history, inserted, rfl, same⟩ := archive_ok found archived
  constructor
  · refine .single ⟨⟨found, active, ⟨_, _, rfl⟩, rfl⟩, ?_⟩
    rw [ledger_completed found rfl inserted _ _ same, completionEvent, looked]
  · intro gauge
    have parent : callDelta (releaseCalls (releaseParent db₁ row.parentId (clock 0) (clock 2)).2)
        gauge = ((row.parentId.bind db₁.jobs.find?).map fun p =>
          (p.countedDown (clock 0) (clock 2)).state.unit gauge - p.state.unit gauge).getD 0 := by
      cases row.parentId with
      | none => rfl
      | some p =>
        simp only [releaseParent, countDown_eq, Option.bind_some]
        cases db₁.jobs.find? p with
        | none => rfl
        | some parent => exact releaseCalls_delta parent _ _ gauge
    simp only [callDelta_append, callDelta_cons, callDelta_nil, parent, completionEvent, ← looked,
      eventDelta_cons, eventDelta_nil, Event.delta, dedupReleased_delta, active, active_unit]
    simp only [MetricCall.delta, JobRow.toHistory, TerminalState.unit, TerminalState.label]
    simp
    ring

/-- **When the gauges follow a cascade**: every ancestor taken along was parked on
its children and holds no receipt that is released on finish. -/
def CascadeMirrored (db : Db) (row : JobRow) : Prop :=
  ∀ chain, Cascade db.jobs.find? row.failParentOnFailure row.parentId chain →
    ∀ ancestor ∈ chain, ancestor.state = .waitingChildren ∧
      db.enqueueReceipts.count (Db.releasable ancestor.id) = 0

/-- A mirrored cascade moves the gauges as `finish_job` reports it. -/
theorem cascadeEvents_delta {receipts : Table Receipt.key} {chain : List JobRow}
    {events : List Event} (cascaded : CascadeEvents receipts chain events)
    (written : ∀ e ∈ events, ∀ row entry cause n, e = .failed row entry cause n →
      entry.state = .failed)
    (mirrored : ∀ ancestor ∈ chain, ancestor.state = .waitingChildren ∧
      receipts.count (Db.releasable ancestor.id) = 0) (gauge : Gauge) :
    eventDelta events gauge =
      chain.length * (unitAt (some .failed) gauge - LiveState.waitingChildren.unit gauge) := by
  induction cascaded with
  | nil => simp
  | @cons row e chain events this _ ih =>
    obtain ⟨entry, n, rfl, le⟩ := this
    obtain ⟨waiting, noneLeft⟩ := mirrored row List.mem_cons_self
    have failed := written _ List.mem_cons_self row entry .cascaded n rfl
    have rest := ih (fun e mem => written e (List.mem_cons_of_mem _ mem))
      fun ancestor mem => mirrored ancestor (List.mem_cons_of_mem _ mem)
    have zero : n = 0 := by omega
    simp only [eventDelta_cons, rest, Event.delta, failed, zero, waiting, TerminalState.unit,
      TerminalState.label, List.length_cons]
    push_cast
    ring

/-- The history rows of failures are in state `Failed`. -/
theorem Step.failed_state {l l' : Ledger} {entry : HistoryRow} {cause : FailureCause}
    (step : Step ext l (.failed row entry cause n) l') : entry.state = .failed := by
  have writes := step.1.2
  cases cause with
  | reported =>
    obtain ⟨-, at_, error, rfl⟩ := writes
    rfl
  | cascaded =>
    obtain ⟨at_, error, rfl⟩ := writes
    rfl
  | expired =>
    obtain ⟨-, at_, rfl⟩ := writes
    rfl

/-- A job that is archived as completed is archived by its completion. -/
theorem Step.completed_of_retires {l l' : Ledger} {e : Event} {entry : HistoryRow}
    (step : Step ext l e l') (retires : e.retires = some (row, entry))
    (completed : entry.state = .completed) :
    ∃ parent now updatedAt n, e = .completed row entry parent now updatedAt n := by
  cases e with
  | completed other written parent now updatedAt n =>
    cases retires
    exact ⟨parent, now, updatedAt, n, rfl⟩
  | failed other written cause n =>
    cases retires
    rw [step.failed_state] at completed
    cases completed
  | _ => cases retires

theorem failed_state_of_chain {l l' : Ledger} {events : List Event}
    (chain : Chain (Step ext) l events l') :
    ∀ e ∈ events, ∀ row entry cause n, e = .failed row entry cause n → entry.state = .failed := by
  induction chain with
  | nil => simp
  | cons step _ ih =>
    intro e mem row entry cause n same
    rcases List.mem_cons.mp mem with rfl | later
    · subst same
      exact step.failed_state
    · exact ih e later row entry cause n same

theorem replicate_failed_delta (n : ℕ) (gauge : Gauge) :
    callDelta (List.replicate n (.transition none (some .failed))) gauge =
      n * unitAt (some .failed) gauge := by
  simp [callDelta, MetricCall.delta]

/-- What a terminal failure does: the job and the ancestors of `Cascade` are
archived as failed, one event for each. -/
theorem finishFailed_trace {error : String} (found : db.jobs.find? row.id = some row)
    (active : row.state = .active) (older : ParentsOlder ext db.jobs.find?)
    (ok : finishFailed clock db row error = .ok (db', calls)) :
    ∃ n chain events, Cascade db.jobs.find? row.failParentOnFailure row.parentId chain ∧
      CascadeEvents db.enqueueReceipts chain events ∧
      Chain (Step ext) (db.ledger t k)
        (.failed row (row.toHistory .failed (clock 1) (some error) none) .reported n :: events)
        (db'.ledger t k) ∧
      (CascadeMirrored db row → ∀ gauge, callDelta calls gauge = eventDelta
        (.failed row (row.toHistory .failed (clock 1) (some error) none) .reported n :: events)
        gauge) := by
  simp only [finishFailed, bind_eq_ok, Except.ok.injEq, Prod.mk.injEq] at ok
  obtain ⟨⟨db₁, n⟩, archived, outcome, cascaded, rfl, rfl⟩ := ok
  have looked := archive_find? found archived
  have older₁ : ParentsOlder ext db₁.jobs.find? := by
    rw [looked]
    intro j other here
    rw [Function.update_apply] at here
    split at here
    · cases here
    · exact older j other here
  obtain ⟨chain, events, above, upper⟩ :=
    @cascade_ok ext db₁ t k _ _ _ _ _ _ _ cascaded le_rfl older₁
  rw [looked] at above
  have above := above.restore older (older _ _ found).2
  have released : CascadeEvents db.enqueueReceipts chain events := upper.events.imp (by
    rintro ancestor e ⟨entry, m, rfl, le⟩
    exact ⟨entry, m, rfl, le.trans (archive_receipts_le found archived _)⟩)
  refine ⟨n, chain, events, above, released,
    .cons (failed_step .reported found rfl ⟨active, _, _, rfl⟩ archived) upper.runs, ?_⟩
  intro mirrored gauge
  have waiting := mirrored chain above
  have all : outcome.parentsLeftWaiting = chain.length := by
    rw [upper.leftWaiting, List.countP_eq_length]
    intro ancestor mem
    simpa using (waiting ancestor mem).1
  have cascade := cascadeEvents_delta released (failed_state_of_chain upper.runs) waiting gauge
  rw [callDelta_append, replicate_failed_delta, upper.failures, eventDelta_cons, cascade, all]
  simp only [callDelta_cons, callDelta_nil, dedupReleased_delta, flowWaitingChildrenDec_delta,
    Event.delta, active, active_unit, JobRow.toHistory, TerminalState.unit, TerminalState.label]
  simp only [MetricCall.delta]
  ring

/-! ## Acknowledgments of archived jobs -/

/-- **The completion replay**: the archived job completed under the acknowledged
claim. -/
structure Replays (entry : HistoryRow) (workerId : String) (attempt : ℕ) : Prop where
  completed : entry.state = .completed
  owner : entry.workerId = some workerId
  attempt : entry.attempts = max attempt 1

/-- Only a completion is answered from the history. -/
theorem acknowledgeArchived_ok {id : String} {failed : Bool} :
    acknowledgeArchived db id workerId attempt failed = .ok () ↔
      failed = false ∧ ∃ entry, db.jobHistory.find? id = some entry ∧
        Replays entry workerId attempt := by
  rw [acknowledgeArchived]
  cases found : db.jobHistory.find? id with
  | none => simp
  | some entry =>
    simp only [Option.some.injEq, exists_eq_left']
    split
    · rename_i all
      simp only [Bool.not_eq_true] at all
      exact iff_of_true rfl ⟨all.1, all.2.1, all.2.2.1, all.2.2.2⟩
    · rename_i other
      refine iff_of_false (by simp) ?_
      rintro ⟨reports, replays⟩
      exact other ⟨by simp [reports], replays.completed, replays.owner, replays.attempt⟩

/-- **What an accepted acknowledgment is**: the replay of a completion, which
changes nothing, or the settlement of a running claim. -/
theorem finishJob_cases {id : String} {ack : Acknowledgment} {moved : Bool}
    (ok : finishJob clock jittered db id workerId attempt ack = .ok (moved, db', calls)) :
    (db.jobs.find? id = none ∧ ack.isFailure = false ∧
      (∃ entry, db.jobHistory.find? id = some entry ∧ Replays entry workerId attempt) ∧
      moved = false ∧ db' = db ∧ calls = []) ∨
    ∃ row, db.jobs.find? id = some row ∧ Accepts row workerId attempt (clock 0) ∧
      settle clock jittered db row ack = .ok (moved, db', calls) := by
  simp only [finishJob] at ok
  split at ok
  · cases ok
  cases found : db.jobs.find? id with
  | none =>
    simp only [found, bind_eq_ok, Except.ok.injEq, Prod.mk.injEq] at ok
    obtain ⟨⟨⟩, replayed, rfl, rfl, rfl⟩ := ok
    obtain ⟨reports, replays⟩ := acknowledgeArchived_ok.mp replayed
    exact .inl ⟨rfl, reports, replays, rfl, rfl, rfl⟩
  | some row =>
    simp only [found, bind_eq_ok] at ok
    obtain ⟨⟨⟩, accepted, settled⟩ := ok
    exact .inr ⟨row, rfl, checkClaim_ok.mp accepted, settled⟩

/-! ## Archiving never conflicts -/

/-- No id is both live and archived. -/
def Db.Disjoint (db : Db) : Prop := ∀ j, db.jobs.Has j → ¬ db.jobHistory.Has j

/-- A live job can be archived while no id is in both tables. -/
theorem archive_of_disjoint (disjoint : db.Disjoint) (toHistory : JobRow → HistoryRow)
    (found : db.jobs.find? row.id = some row) (same : (toHistory row).id = row.id) :
    ∃ db' n, db.archive row.id toHistory = .ok (db', n) ∧ db'.Disjoint := by
  cases archived : db.archive row.id toHistory with
  | error status =>
    obtain ⟨-, has⟩ := archive_error found archived
    rw [same] at has
    exact absurd has (disjoint _ (Table.has_iff_find?.mpr ⟨row, found⟩))
  | ok outcome =>
    obtain ⟨db', n⟩ := outcome
    refine ⟨db', n, rfl, ?_⟩
    obtain ⟨history, inserted, -, rfl⟩ := archive_ok found archived
    intro j live done
    rw [Table.has_erase] at live
    rw [Table.has_of_insert inserted, same] at done
    rcases done with earlier | now
    · exact disjoint j live.1 earlier
    · exact live.2 now

/-- Nor can a cascade fail then. -/
theorem cascade_of_disjoint {failedId : JobId} {fuel reading : ℕ} (disjoint : db.Disjoint) :
    ∃ outcome, cascade failedId clock fuel reading db flag ancestor = .ok outcome := by
  induction fuel generalizing reading db flag ancestor with
  | zero => exact ⟨_, rfl⟩
  | succ fuel ih =>
    simp only [cascade]
    split
    · exact ⟨_, rfl⟩
    cases live : ancestor.bind db.jobs.find? with
    | none => exact ⟨_, rfl⟩
    | some parent =>
      have found : db.jobs.find? parent.id = some parent := by
        cases ancestor with
        | none => cases live
        | some a =>
          have found : db.jobs.find? a = some parent := live
          rwa [← Table.key_of_find? found] at found
      obtain ⟨db₁, n, archived, disjoint₁⟩ := archive_of_disjoint disjoint
        (fun row => row.toHistory .failed (clock reading)
          (some s!"failParentOnFailure: child {failedId} failed") none) found rfl
      obtain ⟨outcome, above⟩ := @ih db₁ parent.parentId parent.failParentOnFailure
        (reading + 1) disjoint₁
      exact ⟨_, bind_eq_ok.mpr ⟨(db₁, n), archived, bind_eq_ok.mpr ⟨outcome, above, rfl⟩⟩⟩

/-- On disjoint tables an accepted acknowledgment is always settled. -/
theorem settle_of_disjoint (disjoint : db.Disjoint) (found : db.jobs.find? row.id = some row)
    (ack : Acknowledgment) : ∃ outcome, settle clock jittered db row ack = .ok outcome := by
  cases ack with
  | completed result =>
    obtain ⟨db₁, n, archived, -⟩ := archive_of_disjoint disjoint
      (fun row => row.toHistory .completed (clock 1) row.lastError result) found rfl
    exact ⟨_, bind_eq_ok.mpr ⟨_, bind_eq_ok.mpr ⟨_, archived, rfl⟩, rfl⟩⟩
  | failed error nonRetryable =>
    simp only [settle]
    split
    · exact ⟨_, rfl⟩
    obtain ⟨db₁, n, archived, disjoint₁⟩ := archive_of_disjoint disjoint
      (fun row => row.toHistory .failed (clock 1) (some error) none) found rfl
    obtain ⟨outcome, above⟩ := cascade_of_disjoint disjoint₁
    exact ⟨_, bind_eq_ok.mpr
      ⟨_, bind_eq_ok.mpr ⟨_, archived, bind_eq_ok.mpr ⟨_, above, rfl⟩⟩, rfl⟩⟩

/-! ## Recovery -/

/-- The event of one round of the recovery loop. -/
def recoveryEvent (now : ℤ) (row : JobRow) (n : ℕ) : Event :=
  if row.attempts < row.maxAttempts then
    let delay := expiredRetryDelay row
    .requeued row .expiry (Db.restingState delay) (saturatingAdd now delay) "Worker lease expired"
      now
  else .failed row (row.toExpiredHistory now) .expired n

/-- A claim is taken back in one event. -/
theorem recoverOne_step (found : db.jobs.find? row.id = some row) (active : row.state = .active)
    (ok : recoverOne now db row = .ok (db', n)) :
    Step ext (db.ledger t k) (recoveryEvent now row n) (db'.ledger t k) := by
  rw [recoverOne] at ok
  rw [recoveryEvent]
  split at ok
  · rename_i again
    simp only [Except.ok.injEq, Prod.mk.injEq] at ok
    obtain ⟨rfl, rfl⟩ := ok
    rw [if_pos again]
    exact requeue_step found active (restingState_claimable _) again
  · rename_i exhausted
    rw [if_neg exhausted]
    exact failed_step .expired found rfl ⟨active, _, rfl⟩ ok

theorem recoverOne_delta (active : row.state = .active) (ok : recoverOne now db row = .ok (db', n))
    (gauge : Gauge) :
    (recoveryEvent now row n).delta gauge =
      unitAt (recoveredLabel row) gauge - unitAt (some .active) gauge - n * receiptUnit gauge := by
  rw [recoverOne] at ok
  rw [recoveryEvent, recoveredLabel]
  split at ok
  · rename_i again
    simp only [Except.ok.injEq, Prod.mk.injEq] at ok
    rw [if_pos again, if_pos again, Event.delta, (restingState_claimable _).unit_eq, active,
      active_unit, ← ok.2]
    simp
  · rename_i exhausted
    rw [if_neg exhausted, if_neg exhausted, Event.delta, active, active_unit]
    simp [JobRow.toExpiredHistory, TerminalState.unit, TerminalState.label]

/-- A round leaves the rows of the other jobs alone. -/
theorem recoverOne_find? (found : db.jobs.find? row.id = some row)
    (ok : recoverOne now db row = .ok (db', n)) {j : JobId} (other : j ≠ row.id) :
    db'.jobs.find? j = db.jobs.find? j := by
  rw [recoverOne] at ok
  split at ok
  · simp only [Except.ok.injEq, Prod.mk.injEq] at ok
    rw [← ok.1, Db.requeue, Table.find?_modify, if_neg other]
  · rw [archive_find? found ok, Function.update_of_ne other]

/-- A batch of expired claims: different jobs, each live and active. -/
structure Batch (db : Db) (rows : List JobRow) : Prop where
  nodup : (rows.map JobRow.id).Nodup
  found : ∀ row ∈ rows, db.jobs.find? row.id = some row
  active : ∀ row ∈ rows, row.state = .active

theorem Batch.tail {rest : List JobRow} (batch : Batch db (row :: rest))
    (ok : recoverOne now db row = .ok (db', n)) : Batch db' rest := by
  have nodup := batch.nodup
  rw [List.map_cons, List.nodup_cons] at nodup
  refine ⟨nodup.2, fun other mem => ?_, fun other mem =>
    batch.active other (List.mem_cons_of_mem _ mem)⟩
  have different : other.id ≠ row.id := fun same =>
    nodup.1 (same ▸ List.mem_map_of_mem mem)
  rw [recoverOne_find? (batch.found row List.mem_cons_self) ok different]
  exact batch.found other (List.mem_cons_of_mem _ mem)

/-- The claims selected for a recovery are such a batch. -/
theorem selectExpired_batch (db : Db) (now : ℤ) (batchSize : ℕ) :
    Batch db (selectExpired db now batchSize) := by
  have selected : ∀ row ∈ selectExpired db now batchSize,
      row ∈ db.jobs ∧ leaseExpired now row = true := by
    intro row mem
    have sorted := List.mem_of_mem_take mem
    rw [List.mem_insertionSort] at sorted
    exact List.mem_filter.mp sorted
  refine ⟨?_, fun row mem => Table.find?_of_mem (selected row mem).1, fun row mem => ?_⟩
  · have perm := List.perm_insertionSort (fun a b => expiresBefore a b)
      (db.jobs.rows.filter (leaseExpired now))
    have filtered : ((db.jobs.rows.filter (leaseExpired now)).map JobRow.id).Nodup :=
      db.jobs.nodup.sublist (List.filter_sublist.map _)
    exact ((perm.map JobRow.id).nodup_iff.mpr filtered).sublist ((List.take_sublist _ _).map _)
  · have expired := (selected row mem).2
    simp only [leaseExpired, Bool.and_eq_true, decide_eq_true_eq] at expired
    exact expired.1

/-- What the rounds of the recovery loop do, one event a round. -/
theorem recoverAll_chain {rows : List JobRow} {released total : ℕ} (batch : Batch db rows)
    (ok : recoverAll now db released rows = .ok (db', total)) :
    ∃ counts : List ℕ, counts.length = rows.length ∧ total = released + counts.sum ∧
      Chain (Step ext) (db.ledger t k) (List.zipWith (recoveryEvent now) rows counts)
        (db'.ledger t k) ∧
      ∀ gauge, eventDelta (List.zipWith (recoveryEvent now) rows counts) gauge =
        callDelta (rows.map fun row => .transition (some .active) (recoveredLabel row)) gauge -
          counts.sum * receiptUnit gauge := by
  induction rows generalizing db released with
  | nil =>
    simp only [recoverAll, Except.ok.injEq, Prod.mk.injEq] at ok
    obtain ⟨rfl, rfl⟩ := ok
    exact ⟨[], rfl, rfl, .nil _, by simp⟩
  | cons row rest ih =>
    simp only [recoverAll, bind_eq_ok] at ok
    obtain ⟨⟨db₁, n⟩, first, later⟩ := ok
    have active := batch.active row List.mem_cons_self
    have found := batch.found row List.mem_cons_self
    obtain ⟨counts, length, sum, chain, gauges⟩ := ih (batch.tail first) later
    refine ⟨n :: counts, by simp [length], by simp [sum, add_assoc],
      .cons (recoverOne_step found active first) chain, fun gauge => ?_⟩
    simp only [List.zipWith_cons_cons, eventDelta_cons, gauges, recoverOne_delta active first,
      List.map_cons, callDelta_cons, List.sum_cons, MetricCall.delta]
    push_cast
    ring

/-- What `recover_expired` does. -/
theorem recoverExpired_trace {batchSize jobs : ℕ}
    (ok : recoverExpired clock db batchSize = .ok (jobs, db', calls)) :
    ∃ counts : List ℕ, counts.length = (selectExpired db (clock 0) batchSize).length ∧
      Chain (Step ext) (db.ledger t k)
        (List.zipWith (recoveryEvent (clock 0)) (selectExpired db (clock 0) batchSize) counts)
        (db'.ledger t k) ∧
      ∀ gauge, callDelta calls gauge = eventDelta (List.zipWith (recoveryEvent (clock 0))
        (selectExpired db (clock 0) batchSize) counts) gauge := by
  simp only [recoverExpired, bind_eq_ok, Except.ok.injEq, Prod.mk.injEq] at ok
  obtain ⟨⟨db₁, total⟩, recovered, -, rfl, rfl⟩ := ok
  obtain ⟨counts, length, sum, chain, gauges⟩ :=
    recoverAll_chain (selectExpired_batch db (clock 0) batchSize) recovered
  refine ⟨counts, length, chain, fun gauge => ?_⟩
  rw [gauges, callDelta_cons, dedupReleased_delta, sum, zero_add]
  ring

theorem recoverOne_of_disjoint (disjoint : db.Disjoint) (found : db.jobs.find? row.id = some row) :
    ∃ db' n, recoverOne now db row = .ok (db', n) ∧ db'.Disjoint := by
  rw [recoverOne]
  split
  · refine ⟨_, _, rfl, fun j live done => disjoint j ?_ done⟩
    rw [Db.requeue, Table.has_modify] at live
    exact live
  · exact archive_of_disjoint disjoint (fun row => row.toExpiredHistory now) found rfl

theorem recoverAll_of_disjoint {rows : List JobRow} {released : ℕ} (disjoint : db.Disjoint)
    (batch : Batch db rows) : ∃ outcome, recoverAll now db released rows = .ok outcome := by
  induction rows generalizing db released with
  | nil => exact ⟨_, rfl⟩
  | cons row rest ih =>
    obtain ⟨db₁, n, first, disjoint₁⟩ :=
      recoverOne_of_disjoint disjoint (batch.found row List.mem_cons_self)
    obtain ⟨outcome, later⟩ := @ih db₁ (released + n) disjoint₁ (batch.tail first)
    exact ⟨outcome, bind_eq_ok.mpr ⟨_, first, later⟩⟩

end AnvilMQ
