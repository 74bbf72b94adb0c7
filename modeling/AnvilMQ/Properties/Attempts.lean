import AnvilMQ.Ledger.Ticks
import AnvilMQ.Properties.Fencing
import AnvilMQ.Properties.Quarantine
import Mathlib.Order.Interval.Finset.Nat

/-!
# Dispatch is bounded

A claim does not compare `attempts` with `max_attempts`: only `FailJob` and the
lease recovery do, when they choose between the queue and the history.  That is
enough.  A job that rests in the queue always has an attempt left, so no job is
handed out more often than its `max_attempts`, and the counter cannot overflow.
-/

namespace AnvilMQ

open Rust Relational Transition

/-! ## The guarantees -/

/-- **The budget of a live job.** -/
structure JobRow.Budgeted (row : JobRow) : Prop where
  positive : 1 ≤ row.maxAttempts
  resting : row.state ≠ .active →
    row.attempts < row.maxAttempts ∧ row.workerId = none ∧ row.leaseExpiresAtMs = none
  held : row.state = .active →
    1 ≤ row.attempts ∧ row.attempts ≤ row.maxAttempts ∧ row.workerId.isSome ∧
      row.leaseExpiresAtMs.isSome

/-- The `max_attempts` of a request are of their wire type, `uint32`. -/
def Op.Typed : Op → Prop
  | addJob _ req => req.maxAttempts ≤ u32Max
  | addJobBulk _ requests => ∀ req ∈ requests, req.maxAttempts ≤ u32Max
  | upsertJobScheduler _ req => ∀ template, req.template = some template →
      template.maxAttempts.getD 0 ≤ u32Max
  | op => ∀ options ∈ op.newNodes, options.maxAttempts ≤ u32Max

/-- How often a job is claimed in a log of claims. -/
def claimCount (log : List ClaimRecord) (j : JobId) : ℕ := log.countP fun c => decide (c.1 = j)

/-- **Dispatch is bounded**, at one point of a run. -/
structure DispatchBounded (ext : Externals) (service : Service) (run : List Op) : Prop where
  budgeted : ∀ j row, (dbAfter ext service run).jobs.find? j = some row → row.Budgeted
  /-- A job is claimed at most `max_attempts` times in its whole life. -/
  claimed : ∀ row ∈ insertedJobs ext service run,
    claimCount (claims ext service run) row.id ≤ row.maxAttempts
  /-- The checked increment of `attempts` never fails: a well-formed poll is answered. -/
  answered : Along (fun _ op => op.Typed) run → ∀ clock req, isBlank req.workerId = false →
    req.queueNames.any isBlank = false →
    ∃ answer, getNextJob service clock (dbAfter ext service run) req = .ok answer

variable {ext : Externals} {service : Service} {t k : ℕ} {clock : Clock} {db : Db}
  {past : List Event} {l l' : Ledger} {e : Event}

/-! ## What events do to the budget -/

theorem JobRow.Budgeted.of_untouched {row : JobRow} (positive : 0 < row.maxAttempts)
    (untouched : row.Untouched) (idle : row.state ≠ .active) : row.Budgeted where
  positive := positive
  resting := fun _ => ⟨by rwa [untouched.attempts], untouched.workerId, untouched.lease⟩
  held := fun active => absurd active idle

theorem Event.Enabled.born_budgeted (enabled : e.Enabled ext l) {row : JobRow}
    (born : e.born = some row) : row.Budgeted := by
  refine .of_untouched ?_ (enabled.born born).untouched (enabled.born_idle born).1
  cases e with
  | enqueued inserted now slot =>
    cases born
    exact enabled.attemptable
  | planted inserted slot =>
    cases born
    exact enabled.attemptable
  | _ => cases born

theorem LiveState.Claimable.ne_active {state : LiveState} (claimable : state.Claimable) :
    state ≠ .active := by
  rcases claimable with rfl | rfl <;> exact nofun

theorem JobRow.Budgeted.countedDown {row : JobRow} (budget : row.Budgeted) (now updatedAt : ℤ) :
    (row.countedDown now updatedAt).Budgeted := by
  rw [JobRow.countedDown]
  split
  · rename_i opens
    have waiting : row.state = .waitingChildren := by
      simp only [gateOpens, Bool.and_eq_true, decide_eq_true_eq] at opens
      exact opens.1
    refine ⟨budget.positive, fun _ => budget.resting (by simp [waiting]), fun active => ?_⟩
    simp only [releasedState] at active
    split at active <;> cases active
  · exact ⟨budget.positive, budget.resting, budget.held⟩

/-- A job that stays live stays within its budget: a claim spends an attempt that
was left, and only a job with another attempt left is requeued. -/
theorem Event.Enabled.evolve_budgeted (enabled : e.Enabled ext l) {j : JobId} {r : JobRow}
    (live : l.jobs j = some r) (budget : r.Budgeted) : (e.evolve j r).Budgeted := by
  cases e with
  | claimed row workerId now lease =>
    simp only [evolve]
    split
    · rename_i here
      subst here
      cases live.symm.trans enabled.1
      obtain ⟨below, -, -⟩ := budget.resting enabled.2.1.ne_active
      refine ⟨budget.positive, fun idle => absurd rfl idle, fun _ => ?_⟩
      exact ⟨Nat.succ_pos _, below, rfl, rfl⟩
    · exact budget
  | renewed row lease now =>
    simp only [evolve]
    split
    · rename_i here
      subst here
      cases live.symm.trans enabled.1
      obtain ⟨low, high, owned, -⟩ := budget.held enabled.2
      exact ⟨budget.positive, fun idle => absurd enabled.2 idle, fun _ => ⟨low, high, owned, rfl⟩⟩
    · exact budget
  | requeued row cause state availableAt lastError updatedAt =>
    simp only [evolve]
    split
    · rename_i here
      subst here
      cases live.symm.trans enabled.1
      refine ⟨budget.positive, fun _ => ⟨enabled.2.2.2, rfl, rfl⟩, fun active => ?_⟩
      exact absurd active enabled.2.2.1.ne_active
    · exact budget
  | completed row entry parent now updatedAt released =>
    simp only [evolve]
    split
    · exact budget.countedDown now updatedAt
    · exact budget
  | adopted target =>
    simp only [evolve]
    split
    · exact ⟨budget.positive, budget.resting, budget.held⟩
    · exact budget
  | regated target n updatedAt =>
    simp only [evolve]
    split
    · rename_i here
      subst here
      cases live.symm.trans enabled.1
      exact ⟨budget.positive, fun _ => budget.resting enabled.2, nofun⟩
    · exact budget
  | _ => exact budget

/-! ## The invariant -/

/-- The jobs a history has brought into being. -/
def births (past : List Event) : List JobRow := past.filterMap Event.born

theorem births_concat (past : List Event) (e : Event) :
    births (past ++ [e]) = births past ++ e.born.toList :=
  Transition.filterMap_concat Event.born past e

/-- **The invariant of the attempts.**  Every live job is within its budget, and the
attempt of every claim is within the budget its job was born with. -/
structure Budget (past : List Event) (l : Ledger) : Prop where
  keyed : ∀ {j row}, l.jobs j = some row → row.id = j
  budgeted : ∀ {j row}, l.jobs j = some row → row.Budgeted
  origin : ∀ {j row}, l.jobs j = some row →
    ∃ newborn ∈ births past, newborn.SameIdentity row
  issued : ∀ {c}, c ∈ claimsOf past →
    ∃ newborn ∈ births past, newborn.id = c.1 ∧ 1 ≤ c.2.1 ∧ c.2.1 ≤ newborn.maxAttempts

theorem Budget.empty : Budget [] (Db.empty.ledger 0 0) := ⟨nofun, nofun, nofun, nofun⟩

/-- **An enabled event keeps the invariant of the attempts.** -/
theorem Budget.step (step : Step ext l e l') (budget : Budget past l) :
    Budget (past ++ [e]) l' := by
  obtain ⟨enabled, rfl⟩ := step
  have older : ∀ {newborn}, newborn ∈ births past → newborn ∈ births (past ++ [e]) := by
    intro newborn mem
    rw [births_concat]
    exact List.mem_append_left _ mem
  constructor
  case keyed =>
    intro j row found
    rcases Ledger.apply_jobs found with ⟨-, here⟩ | ⟨before, live, rfl, -⟩
    · exact here
    · exact (e.evolve_sameIdentity j before).id.trans (budget.keyed live)
  case budgeted =>
    intro j row found
    rcases Ledger.apply_jobs found with ⟨born, -⟩ | ⟨before, live, rfl, -⟩
    · exact enabled.born_budgeted born
    · exact enabled.evolve_budgeted live (budget.budgeted live)
  case origin =>
    intro j row found
    rcases Ledger.apply_jobs found with ⟨born, -⟩ | ⟨before, live, rfl, -⟩
    · refine ⟨row, ?_, .refl row⟩
      rw [births_concat, born]
      exact List.mem_append_right _ (List.mem_singleton.mpr rfl)
    · obtain ⟨newborn, mem, same⟩ := budget.origin live
      exact ⟨newborn, older mem, same.trans (e.evolve_sameIdentity j before)⟩
  case issued =>
    intro c mem
    rw [claimsOf_concat, List.mem_append, Option.mem_toList] at mem
    rcases mem with old | new
    · obtain ⟨newborn, mem, bound⟩ := budget.issued old
      exact ⟨newborn, older mem, bound⟩
    · obtain ⟨row, workerId, now, lease, rfl, rfl⟩ := Event.claimed_of_claim new
      obtain ⟨live, claimable, -⟩ := enabled
      obtain ⟨newborn, mem, same⟩ := budget.origin live
      have below := ((budget.budgeted live).resting claimable.ne_active).1
      refine ⟨newborn, older mem, same.id.symm, Nat.succ_pos _, ?_⟩
      rw [← same.maxAttempts]
      exact below

/-! ## Counting claims -/

/-- Claims with different attempts from `1` to `cap` are at most `cap`. -/
theorem claimCount_le {log : List ClaimRecord} {j : JobId} {cap : ℕ}
    (nodup : (log.map fun c => (c.1, c.2.1)).Nodup)
    (within : ∀ c ∈ log, c.1 = j → 1 ≤ c.2.1 ∧ c.2.1 ≤ cap) : claimCount log j ≤ cap := by
  let own := log.filter fun c => decide (c.1 = j)
  have ownJob : ∀ c ∈ own, c ∈ log ∧ c.1 = j := by
    intro c mem
    simpa only [own, List.mem_filter, decide_eq_true_eq] using mem
  have pairs : own.map (fun c => (c.1, c.2.1)) = (own.map fun c => c.2.1).map fun a => (j, a) := by
    rw [List.map_map]
    refine List.map_congr_left fun c mem => ?_
    rw [(ownJob c mem).2]
    rfl
  have attempts : (own.map fun c => c.2.1).Nodup := by
    have sub : own.Sublist log := List.filter_sublist
    have ownPairs := nodup.sublist (sub.map fun c => (c.1, c.2.1))
    rw [pairs] at ownPairs
    exact ownPairs.of_map
  have inside : (own.map fun c => c.2.1).toFinset ⊆ Finset.Icc 1 cap := by
    intro a mem
    obtain ⟨c, here, rfl⟩ := List.mem_map.mp (List.mem_toFinset.mp mem)
    obtain ⟨logged, own⟩ := ownJob c here
    exact Finset.mem_Icc.mpr (within c logged own)
  have card := Finset.card_le_card inside
  rw [List.toFinset_card_of_nodup attempts, Nat.card_Icc, Nat.add_sub_cancel,
    List.length_map] at card
  rwa [claimCount, List.countP_eq_length_filter]

/-! ## The wire type of the limit -/

/-- Every limit in the tables is a `u32`. -/
structure Db.Capped (db : Db) : Prop where
  jobs : ∀ {j row}, db.jobs.find? j = some row → row.maxAttempts ≤ u32Max
  schedulers : ∀ {id row}, db.jobSchedulers.find? id = some row →
    row.maxAttempts.getD 0 ≤ u32Max

theorem validateAndPrepare_capped {maxExecutionDepth : ℕ} {req : AddJobRequest}
    {job : AddJobRequest × Option Bytes} (typed : req.maxAttempts ≤ u32Max)
    (ok : validateAndPrepare ext maxExecutionDepth req = .ok job) :
    job.1.maxAttempts ≤ u32Max := by
  obtain ⟨normalized, rfl, rfl⟩ := validateAndPrepare_eq ok
  dsimp only
  split
  · decide
  · exact typed

/-- An insertion stores the limit of its request. -/
theorem insertEnqueued_capped {req : AddJobRequest} {receiptRequest : Option Bytes} {now : ℤ}
    {out : EnqueueOutcome} (typed : req.maxAttempts ≤ u32Max)
    (ok : insertEnqueued ext service t k db req receiptRequest now = .ok out)
    (capped : db.Capped) : out.db.Capped := by
  refine ⟨fun {j row} found => ?_, fun {id row} found => ?_⟩
  · obtain ⟨db₁, db₂, availableAt, depth, trace, jobs, admitted, -, -, -, chained, insert, written,
      -⟩ := insertEnqueued_ok ok
    have before : db₂.jobs = db.jobs :=
      (checkChain_ok chained).1.jobs.trans (admitRequest_ok (t := 0) (k := 0) admitted).1.jobs
    rw [writeReceipt_jobs written, Table.find?_of_insert insert, before] at found
    split at found
    · cases found
      exact typed
    · exact capped.jobs found
  · rw [insertEnqueued_jobSchedulers ok] at found
    exact capped.schedulers found

/-- An intake of requests of the wire type keeps the limits within it. -/
theorem intake_capped : IntakeRelation ext service t (fun req => req.maxAttempts ≤ u32Max)
    fun db db' => db.Capped → db'.Capped where
  refl := fun _ => id
  trans := fun first second capped => second (first capped)
  inserted := insertEnqueued_capped

theorem recordRejection_capped (db : Db) (now : ℤ) (name : String) (record : RejectionRecord)
    (capped : db.Capped) : (recordRejection db now name record).Capped := by
  rw [recordRejection]
  split <;> exact ⟨capped.jobs, capped.schedulers⟩

theorem advanceScheduler_capped (db : Db) (id : String) (next : ℤ) (jobId : JobId) (now : ℤ)
    (capped : db.Capped) : (advanceScheduler db id next jobId now).Capped := by
  refine ⟨capped.jobs, fun {other row} found => ?_⟩
  simp only [advanceScheduler, Table.find?_modify] at found
  split at found
  · obtain ⟨old, stored, rfl⟩ := Option.map_eq_some_iff.mp found
    have limit := capped.schedulers stored
    exact limit
  · exact capped.schedulers found

theorem upsertScheduler_capped {spec : JobSchedulerRow} (typed : spec.maxAttempts.getD 0 ≤ u32Max)
    (capped : db.Capped) : (upsertScheduler db spec).Capped := by
  refine ⟨capped.jobs, fun {id row} found => ?_⟩
  simp only [upsertScheduler, Table.find?_upsert] at found
  split at found
  · cases stored : db.jobSchedulers.find? id with
    | none =>
      rw [stored] at found
      cases found
      exact typed
    | some old =>
      rw [stored] at found
      cases found
      exact typed
  · exact capped.schedulers found

/-- A job that is born outside an enqueue has the limit of a node asked for. -/
theorem Op.Emits.born_asked {op : Op} (emits : op.Emits service db e) {row : JobRow}
    (born : e.born = some row) (other : ¬ op.Enqueues) :
    ∃ options ∈ op.newNodes, row.maxAttempts = options.normalized.maxAttempts := by
  have sown : ∀ {asked}, e.Sows asked →
      ∃ options ∈ asked, row.maxAttempts = options.normalized.maxAttempts := by
    intro asked sows
    cases e with
    | planted planted slot =>
      cases born
      obtain ⟨options, mem, -, same⟩ := sows
      exact ⟨options, mem, same⟩
    | receipted receipt request => cases born
    | _ => exact sows.elim
  cases op with
  | addFlow clock flow => exact sown emits
  | addFlowBulk clock flows => exact sown emits
  | addFlowMerge clock flow =>
    obtain ⟨tree, target, rfl, -, merges⟩ := emits
    cases e with
    | adopted row => cases born
    | regated row n updatedAt => cases born
    | _ => exact sown merges
  | addJob clock req => exact absurd trivial other
  | addJobBulk clock requests => exact absurd trivial other
  | runOnce clock batchSize => exact absurd trivial other
  | _ =>
    rcases emits.creates with ⟨-, unborn⟩ | ⟨creates, -⟩
    · rw [unborn] at born
      cases born
    · exact creates.elim

section Runs

variable {run : List Op} {op : Op}

theorem Op.Typed.newNodes (typed : op.Typed) : ∀ options ∈ op.newNodes,
    options.maxAttempts ≤ u32Max := by
  intro options mem
  cases op with
  | addFlow clock flow => exact typed options mem
  | addFlowBulk clock flows => exact typed options mem
  | addFlowMerge clock flow => exact typed options mem
  | _ => cases mem

/-- Outside enqueues the limits of the live jobs are old, or those of typed nodes. -/
theorem jobs_capped_after (typed : op.Typed) (other : ¬ op.Enqueues)
    (capped : (dbAfter ext service run).Capped) {j : JobId} {row : JobRow}
    (found : (dbAfter ext service (run ++ [op])).jobs.find? j = some row) :
    row.maxAttempts ≤ u32Max := by
  rcases Ledger.Sound.live_or_born_of_chain (next_chain ext service run op) found with
    ⟨old, was, same⟩ | ⟨e, emitted, newborn, born, -, same⟩
  · rw [same.maxAttempts]
    exact capped.jobs was
  · rw [same.maxAttempts]
    rcases List.mem_append.mp emitted with here | last
    · obtain ⟨slot, refines⟩ := eventsOf_refines ext service run op
      obtain ⟨options, mem, limit⟩ := (refines.emits e here).born_asked born other
      rw [limit, FlowOptions.normalized]
      dsimp only
      split
      · decide
      · exact typed.newNodes options mem
    · rw [List.mem_singleton.mp last] at born
      cases born

/-- Outside ticks the limits of the records are old, or that of a typed template. -/
theorem schedulers_capped_after (typed : op.Typed)
    (unticked : ∀ clock batchSize, op ≠ .runOnce clock batchSize)
    (capped : (dbAfter ext service run).Capped) {id : String} {row : JobSchedulerRow}
    (found : (dbAfter ext service (run ++ [op])).jobSchedulers.find? id = some row) :
    row.maxAttempts.getD 0 ≤ u32Max := by
  by_cases rules : op.RulesSchedule
  · cases op with
    | upsertJobScheduler clock req =>
      rcases transact_cases ext service run (.upsertJobScheduler clock req) rfl with
        ⟨-, unchanged⟩ | ⟨⟨⟨name, next⟩, db', calls⟩, ok, -, after⟩
      · rw [not_not.mp unchanged] at found
        exact capped.schedulers found
      · obtain ⟨template, spec, given, -, -, -, rfl, -⟩ := upsertJobScheduler_ok ok
        rw [after] at found
        exact (upsertScheduler_capped (typed template given) capped).schedulers found
    | deleteJobScheduler name =>
      rcases transact_cases ext service run (.deleteJobScheduler name) rfl with
        ⟨-, unchanged⟩ | ⟨⟨deleted, db', calls⟩, ok, -, after⟩
      · rw [not_not.mp unchanged] at found
        exact capped.schedulers found
      · obtain ⟨rfl, -⟩ := deleteJobScheduler_ok ok
        rw [after, Table.find?_erase] at found
        split at found
        · cases found
        · exact capped.schedulers found
    | _ => exact rules.elim
  · rw [jobSchedulers_after ext service run rules unticked] at found
    exact capped.schedulers found

/-- In a typed run every stored limit is a `u32`. -/
theorem capped_after (typed : Along (fun _ op => op.Typed) run) :
    (dbAfter ext service run).Capped := by
  induction run using List.reverseRecOn with
  | nil => exact ⟨nofun, nofun⟩
  | append_singleton run op ih =>
    obtain ⟨before, last⟩ := along_concat.mp typed
    have capped := ih before
    by_cases enqueues : op.Enqueues
    · rw [dbAfter_concat, servedNext]
      cases op with
      | addJob clock req =>
        exact intake_capped.enqueue recordRejection_capped
          (fun _ valid => validateAndPrepare_capped last valid) capped
      | addJobBulk clock requests =>
        refine intake_capped.enqueueBulk recordRejection_capped
          (fun req mem _ valid => ?_) capped
        exact validateAndPrepare_capped (last req mem) valid
      | runOnce clock batchSize =>
        refine intake_capped.fireAll advanceScheduler_capped (fun row mem _ valid => ?_) 0 _
          capped
        have stored := stored_of_selectDue _ mem
        exact validateAndPrepare_capped (capped.schedulers stored) valid
      | _ => exact enqueues.elim
    · refine ⟨jobs_capped_after last enqueues capped, schedulers_capped_after last ?_ capped⟩
      rintro clock batchSize rfl
      exact enqueues trivial

/-! ## Runs -/

variable (ext service) in
theorem budget_after (run : List Op) :
    Budget (history ext service run) ((dbAfter ext service run).ledger run.length 0) :=
  history_invariant Budget.empty Budget.step run

/-- An inserted row was stored after some operation of the run. -/
theorem mem_insertedJobs {row : JobRow} (mem : row ∈ insertedJobs ext service run) :
    ∃ before op, before ++ [op] <+: run ∧
      (dbAfter ext service (before ++ [op])).jobs.find? row.id = some row := by
  induction run using List.reverseRecOn with
  | nil => cases mem
  | append_singleton run op ih =>
    rw [insertedJobs, collect_concat, List.mem_append] at mem
    rcases mem with earlier | last
    · obtain ⟨before, op', le, found⟩ := ih earlier
      exact ⟨before, op', le.trans (List.prefix_append _ _), found⟩
    · have stored := (List.mem_filter.mp last).1
      exact ⟨run, op, List.prefix_refl _, Table.find?_of_mem stored⟩

/-- An inserted job was born with the limit it was inserted with. -/
theorem born_of_inserted {row : JobRow} (mem : row ∈ insertedJobs ext service run) :
    ∃ newborn ∈ births (history ext service run), newborn.SameIdentity row := by
  obtain ⟨before, op, ⟨more, rfl⟩, found⟩ := mem_insertedJobs mem
  obtain ⟨newborn, born, same⟩ := (budget_after ext service (before ++ [op])).origin found
  obtain ⟨later, split, -⟩ := history_append ext service (before ++ [op]) more
  refine ⟨newborn, ?_, same⟩
  rw [split, births, List.filterMap_append]
  exact List.mem_append_left _ born

variable (ext service) in
/-- **Dispatch is bounded**: in every run a resting job has an attempt left, a job is
claimed at most `max_attempts` times, and the increment of `attempts` never fails. -/
theorem dispatch_bounded (run : List Op) : DispatchBounded ext service run where
  budgeted := fun j row found => (budget_after ext service run).budgeted found
  claimed := by
    intro row mem
    obtain ⟨newborn, born, same⟩ := born_of_inserted mem
    rw [claims_eq]
    refine claimCount_le (fenced_after ext service run).issuedNodup fun c issued here => ?_
    obtain ⟨other, birth, own, low, high⟩ := (budget_after ext service run).issued issued
    have unique := Ledger.Sound.born_nodup (history_chain ext service run)
    have equal : other = newborn :=
      List.inj_on_of_nodup_map unique birth born (own.trans (here.trans same.id))
    rw [same.maxAttempts, ← equal]
    exact ⟨low, high⟩
  answered := by
    intro typed clock req worker queues
    rw [getNextJob, if_neg (by simp [worker]), if_neg (by simp [queues])]
    cases selected : selectNext service (dbAfter ext service run) (clock 0) req.queueNames with
    | none => exact ⟨_, rfl⟩
    | some row =>
      obtain ⟨live, claimable⟩ := selectNext_some selected
      have below := (((budget_after ext service run).budgeted live).resting claimable.ne_active).1
      have cap := (capped_after typed).jobs live
      have room : ¬ u32Max ≤ row.attempts := by omega
      dsimp only
      rw [if_neg room]
      exact ⟨_, rfl⟩

end Runs

end AnvilMQ
