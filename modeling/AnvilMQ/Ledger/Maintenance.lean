import AnvilMQ.Ledger.Enqueues
import AnvilMQ.RateLimit
import AnvilMQ.Schedulers

/-!
# Upkeep as events

The sweeps of retention, the ingress rules and the scheduler records.  A sweep
deletes from the finished jobs and from the receipts only; its other statements
touch tables that are not in the books.
-/

namespace AnvilMQ

open Rust Relational Transition

variable {ext : Externals} {db db' : Db} {t k : ℕ} {clock : Clock} {deleted : Bool}
  {calls : List MetricCall}

/-- The events of a sweep. -/
def Event.IsPruning : Event → Prop
  | .historyPruned _ _ _ => True
  | .receiptsPruned _ _ => True
  | _ => False

/-- The events of rules and scheduler records. -/
def Event.IsRecord : Event → Prop
  | .ruleStored _ => True
  | .ruleDropped _ => True
  | .schedulerStored _ _ => True
  | .schedulerDropped _ _ => True
  | _ => False

/-! ## Sweeps -/

/-- The gauge of the rows of a terminal state. -/
def TerminalState.target : TerminalState → RetentionTarget
  | .completed => .completed
  | .failed => .failed

theorem retentionDeleted_delta (state : TerminalState) (n : ℕ) (gauge : Gauge) :
    (MetricCall.retentionDeleted state.target n).delta gauge = -(n * state.unit gauge) := by
  cases state
  all_goals
    simp only [MetricCall.delta, TerminalState.unit, TerminalState.target, RetentionTarget.gauge,
      TerminalState.label, unitAt, Option.map_some, Option.some.injEq]
  · by_cases here : Gauge.jobs .completed = gauge <;> simp [here, eq_comm (a := gauge)]
  · by_cases here : Gauge.jobs .failed = gauge <;> simp [here, eq_comm (a := gauge)]

/-- The statements a sweep is made of: each leaves a trace with one gauge call. -/
def Prunes (ext : Externals) (t k : ℕ) (target : RetentionTarget) (statement : Db → Db × ℕ) :
    Prop :=
  ∀ db, ∃ events, Trace ext Event.IsPruning True t k k db (statement db).1
    [.retentionDeleted target (statement db).2] events

/-- Deleting some rows of one terminal state. -/
theorem deleteHistory_trace {selected : List HistoryRow} {state : TerminalState}
    (only : ∀ row ∈ selected, row ∈ db.jobHistory ∧ row.state = state) :
    ∃ events, Trace ext Event.IsPruning True t k k db
      { db with jobHistory := (deleteSelected db.jobHistory selected).1 }
      [.retentionDeleted state.target (deleteSelected db.jobHistory selected).2] events := by
  refine ⟨[.historyPruned state _ _], .single ⟨trivial, ledger_historyPruned only⟩,
    by simp [Event.IsPruning], ?_⟩
  intro _ gauge
  simp [retentionDeleted_delta]

section Statements

variable (ext : Externals) (t k : ℕ)

theorem pruneAge_prunes (scan : Scan HistoryRow) (state : TerminalState) (cutoff batch : ℤ) :
    Prunes ext t k state.target fun db => pruneAge scan db state cutoff batch := by
  intro db
  refine deleteHistory_trace fun row mem => ?_
  have picked := List.mem_filter.mp (Scan.mem_of_mem_limitBy mem)
  simp only [Bool.and_eq_true, decide_eq_true_eq] at picked
  exact ⟨picked.1, picked.2.1⟩

theorem pruneCount_prunes (scan : Scan HistoryRow) (state : TerminalState) (keep batch : ℤ) :
    Prunes ext t k state.target fun db => pruneCount scan db state keep batch := by
  intro db
  refine deleteHistory_trace fun row mem => ?_
  have picked := List.mem_filter.mp (Scan.mem_of_mem_limit mem)
  simp only [Bool.and_eq_true, decide_eq_true_eq] at picked
  exact ⟨picked.1, picked.2.1⟩

/-- Only orphaned receipts are pruned. -/
theorem pruneReceipts_prunes (scan : Scan Receipt) (batch : ℤ) :
    Prunes ext t k .receipt fun db => pruneReceipts scan db batch := by
  intro db
  refine ⟨_, .single ⟨?_, ledger_receiptsPruned _⟩, by simp [Event.IsPruning], ?_⟩
  · intro key mem receipt found
    obtain ⟨picked, chosen, rfl⟩ := List.mem_map.mp mem
    have orphan := List.mem_filter.mp (Scan.mem_of_mem_limit chosen)
    have same : picked = receipt := by
      have here : db.enqueueReceipts.find? picked.key = some picked := Table.find?_of_mem orphan.1
      exact Option.some.inj (here.symm.trans found)
    subst same
    simp only [orphaned, Bool.and_eq_true, decide_eq_true_eq] at orphan
    exact ⟨Table.not_has_iff.mp orphan.2.1, Table.not_has_iff.mp orphan.2.2⟩
  · intro _ gauge
    simp only [callDelta_cons, callDelta_nil, eventDelta_cons, eventDelta_nil, Event.delta,
      MetricCall.delta, RetentionTarget.gauge, receiptUnit, pruneReceipts]
    by_cases here : gauge = .enqueueReceipts <;> simp [here]

end Statements

theorem Prunes.whenPositive {target : RetentionTarget} {statement : Db → Db × ℕ}
    (prunes : Prunes ext t k target statement) (setting : ℤ) :
    Prunes ext t k target fun db => whenPositive setting db statement := by
  intro db
  simp only [AnvilMQ.whenPositive]
  split
  · exact prunes db
  · refine ⟨[], .nil _, by simp, fun _ gauge => ?_⟩
    simp [MetricCall.delta]

/-- A statement on a table outside the books. -/
theorem whenPositive_ledger {statement : Db → Db × ℕ}
    (outside : ∀ db, (statement db).1.ledger t k = db.ledger t k) (setting : ℤ) (db : Db) :
    (whenPositive setting db statement).1.ledger t k = db.ledger t k := by
  rw [whenPositive]
  split
  · exact outside db
  · rfl

/-- **A sweep prunes finished jobs and orphaned receipts**, and the gauges follow. -/
theorem sweep_trace (ext : Externals) (t k : ℕ) (plan : SweepPlan) (clock : Clock) (db : Db)
    (cfg : RetentionConfig) :
    ∃ events, Trace ext Event.IsPruning True t k k db (sweep plan clock db cfg).2.1
      (sweep plan clock db cfg).2.2 events := by
  let now := clock 0
  obtain ⟨events₁, first⟩ := (pruneAge_prunes ext t k plan.completedAge .completed
    (saturatingSub now cfg.completedAgeMs) cfg.batch).whenPositive cfg.completedAgeMs db
  obtain ⟨events₂, second⟩ := (pruneAge_prunes ext t k plan.failedAge .failed
    (saturatingSub now cfg.failedAgeMs) cfg.batch).whenPositive cfg.failedAgeMs _
  obtain ⟨events₃, third⟩ := (pruneCount_prunes ext t k plan.completedCount .completed
    cfg.completedCount cfg.batch).whenPositive cfg.completedCount _
  obtain ⟨events₄, fourth⟩ := (pruneCount_prunes ext t k plan.failedCount .failed
    cfg.failedCount cfg.batch).whenPositive cfg.failedCount _
  obtain ⟨events₅, fifth⟩ := pruneReceipts_prunes ext t k plan.receipts cfg.batch _
  have books := (((first.append (fun _ => trivial) second).append (fun _ => trivial) third).append
    (fun _ => trivial) fourth).append (fun _ => trivial) fifth
  refine ⟨_, ⟨?_, books.only, fun _ gauge => ?_⟩⟩
  · simp only [sweep]
    rw [whenPositive_ledger fun _ => rfl, whenPositive_ledger fun _ => rfl,
      whenPositive_ledger fun _ => rfl]
    exact books.chain
  · rw [← books.gauges trivial gauge]
    simp only [sweep, callDelta_append, callDelta_cons, callDelta_nil, TerminalState.target]
    ring

/-! ## Ingress rules -/

/-- A rule is stored in one event. -/
theorem upsertIngressLimitRule_trace {req : UpsertLimitRuleRequest}
    (ok : upsertIngressLimitRule db clock req = .ok db') :
    Trace ext Event.IsRecord True t k k db db' []
      [.ruleStored ⟨req.facetPattern, req.maxJobs, req.windowDurationMs⟩] := by
  simp only [upsertIngressLimitRule, bind_eq_ok] at ok
  obtain ⟨⟨⟩, -, ok⟩ := ok
  split at ok
  · cases ok
  cases sum : checkedAdd (clock 0) req.windowDurationMs with
  | none => simp [sum] at ok
  | some expiry =>
    simp only [sum, Except.ok.injEq] at ok
    subst ok
    refine ⟨.single ⟨trivial, ?_⟩, by simp [Event.IsRecord], by simp⟩
    refine ledger_ruleStored _ fun rule same => ?_
    have same : rule.facetPattern = req.facetPattern := same
    rw [← same]

theorem deleteIngressLimitRule_trace {facetKey : String}
    (ok : deleteIngressLimitRule db facetKey = .ok (deleted, db')) :
    Trace ext Event.IsRecord True t k k db db' [] [.ruleDropped facetKey] := by
  simp only [deleteIngressLimitRule, bind_eq_ok, Except.ok.injEq, Prod.mk.injEq] at ok
  obtain ⟨⟨⟩, -, -, rfl⟩ := ok
  exact ⟨.single ⟨trivial, ledger_ruleDropped facetKey⟩, by simp [Event.IsRecord], by simp⟩

/-! ## Rate-limit rules are outside the books -/

/-- **What a committed upsert of a dispatch rule does**: the rule is stored and the
counter of its facet starts anew. -/
theorem upsertRateLimitRule_eq {req : UpsertLimitRuleRequest}
    (ok : upsertRateLimitRule db clock req = .ok db') :
    0 < req.windowDurationMs ∧ db' = { db with
      rateLimitRules := db.rateLimitRules.upsert
        ⟨req.facetPattern, req.maxJobs, req.windowDurationMs⟩
        (fun rule => { rule with
          maxJobs := req.maxJobs
          windowDurationMs := req.windowDurationMs }) req.keeps_facet
      rateLimitCounters := db.rateLimitCounters.erase req.facetPattern } := by
  simp only [upsertRateLimitRule, bind_eq_ok, guard_eq_ok] at ok
  obtain ⟨⟨⟩, -, positive, ok⟩ := ok
  split at ok
  · cases ok
  · exact ⟨not_le.mp positive, (Except.ok.inj ok).symm⟩

/-- **What a committed delete of a dispatch rule does.** -/
theorem deleteRateLimitRule_eq {facetKey : String}
    (ok : deleteRateLimitRule db facetKey = .ok (deleted, db')) :
    db' = { db with
      rateLimitRules := db.rateLimitRules.erase facetKey
      rateLimitCounters := db.rateLimitCounters.erase facetKey } := by
  simp only [deleteRateLimitRule, bind_eq_ok, Except.ok.injEq, Prod.mk.injEq] at ok
  obtain ⟨⟨⟩, -, -, rfl⟩ := ok
  rfl

theorem upsertRateLimitRule_ledger {req : UpsertLimitRuleRequest}
    (ok : upsertRateLimitRule db clock req = .ok db') : db'.ledger t k = db.ledger t k := by
  obtain ⟨-, rfl⟩ := upsertRateLimitRule_eq ok
  rfl

theorem deleteRateLimitRule_ledger {facetKey : String}
    (ok : deleteRateLimitRule db facetKey = .ok (deleted, db')) :
    db'.ledger t k = db.ledger t k := by
  rw [deleteRateLimitRule_eq ok]
  rfl

/-! ## Scheduler records -/

/-- A scheduler record is stored, and counted when it is new. -/
theorem upsertScheduler_trace {spec : JobSchedulerRow} (due : spec.nextRunAt.isSome) :
    ∃ events, Trace ext Event.IsRecord db.SchedulersActive t k k db (upsertScheduler db spec)
      (if db.jobSchedulers.Has spec.id then [] else [.schedulerActivated]) events := by
  rw [upsertScheduler, Table.upsert]
  cases inserted : db.jobSchedulers.insert spec with
  | some table =>
    have absent := Table.not_has_of_insert inserted
    refine ⟨[.schedulerStored spec none], .single ⟨⟨Table.not_has_iff.mp absent, due⟩,
      ledger_schedulerInserted inserted⟩, by simp [Event.IsRecord], fun _ gauge => ?_⟩
    simp [absent, MetricCall.delta, schedulerUnit, due]
  | none =>
    have has := Table.insert_eq_none.mp inserted
    obtain ⟨row, found⟩ := Table.has_iff_find?.mp has
    have here := Table.key_of_find? found
    refine ⟨[.schedulerStored _ (some row)], .single ⟨?_, ledger_schedulerModified _ found⟩,
      by simp [Event.IsRecord], fun active gauge => ?_⟩
    · refine ⟨?_, due⟩
      simpa [Db.ledger, here] using found
    · have scheduled := active spec.id row found
      simp [has, schedulerUnit, due, scheduled]

/-- The options of a template are in range, those that are given. -/
structure JobTemplate.InRange (template : JobTemplate) : Prop where
  jitter : ∀ jitter ∈ template.retryJitter, jitter.inUnitInterval = true
  base : ∀ base ∈ template.retryBackoffMs, 0 ≤ base
  cap : ∀ cap ∈ template.retryBackoffMaxMs, 0 ≤ cap
  capped : ∀ base ∈ template.retryBackoffMs, ∀ cap ∈ template.retryBackoffMaxMs, base ≤ cap

/-- `check_template` accepts exactly the options in range. -/
theorem checkTemplate_ok_iff {template : JobTemplate} :
    checkTemplate template = .ok () ↔ template.InRange := by
  have fraction : ∀ jitter : F64, (jitter.isNan || !jitter.inUnitInterval) = true ↔
      ¬ jitter.inUnitInterval = true := fun jitter => by
    rw [← isNan_or_outside_iff, Bool.or_eq_true, Bool.not_eq_true', Bool.not_eq_true]
  simp only [checkTemplate, guard_eq_ok, and_true, Option.any_eq_true, fraction, Bool.or_eq_true,
    decide_eq_true_eq, not_or, not_exists, not_and, not_not, not_lt]
  constructor
  · rintro ⟨jitter, ⟨base, cap⟩, capped⟩
    exact ⟨jitter, base, cap, capped⟩
  · rintro ⟨jitter, base, cap, capped⟩
    exact ⟨jitter, ⟨base, cap⟩, capped⟩

/-- **The request declares a record** with a template and a pattern, and `next` is the next
occurrence of the pattern after `now`. -/
structure UpsertJobSchedulerRequest.Declares (ext : Externals) (now : ℤ)
    (req : UpsertJobSchedulerRequest) (template : JobTemplate) (spec : RepeatSpec) (next : ℤ) :
    Prop where
  id : trim req.id ≠ ""
  given : req.template = some template
  repeated : req.repeatSpec = some spec
  name : trim template.name ≠ ""
  payload : template.payload.length ≤ maxSchedulerPayloadBytes
  cron : trim spec.cron ≠ ""
  options : template.InRange
  found : nextCronAfter ext now (trim spec.cron) (trim spec.timezone) = .ok next

/-- A pattern with a next occurrence is valid. -/
theorem validateCron_of_next {now next : ℤ} {cron tz : String}
    (found : nextCronAfter ext now cron tz = .ok next) : validateCron ext cron tz = .ok () := by
  simp only [nextCronAfter, bind_eq_ok] at found
  obtain ⟨pattern, parsed, zone, resolved, -⟩ := found
  rw [validateCron, parsed, resolved]
  rfl

/-- **An upsert commits exactly when the request declares a record.** -/
theorem upsertJobScheduler_ok_iff {req : UpsertJobSchedulerRequest}
    {answer : (String × ℤ) × Db × List MetricCall} :
    upsertJobScheduler ext clock db req = .ok answer ↔
      ∃ template spec next, req.Declares ext (clock 0) template spec next ∧
        answer = ((trim req.id, next),
          upsertScheduler db (schedulerSpec (trim req.id) (trim template.name) (trim spec.cron)
            (trim spec.timezone) template next (clock 0)),
          if db.jobSchedulers.Has (trim req.id) then [] else [.schedulerActivated]) := by
  unfold upsertJobScheduler
  constructor
  · intro ok
    simp only [guard_eq_ok] at ok
    obtain ⟨id, ok⟩ := ok
    cases givenTemplate : req.template with
    | none => simp [givenTemplate] at ok
    | some template =>
      cases givenSpec : req.repeatSpec with
      | none => simp [givenTemplate, givenSpec] at ok
      | some spec =>
        simp only [givenTemplate, givenSpec, guard_eq_ok] at ok
        obtain ⟨name, payload, cron, ok⟩ := ok
        -- the pattern and the template are checked before the clock is read
        split at ok
        · cases ok
        split at ok
        · cases ok
        rename_i checked
        split at ok
        · cases ok
        rename_i found
        exact ⟨template, spec, _, ⟨id, givenTemplate, givenSpec, name, not_lt.mp payload, cron,
          checkTemplate_ok_iff.mp checked, found⟩, (Except.ok.inj ok).symm⟩
  · rintro ⟨template, spec, next, declares, rfl⟩
    simp only [declares.given, declares.repeated, if_neg declares.id, if_neg declares.name,
      if_neg (not_lt.mpr declares.payload), if_neg declares.cron,
      validateCron_of_next declares.found, checkTemplate_ok_iff.mpr declares.options,
      declares.found]

/-- **What a committed upsert does**: the record is stored as the request describes
it, due at the next occurrence of its own pattern. -/
theorem upsertJobScheduler_ok {req : UpsertJobSchedulerRequest} {name : String} {next : ℤ}
    (ok : upsertJobScheduler ext clock db req = .ok ((name, next), db', calls)) :
    ∃ template spec, req.template = some template ∧ req.repeatSpec = some spec ∧
      name = trim req.id ∧
      nextCronAfter ext (clock 0) (trim spec.cron) (trim spec.timezone) = .ok next ∧
      db' = upsertScheduler db (schedulerSpec (trim req.id) (trim template.name) (trim spec.cron)
        (trim spec.timezone) template next (clock 0)) ∧
      calls = if db.jobSchedulers.Has (trim req.id) then [] else [.schedulerActivated] := by
  obtain ⟨template, spec, next, declares, same⟩ := upsertJobScheduler_ok_iff.mp ok
  cases same
  exact ⟨template, spec, declares.given, declares.repeated, rfl, declares.found, rfl, rfl⟩

theorem upsertJobScheduler_trace {req : UpsertJobSchedulerRequest} {response : String × ℤ}
    (ok : upsertJobScheduler ext clock db req = .ok (response, db', calls)) :
    ∃ events, Trace ext Event.IsRecord db.SchedulersActive t k k db db' calls events := by
  obtain ⟨template, spec, -, -, -, -, rfl, rfl⟩ := upsertJobScheduler_ok ok
  exact upsertScheduler_trace rfl

/-- **What a committed delete does.** -/
theorem deleteJobScheduler_ok {id : String}
    (ok : deleteJobScheduler db id = .ok (deleted, db', calls)) :
    db' = { db with jobSchedulers := db.jobSchedulers.erase (trim id) } ∧
      calls = if db.jobSchedulers.Has (trim id) then [.schedulerDeactivated] else [] := by
  unfold deleteJobScheduler at ok
  simp only [guard_eq_ok, Except.ok.injEq, Prod.mk.injEq] at ok
  obtain ⟨-, -, rfl, rfl⟩ := ok
  exact ⟨rfl, rfl⟩

/-- A deleted scheduler is one event, counted off the gauge. -/
theorem deleteJobScheduler_trace {id : String}
    (ok : deleteJobScheduler db id = .ok (deleted, db', calls)) :
    ∃ events, Trace ext Event.IsRecord db.SchedulersActive t k k db db' calls events := by
  obtain ⟨rfl, rfl⟩ := deleteJobScheduler_ok ok
  refine ⟨[.schedulerDropped (trim id) (db.jobSchedulers.find? (trim id))],
    .single ⟨rfl, ledger_schedulerDropped _⟩, by simp [Event.IsRecord], fun active gauge => ?_⟩
  cases found : db.jobSchedulers.find? (trim id) with
  | none => simp [Table.not_has_iff.mpr found, schedulerUnit]
  | some row =>
    have scheduled := active (trim id) row found
    have has : db.jobSchedulers.Has (trim id) := Table.has_iff_find?.mpr ⟨row, found⟩
    by_cases here : gauge = .schedulersActive <;>
      simp [has, MetricCall.delta, schedulerUnit, scheduled, here]

end AnvilMQ
