import AnvilMQ.Properties.DispatchLimit
import AnvilMQ.Properties.Ingress

/-!
# Status reports and enforcement

Each limit is decided twice.  The claim query filters jobs by a predicate over a left join, and
`admit` rolls the stored pair inside the enqueue transaction; the two status calls compute the
same answers on the side, with defaults of their own for a counter that is missing or whose
window has expired.  In every reachable state they agree.
-/

namespace AnvilMQ

open Rust Relational Transition FixedWindow

/-- **The status reports agree with enforcement**, for a facet at a time. -/
structure StatusAgrees (ext : Externals) (db : Db) (f : String) (now : ℤ) : Prop where
  /-- The dispatch report is throttled when the claim query passes over the jobs of the facet. -/
  dispatch : ∀ row : JobRow, row.rateLimitFacet = some f →
    ((∃ report, getRateLimitStatus db now f = .ok report ∧ report.isThrottled = true) ↔
      blocked db now row = true)
  /-- The ingress report is throttled when an enqueue would be refused. -/
  ingress : (∃ report, getIngressLimitStatus ext db now f = .ok report ∧
      report.isThrottled = true) ↔ admitIngress ext db f now = none

/-- The `max_jobs` of a rule are of their wire type, `uint32`. -/
def Op.LimitsTyped : Op → Prop
  | upsertRateLimitRule _ req => req.maxJobs ≤ u32Max
  | upsertIngressLimitRule _ req => req.maxJobs ≤ u32Max
  | _ => True

/-! ## The rules of a reachable state -/

/-- A rule that an upsert accepts. -/
structure LimitRule.Accepted (rule : LimitRule) : Prop where
  valid : validateFacet rule.facetPattern = .ok ()
  typed : rule.maxJobs ≤ u32Max

section Rules

variable {ext : Externals} {service : Service} {run : List Op} {op : Op} {db db' : Db}
  {clock : Clock} {req : UpsertLimitRuleRequest} {f : String}

theorem upsertRateLimitRule_valid (ok : upsertRateLimitRule db clock req = .ok db') :
    validateFacet req.facetPattern = .ok () := by
  obtain ⟨⟨⟩, valid, -⟩ := bind_eq_ok.mp ok
  exact valid

/-- **What a committed upsert of an ingress rule does.** -/
theorem upsertIngressLimitRule_ok (ok : upsertIngressLimitRule db clock req = .ok db')
    (f : String) :
    validateFacet req.facetPattern = .ok () ∧
      db'.ingressLimitRules.find? f = if f = req.facetPattern then
        some ⟨req.facetPattern, req.maxJobs, req.windowDurationMs⟩
        else db.ingressLimitRules.find? f := by
  simp only [upsertIngressLimitRule, bind_eq_ok, guard_eq_ok] at ok
  obtain ⟨⟨⟩, valid, -, ok⟩ := ok
  split at ok
  · cases ok
  · cases ok
    exact ⟨valid, find?_upsert_rule _ req f⟩

theorem deleteIngressLimitRule_ok {key : String} {deleted : Bool}
    (ok : deleteIngressLimitRule db key = .ok (deleted, db')) :
    db'.ingressLimitRules.find? f = if f = key then none else db.ingressLimitRules.find? f := by
  simp only [deleteIngressLimitRule, bind_eq_ok, Except.ok.injEq, Prod.mk.injEq] at ok
  obtain ⟨⟨⟩, -, -, rfl⟩ := ok
  rw [Table.find?_erase]

/-- The operations on ingress rules. -/
def Op.RulesIngress : Op → Prop
  | upsertIngressLimitRule _ _ => True
  | deleteIngressLimitRule _ => True
  | _ => False

/-- Events of other operations keep the rules. -/
theorem Op.Emits.keepsRules {e : Event} (emits : op.Emits service db e)
    (other : ¬ op.RulesIngress) (unscheduled : ¬ op.RulesSchedule) : e.KeepsRules := by
  rcases emits.creates with ⟨idle, -⟩ | ⟨-, creation⟩
  · cases op with
    | getNextJob _ _ | heartbeat _ _ | completeJob _ _ | failJob _ _ _ | recoverExpired _ _ =>
      have work := emits.isWork trivial
      cases e <;> first | exact work.elim | trivial
    | sweep plan clock cfg => cases e <;> first | exact emits.elim | trivial
    | upsertRateLimitRule clock req => exact emits.elim
    | deleteRateLimitRule facetKey => exact emits.elim
    | upsertIngressLimitRule clock req => exact absurd trivial other
    | deleteIngressLimitRule facetKey => exact absurd trivial other
    | upsertJobScheduler clock req => exact absurd trivial unscheduled
    | deleteJobScheduler id => exact absurd trivial unscheduled
    | _ => exact absurd trivial idle
  · exact creation.keepsRules

/-- The requests about scheduler records leave the ingress rules alone. -/
theorem serve_rulesSchedule_ingress {t : ℕ} (rules : op.RulesSchedule) :
    (serve ext service t db op).1.ingressLimitRules = db.ingressLimitRules := by
  cases op with
  | upsertJobScheduler clock req =>
    rw [serve]
    refine transact_view Db.ingressLimitRules ?_
    rintro ⟨⟨id, next⟩, db', calls⟩ ok
    obtain ⟨template, spec, -, -, -, -, rfl, -⟩ := upsertJobScheduler_ok ok
    rfl
  | deleteJobScheduler id =>
    rw [serve]
    refine transact_view Db.ingressLimitRules ?_
    rintro ⟨deleted, db', calls⟩ ok
    obtain ⟨rfl, -⟩ := deleteJobScheduler_ok ok
    rfl
  | _ => exact rules.elim

/-- Only `UpsertIngressLimitRule` and `DeleteIngressLimitRule` change the rules. -/
theorem ingressLimitRules_after (other : ¬ op.RulesIngress) (f : String) :
    (dbAfter ext service (run ++ [op])).ingressLimitRules.find? f =
      (dbAfter ext service run).ingressLimitRules.find? f := by
  by_cases schedules : op.RulesSchedule
  · rw [dbAfter_concat]
    exact congrArg (Table.find? · f) (serve_rulesSchedule_ingress schedules)
  obtain ⟨slot, refines⟩ := eventsOf_refines ext service run op
  have keeps : ∀ e ∈ eventsOf ext service run op ++ [.tick], e.KeepsRules := by
    intro e mem
    rcases List.mem_append.mp mem with here | last
    · exact (refines.emits e here).keepsRules other schedules
    · rw [List.mem_singleton.mp last]
      trivial
  refine (next_chain ext service run op).preserves_of
    (I := fun l => l.ingressLimitRules f = (dbAfter ext service run).ingressLimitRules.find? f)
    ?_ keeps rfl
  rintro l e l' kept ⟨-, rfl⟩ same
  exact (kept.ruleAfter f _).trans same

/-- Every stored rule was accepted. -/
structure Db.Accepted (db : Db) : Prop where
  dispatch : ∀ {f rule}, db.rateLimitRules.find? f = some rule → rule.Accepted
  ingress : ∀ {f rule}, db.ingressLimitRules.find? f = some rule → rule.Accepted

theorem Db.Accepted.empty : Db.empty.Accepted where
  dispatch := fun found => by cases found
  ingress := fun found => by cases found

/-- An operation on dispatch rules stores accepted rules. -/
theorem dispatch_accepted (typed : op.LimitsTyped) (before : (dbAfter ext service run).Accepted)
    {rule : LimitRule}
    (found : (dbAfter ext service (run ++ [op])).rateLimitRules.find? f = some rule) :
    rule.Accepted := by
  by_cases rules : op.RulesDispatch
  swap
  · rw [rateLimitRules_after ext service run rules] at found
    exact before.dispatch found
  cases op with
  | upsertRateLimitRule clock req =>
    rcases transact_cases ext service run (.upsertRateLimitRule clock req) rfl with
      refused | ⟨db', ok, -, after⟩
    · rw [not_not.mp refused.2] at found
      exact before.dispatch found
    · rw [after, (upsertRateLimitRule_ok ok f).2.1] at found
      split at found
      · cases found
        exact ⟨upsertRateLimitRule_valid ok, typed⟩
      · exact before.dispatch found
  | deleteRateLimitRule key =>
    rcases transact_cases ext service run (.deleteRateLimitRule key) rfl with
      refused | ⟨⟨deleted, db'⟩, ok, -, after⟩
    · rw [not_not.mp refused.2] at found
      exact before.dispatch found
    · rw [after, (deleteRateLimitRule_ok ok f).1] at found
      split at found
      · cases found
      · exact before.dispatch found
  | _ => exact rules.elim

/-- So does an operation on ingress rules. -/
theorem ingress_accepted (typed : op.LimitsTyped) (before : (dbAfter ext service run).Accepted)
    {rule : LimitRule}
    (found : (dbAfter ext service (run ++ [op])).ingressLimitRules.find? f = some rule) :
    rule.Accepted := by
  by_cases rules : op.RulesIngress
  swap
  · rw [ingressLimitRules_after rules] at found
    exact before.ingress found
  cases op with
  | upsertIngressLimitRule clock req =>
    rcases transact_cases ext service run (.upsertIngressLimitRule clock req) rfl with
      refused | ⟨db', ok, -, after⟩
    · rw [not_not.mp refused.2] at found
      exact before.ingress found
    · obtain ⟨valid, stored⟩ := upsertIngressLimitRule_ok ok f
      rw [after, stored] at found
      split at found
      · cases found
        exact ⟨valid, typed⟩
      · exact before.ingress found
  | deleteIngressLimitRule key =>
    rcases transact_cases ext service run (.deleteIngressLimitRule key) rfl with
      refused | ⟨⟨deleted, db'⟩, ok, -, after⟩
    · rw [not_not.mp refused.2] at found
      exact before.ingress found
    · rw [after, deleteIngressLimitRule_ok ok] at found
      split at found
      · cases found
      · exact before.ingress found
  | _ => exact rules.elim

theorem accepted_after (typed : ∀ op ∈ run, op.LimitsTyped) :
    (dbAfter ext service run).Accepted := by
  induction run using List.reverseRecOn with
  | nil => exact .empty
  | append_singleton run op ih =>
    have before := ih fun op mem => typed op (List.mem_append_left _ mem)
    have last := typed op (List.mem_append_right _ (List.mem_singleton_self op))
    exact ⟨dispatch_accepted last before, ingress_accepted last before⟩

end Rules

/-! ## The dispatch report -/

section Reports

variable {ext : Externals} {db : Db} {f : String} {now : ℤ} {rule : LimitRule}

theorem getU32_ok {column value : ℕ} (fits : value ≤ u32Max) :
    getU32 column value = .ok value :=
  if_pos fits

/-- Without a rule no report is throttled. -/
theorem not_throttled_of_unruled (unruled : db.rateLimitRules.find? f = none) :
    ¬ ∃ report, getRateLimitStatus db now f = .ok report ∧ report.isThrottled = true := by
  rintro ⟨report, ok, throttled⟩
  simp only [getRateLimitStatus, bind_eq_ok, unruled] at ok
  obtain ⟨⟨⟩, -, ok⟩ := ok
  cases ok
  cases throttled

/-- With one, the report is throttled when the limiter lets nothing through. -/
theorem throttled_iff_exhausted (ruled : db.rateLimitRules.find? f = some rule)
    (accepted : rule.Accepted) (counted : used (windowOf db f) ≤ rule.maxJobs) :
    (∃ report, getRateLimitStatus db now f = .ok report ∧ report.isThrottled = true) ↔
      exhausted rule.maxJobs (windowOf db f) now = true := by
  have key : rule.facetPattern = f := Table.key_of_find? ruled
  have valid : validateFacet f = .ok () := key ▸ accepted.valid
  unfold getRateLimitStatus
  simp only [valid, ruled, key, getU32_ok accepted.typed, bind, Except.bind]
  unfold windowOf at counted ⊢
  cases found : db.rateLimitCounters.find? f with
  | none =>
    -- a missing counter reads as zero, which exhausts a paused rule only
    simp [getU32_ok (Nat.zero_le _), exhausted]
  | some counter =>
    rw [found] at counted
    have fits : counter.currentCount ≤ u32Max := le_trans counted accepted.typed
    simp only [Option.map_some, Option.getD_some, getU32_ok fits, exhausted, Option.any_some]
    by_cases runs : now < counter.windowExpiresAt
    · simp [runs]
    · simp [runs]

/-! ## The ingress report -/

/-- An enqueue of a facet without a rule is not refused, and its report is not throttled. -/
theorem ingress_agrees_of_unruled (unruled : db.ingressLimitRules.find? f = none) :
    (∃ report, getIngressLimitStatus ext db now f = .ok report ∧ report.isThrottled = true) ↔
      admitIngress ext db f now = none := by
  have admitted : admitIngress ext db f now = some db := by
    unfold admitIngress
    rw [unruled]
  rw [admitted]
  refine iff_of_false ?_ nofun
  rintro ⟨report, ok, throttled⟩
  simp only [getIngressLimitStatus, bind_eq_ok, unruled] at ok
  obtain ⟨⟨⟩, -, ok⟩ := ok
  cases ok
  cases throttled

/-- A pair that counts nothing is estimated at zero. -/
theorem estimate_fresh (zero : ext.roundF64 0 = 0) (w : ℤ) :
    estimate ext (roll ⟨now, 0, 0⟩ now w) now w = 0 := by
  have rolled : roll ⟨now, 0, 0⟩ now w = ⟨now, 0, 0⟩ := by
    unfold roll
    simp
  rw [rolled]
  unfold estimate
  simp [zero]

/-- When `admit` refuses. -/
theorem admitIngress_eq_none_iff (ruled : db.ingressLimitRules.find? f = some rule) :
    admitIngress ext db f now = none ↔ rule.maxJobs = 0 ∨ (rule.maxJobs : ℚ) ≤
      estimate ext (roll ((db.ingressBucket f).getD ⟨now, 0, 0⟩) now rule.windowDurationMs) now
        rule.windowDurationMs := by
  unfold admitIngress admitBucket
  simp only [ruled]
  by_cases paused : rule.maxJobs = 0
  · simp [paused]
  by_cases full : (rule.maxJobs : ℚ) ≤
      estimate ext (roll ((db.ingressBucket f).getD ⟨now, 0, 0⟩) now rule.windowDurationMs) now
        rule.windowDurationMs
  · simp [paused, full]
  · simp [paused, full]

/-- **The report reads the decision of `admit`.** -/
theorem ingress_agrees_of_ruled (zero : ext.roundF64 0 = 0)
    (ruled : db.ingressLimitRules.find? f = some rule) (accepted : rule.Accepted) :
    (∃ report, getIngressLimitStatus ext db now f = .ok report ∧ report.isThrottled = true) ↔
      admitIngress ext db f now = none := by
  have key : rule.facetPattern = f := Table.key_of_find? ruled
  have valid : validateFacet f = .ok () := key ▸ accepted.valid
  rw [admitIngress_eq_none_iff ruled]
  unfold getIngressLimitStatus
  simp only [valid, ruled, key, getU32_ok accepted.typed, bind, Except.bind]
  cases db.ingressBucket f with
  | none => simp [estimate_fresh zero]
  | some bucket => simp

end Reports

/-- **The status reports agree with enforcement** after every run. -/
theorem status_agrees {ext : Externals} {service : Service} {run : List Op}
    (zero : ext.roundF64 0 = 0) (typed : ∀ op ∈ run, op.LimitsTyped) (f : String) (now : ℤ) :
    StatusAgrees ext (dbAfter ext service run) f now := by
  have accepted : (dbAfter ext service run).Accepted := accepted_after typed
  have limited : (dbAfter ext service run).Limited := limited_after run
  constructor
  case dispatch =>
    intro row facet
    cases ruled : (dbAfter ext service run).rateLimitRules.find? f with
    | none =>
      have passes : blocked (dbAfter ext service run) now row = false := by
        unfold blocked
        rw [facet, Option.bind_some, ruled]
      rw [passes]
      exact iff_of_false (not_throttled_of_unruled ruled) nofun
    | some rule =>
      rw [blocked_eq facet ruled]
      exact throttled_iff_exhausted ruled (accepted.dispatch ruled) (limited f rule ruled).2
  case ingress =>
    cases ruled : (dbAfter ext service run).ingressLimitRules.find? f with
    | none => exact ingress_agrees_of_unruled ruled
    | some rule => exact ingress_agrees_of_ruled zero ruled (accepted.ingress ruled)

/-- Both limits of a facet used up, then both expired. -/
def usedUp : List Op :=
  [.upsertRateLimitRule (fun _ => 0)
      { facetPattern := "f", maxJobs := 1, windowDurationMs := 10 },
    .upsertIngressLimitRule (fun _ => 0)
      { facetPattern := "f", maxJobs := 1, windowDurationMs := 10 },
    .addJob (fun _ => 0) { name := "a", payload := [], rateLimitFacet := "f" },
    .getNextJob (fun _ => 0) { workerId := "w", queueNames := ["a"] }]

/-- The reports agree while the windows run and after they have expired. -/
theorem status_agrees_usedUp :
    StatusAgrees .unary (dbAfter .unary {} usedUp) "f" 9 ∧
      StatusAgrees .unary (dbAfter .unary {} usedUp) "f" 30 ∧
      ((getRateLimitStatus (dbAfter .unary {} usedUp) 9 "f").toOption.map
        GetRateLimitStatusResponse.isThrottled) = some true ∧
      ((getRateLimitStatus (dbAfter .unary {} usedUp) 30 "f").toOption.map
        GetRateLimitStatusResponse.isThrottled) = some false := by
  have typed : ∀ op ∈ usedUp, op.LimitsTyped := by
    simp [usedUp, Op.LimitsTyped, u32Max]
  exact ⟨status_agrees rfl typed "f" 9, status_agrees rfl typed "f" 30, by decide +kernel,
    by decide +kernel⟩

end AnvilMQ
