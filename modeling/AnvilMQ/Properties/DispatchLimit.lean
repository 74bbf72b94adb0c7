import AnvilMQ.Ledger.Lifecycle
import AnvilMQ.Ledger.Margins
import AnvilMQ.Ledger.Refinement
import AnvilMQ.Limiter.FixedWindow

/-!
# Dispatch rate limits

A dispatch rule is a fixed-window limiter on the claims of a facet.  The claim query
skips the jobs whose limiter is exhausted and the claim charges the limiter of the job
it takes, both with one reading of the clock and in one transaction, so the claims of a
facet are charges its limiter has let through.  An upsert of the rule, even with the
same values, throws the counter away; the bounds are about the time between.
-/

namespace AnvilMQ

open Rust Relational Transition FixedWindow

/-! ## The limiter of a facet -/

/-- The stored window of a facet. -/
def windowOf (db : Db) (f : String) : Option Counter :=
  (db.rateLimitCounters.find? f).map fun counter =>
    ⟨counter.currentCount, counter.windowExpiresAt⟩

section Limiter

variable {service : Service} {db : Db} {job : JobRow} {rule : LimitRule} {f : String} {now : ℤ}

/-- The claim query skips a job of a ruled facet when the limiter is exhausted. -/
theorem blocked_eq (facet : job.rateLimitFacet = some f)
    (ruled : db.rateLimitRules.find? f = some rule) :
    blocked db now job = exhausted rule.maxJobs (windowOf db f) now := by
  unfold blocked exhausted windowOf
  rw [facet, Option.bind_some, ruled]
  simp only [Table.key_of_find? ruled]
  cases db.rateLimitCounters.find? f with
  | none => rfl
  | some counter => rfl

/-- The claim of a job of a ruled facet charges the limiter. -/
theorem windowOf_consume (facet : job.rateLimitFacet = some f)
    (ruled : db.rateLimitRules.find? f = some rule) :
    windowOf (consume db job now) f =
      some (charge (saturatingAdd now rule.windowDurationMs) now (windowOf db f)) := by
  unfold consume windowOf
  rw [facet, Option.bind_some, ruled]
  simp only [Table.key_of_find? ruled, Table.find?_upsert, if_true]
  cases db.rateLimitCounters.find? f with
  | none => rfl
  | some counter =>
    simp only [Option.elim_some, Option.map_some, charge]
    split <;> rfl

/-- The claim of another job does not. -/
theorem windowOf_consume_of_ne (other : job.rateLimitFacet ≠ some f) :
    windowOf (consume db job now) f = windowOf db f := by
  unfold consume
  cases facet : job.rateLimitFacet with
  | none => rfl
  | some g =>
    rw [Option.bind_some]
    cases ruled : db.rateLimitRules.find? g with
    | none => rfl
    | some rule =>
      have apart : f ≠ g := fun same => other (by rw [facet, same])
      unfold windowOf
      simp only [Table.key_of_find? ruled, Table.find?_upsert, if_neg apart]

theorem windowOf_leaseTo {workerId : String} :
    windowOf (leaseTo service db job workerId now) f = windowOf db f := by
  unfold leaseTo recordDispatch
  split <;> rfl

/-- A job the claim query selects is not blocked. -/
theorem not_blocked_of_selectNext {queueNames : List String}
    (selected : selectNext service db now queueNames = some job) : blocked db now job = false := by
  have mem := (List.mem_filter.mp (mem_of_firstBy selected)).2
  simpa using (Bool.and_eq_true _ _ |>.mp mem).2

end Limiter

/-! ## Claims of a facet -/

section Runs

variable (ext : Externals) (service : Service)

/-- The claim of a job of facet `f` by the operation after a run, if it makes one: the
reading the claim is decided at, and whether it opens a window. -/
def dispatchOf (f : String) (run : List Op) (op : Op) : List Charge :=
  match op, replyTo ext service run op with
  | .getNextJob clock _, some (.claimed (some job)) =>
    if ((dbAfter ext service run).jobs.find? job.id).bind JobRow.rateLimitFacet = some f then
      [⟨clock 0, !running (windowOf (dbAfter ext service run) f) (clock 0)⟩]
    else []
  | _, _ => []

/-- The claims of a facet in the part `more` of a run. -/
def dispatches (f : String) (before more : List Op) : List Charge :=
  collect (dispatchOf ext service f) before more

/-- An operation on the rule of a facet. -/
def Op.SetsRule (f : String) : Op → Prop
  | upsertRateLimitRule _ req => req.facetPattern = f
  | deleteRateLimitRule facetKey => facetKey = f
  | _ => False

/-- The operation after a run leaves the rule of a facet in place. -/
def KeepsRule (f : String) (run : List Op) (op : Op) : Prop :=
  op.SetsRule f → Refused ext service run op

/-- **The dispatch rate limit of a facet** over the part `more` of a run. -/
structure DispatchLimited (f : String) (rule : LimitRule) (before more : List Op) : Prop where
  /-- The stored count is at most the limit. -/
  counted : ∀ counter,
    (dbAfter ext service (before ++ more)).rateLimitCounters.find? f = some counter →
      counter.currentCount ≤ rule.maxJobs
  /-- At most that many claims happen from the start of a window to its reset. -/
  windowed : ∀ segment, segment <:+: dispatches ext service f before more → OneWindow segment →
    segment.length ≤ rule.maxJobs
  /-- A limit of zero pauses the facet. -/
  paused : rule.maxJobs = 0 → dispatches ext service f before more = []
  /-- With a clock that never goes back, a closed interval of the length of the window
  holds at most twice as many claims. -/
  spread : ClockAdvances more → ClockInRange more → ∀ a,
    (between a (a + rule.windowDurationMs) (dispatches ext service f before more)).length ≤
      2 * rule.maxJobs

variable {ext service} {f : String} {rule : LimitRule} {run : List Op} {op : Op}

theorem dispatchOf_eq_nil (unpolled : ∀ clock req, op ≠ .getNextJob clock req) :
    dispatchOf ext service f run op = [] := by
  cases op with
  | getNextJob clock req => exact absurd rfl (unpolled clock req)
  | _ => rfl

/-! ## One operation -/

/-- The rule of a facet after the write of an upsert. -/
theorem find?_upsert_rule (rules : Table LimitRule.facetPattern) (req : UpsertLimitRuleRequest)
    (f : String) :
    (rules.upsert ⟨req.facetPattern, req.maxJobs, req.windowDurationMs⟩
      (fun rule => { rule with
        maxJobs := req.maxJobs
        windowDurationMs := req.windowDurationMs }) req.keeps_facet).find? f =
      if f = req.facetPattern then some ⟨req.facetPattern, req.maxJobs, req.windowDurationMs⟩
      else rules.find? f := by
  rw [Table.find?_upsert]
  split
  · rename_i here
    cases found : rules.find? f with
    | none => rfl
    | some rule =>
      have key : rule.facetPattern = req.facetPattern := (Table.key_of_find? found).trans here
      simp only [Option.elim_some, key]
  · rfl

/-- A committed upsert stores its rule and resets the window of its facet only. -/
theorem upsertRateLimitRule_ok {db db' : Db} {clock : Clock} {req : UpsertLimitRuleRequest}
    (ok : upsertRateLimitRule db clock req = .ok db') (f : String) :
    0 < req.windowDurationMs ∧
      db'.rateLimitRules.find? f = (if f = req.facetPattern then
        some ⟨req.facetPattern, req.maxJobs, req.windowDurationMs⟩
        else db.rateLimitRules.find? f) ∧
      windowOf db' f = if f = req.facetPattern then none else windowOf db f := by
  obtain ⟨positive, rfl⟩ := upsertRateLimitRule_eq ok
  unfold windowOf
  rw [Table.find?_erase]
  refine ⟨positive, find?_upsert_rule _ req f, ?_⟩
  split <;> rfl

/-- A committed delete drops the rule and the window of its facet only. -/
theorem deleteRateLimitRule_ok {db db' : Db} {key : String} {deleted : Bool}
    (ok : deleteRateLimitRule db key = .ok (deleted, db')) (f : String) :
    db'.rateLimitRules.find? f = (if f = key then none else db.rateLimitRules.find? f) ∧
      windowOf db' f = if f = key then none else windowOf db f := by
  rw [deleteRateLimitRule_eq ok]
  unfold windowOf
  rw [Table.find?_erase, Table.find?_erase]
  refine ⟨rfl, ?_⟩
  split <;> rfl

/-- A request about the rules that leaves the rule of a facet leaves its window. -/
theorem rules_keep (rules : op.RulesDispatch) (kept : KeepsRule ext service f run op) :
    (dbAfter ext service (run ++ [op])).rateLimitRules.find? f =
        (dbAfter ext service run).rateLimitRules.find? f ∧
      windowOf (dbAfter ext service (run ++ [op])) f = windowOf (dbAfter ext service run) f := by
  by_cases refused : Refused ext service run op
  · rw [not_not.mp refused.2]
    exact ⟨rfl, rfl⟩
  have other : ¬ op.SetsRule f := fun sets => refused (kept sets)
  cases op with
  | upsertRateLimitRule clock req =>
    rcases transact_cases ext service run (.upsertRateLimitRule clock req) rfl with
      here | ⟨db', ok, -, after⟩
    · exact absurd here refused
    · have stored := (upsertRateLimitRule_ok ok f).2
      rw [if_neg (Ne.symm other), if_neg (Ne.symm other)] at stored
      rw [after]
      exact stored
  | deleteRateLimitRule key =>
    rcases transact_cases ext service run (.deleteRateLimitRule key) rfl with
      here | ⟨⟨deleted, db'⟩, ok, -, after⟩
    · exact absurd here refused
    · have dropped := deleteRateLimitRule_ok ok f
      rw [if_neg (Ne.symm other), if_neg (Ne.symm other)] at dropped
      rw [after]
      exact dropped
  | _ => exact rules.elim

/-- A rule stays in place under every operation that keeps it. -/
theorem ruled_after (kept : KeepsRule ext service f run op) :
    (dbAfter ext service (run ++ [op])).rateLimitRules.find? f =
      (dbAfter ext service run).rateLimitRules.find? f := by
  by_cases rules : op.RulesDispatch
  · exact (rules_keep rules kept).1
  · rw [rateLimitRules_after ext service run rules]

/-- **What an operation does to a limiter whose rule it keeps**: nothing, or one
charge, which is the claim of a job of the facet. -/
theorem limiter_step (ruled : (dbAfter ext service run).rateLimitRules.find? f = some rule)
    (kept : KeepsRule ext service f run op) :
    (dispatchOf ext service f run op = [] ∧
      windowOf (dbAfter ext service (run ++ [op])) f = windowOf (dbAfter ext service run) f) ∨
    ∃ clock, op.clock? = some clock ∧
      exhausted rule.maxJobs (windowOf (dbAfter ext service run) f) (clock 0) = false ∧
      dispatchOf ext service f run op =
        [⟨clock 0, !running (windowOf (dbAfter ext service run) f) (clock 0)⟩] ∧
      windowOf (dbAfter ext service (run ++ [op])) f =
        some (charge (saturatingAdd (clock 0) rule.windowDurationMs) (clock 0)
          (windowOf (dbAfter ext service run) f)) := by
  by_cases polls : ∃ clock req, op = .getNextJob clock req
  · obtain ⟨clock, req, rfl⟩ := polls
    rcases transact_cases ext service run (.getNextJob clock req) rfl with
      ⟨unanswered, unchanged⟩ | ⟨⟨job, db', calls⟩, ok, answered, after⟩
    · refine .inl ⟨?_, by rw [not_not.mp unchanged]⟩
      unfold dispatchOf
      rw [unanswered]
    rcases getNextJob_cases ok with ⟨rfl, rfl, -⟩ | ⟨row, selected, -, rfl, -, rfl⟩
    · refine .inl ⟨?_, by rw [after]⟩
      unfold dispatchOf
      rw [answered]
    have live : (dbAfter ext service run).jobs.find? (claimedJob service row (clock 1)).id =
        some row := (selectNext_some selected).1
    have window : windowOf (dbAfter ext service (run ++ [.getNextJob clock req])) f =
        windowOf (consume (dbAfter ext service run) row (clock 0)) f := by
      rw [after]
      exact windowOf_leaseTo
    rw [window]
    unfold dispatchOf
    rw [answered]
    simp only [live, Option.bind_some]
    by_cases facet : row.rateLimitFacet = some f
    · have free := not_blocked_of_selectNext selected
      rw [blocked_eq facet ruled] at free
      exact .inr ⟨clock, rfl, free, if_pos facet, windowOf_consume facet ruled⟩
    · exact .inl ⟨if_neg facet, windowOf_consume_of_ne facet⟩
  · have unpolled : ∀ clock req, op ≠ .getNextJob clock req :=
      fun clock req same => polls ⟨clock, req, same⟩
    refine .inl ⟨dispatchOf_eq_nil unpolled, ?_⟩
    by_cases rules : op.RulesDispatch
    · exact (rules_keep rules kept).2
    · unfold windowOf
      rw [rateLimitCounters_after ext service run rules unpolled]

/-! ## Runs -/

/-- The stored counts stay within the limits, and windows have a length. -/
def Db.Limited (db : Db) : Prop :=
  ∀ f rule, db.rateLimitRules.find? f = some rule →
    0 < rule.windowDurationMs ∧ used (windowOf db f) ≤ rule.maxJobs

theorem Db.Limited.empty : Db.empty.Limited := fun _ _ ruled => by cases ruled

/-- A rule that has just been set has an unused window. -/
theorem limited_of_sets (sets : op.SetsRule f) (answered : ¬ Refused ext service run op)
    (ruled : (dbAfter ext service (run ++ [op])).rateLimitRules.find? f = some rule) :
    0 < rule.windowDurationMs ∧
      used (windowOf (dbAfter ext service (run ++ [op])) f) ≤ rule.maxJobs := by
  cases op with
  | upsertRateLimitRule clock req =>
    rcases transact_cases ext service run (.upsertRateLimitRule clock req) rfl with
      here | ⟨db', ok, -, after⟩
    · exact absurd here answered
    · have here : f = req.facetPattern := Eq.symm sets
      obtain ⟨positive, stored, reset⟩ := upsertRateLimitRule_ok ok f
      rw [after] at ruled ⊢
      rw [if_pos here] at stored reset
      cases stored.symm.trans ruled
      rw [reset]
      exact ⟨positive, Nat.zero_le _⟩
  | deleteRateLimitRule key =>
    rcases transact_cases ext service run (.deleteRateLimitRule key) rfl with
      here | ⟨⟨deleted, db'⟩, ok, -, after⟩
    · exact absurd here answered
    · have gone := (deleteRateLimitRule_ok ok f).1
      rw [if_pos (Eq.symm sets)] at gone
      rw [after] at ruled
      cases gone.symm.trans ruled
  | _ => exact sets.elim

/-- In every state of a run the counts are within their rules. -/
theorem limited_after (run : List Op) : (dbAfter ext service run).Limited := by
  induction run using List.reverseRecOn with
  | nil => exact .empty
  | append_singleton run op ih =>
    intro f rule ruled
    by_cases kept : KeepsRule ext service f run op
    · rw [ruled_after kept] at ruled
      refine ⟨(ih f rule ruled).1, ?_⟩
      rcases limiter_step ruled kept with ⟨-, same⟩ | ⟨clock, -, free, -, charged⟩
      · rw [same]
        exact (ih f rule ruled).2
      · rw [charged]
        exact count_charge_le _ free
    · obtain ⟨sets, answered⟩ := Classical.not_imp.mp kept
      exact limited_of_sets sets answered ruled

section Period

variable {before more : List Op}
  (ruled : (dbAfter ext service before).rateLimitRules.find? f = some rule)
  (kept : Along (fun pre op => KeepsRule ext service f (before ++ pre) op) more)

include ruled kept

theorem ruled_along :
    (dbAfter ext service (before ++ more)).rateLimitRules.find? f = some rule := by
  induction more using List.reverseRecOn with
  | nil => rwa [List.append_nil]
  | append_singleton more op ih =>
    obtain ⟨earlier, last⟩ := along_concat.mp kept
    rw [← List.append_assoc, ruled_after last]
    exact ih earlier

/-- **The claims of a facet are charges of its limiter** while its rule is in place. -/
theorem charges_after :
    Charges rule.maxJobs (fun now => saturatingAdd now rule.windowDurationMs)
      (windowOf (dbAfter ext service before) f) (dispatches ext service f before more)
      (windowOf (dbAfter ext service (before ++ more)) f) := by
  induction more using List.reverseRecOn with
  | nil =>
    rw [List.append_nil]
    exact .nil
  | append_singleton more op ih =>
    obtain ⟨earlier, last⟩ := along_concat.mp kept
    unfold dispatches
    rw [collect_concat, ← List.append_assoc]
    rcases limiter_step (ruled_along ruled earlier) last with
      ⟨idle, same⟩ | ⟨clock, -, free, charged, window⟩
    · rw [idle, same, List.append_nil]
      exact ih earlier
    · rw [charged, window]
      exact (ih earlier).concat free

end Period

/-- A claim of a facet is made at the first reading of an operation of the run. -/
theorem clock_of_mem_dispatchOf {c : Charge} (mem : c ∈ dispatchOf ext service f run op) :
    ∃ clock ∈ op.clock?, c.time = clock 0 := by
  unfold dispatchOf at mem
  split at mem
  · split at mem
    · cases List.mem_singleton.mp mem
      exact ⟨_, rfl, rfl⟩
    · cases mem
  · cases mem

/-- A dispatch is charged at the first clock reading of its operation. -/
theorem clock_of_mem_dispatches {before more : List Op} {c : Charge}
    (mem : c ∈ dispatches ext service f before more) :
    ∃ op ∈ more, ∃ clock ∈ op.clock?, c.time = clock 0 := by
  induction more using List.reverseRecOn with
  | nil => cases mem
  | append_singleton more op ih =>
    unfold dispatches at mem
    rw [collect_concat] at mem
    rcases List.mem_append.mp mem with earlier | last
    · obtain ⟨other, here, reading⟩ := ih earlier
      exact ⟨other, List.mem_append_left _ here, reading⟩
    · exact ⟨op, List.mem_append_right _ (List.mem_singleton_self op),
        clock_of_mem_dispatchOf last⟩

/-- Dispatches are recorded in the order of their times. -/
theorem dispatches_sorted {before more : List Op} (advances : ClockAdvances more) :
    (dispatches ext service f before more).Pairwise fun x y => x.time ≤ y.time := by
  induction more using List.reverseRecOn with
  | nil => exact List.Pairwise.nil
  | append_singleton more op ih =>
    unfold dispatches
    rw [collect_concat]
    refine List.pairwise_append.mpr ⟨ih advances.of_concat, ?_, ?_⟩
    · -- an operation makes at most one claim
      unfold dispatchOf
      split
      · split
        · exact List.pairwise_singleton _ _
        · exact List.Pairwise.nil
      · exact List.Pairwise.nil
    · intro x earlier y last
      obtain ⟨other, here, clock, reads, time⟩ := clock_of_mem_dispatches earlier
      obtain ⟨clock', reads', time'⟩ := clock_of_mem_dispatchOf last
      rw [time, time']
      exact (List.pairwise_append.mp advances.across).2.2 other here op
        (List.mem_singleton_self op) clock reads clock' reads' 0 0

/-- **The dispatch rate limit holds while a rule stays in place.** -/
theorem dispatch_limited (ext : Externals) (service : Service) (f : String) (rule : LimitRule)
    (before more : List Op)
    (ruled : (dbAfter ext service before).rateLimitRules.find? f = some rule)
    (kept : Along (fun pre op => KeepsRule ext service f (before ++ pre) op) more) :
    DispatchLimited ext service f rule before more := by
  have charges := charges_after ruled kept
  obtain ⟨positive, fits⟩ := limited_after before f rule ruled
  refine ⟨fun counter found => ?_, fun segment within one => charges.window_le fits within one,
    fun zero => ?_, fun advances inRange a => ?_⟩
  · have within := charges.used_le fits
    unfold windowOf at within
    rwa [found] at within
  · rw [zero] at charges
    exact charges.eq_nil
  · -- below the largest `i64` the expiry does not saturate
    have below : ∀ c ∈ dispatches ext service f before more, c.time < i64Max := fun c mem => by
      obtain ⟨op, here, clock, reads, time⟩ := clock_of_mem_dispatches mem
      rw [time]
      exact inRange op here clock reads 0
    refine charges.interval_le fits (dispatches_sorted advances) ?_ ?_ ?_ a
    · intro x y le
      simp only [saturatingAdd, saturate]
      omega
    · intro c mem
      have := below c mem
      simp only [saturatingAdd, saturate]
      omega
    · intro x _ y mem expired
      have := below y mem
      simp only [saturatingAdd, saturate] at expired
      omega

end Runs

/-! ## A limited facet -/

section Samples

/-- A rule of one claim per second for the facet `f`, and two jobs of it. -/
def limitedFacet : List Op :=
  [.upsertRateLimitRule stopped { facetPattern := "f", maxJobs := 1, windowDurationMs := 1000 },
    .addJob stopped { name := "a", rateLimitFacet := "f" },
    .addJob stopped { name := "a", rateLimitFacet := "f" }]

/-- Two polls at once, and one when the window has expired. -/
def secondPolls : List Op :=
  [poll "a", poll "a", .getNextJob (fun _ => 1000) { workerId := "w", queueNames := ["a"] }]

theorem secondPolls_keep (before : List Op) :
    Along (fun pre op => KeepsRule .unary {} "f" (before ++ pre) op) secondPolls := by
  intro pre op le sets
  have here : op ∈ secondPolls := le.subset (by simp)
  simp only [secondPolls, poll, List.mem_cons, List.not_mem_nil, or_false] at here
  rcases here with rfl | rfl | rfl <;> exact sets.elim

/-- The second poll finds nothing, the third opens the next window: the interval from
the first claim to the second holds twice the limit. -/
theorem limited_facet_spread :
    DispatchLimited .unary {} "f" ⟨"f", 1, 1000⟩ limitedFacet secondPolls ∧
      dispatches .unary {} "f" limitedFacet secondPolls = [⟨0, true⟩, ⟨1000, true⟩] :=
  ⟨dispatch_limited .unary {} "f" ⟨"f", 1, 1000⟩ limitedFacet secondPolls (by decide +kernel)
    (secondPolls_keep limitedFacet), by decide +kernel⟩

end Samples

end AnvilMQ
