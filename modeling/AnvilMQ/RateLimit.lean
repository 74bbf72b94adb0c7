import AnvilMQ.IngressLimit

/-!
# Dispatch rate limits

`src/rate_limit.rs`: fixed-window limits on the claims of a facet.  `blocked` is
the predicate the claim query filters by, `consume` counts a claim in the same
transaction.
-/

namespace AnvilMQ

open Rust Relational

/-- The `blocked` predicate of the claim query: the job's facet has a rule that
is paused, or whose window is running and used up. -/
def blocked (db : Db) (now : ℤ) (job : JobRow) : Bool :=
  match job.rateLimitFacet.bind db.rateLimitRules.find? with
  | none => false
  | some rule =>
    decide (rule.maxJobs = 0) ||
      match db.rateLimitCounters.find? rule.facetPattern with
      | none => false
      | some counter =>
        decide (now < counter.windowExpiresAt) && decide (rule.maxJobs ≤ counter.currentCount)

/-- `consume`: count a claim of `job` at `now`, opening a new window when the
stored one has expired. -/
def consume (db : Db) (job : JobRow) (now : ℤ) : Db :=
  match job.rateLimitFacet.bind db.rateLimitRules.find? with
  | none => db
  | some rule =>
    let expiry := saturatingAdd now rule.windowDurationMs
    { db with
      rateLimitCounters := db.rateLimitCounters.upsert
        { facetKey := rule.facetPattern, currentCount := 1, windowExpiresAt := expiry }
        (fun counter => { counter with
          currentCount := if counter.windowExpiresAt ≤ now then 1 else counter.currentCount + 1
          windowExpiresAt := if counter.windowExpiresAt ≤ now then expiry
            else counter.windowExpiresAt }) fun _ => rfl }

/-- `GetRateLimitStatusResponse`. -/
structure GetRateLimitStatusResponse where
  facetKey : String
  currentCount : ℕ := 0
  maxJobs : ℕ := 0
  windowExpiresAt : ℤ := 0
  isThrottled : Bool := false
  ruleExists : Bool := false
  windowDurationMs : ℤ := 0
deriving DecidableEq

/-- `status`: the count of the running window; an expired or missing window counts nothing. -/
def getRateLimitStatus (db : Db) (now : ℤ) (facetKey : String) :
    Except Status GetRateLimitStatusResponse := do
  validateFacet facetKey
  match db.rateLimitRules.find? facetKey with
  | none => .ok { facetKey := facetKey }
  | some rule =>
    let counter := db.rateLimitCounters.find? rule.facetPattern
    let maxJobs ← getU32 0 rule.maxJobs
    let stored ← getU32 2 ((counter.map RateLimitCounter.currentCount).getD 0)
    let expires := (counter.map RateLimitCounter.windowExpiresAt).getD 0
    let count := if now < expires then stored else 0
    .ok
      { facetKey := facetKey
        currentCount := count
        maxJobs := maxJobs
        windowExpiresAt := if now < expires then expires else 0
        isThrottled := decide (maxJobs = 0) || decide (maxJobs ≤ count)
        ruleExists := true
        windowDurationMs := rule.windowDurationMs }

/-- `upsert`: create or replace a rule and reset its usage. -/
def upsertRateLimitRule (db : Db) (clock : Clock) (req : UpsertLimitRuleRequest) :
    Except Status Db := do
  validateFacet req.facetPattern
  if req.windowDurationMs ≤ 0 then
    .error (.invalidArgument "window_duration_ms must be positive")
  else
    match checkedAdd (clock 0) req.windowDurationMs with
    | none => .error (.invalidArgument "window timestamp overflows")
    | some _ =>
      .ok { db with
        rateLimitRules := db.rateLimitRules.upsert
          { facetPattern := req.facetPattern
            maxJobs := req.maxJobs
            windowDurationMs := req.windowDurationMs }
          (fun rule => { rule with
            maxJobs := req.maxJobs
            windowDurationMs := req.windowDurationMs }) req.keeps_facet
        rateLimitCounters := db.rateLimitCounters.erase req.facetPattern }

/-- `delete`: remove a rule and its counter; returns whether the rule existed. -/
def deleteRateLimitRule (db : Db) (facetKey : String) : Except Status (Bool × Db) := do
  validateFacet facetKey
  .ok (decide (db.rateLimitRules.Has facetKey), { db with
    rateLimitRules := db.rateLimitRules.erase facetKey
    rateLimitCounters := db.rateLimitCounters.erase facetKey })

end AnvilMQ
