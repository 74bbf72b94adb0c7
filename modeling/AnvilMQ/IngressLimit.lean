import AnvilMQ.Store

/-!
# Ingress velocity limits

`src/ingress_limit.rs`: admission control by a sliding-window counter over two
adjacent fixed windows.  `admit` runs inside the enqueue transaction; on
admission it counts the job, on refusal it writes nothing.
-/

namespace AnvilMQ

open Rust Relational

/-- `validate`: a facet is an exact nonblank key without surrounding whitespace
or wildcards. -/
def validateFacet (key : String) : Except Status Unit :=
  if isBlank key || key != trim key || key.toList.any (fun c => c == '*' || c == '?') then
    .error (.invalidArgument
      "facet must be an exact nonblank key without surrounding whitespace or wildcards")
  else .ok ()

/-- `r.get::<_, u32>(column)`: an integer column read as a `u32`. -/
def getU32 (column value : ℕ) : Except Status ℕ :=
  if value ≤ u32Max then .ok value
  else .error (.internal
    ("Integer " ++ toString value ++ " out of range at index " ++ toString column))

/-! ## The bucket pair -/

/-- `roll`: advance the pair so that `now` falls inside the current window. -/
def roll (b : Bucket) (now w : ℤ) : Bucket :=
  let elapsed := now - b.start
  if w ≤ elapsed then
    if elapsed / w = 1 then { start := b.start + w, current := 0, previous := b.current }
    else { start := now - elapsed % w, current := 0, previous := 0 }
  else b

/-- `estimate`: the previous window counts in full at the start of the current one
and decays linearly to nothing at its end.  Every operation rounds to an `f64`. -/
def estimate (ext : Externals) (b : Bucket) (now w : ℤ) : ℚ :=
  let f := ext.roundF64
  let elapsedInCurrent := f (now - b.start : ℤ)
  let weight := max 0 (min 1 (f (f (f w - elapsedInCurrent) / f w)))
  f (f (f b.previous * weight) + f b.current)

/-- The admission decision on the bucket pair alone: the counted pair, or `none`
when the estimate has reached the limit. -/
def admitBucket (ext : Externals) (rule : LimitRule) (stored : Option Bucket) (now : ℤ) :
    Option Bucket :=
  if rule.maxJobs = 0 then none
  else
    let bucket := roll (stored.getD { start := now, current := 0, previous := 0 }) now
      rule.windowDurationMs
    if (rule.maxJobs : ℚ) ≤ estimate ext bucket now rule.windowDurationMs then none
    else some { bucket with current := bucket.current + 1 }

/-- The stored bucket pair of a facet. -/
def Db.ingressBucket (db : Db) (facet : String) : Option Bucket :=
  (db.ingressLimitCounters.find? facet).map IngressCounter.bucket

/-- `admit`: `none` refuses the enqueue, `some` carries the database with the
admission counted.  A facet without a rule is unrestricted. -/
def admitIngress (ext : Externals) (db : Db) (facet : String) (now : ℤ) : Option Db :=
  match db.ingressLimitRules.find? facet with
  | none => some db
  | some rule =>
    match admitBucket ext rule (db.ingressBucket facet) now with
    | none => none
    | some bucket =>
      some { db with
        ingressLimitCounters := db.ingressLimitCounters.upsert
          { facetKey := facet, bucket := bucket }
          (fun counter => { counter with bucket := bucket }) fun _ => rfl }

/-- `GetIngressLimitStatusResponse`. -/
structure GetIngressLimitStatusResponse where
  facetKey : String
  estimatedCount : ℕ := 0
  maxJobs : ℕ := 0
  windowDurationMs : ℤ := 0
  windowStartedAt : ℤ := 0
  isThrottled : Bool := false
  ruleExists : Bool := false
deriving DecidableEq

/-- `status`: the estimate at `now` of the stored pair, rolled in memory and not stored. -/
def getIngressLimitStatus (ext : Externals) (db : Db) (now : ℤ) (facetKey : String) :
    Except Status GetIngressLimitStatusResponse := do
  validateFacet facetKey
  match db.ingressLimitRules.find? facetKey with
  | none => .ok { facetKey := facetKey }
  | some rule =>
    let maxJobs ← getU32 0 rule.maxJobs
    let (estimated, windowStartedAt) :=
      match db.ingressBucket rule.facetPattern with
      | some stored =>
        let rolled := roll stored now rule.windowDurationMs
        (estimate ext rolled now rule.windowDurationMs, rolled.start)
      | none => (0, 0)
    .ok
      { facetKey := facetKey
        estimatedCount := (max 0 (min (u32Max : ℤ) (roundHalfAway estimated))).toNat
        maxJobs := maxJobs
        windowDurationMs := rule.windowDurationMs
        windowStartedAt := windowStartedAt
        isThrottled := decide (maxJobs = 0) || decide ((maxJobs : ℚ) ≤ estimated)
        ruleExists := true }

/-! ## Rules -/

/-- An upsert of a rule that exists keeps its key. -/
theorem UpsertLimitRuleRequest.keeps_facet (req : UpsertLimitRuleRequest) (rule : LimitRule) :
    ({ rule with
      maxJobs := req.maxJobs
      windowDurationMs := req.windowDurationMs } : LimitRule).facetPattern =
      rule.facetPattern := rfl

/-- `upsert`: create or replace a rule and reset its usage. -/
def upsertIngressLimitRule (db : Db) (clock : Clock) (req : UpsertLimitRuleRequest) :
    Except Status Db := do
  validateFacet req.facetPattern
  if req.windowDurationMs ≤ 0 then
    .error (.invalidArgument "window_duration_ms must be positive")
  else
    match checkedAdd (clock 0) req.windowDurationMs with
    | none => .error (.invalidArgument "window timestamp overflows")
    | some _ =>
      .ok { db with
        ingressLimitRules := db.ingressLimitRules.upsert
          { facetPattern := req.facetPattern
            maxJobs := req.maxJobs
            windowDurationMs := req.windowDurationMs }
          (fun rule => { rule with
            maxJobs := req.maxJobs
            windowDurationMs := req.windowDurationMs }) req.keeps_facet
        ingressLimitCounters := db.ingressLimitCounters.erase req.facetPattern }

/-- `delete`: remove a rule and its counter; returns whether the rule existed. -/
def deleteIngressLimitRule (db : Db) (facetKey : String) : Except Status (Bool × Db) := do
  validateFacet facetKey
  .ok (decide (db.ingressLimitRules.Has facetKey), { db with
    ingressLimitRules := db.ingressLimitRules.erase facetKey
    ingressLimitCounters := db.ingressLimitCounters.erase facetKey })

end AnvilMQ
