import AnvilMQ.Properties.Quarantine

/-!
# Why an enqueue is refused

An `AddJobRequest` is refused on admission for one of five reasons.  They are stated here on the
request and the state it meets, apart from the code that finds them: the bucket pair of the facet
has reached its limit, the named parent is in neither table, the supplied depth is not the one
below the parent, the depth of the job exceeds the breaker, or its chain has reached the cap.

A request may have several of them at once, and which one it is answered with is decided by the
order of the checks: the ingress limit first, then the delay, which is no reason, then ancestry,
depth and chain.  A request whose key has a receipt is not judged at all.
-/

namespace AnvilMQ

open Rust Relational

/-! ## The five reasons -/

/-- The code a refusal for the reason is answered with. -/
def RejectionKind.code : RejectionKind → Code
  | ingressVelocity | circuitBreaker | chainQuarantine => .resourceExhausted
  | parentNotFound => .failedPrecondition
  | inconsistentDepth => .invalidArgument

/-- The facet takes no further job at `now`: its rule pauses it, or the estimate over its bucket
pair, rolled to `now`, has reached the limit.  Without a rule a facet is never full. -/
def FacetFull (ext : Externals) (db : Db) (now : ℤ) (facet : String) : Prop :=
  facet ≠ "" ∧ ∃ rule ∈ db.ingressLimitRules.find? facet, rule.maxJobs = 0 ∨
    (rule.maxJobs : ℚ) ≤ estimate ext
      (roll ((db.ingressBucket facet).getD { start := now, current := 0, previous := 0 }) now
        rule.windowDurationMs) now rule.windowDurationMs

/-- The chain has as many jobs as the cap allows; a cap of zero is none. -/
def ChainFull (service : Service) (db : Db) (trace : String) : Prop :=
  0 < service.maxChainSize ∧ service.maxChainSize ≤ chainCount db trace

instance (ext : Externals) (db : Db) (now : ℤ) (facet : String) :
    Decidable (FacetFull ext db now facet) := inferInstanceAs (Decidable (_ ∧ _))

instance (service : Service) (db : Db) (trace : String) :
    Decidable (ChainFull service db trace) := inferInstanceAs (Decidable (_ ∧ _))

namespace AddJobRequest

/-- The job the request names as its parent, the empty string for none. -/
def parent (req : AddJobRequest) : JobId := (req.metadata.getD {}).parentId

/-- The depth and the trace of the named parent, live or archived. -/
def parentLineage (req : AddJobRequest) (db : Db) : Option (ℤ × String) :=
  if req.parent = "" then none else db.lineage req.parent

/-- The depth of the job: one more than that of the parent, or the supplied one. -/
def depthIn (req : AddJobRequest) (db : Db) : ℤ :=
  ((req.parentLineage db).map fun lineage => lineage.1 + 1).getD req.suppliedDepth

/-- The trace of the job: that of the parent, the supplied one, or a fresh one. -/
def traceIn (req : AddJobRequest) (db : Db) (fresh : String) : String :=
  ((req.parentLineage db).map Prod.snd).getD
    (if (req.metadata.getD {}).traceId = "" then fresh else (req.metadata.getD {}).traceId)

section Reasons

variable (ext : Externals) (service : Service)

/-- **The reasons of a request** in a state, at `now` and with the trace id that would be
generated. -/
def HasReason (db : Db) (now : ℤ) (fresh : String) (req : AddJobRequest) : RejectionKind → Prop
  | .ingressVelocity => FacetFull ext db now req.rateLimitFacet
  | .parentNotFound => req.parent ≠ "" ∧ db.jobs.find? req.parent = none ∧
      db.jobHistory.find? req.parent = none
  | .inconsistentDepth => req.suppliedDepth ≠ 0 ∧
      ∃ lineage ∈ req.parentLineage db, (req.suppliedDepth : ℤ) ≠ lineage.1 + 1
  | .circuitBreaker => (service.maxExecutionDepth : ℤ) < req.depthIn db
  | .chainQuarantine => ChainFull service db (req.traceIn db fresh)

instance (db : Db) (now : ℤ) (fresh : String) (req : AddJobRequest) :
    ∀ kind, Decidable (req.HasReason ext service db now fresh kind)
  | .ingressVelocity => inferInstanceAs (Decidable (FacetFull _ _ _ _))
  | .parentNotFound => inferInstanceAs (Decidable (_ ∧ _))
  | .inconsistentDepth => inferInstanceAs (Decidable (_ ∧ _))
  | .circuitBreaker => inferInstanceAs (Decidable (_ < _))
  | .chainQuarantine => inferInstanceAs (Decidable (ChainFull _ _ _))

/-- The reason a request without a receipt is refused for.  An overflowing delay is found after
the ingress limit and before the rest, and is no reason. -/
def admissionReason (db : Db) (now : ℤ) (fresh : String) (req : AddJobRequest) :
    Option RejectionKind :=
  if req.HasReason ext service db now fresh .ingressVelocity then some .ingressVelocity
  else if checkedAdd now req.delayMs = none then none
  else [.parentNotFound, .inconsistentDepth, .circuitBreaker, .chainQuarantine].find? fun kind =>
    decide (req.HasReason ext service db now fresh kind)

/-- The reason a request is refused for: none if its key has a receipt, which is replayed or found
to be of another request. -/
def reason (db : Db) (now : ℤ) (fresh : String) (req : AddJobRequest) : Option RejectionKind :=
  if req.idempotencyKey ≠ "" ∧ (db.receiptFor req.name req.idempotencyKey).isSome = true then none
  else req.admissionReason ext service db now fresh

end Reasons

end AddJobRequest

/-! ## The judgement of an enqueue -/

/-- A refusal for an admission reason: the reason and the name of the refused job. -/
abbrev Refusal := RejectionKind × String

/-- The codes that only a refusal is answered with. -/
def Code.OfRefusal (code : Code) : Prop := code = .resourceExhausted ∨ code = .failedPrecondition

/-- **The outcome agrees with the refusal that is due**: the record has its kind and its name, and
the status its code; without one there is no record and no such status. -/
def Judged {α : Type} (outcome : Except EnqueueFailure α) : Option Refusal → Prop
  | some (kind, name) => ∃ status record, outcome = .error (.rejected status record name) ∧
      record.kind = kind ∧ status.code = kind.code
  | none => ∀ failure, outcome = .error failure →
      ∃ status, failure = .status status ∧ ¬ status.code.OfRefusal

section Judgement

variable {α β : Type} {ext : Externals} {service : Service} {t k : ℕ} {db : Db} {now : ℤ}
  {fresh : String} {req : AddJobRequest}

/-- A refusal ends the enqueue. -/
theorem Judged.bind {outcome : Except EnqueueFailure α} {refusal : Refusal}
    (judged : Judged outcome (some refusal)) (rest : α → Except EnqueueFailure β) :
    Judged (outcome >>= rest) (some refusal) := by
  obtain ⟨status, record, rfl, kind, code⟩ := judged
  exact ⟨status, record, rfl, kind, code⟩

/-- A check that is passed leaves the judgement to the rest. -/
theorem Judged.of_passed {outcome : Except EnqueueFailure α} {a : α} (passed : outcome = .ok a)
    {rest : α → Except EnqueueFailure β} {refusal : Option Refusal}
    (judged : Judged (rest a) refusal) : Judged (outcome >>= rest) refusal := by
  rw [passed]
  exact judged

theorem Judged.of_status {status : Status} (plain : ¬ status.code.OfRefusal) :
    Judged (.error (.status status) : Except EnqueueFailure α) none := by
  rintro failure ⟨⟩
  exact ⟨status, rfl, plain⟩

/-- What is said of an outcome that is no failure holds of every such outcome. -/
theorem Judged.of_accepted {a : α} {refusal : Option Refusal}
    (judged : Judged (.ok a : Except EnqueueFailure α) refusal) (b : β) :
    Judged (.ok b : Except EnqueueFailure β) refusal := by
  cases refusal with
  | none => rintro failure ⟨⟩
  | some refusal =>
    obtain ⟨status, record, failed, -⟩ := judged
    cases failed

theorem Judged.of_ok (a : α) : Judged (.ok a : Except EnqueueFailure α) none := by
  rintro failure ⟨⟩

/-- A full facet refuses the request. -/
theorem admitRequest_full (full : FacetFull ext db now req.rateLimitFacet) :
    Judged (admitRequest ext db req now) (some (.ingressVelocity, req.name)) := by
  obtain ⟨faceted, rule, ruled, reached⟩ := full
  have refused : admitIngress ext db req.rateLimitFacet now = none := by
    have counted : admitBucket ext rule (db.ingressBucket req.rateLimitFacet) now = none := by
      rw [admitBucket]
      split
      · rfl
      · rename_i unpaused
        exact if_pos (reached.resolve_left unpaused)
    rw [admitIngress, Option.mem_def.mp ruled]
    dsimp only
    rw [counted]
  rw [admitRequest, if_neg faceted, refused]
  exact ⟨_, _, rfl, rfl, rfl⟩

/-- Any other facet admits it, and ancestry and chains stay as they are. -/
theorem admitRequest_open (free : ¬ FacetFull ext db now req.rateLimitFacet) :
    ∃ db', admitRequest ext db req now = .ok db' ∧ db'.lineage = db.lineage ∧
      db'.chainCounters = db.chainCounters := by
  have admitted : ∃ db', admitRequest ext db req now = .ok db' := by
    rw [admitRequest]
    split
    · exact ⟨db, rfl⟩
    rename_i faceted
    rw [admitIngress]
    cases ruled : db.ingressLimitRules.find? req.rateLimitFacet with
    | none => exact ⟨db, rfl⟩
    | some rule =>
      have reached : ¬ (rule.maxJobs = 0 ∨ _) := fun reached =>
        free ⟨faceted, rule, ruled, reached⟩
      rw [not_or] at reached
      dsimp only
      rw [admitBucket, if_neg reached.1, if_neg reached.2]
      exact ⟨_, rfl⟩
  obtain ⟨db', ok⟩ := admitted
  obtain ⟨same, -⟩ := admitRequest_ok (t := 0) (k := 0) ok
  refine ⟨db', ok, ?_, congrArg Margins.chainCounters (admitRequest_margins ok)⟩
  funext id
  rw [Db.lineage, Db.lineage, same.jobs, same.jobHistory]

theorem parentLineage_of_parent (named : req.parent ≠ "") :
    req.parentLineage db = db.lineage req.parent := if_neg named

/-- A parent in neither table refuses the request. -/
theorem deriveLineage_missing
    (missing : req.HasReason ext service db now fresh .parentNotFound) :
    Judged (deriveLineage ext t k db req.name (req.metadata.getD {}))
      (some (.parentNotFound, req.name)) := by
  obtain ⟨named, live, archived⟩ := missing
  have unknown : db.lineage req.parent = none := by
    rw [Db.lineage, live, archived]
    rfl
  rw [AddJobRequest.parent] at named unknown
  rw [deriveLineage, if_neg named]
  dsimp only
  rw [unknown]
  exact ⟨_, _, rfl, rfl, rfl⟩

/-- A supplied depth that is not the one below the parent refuses it. -/
theorem deriveLineage_inconsistent
    (inconsistent : req.HasReason ext service db now fresh .inconsistentDepth) :
    Judged (deriveLineage ext t k db req.name (req.metadata.getD {}))
      (some (.inconsistentDepth, req.name)) := by
  obtain ⟨supplied, ⟨depth, trace⟩, known, wrong⟩ := inconsistent
  have named : req.parent ≠ "" := by
    intro root
    rw [AddJobRequest.parentLineage, if_pos root] at known
    cases known
  rw [parentLineage_of_parent named] at known
  rw [AddJobRequest.parent] at named known
  rw [AddJobRequest.suppliedDepth] at supplied wrong
  rw [deriveLineage, if_neg named]
  dsimp only
  rw [Option.mem_def.mp known]
  dsimp only
  rw [if_neg (not_or.mpr ⟨supplied, wrong⟩)]
  exact ⟨_, _, rfl, rfl, rfl⟩

/-- Otherwise the job gets its depth and its trace. -/
theorem deriveLineage_found
    (found : ¬ req.HasReason ext service db now fresh .parentNotFound)
    (consistent : ¬ req.HasReason ext service db now fresh .inconsistentDepth) :
    ∃ uuids, deriveLineage ext t k db req.name (req.metadata.getD {}) =
      .ok (req.depthIn db, req.traceIn db (ext.newV4 t k), uuids) := by
  rw [deriveLineage, AddJobRequest.depthIn, AddJobRequest.traceIn]
  by_cases root : req.parent = ""
  · rw [AddJobRequest.parentLineage, if_pos root]
    rw [AddJobRequest.parent] at root
    rw [if_pos root]
    by_cases untraced : (req.metadata.getD {}).traceId = ""
    · rw [if_pos untraced]
      exact ⟨k + 1, by simp [untraced, AddJobRequest.suppliedDepth]⟩
    · rw [if_neg untraced]
      exact ⟨k, by simp [untraced, AddJobRequest.suppliedDepth]⟩
  · rw [parentLineage_of_parent root]
    cases known : db.lineage req.parent with
    | none =>
      refine absurd ⟨root, ?_⟩ found
      rw [Db.lineage] at known
      cases live : db.jobs.find? req.parent with
      | none =>
        rw [live] at known
        exact ⟨rfl, Option.map_eq_none_iff.mp known⟩
      | some row =>
        rw [live] at known
        cases known
    | some lineage =>
      have agrees : req.suppliedDepth = 0 ∨ (req.suppliedDepth : ℤ) = lineage.1 + 1 := by
        by_contra neither
        rw [not_or] at neither
        refine consistent ⟨neither.1, lineage, ?_, neither.2⟩
        rw [parentLineage_of_parent root, known]
        rfl
      rw [AddJobRequest.parent] at root known
      rw [AddJobRequest.suppliedDepth] at agrees
      rw [if_neg root]
      dsimp only
      rw [known]
      dsimp only
      rw [if_pos agrees]
      exact ⟨k, rfl⟩

/-- A job deeper than the breaker is refused, any other passes. -/
theorem checkDepth_judged (maxExecutionDepth : ℕ) (name traceId : String)
    (parentId : Option JobId) (depth : ℤ) :
    ((maxExecutionDepth : ℤ) < depth →
      Judged (checkDepth maxExecutionDepth name traceId parentId depth)
        (some (.circuitBreaker, name))) ∧
    (¬ (maxExecutionDepth : ℤ) < depth →
      checkDepth maxExecutionDepth name traceId parentId depth = .ok ()) := by
  rw [checkDepth]
  refine ⟨fun deep => ?_, fun shallow => if_neg shallow⟩
  rw [if_pos deep]
  exact ⟨_, _, rfl, rfl, rfl⟩

/-- A job of a full chain is refused, any other is counted. -/
theorem checkChain_judged (name traceId : String) (parentId : Option JobId) (depth now : ℤ) :
    (ChainFull service db traceId →
      Judged (checkChain service.maxChainSize db name traceId parentId depth now)
        (some (.chainQuarantine, name))) ∧
    (¬ ChainFull service db traceId → ∃ db',
      checkChain service.maxChainSize db name traceId parentId depth now = .ok db') := by
  rw [checkChain]
  constructor
  · rintro ⟨capped, reached⟩
    rw [chainCount] at reached
    rw [if_neg capped.ne']
    dsimp only
    rw [if_pos reached]
    exact ⟨_, _, rfl, rfl, rfl⟩
  · intro free
    split
    · exact ⟨db, rfl⟩
    · rename_i capped
      have below : ¬ service.maxChainSize ≤ chainCount db traceId := fun reached =>
        free ⟨Nat.pos_of_ne_zero capped, reached⟩
      rw [chainCount] at below
      dsimp only
      rw [if_neg below]
      exact ⟨_, rfl⟩

/-- The statements at the end of an enqueue fail only for a constraint. -/
theorem statements_judged (db : Db) (req : AddJobRequest) (receiptRequest : Option Bytes)
    (row : JobRow) (now : ℤ) (finish : Db → β) :
    Judged (do
      let db ← dbFail (db.insertJob row)
      let db ← dbFail (writeReceipt db req receiptRequest row now)
      .ok (finish db)) none := by
  have internal : ∀ message, ¬ (Status.internal message).code.OfRefusal := by
    rintro message (code | code) <;> cases code
  rw [Db.insertJob]
  cases db.jobs.insert row with
  | none => exact .of_status (internal _)
  | some jobs =>
    cases receiptRequest with
    | none => exact .of_ok _
    | some original =>
      dsimp only [dbFail, bind, Except.bind, writeReceipt, Db.insertReceipt]
      cases db.enqueueReceipts.insert (enqueueReceipt req original row now) with
      | none => exact .of_status (internal _)
      | some receipts => exact .of_ok _

/-- **The admission core refuses a request exactly when it has a reason.** -/
theorem insertEnqueued_judged (ext : Externals) (service : Service) (t k : ℕ) (db : Db)
    (req : AddJobRequest) (receiptRequest : Option Bytes) (now : ℤ) :
    Judged (insertEnqueued ext service t k db req receiptRequest now)
      ((req.admissionReason ext service db now (ext.newV4 t (k + 1))).map (·, req.name)) := by
  rw [insertEnqueued, AddJobRequest.admissionReason]
  by_cases full : req.HasReason ext service db now (ext.newV4 t (k + 1)) .ingressVelocity
  · rw [if_pos full]
    exact (admitRequest_full full).bind _
  rw [if_neg full]
  obtain ⟨db₁, admitted, lineage, chains⟩ := admitRequest_open full
  -- the later checks see the ancestry and the chains of the state before
  have derives : deriveLineage ext t (k + 1) db₁ req.name (req.metadata.getD {}) =
      deriveLineage ext t (k + 1) db req.name (req.metadata.getD {}) := by
    rw [deriveLineage, deriveLineage, lineage]
  have counts : ∀ trace, ChainFull service db₁ trace ↔ ChainFull service db trace := fun trace => by
    rw [ChainFull, ChainFull, chainCount, chainCount, chains]
  refine .of_passed admitted ?_
  cases checkedAdd now req.delayMs with
  | none =>
    rw [if_pos rfl]
    exact .of_status fun code => by rcases code with code | code <;> cases code
  | some availableAt =>
    have inRange : ¬ (some availableAt = none) := Option.some_ne_none availableAt
    rw [if_neg inRange]
    dsimp only
    rw [derives]
    by_cases missing : req.HasReason ext service db now (ext.newV4 t (k + 1)) .parentNotFound
    · rw [List.find?_cons_of_pos (by simpa using missing)]
      exact (deriveLineage_missing missing).bind _
    rw [List.find?_cons_of_neg (by simpa using missing)]
    by_cases wrong : req.HasReason ext service db now (ext.newV4 t (k + 1)) .inconsistentDepth
    · rw [List.find?_cons_of_pos (by simpa using wrong)]
      exact (deriveLineage_inconsistent wrong).bind _
    rw [List.find?_cons_of_neg (by simpa using wrong)]
    obtain ⟨uuids, derived⟩ := deriveLineage_found (t := t) (k := k + 1) missing wrong
    refine .of_passed derived ?_
    by_cases deep : req.HasReason ext service db now (ext.newV4 t (k + 1)) .circuitBreaker
    · rw [List.find?_cons_of_pos (by simpa using deep)]
      exact ((checkDepth_judged _ _ _ _ _).1 deep).bind _
    rw [List.find?_cons_of_neg (by simpa using deep)]
    refine .of_passed ((checkDepth_judged _ _ _ _ _).2 deep) ?_
    by_cases crowded : req.HasReason ext service db now (ext.newV4 t (k + 1)) .chainQuarantine
    · rw [List.find?_cons_of_pos (by simpa using crowded)]
      exact ((checkChain_judged _ _ _ _ _).1 ((counts _).mpr crowded)).bind _
    rw [List.find?_cons_of_neg (by simpa using crowded)]
    obtain ⟨db₂, chained⟩ := (checkChain_judged req.name _
      (req.metadata.getD {}).parentColumn (req.depthIn db) now).2 ((counts _).not.mpr crowded)
    refine .of_passed chained ?_
    exact statements_judged db₂ req receiptRequest _ now _

/-- **So does `enqueue_one`**, where the request as it was sent has the reason. -/
theorem enqueueOne_judged {job : AddJobRequest × Option Bytes}
    (valid : validateAndPrepare ext service.maxExecutionDepth req = .ok job) (t k : ℕ) (db : Db)
    (now : ℤ) :
    Judged (enqueueOne ext service t k db job.1 job.2 now)
      ((req.reason ext service db now (ext.newV4 t (k + 1))).map (·, req.name)) := by
  obtain ⟨normalized, shape, rfl⟩ := validateAndPrepare_eq valid
  -- normalising leaves what the reasons are about
  have same : normalized.admissionReason ext service db now (ext.newV4 t (k + 1)) =
      req.admissionReason ext service db now (ext.newV4 t (k + 1)) := by
    rw [shape]
    rfl
  have name : normalized.name = req.name := by rw [shape]
  have key : normalized.idempotencyKey = req.idempotencyKey := by rw [shape]
  have judged : ∀ receiptRequest,
      Judged (insertEnqueued ext service t k db normalized receiptRequest now)
        ((req.admissionReason ext service db now (ext.newV4 t (k + 1))).map (·, req.name)) :=
    fun receiptRequest => by
      rw [← same, ← name]
      exact insertEnqueued_judged ext service t k db normalized receiptRequest now
  rw [AddJobRequest.reason]
  dsimp only
  by_cases unkeyed : req.idempotencyKey = ""
  · rw [if_pos unkeyed, if_neg fun registered => registered.1 unkeyed]
    exact judged none
  · rw [if_neg unkeyed, enqueueOne, name, key]
    cases registered : db.receiptFor req.name req.idempotencyKey with
    | none =>
      rw [if_neg (by simp)]
      exact judged _
    | some receipt =>
      rw [if_pos ⟨unkeyed, rfl⟩]
      dsimp only
      split
      · exact .of_status fun code => by rcases code with code | code <;> cases code
      · exact .of_ok _

end Judgement

end AnvilMQ
