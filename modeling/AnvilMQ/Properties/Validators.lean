import AnvilMQ.Ledger.Refinement
import AnvilMQ.Ledger.Ticks

/-!
# Three validators of job options

The options of a job are checked in three places: `validate_and_prepare` for an enqueue,
`prepare_node` for a node of a flow, and the upsert of a scheduler, whose record is turned back
into a request when it fires.  The copies differ in which fields are optional and in what an
absent field stands for; they accept the same options.
-/

namespace AnvilMQ

open Rust Relational

/-- The `AddJobRequest` with the options of a flow node, without metadata. -/
def FlowOptions.standalone (options : FlowOptions) : AddJobRequest where
  name := options.name
  payload := options.payload
  priority := options.priority
  metadata := none
  maxAttempts := options.maxAttempts
  delayMs := options.delayMs
  rateLimitFacet := options.rateLimitFacet
  retryBackoffMs := options.retryBackoffMs
  retryBackoffMaxMs := options.retryBackoffMaxMs
  idempotencyKey := options.idempotencyKey
  retryJitter := options.retryJitter
  releaseOnFinish := false

/-- A place of a flow tree where one more node with the options is allowed: within the caps and
with a key that the tree has not used. -/
structure Placeable (maxFlowDepth maxFlowNodes depth : ℕ) (s : PrepareState)
    (options : FlowOptions) : Prop where
  height : depth ≤ maxFlowDepth
  room : s.out.length < maxFlowNodes
  unused : options.idempotencyKey ≠ "" → (options.name, options.idempotencyKey) ∉ s.seenKeys

/-- **The three validators agree.** -/
structure ValidatorsAgree (ext : Externals) (maxExecutionDepth : ℕ) : Prop where
  /-- A leaf of a flow is accepted when the request with the same options is. -/
  accepts : ∀ {t maxFlowDepth maxFlowNodes depth s options} (parentId : Option JobId),
    Placeable maxFlowDepth maxFlowNodes depth s options →
    ((∃ s', prepareNode ext t maxFlowDepth maxFlowNodes (.node options []) parentId depth s =
        .ok s') ↔
      ∃ prepared, validateAndPrepare ext maxExecutionDepth options.standalone = .ok prepared)
  /-- Both are then normalised alike. -/
  normalizes : ∀ {t maxFlowDepth maxFlowNodes depth s options} (parentId : Option JobId) {s'}
    {prepared}, Placeable maxFlowDepth maxFlowNodes depth s options →
    prepareNode ext t maxFlowDepth maxFlowNodes (.node options []) parentId depth s = .ok s' →
    validateAndPrepare ext maxExecutionDepth options.standalone = .ok prepared →
    ∃ node, s'.out = s.out ++ [node] ∧ node.options.maxAttempts = prepared.1.maxAttempts ∧
      node.options.retryBackoffMaxMs = prepared.1.retryBackoffMaxMs
  /-- Otherwise both are refused alike. -/
  refuses : ∀ {t maxFlowDepth maxFlowNodes depth s options} (parentId : Option JobId) {status},
    Placeable maxFlowDepth maxFlowNodes depth s options →
    (prepareNode ext t maxFlowDepth maxFlowNodes (.node options []) parentId depth s =
        .error status ↔
      validateAndPrepare ext maxExecutionDepth options.standalone = .error status)
  /-- A normalised request is accepted again and left as it is. -/
  again : ∀ {req prepared}, validateAndPrepare ext maxExecutionDepth req = .ok prepared →
    validateAndPrepare ext maxExecutionDepth prepared.1 = .ok prepared
  /-- The record an accepted upsert stores makes an acceptable request. -/
  upserted : ∀ {clock db req id next db' calls},
    upsertJobScheduler ext clock db req = .ok ((id, next), db', calls) →
    ∃ row, db'.jobSchedulers.find? id = some row ∧
      ∃ prepared, validateAndPrepare ext maxExecutionDepth (buildRequest row) = .ok prepared
  /-- So does every record of a reachable state. -/
  stored : ∀ {service run id row},
    (dbAfter ext service run).jobSchedulers.find? id = some row →
    ∃ prepared, validateAndPrepare ext maxExecutionDepth (buildRequest row) = .ok prepared

/-! ## Flow nodes -/

section Nodes

variable {ext : Externals} {maxExecutionDepth : ℕ}

/-- The checks of a request without metadata and without release are those of a node. -/
theorem validateAndPrepare_standalone (options : FlowOptions) :
    validateAndPrepare ext maxExecutionDepth options.standalone =
      (checkOptions options).map fun _ =>
        let normalized := { options.normalized.standalone with metadata := some {} }
        (normalized,
          if options.idempotencyKey = "" then none else some (ext.encodeToVec normalized)) := by
  unfold validateAndPrepare checkOptions
  simp only [FlowOptions.standalone, Option.getD_none, Nat.not_lt_zero, if_false, false_and,
    Bool.false_eq_true]
  split_ifs <;> rfl

/-- A node in an allowed place is prepared when its options are in order. -/
theorem prepareNode_leaf {t maxFlowDepth maxFlowNodes depth : ℕ} {s : PrepareState}
    {options : FlowOptions} (parentId : Option JobId)
    (placeable : Placeable maxFlowDepth maxFlowNodes depth s options) :
    prepareNode ext t maxFlowDepth maxFlowNodes (.node options []) parentId depth s =
      (checkOptions options).map fun _ =>
        { seenKeys :=
            if options.idempotencyKey = "" then s.seenKeys
            else (options.name, options.idempotencyKey) :: s.seenKeys
          out := s.out ++ [
            { id := ext.newV4 t s.uuids
              parentId := parentId
              options := options.normalized
              depth := depth
              pendingChildren := 0
              state := nodeState 0 options.delayMs }]
          uuids := s.uuids + 1 } := by
  have fresh : ¬ (options.idempotencyKey ≠ "" ∧
      (options.name, options.idempotencyKey) ∈ s.seenKeys) :=
    fun clash => placeable.unused clash.1 clash.2
  unfold prepareNode prepareHead
  rw [if_neg (not_lt.mpr placeable.height), if_neg (not_le.mpr placeable.room)]
  cases checkOptions options with
  | error status => rfl
  | ok _ =>
    simp only [if_neg fresh]
    rfl

end Nodes

/-! ## Normalised requests -/

theorem effectiveBackoffMax_idem (base cap : ℤ) :
    effectiveBackoffMax base (effectiveBackoffMax base cap) = effectiveBackoffMax base cap :=
  if_neg (effectiveBackoffMax_ne_zero base cap)

/-- Validation leaves its own result alone. -/
theorem validateAndPrepare_idem {ext : Externals} {maxExecutionDepth : ℕ} {req : AddJobRequest}
    {prepared : AddJobRequest × Option Bytes}
    (ok : validateAndPrepare ext maxExecutionDepth req = .ok prepared) :
    validateAndPrepare ext maxExecutionDepth prepared.1 = .ok prepared := by
  unfold validateAndPrepare at ok
  simp only [guard_eq_ok] at ok
  obtain ⟨key, release, delays, capped, jitter, depth, done⟩ := ok
  cases done
  have attempts : (if (if req.maxAttempts = 0 then 3 else req.maxAttempts) = 0 then 3
      else if req.maxAttempts = 0 then 3 else req.maxAttempts) =
        if req.maxAttempts = 0 then 3 else req.maxAttempts := by
    split_ifs <;> rfl
  have delays' : ¬ (req.delayMs < 0 ∨ req.retryBackoffMs < 0 ∨
      effectiveBackoffMax req.retryBackoffMs req.retryBackoffMaxMs < 0) := by
    simp only [not_or, not_lt] at delays capped ⊢
    exact ⟨delays.1, delays.2.1, delays.2.1.trans capped⟩
  unfold validateAndPrepare
  dsimp only
  rw [if_neg key, if_neg release, if_neg delays', effectiveBackoffMax_idem, if_neg capped,
    if_neg jitter, Option.getD_some, if_neg depth, attempts]

/-! ## Scheduler records -/

/-- The template a record was stored from, read back from its columns. -/
def JobSchedulerRow.template (row : JobSchedulerRow) : JobTemplate where
  name := row.jobName
  payload := row.payload
  priority := row.priority
  maxAttempts := row.maxAttempts
  retryBackoffMs := row.retryBackoffMs
  retryBackoffMaxMs := row.retryBackoffMaxMs
  retryJitter := row.retryJitter
  rateLimitFacet := row.rateLimitFacet

/-- The options of a record pass the checks of its upsert. -/
def JobSchedulerRow.Checked (row : JobSchedulerRow) : Prop := checkTemplate row.template = .ok ()

section Records

variable {ext : Externals} {service : Service} {db db' : Db} {run : List Op} {op : Op}
  {row : JobSchedulerRow} {id : String}

/-- The request of a checked record is in order: an absent base or cap reads as zero, and a cap
of zero as the default. -/
theorem JobSchedulerRow.Checked.wellFormed (checked : row.Checked) :
    (buildRequest row).WellFormed := by
  obtain ⟨jitter, base, cap, capped⟩ := checkTemplate_ok_iff.mp checked
  have base' : 0 ≤ row.retryBackoffMs.getD 0 := by
    cases given : row.retryBackoffMs with
    | none => exact le_rfl
    | some value => exact base value given
  have cap' : 0 ≤ row.retryBackoffMaxMs.getD 0 := by
    cases given : row.retryBackoffMaxMs with
    | none => exact le_rfl
    | some value => exact cap value given
  have unreleased : (buildRequest row).releaseOnFinish = true →
      (buildRequest row).idempotencyKey ≠ "" := Bool.noConfusion
  refine ⟨.inl rfl, unreleased, le_rfl, base', cap', ?_, ?_⟩
  · cases limit : row.retryBackoffMaxMs with
    | none => exact .inl (by simp [buildRequest, limit])
    | some value =>
      cases given : row.retryBackoffMs with
      | none => exact .inr (by simpa [buildRequest, limit, given] using cap')
      | some first =>
        exact .inr (by simpa [buildRequest, limit, given] using capped first given value limit)
  · cases given : row.retryJitter with
    | none => simp [buildRequest, given, F64.zero, F64.inUnitInterval]
    | some value => simpa [buildRequest, given] using jitter value given

/-- **A checked record makes an acceptable request.** -/
theorem JobSchedulerRow.Checked.accepted (checked : row.Checked) (ext : Externals)
    (maxExecutionDepth : ℕ) :
    ∃ prepared, validateAndPrepare ext maxExecutionDepth (buildRequest row) = .ok prepared := by
  rcases validateAndPrepare_of_wellFormed checked.wellFormed with ⟨deep, -⟩ | ⟨-, accepted⟩
  · exact absurd deep (Nat.not_lt_zero maxExecutionDepth)
  · exact accepted

/-- An accepted upsert has checked its template. -/
theorem checkTemplate_of_upsert {clock : Clock} {req : UpsertJobSchedulerRequest}
    {answer : (String × ℤ) × Db × List MetricCall} {template : JobTemplate}
    (given : req.template = some template)
    (ok : upsertJobScheduler ext clock db req = .ok answer) : checkTemplate template = .ok () := by
  obtain ⟨checked, spec, next, declares, -⟩ := upsertJobScheduler_ok_iff.mp ok
  cases given.symm.trans declares.given
  exact checkTemplate_ok_iff.mpr declares.options

/-- The record of an upsert carries the options of its template. -/
theorem find?_upsertScheduler (db : Db) (spec : JobSchedulerRow) :
    ∃ row, (upsertScheduler db spec).jobSchedulers.find? spec.id = some row ∧
      row.template = spec.template := by
  unfold upsertScheduler
  simp only [Table.find?_upsert, if_true]
  cases db.jobSchedulers.find? spec.id with
  | none => exact ⟨spec, rfl, rfl⟩
  | some old => exact ⟨_, rfl, rfl⟩

/-- **The record an accepted upsert stores is checked.** -/
theorem checked_of_upsert {clock : Clock} {req : UpsertJobSchedulerRequest} {next : ℤ}
    {calls : List MetricCall}
    (ok : upsertJobScheduler ext clock db req = .ok ((id, next), db', calls)) :
    ∃ row, db'.jobSchedulers.find? id = some row ∧ row.Checked ∧
      ∀ other, other ≠ id → db'.jobSchedulers.find? other = db.jobSchedulers.find? other := by
  obtain ⟨template, spec, given, -, rfl, -, rfl, -⟩ := upsertJobScheduler_ok ok
  obtain ⟨row, found, same⟩ := find?_upsertScheduler db (schedulerSpec (trim req.id)
    (trim template.name) (trim spec.cron) (trim spec.timezone) template next (clock 0))
  refine ⟨row, found, ?_, fun other apart => ?_⟩
  · unfold JobSchedulerRow.Checked
    rw [same]
    have checked : checkTemplate template = .ok () := checkTemplate_of_upsert given ok
    exact checked
  · unfold upsertScheduler
    rw [Table.find?_upsert]
    exact if_neg apart

/-- A tick keeps the records checked. -/
theorem fireAll_checked {t i : ℕ} {clock : Clock} {rows : List JobSchedulerRow}
    (stored : ∀ r ∈ rows, db.jobSchedulers.find? r.id = some r)
    (nodup : (rows.map JobSchedulerRow.id).Nodup)
    (checked : ∀ {id row}, db.jobSchedulers.find? id = some row → row.Checked)
    (found : (fireAll ext service t clock i db rows).2.1.jobSchedulers.find? id = some row) :
    row.Checked := by
  by_cases fired : ∃ a ∈ attempts ext service t clock i db rows, a.record.id = id ∧
      a.succeeded = true
  · obtain ⟨a, mem, rfl, succeeded⟩ := fired
    obtain ⟨job, next, -, advanced⟩ := find?_fireAll_of_fired stored nodup mem succeeded
    cases advanced.symm.trans found
    have before := stored a.record (attempts_spec stored nodup mem).1
    have kept := checked before
    exact kept
  · rw [find?_fireAll_of_unfired stored nodup] at found
    · exact checked found
    intro a mem own
    by_contra succeeded
    exact fired ⟨a, mem, own, by simpa using succeeded⟩

/-- **Every record of a reachable state is checked.** -/
theorem checked_after (run : List Op)
    (found : (dbAfter ext service run).jobSchedulers.find? id = some row) : row.Checked := by
  induction run using List.reverseRecOn generalizing id row with
  | nil => cases found
  | append_singleton run op ih =>
    by_cases quiet : ¬ op.RulesSchedule ∧ ∀ clock batchSize, op ≠ .runOnce clock batchSize
    · rw [jobSchedulers_after ext service run quiet.1 quiet.2] at found
      exact ih found
    cases op with
    | upsertJobScheduler clock req =>
      rcases transact_cases ext service run (.upsertJobScheduler clock req) rfl with
        ⟨-, unchanged⟩ | ⟨⟨⟨name, next⟩, db', calls⟩, ok, -, after⟩
      · rw [not_not.mp unchanged] at found
        exact ih found
      · obtain ⟨new, stored, checked, others⟩ := checked_of_upsert ok
        rw [after] at found
        by_cases own : id = name
        · subst own
          cases stored.symm.trans found
          exact checked
        · rw [others id own] at found
          exact ih found
    | deleteJobScheduler name =>
      rcases transact_cases ext service run (.deleteJobScheduler name) rfl with
        ⟨-, unchanged⟩ | ⟨⟨deleted, db', calls⟩, ok, -, after⟩
      · rw [not_not.mp unchanged] at found
        exact ih found
      · obtain ⟨rfl, -⟩ := deleteJobScheduler_ok ok
        rw [after, Table.find?_erase] at found
        split at found
        · cases found
        · exact ih found
    | runOnce clock batchSize =>
      rw [dbAfter_concat] at found
      exact fireAll_checked stored_of_selectDue selectDue_nodup ih found
    | _ => exact absurd ⟨fun rules => rules.elim, fun _ _ same => Op.noConfusion same⟩ quiet

end Records

/-- **The three validators agree** on the whole space of options. -/
theorem validators_agree (ext : Externals) (maxExecutionDepth : ℕ) :
    ValidatorsAgree ext maxExecutionDepth := by
  constructor
  case accepts =>
    intro t maxFlowDepth maxFlowNodes depth s options parentId placeable
    rw [prepareNode_leaf parentId placeable, validateAndPrepare_standalone]
    cases checkOptions options with
    | error status =>
      refine iff_of_false ?_ ?_
      · rintro ⟨s', never⟩
        cases never
      · rintro ⟨prepared, never⟩
        cases never
    | ok _ => exact iff_of_true ⟨_, rfl⟩ ⟨_, rfl⟩
  case normalizes =>
    intro t maxFlowDepth maxFlowNodes depth s options parentId s' prepared placeable prepares ok
    rw [prepareNode_leaf parentId placeable] at prepares
    rw [validateAndPrepare_standalone] at ok
    cases checked : checkOptions options with
    | error status =>
      rw [checked] at ok
      cases ok
    | ok _ =>
      rw [checked] at prepares ok
      cases prepares
      cases ok
      exact ⟨_, rfl, rfl, rfl⟩
  case refuses =>
    intro t maxFlowDepth maxFlowNodes depth s options parentId status placeable
    rw [prepareNode_leaf parentId placeable, validateAndPrepare_standalone]
    cases checkOptions options with
    | error other =>
      show Except.error other = Except.error status ↔ Except.error other = Except.error status
      simp only [Except.error.injEq]
    | ok _ =>
      refine iff_of_false ?_ ?_
      · intro never
        cases never
      · intro never
        cases never
  case again => exact validateAndPrepare_idem
  case upserted =>
    intro clock db req id next db' calls ok
    obtain ⟨row, found, checked, -⟩ := checked_of_upsert ok
    exact ⟨row, found, checked.accepted ext maxExecutionDepth⟩
  case stored =>
    intro service run id row found
    exact (checked_after run found).accepted ext maxExecutionDepth

end AnvilMQ
