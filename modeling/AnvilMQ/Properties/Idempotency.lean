import AnvilMQ.Properties.Conservation
import Mathlib.Data.Countable.Basic
import Mathlib.Data.FinEnum
import Mathlib.Data.Rat.Encodable
import Mathlib.Logic.Equiv.List

/-!
# Idempotent enqueues

A keyed enqueue leaves a receipt of its normalised request.  While the receipt
stands, the same request is answered from it and a different one is refused, and
no flow may create a node under its key.  A retained receipt goes only when its job
has left the database, and a `release_on_finish` receipt goes with its live job.
-/

namespace AnvilMQ

open Rust Relational Transition

/-- The answer to a request whose receipt is found. -/
def Receipt.replay (receipt : Receipt) : AddJobResponse :=
  { id := receipt.jobId, state := receipt.initialState, replayed := true }

/-- The refusal of a request that differs from the registered one. -/
def keyConflict : Status :=
  .alreadyExists "idempotency key was already used for a different enqueue request"

/-! ## The guarantees -/

section Statement

variable (ext : Externals) (service : Service)

/-- A bulk enqueue reaches the item `job` in the state `batch`, after the items
`before`: all requests were valid and these items went through. -/
structure Reaches (run : List Op) (clock : Clock) (requests : List AddJobRequest)
    (before : List (AddJobRequest × Option Bytes)) (job : AddJobRequest × Option Bytes)
    (batch : BatchOutcome) : Prop where
  size : requests.length ≤ maxBulkBatchSize
  valid : ∃ after, requests.mapM (validateAndPrepare ext service.maxExecutionDepth) =
    .ok (before ++ job :: after)
  reached : enqueueAll ext service run.length (clock 0) 0 0 (dbAfter ext service run) before =
    .ok batch

/-- **Idempotent enqueues**, at one point of a run. -/
structure EnqueueIdempotent (run : List Op) : Prop where
  /-- Every receipt records a normalised request. -/
  recorded : ∀ key receipt, (dbAfter ext service run).enqueueReceipts.find? key = some receipt →
    ∃ request, receipt.Records ext request
  /-- A valid keyed `AddJob` under a registered key is answered from the receipt or
  refused, and changes nothing. -/
  single : ∀ clock req normalized bytes receipt request,
    validateAndPrepare ext service.maxExecutionDepth req = .ok (normalized, some bytes) →
    (dbAfter ext service run).receiptFor req.name req.idempotencyKey = some receipt →
    receipt.Records ext request →
    servedNext ext service run (.addJob clock req) =
      (dbAfter ext service run,
        if normalized = request then .ok (.enqueued [receipt.replay], []) else .error keyConflict)
  /-- So is a keyed item of an `AddJobBulk` when the batch reaches it; the refusal is
  that of the whole batch. -/
  item : ∀ clock requests before req bytes batch receipt,
    Reaches ext service run clock requests before (req, some bytes) batch →
    batch.db.receiptFor req.name req.idempotencyKey = some receipt →
    ∃ request, receipt.Records ext request ∧
      (req = request →
        enqueueOne ext service run.length batch.uuids batch.db req (some bytes) (clock 0) =
            .ok { response := receipt.replay, calls := [], db := batch.db, uuids := batch.uuids } ∧
          ∀ responses, replyTo ext service run (.addJobBulk clock requests) =
            some (.enqueued responses) → responses[before.length]? = some receipt.replay) ∧
      (req ≠ request → servedNext ext service run (.addJobBulk clock requests) =
        (dbAfter ext service run, .error keyConflict))
  /-- A flow request that would create a node under a registered key is refused. -/
  flows : ∀ op options, options ∈ op.newNodes → options.idempotencyKey ≠ "" →
    ((dbAfter ext service run).receiptFor options.name options.idempotencyKey).isSome →
    Refused ext service run op
  /-- A retained receipt is removed only when its job is in neither table. -/
  retained : ∀ op key receipt,
    (dbAfter ext service run).enqueueReceipts.find? key = some receipt →
    receipt.releaseOnFinish = false →
    (dbAfter ext service (run ++ [op])).enqueueReceipts.find? key = some receipt ∨
      (¬ (dbAfter ext service (run ++ [op])).jobs.Has receipt.jobId ∧
        ¬ (dbAfter ext service (run ++ [op])).jobHistory.Has receipt.jobId)
  /-- The job of a `release_on_finish` receipt is live, and the receipt stands for
  exactly as long as it is. -/
  released : ∀ key receipt,
    (dbAfter ext service run).enqueueReceipts.find? key = some receipt →
    receipt.releaseOnFinish = true →
    (dbAfter ext service run).jobs.Has receipt.jobId ∧
      ∀ op, (dbAfter ext service (run ++ [op])).enqueueReceipts.find? key =
        if (dbAfter ext service (run ++ [op])).jobs.Has receipt.jobId then some receipt else none

end Statement

variable {ext : Externals} {service : Service} {l l' : Ledger} {e : Event}
  {before : List (AddJobRequest × Option Bytes)} {batch : BatchOutcome}
  {requests : List AddJobRequest} {request : AddJobRequest} {nodes : List PreparedNode}
  {calls : List MetricCall}

/-! ## The invariant of the receipts -/

/-- **The invariant of the receipts.** -/
structure Registered (ext : Externals) (l : Ledger) : Prop where
  sound : l.Sound ext
  drawn : ∀ {key receipt}, l.enqueueReceipts key = some receipt → l.Drawn ext receipt.jobId
  recorded : ∀ {key receipt}, l.enqueueReceipts key = some receipt →
    ∃ request, receipt.Records ext request
  releasing : ∀ {key receipt}, l.enqueueReceipts key = some receipt →
    receipt.releaseOnFinish = true → (l.jobs receipt.jobId).isSome

/-- A receipt after an event was written by it, or stood before and was neither
pruned nor released. -/
theorem Ledger.apply_enqueueReceipts {key : String × String} {receipt : Receipt}
    (found : (l.apply ext e).enqueueReceipts key = some receipt) :
    (e.registers = some receipt ∧ receipt.key = key) ∨
      (l.enqueueReceipts key = some receipt ∧ key ∉ e.prunes ∧ e.releases receipt = false) := by
  simp only [Ledger.apply] at found
  split at found
  · rename_i here
    rw [found] at here
    exact .inl ⟨found, Option.some.inj here⟩
  split at found
  · cases found
  rename_i kept
  obtain ⟨stood, stays⟩ := Option.filter_eq_some_iff.mp found
  exact .inr ⟨stood, fun mem => kept (List.contains_iff_mem.mpr mem), by simpa using stays⟩

/-- An event that archives a job releases its releasable receipts. -/
theorem Event.releases_of_retiredId {j : JobId} (retired : e.retiredId = some j)
    (receipt : Receipt) : e.releases receipt = Db.releasable j receipt := by
  cases e with
  | completed row entry parent now updatedAt n => cases retired; rfl
  | failed row entry cause n => cases retired; rfl
  | _ => cases retired

theorem Event.receipted_of_registers {receipt : Receipt} (registers : e.registers = some receipt) :
    ∃ request, e = .receipted receipt request := by
  cases e with
  | receipted written request => exact ⟨request, by rw [Option.some.inj registers]⟩
  | _ => cases registers

namespace Registered

theorem empty (ext : Externals) : Registered ext (Db.empty.ledger 0 0) where
  sound := .empty ext
  drawn := nofun
  recorded := nofun
  releasing := nofun

/-- **An enabled event keeps the invariant of the receipts.** -/
theorem step (step : Step ext l e l') (registered : Registered ext l) : Registered ext l' := by
  have sound := registered.sound.step step
  have mono : ∀ {j}, l.Drawn ext j → l'.Drawn ext j := step.drawn_mono
  obtain ⟨enabled, rfl⟩ := step
  constructor
  case sound => exact sound
  case drawn =>
    intro key receipt found
    rcases Ledger.apply_enqueueReceipts found with ⟨registers, -⟩ | ⟨stood, -, -⟩
    · obtain ⟨request, rfl⟩ := Event.receipted_of_registers registers
      obtain ⟨row, live⟩ := Option.isSome_iff_exists.mp enabled.2.1
      exact mono (registered.sound.drawn live)
    · exact mono (registered.drawn stood)
  case recorded =>
    intro key receipt found
    rcases Ledger.apply_enqueueReceipts found with ⟨registers, -⟩ | ⟨stood, -, -⟩
    · obtain ⟨request, rfl⟩ := Event.receipted_of_registers registers
      exact ⟨request, enabled.2.2⟩
    · exact registered.recorded stood
  case releasing =>
    intro key receipt found flag
    have live : (l.jobs receipt.jobId).isSome := by
      rcases Ledger.apply_enqueueReceipts found with ⟨registers, -⟩ | ⟨stood, -, -⟩
      · obtain ⟨request, rfl⟩ := Event.receipted_of_registers registers
        exact enabled.2.1
      · exact registered.releasing stood flag
    -- The job is still live: an event that archives it takes the receipt along.
    by_contra gone
    obtain ⟨row, alive⟩ := Option.isSome_iff_exists.mp live
    have retired := Ledger.retired_of_gone alive (Option.not_isSome_iff_eq_none.mp gone)
    rcases Ledger.apply_enqueueReceipts found with ⟨registers, -⟩ | ⟨-, -, kept⟩
    · obtain ⟨request, rfl⟩ := Event.receipted_of_registers registers
      cases retired
    · rw [Event.releases_of_retiredId retired, Db.releasable] at kept
      simp [flag] at kept

theorem of_chain {events : List Event} (chain : Chain (Step ext) l events l')
    (registered : Registered ext l) : Registered ext l' :=
  Chain.preserves (R := Step ext) Registered.step chain registered

end Registered

/-! ## Receipts along a chain -/

section Chains

variable {events : List Event} {key : String × String} {receipt : Receipt}

/-- A receipt stood before or was written on the way. -/
theorem stood_or_registers_of_chain (chain : Chain (Step ext) l events l')
    (found : l'.enqueueReceipts key = some receipt) :
    l.enqueueReceipts key = some receipt ∨ ∃ e ∈ events, e.registers = some receipt := by
  induction chain with
  | nil => exact .inl found
  | @cons l next final e events head rest ih =>
    rcases ih found with stood | ⟨e, mem, registers⟩
    · obtain ⟨-, rfl⟩ := head
      rcases Ledger.apply_enqueueReceipts stood with ⟨registers, -⟩ | ⟨stood, -, -⟩
      · exact .inr ⟨e, List.mem_cons_self, registers⟩
      · exact .inl stood
    · exact .inr ⟨e, List.mem_cons_of_mem _ mem, registers⟩

/-- A receipt stands after an event unless its job is archived by it or has left
the books. -/
theorem receipt_of_step (step : Step ext l e l') (found : l.enqueueReceipts key = some receipt) :
    l'.enqueueReceipts key = some receipt ∨
      (receipt.releaseOnFinish = true ∧ e.retiredId = some receipt.jobId) ∨
      (l.jobs receipt.jobId = none ∧ l.jobHistory receipt.jobId = none) := by
  obtain ⟨enabled, rfl⟩ := step
  cases e with
  | receipted written request =>
    left
    have other : written.key ≠ key := by
      rintro rfl
      cases enabled.1.symm.trans found
    simp [Ledger.apply, other, found]
  | receiptsPruned keys n =>
    by_cases pruned : key ∈ keys
    · exact .inr (.inr (enabled key pruned receipt found))
    · left
      simp [Ledger.apply, pruned, found]
  | completed row entry parent now updatedAt n =>
    by_cases released : Db.releasable row.id receipt = true
    · simp only [Db.releasable, Bool.and_eq_true, decide_eq_true_eq] at released
      exact .inr (.inl ⟨released.2, by simp [released.1]⟩)
    · left
      simp [Ledger.apply, released, found]
  | failed row entry cause n =>
    by_cases released : Db.releasable row.id receipt = true
    · simp only [Db.releasable, Bool.and_eq_true, decide_eq_true_eq] at released
      exact .inr (.inl ⟨released.2, by simp [released.1]⟩)
    · left
      simp [Ledger.apply, released, found]
  | _ =>
    left
    simp [Ledger.apply, found]

/-- A receipt stays, is released, or outlives its job. -/
theorem receipt_of_chain (chain : Chain (Step ext) l events l') (registered : Registered ext l)
    (found : l.enqueueReceipts key = some receipt) :
    l'.enqueueReceipts key = some receipt ∨
      (receipt.releaseOnFinish = true ∧ ∃ e ∈ events, e.retiredId = some receipt.jobId) ∨
      (l'.jobs receipt.jobId = none ∧ l'.jobHistory receipt.jobId = none) := by
  induction chain with
  | nil => exact .inl found
  | @cons l next final e events head rest ih =>
    rcases receipt_of_step head found with stands | ⟨flag, retired⟩ | ⟨gone, erased⟩
    · rcases ih (registered.step head) stands with stands | ⟨flag, e, mem, retired⟩ | gone
      · exact .inl stands
      · exact .inr (.inl ⟨flag, e, List.mem_cons_of_mem _ mem, retired⟩)
      · exact .inr (.inr gone)
    · exact .inr (.inl ⟨flag, e, List.mem_cons_self, retired⟩)
    · have whole := Chain.cons head rest
      have drawn := registered.drawn found
      refine .inr (.inr ⟨Ledger.Sound.gone_of_chain whole drawn gone, ?_⟩)
      rcases Ledger.Sound.archived_or_erased_of_chain whole drawn gone with same | forgotten
      · exact same.trans erased
      · exact forgotten

end Chains

/-! ## Enqueues under a registered key -/

/-- The encoding tells normalised requests apart. -/
def Externals.EncodesInjectively (ext : Externals) : Prop :=
  Set.InjOn ext.encodeToVec { req | req.Normalized }

section Enqueues

variable {db : Db} {t k : ℕ} {now : ℤ} {receipt : Receipt}

/-- `enqueue_one` under a registered key. -/
theorem enqueueOne_registered (injective : ext.EncodesInjectively) {req : AddJobRequest}
    {bytes : Bytes} (prepared : Prepared ext (req, some bytes))
    (used : db.receiptFor req.name req.idempotencyKey = some receipt)
    (records : receipt.Records ext request) :
    enqueueOne ext service t k db req (some bytes) now =
      if req = request then
        .ok { response := receipt.replay, calls := [], db := db, uuids := k }
      else .error (.status keyConflict) := by
  have encoded : bytes = ext.encodeToVec req := prepared.encoded bytes rfl
  have same : receipt.request ≠ bytes ↔ ¬ req = request := by
    rw [encoded, records.request, Ne, not_iff_not]
    constructor
    · exact fun equal => (injective records.normalized prepared.normalized equal).symm
    · exact fun equal => by rw [equal]
  simp only [enqueueOne, used, same, ite_not]
  rfl

/-- The batch loop on a list of items is the loop on its first part, then on the
rest. -/
theorem enqueueAll_append {rest : List (AddJobRequest × Option Bytes)} {index : ℕ}
    (first : enqueueAll ext service t now index k db before = .ok batch) :
    enqueueAll ext service t now index k db (before ++ rest) =
      match enqueueAll ext service t now (index + before.length) batch.uuids batch.db rest with
      | .error failure => .error failure
      | .ok more => .ok
          { responses := batch.responses ++ more.responses
            calls := batch.calls ++ more.calls
            db := more.db
            uuids := more.uuids } := by
  induction before generalizing index k db batch with
  | nil =>
    cases first
    rw [List.nil_append, List.length_nil, Nat.add_zero]
    cases enqueueAll ext service t now index k db rest <;> rfl
  | cons job others ih =>
    obtain ⟨out, batch', one, later, rfl⟩ := enqueueAll_cons_ok first
    obtain ⟨req, receiptRequest⟩ := job
    simp only [enqueueAll, List.cons_append, one]
    rw [ih later, List.length_cons, Nat.add_assoc, Nat.add_comm 1]
    cases enqueueAll ext service t now (index + (others.length + 1)) batch'.uuids batch'.db
        rest with
    | error failure => rfl
    | ok more => simp

theorem enqueueAll_length {jobs : List (AddJobRequest × Option Bytes)} {index : ℕ}
    (ok : enqueueAll ext service t now index k db jobs = .ok batch) :
    batch.responses.length = jobs.length := by
  induction jobs generalizing index k db batch with
  | nil =>
    cases ok
    rfl
  | cons job rest ih =>
    obtain ⟨out, others, -, later, rfl⟩ := enqueueAll_cons_ok ok
    rw [List.length_cons, List.length_cons, ih later]

end Enqueues

/-! ## Runs of enqueues -/

variable (ext service) in
theorem registered_after (run : List Op) :
    Registered ext ((dbAfter ext service run).ledger run.length 0) :=
  (Registered.empty ext).of_chain (history_chain ext service run)

section Runs

variable {run : List Op} {op : Op} {clock : Clock} {receipt : Receipt}

/-- `AddJob` under a registered key replays its receipt or is refused. -/
theorem addJob_registered (injective : ext.EncodesInjectively) {req normalized : AddJobRequest}
    {bytes : Bytes}
    (valid : validateAndPrepare ext service.maxExecutionDepth req = .ok (normalized, some bytes))
    (used : (dbAfter ext service run).receiptFor req.name req.idempotencyKey = some receipt)
    (records : receipt.Records ext request) :
    servedNext ext service run (.addJob clock req) =
      (dbAfter ext service run,
        if normalized = request then .ok (.enqueued [receipt.replay], [])
        else .error keyConflict) := by
  obtain ⟨prepared, name, key, -⟩ := validateAndPrepare_ok valid
  dsimp only at name key
  rw [← name, ← key] at used
  have one := @enqueueOne_registered ext service _ _ run.length 0 (clock 0) _ injective _ _
    prepared used records
  simp only [servedNext, serve, enqueue, valid, executeBatch, enqueueAll, one]
  by_cases same : normalized = request
  · simp [same, Except.map]
  · simp [same, Except.map]

/-- The receipts of a batch on its way are registered too. -/
theorem Reaches.registered {job : AddJobRequest × Option Bytes}
    (reaches : Reaches ext service run clock requests before job batch) :
    Prepared ext job ∧ ∃ slot, Registered ext (batch.db.ledger run.length slot) := by
  obtain ⟨after, valid⟩ := reaches.valid
  have prepared := mapM_validate_ok valid
  obtain ⟨slot, events, trace⟩ := enqueueAll_trace
    (fun job mem => prepared job (List.mem_append_left _ mem)) le_rfl reaches.reached
  exact ⟨prepared job (by simp), slot, (registered_after ext service run).of_chain trace.chain⟩

/-- A batch in terms of the item it has reached. -/
theorem Reaches.served {job : AddJobRequest × Option Bytes}
    (reaches : Reaches ext service run clock requests before job batch) :
    ∃ after, enqueueBulk ext service run.length clock (dbAfter ext service run) requests =
      executeBatch ext service run.length clock (dbAfter ext service run)
        (before ++ job :: after) true := by
  obtain ⟨after, valid⟩ := reaches.valid
  refine ⟨after, ?_⟩
  have filled : requests ≠ [] := by
    rintro rfl
    have impossible : before ++ job :: after = [] := (Except.ok.inj valid).symm
    simp at impossible
  rw [enqueueBulk, if_neg filled, if_neg (Nat.not_lt.mpr reaches.size), valid]

/-- An item of a batch under a registered key, likewise. -/
theorem bulk_registered (injective : ext.EncodesInjectively) {req : AddJobRequest} {bytes : Bytes}
    (reaches : Reaches ext service run clock requests before (req, some bytes) batch)
    (used : batch.db.receiptFor req.name req.idempotencyKey = some receipt)
    (records : receipt.Records ext request) :
    (req = request →
      enqueueOne ext service run.length batch.uuids batch.db req (some bytes) (clock 0) =
          .ok { response := receipt.replay, calls := [], db := batch.db, uuids := batch.uuids } ∧
        ∀ responses, replyTo ext service run (.addJobBulk clock requests) =
          some (.enqueued responses) → responses[before.length]? = some receipt.replay) ∧
    (req ≠ request → servedNext ext service run (.addJobBulk clock requests) =
      (dbAfter ext service run, .error keyConflict)) := by
  obtain ⟨prepared, -⟩ := reaches.registered
  obtain ⟨after, served⟩ := reaches.served
  have one := @enqueueOne_registered ext service _ _ run.length batch.uuids (clock 0) _ injective
    _ _ prepared used records
  have whole := @enqueueAll_append ext service _ _ _ _ _ _ ((req, some bytes) :: after) _
    reaches.reached
  constructor
  · intro same
    rw [if_pos same] at one
    refine ⟨one, fun responses replied => ?_⟩
    rw [replyTo, servedNext, serve, served, executeBatch, whole] at replied
    simp only [enqueueAll, one] at replied
    cases later : enqueueAll ext service run.length (clock 0) (0 + before.length + 1) batch.uuids
      batch.db after with
    | error failure =>
      obtain ⟨index, failure⟩ := failure
      rw [later] at replied
      cases failure <;> cases replied
    | ok more =>
      rw [later] at replied
      cases replied
      rw [← enqueueAll_length reaches.reached]
      simp
  · intro differs
    rw [if_neg differs] at one
    rw [servedNext, serve, served, executeBatch, whole]
    simp only [enqueueAll, one]
    rfl

end Runs

/-! ## Flows under a registered key -/

section Flows

variable {db db' : Db} {t k : ℕ} {place : Placement} {now : ℤ}

/-- A key is not registered. -/
def Db.Unregistered (db : Db) (options : FlowOptions) : Prop :=
  options.idempotencyKey ≠ "" → db.receiptFor options.name options.idempotencyKey = none

/-- An inserted node had no receipt before, and no receipt is dropped. -/
theorem insertNode_unregistered {node : PreparedNode}
    (ok : insertNode ext place now db node = .ok db') :
    db.Unregistered node.options ∧
      ∀ name key, db'.receiptFor name key = none → db.receiptFor name key = none := by
  obtain ⟨jobs, -, -, ⟨unkeyed, rfl⟩ | ⟨keyed, written⟩⟩ := insertNode_ok ok
  · refine ⟨fun named => ?_, fun _ _ => id⟩
    simp [PreparedNode.keyed, named] at unkeyed
  · obtain ⟨receipts, inserted, rfl⟩ := insertReceipt_ok written
    refine ⟨fun _ => Table.not_has_iff.mp (Table.not_has_of_insert inserted),
      fun name key free => ?_⟩
    simp only [Db.receiptFor, Table.find?_of_insert inserted] at free
    split at free
    · cases free
    · exact free

/-- An insertion loop that goes through found none of its keys registered. -/
theorem insertNodes_unregistered (ok : insertNodes ext place now db nodes = .ok db') :
    (∀ node ∈ nodes, db.Unregistered node.options) ∧
      ∀ name key, db'.receiptFor name key = none → db.receiptFor name key = none := by
  induction nodes generalizing db with
  | nil =>
    cases ok
    exact ⟨by simp, fun _ _ => id⟩
  | cons node rest ih =>
    simp only [insertNodes] at ok
    obtain ⟨db₁, first, ok⟩ := bind_eq_ok.mp ok
    obtain ⟨here, earlier⟩ := insertNode_unregistered first
    obtain ⟨there, still⟩ := ih ok
    refine ⟨fun other mem => ?_, fun name key free => earlier name key (still name key free)⟩
    rcases List.mem_cons.mp mem with rfl | later
    · exact here
    · exact fun named => earlier _ _ (there other later named)

/-- What holds of every node a request asks for, in terms of its options. -/
theorem unregistered_of_map {asked : List FlowOptions}
    (same : nodes.map PreparedNode.options = asked.map FlowOptions.normalized)
    (free : ∀ node ∈ nodes, db.Unregistered node.options) :
    ∀ options ∈ asked, db.Unregistered options := by
  intro options mem
  have here : options.normalized ∈ nodes.map PreparedNode.options :=
    same ▸ List.mem_map_of_mem mem
  obtain ⟨node, mem, eq⟩ := List.mem_map.mp here
  have unregistered := free node mem
  rw [eq] at unregistered
  exact unregistered

theorem insertPreparedTree_unregistered {response : AddFlowResponse}
    (ok : insertPreparedTree ext now db nodes = .ok (db', response)) :
    (∀ node ∈ nodes, db.Unregistered node.options) ∧
      ∀ name key, db'.receiptFor name key = none → db.receiptFor name key = none := by
  simp only [insertPreparedTree, bind_eq_ok] at ok
  obtain ⟨db₁, inserted, same⟩ := ok
  cases same
  exact insertNodes_unregistered inserted

theorem addFlow_unregistered {clock : Clock} {flow : Option FlowJob} {response : AddFlowResponse}
    (ok : addFlow ext service t clock db flow = .ok (response, db', calls)) :
    ∀ options ∈ FlowJob.allOptionsList flow.toList, db.Unregistered options := by
  obtain ⟨tree, prepared, rfl, accepted, inserted, -⟩ := addFlow_ok ok
  obtain ⟨out, -⟩ := prepareNode_ok tree none 0 _ _ accepted
  rw [out, List.nil_append] at inserted
  refine unregistered_of_map ?_ (insertPreparedTree_unregistered inserted).1
  rw [options_flatten]
  simp [FlowJob.allOptionsList]

/-- The trees of a batch are inserted one after another, and a key that is free
when a tree is reached was free before the batch. -/
theorem bulk_unregistered {seenKeys : List (String × String)} {flows : List FlowJob}
    {trees : List (List PreparedNode)} {responses : List AddFlowResponse}
    (prepared : prepareTrees ext service t seenKeys k flows = .ok trees)
    (inserted : insertTrees ext now db trees = .ok (db', responses)) :
    ∀ options ∈ FlowJob.allOptionsList flows, db.Unregistered options := by
  induction flows generalizing seenKeys k trees db db' responses with
  | nil => exact fun _ mem => by cases mem
  | cons tree rest ih =>
    simp only [prepareTrees, bind_eq_ok] at prepared
    obtain ⟨first, accepted, others, later, same⟩ := prepared
    cases same
    simp only [insertTrees, bind_eq_ok] at inserted
    obtain ⟨⟨db₁, response⟩, planted, ⟨db₂, responses'⟩, more, -⟩ := inserted
    obtain ⟨out, -⟩ := prepareNode_ok tree none 0 _ _ accepted
    rw [out, List.nil_append] at planted
    intro options mem
    rw [FlowJob.allOptionsList] at mem
    rcases List.mem_append.mp mem with here | there
    · exact unregistered_of_map (options_flatten tree none 0 k)
        (insertPreparedTree_unregistered planted).1 options here
    · exact fun named => (insertPreparedTree_unregistered planted).2 _ _
        (ih later more options there named)

theorem addFlowBulk_unregistered {clock : Clock} {flows : List FlowJob}
    {responses : List AddFlowResponse}
    (ok : addFlowBulk ext service t clock db flows = .ok (responses, db', calls)) :
    ∀ options ∈ FlowJob.allOptionsList flows, db.Unregistered options := by
  obtain ⟨trees, prepared, inserted, -⟩ := addFlowBulk_ok ok
  exact bulk_unregistered prepared inserted

/-- A merge that succeeds had no node under a registered key. -/
theorem addFlowMerge_unregistered {clock : Clock} {tree : FlowJob} {response : AddFlowMergeResponse}
    (ok : addFlowMerge ext service t clock db (some tree) = .ok (response, db', calls)) :
    ∀ options ∈ FlowJob.allOptionsList tree.children, db.Unregistered options := by
  obtain ⟨_, prepared, same, accepted, merged⟩ := addFlowMerge_ok ok
  cases same
  obtain ⟨out, -⟩ := prepareNodes_ok tree.children none 1 _ _ accepted
  rw [out, List.nil_append] at merged
  simp only [mergeInto, bind_eq_ok] at merged
  obtain ⟨target, -, ⟨⟩, -, db₂, inserted, -⟩ := merged
  have untouched : (adoptTree db target).enqueueReceipts = db.enqueueReceipts := by
    rw [adoptTree]
    cases target.treeId <;> rfl
  have free := unregistered_of_map (options_flattenList tree.children none 1 0)
    (insertNodes_unregistered inserted).1
  intro options mem named
  have unused := free options mem named
  rwa [Db.receiptFor, untouched] at unused

variable (ext service) in
/-- **A flow request that would create a node under a registered key is refused.** -/
theorem newNodes_refused (run : List Op) {op : Op} {options : FlowOptions}
    (mem : options ∈ op.newNodes) (named : options.idempotencyKey ≠ "")
    (used : ((dbAfter ext service run).receiptFor options.name options.idempotencyKey).isSome) :
    Refused ext service run op := by
  have contra : ¬ (dbAfter ext service run).Unregistered options := by
    intro free
    rw [free named] at used
    cases used
  cases op with
  | addFlow clock flow =>
    rcases transact_cases ext service run (.addFlow clock flow) rfl with
      refused | ⟨⟨response, db', calls⟩, ok, -⟩
    · exact refused
    · exact absurd (addFlow_unregistered ok options mem) contra
  | addFlowBulk clock flows =>
    rcases transact_cases ext service run (.addFlowBulk clock flows) rfl with
      refused | ⟨⟨responses, db', calls⟩, ok, -⟩
    · exact refused
    · exact absurd (addFlowBulk_unregistered ok options mem) contra
  | addFlowMerge clock flow =>
    rcases transact_cases ext service run (.addFlowMerge clock flow) rfl with
      refused | ⟨⟨response, db', calls⟩, ok, -⟩
    · exact refused
    · cases flow with
      | none => cases mem
      | some tree => exact absurd (addFlowMerge_unregistered ok options mem) contra
  | _ => cases mem

end Flows

/-! ## The receipts of a run -/

section Receipts

variable (ext service) (run : List Op) (op : Op) {key : String × String} {receipt : Receipt}

/-- A retained receipt is removed only when its job is in neither table. -/
theorem retained_after
    (found : (dbAfter ext service run).enqueueReceipts.find? key = some receipt)
    (retain : receipt.releaseOnFinish = false) :
    (dbAfter ext service (run ++ [op])).enqueueReceipts.find? key = some receipt ∨
      (¬ (dbAfter ext service (run ++ [op])).jobs.Has receipt.jobId ∧
        ¬ (dbAfter ext service (run ++ [op])).jobHistory.Has receipt.jobId) := by
  rcases receipt_of_chain (next_chain ext service run op) (registered_after ext service run) found
    with stands | ⟨flag, -⟩ | ⟨gone, erased⟩
  · exact .inl stands
  · rw [retain] at flag
    cases flag
  · exact .inr ⟨Table.not_has_iff.mpr gone, Table.not_has_iff.mpr erased⟩

/-- A releasable receipt stands while its job is live. -/
theorem stands_of_live
    (found : (dbAfter ext service run).enqueueReceipts.find? key = some receipt)
    (live : (dbAfter ext service (run ++ [op])).jobs.Has receipt.jobId) :
    (dbAfter ext service (run ++ [op])).enqueueReceipts.find? key = some receipt := by
  rcases receipt_of_chain (next_chain ext service run op) (registered_after ext service run) found
    with stands | ⟨-, e, mem, retired⟩ | ⟨gone, -⟩
  · exact stands
  · have disjoint := (sound_after ext service (run ++ [op])).db_disjoint
    exact absurd (archived_of_retires mem retired) (disjoint _ live)
  · exact absurd live (Table.not_has_iff.mpr gone)

/-- The key of a releasable receipt is free once its job has finished. -/
theorem free_of_finished
    (found : (dbAfter ext service run).enqueueReceipts.find? key = some receipt)
    (flag : receipt.releaseOnFinish = true)
    (finished : ¬ (dbAfter ext service (run ++ [op])).jobs.Has receipt.jobId) :
    (dbAfter ext service (run ++ [op])).enqueueReceipts.find? key = none := by
  have live := (registered_after ext service run).releasing found flag
  have archives := ((live_after ext service run op live).resolve_left finished).1
  refine Option.eq_none_iff_forall_ne_some.mpr fun other stands => ?_
  rcases stood_or_registers_of_chain (next_chain ext service run op) stands with
    stood | ⟨e, mem, registers⟩
  · cases found.symm.trans stood
    exact finished ((registered_after ext service (run ++ [op])).releasing stands flag)
  · exact not_archives_of_registers mem registers archives

/-- **Enqueues are idempotent in every run.** -/
theorem enqueue_idempotent (injective : ext.EncodesInjectively) :
    EnqueueIdempotent ext service run where
  recorded := fun key receipt => (registered_after ext service run).recorded
  single := fun clock req normalized bytes receipt request => addJob_registered injective
  item := by
    intro clock requests before req bytes batch receipt reaches used
    obtain ⟨-, slot, registered⟩ := reaches.registered
    obtain ⟨request, records⟩ := registered.recorded used
    exact ⟨request, records, bulk_registered injective reaches used records⟩
  flows := fun op options => newNodes_refused ext service run
  retained := fun op key receipt => retained_after ext service run op
  released := by
    intro key receipt found flag
    refine ⟨(registered_after ext service run).releasing found flag, fun op => ?_⟩
    split
    · exact stands_of_live ext service run op found ‹_›
    · exact free_of_finished ext service run op found flag ‹_›

end Receipts

/-! ## A registered key -/

section Encoding

instance countableChar : Countable Char :=
  Function.Injective.countable (f := Char.toNat) fun _ _ same => Char.toNat_inj.mp same

instance countableString : Countable String :=
  Function.Injective.countable (f := String.toList) fun _ _ same => String.toList_inj.mp same

/-- The payload of an `f64`. -/
def floatKey : F64 → Option (Bool ⊕ ℚ)
  | .nan => none
  | .infinite negative => some (.inl negative)
  | .finite value => some (.inr value)

theorem floatKey_injective : Function.Injective floatKey := by
  intro a b same
  cases a <;> cases b <;> simp_all [floatKey]

instance : Countable F64 := floatKey_injective.countable

instance : Countable JobMetadata :=
  Function.Injective.countable
    (f := fun m : JobMetadata => (m.parentId, m.traceId, m.executionDepth)) fun a b same => by
      cases a
      cases b
      simp_all

instance : Countable AddJobRequest :=
  Function.Injective.countable
    (f := fun r : AddJobRequest => (r.name, r.payload, r.priority, r.metadata, r.maxAttempts,
      r.delayMs, r.rateLimitFacet, r.retryBackoffMs, r.retryBackoffMaxMs, r.idempotencyKey,
      r.retryJitter, r.releaseOnFinish)) fun a b same => by
      cases a
      cases b
      simp_all

/-- An environment whose encoding tells all requests apart. -/
noncomputable def Externals.lossless : Externals :=
  { Externals.unary with
    encodeToVec := fun req =>
      List.replicate ((exists_injective_nat AddJobRequest).choose req) 0 }

theorem lossless_encodesInjectively : Externals.lossless.EncodesInjectively := by
  intro a _ b _ same
  have length := congrArg List.length same
  simp only [Externals.lossless, List.length_replicate] at length
  exact (exists_injective_nat AddJobRequest).choose_spec length

end Encoding

section Samples

/-- A keyed request. -/
def keyedRequest : AddJobRequest := { name := "a", idempotencyKey := "k" }

/-- The request again, with a delay no request may have. -/
def invalidRequest : AddJobRequest := { keyedRequest with delayMs := -1 }

/-- The key is registered. -/
theorem keyedRequest_registered :
    ((dbAfter .lossless {} [.addJob stopped keyedRequest]).receiptFor "a" "k").isSome := by
  decide +kernel

/-- Once the key is registered, enqueues under it are idempotent. -/
theorem enqueue_idempotent_once_registered :
    Externals.lossless.EncodesInjectively ∧
      ((dbAfter .lossless {} [.addJob stopped keyedRequest]).receiptFor "a" "k").isSome ∧
      EnqueueIdempotent .lossless {} [.addJob stopped keyedRequest] :=
  ⟨lossless_encodesInjectively, keyedRequest_registered,
    enqueue_idempotent .lossless {} _ lossless_encodesInjectively⟩

/-- **A registered key is not looked at before the request is valid**: a different
request is refused for what is wrong with it and not for its key, and an exact
repeat in a batch with such a request is not answered. -/
theorem registered_key_not_conflicting :
    Externals.lossless.EncodesInjectively ∧
      ((dbAfter .lossless {} [.addJob stopped keyedRequest]).receiptFor "a" "k").isSome ∧
      refusalOf .lossless {} [.addJob stopped keyedRequest] (.addJob stopped invalidRequest) =
        some (.invalidArgument "delays must not be negative") ∧
      refusalOf .lossless {} [.addJob stopped keyedRequest]
        (.addJobBulk stopped [keyedRequest, invalidRequest]) =
        some (.invalidArgument "delays must not be negative") :=
  ⟨lossless_encodesInjectively, keyedRequest_registered, by decide +kernel, by decide +kernel⟩

end Samples

end AnvilMQ
