import AnvilMQ.Claim
import AnvilMQ.Finish
import AnvilMQ.Flow
import AnvilMQ.Transition.Run

/-!
# The ledger machine

What the broker is for, without its tables: a book of live jobs, a book of
finished jobs, a book of idempotency receipts, and a short list of things that
may happen to them.  Every request, whatever it reads and however it loops, is a
sequence of these events; that is proved in `AnvilMQ.Ledger.Refinement`.  The
invariants of the broker are invariants of this machine.

## Design notes

`Ledger.apply` is one definition for all events: a live job after an event was
born by it, or was live before and evolved.  Facts that hold for every event are
read off that shape without a case split; a case split is needed only for what
one kind of event does.
-/

namespace AnvilMQ

open Rust Relational

/-! ## Rows -/

/-- The states a claim selects from. -/
def LiveState.Claimable (state : LiveState) : Prop := state = .waiting ∨ state = .delayed

/-- The row of a parent after one of its children completed. -/
def JobRow.countedDown (row : JobRow) (now updatedAt : ℤ) : JobRow :=
  let counted := { row with pendingChildren := row.pendingChildren - 1 }
  if gateOpens counted then
    { counted with state := releasedState counted now, updatedAt := updatedAt }
  else counted

/-- The row of a job that goes back to the queue. -/
def JobRow.requeued (row : JobRow) (state : LiveState) (availableAt : ℤ) (lastError : String)
    (updatedAt : ℤ) : JobRow :=
  { row with
    state := state
    availableAt := some availableAt
    workerId := none
    leaseExpiresAtMs := none
    lastError := some lastError
    updatedAt := updatedAt }

/-- The row of a merge target parked on `n` more children. -/
def JobRow.parked (row : JobRow) (n : ℕ) (updatedAt : ℤ) : JobRow :=
  { row with
    state := .waitingChildren
    pendingChildren := row.pendingChildren + n
    updatedAt := updatedAt }

/-- A row no worker has touched. -/
structure JobRow.Untouched (row : JobRow) : Prop where
  attempts : row.attempts = 0
  workerId : row.workerId = none
  lease : row.leaseExpiresAtMs = none

/-- What normalisation leaves of a request: every default is filled in. -/
structure AddJobRequest.Normalized (req : AddJobRequest) : Prop where
  metadata : req.metadata.isSome
  maxAttempts : req.maxAttempts ≠ 0
  retryBackoffMaxMs : req.retryBackoffMaxMs ≠ 0

/-- A receipt records the normalised request it was written for. -/
structure Receipt.Records (ext : Externals) (receipt : Receipt) (request : AddJobRequest) :
    Prop where
  normalized : request.Normalized
  name : request.name = receipt.queueName
  idempotencyKey : request.idempotencyKey = receipt.idempotencyKey
  request : receipt.request = ext.encodeToVec request

/-! ## Gauge units -/

/-- One live job on the gauges. -/
def LiveState.unit (state : LiveState) (gauge : Gauge) : ℤ :=
  unitAt state.label gauge +
    if state = .waitingChildren ∧ gauge = .flowWaitingChildren then 1 else 0

/-- One finished job on the gauges. -/
def TerminalState.unit (state : TerminalState) (gauge : Gauge) : ℤ :=
  unitAt (some state.label) gauge

/-- One receipt on the gauges. -/
def receiptUnit (gauge : Gauge) : ℤ := if gauge = .enqueueReceipts then 1 else 0

/-- A scheduler record, if there is one, on the gauges. -/
def schedulerUnit (row : Option JobSchedulerRow) (gauge : Gauge) : ℤ :=
  if gauge = .schedulersActive ∧ row.any (fun row => row.nextRunAt.isSome) then 1 else 0

/-! ## The ledger -/

/-- The books of the broker. -/
@[ext] structure Ledger where
  jobs : JobId → Option JobRow
  jobHistory : JobId → Option HistoryRow
  enqueueReceipts : String × String → Option Receipt
  ingressLimitRules : String → Option LimitRule
  ingressBucket : String → Option Bucket
  jobSchedulers : String → Option JobSchedulerRow
  level : Gauge → ℤ
  /-- The number of operations served. -/
  tick : ℕ
  /-- The slots of the current operation below which every UUID is drawn. -/
  slot : ℕ

/-- The abstraction of a database, at a position of the UUID generator. -/
def Db.ledger (db : Db) (tick slot : ℕ) : Ledger where
  jobs := db.jobs.find?
  jobHistory := db.jobHistory.find?
  enqueueReceipts := db.enqueueReceipts.find?
  ingressLimitRules := db.ingressLimitRules.find?
  ingressBucket := db.ingressBucket
  jobSchedulers := db.jobSchedulers.find?
  level := db.level
  tick := tick
  slot := slot

namespace Ledger

/-- The depth and trace of a job, live or finished. -/
def lineage (l : Ledger) (id : JobId) : Option (ℤ × String) :=
  match l.jobs id with
  | some row => some (row.executionDepth, row.traceId)
  | none => (l.jobHistory id).map fun row => (row.executionDepth, row.traceId)

/-- An id drawn by the current operation at a slot not used before, below `slot`. -/
def Draws (ext : Externals) (l : Ledger) (id : JobId) (slot : ℕ) : Prop :=
  ∃ k, l.slot ≤ k ∧ k < slot ∧ id = ext.newV4 l.tick k

/-- The buckets after admitting a job of a facet, `none` when it is refused. -/
def admission (ext : Externals) (l : Ledger) (facet : Option String) (now : ℤ) :
    Option (String → Option Bucket) :=
  match facet with
  | none => some l.ingressBucket
  | some f =>
    match l.ingressLimitRules f with
    | none => some l.ingressBucket
    | some rule =>
      (admitBucket ext rule (l.ingressBucket f) now).map fun bucket =>
        Function.update l.ingressBucket f (some bucket)

end Ledger

/-! ## Events -/

/-- Why a job went back to the queue. -/
inductive RequeueCause
  | retry
  | expiry
deriving DecidableEq

/-- Why a job was archived as failed. -/
inductive FailureCause
  | reported
  | cascaded
  | expired
deriving DecidableEq

/-- One thing that happens to the ledger.  A row among the labels is the row the
event finds, except that `enqueued` and `planted` carry the row they insert. -/
inductive Event
  /-- The next operation begins. -/
  | tick
  /-- `enqueue_one` inserts a job. -/
  | enqueued (row : JobRow) (now : ℤ) (slot : ℕ)
  /-- A flow request inserts a node. -/
  | planted (row : JobRow) (slot : ℕ)
  /-- A receipt is written for a normalised request. -/
  | receipted (receipt : Receipt) (request : AddJobRequest)
  | claimed (row : JobRow) (workerId : String) (now lease : ℤ)
  | renewed (row : JobRow) (lease now : ℤ)
  | requeued (row : JobRow) (cause : RequeueCause) (state : LiveState) (availableAt : ℤ)
      (lastError : String) (updatedAt : ℤ)
  /-- A job completes and is counted off its live parent. -/
  | completed (row : JobRow) (entry : HistoryRow) (parent : Option JobRow) (now updatedAt : ℤ)
      (released : ℕ)
  /-- A job is archived as failed. -/
  | failed (row : JobRow) (entry : HistoryRow) (cause : FailureCause) (released : ℕ)
  /-- A merge target without a tree becomes the root of one. -/
  | adopted (target : JobRow)
  /-- A merge target is parked on new children. -/
  | regated (target : JobRow) (n : ℕ) (updatedAt : ℤ)
  | historyPruned (state : TerminalState) (ids : List JobId) (n : ℕ)
  | receiptsPruned (keys : List (String × String)) (n : ℕ)
  | ruleStored (rule : LimitRule)
  | ruleDropped (facet : String)
  | schedulerStored (row : JobSchedulerRow) (old : Option JobSchedulerRow)
  | schedulerDropped (id : String) (old : Option JobSchedulerRow)

namespace Event

/-- The live job an event brings into being. -/
@[simp] def born : Event → Option JobRow
  | enqueued row _ _ => some row
  | planted row _ => some row
  | _ => none

/-- The live job an event archives, with its history row. -/
@[simp] def retires : Event → Option (JobRow × HistoryRow)
  | completed row entry _ _ _ _ => some (row, entry)
  | failed row entry _ _ => some (row, entry)
  | _ => none

/-- The id of the archived job. -/
@[simp] def retiredId : Event → Option JobId
  | completed row _ _ _ _ _ => some row.id
  | failed row _ _ _ => some row.id
  | _ => none

/-- What becomes of the row of a job that stays live. -/
@[simp] def evolve : Event → JobId → JobRow → JobRow
  | claimed row workerId now lease, j, r => if j = row.id then r.leased workerId now lease else r
  | renewed row lease now, j, r =>
    if j = row.id then { r with leaseExpiresAtMs := some lease, updatedAt := now } else r
  | requeued row _ state availableAt lastError updatedAt, j, r =>
    if j = row.id then r.requeued state availableAt lastError updatedAt else r
  | completed _ _ parent now updatedAt _, j, r =>
    if parent.map JobRow.id = some j then r.countedDown now updatedAt else r
  | adopted target, j, r => if j = target.id then { r with treeId := some target.id } else r
  | regated target n updatedAt, j, r => if j = target.id then r.parked n updatedAt else r
  | _, _, r => r

/-- The receipts an archived job gives up. -/
@[simp] def releases : Event → Receipt → Bool
  | completed row _ _ _ _ _, receipt => Db.releasable row.id receipt
  | failed row _ _ _, receipt => Db.releasable row.id receipt
  | _, _ => false

/-- The finished jobs an event deletes. -/
@[simp] def forgets : Event → List JobId
  | historyPruned _ ids _ => ids
  | _ => []

/-- The receipt an event writes. -/
@[simp] def registers : Event → Option Receipt
  | receipted receipt _ => some receipt
  | _ => none

/-- The receipts an event prunes. -/
@[simp] def prunes : Event → List (String × String)
  | receiptsPruned keys _ => keys
  | _ => []

/-- What becomes of the ingress rule of a facet. -/
@[simp] def ruleAfter : Event → String → Option LimitRule → Option LimitRule
  | ruleStored rule, facet, old => if facet = rule.facetPattern then some rule else old
  | ruleDropped dropped, facet, old => if facet = dropped then none else old
  | _, _, old => old

/-- What becomes of the ingress buckets. -/
@[simp] def bucketsAfter (ext : Externals) (l : Ledger) : Event → String → Option Bucket
  | enqueued row now _ => (l.admission ext row.rateLimitFacet now).getD l.ingressBucket
  | ruleStored rule => Function.update l.ingressBucket rule.facetPattern none
  | ruleDropped facet => Function.update l.ingressBucket facet none
  | _ => l.ingressBucket

/-- What becomes of a scheduler record. -/
@[simp] def schedulerAfter : Event → String → Option JobSchedulerRow → Option JobSchedulerRow
  | schedulerStored row _, id, old => if id = row.id then some row else old
  | schedulerDropped dropped _, id, old => if id = dropped then none else old
  | _, _, old => old

/-- The events that change the row of one live job and nothing else. -/
def IsUpdate : Event → Prop
  | claimed _ _ _ _ => True
  | renewed _ _ _ => True
  | requeued _ _ _ _ _ _ => True
  | adopted _ => True
  | regated _ _ _ => True
  | _ => False

/-- By how much an event moves each gauge level. -/
@[simp] def delta : Event → Gauge → ℤ
  | enqueued row _ _, g => row.state.unit g
  | planted row _, g => row.state.unit g
  | receipted _ _, g => receiptUnit g
  | claimed row _ _ _, g => LiveState.active.unit g - row.state.unit g
  | requeued row _ state _ _ _, g => state.unit g - row.state.unit g
  | completed row entry parent now updatedAt released, g =>
    entry.state.unit g - row.state.unit g - released * receiptUnit g +
      (parent.map fun p => (p.countedDown now updatedAt).state.unit g - p.state.unit g).getD 0
  | failed row entry _ released, g =>
    entry.state.unit g - row.state.unit g - released * receiptUnit g
  | regated target _ _, g => LiveState.waitingChildren.unit g - target.state.unit g
  | historyPruned state _ n, g => -(n * state.unit g)
  | receiptsPruned _ n, g => -(n * receiptUnit g)
  | schedulerStored row old, g => schedulerUnit (some row) g - schedulerUnit old g
  | schedulerDropped _ old, g => -schedulerUnit old g
  | _, _ => 0

/-- The operation counter after an event. -/
@[simp] def tickAfter (l : Ledger) : Event → ℕ
  | tick => l.tick + 1
  | _ => l.tick

/-- The position of the UUID generator after an event. -/
@[simp] def slotAfter (l : Ledger) : Event → ℕ
  | tick => 0
  | enqueued _ _ slot => slot
  | planted _ slot => slot
  | _ => l.slot

end Event

/-- The ledger after an event. -/
def Ledger.apply (ext : Externals) (l : Ledger) (e : Event) : Ledger where
  jobs j :=
    if e.retiredId = some j then none
    else if e.born.map JobRow.id = some j then e.born
    else (l.jobs j).map fun row => e.evolve j row
  jobHistory j :=
    if e.retiredId = some j then e.retires.map Prod.snd
    else if j ∈ e.forgets then none
    else l.jobHistory j
  enqueueReceipts key :=
    if e.registers.map Receipt.key = some key then e.registers
    else if e.prunes.contains key then none
    else (l.enqueueReceipts key).filter fun receipt => !e.releases receipt
  ingressLimitRules facet := e.ruleAfter facet (l.ingressLimitRules facet)
  ingressBucket := e.bucketsAfter ext l
  jobSchedulers id := e.schedulerAfter id (l.jobSchedulers id)
  level gauge := l.level gauge + e.delta gauge
  tick := e.tickAfter l
  slot := e.slotAfter l

/-! ## What a history of events tells -/

/-- The parent link a flow request makes. -/
def Event.link : Event → Option (JobId × JobId)
  | planted row _ => row.parentId.map fun p => (row.id, p)
  | _ => none

/-- How many children of `j` an event announces. -/
def Event.announces : Event → JobId → ℤ
  | planted row _, j => if row.id = j then row.pendingChildren else 0
  | regated target n _, j => if target.id = j then n else 0
  | _, _ => 0

/-- How many children of `j` a history announces. -/
def announced (events : List Event) (j : JobId) : ℤ :=
  (events.map fun e => e.announces j).sum

theorem announced_append (events events' : List Event) (j : JobId) :
    announced (events ++ events') j = announced events j + announced events' j := by
  simp [announced]

/-- How many links lead to `j`. -/
def linkedTo (links : List (JobId × JobId)) (j : JobId) : ℕ :=
  links.countP fun link => decide (link.2 = j)

theorem linkedTo_append (links links' : List (JobId × JobId)) (j : JobId) :
    linkedTo (links ++ links') j = linkedTo links j + linkedTo links' j :=
  List.countP_append

/-- **Every announced child is linked and every linked child announced.** -/
def Balanced (events : List Event) : Prop :=
  ∀ j, announced events j = linkedTo (events.filterMap Event.link) j

/-! ## Age -/

/-- The UUID `p` was drawn before the UUID `c`. -/
def Older (ext : Externals) (p c : JobId) : Prop :=
  ∃ t k t' k', p = ext.newV4 t k ∧ c = ext.newV4 t' k' ∧ (t < t' ∨ (t = t' ∧ k < k'))

theorem Older.irrefl {ext : Externals} {j : JobId} : ¬ Older ext j j := by
  rintro ⟨t, k, t', k', here, there, before⟩
  obtain ⟨rfl, rfl⟩ := ext.newV4_injective (here.symm.trans there)
  omega

theorem Older.trans {ext : Externals} {a b c : JobId} (first : Older ext a b)
    (second : Older ext b c) : Older ext a c := by
  obtain ⟨t, k, t₁, k₁, rfl, rfl, before⟩ := first
  obtain ⟨t₂, k₂, t', k', same, rfl, after⟩ := second
  obtain ⟨rfl, rfl⟩ := ext.newV4_injective same
  exact ⟨t, k, t', k', rfl, rfl, by omega⟩

/-! ## Guards -/

/-- When `enqueue_one` may insert a row. -/
structure Enqueueable (ext : Externals) (l : Ledger) (row : JobRow) (now : ℤ) (slot : ℕ) :
    Prop where
  draws : l.Draws ext row.id slot
  absent : l.jobs row.id = none
  untouched : row.Untouched
  attemptable : 0 < row.maxAttempts
  claimable : row.state.Claimable
  childless : row.pendingChildren = 0
  unflagged : row.failParentOnFailure = false
  treeless : row.treeId = none
  treeDepth : row.treeDepth = 0
  lineage : ∀ p, row.parentId = some p → l.lineage p = some (row.executionDepth - 1, row.traceId)
  admitted : (l.admission ext row.rateLimitFacet now).isSome

/-- When a flow request may insert a row. -/
structure Plantable (ext : Externals) (l : Ledger) (row : JobRow) (slot : ℕ) : Prop where
  draws : l.Draws ext row.id slot
  absent : l.jobs row.id = none
  untouched : row.Untouched
  attemptable : 0 < row.maxAttempts
  gated : (row.state = .waitingChildren ∧ 0 < row.pendingChildren) ∨
    (row.state.Claimable ∧ row.pendingChildren = 0)
  tree : row.treeId = some row.traceId
  depth : row.executionDepth = row.treeDepth
  nonneg : 0 ≤ row.treeDepth
  root : row.parentId = none → row.traceId = row.id ∧ row.treeDepth = 0
  child : ∀ p, row.parentId = some p → ∃ parent, l.jobs p = some parent ∧
    parent.treeId = row.treeId ∧ row.treeDepth = parent.treeDepth.toNat + 1

/-- The history row a failure writes. -/
def FailureCause.Writes (cause : FailureCause) (row : JobRow) (entry : HistoryRow) : Prop :=
  match cause with
  | .reported => row.state = .active ∧ ∃ at_ error, entry = row.toHistory .failed at_ error none
  | .cascaded => ∃ at_ error, entry = row.toHistory .failed at_ error none
  | .expired => row.state = .active ∧ ∃ at_, entry = row.toExpiredHistory at_

/-- When an event may happen. -/
def Event.Enabled (ext : Externals) (l : Ledger) : Event → Prop
  | .enqueued row now slot => Enqueueable ext l row now slot
  | .planted row slot => Plantable ext l row slot
  | .receipted receipt request =>
    l.enqueueReceipts receipt.key = none ∧ (l.jobs receipt.jobId).isSome ∧
      receipt.Records ext request
  | .claimed row workerId _ _ =>
    l.jobs row.id = some row ∧ row.state.Claimable ∧ isBlank workerId = false
  | .renewed row _ _ => l.jobs row.id = some row ∧ row.state = .active
  | .requeued row _ state _ _ _ =>
    l.jobs row.id = some row ∧ row.state = .active ∧ state.Claimable ∧
      row.attempts < row.maxAttempts
  | .completed row entry parent _ _ _ =>
    l.jobs row.id = some row ∧ row.state = .active ∧
      (∃ at_ result, entry = row.toHistory .completed at_ row.lastError result) ∧
      parent = row.parentId.bind (Function.update l.jobs row.id none)
  | .failed row entry cause _ => l.jobs row.id = some row ∧ cause.Writes row entry
  | .adopted target =>
    l.jobs target.id = some target ∧ target.state ≠ .active ∧ target.treeId = none
  | .regated target _ _ => l.jobs target.id = some target ∧ target.state ≠ .active
  | .receiptsPruned keys _ => ∀ key ∈ keys, ∀ receipt, l.enqueueReceipts key = some receipt →
      l.jobs receipt.jobId = none ∧ l.jobHistory receipt.jobId = none
  | .schedulerStored row old => l.jobSchedulers row.id = old ∧ row.nextRunAt.isSome
  | .schedulerDropped id old => l.jobSchedulers id = old
  | _ => True

/-- A step of the machine. -/
def Step (ext : Externals) (l : Ledger) (e : Event) (l' : Ledger) : Prop :=
  e.Enabled ext l ∧ l' = l.apply ext e

end AnvilMQ
