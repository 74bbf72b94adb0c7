import AnvilMQ.Store
import AnvilMQ.Enqueue

/-!
# Flows

`src/flow.rs`: parent/child dependency trees.  A request tree is first flattened
into a list of `PreparedNode`s, root first, with every id assigned; the list is
then inserted in one transaction.  `AddFlow` and `AddFlowBulk` plant fresh trees,
`AddFlowMerge` hangs new subtrees under an existing job and parks that job on
them.

The insertion loop is the same for fresh trees and for merges up to where the
nodes are put, so it takes that as a `Placement`.
-/

namespace AnvilMQ

open Rust Relational

/-- A node after validation and id assignment.  `options` are the normalised
options and `depth` is relative to the node the subtree hangs under. -/
structure PreparedNode where
  id : JobId
  parentId : Option JobId
  options : FlowOptions
  depth : ℕ
  pendingChildren : ℤ
  state : LiveState
deriving DecidableEq

/-- `has_children`. -/
def PreparedNode.hasChildren (node : PreparedNode) : Bool :=
  decide (node.state = .waitingChildren)

/-- Whether the node asks for an idempotency receipt. -/
def PreparedNode.keyed (node : PreparedNode) : Bool :=
  decide (node.options.idempotencyKey ≠ "")

/-! ## Preparation -/

/-- What `prepare_node` threads through the tree: the keys seen, the nodes
flattened so far and the number of UUIDs generated. -/
structure PrepareState where
  seenKeys : List (String × String)
  out : List PreparedNode
  uuids : ℕ

/-- The field checks of `prepare_node`, which mirror `validate_and_prepare`. -/
def checkOptions (options : FlowOptions) : Except Status Unit :=
  if options.idempotencyKey ≠ "" ∧
      (isBlank options.idempotencyKey ∨ 256 < byteLen options.idempotencyKey) then
    .error (.invalidArgument "idempotency_key must be nonblank and at most 256 UTF-8 bytes")
  else if options.delayMs < 0 ∨ options.retryBackoffMs < 0 ∨ options.retryBackoffMaxMs < 0 then
    .error (.invalidArgument "delays must not be negative")
  else if effectiveBackoffMax options.retryBackoffMs options.retryBackoffMaxMs
      < options.retryBackoffMs then
    .error (.invalidArgument "backoff cap must be at least the base")
  else if options.retryJitter.isNan ∨ ¬ options.retryJitter.inUnitInterval then
    .error (.invalidArgument "retry_jitter must be a fraction in [0, 1]")
  else .ok ()

/-- The options with the server-side defaults filled in. -/
def FlowOptions.normalized (options : FlowOptions) : FlowOptions :=
  { options with
    retryBackoffMaxMs := effectiveBackoffMax options.retryBackoffMs options.retryBackoffMaxMs
    maxAttempts := if options.maxAttempts = 0 then 3 else options.maxAttempts }

/-- The state a node is inserted in: a node with children is parked, a leaf rests
in `Delayed` or `Waiting`. -/
def nodeState (children : ℕ) (delayMs : ℤ) : LiveState :=
  if 0 < children then .waitingChildren else if 0 < delayMs then .delayed else .waiting

/-- Everything `prepare_node` does for one node before it turns to the children:
the caps, the field checks, the duplicate-key check and the flattened node. -/
def prepareHead (ext : Externals) (t maxFlowDepth maxFlowNodes : ℕ) (options : FlowOptions)
    (children : ℕ) (parentId : Option JobId) (depth : ℕ) (s : PrepareState) :
    Except Status PrepareState :=
  if maxFlowDepth < depth then
    .error (.invalidArgument s!"flow tree height exceeds max allowed {maxFlowDepth}")
  else if maxFlowNodes ≤ s.out.length then
    .error (.invalidArgument s!"flow tree node count exceeds max allowed {maxFlowNodes}")
  else
    match checkOptions options with
    | .error status => .error status
    | .ok () =>
      if options.idempotencyKey ≠ "" ∧ (options.name, options.idempotencyKey) ∈ s.seenKeys then
        .error (.invalidArgument "duplicate idempotency_key within flow")
      else
        .ok
          { seenKeys :=
              if options.idempotencyKey = "" then s.seenKeys
              else (options.name, options.idempotencyKey) :: s.seenKeys
            out := s.out ++ [
              { id := ext.newV4 t s.uuids
                parentId := parentId
                options := options.normalized
                depth := depth
                pendingChildren := children
                state := nodeState children options.delayMs }]
            uuids := s.uuids + 1 }

mutual

/-- `prepare_node`: validate one `FlowJob`, assign its id and flatten its subtree. -/
def prepareNode (ext : Externals) (t maxFlowDepth maxFlowNodes : ℕ) :
    FlowJob → Option JobId → ℕ → PrepareState → Except Status PrepareState
  | .node options children, parentId, depth, s =>
    match prepareHead ext t maxFlowDepth maxFlowNodes options children.length parentId depth
        s with
    | .error status => .error status
    | .ok s' =>
      prepareNodes ext t maxFlowDepth maxFlowNodes children
        (some (ext.newV4 t s.uuids)) (depth + 1) s'

/-- The loop of `prepare_node` over the children of a node. -/
def prepareNodes (ext : Externals) (t maxFlowDepth maxFlowNodes : ℕ) :
    List FlowJob → Option JobId → ℕ → PrepareState → Except Status PrepareState
  | [], _, _, s => .ok s
  | child :: rest, parentId, depth, s =>
    match prepareNode ext t maxFlowDepth maxFlowNodes child parentId depth s with
    | .error status => .error status
    | .ok s' => prepareNodes ext t maxFlowDepth maxFlowNodes rest parentId depth s'

end

/-! ## Insertion -/

/-- Where a list of prepared nodes is put: the tree they join, the parent and the
depth of the nodes without a parent among themselves, and the refusal of a key
that is already registered. -/
structure Placement where
  treeId : JobId
  parentId : Option JobId
  depth : ℕ
  keyUsed : Status

/-- The parent a node is inserted under. -/
def Placement.parentOf (place : Placement) (node : PreparedNode) : Option JobId :=
  node.parentId.or place.parentId

/-- The depth a node is inserted at. -/
def Placement.depthOf (place : Placement) (node : PreparedNode) : ℕ := place.depth + node.depth

/-- The `AddJobRequest` with the fields of a node. -/
def nodeRequest (place : Placement) (node : PreparedNode) : AddJobRequest where
  name := node.options.name
  payload := node.options.payload
  priority := node.options.priority
  metadata := some
    { parentId := (place.parentOf node).getD ""
      traceId := place.treeId
      executionDepth := place.depthOf node }
  maxAttempts := node.options.maxAttempts
  delayMs := node.options.delayMs
  rateLimitFacet := node.options.rateLimitFacet
  retryBackoffMs := node.options.retryBackoffMs
  retryBackoffMaxMs := node.options.retryBackoffMaxMs
  idempotencyKey := node.options.idempotencyKey
  retryJitter := node.options.retryJitter
  releaseOnFinish := false

/-- `receipt_request`: the receipt of a node is that of the `AddJobRequest` with
the same fields. -/
def receiptRequest (ext : Externals) (place : Placement) (node : PreparedNode) : Bytes :=
  ext.encodeToVec (nodeRequest place node)

/-- The receipt of a keyed node. -/
def nodeReceipt (ext : Externals) (place : Placement) (node : PreparedNode) (now : ℤ) :
    Receipt where
  queueName := node.options.name
  idempotencyKey := node.options.idempotencyKey
  request := receiptRequest ext place node
  jobId := node.id
  initialState := node.state
  createdAt := now
  releaseOnFinish := false

/-- The row a node is inserted as. -/
def plantedRow (place : Placement) (node : PreparedNode) (now availableAt : ℤ) : JobRow where
  id := node.id
  name := node.options.name
  state := node.state
  priority := node.options.priority
  payload := node.options.payload
  parentId := place.parentOf node
  traceId := place.treeId
  executionDepth := place.depthOf node
  maxAttempts := node.options.maxAttempts
  createdAt := now
  updatedAt := now
  rateLimitFacet := textColumn node.options.rateLimitFacet
  availableAt := some availableAt
  retryBackoffMs := node.options.retryBackoffMs
  retryBackoffMaxMs := node.options.retryBackoffMaxMs
  retryJitter := node.options.retryJitter
  pendingChildren := node.pendingChildren
  failParentOnFailure := node.options.failParentOnFailure
  treeId := some place.treeId
  treeDepth := place.depthOf node

/-- One round of the insertion loop. -/
def insertNode (ext : Externals) (place : Placement) (now : ℤ) (db : Db) (node : PreparedNode) :
    Except Status Db :=
  match checkedAdd now node.options.delayMs with
  | none => .error (.invalidArgument "delay timestamp overflows")
  | some availableAt =>
    if node.keyed ∧ (db.receiptFor node.options.name node.options.idempotencyKey).isSome then
      .error place.keyUsed
    else do
      let db ← db.insertJob (plantedRow place node now availableAt)
      if node.keyed then db.insertReceipt (nodeReceipt ext place node now) else .ok db

/-- The insertion loop. -/
def insertNodes (ext : Externals) (place : Placement) (now : ℤ) :
    Db → List PreparedNode → Except Status Db
  | db, [] => .ok db
  | db, node :: rest => do
    let db ← insertNode ext place now db node
    insertNodes ext place now db rest

/-- The descriptor of an inserted node. -/
def describe (place : Placement) (node : PreparedNode) : FlowNode where
  id := node.id
  parentId := (place.parentOf node).getD ""
  name := node.options.name
  depth := place.depthOf node
  state := node.state

/-- The `enqueued` transitions of the inserted nodes, the nodes parked on children
and the receipts written, as they are flushed after the commit. -/
def treeTransitions (nodes : List PreparedNode) : List MetricCall :=
  nodes.map (fun node => .transition none node.state.label) ++
    [.flowWaitingChildrenInc (nodes.countP PreparedNode.hasChildren)]

/-- One call per receipt written. -/
def receiptCalls (nodes : List PreparedNode) : List MetricCall :=
  List.replicate (nodes.countP PreparedNode.keyed) .enqueueReceiptCreated

/-! ## Fresh trees -/

/-- The placement of a fresh tree: its root is the tree id and the lineage of
every node. -/
def freshPlacement (nodes : List PreparedNode) : Placement where
  treeId := ((nodes.head?).map PreparedNode.id).getD ""
  parentId := none
  depth := 0
  keyUsed := .failedPrecondition
    "flow node idempotency_key already used; AddFlow creates fresh trees only"

/-- `insert_prepared_tree`. -/
def insertPreparedTree (ext : Externals) (now : ℤ) (db : Db) (nodes : List PreparedNode) :
    Except Status (Db × AddFlowResponse) := do
  let place := freshPlacement nodes
  let db ← insertNodes ext place now db nodes
  .ok (db, { rootId := place.treeId, nodes := nodes.map (describe place) })

/-- `flush_tree_metrics`. -/
def flushTreeMetrics (nodes : List PreparedNode) : List MetricCall :=
  treeTransitions nodes ++ receiptCalls nodes

/-- `add_flow`. -/
def addFlow (ext : Externals) (service : Service) (t : ℕ) (clock : Clock) (db : Db)
    (flow : Option FlowJob) : Except Status (AddFlowResponse × Db × List MetricCall) :=
  match flow with
  | none => .error (.invalidArgument "flow is required")
  | some flow => do
    let prepared ← prepareNode ext t service.maxFlowDepth service.maxFlowNodes flow none 0
      { seenKeys := [], out := [], uuids := 0 }
    let (db, response) ← insertPreparedTree ext (clock 0) db prepared.out
    .ok (response, db, flushTreeMetrics prepared.out)

/-- The preparation loop of `add_flow_bulk`: every tree has its own caps, the set
of keys seen spans the batch. -/
def prepareTrees (ext : Externals) (service : Service) (t : ℕ) :
    List (String × String) → ℕ → List FlowJob → Except Status (List (List PreparedNode))
  | _, _, [] => .ok []
  | seenKeys, k, flow :: rest => do
    let prepared ← prepareNode ext t service.maxFlowDepth service.maxFlowNodes flow none 0
      { seenKeys := seenKeys, out := [], uuids := k }
    let trees ← prepareTrees ext service t prepared.seenKeys prepared.uuids rest
    .ok (prepared.out :: trees)

/-- The insertion loop of `add_flow_bulk`. -/
def insertTrees (ext : Externals) (now : ℤ) :
    Db → List (List PreparedNode) → Except Status (Db × List AddFlowResponse)
  | db, [] => .ok (db, [])
  | db, nodes :: rest => do
    let (db, response) ← insertPreparedTree ext now db nodes
    let (db, responses) ← insertTrees ext now db rest
    .ok (db, response :: responses)

/-- `add_flow_bulk`. -/
def addFlowBulk (ext : Externals) (service : Service) (t : ℕ) (clock : Clock) (db : Db)
    (flows : List FlowJob) : Except Status (List AddFlowResponse × Db × List MetricCall) :=
  if flows.isEmpty then .error (.invalidArgument "AddFlowBulk requires at least one flow")
  else if service.maxFlowBulk < flows.length then
    let maxFlowBulk := service.maxFlowBulk
    .error (.invalidArgument s!"AddFlowBulk exceeds max batch size {maxFlowBulk}")
  else do
    let trees ← prepareTrees ext service t [] 0 flows
    let (db, responses) ← insertTrees ext (clock 0) db trees
    .ok (responses, db, trees.flatMap flushTreeMetrics)

/-! ## Merging -/

/-- The live job a merge attaches to: its receipt names it, and it must be
neither finished nor claimed. -/
def resolveTarget (db : Db) (name key : String) : Except Status JobRow :=
  match db.receiptFor name key with
  | none =>
    .error (.notFound "no existing job matches the merge root's name/idempotency_key")
  | some receipt =>
    match db.jobs.find? receipt.jobId with
    | none => .error (.failedPrecondition "cannot attach children to a finished job")
    | some target =>
      if target.state = .active then
        .error (.failedPrecondition "cannot attach children to an in-flight (Active) job")
      else .ok target

/-- A target without a tree becomes the root of one. -/
def adoptTree (db : Db) (target : JobRow) : Db :=
  match target.treeId with
  | some _ => db
  | none =>
    { db with
      jobs := db.jobs.modify target.id
        (fun row => { row with treeId := some target.id }) fun _ => rfl }

/-- The placement of a merge: the target's tree, under the target. -/
def mergePlacement (target : JobRow) : Placement where
  treeId := target.treeId.getD target.id
  parentId := some target.id
  depth := target.treeDepth.toNat
  keyUsed := .failedPrecondition "only the merge root may reference an existing job"

/-- A target that could be claimed is parked on its new children. -/
def regated (target : JobRow) : Bool :=
  decide (target.state = .waiting) || decide (target.state = .delayed)

/-- Park the target on `n` more children. -/
def regate (db : Db) (target : JobRow) (n : ℤ) (clock : Clock) : Db :=
  let counted := db.jobs.modify target.id
    (fun row => { row with
      pendingChildren := row.pendingChildren + n
      updatedAt := clock 1 }) fun _ => rfl
  if regated target then
    { db with
      jobs := counted.modify target.id
        (fun row => { row with state := .waitingChildren, updatedAt := clock 2 }) fun _ => rfl }
  else { db with jobs := counted }

/-- The height of the attached forest (`max().unwrap_or(1)`). -/
def subtreeHeight (nodes : List PreparedNode) : ℕ :=
  ((nodes.map PreparedNode.depth).max?).getD 1

/-- The caps on the merged tree. -/
def checkMergeCaps (service : Service) (db : Db) (target : JobRow) (nodes : List PreparedNode) :
    Except Status Unit :=
  let treeId := target.treeId.getD target.id
  let maxFlowDepth := service.maxFlowDepth
  let maxFlowNodes := service.maxFlowNodes
  if (maxFlowDepth : ℤ) < target.treeDepth + subtreeHeight nodes then
    .error (.invalidArgument s!"merged flow tree height exceeds max allowed {maxFlowDepth}")
  else if maxFlowNodes <
      db.jobs.count (fun row => decide (row.treeId = some treeId)) + nodes.length then
    .error (.invalidArgument s!"merged flow tree node count exceeds max allowed {maxFlowNodes}")
  else .ok ()

/-- The calls a merge makes after its commit. -/
def mergeMetrics (target : JobRow) (nodes : List PreparedNode) : List MetricCall :=
  treeTransitions nodes ++
    ((if regated target then [.transition target.state.label none, .flowWaitingChildrenInc 1]
      else []) ++ receiptCalls nodes)

/-- The transaction of `add_flow_merge`, on the prepared subtrees. -/
def mergeInto (ext : Externals) (service : Service) (clock : Clock) (db : Db)
    (name key : String) (nodes : List PreparedNode) :
    Except Status (AddFlowMergeResponse × Db × List MetricCall) := do
  let target ← resolveTarget db name key
  let db := adoptTree db target
  checkMergeCaps service db target nodes
  let place := mergePlacement target
  let db ← insertNodes ext place (clock 0) db nodes
  let direct := nodes.countP fun node => node.parentId.isNone
  .ok ({ parentId := target.id, attached := nodes.map (describe place) },
    regate db target direct clock, mergeMetrics target nodes)

/-- `add_flow_merge`. -/
def addFlowMerge (ext : Externals) (service : Service) (t : ℕ) (clock : Clock) (db : Db)
    (flow : Option FlowJob) : Except Status (AddFlowMergeResponse × Db × List MetricCall) :=
  match flow with
  | none => .error (.invalidArgument "flow is required")
  | some flow =>
    if flow.options.idempotencyKey = "" then
      .error (.invalidArgument
        "AddFlowMerge requires an idempotency_key on the root to identify the attach target")
    else if flow.children.isEmpty then
      .error (.invalidArgument "AddFlowMerge root must have at least one child to attach")
    else do
      -- The real caps depend on the target, so the preparation runs without any.
      let prepared ← prepareNodes ext t u32Max u32Max flow.children none 1
        { seenKeys := [], out := [], uuids := 0 }
      mergeInto ext service clock db flow.options.name flow.options.idempotencyKey prepared.out

/-! ## Results of children -/

/-- `get_children_values`: the completed children of a job that stored a result. -/
def getChildrenValues (db : Db) (parentId : String) : Except Status (List (JobId × Bytes)) :=
  if isBlank parentId then .error (.invalidArgument "parent_id must not be blank")
  else
    .ok ((db.jobHistory.rows.filter fun row =>
        decide (row.parentId = some parentId) && decide (row.state = .completed)).filterMap
      fun row => row.result.map fun result => (row.id, result))

end AnvilMQ
