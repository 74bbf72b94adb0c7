import AnvilMQ.Properties.Bulk
import AnvilMQ.Properties.FlowValidation

/-!
# A bulk of flows is a sequence of flows

`AddFlowBulk` prepares every tree before it opens its transaction, with one set of keys for the
whole batch.  `AddFlow` called on the trees one after another knows nothing of the other trees;
there a key that two trees share is found through the receipt that the earlier one has written.
This module compares the two, at one clock reading and with one supply of UUIDs.
-/

namespace AnvilMQ

open Rust Relational

/-! ## One flow after another -/

section Sequence

variable (ext : Externals) (service : Service) (t : ℕ) (clock : Clock)

/-- What an `AddFlow` that committed hands back, with the UUIDs drawn so far. -/
structure FlowOutcome where
  response : AddFlowResponse
  db : Db
  calls : List MetricCall
  uuids : ℕ

/-- An `AddFlow` that draws its UUIDs from slot `k` on. -/
def addFlowAt (k : ℕ) (db : Db) (flow : FlowJob) : Except Status FlowOutcome := do
  let prepared ← prepareNode ext t service.maxFlowDepth service.maxFlowNodes flow none 0
    { seenKeys := [], out := [], uuids := k }
  let (db, response) ← insertPreparedTree ext (clock 0) db prepared.out
  .ok ⟨response, db, flushTreeMetrics prepared.out, prepared.uuids⟩

/-- `AddFlow` on the trees in order, up to the first one that is refused: the database that is
left, and the responses with the gauge calls. -/
def addFlows : ℕ → Db → List FlowJob → Db × Except Status (List AddFlowResponse × List MetricCall)
  | _, db, [] => (db, .ok ([], []))
  | k, db, flow :: rest =>
    match addFlowAt ext service t clock k db flow with
    | .error status => (db, .error status)
    | .ok outcome =>
      match addFlows outcome.uuids outcome.db rest with
      | (db, .error status) => (db, .error status)
      | (db, .ok (responses, calls)) =>
        (db, .ok (outcome.response :: responses, outcome.calls ++ calls))

/-- **A bulk of flows is a sequence of flows.** -/
structure FlowBulkIsSequence (db : Db) (flows : List FlowJob) : Prop where
  succeeds : (∃ answer, addFlowBulk ext service t clock db flows = .ok answer) ↔
    ∃ answer, (addFlows ext service t clock 0 db flows).2 = .ok answer
  /-- A batch that succeeds leaves the same database, responses and gauge calls. -/
  agrees : ∀ responses db' calls,
    addFlowBulk ext service t clock db flows = .ok (responses, db', calls) →
    addFlows ext service t clock 0 db flows = (db', .ok (responses, calls))
  /-- A batch that fails leaves the database as it was. -/
  restores : ∀ status, addFlowBulk ext service t clock db flows = .error status →
    serve ext service t db (.addFlowBulk clock flows) = (db, .error status)

end Sequence

variable {ext : Externals} {service : Service} {t k : ℕ} {clock : Clock} {db db' : Db}
  {flows : List FlowJob} {seenKeys : List (String × String)} {maxDepth maxNodes : ℕ} {now : ℤ}
  {flow : FlowJob}

/-! ## The supply of UUIDs -/

/-- A preparation that starts `k` UUIDs later. -/
def PrepareState.later (k : ℕ) (s : PrepareState) : PrepareState := { s with uuids := k + s.uuids }

/-- Preparing a node commutes with advancing the supply. -/
theorem prepareHead_advance {children depth : ℕ} {options : FlowOptions} {parentId : Option JobId}
    {s : PrepareState} :
    prepareHead ext t maxDepth maxNodes options children parentId depth (s.later k) =
      (prepareHead (ext.advance t k) t maxDepth maxNodes options children parentId depth s).map
        (PrepareState.later k) := by
  have drawn : (ext.advance t k).newV4 t s.uuids = ext.newV4 t (k + s.uuids) := if_pos rfl
  unfold prepareHead PrepareState.later
  rw [drawn]
  dsimp only
  split
  · rfl
  split
  · rfl
  cases checkOptions options with
  | error status => rfl
  | ok _ =>
    dsimp only
    split
    · rfl
    · rfl

mutual

theorem prepareNode_advance :
    ∀ (tree : FlowJob) (parentId : Option JobId) (depth : ℕ) (s : PrepareState),
      prepareNode ext t maxDepth maxNodes tree parentId depth (s.later k) =
        (prepareNode (ext.advance t k) t maxDepth maxNodes tree parentId depth s).map
          (PrepareState.later k)
  | .node options children, parentId, depth, s => by
    have drawn : (ext.advance t k).newV4 t s.uuids = ext.newV4 t (s.later k).uuids := if_pos rfl
    rw [prepareNode, prepareNode, prepareHead_advance, drawn]
    cases prepareHead (ext.advance t k) t maxDepth maxNodes options children.length parentId
        depth s with
    | error status => rfl
    | ok s' => exact prepareNodes_advance children _ _ s'

theorem prepareNodes_advance :
    ∀ (trees : List FlowJob) (parentId : Option JobId) (depth : ℕ) (s : PrepareState),
      prepareNodes ext t maxDepth maxNodes trees parentId depth (s.later k) =
        (prepareNodes (ext.advance t k) t maxDepth maxNodes trees parentId depth s).map
          (PrepareState.later k)
  | [], _, _, _ => by
    rw [prepareNodes, prepareNodes]
    rfl
  | tree :: rest, parentId, depth, s => by
    rw [prepareNodes, prepareNodes, prepareNode_advance tree parentId depth s]
    cases prepareNode (ext.advance t k) t maxDepth maxNodes tree parentId depth s with
    | error status => rfl
    | ok s' => exact prepareNodes_advance rest parentId depth s'

end

theorem insertNodes_advance (place : Placement) (now : ℤ) (nodes : List PreparedNode) :
    insertNodes (ext.advance t k) place now db nodes = insertNodes ext place now db nodes := by
  induction nodes generalizing db with
  | nil => rfl
  | cons node rest ih =>
    have first : insertNode (ext.advance t k) place now db node =
        insertNode ext place now db node := rfl
    rw [insertNodes, insertNodes, first]
    cases insertNode ext place now db node with
    | error status => rfl
    | ok db₁ => exact ih

/-- **`addFlowAt` is `AddFlow`** with a UUID generator that has been advanced. -/
theorem addFlow_advance (flow : FlowJob) :
    addFlow (ext.advance t k) service t clock db (some flow) =
      (addFlowAt ext service t clock k db flow).map fun outcome =>
        (outcome.response, outcome.db, outcome.calls) := by
  have shifted := @prepareNode_advance ext t k service.maxFlowDepth service.maxFlowNodes flow none 0
    ⟨[], [], 0⟩
  unfold addFlow addFlowAt
  simp only [bind, Except.bind]
  rw [show (⟨[], [], k⟩ : PrepareState) = PrepareState.later k ⟨[], [], 0⟩ from rfl, shifted]
  cases prepareNode (ext.advance t k) t service.maxFlowDepth service.maxFlowNodes flow none 0
      ⟨[], [], 0⟩ with
  | error status => rfl
  | ok prepared =>
    unfold insertPreparedTree
    simp only [bind, Except.bind, Except.map, PrepareState.later, insertNodes_advance]
    cases insertNodes ext (freshPlacement prepared.out) (clock 0) db prepared.out with
    | error status => rfl
    | ok db₁ => rfl

/-! ## The trees of a batch -/

/-- The flattened trees of a batch, each from the slot the one before it has reached. -/
def flattenTrees (ext : Externals) (t : ℕ) : ℕ → List FlowJob → List (List PreparedNode)
  | _, [] => []
  | k, flow :: rest =>
    let nodes := flatten ext t flow none 0 k
    nodes :: flattenTrees ext t (k + nodes.length) rest

/-- A tree is prepared when it is acceptable, and then flattened. -/
theorem acceptable_of_prepareNode {prepared : PrepareState}
    (ok : prepareNode ext t service.maxFlowDepth service.maxFlowNodes flow none 0
      ⟨seenKeys, [], k⟩ = .ok prepared) :
    Acceptable service.maxFlowDepth service.maxFlowNodes seenKeys flow ∧
      prepared.out = flatten ext t flow none 0 k ∧
      prepared.uuids = k + (flatten ext t flow none 0 k).length :=
  ⟨fits_iff_acceptable.mp ((prepareNode_iff flow none 0 _).mp ⟨prepared, ok⟩),
    prepareNode_ok flow none 0 _ _ ok⟩

theorem prepareNode_of_acceptable
    (acceptable : Acceptable service.maxFlowDepth service.maxFlowNodes seenKeys flow) :
    ∃ prepared, prepareNode ext t service.maxFlowDepth service.maxFlowNodes flow none 0
      ⟨seenKeys, [], k⟩ = .ok prepared :=
  (prepareNode_iff flow none 0 _).mpr (fits_iff_acceptable.mpr acceptable)

/-- A batch that is prepared is flattened. -/
theorem prepareTrees_eq {trees : List (List PreparedNode)}
    (ok : prepareTrees ext service t seenKeys k flows = .ok trees) :
    trees = flattenTrees ext t k flows := by
  induction flows generalizing seenKeys k trees with
  | nil =>
    cases ok
    rfl
  | cons flow rest ih =>
    simp only [prepareTrees, bind_eq_ok] at ok
    obtain ⟨prepared, first, others, later, done⟩ := ok
    cases done
    obtain ⟨-, out, uuids⟩ := acceptable_of_prepareNode first
    rw [ih later, out, uuids]
    rfl

/-- **A sequence inserts the trees of its batch**, if each is acceptable by itself. -/
theorem addFlows_eq (acceptable : ∀ flow ∈ flows,
      Acceptable service.maxFlowDepth service.maxFlowNodes [] flow)
    {responses : List AddFlowResponse}
    (inserted : insertTrees ext (clock 0) db (flattenTrees ext t k flows) =
      .ok (db', responses)) :
    addFlows ext service t clock k db flows =
      (db', .ok (responses, (flattenTrees ext t k flows).flatMap flushTreeMetrics)) := by
  induction flows generalizing k db responses with
  | nil =>
    cases inserted
    rfl
  | cons flow rest ih =>
    obtain ⟨first, others⟩ := List.forall_mem_cons.mp acceptable
    simp only [flattenTrees, insertTrees, bind_eq_ok] at inserted
    obtain ⟨⟨db₁, response⟩, planted, ⟨db₂, answers⟩, later, done⟩ := inserted
    cases done
    obtain ⟨prepared, ok⟩ := @prepareNode_of_acceptable ext service t k [] flow first
    obtain ⟨-, out, uuids⟩ := acceptable_of_prepareNode ok
    have attempt : addFlowAt ext service t clock k db flow = .ok ⟨response, db₁,
        flushTreeMetrics (flatten ext t flow none 0 k),
        k + (flatten ext t flow none 0 k).length⟩ := by
      unfold addFlowAt
      simp only [bind, Except.bind, ok, out, uuids, planted]
    rw [addFlows, attempt]
    dsimp only
    rw [ih others later]
    rfl

/-- A sequence that succeeds has acceptable trees, which it has inserted. -/
theorem insertTrees_of_addFlows {answer : List AddFlowResponse × List MetricCall}
    (ok : (addFlows ext service t clock k db flows).2 = .ok answer) :
    (∀ flow ∈ flows, Acceptable service.maxFlowDepth service.maxFlowNodes [] flow) ∧
      ∃ planted, insertTrees ext (clock 0) db (flattenTrees ext t k flows) = .ok planted := by
  induction flows generalizing k db answer with
  | nil => exact ⟨nofun, _, rfl⟩
  | cons flow rest ih =>
    rw [addFlows] at ok
    cases attempt : addFlowAt ext service t clock k db flow with
    | error status =>
      rw [attempt] at ok
      cases ok
    | ok outcome =>
      rw [attempt] at ok
      dsimp only at ok
      have later : ∃ others,
          (addFlows ext service t clock outcome.uuids outcome.db rest).2 = .ok others := by
        split at ok
        · cases ok
        · rename_i more
          exact ⟨_, congrArg Prod.snd more⟩
      obtain ⟨others, later⟩ := later
      obtain ⟨acceptable, ⟨db₂, answers⟩, planted⟩ := ih later
      simp only [addFlowAt, bind_eq_ok] at attempt
      obtain ⟨prepared, accepted, ⟨db₁, response⟩, first, done⟩ := attempt
      cases done
      obtain ⟨here, out, uuids⟩ := acceptable_of_prepareNode accepted
      rw [out] at first
      rw [uuids] at planted
      refine ⟨List.forall_mem_cons.mpr ⟨here, acceptable⟩, (db₂, response :: answers), ?_⟩
      simp only [flattenTrees, insertTrees, bind_eq_ok]
      exact ⟨_, first, _, planted, rfl⟩

/-! ## Keys across trees -/

/-- The key of a prepared node, if it asks for one. -/
def PreparedNode.key? (node : PreparedNode) : Option (String × String) :=
  node.options.registeredKey

/-- The keys of a tree are those of its flattened nodes. -/
theorem keys_flatten (flow : FlowJob) :
    (flatten ext t flow none 0 k).filterMap PreparedNode.key? = flow.keys := by
  have options := @options_flatten ext t flow none 0 k
  have split : (flatten ext t flow none 0 k).filterMap PreparedNode.key? =
      ((flatten ext t flow none 0 k).map PreparedNode.options).filterMap
        FlowOptions.registeredKey := by
    rw [List.filterMap_map]
    rfl
  rw [split, options, List.filterMap_map]
  rfl

/-- The receipts only grow, and the keys of the nodes are new and registered. -/
structure TakesKeys (keys : List (String × String)) (db db' : Db) : Prop where
  kept : ∀ {key}, db.enqueueReceipts.Has key → db'.enqueueReceipts.Has key
  new : ∀ key ∈ keys, ¬ db.enqueueReceipts.Has key
  registered : ∀ key ∈ keys, db'.enqueueReceipts.Has key

namespace TakesKeys

theorem refl (db : Db) : TakesKeys [] db db := ⟨id, nofun, nofun⟩

/-- What is registered first is not new any more. -/
theorem trans {keys keys' : List (String × String)} {db'' : Db} (first : TakesKeys keys db db')
    (second : TakesKeys keys' db' db'') : TakesKeys (keys ++ keys') db db'' where
  kept := fun has => second.kept (first.kept has)
  new := by
    intro key mem
    rcases List.mem_append.mp mem with here | later
    · exact first.new key here
    · exact fun has => second.new key later (first.kept has)
  registered := by
    intro key mem
    rcases List.mem_append.mp mem with here | later
    · exact second.kept (first.registered key here)
    · exact second.registered key later

theorem disjoint {keys keys' : List (String × String)} {db'' : Db} (first : TakesKeys keys db db')
    (second : TakesKeys keys' db' db'') : keys.Disjoint keys' :=
  fun key here there => second.new key there (first.registered key here)

end TakesKeys

/-- The key of a node is new and registered with it. -/
theorem insertNode_registers {place : Placement} {node : PreparedNode}
    (ok : insertNode ext place now db node = .ok db') : TakesKeys node.key?.toList db db' := by
  obtain ⟨jobs, -, -, ⟨unkeyed, rfl⟩ | ⟨keyed, written⟩⟩ := insertNode_ok ok
  · have noKey : node.key? = none := if_pos (by simpa [PreparedNode.keyed] using unkeyed)
    rw [noKey]
    exact ⟨id, nofun, nofun⟩
  · have ownKey : node.key? = some (node.options.name, node.options.idempotencyKey) :=
      if_neg (by simpa [PreparedNode.keyed] using keyed)
    obtain ⟨receipts, inserted, rfl⟩ := insertReceipt_ok written
    rw [ownKey]
    refine ⟨fun has => (Table.has_of_insert inserted).mpr (.inl has), ?_, ?_⟩
    · intro key mem
      rw [List.mem_singleton.mp mem]
      exact Table.not_has_of_insert inserted
    · intro key mem
      rw [List.mem_singleton.mp mem]
      exact (Table.has_of_insert inserted).mpr (.inr rfl)

/-- The keys of inserted nodes are taken with them. -/
theorem insertNodes_registers {place : Placement} {nodes : List PreparedNode}
    (ok : insertNodes ext place now db nodes = .ok db') :
    TakesKeys (nodes.filterMap PreparedNode.key?) db db' := by
  induction nodes generalizing db with
  | nil =>
    cases ok
    exact .refl _
  | cons node rest ih =>
    simp only [insertNodes, bind_eq_ok] at ok
    obtain ⟨db₁, first, others⟩ := ok
    have split : (node :: rest).filterMap PreparedNode.key? =
        node.key?.toList ++ rest.filterMap PreparedNode.key? := by
      cases key : node.key? <;> simp [key]
    rw [split]
    exact (insertNode_registers first).trans (ih others)

theorem insertPreparedTree_registers {response : AddFlowResponse}
    (ok : insertPreparedTree ext now db (flatten ext t flow none 0 k) = .ok (db', response)) :
    TakesKeys flow.keys db db' := by
  simp only [insertPreparedTree, bind_eq_ok] at ok
  obtain ⟨db₁, inserted, done⟩ := ok
  cases done
  rw [← @keys_flatten ext t k flow]
  exact insertNodes_registers inserted

/-- **Trees that are inserted one after another share no key**, and register none that is in
use. -/
theorem disjoint_of_insertTrees {responses : List AddFlowResponse}
    (ok : insertTrees ext now db (flattenTrees ext t k flows) = .ok (db', responses)) :
    flows.Pairwise (fun flow later => flow.keys.Disjoint later.keys) ∧
      TakesKeys (flows.flatMap FlowJob.keys) db db' := by
  induction flows generalizing k db responses with
  | nil =>
    cases ok
    exact ⟨List.Pairwise.nil, .refl _⟩
  | cons flow rest ih =>
    simp only [flattenTrees, insertTrees, bind_eq_ok] at ok
    obtain ⟨⟨db₁, response⟩, planted, ⟨db₂, answers⟩, later, done⟩ := ok
    cases done
    have first := insertPreparedTree_registers planted
    obtain ⟨apart, others⟩ := ih later
    refine ⟨List.pairwise_cons.mpr ⟨fun other mem => ?_, apart⟩, first.trans others⟩
    intro key here there
    exact first.disjoint others here (List.mem_flatMap.mpr ⟨other, mem, there⟩)

/-! ## Batches -/

variable (ext service t clock db) in
/-- **A bulk of flows is a sequence of flows**: from every database, for every batch of 1 to
`max_flow_bulk` trees, at one clock reading and with one supply of UUIDs. -/
theorem flow_bulk_is_sequence (flows : List FlowJob) (nonempty : 1 ≤ flows.length)
    (small : flows.length ≤ service.maxFlowBulk) :
    FlowBulkIsSequence ext service t clock db flows := by
  have filled : flows.isEmpty = false := by
    cases flows with
    | nil => cases nonempty
    | cons flow rest => rfl
  have agrees : ∀ responses db' calls,
      addFlowBulk ext service t clock db flows = .ok (responses, db', calls) →
      addFlows ext service t clock 0 db flows = (db', .ok (responses, calls)) := by
    intro responses db' calls ok
    obtain ⟨trees, prepared, inserted, rfl⟩ := addFlowBulk_ok ok
    have acceptable := (prepareTrees_iff.mp ⟨trees, prepared⟩).1
    rw [prepareTrees_eq prepared] at inserted ⊢
    exact addFlows_eq acceptable inserted
  refine ⟨⟨?_, ?_⟩, agrees, ?_⟩
  · rintro ⟨⟨responses, db', calls⟩, ok⟩
    rw [agrees responses db' calls ok]
    exact ⟨_, rfl⟩
  · rintro ⟨answer, ok⟩
    obtain ⟨acceptable, ⟨db', responses⟩, planted⟩ := insertTrees_of_addFlows ok
    have apart := (disjoint_of_insertTrees planted).1
    obtain ⟨trees, prepared⟩ := (@prepareTrees_iff ext service t 0 flows []).mpr
      ⟨acceptable, apart⟩
    refine ⟨(responses, db', trees.flatMap flushTreeMetrics), ?_⟩
    unfold addFlowBulk
    rw [filled, if_neg Bool.false_ne_true, if_neg (not_lt.mpr small), prepared]
    rw [prepareTrees_eq prepared]
    simp only [bind, Except.bind, planted]
  · intro status failed
    show transact db ((addFlowBulk ext service t clock db flows).map _) = _
    rw [failed]
    rfl

/-- Two trees that both register the key `k` of queue `a`. -/
def clashingTrees : List FlowJob :=
  [.node { name := "a", idempotencyKey := "k" } [],
    .node { name := "b" } [.node { name := "a", idempotencyKey := "k" } []]]

/-- Both ways the second tree is refused, for different reasons. -/
theorem clashingTrees_is_sequence :
    FlowBulkIsSequence .unary {} 0 stopped Db.empty clashingTrees ∧
      (addFlowBulk .unary {} 0 stopped Db.empty clashingTrees).map Prod.fst =
        .error (.invalidArgument "duplicate idempotency_key within flow") ∧
      (addFlows .unary {} 0 stopped 0 Db.empty clashingTrees).2 = .error (.failedPrecondition
        "flow node idempotency_key already used; AddFlow creates fresh trees only") :=
  ⟨flow_bulk_is_sequence .unary {} 0 stopped Db.empty clashingTrees (by decide) (by decide),
    by decide +kernel, by decide +kernel⟩

end AnvilMQ
