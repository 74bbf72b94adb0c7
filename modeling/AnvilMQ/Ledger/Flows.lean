import AnvilMQ.Broker
import AnvilMQ.Ledger.Enqueues

/-!
# Flows as events

A flow request inserts the nodes of its trees one after another.  What
`prepare_node` hands to the insertion loop is the plain preorder traversal
`flatten` of the request; every fact about the inserted rows is a fact about
`flatten`, proved by recursion over the tree.
-/

namespace AnvilMQ

open Rust Relational Transition

variable {ext : Externals} {service : Service} {db db' : Db} {t k slot : ℕ}
  {calls : List MetricCall} {nodes : List PreparedNode} {now : ℤ} {place : Placement}
  {flow : Option FlowJob} {up : Option JobId → ℕ → Prop} {flows : List FlowJob} {target : JobRow}
  {clock : Clock} {node : PreparedNode} {responses : List AddFlowResponse}
  {trees : List (List PreparedNode)} {wanted : List FlowOptions}

/-! ## Flattening -/

mutual

/-- The preorder list of a tree whose ids are drawn from slot `k` on. -/
def flatten (ext : Externals) (t : ℕ) : FlowJob → Option JobId → ℕ → ℕ → List PreparedNode
  | .node options children, parentId, depth, k =>
    { id := ext.newV4 t k
      parentId := parentId
      options := options.normalized
      depth := depth
      pendingChildren := children.length
      state := nodeState children.length options.delayMs } ::
    flattenList ext t children (some (ext.newV4 t k)) (depth + 1) (k + 1)

/-- The preorder list of a forest. -/
def flattenList (ext : Externals) (t : ℕ) :
    List FlowJob → Option JobId → ℕ → ℕ → List PreparedNode
  | [], _, _, _ => []
  | tree :: rest, parentId, depth, k =>
    let nodes := flatten ext t tree parentId depth k
    nodes ++ flattenList ext t rest parentId depth (k + nodes.length)

end

/-- What `prepare_head` adds for one node. -/
theorem prepareHead_ok {maxDepth maxNodes children depth : ℕ} {options : FlowOptions}
    {parentId : Option JobId} {s s' : PrepareState}
    (ok : prepareHead ext t maxDepth maxNodes options children parentId depth s = .ok s') :
    s'.uuids = s.uuids + 1 ∧ s'.out = s.out ++ [
      { id := ext.newV4 t s.uuids
        parentId := parentId
        options := options.normalized
        depth := depth
        pendingChildren := children
        state := nodeState children options.delayMs }] := by
  simp only [prepareHead, guard_eq_ok] at ok
  obtain ⟨-, -, ok⟩ := ok
  cases checked : checkOptions options with
  | error status => simp [checked] at ok
  | ok _ =>
    simp only [checked, guard_eq_ok] at ok
    obtain ⟨-, ok⟩ := ok
    cases ok
    exact ⟨rfl, rfl⟩

mutual

/-- **An accepted tree is flattened.** -/
theorem prepareNode_ok {maxDepth maxNodes : ℕ} :
    ∀ (tree : FlowJob) (parentId : Option JobId) (depth : ℕ) (s s' : PrepareState),
      prepareNode ext t maxDepth maxNodes tree parentId depth s = .ok s' →
      s'.out = s.out ++ flatten ext t tree parentId depth s.uuids ∧
        s'.uuids = s.uuids + (flatten ext t tree parentId depth s.uuids).length
  | .node options children, parentId, depth, s, s', ok => by
    simp only [prepareNode] at ok
    cases head : prepareHead ext t maxDepth maxNodes options children.length parentId depth s with
    | error status => simp [head] at ok
    | ok s1 =>
      simp only [head] at ok
      obtain ⟨drawn, out⟩ := prepareHead_ok head
      obtain ⟨out', drawn'⟩ := prepareNodes_ok children _ _ s1 s' ok
      rw [drawn] at out' drawn'
      simp only [flatten, List.length_cons]
      exact ⟨by rw [out', out, List.append_assoc, List.singleton_append], by omega⟩

/-- An accepted forest is flattened. -/
theorem prepareNodes_ok {maxDepth maxNodes : ℕ} :
    ∀ (trees : List FlowJob) (parentId : Option JobId) (depth : ℕ) (s s' : PrepareState),
      prepareNodes ext t maxDepth maxNodes trees parentId depth s = .ok s' →
      s'.out = s.out ++ flattenList ext t trees parentId depth s.uuids ∧
        s'.uuids = s.uuids + (flattenList ext t trees parentId depth s.uuids).length
  | [], parentId, depth, s, s', ok => by
    simp only [prepareNodes, Except.ok.injEq] at ok
    subst ok
    simp [flattenList]
  | tree :: rest, parentId, depth, s, s', ok => by
    simp only [prepareNodes] at ok
    cases first : prepareNode ext t maxDepth maxNodes tree parentId depth s with
    | error status => simp [first] at ok
    | ok s1 =>
      simp only [first] at ok
      obtain ⟨out, drawn⟩ := prepareNode_ok tree parentId depth s s1 first
      obtain ⟨out', drawn'⟩ := prepareNodes_ok rest parentId depth s1 s' ok
      rw [drawn] at out' drawn'
      simp only [flattenList, List.length_append]
      exact ⟨by rw [out', out, List.append_assoc], by omega⟩

end

mutual

/-- The flattened nodes carry the options of the tree, normalised. -/
theorem options_flatten :
    ∀ (tree : FlowJob) (parentId : Option JobId) (depth k : ℕ),
      (flatten ext t tree parentId depth k).map PreparedNode.options =
        tree.allOptions.map FlowOptions.normalized
  | .node options children, parentId, depth, k => by
    rw [flatten, FlowJob.allOptions, List.map_cons, List.map_cons,
      options_flattenList children _ _ _]

theorem options_flattenList :
    ∀ (trees : List FlowJob) (parentId : Option JobId) (depth k : ℕ),
      (flattenList ext t trees parentId depth k).map PreparedNode.options =
        (FlowJob.allOptionsList trees).map FlowOptions.normalized
  | [], _, _, _ => rfl
  | tree :: rest, parentId, depth, k => by
    simp only [flattenList, FlowJob.allOptionsList, List.map_append]
    rw [options_flatten tree _ _ _, options_flattenList rest _ _ _]

end

/-- The nodes carry options that a request asks for. -/
def AskedBy (asked : List FlowOptions) (nodes : List PreparedNode) : Prop :=
  ∀ node ∈ nodes, ∃ options ∈ asked, node.options = options.normalized

theorem AskedBy.of_map {asked : List FlowOptions}
    (same : nodes.map PreparedNode.options = asked.map FlowOptions.normalized) :
    AskedBy asked nodes := by
  intro node mem
  have here : node.options ∈ asked.map FlowOptions.normalized :=
    same ▸ List.mem_map_of_mem mem
  obtain ⟨options, mem, eq⟩ := List.mem_map.mp here
  exact ⟨options, mem, eq.symm⟩

theorem AskedBy.mono {asked asked' : List FlowOptions} (by_ : AskedBy asked nodes)
    (more : asked ⊆ asked') : AskedBy asked' nodes := by
  intro node mem
  obtain ⟨options, here, same⟩ := by_ node mem
  exact ⟨options, more here, same⟩

theorem AskedBy.head {asked : List FlowOptions} {rest : List PreparedNode}
    (by_ : AskedBy asked (node :: rest)) : AskedBy asked [node] := by
  intro other mem
  rw [List.mem_singleton.mp mem]
  exact by_ node List.mem_cons_self

theorem AskedBy.tail {asked : List FlowOptions} {rest : List PreparedNode}
    (by_ : AskedBy asked (node :: rest)) : AskedBy asked rest :=
  fun other mem => by_ other (List.mem_cons_of_mem _ mem)

/-! ## The shape of a flattened tree -/

/-- The ids of a list are drawn from consecutive slots. -/
def Consecutive (ext : Externals) (t : ℕ) : ℕ → List PreparedNode → Prop
  | _, [] => True
  | k, node :: rest => node.id = ext.newV4 t k ∧ Consecutive ext t (k + 1) rest

theorem consecutive_append {nodes' : List PreparedNode} :
    Consecutive ext t k (nodes ++ nodes') ↔
      Consecutive ext t k nodes ∧ Consecutive ext t (k + nodes.length) nodes' := by
  induction nodes generalizing k with
  | nil => simp [Consecutive]
  | cons node rest ih =>
    simp only [List.cons_append, Consecutive, ih, List.length_cons, and_assoc]
    rw [Nat.add_right_comm, Nat.add_assoc k]

/-- A node parked on children has some pending, any other has none. -/
def PreparedNode.Gated (node : PreparedNode) : Prop :=
  (node.state = .waitingChildren ∧ 0 < node.pendingChildren) ∨
    (node.state.Claimable ∧ node.pendingChildren = 0)

theorem nodeState_gated (children : ℕ) (delayMs : ℤ) :
    (nodeState children delayMs = .waitingChildren ∧ (0 : ℤ) < children) ∨
      ((nodeState children delayMs).Claimable ∧ (children : ℤ) = 0) := by
  rw [nodeState, LiveState.Claimable]
  rcases Nat.eq_zero_or_pos children with rfl | positive
  · right
    by_cases delayed : 0 < delayMs <;> simp [delayed]
  · left
    simp [positive]

/-- Every node of a list hangs somewhere: where `up` allows it, or under an
earlier node of the list, one level deeper. -/
def Hangs : (Option JobId → ℕ → Prop) → List PreparedNode → Prop
  | _, [] => True
  | up, node :: rest => up node.parentId node.depth ∧
      Hangs (fun p d => up p d ∨ (p = some node.id ∧ d = node.depth + 1)) rest

theorem Hangs.mono {up' : Option JobId → ℕ → Prop} (hangs : Hangs up nodes)
    (le : ∀ p d, up p d → up' p d) : Hangs up' nodes := by
  induction nodes generalizing up up' with
  | nil => trivial
  | cons node rest ih =>
    refine ⟨le _ _ hangs.1, ih hangs.2 ?_⟩
    rintro p d (above | here)
    · exact .inl (le p d above)
    · exact .inr here

theorem Hangs.append {nodes' : List PreparedNode} (first : Hangs up nodes)
    (second : Hangs up nodes') : Hangs up (nodes ++ nodes') := by
  induction nodes generalizing up with
  | nil => exact second
  | cons node rest ih => exact ⟨first.1, ih first.2 (second.mono fun _ _ => .inl)⟩

/-- What the insertion loop relies on. -/
structure WellPrepared (ext : Externals) (t k : ℕ) (up : Option JobId → ℕ → Prop)
    (nodes : List PreparedNode) : Prop where
  consecutive : Consecutive ext t k nodes
  gated : ∀ node ∈ nodes, node.Gated
  hangs : Hangs up nodes

namespace WellPrepared

theorem nil : WellPrepared ext t k up [] := ⟨trivial, by simp, trivial⟩

theorem append {nodes' : List PreparedNode} (first : WellPrepared ext t k up nodes)
    (second : WellPrepared ext t (k + nodes.length) up nodes') :
    WellPrepared ext t k up (nodes ++ nodes') where
  consecutive := consecutive_append.mpr ⟨first.consecutive, second.consecutive⟩
  gated := by
    intro node mem
    rcases List.mem_append.mp mem with early | late
    · exact first.gated node early
    · exact second.gated node late
  hangs := first.hangs.append second.hangs

end WellPrepared

mutual

theorem wellPrepared_flatten :
    ∀ (tree : FlowJob) (up : Option JobId → ℕ → Prop) (parentId : Option JobId) (depth k : ℕ),
      up parentId depth → WellPrepared ext t k up (flatten ext t tree parentId depth k)
  | .node options children, up, parentId, depth, k, above => by
    have below := wellPrepared_flattenList children
      (fun p d => up p d ∨ (p = some (ext.newV4 t k) ∧ d = depth + 1))
      (some (ext.newV4 t k)) (depth + 1) (k + 1) (.inr ⟨rfl, rfl⟩)
    rw [flatten]
    refine ⟨⟨rfl, below.consecutive⟩, ?_, above, below.hangs⟩
    intro node mem
    rcases List.mem_cons.mp mem with rfl | mem
    · exact nodeState_gated _ _
    · exact below.gated node mem

theorem wellPrepared_flattenList :
    ∀ (trees : List FlowJob) (up : Option JobId → ℕ → Prop) (parentId : Option JobId)
      (depth k : ℕ),
      up parentId depth → WellPrepared ext t k up (flattenList ext t trees parentId depth k)
  | [], _, _, _, _, _ => by
    rw [flattenList]
    exact .nil
  | tree :: rest, up, parentId, depth, k, above => by
    rw [flattenList]
    exact (wellPrepared_flatten tree up parentId depth k above).append
      (wellPrepared_flattenList rest up parentId depth _ above)

end

/-! ## Children are as many as announced -/

/-- The nodes of a list that name `j` as their parent. -/
def childrenIn (nodes : List PreparedNode) (j : JobId) : ℕ :=
  nodes.countP fun node => decide (node.parentId = some j)

/-- The children the nodes of a list with id `j` announce. -/
def announcedIn (nodes : List PreparedNode) (j : JobId) : ℤ :=
  (nodes.map fun node => if node.id = j then node.pendingChildren else 0).sum

theorem childrenIn_append (nodes nodes' : List PreparedNode) (j : JobId) :
    childrenIn (nodes ++ nodes') j = childrenIn nodes j + childrenIn nodes' j :=
  List.countP_append

theorem announcedIn_append (nodes nodes' : List PreparedNode) (j : JobId) :
    announcedIn (nodes ++ nodes') j = announcedIn nodes j + announcedIn nodes' j := by
  simp [announcedIn]

mutual

/-- **Every node announces its children**: apart from the root, each node of a
flattened tree is announced by its parent. -/
theorem childrenIn_flatten (j : JobId) :
    ∀ (tree : FlowJob) (parentId : Option JobId) (depth k : ℕ),
      (childrenIn (flatten ext t tree parentId depth k) j : ℤ) =
        (if parentId = some j then 1 else 0) +
          announcedIn (flatten ext t tree parentId depth k) j
  | .node options children, parentId, depth, k => by
    have below := childrenIn_flattenList j children (some (ext.newV4 t k)) (depth + 1) (k + 1)
    simp only [Option.some.injEq] at below
    simp only [flatten, childrenIn, announcedIn, List.countP_cons, List.map_cons,
      List.sum_cons] at below ⊢
    push_cast
    rw [below]
    split <;> split <;> simp_all <;> ring

theorem childrenIn_flattenList (j : JobId) :
    ∀ (trees : List FlowJob) (parentId : Option JobId) (depth k : ℕ),
      (childrenIn (flattenList ext t trees parentId depth k) j : ℤ) =
        (if parentId = some j then (trees.length : ℤ) else 0) +
          announcedIn (flattenList ext t trees parentId depth k) j
  | [], parentId, depth, k => by
    simp [flattenList, childrenIn, announcedIn]
  | tree :: rest, parentId, depth, k => by
    have first := childrenIn_flatten j tree parentId depth k
    have second := childrenIn_flattenList j rest parentId depth
      (k + (flatten ext t tree parentId depth k).length)
    rw [flattenList, childrenIn_append, announcedIn_append]
    push_cast
    rw [first, second, List.length_cons]
    split <;> push_cast <;> ring

end

/-! ## Insertion -/

/-- The events of one inserted node. -/
def nodeEvents (ext : Externals) (place : Placement) (now : ℤ) (node : PreparedNode)
    (slot : ℕ) : List Event :=
  .planted (plantedRow place node now (now + node.options.delayMs)) slot ::
    if node.keyed then [.receipted (nodeReceipt ext place node now) (nodeRequest place node)]
    else []

/-- The events of the insertion loop. -/
def plantEvents (ext : Externals) (place : Placement) (now : ℤ) : ℕ → List PreparedNode → List Event
  | _, [] => []
  | k, node :: rest =>
    nodeEvents ext place now node (k + 1) ++ plantEvents ext place now (k + 1) rest

/-- Where the parent of a node has to be when the node is inserted. -/
structure Seated (db : Db) (place : Placement) (node : PreparedNode) : Prop where
  root : place.parentOf node = none → place.treeId = node.id ∧ place.depthOf node = 0
  child : ∀ p, place.parentOf node = some p → ∃ parent, db.jobs.find? p = some parent ∧
    parent.treeId = some place.treeId ∧ place.depthOf node = parent.treeDepth.toNat + 1

/-- An accepted node is inserted and nothing else changes but its receipt. -/
theorem insertNode_ok (ok : insertNode ext place now db node = .ok db') :
    ∃ jobs, db.jobs.insert (plantedRow place node now (now + node.options.delayMs)) = some jobs ∧
      db'.jobs = jobs ∧
      ((node.keyed = false ∧ db' = { db with jobs := jobs }) ∨
        (node.keyed = true ∧ ({ db with jobs := jobs } : Db).insertReceipt
          (nodeReceipt ext place node now) = .ok db')) := by
  simp only [insertNode] at ok
  cases delayed : checkedAdd now node.options.delayMs with
  | none => simp [delayed] at ok
  | some availableAt =>
    simp only [delayed] at ok
    split at ok
    · cases ok
    · obtain ⟨db1, inserted, ok⟩ := bind_eq_ok.mp ok
      obtain ⟨jobs, insert, rfl⟩ := insertJob_ok inserted
      rw [checkedAdd_eq_some delayed] at insert
      refine ⟨jobs, insert, ?_⟩
      split at ok
      · rename_i keyed
        obtain ⟨receipts, -, same⟩ := insertReceipt_ok ok
        exact ⟨by rw [same], .inr ⟨keyed, ok⟩⟩
      · rename_i unkeyed
        cases ok
        exact ⟨rfl, .inl ⟨by simpa using unkeyed, rfl⟩⟩

theorem nodeRequest_normalized (place : Placement) (asked : AskedBy wanted [node]) :
    (nodeRequest place node).Normalized := by
  obtain ⟨options, -, same⟩ := asked node List.mem_cons_self
  refine ⟨rfl, ?_, ?_⟩
  · rw [nodeRequest, same, FlowOptions.normalized]
    dsimp only
    split <;> omega
  · rw [nodeRequest, same]
    exact effectiveBackoffMax_ne_zero _ _

/-- **The insertion of a node is a chain of events.** -/
theorem insertNode_chain (id : node.id = ext.newV4 t k) (gated : node.Gated)
    (asked : AskedBy wanted [node]) (seated : Seated db place node)
    (ok : insertNode ext place now db node = .ok db') :
    Chain (Step ext) (db.ledger t k) (nodeEvents ext place now node (k + 1))
      (db'.ledger t (k + 1)) := by
  obtain ⟨jobs, insert, -, receipt⟩ := insertNode_ok ok
  have normalized := nodeRequest_normalized place asked
  have plantable : Plantable ext (db.ledger t k)
      (plantedRow place node now (now + node.options.delayMs)) (k + 1) :=
    { draws := ⟨k, le_rfl, Nat.lt_succ_self k, id⟩
      absent := Table.not_has_iff.mp (Table.not_has_of_insert insert)
      untouched := ⟨rfl, rfl, rfl⟩
      attemptable := Nat.pos_of_ne_zero normalized.maxAttempts
      gated := gated
      tree := rfl
      depth := rfl
      nonneg := Int.natCast_nonneg _
      root := fun parentless => ⟨(seated.root parentless).1, by
        simp [plantedRow, (seated.root parentless).2]⟩
      child := by
        intro p above
        obtain ⟨parent, live, tree, depth⟩ := seated.child p above
        exact ⟨parent, live, tree, by simp [plantedRow, depth]⟩ }
  refine .cons ⟨plantable, ledger_planted insert⟩ ?_
  rcases receipt with ⟨unkeyed, rfl⟩ | ⟨keyed, written⟩
  · rw [unkeyed]
    exact .nil _
  · rw [keyed]
    obtain ⟨receipts, inserted, rfl⟩ := insertReceipt_ok written
    refine .single ⟨⟨?_, ?_, normalized, rfl, rfl, rfl⟩,
      ledger_receipted inserted _⟩
    · exact Table.not_has_iff.mp (Table.not_has_of_insert inserted)
    · exact (Table.has_of_insert insert).mpr (.inr rfl)

/-- Where a node with a parent among its own list, or without one, may be put. -/
def Seat (db : Db) (place : Placement) (p : Option JobId) (d : ℕ) : Prop :=
  ∃ q parent, p.or place.parentId = some q ∧ db.jobs.find? q = some parent ∧
    parent.treeId = some place.treeId ∧ place.depth + d = parent.treeDepth.toNat + 1

theorem Seat.seated (seat : Seat db place node.parentId node.depth) : Seated db place node := by
  obtain ⟨q, parent, above, live, tree, depth⟩ := seat
  refine ⟨fun rootless => ?_, fun p here => ?_⟩
  · rw [Placement.parentOf, above] at rootless
    cases rootless
  · rw [Placement.parentOf, above, Option.some.injEq] at here
    subst here
    exact ⟨parent, live, tree, depth⟩

/-- Inserting a node keeps the seats there were and adds one under the node. -/
theorem insertNode_seats (seats : ∀ p d, up p d → Seat db place p d)
    (ok : insertNode ext place now db node = .ok db') :
    ∀ p d, (up p d ∨ (p = some node.id ∧ d = node.depth + 1)) → Seat db' place p d := by
  obtain ⟨jobs, insert, same, -⟩ := insertNode_ok ok
  rintro p d (above | ⟨rfl, rfl⟩)
  · obtain ⟨q, parent, here, live, tree, depth⟩ := seats p d above
    refine ⟨q, parent, here, ?_, tree, depth⟩
    rw [same, Table.find?_of_insert insert, if_neg ?_, live]
    rintro rfl
    exact Table.not_has_of_insert insert (Table.has_iff_find?.mpr ⟨parent, live⟩)
  · refine ⟨node.id, plantedRow place node now (now + node.options.delayMs), rfl, ?_, rfl, ?_⟩
    · rw [same, Table.find?_of_insert insert]
      exact if_pos rfl
    · simp only [plantedRow, Placement.depthOf, Int.toNat_natCast]
      omega

/-- **The insertion loop is a chain of its nodes' events.** -/
theorem insertNodes_chain {wanted : List FlowOptions} (prepared : WellPrepared ext t k up nodes)
    (asked : AskedBy wanted nodes) (seats : ∀ p d, up p d → Seat db place p d)
    (ok : insertNodes ext place now db nodes = .ok db') :
    Chain (Step ext) (db.ledger t k) (plantEvents ext place now k nodes)
      (db'.ledger t (k + nodes.length)) := by
  induction nodes generalizing db k up with
  | nil =>
    cases ok
    exact .nil _
  | cons node rest ih =>
    simp only [insertNodes] at ok
    obtain ⟨db1, first, ok⟩ := bind_eq_ok.mp ok
    obtain ⟨⟨id, consecutive⟩, gated, above, hangs⟩ := prepared
    have chain := insertNode_chain id (gated node List.mem_cons_self) asked.head
      (seats _ _ above).seated first
    have later := ih ⟨consecutive, fun n mem => gated n (List.mem_cons_of_mem _ mem), hangs⟩
      asked.tail (insertNode_seats seats first) ok
    rw [List.length_cons, Nat.add_comm rest.length, ← Nat.add_assoc]
    exact chain.append later

/-- The gauge calls of a tree count its nodes by state, -/
theorem treeTransitions_delta (nodes : List PreparedNode) (gauge : Gauge) :
    callDelta (treeTransitions nodes) gauge =
      (nodes.map fun node => node.state.unit gauge).sum := by
  induction nodes with
  | nil => simp [treeTransitions, MetricCall.delta]
  | cons node rest ih =>
    simp only [treeTransitions, callDelta_append, callDelta_cons, callDelta_nil,
      List.map_cons, List.sum_cons, MetricCall.delta, List.countP_cons,
      PreparedNode.hasChildren, LiveState.unit] at ih ⊢
    rw [← ih]
    by_cases parked : node.state = .waitingChildren <;>
      by_cases waiting : gauge = .flowWaitingChildren <;> simp [parked, waiting] <;> ring

/-- and its keyed nodes as receipts. -/
theorem receiptCalls_delta (nodes : List PreparedNode) (gauge : Gauge) :
    callDelta (receiptCalls nodes) gauge =
      (nodes.map fun node => if node.keyed then receiptUnit gauge else 0).sum := by
  induction nodes with
  | nil => rfl
  | cons node rest ih =>
    simp only [receiptCalls, List.countP_cons, List.map_cons, List.sum_cons] at ih ⊢
    rw [← ih]
    cases node.keyed with
    | false => simp
    | true =>
      rw [if_pos rfl, if_pos rfl, List.replicate_succ, callDelta_cons]
      rfl

/-- The gauge calls of a list of nodes mirror its events. -/
theorem plantEvents_gauges (nodes : List PreparedNode) (gauge : Gauge) :
    callDelta (treeTransitions nodes) gauge + callDelta (receiptCalls nodes) gauge =
      eventDelta (plantEvents ext place now k nodes) gauge := by
  rw [treeTransitions_delta, receiptCalls_delta]
  induction nodes generalizing k with
  | nil => simp [plantEvents]
  | cons node rest ih =>
    rw [plantEvents, eventDelta_append, ← ih, nodeEvents]
    cases keyed : node.keyed <;> simp [plantedRow, keyed] <;> ring

/-! ## Links -/

/-- The parent link of a node as it is inserted. -/
def Placement.link (place : Placement) (node : PreparedNode) : Option (JobId × JobId) :=
  (place.parentOf node).map fun p => (node.id, p)

theorem links_plantEvents (place : Placement) (now : ℤ) (nodes : List PreparedNode) :
    (plantEvents ext place now k nodes).filterMap Event.link = nodes.filterMap place.link := by
  induction nodes generalizing k with
  | nil => rfl
  | cons node rest ih =>
    rw [plantEvents, List.filterMap_append, ih, nodeEvents, List.filterMap_cons]
    cases node.keyed <;> cases above : place.parentOf node <;>
      simp [Event.link, plantedRow, above, Placement.link]

theorem announced_plantEvents (place : Placement) (now : ℤ) (nodes : List PreparedNode)
    (j : JobId) :
    announced (plantEvents ext place now k nodes) j = announcedIn nodes j := by
  induction nodes generalizing k with
  | nil => rfl
  | cons node rest ih =>
    rw [plantEvents, announced_append, ih, nodeEvents]
    cases node.keyed <;> simp [announced, announcedIn, Event.announces, plantedRow]

/-- The links of a list of nodes to `j`. -/
theorem linkedTo_filterMap_link (place : Placement) (nodes : List PreparedNode) (j : JobId) :
    linkedTo (nodes.filterMap place.link) j =
      childrenIn nodes j + if place.parentId = some j then
        nodes.countP fun node => node.parentId.isNone else 0 := by
  induction nodes with
  | nil => simp [linkedTo, childrenIn]
  | cons node rest ih =>
    rw [List.filterMap_cons]
    simp only [linkedTo, childrenIn, List.countP_cons] at ih ⊢
    cases above : node.parentId with
    | some p =>
      simp only [Placement.link, Placement.parentOf, above, Option.some_or, Option.map_some,
        List.countP_cons, ih]
      simp
      omega
    | none =>
      simp only [Placement.link, Placement.parentOf, above, Option.none_or]
      cases top : place.parentId with
      | none => simp_all
      | some q =>
        simp only [Option.map_some, List.countP_cons, ih, top]
        by_cases here : q = j
        · simp [here]
          omega
        · simp [here]

/-- The answer reports the links that were made, when every parent has a name. -/
theorem nodeLinks_describe (place : Placement) (nodes : List PreparedNode)
    (named : ∀ node ∈ nodes, ∀ p, place.parentOf node = some p → p ≠ "") :
    nodeLinks (nodes.map (describe place)) = nodes.filterMap place.link := by
  induction nodes with
  | nil => rfl
  | cons node rest ih =>
    have later := ih fun n mem => named n (List.mem_cons_of_mem _ mem)
    rw [List.filterMap_cons, ← later, List.map_cons]
    cases above : place.parentOf node with
    | none => simp [nodeLinks, describe, above, Placement.link]
    | some p =>
      have := named node List.mem_cons_self p above
      simp [nodeLinks, describe, above, Placement.link, this]

/-- Parents among the nodes are UUIDs, hence not empty. -/
theorem named_of_hangs (consecutive : Consecutive ext t k nodes) (hangs : Hangs up nodes)
    (above : ∀ p d, up (some p) d → p ≠ "") :
    ∀ node ∈ nodes, ∀ p, node.parentId = some p → p ≠ "" := by
  induction nodes generalizing k up with
  | nil => simp
  | cons head rest ih =>
    intro node mem p here
    rcases List.mem_cons.mp mem with rfl | later
    · exact above p node.depth (here ▸ hangs.1)
    · refine ih consecutive.2 hangs.2 ?_ node later p here
      rintro q d (seat | ⟨same, -⟩)
      · exact above q d seat
      · rw [Option.some.injEq] at same
        rw [same, consecutive.1]
        exact ne_empty_of_not_isBlank (ext.newV4_not_blank t k)

/-! ## Fresh trees -/

/-- The events of a request that plants nodes with the options it was asked for. -/
def Event.Sows (asked : List FlowOptions) : Event → Prop
  | planted row _ => ∃ options ∈ asked, row.rateLimitFacet = textColumn options.rateLimitFacet ∧
      row.maxAttempts = options.normalized.maxAttempts
  | receipted _ _ => True
  | _ => False

/-- The events of a request that also hangs what it plants under `target`. -/
def Event.Merges (asked : List FlowOptions) (target : JobRow) : Event → Prop
  | adopted row => row = target
  | regated row _ _ => row.id = target.id
  | e => e.Sows asked

theorem Event.Sows.merges {asked : List FlowOptions} {e : Event} (sows : e.Sows asked) :
    e.Merges asked target := by
  cases e <;> first | exact sows | exact sows.elim

/-- Nodes are planted for the options that ask for them. -/
theorem sows_plantEvents {asked : List FlowOptions} (place : Placement) (now : ℤ)
    (nodes : List PreparedNode) (by_ : AskedBy asked nodes) :
    ∀ e ∈ plantEvents ext place now k nodes, e.Sows asked := by
  induction nodes generalizing k with
  | nil => simp [plantEvents]
  | cons node rest ih =>
    intro e mem
    rw [plantEvents, nodeEvents, List.cons_append, List.mem_cons, List.mem_append] at mem
    rcases mem with rfl | here | later
    · obtain ⟨options, here, same⟩ := by_ node List.mem_cons_self
      exact ⟨options, here, by rw [plantedRow, same]; rfl, by rw [plantedRow, same]⟩
    · split at here
      · rw [List.mem_singleton.mp here]
        trivial
      · cases here
    · exact ih by_.tail e later

/-- **What a flow request does**: it plants the nodes it reports, announcing as
many children as it links. -/
structure FlowTrace (ext : Externals) (kind : Event → Prop) (t k slot : ℕ) (db db' : Db)
    (calls : List MetricCall) (links : List (JobId × JobId)) (events : List Event) : Prop where
  trace : Trace ext kind True t k slot db db' calls events
  links : events.filterMap Event.link = links
  balanced : Balanced events

/-- Traces of flows follow each other. -/
theorem FlowTrace.append {kind : Event → Prop} {db'' : Db} {slot' : ℕ} {calls' : List MetricCall}
    {links links' : List (JobId × JobId)} {events events' : List Event}
    (first : FlowTrace ext kind t k slot db db' calls links events)
    (second : FlowTrace ext kind t slot slot' db' db'' calls' links' events') :
    FlowTrace ext kind t k slot' db db'' (calls ++ calls') (links ++ links')
      (events ++ events') where
  trace := first.trace.append id second.trace
  links := by rw [List.filterMap_append, first.links, second.links]
  balanced := by
    intro j
    rw [announced_append, List.filterMap_append, linkedTo_append, first.balanced, second.balanced]
    push_cast
    rfl

/-- A prepared tree: a root without a parent and nodes that hang below it. -/
structure FreshTree (ext : Externals) (t k : ℕ) (root : PreparedNode)
    (rest : List PreparedNode) : Prop where
  id : root.id = ext.newV4 t k
  parentless : root.parentId = none
  depth : root.depth = 0
  gated : root.Gated
  below : WellPrepared ext t (k + 1) (fun p d => p = some root.id ∧ d = 1) rest
  announced : ∀ j, (childrenIn (root :: rest) j : ℤ) = announcedIn (root :: rest) j

theorem flatten_fresh (tree : FlowJob) :
    ∃ root rest, flatten ext t tree none 0 k = root :: rest ∧ FreshTree ext t k root rest := by
  have counted := fun j => @childrenIn_flatten ext t j tree none 0 k
  obtain ⟨options, children⟩ := tree
  rw [flatten] at counted ⊢
  refine ⟨_, _, rfl, rfl, rfl, rfl, nodeState_gated _ _, ?_, fun j => by simpa using counted j⟩
  exact wellPrepared_flattenList children _ _ _ _ ⟨rfl, rfl⟩

/-- A fresh tree is planted root first. -/
theorem insertPreparedTree_trace {asked : List FlowOptions} {root : PreparedNode}
    {rest : List PreparedNode} {response : AddFlowResponse} (fresh : FreshTree ext t k root rest)
    (by_ : AskedBy asked (root :: rest))
    (ok : insertPreparedTree ext now db (root :: rest) = .ok (db', response)) :
    ∃ events, FlowTrace ext (Event.Sows asked) t k (k + (root :: rest).length) db db'
      (flushTreeMetrics (root :: rest)) (nodeLinks response.nodes) events := by
  simp only [insertPreparedTree, insertNodes, bind_eq_ok] at ok
  obtain ⟨db2, ⟨db1, first, others⟩, done⟩ := ok
  cases done
  have seated : Seated db (freshPlacement (root :: rest)) root := by
    refine ⟨fun _ => ⟨rfl, by simp [Placement.depthOf, freshPlacement, fresh.depth]⟩, ?_⟩
    intro p above
    simp [Placement.parentOf, freshPlacement, fresh.parentless] at above
  have chain := insertNode_chain fresh.id fresh.gated by_.head seated first
  have seats : ∀ p d, p = some root.id ∧ d = 1 → Seat db1 (freshPlacement (root :: rest)) p d := by
    rintro p d ⟨rfl, rfl⟩
    have vacuous : ∀ (q : Option JobId) (e : ℕ), False →
        Seat db (freshPlacement (root :: rest)) q e := fun _ _ => False.elim
    exact insertNode_seats vacuous first _ _ (.inr ⟨rfl, by rw [fresh.depth]⟩)
  have later := insertNodes_chain fresh.below by_.tail seats others
  have parents : ∀ node, (freshPlacement (root :: rest)).parentOf node = node.parentId := by
    intro node
    simp [Placement.parentOf, freshPlacement]
  refine ⟨plantEvents ext (freshPlacement (root :: rest)) now k (root :: rest), ⟨?_, ?_, ?_⟩,
    ?_, ?_⟩
  · rw [List.length_cons, Nat.add_comm rest.length, ← Nat.add_assoc]
    exact chain.append later
  · exact sows_plantEvents _ _ _ by_
  · intro _ gauge
    rw [flushTreeMetrics, callDelta_append, plantEvents_gauges]
  · rw [links_plantEvents, nodeLinks_describe]
    intro node mem p above
    rw [parents] at above
    rcases List.mem_cons.mp mem with rfl | below
    · rw [fresh.parentless] at above
      cases above
    · refine named_of_hangs fresh.below.consecutive fresh.below.hangs ?_ node below p above
      rintro q d ⟨same, -⟩
      rw [Option.some.injEq] at same
      rw [same, fresh.id]
      exact ne_empty_of_not_isBlank (ext.newV4_not_blank t k)
  · intro j
    rw [announced_plantEvents, links_plantEvents, linkedTo_filterMap_link, ← fresh.announced]
    simp [freshPlacement]

/-- What an accepted flow is made of: the preparation of its tree and the insertion. -/
theorem addFlow_ok {response : AddFlowResponse}
    (ok : addFlow ext service t clock db flow = .ok (response, db', calls)) :
    ∃ tree prepared, flow = some tree ∧
      prepareNode ext t service.maxFlowDepth service.maxFlowNodes tree none 0
        { seenKeys := [], out := [], uuids := 0 } = .ok prepared ∧
      insertPreparedTree ext (clock 0) db prepared.out = .ok (db', response) ∧
      calls = flushTreeMetrics prepared.out := by
  cases flow with
  | none => cases ok
  | some tree =>
    simp only [addFlow, bind_eq_ok] at ok
    obtain ⟨prepared, accepted, ⟨db₁, answer⟩, inserted, done⟩ := ok
    cases done
    exact ⟨tree, prepared, rfl, accepted, inserted, rfl⟩

/-- **`AddFlow`** plants one tree. -/
theorem addFlow_trace {response : AddFlowResponse}
    (ok : addFlow ext service t clock db flow = .ok (response, db', calls)) :
    ∃ slot events, FlowTrace ext (Event.Sows (FlowJob.allOptionsList flow.toList)) t 0 slot db db'
      calls (nodeLinks response.nodes) events := by
  obtain ⟨tree, prepared, rfl, accepted, inserted, rfl⟩ := addFlow_ok ok
  obtain ⟨out, -⟩ := prepareNode_ok tree none 0 _ _ accepted
  obtain ⟨root, rest, shape, fresh⟩ := @flatten_fresh ext t 0 tree
  simp only [List.nil_append, shape] at out
  rw [out] at inserted ⊢
  refine ⟨_, insertPreparedTree_trace fresh ?_ inserted⟩
  refine .of_map ?_
  rw [← shape, options_flatten]
  simp [FlowJob.allOptionsList]

/-- A prepared batch of trees, each fresh and drawn after the one before it. -/
def FreshTrees (ext : Externals) (t : ℕ) (asked : List FlowOptions) :
    ℕ → List (List PreparedNode) → Prop
  | _, [] => True
  | k, nodes :: rest =>
    (∃ root below, nodes = root :: below ∧ FreshTree ext t k root below) ∧
    AskedBy asked nodes ∧ FreshTrees ext t asked (k + nodes.length) rest

/-- Accepted trees are fresh, each with its own ids. -/
theorem prepareTrees_ok {asked : List FlowOptions} {seenKeys : List (String × String)}
    (by_ : FlowJob.allOptionsList flows ⊆ asked)
    (ok : prepareTrees ext service t seenKeys k flows = .ok trees) :
    FreshTrees ext t asked k trees := by
  induction flows generalizing seenKeys k trees with
  | nil =>
    cases ok
    trivial
  | cons tree rest ih =>
    simp only [prepareTrees, bind_eq_ok] at ok
    obtain ⟨prepared, accepted, others, later, done⟩ := ok
    cases done
    obtain ⟨out, drawn⟩ := prepareNode_ok tree none 0 _ _ accepted
    obtain ⟨root, below, shape, fresh⟩ := @flatten_fresh ext t k tree
    rw [FlowJob.allOptionsList, List.append_subset] at by_
    have options := AskedBy.of_map (@options_flatten ext t tree none 0 k)
    simp only [List.nil_append, shape] at out drawn options
    refine ⟨⟨root, below, out, fresh⟩, ?_, ?_⟩
    · rw [out]
      exact options.mono by_.1
    · rw [out, ← drawn]
      exact ih by_.2 later

/-- The traces of several trees follow each other. -/
theorem insertTrees_trace {asked : List FlowOptions} (fresh : FreshTrees ext t asked k trees)
    (ok : insertTrees ext now db trees = .ok (db', responses)) :
    ∃ slot events, FlowTrace ext (Event.Sows asked) t k slot db db'
      (trees.flatMap flushTreeMetrics)
      (responses.flatMap fun tree => nodeLinks tree.nodes) events := by
  induction trees generalizing db k responses with
  | nil =>
    cases ok
    exact ⟨k, [], .nil, rfl, fun _ => rfl⟩
  | cons nodes rest ih =>
    simp only [insertTrees, bind_eq_ok] at ok
    obtain ⟨⟨db1, response⟩, first, ⟨db2, others⟩, later, done⟩ := ok
    cases done
    obtain ⟨⟨root, below, rfl, tree⟩, by_, after⟩ := fresh
    obtain ⟨events, planted⟩ := insertPreparedTree_trace tree by_ first
    obtain ⟨slot, events', more⟩ := ih after later
    exact ⟨slot, events ++ events', planted.append more⟩

/-- What an accepted batch of flows is made of. -/
theorem addFlowBulk_ok {clock : Clock} {flows : List FlowJob} {responses : List AddFlowResponse}
    {calls : List MetricCall}
    (ok : addFlowBulk ext service t clock db flows = .ok (responses, db', calls)) :
    ∃ trees, prepareTrees ext service t [] 0 flows = .ok trees ∧
      insertTrees ext (clock 0) db trees = .ok (db', responses) ∧
      calls = trees.flatMap flushTreeMetrics := by
  unfold addFlowBulk at ok
  obtain ⟨-, ok⟩ := guard_eq_ok.mp ok
  obtain ⟨-, ok⟩ := guard_eq_ok.mp ok
  simp only [bind_eq_ok] at ok
  obtain ⟨trees, prepared, ⟨db₁, answers⟩, inserted, done⟩ := ok
  cases done
  exact ⟨trees, prepared, inserted, rfl⟩

theorem addFlowBulk_trace
    (ok : addFlowBulk ext service t clock db flows = .ok (responses, db', calls)) :
    ∃ slot events, FlowTrace ext (Event.Sows (FlowJob.allOptionsList flows)) t 0 slot db db' calls
      (responses.flatMap fun tree => nodeLinks tree.nodes) events := by
  obtain ⟨trees, prepared, inserted, rfl⟩ := addFlowBulk_ok ok
  exact insertTrees_trace (prepareTrees_ok (List.Subset.refl _) prepared) inserted

/-! ## Merges -/

/-- The target of a merge is live and not running. -/
theorem resolveTarget_ok {name key : String} (ok : resolveTarget db name key = .ok target) :
    db.jobs.find? target.id = some target ∧ target.state ≠ .active := by
  simp only [resolveTarget] at ok
  cases named : db.receiptFor name key with
  | none => simp [named] at ok
  | some receipt =>
    simp only [named] at ok
    cases live : db.jobs.find? receipt.jobId with
    | none => simp [live] at ok
    | some row =>
      simp only [live] at ok
      split at ok
      · cases ok
      · rename_i idle
        cases ok
        exact ⟨Table.find?_of_mem (Table.mem_of_find? live), idle⟩

/-- The target once it has a tree. -/
def JobRow.treed (target : JobRow) : JobRow :=
  { target with treeId := some (target.treeId.getD target.id) }

/-- Adopting a tree is one event, or none for a target that has one. -/
theorem adoptTree_chain (live : db.jobs.find? target.id = some target)
    (idle : target.state ≠ .active) :
    (adoptTree db target).jobs.find? target.id = some target.treed ∧
      Chain (Step ext) (db.ledger t k)
        (if target.treeId = none then [.adopted target] else [])
        ((adoptTree db target).ledger t k) := by
  rw [adoptTree]
  cases tree : target.treeId with
  | some root =>
    refine ⟨?_, .nil _⟩
    have same : target.treed = target := by
      rw [JobRow.treed, tree, Option.getD_some, ← tree]
    rw [same]
    exact live
  | none =>
    refine ⟨by simp [Table.find?_modify, live, JobRow.treed, tree], .single ⟨?_, ?_⟩⟩
    · exact ⟨live, idle, tree⟩
    · exact ledger_update (.adopted target) trivial _ live (fun _ _ => rfl) (by simp)

/-- Inserting nodes leaves the other rows alone. -/
theorem insertNodes_find? {j : JobId} {row : JobRow} (live : db.jobs.find? j = some row)
    (ok : insertNodes ext place now db nodes = .ok db') : db'.jobs.find? j = some row := by
  induction nodes generalizing db with
  | nil =>
    cases ok
    exact live
  | cons node rest ih =>
    simp only [insertNodes] at ok
    obtain ⟨db1, first, ok⟩ := bind_eq_ok.mp ok
    refine ih ?_ ok
    obtain ⟨jobs, insert, same, -⟩ := insertNode_ok first
    rw [same, Table.find?_of_insert insert, if_neg ?_, live]
    rintro rfl
    exact Table.not_has_of_insert insert (Table.has_iff_find?.mpr ⟨row, live⟩)

/-- The reading that stamps a parked target. -/
def regateStamp (target : JobRow) (clock : Clock) : ℤ := if regated target then clock 2 else clock 1

/-- The target is parked whatever it was doing but running. -/
theorem regate_eq {row : JobRow} {n : ℕ} (live : db.jobs.find? target.id = some row)
    (same : row.state = target.state) (idle : target.state ≠ .active) :
    regate db target n clock = { db with
      jobs := db.jobs.modify target.id (fun row => row.parked n (regateStamp target clock))
        fun _ => rfl } := by
  rw [regate, regateStamp]
  by_cases runnable : regated target
  · simp only [runnable, if_true, Table.modify_modify]
    rfl
  · simp only [runnable, if_false, Bool.false_eq_true]
    refine congrArg (fun jobs => ({ db with jobs := jobs } : Db)) (Table.modify_congr ?_)
    intro other found
    cases live.symm.trans found
    have parked : row.state = .waitingChildren := by
      rw [same]
      cases state : target.state <;> simp_all [regated]
    rw [JobRow.parked, ← parked]

/-- Parking the target of a merge is one event. -/
theorem regate_chain {row : JobRow} (n : ℕ) (clock : Clock)
    (live : db.jobs.find? target.id = some row) (same : row.state = target.state)
    (idle : target.state ≠ .active) :
    Chain (Step ext) (db.ledger t k) [.regated row n (regateStamp target clock)]
      ((regate db target n clock).ledger t k) := by
  have here : row.id = target.id := Table.key_of_find? live
  rw [regate_eq live same idle]
  refine .single ⟨⟨?_, same ▸ idle⟩, ledger_update (.regated row n _) trivial _ live ?_
    fun _ => rfl⟩
  · rw [here]
    exact live
  · intro i r
    rw [Event.evolve, here]

/-- The gauge calls of a merge, as unit changes. -/
theorem mergeMetrics_delta (idle : target.state ≠ .active) (gauge : Gauge) :
    callDelta (mergeMetrics target nodes) gauge =
      callDelta (treeTransitions nodes) gauge + callDelta (receiptCalls nodes) gauge +
        (LiveState.waitingChildren.unit gauge - target.state.unit gauge) := by
  have parked : callDelta (if regated target then
      [.transition target.state.label none, .flowWaitingChildrenInc 1] else []) gauge =
        LiveState.waitingChildren.unit gauge - target.state.unit gauge := by
    cases state : target.state with
    | active => exact absurd state idle
    | waitingChildren => simp [regated, state]
    | waiting =>
      simp [regated, state, MetricCall.delta, LiveState.unit, LiveState.label]
      ring
    | delayed =>
      simp [regated, state, MetricCall.delta, LiveState.unit, LiveState.label]
      ring
  rw [mergeMetrics, callDelta_append, callDelta_append, parked]
  ring

/-- **A merge** adopts its target, plants the nodes and parks the target. -/
theorem mergeInto_trace {asked : List FlowOptions} {name key : String}
    {response : AddFlowMergeResponse} (by_ : AskedBy asked nodes)
    (prepared : WellPrepared ext t 0 (fun p d => p = none ∧ d = 1) nodes)
    (counted : ∀ j, (childrenIn nodes j : ℤ) = announcedIn nodes j)
    (named : ∀ j, db.jobs.Has j → j ≠ "")
    (ok : mergeInto ext service clock db name key nodes = .ok (response, db', calls)) :
    ∃ target, resolveTarget db name key = .ok target ∧
      ∃ slot events, FlowTrace ext (Event.Merges asked target) t 0 slot db db' calls
        (nodeLinks response.attached) events := by
  simp only [mergeInto, bind_eq_ok] at ok
  obtain ⟨target, resolved, ⟨⟩, -, db2, inserted, done⟩ := ok
  cases done
  refine ⟨target, resolved, ?_⟩
  obtain ⟨live, idle⟩ := resolveTarget_ok resolved
  obtain ⟨adopted, first⟩ := @adoptTree_chain ext db t 0 target live idle
  have seats : ∀ p d, p = none ∧ d = 1 →
      Seat (adoptTree db target) (mergePlacement target) p d := by
    rintro p d ⟨rfl, rfl⟩
    exact ⟨target.id, target.treed, rfl, adopted, rfl, rfl⟩
  have second := insertNodes_chain prepared by_ seats inserted
  have third := @regate_chain ext db2 t (0 + nodes.length) target target.treed
    (nodes.countP fun node => node.parentId.isNone) clock (insertNodes_find? adopted inserted)
    rfl idle
  refine ⟨_, _, ⟨(first.append second).append third, ?_, ?_⟩, ?_, ?_⟩
  · intro e mem
    rcases List.mem_append.mp mem with early | last
    · rcases List.mem_append.mp early with start | planted
      · split at start
        · rw [List.mem_singleton.mp start]
          exact rfl
        · cases start
      · exact (sows_plantEvents _ _ _ by_ e planted).merges
    · rw [List.mem_singleton.mp last]
      exact rfl
  · intro _ gauge
    have silent :
        eventDelta (if target.treeId = none then [.adopted target] else []) gauge = 0 := by
      split <;> simp
    rw [mergeMetrics_delta idle, eventDelta_append, eventDelta_append, silent,
      ← plantEvents_gauges]
    simp [JobRow.treed]
  · have silent : (if target.treeId = none then [.adopted target] else []).filterMap
        Event.link = [] := by
      split <;> rfl
    rw [List.filterMap_append, List.filterMap_append, silent, links_plantEvents,
      nodeLinks_describe]
    · simp [Event.link]
    · intro node mem p above
      cases parent : node.parentId with
      | none =>
        simp only [Placement.parentOf, parent, Option.none_or, mergePlacement,
          Option.some.injEq] at above
        rw [← above]
        exact named target.id (Table.has_iff_find?.mpr ⟨target, live⟩)
      | some q =>
        simp only [Placement.parentOf, parent, Option.some_or, Option.some.injEq] at above
        rw [← above]
        refine named_of_hangs prepared.consecutive prepared.hangs ?_ node mem q parent
        simp
  · intro j
    have silent : announced (if target.treeId = none then [.adopted target] else []) j = 0 := by
      split <;> simp [announced, Event.announces]
    have quiet : (if target.treeId = none then [.adopted target] else []).filterMap
        Event.link = [] := by
      split <;> rfl
    rw [announced_append, announced_append, List.filterMap_append, List.filterMap_append, silent,
      quiet, announced_plantEvents, links_plantEvents, List.nil_append, linkedTo_append,
      linkedTo_filterMap_link, ← counted]
    by_cases here : target.id = j <;>
      simp [announced, Event.announces, Event.link, linkedTo, mergePlacement, JobRow.treed, here]

/-- What an accepted merge is made of. -/
theorem addFlowMerge_ok {response : AddFlowMergeResponse}
    (ok : addFlowMerge ext service t clock db flow = .ok (response, db', calls)) :
    ∃ tree prepared, flow = some tree ∧
      prepareNodes ext t u32Max u32Max tree.children none 1
        { seenKeys := [], out := [], uuids := 0 } = .ok prepared ∧
      mergeInto ext service clock db tree.options.name tree.options.idempotencyKey prepared.out =
        .ok (response, db', calls) := by
  cases flow with
  | none => cases ok
  | some tree =>
    unfold addFlowMerge at ok
    obtain ⟨-, ok⟩ := guard_eq_ok.mp ok
    obtain ⟨-, ok⟩ := guard_eq_ok.mp ok
    obtain ⟨prepared, accepted, merged⟩ := bind_eq_ok.mp ok
    exact ⟨tree, prepared, rfl, accepted, merged⟩

/-- **`AddFlowMerge`** is a merge. -/
theorem addFlowMerge_trace {response : AddFlowMergeResponse} (named : ∀ j, db.jobs.Has j → j ≠ "")
    (ok : addFlowMerge ext service t clock db flow = .ok (response, db', calls)) :
    ∃ tree target, flow = some tree ∧
      resolveTarget db tree.options.name tree.options.idempotencyKey = .ok target ∧
      ∃ slot events, FlowTrace ext
        (Event.Merges (FlowJob.allOptionsList tree.children) target) t 0 slot db db' calls
        (nodeLinks response.attached) events := by
  obtain ⟨tree, prepared, rfl, accepted, merged⟩ := addFlowMerge_ok ok
  obtain ⟨out, -⟩ := prepareNodes_ok tree.children none 1 _ _ accepted
  rw [out, List.nil_append] at merged
  obtain ⟨target, resolved, traced⟩ := mergeInto_trace
    (.of_map (options_flattenList tree.children none 1 0))
    (wellPrepared_flattenList _ _ _ _ _ ⟨rfl, rfl⟩)
    (fun j => by simpa using childrenIn_flattenList (t := t) j tree.children none 1 0) named merged
  exact ⟨tree, target, rfl, resolved, traced⟩

/-! ## What every planting keeps -/

/-- A relation between the database before and after that composes and that holds across
every inserted node and across the statements on the target of a merge. -/
structure PlantRelation (ext : Externals) (R : Db → Db → Prop) : Prop where
  refl : ∀ db, R db db
  trans : ∀ {db db' db''}, R db db' → R db' db'' → R db db''
  inserted : ∀ {place now db node db'}, insertNode ext place now db node = .ok db' → R db db'
  adopted : ∀ db target, R db (adoptTree db target)
  regated : ∀ db target n clock, R db (regate db target n clock)

namespace PlantRelation

variable {R : Db → Db → Prop}

theorem insertNodes (relation : PlantRelation ext R)
    (ok : insertNodes ext place now db nodes = .ok db') : R db db' := by
  induction nodes generalizing db with
  | nil =>
    cases ok
    exact relation.refl _
  | cons node rest ih =>
    simp only [AnvilMQ.insertNodes, bind_eq_ok] at ok
    obtain ⟨db₁, first, others⟩ := ok
    exact relation.trans (relation.inserted first) (ih others)

theorem insertPreparedTree (relation : PlantRelation ext R) {response : AddFlowResponse}
    (ok : insertPreparedTree ext now db nodes = .ok (db', response)) : R db db' := by
  simp only [AnvilMQ.insertPreparedTree, bind_eq_ok] at ok
  obtain ⟨db₁, inserted, done⟩ := ok
  cases done
  exact relation.insertNodes inserted

theorem insertTrees (relation : PlantRelation ext R)
    (ok : insertTrees ext now db trees = .ok (db', responses)) : R db db' := by
  induction trees generalizing db responses with
  | nil =>
    cases ok
    exact relation.refl _
  | cons nodes rest ih =>
    simp only [AnvilMQ.insertTrees, bind_eq_ok] at ok
    obtain ⟨⟨db₁, response⟩, first, ⟨db₂, others⟩, more, done⟩ := ok
    cases done
    exact relation.trans (relation.insertPreparedTree first) (ih more)

theorem addFlow (relation : PlantRelation ext R) {response : AddFlowResponse}
    (ok : addFlow ext service t clock db flow = .ok (response, db', calls)) : R db db' := by
  obtain ⟨tree, prepared, -, -, inserted, -⟩ := addFlow_ok ok
  exact relation.insertPreparedTree inserted

theorem addFlowBulk (relation : PlantRelation ext R)
    (ok : addFlowBulk ext service t clock db flows = .ok (responses, db', calls)) : R db db' := by
  obtain ⟨trees, -, inserted, -⟩ := addFlowBulk_ok ok
  exact relation.insertTrees inserted

theorem addFlowMerge (relation : PlantRelation ext R) {response : AddFlowMergeResponse}
    (ok : addFlowMerge ext service t clock db flow = .ok (response, db', calls)) : R db db' := by
  obtain ⟨tree, prepared, -, -, merged⟩ := addFlowMerge_ok ok
  simp only [mergeInto, bind_eq_ok] at merged
  obtain ⟨target, -, ⟨⟩, -, db₁, inserted, done⟩ := merged
  cases done
  exact relation.trans (relation.adopted db target)
    (relation.trans (relation.insertNodes inserted) (relation.regated _ _ _ _))

end PlantRelation

end AnvilMQ
