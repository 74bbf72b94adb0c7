import AnvilMQ.Properties.FlowValidation
import AnvilMQ.Properties.Lineage
import AnvilMQ.Properties.Quarantine

/-!
# The caps and the shape of flow trees

The caps of a flow tree are checked in two ways.  `AddFlow` and `AddFlowBulk` check
them in memory while they flatten the request; `AddFlowMerge` flattens without caps
and then checks the merged tree inside the transaction, with the rows that are live
and the depth of its target.  Whatever mix of requests, completions and failures has
gone before, the trees that are live keep to the caps, and the links between their
nodes are those of a tree.

The shape of the trees is an invariant of the ledger machine.  The number of nodes
is not, since no event says how many more are to come: it is counted in the
database, one operation at a time.
-/

namespace AnvilMQ

open Rust Relational Transition

/-- The number of live rows of a tree. -/
def treeSize (db : Db) (tree : JobId) : ℕ :=
  db.jobs.count fun row => decide (row.treeId = some tree)

/-- The highest execution depth the configuration lets a job have. -/
def Service.depthCap (service : Service) : ℤ := max service.maxExecutionDepth service.maxFlowDepth

/-- **The caps and the shape of flow trees**, in one database. -/
structure TreesCapped (service : Service) (db : Db) : Prop where
  nodes : ∀ tree, treeSize db tree ≤ service.maxFlowNodes
  depth : ∀ j row, db.jobs.find? j = some row → row.treeDepth ≤ service.maxFlowDepth
  archivedDepth : ∀ j entry, db.jobHistory.find? j = some entry →
    entry.treeDepth ≤ service.maxFlowDepth
  /-- A node of a tree other than its root hangs one below its parent, in the same tree. -/
  links : ∀ j row tree p parent, db.jobs.find? j = some row → row.treeId = some tree → tree ≠ j →
    row.parentId = some p → db.jobs.find? p = some parent →
    parent.treeId = some tree ∧ row.treeDepth = parent.treeDepth + 1
  execution : ∀ j row, db.jobs.find? j = some row → row.executionDepth ≤ service.depthCap
  archivedExecution : ∀ j entry, db.jobHistory.find? j = some entry →
    entry.executionDepth ≤ service.depthCap

variable {ext : Externals} {service : Service} {t k : ℕ} {db db' : Db} {clock : Clock}
  {l l' : Ledger} {e : Event} {run : List Op} {op : Op} {row : JobRow} {now : ℤ}
  {nodes : List PreparedNode} {trees : List (List PreparedNode)} {responses : List AddFlowResponse}
  {calls : List MetricCall}

/-! ## The shape of the trees -/

/-- **The shape invariant.**  Trees are named by ids that have been drawn, depths
count from zero, and the links between live nodes are those of a tree. -/
structure Shaped (ext : Externals) (l : Ledger) : Prop where
  sound : l.Sound ext
  treeDrawn : ∀ {j row tree}, l.jobs j = some row → row.treeId = some tree → l.Drawn ext tree
  nonneg : ∀ {j row}, l.jobs j = some row → 0 ≤ row.treeDepth
  links : ∀ {j row tree p parent}, l.jobs j = some row → row.treeId = some tree → tree ≠ j →
    row.parentId = some p → l.jobs p = some parent →
    parent.treeId = some tree ∧ row.treeDepth = parent.treeDepth + 1

namespace Shaped

theorem empty (ext : Externals) : Shaped ext (Db.empty.ledger 0 0) where
  sound := .empty ext
  treeDrawn := nofun
  nonneg := nofun
  links := nofun

/-- Where the tree of a live job comes from: it was planted with it, it has had it
before, or it has just adopted itself. -/
theorem treed_cases (enabled : e.Enabled ext l) {j tree : JobId}
    (found : (l.apply ext e).jobs j = some row) (treed : row.treeId = some tree) :
    (∃ slot, e = .planted row slot ∧ row.id = j) ∨
      (∃ old, l.jobs j = some old ∧ old.treeId = some tree ∧ old.SameIdentity row) ∨
      (∃ target, e = .adopted target ∧ target.id = j ∧ tree = j) := by
  rcases Ledger.apply_jobs found with ⟨born, here⟩ | ⟨old, live, rfl, -⟩
  · cases e with
    | enqueued inserted now slot =>
      cases born
      rw [enabled.treeless] at treed
      cases treed
    | planted inserted slot =>
      cases born
      exact .inl ⟨slot, rfl, here⟩
    | _ => cases born
  · rcases e.evolve_treeId j old with ⟨target, rfl, rfl⟩ | same
    · simp only [Event.evolve, if_true, Option.some.injEq] at treed
      exact .inr (.inr ⟨target, rfl, rfl, treed.symm⟩)
    · exact .inr (.inl ⟨old, live, same.symm.trans treed, e.evolve_sameIdentity j old⟩)

/-- **An enabled event keeps the shape invariant.** -/
theorem step (step : Step ext l e l') (shaped : Shaped ext l) : Shaped ext l' := by
  have sound := shaped.sound.step step
  have mono : ∀ {j}, l.Drawn ext j → l'.Drawn ext j := step.drawn_mono
  obtain ⟨enabled, rfl⟩ := step
  constructor
  case sound => exact sound
  case treeDrawn =>
    intro j row tree found treed
    rcases treed_cases enabled found treed with ⟨slot, rfl, -⟩ | ⟨old, live, same, -⟩ |
      ⟨target, -, -, rfl⟩
    · -- a planted root is its own tree, and any other node takes that of its parent
      cases parent : row.parentId with
      | none =>
        have root := (enabled.root parent).1
        rw [enabled.tree, root, Option.some.injEq] at treed
        rw [← treed]
        exact enabled.drawn_born rfl
      | some p =>
        obtain ⟨mother, live, tree', -⟩ := enabled.child p parent
        exact mono (shaped.treeDrawn live (tree'.trans treed))
    · exact mono (shaped.treeDrawn live same)
    · exact sound.drawn found
  case nonneg =>
    intro j row found
    rcases Ledger.apply_jobs found with ⟨born, -⟩ | ⟨before, live, rfl, -⟩
    · cases e with
      | enqueued inserted now slot =>
        cases born
        rw [enabled.treeDepth]
      | planted inserted slot =>
        cases born
        exact enabled.nonneg
      | _ => cases born
    · rw [(e.evolve_sameIdentity j before).treeDepth]
      exact shaped.nonneg live
  case links =>
    intro j row tree p parent found treed other above found'
    -- The parent was live before: a newborn job is nobody's parent.
    have parentOld : ∃ before, l.jobs p = some before ∧ parent = e.evolve p before := by
      rcases Ledger.apply_jobs found' with ⟨born, here⟩ | ⟨before, live, same, -⟩
      · exfalso
        have fresh := (enabled.born born).draws.not_drawn
        rw [here] at fresh
        rcases Ledger.apply_jobs found with ⟨born', -⟩ | ⟨before, live, rfl, -⟩
        · rw [born] at born'
          cases born'
          exact fresh (shaped.sound.known ((enabled.born born).parent p above))
        · rw [(e.evolve_sameIdentity j before).parentId] at above
          exact fresh ((shaped.sound.older live above).drawn (shaped.sound.drawn live))
      · exact ⟨before, live, same⟩
    obtain ⟨before, live, rfl⟩ := parentOld
    rw [(e.evolve_sameIdentity p before).treeDepth]
    rcases treed_cases enabled found treed with ⟨slot, rfl, -⟩ | ⟨old, was, tree', same⟩ |
      ⟨target, -, -, own⟩
    · obtain ⟨mother, found, tree', depth⟩ := enabled.child p above
      cases live.symm.trans found
      refine ⟨tree'.trans treed, ?_⟩
      rw [depth, Int.toNat_of_nonneg (shaped.nonneg live)]
    · rw [same.parentId] at above
      obtain ⟨parentTree, depth⟩ := shaped.links was tree' other above live
      refine ⟨?_, same.treeDepth.trans depth⟩
      rcases e.evolve_treeId p before with ⟨target, rfl, rfl⟩ | unchanged
      · -- a job that has a tree is not adopted into one
        cases live.symm.trans enabled.1
        rw [enabled.2.2] at parentTree
        cases parentTree
      · exact unchanged.trans parentTree
    · exact absurd own other

/-- Trees stay shaped along a chain. -/
theorem of_chain {events : List Event} (chain : Chain (Step ext) l events l')
    (shaped : Shaped ext l) : Shaped ext l' :=
  Chain.preserves (R := Step ext) Shaped.step chain shaped

end Shaped

theorem shaped_after (ext : Externals) (service : Service) (run : List Op) :
    Shaped ext ((dbAfter ext service run).ledger run.length 0) :=
  (Shaped.empty ext).of_chain (history_chain ext service run)

/-! ## What a request plants -/

/-- The rows of prepared nodes are appended to the live ones. -/
theorem insertNodes_rows {place : Placement} (ok : insertNodes ext place now db nodes = .ok db') :
    db'.jobs.rows = db.jobs.rows ++
      nodes.map fun node => plantedRow place node now (now + node.options.delayMs) := by
  induction nodes generalizing db with
  | nil =>
    cases ok
    rw [List.map_nil, List.append_nil]
  | cons node rest ih =>
    rw [insertNodes] at ok
    obtain ⟨db₁, first, later⟩ := bind_eq_ok.mp ok
    obtain ⟨jobs, insert, same, -⟩ := insertNode_ok first
    rw [ih later, same, Table.rows_of_insert insert, List.append_assoc, List.map_cons,
      List.singleton_append]

/-- The rows that are planted all join one tree. -/
theorem treeSize_planted {place : Placement} (ok : insertNodes ext place now db nodes = .ok db')
    (tree : JobId) :
    treeSize db' tree =
      treeSize db tree + if place.treeId = tree then nodes.length else 0 := by
  rw [treeSize, Table.count, insertNodes_rows ok, List.countP_append, treeSize, Table.count,
    List.countP_map]
  congr 1
  split
  · rename_i here
    rw [List.countP_eq_length]
    intro node mem
    simpa [plantedRow] using here
  · rename_i elsewhere
    rw [List.countP_eq_zero]
    intro node mem
    simpa [plantedRow] using elsewhere

mutual

/-- No node is deeper than the tree is high. -/
theorem flatten_depth_le : ∀ (tree : FlowJob) (parentId : Option JobId) (depth k : ℕ),
    ∀ node ∈ flatten ext t tree parentId depth k, node.depth ≤ depth + tree.height
  | .node options children, parentId, depth, k => by
    rw [flatten, FlowJob.height]
    intro node mem
    rcases List.mem_cons.mp mem with rfl | below
    · exact Nat.le_add_right _ _
    · exact flattenList_depth_le children _ _ _ node below

theorem flattenList_depth_le : ∀ (trees : List FlowJob) (parentId : Option JobId) (depth k : ℕ),
    ∀ node ∈ flattenList ext t trees parentId (depth + 1) k,
      node.depth ≤ depth + FlowJob.heightBelow trees
  | [], _, _, _ => by
    rw [flattenList]
    simp
  | tree :: rest, parentId, depth, k => by
    rw [flattenList, FlowJob.heightBelow]
    intro node mem
    rcases List.mem_append.mp mem with here | later
    · have := flatten_depth_le tree parentId (depth + 1) k node here
      omega
    · have := flattenList_depth_le rest parentId depth _ node later
      omega

end

/-- What the validation of a fresh tree leaves within the caps. -/
theorem prepared_within {maxDepth maxNodes : ℕ} {tree : FlowJob}
    {seenKeys : List (String × String)} {prepared : PrepareState}
    (ok : prepareNode ext t maxDepth maxNodes tree none 0 ⟨seenKeys, [], k⟩ = .ok prepared) :
    prepared.out.length ≤ maxNodes ∧ ∀ node ∈ prepared.out, node.depth ≤ maxDepth := by
  obtain ⟨height, fits⟩ := (prepareNode_iff tree none 0 _).mp ⟨prepared, ok⟩
  have length := (prepareNode_passed tree none 0 _ _ ok).length
  obtain ⟨out, -⟩ := prepareNode_ok tree none 0 _ _ ok
  refine ⟨length ▸ fits.count, fun node mem => ?_⟩
  rw [out, List.nil_append] at mem
  exact (flatten_depth_le tree none 0 k node mem).trans height

/-! ## The number of nodes -/

/-- No tree has more live nodes than the cap. -/
def NodesWithin (cap : ℕ) (db : Db) : Prop := ∀ tree, treeSize db tree ≤ cap

/-- A fresh tree is named by an id that no live row carries yet. -/
theorem treeSize_fresh (shaped : Shaped ext (db.ledger t k)) :
    treeSize db (ext.newV4 t k) = 0 := by
  rw [treeSize, Table.count, List.countP_eq_zero]
  intro row mem treed
  have live : (db.ledger t k).jobs row.id = some row := Table.find?_of_mem mem
  have fresh : (db.ledger t k).Draws ext (ext.newV4 t k) (k + 1) :=
    ⟨k, le_rfl, Nat.lt_succ_self k, rfl⟩
  exact fresh.not_drawn (shaped.treeDrawn live (of_decide_eq_true treed))

/-- A tree of its own is as large as its nodes are many. -/
theorem insertPreparedTree_within {cap : ℕ} {root : PreparedNode} {rest : List PreparedNode}
    {response : AddFlowResponse} (fresh : FreshTree ext t k root rest)
    (small : (root :: rest).length ≤ cap) (shaped : Shaped ext (db.ledger t k))
    (within : NodesWithin cap db)
    (ok : insertPreparedTree ext now db (root :: rest) = .ok (db', response)) :
    NodesWithin cap db' := by
  simp only [insertPreparedTree, bind_eq_ok] at ok
  obtain ⟨db₁, inserted, done⟩ := ok
  cases done
  intro tree
  rw [treeSize_planted inserted]
  have name : (freshPlacement (root :: rest)).treeId = ext.newV4 t k := fresh.id
  rw [name]
  split
  · rename_i here
    rw [← here, treeSize_fresh shaped, Nat.zero_add]
    exact small
  · exact within tree

/-- So is each of several trees. -/
theorem insertTrees_within {cap : ℕ} {asked : List FlowOptions}
    (fresh : FreshTrees ext t asked k trees) (small : ∀ nodes ∈ trees, nodes.length ≤ cap)
    (shaped : Shaped ext (db.ledger t k)) (within : NodesWithin cap db)
    (ok : insertTrees ext now db trees = .ok (db', responses)) : NodesWithin cap db' := by
  induction trees generalizing db k responses with
  | nil =>
    cases ok
    exact within
  | cons nodes rest ih =>
    simp only [insertTrees, bind_eq_ok] at ok
    obtain ⟨⟨db₁, response⟩, first, ⟨db₂, others⟩, later, done⟩ := ok
    cases done
    obtain ⟨⟨root, below, rfl, tree⟩, by_, after⟩ := fresh
    obtain ⟨here, there⟩ := List.forall_mem_cons.mp small
    obtain ⟨events, planted⟩ := insertPreparedTree_trace tree by_ first
    exact ih after there (shaped.of_chain planted.trace.chain)
      (insertPreparedTree_within tree here shaped within first) later

/-- An update that leaves a row in or out of a tree keeps the size of the tree. -/
theorem treeSize_modify {j tree : JobId} {row : JobRow} {f : JobRow → JobRow}
    {keeps : ∀ r, (f r).id = r.id} (live : db.jobs.find? j = some row)
    (same : (f row).treeId = some tree ↔ row.treeId = some tree) :
    treeSize { db with jobs := db.jobs.modify j f keeps } tree = treeSize db tree := by
  have counted := @Table.count_modify _ _ _ row j db.jobs
    (fun row => decide (row.treeId = some tree)) _ f keeps live
  rw [decide_eq_decide.mpr same] at counted
  exact Nat.add_right_cancel counted

/-- The target of a merge joins its own tree before the nodes are counted. -/
theorem treeSize_adoptTree {target : JobRow} (live : db.jobs.find? target.id = some target)
    {tree : JobId} (other : target.treeId.getD target.id ≠ tree) :
    treeSize (adoptTree db target) tree = treeSize db tree := by
  unfold adoptTree
  cases treed : target.treeId with
  | some own => rfl
  | none =>
    rw [treed, Option.getD_none] at other
    refine treeSize_modify live ?_
    simp [treed, other]

/-- A merge checks the size of its own tree, and leaves the others alone. -/
theorem mergeInto_within {name key : String} {response : AddFlowMergeResponse}
    (within : NodesWithin service.maxFlowNodes db)
    (ok : mergeInto ext service clock db name key nodes = .ok (response, db', calls)) :
    NodesWithin service.maxFlowNodes db' := by
  simp only [mergeInto, bind_eq_ok] at ok
  obtain ⟨target, resolved, ⟨⟩, checked, db₂, inserted, done⟩ := ok
  cases done
  obtain ⟨live, idle⟩ := resolveTarget_ok resolved
  have adopted := (@adoptTree_chain ext db 0 0 target live idle).1
  have parked := insertNodes_find? adopted inserted
  have resized : ∀ tree, treeSize (regate db₂ target
      (nodes.countP fun node => node.parentId.isNone) clock) tree = treeSize db₂ tree := by
    intro tree
    rw [regate_eq parked rfl idle]
    exact treeSize_modify parked Iff.rfl
  intro tree
  rw [resized, treeSize_planted inserted]
  unfold checkMergeCaps at checked
  obtain ⟨-, checked⟩ := guard_eq_ok.mp checked
  obtain ⟨room, -⟩ := guard_eq_ok.mp checked
  split
  · rename_i here
    rw [← here]
    exact Nat.not_lt.mp room
  · rename_i other
    rw [treeSize_adoptTree live other]
    exact within tree

theorem addFlow_within {flow : Option FlowJob} {response : AddFlowResponse}
    (shaped : Shaped ext (db.ledger t 0)) (within : NodesWithin service.maxFlowNodes db)
    (ok : addFlow ext service t clock db flow = .ok (response, db', calls)) :
    NodesWithin service.maxFlowNodes db' := by
  obtain ⟨tree, prepared, -, accepted, inserted, -⟩ := addFlow_ok ok
  have small := (prepared_within accepted).1
  obtain ⟨out, -⟩ := prepareNode_ok tree none 0 _ _ accepted
  obtain ⟨root, rest, shape, fresh⟩ := @flatten_fresh ext t 0 tree
  rw [List.nil_append, shape] at out
  rw [out] at inserted small
  exact insertPreparedTree_within fresh small shaped within inserted

/-- Every tree of an accepted batch keeps to the caps. -/
theorem prepareTrees_within {seenKeys : List (String × String)} {flows : List FlowJob}
    (ok : prepareTrees ext service t seenKeys k flows = .ok trees) :
    ∀ nodes ∈ trees, nodes.length ≤ service.maxFlowNodes ∧
      ∀ node ∈ nodes, node.depth ≤ service.maxFlowDepth := by
  induction flows generalizing seenKeys k trees with
  | nil =>
    cases ok
    simp
  | cons tree rest ih =>
    simp only [prepareTrees, bind_eq_ok] at ok
    obtain ⟨prepared, accepted, others, later, done⟩ := ok
    cases done
    exact List.forall_mem_cons.mpr ⟨prepared_within accepted, ih later⟩

theorem addFlowBulk_within {flows : List FlowJob} (shaped : Shaped ext (db.ledger t 0))
    (within : NodesWithin service.maxFlowNodes db)
    (ok : addFlowBulk ext service t clock db flows = .ok (responses, db', calls)) :
    NodesWithin service.maxFlowNodes db' := by
  obtain ⟨trees, prepared, inserted, -⟩ := addFlowBulk_ok ok
  exact insertTrees_within (prepareTrees_ok (List.Subset.refl _) prepared)
    (fun nodes mem => (prepareTrees_within prepared nodes mem).1) shaped within inserted

/-! ## The events that leave the trees alone -/

/-- The event neither plants a node nor makes a job the root of a tree. -/
def Event.LeavesTrees : Event → Prop
  | planted _ _ => False
  | adopted _ => False
  | _ => True

/-- A node of a tree was one before events that leave the trees alone. -/
theorem treed_of_chain {events : List Event} (chain : Chain (Step ext) l events l')
    (leaves : ∀ e ∈ events, e.LeavesTrees) {j tree : JobId} (live : l'.jobs j = some row)
    (treed : row.treeId = some tree) : ∃ old, l.jobs j = some old ∧ old.treeId = some tree := by
  induction chain generalizing row with
  | nil => exact ⟨row, live, treed⟩
  | @cons l next final e events head rest ih =>
    obtain ⟨first, others⟩ := List.forall_mem_cons.mp leaves
    obtain ⟨middle, found, same⟩ := ih others live treed
    obtain ⟨enabled, rfl⟩ := head
    rcases Shaped.treed_cases enabled found same with ⟨slot, rfl, -⟩ | ⟨old, was, tree', -⟩ |
      ⟨target, rfl, -⟩
    · exact first.elim
    · exact ⟨old, was, tree'⟩
    · exact first.elim

/-- An operation that plants nothing leaves every tree alone. -/
theorem Op.Emits.leavesTrees {db : Db} (emits : op.Emits service db e) (other : ¬ op.Plants) :
    e.LeavesTrees := by
  cases op with
  | addFlow clock flow => exact absurd trivial other
  | addFlowBulk clock flows => exact absurd trivial other
  | addFlowMerge clock flow => exact absurd trivial other
  | getNextJob _ _ | heartbeat _ _ | completeJob _ _ | failJob _ _ _ | recoverExpired _ _ =>
    have work := emits.isWork trivial
    cases e <;> first | exact work.elim | trivial
  | upsertRateLimitRule clock req => exact emits.elim
  | deleteRateLimitRule facetKey => exact emits.elim
  | _ => cases e <;> first | exact emits.elim | trivial

/-- An operation that is no flow request makes no tree larger. -/
theorem treeSize_after (other : ¬ op.Plants) (tree : JobId) :
    treeSize (dbAfter ext service (run ++ [op])) tree ≤
      treeSize (dbAfter ext service run) tree := by
  obtain ⟨slot, refines⟩ := eventsOf_refines ext service run op
  refine Table.count_le_of_keys fun row mem treed => ?_
  have live : ((dbAfter ext service (run ++ [op])).ledger (run ++ [op]).length 0).jobs row.id =
      some row := Table.find?_of_mem mem
  obtain ⟨old, was, tree'⟩ := treed_of_chain (next_chain ext service run op) (fun e emitted => by
    rcases List.mem_append.mp emitted with here | last
    · exact (refines.emits e here).leavesTrees other
    · rw [List.mem_singleton.mp last]
      trivial) live (of_decide_eq_true treed)
  exact ⟨old, Table.mem_of_find? was, Table.key_of_find? was, decide_eq_true tree'⟩

/-- **No tree outgrows the cap**, in any run. -/
theorem nodesWithin_after (ext : Externals) (service : Service) (run : List Op) :
    NodesWithin service.maxFlowNodes (dbAfter ext service run) := by
  induction run using List.reverseRecOn with
  | nil => exact fun tree => Nat.zero_le _
  | append_singleton run op ih =>
    have shaped := shaped_after ext service run
    by_cases plants : op.Plants
    · cases op with
      | addFlow clock flow =>
        rcases transact_cases ext service run (.addFlow clock flow) rfl with
          ⟨-, same⟩ | ⟨⟨response, db', calls⟩, ok, -, after⟩
        · rw [not_not.mp same]
          exact ih
        · rw [after]
          exact addFlow_within shaped ih ok
      | addFlowBulk clock flows =>
        rcases transact_cases ext service run (.addFlowBulk clock flows) rfl with
          ⟨-, same⟩ | ⟨⟨responses, db', calls⟩, ok, -, after⟩
        · rw [not_not.mp same]
          exact ih
        · rw [after]
          exact addFlowBulk_within shaped ih ok
      | addFlowMerge clock flow =>
        rcases transact_cases ext service run (.addFlowMerge clock flow) rfl with
          ⟨-, same⟩ | ⟨⟨response, db', calls⟩, ok, -, after⟩
        · rw [not_not.mp same]
          exact ih
        · obtain ⟨tree, prepared, -, -, merged⟩ := addFlowMerge_ok ok
          rw [after]
          exact mergeInto_within ih merged
      | _ => exact plants.elim
    · exact fun tree => (treeSize_after plants tree).trans (ih tree)

/-! ## New jobs -/

/-- **The rule for new jobs**: what holds of every row an enqueue builds within the
depth breaker, and of every row a flow request builds within the height cap. -/
structure InsertionRule (service : Service) (P : JobRow → Prop) : Prop where
  enqueued : ∀ req id parentId traceId (depth : ℤ) now availableAt,
    depth ≤ service.maxExecutionDepth →
      P (enqueuedRow req id parentId traceId depth now availableAt)
  planted : ∀ place node now availableAt, place.depthOf node ≤ service.maxFlowDepth →
    P (plantedRow place node now availableAt)

/-- From one database to the other jobs were appended, all of which satisfy `P`. -/
def Appends (P : JobRow → Prop) (db db' : Db) : Prop :=
  ∃ new, db'.jobs.rows = db.jobs.rows ++ new ∧ ∀ row ∈ new, P row

variable {P : JobRow → Prop}

theorem Appends.of_same (jobs : db'.jobs = db.jobs) : Appends P db db' :=
  ⟨[], by rw [jobs, List.append_nil], by simp⟩

theorem Appends.trans {db'' : Db} (first : Appends P db db') (second : Appends P db' db'') :
    Appends P db db'' := by
  obtain ⟨new, rows, within⟩ := first
  obtain ⟨new', rows', within'⟩ := second
  refine ⟨new ++ new', by rw [rows', rows, List.append_assoc], fun row mem => ?_⟩
  exact (List.mem_append.mp mem).elim (within row) (within' row)

namespace InsertionRule

/-- The depth breaker lets an enqueue through only within its cap. -/
theorem insertEnqueued (rule : InsertionRule service P) {req : AddJobRequest}
    {receiptRequest : Option Bytes} {out : EnqueueOutcome}
    (ok : insertEnqueued ext service t k db req receiptRequest now = .ok out) :
    Appends P db out.db := by
  obtain ⟨db₁, db₂, availableAt, depth, trace, jobs, admitted, -, -, shallow, chained, insert,
    written, -⟩ := insertEnqueued_ok ok
  have admission : db₁.jobs = db.jobs := (admitRequest_ok (t := 0) (k := 0) admitted).1.jobs
  have counted : db₂.jobs = db₁.jobs := (checkChain_ok chained).1.jobs
  have rows := Table.rows_of_insert insert
  rw [counted, admission] at rows
  refine ⟨_, (congrArg Table.rows (writeReceipt_jobs written)).trans rows, fun row mem => ?_⟩
  rw [List.mem_singleton.mp mem]
  unfold checkDepth at shallow
  obtain ⟨low, -⟩ := guard_eq_ok.mp shallow
  exact rule.enqueued _ _ _ _ _ _ _ (not_lt.mp low)

theorem serve (rule : InsertionRule service P) (enqueues : op.Enqueues) :
    Appends P db (serve ext service t db op).1 := by
  have relation : IntakeRelation ext service t (fun _ => True) (Appends P) :=
    ⟨fun _ => .of_same rfl, Appends.trans, fun _ => rule.insertEnqueued⟩
  exact relation.serve
    (fun db _ _ _ => .of_same (recordRejection_view Db.jobs (fun _ _ _ => rfl) db _ _ _))
    (fun _ _ _ _ _ => .of_same rfl) enqueues

/-- Nodes are within the caps when the place they are put at leaves room below it. -/
theorem insertNodes (rule : InsertionRule service P) {place : Placement}
    (low : ∀ node ∈ nodes, place.depth + node.depth ≤ service.maxFlowDepth)
    (ok : insertNodes ext place now db nodes = .ok db') : Appends P db db' := by
  refine ⟨_, insertNodes_rows ok, fun row mem => ?_⟩
  obtain ⟨node, here, rfl⟩ := List.mem_map.mp mem
  exact rule.planted place node _ _ (low node here)

theorem insertPreparedTree (rule : InsertionRule service P) {response : AddFlowResponse}
    (low : ∀ node ∈ nodes, node.depth ≤ service.maxFlowDepth)
    (ok : insertPreparedTree ext now db nodes = .ok (db', response)) : Appends P db db' := by
  simp only [AnvilMQ.insertPreparedTree, bind_eq_ok] at ok
  obtain ⟨db₁, inserted, done⟩ := ok
  cases done
  refine rule.insertNodes (fun node mem => ?_) inserted
  show 0 + node.depth ≤ service.maxFlowDepth
  rw [Nat.zero_add]
  exact low node mem

theorem insertTrees (rule : InsertionRule service P)
    (low : ∀ nodes ∈ trees, ∀ node ∈ nodes, node.depth ≤ service.maxFlowDepth)
    (ok : insertTrees ext now db trees = .ok (db', responses)) : Appends P db db' := by
  induction trees generalizing db responses with
  | nil =>
    cases ok
    exact .of_same rfl
  | cons nodes rest ih =>
    simp only [AnvilMQ.insertTrees, bind_eq_ok] at ok
    obtain ⟨⟨db₁, response⟩, first, ⟨db₂, others⟩, later, done⟩ := ok
    cases done
    obtain ⟨here, there⟩ := List.forall_mem_cons.mp low
    exact (rule.insertPreparedTree here first).trans (ih there later)

end InsertionRule

/-- The height of a merged forest bounds the depth of its nodes. -/
theorem depth_le_subtreeHeight {node : PreparedNode} (mem : node ∈ nodes) :
    node.depth ≤ subtreeHeight nodes := by
  rw [subtreeHeight]
  have here : node.depth ∈ nodes.map PreparedNode.depth := List.mem_map_of_mem mem
  cases highest : (nodes.map PreparedNode.depth).max? with
  | none =>
    rw [List.max?_eq_none_iff.mp highest] at here
    cases here
  | some height => exact (List.max?_eq_some_iff.mp highest).2 _ here

/-- Parking the target leaves the other rows alone. -/
theorem regate_find?_of_ne {target : JobRow} {n : ℤ} {j : JobId} (other : j ≠ target.id) :
    (regate db target n clock).jobs.find? j = db.jobs.find? j := by
  unfold regate
  split
  · simp only [Table.find?_modify, if_neg other]
  · simp only [Table.find?_modify, if_neg other]

namespace InsertionRule

/-- The nodes a merge adds are within the caps: it checks the height of the merged
tree. -/
theorem mergeInto (rule : InsertionRule service P) {name key : String}
    {response : AddFlowMergeResponse} (shaped : Shaped ext (db.ledger t k))
    (ok : mergeInto ext service clock db name key nodes = .ok (response, db', calls)) :
    ∀ row ∈ newRows db db', P row := by
  simp only [AnvilMQ.mergeInto, bind_eq_ok] at ok
  obtain ⟨target, resolved, ⟨⟩, checked, db₂, inserted, done⟩ := ok
  cases done
  obtain ⟨live, idle⟩ := resolveTarget_ok resolved
  unfold checkMergeCaps at checked
  obtain ⟨high, -⟩ := guard_eq_ok.mp checked
  have low : ∀ node ∈ nodes, (mergePlacement target).depth + node.depth ≤ service.maxFlowDepth := by
    intro node mem
    have := depth_le_subtreeHeight mem
    have := shaped.nonneg live
    have place : (mergePlacement target).depth = target.treeDepth.toNat := rfl
    omega
  obtain ⟨new, rows, within⟩ := rule.insertNodes low inserted
  intro row mem
  obtain ⟨found, absent⟩ := List.mem_filter.mp mem
  have absent : ¬ db.jobs.Has row.id := by simpa using absent
  -- The target is no new row, and the statements on it leave the others alone.
  have other : row.id ≠ target.id := by
    intro same
    rw [same] at absent
    exact absent (Table.has_iff_find?.mpr ⟨target, live⟩)
  have kept := (regate_find?_of_ne other).symm.trans (Table.find?_of_mem found)
  have here := Table.mem_of_find? kept
  rw [Table.mem_def, rows] at here
  rcases List.mem_append.mp here with old | added
  · have has : (adoptTree db target).jobs.Has row.id := Table.has_of_mem old
    unfold adoptTree at has
    split at has
    · exact absurd has absent
    · rw [Table.has_modify] at has
      exact absurd has absent
  · exact within row added

/-- **The rule holds of what an operation inserts.** -/
theorem insertedBy (rule : InsertionRule service P) :
    ∀ row ∈ insertedBy ext service run op, P row := by
  have of_appends : Appends P (dbAfter ext service run) (dbAfter ext service (run ++ [op])) →
      ∀ row ∈ AnvilMQ.insertedBy ext service run op, P row := by
    rintro ⟨new, rows, within⟩
    rw [AnvilMQ.insertedBy, newRows_of_append rows]
    exact within
  by_cases enqueues : op.Enqueues
  · refine of_appends ?_
    rw [dbAfter_concat]
    exact rule.serve enqueues
  by_cases plants : op.Plants
  · cases op with
    | addFlow clock flow =>
      refine of_appends ?_
      rcases transact_cases ext service run (.addFlow clock flow) rfl with
        ⟨-, same⟩ | ⟨⟨response, db', calls⟩, ok, -, after⟩
      · rw [not_not.mp same]
        exact .of_same rfl
      · rw [after]
        obtain ⟨tree, prepared, -, accepted, inserted, -⟩ := addFlow_ok ok
        exact rule.insertPreparedTree (prepared_within accepted).2 inserted
    | addFlowBulk clock flows =>
      refine of_appends ?_
      rcases transact_cases ext service run (.addFlowBulk clock flows) rfl with
        ⟨-, same⟩ | ⟨⟨responses, db', calls⟩, ok, -, after⟩
      · rw [not_not.mp same]
        exact .of_same rfl
      · rw [after]
        obtain ⟨trees, prepared, inserted, -⟩ := addFlowBulk_ok ok
        exact rule.insertTrees (fun nodes mem => (prepareTrees_within prepared nodes mem).2)
          inserted
    | addFlowMerge clock flow =>
      rcases transact_cases ext service run (.addFlowMerge clock flow) rfl with
        ⟨-, same⟩ | ⟨⟨response, db', calls⟩, ok, -, after⟩
      · refine of_appends ?_
        rw [not_not.mp same]
        exact .of_same rfl
      · obtain ⟨tree, prepared, -, -, merged⟩ := addFlowMerge_ok ok
        rw [AnvilMQ.insertedBy, after]
        exact rule.mergeInto (shaped_after ext service run) merged
    | _ => exact plants.elim
  · rw [insertedBy_eq_nil (Op.not_creates plants enqueues)]
    simp

end InsertionRule

/-! ## Depths -/

/-- The depths of a job keep to the caps. -/
structure JobRow.WithinDepths (service : Service) (row : JobRow) : Prop where
  tree : row.treeDepth ≤ service.maxFlowDepth
  execution : row.executionDepth ≤ service.depthCap

theorem JobRow.SameIdentity.withinDepths {r r' : JobRow} (same : r.SameIdentity r')
    (within : r.WithinDepths service) : r'.WithinDepths service :=
  ⟨same.treeDepth ▸ within.tree, same.executionDepth ▸ within.execution⟩

/-- **A new job keeps to the depth caps.** -/
theorem depthRule (service : Service) : InsertionRule service (JobRow.WithinDepths service) where
  enqueued := fun _ _ _ _ _ _ _ low =>
    ⟨Int.natCast_nonneg _, low.trans (le_max_left _ _)⟩
  planted := fun place node _ _ low => by
    have bounded : ((place.depthOf node : ℕ) : ℤ) ≤ service.maxFlowDepth := Int.ofNat_le.mpr low
    exact ⟨bounded, bounded.trans (le_max_right _ _)⟩

/-- Every job in the books keeps to the depth caps. -/
structure Ledger.WithinDepths (service : Service) (l : Ledger) : Prop where
  live : ∀ {j row}, l.jobs j = some row → row.WithinDepths service
  archived : ∀ {j entry}, l.jobHistory j = some entry →
    entry.treeDepth ≤ service.maxFlowDepth ∧ entry.executionDepth ≤ service.depthCap

/-- The depth in its tree is archived with a job, or dropped. -/
theorem Event.Enabled.retires_treeDepth (enabled : e.Enabled ext l) {entry : HistoryRow}
    (retires : e.retires = some (row, entry)) :
    entry.treeDepth = row.treeDepth ∨ entry.treeDepth = 0 := by
  cases e with
  | completed found written parent now updatedAt released =>
    cases retires
    obtain ⟨-, -, ⟨at_, result, rfl⟩, -⟩ := enabled
    exact .inl rfl
  | failed found written cause released =>
    cases retires
    cases cause with
    | reported =>
      obtain ⟨-, -, at_, error, rfl⟩ := enabled
      exact .inl rfl
    | cascaded =>
      obtain ⟨-, at_, error, rfl⟩ := enabled
      exact .inl rfl
    | expired =>
      obtain ⟨-, -, at_, rfl⟩ := enabled
      exact .inr rfl
  | _ => cases retires

/-- **An enabled event keeps the depths within the caps.** -/
theorem Ledger.WithinDepths.step (births : ∀ row, e.born = some row → row.WithinDepths service)
    (step : Step ext l e l') (within : l.WithinDepths service) : l'.WithinDepths service := by
  obtain ⟨enabled, rfl⟩ := step
  constructor
  · intro j row found
    rcases Ledger.apply_jobs found with ⟨born, -⟩ | ⟨before, live, rfl, -⟩
    · exact births row born
    · exact (e.evolve_sameIdentity j before).withinDepths (within.live live)
  · intro j entry found
    rcases Ledger.apply_jobHistory found with ⟨row, retires, -⟩ | ⟨was, -⟩
    · obtain ⟨live, copy, -⟩ := enabled.retires retires
      obtain ⟨tree, execution⟩ := within.live live
      refine ⟨?_, copy.executionDepth ▸ execution⟩
      rcases enabled.retires_treeDepth retires with same | zero
      · exact same ▸ tree
      · rw [zero]
        exact Int.natCast_nonneg _
    · exact within.archived was

/-- What is born along an operation is what it inserts. -/
theorem born_within (mem : e ∈ eventsOf ext service run op) (born : e.born = some row) :
    row.WithinDepths service := by
  have kept : ∀ e ∈ eventsOf ext service run op ++ [.tick], e.retiredId = none :=
    fun e emitted => (creation_of_creates (creates_of_born mem born) e emitted).kept
  have chain := next_chain ext service run op
  have mem' := List.mem_append_left [Event.tick] mem
  obtain ⟨row', live, same⟩ := (sound_after ext service run).live_of_born chain kept mem' born
  have absent : ¬ (dbAfter ext service run).jobs.Has row.id := by
    intro has
    obtain ⟨old, was⟩ := Table.has_iff_find?.mp has
    exact Ledger.Sound.born_not_drawn chain mem' born ((sound_after ext service run).drawn was)
  have inserted : row' ∈ insertedBy ext service run op := by
    refine List.mem_filter.mpr ⟨Table.mem_of_find? live, ?_⟩
    rw [Table.key_of_find? live]
    simpa using absent
  have within := (depthRule service).insertedBy row' inserted
  exact ⟨same.treeDepth ▸ within.tree, same.executionDepth ▸ within.execution⟩

/-- In every state of a run the depths are within the caps. -/
theorem withinDepths_after (ext : Externals) (service : Service) (run : List Op) :
    ((dbAfter ext service run).ledger run.length 0).WithinDepths service := by
  induction run using List.reverseRecOn with
  | nil => exact ⟨nofun, nofun⟩
  | append_singleton run op ih =>
    refine (next_chain ext service run op).preserves_of (G := fun e =>
      ∀ row, e.born = some row → row.WithinDepths service) Ledger.WithinDepths.step ?_ ih
    intro e mem row born
    rcases List.mem_append.mp mem with here | last
    · exact born_within here born
    · rw [List.mem_singleton.mp last] at born
      cases born

/-! ## The guarantee -/

/-- **The trees keep to their caps and their shape**, after every run. -/
theorem trees_capped (ext : Externals) (service : Service) (run : List Op) :
    TreesCapped service (dbAfter ext service run) := by
  have within := withinDepths_after ext service run
  have shaped := shaped_after ext service run
  constructor
  case nodes => exact nodesWithin_after ext service run
  case depth => exact fun j row live => (within.live live).tree
  case archivedDepth => exact fun j entry done => (within.archived done).1
  case links =>
    intro j row tree p parent live treed other above found
    exact shaped.links live treed other above found
  case execution => exact fun j row live => (within.live live).execution
  case archivedExecution => exact fun j entry done => (within.archived done).2

end AnvilMQ
