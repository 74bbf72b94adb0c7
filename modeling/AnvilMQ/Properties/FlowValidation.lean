import AnvilMQ.Ledger.Flows

/-!
# The validation of a flow is exact

`prepare_node` walks over a request tree with a growing list of nodes and a growing
set of keys, and stops at the first violation.  What it accepts can be said without
the walk: the fields of every node are valid, the tree is neither too high nor too
large, and no key is used twice.  What it returns is the preorder listing of the
tree.

The listing is described through paths.  A node is found by the positions that lead
to it from the root, its depth is the length of that path, its parent is found by
the path without its last position, and the preorder of the nodes is the
lexicographic order of their paths.
-/

namespace AnvilMQ

open Rust Relational Transition

/-! ## What the checks are about -/

/-- **The fields of a node are valid.** -/
structure FlowOptions.Valid (options : FlowOptions) : Prop where
  key : options.idempotencyKey = "" ∨
    (isBlank options.idempotencyKey = false ∧ byteLen options.idempotencyKey ≤ 256)
  delay : 0 ≤ options.delayMs
  base : 0 ≤ options.retryBackoffMs
  cap : options.retryBackoffMaxMs = 0 ∨
    (0 ≤ options.retryBackoffMaxMs ∧ options.retryBackoffMs ≤ options.retryBackoffMaxMs)
  jitter : options.retryJitter.inUnitInterval = true

/-- The key a node registers, if it asks for one. -/
def FlowOptions.registeredKey (options : FlowOptions) : Option (String × String) :=
  if options.idempotencyKey = "" then none else some (options.name, options.idempotencyKey)

namespace FlowJob

mutual

/-- The height of a tree; that of a single node is `0`. -/
def height : FlowJob → ℕ
  | node _ children => heightBelow children

/-- How far the subtrees of a node reach below it. -/
def heightBelow : List FlowJob → ℕ
  | [] => 0
  | child :: rest => max (height child + 1) (heightBelow rest)

end

/-- The keys the nodes of a tree register, in preorder. -/
def keys (tree : FlowJob) : List (String × String) :=
  tree.allOptions.filterMap FlowOptions.registeredKey

end FlowJob

/-- **When a tree is acceptable.** -/
structure Acceptable (maxFlowDepth maxFlowNodes : ℕ) (seenKeys : List (String × String))
    (tree : FlowJob) : Prop where
  valid : ∀ options ∈ tree.allOptions, options.Valid
  height : tree.height ≤ maxFlowDepth
  count : tree.allOptions.length ≤ maxFlowNodes
  distinct : tree.keys.Nodup
  unseen : ∀ key ∈ tree.keys, key ∉ seenKeys

/-! ## The preorder of a tree -/

/-- A node of a tree: the positions that lead to it and the subtree found there. -/
structure Visit where
  path : List ℕ
  tree : FlowJob

/-- The subtree at a path. -/
def FlowJob.subtree : FlowJob → List ℕ → Option FlowJob
  | tree, [] => some tree
  | .node _ children, i :: path => (children[i]?).bind fun child => child.subtree path

/-- **The preorder of a tree**: all its nodes, in the lexicographic order of their
paths. -/
structure Preorder (tree : FlowJob) (visits : List Visit) : Prop where
  all : ∀ visit, visit ∈ visits ↔ tree.subtree visit.path = some visit.tree
  sorted : visits.Pairwise fun visit later => visit.path < later.path

/-- **A prepared node says of a tree node what it is.** -/
structure PreparedNode.Describes (node : PreparedNode) (visit : Visit) : Prop where
  options : node.options = visit.tree.options.normalized
  depth : node.depth = visit.path.length
  pendingChildren : node.pendingChildren = visit.tree.children.length
  waitingChildren : node.state = .waitingChildren ↔ visit.tree.children ≠ []
  delayed : node.state = .delayed ↔
    visit.tree.children = [] ∧ 0 < visit.tree.options.delayMs
  waiting : node.state = .waiting ↔
    visit.tree.children = [] ∧ ¬ 0 < visit.tree.options.delayMs

/-- **The prepared nodes list the nodes of a traversal**, each with an id of its own
and the id of its parent. -/
structure ListedAs (nodes : List PreparedNode) (visits : List Visit) : Prop where
  describes : List.Forall₂ PreparedNode.Describes nodes visits
  distinct : (nodes.map PreparedNode.id).Nodup
  parents : ∀ entry ∈ nodes.zip visits,
    (entry.2.path = [] ∧ entry.1.parentId = none) ∨
      ∃ above ∈ nodes.zip visits, ∃ i, entry.2.path = above.2.path ++ [i] ∧
        entry.1.parentId = some above.1.id

variable {ext : Externals} {service : Service} {t k : ℕ} {maxDepth maxNodes depth : ℕ}
  {s s' : PrepareState} {parentId : Option JobId} {options : FlowOptions}
  {all all' : List FlowOptions}

/-! ## The checks of one node -/

/-- `check_options` accepts exactly the valid options. -/
theorem checkOptions_ok_iff : checkOptions options = .ok () ↔ options.Valid := by
  unfold checkOptions
  rw [guard_eq_ok, guard_eq_ok, guard_eq_ok, guard_eq_ok]
  rw [isNan_or_outside_iff, effectiveBackoffMax_lt_iff]
  constructor
  · rintro ⟨key, delays, above, unit, -⟩
    refine ⟨?_, by omega, by omega, by omega, not_not.mp unit⟩
    by_cases empty : options.idempotencyKey = ""
    · exact .inl empty
    · simp only [not_and, not_or, Bool.not_eq_true, Nat.not_lt] at key
      exact .inr (key empty)
  · rintro ⟨key, delay, base, cap, unit⟩
    refine ⟨?_, by omega, by omega, not_not.mpr unit, rfl⟩
    rintro ⟨keyed, bad⟩
    rcases key with empty | ⟨nonblank, short⟩
    · exact keyed empty
    · rw [nonblank] at bad
      rcases bad with blank | long
      · cases blank
      · omega

/-! ## Acceptance along the walk -/

/-- What the walk still has room for: a list of nodes fits into a state when their
fields are valid, the cap leaves room for them and their keys are new. -/
structure Fits (maxNodes : ℕ) (s : PrepareState) (all : List FlowOptions) : Prop where
  valid : ∀ options ∈ all, options.Valid
  count : s.out.length + all.length ≤ maxNodes
  distinct : (all.filterMap FlowOptions.registeredKey).Nodup
  unseen : ∀ key ∈ all.filterMap FlowOptions.registeredKey, key ∉ s.seenKeys

/-- The state after the walk has passed a list of nodes. -/
structure Passed (s : PrepareState) (all : List FlowOptions) (s' : PrepareState) : Prop where
  length : s'.out.length = s.out.length + all.length
  seen : ∀ key, key ∈ s'.seenKeys ↔
    key ∈ all.filterMap FlowOptions.registeredKey ∨ key ∈ s.seenKeys

theorem Passed.nil (s : PrepareState) : Passed s [] s := ⟨rfl, by simp⟩

theorem Passed.append {s'' : PrepareState} (first : Passed s all s') (second : Passed s' all' s'') :
    Passed s (all ++ all') s'' where
  length := by rw [second.length, first.length, List.length_append, add_assoc]
  seen := fun key => by
    rw [second.seen, first.seen, List.filterMap_append, List.mem_append, ← or_assoc]
    exact or_congr_left or_comm

theorem Fits.of_append (fits : Fits maxNodes s (all ++ all')) : Fits maxNodes s all := by
  obtain ⟨valid, count, distinct, unseen⟩ := fits
  rw [List.length_append] at count
  rw [List.filterMap_append] at distinct unseen
  exact ⟨fun o mem => valid o (List.mem_append_left _ mem), by omega,
    (List.nodup_append'.mp distinct).1, fun key mem => unseen key (List.mem_append_left _ mem)⟩

/-- A list fits when its beginning does, and the rest fits after it. -/
theorem fits_append (passed : Passed s all s') :
    Fits maxNodes s (all ++ all') ↔ Fits maxNodes s all ∧ Fits maxNodes s' all' := by
  constructor
  · intro fits
    refine ⟨fits.of_append, ?_⟩
    obtain ⟨valid, count, distinct, unseen⟩ := fits
    rw [List.length_append] at count
    rw [List.filterMap_append] at distinct unseen
    obtain ⟨-, second, apart⟩ := List.nodup_append'.mp distinct
    refine ⟨fun o mem => valid o (List.mem_append_right _ mem), ?_, second, fun key mem here => ?_⟩
    · rw [passed.length]
      omega
    · rcases (passed.seen key).mp here with before | before
      · exact apart before mem
      · exact unseen key (List.mem_append_right _ mem) before
  · rintro ⟨⟨valid, count, distinct, unseen⟩, ⟨valid', count', distinct', unseen'⟩⟩
    refine ⟨fun o mem => (List.mem_append.mp mem).elim (valid o) (valid' o), ?_, ?_, ?_⟩
    · rw [passed.length] at count'
      rw [List.length_append]
      omega
    · rw [List.filterMap_append]
      refine List.nodup_append'.mpr ⟨distinct, distinct', fun key mem later => ?_⟩
      exact unseen' key later ((passed.seen key).mpr (.inl mem))
    · rw [List.filterMap_append]
      intro key mem here
      rcases List.mem_append.mp mem with first | second
      · exact unseen key first here
      · exact unseen' key second ((passed.seen key).mpr (.inr here))

/-- One node is accepted when its depth is allowed and it fits. -/
theorem prepareHead_iff {children : ℕ} :
    (∃ s', prepareHead ext t maxDepth maxNodes options children parentId depth s = .ok s') ↔
      depth ≤ maxDepth ∧ Fits maxNodes s [options] := by
  have key : ∀ key, key ∈ [options].filterMap FlowOptions.registeredKey ↔
      options.idempotencyKey ≠ "" ∧ key = (options.name, options.idempotencyKey) := by
    intro key
    rw [List.filterMap_cons, FlowOptions.registeredKey]
    split <;> simp_all
  have distinct : ([options].filterMap FlowOptions.registeredKey).Nodup := by
    rw [List.filterMap_cons]
    split <;> simp
  unfold prepareHead
  simp only [guard_eq_ok, exists_and_left]
  constructor
  · rintro ⟨low, room, s', ok⟩
    cases checked : checkOptions options with
    | error status =>
      rw [checked] at ok
      cases ok
    | ok _ =>
      rw [checked] at ok
      obtain ⟨new, -⟩ := guard_eq_ok.mp ok
      refine ⟨Nat.not_lt.mp low, ?_, Nat.not_le.mp room, distinct, fun used mem here => ?_⟩
      · intro other mem
        rw [List.mem_singleton.mp mem]
        exact checkOptions_ok_iff.mp checked
      · obtain ⟨keyed, rfl⟩ := (key used).mp mem
        exact new ⟨keyed, here⟩
  · rintro ⟨low, valid, count, -, unseen⟩
    rw [List.length_singleton] at count
    refine ⟨Nat.not_lt.mpr low, by omega, ?_⟩
    rw [checkOptions_ok_iff.mpr (valid options (List.mem_singleton_self _))]
    refine ⟨_, guard_eq_ok.mpr ⟨fun used => ?_, rfl⟩⟩
    exact unseen _ ((key _).mpr ⟨used.1, rfl⟩) used.2

/-- What the walk has seen after one more node. -/
theorem prepareHead_passed {children : ℕ}
    (ok : prepareHead ext t maxDepth maxNodes options children parentId depth s = .ok s') :
    Passed s [options] s' := by
  unfold prepareHead at ok
  obtain ⟨-, ok⟩ := guard_eq_ok.mp ok
  obtain ⟨-, ok⟩ := guard_eq_ok.mp ok
  cases checked : checkOptions options with
  | error status =>
    rw [checked] at ok
    cases ok
  | ok _ =>
    rw [checked] at ok
    obtain ⟨-, same⟩ := guard_eq_ok.mp ok
    cases same
    refine ⟨List.length_append, fun key => ?_⟩
    rw [List.filterMap_cons, FlowOptions.registeredKey]
    by_cases empty : options.idempotencyKey = ""
    · simp [empty]
    · simp [empty]

/-- The walk over a tree: the root, then the children from the state it leaves. -/
theorem prepareNode_eq_ok {children : List FlowJob} :
    prepareNode ext t maxDepth maxNodes (.node options children) parentId depth s = .ok s' ↔
      ∃ s₁, prepareHead ext t maxDepth maxNodes options children.length parentId depth s = .ok s₁ ∧
        prepareNodes ext t maxDepth maxNodes children (some (ext.newV4 t s.uuids)) (depth + 1) s₁ =
          .ok s' := by
  unfold prepareNode
  cases prepareHead ext t maxDepth maxNodes options children.length parentId depth s with
  | error status => simp
  | ok s₁ => simp

/-- The walk over a forest: the first tree, then the others from the state it leaves. -/
theorem prepareNodes_cons_eq_ok {tree : FlowJob} {rest : List FlowJob} :
    prepareNodes ext t maxDepth maxNodes (tree :: rest) parentId depth s = .ok s' ↔
      ∃ s₁, prepareNode ext t maxDepth maxNodes tree parentId depth s = .ok s₁ ∧
        prepareNodes ext t maxDepth maxNodes rest parentId depth s₁ = .ok s' := by
  rw [prepareNodes]
  cases prepareNode ext t maxDepth maxNodes tree parentId depth s with
  | error status => simp
  | ok s₁ => simp

mutual

theorem prepareNode_passed :
    ∀ (tree : FlowJob) (parentId : Option JobId) (depth : ℕ) (s s' : PrepareState),
      prepareNode ext t maxDepth maxNodes tree parentId depth s = .ok s' →
        Passed s tree.allOptions s'
  | .node options children, parentId, depth, s, s', ok => by
    obtain ⟨s₁, head, below⟩ := prepareNode_eq_ok.mp ok
    exact (prepareHead_passed head).append (prepareNodes_passed children _ _ s₁ s' below)

theorem prepareNodes_passed :
    ∀ (trees : List FlowJob) (parentId : Option JobId) (depth : ℕ) (s s' : PrepareState),
      prepareNodes ext t maxDepth maxNodes trees parentId depth s = .ok s' →
        Passed s (FlowJob.allOptionsList trees) s'
  | [], parentId, depth, s, s', ok => by
    unfold prepareNodes at ok
    cases ok
    exact .nil s
  | tree :: rest, parentId, depth, s, s', ok => by
    obtain ⟨s₁, first, later⟩ := prepareNodes_cons_eq_ok.mp ok
    exact (prepareNode_passed tree _ _ s s₁ first).append
      (prepareNodes_passed rest _ _ s₁ s' later)

end

theorem height_node_le {children : List FlowJob} {n : ℕ} :
    (FlowJob.node options children).height ≤ n ↔ ∀ child ∈ children, child.height + 1 ≤ n := by
  rw [FlowJob.height]
  induction children with
  | nil => simp [FlowJob.heightBelow]
  | cons child rest ih => rw [FlowJob.heightBelow, max_le_iff, ih, List.forall_mem_cons]

/-- A tree stays within the height cap when its root and its subtrees do. -/
theorem reach_node {children : List FlowJob} :
    depth + (FlowJob.node options children).height ≤ maxDepth ↔
      depth ≤ maxDepth ∧ ∀ child ∈ children, depth + 1 + child.height ≤ maxDepth := by
  have bounded := @height_node_le options children (maxDepth - depth)
  constructor
  · intro low
    refine ⟨by omega, fun child mem => ?_⟩
    have := bounded.mp (by omega) child mem
    omega
  · rintro ⟨low, below⟩
    have := bounded.mpr fun child mem => by
      have := below child mem
      omega
    omega

mutual

/-- **Acceptance of a tree**, from any point of the walk. -/
theorem prepareNode_iff :
    ∀ (tree : FlowJob) (parentId : Option JobId) (depth : ℕ) (s : PrepareState),
      (∃ s', prepareNode ext t maxDepth maxNodes tree parentId depth s = .ok s') ↔
        depth + tree.height ≤ maxDepth ∧ Fits maxNodes s tree.allOptions
  | .node options children, parentId, depth, s => by
    have split : (FlowJob.node options children).allOptions =
        [options] ++ FlowJob.allOptionsList children := rfl
    rw [reach_node, split]
    simp only [prepareNode_eq_ok]
    constructor
    · rintro ⟨s', s₁, head, ok⟩
      have passed := prepareHead_passed head
      obtain ⟨low, here⟩ := prepareHead_iff.mp ⟨s₁, head⟩
      obtain ⟨below, rest⟩ :=
        (prepareNodes_iff children _ _ s₁ (passed.length ▸ here.count)).mp ⟨s', ok⟩
      exact ⟨⟨low, below⟩, (fits_append passed).mpr ⟨here, rest⟩⟩
    · rintro ⟨⟨low, below⟩, fits⟩
      have here := fits.of_append
      obtain ⟨s₁, head⟩ := prepareHead_iff.mpr ⟨low, here⟩
      have passed := prepareHead_passed head
      have rest := ((fits_append passed).mp fits).2
      obtain ⟨s', ok⟩ :=
        (prepareNodes_iff children _ _ s₁ (passed.length ▸ here.count)).mpr ⟨below, rest⟩
      exact ⟨s', s₁, head, ok⟩

/-- Acceptance of a forest, from any point of the walk that keeps to the cap. -/
theorem prepareNodes_iff :
    ∀ (trees : List FlowJob) (parentId : Option JobId) (depth : ℕ) (s : PrepareState),
      s.out.length ≤ maxNodes →
      ((∃ s', prepareNodes ext t maxDepth maxNodes trees parentId depth s = .ok s') ↔
        (∀ tree ∈ trees, depth + tree.height ≤ maxDepth) ∧
          Fits maxNodes s (FlowJob.allOptionsList trees))
  | [], parentId, depth, s, room => by
    refine iff_of_true ⟨s, by rw [prepareNodes]⟩ ⟨by simp, ?_⟩
    exact ⟨by simp [FlowJob.allOptionsList], room, List.nodup_nil,
      by simp [FlowJob.allOptionsList]⟩
  | tree :: rest, parentId, depth, s, room => by
    rw [FlowJob.allOptionsList, List.forall_mem_cons]
    simp only [prepareNodes_cons_eq_ok]
    constructor
    · rintro ⟨s', s₁, first, ok⟩
      have passed := prepareNode_passed tree _ _ s s₁ first
      obtain ⟨low, here⟩ := (prepareNode_iff tree parentId depth s).mp ⟨s₁, first⟩
      obtain ⟨below, later⟩ :=
        (prepareNodes_iff rest _ _ s₁ (passed.length ▸ here.count)).mp ⟨s', ok⟩
      exact ⟨⟨low, below⟩, (fits_append passed).mpr ⟨here, later⟩⟩
    · rintro ⟨⟨low, below⟩, fits⟩
      have here := fits.of_append
      obtain ⟨s₁, first⟩ := (prepareNode_iff tree parentId depth s).mpr ⟨low, here⟩
      have passed := prepareNode_passed tree _ _ s s₁ first
      have later := ((fits_append passed).mp fits).2
      obtain ⟨s', ok⟩ :=
        (prepareNodes_iff rest _ _ s₁ (passed.length ▸ here.count)).mpr ⟨below, later⟩
      exact ⟨s', s₁, first, ok⟩

end

/-! ## The listing -/

/-- The visit of a node of a child, as a visit of the parent's tree. -/
def Visit.below (i : ℕ) (visit : Visit) : Visit := ⟨i :: visit.path, visit.tree⟩

namespace FlowJob

mutual

/-- The nodes of a tree, root first. -/
def visits : FlowJob → List Visit
  | node options children => ⟨[], node options children⟩ :: visitsFrom 0 children

/-- The nodes of the children of a node, from the `i`-th child on. -/
def visitsFrom : ℕ → List FlowJob → List Visit
  | _, [] => []
  | i, child :: rest => (visits child).map (Visit.below i) ++ visitsFrom (i + 1) rest

end

theorem subtree_nil (tree : FlowJob) : tree.subtree [] = some tree := by
  cases tree
  rw [subtree]

theorem subtree_cons (options : FlowOptions) (children : List FlowJob) (i : ℕ) (path : List ℕ) :
    (node options children).subtree (i :: path) =
      (children[i]?).bind fun child => child.subtree path := by
  rw [subtree]

mutual

/-- The visits of a tree are its subtrees, by their paths, -/
theorem mem_visits : ∀ (tree : FlowJob) (visit : Visit),
    visit ∈ tree.visits ↔ tree.subtree visit.path = some visit.tree
  | node options children, ⟨[], found⟩ => by
    rw [visits, List.mem_cons, subtree_nil, Option.some.injEq, mem_visitsFrom]
    constructor
    · rintro (same | ⟨j, rest, path, -⟩)
      · exact (Visit.mk.inj same).2.symm
      · cases path
    · rintro rfl
      exact .inl rfl
  | node options children, ⟨i :: path, found⟩ => by
    rw [visits, List.mem_cons, subtree_cons, mem_visitsFrom]
    constructor
    · rintro (same | ⟨j, rest, same, found⟩)
      · cases (Visit.mk.inj same).1
      · obtain ⟨rfl, rfl⟩ := List.cons.inj same
        rwa [Nat.zero_add]
    · intro found
      exact .inr ⟨i, path, by rw [Nat.zero_add], found⟩

/-- and those of a list likewise, with the position first. -/
theorem mem_visitsFrom : ∀ (i : ℕ) (children : List FlowJob) (visit : Visit),
    visit ∈ visitsFrom i children ↔ ∃ j path, visit.path = (i + j) :: path ∧
      ((children[j]?).bind fun child => child.subtree path) = some visit.tree
  | i, [], visit => by simp [visitsFrom]
  | i, child :: rest, visit => by
    rw [visitsFrom, List.mem_append, List.mem_map, mem_visitsFrom (i + 1) rest]
    constructor
    · rintro (⟨inner, mem, rfl⟩ | ⟨j, path, same, found⟩)
      · exact ⟨0, inner.path, rfl, (mem_visits child inner).mp mem⟩
      · refine ⟨j + 1, path, ?_, found⟩
        rw [same, Nat.add_right_comm, Nat.add_assoc]
    · rintro ⟨j, path, same, found⟩
      cases j with
      | zero =>
        refine .inl ⟨⟨path, visit.tree⟩, (mem_visits child _).mpr found, ?_⟩
        rw [Visit.below, ← Nat.add_zero i, ← same]
      | succ j =>
        refine .inr ⟨j, path, ?_, found⟩
        rw [same, Nat.add_right_comm, Nat.add_assoc]

end

/-- The order in which a traversal meets two nodes. -/
def Before (visit later : Visit) : Prop := visit.path < later.path

mutual

theorem visits_sorted : ∀ tree : FlowJob, tree.visits.Pairwise Before
  | node options children => by
    rw [visits, List.pairwise_cons]
    refine ⟨fun later mem => ?_, visitsFrom_sorted 0 children⟩
    obtain ⟨j, path, same, -⟩ := (mem_visitsFrom 0 children later).mp mem
    show [] < later.path
    rw [same]
    exact List.nil_lt_cons _ _

theorem visitsFrom_sorted : ∀ (i : ℕ) (children : List FlowJob),
    (visitsFrom i children).Pairwise Before
  | i, [] => List.Pairwise.nil
  | i, child :: rest => by
    rw [visitsFrom, List.pairwise_append]
    refine ⟨?_, visitsFrom_sorted (i + 1) rest, fun visit mem later mem' => ?_⟩
    · -- Below one child the first position is the same, and the rest decides.
      refine List.pairwise_map.mpr ((visits_sorted child).imp fun {a b} first => ?_)
      exact List.cons_lt_cons_self.mpr first
    · obtain ⟨inner, -, rfl⟩ := List.mem_map.mp mem
      obtain ⟨j, path, same, -⟩ := (mem_visitsFrom (i + 1) rest later).mp mem'
      show i :: inner.path < later.path
      rw [same, List.cons_lt_cons_iff]
      exact .inl (by omega)

end

theorem visits_preorder (tree : FlowJob) : Preorder tree tree.visits :=
  ⟨mem_visits tree, visits_sorted tree⟩

end FlowJob

/-- The same for a node met at some depth below the root of a request. -/
structure PreparedNode.DescribesFrom (depth : ℕ) (node : PreparedNode) (visit : Visit) : Prop where
  options : node.options = visit.tree.options.normalized
  depth : node.depth = depth + visit.path.length
  pendingChildren : node.pendingChildren = visit.tree.children.length
  state : node.state = nodeState visit.tree.children.length visit.tree.options.delayMs

theorem PreparedNode.DescribesFrom.below {node : PreparedNode} {visit : Visit}
    (describes : node.DescribesFrom (depth + 1) visit) (i : ℕ) :
    node.DescribesFrom depth (visit.below i) where
  options := describes.options
  depth := by
    rw [describes.depth, Visit.below, List.length_cons]
    omega
  pendingChildren := describes.pendingChildren
  state := describes.state

/-- A node of a whole tree is described from depth zero. -/
theorem PreparedNode.DescribesFrom.describes {node : PreparedNode} {visit : Visit}
    (described : node.DescribesFrom 0 visit) : node.Describes visit := by
  obtain ⟨options, depth, pending, state⟩ := described
  rw [Nat.zero_add] at depth
  unfold nodeState at state
  cases children : visit.tree.children with
  | nil =>
    rw [children, List.length_nil, if_neg (Nat.lt_irrefl 0)] at state
    refine ⟨options, depth, pending, ?_, ?_, ?_⟩
    all_goals
      rw [state, children]
      split <;> simp_all
  | cons first rest =>
    rw [children, List.length_cons, if_pos (Nat.succ_pos _)] at state
    refine ⟨options, depth, pending, ?_, ?_, ?_⟩
    all_goals simp [state, children]

mutual

/-- The flattened nodes describe the nodes a traversal meets, one by one. -/
theorem flatten_describes : ∀ (tree : FlowJob) (parentId : Option JobId) (depth k : ℕ),
    List.Forall₂ (PreparedNode.DescribesFrom depth) (flatten ext t tree parentId depth k)
      tree.visits
  | .node options children, parentId, depth, k => by
    rw [flatten, FlowJob.visits]
    exact .cons ⟨rfl, rfl, rfl, rfl⟩ (flattenList_describes 0 children _ _ _)

theorem flattenList_describes : ∀ (i : ℕ) (trees : List FlowJob) (parentId : Option JobId)
    (depth k : ℕ), List.Forall₂ (PreparedNode.DescribesFrom depth)
      (flattenList ext t trees parentId (depth + 1) k) (FlowJob.visitsFrom i trees)
  | _, [], _, _, _ => by
    rw [flattenList, FlowJob.visitsFrom]
    exact .nil
  | i, tree :: rest, parentId, depth, k => by
    rw [flattenList, FlowJob.visitsFrom]
    refine List.rel_append ?_ (flattenList_describes (i + 1) rest _ _ _)
    exact List.forall₂_map_right_iff.mpr
      ((flatten_describes tree parentId (depth + 1) k).imp fun _ _ this => this.below i)

end

/-- What a prepared node knows of its parent among the other nodes of a traversal:
it hangs under the node whose path is one shorter, or it is a root. -/
def HangsIn (entries : List (PreparedNode × Visit)) (parentId : Option JobId)
    (isRoot : List ℕ → Prop) (entry : PreparedNode × Visit) : Prop :=
  (isRoot entry.2.path ∧ entry.1.parentId = parentId) ∨
    ∃ above ∈ entries, ∃ i, entry.2.path = above.2.path ++ [i] ∧
      entry.1.parentId = some above.1.id

theorem HangsIn.mono {entries more : List (PreparedNode × Visit)} {isRoot : List ℕ → Prop}
    {entry : PreparedNode × Visit} (hangs : HangsIn entries parentId isRoot entry)
    (sub : entries ⊆ more) : HangsIn more parentId isRoot entry := by
  rcases hangs with root | ⟨above, mem, found⟩
  · exact .inl root
  · exact .inr ⟨above, sub mem, found⟩

mutual

/-- Every node of a flattened tree hangs from the node of its parent. -/
theorem flatten_hangs : ∀ (tree : FlowJob) (parentId : Option JobId) (depth k : ℕ),
    ∀ entry ∈ (flatten ext t tree parentId depth k).zip tree.visits,
      HangsIn ((flatten ext t tree parentId depth k).zip tree.visits) parentId (· = []) entry
  | .node options children, parentId, depth, k => by
    rw [flatten, FlowJob.visits, List.zip_cons_cons]
    intro entry mem
    rcases List.mem_cons.mp mem with rfl | later
    · exact .inl ⟨rfl, rfl⟩
    · -- The roots of the subtrees hang under the root of the tree.
      rcases flattenList_hangs 0 children _ _ _ entry later with ⟨⟨i, path⟩, parent⟩ | below
      · exact .inr ⟨_, List.mem_cons_self, i, path, parent⟩
      · obtain ⟨above, mem, found⟩ := below
        exact .inr ⟨above, List.mem_cons_of_mem _ mem, found⟩

/-- In a list a node hangs from above, or from a node of the list. -/
theorem flattenList_hangs : ∀ (i : ℕ) (trees : List FlowJob) (parentId : Option JobId)
    (depth k : ℕ), ∀ entry ∈ (flattenList ext t trees parentId depth k).zip
        (FlowJob.visitsFrom i trees),
      HangsIn ((flattenList ext t trees parentId depth k).zip (FlowJob.visitsFrom i trees))
        parentId (fun path => ∃ i, path = [i]) entry
  | _, [], _, _, _ => by
    rw [flattenList]
    simp
  | i, tree :: rest, parentId, depth, k => by
    have same : (flatten ext t tree parentId depth k).length =
        (tree.visits.map (Visit.below i)).length := by
      rw [List.length_map]
      exact (flatten_describes tree parentId depth k).length_eq
    rw [flattenList, FlowJob.visitsFrom, List.zip_append same]
    intro entry mem
    rcases List.mem_append.mp mem with first | later
    · rw [List.zip_map_right] at first ⊢
      obtain ⟨⟨node, visit⟩, inner, rfl⟩ := List.mem_map.mp first
      rcases flatten_hangs tree parentId depth k _ inner with ⟨root, parent⟩ |
        ⟨above, mem, j, path, parent⟩
      · exact .inl ⟨⟨i, congrArg (i :: ·) root⟩, parent⟩
      · refine .inr ⟨_, List.mem_append_left _ (List.mem_map_of_mem mem), j, ?_, parent⟩
        exact congrArg (i :: ·) path
    · exact (flattenList_hangs (i + 1) rest parentId depth _ entry later).mono
        (List.subset_append_right _ _)

end

/-- Ids drawn one after the other are distinct. -/
theorem Consecutive.nodup {nodes : List PreparedNode} (drawn : Consecutive ext t k nodes) :
    (nodes.map PreparedNode.id).Nodup := by
  have later : ∀ {k} {nodes : List PreparedNode}, Consecutive ext t k nodes →
      ∀ node ∈ nodes, ∃ n, k ≤ n ∧ node.id = ext.newV4 t n := by
    intro k nodes
    induction nodes generalizing k with
    | nil => simp
    | cons first rest ih =>
      rintro ⟨here, drawn⟩ node mem
      rcases List.mem_cons.mp mem with rfl | mem
      · exact ⟨k, le_rfl, here⟩
      · obtain ⟨n, le, same⟩ := ih drawn node mem
        exact ⟨n, by omega, same⟩
  induction nodes generalizing k with
  | nil => exact List.nodup_nil
  | cons first rest ih =>
    rw [List.map_cons, List.nodup_cons]
    refine ⟨fun again => ?_, ih drawn.2⟩
    obtain ⟨other, mem, same⟩ := List.mem_map.mp again
    obtain ⟨n, le, drew⟩ := later drawn.2 other mem
    have := (ext.newV4_injective (drew.symm.trans (same.trans drawn.1))).2
    omega

theorem flatten_listedAs (tree : FlowJob) (k : ℕ) :
    ListedAs (flatten ext t tree none 0 k) tree.visits where
  describes := (flatten_describes tree none 0 k).imp fun _ _ described => described.describes
  distinct := (wellPrepared_flatten tree (fun _ _ => True) none 0 k trivial).consecutive.nodup
  parents := flatten_hangs tree none 0 k

/-! ## The guarantee -/

theorem fits_iff_acceptable {seenKeys : List (String × String)} {tree : FlowJob} :
    (0 + tree.height ≤ maxDepth ∧ Fits maxNodes ⟨seenKeys, [], k⟩ tree.allOptions) ↔
      Acceptable maxDepth maxNodes seenKeys tree := by
  constructor
  · rintro ⟨height, valid, count, distinct, unseen⟩
    rw [List.length_nil, Nat.zero_add] at count
    rw [Nat.zero_add] at height
    exact ⟨valid, height, count, distinct, unseen⟩
  · rintro ⟨valid, height, count, distinct, unseen⟩
    refine ⟨by rwa [Nat.zero_add], valid, ?_, distinct, unseen⟩
    rwa [List.length_nil, Nat.zero_add]

/-- **The validation of a flow is exact**: for every tree, all caps and all keys seen
before, `prepare_node` accepts the tree if and only if it is acceptable, and then
returns its nodes in preorder. -/
theorem flow_validation_exact (ext : Externals) (t maxFlowDepth maxFlowNodes k : ℕ)
    (seenKeys : List (String × String)) (tree : FlowJob) :
    ((∃ prepared, prepareNode ext t maxFlowDepth maxFlowNodes tree none 0
        { seenKeys := seenKeys, out := [], uuids := k } = .ok prepared) ↔
      Acceptable maxFlowDepth maxFlowNodes seenKeys tree) ∧
    ∀ prepared, prepareNode ext t maxFlowDepth maxFlowNodes tree none 0
        { seenKeys := seenKeys, out := [], uuids := k } = .ok prepared →
      ∃ visits, Preorder tree visits ∧ ListedAs prepared.out visits := by
  constructor
  · rw [prepareNode_iff]
    exact fits_iff_acceptable
  · intro prepared ok
    obtain ⟨out, -⟩ := prepareNode_ok tree none 0 _ _ ok
    rw [List.nil_append] at out
    rw [out]
    exact ⟨tree.visits, tree.visits_preorder, flatten_listedAs tree k⟩

/-- A root with a delayed leaf, which has a key. -/
def smallTree : FlowJob :=
  .node { name := "p" } [.node { name := "a", idempotencyKey := "k", delayMs := 5 } []]

/-- The tree is acceptable under caps that just admit it, and is listed. -/
theorem smallTree_listed :
    Acceptable 1 2 [("b", "k")] smallTree ∧
      ∃ prepared visits, Preorder smallTree visits ∧ ListedAs prepared visits ∧
        prepared.map PreparedNode.depth = [0, 1] := by
  obtain ⟨accepts, lists⟩ := flow_validation_exact .unary 0 1 2 0 [("b", "k")] smallTree
  have ok : ∃ prepared, prepareNode .unary 0 1 2 smallTree none 0
      { seenKeys := [("b", "k")], out := [], uuids := 0 } = .ok prepared ∧
        prepared.out.map PreparedNode.depth = [0, 1] := ⟨_, rfl, rfl⟩
  obtain ⟨prepared, ok, depths⟩ := ok
  obtain ⟨visits, preorder, listed⟩ := lists prepared ok
  exact ⟨accepts.mp ⟨prepared, ok⟩, prepared.out, visits, preorder, listed, depths⟩

/-! ## A batch of trees -/

/-- **The validation of a batch is exact**: every tree is acceptable by itself, and
no key occurs in two of them. -/
theorem prepareTrees_iff {flows : List FlowJob} {seenKeys : List (String × String)} :
    (∃ trees, prepareTrees ext service t seenKeys k flows = .ok trees) ↔
      (∀ flow ∈ flows, Acceptable service.maxFlowDepth service.maxFlowNodes seenKeys flow) ∧
        flows.Pairwise fun flow later => flow.keys.Disjoint later.keys := by
  induction flows generalizing seenKeys k with
  | nil => simp [prepareTrees]
  | cons flow rest ih =>
    rw [List.forall_mem_cons, List.pairwise_cons]
    simp only [prepareTrees, bind_eq_ok, Except.ok.injEq]
    constructor
    · rintro ⟨-, prepared, first, trees, later, -⟩
      have passed := prepareNode_passed flow _ _ _ _ first
      obtain ⟨all, apart⟩ := ih.mp ⟨trees, later⟩
      refine ⟨⟨?_, fun other mem => ?_⟩, fun other mem key here there => ?_, apart⟩
      · exact fits_iff_acceptable.mp ((prepareNode_iff flow _ _ _).mp ⟨_, first⟩)
      · exact { all other mem with
          unseen := fun key used seen =>
            (all other mem).unseen key used ((passed.seen key).mpr (.inr seen)) }
      · exact (all other mem).unseen key there ((passed.seen key).mpr (.inl here))
    · rintro ⟨⟨this, others⟩, apart, rest⟩
      have accepted : ∃ prepared, prepareNode ext t service.maxFlowDepth service.maxFlowNodes
          flow none 0 ⟨seenKeys, [], k⟩ = .ok prepared :=
        (prepareNode_iff flow none 0 _).mpr (fits_iff_acceptable.mpr this)
      obtain ⟨prepared, first⟩ := accepted
      have passed := prepareNode_passed flow _ _ _ _ first
      obtain ⟨trees, later⟩ := (@ih prepared.uuids prepared.seenKeys).mpr
        ⟨fun other mem => { others other mem with
          unseen := fun key used seen => by
            rcases (passed.seen key).mp seen with here | before
            · exact apart other mem here used
            · exact (others other mem).unseen key used before }, rest⟩
      exact ⟨_, prepared, first, trees, later, rfl⟩

end AnvilMQ
