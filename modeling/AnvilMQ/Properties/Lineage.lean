import AnvilMQ.Ledger.Refinement

/-!
# Lineage

The depth of a job is the length of its chain of parents, and its trace is the
trace of its parent.  Three code paths derive them: from the parent's row, from the
position in a fresh tree, and from the tree of a merge target.  The third reads the
target's `tree_id` and `tree_depth` in place of its `trace_id` and
`execution_depth`, which differ when `AddJob` created the target.
-/

namespace AnvilMQ

open Rust Relational Transition

/-! ## The guarantee -/

/-- The columns that place a job in its lineage. -/
structure Origin where
  parentId : Option JobId
  traceId : String
  executionDepth : ℤ
deriving DecidableEq

/-- The lineage of a live job. -/
def JobRow.origin (row : JobRow) : Origin := ⟨row.parentId, row.traceId, row.executionDepth⟩

/-- The lineage of a finished job. -/
def HistoryRow.origin (entry : HistoryRow) : Origin :=
  ⟨entry.parentId, entry.traceId, entry.executionDepth⟩

/-- A job is in `jobs` or in `job_history` with the given lineage. -/
def Db.HasOrigin (db : Db) (j : JobId) (origin : Origin) : Prop :=
  (∃ row, db.jobs.find? j = some row ∧ row.origin = origin) ∨
    ∃ entry, db.jobHistory.find? j = some entry ∧ entry.origin = origin

/-- **Lineage integrity**: a child has the trace of its parent and is one deeper. -/
def LineageHolds (db : Db) : Prop :=
  ∀ c child p parent, db.HasOrigin c child → child.parentId = some p → db.HasOrigin p parent →
    child.traceId = parent.traceId ∧ child.executionDepth = parent.executionDepth + 1

/-- A merge target whose tree, if it has none yet, would be its lineage. -/
def JobRow.RootsItself (target : JobRow) : Prop :=
  target.treeId = none → target.traceId = target.id ∧ target.executionDepth = target.treeDepth

/-- **The condition on merges**: a committed `AddFlowMerge` goes to a job that
already is in a tree, or is the root of its own lineage. -/
def MergesIntoTrees (ext : Externals) (service : Service) (run : List Op) (op : Op) : Prop :=
  ∀ clock tree target, op = .addFlowMerge clock (some tree) →
    (∃ reply, replyTo ext service run op = some reply) →
    resolveTarget (dbAfter ext service run) tree.options.name tree.options.idempotencyKey =
      .ok target → target.RootsItself

/-! ## The invariant -/

variable {ext : Externals} {service : Service} {l l' : Ledger} {e : Event}

/-- The lineage of a job in the books. -/
def Ledger.origin (l : Ledger) (j : JobId) : Option Origin :=
  match l.jobs j with
  | some row => some row.origin
  | none => (l.jobHistory j).map HistoryRow.origin

theorem Ledger.origin_of_live {j : JobId} {row : JobRow} (live : l.jobs j = some row) :
    l.origin j = some row.origin := by
  rw [origin, live]

theorem Ledger.origin_of_archived {j : JobId} {entry : HistoryRow} (gone : l.jobs j = none)
    (done : l.jobHistory j = some entry) : l.origin j = some entry.origin := by
  rw [origin, gone, done]
  rfl

/-- The lineage columns of a job never change. -/
theorem JobRow.SameIdentity.origin {r r' : JobRow} (same : r.SameIdentity r') :
    r'.origin = r.origin := by
  rw [JobRow.origin, JobRow.origin, same.parentId, same.traceId, same.executionDepth]

theorem HistoryRow.CopyOf.origin {entry : HistoryRow} {row : JobRow} (copy : entry.CopyOf row) :
    entry.origin = row.origin := by
  rw [HistoryRow.origin, JobRow.origin, copy.parentId, copy.traceId, copy.executionDepth]

/-- A job in the books after an event was born by it, or was in them before with
the same lineage. -/
theorem Step.origin (step : Step ext l e l') (sound : l.Sound ext) {j : JobId} {origin : Origin}
    (found : l'.origin j = some origin) :
    (∃ row, e.born = some row ∧ row.id = j ∧ row.origin = origin) ∨ l.origin j = some origin := by
  obtain ⟨enabled, rfl⟩ := step
  cases live : (l.apply ext e).jobs j with
  | some row =>
    rw [Ledger.origin_of_live live, Option.some.injEq] at found
    rcases Ledger.apply_jobs live with ⟨born, here⟩ | ⟨before, was, rfl, -⟩
    · exact .inl ⟨row, born, here, found⟩
    · rw [(e.evolve_sameIdentity j before).origin] at found
      exact .inr (found ▸ Ledger.origin_of_live was)
  | none =>
    simp only [Ledger.origin, live] at found
    obtain ⟨entry, done, rfl⟩ := Option.map_eq_some_iff.mp found
    rcases Ledger.apply_jobHistory done with ⟨row, retires, retired⟩ | ⟨was, -, -⟩
    · obtain ⟨alive, copy, here⟩ := enabled.retires retires
      rw [retired, Option.some.injEq] at here
      subst here
      rw [copy.origin]
      exact .inr (Ledger.origin_of_live alive)
    · exact .inr (Ledger.origin_of_archived (sound.not_live was) was)

/-- Only adoption gives a live job a tree. -/
theorem Event.evolve_treeId (e : Event) (j : JobId) (r : JobRow) :
    (∃ target, e = .adopted target ∧ j = target.id) ∨ (e.evolve j r).treeId = r.treeId := by
  cases e with
  | adopted target =>
    by_cases here : j = target.id
    · exact .inl ⟨target, rfl, here⟩
    · exact .inr (by simp [here])
  | claimed row workerId now lease => exact .inr (by simp only [evolve]; split <;> rfl)
  | renewed row lease now => exact .inr (by simp only [evolve]; split <;> rfl)
  | requeued row cause state availableAt lastError updatedAt =>
    exact .inr (by simp only [evolve]; split <;> rfl)
  | completed row entry parent now updatedAt n =>
    right
    simp only [evolve]
    split
    · rw [JobRow.countedDown]
      split <;> rfl
    · rfl
  | regated target n updatedAt => exact .inr (by simp only [evolve]; split <;> rfl)
  | _ => exact .inr rfl

/-- An adopted merge target is the root of its own lineage. -/
def Event.Roots : Event → Prop
  | adopted target => target.traceId = target.id ∧ target.executionDepth = target.treeDepth
  | _ => True

/-- **The lineage invariant.**  The tree of a live job is its trace and its depth in
the tree is its depth. -/
structure Lineal (ext : Externals) (l : Ledger) : Prop where
  sound : l.Sound ext
  parentDrawn : ∀ {c child p}, l.origin c = some child → child.parentId = some p → l.Drawn ext p
  kin : ∀ {c child p parent}, l.origin c = some child → child.parentId = some p →
    l.origin p = some parent →
    child.traceId = parent.traceId ∧ child.executionDepth = parent.executionDepth + 1
  tree : ∀ {j row tree}, l.jobs j = some row → row.treeId = some tree →
    row.traceId = tree ∧ row.executionDepth = row.treeDepth
  nonneg : ∀ {j row}, l.jobs j = some row → 0 ≤ row.treeDepth

namespace Lineal

theorem empty (ext : Externals) : Lineal ext (Db.empty.ledger 0 0) where
  sound := .empty ext
  parentDrawn := nofun
  kin := nofun
  tree := nofun
  nonneg := nofun

/-- A job is born one below its parent. -/
theorem born (lineal : Lineal ext l) (enabled : e.Enabled ext l) {row : JobRow}
    (born : e.born = some row) {p : JobId} {parent : Origin} (above : row.parentId = some p)
    (found : l.origin p = some parent) :
    row.traceId = parent.traceId ∧ row.executionDepth = parent.executionDepth + 1 := by
  cases e with
  | enqueued inserted now slot =>
    cases born
    have lineage := enabled.lineage p above
    have same : l.lineage p = (l.origin p).map fun o => (o.executionDepth, o.traceId) := by
      rw [Ledger.lineage, Ledger.origin]
      cases l.jobs p with
      | some _ => rfl
      | none => cases l.jobHistory p <;> rfl
    rw [same, found] at lineage
    simp only [Option.map_some, Option.some.injEq, Prod.mk.injEq] at lineage
    exact ⟨lineage.2.symm, by omega⟩
  | planted inserted slot =>
    cases born
    obtain ⟨mother, live, tree, depth⟩ := enabled.child p above
    rw [Ledger.origin_of_live live, Option.some.injEq] at found
    subst found
    obtain ⟨trace, depth'⟩ := lineal.tree live (tree.trans enabled.tree)
    have := lineal.nonneg live
    refine ⟨trace.symm, ?_⟩
    rw [enabled.depth, depth]
    simp only [JobRow.origin]
    omega
  | _ => cases born

/-- **An enabled event keeps the lineage.** -/
theorem step (roots : e.Roots) (step : Step ext l e l') (lineal : Lineal ext l) :
    Lineal ext l' := by
  have sound := lineal.sound.step step
  have mono : ∀ {j}, l.Drawn ext j → l'.Drawn ext j := step.drawn_mono
  have origins := fun {j} {origin} => @Step.origin ext l l' e step lineal.sound j origin
  obtain ⟨enabled, rfl⟩ := step
  constructor
  case sound => exact sound
  case parentDrawn =>
    intro c child p found above
    rcases origins found with ⟨row, born, -, rfl⟩ | old
    · exact mono (lineal.sound.known ((enabled.born born).parent p above))
    · exact mono (lineal.parentDrawn old above)
  case kin =>
    intro c child p parent found above found'
    -- A newborn job is nobody's parent: its id has just been drawn.
    have parentOld : l.origin p = some parent := by
      rcases origins found' with ⟨row, born, rfl, -⟩ | old
      · have fresh := (enabled.born born).draws.not_drawn
        rcases origins found with ⟨other, born', -, rfl⟩ | old
        · exact absurd (lineal.sound.known ((enabled.born born').parent _ above)) fresh
        · exact absurd (lineal.parentDrawn old above) fresh
      · exact old
    rcases origins found with ⟨row, born, -, rfl⟩ | old
    · exact lineal.born enabled born above parentOld
    · exact lineal.kin old above parentOld
  case tree =>
    intro j row tree found treed
    rcases Ledger.apply_jobs found with ⟨born, -⟩ | ⟨before, live, rfl, -⟩
    · cases e with
      | enqueued inserted now slot =>
        cases born
        rw [enabled.treeless] at treed
        cases treed
      | planted inserted slot =>
        cases born
        exact ⟨Option.some.inj (enabled.tree.symm.trans treed), enabled.depth⟩
      | _ => cases born
    · have same := e.evolve_sameIdentity j before
      rw [same.traceId, same.executionDepth, same.treeDepth]
      rcases e.evolve_treeId j before with ⟨target, rfl, rfl⟩ | unchanged
      · cases live.symm.trans enabled.1
        simp only [Event.evolve, if_true, Option.some.injEq] at treed
        exact ⟨roots.1.trans treed, roots.2⟩
      · exact lineal.tree live (unchanged.symm.trans treed)
  case nonneg =>
    intro j row found
    rcases Ledger.apply_jobs found with ⟨born, -⟩ | ⟨before, live, rfl, -⟩
    · cases e with
      | enqueued inserted now slot =>
        cases born
        rw [enabled.treeDepth]
      | planted inserted slot =>
        cases born
        exact enabled.nonneg
      | _ => cases born
    · rw [(e.evolve_sameIdentity j before).treeDepth]
      exact lineal.nonneg live

end Lineal

/-! ## Runs -/

/-- A job is adopted by a merge, which has it as its target. -/
theorem Op.Emits.adopted {db : Db} {op : Op} {target : JobRow}
    (emits : op.Emits service db (.adopted target)) :
    ∃ clock tree, op = .addFlowMerge clock (some tree) ∧
      resolveTarget db tree.options.name tree.options.idempotencyKey = .ok target := by
  cases op with
  | addFlowMerge clock flow =>
    obtain ⟨tree, resolved, rfl, ok, rfl⟩ := emits
    exact ⟨clock, tree, rfl, ok⟩
  | getNextJob _ _ | heartbeat _ _ | completeJob _ _ | failJob _ _ _ | recoverExpired _ _ =>
    exact (emits.isWork trivial).elim
  | _ => exact emits.elim

/-- The events of an operation that merges into a tree only. -/
theorem roots_of_mergesIntoTrees {run : List Op} {op : Op}
    (merges : MergesIntoTrees ext service run op) :
    ∀ e ∈ eventsOf ext service run op, e.Roots := by
  obtain ⟨slot, refines⟩ := eventsOf_refines ext service run op
  intro e mem
  cases e with
  | adopted target =>
    obtain ⟨clock, tree, rfl, resolved⟩ := (refines.emits _ mem).adopted
    obtain ⟨before, after, enabled, -⟩ := refines.chain.step_of_mem mem
    exact merges clock tree target rfl (answered_of_mem ext service mem) resolved enabled.2.2
  | _ => trivial

theorem lineal_after {run : List Op} (along : Along (MergesIntoTrees ext service) run) :
    Lineal ext ((dbAfter ext service run).ledger run.length 0) :=
  history_invariant_along (I := fun _ => Lineal ext) (G := fun _ => Event.Roots) (.empty ext)
    (fun roots => roots) Lineal.step (fun _ => trivial)
    (fun _ _ merges _ => roots_of_mergesIntoTrees merges) along

theorem Db.HasOrigin.ledger {db : Db} {t k : ℕ} (sound : (db.ledger t k).Sound ext) {j : JobId}
    {origin : Origin} (has : db.HasOrigin j origin) : (db.ledger t k).origin j = some origin := by
  rcases has with ⟨row, live, rfl⟩ | ⟨entry, done, rfl⟩
  · exact Ledger.origin_of_live live
  · exact Ledger.origin_of_archived (sound.not_live done) done

/-- **Lineage holds in every run whose merges go to jobs in trees.** -/
theorem lineage_holds_of_mergesIntoTrees (ext : Externals) (service : Service) (run : List Op)
    (along : Along (MergesIntoTrees ext service) run) :
    LineageHolds (dbAfter ext service run) := by
  have lineal := lineal_after along
  intro c child p parent found above found'
  exact lineal.kin (found.ledger lineal.sound) above (found'.ledger lineal.sound)

/-! ## Two merges -/

section Samples

/-- A child `b` merged under the job with the key `k` of the queue `a`. -/
def mergeChild : Op :=
  .addFlowMerge stopped (some (.node { name := "a", idempotencyKey := "k" }
    [.node { name := "b" } []]))

/-- A flow of one keyed job. -/
def plantKeyed : Op :=
  .addFlow stopped (some (.node { name := "a", idempotencyKey := "k" } []))

/-- The target is the root of a flow. -/
def mergeIntoFlow : List Op := [plantKeyed, mergeChild]

theorem mergeIntoFlow_mergesIntoTrees : Along (MergesIntoTrees .unary {}) mergeIntoFlow := by
  have split : mergeIntoFlow = [] ++ [plantKeyed] ++ [mergeChild] := rfl
  rw [split, along_concat, along_concat]
  refine ⟨⟨along_nil _, fun _ _ _ same => by cases same⟩, ?_⟩
  intro clock tree target same _ resolved untreed
  cases same
  have treed : (resolveTarget (dbAfter .unary {} [plantKeyed]) "a" "k").toOption.bind
      JobRow.treeId = some (unaryId 0 0) := by decide +kernel
  rw [show resolveTarget (dbAfter .unary {} [plantKeyed]) "a" "k" = .ok target from resolved]
    at treed
  cases untreed.symm.trans treed

/-- A child merged into a flow continues the lineage of its target. -/
theorem merge_into_flow_keeps_lineage :
    Along (MergesIntoTrees .unary {}) mergeIntoFlow ∧
      LineageHolds (dbAfter .unary {} mergeIntoFlow) :=
  ⟨mergeIntoFlow_mergesIntoTrees,
    lineage_holds_of_mergesIntoTrees .unary {} mergeIntoFlow mergeIntoFlow_mergesIntoTrees⟩

/-- The target was created by `AddJob`. -/
def mergeIntoJob : List Op :=
  [.addJob stopped { name := "a", idempotencyKey := "k" }, mergeChild]

/-- **A merge breaks the lineage of a job that `AddJob` created**: the child takes
the id of its parent for its trace, and the parent has a trace of its own. -/
theorem merge_breaks_lineage : ¬ LineageHolds (dbAfter .unary {} mergeIntoJob) := by
  intro holds
  have child : ((dbAfter .unary {} mergeIntoJob).jobs.find? (unaryId 1 0)).map JobRow.origin =
      some ⟨some (unaryId 0 0), unaryId 0 0, 1⟩ := by decide +kernel
  have parent : ((dbAfter .unary {} mergeIntoJob).jobs.find? (unaryId 0 0)).map JobRow.origin =
      some ⟨none, unaryId 0 1, 0⟩ := by decide +kernel
  obtain ⟨row, live, origin⟩ := Option.map_eq_some_iff.mp child
  obtain ⟨row', live', origin'⟩ := Option.map_eq_some_iff.mp parent
  have same := (holds _ _ _ _ (.inl ⟨row, live, origin⟩) rfl (.inl ⟨row', live', origin'⟩)).1
  revert same
  decide +kernel

end Samples

end AnvilMQ
