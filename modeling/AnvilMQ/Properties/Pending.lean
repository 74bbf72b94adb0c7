import AnvilMQ.Properties.Gate
import Mathlib.Data.Set.Card

/-!
# The pending counter is exact

Three requests write `pending_children`: the creation of a flow and a merge add the
children they attach, and the completion of a job takes one off its parent.  None
of them reads how the counter came about.  It is nevertheless at every point the
number of children ever attached less the number of children that have completed,
each counted once.
-/

namespace AnvilMQ

open Rust Relational Transition

/-! ## The guarantee -/

/-- The links of the trees a creation answers with. -/
def Reply.plantedLinks : Reply → List (JobId × JobId)
  | planted trees => trees.flatMap fun tree => nodeLinks tree.nodes
  | _ => []

/-- The links of the nodes a merge answers with. -/
def Reply.mergedLinks : Reply → List (JobId × JobId)
  | merged response => nodeLinks response.attached
  | _ => []

/-- The operations that may write `pending_children`. -/
def Op.MovesCounters : Op → Prop
  | addFlow _ _ => True
  | addFlowBulk _ _ => True
  | addFlowMerge _ _ => True
  | completeJob _ _ => True
  | _ => False

section Statement

variable (ext : Externals) (service : Service)

/-- The children created with their parents by `AddFlow` and `AddFlowBulk`. -/
def plantedLinks (run : List Op) : List (JobId × JobId) :=
  told ext service (fun _ reply => reply.plantedLinks) run

/-- The children attached by committed `AddFlowMerge` calls. -/
def mergedLinks (run : List Op) : List (JobId × JobId) :=
  told ext service (fun _ reply => reply.mergedLinks) run

/-- The job has completed, and its `parent_id` is `p`. -/
def CompletedUnder (run : List Op) (p c : JobId) : Prop :=
  ∃ before, before <+: run ∧ ∃ entry,
    (dbAfter ext service before).jobHistory.find? c = some entry ∧ entry.state = .completed ∧
      entry.parentId = some p

/-- **The pending counter is exact**, for a live job at one point of a run. -/
structure PendingExact (run : List Op) (p : JobId) (row : JobRow) : Prop where
  finite : {c | CompletedUnder ext service run p c}.Finite
  exact : row.pendingChildren = linkedTo (plantedLinks ext service run) p +
    linkedTo (mergedLinks ext service run) p - {c | CompletedUnder ext service run p c}.ncard
  /-- A replay, a refusal, a rollback and every operation on other matters leave it. -/
  steady : ∀ op row', (dbAfter ext service (run ++ [op])).jobs.find? p = some row' →
    ¬ op.MovesCounters ∨ ¬ Changes ext service run op →
    row'.pendingChildren = row.pendingChildren

end Statement

variable {ext : Externals} {service : Service} {past : List Event} {l l' : Ledger} {e : Event}
  {run : List Op}

/-! ## Where history rows come from -/

/-- Every history row was written by an event. -/
def Chronicled (past : List Event) (l : Ledger) : Prop :=
  ∀ j entry, l.jobHistory j = some entry →
    ∃ e ∈ past, ∃ row, e.retires = some (row, entry) ∧ row.id = j ∧ entry.parentId = row.parentId

theorem Chronicled.empty : Chronicled [] (Db.empty.ledger 0 0) := by
  intro j entry found
  cases found

theorem Chronicled.step (step : Step ext l e l') (chronicled : Chronicled past l) :
    Chronicled (past ++ [e]) l' := by
  obtain ⟨enabled, rfl⟩ := step
  intro j entry found
  rcases Ledger.apply_jobHistory found with ⟨row, retires, retired⟩ | ⟨old, -, -⟩
  · obtain ⟨-, copy, here⟩ := enabled.retires retires
    exact ⟨e, by simp, row, retires, Option.some.inj (here.symm.trans retired), copy.parentId⟩
  · obtain ⟨e', mem, written⟩ := chronicled j entry old
    exact ⟨e', List.mem_append_left _ mem, written⟩

/-- A child archived as completed was completed in an event. -/
theorem completed_event_of_archived {j p : JobId} {entry : HistoryRow}
    (found : (dbAfter ext service run).jobHistory.find? j = some entry)
    (completed : entry.state = .completed) (above : entry.parentId = some p) :
    ∃ row parent now updatedAt n,
      .completed row entry parent now updatedAt n ∈ history ext service run ∧ row.id = j ∧
        row.parentId = some p := by
  have chronicled : Chronicled (history ext service run)
      ((dbAfter ext service run).ledger run.length 0) :=
    history_invariant .empty Chronicled.step run
  obtain ⟨e, mem, row, retires, here, same⟩ := chronicled j entry found
  obtain ⟨t, t', step⟩ := (history_chain ext service run).step_of_mem mem
  obtain ⟨parent, now, updatedAt, n, rfl⟩ := step.completed_of_retires retires completed
  exact ⟨row, parent, now, updatedAt, n, mem, here, same.symm.trans above⟩

/-! ## The two counts -/

/-- The children of a live job that have completed are those counted off it. -/
theorem completedUnder_iff {p c : JobId} {row : JobRow}
    (live : (dbAfter ext service run).jobs.find? p = some row) :
    CompletedUnder ext service run p c ↔ c ∈ countedChildren (history ext service run) p := by
  have kin := kinship_after ext service run
  constructor
  · rintro ⟨before, ⟨more, rfl⟩, entry, found, completed, above⟩
    obtain ⟨child, parent, now, updatedAt, n, mem, rfl, here⟩ :=
      completed_event_of_archived found completed above
    obtain ⟨later, same, -⟩ := history_append ext service before more
    have whole : .completed child entry parent now updatedAt n ∈
        history ext service (before ++ more) := by
      rw [same]
      exact List.mem_append_left _ mem
    rcases kin.counted whole here with counts | ⟨-, gone⟩
    · exact mem_countedChildren.mpr ⟨child, entry, parent, now, updatedAt, n, whole, rfl, counts⟩
    · cases live.symm.trans gone
  · intro mem
    obtain ⟨child, entry, parent, now, updatedAt, n, here, rfl, counts⟩ :=
      mem_countedChildren.mp mem
    obtain ⟨before, le, found, completed, same⟩ := archived_of_completed here
    exact ⟨before, le, entry, found, completed, same.trans (kin.countedParent here counts)⟩

/-- Every flow link was made by a creation or by a merge. -/
theorem linkedTo_flowLinks (run : List Op) (p : JobId) :
    linkedTo (flowLinks ext service run) p =
      linkedTo (plantedLinks ext service run) p + linkedTo (mergedLinks ext service run) p := by
  induction run using List.reverseRecOn with
  | nil => rfl
  | append_singleton run op ih =>
    rw [flowLinks, plantedLinks, mergedLinks, told_concat, told_concat, told_concat,
      linkedTo_append, linkedTo_append, linkedTo_append, ← flowLinks, ← plantedLinks,
      ← mergedLinks, ih]
    cases replyTo ext service run op with
    | none => simp [linkedTo]
    | some reply =>
      cases reply <;>
        simp [Reply.links, Reply.plantedLinks, Reply.mergedLinks, linkedTo] <;> omega

/-! ## Operations on other matters -/

/-- The other operations announce no children and count none off. -/
theorem Op.Emits.still {db : Db} {op : Op} (emits : op.Emits service db e)
    (other : ¬ op.MovesCounters) (j : JobId) : e.announces j = 0 ∧ e.countsOff ≠ some j := by
  cases op with
  | addFlow clock flow => exact absurd trivial other
  | addFlowBulk clock flows => exact absurd trivial other
  | addFlowMerge clock flow => exact absurd trivial other
  | completeJob clock req => exact absurd trivial other
  | getNextJob clock req =>
    obtain ⟨row, rfl⟩ := emits
    exact ⟨rfl, fun same => by cases same⟩
  | heartbeat clock req =>
    obtain ⟨row, lease, -, rfl⟩ := emits
    exact ⟨rfl, fun same => by cases same⟩
  | failJob clock jittered req =>
    rcases emits with ⟨row, -, rfl | ⟨n, rfl⟩⟩ | ⟨row, entry, n, rfl⟩ <;>
      exact ⟨rfl, fun same => by cases same⟩
  | recoverExpired clock batchSize =>
    obtain ⟨row, n, rfl⟩ := emits
    rw [recoveryEvent]
    split <;> exact ⟨rfl, fun same => by cases same⟩
  | upsertRateLimitRule clock req => exact emits.elim
  | deleteRateLimitRule facetKey => exact emits.elim
  | _ => cases e <;> first | exact emits.elim | exact ⟨rfl, fun same => by cases same⟩

theorem pending_of_still {events : List Event} {j : JobId}
    (still : ∀ e ∈ events, e.announces j = 0 ∧ e.countsOff ≠ some j) :
    announced events j = 0 ∧ countedOff events j = 0 := by
  constructor
  · rw [announced, List.map_congr_left fun e mem => (still e mem).1]
    simp
  · rw [countedOff, List.countP_eq_zero]
    intro e mem
    simpa using (still e mem).2

/-! ## Runs -/

/-- Other operations leave the counter alone. -/
theorem pending_steady {p : JobId} {row row' : JobRow} {op : Op}
    (live : (dbAfter ext service run).jobs.find? p = some row)
    (after : (dbAfter ext service (run ++ [op])).jobs.find? p = some row')
    (other : ¬ op.MovesCounters) : row'.pendingChildren = row.pendingChildren := by
  obtain ⟨slot, refines⟩ := eventsOf_refines ext service run op
  have still : ∀ e ∈ eventsOf ext service run op ++ [.tick],
      e.announces p = 0 ∧ e.countsOff ≠ some p := by
    intro e mem
    rcases List.mem_append.mp mem with here | last
    · exact (refines.emits e here).still other p
    · rw [List.mem_singleton.mp last]
      exact ⟨rfl, nofun⟩
  obtain ⟨unannounced, uncounted⟩ := pending_of_still still
  have before := (tally_after ext service run).pending live
  have final := (tally_after ext service (run ++ [op])).pending after
  rw [history_concat, announced_append, unannounced, countedOff, List.countP_append, ← countedOff,
    ← countedOff, uncounted, add_zero, Nat.add_zero] at final
  exact final.trans before.symm

variable (ext service) in
/-- **The pending counter is exact**: in every run, for every live job, it is the
number of children the job was created with and of children merged under it, less
the number of jobs with it as parent that have completed. -/
theorem pending_children_exact (run : List Op) (p : JobId) (row : JobRow)
    (live : (dbAfter ext service run).jobs.find? p = some row) :
    PendingExact ext service run p row := by
  have children : {c | CompletedUnder ext service run p c} =
      ((countedChildren (history ext service run) p).toFinset : Set JobId) := by
    ext c
    simp [completedUnder_iff live]
  refine ⟨?_, ?_, ?_⟩
  · rw [children]
    exact Finset.finite_toSet _
  · rw [children, Set.ncard_coe_finset, List.toFinset_card_of_nodup
      ((kinship_after ext service run).countedChildren_nodup p), length_countedChildren,
      (tally_after ext service run).pending live, history_balanced ext service run,
      ← flowLinks_eq, linkedTo_flowLinks]
    push_cast
    rfl
  · rintro op row' after (other | unchanged)
    · exact pending_steady live after other
    · rw [not_not.mp unchanged, live] at after
      cases after
      rfl

/-- The parent of one flow child that has completed has none pending. -/
theorem pending_after_flow_child :
    ∃ row, (dbAfter .unary {} flowRun).jobs.find? parentJob = some row ∧
      row.pendingChildren = 0 ∧ PendingExact .unary {} flowRun parentJob row := by
  have counter : ((dbAfter .unary {} flowRun).jobs.find? parentJob).map JobRow.pendingChildren =
      some 0 := by decide +kernel
  obtain ⟨row, live, noPending⟩ := Option.map_eq_some_iff.mp counter
  exact ⟨row, live, noPending, pending_children_exact .unary {} flowRun parentJob row live⟩

end AnvilMQ
