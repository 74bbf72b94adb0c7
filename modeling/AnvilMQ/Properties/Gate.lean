import AnvilMQ.Ledger.Kinship
import AnvilMQ.Ledger.Refinement

/-!
# The flow dependency gate

A job with flow children waits until they have completed.  The broker keeps one
counter for this, `pending_children`: planting and merging announce children,
and every completion of a job with a live parent counts one off, whether or not
the child was ever announced.
-/

namespace AnvilMQ

open Rust Relational Transition

/-! ## What the gate promises -/

section Statement

variable (ext : Externals) (service : Service)

/-- The job has completed: at some point of the run its history row says so. -/
def Completed (run : List Op) (c : JobId) : Prop :=
  ∃ before, before <+: run ∧ ∃ entry, (dbAfter ext service before).jobHistory.find? c = some entry ∧
    entry.state = .completed

/-- A poll hands out no job with a flow child that has not completed. -/
def HandsOutReady (run : List Op) (op : Op) : Prop :=
  ∀ clock req job, op = .getNextJob clock req →
    replyTo ext service run op = some (.claimed (some job)) →
    ∀ c, (c, job.id) ∈ flowLinks ext service run → Completed ext service run c

/-- The completion of the last flow child of a parked job releases the job, to
`Delayed` while its `available_at` is ahead and to `Waiting` otherwise. -/
def ReleasesParent (run : List Op) (op : Op) : Prop :=
  ∀ clock req p parent, op = .completeJob clock req →
    replyTo ext service run op = some .completed →
    (dbAfter ext service run).jobs.Has req.id →
    (req.id, p) ∈ flowLinks ext service run →
    (∀ c, (c, p) ∈ flowLinks ext service run → c ≠ req.id → Completed ext service run c) →
    (dbAfter ext service run).jobs.find? p = some parent → parent.state = .waitingChildren →
    ∃ released, (dbAfter ext service (run ++ [op])).jobs.find? p = some released ∧
      released.state =
        if parent.availableAt.any fun at_ => decide (clock 0 < at_) then .delayed else .waiting

/-- **The dependency gate**, as a promise about one operation of a run. -/
def GateHolds (run : List Op) (op : Op) : Prop :=
  HandsOutReady ext service run op ∧ ReleasesParent ext service run op

/-- A committed completion of a job with a live parent is that of a flow child of
the parent. -/
def CountsFlowChildren (run : List Op) (op : Op) : Prop :=
  ∀ clock req row p, op = .completeJob clock req →
    replyTo ext service run op = some .completed →
    (dbAfter ext service run).jobs.find? req.id = some row → row.parentId = some p →
    (dbAfter ext service run).jobs.Has p → (req.id, p) ∈ flowLinks ext service run

end Statement

variable {ext : Externals} {service : Service} {l' : Ledger} {run : List Op} {row : JobRow}

/-! ## Runs -/

variable (ext service) in
theorem tally_after (run : List Op) :
    Tally ext (history ext service run) ((dbAfter ext service run).ledger run.length 0) :=
  history_invariant (.empty ext) Tally.step run

variable (ext service) in
theorem kinship_after (run : List Op) :
    Kinship ext (history ext service run) ((dbAfter ext service run).ledger run.length 0) :=
  history_invariant (.empty ext) Kinship.step run

/-- Only `CompleteJob` completes jobs. -/
theorem Op.Emits.completed {db : Db} {op : Op} {entry : HistoryRow} {parent : Option JobRow}
    {now updatedAt : ℤ} {n : ℕ}
    (emits : op.Emits service db (.completed row entry parent now updatedAt n)) :
    ∃ clock req, op = .completeJob clock req ∧ db.jobs.find? req.id = some row ∧
      parent = row.parentId.bind (Function.update db.jobs.find? row.id none) := by
  cases op with
  | completeJob clock req =>
    obtain ⟨found, ⟨live, -⟩, same⟩ := emits
    cases same
    exact ⟨clock, req, rfl, live, rfl⟩
  | addFlowMerge clock flow =>
    obtain ⟨tree, target, -, -, merges⟩ := emits
    exact merges.elim
  | getNextJob clock req =>
    obtain ⟨found, same⟩ := emits
    cases same
  | heartbeat clock req =>
    obtain ⟨found, lease, -, same⟩ := emits
    cases same
  | failJob clock jittered req =>
    rcases emits with ⟨found, -, same | ⟨n, same⟩⟩ | ⟨found, written, n, same⟩ <;> cases same
  | recoverExpired clock batchSize =>
    obtain ⟨found, n, same⟩ := emits
    rw [recoveryEvent] at same
    split at same <;> cases same
  | _ => exact emits.elim

/-- A completion of the history left its row in `job_history` at some point of the
run. -/
theorem archived_of_completed {entry : HistoryRow} {parent : Option JobRow} {now updatedAt : ℤ}
    {n : ℕ} (mem : .completed row entry parent now updatedAt n ∈ history ext service run) :
    ∃ before, before <+: run ∧
      (dbAfter ext service before).jobHistory.find? row.id = some entry ∧
      entry.state = .completed ∧ entry.parentId = row.parentId := by
  induction run using List.reverseRecOn with
  | nil => cases mem
  | append_singleton run op ih =>
    rw [history_concat, List.mem_append] at mem
    rcases mem with before | here
    · obtain ⟨early, le, found⟩ := ih before
      exact ⟨early, le.trans (List.prefix_append _ _), found⟩
    · obtain ⟨slot, refines⟩ := eventsOf_refines ext service run op
      have emitted : Event.completed row entry parent now updatedAt n ∈
          eventsOf ext service run op := by simpa using here
      obtain ⟨clock, req, rfl, -, -⟩ := (refines.emits _ emitted).completed
      refine ⟨_, List.prefix_refl _, ?_, ?_⟩
      · refine (sound_after ext service run).archived_of_chain (next_chain ext service run _)
          here rfl ?_
        intro e mem
        rcases List.mem_append.mp mem with own | last
        · obtain ⟨other, -, rfl⟩ := refines.emits e own
          simp [completionEvent]
        · rw [List.mem_singleton.mp last]
          simp
      · obtain ⟨other, -, same⟩ := refines.emits _ emitted
        cases same
        exact ⟨rfl, rfl⟩

theorem completed_of_mem_completionsOf {c : JobId}
    (mem : c ∈ completionsOf (history ext service run)) : Completed ext service run c := by
  obtain ⟨e, here, completes⟩ := List.mem_filterMap.mp mem
  obtain ⟨row, entry, parent, now, updatedAt, n, rfl, rfl⟩ :=
    Event.completed_of_completes completes
  obtain ⟨before, le, found, completed, -⟩ := archived_of_completed here
  exact ⟨before, le, entry, found, completed⟩

theorem mem_completionsOf_of_completed {c : JobId} (completed : Completed ext service run c) :
    c ∈ completionsOf (history ext service run) := by
  obtain ⟨before, ⟨more, rfl⟩, entry, found, state⟩ := completed
  obtain ⟨later, same, -⟩ := history_append ext service before more
  rw [same, completionsOf, List.filterMap_append]
  exact List.mem_append_left _ ((kinship_after ext service before).archived found state)

/-- In runs whose completions count off only flow children, every child counted
off is linked. -/
theorem linked_of_counted (along : Along (CountsFlowChildren ext service) run) (p : JobId) :
    ∀ c ∈ countedChildren (history ext service run) p,
      (c, p) ∈ linksOf (history ext service run) := by
  induction run using List.reverseRecOn with
  | nil => simp [countedChildren]
  | append_singleton run op ih =>
    obtain ⟨before, last⟩ := along_concat.mp along
    intro c mem
    have grown : (c, p) ∈ linksOf (history ext service run) →
        (c, p) ∈ linksOf (history ext service (run ++ [op])) := by
      intro old
      rw [history_concat, linksOf, List.filterMap_append]
      exact List.mem_append_left _ old
    obtain ⟨row, entry, parent, now, updatedAt, n, here, rfl, counts⟩ :=
      mem_countedChildren.mp mem
    rw [history_concat] at here
    rcases List.mem_append.mp here with old | new
    · exact grown (ih before _ (mem_countedChildren.mpr
        ⟨row, entry, parent, now, updatedAt, n, old, rfl, counts⟩))
    · have emitted : Event.completed row entry parent now updatedAt n ∈
          eventsOf ext service run op := by simpa using new
      obtain ⟨slot, refines⟩ := eventsOf_refines ext service run op
      obtain ⟨clock, req, rfl, live, found⟩ := (refines.emits _ emitted).completed
      obtain ⟨reply, replied⟩ := answered_of_mem ext service emitted
      obtain ⟨outcome, -, shape, -⟩ := replyTo_transact ext service rfl replied
      obtain ⟨q, rfl, rfl⟩ := Option.map_eq_some_iff.mp counts
      obtain ⟨a, above, alive⟩ := Option.bind_eq_some_iff.mp found.symm
      rw [Function.update_apply] at alive
      split at alive
      · cases alive
      have key := Table.key_of_find? alive
      have sameId := Table.key_of_find? live
      refine grown ?_
      have link := last clock req row a rfl (by rw [replied, ← shape]) live above
        (Table.has_iff_find?.mpr ⟨q, alive⟩)
      rw [flowLinks_eq] at link
      rw [sameId, key]
      exact link

/-- A poll that is answered with a job claimed a due one. -/
theorem claimed_ready {clock : Clock} {req : GetNextJobRequest} {job : ClaimedJob}
    (replied : replyTo ext service run (.getNextJob clock req) = some (.claimed (some job))) :
    ∃ row, (dbAfter ext service run).jobs.find? job.id = some row ∧ row.state.Claimable := by
  obtain ⟨⟨claimed, db', calls⟩, ok, shape, -⟩ := replyTo_transact ext service rfl replied
  cases shape
  rcases getNextJob_cases ok with ⟨unclaimed, -, -⟩ | ⟨row, selected, -, same, -, -⟩
  · cases unclaimed
  · cases same
    exact ⟨row, selectNext_some selected⟩

/-- Under the condition a poll hands out no job with an open flow child. -/
theorem handsOutReady_of_countsFlowChildren (along : Along (CountsFlowChildren ext service) run)
    (op : Op) : HandsOutReady ext service run op := by
  rintro clock req job rfl replied c child
  obtain ⟨row, live, claimable⟩ := claimed_ready replied
  have tally := tally_after ext service run
  have kin := kinship_after ext service run
  have balanced := history_balanced ext service run job.id
  have pending := tally.pending live
  have settled : row.pendingChildren ≤ 0 := by
    refine (tally.gated live).resolve_left ?_
    rcases claimable with state | state <;> simp [state]
  rw [flowLinks_eq] at child
  refine completed_of_mem_completionsOf (kin.all_completed (linked_of_counted along _) ?_ child)
  rw [linksOf]
  omega

/-- A completion counts its job off the live parent. -/
theorem Step.countsDown {clock : Clock} {db : Db} {result : Option Bytes} {t k : ℕ}
    (sound : (db.ledger t k).Sound ext)
    (step : Step ext (db.ledger t k) (completionEvent clock db row result) l') {p : JobId}
    {parent : JobRow} (above : row.parentId = some p) (live : db.jobs.find? p = some parent) :
    l'.jobs p = some (parent.countedDown (clock 0) (clock 2)) := by
  obtain ⟨enabled, rfl⟩ := step
  have other : p ≠ row.id := by
    rintro rfl
    exact (sound.older enabled.1 above).irrefl
  have key : parent.id = p := sound.keyed live
  have here : (row.parentId.bind (Function.update db.jobs.find? row.id none)).map JobRow.id =
      some p := by
    rw [above, Option.bind_some, Function.update_of_ne other, live, Option.map_some, key]
  have stays : (completionEvent clock db row result).retiredId ≠ some p := fun retired =>
    other (Option.some.inj retired).symm
  refine (if_neg stays).trans ((if_neg nofun).trans ?_)
  have alive : (db.ledger t k).jobs p = some parent := live
  rw [alive, Option.map_some]
  exact congrArg some (if_pos here)

/-- A parked parent with at most one child pending is released. -/
theorem JobRow.countedDown_released {parent : JobRow} {now updatedAt : ℤ}
    (parked : parent.state = .waitingChildren) (last : parent.pendingChildren ≤ 1) :
    (parent.countedDown now updatedAt).state =
      if parent.availableAt.any fun at_ => decide (now < at_) then .delayed else .waiting := by
  have opens : gateOpens { parent with pendingChildren := parent.pendingChildren - 1 } = true := by
    simp only [gateOpens, parked, decide_true, Bool.true_and, decide_eq_true_eq]
    omega
  rw [JobRow.countedDown, if_pos opens]
  rfl

/-- The completion of the last flow child releases the parent. -/
theorem releasesParent (run : List Op) (op : Op) : ReleasesParent ext service run op := by
  rintro clock req p parent rfl replied live child others found parked
  obtain ⟨row, here, -, step⟩ := completed_step replied live
  have tally := tally_after ext service run
  have kin := kinship_after ext service run
  rw [flowLinks_eq] at child others
  have missing := kin.one_missing found child fun c' link other =>
    mem_completionsOf_of_completed (others c' link other)
  have balanced := history_balanced ext service run p
  have pending := tally.pending found
  have last : parent.pendingChildren ≤ 1 := by
    rw [linksOf] at missing
    omega
  exact ⟨_, step.countsDown kin.sound (kin.linkParent child here) found,
    JobRow.countedDown_released parked last⟩

/-- **The dependency gate holds in every run whose committed completions count off
only flow children**: no poll hands out a job with a flow child that has not
completed, and the completion of the last one releases the job. -/
theorem gate_holds_of_countsFlowChildren (ext : Externals) (service : Service) (run : List Op)
    (along : Along (CountsFlowChildren ext service) run) (op : Op) :
    GateHolds ext service run op :=
  ⟨handsOutReady_of_countsFlowChildren along op, releasesParent run op⟩

/-! ## Two runs over one parent -/

section Runs

/-- A flow of a parent `p` with one child `a`. -/
def plantParent : Op :=
  .addFlow stopped (some (.node { name := "p" } [.node { name := "a" } []]))

/-- The parent of `plantParent` when it is the first operation. -/
def parentJob : JobId := unaryId 0 0

/-- The child of `plantParent` when it is the first operation. -/
def childJob : JobId := unaryId 0 1

/-- The flow child completes. -/
def flowRun : List Op :=
  [plantParent, poll "a", .completeJob stopped { id := childJob, workerId := "w", attempt := 1 }]

theorem flowRun_countsFlowChildren :
    Along (CountsFlowChildren .unary {}) flowRun := by
  have split : flowRun = ([] ++ [plantParent] ++ [poll "a"]) ++
      [.completeJob stopped { id := childJob, workerId := "w", attempt := 1 }] := rfl
  rw [split, along_concat, along_concat, along_concat]
  refine ⟨⟨⟨along_nil _, fun _ _ _ _ same => by cases same⟩, fun _ _ _ _ same => by cases same⟩, ?_⟩
  intro clock req row p same _ found above _
  cases same
  have parent : ((dbAfter .unary {} [plantParent, poll "a"]).jobs.find? childJob).bind
      JobRow.parentId = some parentJob := by decide +kernel
  rw [show (dbAfter .unary {} [plantParent, poll "a"]).jobs.find? childJob = some row from found,
    Option.bind_some, above, Option.some.injEq] at parent
  subst parent
  decide +kernel

/-- Once the flow child has completed, the parent is handed out. -/
theorem gate_opens_for_flow_child :
    Along (CountsFlowChildren .unary {}) flowRun ∧ GateHolds .unary {} flowRun (poll "p") ∧
      claims .unary {} (flowRun ++ [poll "p"]) = [(childJob, 1, "w"), (parentJob, 1, "w")] :=
  ⟨flowRun_countsFlowChildren,
    gate_holds_of_countsFlowChildren .unary {} flowRun flowRun_countsFlowChildren (poll "p"),
    by decide +kernel⟩

/-- A job enqueued with the parent's id completes while the flow child waits. -/
def ancestryRun : List Op :=
  [plantParent,
    .addJob stopped { name := "b", metadata := some { parentId := parentJob } },
    poll "b",
    .completeJob stopped { id := unaryId 1 0, workerId := "w", attempt := 1 }]

/-- **An ancestry child opens the gate.**  `AddJob` with the id of a flow parent
creates a child the parent was never announced; its completion is counted off all
the same, and the parent is handed out before its flow child has run. -/
theorem gate_opens_for_ancestry_child : ¬ GateHolds .unary {} ancestryRun (poll "p") := by
  rintro ⟨ready, -⟩
  have replied : replyTo .unary {} ancestryRun (poll "p") = some (.claimed (some
      { id := parentJob
        name := "p"
        payload := []
        metadata := { parentId := "", traceId := parentJob, executionDepth := 0 }
        attempts := 1
        leaseExpiresAtMs := 30000 })) := by decide +kernel
  have child : (childJob, parentJob) ∈ flowLinks .unary {} ancestryRun := by decide +kernel
  obtain ⟨before, le, entry, found, -⟩ := ready _ _ _ rfl replied childJob child
  have waits : ∀ before ∈ ancestryRun.inits,
      (dbAfter .unary {} before).jobHistory.find? childJob = none := by decide +kernel
  rw [waits before ((List.mem_inits _ _).mpr le)] at found
  cases found

end Runs

end AnvilMQ
