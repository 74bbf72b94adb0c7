import AnvilMQ.Ledger.Margins
import AnvilMQ.Properties.Handover
import Mathlib.Data.Fintype.Card
import Mathlib.Data.Set.Finite.List

/-!
# Workers drain the broker

No arrangement of flows, merges and plain jobs deadlocks.  A parked job has a child that is
still to complete, children are younger than their parents, and so the youngest live job can
always be claimed.  Workers that poll and complete what they get empty the broker in as many
rounds as there are live jobs.

The counter of pending children may be too low, since a plain job can name a parent that never
counted it.  A parent that is parked again on a counter below zero is parked on children of its
own all the same, and the completion of any of them opens it.
-/

namespace AnvilMQ

open Rust Relational Transition

variable {ext : Externals} {service : Service}

/-! ## Parked jobs -/

section Events

variable {l l' : Ledger} {e : Event} {p : JobId}

/-- A row that is parked has children pending. -/
def JobRow.Pends (row : JobRow) : Prop := row.state = .waitingChildren → 0 < row.pendingChildren

/-- The job an event parks on children that were attached to it. -/
def Event.parks : Event → Option JobId
  | regated target _ _ => some target.id
  | _ => none

/-- A gate that stays shut has children pending behind it. -/
theorem JobRow.countedDown_pends (row : JobRow) (now updatedAt : ℤ) :
    (row.countedDown now updatedAt).Pends := by
  by_cases opens : gateOpens { row with pendingChildren := row.pendingChildren - 1 } = true
  · intro parked
    simp only [JobRow.countedDown, if_pos opens, releasedState] at parked
    split at parked <;> cases parked
  · intro parked
    simp only [JobRow.countedDown, if_neg opens] at parked ⊢
    simp only [gateOpens, Bool.and_eq_true, decide_eq_true_eq, not_and, not_le] at opens
    exact opens parked

/-- Counting a child off neither claims a job nor changes when it is due. -/
theorem JobRow.countedDown_steady (row : JobRow) (now updatedAt : ℤ) :
    ((row.countedDown now updatedAt).state = .active → row.state = .active) ∧
      (row.countedDown now updatedAt).availableAt = row.availableAt ∧
      (row.countedDown now updatedAt).attempts = row.attempts := by
  rw [JobRow.countedDown]
  split
  · refine ⟨fun active => ?_, rfl, rfl⟩
    simp only [releasedState] at active
    split at active <;> cases active
  · exact ⟨fun active => active, rfl, rfl⟩

/-- An event that does not park a job on new children keeps something pending behind its gate. -/
theorem Event.Enabled.evolve_pends (enabled : e.Enabled ext l) (unparked : e.parks ≠ some p)
    {row : JobRow} (pends : row.Pends) : (e.evolve p row).Pends := by
  cases e with
  | claimed other workerId now lease =>
    simp only [evolve]
    split
    · exact nofun
    · exact pends
  | renewed other lease now =>
    simp only [evolve]
    split <;> exact pends
  | requeued other cause state availableAt lastError updatedAt =>
    simp only [evolve]
    split
    · intro parked
      rcases enabled.2.2.1 with rest | rest <;> simp [JobRow.requeued, rest] at parked
    · exact pends
  | completed other entry parent now updatedAt released =>
    simp only [evolve]
    split
    · exact row.countedDown_pends now updatedAt
    · exact pends
  | adopted target =>
    simp only [evolve]
    split <;> exact pends
  | regated target n updatedAt =>
    have elsewhere : p ≠ target.id := fun here => unparked (congrArg some here.symm)
    rwa [evolve, if_neg elsewhere]
  | _ => exact pends

/-- A job that no event parks has children pending if it is parked. -/
theorem Step.pends (unparked : e.parks ≠ some p) (step : Step ext l e l')
    (pends : ∀ row, l.jobs p = some row → row.Pends) :
    ∀ row, l'.jobs p = some row → row.Pends := by
  obtain ⟨enabled, rfl⟩ := step
  intro row found
  rcases Ledger.apply_jobs found with ⟨born, -⟩ | ⟨before, live, rfl, -⟩
  · intro parked
    cases e with
    | enqueued inserted now slot =>
      cases born
      rcases enabled.claimable with state | state <;> simp [state] at parked
    | planted inserted slot =>
      cases born
      rcases enabled.gated with ⟨-, pending⟩ | ⟨state | state, -⟩
      · exact pending
      · simp [state] at parked
      · simp [state] at parked
    | _ => cases born
  · exact enabled.evolve_pends unparked (pends before live)

end Events

section Runs

variable {run : List Op} {op : Op} {p : JobId} {row : JobRow}

theorem completionsOf_history (run : List Op) (op : Op) :
    completionsOf (history ext service (run ++ [op])) =
      completionsOf (history ext service run) ++ completionsOf (eventsOf ext service run op) := by
  rw [completionsOf, history_concat, List.filterMap_append, List.filterMap_append]
  exact congrArg _ (List.append_nil _)

/-- The children a job waits for: attached to it and not completed. -/
def OpenChild (ext : Externals) (service : Service) (run : List Op) (p c : JobId) : Prop :=
  (c, p) ∈ flowLinks ext service run ∧ c ∉ completionsOf (history ext service run)

/-- A job with children pending has one that has not completed. -/
theorem open_child_of_pending (live : (dbAfter ext service run).jobs.find? p = some row)
    (pending : 0 < row.pendingChildren) : ∃ c, OpenChild ext service run p c := by
  have kin := kinship_after ext service run
  by_contra none_
  have all : ∀ c, (c, p) ∈ linksOf (history ext service run) →
      c ∈ completionsOf (history ext service run) := by
    intro c link
    by_contra still
    exact none_ ⟨c, by rwa [flowLinks_eq], still⟩
  -- then every child was counted off, and the counter is not above zero
  have within : childrenOf (linksOf (history ext service run)) p ⊆
      countedChildren (history ext service run) p := fun c mem =>
    kin.counted_of_completed live (mem_childrenOf.mp mem) (all c (mem_childrenOf.mp mem))
  have short := (List.subperm_of_subset (kin.childrenOf_nodup p) within).length_le
  rw [length_childrenOf, length_countedChildren] at short
  have exact_ := (tally_after ext service run).pending live
  rw [history_balanced ext service run p, ← linksOf] at exact_
  omega

theorem root_mem_flattenList (ext : Externals) (t : ℕ) (trees : List FlowJob) (depth k : ℕ)
    (some_ : trees ≠ []) : ∃ node ∈ flattenList ext t trees none depth k, node.parentId = none := by
  cases trees with
  | nil => exact absurd rfl some_
  | cons tree rest =>
    obtain ⟨options, children⟩ := tree
    rw [flattenList, flatten]
    exact ⟨_, List.mem_cons_self, rfl⟩

/-- A merge attaches a child to its target. -/
theorem merge_links {clock : Clock} {tree : FlowJob} {target : JobRow} {reply : Reply}
    (replied : replyTo ext service run (.addFlowMerge clock (some tree)) = some reply)
    (resolved : resolveTarget (dbAfter ext service run) tree.options.name
      tree.options.idempotencyKey = .ok target) : ∃ c, (c, target.id) ∈ reply.links := by
  obtain ⟨⟨response, db', calls⟩, ok, rfl, -⟩ := replyTo_transact ext service rfl replied
  unfold addFlowMerge at ok
  obtain ⟨-, ok⟩ := guard_eq_ok.mp ok
  obtain ⟨some_, ok⟩ := guard_eq_ok.mp ok
  obtain ⟨prepared, accepted, merged⟩ := bind_eq_ok.mp ok
  obtain ⟨out, -⟩ := prepareNodes_ok tree.children none 1 _ _ accepted
  simp only [mergeInto, bind_eq_ok] at merged
  obtain ⟨found, same, ⟨⟩, -, db₁, -, done⟩ := merged
  cases same.symm.trans resolved
  cases done
  have named := (sound_after ext service run).named target.id
    (Table.has_iff_find?.mpr ⟨target, (resolveTarget_ok resolved).1⟩)
  obtain ⟨node, mem, root⟩ := root_mem_flattenList ext run.length tree.children 1 0
    (by simpa using some_)
  -- a root hangs under the target
  refine ⟨node.id, List.mem_map.mpr ⟨describe (mergePlacement target) node, ?_, ?_⟩⟩
  · rw [List.mem_filter, out, List.nil_append]
    refine ⟨List.mem_map_of_mem mem, ?_⟩
    simpa [describe, Placement.parentOf, root, mergePlacement] using named
  · simp [describe, Placement.parentOf, root, mergePlacement]

/-- A job parked by an operation has a child attached by it. -/
theorem link_of_parks {e : Event} (mem : e ∈ eventsOf ext service run op)
    (parks : e.parks = some p) :
    ∃ c, (c, p) ∈ (eventsOf ext service run op).filterMap Event.link := by
  obtain ⟨slot, refines⟩ := eventsOf_refines ext service run op
  obtain ⟨reply, replied⟩ := answered_of_mem ext service mem
  have emits := refines.emits e mem
  obtain ⟨calls, answer⟩ := replyTo_eq_some.mp replied
  have links : (eventsOf ext service run op).filterMap Event.link = reply.links :=
    refines.links.trans (congrArg (shown Reply.links) answer)
  rw [links]
  cases e with
  | regated target n updatedAt =>
    have other : ¬ op.Works := emits.isWork
    cases op with
    | addFlowMerge clock flow =>
      obtain ⟨tree, found, rfl, resolved, here⟩ := emits
      have here : target.id = found.id := here
      rw [← Option.some.inj parks, here]
      exact merge_links replied resolved
    | _ => first | exact emits.elim | exact absurd trivial other
  | _ => cases parks

/-- A child that was attached by an operation is open after it. -/
theorem open_of_link {c : JobId}
    (link : (c, p) ∈ (eventsOf ext service run op).filterMap Event.link) :
    OpenChild ext service (run ++ [op]) p c := by
  obtain ⟨slot, refines⟩ := eventsOf_refines ext service run op
  obtain ⟨e, mem, linked⟩ := List.mem_filterMap.mp link
  obtain ⟨row, born, rfl, -⟩ := Event.born_of_link linked
  have fresh := Ledger.Sound.born_not_drawn refines.chain mem born
  constructor
  · rw [flowLinks_eq, history_concat, List.filterMap_append, List.filterMap_append]
    exact List.mem_append_right _ (List.mem_append_left _ link)
  · intro completed
    rw [completionsOf_history] at completed
    rcases List.mem_append.mp completed with old | here
    · exact fresh ((kinship_after ext service run).completedDrawn old)
    · -- an operation that completes a job attaches none
      obtain ⟨e', mem', completes⟩ := List.mem_filterMap.mp here
      obtain ⟨done, entry, parent, now, updatedAt, n, rfl, -⟩ :=
        Event.completed_of_completes completes
      obtain ⟨clock, req, rfl, -⟩ := (refines.emits _ mem').completed
      obtain ⟨other, -, rfl⟩ := refines.emits _ mem
      cases linked

/-- The completion of a child opens a job that has none pending. -/
theorem opens_of_completed {c : JobId}
    (live : (dbAfter ext service run).jobs.find? p = some row) (low : row.pendingChildren ≤ 0)
    (link : (c, p) ∈ flowLinks ext service run)
    (completes : c ∈ completionsOf (eventsOf ext service run op)) {row' : JobRow}
    (after : (dbAfter ext service (run ++ [op])).jobs.find? p = some row') :
    row'.state ≠ .waitingChildren := by
  obtain ⟨slot, refines⟩ := eventsOf_refines ext service run op
  obtain ⟨e, mem, here⟩ := List.mem_filterMap.mp completes
  obtain ⟨child, entry, parent, now, updatedAt, n, rfl, rfl⟩ := Event.completed_of_completes here
  obtain ⟨clock, req, rfl, found, -⟩ := (refines.emits _ mem).completed
  obtain ⟨reply, replied⟩ := answered_of_mem ext service mem
  obtain ⟨_, -, rfl, -⟩ := replyTo_transact ext service rfl replied
  obtain ⟨found', liveChild, -, step⟩ :=
    completed_step replied (Table.has_iff_find?.mpr ⟨child, found⟩)
  cases found.symm.trans liveChild
  have keyed : child.id = req.id := Table.key_of_find? found
  have above : child.parentId = some p := by
    rw [flowLinks_eq] at link
    exact (kinship_after ext service run).linkParent link (by rwa [keyed])
  have other : p ≠ child.id := by
    rintro rfl
    exact Older.irrefl ((sound_after ext service run).older (keyed ▸ found) above)
  have counted : row' = row.countedDown (clock 0) (clock 2) := by
    have same := congrFun (congrArg Ledger.jobs step.2) p
    refine Option.some.inj (after.symm.trans (same.trans ?_))
    have keyedParent : row.id = p := Table.key_of_find? live
    simp [Ledger.apply, completionEvent, Db.ledger, above, live, keyedParent, Ne.symm other,
      Function.update_of_ne other]
  intro parked
  have pending := row.countedDown_pends (clock 0) (clock 2) (counted ▸ parked)
  rw [JobRow.countedDown_pending] at pending
  omega

variable (ext service) in
/-- **A parked job waits for a child** that was attached to it and has not completed. -/
theorem open_child_of_parked (run : List Op)
    (live : (dbAfter ext service run).jobs.find? p = some row)
    (parked : row.state = .waitingChildren) : ∃ c, OpenChild ext service run p c := by
  induction run using List.reverseRecOn generalizing row with
  | nil => cases live
  | append_singleton run op ih =>
    by_cases pending : 0 < row.pendingChildren
    · exact open_child_of_pending live pending
    by_cases linked : ∃ c, (c, p) ∈ (eventsOf ext service run op).filterMap Event.link
    · obtain ⟨c, link⟩ := linked
      exact ⟨c, open_of_link link⟩
    -- the operation has not parked the job, so the job was parked on a low counter before
    have unparked : ∀ e ∈ eventsOf ext service run op, e.parks ≠ some p :=
      fun e mem parks => linked (link_of_parks mem parks)
    obtain ⟨slot, refines⟩ := eventsOf_refines ext service run op
    have before : ¬ ∀ row, (dbAfter ext service run).jobs.find? p = some row → row.Pends := by
      intro pends
      refine pending (Chain.preserves_of (R := Step ext) (G := fun e => e.parks ≠ some p)
        (I := fun l => ∀ row, l.jobs p = some row → row.Pends) Step.pends refines.chain unparked
        pends row ?_ parked)
      rwa [dbAfter_concat] at live
    simp only [JobRow.Pends, not_forall, not_lt] at before
    obtain ⟨row₀, live₀, parked₀, low⟩ := before
    obtain ⟨c, link, waiting⟩ := ih live₀ parked₀
    refine ⟨c, ?_, fun completed => ?_⟩
    · rw [flowLinks, told_concat]
      exact List.mem_append_left _ link
    · rw [completionsOf_history] at completed
      rcases List.mem_append.mp completed with old | here
      · exact waiting old
      · exact opens_of_completed live₀ low link here live parked

end Runs

/-! ## Rounds -/

/-- A worker polls all queues and completes the job it gets. -/
structure Round where
  workerId : String
  poll : Clock
  complete : Clock
  result : Bytes := []

/-- The worker has a name, polls at `now` or later and completes the job within its lease. -/
structure Round.Timely (service : Service) (now : ℤ) (round : Round) : Prop where
  named : isBlank round.workerId = false
  later : now ≤ round.poll 0
  inTime : round.complete 0 < wrappingAdd (round.poll 1) service.leaseDurationMs
  small : round.result.length ≤ maxResultBytes

section Statement

variable (ext : Externals) (service : Service)

def Round.polls (round : Round) : Op := .getNextJob round.poll { workerId := round.workerId }

def Round.completes (round : Round) (job : ClaimedJob) : Op :=
  .completeJob round.complete
    { id := job.id
      workerId := round.workerId
      attempt := job.attempts
      result := round.result }

/-- What a round does after a run. -/
def Round.ops (run : List Op) (round : Round) : List Op :=
  match replyTo ext service run round.polls with
  | some (.claimed (some job)) => [round.polls, round.completes job]
  | _ => [round.polls]

/-- A run and the rounds after it. -/
def workOff (run : List Op) : List Round → List Op
  | [] => run
  | round :: rest => workOff (run ++ round.ops ext service run) rest

/-- **What the rounds start from.**  No job is claimed, every job is due and has an attempt
left to count, no facet is limited, and no child of a live job was lost to a failure. -/
structure Drainable (run : List Op) (now : ℤ) : Prop where
  idle : ∀ {j row}, (dbAfter ext service run).jobs.find? j = some row → row.state ≠ .active
  ready : ∀ {j row}, (dbAfter ext service run).jobs.find? j = some row →
    ∃ at_, row.availableAt = some at_ ∧ at_ ≤ now
  countable : ∀ {j row}, (dbAfter ext service run).jobs.find? j = some row →
    row.attempts < u32Max
  unlimited : ∀ facet, (dbAfter ext service run).rateLimitRules.find? facet = none
  whole : ∀ {c p}, (c, p) ∈ flowLinks ext service run → (dbAfter ext service run).jobs.Has p →
    (dbAfter ext service run).jobs.Has c ∨ CompletedUnder ext service run p c

/-- **What rounds after a run have achieved.** -/
structure DrainProgress (run : List Op) (rounds : List Round) : Prop where
  /-- Every round completes a job while there is one. -/
  left : (dbAfter ext service (workOff ext service run rounds)).jobs.rows.length =
    (dbAfter ext service run).jobs.rows.length - rounds.length
  /-- A job has completed or waits for its turn. -/
  kept : ∀ {j}, (dbAfter ext service run).jobs.Has j →
    (dbAfter ext service (workOff ext service run rounds)).jobs.Has j ∨
      Completed ext service (workOff ext service run rounds) j
  /-- None waits after as many rounds as there were jobs. -/
  drained : (dbAfter ext service run).jobs.rows.length ≤ rounds.length →
    ∀ {j}, (dbAfter ext service run).jobs.Has j →
      Completed ext service (workOff ext service run rounds) j

end Statement

/-! ## There is always a job to claim -/

section Progress

variable {run : List Op} {now : ℤ}

/-- **The youngest live job can be claimed.** -/
theorem Drainable.exists_claimable (drainable : Drainable ext service run now)
    (some_ : (dbAfter ext service run).jobs.rows ≠ []) :
    ∃ row ∈ (dbAfter ext service run).jobs, row.state.Claimable := by
  have sound := sound_after ext service run
  -- the order of age on the live jobs
  let younger : {row // row ∈ (dbAfter ext service run).jobs.rows} →
      {row // row ∈ (dbAfter ext service run).jobs.rows} → Prop :=
    fun a b => Older ext b.1.id a.1.id
  have trans : IsTrans _ younger := ⟨fun _ _ _ first second => second.trans first⟩
  have irrefl : Std.Irrefl younger := ⟨fun _ => Older.irrefl⟩
  have finite : Finite {row // row ∈ (dbAfter ext service run).jobs.rows} :=
    (List.finite_toSet _).to_subtype
  obtain ⟨head, mem⟩ := List.exists_mem_of_ne_nil _ some_
  obtain ⟨⟨row, live⟩, -, least⟩ := (Finite.wellFounded_of_trans_of_irrefl younger).has_min
    Set.univ ⟨⟨head, mem⟩, trivial⟩
  refine ⟨row, live, ?_⟩
  have found : (dbAfter ext service run).jobs.find? row.id = some row := Table.find?_of_mem live
  cases state : row.state with
  | waiting => exact .inl rfl
  | delayed => exact .inr rfl
  | active => exact absurd state (drainable.idle found)
  | waitingChildren =>
    -- it waits for a child, which is live and younger
    obtain ⟨c, link, waiting⟩ := open_child_of_parked ext service run found state
    rcases drainable.whole link (Table.has_iff_find?.mpr ⟨row, found⟩) with alive | completed
    · obtain ⟨child, foundChild⟩ := Table.has_iff_find?.mp alive
      rw [flowLinks_eq] at link
      have above := (kinship_after ext service run).linkParent link foundChild
      have keyed : child.id = c := Table.key_of_find? foundChild
      have older := sound.older foundChild above
      rw [← keyed] at older
      exact absurd older (least ⟨child, Table.mem_of_find? foundChild⟩ trivial)
    · obtain ⟨done, entry, parent, at_, updatedAt, n, mem, rfl, -⟩ :=
        mem_countedChildren.mp ((completedUnder_iff found).mp completed)
      exact absurd (mem_completionsOf mem) waiting

/-- So a poll finds a job. -/
theorem Drainable.claims (drainable : Drainable ext service run now) {round : Round}
    (timely : round.Timely service now) (some_ : (dbAfter ext service run).jobs.rows ≠ []) :
    ∃ row, (dbAfter ext service run).jobs.find? row.id = some row ∧ row.state.Claimable ∧
      replyTo ext service run round.polls =
        some (.claimed (some (claimedJob service row (round.poll 1)))) ∧
      dbAfter ext service (run ++ [round.polls]) =
        leaseTo service (consume (dbAfter ext service run) row (round.poll 0)) row round.workerId
          (round.poll 1) := by
  have free : ∀ row, blocked (dbAfter ext service run) (round.poll 0) row = false := by
    intro row
    unfold blocked
    cases facet : row.rateLimitFacet with
    | none => rfl
    | some f => rw [Option.bind_some, drainable.unlimited f]
  obtain ⟨candidate, mem, claimable⟩ := drainable.exists_claimable some_
  obtain ⟨at_, available, le⟩ := drainable.ready (Table.find?_of_mem mem)
  have due : candidate ∈ (dbAfter ext service run).jobs.rows.filter fun row =>
      due (round.poll 0) [] row && !blocked (dbAfter ext service run) (round.poll 0) row := by
    refine List.mem_filter.mpr ⟨mem, ?_⟩
    have state : (decide (candidate.state = .waiting) || decide (candidate.state = .delayed)) =
        true := by
      rcases claimable with here | here <;> simp [here]
    simp [AnvilMQ.due, state, available, le.trans timely.later, free]
  obtain ⟨row, selected⟩ : ∃ row, selectNext service (dbAfter ext service run) (round.poll 0) [] =
      some row := exists_firstBy _ (List.ne_nil_of_mem due)
  obtain ⟨live, waits⟩ := selectNext_some selected
  have ok : getNextJob service round.poll (dbAfter ext service run)
      { workerId := round.workerId } = .ok (some (claimedJob service row (round.poll 1)),
        leaseTo service (consume (dbAfter ext service run) row (round.poll 0)) row round.workerId
          (round.poll 1), [.transition row.state.label (some .active)]) := by
    have small := drainable.countable live
    simp only [getNextJob, timely.named, List.any_nil, selected, Bool.false_eq_true, if_false]
    rw [if_neg (Nat.not_le.mpr small)]
  exact ⟨row, live, waits, replied_of_transact ext service run round.polls rfl ok⟩

/-- **What a round makes of the jobs** when it completes `j`. -/
structure RoundDone (ext : Externals) (service : Service) (run run' : List Op) (j : JobId) :
    Prop where
  grows : run <+: run'
  here : (dbAfter ext service run).jobs.Has j
  lost : ∀ k, (dbAfter ext service run').jobs.Has k ↔ (dbAfter ext service run).jobs.Has k ∧ k ≠ j
  rest : ∀ {k row'}, (dbAfter ext service run').jobs.find? k = some row' →
    ∃ row, (dbAfter ext service run).jobs.find? k = some row ∧
      (row'.state = .active → row.state = .active) ∧ row'.availableAt = row.availableAt ∧
      row'.attempts = row.attempts
  archived : ∃ entry, (dbAfter ext service run').jobHistory.find? j = some entry ∧
    entry.state = .completed ∧
    ∀ row, (dbAfter ext service run).jobs.find? j = some row → entry.parentId = row.parentId
  links : flowLinks ext service run' = flowLinks ext service run
  rules : (dbAfter ext service run').rateLimitRules = (dbAfter ext service run).rateLimitRules

/-- A round claims a job and completes it, as one event each. -/
theorem Drainable.round_steps (drainable : Drainable ext service run now) {round : Round}
    (timely : round.Timely service now) (some_ : (dbAfter ext service run).jobs.rows ≠ []) :
    ∃ row held result op, (dbAfter ext service run).jobs.find? row.id = some row ∧
      held.id = row.id ∧ held.parentId = row.parentId ∧
      Step ext ((dbAfter ext service run).ledger run.length 0)
        (claimEvent service row round.workerId (round.poll 1))
        ((dbAfter ext service (run ++ [round.polls])).ledger run.length 0) ∧
      Step ext ((dbAfter ext service (run ++ [round.polls])).ledger (run ++ [round.polls]).length 0)
        (completionEvent round.complete (dbAfter ext service (run ++ [round.polls])) held result)
        ((dbAfter ext service (run ++ [round.polls] ++ [op])).ledger
          (run ++ [round.polls]).length 0) ∧
      run ++ round.ops ext service run = run ++ [round.polls] ++ [op] ∧
      ¬ op.RulesDispatch ∧
      flowLinks ext service (run ++ [round.polls] ++ [op]) = flowLinks ext service run := by
  obtain ⟨row, live, claimable, replied, leased⟩ := drainable.claims timely some_
  have tells : wrappingAdd (round.poll 1) service.leaseDurationMs ∈
      leasesTold (row.id, row.attempts + 1, round.workerId) round.polls
        (.claimed (some (claimedJob service row (round.poll 1)))) :=
    List.mem_ite_nil_right.mpr ⟨rfl, List.mem_singleton.mpr rfl⟩
  obtain ⟨holding, attempted⟩ := Holding.of_told replied tells
  obtain ⟨accepted, -⟩ := (holding.honoured attempted).completes round.complete round.result
    timely.inTime timely.small
  obtain ⟨held, liveHeld, -, completed⟩ := completed_step accepted
    (Table.has_iff_find?.mpr ⟨_, holding.choose_spec.1⟩)
  have stored : (dbAfter ext service (run ++ [round.polls])).jobs.find? row.id = _ :=
    leased ▸ jobs_find?_leaseTo live round.workerId (round.poll 0) (round.poll 1)
  have same := Option.some.inj (liveHeld.symm.trans stored)
  refine ⟨row, held, _, _, live, by rw [same]; rfl, by rw [same]; rfl, ?_, completed, ?_, id, ?_⟩
  · rw [leased]
    exact claim_step live claimable timely.named
  · rw [Round.ops, replied, List.append_assoc]
    rfl
  · rw [flowLinks, told_concat, told_concat, accepted, replied]
    exact (List.append_nil _).trans (List.append_nil _)

/-- **What a round makes of the jobs.** -/
theorem Drainable.round (drainable : Drainable ext service run now) {round : Round}
    (timely : round.Timely service now) (some_ : (dbAfter ext service run).jobs.rows ≠ []) :
    ∃ j, RoundDone ext service run (run ++ round.ops ext service run) j := by
  obtain ⟨row, held, result, op, live, keyed, parent, claimed, completed, ops, other, links⟩ :=
    drainable.round_steps timely some_
  rw [ops]
  have jobs₁ : ∀ k, k ≠ row.id → (dbAfter ext service (run ++ [round.polls])).jobs.find? k =
      (dbAfter ext service run).jobs.find? k := by
    intro k elsewhere
    refine (congrFun (congrArg Ledger.jobs claimed.2) k).trans ?_
    simp [Ledger.apply, claimEvent, Db.ledger, elsewhere]
  have gone : (dbAfter ext service (run ++ [round.polls] ++ [op])).jobs.find? row.id = none :=
    (congrFun (congrArg Ledger.jobs completed.2) row.id).trans
      (Ledger.jobs_of_retired (congrArg some keyed))
  have jobs₂ : ∀ k, k ≠ row.id →
      (dbAfter ext service (run ++ [round.polls] ++ [op])).jobs.find? k =
        ((dbAfter ext service run).jobs.find? k).map fun r =>
          (completionEvent round.complete (dbAfter ext service (run ++ [round.polls])) held
            result).evolve k r := by
    intro k elsewhere
    rw [← jobs₁ k elsewhere]
    refine (congrFun (congrArg Ledger.jobs completed.2) k).trans ?_
    exact (if_neg fun same => elsewhere ((Option.some.inj same).symm.trans keyed)).trans
      (if_neg (Option.some_ne_none _).symm)
  have archived := Ledger.Sound.archived completed rfl
  rw [keyed] at archived
  refine ⟨row.id, ⟨?_, Table.has_iff_find?.mpr ⟨row, live⟩, fun k => ?_, fun {k row'} found => ?_,
    ⟨_, archived, rfl, fun other same => ?_⟩, links, ?_⟩⟩
  · exact (List.prefix_append _ _).trans (List.prefix_append _ _)
  · by_cases same : k = row.id
    · rw [same, Table.Has, gone]
      simp
    · rw [Table.Has, jobs₂ k same, Option.isSome_map]
      exact (and_iff_left same).symm
  · have elsewhere : k ≠ row.id := by
      rintro rfl
      cases gone.symm.trans found
    rw [jobs₂ k elsewhere] at found
    obtain ⟨before, here, rfl⟩ := Option.map_eq_some_iff.mp found
    refine ⟨before, here, ?_⟩
    simp only [completionEvent, Event.evolve]
    split
    · exact before.countedDown_steady _ _
    · exact ⟨id, rfl, rfl⟩
  · cases live.symm.trans same
    exact parent
  · rw [rateLimitRules_after ext service _ other, rateLimitRules_after ext service run id]

/-- The jobs that are left are as ready as before. -/
theorem Drainable.after {run' : List Op} {j : JobId} (drainable : Drainable ext service run now)
    (done : RoundDone ext service run run' j) : Drainable ext service run' now := by
  refine ⟨fun found active => ?_, fun found => ?_, fun found => ?_, fun facet => ?_,
    fun {c p} link parent => ?_⟩
  · obtain ⟨row, here, was, -⟩ := done.rest found
    exact drainable.idle here (was active)
  · obtain ⟨row, here, -, same, -⟩ := done.rest found
    rw [same]
    exact drainable.ready here
  · obtain ⟨row, here, -, -, same⟩ := done.rest found
    rw [same]
    exact drainable.countable here
  · rw [done.rules]
    exact drainable.unlimited facet
  · rw [done.links] at link
    obtain ⟨alive, -⟩ := (done.lost p).mp parent
    rcases drainable.whole link alive with child | ⟨before, le, completed⟩
    · by_cases here : c = j
      · subst here
        obtain ⟨row, found⟩ := Table.has_iff_find?.mp child
        obtain ⟨entry, archived, state, parents⟩ := done.archived
        rw [flowLinks_eq] at link
        have above := (kinship_after ext service run).linkParent link found
        exact .inr ⟨run', List.prefix_rfl, entry, archived, state, (parents row found).trans above⟩
      · exact .inl ((done.lost c).mpr ⟨child, here⟩)
    · exact .inr ⟨before, le.trans done.grows, completed⟩

/-- With no job left, a round changes nothing. -/
theorem Round.ops_of_empty (round : Round) (empty : (dbAfter ext service run).jobs.rows = []) :
    (dbAfter ext service (run ++ round.ops ext service run)).jobs.rows = [] := by
  have none_ : selectNext service (dbAfter ext service run) (round.poll 0) [] = none := by
    rw [selectNext, empty]
    rfl
  have served : (servedNext ext service run round.polls).1 = dbAfter ext service run ∧
      ∀ job, replyTo ext service run round.polls ≠ some (.claimed (some job)) := by
    rw [replyTo, servedNext, Round.polls, serve, getNextJob]
    simp only [none_]
    cases blank : isBlank round.workerId <;> simp [transact, Except.map, Except.toOption]
  have ops : round.ops ext service run = [round.polls] := by
    rw [Round.ops]
    split
    · exact absurd ‹_› (served.2 _)
    · rfl
  rw [ops, dbAfter_concat, served.1, empty]

theorem workOff_of_empty (rounds : List Round) (empty : (dbAfter ext service run).jobs.rows = []) :
    (dbAfter ext service (workOff ext service run rounds)).jobs.rows = [] := by
  induction rounds generalizing run with
  | nil => exact empty
  | cons round rest ih => exact ih (round.ops_of_empty empty)

theorem prefix_workOff (rounds : List Round) : run <+: workOff ext service run rounds := by
  induction rounds generalizing run with
  | nil => exact List.prefix_rfl
  | cons round rest ih => exact (List.prefix_append _ _).trans ih

/-- The counts and the fates over all rounds; each takes one job off. -/
theorem Drainable.progress (drainable : Drainable ext service run now) {rounds : List Round}
    (timely : ∀ round ∈ rounds, round.Timely service now) :
    (dbAfter ext service (workOff ext service run rounds)).jobs.rows.length =
        (dbAfter ext service run).jobs.rows.length - rounds.length ∧
      ∀ {j}, (dbAfter ext service run).jobs.Has j →
        (dbAfter ext service (workOff ext service run rounds)).jobs.Has j ∨
          Completed ext service (workOff ext service run rounds) j := by
  induction rounds generalizing run with
  | nil => exact ⟨rfl, .inl⟩
  | cons round rest ih =>
    by_cases empty : (dbAfter ext service run).jobs.rows = []
    · refine ⟨?_, fun here => ?_⟩
      · rw [workOff_of_empty _ empty, empty, List.length_nil, Nat.zero_sub]
      · obtain ⟨row, mem, -⟩ := Table.has_iff.mp here
        exact absurd empty (List.ne_nil_of_mem mem)
    · obtain ⟨j, done⟩ := drainable.round (timely round List.mem_cons_self) empty
      obtain ⟨left, kept⟩ := ih (drainable.after done)
        fun other mem => timely other (List.mem_cons_of_mem _ mem)
      have one := Table.length_of_lost done.here done.lost
      refine ⟨?_, fun {k} here => ?_⟩
      · rw [workOff, left, List.length_cons]
        omega
      · by_cases same : k = j
        · obtain ⟨entry, archived, state, -⟩ := done.archived
          exact .inr ⟨_, prefix_workOff rest, entry, same ▸ archived, state⟩
        · exact kept ((done.lost k).mpr ⟨here, same⟩)

end Progress

/-- **Workers drain the queue.** -/
theorem workers_drain {ext : Externals} {service : Service} {run : List Op} {now : ℤ}
    {rounds : List Round} (drainable : Drainable ext service run now)
    (timely : ∀ round ∈ rounds, round.Timely service now) :
    DrainProgress ext service run rounds := by
  obtain ⟨left, kept⟩ := drainable.progress timely
  refine ⟨left, kept, fun enough _ here => (kept here).resolve_left fun waits => ?_⟩
  obtain ⟨row, mem, -⟩ := Table.has_iff.mp waits
  have some_ : 0 < (dbAfter ext service (workOff ext service run rounds)).jobs.rows.length :=
    List.length_pos_of_mem mem
  omega

/-- Two rounds of one worker, a millisecond each. -/
def twoRounds : List Round :=
  [{ workerId := "w", poll := stopped, complete := fun _ => 1 },
    { workerId := "w", poll := fun _ => 1, complete := fun _ => 2 }]

theorem plantParent_drainable : Drainable .unary {} [plantParent] 0 := by
  have rows : ∀ row ∈ (dbAfter .unary {} [plantParent]).jobs.rows, row.state ≠ .active ∧
      row.availableAt.any (fun at_ => decide (at_ ≤ 0)) = true ∧ row.attempts < u32Max := by
    decide +kernel
  have rules : (dbAfter .unary {} [plantParent]).rateLimitRules.rows = [] := by decide +kernel
  have links : flowLinks .unary {} [plantParent] = [(childJob, parentJob)] := by decide +kernel
  refine ⟨fun found => (rows _ (Table.mem_of_find? found)).1, fun found => ?_,
    fun found => (rows _ (Table.mem_of_find? found)).2.2, fun facet => ?_, fun link _ => ?_⟩
  · obtain ⟨at_, available, le⟩ := (Option.any_eq_true _ _).mp
      (rows _ (Table.mem_of_find? found)).2.1
    exact ⟨at_, available, of_decide_eq_true le⟩
  · rw [Table.find?, rules]
    rfl
  · rw [links, List.mem_singleton, Prod.mk.injEq] at link
    rw [link.1]
    exact .inl (by decide +kernel)

/-- The child completes first, then its parent. -/
theorem flow_drained_in_two_rounds : (dbAfter .unary {} [plantParent]).jobs.rows.length = 2 ∧
    DrainProgress .unary {} [plantParent] twoRounds ∧
    claims .unary {} (workOff .unary {} [plantParent] twoRounds) =
      [(childJob, 1, "w"), (parentJob, 1, "w")] := by
  refine ⟨by decide +kernel, workers_drain plantParent_drainable fun round mem => ?_,
    by decide +kernel⟩
  rcases List.mem_pair.mp mem with rfl | rfl
  · exact ⟨by decide, by decide, by decide, by decide⟩
  · exact ⟨by decide, by decide, by decide, by decide⟩

end AnvilMQ
