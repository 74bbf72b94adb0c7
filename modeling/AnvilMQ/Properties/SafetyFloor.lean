import AnvilMQ.Ledger.Margins
import AnvilMQ.Properties.Conservation
import AnvilMQ.Properties.Fencing
import AnvilMQ.Relational.Pruning

/-!
# The safety floor of retention

A worker that did not see the answer to its `CompleteJob` sends it again, and the
broker answers the retry from the history row.  `RetentionConfig::validate` keeps
the age settings above twice the lease duration so that the row is still there.
The count settings have no such floor.
-/

namespace AnvilMQ

open Rust Relational Transition

/-! ## Settings and rows -/

namespace RetentionConfig

/-- The age setting of a terminal state. -/
def age (cfg : RetentionConfig) : TerminalState → ℤ
  | .completed => cfg.completedAgeMs
  | .failed => cfg.failedAgeMs

/-- The count setting of a terminal state. -/
def count (cfg : RetentionConfig) : TerminalState → ℤ
  | .completed => cfg.completedCount
  | .failed => cfg.failedCount

/-- The row finished less than `min_age_ms` ago.  The column holds an `i64`. -/
def Replayable (cfg : RetentionConfig) (now : ℤ) (row : HistoryRow) : Prop :=
  i64Min ≤ row.finishedAt ∧ now - cfg.minAgeMs < row.finishedAt

/-- Every replayable row is within the count its state keeps of its name. -/
def CountsCover (cfg : RetentionConfig) (history : Table HistoryRow.id) (now : ℤ) : Prop :=
  ∀ row ∈ history, cfg.Replayable now row → 0 < cfg.count row.state →
    (rowNumber history row.state row : ℤ) ≤ cfg.count row.state

instance (cfg : RetentionConfig) (now : ℤ) (row : HistoryRow) :
    Decidable (cfg.Replayable now row) :=
  inferInstanceAs (Decidable (_ ∧ _))

instance (cfg : RetentionConfig) (history : Table HistoryRow.id) (now : ℤ) :
    Decidable (cfg.CountsCover history now) :=
  inferInstanceAs (Decidable (∀ row ∈ history.rows, cfg.Replayable now row →
    0 < cfg.count row.state → (rowNumber history row.state row : ℤ) ≤ cfg.count row.state))

/-- What `validate` has checked of the settings of a sweep of the history. -/
structure Accepted (cfg : RetentionConfig) : Prop where
  floor : ∀ state, 0 < cfg.age state → cfg.minAgeMs ≤ cfg.age state
  batch : 0 < cfg.batch

theorem floor_of_checkAge {key : String} {age minAge : ℤ}
    (ok : checkAge key age minAge = .ok ()) (positive : 0 < age) : minAge ≤ age := by
  rw [checkAge] at ok
  split at ok
  · cases ok
  · omega

/-- `validate` checks the ages against the floor, and the batch. -/
theorem accepted_of_validate {cfg : RetentionConfig} (valid : cfg.validate = .ok ()) :
    cfg.Accepted := by
  simp only [validate, bind_eq_ok] at valid
  obtain ⟨⟨⟩, completed, ⟨⟩, failed, ⟨⟩, -, ⟨⟩, -, rest⟩ := valid
  constructor
  · intro state
    cases state with
    | completed => exact floor_of_checkAge completed
    | failed => exact floor_of_checkAge failed
  · split at rest
    · cases rest
    · omega

end RetentionConfig

/-- A row is no older than the rows it is numbered before. -/
theorem finishedAt_le_of_newer {other row : HistoryRow} (newer : newer other row = true) :
    row.finishedAt ≤ other.finishedAt := by
  simp only [AnvilMQ.newer, Bool.or_eq_true, Bool.and_eq_true, decide_eq_true_eq] at newer
  omega

theorem RetentionConfig.Replayable.of_newer {cfg : RetentionConfig} {now : ℤ}
    {other row : HistoryRow} (replayable : cfg.Replayable now row)
    (newer : newer other row = true) : cfg.Replayable now other := by
  have later := finishedAt_le_of_newer newer
  exact ⟨replayable.1.trans later, replayable.2.trans_le later⟩

/-- The number of a row stays while no newer row of its state is deleted. -/
theorem rowNumber_of_deletesOnly {P : HistoryRow → Prop} {history history' : Table HistoryRow.id}
    (only : Table.DeletesOnly P history history') {state : TerminalState} {row : HistoryRow}
    (spared : ∀ other, other.state = state → newer other row = true → ¬ P other) :
    rowNumber history' state row = rowNumber history state row := by
  rw [rowNumber, only.count, rowNumber]
  intro other counted
  simp only [Bool.and_eq_true, decide_eq_true_eq] at counted
  exact spared other counted.1.1 counted.2

/-! ## What the statements delete -/

theorem sqlLimit_pos {batch : ℤ} (positive : 0 < batch) (available : ℕ) :
    0 < sqlLimit batch available := by
  rw [sqlLimit, if_neg positive.le.not_gt]
  omega

theorem le_sqlLimit {batch : ℤ} {available total : ℕ} (le : available ≤ total)
    (covered : total ≤ batch) : available ≤ sqlLimit batch available := by
  rw [sqlLimit]
  split <;> omega

theorem pruneAge_only (scan : Scan HistoryRow) (db : Db) (state : TerminalState)
    (cutoff batch : ℤ) :
    Table.DeletesOnly (fun row => row.finishedAt < cutoff) db.jobHistory
      (pruneAge scan db state cutoff batch).1.jobHistory := by
  refine Table.deletesOnly_of_selected fun row mem => ?_
  have picked := List.mem_filter.mp (Scan.mem_of_mem_limitBy mem)
  simp only [Bool.and_eq_true, decide_eq_true_eq] at picked
  exact ⟨picked.1, picked.2.2⟩

theorem pruneCount_only (scan : Scan HistoryRow) (db : Db) (state : TerminalState)
    (keep batch : ℤ) :
    Table.DeletesOnly (fun row => row.state = state ∧ keep < rowNumber db.jobHistory state row)
      db.jobHistory (pruneCount scan db state keep batch).1.jobHistory := by
  refine Table.deletesOnly_of_selected fun row mem => ?_
  have picked := List.mem_filter.mp (Scan.mem_of_mem_limit mem)
  simp only [Bool.and_eq_true, decide_eq_true_eq] at picked
  exact picked

/-- A row beyond the count is deleted by the plan that comes to it first. -/
theorem pruneCount_first {db : Db} {row : HistoryRow} {keep batch : ℤ} (positive : 0 < batch)
    (beyond : keep < rowNumber db.jobHistory row.state row) :
    row ∉ (pruneCount (.first row) db row.state keep batch).1.jobHistory := by
  intro kept
  obtain ⟨mem, spared⟩ := Table.mem_delete.mp kept
  refine absurd spared (ne_false_of_eq_true (List.contains_iff_mem.mpr ?_))
  refine List.mem_map_of_mem (Scan.mem_limit_first ?_ (sqlLimit_pos positive _))
  exact List.mem_filter.mpr ⟨mem, by simp [beyond]⟩

/-! ## The sweep of the history -/

section Sweep

variable (plan : SweepPlan) (cfg : RetentionConfig) (now : ℤ) (db : Db)

/-- The database after the age prune of a state. -/
def agePruned (scan : Scan HistoryRow) (state : TerminalState) : Db :=
  (whenPositive (cfg.age state) db fun db =>
    pruneAge scan db state (saturatingSub now (cfg.age state)) cfg.batch).1

/-- The database after the count prune of a state. -/
def countPruned (scan : Scan HistoryRow) (state : TerminalState) : Db :=
  (whenPositive (cfg.count state) db fun db =>
    pruneCount scan db state (cfg.count state) cfg.batch).1

/-- The database after both age prunes of a sweep. -/
def agesPruned : Db :=
  agePruned cfg now (agePruned cfg now db plan.completedAge .completed) plan.failedAge .failed

/-- A sweep of the history is two age prunes and two count prunes. -/
theorem sweep_jobHistory (clock : Clock) :
    (sweep plan clock db cfg).2.1.jobHistory =
      (countPruned cfg (countPruned cfg (agesPruned plan cfg (clock 0) db) plan.completedCount
        .completed) plan.failedCount .failed).jobHistory := by
  simp only [sweep]
  rw [whenPositive_view Db.jobHistory fun _ => rfl, whenPositive_view Db.jobHistory fun _ => rfl,
    whenPositive_view Db.jobHistory fun _ => rfl]
  rfl

variable {plan cfg now db} {row : HistoryRow} {clock : Clock}

/-- An age above the floor spares the replayable rows. -/
theorem agePruned_only (accepted : cfg.Accepted) (scan : Scan HistoryRow) (state : TerminalState) :
    Table.DeletesOnly (fun row => ¬ cfg.Replayable now row) db.jobHistory
      (agePruned cfg now db scan state).jobHistory := by
  refine whenPositive_deletes Db.jobHistory fun positive =>
    (pruneAge_only _ _ _ _ _).imp fun row old => ?_
  have floor := accepted.floor state positive
  rintro ⟨stored, young⟩
  simp only [saturatingSub, saturate] at old
  omega

theorem agesPruned_only (accepted : cfg.Accepted) :
    Table.DeletesOnly (fun row => ¬ cfg.Replayable now row) db.jobHistory
      (agesPruned plan cfg now db).jobHistory :=
  (agePruned_only accepted _ _).trans (agePruned_only accepted _ _)

theorem countPruned_only (scan : Scan HistoryRow) (state : TerminalState) :
    Table.DeletesOnly (fun row => row.state = state ∧ 0 < cfg.count state ∧
        cfg.count state < rowNumber db.jobHistory state row)
      db.jobHistory (countPruned cfg db scan state).jobHistory :=
  whenPositive_deletes Db.jobHistory fun positive => (pruneCount_only _ _ _ _ _).imp
    fun _ beyond => ⟨beyond.1, positive, beyond.2⟩

/-- The age prunes do not renumber a replayable row. -/
theorem rowNumber_agesPruned (accepted : cfg.Accepted) (replayable : cfg.Replayable now row)
    (state : TerminalState) :
    rowNumber (agesPruned plan cfg now db).jobHistory state row =
      rowNumber db.jobHistory state row :=
  rowNumber_of_deletesOnly (agesPruned_only accepted) fun _ _ newer old =>
    old (replayable.of_newer newer)

/-- The count prune of one state does not renumber the rows of another. -/
theorem rowNumber_countPruned (scan : Scan HistoryRow) {state other : TerminalState}
    (apart : other ≠ state) (row : HistoryRow) :
    rowNumber (countPruned cfg db scan state).jobHistory other row =
      rowNumber db.jobHistory other row :=
  rowNumber_of_deletesOnly (countPruned_only scan state) fun _ here _ deleted =>
    apart (here.symm.trans deleted.1)

/-- A count prune spares a row within its count. -/
theorem mem_countPruned {scan : Scan HistoryRow} {state : TerminalState} (mem : row ∈ db.jobHistory)
    (within : row.state = state → 0 < cfg.count state →
      (rowNumber db.jobHistory state row : ℤ) ≤ cfg.count state) :
    row ∈ (countPruned cfg db scan state).jobHistory :=
  (countPruned_only scan state).mem mem fun deleted =>
    (within deleted.1 deleted.2.1).not_gt deleted.2.2

/-- A count prune whose plan comes to a row beyond the count first deletes it. -/
theorem notMem_countPruned (accepted : cfg.Accepted) (positive : 0 < cfg.count row.state)
    (beyond : cfg.count row.state < rowNumber db.jobHistory row.state row) :
    row ∉ (countPruned cfg db (.first row) row.state).jobHistory := by
  rw [countPruned, whenPositive, if_pos positive]
  exact pruneCount_first accepted.batch beyond

/-- While the counts cover, a sweep spares the replayable rows. -/
theorem mem_sweep_of_countsCover (accepted : cfg.Accepted)
    (covers : cfg.CountsCover db.jobHistory (clock 0)) (mem : row ∈ db.jobHistory)
    (replayable : cfg.Replayable (clock 0) row) :
    row ∈ (sweep plan clock db cfg).2.1.jobHistory := by
  have within := covers row mem replayable
  rw [sweep_jobHistory]
  refine mem_countPruned (mem_countPruned ?_ ?_) ?_
  · exact (agesPruned_only accepted).mem mem (not_not.mpr replayable)
  · intro completed
    rw [rowNumber_agesPruned accepted replayable]
    rwa [completed] at within
  · intro failed
    rw [rowNumber_countPruned _ (by decide), rowNumber_agesPruned accepted replayable]
    rwa [failed] at within

/-- The plan whose count prunes come to one row first. -/
def SweepPlan.countingFirst (row : HistoryRow) : SweepPlan where
  completedCount := .first row
  failedCount := .first row

/-- A replayable row beyond its count is deleted under some plan. -/
theorem notMem_sweep_of_beyond (accepted : cfg.Accepted) (replayable : cfg.Replayable (clock 0) row)
    (positive : 0 < cfg.count row.state)
    (beyond : cfg.count row.state < rowNumber db.jobHistory row.state row) :
    row ∉ (sweep (.countingFirst row) clock db cfg).2.1.jobHistory := by
  have aged : rowNumber (agesPruned (.countingFirst row) cfg (clock 0) db).jobHistory row.state
      row = rowNumber db.jobHistory row.state row :=
    rowNumber_agesPruned accepted replayable row.state
  rw [← aged] at beyond
  rw [sweep_jobHistory]
  cases state : row.state with
  | completed =>
    intro kept
    have gone := notMem_countPruned accepted positive beyond
    rw [state] at gone
    exact gone ((countPruned_only _ _).mem_of kept)
  | failed =>
    have apart : row.state ≠ .completed := by simp [state]
    rw [← rowNumber_countPruned (.first row) apart] at beyond
    have gone := notMem_countPruned accepted positive beyond
    rwa [state] at gone

/-- **A sweep spares the replayable rows under every plan exactly when the counts
cover them.** -/
theorem sweep_spares_iff (accepted : cfg.Accepted) :
    (∀ plan, ∀ row ∈ db.jobHistory, cfg.Replayable (clock 0) row →
      row ∈ (sweep plan clock db cfg).2.1.jobHistory) ↔
    cfg.CountsCover db.jobHistory (clock 0) := by
  constructor
  · intro spares row mem replayable positive
    by_contra beyond
    exact notMem_sweep_of_beyond accepted replayable positive (not_le.mp beyond)
      (spares _ row mem replayable)
  · intro covers plan row mem replayable
    exact mem_sweep_of_countsCover accepted covers mem replayable

end Sweep

/-! ## Replays in a run -/

section Runs

variable (ext : Externals) (service : Service)

/-- Every sweep among the operations that follow the run has an accepted
configuration, happens while the row is replayable, and finds the replayable rows
within the counts. -/
def SweptSafely (run more : List Op) (row : HistoryRow) : Prop :=
  ∀ before plan clock cfg, before ++ [.sweep plan clock cfg] <+: more →
    cfg.validate = .ok () ∧ cfg.Replayable (clock 0) row ∧
      cfg.CountsCover (dbAfter ext service (run ++ before)).jobHistory (clock 0)

variable {ext service}

/-- A history row outlives the sweeps that are safe for it. -/
theorem archived_of_sweptSafely {run more : List Op} {j : JobId} {row : HistoryRow}
    (found : (dbAfter ext service run).jobHistory.find? j = some row)
    (safely : SweptSafely ext service run more row) :
    (dbAfter ext service (run ++ more)).jobHistory.find? j = some row := by
  induction more using List.reverseRecOn with
  | nil => rwa [List.append_nil]
  | append_singleton more op ih =>
    have here := ih fun before plan clock cfg le =>
      safely before plan clock cfg (le.trans (List.prefix_append _ _))
    rw [← List.append_assoc]
    rcases archived_after ext service (run ++ more) op here with kept | ⟨sweeps, -, gone⟩
    · exact kept
    · cases op with
      | sweep plan clock cfg =>
        obtain ⟨valid, replayable, covers⟩ := safely more plan clock cfg List.prefix_rfl
        obtain ⟨mem, rfl⟩ := Table.find?_eq_some.mp here
        have kept :
            _ ∈ (servedNext ext service (run ++ more) (.sweep plan clock cfg)).1.jobHistory :=
          mem_sweep_of_countsCover (RetentionConfig.accepted_of_validate valid) covers mem
            replayable
        refine absurd (Table.has_of_mem ?_) gone
        rw [dbAfter_concat]
        exact kept
      | _ => exact sweeps.elim

/-- A successful completion leaves the history row that replays it. -/
theorem replays_of_completed {run : List Op} {clock : Clock} {req : CompleteJobRequest}
    (replied : replyTo ext service run (.completeJob clock req) = some .completed) :
    ∃ row, (dbAfter ext service (run ++ [.completeJob clock req])).jobHistory.find? req.id =
      some row ∧ Replays row req.workerId req.attempt := by
  by_cases live : (dbAfter ext service run).jobs.Has req.id
  · obtain ⟨row, found, accepts, step⟩ := completed_step replied live
    have key : row.id = req.id := Table.key_of_find? found
    have archived := Ledger.Sound.archived step rfl
    rw [key] at archived
    exact ⟨_, archived, rfl, accepts.owner, accepts.attempt⟩
  · have acks : (Op.completeJob clock req).acknowledgment =
      some ⟨req.id, req.workerId, req.attempt, clock 0⟩ := rfl
    rcases acknowledgment_cases acks with ⟨unanswered, -⟩ | replays | ⟨-, row, found, -⟩
    · rw [replied] at unanswered
      cases unanswered
    · rw [not_not.mp replays.unchanged]
      exact replays.recorded
    · exact absurd (Table.has_iff_find?.mpr ⟨row, found⟩) live

variable (ext service)

/-- **Retention spares what may be replayed exactly when the counts cover it.**
The first part is about every accepted configuration, every database and every
reading of the clock.  The second is the consequence for a worker: as long as the
sweeps after a successful `CompleteJob` are safe for its history row, the same
request succeeds again, whatever else has happened. -/
theorem retention_keeps_replayable_iff :
    (∀ (cfg : RetentionConfig) (db : Db) (clock : Clock), cfg.validate = .ok () →
      ((∀ plan, ∀ row ∈ db.jobHistory, cfg.Replayable (clock 0) row →
          row ∈ (sweep plan clock db cfg).2.1.jobHistory) ↔
        cfg.CountsCover db.jobHistory (clock 0))) ∧
    ∀ run clock req, replyTo ext service run (.completeJob clock req) = some .completed →
      ∃ row, (dbAfter ext service (run ++ [.completeJob clock req])).jobHistory.find? req.id =
          some row ∧
        ∀ more, SweptSafely ext service (run ++ [.completeJob clock req]) more row →
          ∀ clock', replyTo ext service (run ++ [.completeJob clock req] ++ more)
            (.completeJob clock' req) = some .completed := by
  constructor
  · intro cfg db clock valid
    exact sweep_spares_iff (RetentionConfig.accepted_of_validate valid)
  · intro run clock req replied
    obtain ⟨row, found, replays⟩ := replays_of_completed replied
    refine ⟨row, found, fun more safely clock' => ?_⟩
    have small : req.result.length ≤ maxResultBytes := by
      by_contra large
      rw [refused_of_oversize ext service run (not_le.mp large)] at replied
      cases replied
    exact completed_of_replays ext service _ clock' (archived_of_sweptSafely found safely) small
      replays

end Runs

/-! ## Samples -/

section Samples

/-- The completion of the first job of a run. -/
def firstCompletion : CompleteJobRequest := { id := unaryId 0 0, workerId := "w", attempt := 1 }

/-- A sweep under the default configuration is safe for a completion of the same
moment. -/
theorem default_sweep_safe {row : HistoryRow}
    (found : (dbAfter .unary {} completedRun).jobHistory.find? firstCompletion.id = some row) :
    SweptSafely .unary {} completedRun [.sweep {} stopped {}] row := by
  intro before plan clock cfg le
  have short := le.length_le
  rw [List.length_append, List.length_singleton, List.length_singleton] at short
  obtain rfl : before = [] := List.length_eq_zero_iff.mp (by omega)
  obtain ⟨rest, same⟩ := le
  cases same
  have finished : ((dbAfter .unary {} completedRun).jobHistory.find? firstCompletion.id).map
      HistoryRow.finishedAt = some 0 := by decide +kernel
  rw [found] at finished
  refine ⟨by decide +kernel, ?_, by decide +kernel⟩
  rw [RetentionConfig.Replayable, Option.some.inj finished]
  decide +kernel

/-- The default configuration keeps a completion that may be replayed. -/
theorem default_sweep_keeps_completion :
    replyTo .unary {} (completedRun.take 2) (.completeJob stopped firstCompletion) =
        some .completed ∧
      replyTo .unary {} (completedRun ++ [.sweep {} stopped {}])
        (.completeJob stopped firstCompletion) = some .completed := by
  have replied : replyTo .unary {} (completedRun.take 2) (.completeJob stopped firstCompletion) =
    some .completed := by decide +kernel
  obtain ⟨row, found, again⟩ := (retention_keeps_replayable_iff .unary {}).2 _ _ _ replied
  exact ⟨replied, again _ (default_sweep_safe found) stopped⟩

/-- Two jobs of one name are completed at the same reading of the clock. -/
def twiceCompletedRun : List Op :=
  [.addJob stopped { name := "a" }, .addJob stopped { name := "a" }, poll "a",
    .completeJob stopped firstCompletion, poll "a",
    .completeJob stopped { id := unaryId 1 0, workerId := "w", attempt := 1 }]

/-- The default configuration, but keeping one completed job of each name. -/
def keepOne : RetentionConfig := { completedCount := 1 }

/-- **A count prune deletes what may be replayed.**  The configuration is accepted,
its floor is twice the lease, and the sweep runs at the reading of the clock at
which both jobs completed.  The retry of the first completion is not found. -/
theorem count_prune_deletes_replayable :
    keepOne.validate = .ok () ∧ keepOne.minAgeMs = 2 * ({} : Service).leaseDurationMs ∧
    replyTo .unary {} (twiceCompletedRun.take 3) (.completeJob stopped firstCompletion) =
      some .completed ∧
    (∃ row ∈ (dbAfter .unary {} twiceCompletedRun).jobHistory, keepOne.Replayable 0 row ∧
      row ∉ (sweep {} stopped (dbAfter .unary {} twiceCompletedRun) keepOne).2.1.jobHistory) ∧
    refusalOf .unary {} (twiceCompletedRun ++ [.sweep {} stopped keepOne])
      (.completeJob stopped firstCompletion) = some (.notFound "job not found") := by
  refine ⟨by decide +kernel, by decide +kernel, by decide +kernel, ?_, by decide +kernel⟩
  have gone : ∃ row ∈ (dbAfter .unary {} twiceCompletedRun).jobHistory.rows,
      keepOne.Replayable 0 row ∧
      row ∉ (sweep {} stopped (dbAfter .unary {} twiceCompletedRun) keepOne).2.1.jobHistory := by
    decide +kernel
  exact gone

end Samples

end AnvilMQ
