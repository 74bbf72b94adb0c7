import AnvilMQ.Properties.Gate
import AnvilMQ.Properties.RetentionLimit

/-!
# The results of flow children

A worker that runs a flow parent reads the results of its children with
`GetChildrenValues`.  The results are kept only in `job_history`, which retention
bounds without looking at flows, so a parent that waits long enough for its last
child can find the results of the first ones gone.

What a sweep deletes was beyond the age or the count that its settings keep, and under
a batch that covers the history everything beyond them is deleted.
-/

namespace AnvilMQ

open Rust Relational Transition

section Statement

variable (ext : Externals) (service : Service)

/-- A `CompleteJob` of the run completed the job with these bytes. -/
def CompletedWith (run : List Op) (c : JobId) (result : Bytes) : Prop :=
  ∃ before clock req, before ++ [.completeJob clock req] <+: run ∧
    (dbAfter ext service before).jobs.Has req.id ∧
    replyTo ext service before (.completeJob clock req) = some .completed ∧
    req.id = c ∧ req.result = result

/-- The flow child `c` of the active job `p` completed with a result that is not
empty. -/
structure ChildResults (run : List Op) (p c : JobId) (result : Bytes) : Prop where
  active : ∃ row, (dbAfter ext service run).jobs.find? p = some row ∧ row.state = .active
  child : (c, p) ∈ flowLinks ext service run
  completed : CompletedWith ext service run c result
  nonempty : result ≠ []

/-- **Child results are complete**: `GetChildrenValues` of an active job returns
for each of its flow children exactly the bytes the child completed with. -/
def ResultsComplete (run : List Op) : Prop :=
  ∀ p c result, ChildResults ext service run p c result →
    ∃ values, getChildrenValues (dbAfter ext service run) p = .ok values ∧
      ∀ bytes, (c, bytes) ∈ values ↔ bytes = result

/-- A sweep of the run found the history row of the job beyond its settings: finished before
the age cutoff, or numbered beyond the count. -/
def FoundExpired (run : List Op) (c : JobId) : Prop :=
  ∃ before plan clock cfg entry, before ++ [.sweep plan clock cfg] <+: run ∧
    (dbAfter ext service before).jobHistory.find? c = some entry ∧
    cfg.Expired (clock 0) (dbAfter ext service before).jobHistory entry

/-- The batch of every sweep of the run covers the history. -/
def SweepsCover (run : List Op) : Prop :=
  ∀ before plan clock (cfg : RetentionConfig), before ++ [.sweep plan clock cfg] <+: run →
    (dbAfter ext service before).jobHistory.rows.length ≤ cfg.batch

/-- **When child results are complete.** -/
structure ResultsKept (run : List Op) : Prop where
  /-- Exactly while no sweep has deleted one that is owed. -/
  unless_swept : ResultsComplete ext service run ↔
    ∀ p c result, ChildResults ext service run p c result → ¬ SweptAway ext service run c
  /-- As long as no sweep finds one that is owed beyond its settings. -/
  unless_expired : (∀ p c result, ChildResults ext service run p c result →
    ¬ FoundExpired ext service run c) → ResultsComplete ext service run
  /-- Exactly so long, if the batches cover the history. -/
  covered : SweepsCover ext service run → (ResultsComplete ext service run ↔
    ∀ p c result, ChildResults ext service run p c result → ¬ FoundExpired ext service run c)

end Statement

variable {ext : Externals} {service : Service}

/-! ## Reading results -/

/-- What `GetChildrenValues` lists is what the completed children left in the
history. -/
theorem mem_getChildrenValues {db : Db} {p : JobId} (named : isBlank p = false) :
    ∃ values, getChildrenValues db p = .ok values ∧ ∀ c bytes, (c, bytes) ∈ values ↔
      ∃ entry, db.jobHistory.find? c = some entry ∧ entry.parentId = some p ∧
        entry.state = .completed ∧ entry.result = some bytes := by
  refine ⟨_, by rw [getChildrenValues, if_neg (by simp [named])], fun c bytes => ?_⟩
  simp only [List.mem_filterMap, List.mem_filter, Bool.and_eq_true, decide_eq_true_eq,
    Option.map_eq_some_iff, Prod.mk.injEq]
  constructor
  · rintro ⟨entry, ⟨mem, parent, state⟩, stored, result, rfl, rfl⟩
    exact ⟨entry, Table.find?_of_mem mem, parent, state, result⟩
  · rintro ⟨entry, found, parent, state, result⟩
    obtain ⟨mem, key⟩ := Table.find?_eq_some.mp found
    exact ⟨entry, ⟨mem, parent, state⟩, bytes, result, key, rfl⟩

/-! ## What a completed child leaves behind -/

variable (ext service) in
/-- A link names its child at birth, so a job that is live has all the links it will
ever have. -/
theorem link_before (before more : List Op) {c p : JobId}
    (live : (dbAfter ext service before).jobs.Has c)
    (link : (c, p) ∈ flowLinks ext service (before ++ more)) :
    (c, p) ∈ flowLinks ext service before := by
  obtain ⟨row, found⟩ := Table.has_iff_find?.mp live
  obtain ⟨later, same, chain⟩ := history_append ext service before more
  rw [flowLinks_eq, same, List.filterMap_append, List.mem_append, ← flowLinks_eq] at link
  refine link.resolve_right fun late => ?_
  obtain ⟨e, mem, links⟩ := List.mem_filterMap.mp late
  obtain ⟨newborn, born, rfl, -⟩ := Event.born_of_link links
  exact Ledger.Sound.born_not_drawn chain mem born ((sound_after ext service before).drawn found)

/-- A flow child that completed with a result has left it in the history. -/
theorem archived_of_completedWith {run : List Op} {c p : JobId} {result : Bytes}
    (child : (c, p) ∈ flowLinks ext service run)
    (completed : CompletedWith ext service run c result) (nonempty : result ≠ []) :
    (∃ entry, (dbAfter ext service run).jobHistory.find? c = some entry ∧
      entry.parentId = some p ∧ entry.state = .completed ∧ entry.result = some result) ∨
      SweptAway ext service run c := by
  obtain ⟨before, clock, req, ⟨more, rfl⟩, live, replied, rfl, rfl⟩ := completed
  obtain ⟨row, found, -, step⟩ := completed_step replied live
  have key : row.id = req.id := Table.key_of_find? found
  rw [List.append_assoc] at child
  have link := link_before ext service before _ live child
  rw [flowLinks_eq] at link
  have parent := (kinship_after ext service before).linkParent link found
  have archived := Ledger.Sound.archived step rfl
  rw [key] at archived
  refine (archived_or_sweptAway ext service _ more archived).imp_left fun kept => ?_
  refine ⟨_, kept, parent, rfl, ?_⟩
  exact if_neg (by simpa using nonempty)

/-! ## Completeness -/

/-- `GetChildrenValues` answers for a live job. -/
theorem values_of_live {run : List Op} {p : JobId} {row : JobRow}
    (live : (dbAfter ext service run).jobs.find? p = some row) :
    ∃ values, getChildrenValues (dbAfter ext service run) p = .ok values ∧
      ∀ c bytes, (c, bytes) ∈ values ↔
        ∃ entry, (dbAfter ext service run).jobHistory.find? c = some entry ∧
          entry.parentId = some p ∧ entry.state = .completed ∧ entry.result = some bytes := by
  obtain ⟨t, k, rfl, -⟩ := (sound_after ext service run).drawn live
  exact mem_getChildrenValues (ext.newV4_not_blank t k)

/-- Child results are complete exactly while no sweep has deleted one that is owed. -/
theorem resultsComplete_iff_not_sweptAway {run : List Op} :
    ResultsComplete ext service run ↔
      ∀ p c result, ChildResults ext service run p c result → ¬ SweptAway ext service run c := by
  constructor
  · intro complete p c result owed swept
    obtain ⟨row, live, -⟩ := owed.active
    obtain ⟨values, listed, mem⟩ := values_of_live live
    obtain ⟨values', listed', same⟩ := complete p c result owed
    cases listed.symm.trans listed'
    obtain ⟨entry, found, -⟩ := (mem c result).mp ((same result).mpr rfl)
    exact (sweptAway_stays ext service run swept).2 (Table.has_iff_find?.mpr ⟨entry, found⟩)
  · intro kept p c result owed
    obtain ⟨row, live, -⟩ := owed.active
    obtain ⟨values, listed, mem⟩ := values_of_live live
    obtain ⟨entry, found, parent, state, stored⟩ :=
      (archived_of_completedWith owed.child owed.completed owed.nonempty).resolve_right
        (kept p c result owed)
    refine ⟨values, listed, fun bytes => (mem c bytes).trans ?_⟩
    constructor
    · rintro ⟨other, found', -, -, stored'⟩
      cases found.symm.trans found'
      exact Option.some.inj (stored'.symm.trans stored)
    · rintro rfl
      exact ⟨entry, found, parent, state, stored⟩

/-! ## What sweeps delete -/

section Sweeps

variable {run : List Op} {c : JobId}

variable (ext service) in
/-- The statements of a sweep on the history that a run has left. -/
theorem sweepsHistory_after (before : List Op) (plan : SweepPlan) (clock : Clock)
    (cfg : RetentionConfig) :
    ∃ h₁ h₂ h₃, SweepsHistory cfg (clock 0) (dbAfter ext service before).jobHistory h₁ h₂ h₃
      (dbAfter ext service (before ++ [.sweep plan clock cfg])).jobHistory := by
  rw [dbAfter_concat]
  show ∃ h₁ h₂ h₃, SweepsHistory cfg (clock 0) (dbAfter ext service before).jobHistory h₁ h₂ h₃
    (sweep plan clock (dbAfter ext service before) cfg).2.1.jobHistory
  rw [sweep_jobHistory, ← sweep_jobHistory plan cfg _ fun _ => clock 0]
  exact sweepsHistory_sweepAt plan

/-- What was swept away was beyond the settings of the sweep. -/
theorem SweptAway.foundExpired (swept : SweptAway ext service run c) :
    FoundExpired ext service run c := by
  obtain ⟨before, op, le, sweeps, done, deleted⟩ := swept
  cases op with
  | sweep plan clock cfg =>
    obtain ⟨entry, found⟩ := Table.has_iff_find?.mp done
    obtain ⟨h₁, h₂, h₃, statements⟩ :=
      sweepsHistory_after ext service before plan clock cfg
    refine ⟨before, plan, clock, cfg, entry, le, found, ?_⟩
    by_contra kept
    obtain ⟨mem, rfl⟩ := Table.find?_eq_some.mp found
    exact deleted (Table.has_of_mem (statements.only.mem mem kept))
  | _ => exact sweeps.elim

/-- A sweep whose batch covers the history deletes what is beyond its settings. -/
theorem FoundExpired.sweptAway (expired : FoundExpired ext service run c)
    (cover : SweepsCover ext service run) : SweptAway ext service run c := by
  obtain ⟨before, plan, clock, cfg, entry, le, found, expired⟩ := expired
  obtain ⟨h₁, h₂, h₃, statements⟩ := sweepsHistory_after ext service before plan clock cfg
  refine ⟨before, _, le, trivial, Table.has_iff_find?.mpr ⟨entry, found⟩, fun kept => ?_⟩
  have same := statements.only.find?_of_kept fun _ => kept
  exact statements.reached (cover before plan clock cfg le) entry
    (Table.mem_of_find? (same.trans found)) expired

end Sweeps

variable (ext service) in
/-- **Child results are complete exactly while no sweep has deleted one that is
owed**, which it does only to a row beyond its settings, and to every such row if its batch
covers the history. -/
theorem results_complete_iff (run : List Op) : ResultsKept ext service run where
  unless_swept := resultsComplete_iff_not_sweptAway
  unless_expired := by
    intro unexpired
    refine resultsComplete_iff_not_sweptAway.mpr fun p c result owed swept => ?_
    exact unexpired p c result owed swept.foundExpired
  covered := by
    intro cover
    have agree : ∀ c, SweptAway ext service run c ↔ FoundExpired ext service run c :=
      fun c => ⟨SweptAway.foundExpired, fun expired => expired.sweptAway cover⟩
    simp only [resultsComplete_iff_not_sweptAway, agree]

/-! ## Samples -/

section Samples

/-- A parent with two children. -/
def plantPair : Op :=
  .addFlow stopped (some (.node { name := "p" }
    [.node { name := "a" } [], .node { name := "b" } []]))

/-- The completion of the first child, with one byte as its result. -/
def completeFirst : Op :=
  .completeJob stopped { id := unaryId 0 1, workerId := "w", attempt := 1, result := [7] }

/-- A reading of the clock more than a day later. -/
def nextDay : Clock := fun _ => 100000000

/-- The second child runs on the next day, and then the parent. -/
def runSecond : List Op :=
  [.getNextJob nextDay { workerId := "w", queueNames := ["b"] },
    .completeJob nextDay { id := unaryId 0 2, workerId := "w", attempt := 1 },
    .getNextJob nextDay { workerId := "w", queueNames := ["p"] }]

/-- The run in which nothing is swept. -/
def pairRun : List Op := [plantPair, poll "a", completeFirst] ++ runSecond

/-- Without a sweep the parent reads what its first child completed with. -/
theorem parent_reads_child_result :
    ResultsComplete .unary {} pairRun ∧
      ChildResults .unary {} pairRun (unaryId 0 0) (unaryId 0 1) [7] := by
  constructor
  · refine (results_complete_iff .unary {} pairRun).unless_swept.mpr fun _ c _ _ =>
      not_sweptAway ?_ c
    simp [pairRun, runSecond, plantPair, poll, completeFirst, Op.IsSweep]
  · refine ⟨?_, by decide +kernel, ?_, by decide⟩
    · have active : ((dbAfter .unary {} pairRun).jobs.find? (unaryId 0 0)).map JobRow.state =
        some .active := by decide +kernel
      exact Option.map_eq_some_iff.mp active
    · exact ⟨[plantPair, poll "a"], stopped, _, ⟨runSecond, rfl⟩, by decide +kernel,
        by decide +kernel, rfl, rfl⟩

/-- The run in which a sweep under the default configuration comes between the
children. -/
def sweptPairRun : List Op :=
  [plantPair, poll "a", completeFirst, .sweep {} nextDay {}] ++ runSecond

/-- **A result is gone when the parent runs.**  The first child completed with a
result, the second a day later, and the sweep of that day has deleted the history
row of the first when the parent is handed out. -/
theorem swept_child_result_missing :
    ({} : RetentionConfig).validate = .ok () ∧
      ChildResults .unary {} sweptPairRun (unaryId 0 0) (unaryId 0 1) [7] ∧
      getChildrenValues (dbAfter .unary {} sweptPairRun) (unaryId 0 0) = .ok [] ∧
      ¬ ResultsComplete .unary {} sweptPairRun := by
  have owed : ChildResults .unary {} sweptPairRun (unaryId 0 0) (unaryId 0 1) [7] := by
    refine ⟨?_, by decide +kernel, ?_, by decide⟩
    · have active : ((dbAfter .unary {} sweptPairRun).jobs.find? (unaryId 0 0)).map
        JobRow.state = some .active := by decide +kernel
      exact Option.map_eq_some_iff.mp active
    · exact ⟨[plantPair, poll "a"], stopped, _, ⟨_, rfl⟩, by decide +kernel, by decide +kernel,
        rfl, rfl⟩
  have empty : getChildrenValues (dbAfter .unary {} sweptPairRun) (unaryId 0 0) = .ok [] := by
    decide +kernel
  refine ⟨by decide +kernel, owed, empty, fun complete => ?_⟩
  obtain ⟨values, listed, same⟩ := complete _ _ _ owed
  cases empty.symm.trans listed
  exact absurd ((same [7]).mpr rfl) List.not_mem_nil

end Samples

end AnvilMQ
