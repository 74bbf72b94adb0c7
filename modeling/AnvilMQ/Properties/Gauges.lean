import AnvilMQ.Properties.Cascade

/-!
# Gauges

The gauges are seeded from the database when the process starts and from then on
moved by the calls each operation makes after its commit.  They stay equal to the
store as long as every operation reports what it did; the cascade of a terminal
failure reports less than it does when an ancestor holds a releasable receipt or is
not parked on its children.
-/

namespace AnvilMQ

open Rust Relational Transition

/-! ## The guarantee -/

/-- **The gauges equal the store.** -/
def GaugesMatch (w : World) : Prop := ∀ gauge, w.metrics gauge = w.db.level gauge

section Statement

variable (ext : Externals) (service : Service)

/-- The broker after a run, a restart that seeds the gauges anew, and another run. -/
def restarted (seeded run : List Op) : World :=
  Transition.after (World.step ext service) (World.after ext service seeded).restart run

/-- The gauge calls of an operation mirror what it does: a terminal failure cascades
only through ancestors parked on their children that hold no releasable receipt. -/
def CallsMirror (seeded before : List Op) (op : Op) : Prop :=
  op.Mirrored (dbAfter ext service (seeded ++ before))

end Statement

variable {ext : Externals} {service : Service}

/-! ## Runs after a restart -/

variable (ext service) in
/-- A restart changes the gauges only. -/
theorem restarted_store (seeded run : List Op) :
    (restarted ext service seeded run).db = dbAfter ext service (seeded ++ run) ∧
      (restarted ext service seeded run).served = (seeded ++ run).length := by
  induction run using List.reverseRecOn with
  | nil =>
    rw [List.append_nil]
    exact ⟨rfl, served_after ext service seeded⟩
  | append_singleton run op ih =>
    rw [restarted, after_concat, ← restarted, ← List.append_assoc, dbAfter_concat]
    simp only [World.step, ih.1, ih.2, servedNext, List.length_append, List.length_singleton,
      and_self]

/-- The gauges after an operation have moved by its calls. -/
theorem flush_eq (metrics : Metrics) (answer : Except Status (Reply × List MetricCall))
    (gauge : Gauge) :
    World.flush metrics answer gauge = metrics gauge + callDelta (answerCalls answer) gauge := by
  cases answer with
  | error status => simp [World.flush, answerCalls]
  | ok outcome => rfl

/-- One operation whose calls mirror its events keeps the gauges right. -/
theorem gauges_after {run : List Op} {op : Op} {metrics : Metrics}
    (mirrored : op.Mirrored (dbAfter ext service run))
    (seeded : ∀ gauge, metrics gauge = (dbAfter ext service run).level gauge) (gauge : Gauge) :
    World.flush metrics (servedNext ext service run op).2 gauge =
      (servedNext ext service run op).1.level gauge := by
  obtain ⟨slot, refines⟩ := eventsOf_refines ext service run op
  have moved : (servedNext ext service run op).1.level gauge =
      (dbAfter ext service run).level gauge + eventDelta (eventsOf ext service run op) gauge :=
    level_of_chain gauge refines.chain
  rw [flush_eq, seeded, moved, ← refines.gauges mirrored gauge]
  rfl

/-- **The gauges equal the store in every run, after any restart, as long as the
cascades are mirrored.** -/
theorem gauges_match_of_mirrored (ext : Externals) (service : Service) (seeded run : List Op)
    (along : Along (CallsMirror ext service seeded) run) :
    GaugesMatch (restarted ext service seeded run) := by
  induction run using List.reverseRecOn with
  | nil => exact fun _ => rfl
  | append_singleton run op ih =>
    obtain ⟨before, last⟩ := along_concat.mp along
    have matched := ih before
    obtain ⟨store, served⟩ := restarted_store ext service seeded run
    intro gauge
    rw [restarted, after_concat, ← restarted]
    rw [GaugesMatch, store] at matched
    simp only [World.step, store, served]
    exact gauges_after last matched gauge

/-! ## Two cascades -/

section Samples

/-- A job whose key is free again when it finishes. -/
def enqueueReleasable : Op :=
  .addJob stopped { name := "p", idempotencyKey := "k", releaseOnFinish := true }

/-- A child of that job with one attempt, which takes its parent along. -/
def mergeFlagged : Op :=
  .addFlowMerge stopped (some (.node { name := "p", idempotencyKey := "k" }
    [.node { name := "a", maxAttempts := 1, failParentOnFailure := true } []]))

/-- The merged child fails. -/
def releasingCascade : List Op :=
  [enqueueReleasable, mergeFlagged, poll "a",
    .failJob stopped 0 { id := unaryId 1 0, workerId := "w", attempt := 1, errorMessage := "boom" }]

/-- **A cascade releases a receipt that the gauge keeps**: the store holds none and
the gauge still counts one. -/
theorem cascade_keeps_released_receipt :
    ¬ GaugesMatch (restarted .unary {} [] releasingCascade) := by
  intro matched
  have same := matched .enqueueReceipts
  revert same
  decide +kernel

/-- The parent of `plantFlagged` is parked and holds no receipt when its child fails. -/
theorem plantFlagged_mirrored :
    Along (CallsMirror .unary {} [plantFlagged]) [poll "a", reportFailure] := by
  have split : [poll "a", reportFailure] = [] ++ [poll "a"] ++ [reportFailure] := rfl
  rw [split, along_concat, along_concat]
  refine ⟨⟨along_nil _, trivial⟩, ?_⟩
  intro row acknowledged _ chain cascade ancestor mem
  have above : ((dbAfter .unary {} crashRun).jobs.find? childJob).bind
      JobRow.parentId = some parentJob := by decide +kernel
  have parked : ((dbAfter .unary {} crashRun).jobs.find? parentJob).map
      (fun parent => (parent.state, parent.failParentOnFailure, parent.id)) =
      some (.waitingChildren, false, parentJob) := by decide +kernel
  have unreceipted : (dbAfter .unary {} crashRun).enqueueReceipts.count
      (Db.releasable parentJob) = 0 := by decide +kernel
  rw [show (dbAfter .unary {} crashRun).jobs.find? childJob = some row from acknowledged.1,
    Option.bind_some] at above
  rw [above] at cascade
  rcases cascade.inv with rfl | ⟨parent, rest, -, live, rfl, higher⟩
  · cases mem
  · rw [Option.bind_some] at live
    rw [show (dbAfter .unary {} crashRun).jobs.find? parentJob = some parent from live] at parked
    simp only [Option.map_some, Option.some.injEq, Prod.mk.injEq] at parked
    rw [parked.2.1] at higher
    rcases higher.inv with rfl | ⟨_, _, impossible, -⟩
    · rw [List.mem_singleton.mp mem, parked.2.2]
      exact ⟨parked.1, unreceipted⟩
    · cases impossible

/-- A cascade through a parked parent without a receipt leaves the gauges right. -/
theorem gauges_match_after_cascade :
    Along (CallsMirror .unary {} [plantFlagged]) [poll "a", reportFailure] ∧
      GaugesMatch (restarted .unary {} [plantFlagged] [poll "a", reportFailure]) :=
  ⟨plantFlagged_mirrored,
    gauges_match_of_mirrored .unary {} [plantFlagged] [poll "a", reportFailure]
      plantFlagged_mirrored⟩

end Samples

end AnvilMQ
