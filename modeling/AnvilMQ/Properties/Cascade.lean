import AnvilMQ.Ledger.Refinement
import AnvilMQ.Properties.Gate

/-!
# Failing a parent with its child

A child with `fail_parent_on_failure` takes its parent along when it fails for
good, the parent takes its own parent along under the same flag, and so on.  There
are two ways to fail for good: a worker reports the failure, or the lease of the
last attempt expires.
-/

namespace AnvilMQ

open Rust Relational Transition

/-! ## The property -/

/-- The transition from `db` to `db'` archives exactly the given jobs as failed. -/
structure FailsExactly (db db' : Db) (rows : List JobRow) : Prop where
  failed : ∀ row ∈ rows, db'.jobs.find? row.id = none ∧
    ∃ entry, db'.jobHistory.find? row.id = some entry ∧ entry.state = .failed
  others : ∀ j, j ∉ rows.map JobRow.id →
    db'.jobs.find? j = db.jobs.find? j ∧ db'.jobHistory.find? j = db.jobHistory.find? j

/-- The transition from `db` to `db'` archives as failed exactly the job `row` and
the longest chain of live ancestors reached through set flags. -/
def CascadesExactly (db db' : Db) (row : JobRow) : Prop :=
  ∃ chain, Cascade db.jobs.find? row.failParentOnFailure row.parentId chain ∧
    FailsExactly db db' (row :: chain)

variable {ext : Externals} {service : Service} {db db' : Db} {t k : ℕ} {l l' : Ledger}
  {events : List Event} {row : JobRow} {rows : List JobRow}

/-! ## Chains of failures -/

/-- Every event archives the corresponding job as failed. -/
def Failures : List JobRow → List Event → Prop :=
  List.Forall₂ fun row e => ∃ entry cause n, e = .failed row entry cause n

theorem CascadeEvents.failures {receipts : Table Receipt.key} {chain : List JobRow}
    (cascaded : CascadeEvents receipts chain events) : Failures chain events :=
  cascaded.imp fun _ _ ⟨entry, n, same, _⟩ => ⟨entry, .cascaded, n, same⟩

/-- A failure touches no job but its own. -/
theorem Step.failed_others {entry : HistoryRow} {cause : FailureCause} {n : ℕ}
    (step : Step ext l (.failed row entry cause n) l') {j : JobId} (other : j ≠ row.id) :
    l'.jobs j = l.jobs j ∧ l'.jobHistory j = l.jobHistory j := by
  obtain ⟨-, rfl⟩ := step
  simp [Ledger.apply, Ne.symm other]

/-- Failures leave the other jobs alone. -/
theorem failures_others (failures : Failures rows events) (chain : Chain (Step ext) l events l')
    {j : JobId} (other : j ∉ rows.map JobRow.id) :
    l'.jobs j = l.jobs j ∧ l'.jobHistory j = l.jobHistory j := by
  induction failures generalizing l with
  | nil =>
    cases chain
    exact ⟨rfl, rfl⟩
  | cons head _ ih =>
    obtain ⟨entry, cause, n, rfl⟩ := head
    rw [List.map_cons, List.mem_cons, not_or] at other
    cases chain with
    | cons step rest =>
      obtain ⟨jobs, done⟩ := ih rest other.2
      obtain ⟨jobs', done'⟩ := step.failed_others other.1
      exact ⟨jobs.trans jobs', done.trans done'⟩

/-- The job is archived as failed and gone. -/
structure FailedJob (ext : Externals) (l : Ledger) (j : JobId) : Prop where
  drawn : l.Drawn ext j
  gone : l.jobs j = none
  failed : ∃ entry, l.jobHistory j = some entry ∧ entry.state = .failed

theorem Step.failedJob {entry : HistoryRow} {cause : FailureCause} {n : ℕ} (sound : l.Sound ext)
    (step : Step ext l (.failed row entry cause n) l') : FailedJob ext l' row.id where
  drawn := step.drawn_mono (sound.drawn step.1.1)
  gone := by
    rw [step.2]
    exact Ledger.jobs_of_retired rfl
  failed := ⟨entry, Ledger.Sound.archived step rfl, step.failed_state⟩

/-- Later failures leave a failed job as it is. -/
theorem failures_stays {j : JobId} (sound : l.Sound ext) (failures : Failures rows events)
    (chain : Chain (Step ext) l events l') (failed : FailedJob ext l j) : FailedJob ext l' j := by
  induction failures generalizing l with
  | nil =>
    cases chain
    exact failed
  | cons head _ ih =>
    obtain ⟨entry, cause, n, rfl⟩ := head
    cases chain with
    | cons step rest =>
      obtain ⟨found, done, state⟩ := failed.failed
      exact ih (sound.step step) rest ⟨step.drawn_mono failed.drawn,
        Ledger.Sound.gone_stays step failed.drawn failed.gone,
        found, sound.archived_stays step done (by simp), state⟩

/-- The jobs of the list are archived as failed. -/
theorem failures_failed (sound : l.Sound ext) (failures : Failures rows events)
    (chain : Chain (Step ext) l events l') : ∀ row ∈ rows, FailedJob ext l' row.id := by
  induction failures generalizing l with
  | nil => simp
  | cons head tail ih =>
    obtain ⟨entry, cause, n, rfl⟩ := head
    cases chain with
    | cons step rest =>
      intro row mem
      rcases List.mem_cons.mp mem with rfl | later
      · exact failures_stays (sound.step step) tail rest (step.failedJob sound)
      · exact ih (sound.step step) rest row later

theorem failsExactly_of_failures (sound : (db.ledger t k).Sound ext)
    (failures : Failures rows events)
    (chain : Chain (Step ext) (db.ledger t k) events (db'.ledger t k)) :
    FailsExactly db db' rows where
  failed := by
    intro row mem
    have failed := failures_failed sound failures chain row mem
    exact ⟨failed.gone, failed.failed⟩
  others := fun _ other => failures_others failures chain other

/-! ## Reported failures -/

/-- **A reported failure that sends its job to the history cascades exactly.** -/
theorem failJob_cascadesExactly {run : List Op} {clock : Clock} {jittered : ℤ}
    {req : FailJobRequest} (live : (dbAfter ext service run).jobs.find? req.id = some row)
    (gone : (dbAfter ext service (run ++ [.failJob clock jittered req])).jobs.find? req.id = none) :
    CascadesExactly (dbAfter ext service run)
      (dbAfter ext service (run ++ [.failJob clock jittered req])) row := by
  have sound := sound_after ext service run
  rw [dbAfter_concat, servedNext, serve] at gone ⊢
  cases done : failJob clock jittered (dbAfter ext service run) req with
  | error status =>
    rw [done] at gone
    have still : (dbAfter ext service run).jobs.find? req.id = none := gone
    rw [live] at still
    cases still
  | ok answer =>
    obtain ⟨moved, db', calls⟩ := answer
    rw [done] at gone
    change CascadesExactly (dbAfter ext service run) db' row
    have gone : db'.jobs.find? req.id = none := gone
    have here : row.id = req.id := Table.key_of_find? live
    have found : (dbAfter ext service run).jobs.find? row.id = some row := by rwa [here]
    rcases finishJob_cases done with ⟨absent, -⟩ | ⟨row', live', accepts, settled⟩
    · rw [live] at absent
      cases absent
    cases live.symm.trans live'
    simp only [settle] at settled
    split at settled
    · simp only [Except.ok.injEq, Prod.mk.injEq] at settled
      obtain ⟨-, rfl, -⟩ := settled
      simp [finishRetry, Db.requeue, Table.find?_modify, here, live] at gone
    · simp only [bind_eq_ok, Except.ok.injEq, Prod.mk.injEq] at settled
      obtain ⟨⟨db₂, calls₂⟩, failed, -, rfl, -⟩ := settled
      obtain ⟨n, ancestors, events, above, cascaded, chain, -⟩ :=
        finishFailed_trace found accepts.active sound.parentsOlder failed
      exact ⟨ancestors, above, failsExactly_of_failures sound
        (.cons ⟨_, _, _, rfl⟩ cascaded.failures) chain⟩

/-! ## Expired leases -/

theorem Batch.after {now : ℤ} {rest : List JobRow} {released total : ℕ}
    (batch : Batch db (rows ++ rest)) (ok : recoverAll now db released rows = .ok (db', total)) :
    Batch db' rest := by
  induction rows generalizing db released with
  | nil =>
    cases ok
    exact batch
  | cons row rows ih =>
    simp only [recoverAll, bind_eq_ok] at ok
    obtain ⟨⟨db₁, n⟩, first, later⟩ := ok
    exact ih (batch.tail first) later

/-- The round of an exhausted job archives that job alone. -/
theorem recoverOne_failsExactly {now : ℤ} {n : ℕ} (sound : (db.ledger t k).Sound ext)
    (found : db.jobs.find? row.id = some row) (active : row.state = .active)
    (exhausted : ¬ row.attempts < row.maxAttempts) (ok : recoverOne now db row = .ok (db', n)) :
    FailsExactly db db' [row] := by
  have step : Step ext (db.ledger t k) _ (db'.ledger t k) := recoverOne_step found active ok
  rw [recoveryEvent, if_neg exhausted] at step
  exact failsExactly_of_failures sound (.cons ⟨_, _, _, rfl⟩ .nil) (.single step)

/-- It cascades exactly just when there is nothing to cascade to. -/
theorem recoverOne_cascadesExactly_iff {now : ℤ} {n : ℕ} (sound : (db.ledger t k).Sound ext)
    (found : db.jobs.find? row.id = some row) (active : row.state = .active)
    (exhausted : ¬ row.attempts < row.maxAttempts) (ok : recoverOne now db row = .ok (db', n)) :
    CascadesExactly db db' row ↔
      row.failParentOnFailure = false ∨ row.parentId.bind db.jobs.find? = none := by
  have alone := recoverOne_failsExactly sound found active exhausted ok
  constructor
  · rintro ⟨chain, cascade, exactly⟩
    rcases cascade.nil_or_parent with unset | orphan | ⟨parent, mem, live⟩
    · exact .inl unset
    · exact .inr orphan
    · obtain ⟨p, here, alive⟩ := Option.bind_eq_some_iff.mp live
      have key : parent.id = p := sound.keyed alive
      have other : parent.id ∉ [row].map JobRow.id := by
        rw [key, List.map_singleton, List.mem_singleton]
        rintro rfl
        exact (sound.older found here).irrefl
      have gone := (exactly.failed parent (List.mem_cons_of_mem _ mem)).1
      rw [(alone.others _ other).1, key, alive] at gone
      cases gone
  · intro ends
    exact ⟨[], .stop ends, alone⟩

/-- **Which terminal failures cascade exactly.**  In every state reached by a run, a
`FailJob` that takes its job out of the live jobs fails exactly that job and the
longest flagged chain of live ancestors.  A round of `recover_expired` that
archives an exhausted job does so exactly when the job's flag is unset or its
parent is not live, because it never looks at the parent. -/
theorem cascade_exact_iff (ext : Externals) (service : Service) (run : List Op) :
    (∀ clock jittered req row, (dbAfter ext service run).jobs.find? req.id = some row →
      (dbAfter ext service (run ++ [.failJob clock jittered req])).jobs.find? req.id = none →
      CascadesExactly (dbAfter ext service run)
        (dbAfter ext service (run ++ [.failJob clock jittered req])) row) ∧
    (∀ (clock : Clock) (batchSize : ℕ) (before after : List JobRow) (row : JobRow) (db₁ db₂ : Db)
      (n₁ n₂ : ℕ), selectExpired (dbAfter ext service run) (clock 0) batchSize =
        before ++ row :: after →
      recoverAll (clock 0) (dbAfter ext service run) 0 before = .ok (db₁, n₁) →
      ¬ row.attempts < row.maxAttempts → recoverOne (clock 0) db₁ row = .ok (db₂, n₂) →
      (CascadesExactly db₁ db₂ row ↔
        row.failParentOnFailure = false ∨ row.parentId.bind db₁.jobs.find? = none)) := by
  refine ⟨fun clock jittered req row => failJob_cascadesExactly, ?_⟩
  intro clock batchSize before after row db₁ db₂ n₁ n₂ selected earlier exhausted round
  have batch := selectExpired_batch (dbAfter ext service run) (clock 0) batchSize
  rw [selected] at batch
  have rest := batch.after earlier
  have first : Batch (dbAfter ext service run) before := by
    refine ⟨?_, fun row mem => batch.found row (List.mem_append_left _ mem),
      fun row mem => batch.active row (List.mem_append_left _ mem)⟩
    have nodup := batch.nodup
    rw [List.map_append] at nodup
    exact nodup.of_append_left
  obtain ⟨counts, -, -, chain, -⟩ := recoverAll_chain first earlier
  have sound : (db₁.ledger run.length 0).Sound ext :=
    Chain.preserves (R := Step ext) Ledger.Sound.step chain (sound_after ext service run)
  exact recoverOne_cascadesExactly_iff sound (rest.found row List.mem_cons_self)
    (rest.active row List.mem_cons_self) exhausted round

/-! ## A crashed worker -/

section Runs

/-- A flow of a parent with one child that has a single attempt and takes its
parent along. -/
def plantFlagged : Op :=
  .addFlow stopped (some (.node { name := "p" }
    [.node { name := "a", maxAttempts := 1, failParentOnFailure := true } []]))

/-- The child is claimed and its worker is not heard of again. -/
def crashRun : List Op := [plantFlagged, poll "a"]

/-- A recovery long after the lease has expired. -/
def recoverLater : Op := .recoverExpired (fun _ => 60000) 100

/-- **An expired lease leaves the parent of a flagged child behind**: the child is
archived as failed, and the live parent its flag names is not. -/
theorem expired_child_leaves_parent :
    ∃ row, (dbAfter .unary {} crashRun).jobs.find? childJob = some row ∧
      (dbAfter .unary {} (crashRun ++ [recoverLater])).jobs.find? childJob = none ∧
      ¬ CascadesExactly (dbAfter .unary {} crashRun)
        (dbAfter .unary {} (crashRun ++ [recoverLater])) row := by
  have alive : ((dbAfter .unary {} crashRun).jobs.find? childJob).isSome := by decide +kernel
  obtain ⟨row, found⟩ := Option.isSome_iff_exists.mp alive
  have flag : ((dbAfter .unary {} crashRun).jobs.find? childJob).map
      JobRow.failParentOnFailure = some true := by decide +kernel
  have above : ((dbAfter .unary {} crashRun).jobs.find? childJob).bind
      JobRow.parentId = some parentJob := by decide +kernel
  have parent : ((dbAfter .unary {} crashRun).jobs.find? parentJob).map JobRow.id =
      some parentJob := by decide +kernel
  have stays : ((dbAfter .unary {} (crashRun ++ [recoverLater])).jobs.find? parentJob).isSome := by
    decide +kernel
  rw [found] at flag above
  refine ⟨row, found, by decide +kernel, ?_⟩
  rintro ⟨chain, cascade, exactly⟩
  have above : row.parentId = some parentJob := above
  rw [Option.some.inj flag, above] at cascade
  rcases cascade.nil_or_parent with unset | orphan | ⟨ancestor, mem, live⟩
  · cases unset
  · rw [Option.bind_some] at orphan
    rw [orphan] at parent
    cases parent
  · rw [Option.bind_some] at live
    rw [live, Option.map_some, Option.some.injEq] at parent
    rw [← parent, (exactly.failed ancestor (List.mem_cons_of_mem _ mem)).1] at stays
    cases stays

/-- The worker reports the failure instead. -/
def reportFailure : Op :=
  .failJob stopped 0 { id := childJob, workerId := "w", attempt := 1, errorMessage := "boom" }

/-- A reported failure of the same child takes the parent along. -/
theorem reported_child_takes_parent :
    ∃ row, (dbAfter .unary {} crashRun).jobs.find? childJob = some row ∧
      (dbAfter .unary {} (crashRun ++ [reportFailure])).jobs.find? parentJob = none ∧
      CascadesExactly (dbAfter .unary {} crashRun)
        (dbAfter .unary {} (crashRun ++ [reportFailure])) row := by
  have alive : ((dbAfter .unary {} crashRun).jobs.find? childJob).isSome := by decide +kernel
  obtain ⟨row, found⟩ := Option.isSome_iff_exists.mp alive
  exact ⟨row, found, by decide +kernel,
    (cascade_exact_iff .unary {} crashRun).1 stopped 0 _ row found (by decide +kernel)⟩

end Runs

end AnvilMQ
