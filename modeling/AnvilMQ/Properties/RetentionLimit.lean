import AnvilMQ.Properties.SafetyFloor

/-!
# What retention comes to

Every statement of a sweep is bounded, so one sweep may leave rows that the settings do not
keep, and which ones it leaves depends on its query plans.  Repeated at one reading of the
clock, the sweeps come to a database that no sweep changes.  It is determined by the settings
and the first database: neither the bound nor the plans of the statements have a part in it.

The count statements number the rows of the table they find, and the age statements and other
count statements have deleted from it.  That the verdict is still that of the first table is
`expired_iff`: a row that is not too old has no row before it that is, and a row beyond the count
stays beyond it while only rows beyond the count are deleted before it.
-/

namespace AnvilMQ

open Rust Relational Transition

/-! ## Rows that are not kept -/

namespace RetentionConfig

variable (cfg : RetentionConfig) (now : ℤ)

/-- The row is older than the age its state keeps. -/
def Aged (row : HistoryRow) : Prop :=
  0 < cfg.age row.state ∧ row.finishedAt < saturatingSub now (cfg.age row.state)

/-- The row is beyond the count its state keeps of its name in a table. -/
def Overflows (history : Table HistoryRow.id) (row : HistoryRow) : Prop :=
  0 < cfg.count row.state ∧ cfg.count row.state < rowNumber history row.state row

/-- The settings do not keep the row in a table. -/
def Expired (history : Table HistoryRow.id) (row : HistoryRow) : Prop :=
  cfg.Aged now row ∨ cfg.Overflows history row

instance decidableExpired (history : Table HistoryRow.id) :
    DecidablePred (cfg.Expired now history) :=
  fun _ => inferInstanceAs (Decidable ((_ ∧ _) ∨ (_ ∧ _)))

/-- The chain has been idle beyond its time. -/
def IdleChain (row : ChainCounter) : Prop :=
  0 < cfg.chainCounterTtlMs ∧ row.updatedAt < saturatingSub now cfg.chainCounterTtlMs

instance decidableIdleChain : DecidablePred (cfg.IdleChain now) :=
  fun _ => inferInstanceAs (Decidable (_ ∧ _))

/-- The facet has been idle beyond its time and no job carries it. -/
def IdleFacet (jobs : Table JobRow.id) (row : FacetDispatch) : Prop :=
  0 < cfg.facetDispatchTtlMs ∧
    (decide (row.lastServedAt < saturatingSub now cfg.facetDispatchTtlMs) &&
      jobs.rows.all fun job => decide (job.rateLimitFacet.getD "" ≠ row.facetKey)) = true

instance decidableIdleFacet (jobs : Table JobRow.id) : DecidablePred (cfg.IdleFacet now jobs) :=
  fun _ => inferInstanceAs (Decidable (_ ∧ _))

/-- The rejection is older than the age that is kept. -/
def OldRejection (row : Rejection) : Prop :=
  0 < cfg.rejectionsAgeMs ∧ row.rejectedAt < saturatingSub now cfg.rejectionsAgeMs

instance decidableOldRejection : DecidablePred (cfg.OldRejection now) :=
  fun _ => inferInstanceAs (Decidable (_ ∧ _))

end RetentionConfig

/-- The job of the receipt is neither live nor archived. -/
def Orphan (jobs : Table JobRow.id) (history : Table HistoryRow.id) (receipt : Receipt) : Prop :=
  ¬ jobs.Has receipt.jobId ∧ ¬ history.Has receipt.jobId

instance decidableOrphan (jobs : Table JobRow.id) (history : Table HistoryRow.id) :
    DecidablePred (Orphan jobs history) :=
  fun _ => inferInstanceAs (Decidable (_ ∧ _))

/-! ## The verdict on a row -/

section Verdict

variable {cfg : RetentionConfig} {now : ℤ} {history history' : Table HistoryRow.id}
  {row other : HistoryRow}

/-- `other` is numbered before `row`: the same state, the same name and newer. -/
def numberedBefore (other row : HistoryRow) : Bool :=
  decide (other.state = row.state) && decide (other.name = row.name) && newer other row

theorem numberedBefore_iff : numberedBefore other row = true ↔
    other.state = row.state ∧ other.name = row.name ∧ (row.finishedAt < other.finishedAt ∨
      other.finishedAt = row.finishedAt ∧ row.id < other.id) := by
  simp [numberedBefore, newer, and_assoc]

theorem numberedBefore_trans (a b c : HistoryRow) (first : numberedBefore a b = true)
    (second : numberedBefore b c = true) : numberedBefore a c = true := by
  obtain ⟨state, name, earlier⟩ := numberedBefore_iff.mp first
  obtain ⟨state', name', earlier'⟩ := numberedBefore_iff.mp second
  refine numberedBefore_iff.mpr ⟨state.trans state', name.trans name', ?_⟩
  rcases earlier with lt | ⟨same, lt⟩ <;> rcases earlier' with lt' | ⟨same', lt'⟩
  · exact .inl (lt'.trans lt)
  · exact .inl (same' ▸ lt)
  · exact .inl (same ▸ lt')
  · exact .inr ⟨same.trans same', String.lt_trans lt' lt⟩

theorem numberedBefore_irrefl (a : HistoryRow) : numberedBefore a a = false := by
  refine Bool.eq_false_iff.mpr fun itself => ?_
  obtain ⟨-, -, lt | ⟨-, lt⟩⟩ := numberedBefore_iff.mp itself
  · exact lt_irrefl _ lt
  · exact String.lt_irrefl _ lt

/-- The number of a row counts the rows before it. -/
theorem rowNumber_eq (history : Table HistoryRow.id) (row : HistoryRow) :
    rowNumber history row.state row = history.rows.countP (numberedBefore · row) + 1 := rfl

/-- Numbers only fall when rows are deleted. -/
theorem rowNumber_le {P : HistoryRow → Prop} (only : Table.DeletesOnly P history history')
    (row : HistoryRow) : rowNumber history' row.state row ≤ rowNumber history row.state row :=
  Nat.succ_le_succ (only.sublist.countP_le)

theorem RetentionConfig.Overflows.of_deletesOnly {P : HistoryRow → Prop}
    (beyond : cfg.Overflows history' row) (only : Table.DeletesOnly P history history') :
    cfg.Overflows history row :=
  ⟨beyond.1, beyond.2.trans_le (Nat.cast_le.mpr (rowNumber_le only row))⟩

/-- A row numbered before one that is not too old is not too old. -/
theorem RetentionConfig.Aged.of_before (aged : cfg.Aged now other)
    (before : numberedBefore other row = true) : cfg.Aged now row := by
  obtain ⟨state, -, later⟩ := numberedBefore_iff.mp before
  have older : row.finishedAt ≤ other.finishedAt := by omega
  rw [RetentionConfig.Aged, state] at aged
  exact ⟨aged.1, older.trans_lt aged.2⟩

/-- **Deleting rows that are not kept does not change the verdict on the rest.** -/
theorem expired_iff (only : Table.DeletesOnly (cfg.Expired now history) history history')
    (row : HistoryRow) : cfg.Expired now history' row ↔ cfg.Expired now history row := by
  constructor
  · exact Or.imp_right fun beyond => beyond.of_deletesOnly only
  · intro expired
    by_cases aged : cfg.Aged now row
    · exact .inl aged
    · have beyond : cfg.Overflows history row := expired.resolve_left aged
      refine .inr ⟨beyond.1, ?_⟩
      obtain ⟨q, rfl, chosen⟩ := only
      have rank : (cfg.count row.state).toNat ≤ history.rows.countP (numberedBefore · row) := by
        have := beyond.2
        rw [rowNumber_eq] at this
        omega
      -- a deleted row before this one is not too old, so it is beyond the count as well
      have dropped : ∀ x ∈ history.rows, numberedBefore x row = true → (!q x) = false →
          (cfg.count row.state).toNat ≤ history.rows.countP (numberedBefore · x) := by
        intro x mem before deleted
        have gone := chosen x mem (by simpa using deleted)
        have past := (gone.resolve_left fun old => aged (old.of_before before)).2
        rw [rowNumber_eq, (numberedBefore_iff.mp before).1] at past
        omega
      have kept := le_countP_filter numberedBefore_trans numberedBefore_irrefl dropped rank
      have positive := beyond.1
      rw [rowNumber_eq]
      show cfg.count row.state < ((history.rows.filter fun r => !q r).countP _ + 1 : ℕ)
      omega

end Verdict

/-! ## What a sweep does -/

/-- The database without the tables a sweep deletes from. -/
def Db.unswept (db : Db) : Db :=
  { db with
    jobHistory := .empty
    enqueueReceipts := .empty
    chainCounters := .empty
    facetDispatch := .empty
    enqueueRejections := .empty }

/-- The number of rows in the tables a sweep deletes from. -/
def Db.sweepable (db : Db) : ℕ :=
  db.jobHistory.rows.length + db.enqueueReceipts.rows.length + db.chainCounters.rows.length +
    db.facetDispatch.rows.length + db.enqueueRejections.rows.length

theorem Db.eq_of_unswept {db db' : Db} (rest : db'.unswept = db.unswept)
    (history : db'.jobHistory = db.jobHistory) (receipts : db'.enqueueReceipts = db.enqueueReceipts)
    (chains : db'.chainCounters = db.chainCounters) (facets : db'.facetDispatch = db.facetDispatch)
    (rejections : db'.enqueueRejections = db.enqueueRejections) : db' = db := by
  cases db
  cases db'
  simp_all [Db.unswept]

/-- The four statements on the history, with the tables between them. -/
structure SweepsHistory (cfg : RetentionConfig) (now : ℤ)
    (h₀ h₁ h₂ h₃ h₄ : Table HistoryRow.id) : Prop where
  completedAge : h₀.Prunes cfg.batch (fun row => row.state = .completed ∧ cfg.Aged now row) h₁
  failedAge : h₁.Prunes cfg.batch (fun row => row.state = .failed ∧ cfg.Aged now row) h₂
  completedCount : h₂.Prunes cfg.batch (fun row => row.state = .completed ∧ cfg.Overflows h₂ row) h₃
  failedCount : h₃.Prunes cfg.batch (fun row => row.state = .failed ∧ cfg.Overflows h₃ row) h₄

/-- What a sweep does, whatever its plans: each statement deletes some of the rows it is for. -/
structure SweepsTo (cfg : RetentionConfig) (now : ℤ) (db db' : Db) : Prop where
  history : ∃ h₁ h₂ h₃, SweepsHistory cfg now db.jobHistory h₁ h₂ h₃ db'.jobHistory
  receipts : db.enqueueReceipts.Prunes cfg.batch (Orphan db.jobs db'.jobHistory) db'.enqueueReceipts
  chains : db.chainCounters.Prunes cfg.batch (cfg.IdleChain now) db'.chainCounters
  facets : db.facetDispatch.Prunes cfg.batch (cfg.IdleFacet now db.jobs) db'.facetDispatch
  rejections : db.enqueueRejections.Prunes cfg.batch (cfg.OldRejection now) db'.enqueueRejections
  rest : db'.unswept = db.unswept

/-- Nothing in the database is to be deleted. -/
structure Settled (cfg : RetentionConfig) (now : ℤ) (db : Db) : Prop where
  history : ∀ row ∈ db.jobHistory, ¬ cfg.Expired now db.jobHistory row
  receipts : ∀ receipt ∈ db.enqueueReceipts, ¬ Orphan db.jobs db.jobHistory receipt
  chains : ∀ row ∈ db.chainCounters, ¬ cfg.IdleChain now row
  facets : ∀ row ∈ db.facetDispatch, ¬ cfg.IdleFacet now db.jobs row
  rejections : ∀ row ∈ db.enqueueRejections, ¬ cfg.OldRejection now row

section Statements

variable {ρ κ : Type} [DecidableEq κ] {key : ρ → κ} {batch : ℤ}

theorem deleteLimit_prunes (table : Table key) (p : ρ → Bool) (scan : Scan ρ) :
    table.Prunes batch (fun r => p r = true) (deleteSelected table (scan.limit
      (sqlLimit batch (table.rows.filter p).length) (table.rows.filter p))).1 :=
  Table.prunes_of_selected (fun _ => Scan.mem_of_mem_limit)
    (fun positive => Scan.eq_nil_of_limit (sqlLimit_pos positive _))
    fun covered _ => Scan.mem_limit (le_sqlLimit (List.length_filter_le p _) covered)

theorem deleteLimitBy_prunes (table : Table key) (p : ρ → Bool) (scan : Scan ρ) (order : ρ → ℤ) :
    table.Prunes batch (fun r => p r = true) (deleteSelected table (scan.limitBy order
      (sqlLimit batch (table.rows.filter p).length) (table.rows.filter p))).1 :=
  Table.prunes_of_selected (fun _ => Scan.mem_of_mem_limitBy)
    (fun positive => Scan.eq_nil_of_limitBy (sqlLimit_pos positive _))
    fun covered _ => Scan.mem_limitBy (le_sqlLimit (List.length_filter_le p _) covered)

omit [DecidableEq κ] in
/-- A statement that its setting enables prunes what it is for when it is enabled. -/
theorem whenPositive_prunes {P Q : ρ → Prop} (view : Db → Table key) {setting : ℤ} {db : Db}
    {statement : Db → Db × ℕ}
    (prunes : (view db).Prunes batch P (view (statement db).1))
    (means : ∀ r, Q r ↔ 0 < setting ∧ P r) :
    (view db).Prunes batch Q (view (whenPositive setting db statement).1) := by
  rw [whenPositive]
  split
  · rename_i enabled
    exact prunes.congr fun r => (means r).trans (and_iff_right enabled)
  · rename_i disabled
    exact .refl fun r _ doomed => disabled ((means r).mp doomed).1

end Statements

section Sweep

variable {cfg : RetentionConfig} {now : ℤ} {db db' : Db}

theorem agePruned_prunes (scan : Scan HistoryRow) (state : TerminalState) :
    db.jobHistory.Prunes cfg.batch (fun row => row.state = state ∧ cfg.Aged now row)
      (agePruned cfg now db scan state).jobHistory := by
  refine whenPositive_prunes Db.jobHistory (deleteLimitBy_prunes _ _ _ _) fun row => ?_
  simp only [Bool.and_eq_true, decide_eq_true_eq, RetentionConfig.Aged]
  constructor
  · rintro ⟨rfl, enabled, old⟩
    exact ⟨enabled, rfl, old⟩
  · rintro ⟨enabled, rfl, old⟩
    exact ⟨rfl, enabled, old⟩

theorem countPruned_prunes (scan : Scan HistoryRow) (state : TerminalState) :
    db.jobHistory.Prunes cfg.batch (fun row => row.state = state ∧ cfg.Overflows db.jobHistory row)
      (countPruned cfg db scan state).jobHistory := by
  refine whenPositive_prunes Db.jobHistory (deleteLimit_prunes _ _ _) fun row => ?_
  simp only [Bool.and_eq_true, decide_eq_true_eq, RetentionConfig.Overflows]
  constructor
  · rintro ⟨rfl, enabled, beyond⟩
    exact ⟨enabled, rfl, beyond⟩
  · rintro ⟨enabled, rfl, beyond⟩
    exact ⟨rfl, enabled, beyond⟩

/-- The database one sweep at a reading of the clock leaves. -/
def sweepAt (cfg : RetentionConfig) (now : ℤ) (db : Db) (plan : SweepPlan) : Db :=
  (sweep plan (fun _ => now) db cfg).2.1

/-- The database after the statements of a sweep on the history. -/
def historySwept (plan : SweepPlan) (cfg : RetentionConfig) (now : ℤ) (db : Db) : Db :=
  countPruned cfg (countPruned cfg (agesPruned plan cfg now db) plan.completedCount .completed)
    plan.failedCount .failed

/-- The statements on the history leave everything else alone. -/
theorem historySwept_view {α : Type} (view : Db → α)
    (outside : ∀ (db : Db) history, view { db with jobHistory := history } = view db)
    (plan : SweepPlan) : view (historySwept plan cfg now db) = view db := by
  refine (whenPositive_view view (fun _ => outside _ _) _).trans ?_
  refine (whenPositive_view view (fun _ => outside _ _) _).trans ?_
  refine (whenPositive_view view (fun _ => outside _ _) _).trans ?_
  exact whenPositive_view view (fun _ => outside _ _) _

/-- The statements on the history prune in their order. -/
theorem sweepsHistory_sweepAt (plan : SweepPlan) :
    ∃ h₁ h₂ h₃, SweepsHistory cfg now db.jobHistory h₁ h₂ h₃
      (sweepAt cfg now db plan).jobHistory := by
  rw [sweepAt, sweep_jobHistory]
  exact ⟨_, _, _, agePruned_prunes plan.completedAge .completed,
    agePruned_prunes plan.failedAge .failed,
    countPruned_prunes plan.completedCount .completed,
    countPruned_prunes plan.failedCount .failed⟩

/-- A sweep prunes the receipts that its history statements have orphaned. -/
theorem sweepAt_receipts (plan : SweepPlan) :
    db.enqueueReceipts.Prunes cfg.batch (Orphan db.jobs (sweepAt cfg now db plan).jobHistory)
      (sweepAt cfg now db plan).enqueueReceipts := by
  let swept := historySwept plan cfg now db
  have books : booksSwept plan cfg (fun _ => now) db =
    (pruneReceipts plan.receipts swept cfg.batch).1 := rfl
  have whole : (sweepAt cfg now db plan).enqueueReceipts =
      (pruneReceipts plan.receipts swept cfg.batch).1.enqueueReceipts := by
    rw [← books]
    exact (sweep_view plan cfg Db.enqueueReceipts fun _ _ => rfl).trans
      ((whenPositive_view Db.enqueueReceipts (fun _ => rfl) _).trans
        (whenPositive_view Db.enqueueReceipts (fun _ => rfl) _))
  have before : swept.enqueueReceipts = db.enqueueReceipts :=
    historySwept_view Db.enqueueReceipts (fun _ _ => rfl) plan
  have history : (sweepAt cfg now db plan).jobHistory = swept.jobHistory :=
    sweep_jobHistory plan cfg db fun _ => now
  have jobs : swept.jobs = db.jobs := historySwept_view Db.jobs (fun _ _ => rfl) plan
  rw [whole, history, ← before, ← jobs]
  refine (deleteLimit_prunes _ (orphaned swept) plan.receipts).congr fun receipt => ?_
  simp [orphaned, Orphan]

theorem sweepAt_chains (plan : SweepPlan) :
    db.chainCounters.Prunes cfg.batch (cfg.IdleChain now)
      (sweepAt cfg now db plan).chainCounters := by
  obtain ⟨books, whole⟩ := sweep_chainCounters_eq plan cfg (fun _ => now) db
  rw [sweepAt, whole, ← books]
  refine whenPositive_prunes Db.chainCounters (deleteLimitBy_prunes _ _ _ _) fun row => ?_
  simp [RetentionConfig.IdleChain]

theorem sweepAt_facets (plan : SweepPlan) :
    db.facetDispatch.Prunes cfg.batch (cfg.IdleFacet now db.jobs)
      (sweepAt cfg now db plan).facetDispatch := by
  obtain ⟨chains, whole⟩ := sweep_facetDispatch_eq plan cfg (fun _ => now) db
  have jobs : (chainsSwept plan cfg (fun _ => now) db).jobs = db.jobs :=
    (whenPositive_view Db.jobs (fun _ => rfl) _).trans
      (historySwept_view Db.jobs (fun _ _ => rfl) plan)
  rw [sweepAt, whole, ← chains, ← jobs]
  exact whenPositive_prunes Db.facetDispatch (deleteLimitBy_prunes _ _ _ _)
    fun row => Iff.rfl

theorem sweepAt_rejections (plan : SweepPlan) :
    db.enqueueRejections.Prunes cfg.batch (cfg.OldRejection now)
      (sweepAt cfg now db plan).enqueueRejections := by
  simp only [sweepAt, sweep]
  rw [← facetsSwept_rejections plan cfg (fun _ => now) db]
  refine whenPositive_prunes Db.enqueueRejections (deleteLimitBy_prunes _ _ _ _)
    fun row => ?_
  simp [RetentionConfig.OldRejection]

theorem sweepAt_unswept (plan : SweepPlan) : (sweepAt cfg now db plan).unswept = db.unswept := by
  have last : (sweepAt cfg now db plan).unswept =
      (facetsSwept plan cfg (fun _ => now) db).unswept :=
    sweep_view plan cfg Db.unswept fun _ _ => rfl
  refine last.trans ?_
  refine (whenPositive_view Db.unswept (fun _ => rfl) _).trans ?_
  refine (whenPositive_view Db.unswept (fun _ => rfl) _).trans ?_
  -- the prune of receipts does not show, and the statements on the history are left
  exact historySwept_view Db.unswept (fun _ _ => rfl) plan

/-- **What a sweep does**, for every bound and all query plans. -/
theorem sweepsTo_sweepAt (plan : SweepPlan) :
    SweepsTo cfg now db (sweepAt cfg now db plan) where
  history := sweepsHistory_sweepAt plan
  receipts := sweepAt_receipts plan
  chains := sweepAt_chains plan
  facets := sweepAt_facets plan
  rejections := sweepAt_rejections plan
  rest := sweepAt_unswept plan

end Sweep

/-! ## Towards the limit -/

section Limit

variable {cfg : RetentionConfig} {now : ℤ} {db db' db'' : Db} {h₀ h₁ h₂ h₃ h₄ : Table HistoryRow.id}

/-- The history rows that the settings keep. -/
def keptHistory (cfg : RetentionConfig) (now : ℤ) (db : Db) : Table HistoryRow.id :=
  db.jobHistory.delete fun row => decide (cfg.Expired now db.jobHistory row)

/-- The database without what the settings do not keep. -/
def retained (cfg : RetentionConfig) (now : ℤ) (db : Db) : Db :=
  { db with
    jobHistory := keptHistory cfg now db
    enqueueReceipts := db.enqueueReceipts.delete fun receipt =>
      decide (Orphan db.jobs (keptHistory cfg now db) receipt)
    chainCounters := db.chainCounters.delete fun row => decide (cfg.IdleChain now row)
    facetDispatch := db.facetDispatch.delete fun row => decide (cfg.IdleFacet now db.jobs row)
    enqueueRejections := db.enqueueRejections.delete fun row =>
      decide (cfg.OldRejection now row) }

/-- Sweeps have deleted some of what the settings do not keep, and nothing else. -/
structure Toward (cfg : RetentionConfig) (now : ℤ) (db db' : Db) : Prop where
  history : db.jobHistory.DeletesOnly (cfg.Expired now db.jobHistory) db'.jobHistory
  receipts : db.enqueueReceipts.DeletesOnly (Orphan db.jobs (keptHistory cfg now db))
    db'.enqueueReceipts
  chains : db.chainCounters.DeletesOnly (cfg.IdleChain now) db'.chainCounters
  facets : db.facetDispatch.DeletesOnly (cfg.IdleFacet now db.jobs) db'.facetDispatch
  rejections : db.enqueueRejections.DeletesOnly (cfg.OldRejection now) db'.enqueueRejections
  rest : db'.unswept = db.unswept

theorem Toward.refl (cfg : RetentionConfig) (now : ℤ) (db : Db) : Toward cfg now db db :=
  ⟨.refl _ _, .refl _ _, .refl _ _, .refl _ _, .refl _ _, rfl⟩

theorem Toward.jobs (toward : Toward cfg now db db') : db'.jobs = db.jobs := by
  have same := congrArg Db.jobs toward.rest
  exact same

/-- A history row that is kept is there throughout. -/
theorem has_of_keptHistory {history : Table HistoryRow.id} {id : JobId}
    (only : db.jobHistory.DeletesOnly (cfg.Expired now db.jobHistory) history)
    (kept : (keptHistory cfg now db).Has id) : history.Has id := by
  obtain ⟨row, mem, rfl⟩ := Table.has_iff.mp kept
  obtain ⟨stored, spared⟩ := Table.mem_delete.mp mem
  exact Table.has_of_mem (only.mem stored (of_decide_eq_false spared))

/-- The statements on the history delete rows that are not kept in the first table. -/
theorem SweepsHistory.toward {first : Table HistoryRow.id}
    (sweeps : SweepsHistory cfg now h₀ h₁ h₂ h₃ h₄)
    (only : first.DeletesOnly (cfg.Expired now first) h₀) :
    first.DeletesOnly (cfg.Expired now first) h₂ ∧ first.DeletesOnly (cfg.Expired now first) h₃ ∧
      first.DeletesOnly (cfg.Expired now first) h₄ := by
  have only₁ := only.trans (sweeps.completedAge.only.imp fun _ doomed => .inl doomed.2)
  have only₂ := only₁.trans (sweeps.failedAge.only.imp fun _ doomed => .inl doomed.2)
  -- a count statement numbers the table it finds, where no number is higher than in the first
  have only₃ := only₂.trans (sweeps.completedCount.only.imp fun _ doomed =>
    .inr (doomed.2.of_deletesOnly only₂))
  exact ⟨only₂, only₃, only₃.trans (sweeps.failedCount.only.imp fun _ doomed =>
    .inr (doomed.2.of_deletesOnly only₃))⟩

/-- **A sweep goes on towards the limit.** -/
theorem SweepsTo.toward (sweeps : SweepsTo cfg now db' db'') (toward : Toward cfg now db db') :
    Toward cfg now db db'' := by
  obtain ⟨h₁, h₂, h₃, statements⟩ := sweeps.history
  have history := (statements.toward toward.history).2.2
  have jobs := toward.jobs
  refine ⟨history, ?_, ?_, ?_, ?_, sweeps.rest.trans toward.rest⟩
  · refine toward.receipts.trans (sweeps.receipts.only.imp fun receipt orphan => ?_)
    exact ⟨jobs ▸ orphan.1, fun kept => orphan.2 (has_of_keptHistory history kept)⟩
  · exact toward.chains.trans sweeps.chains.only
  · exact toward.facets.trans (jobs ▸ sweeps.facets.only)
  · exact toward.rejections.trans sweeps.rejections.only

theorem SweepsHistory.only (sweeps : SweepsHistory cfg now h₀ h₁ h₂ h₃ h₄) :
    h₀.DeletesOnly (cfg.Expired now h₀) h₄ :=
  (sweeps.toward (.refl _ _)).2.2

/-- **A bound that covers the history leaves only rows that are kept in the first table.** -/
theorem SweepsHistory.reached (sweeps : SweepsHistory cfg now h₀ h₁ h₂ h₃ h₄)
    (covered : h₀.rows.length ≤ cfg.batch) : ∀ row ∈ h₄, ¬ cfg.Expired now h₀ row := by
  obtain ⟨only₂, only₃, -⟩ := sweeps.toward (.refl _ _)
  have le₁ := sweeps.completedAge.only.sublist.length_le
  have le₂ := only₂.sublist.length_le
  have le₃ := only₃.sublist.length_le
  intro row mem expired
  have mem₃ := sweeps.failedCount.only.mem_of mem
  have mem₂ := sweeps.completedCount.only.mem_of mem₃
  have young : ¬ cfg.Aged now row := by
    intro aged
    cases state : row.state with
    | completed =>
      exact sweeps.completedAge.reached covered row (sweeps.failedAge.only.mem_of mem₂)
        ⟨state, aged⟩
    | failed => exact sweeps.failedAge.reached (by omega) row mem₂ ⟨state, aged⟩
  -- so it is beyond the count, and still is when the count statement of its state comes
  cases state : row.state with
  | completed =>
    exact sweeps.completedCount.reached (by omega) row mem₃
      ⟨state, ((expired_iff only₂ row).mpr expired).resolve_left young⟩
  | failed =>
    exact sweeps.failedCount.reached (by omega) row mem
      ⟨state, ((expired_iff only₃ row).mpr expired).resolve_left young⟩

/-- Statements that leave the history as it was had nothing to delete. -/
theorem SweepsHistory.settled {h : Table HistoryRow.id} (positive : 0 < cfg.batch)
    (sweeps : SweepsHistory cfg now h h₁ h₂ h₃ h) : ∀ row ∈ h, ¬ cfg.Expired now h row := by
  -- every table on the way has as many rows as the first
  have le₁ := sweeps.completedAge.only.sublist.length_le
  have le₂ := sweeps.failedAge.only.sublist.length_le
  have le₃ := sweeps.completedCount.only.sublist.length_le
  have le₄ := sweeps.failedCount.only.sublist.length_le
  obtain rfl := sweeps.completedAge.only.eq_of_length_le (by omega)
  obtain rfl := sweeps.failedAge.only.eq_of_length_le (by omega)
  obtain rfl := sweeps.completedCount.only.eq_of_length_le (by omega)
  rintro row mem (aged | beyond)
  · cases state : row.state with
    | completed => exact sweeps.completedAge.idle positive rfl row mem ⟨state, aged⟩
    | failed => exact sweeps.failedAge.idle positive rfl row mem ⟨state, aged⟩
  · cases state : row.state with
    | completed => exact sweeps.completedCount.idle positive rfl row mem ⟨state, beyond⟩
    | failed => exact sweeps.failedCount.idle positive rfl row mem ⟨state, beyond⟩

/-- A sweep that changes nothing had nothing to delete. -/
theorem SweepsTo.settled (sweeps : SweepsTo cfg now db db) (positive : 0 < cfg.batch) :
    Settled cfg now db := by
  obtain ⟨h₁, h₂, h₃, statements⟩ := sweeps.history
  exact ⟨statements.settled positive, sweeps.receipts.idle positive rfl,
    sweeps.chains.idle positive rfl, sweeps.facets.idle positive rfl,
    sweeps.rejections.idle positive rfl⟩

/-- Where nothing is to be deleted a sweep changes nothing. -/
theorem Settled.sweepsTo_eq (settled : Settled cfg now db) (sweeps : SweepsTo cfg now db db') :
    db' = db := by
  obtain ⟨h₁, h₂, h₃, statements⟩ := sweeps.history
  have history := statements.only.eq_of_none settled.history
  refine Db.eq_of_unswept sweeps.rest history ?_ ?_ ?_ ?_
  · exact sweeps.receipts.only.eq_of_none (history ▸ settled.receipts)
  · exact sweeps.chains.only.eq_of_none settled.chains
  · exact sweeps.facets.only.eq_of_none settled.facets
  · exact sweeps.rejections.only.eq_of_none settled.rejections

/-- A sweep changes nothing or deletes a row. -/
theorem SweepsTo.shrinks (sweeps : SweepsTo cfg now db db') :
    db' = db ∨ db'.sweepable < db.sweepable := by
  obtain ⟨h₁, h₂, h₃, statements⟩ := sweeps.history
  have history := statements.only.sublist.length_le
  have receipts := sweeps.receipts.only.sublist.length_le
  have chains := sweeps.chains.only.sublist.length_le
  have facets := sweeps.facets.only.sublist.length_le
  have rejections := sweeps.rejections.only.sublist.length_le
  unfold Db.sweepable
  rw [or_iff_not_imp_right]
  intro whole
  refine Db.eq_of_unswept sweeps.rest ?_ ?_ ?_ ?_ ?_
  · exact statements.only.eq_of_length_le (by omega)
  · exact sweeps.receipts.only.eq_of_length_le (by omega)
  · exact sweeps.chains.only.eq_of_length_le (by omega)
  · exact sweeps.facets.only.eq_of_length_le (by omega)
  · exact sweeps.rejections.only.eq_of_length_le (by omega)

/-- **The limit.**  On the way from a database, the only one with nothing to delete is the
retained one. -/
theorem Toward.eq_retained (toward : Toward cfg now db db') (settled : Settled cfg now db') :
    db' = retained cfg now db := by
  have jobs := toward.jobs
  have history : db'.jobHistory = keptHistory cfg now db := by
    refine Table.DeletesOnly.eq_delete (toward.history.imp fun _ => decide_eq_true) ?_
    intro row mem
    exact decide_eq_false fun expired =>
      settled.history row mem ((expired_iff toward.history row).mpr expired)
  refine Db.eq_of_unswept toward.rest history ?_ ?_ ?_ ?_
  · refine Table.DeletesOnly.eq_delete (toward.receipts.imp fun _ => decide_eq_true) ?_
    intro receipt mem
    have spared := settled.receipts receipt mem
    rw [jobs, history] at spared
    exact decide_eq_false spared
  · exact Table.DeletesOnly.eq_delete (toward.chains.imp fun _ => decide_eq_true)
      fun row mem => decide_eq_false (settled.chains row mem)
  · exact Table.DeletesOnly.eq_delete (toward.facets.imp fun _ => decide_eq_true)
      fun row mem => decide_eq_false (jobs ▸ settled.facets row mem)
  · exact Table.DeletesOnly.eq_delete (toward.rejections.imp fun _ => decide_eq_true)
      fun row mem => decide_eq_false (settled.rejections row mem)

/-- Sweeps that are as many as the rows they may delete come to the retained database, and no
sweep changes it. -/
theorem after_sweepAt (positive : 0 < cfg.batch) {plans : List SweepPlan}
    (long : db.sweepable ≤ plans.length) :
    after (sweepAt cfg now) db plans = retained cfg now db ∧
      ∀ plan, sweepAt cfg now (retained cfg now db) plan = retained cfg now db := by
  have shrinks : ∀ db plan, sweepAt cfg now db plan = db ∨
      (sweepAt cfg now db plan).sweepable < db.sweepable :=
    fun db plan => (sweepsTo_sweepAt plan).shrinks
  have settles : ∀ db plan, sweepAt cfg now db plan = db → Settled cfg now db := by
    intro db plan same
    have sweeps : SweepsTo cfg now db (sweepAt cfg now db plan) := sweepsTo_sweepAt plan
    rw [same] at sweeps
    exact sweeps.settled positive
  -- what one plan leaves alone has nothing to delete, so every plan leaves it alone
  have rests : ∀ db plan plan', sweepAt cfg now db plan = db → sweepAt cfg now db plan' = db :=
    fun db plan plan' same =>
      (settles db plan same).sweepsTo_eq (sweepsTo_sweepAt plan')
  have still := after_settles shrinks rests long
  have toward : Toward cfg now db (after (sweepAt cfg now) db plans) :=
    after_preserves (fun db' plan toward => (sweepsTo_sweepAt plan).toward toward)
      (Toward.refl cfg now db) plans
  have limit := toward.eq_retained (settles _ {} (still {}))
  rw [limit] at still
  exact ⟨limit, still⟩

end Limit

/-! ## Convergence -/

/-- What the settings keep of a database: the rows of `job_history` that are young enough and
among the newest of their name and state in the first table, and the receipts of the jobs that
are live or archived. -/
structure Retained (cfg : RetentionConfig) (now : ℤ) (db db' : Db) : Prop where
  /-- A row is left when it was there, is not older than the age of its state, if that is
  enabled, and has a number within the count of its state, if that is enabled. -/
  history : ∀ row, row ∈ db'.jobHistory ↔ row ∈ db.jobHistory ∧
    (cfg.age row.state ≤ 0 ∨ now - cfg.age row.state ≤ row.finishedAt) ∧
    (cfg.count row.state ≤ 0 ∨ (rowNumber db.jobHistory row.state row : ℤ) ≤ cfg.count row.state)
  /-- A receipt is left when it was there and its job is live or archived. -/
  receipts : ∀ receipt, receipt ∈ db'.enqueueReceipts ↔ receipt ∈ db.enqueueReceipts ∧
    (db'.jobs.Has receipt.jobId ∨ db'.jobHistory.Has receipt.jobId)
  /-- The jobs are untouched. -/
  jobs : db'.jobs = db.jobs

section Convergence

variable {cfg : RetentionConfig} {now : ℤ} {db : Db}

/-- The cutoff of an `i64` column is the difference. -/
theorem not_aged_iff (reading : now ≤ i64Max) {row : HistoryRow}
    (stored : i64Min ≤ row.finishedAt) :
    ¬ cfg.Aged now row ↔ cfg.age row.state ≤ 0 ∨ now - cfg.age row.state ≤ row.finishedAt := by
  simp only [RetentionConfig.Aged, saturatingSub, saturate]
  omega

theorem retained_retained (reading : now ≤ i64Max)
    (stored : ∀ row ∈ db.jobHistory, i64Min ≤ row.finishedAt) :
    Retained cfg now db (retained cfg now db) where
  history row := by
    show row ∈ db.jobHistory.delete _ ↔ _
    rw [Table.mem_delete, decide_eq_false_iff_not, RetentionConfig.Expired, not_or]
    refine and_congr_right fun mem => and_congr (not_aged_iff reading (stored row mem)) ?_
    simp only [RetentionConfig.Overflows]
    omega
  receipts receipt := by
    show receipt ∈ db.enqueueReceipts.delete _ ↔ _
    rw [Table.mem_delete, decide_eq_false_iff_not, Orphan, not_and_or, not_not, not_not]
    rfl
  jobs := rfl

/-- **Retention converges.**  The clock stands at `now`, and `finished_at` holds 64-bit integers.
There is one database that any settings of the bound and all query plans lead to: sweeps that are
numerous enough end in it, no sweep changes it, and it holds what the settings keep of the first
one. -/
theorem retention_converges (reading : now ≤ i64Max)
    (stored : ∀ row ∈ db.jobHistory, i64Min ≤ row.finishedAt) :
    ∃ (limit : Db) (enough : ℕ), Retained cfg now db limit ∧
      ∀ batch : ℤ, 0 < batch →
        (∀ plans : List SweepPlan, enough ≤ plans.length →
          after (sweepAt { cfg with batch } now) db plans = limit) ∧
        ∀ plan, sweepAt { cfg with batch } now limit plan = limit := by
  refine ⟨retained cfg now db, db.sweepable, retained_retained reading stored, ?_⟩
  intro batch positive
  -- the bound has no part in what is retained
  have reached : ∀ plans : List SweepPlan, db.sweepable ≤ plans.length →
      after (sweepAt { cfg with batch } now) db plans = retained cfg now db ∧
        ∀ plan, sweepAt { cfg with batch } now (retained cfg now db) plan = retained cfg now db :=
    fun plans long => after_sweepAt positive long
  constructor
  · intro plans long
    exact (reached plans long).1
  · exact (reached (List.replicate db.sweepable {}) (by simp)).2

/-- Two jobs of one name have completed, and one is to be kept. -/
theorem keepOne_converges :
    (∀ row ∈ (dbAfter .unary {} twiceCompletedRun).jobHistory, i64Min ≤ row.finishedAt) ∧
    ∃ (limit : Db) (enough : ℕ),
      Retained keepOne 0 (dbAfter .unary {} twiceCompletedRun) limit ∧
      ∀ batch : ℤ, 0 < batch →
        (∀ plans : List SweepPlan, enough ≤ plans.length →
          after (sweepAt { keepOne with batch } 0) (dbAfter .unary {} twiceCompletedRun) plans =
            limit) ∧
        ∀ plan, sweepAt { keepOne with batch } 0 limit plan = limit := by
  have stored : ∀ row ∈ (dbAfter .unary {} twiceCompletedRun).jobHistory.rows,
    i64Min ≤ row.finishedAt := by decide +kernel
  exact ⟨stored, retention_converges (by decide) stored⟩

/-- One sweep keeps the job that completed last. -/
example : (sweepAt keepOne 0 (dbAfter .unary {} twiceCompletedRun) {}).jobHistory.rows.map
    HistoryRow.id = [unaryId 1 0] := by decide +kernel

end Convergence

end AnvilMQ
