import AnvilMQ.Ledger.Refinement

/-!
# No job is lost or duplicated

Four places archive a job by copying its row and deleting it, and three insert one.
Whatever order they run in, a job that was ever live stands in exactly one of
`jobs` and `job_history` until a retention sweep deletes its history row.
-/

namespace AnvilMQ

open Rust Relational Transition

/-- The retention sweeps. -/
def Op.IsSweep : Op → Prop
  | sweep _ _ _ => True
  | _ => False

/-- The operations that move jobs to history. -/
def Op.Archives : Op → Prop
  | completeJob _ _ => True
  | failJob _ _ _ => True
  | recoverExpired _ _ => True
  | _ => False

/-! ## The guarantees -/

section Statement

variable (ext : Externals) (service : Service)

/-- The job was live at some point of the run. -/
def Created (run : List Op) (j : JobId) : Prop :=
  ∃ before, before <+: run ∧ (dbAfter ext service before).jobs.Has j

/-- A sweep deletes the history row of the job. -/
def Sweeps (before : List Op) (op : Op) (j : JobId) : Prop :=
  op.IsSweep ∧ (dbAfter ext service before).jobHistory.Has j ∧
    ¬ (dbAfter ext service (before ++ [op])).jobHistory.Has j

/-- A sweep of the run deleted the history row of the job. -/
def SweptAway (run : List Op) (j : JobId) : Prop :=
  ∃ before op, before ++ [op] <+: run ∧ Sweeps ext service before op j

/-- **No job is lost or duplicated**, at one point of a run. -/
structure JobsConserved (run : List Op) : Prop where
  /-- A created job is in exactly one of the tables until it is swept away. -/
  exactlyOne : ∀ j, Created ext service run j → ¬ SweptAway ext service run j →
    Xor ((dbAfter ext service run).jobs.Has j) ((dbAfter ext service run).jobHistory.Has j)
  /-- From then on it is in neither. -/
  sweptAway : ∀ j, SweptAway ext service run j →
    ¬ (dbAfter ext service run).jobs.Has j ∧ ¬ (dbAfter ext service run).jobHistory.Has j
  /-- A row leaves `jobs` only in the operation that inserts its history row. -/
  archived : ∀ op j, (dbAfter ext service run).jobs.Has j →
    ¬ (dbAfter ext service (run ++ [op])).jobs.Has j →
    ¬ (dbAfter ext service run).jobHistory.Has j ∧
      (dbAfter ext service (run ++ [op])).jobHistory.Has j
  /-- A history row does not change, and only a sweep deletes it. -/
  retained : ∀ op j entry, (dbAfter ext service run).jobHistory.find? j = some entry →
    (dbAfter ext service (run ++ [op])).jobHistory.find? j = some entry ∨
      Sweeps ext service run op j
  /-- No archiving `INSERT` finds its id taken. -/
  unconflicted : ∀ op, op.Archives →
    (servedNext ext service run op).2 ≠ .error Db.historyConflict

end Statement

variable {ext : Externals} {service : Service} {run : List Op} {op : Op} {j : JobId}

/-! ## One operation -/

/-- What an operation may do to the tables of jobs: an archiving one writes no
receipt and deletes no history row, and of the others only a sweep deletes any. -/
theorem Op.Emits.cases {db : Db} {e : Event} (emits : op.Emits service db e) :
    (op.Archives ∧ e.registers = none ∧ e.forgets = []) ∨
      (¬ op.Archives ∧ e.retiredId = none ∧ (op.IsSweep ∨ e.forgets = [])) := by
  cases op with
  | completeJob clock req =>
    obtain ⟨row, -, rfl⟩ := emits
    exact .inl ⟨trivial, rfl, rfl⟩
  | failJob clock jittered req =>
    rcases emits with ⟨row, -, rfl | ⟨n, rfl⟩⟩ | ⟨row, entry, n, rfl⟩ <;>
      exact .inl ⟨trivial, rfl, rfl⟩
  | recoverExpired clock batchSize =>
    obtain ⟨row, n, rfl⟩ := emits
    rw [recoveryEvent]
    split <;> exact .inl ⟨trivial, rfl, rfl⟩
  | sweep plan clock cfg =>
    cases e <;> first | exact emits.elim | exact .inr ⟨id, rfl, .inl trivial⟩
  | addFlowMerge clock flow =>
    obtain ⟨tree, target, -, -, merges⟩ := emits
    cases e <;> first | exact merges.elim | exact .inr ⟨id, rfl, .inr rfl⟩
  | getNextJob clock req =>
    obtain ⟨row, rfl⟩ := emits
    exact .inr ⟨id, rfl, .inr rfl⟩
  | heartbeat clock req =>
    obtain ⟨row, lease, -, rfl⟩ := emits
    exact .inr ⟨id, rfl, .inr rfl⟩
  | upsertRateLimitRule clock req => exact emits.elim
  | deleteRateLimitRule facetKey => exact emits.elim
  | _ => cases e <;> first | exact emits.elim | exact .inr ⟨id, rfl, .inr rfl⟩

theorem Op.Archives.not_isSweep (archives : op.Archives) : ¬ op.IsSweep := by
  cases op <;> first | exact archives.elim | exact id

/-- An operation with an event that archives a job is an archiving one. -/
theorem archives_of_retires {e : Event} (mem : e ∈ eventsOf ext service run op ++ [.tick])
    (retired : e.retiredId = some j) : op.Archives := by
  obtain ⟨slot, refines⟩ := eventsOf_refines ext service run op
  rcases List.mem_append.mp mem with here | last
  · rcases (refines.emits e here).cases with ⟨archives, -⟩ | ⟨-, unretired, -⟩
    · exact archives
    · rw [unretired] at retired
      cases retired
  · rw [List.mem_singleton.mp last] at retired
    cases retired

/-- An operation that is no sweep forgets no finished job. -/
theorem forgets_of_unswept (unswept : ¬ op.IsSweep) :
    ∀ e ∈ eventsOf ext service run op ++ [.tick], j ∉ e.forgets := by
  obtain ⟨slot, refines⟩ := eventsOf_refines ext service run op
  intro e mem
  rcases List.mem_append.mp mem with here | last
  · have keepsAll : e.forgets = [] := by
      rcases (refines.emits e here).cases with ⟨-, -, keeps⟩ | ⟨-, -, sweeps | keeps⟩
      · exact keeps
      · exact absurd sweeps unswept
      · exact keeps
    rw [keepsAll]
    exact List.not_mem_nil
  · rw [List.mem_singleton.mp last]
    exact List.not_mem_nil

/-- An operation that writes a receipt is not an archiving one. -/
theorem not_archives_of_registers {e : Event} {receipt : Receipt}
    (mem : e ∈ eventsOf ext service run op ++ [.tick]) (registers : e.registers = some receipt) :
    ¬ op.Archives := by
  obtain ⟨slot, refines⟩ := eventsOf_refines ext service run op
  rcases List.mem_append.mp mem with here | last
  · rcases (refines.emits e here).cases with ⟨-, unregistered, -⟩ | ⟨other, -⟩
    · rw [unregistered] at registers
      cases registers
    · exact other
  · rw [List.mem_singleton.mp last] at registers
    cases registers

/-- What an operation archives is in the history after it. -/
theorem archived_of_retires {e : Event} (mem : e ∈ eventsOf ext service run op ++ [.tick])
    (retired : e.retiredId = some j) :
    (dbAfter ext service (run ++ [op])).jobHistory.Has j := by
  obtain ⟨row, entry, retires, rfl⟩ := Event.retires_of_retiredId retired
  have archived := (sound_after ext service run).archived_of_chain (next_chain ext service run op)
    mem retires (forgets_of_unswept (archives_of_retires mem retired).not_isSweep)
  exact Table.has_iff_find?.mpr ⟨entry, archived⟩

variable (ext service) in
/-- A live job stays live or is archived by the operation. -/
theorem live_after (run : List Op) (op : Op) (live : (dbAfter ext service run).jobs.Has j) :
    (dbAfter ext service (run ++ [op])).jobs.Has j ∨
      (op.Archives ∧ (dbAfter ext service (run ++ [op])).jobHistory.Has j) := by
  rcases Ledger.Sound.live_or_retired_of_chain (next_chain ext service run op) live with
    stays | ⟨e, mem, retired⟩
  · exact .inl stays
  · exact .inr ⟨archives_of_retires mem retired, archived_of_retires mem retired⟩

variable (ext service) in
/-- A history row stays as it is unless the operation is a sweep that deletes it. -/
theorem archived_after (run : List Op) (op : Op) {entry : HistoryRow}
    (found : (dbAfter ext service run).jobHistory.find? j = some entry) :
    (dbAfter ext service (run ++ [op])).jobHistory.find? j = some entry ∨
      Sweeps ext service run op j := by
  have sound := sound_after ext service run
  have chain := next_chain ext service run op
  by_cases sweeps : op.IsSweep
  · rcases Ledger.Sound.archived_or_erased_of_chain chain (sound.historyDrawn found)
      (sound.not_live found) with same | erased
    · exact .inl (same.trans found)
    · exact .inr ⟨sweeps, Table.has_iff_find?.mpr ⟨entry, found⟩, Table.not_has_iff.mpr erased⟩
  · exact .inl (sound.archived_stays_of_chain chain found (forgets_of_unswept sweeps))

/-! ## Runs -/

/-- What a run has swept away a longer run has swept away. -/
theorem SweptAway.append {run : List Op} (swept : SweptAway ext service run j) (more : List Op) :
    SweptAway ext service (run ++ more) j := by
  obtain ⟨before, op, le, sweeps⟩ := swept
  exact ⟨before, op, le.trans (List.prefix_append run more), sweeps⟩

/-- Nothing is swept away in a run without a sweep. -/
theorem not_sweptAway {run : List Op} (unswept : ∀ op ∈ run, ¬ op.IsSweep) (c : JobId) :
    ¬ SweptAway ext service run c := by
  rintro ⟨before, op, le, sweeps, -⟩
  exact unswept op (le.subset (List.mem_append_right _ List.mem_cons_self)) sweeps

variable (ext service) in
/-- What an operation ends only by sweeping the job away, a run ends only so, too. -/
theorem stays_or_sweptAway {P : Db → Prop}
    (stays : ∀ run op, P (dbAfter ext service run) →
      P (dbAfter ext service (run ++ [op])) ∨ Sweeps ext service run op j)
    (run more : List Op) (holds : P (dbAfter ext service run)) :
    P (dbAfter ext service (run ++ more)) ∨ SweptAway ext service (run ++ more) j := by
  induction more using List.reverseRecOn with
  | nil => exact .inl (by rwa [List.append_nil])
  | append_singleton more op ih =>
    rw [← List.append_assoc]
    rcases ih with still | swept
    · exact (stays (run ++ more) op still).imp_right fun sweeps =>
        ⟨run ++ more, op, List.prefix_rfl, sweeps⟩
    · exact .inr (swept.append [op])

variable (ext service) in
/-- A history row stays as it is until a sweep deletes it. -/
theorem archived_or_sweptAway (run more : List Op) {entry : HistoryRow}
    (found : (dbAfter ext service run).jobHistory.find? j = some entry) :
    (dbAfter ext service (run ++ more)).jobHistory.find? j = some entry ∨
      SweptAway ext service (run ++ more) j :=
  stays_or_sweptAway (P := fun db => db.jobHistory.find? j = some entry) ext service
    (fun run op => archived_after ext service run op) run more found

variable (ext service) in
/-- A job that is in one of the tables stays in one of them, unless the operation sweeps it
away. -/
theorem known_after (run : List Op) (op : Op)
    (known : (dbAfter ext service run).jobs.Has j ∨ (dbAfter ext service run).jobHistory.Has j) :
    ((dbAfter ext service (run ++ [op])).jobs.Has j ∨
      (dbAfter ext service (run ++ [op])).jobHistory.Has j) ∨ Sweeps ext service run op j := by
  rcases known with live | done
  · exact .inl ((live_after ext service run op live).imp_right And.right)
  · obtain ⟨entry, found⟩ := Table.has_iff_find?.mp done
    refine (archived_after ext service run op found).imp_left fun kept => .inr ?_
    exact Table.has_iff_find?.mpr ⟨entry, kept⟩

variable (ext service) in
/-- A created job is in one of the tables or has been swept away. -/
theorem known_or_sweptAway (run : List Op) (created : Created ext service run j) :
    ((dbAfter ext service run).jobs.Has j ∨ (dbAfter ext service run).jobHistory.Has j) ∨
      SweptAway ext service run j := by
  obtain ⟨before, ⟨more, rfl⟩, live⟩ := created
  exact stays_or_sweptAway (P := fun db => db.jobs.Has j ∨ db.jobHistory.Has j) ext service
    (fun run op => known_after ext service run op) before more (.inl live)

variable (ext service) in
/-- What has been swept away does not come back. -/
theorem sweptAway_stays (run : List Op) (swept : SweptAway ext service run j) :
    ¬ (dbAfter ext service run).jobs.Has j ∧ ¬ (dbAfter ext service run).jobHistory.Has j := by
  obtain ⟨before, op, ⟨more, rfl⟩, -, done, deleted⟩ := swept
  obtain ⟨entry, found⟩ := Table.has_iff_find?.mp done
  have sound := sound_after ext service before
  obtain ⟨events, -, first⟩ := history_append ext service before [op]
  obtain ⟨events', -, rest⟩ := history_append ext service (before ++ [op]) more
  have drawn := Ledger.Drawn.of_chain first (sound.historyDrawn found)
  have gone := Ledger.Sound.gone_of_chain first (sound.historyDrawn found) (sound.not_live found)
  constructor
  · exact Table.not_has_iff.mpr (Ledger.Sound.gone_of_chain rest drawn gone)
  · have erased : (dbAfter ext service (before ++ [op])).jobHistory.find? j = none :=
      Table.not_has_iff.mp deleted
    rcases Ledger.Sound.archived_or_erased_of_chain rest drawn gone with same | forgotten
    · exact Table.not_has_iff.mpr (same.trans erased)
    · exact Table.not_has_iff.mpr forgotten

/-! ## Conflicts -/

/-- An acknowledgment of an archived job meets no conflict in the archive. -/
theorem acknowledgeArchived_unconflicted (db : Db) (id workerId : String) (attempt : ℕ)
    (failed : Bool) :
    acknowledgeArchived db id workerId attempt failed ≠ .error Db.historyConflict := by
  rw [acknowledgeArchived]
  intro conflict
  cases found : db.jobHistory.find? id with
  | none =>
    rw [found] at conflict
    cases conflict
  | some entry =>
    simp only [found] at conflict
    split at conflict <;> cases conflict

theorem checkClaim_unconflicted (row : JobRow) (workerId : String) (attempt : ℕ) (now : ℤ) :
    checkClaim row workerId attempt now ≠ .error Db.historyConflict := by
  intro conflict
  rw [checkClaim] at conflict
  split_ifs at conflict <;> cases conflict

/-- An acknowledgment is never answered with a conflict: the checks of the claim
have other answers, and what passes them is settled. -/
theorem finishJob_unconflicted {db : Db} (disjoint : db.Disjoint) (clock : Clock) (jittered : ℤ)
    (id workerId : String) (attempt : ℕ) (ack : Acknowledgment) :
    finishJob clock jittered db id workerId attempt ack ≠ .error Db.historyConflict := by
  intro conflict
  rw [finishJob] at conflict
  split at conflict
  · cases conflict
  cases found : db.jobs.find? id with
  | none =>
    simp only [found] at conflict
    rcases bind_eq_error.mp conflict with refused | ⟨_, -, conflict⟩
    · exact acknowledgeArchived_unconflicted _ _ _ _ _ refused
    · cases conflict
  | some row =>
    simp only [found] at conflict
    rcases bind_eq_error.mp conflict with refused | ⟨_, -, conflict⟩
    · exact checkClaim_unconflicted _ _ _ _ refused
    · have live : db.jobs.find? row.id = some row := by rwa [Table.key_of_find? found]
      obtain ⟨outcome, settled⟩ := settle_of_disjoint disjoint live ack
      cases settled.symm.trans conflict

variable (ext service) in
/-- An operation that archives is never answered with a conflict. -/
theorem archives_unconflicted (run : List Op) (archives : op.Archives) :
    (servedNext ext service run op).2 ≠ .error Db.historyConflict := by
  have disjoint := (sound_after ext service run).db_disjoint
  intro conflict
  cases op with
  | completeJob clock req =>
    have refused := transact_error.mp conflict
    rw [completeJob] at refused
    split at refused
    · cases refused
    rcases bind_eq_error.mp refused with finished | ⟨_, -, conflict⟩
    · exact finishJob_unconflicted disjoint _ _ _ _ _ _ finished
    · cases conflict
  | failJob clock jittered req =>
    exact finishJob_unconflicted disjoint _ _ _ _ _ _ (transact_error.mp conflict)
  | recoverExpired clock batchSize =>
    rcases bind_eq_error.mp (transact_error.mp conflict) with recovered | ⟨_, -, conflict⟩
    · obtain ⟨outcome, ok⟩ := recoverAll_of_disjoint disjoint (selectExpired_batch _ _ _)
      cases ok.symm.trans recovered
    · cases conflict
  | _ => exact archives.elim

variable (ext service) in
/-- **No job is lost or duplicated in any run.** -/
theorem jobs_conserved (run : List Op) : JobsConserved ext service run where
  exactlyOne := by
    intro j created kept
    have disjoint := (sound_after ext service run).db_disjoint
    rcases (known_or_sweptAway ext service run created).resolve_right kept with live | done
    · exact .inl ⟨live, disjoint j live⟩
    · exact .inr ⟨done, fun live => disjoint j live done⟩
  sweptAway := fun j => sweptAway_stays ext service run
  archived := by
    intro op j live gone
    exact ⟨(sound_after ext service run).db_disjoint j live,
      ((live_after ext service run op live).resolve_left gone).2⟩
  retained := fun op j entry => archived_after ext service run op
  unconflicted := fun op => archives_unconflicted ext service run

end AnvilMQ
