import AnvilMQ.Properties.Fencing

/-!
# Recovery works off what has expired

`recover_expired` takes back a bounded number of expired claims at a time.  Repeated at one
reading of the clock it works off all of them, whatever the sizes of the batches: no sweep
fails, every expired claim is taken back exactly once, the counts it answers with add up, and
no other job is moved.
-/

namespace AnvilMQ

open Rust Relational Transition

/-- The number of claims whose lease has run out at `now`. -/
def Db.expired (db : Db) (now : ℤ) : ℕ := db.jobs.count (leaseExpired now)

/-- **What becomes of an expired claim**: the job is back in the queue without an owner, or,
when its attempts are used up, it is archived as failed. -/
def TakenBack (now : ℤ) (row : JobRow) (db : Db) : Prop :=
  if row.attempts < row.maxAttempts then
    db.jobs.find? row.id = some (row.requeued (Db.restingState (expiredRetryDelay row))
      (saturatingAdd now (expiredRetryDelay row)) "Worker lease expired" now)
  else db.jobs.find? row.id = none ∧ db.jobHistory.find? row.id = some (row.toExpiredHistory now)

/-- The sweeps of `recover_expired`, each with its clock and its batch size. -/
def recoveries (sweeps : List (Clock × ℕ)) : List Op :=
  sweeps.map fun sweep => .recoverExpired sweep.1 sweep.2

/-- How many claims a sweep answers to have taken back. -/
def recoveredShown (ext : Externals) (service : Service) (run : List Op) (op : Op) : List ℕ :=
  match replyTo ext service run op with
  | some (.recovered n) => [n]
  | _ => []

/-- **What a list of sweeps after a run has achieved**, of the claims expired before. -/
structure RecoveryProgress (ext : Externals) (service : Service) (run : List Op) (now : ℤ)
    (sweeps : List (Clock × ℕ)) : Prop where
  /-- Every sweep is answered. -/
  answered : (collect (recoveredShown ext service) run (recoveries sweeps)).length = sweeps.length
  /-- The claims left are those beyond the batches. -/
  left : (dbAfter ext service (run ++ recoveries sweeps)).expired now =
    (dbAfter ext service run).expired now - (sweeps.map Prod.snd).sum
  /-- The answers count every claim once. -/
  counted : (collect (recoveredShown ext service) run (recoveries sweeps)).sum =
    min ((dbAfter ext service run).expired now) (sweeps.map Prod.snd).sum
  /-- A job without an expired claim is not moved. -/
  spared : ∀ row ∈ (dbAfter ext service run).jobs, leaseExpired now row = false →
    (dbAfter ext service (run ++ recoveries sweeps)).jobs.find? row.id = some row
  /-- An expired claim is taken back or waits for its turn. -/
  taken : ∀ row ∈ (dbAfter ext service run).jobs, leaseExpired now row = true →
    TakenBack now row (dbAfter ext service (run ++ recoveries sweeps)) ∨
      (dbAfter ext service (run ++ recoveries sweeps)).jobs.find? row.id = some row
  /-- None waits once the batches add up to all of them. -/
  finished : (dbAfter ext service run).expired now ≤ (sweeps.map Prod.snd).sum →
    ∀ row ∈ (dbAfter ext service run).jobs, leaseExpired now row = true →
      TakenBack now row (dbAfter ext service (run ++ recoveries sweeps))

/-! ## One claim -/

section Database

variable {db db' db'' : Db} {now : ℤ} {row : JobRow}

/-- The books say the same of a job. -/
def SameJob (db db' : Db) (j : JobId) : Prop :=
  db'.jobs.find? j = db.jobs.find? j ∧ db'.jobHistory.find? j = db.jobHistory.find? j

/-- What a sweep makes of the jobs: those it moves had an expired claim. -/
def Recovers (now : ℤ) (db db' : Db) : Prop :=
  ∀ j, SameJob db db' j ∨
    ∃ row, db.jobs.find? j = some row ∧ leaseExpired now row = true ∧ TakenBack now row db'

theorem SameJob.refl (db : Db) (j : JobId) : SameJob db db j := ⟨rfl, rfl⟩

theorem SameJob.trans {j : JobId} (first : SameJob db db' j) (second : SameJob db' db'' j) :
    SameJob db db'' j :=
  ⟨second.1.trans first.1, second.2.trans first.2⟩

theorem TakenBack.of_same (taken : TakenBack now row db) (same : SameJob db db' row.id) :
    TakenBack now row db' := by
  unfold TakenBack at taken ⊢
  rwa [same.1, same.2]

/-- A job that was taken back has no claim to take back. -/
theorem TakenBack.not_expired (taken : TakenBack now row db) {found : JobRow}
    (live : db.jobs.find? row.id = some found) : leaseExpired now found = false := by
  unfold TakenBack at taken
  split at taken
  · cases live.symm.trans taken
    simp [leaseExpired, JobRow.requeued]
  · cases live.symm.trans taken.1

/-- A job that goes back to the queue is one expired claim less. -/
theorem requeue_expired {delay availableAt updatedAt : ℤ} {lastError : String}
    (found : db.jobs.find? row.id = some row) (expired : leaseExpired now row = true) :
    (db.requeue row.id (Db.restingState delay) availableAt lastError updatedAt).jobs.count
      (leaseExpired now) + 1 = db.jobs.count (leaseExpired now) := by
  have counted := @Table.count_modify _ _ _ _ _ db.jobs (leaseExpired now) _
    (·.requeued (Db.restingState delay) availableAt lastError updatedAt) (fun _ => rfl) found
  rwa [if_pos expired, if_neg (by simp [leaseExpired, JobRow.requeued])] at counted

/-- A round takes its claim back and leaves every other job alone. -/
theorem recoverOne_takes {n : ℕ} (found : db.jobs.find? row.id = some row)
    (expired : leaseExpired now row = true) (ok : recoverOne now db row = .ok (db', n)) :
    TakenBack now row db' ∧ (∀ j, j ≠ row.id → SameJob db db' j) ∧
      db'.expired now + 1 = db.expired now := by
  rw [recoverOne] at ok
  unfold TakenBack Db.expired
  split at ok
  · rename_i again
    simp only [Except.ok.injEq, Prod.mk.injEq] at ok
    obtain ⟨rfl, -⟩ := ok
    rw [if_pos again]
    refine ⟨?_, fun j other => ⟨?_, rfl⟩, ?_⟩
    · rw [Db.requeue, Table.find?_modify, if_pos rfl, found]
      rfl
    · rw [Db.requeue, Table.find?_modify, if_neg other]
    · rw [← requeue_expired found expired]
  · rename_i exhausted
    rw [if_neg exhausted]
    obtain ⟨history, inserted, -, rfl⟩ := archive_ok found ok
    refine ⟨⟨?_, ?_⟩, fun j other => ⟨?_, ?_⟩, ?_⟩
    · rw [Table.find?_erase, if_pos rfl]
    · rw [Table.find?_of_insert inserted]
      exact if_pos rfl
    · rw [Table.find?_erase, if_neg other]
    · rw [Table.find?_of_insert inserted]
      exact if_neg other
    · have counted := Table.count_erase (p := leaseExpired now) found
      rwa [if_pos expired] at counted

/-! ## One batch -/

/-- The loop takes back the claims it was given and leaves every other job alone. -/
theorem recoverAll_takes {rows : List JobRow} {released total : ℕ} (batch : Batch db rows)
    (expired : ∀ row ∈ rows, leaseExpired now row = true)
    (ok : recoverAll now db released rows = .ok (db', total)) :
    (∀ row ∈ rows, TakenBack now row db') ∧ (∀ j, (∀ row ∈ rows, row.id ≠ j) → SameJob db db' j) ∧
      db'.expired now + rows.length = db.expired now := by
  induction rows generalizing db released with
  | nil =>
    simp only [recoverAll, Except.ok.injEq, Prod.mk.injEq] at ok
    obtain ⟨rfl, -⟩ := ok
    exact ⟨List.forall_mem_nil _, fun j _ => .refl _ j, Nat.add_zero _⟩
  | cons row rest ih =>
    simp only [recoverAll, bind_eq_ok] at ok
    obtain ⟨⟨db₁, n⟩, first, later⟩ := ok
    obtain ⟨taken, others, less⟩ := recoverOne_takes (batch.found row List.mem_cons_self)
      (expired row List.mem_cons_self) first
    obtain ⟨takenLater, othersLater, lessLater⟩ := ih (batch.tail first)
      (fun other mem => expired other (List.mem_cons_of_mem _ mem)) later
    have nodup := batch.nodup
    rw [List.map_cons, List.nodup_cons] at nodup
    refine ⟨?_, fun j spared => ?_, ?_⟩
    · intro other mem
      rcases List.mem_cons.mp mem with rfl | inRest
      · refine taken.of_same (othersLater _ fun later mem same => ?_)
        exact nodup.1 (same ▸ List.mem_map_of_mem mem)
      · exact takenLater other inRest
    · exact (others j (spared row List.mem_cons_self).symm).trans
        (othersLater j fun other mem => spared other (List.mem_cons_of_mem _ mem))
    · rw [List.length_cons]
      omega

theorem length_selectExpired (db : Db) (now : ℤ) (batchSize : ℕ) :
    (selectExpired db now batchSize).length = min batchSize (db.expired now) := by
  rw [selectExpired, List.length_take, List.length_insertionSort, Db.expired, Table.count,
    List.countP_eq_length_filter]

theorem expired_of_mem_selectExpired {db : Db} {now : ℤ} {batchSize : ℕ} {row : JobRow}
    (mem : row ∈ selectExpired db now batchSize) :
    row ∈ db.jobs ∧ leaseExpired now row = true := by
  have sorted := List.mem_of_mem_take mem
  rw [List.mem_insertionSort] at sorted
  exact List.mem_filter.mp sorted

/-- **What one sweep does.**  It never fails, takes back as many claims as fit into the batch
and leaves every other job alone. -/
theorem recoverExpired_takes (disjoint : db.Disjoint) (clock : Clock) (batchSize : ℕ) :
    ∃ db' calls, recoverExpired clock db batchSize =
        .ok (min batchSize (db.expired (clock 0)), db', calls) ∧
      db'.expired (clock 0) = db.expired (clock 0) - batchSize ∧
      Recovers (clock 0) db db' := by
  have batch := selectExpired_batch db (clock 0) batchSize
  obtain ⟨⟨db', released⟩, recovered⟩ : ∃ outcome, recoverAll (clock 0) db 0
      (selectExpired db (clock 0) batchSize) = .ok outcome := recoverAll_of_disjoint disjoint batch
  obtain ⟨taken, others, less⟩ := recoverAll_takes batch
    (fun row mem => (expired_of_mem_selectExpired mem).2) recovered
  rw [length_selectExpired] at less
  refine ⟨db', .dedupReleased released :: (selectExpired db (clock 0) batchSize).map fun row =>
    .transition (some .active) (recoveredLabel row), ?_, by omega, fun j => ?_⟩
  · rw [recoverExpired, recovered, ← length_selectExpired]
    rfl
  · by_cases selected : ∃ row ∈ selectExpired db (clock 0) batchSize, row.id = j
    · obtain ⟨row, mem, rfl⟩ := selected
      exact .inr ⟨row, batch.found row mem, (expired_of_mem_selectExpired mem).2, taken row mem⟩
    · exact .inl (others j fun row mem same => selected ⟨row, mem, same⟩)

end Database

/-! ## Any number of batches -/

variable {ext : Externals} {service : Service} {run : List Op} {now : ℤ}

theorem recoveries_concat (sweeps : List (Clock × ℕ)) (sweep : Clock × ℕ) :
    recoveries (sweeps ++ [sweep]) = recoveries sweeps ++ [.recoverExpired sweep.1 sweep.2] := by
  simp [recoveries]

/-- What a sweep after a run answers, and what it does. -/
theorem served_recovery (run : List Op) (clock : Clock) (batchSize : ℕ) :
    replyTo ext service run (.recoverExpired clock batchSize) =
        some (.recovered (min batchSize ((dbAfter ext service run).expired (clock 0)))) ∧
      (dbAfter ext service (run ++ [.recoverExpired clock batchSize])).expired (clock 0) =
        (dbAfter ext service run).expired (clock 0) - batchSize ∧
      Recovers (clock 0) (dbAfter ext service run)
        (dbAfter ext service (run ++ [.recoverExpired clock batchSize])) := by
  obtain ⟨db', calls, ok, left, jobs⟩ :=
    recoverExpired_takes (sound_after ext service run).db_disjoint clock batchSize
  obtain ⟨replied, after⟩ :=
    replied_of_transact ext service run (.recoverExpired clock batchSize) rfl ok
  rw [after]
  exact ⟨replied, left, jobs⟩

/-- A claim that was taken back stays so through the next sweep. -/
theorem TakenBack.stays {db db' : Db} {row : JobRow} (taken : TakenBack now row db)
    (jobs : Recovers now db db') : TakenBack now row db' := by
  rcases jobs row.id with same | ⟨other, live, expired, -⟩
  · exact taken.of_same same
  · rw [taken.not_expired live] at expired
    cases expired

/-- When no expired claim is left, none waits for its turn. -/
theorem taken_of_none_left {db : Db} {row : JobRow} (noneLeft : db.expired now = 0)
    (expired : leaseExpired now row = true)
    (taken : TakenBack now row db ∨ db.jobs.find? row.id = some row) : TakenBack now row db := by
  refine taken.resolve_right fun live => ?_
  have idle := List.countP_eq_zero.mp noneLeft row (Table.mem_of_find? live)
  exact idle expired

/-- **Recovery works off what has expired.** -/
theorem recovery_converges {sweeps : List (Clock × ℕ)}
    (reads : ∀ sweep ∈ sweeps, sweep.1 0 = now) :
    RecoveryProgress ext service run now sweeps := by
  -- the batches one after the other, from the first to the last
  induction sweeps using List.reverseRecOn with
  | nil =>
    have start : run ++ recoveries [] = run := List.append_nil run
    refine ⟨rfl, by rw [start]; rfl, (Nat.min_zero _).symm, ?_, ?_, ?_⟩
    · rw [start]
      exact fun row mem _ => Table.find?_of_mem mem
    · rw [start]
      exact fun row mem _ => .inr (Table.find?_of_mem mem)
    · rw [start]
      intro few row mem expired
      exact taken_of_none_left (Nat.le_zero.mp few) expired (.inr (Table.find?_of_mem mem))
  | append_singleton sweeps sweep ih =>
    obtain ⟨answered, left, counted, spared, taken, -⟩ :=
      ih fun other mem => reads other (List.mem_append_left _ mem)
    have reading := reads sweep (List.mem_append_right _ (List.mem_singleton.mpr rfl))
    obtain ⟨reply, less, jobs⟩ := @served_recovery ext service (run ++ recoveries sweeps) sweep.1
      sweep.2
    rw [reading] at reply less jobs
    rw [left] at reply less
    have shown : recoveredShown ext service (run ++ recoveries sweeps)
        (.recoverExpired sweep.1 sweep.2) =
        [min sweep.2 ((dbAfter ext service run).expired now - (sweeps.map Prod.snd).sum)] := by
      rw [recoveredShown, reply]
    have total : ((sweeps ++ [sweep]).map Prod.snd).sum =
        (sweeps.map Prod.snd).sum + sweep.2 := by simp
    have takenNow : ∀ row ∈ (dbAfter ext service run).jobs, leaseExpired now row = true →
        TakenBack now row (dbAfter ext service (run ++ recoveries (sweeps ++ [sweep]))) ∨
          (dbAfter ext service (run ++ recoveries (sweeps ++ [sweep]))).jobs.find? row.id =
            some row := by
      rw [recoveries_concat, ← List.append_assoc]
      intro row mem expired
      rcases taken row mem expired with earlier | waits
      · exact .inl (earlier.stays jobs)
      · rcases jobs row.id with same | ⟨other, live, -, here⟩
        · exact .inr (same.1.trans waits)
        · cases waits.symm.trans live
          exact .inl here
    have leftNow : (dbAfter ext service (run ++ recoveries (sweeps ++ [sweep]))).expired now =
        (dbAfter ext service run).expired now - ((sweeps ++ [sweep]).map Prod.snd).sum := by
      rw [recoveries_concat, ← List.append_assoc, less, total]
      omega
    refine ⟨?_, leftNow, ?_, ?_, takenNow, ?_⟩
    · rw [recoveries_concat, collect_concat, shown, List.length_append, answered]
      simp
    · rw [recoveries_concat, collect_concat, shown, List.sum_append, counted, total]
      simp only [List.sum_cons, List.sum_nil]
      omega
    · rw [recoveries_concat, ← List.append_assoc]
      intro row mem idle
      have waits := spared row mem idle
      rcases jobs row.id with same | ⟨other, live, expired, -⟩
      · exact same.1.trans waits
      · cases waits.symm.trans live
        rw [idle] at expired
        cases expired
    · intro enough row mem expired
      exact taken_of_none_left (by omega) expired (takenNow row mem expired)

/-- Two jobs are claimed, one of them for its last attempt. -/
def twoClaimed : List Op :=
  [.addJob stopped { name := "a", maxAttempts := 1 },
    .addJob stopped { name := "b", maxAttempts := 2 }, poll "a", poll "b"]

/-- Both claims have expired, and are worked off one at a time. -/
theorem two_expired_recovered : (dbAfter .unary {} twoClaimed).expired 30000 = 2 ∧
    RecoveryProgress .unary {} twoClaimed 30000 [(fun _ => 30000, 1), (fun _ => 30000, 1)] := by
  refine ⟨by decide +kernel, recovery_converges fun sweep mem => ?_⟩
  rcases List.mem_cons.mp mem with rfl | later
  · rfl
  · rw [List.mem_singleton.mp later]

end AnvilMQ
