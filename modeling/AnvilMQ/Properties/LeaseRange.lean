import AnvilMQ.Broker
import AnvilMQ.Ledger.Lifecycle

/-!
# Leases and the range of a machine integer

A claim and a heartbeat add the configured lease duration to the time of the server with an
unchecked addition.  The parser of the setting has a lower bound and no upper bound, so the sum
may leave the range of a 64-bit integer; it then wraps around to a time long past, and the
recovery sweep takes the fresh claim back at once.
-/

namespace AnvilMQ

open Rust Relational

/-- **Leases extend into the future**, at a duration and a time of the server. -/
structure LeasesExtend (duration now : ℤ) : Prop where
  /-- A claim stores the sum, which lies ahead, and the sweep does not take it back at the same
  instant. -/
  claimed : ∀ {service clock db req job db' calls}, service.leaseDurationMs = duration →
    clock 1 = now → getNextJob service clock db req = .ok (some job, db', calls) →
    job.leaseExpiresAtMs = now + duration ∧ now < job.leaseExpiresAtMs ∧
      ∃ row, db'.jobs.find? job.id = some row ∧ row.leaseExpiresAtMs = some job.leaseExpiresAtMs ∧
        ∀ batchSize, row ∉ selectExpired db' now batchSize
  /-- A heartbeat stores a lease that is neither before the previous one nor before the sum. -/
  renewed : ∀ {service clock db req expiry db' row lease}, service.leaseDurationMs = duration →
    clock 0 = now → renewLease service clock db req = .ok (expiry, db') →
    db.jobs.find? req.id = some row → row.leaseExpiresAtMs = some lease →
    lease ≤ expiry ∧ now + duration ≤ expiry ∧
      ∃ row', db'.jobs.find? req.id = some row' ∧ row'.leaseExpiresAtMs = some expiry ∧
        ∀ batchSize, row' ∉ selectExpired db' now batchSize
  /-- The addition does not overflow. -/
  exact : wrappingAdd now duration = now + duration

/-! ## The addition -/

section Addition

variable {a b : ℤ}

/-- A sum in range is exact. -/
theorem wrappingAdd_of_fits (small : i64Min ≤ a + b) (large : a + b ≤ i64Max) :
    wrappingAdd a b = a + b := by
  unfold i64Min at small
  unfold i64Max at large
  rw [wrappingAdd, Int.bmod_def]
  omega

/-- A sum of two numbers that is above the range wraps below zero. -/
theorem wrappingAdd_of_overflows (left : a ≤ i64Max) (right : b ≤ i64Max)
    (overflows : i64Max < a + b) : wrappingAdd a b < 0 := by
  unfold i64Max at *
  rw [wrappingAdd, Int.bmod_def]
  omega

end Addition

/-! ## Accepted durations -/

/-- What the parser accepts is at least a second and a 64-bit integer. -/
theorem parseLeaseDurationMs_ok {raw : Option String} {duration : ℤ}
    (accepted : parseLeaseDurationMs raw = .ok duration) :
    minLeaseDurationMs ≤ duration ∧ duration ≤ i64Max := by
  cases raw with
  | none =>
    cases accepted
    decide
  | some value =>
    simp only [parseLeaseDurationMs] at accepted
    split at accepted
    · cases accepted
    · rename_i parsed ok
      obtain ⟨long, same⟩ := guard_eq_ok.mp accepted
      cases same
      exact ⟨not_lt.mp long, parseI64_le ok⟩

/-! ## Leases in range -/

section Range

variable {service : Service} {clock : Clock} {db db' : Db} {duration now : ℤ}

/-- A lease that lies ahead is not selected by the sweep. -/
theorem not_mem_selectExpired {row : JobRow} {lease : ℤ}
    (leased : row.leaseExpiresAtMs = some lease) (ahead : now < lease) (batchSize : ℕ) :
    row ∉ selectExpired db now batchSize := by
  intro mem
  have expired := (List.mem_filter.mp ((List.mem_insertionSort _).mp (List.mem_of_mem_take mem))).2
  simp only [leaseExpired, leased, Option.any_some, Bool.and_eq_true, decide_eq_true_eq] at expired
  exact absurd expired.2 (not_le.mpr ahead)

/-- The row of the job a poll leases. -/
theorem jobs_find?_leaseTo {row : JobRow} (live : db.jobs.find? row.id = some row)
    (workerId : String) (now later : ℤ) :
    (leaseTo service (consume db row now) row workerId later).jobs.find? row.id =
      some (row.leased workerId later (wrappingAdd later service.leaseDurationMs)) := by
  have consumed : (consume db row now).jobs = db.jobs := by
    unfold consume
    split <;> rfl
  have leased : ((consume db row now).jobs.modify row.id
      (fun row => row.leased workerId later (wrappingAdd later service.leaseDurationMs))
      fun _ => rfl).find? row.id =
        some (row.leased workerId later (wrappingAdd later service.leaseDurationMs)) := by
    refine (Table.find?_modify _).trans ?_
    rw [if_pos rfl, consumed, live]
    rfl
  unfold leaseTo
  split <;> exact leased

/-- The row a claim leaves carries the lease of the answer. -/
theorem find?_of_getNextJob {req : GetNextJobRequest} {job : ClaimedJob} {calls : List MetricCall}
    (ok : getNextJob service clock db req = .ok (some job, db', calls)) :
    job.leaseExpiresAtMs = wrappingAdd (clock 1) service.leaseDurationMs ∧
      ∃ row, db'.jobs.find? job.id = some row ∧
        row.leaseExpiresAtMs = some job.leaseExpiresAtMs := by
  rcases getNextJob_cases ok with ⟨never, -, -⟩ | ⟨row, selected, -, same, -, rfl⟩
  · cases never
  · cases same
    exact ⟨rfl, _, jobs_find?_leaseTo (selectNext_some selected).1 _ _ _, rfl⟩

/-- **In range, leases extend into the future.** -/
theorem leasesExtend_of_fits (positive : 0 < duration) (started : 0 ≤ now)
    (fits : now + duration ≤ i64Max) : LeasesExtend duration now := by
  have small : i64Min ≤ now + duration := by
    unfold i64Min
    omega
  have exact := wrappingAdd_of_fits small fits
  constructor
  case claimed =>
    rintro service clock db req job db' calls rfl rfl ok
    obtain ⟨lease, row, found, leased⟩ := find?_of_getNextJob ok
    have ahead : clock 1 < job.leaseExpiresAtMs := by omega
    exact ⟨lease.trans exact, ahead, row, found, leased, not_mem_selectExpired leased ahead⟩
  case renewed =>
    rintro service clock db req expiry db' row lease rfl rfl ok found leased
    obtain ⟨row', lease', found', -, -, -, -, leased', -, extended, rfl⟩ := renewLease_ok ok
    cases found.symm.trans found'
    cases leased.symm.trans leased'
    rw [exact] at extended
    have ahead : clock 0 < expiry := by omega
    refine ⟨by omega, by omega, { row with leaseExpiresAtMs := some expiry, updatedAt := clock 0 },
      ?_, rfl, not_mem_selectExpired rfl ahead⟩
    unfold leaseRenewed
    rw [Table.find?_modify, if_pos rfl, found]
    rfl
  case exact => exact exact

end Range

/-- **An accepted lease duration extends into the future exactly where its sum with the time of
the server is in range.** -/
theorem leases_extend_iff {raw : Option String} {duration now : ℤ}
    (accepted : parseLeaseDurationMs raw = .ok duration) (started : 0 ≤ now)
    (reads : now ≤ i64Max) : LeasesExtend duration now ↔ now + duration ≤ i64Max := by
  obtain ⟨long, fits⟩ := parseLeaseDurationMs_ok accepted
  have positive : 0 < duration := (by decide : 0 < minLeaseDurationMs).trans_le long
  constructor
  · intro extend
    by_contra overflows
    have wrapped := wrappingAdd_of_overflows reads fits (not_le.mp overflows)
    rw [extend.exact] at wrapped
    omega
  · exact leasesExtend_of_fits positive started

/-- The default duration extends into the future at the time of the server. -/
theorem default_lease_extends : LeasesExtend 30000 1700000000000 :=
  (leases_extend_iff (show parseLeaseDurationMs none = .ok 30000 from rfl) (by decide)
    (by decide)).mpr (by decide)

/-- The settings of a broker started with the longest lease duration. -/
def longestLease : Service := { leaseDurationMs := 9223372036854775807 }

/-- A job is enqueued and claimed at time one, and the sweep runs at the same instant. -/
def longestLeaseRun : List Op :=
  [.addJob (fun _ => 1) { name := "a", payload := [] },
    .getNextJob (fun _ => 1) { workerId := "w", queueNames := ["a"] },
    .recoverExpired (fun _ => 1) 100]

/-- **The longest lease expires at once**: the parser accepts it, the claim is stored with the
earliest time a 64-bit integer can hold, and the sweep at the same instant requeues the job. -/
theorem longest_lease_expires_at_once :
    parseLeaseDurationMs (some "9223372036854775807") = .ok longestLease.leaseDurationMs ∧
      (((dbAfter .unary longestLease (longestLeaseRun.take 2)).jobs.find? (unaryId 0 0)).map
        fun row => (row.state, row.leaseExpiresAtMs)) = some (.active, some i64Min) ∧
      (((dbAfter .unary longestLease longestLeaseRun).jobs.find? (unaryId 0 0)).map
        fun row => (row.state, row.lastError)) = some (.waiting, some "Worker lease expired") ∧
      ¬ LeasesExtend longestLease.leaseDurationMs 1 := by
  refine ⟨by decide +kernel, by decide +kernel, by decide +kernel, fun extend => ?_⟩
  exact absurd extend.exact (by decide)

end AnvilMQ
