import AnvilMQ.Finish
import AnvilMQ.Leases
import Mathlib.Tactic.Linarith
import Mathlib.Tactic.Positivity

/-!
# Retry backoff

`retry_delay` multiplies by a power of two with a shift that may exceed the word, and each way
the shift and the product can go wrong has a mechanism of its own: `checked_shl` gives nothing,
the sign bit is filtered out, the product saturates.  All of them end at or above the cap, where
the minimum takes over, so the delay is the one of unbounded arithmetic.
-/

namespace AnvilMQ

open Rust Relational

/-- The delay after attempt `n` in unbounded integers: the base doubled with every attempt
after the first, up to the cap. -/
def exactBackoff (base cap : ℤ) (n : ℕ) : ℤ := min (base * 2 ^ (max n 1 - 1)) cap

/-- The row of a job is available no earlier than `now`. -/
def JobRow.AvailableFrom (row : JobRow) (now : ℤ) : Prop :=
  ∃ at_, row.availableAt = some at_ ∧ now ≤ at_

/-- **The guarantee for a base and a cap.** -/
structure BackoffExact (base cap : ℤ) : Prop where
  /-- The delay is the one of unbounded arithmetic. -/
  exact : ∀ n, retryDelay base cap n = exactBackoff base cap n
  /-- A later attempt does not wait less. -/
  mono : ∀ {n m}, n ≤ m → retryDelay base cap n ≤ retryDelay base cap m
  /-- The delay is between the base and the cap. -/
  within : ∀ n, base ≤ retryDelay base cap n ∧ retryDelay base cap n ≤ cap
  /-- The time of the retry is not before `now`. -/
  later : ∀ n now, now ≤ i64Max → now ≤ saturatingAdd now (retryDelay base cap n)
  /-- A job that is taken back from a worker is not available before `now`. -/
  recovered : ∀ {now db db' n row found}, now ≤ i64Max → row.retryBackoffMs = base →
    row.retryBackoffMaxMs = cap → row.attempts < row.maxAttempts →
    recoverOne now db row = .ok (db', n) → db'.jobs.find? row.id = some found →
    found.AvailableFrom now
  /-- A job that is tried again after a failure is not available before the time of the
  failure, whatever its jitter. -/
  retried : ∀ {clock jittered db row error found}, clock 0 ≤ i64Max →
    row.retryBackoffMs = base → row.retryBackoffMaxMs = cap →
    (finishRetry clock jittered db row error).1.jobs.find? row.id = some found →
    found.AvailableFrom (clock 0)

/-! ## The delay -/

section Delay

variable {base cap : ℤ} {n m : ℕ}

/-- The multiplier of the backoff is the power of two where it fits. -/
theorem multiplier_of_lt {shift : ℕ} (small : shift < 63) :
    ((checkedShlOne shift).filter fun v => decide (0 < v)).getD i64Max = 2 ^ shift := by
  have positive : (0 : ℤ) < 2 ^ shift := by positivity
  unfold checkedShlOne
  rw [if_pos small, Option.filter_some, if_pos (by exact decide_eq_true positive)]
  rfl

/-- From the sign bit on, the multiplier is the largest integer. -/
theorem multiplier_of_le {shift : ℕ} (large : 63 ≤ shift) :
    ((checkedShlOne shift).filter fun v => decide (0 < v)).getD i64Max = i64Max := by
  unfold checkedShlOne
  rw [if_neg (not_lt.mpr large)]
  split
  · -- The shifted bit is the sign, so the filter drops the product.
    rfl
  · rfl

/-- A product that is clamped before the minimum with a cap is not clamped. -/
theorem min_saturate {x : ℤ} (nonneg : 0 ≤ x) (fits : cap ≤ i64Max) :
    min (saturate x) cap = min x cap := by
  unfold saturate i64Min
  unfold i64Max at fits ⊢
  omega

/-- A product at or above the largest integer is cut to the cap. -/
theorem min_of_i64Max_le {x : ℤ} (large : i64Max ≤ x) (fits : cap ≤ i64Max) : min x cap = cap :=
  min_eq_right (fits.trans large)

/-- **The delay of a retry is exact.** -/
theorem retryDelay_eq_exactBackoff (nonneg : 0 ≤ base) (capped : base ≤ cap)
    (fits : cap ≤ i64Max) (n : ℕ) : retryDelay base cap n = exactBackoff base cap n := by
  have shift : max n 1 - 1 = n - 1 := by omega
  unfold retryDelay exactBackoff
  rw [shift]
  split
  · rename_i zero
    rw [zero, zero_mul]
    exact (min_eq_left (nonneg.trans capped)).symm
  · rename_i nonzero
    have one_le : 1 ≤ base := by omega
    by_cases small : n - 1 < 63
    · have product : 0 ≤ base * 2 ^ (n - 1) := by positivity
      rw [multiplier_of_lt small]
      exact min_saturate product fits
    · -- Both products are beyond the cap.
      have large : 63 ≤ n - 1 := not_lt.mp small
      have power : (2 : ℤ) ^ 63 ≤ 2 ^ (n - 1) := pow_le_pow_right₀ (by norm_num) large
      have exact : i64Max ≤ base * 2 ^ (n - 1) := by
        unfold i64Max
        nlinarith
      have clamped : i64Max ≤ base * i64Max := by
        unfold i64Max
        omega
      rw [multiplier_of_le large, min_of_i64Max_le exact fits]
      show min (saturate (base * i64Max)) cap = cap
      rw [min_saturate ((by decide : (0 : ℤ) ≤ i64Max).trans clamped) fits]
      exact min_of_i64Max_le clamped fits

theorem exactBackoff_mono (nonneg : 0 ≤ base) (later : n ≤ m) :
    exactBackoff base cap n ≤ exactBackoff base cap m := by
  have shifts : max n 1 - 1 ≤ max m 1 - 1 := by omega
  have powers : (2 : ℤ) ^ (max n 1 - 1) ≤ 2 ^ (max m 1 - 1) :=
    pow_le_pow_right₀ (by norm_num) shifts
  exact min_le_min_right cap (mul_le_mul_of_nonneg_left powers nonneg)

theorem exactBackoff_within (nonneg : 0 ≤ base) (capped : base ≤ cap) (n : ℕ) :
    base ≤ exactBackoff base cap n ∧ exactBackoff base cap n ≤ cap := by
  have power : (1 : ℤ) ≤ 2 ^ (max n 1 - 1) := one_le_pow₀ (by norm_num)
  refine ⟨le_min ?_ capped, min_le_right _ _⟩
  exact le_mul_of_one_le_right nonneg power

end Delay

/-! ## The time of the retry -/

/-- A delay that is not negative does not lead back in time, saturated or not. -/
theorem le_saturatingAdd {now delay : ℤ} (fits : now ≤ i64Max) (nonneg : 0 ≤ delay) :
    now ≤ saturatingAdd now delay := by
  unfold saturatingAdd saturate
  omega

/-- Jitter keeps a delay from being negative. -/
theorem applyJitter_nonneg {delay : ℤ} (nonneg : 0 ≤ delay) (jitter : F64) (jittered : ℤ) :
    0 ≤ applyJitter delay jitter jittered := by
  unfold applyJitter
  split
  · exact nonneg
  · exact le_max_left _ _

/-- What a job that was put back is available from. -/
theorem availableFrom_of_requeue {db : Db} {j : JobId} {state : LiveState} {now at_ updatedAt : ℤ}
    {error : String} {found : JobRow}
    (live : (db.requeue j state at_ error updatedAt).jobs.find? j = some found)
    (later : now ≤ at_) : found.AvailableFrom now := by
  unfold Db.requeue at live
  rw [Table.find?_modify, if_pos rfl] at live
  obtain ⟨row, -, rfl⟩ := Option.map_eq_some_iff.mp live
  exact ⟨at_, rfl, later⟩

/-- **Retry backoff is exact and monotone**, for every base and every cap at least the base
that a 64-bit integer can hold. -/
theorem retry_backoff_exact {base cap : ℤ} (nonneg : 0 ≤ base) (capped : base ≤ cap)
    (fits : cap ≤ i64Max) : BackoffExact base cap := by
  have exact := retryDelay_eq_exactBackoff nonneg capped fits
  have positive : ∀ n, 0 ≤ retryDelay base cap n := by
    intro n
    rw [exact]
    exact nonneg.trans (exactBackoff_within nonneg capped n).1
  constructor
  case exact => exact exact
  case mono =>
    intro n m later
    rw [exact, exact]
    exact exactBackoff_mono nonneg later
  case within =>
    intro n
    rw [exact]
    exact exactBackoff_within nonneg capped n
  case later =>
    intro n now within
    exact le_saturatingAdd within (positive n)
  case recovered =>
    rintro now db db' n row found within rfl rfl again ok live
    rw [recoverOne, if_pos again] at ok
    cases ok
    exact availableFrom_of_requeue live (le_saturatingAdd within (positive row.attempts))
  case retried =>
    rintro clock jittered db row error found within rfl rfl live
    have delayed := applyJitter_nonneg (positive row.attempts) row.retryJitter jittered
    exact availableFrom_of_requeue live (le_saturatingAdd within delayed)

/-- The largest base and cap, at an attempt whose shift is far beyond the word. -/
theorem retry_backoff_at_limit :
    BackoffExact i64Max i64Max ∧ retryDelay i64Max i64Max u32Max = i64Max ∧
      (retryDelay 1000 10000 4, retryDelay 1000 10000 5) = (8000, 10000) := by
  refine ⟨retry_backoff_exact (by decide) le_rfl le_rfl, ?_, ?_⟩
  · decide
  · decide

end AnvilMQ
