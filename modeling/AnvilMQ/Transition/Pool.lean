import Mathlib.Data.List.Nodup
import Mathlib.Data.List.Range
import Mathlib.Order.Lattice

/-!
# A bounded pool of tasks

Indices `0 … count - 1` are handed out in order to a fixed number of workers.  A worker
runs the task of its index, and when the task settles it takes the next one; a worker
ends when no index is left, or when its task fails.
-/

namespace Transition

/-- A pool of tasks: how many there are, the next index to hand out, and the indices of
the tasks in flight. -/
structure Pool where
  count : ℕ
  next : ℕ
  running : List ℕ
deriving DecidableEq

namespace Pool

/-- Start the workers; each takes an index. -/
def start (count concurrency : ℕ) : Pool :=
  let width := max 1 (min concurrency count)
  { count := count, next := width, running := List.range (min width count) }

/-- The task of an index settles, and its worker takes the next one. -/
def finish (pool : Pool) (i : ℕ) : Pool :=
  { pool with
    next := pool.next + 1
    running := pool.running.erase i ++ if pool.next < pool.count then [pool.next] else [] }

/-- The task of an index fails, and its worker ends. -/
def abandon (pool : Pool) (i : ℕ) : Pool := { pool with running := pool.running.erase i }

variable {pool : Pool} {i j count concurrency : ℕ}

/-- **The invariant of a pool**: the tasks in flight are different ones, and they were
handed out. -/
structure Sound (pool : Pool) : Prop where
  nodup : pool.running.Nodup
  started : ∀ i ∈ pool.running, i < pool.next
  within : ∀ i ∈ pool.running, i < pool.count

/-- A pool without tasks in flight has handed out every index. -/
def Exhaustive (pool : Pool) : Prop := pool.running = [] → pool.count ≤ pool.next

theorem Sound.start (count concurrency : ℕ) : (start count concurrency).Sound where
  nodup := List.nodup_range
  started := fun _ mem => (List.mem_range.mp mem).trans_le (min_le_left _ _)
  within := fun _ mem => (List.mem_range.mp mem).trans_le (min_le_right _ _)

theorem Exhaustive.start (count concurrency : ℕ) : (start count concurrency).Exhaustive := by
  intro idle
  have noSlot : min (max 1 (min concurrency count)) count = 0 := List.range_eq_nil.mp idle
  show count ≤ max 1 (min concurrency count)
  omega

/-- What is in flight after a task settled. -/
theorem mem_finish (sound : pool.Sound) :
    j ∈ (pool.finish i).running ↔
      (j ∈ pool.running ∧ j ≠ i) ∨ (j = pool.next ∧ pool.next < pool.count) := by
  rw [finish, List.mem_append, sound.nodup.mem_erase_iff, and_comm]
  refine or_congr_right ?_
  split
  · simp [*]
  · simp [*]

/-- A task that ends hands its place to the next one. -/
theorem Sound.finish (sound : pool.Sound) (i : ℕ) : (pool.finish i).Sound where
  nodup := by
    show (pool.running.erase i ++ _).Nodup
    split
    · refine List.nodup_append'.mpr ⟨sound.nodup.erase i, List.nodup_singleton _, ?_⟩
      refine List.disjoint_singleton.mpr fun mem => ?_
      exact (sound.started _ (List.mem_of_mem_erase mem)).false
    · rw [List.append_nil]
      exact sound.nodup.erase i
  started := by
    intro j mem
    rcases (mem_finish sound).mp mem with ⟨was, -⟩ | ⟨rfl, -⟩
    · exact (sound.started j was).trans (Nat.lt_succ_self _)
    · exact Nat.lt_succ_self _
  within := by
    intro j mem
    rcases (mem_finish sound).mp mem with ⟨was, -⟩ | ⟨rfl, inside⟩
    · exact sound.within j was
    · exact inside

theorem Exhaustive.finish (pool : Pool) (i : ℕ) : (pool.finish i).Exhaustive := by
  intro idle
  have notStarted : (if pool.next < pool.count then [pool.next] else []) = [] :=
    (List.append_eq_nil_iff.mp idle).2
  have spent : ¬ pool.next < pool.count := by
    intro inside
    rw [if_pos inside] at notStarted
    cases notStarted
  exact (not_lt.mp spent).trans (Nat.le_succ _)

theorem mem_abandon (sound : pool.Sound) :
    j ∈ (pool.abandon i).running ↔ j ∈ pool.running ∧ j ≠ i := by
  rw [abandon, sound.nodup.mem_erase_iff, and_comm]

theorem Sound.abandon (sound : pool.Sound) (i : ℕ) : (pool.abandon i).Sound where
  nodup := sound.nodup.erase i
  started := fun j mem => sound.started j (List.mem_of_mem_erase mem)
  within := fun j mem => sound.within j (List.mem_of_mem_erase mem)

/-! ## Counting tasks in flight -/

theorem length_start_le (count concurrency : ℕ) :
    (start count concurrency).running.length ≤ max 1 concurrency := by
  rw [start, List.length_range]
  omega

/-- A worker that goes on has one task in flight, or it ends. -/
theorem length_finish (mem : i ∈ pool.running) :
    (pool.finish i).running.length + 1 =
      pool.running.length + if pool.next < pool.count then 1 else 0 := by
  have fewer := List.length_erase_of_mem mem
  have occupied := List.length_pos_of_mem mem
  rw [finish, List.length_append]
  split
  · rw [List.length_singleton]
    omega
  · rw [List.length_nil]
    omega

variable {P Q : ℕ → Bool}

theorem countP_abandon (mem : i ∈ pool.running) :
    (pool.abandon i).running.countP P + (if P i then 1 else 0) = pool.running.countP P := by
  have perm := (List.perm_cons_erase mem).countP_eq P
  rw [List.countP_cons] at perm
  exact perm.symm

/-- The new task does not count. -/
theorem countP_finish (mem : i ∈ pool.running) (fresh : P pool.next = false) :
    (pool.finish i).running.countP P + (if P i then 1 else 0) = pool.running.countP P := by
  rw [← countP_abandon mem, finish, List.countP_append]
  have unlisted : List.countP P (if pool.next < pool.count then [pool.next] else []) = 0 := by
    split
    · simp [fresh]
    · rfl
  rw [unlisted]
  rfl

/-- Predicates that agree on the other tasks count them alike. -/
theorem Sound.countP_others (sound : pool.Sound) (others : ∀ j, j ≠ i → Q j = P j) :
    (pool.abandon i).running.countP Q = (pool.abandon i).running.countP P := by
  refine List.countP_congr fun j there => ?_
  rw [others j ((mem_abandon sound).mp there).2]

/-- One more task in flight counts. -/
theorem Sound.countP_succ (sound : pool.Sound) (mem : i ∈ pool.running) (off : P i = false)
    (on : Q i = true) (others : ∀ j, j ≠ i → Q j = P j) :
    pool.running.countP Q = pool.running.countP P + 1 := by
  rw [← @countP_abandon pool i P mem, ← @countP_abandon pool i Q mem, sound.countP_others others,
    off, on]
  rfl

/-- One more task in flight may count. -/
theorem Sound.countP_le_succ (sound : pool.Sound) (mem : i ∈ pool.running)
    (others : ∀ j, j ≠ i → Q j = P j) : pool.running.countP Q ≤ pool.running.countP P + 1 := by
  have old := @countP_abandon pool i P mem
  have new := @countP_abandon pool i Q mem
  rw [sound.countP_others others] at new
  have one : (if Q i = true then 1 else 0) ≤ 1 := by
    split
    · exact le_rfl
    · exact Nat.zero_le 1
  omega

end Pool

end Transition
