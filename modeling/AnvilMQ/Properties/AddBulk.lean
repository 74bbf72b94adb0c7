import AnvilMQ.Client.AddBulk
import AnvilMQ.Transition.Run
import Mathlib.Data.List.Perm.Subperm

/-!
# A bulk add answers every item

The workers of the pool share one counter, and every index is handed out once and in order,
whichever worker takes it.  The outcome of a send is recorded at the position of its item, in the
turn in which the send settles, so the failures are seen in the order in which they happen.
-/

namespace AnvilMQ.Client

open Transition

/-! ## The property -/

/-- The tasks that were called and have not returned. -/
def Bulk.unsettled (s : Bulk) : List ℕ :=
  s.started.filter fun i => decide (s.stage i ≠ .returned)

section Statement

variable (js : Coercions) (count concurrency : ℕ) (stopOnError : Bool)
variable (outcome : ℕ → Except Thrown AddJobResponse)

/-- What was recorded of the items that were sent; the others are holes. -/
def outcomesOf (sent : List ℕ) : List (Option AddResult) :=
  (List.range count).map fun i => if i ∈ sent then some (.of (outcome i)) else none

end Statement

/-! ## The invariant -/

variable {js : Coercions} {count concurrency : ℕ} {stopOnError : Bool}
variable {outcome : ℕ → Except Thrown AddJobResponse} {s s' : Bulk} {i : ℕ}

theorem Bulk.stage_record (s : Bulk) (stopOnError : Bool) (i : ℕ)
    (outcome : Except Thrown AddJobResponse) (j : ℕ) :
    (s.record stopOnError i outcome).stage j = if j = i then .returned else s.stage j :=
  Function.update_apply s.stage i .returned j

/-- A task that is called is on its way, or it returns because the call was stopped. -/
theorem Bulk.stage_begin (s : Bulk) (i j : ℕ) :
    (s.begin i).stage j =
      if j = i then if s.stopped.isSome then .returned else .sending else s.stage j := by
  rw [Bulk.begin]
  split
  · exact Function.update_apply s.stage i .returned j
  · exact Function.update_apply s.stage i .sending j

/-- Everything else a call of a task leaves. -/
theorem Bulk.begin_fields (s : Bulk) (i : ℕ) :
    (s.begin i).pool = s.pool ∧ (s.begin i).started = s.started ++ [i] ∧
      (s.begin i).sent = (if s.stopped.isSome then s.sent else s.sent ++ [i]) ∧
      (s.begin i).settled = s.settled ∧ (s.begin i).results = s.results ∧
      (s.begin i).stopped = s.stopped := by
  rw [Bulk.begin]
  split
  · exact ⟨rfl, rfl, rfl, rfl, rfl, rfl⟩
  · exact ⟨rfl, rfl, rfl, rfl, rfl, rfl⟩

/-- **How the indices are handed out.** -/
structure Bulk.Scheduled (count concurrency : ℕ) (s : Bulk) : Prop where
  sound : s.pool.Sound
  exhaustive : s.pool.Exhaustive
  size : s.pool.count = count
  bounded : s.pool.running.length ≤ max 1 concurrency
  started : s.started = List.range (min s.pool.next count)
  ahead : ∀ i, s.stage i = .ahead ↔ i ∉ s.started
  /-- A send on its way is the task of a worker. -/
  sending : ∀ i, s.stage i = .sending → i ∈ s.pool.running

/-- **What is recorded of the sends.** -/
structure Bulk.Accounted (stopOnError : Bool) (outcome : ℕ → Except Thrown AddJobResponse)
    (s : Bulk) : Prop where
  sent : ∀ i, i ∈ s.sent ↔ s.stage i = .sending ∨ i ∈ s.settled
  sentOnce : s.sent.Nodup
  settled : ∀ i ∈ s.settled, s.stage i = .returned
  settledOnce : s.settled.Nodup
  /-- A task returns without a send only when the call was stopped. -/
  skipped : ∀ i, s.stage i = .returned → i ∈ s.settled ∨ s.stopped.isSome
  results : ∀ i, s.results i = if i ∈ s.settled then some (.of (outcome i)) else none
  stopped : s.stopped =
    if stopOnError then s.settled.findSome? fun i => errorOf (outcome i) else none

/-! ### The indices -/

namespace Bulk.Scheduled

/-- At the start the first indices are handed out. -/
theorem start (count concurrency : ℕ) :
    (Bulk.start count concurrency).Scheduled count concurrency where
  sound := .start count concurrency
  exhaustive := .start count concurrency
  size := rfl
  bounded := Pool.length_start_le count concurrency
  started := rfl
  ahead := by
    intro i
    show (if i ∈ _ then ItemStage.sending else .ahead) = .ahead ↔ i ∉ (Pool.start _ _).running
    split
    · simp [*]
    · simp [*]
  sending := by
    intro i
    show (if i ∈ _ then ItemStage.sending else .ahead) = .sending → _
    split
    · exact fun _ => ‹_›
    · intro absurd
      cases absurd

/-- Recording an answer hands out no index. -/
theorem record (scheduled : s.Scheduled count concurrency) (here : s.stage i = .sending)
    (answer : Except Thrown AddJobResponse) :
    (s.record stopOnError i answer).Scheduled count concurrency where
  sound := scheduled.sound
  exhaustive := scheduled.exhaustive
  size := scheduled.size
  bounded := scheduled.bounded
  started := scheduled.started
  ahead := by
    intro j
    show _ ↔ j ∉ s.started
    rw [stage_record, ← scheduled.ahead]
    split
    · rename_i same
      rw [same, here]
      decide
    · exact Iff.rfl
  sending := by
    intro j
    rw [stage_record]
    split
    · intro absurd
      cases absurd
    · exact scheduled.sending j

/-- A send on its way stays the task of a worker when the worker of another task goes on. -/
theorem mem_finish_of_sending (scheduled : s.Scheduled count concurrency)
    (here : s.stage i = .returned) {j : ℕ} (sending : s.stage j = .sending) :
    j ∈ (s.pool.finish i).running := by
  refine (Pool.mem_finish scheduled.sound).mpr (.inl ⟨scheduled.sending j sending, ?_⟩)
  rintro rfl
  rw [here] at sending
  cases sending

theorem length_finish_le (scheduled : s.Scheduled count concurrency) (mem : i ∈ s.pool.running) :
    (s.pool.finish i).running.length ≤ max 1 concurrency := by
  have length := Pool.length_finish mem
  have bounded := scheduled.bounded
  split at length
  · omega
  · omega

/-- The worker of a task that has returned takes the next index. -/
theorem advance_next (scheduled : s.Scheduled count concurrency) (mem : i ∈ s.pool.running)
    (here : s.stage i = .returned) (more : s.pool.next < s.pool.count) :
    ({ s with pool := s.pool.finish i }.begin s.pool.next).Scheduled count concurrency := by
  have inside : s.pool.next < count := scheduled.size ▸ more
  have started : s.started = List.range s.pool.next := by
    rw [scheduled.started, min_eq_left inside.le]
  obtain ⟨pool, begun, -⟩ := { s with pool := s.pool.finish i }.begin_fields s.pool.next
  refine ⟨?_, ?_, ?_, ?_, ?_, ?_, ?_⟩
  · rw [pool]
    exact scheduled.sound.finish i
  · rw [pool]
    exact .finish s.pool i
  · rw [pool]
    exact scheduled.size
  · rw [pool]
    exact scheduled.length_finish_le mem
  · rw [pool, begun]
    show s.started ++ [s.pool.next] = List.range (min (s.pool.next + 1) count)
    rw [started, min_eq_left inside, List.range_succ]
  · intro j
    rw [stage_begin, begun, List.mem_append, List.mem_singleton, not_or]
    show _ ↔ j ∉ s.started ∧ _
    rw [← scheduled.ahead]
    split
    · rename_i same
      refine iff_of_false ?_ (fun absent => absent.2 same)
      split
      · decide
      · decide
    · simp [*]
  · intro j
    rw [stage_begin, pool]
    split
    · rename_i same
      exact fun _ => (Pool.mem_finish scheduled.sound).mpr (.inr ⟨same, more⟩)
    · exact scheduled.mem_finish_of_sending here

/-- The worker of a task that has returned finds no index left, and ends. -/
theorem advance_last (scheduled : s.Scheduled count concurrency) (mem : i ∈ s.pool.running)
    (here : s.stage i = .returned) (spent : ¬ s.pool.next < s.pool.count) :
    { s with pool := s.pool.finish i }.Scheduled count concurrency where
  sound := scheduled.sound.finish i
  exhaustive := .finish s.pool i
  size := scheduled.size
  bounded := scheduled.length_finish_le mem
  started := by
    have spent : count ≤ s.pool.next := scheduled.size ▸ not_lt.mp spent
    show s.started = List.range (min (s.pool.next + 1) count)
    rw [scheduled.started, min_eq_right spent, min_eq_right (spent.trans (Nat.le_succ _))]
  ahead := scheduled.ahead
  sending := fun _ => scheduled.mem_finish_of_sending here

theorem advance (scheduled : s.Scheduled count concurrency) (mem : i ∈ s.pool.running)
    (here : s.stage i = .returned) : (s.advance i).Scheduled count concurrency := by
  rw [Bulk.advance]
  split
  · exact scheduled.advance_next mem here ‹_›
  · exact scheduled.advance_last mem here ‹_›

/-- The next index is still ahead. -/
theorem ahead_next (scheduled : s.Scheduled count concurrency) :
    s.stage s.pool.next = .ahead := by
  rw [scheduled.ahead, scheduled.started, List.mem_range]
  omega

end Bulk.Scheduled

/-! ### The sends -/

namespace Bulk.Accounted

/-- At the start nothing is recorded. -/
theorem start (count concurrency : ℕ) (stopOnError : Bool)
    (outcome : ℕ → Except Thrown AddJobResponse) :
    (Bulk.start count concurrency).Accounted stopOnError outcome where
  sent := by
    intro i
    show i ∈ (Pool.start _ _).running ↔ (if i ∈ _ then ItemStage.sending else .ahead) = .sending ∨ _
    split
    · simp [*, Bulk.start]
    · simp [*, Bulk.start]
  sentOnce := (Pool.Sound.start count concurrency).nodup
  settled := fun i mem => absurd mem List.not_mem_nil
  settledOnce := List.nodup_nil
  skipped := by
    intro i
    show (if i ∈ _ then ItemStage.sending else .ahead) = .returned → _
    split
    · intro absurd
      cases absurd
    · intro absurd
      cases absurd
  results := fun i => rfl
  stopped := by
    cases stopOnError with
    | true => rfl
    | false => rfl

/-- A send that is on its way has not settled. -/
theorem notMem_settled (accounted : s.Accounted stopOnError outcome)
    (here : s.stage i ≠ .returned) : i ∉ s.settled :=
  fun mem => here (accounted.settled i mem)

/-- An answer is recorded once, under its index. -/
theorem record (accounted : s.Accounted stopOnError outcome) (here : s.stage i = .sending) :
    (s.record stopOnError i (outcome i)).Accounted stopOnError outcome := by
  have fresh : i ∉ s.settled := accounted.notMem_settled (by simp [here])
  have settled : ∀ j, j ∈ (s.record stopOnError i (outcome i)).settled ↔ j ∈ s.settled ∨ j = i :=
    fun j => List.mem_append.trans (or_congr_right List.mem_singleton)
  refine ⟨?_, accounted.sentOnce, ?_, ?_, ?_, ?_, ?_⟩
  · intro j
    show j ∈ s.sent ↔ _
    rw [stage_record, settled, accounted.sent]
    split
    · rename_i same
      simp [same, here]
    · simp [*]
  · intro j mem
    rw [stage_record]
    split
    · rfl
    · rename_i other
      exact accounted.settled j (((settled j).mp mem).resolve_right other)
  · exact List.nodup_append'.mpr ⟨accounted.settledOnce, List.nodup_singleton i,
      List.disjoint_singleton.mpr fresh⟩
  · intro j
    rw [stage_record, settled]
    split
    · exact fun _ => .inl (.inr ‹_›)
    · intro returned
      -- a call that was stopped stays so
      refine (accounted.skipped j returned).imp .inl fun stopped => ?_
      show (if stopOnError = true then s.stopped.or (errorOf (outcome i)) else s.stopped).isSome
      split
      · simp [stopped]
      · exact stopped
  · intro j
    show Function.update s.results i (some (.of (outcome i))) j = _
    rw [Function.update_apply, accounted.results]
    simp only [settled]
    split
    · rename_i same
      simp [same]
    · simp [*]
  · show (if stopOnError = true then s.stopped.or (errorOf (outcome i)) else s.stopped) =
      if stopOnError = true then (s.settled ++ [i]).findSome? _ else none
    rw [accounted.stopped]
    split
    · rw [List.findSome?_append, List.findSome?_singleton]
    · rfl

/-- The task of an index that was ahead is called. -/
theorem begin (accounted : s.Accounted stopOnError outcome) (here : s.stage i = .ahead) :
    (s.begin i).Accounted stopOnError outcome := by
  have fresh : i ∉ s.settled := accounted.notMem_settled (by simp [here])
  have unsent : i ∉ s.sent := by simp [accounted.sent, here, fresh]
  obtain ⟨-, -, sent, settled, results, stopped⟩ := s.begin_fields i
  refine ⟨?_, ?_, ?_, ?_, ?_, ?_, ?_⟩
  · intro j
    rw [stage_begin, sent, settled]
    by_cases same : j = i
    · subst same
      by_cases halted : s.stopped.isSome
      · simp [halted, unsent, fresh]
      · simp [halted]
    · rw [if_neg same, ← accounted.sent]
      split
      · exact Iff.rfl
      · simp [same]
  · rw [sent]
    split
    · exact accounted.sentOnce
    · exact List.nodup_append'.mpr ⟨accounted.sentOnce, List.nodup_singleton i,
        List.disjoint_singleton.mpr unsent⟩
  · intro j mem
    rw [settled] at mem
    rw [stage_begin, if_neg fun same : j = i => fresh (same ▸ mem)]
    exact accounted.settled j mem
  · rw [settled]
    exact accounted.settledOnce
  · intro j
    rw [stage_begin, settled, stopped]
    split
    · split
      · exact fun _ => .inr ‹_›
      · intro absurd
        cases absurd
    · exact accounted.skipped j
  · rw [results, settled]
    exact accounted.results
  · rw [stopped, settled]
    exact accounted.stopped

/-- What is recorded does not depend on the workers. -/
theorem withPool (accounted : s.Accounted stopOnError outcome) (pool : Pool) :
    { s with pool := pool }.Accounted stopOnError outcome where
  sent := accounted.sent
  sentOnce := accounted.sentOnce
  settled := accounted.settled
  settledOnce := accounted.settledOnce
  skipped := accounted.skipped
  results := accounted.results
  stopped := accounted.stopped

end Bulk.Accounted

/-! ### The work that is left -/

/-- The turns a call may still take: two for an index that was not handed out, two for a send
on its way, and one for a worker whose task has returned. -/
def Bulk.work (s : Bulk) : ℕ :=
  2 * (s.pool.count - s.pool.next) + s.pool.running.length +
    s.pool.running.countP fun i => decide (s.stage i = .sending)

theorem Bulk.work_start (count concurrency : ℕ) :
    (Bulk.start count concurrency).work = 2 * count := by
  have all : (Pool.start count concurrency).running.countP (fun i =>
      decide ((Bulk.start count concurrency).stage i = .sending)) =
      (Pool.start count concurrency).running.length := by
    refine List.countP_eq_length.mpr fun i mem => decide_eq_true ?_
    show (if i ∈ _ then ItemStage.sending else .ahead) = .sending
    exact if_pos mem
  rw [Bulk.work]
  show 2 * (count - (Pool.start count concurrency).next) +
    (Pool.start count concurrency).running.length + List.countP _ (Pool.start _ _).running = _
  rw [all, Pool.start, List.length_range]
  dsimp only
  omega

theorem Bulk.work_record (scheduled : s.Scheduled count concurrency)
    (here : s.stage i = .sending) (answer : Except Thrown AddJobResponse) :
    (s.record stopOnError i answer).work + 1 = s.work := by
  have one : s.pool.running.countP (fun j => decide (s.stage j = .sending)) =
      s.pool.running.countP (fun j =>
        decide ((s.record stopOnError i answer).stage j = .sending)) + 1 := by
    refine scheduled.sound.countP_succ (scheduled.sending i here) ?_ ?_ ?_
    · simp [stage_record]
    · simp [here]
    · intro j other
      rw [stage_record, if_neg other]
  rw [Bulk.work, Bulk.work, one]
  rfl

/-- A task that goes on has less work ahead. -/
theorem Bulk.work_advance (scheduled : s.Scheduled count concurrency)
    (mem : i ∈ s.pool.running) (here : s.stage i = .returned) :
    (s.advance i).work + 1 ≤ s.work := by
  have length := Pool.length_finish mem
  have fresh : s.stage s.pool.next = .ahead := scheduled.ahead_next
  have same := @Pool.countP_finish s.pool i (fun j => decide (s.stage j = .sending)) mem
    (by simp [fresh])
  simp only [here, reduceCtorEq, decide_false, Bool.false_eq_true, if_false, Nat.add_zero] at same
  rw [Bulk.advance]
  by_cases more : s.pool.next < s.pool.count
  · rw [if_pos more] at length ⊢
    obtain ⟨pool, -⟩ := { s with pool := s.pool.finish i }.begin_fields s.pool.next
    have next : s.pool.next ∈ (s.pool.finish i).running :=
      (Pool.mem_finish scheduled.sound).mpr (.inr ⟨rfl, more⟩)
    -- the next index is paid for twice: as a task that runs and as a send on its way
    have grown := (scheduled.sound.finish i).countP_le_succ
      (P := fun j => decide (s.stage j = .sending))
      (Q := fun j =>
        decide (({ s with pool := s.pool.finish i }.begin s.pool.next).stage j = .sending)) next
      fun j other => by rw [stage_begin, if_neg other]
    rw [Bulk.work, Bulk.work, pool]
    show 2 * (s.pool.count - (s.pool.next + 1)) + (s.pool.finish i).running.length +
      (s.pool.finish i).running.countP _ + 1 ≤ _
    omega
  · rw [if_neg more] at length ⊢
    rw [Bulk.work, Bulk.work]
    show 2 * (s.pool.count - (s.pool.next + 1)) + (s.pool.finish i).running.length +
      (s.pool.finish i).running.countP (fun j => decide (s.stage j = .sending)) + 1 ≤ _
    omega

/-! ## The guarantee -/

/-- **The invariant of a call.** -/
structure Bulk.Inv (count concurrency : ℕ) (stopOnError : Bool)
    (outcome : ℕ → Except Thrown AddJobResponse) (labels : List BulkLabel) (s : Bulk) : Prop where
  scheduled : s.Scheduled count concurrency
  accounted : s.Accounted stopOnError outcome
  work : labels.length + s.work ≤ 2 * count

namespace Bulk.Inv

variable {labels : List BulkLabel} {l : BulkLabel}

theorem start (count concurrency : ℕ) (stopOnError : Bool)
    (outcome : ℕ → Except Thrown AddJobResponse) :
    (Bulk.start count concurrency).Inv count concurrency stopOnError outcome [] where
  scheduled := .start count concurrency
  accounted := .start count concurrency stopOnError outcome
  work := by rw [work_start, List.length_nil, Nat.zero_add]

/-- **A step keeps the invariant.** -/
theorem step (inv : s.Inv count concurrency stopOnError outcome labels)
    (taken : s.step stopOnError outcome l = some s') :
    s'.Inv count concurrency stopOnError outcome (labels ++ [l]) := by
  have work := inv.work
  cases l with
  | answer i =>
    simp only [Bulk.step] at taken
    split at taken
    · rename_i here
      cases taken
      have less : (s.record stopOnError i (outcome i)).work + 1 = s.work :=
        work_record inv.scheduled here (outcome i)
      refine ⟨inv.scheduled.record here _, inv.accounted.record here, ?_⟩
      rw [List.length_append, List.length_singleton]
      omega
    · cases taken
  | resume i =>
    simp only [Bulk.step] at taken
    split at taken
    · rename_i enabled
      obtain ⟨mem, here⟩ := enabled
      cases taken
      have less := work_advance inv.scheduled mem here
      refine ⟨inv.scheduled.advance mem here, ?_, ?_⟩
      · rw [Bulk.advance]
        split
        · exact (inv.accounted.withPool _).begin inv.scheduled.ahead_next
        · exact inv.accounted.withPool _
      · rw [List.length_append, List.length_singleton]
        omega
    · cases taken

/-- The tasks that have not returned are tasks of workers. -/
theorem unsettled_le (inv : s.Inv count concurrency stopOnError outcome labels) :
    s.unsettled.length ≤ s.pool.running.length := by
  have nodup : s.unsettled.Nodup := by
    refine List.Nodup.filter _ ?_
    rw [inv.scheduled.started]
    exact List.nodup_range
  refine (List.Nodup.subperm nodup fun i mem => ?_).length_le
  obtain ⟨begun, open_⟩ := List.mem_filter.mp mem
  refine inv.scheduled.sending i ?_
  cases stage : s.stage i with
  | ahead => exact absurd begun ((inv.scheduled.ahead i).mp stage)
  | sending => rfl
  | returned => exact absurd stage (of_decide_eq_true open_)

/-- When every worker has ended, every index was begun and every task has returned. -/
theorem complete (inv : s.Inv count concurrency stopOnError outcome labels)
    (idle : s.pool.running = []) :
    s.started = List.range count ∧ s.unsettled = [] ∧ s.settled.Perm s.sent := by
  have spent := inv.scheduled.exhaustive idle
  have unsettled := inv.unsettled_le
  rw [idle] at unsettled
  refine ⟨?_, List.eq_nil_of_length_eq_zero (Nat.le_zero.mp unsettled), ?_⟩
  · rw [inv.scheduled.started, min_eq_right (inv.scheduled.size ▸ spent)]
  · refine (List.perm_ext_iff_of_nodup inv.accounted.settledOnce inv.accounted.sentOnce).mpr ?_
    intro i
    rw [inv.accounted.sent]
    refine ⟨.inr, fun either => either.resolve_left fun sending => ?_⟩
    have running := inv.scheduled.sending i sending
    rw [idle] at running
    cases running

/-- What is recorded when every worker has ended. -/
theorem recorded (inv : s.Inv count concurrency stopOnError outcome labels)
    (idle : s.pool.running = []) : s.recorded = outcomesOf count outcome s.sent := by
  have same := (inv.complete idle).2.2
  rw [Bulk.recorded, outcomesOf, inv.scheduled.size]
  refine List.map_congr_left fun i _ => ?_
  rw [inv.accounted.results]
  simp only [same.mem_iff]

end Bulk.Inv

end AnvilMQ.Client
