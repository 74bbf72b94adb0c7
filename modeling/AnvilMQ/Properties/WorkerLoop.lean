import AnvilMQ.Client.Worker
import Mathlib.Data.List.Nodup

/-!
# The dispatch loop of a worker

The loop polls while it has a slot, parks when it has none, and drains what it tracks when
it is stopped.  A job that settles frees its slot and resolves the slot-freed promise of the
moment; the loop may be parked on it, or on the way there, or elsewhere.

The invariant has a part that the loop does not enter (`Worker.Core`: what is counted and
tracked, and how far the processes are) and a part for each point the loop can be suspended
at (`Worker.AtLoop`).
-/

namespace AnvilMQ.Client

open Transition

/-! ## The property -/

/-- The claim a poll returned. -/
def WorkerLabel.claim? : WorkerLabel → Option ClaimedJob
  | found _ claim _ => some claim
  | _ => none

/-- **The guarantee for the loop**, in a state that `labels` have led to. -/
structure DispatchSafe (options : WorkerOptions) (labels : List WorkerLabel) (w : Worker) :
    Prop where
  /-- What is in flight is what is tracked. -/
  counted : w.inFlight = w.tracked.length ∧ w.tracked.Nodup
  /-- There is never more of it than allowed. -/
  bounded : w.inFlight ≤ options.concurrency
  /-- Every claim a poll returned has been given to one `process`, before or after `close`. -/
  processed : w.processes.map Process.claim = labels.filterMap WorkerLabel.claim?
  /-- What such a process has done is a run of it. -/
  runs : ∀ process ∈ w.processes, ∃ parsed turns,
    follow Process.step (.start options.workerId process.claim parsed) turns = some process
  /-- `close` resolves when the loop has ended and every process has settled. -/
  drains : ∀ w', w.step .closeResolves = some w' →
    w.loop = .ended ∧ ∀ process ∈ w.processes, process.state = .settled
  /-- A loop that is parked on an unresolved promise has no slot. -/
  wakes : ∀ waiter, w.loop = .parked waiter → ¬ waiter < w.waiter → w.stopping = false →
    (options.concurrency : ℤ) ≤ w.inFlight

/-! ## Processes -/

section Process

variable {p p' : Process} {l : ProcessLabel}

/-- A turn of a process keeps its claim, and a settled process settled. -/
theorem Process.step_keeps (taken : p.step l = some p') :
    p'.claim = p.claim ∧ (p.state = .settled → p'.state = .settled) := by
  cases Process.turn_of_step taken with
  | stopped | beat | beatReturns | beatFails => exact ⟨rfl, id⟩
  | completed | gaveUp | rejects | failAnswered => exact ⟨rfl, fun _ => rfl⟩
  | settle elsewhere | retry elsewhere | paused elsewhere =>
    exact ⟨rfl, fun settled => by rw [settled] at elsewhere; cases elsewhere⟩
  | join joining ended reports message =>
    refine ⟨?_, fun settled => by rw [settled] at joining; cases joining⟩
    unfold Process.conclude
    split
    · rfl
    · split
      · rfl
      · rfl
      · rfl

end Process

/-! ## The invariant -/

namespace Worker

variable {options : WorkerOptions} {past : List WorkerLabel} {w w' : Worker} {l : WorkerLabel}

/-- What holds wherever the loop is. -/
structure Core (options : WorkerOptions) (past : List WorkerLabel) (w : Worker) : Prop where
  own : w.options = options
  counted : w.inFlight = w.tracked.length
  bounded : w.inFlight ≤ options.concurrency
  nodup : w.tracked.Nodup
  started : ∀ entry ∈ w.tracked, entry < w.processes.length
  /-- What is not tracked any more has settled. -/
  left : ∀ entry process, w.processes[entry]? = some process →
    entry ∈ w.tracked ∨ process.state = .settled
  processed : w.processes.map Process.claim = past.filterMap WorkerLabel.claim?
  runs : ∀ process ∈ w.processes, ∃ parsed turns,
    follow Process.step (.start options.workerId process.claim parsed) turns = some process

/-- What holds where the loop is suspended. -/
def AtLoop (options : WorkerOptions) (w : Worker) : Loop → Prop
  | .polling => w.inFlight < options.concurrency
  | .parked waiter =>
    waiter ≤ w.waiter ∧ (waiter = w.waiter → (options.concurrency : ℤ) ≤ w.inFlight)
  | .sleeping => True
  | .draining entries => ∀ entry ∈ w.tracked, entry ∈ entries
  | .ended => w.tracked = []

/-- **The invariant of a worker.** -/
structure Inv (options : WorkerOptions) (past : List WorkerLabel) (w : Worker) : Prop where
  core : w.Core options past
  loop : w.AtLoop options w.loop

/-- The core does not look at the loop, the connection or the promise. -/
theorem Core.congr (core : w.Core options past) (sameOptions : w'.options = w.options)
    (inFlight : w'.inFlight = w.inFlight) (tracked : w'.tracked = w.tracked)
    (processes : w'.processes = w.processes) : w'.Core options past := by
  obtain ⟨own, counted, bounded, nodup, started, left, processed, runs⟩ := core
  rw [← inFlight, ← tracked] at counted
  rw [← inFlight] at bounded
  rw [← tracked] at nodup
  rw [← tracked, ← processes] at started left
  rw [← processes] at processed runs
  exact ⟨sameOptions.trans own, counted, bounded, nodup, started, left, processed, runs⟩

/-- Nor does the loop look at the processes or the connection. -/
theorem AtLoop.congr {place : Loop} (here : w.AtLoop options place)
    (inFlight : w'.inFlight = w.inFlight) (tracked : w'.tracked = w.tracked)
    (waiter : w'.waiter = w.waiter) : w'.AtLoop options place := by
  cases place with
  | polling => exact inFlight.trans_lt here
  | parked g =>
    unfold AtLoop
    rw [waiter, inFlight]
    exact here
  | sleeping => exact trivial
  | draining entries =>
    unfold AtLoop
    rw [tracked]
    exact here
  | ended => exact tracked.trans here

/-- A label that returns no claim. -/
theorem Core.concat (core : w.Core options past) (claimless : l.claim? = none) :
    w.Core options (past ++ [l]) := by
  refine { core with processed := ?_ }
  rw [List.filterMap_append, core.processed, List.filterMap_cons_none claimless]
  exact (List.append_nil _).symm

/-- The head of the loop decides by what is in flight. -/
theorem Core.head (core : w.Core options past) : w.head.Inv options past := by
  unfold Worker.head
  split
  · exact ⟨core.congr rfl rfl rfl rfl, fun _ mem => mem⟩
  · split
    · rename_i full
      rw [core.own] at full
      exact ⟨core.congr rfl rfl rfl rfl, le_refl w.waiter, fun _ => full⟩
    · rename_i slot
      rw [core.own] at slot
      exact ⟨core.congr rfl rfl rfl rfl, not_le.mp slot⟩

/-- **A claim is given to a process.** -/
theorem Core.dispatch (core : w.Core options past) (slot : w.inFlight < options.concurrency)
    (now : ℤ) (claim : ClaimedJob) (parsed : Except Thrown Unit) :
    (w.dispatch claim parsed).Core options (past ++ [.found now claim parsed]) where
  own := core.own
  counted := by
    show w.inFlight + 1 = ((w.tracked ++ [w.processes.length]).length : ℤ)
    rw [core.counted, List.length_append]
    rfl
  bounded := slot
  nodup := by
    refine List.nodup_append'.mpr ⟨core.nodup, List.nodup_singleton _, ?_⟩
    exact List.disjoint_singleton.mpr fun mem => (core.started _ mem).false
  started := by
    intro entry mem
    show entry < (w.processes ++ [_]).length
    rw [List.length_append, List.length_singleton]
    rcases List.mem_append.mp mem with old | new
    · exact (core.started entry old).trans (Nat.lt_succ_self _)
    · rw [List.mem_singleton.mp new]
      exact Nat.lt_succ_self _
  left := by
    intro entry process found
    have found : (w.processes ++ [Process.start w.options.workerId claim parsed])[entry]? =
      some process := found
    rcases lt_or_ge entry w.processes.length with old | new
    · rw [List.getElem?_append_left old] at found
      exact (core.left entry process found).imp_left (List.mem_append_left _)
    · rw [List.getElem?_append_right new] at found
      obtain ⟨here, -⟩ := List.getElem?_eq_some_iff.mp found
      have last : entry = w.processes.length := by
        rw [List.length_singleton] at here
        omega
      exact .inl (List.mem_append_right _ (List.mem_singleton.mpr last))
  processed := by
    show (w.processes ++ [_]).map Process.claim = _
    rw [List.map_append, List.filterMap_append, core.processed]
    cases parsed with
    | error _ => rfl
    | ok _ => rfl
  runs := by
    intro process mem
    rcases List.mem_append.mp mem with old | new
    · exact core.runs process old
    · rw [List.mem_singleton.mp new, core.own]
      refine ⟨parsed, [], ?_⟩
      cases parsed with
      | error _ => rfl
      | ok _ => rfl

/-- A process takes a turn. -/
theorem Core.turn (core : w.Core options past) {entry : ℕ} {process next : Process}
    {label : ProcessLabel} (found : w.processes[entry]? = some process)
    (taken : process.step label = some next) :
    { w with processes := w.processes.set entry next }.Core options past := by
  obtain ⟨claim, settled⟩ := Process.step_keeps taken
  obtain ⟨inside, here⟩ := List.getElem?_eq_some_iff.mp found
  refine ⟨core.own, core.counted, core.bounded, core.nodup, ?_, ?_, ?_, ?_⟩
  · intro other mem
    show other < (w.processes.set entry next).length
    rw [List.length_set]
    exact core.started other mem
  · intro other after now
    have now : (w.processes.set entry next)[other]? = some after := now
    rcases eq_or_ne entry other with rfl | apart
    · rw [List.getElem?_set_self inside] at now
      cases now
      exact (core.left entry process found).imp_right settled
    · rw [List.getElem?_set_ne apart] at now
      exact core.left other after now
  · show (w.processes.set entry next).map Process.claim = _
    have place : entry < (w.processes.map Process.claim).length := by
      rw [List.length_map]
      exact inside
    rw [List.map_set, claim, ← here, ← List.getElem_map Process.claim (h := place),
      List.set_getElem_self]
    exact core.processed
  · intro after mem
    rcases List.mem_or_eq_of_mem_set mem with old | rfl
    · exact core.runs after old
    · obtain ⟨parsed, turns, ran⟩ := core.runs process (List.mem_of_getElem? found)
      rw [claim]
      exact ⟨parsed, turns ++ [label], follow_concat ran taken⟩

/-- **A settled process frees its slot**, and the promise of the moment resolves. -/
theorem Inv.release (inv : w.Inv options past) {entry : ℕ} (mem : entry ∈ w.tracked)
    (done : w.processes[entry]?.map Process.state = some .settled) :
    (w.release entry).Inv options past := by
  obtain ⟨core, loop⟩ := inv
  have shorter : (w.tracked.erase entry).length + 1 = w.tracked.length :=
    List.length_erase_add_one mem
  refine ⟨⟨core.own, ?_, ?_, core.nodup.erase entry, ?_, ?_, core.processed, core.runs⟩, ?_⟩
  · show w.inFlight - 1 = ((w.tracked.erase entry).length : ℤ)
    rw [core.counted]
    omega
  · have bounded := core.bounded
    show w.inFlight - 1 ≤ _
    omega
  · exact fun other still => core.started other (List.mem_of_mem_erase still)
  · intro other process found
    rcases eq_or_ne other entry with rfl | apart
    · have found : w.processes[other]? = some process := found
      rw [found, Option.map_some] at done
      exact .inr (Option.some.inj done)
    · exact (core.left other process found).imp_left (List.mem_erase_of_ne apart).mpr
  · -- The loop keeps its place; only the promise it may be parked on changes.
    show AtLoop options (w.release entry) w.loop
    cases place : w.loop with
    | polling =>
      rw [place] at loop
      have slot : w.inFlight < options.concurrency := loop
      show w.inFlight - 1 < _
      omega
    | parked waiter =>
      rw [place] at loop
      obtain ⟨old, -⟩ := loop
      refine ⟨old.trans (Nat.le_succ _), fun same => ?_⟩
      have same : waiter = w.waiter + 1 := same
      omega
    | sleeping => exact trivial
    | draining entries =>
      rw [place] at loop
      exact fun other still => loop other (List.mem_of_mem_erase still)
    | ended =>
      rw [place] at loop
      have empty : w.tracked = [] := loop
      rw [empty] at mem
      cases mem

theorem Inv.start (options : WorkerOptions) : (start options).Inv options [] := by
  refine Core.head ⟨rfl, rfl, Int.natCast_nonneg _, List.nodup_nil, ?_, ?_, rfl, ?_⟩
  · intro entry mem
    cases mem
  · intro entry process found
    cases found
  · intro process mem
    cases mem

/-- **A turn of the loop, of a process or of the caller keeps the invariant.** -/
theorem Inv.step (inv : w.Inv options past) (taken : w.step l = some w') :
    w'.Inv options (past ++ [l]) := by
  have core := inv.core
  have loop := inv.loop
  cases turn_of_step taken with
  | found polling now claim parsed =>
    rw [polling] at loop
    have seen : (w.onPollSuccess now).Core options past := core.congr rfl rfl rfl rfl
    exact (seen.dispatch loop now claim parsed).head
  | notFound | reported => exact ⟨(core.concat rfl).congr rfl rfl rfl rfl, trivial⟩
  | rejected => exact ⟨(core.concat rfl).congr rfl rfl rfl rfl, fun _ mem => mem⟩
  | wake | unpark => exact (core.concat rfl).head
  | process found turn => exact ⟨(core.turn found turn).concat rfl, loop.congr rfl rfl rfl⟩
  | release tracked settled =>
    obtain ⟨core, loop⟩ := inv.release tracked settled
    exact ⟨core.concat rfl, loop⟩
  | close => exact ⟨(core.concat rfl).congr rfl rfl rfl rfl, loop.congr rfl rfl rfl⟩
  | drained draining gone =>
    rw [draining] at loop
    refine ⟨(core.concat rfl).congr rfl rfl rfl rfl, ?_⟩
    exact List.eq_nil_iff_forall_not_mem.mpr fun entry mem => gone entry (loop entry mem) mem
  | closeResolves => exact ⟨core.concat rfl, loop⟩

/-- What the invariant says about the dispatch. -/
theorem Inv.dispatchSafe (inv : w.Inv options past) : DispatchSafe options past w where
  counted := ⟨inv.core.counted, inv.core.nodup⟩
  bounded := inv.core.bounded
  processed := inv.core.processed
  runs := inv.core.runs
  drains := by
    intro w' resolved
    simp only [Worker.step] at resolved
    split at resolved
    · rename_i enabled
      obtain ⟨ended, -, -⟩ := enabled
      have loop := inv.loop
      rw [ended] at loop
      have empty : w.tracked = [] := loop
      refine ⟨ended, fun process mem => ?_⟩
      obtain ⟨entry, found⟩ := List.mem_iff_getElem?.mp mem
      refine (inv.core.left entry process found).resolve_left ?_
      rw [empty]
      exact List.not_mem_nil
    · cases resolved
  wakes := by
    intro waiter parked pending _
    have loop := inv.loop
    rw [parked] at loop
    obtain ⟨old, full⟩ := loop
    exact full (le_antisymm old (not_lt.mp pending))

end Worker

/-! ## The guarantee -/

/-- **The dispatch loop is safe**, in every state of every run of a worker: whatever the
polls return and whenever jobs settle and the worker is closed. -/
theorem worker_dispatches_safely {options : WorkerOptions} {labels : List WorkerLabel} {w : Worker}
    (ran : follow Worker.step (.start options) labels = some w) : DispatchSafe options labels w :=
  (invariant_of_follow (I := Worker.Inv options) (fun taken inv => inv.step taken) [] ran
    (.start options)).dispatchSafe

/-- A worker with one slot parks after its first claim, goes on when that has settled, and is
closed during the next poll, which returns a claim that cannot be parsed. -/
def loopRun : List WorkerLabel :=
  [.found 0 mailClaim (.ok ()), .process 0 (.settle none), .process 0 .wake,
    .process 0 (.join true none), .process 0 .completed, .release 0, .unpark, .close,
    .found 1 mailClaim (.error (.ofMessage "Unexpected end of JSON input")), .process 1 .wake,
    .process 1 (.join true (some "Unexpected end of JSON input")), .process 1 .failAnswered,
    .release 1, .drained, .closeResolves]

theorem loopRun_safe :
    ∃ w, follow Worker.step (.start { workerId := "w" }) loopRun = some w ∧
      (w.processes.length, w.loop) = (2, .ended) ∧
      DispatchSafe { workerId := "w" } loopRun w := by
  have taken : (follow Worker.step (.start { workerId := "w" }) loopRun).map
      (fun w => (w.processes.length, w.loop)) = some (2, .ended) := by
    rfl
  obtain ⟨w, ran, reached⟩ := Option.map_eq_some_iff.mp taken
  exact ⟨w, ran, reached, worker_dispatches_safely ran⟩

end AnvilMQ.Client
