import AnvilMQ.Client.SendAdd
import AnvilMQ.Transition.Pool
import Mathlib.Logic.Function.Basic

/-!
# The bulk add of the client

`Queue.addBulk` (`client/src/index.ts`) with its `boundedPool`: one `sendAdd` for each item, at
most `concurrency` of them at a time.  The result of an item stands at the position of the item.
With `stopOnError` the first failure keeps the items that have not begun from being sent, and the
call rejects when the pool has run dry.

A task begins in the turn in which its worker takes the index: it returns at once when the call
was stopped, and calls `sendAdd` otherwise.  When the send settles the task records the outcome
and returns, and in a later turn its worker takes the next index.  Between the two turns other
tasks may take theirs.

## Design notes

What `sendAdd` makes of an item is given from outside, and so is the order in which the sends
settle.  `started`, `sent` and `settled` are a history of the call, written by the steps and read
by none.
-/

namespace AnvilMQ.Client

open Rust Transition

/-- `AddResult`. -/
inductive AddResult
  | ok (id : JobId) (state : LiveState) (replayed : Bool)
  | failed (error : Thrown)
deriving DecidableEq

/-- What is recorded of the outcome of a send. -/
def AddResult.of : Except Thrown AddJobResponse → AddResult
  | .ok response => .ok response.id response.state response.replayed
  | .error error => .failed error

/-- What JavaScript knows of a thrown value. -/
structure Coercions where
  /-- `thrown instanceof Error`. -/
  isError : Thrown → Bool
  /-- `String(thrown)`. -/
  asString : Thrown → String

/-- `firstError instanceof Error ? firstError : new Error(String(firstError))`. -/
def Coercions.toError (js : Coercions) (thrown : Thrown) : Thrown :=
  if js.isError thrown then thrown else .ofMessage (js.asString thrown)

/-! ## A call -/

/-- How far the task of an item is. -/
inductive ItemStage
  /-- No worker has taken the index. -/
  | ahead
  /-- Its send is on its way. -/
  | sending
  /-- The task has returned. -/
  | returned
deriving DecidableEq

/-- A call of `addBulk`. -/
structure Bulk where
  pool : Pool
  stage : ℕ → ItemStage
  /-- `stopped` and `firstError`. -/
  stopped : Option Thrown := none
  results : ℕ → Option AddResult := fun _ => none
  /-- The indices whose task was called. -/
  started : List ℕ
  /-- The indices that were sent. -/
  sent : List ℕ
  /-- The indices whose send has settled. -/
  settled : List ℕ := []

/-- What can happen next to a call. -/
inductive BulkLabel
  /-- The send of an item settles, and its task goes on. -/
  | answer (i : ℕ)
  /-- The worker of an item goes on after its task. -/
  | resume (i : ℕ)
deriving DecidableEq

/-- The error of an outcome. -/
def errorOf : Except Thrown AddJobResponse → Option Thrown
  | .ok _ => none
  | .error error => some error

/-- What a rejection carries: the error and its `results`. -/
structure BulkError where
  error : Thrown
  results : List (Option AddResult)
deriving DecidableEq

namespace Bulk

/-- A call with its first tasks begun; none is stopped yet. -/
def start (count concurrency : ℕ) : Bulk :=
  let pool := Pool.start count concurrency
  { pool := pool
    stage := fun i => if i ∈ pool.running then .sending else .ahead
    started := pool.running
    sent := pool.running }

/-- The task of an item is called. -/
def begin (s : Bulk) (i : ℕ) : Bulk :=
  if s.stopped.isSome then
    { s with stage := Function.update s.stage i .returned, started := s.started ++ [i] }
  else
    { s with
      stage := Function.update s.stage i .sending
      started := s.started ++ [i]
      sent := s.sent ++ [i] }

/-- The task of an item goes on after its send. -/
def record (s : Bulk) (stopOnError : Bool) (i : ℕ) (outcome : Except Thrown AddJobResponse) :
    Bulk :=
  { s with
    stage := Function.update s.stage i .returned
    results := Function.update s.results i (some (.of outcome))
    stopped := if stopOnError then s.stopped.or (errorOf outcome) else s.stopped
    settled := s.settled ++ [i] }

/-- The worker of an item takes the next index, if there is one, and calls its task. -/
def advance (s : Bulk) (i : ℕ) : Bulk :=
  if s.pool.next < s.pool.count then
    { s with pool := s.pool.finish i }.begin s.pool.next
  else { s with pool := s.pool.finish i }

/-- One turn of a call; `outcome` is what `sendAdd` makes of each item. -/
def step (stopOnError : Bool) (outcome : ℕ → Except Thrown AddJobResponse) (s : Bulk) :
    BulkLabel → Option Bulk
  | .answer i => if s.stage i = .sending then some (s.record stopOnError i (outcome i)) else none
  | .resume i =>
    if i ∈ s.pool.running ∧ s.stage i = .returned then some (s.advance i) else none

/-- The array of results, with a hole where nothing was recorded. -/
def recorded (s : Bulk) : List (Option AddResult) := (List.range s.pool.count).map s.results

/-- How the call settles, once every worker has ended. -/
def result (js : Coercions) (stopOnError : Bool) (s : Bulk) :
    Option (Except BulkError (List (Option AddResult))) :=
  if s.pool.running = [] then
    match stopOnError, s.stopped with
    | true, some error => some (.error ⟨js.toError error, s.recorded⟩)
    | _, _ => some (.ok s.recorded)
  else none

end Bulk

end AnvilMQ.Client
