import AnvilMQ.Client.Link
import AnvilMQ.Transition.Pool

/-!
# The fan-out of a job

`enqueueChildBulk` of `Worker.process` (`client/src/index.ts`): a bounded pool of eight adds,
one for each child, under keys made of the parent, the name and the position of the child.  The
first error stops the adds that have not begun.

The executions of the handler of one parent job are numbered.  Each of them calls
`enqueueChildBulk` with the same children, and the adds of all of them go over one network to
one broker, so the add of child `i` in execution `e` is the call `(e, i)`.  An execution that is
cut off takes no further turn, and its requests may still be on their way.

## Design notes

A task that is handed out begins in a turn of its own.
-/

namespace AnvilMQ.Client

open Transition

/-! ## Children -/

/-- A child, with what `JSON.stringify` makes of its data. -/
structure Child where
  name : String
  json : Json
  options : AddOptions := {}

/-- The default key of a child. -/
def childKey (parentId : JobId) (name : String) (i : ℕ) : String :=
  parentId ++ ":" ++ name ++ ":" ++ toString i

/-- Children of one queue have different keys. -/
theorem childKey_injective {parentId : JobId} {name : String} {i j : ℕ}
    (same : childKey parentId name i = childKey parentId name j) : i = j := by
  have index : toString i = toString j := (String.append_right_inj _).mp same
  have read : ∀ n, Nat.ofDigitChars 10 (toString n).toList 0 = n := fun n => by
    rw [Nat.toString_eq_ofList_toDigits, String.toList_ofList, Nat.ofDigitChars_ten_toDigits]
  rw [← read i, ← read j, index]

/-- The options of the add of a child. -/
def childOptions (parentId : JobId) (child : Child) (i : ℕ) : AddOptions :=
  { child.options with
    idempotencyKey := some (child.options.idempotencyKey.getD (childKey parentId child.name i))
    metadata := some { parentId := some parentId } }

/-- The add of a child up to its first attempt; no key is minted for it. -/
def prepareChild (parentId : JobId) (children : List Child) (i : ℕ) :
    Option (Except Thrown Prepared) :=
  children[i]?.map fun child =>
    prepareAdd child.name child.json (childOptions parentId child i) ""

/-- The calls of the executions. -/
def childCall (parentId : JobId) (children : List Child) (c : ℕ × ℕ) : Option Prepared :=
  (prepareChild parentId children c.2).bind Except.toOption

/-! ## Executions -/

/-- What the task of a child is suspended on. -/
inductive ChildStage
  /-- It has not begun. -/
  | handedOut
  /-- It found the execution stopped. -/
  | skipped
  /-- Its add threw before the first attempt. -/
  | threw (error : Thrown)
  /-- Its add is on its way. -/
  | sending
deriving DecidableEq

/-- A call of `enqueueChildBulk`.  Only the stages of tasks in flight mean something. -/
structure Execution where
  pool : Pool
  stage : ℕ → ChildStage := fun _ => .handedOut
  /-- `stopped` and `firstError`. -/
  stopped : Option Thrown := none
  results : ℕ → Option AddJobResponse := fun _ => none

namespace Execution

/-- `enqueueChildBulk` up to its first suspension. -/
def start (count : ℕ) : Execution := { pool := .start count 8 }

/-- The task of a child is suspended on something else. -/
def await (x : Execution) (i : ℕ) (stage : ChildStage) : Execution :=
  { x with stage := Function.update x.stage i stage }

/-- The task of a child returns. -/
def finish (x : Execution) (i : ℕ) : Execution := { x with pool := x.pool.finish i }

/-- The `catch` of a task. -/
def caught (x : Execution) (error : Thrown) : Execution :=
  { x with stopped := some (x.stopped.getD error) }

/-- A result is stored. -/
def store (x : Execution) (i : ℕ) (response : AddJobResponse) : Execution :=
  { x with results := Function.update x.results i (some response) }

/-- How `enqueueChildBulk` ends, once every task has returned. -/
def outcome (x : Execution) : Option (Except Thrown (List (Option AddJobResponse))) :=
  if x.pool.running = [] then
    match x.stopped with
    | some error => some (.error error)
    | none => some (.ok ((List.range x.pool.count).map x.results))
  else none

end Execution

/-! ## The system -/

/-- The network and the broker, and the executions. -/
structure FanOut where
  link : Link (ℕ × ℕ)
  executions : ℕ → Option Execution

/-- What can happen next. -/
inductive FanOutLabel
  /-- An execution calls `enqueueChildBulk`. -/
  | execute (e : ℕ)
  /-- The task of a child begins. -/
  | begin (e i : ℕ) (started : ℤ)
  /-- The task of a child goes on after its add, or returns. -/
  | settle (e i : ℕ)
  /-- A step of a call on its way, of the network or of the broker. -/
  | network (l : LinkLabel (ℕ × ℕ))

namespace FanOut

/-- No execution has begun. -/
def start (before : List Op) : FanOut := ⟨.start before, fun _ => none⟩

/-- Go on with an execution. -/
def setExecution (s : FanOut) (e : ℕ) (x : Execution) : FanOut :=
  { s with executions := Function.update s.executions e (some x) }

theorem executions_setExecution (s : FanOut) (e : ℕ) (x : Execution) (d : ℕ) :
    (s.setExecution e x).executions d = if d = e then some x else s.executions d :=
  Function.update_apply s.executions e (some x) d

/-- One step of the executions of a parent. -/
def step (ext : Externals) (service : Service) (parentId : JobId) (children : List Child)
    (s : FanOut) : FanOutLabel → Option FanOut
  | .execute e =>
    match s.executions e with
    | some _ => none
    | none => some (s.setExecution e (.start children.length))
  | .begin e i started =>
    match s.executions e with
    | none => none
    | some x =>
      if i ∈ x.pool.running ∧ x.stage i = .handedOut then
        if x.stopped.isSome then some (s.setExecution e (x.await i .skipped))
        else
          match prepareChild parentId children i with
          | none => none
          | some (.error error) => some (s.setExecution e (x.await i (.threw error)))
          | some (.ok _) =>
            (s.link.step ext service (childCall parentId children) (.send (e, i) started)).map
              fun link => { s with link := link }.setExecution e (x.await i .sending)
      else none
  | .settle e i =>
    match s.executions e with
    | none => none
    | some x =>
      if i ∈ x.pool.running then
        match x.stage i with
        | .handedOut => none
        | .skipped => some (s.setExecution e (x.finish i))
        | .threw error => some (s.setExecution e ((x.caught error).finish i))
        | .sending =>
          match (s.link.calls (e, i)).map Sending.state with
          | some (.resolved response) =>
            some (s.setExecution e ((x.store i response).finish i))
          | some (.rejected error) => some (s.setExecution e ((x.caught error).finish i))
          | _ => none
      else none
  | .network (.send _ _) => none
  | .network l =>
    (s.link.step ext service (childCall parentId children) l).map fun link =>
      { s with link := link }

end FanOut

end AnvilMQ.Client
