import AnvilMQ.Broker
import AnvilMQ.Client.Worker
import Mathlib.Logic.Function.Basic

/-!
# Workers and the broker over a network

A family of workers, a broker, and a network that may lose, delay, duplicate and reorder what
it carries.  A request reaches the broker any number of times, at any time after it was sent and
in any order, or not at all.  An answer reaches its worker if the worker still waits for that
call.  A call may also fail at any time, which says nothing about its request: a deadline that
passes is such a failure.  Between the deliveries the broker serves any other operation, its own
sweeps among them.

## Design notes

A call of a process is named by the position of its event in the log of the process, so what
is on the network is what the logs say was sent.  `failAnswered` stands for a `failJob` that
returns and for one that fails, and the worker does the same after both; it is a turn the
worker takes by itself here.
-/

namespace AnvilMQ.Client

open Transition

/-- A call of a worker: a poll by its number, or the event of a process that sent it. -/
inductive WorkerCall
  | poll (n : ℕ)
  | process (entry position : ℕ)
deriving DecidableEq

/-- The broker's operations so far, the workers, how many polls each has sent, the answers the
broker has given, and the processes counted in `jobsProcessedTotal`. -/
structure Fleet (ι : Type) where
  run : List Op
  workers : ι → Worker
  polls : ι → ℕ
  answers : List (ι × WorkerCall × Except Status Reply)
  processed : List (ι × ℕ)

/-- What can happen next. -/
inductive FleetLabel (ι : Type)
  /-- A worker takes a turn that waits for no answer. -/
  | turn (i : ι) (label : WorkerLabel)
  /-- A copy of a request reaches the broker. -/
  | deliver (i : ι) (call : WorkerCall) (clock : Clock) (jittered : ℤ)
  /-- The broker serves something else. -/
  | other (op : Op)
  /-- A copy of an answer reaches its worker. -/
  | answer (n : ℕ) (now : ℤ) (parsed : Except Thrown Unit)

/-- The turns that wait for an answer are those on which a call returns. -/
def WorkerLabel.waits : WorkerLabel → Bool
  | found _ _ _ => true
  | notFound _ => true
  | process _ .beatReturns => true
  | process _ .completed => true
  | _ => false

/-- The turns that lead to the head of the loop. -/
def WorkerLabel.loops : WorkerLabel → Bool
  | found _ _ _ => true
  | wake => true
  | unpark => true
  | _ => false

/-- The process a turn counts in `jobsProcessedTotal`. -/
def WorkerLabel.counts : WorkerLabel → Option ℕ
  | process entry .completed => some entry
  | _ => none

/-- The request an event of a process sends. -/
def ProcessEvent.request (clock : Clock) (jittered : ℤ) : ProcessEvent → Option Op
  | beat request => some (.heartbeat clock request)
  | acked (.complete request) => some (.completeJob clock request)
  | acked (.fail request) => some (.failJob clock jittered request)
  | _ => none

/-- The event sends a heartbeat. -/
def ProcessEvent.isBeat : ProcessEvent → Bool
  | beat _ => true
  | _ => false

/-- The event sends an acknowledgment. -/
def ProcessEvent.isAck : ProcessEvent → Bool
  | acked _ => true
  | _ => false

/-- No event of the kind follows the position in the log of a process. -/
def Process.latest (p : Process) (kind : ProcessEvent → Bool) (position : ℕ) : Bool :=
  (p.log.drop (position + 1)).all fun event => !kind event

namespace Fleet

variable {ι : Type}

/-- The workers are constructed, and each has sent its first poll. -/
def start (options : ι → WorkerOptions) (before : List Op) : Fleet ι where
  run := before
  workers i := .start (options i)
  polls _ := 1
  answers := []
  processed := []

/-- A process of a worker. -/
def process (s : Fleet ι) (i : ι) (entry : ℕ) : Option Process := (s.workers i).processes[entry]?

/-- The request of a call, once it was sent.  A worker polls its own queue. -/
def request (queue : ι → String) (s : Fleet ι) (i : ι) (clock : Clock) (jittered : ℤ) :
    WorkerCall → Option Op
  | .poll n =>
    if n < s.polls i then
      some (.getNextJob clock
        { workerId := (s.workers i).options.workerId, queueNames := [queue i] })
    else none
  | .process entry position =>
    ((s.process i entry).bind (·.log[position]?)).bind (·.request clock jittered)

/-- The turn an answer lets its worker take, if the worker waits for it. -/
def returns (s : Fleet ι) (i : ι) (now : ℤ) (parsed : Except Thrown Unit) :
    WorkerCall → Except Status Reply → Option WorkerLabel
  | .poll n, .ok (.claimed job) =>
    if n + 1 = s.polls i then
      some (match job with
        | some job => .found now job parsed
        | none => .notFound now)
    else none
  | .process entry position, .ok (.renewed _) =>
    if (s.process i entry).any (·.latest ProcessEvent.isBeat position) then
      some (.process entry .beatReturns)
    else none
  | .process entry position, .ok .completed =>
    if (s.process i entry).any (·.latest ProcessEvent.isAck position) then
      some (.process entry .completed)
    else none
  | _, _ => none

variable [DecidableEq ι]

/-- A worker has taken a turn. -/
def setWorker (s : Fleet ι) (i : ι) (label : WorkerLabel) (w : Worker) : Fleet ι :=
  { s with
    workers := Function.update s.workers i w
    polls := Function.update s.polls i
      (s.polls i + if label.loops && decide (w.loop = .polling) then 1 else 0)
    processed := s.processed ++ (label.counts.map (i, ·)).toList }

theorem workers_setWorker (s : Fleet ι) (i : ι) (label : WorkerLabel) (w : Worker) (j : ι) :
    (s.setWorker i label w).workers j = if j = i then w else s.workers j :=
  Function.update_apply s.workers i w j

theorem polls_setWorker (s : Fleet ι) (i : ι) (label : WorkerLabel) (w : Worker) (j : ι) :
    (s.setWorker i label w).polls j =
      if j = i then s.polls i + if label.loops && decide (w.loop = .polling) then 1 else 0
      else s.polls j :=
  Function.update_apply s.polls i _ j

/-- The broker serves a request of a worker. -/
def served (ext : Externals) (service : Service) (s : Fleet ι) (i : ι) (call : WorkerCall)
    (op : Op) : Fleet ι :=
  { s with
    run := s.run ++ [op]
    answers := s.answers ++
      [(i, call, (servedNext ext service s.run op).2.map Prod.fst)] }

/-- One step of the workers, the network or the broker. -/
def step (ext : Externals) (service : Service) (queue : ι → String) (s : Fleet ι) :
    FleetLabel ι → Option (Fleet ι)
  | .turn i label =>
    if label.waits then none else ((s.workers i).step label).map (s.setWorker i label)
  | .deliver i call clock jittered =>
    (s.request queue i clock jittered call).map (s.served ext service i call)
  | .other op => some { s with run := s.run ++ [op] }
  | .answer n now parsed =>
    match s.answers[n]? with
    | none => none
    | some (i, call, reply) =>
      (s.returns i now parsed call reply).bind fun label =>
        ((s.workers i).step label).map (s.setWorker i label)

/-- What a step needs, and what it makes of a fleet. -/
inductive Move (ext : Externals) (service : Service) (queue : ι → String) (s : Fleet ι) :
    FleetLabel ι → Fleet ι → Prop
  | turn {i : ι} {label : WorkerLabel} {w : Worker} (alone : label.waits = false)
      (taken : (s.workers i).step label = some w) :
      Move ext service queue s (.turn i label) (s.setWorker i label w)
  | deliver {i : ι} {call : WorkerCall} {clock : Clock} {jittered : ℤ} {op : Op}
      (sent : s.request queue i clock jittered call = some op) :
      Move ext service queue s (.deliver i call clock jittered) (s.served ext service i call op)
  | other (op : Op) : Move ext service queue s (.other op) { s with run := s.run ++ [op] }
  | answer {n : ℕ} {now : ℤ} {parsed : Except Thrown Unit} {i : ι} {call : WorkerCall}
      {reply : Except Status Reply} {label : WorkerLabel} {w : Worker}
      (kept : (i, call, reply) ∈ s.answers)
      (returned : s.returns i now parsed call reply = some label)
      (taken : (s.workers i).step label = some w) :
      Move ext service queue s (.answer n now parsed) (s.setWorker i label w)

/-- **What one step of the fleet can do.** -/
theorem move_of_step {ext : Externals} {service : Service} {queue : ι → String} {s s' : Fleet ι}
    {label : FleetLabel ι} (taken : s.step ext service queue label = some s') :
    s.Move ext service queue label s' := by
  cases label with
  | turn i label =>
    simp only [step] at taken
    split at taken
    · cases taken
    · rename_i alone
      obtain ⟨w, stepped, rfl⟩ := Option.map_eq_some_iff.mp taken
      exact .turn (by simpa using alone) stepped
  | deliver i call clock jittered =>
    obtain ⟨op, sent, rfl⟩ := Option.map_eq_some_iff.mp taken
    exact .deliver sent
  | other op =>
    cases taken
    exact .other op
  | answer n now parsed =>
    simp only [step] at taken
    split at taken
    · cases taken
    · rename_i i call reply found
      obtain ⟨label, returned, rest⟩ := Option.bind_eq_some_iff.mp taken
      obtain ⟨w, stepped, rfl⟩ := Option.map_eq_some_iff.mp rest
      exact .answer (List.mem_of_getElem? found) returned stepped

end Fleet

end AnvilMQ.Client
