import AnvilMQ.Client.SendAdd
import AnvilMQ.Transition.Run

/-!
# The worker of the client

`Worker` (`client/src/index.ts`): a loop that polls the broker for claims and processes up
to `concurrency` of them at a time.  `process` runs the handler of one claim beside a loop
that sends its heartbeats, and acknowledges the claim when both have ended.

Two machines, one inside the other.  A `Process` is one call of `process`; its two threads
are the handler with what follows it and the heartbeat loop, and they share the abort
signals `heartbeatStop` and `aborted`.  A `Worker` is the polling loop together with every
`process` call it has made.  A step is one turn of one thread, from what it was suspended on
to what it is suspended on next; its label says which thread takes the turn and gives what
comes from outside.

## Design notes

The log of a process is a history of what it did, written by the steps and read by none.
The clocks of `health` and the counters of `metrics` are left out, but for those of the
connection.  A sleep may end at any moment, so the delays it is given are left out as well.
-/

namespace AnvilMQ.Client

open Transition

/-! ## One claim -/

/-- What an acknowledgment says. -/
inductive Ack
  | complete (request : CompleteJobRequest)
  | fail (request : FailJobRequest)
deriving DecidableEq

/-- What a process has done. -/
inductive ProcessEvent
  /-- The handler was invoked. -/
  | invoked
  /-- The handler resolved. -/
  | resolved
  /-- The payload could not be parsed, or the handler threw. -/
  | failed (failure : Thrown)
  /-- A heartbeat was sent. -/
  | beat (request : HeartbeatRequest)
  /-- A heartbeat failed. -/
  | beatLost
  /-- An acknowledgment was sent. -/
  | acked (ack : Ack)
deriving DecidableEq

/-- What the heartbeat loop is suspended on, or how it ended. -/
inductive Beats
  | sleeping
  | calling
  | ended
  | thrown
deriving DecidableEq

/-- What `process` itself is suspended on. -/
inductive ProcessState
  /-- The handler. -/
  | handling
  /-- The heartbeat loop, after the handler resolved or failed. -/
  | joining (failure : Option Thrown)
  /-- An attempt of `completeJob`. -/
  | completing (attempt : ℕ)
  /-- The sleep after an attempt of `completeJob`. -/
  | pausing (attempt : ℕ)
  /-- `failJob`. -/
  | failing
  /-- Nothing any more. -/
  | settled
deriving DecidableEq

/-- A call of `process`. -/
structure Process where
  workerId : String
  claim : ClaimedJob
  state : ProcessState
  beats : Beats := .sleeping
  heartbeatStop : Bool := false
  /-- `handler.signal.aborted`. -/
  aborted : Bool := false
  log : List ProcessEvent
deriving DecidableEq

/-- What can happen next to a process. -/
inductive ProcessLabel
  /-- The sleep of the heartbeat loop ends. -/
  | wake
  /-- The heartbeat in flight returns. -/
  | beatReturns
  /-- The heartbeat in flight fails; `report` may throw. -/
  | beatFails (reports : Bool)
  /-- The handler settles, with a failure or without. -/
  | settle (failure : Option Thrown)
  /-- `process` goes on after the heartbeat loop.  For a failure `report` may throw, and so
  may the conversion of the failure to a message. -/
  | join (reports : Bool) (message : Option String)
  /-- `completeJob` returns. -/
  | completed
  /-- `completeJob` fails. -/
  | completionFails (error : Thrown)
  /-- The sleep after an attempt ends. -/
  | retry
  /-- `failJob` returns or fails. -/
  | failAnswered

/-- The completion of a claim. -/
def completion (workerId : String) (claim : ClaimedJob) : CompleteJobRequest :=
  { id := claim.id, workerId := workerId, attempt := claim.attempts }

/-- The failure of a claim. -/
def failReport (workerId : String) (claim : ClaimedJob) (message : String) : FailJobRequest :=
  { id := claim.id, workerId := workerId, attempt := claim.attempts, errorMessage := message }

namespace Process

/-- `process` up to its first suspension.  The heartbeat loop starts with a sleep; a payload
that cannot be parsed is a failure without a handler. -/
def start (workerId : String) (claim : ClaimedJob) (parsed : Except Thrown Unit) : Process :=
  match parsed with
  | .ok () =>
    { workerId := workerId
      claim := claim
      state := .handling
      log := [.invoked] }
  | .error failure =>
    { workerId := workerId
      claim := claim
      state := .joining (some failure)
      heartbeatStop := true
      log := [.failed failure] }

/-- Record what happened. -/
def record (p : Process) (event : ProcessEvent) : Process := { p with log := p.log ++ [event] }

/-- Nothing is left to do. -/
def settle (p : Process) : Process := { p with state := .settled }

/-- Send an attempt of `completeJob`. -/
def complete (p : Process) (attempt : ℕ) : Process :=
  { p with state := .completing attempt }.record
    (.acked (.complete (completion p.workerId p.claim)))

/-- Send `failJob`. -/
def fail (p : Process) (message : String) : Process :=
  { p with state := .failing }.record (.acked (.fail (failReport p.workerId p.claim message)))

/-- What follows `await beats` when the loop has ended. -/
def conclude (p : Process) (failure : Option Thrown) (reports : Bool) (message : Option String) :
    Process :=
  if p.aborted then p.settle
  else
    match failure, reports, message with
    | none, _, _ => p.complete 0
    | some _, true, some message => p.fail message
    | some _, _, _ => p.settle

/-- One turn of a process. -/
def step (p : Process) : ProcessLabel → Option Process
  | .wake =>
    match p.beats with
    | .sleeping =>
      some <|
        if p.heartbeatStop then { p with beats := .ended }
        else
          { p with beats := .calling }.record
            (.beat { id := p.claim.id, workerId := p.workerId, attempt := p.claim.attempts })
    | _ => none
  | .beatReturns =>
    match p.beats with
    | .calling => some { p with beats := if p.heartbeatStop then .ended else .sleeping }
    | _ => none
  | .beatFails reports =>
    match p.beats with
    | .calling =>
      some ({ p with
        beats := if reports then .ended else .thrown
        aborted := true }.record .beatLost)
    | _ => none
  | .settle failure =>
    match p.state with
    | .handling =>
      some ({ p with state := .joining failure, heartbeatStop := true }.record
        (failure.elim .resolved .failed))
    | _ => none
  | .join reports message =>
    match p.state, p.beats with
    | .joining failure, .ended => some (p.conclude failure reports message)
    | .joining _, .thrown => some p.settle
    | _, _ => none
  | .completed =>
    match p.state with
    | .completing _ => some p.settle
    | _ => none
  | .completionFails error =>
    match p.state with
    | .completing attempt =>
      some (if 2 ≤ attempt || !error.transient then p.settle
        else { p with state := .pausing attempt })
    | _ => none
  | .retry =>
    match p.state with
    | .pausing attempt => some (p.complete (attempt + 1))
    | _ => none
  | .failAnswered =>
    match p.state with
    | .failing => some p.settle
    | _ => none

/-- What a turn needs, and what it makes of a process. -/
inductive Turn (p : Process) : ProcessLabel → Process → Prop
  | stopped (sleeping : p.beats = .sleeping) (stop : p.heartbeatStop = true) :
      Turn p .wake { p with beats := .ended }
  | beat (sleeping : p.beats = .sleeping) :
      Turn p .wake ({ p with beats := .calling }.record
        (.beat { id := p.claim.id, workerId := p.workerId, attempt := p.claim.attempts }))
  | beatReturns (calling : p.beats = .calling) :
      Turn p .beatReturns { p with beats := if p.heartbeatStop then .ended else .sleeping }
  | beatFails (calling : p.beats = .calling) (reports : Bool) :
      Turn p (.beatFails reports) ({ p with
        beats := if reports then .ended else .thrown
        aborted := true }.record .beatLost)
  | settle (handling : p.state = .handling) (failure : Option Thrown) :
      Turn p (.settle failure) ({ p with state := .joining failure, heartbeatStop := true }.record
        (failure.elim .resolved .failed))
  | join {failure : Option Thrown} (joining : p.state = .joining failure) (ended : p.beats = .ended)
      (reports : Bool) (message : Option String) :
      Turn p (.join reports message) (p.conclude failure reports message)
  | rejects {failure : Option Thrown} (joining : p.state = .joining failure)
      (thrown : p.beats = .thrown) (reports : Bool) (message : Option String) :
      Turn p (.join reports message) p.settle
  | completed {n : ℕ} (completing : p.state = .completing n) : Turn p .completed p.settle
  | gaveUp {n : ℕ} (completing : p.state = .completing n) (error : Thrown) :
      Turn p (.completionFails error) p.settle
  | paused {n : ℕ} (completing : p.state = .completing n) {error : Thrown} (again : n < 2) :
      Turn p (.completionFails error) { p with state := .pausing n }
  | retry {n : ℕ} (pausing : p.state = .pausing n) : Turn p .retry (p.complete (n + 1))
  | failAnswered (failing : p.state = .failing) : Turn p .failAnswered p.settle

/-- **What one step of a process can do.** -/
theorem turn_of_step {p p' : Process} {l : ProcessLabel} (taken : p.step l = some p') :
    p.Turn l p' := by
  cases l with
  | wake =>
    simp only [step] at taken
    split at taken
    · rename_i sleeping
      cases taken
      split
      · exact .stopped sleeping ‹_›
      · exact .beat sleeping
    · cases taken
  | beatReturns =>
    simp only [step] at taken
    split at taken
    · cases taken
      exact .beatReturns ‹_›
    · cases taken
  | beatFails reports =>
    simp only [step] at taken
    split at taken
    · cases taken
      exact .beatFails ‹_› reports
    · cases taken
  | settle failure =>
    simp only [step] at taken
    split at taken
    · cases taken
      exact .settle ‹_› failure
    · cases taken
  | join reports message =>
    simp only [step] at taken
    split at taken
    · rename_i failure joining ended
      cases taken
      exact .join joining ended reports message
    · rename_i failure joining thrown
      cases taken
      exact .rejects joining thrown reports message
    · cases taken
  | completed =>
    simp only [step] at taken
    split at taken
    · rename_i n completing
      cases taken
      exact .completed completing
    · cases taken
  | completionFails error =>
    simp only [step] at taken
    split at taken
    · rename_i n completing
      cases taken
      split
      · exact .gaveUp completing error
      · rename_i again
        refine .paused completing ?_
        simp only [Bool.or_eq_true, decide_eq_true_eq, not_or] at again
        omega
    · cases taken
  | retry =>
    simp only [step] at taken
    split at taken
    · rename_i n pausing
      cases taken
      exact .retry pausing
    · cases taken
  | failAnswered =>
    simp only [step] at taken
    split at taken
    · rename_i failing
      cases taken
      exact .failAnswered failing
    · cases taken

end Process

/-! ## The connection -/

/-- What a worker knows about its connection. -/
structure Contact where
  connected : Bool := true
  consecutiveFailures : ℕ := 0
  failuresWhileDown : ℕ := 0
  lostSince : ℤ := 0
  lastPollOkAt : ℤ := 0
  pollFailuresTotal : ℕ := 0
  reconnectsTotal : ℕ := 0
deriving DecidableEq

/-- The callbacks about the connection. -/
inductive ConnectionEvent
  | lost (error : Thrown) (consecutiveFailures : ℕ)
  | restored (downForMs : ℤ) (failuresWhileDown : ℕ)
deriving DecidableEq

/-- `onPollSuccess`, with what it emits. -/
def Contact.onPollSuccess (contact : Contact) (now : ℤ) : Contact × List ConnectionEvent :=
  if contact.connected then
    ({ contact with lastPollOkAt := now, consecutiveFailures := 0, failuresWhileDown := 0 }, [])
  else
    ({ contact with
        lastPollOkAt := now
        connected := true
        reconnectsTotal := contact.reconnectsTotal + 1
        consecutiveFailures := 0
        failuresWhileDown := 0 },
      [.restored (now - contact.lostSince) contact.failuresWhileDown])

/-- `onPollFailure`, with what it emits. -/
def Contact.onPollFailure (contact : Contact) (threshold : ℕ) (now : ℤ) (error : Thrown) :
    Contact × List ConnectionEvent :=
  let failures := contact.consecutiveFailures + 1
  let counted :=
    { contact with
      consecutiveFailures := failures
      pollFailuresTotal := contact.pollFailuresTotal + 1 }
  if contact.connected then
    if threshold ≤ failures then
      ({ counted with connected := false, lostSince := now, failuresWhileDown := failures },
        [.lost error failures])
    else (counted, [])
  else ({ counted with failuresWhileDown := contact.failuresWhileDown + 1 }, [])

/-! ## The polling loop -/

/-- The options of a worker that its loop reads, which its constructor checks. -/
structure WorkerOptions where
  workerId : String
  concurrency : ℕ := 1
  connectionLostThreshold : ℕ := 3
  concurrent : 1 ≤ concurrency := by decide
  patient : 1 ≤ connectionLostThreshold := by decide

/-- What the polling loop is suspended on. -/
inductive Loop
  /-- `getNextJob`. -/
  | polling
  /-- The slot-freed promise it found, or the abort. -/
  | parked (waiter : ℕ)
  /-- The sleep between two polls. -/
  | sleeping
  /-- The entries it found tracked when it left the loop. -/
  | draining (entries : List ℕ)
  /-- Nothing any more. -/
  | ended
deriving DecidableEq

/-- A worker.  An entry of `tracked` is the position of its `process` call.  The slot-freed
promises are numbered; `waiter` is the one that is armed, and those before it are
resolved. -/
structure Worker where
  options : WorkerOptions
  loop : Loop
  /-- An exception has left the loop. -/
  rejected : Bool := false
  inFlight : ℤ := 0
  tracked : List ℕ := []
  waiter : ℕ := 0
  /-- `stopping.signal.aborted`. -/
  stopping : Bool := false
  processes : List Process := []
  contact : Contact := {}
  emitted : List ConnectionEvent := []

/-- What can happen next to a worker. -/
inductive WorkerLabel
  /-- `getNextJob` returns a claim, whose payload parses or not. -/
  | found (now : ℤ) (claim : ClaimedJob) (parsed : Except Thrown Unit)
  /-- `getNextJob` returns without a claim. -/
  | notFound (now : ℤ)
  /-- `getNextJob` fails; `report` may throw. -/
  | pollFails (now : ℤ) (error : Thrown) (reports : Bool)
  /-- The sleep between two polls ends, or is aborted. -/
  | wake
  /-- The loop goes on after it was parked. -/
  | unpark
  /-- A turn of a process. -/
  | process (entry : ℕ) (label : ProcessLabel)
  /-- A process has settled, and its `finally` runs. -/
  | release (entry : ℕ)
  /-- `close` is called. -/
  | close
  /-- The entries the loop waited for have settled. -/
  | drained
  /-- A call of `close` resolves. -/
  | closeResolves

namespace Worker

/-- The head of the loop, up to the next suspension. -/
def head (w : Worker) : Worker :=
  if w.stopping then { w with loop := .draining w.tracked }
  else if (w.options.concurrency : ℤ) ≤ w.inFlight then { w with loop := .parked w.waiter }
  else { w with loop := .polling }

/-- The constructor, which calls `run`. -/
def start (options : WorkerOptions) : Worker :=
  head { options := options, loop := .polling }

/-- `onPollSuccess`. -/
def onPollSuccess (w : Worker) (now : ℤ) : Worker :=
  { w with
    contact := (w.contact.onPollSuccess now).1
    emitted := w.emitted ++ (w.contact.onPollSuccess now).2 }

/-- `onPollFailure`. -/
def onPollFailure (w : Worker) (now : ℤ) (error : Thrown) : Worker :=
  let seen := w.contact.onPollFailure w.options.connectionLostThreshold now error
  { w with contact := seen.1, emitted := w.emitted ++ seen.2 }

/-- Process a claim beside the loop. -/
def dispatch (w : Worker) (claim : ClaimedJob) (parsed : Except Thrown Unit) : Worker :=
  { w with
    inFlight := w.inFlight + 1
    tracked := w.tracked ++ [w.processes.length]
    processes := w.processes ++ [.start w.options.workerId claim parsed] }

/-- The `finally` of an entry, with `signalSlotFreed`. -/
def release (w : Worker) (entry : ℕ) : Worker :=
  { w with
    inFlight := w.inFlight - 1
    tracked := w.tracked.erase entry
    waiter := w.waiter + 1 }

/-- One turn of a worker. -/
def step (w : Worker) : WorkerLabel → Option Worker
  | .found now claim parsed =>
    if w.loop = .polling then some ((w.onPollSuccess now).dispatch claim parsed).head else none
  | .notFound now =>
    if w.loop = .polling then some { w.onPollSuccess now with loop := .sleeping } else none
  | .pollFails now error reports =>
    if w.loop = .polling then
      some <|
        if reports then { w.onPollFailure now error with loop := .sleeping }
        else { w.onPollFailure now error with loop := .draining w.tracked, rejected := true }
    else none
  | .wake => if w.loop = .sleeping then some w.head else none
  | .unpark =>
    match w.loop with
    | .parked waiter => if w.stopping || decide (waiter < w.waiter) then some w.head else none
    | _ => none
  | .process entry label =>
    (w.processes[entry]?.bind (·.step label)).map fun process =>
      { w with processes := w.processes.set entry process }
  | .release entry =>
    if entry ∈ w.tracked ∧ w.processes[entry]?.map Process.state = some .settled then
      some (w.release entry)
    else none
  | .close => some { w with stopping := true }
  | .drained =>
    match w.loop with
    | .draining entries =>
      if ∀ entry ∈ entries, entry ∉ w.tracked then some { w with loop := .ended } else none
    | _ => none
  | .closeResolves =>
    if w.loop = .ended ∧ w.stopping ∧ w.rejected = false then some w else none

/-- What a turn needs, and what it makes of a worker. -/
inductive Turn (w : Worker) : WorkerLabel → Worker → Prop
  | found (polling : w.loop = .polling) (now : ℤ) (claim : ClaimedJob)
      (parsed : Except Thrown Unit) :
      Turn w (.found now claim parsed) ((w.onPollSuccess now).dispatch claim parsed).head
  | notFound (polling : w.loop = .polling) (now : ℤ) :
      Turn w (.notFound now) { w.onPollSuccess now with loop := .sleeping }
  | reported (polling : w.loop = .polling) (now : ℤ) (error : Thrown) :
      Turn w (.pollFails now error true) { w.onPollFailure now error with loop := .sleeping }
  | rejected (polling : w.loop = .polling) (now : ℤ) (error : Thrown) :
      Turn w (.pollFails now error false)
        { w.onPollFailure now error with loop := .draining w.tracked, rejected := true }
  | wake (sleeping : w.loop = .sleeping) : Turn w .wake w.head
  | unpark {waiter : ℕ} (parked : w.loop = .parked waiter) : Turn w .unpark w.head
  | process {entry : ℕ} {label : ProcessLabel} {process process' : Process}
      (found : w.processes[entry]? = some process) (turn : process.step label = some process') :
      Turn w (.process entry label) { w with processes := w.processes.set entry process' }
  | release {entry : ℕ} (tracked : entry ∈ w.tracked)
      (settled : w.processes[entry]?.map Process.state = some .settled) :
      Turn w (.release entry) (w.release entry)
  | close : Turn w .close { w with stopping := true }
  | drained {entries : List ℕ} (draining : w.loop = .draining entries)
      (gone : ∀ entry ∈ entries, entry ∉ w.tracked) : Turn w .drained { w with loop := .ended }
  | closeResolves (ended : w.loop = .ended) : Turn w .closeResolves w

/-- **What one step of the worker can do.** -/
theorem turn_of_step {w w' : Worker} {l : WorkerLabel} (taken : w.step l = some w') :
    w.Turn l w' := by
  cases l with
  | found now claim parsed =>
    simp only [step] at taken
    split at taken
    · cases taken
      exact .found ‹_› now claim parsed
    · cases taken
  | notFound now =>
    simp only [step] at taken
    split at taken
    · cases taken
      exact .notFound ‹_› now
    · cases taken
  | pollFails now error reports =>
    simp only [step] at taken
    split at taken
    · rename_i polling
      cases taken
      cases reports with
      | true => exact .reported polling now error
      | false => exact .rejected polling now error
    · cases taken
  | wake =>
    simp only [step] at taken
    split at taken
    · cases taken
      exact .wake ‹_›
    · cases taken
  | unpark =>
    simp only [step] at taken
    split at taken
    · rename_i waiter parked
      split at taken
      · cases taken
        exact .unpark parked
      · cases taken
    · cases taken
  | process entry label =>
    simp only [step, Option.map_eq_some_iff, Option.bind_eq_some_iff] at taken
    obtain ⟨process', ⟨process, found, turn⟩, rfl⟩ := taken
    exact .process found turn
  | release entry =>
    simp only [step] at taken
    split at taken
    · rename_i enabled
      cases taken
      exact .release enabled.1 enabled.2
    · cases taken
  | close =>
    cases taken
    exact .close
  | drained =>
    simp only [step] at taken
    split at taken
    · rename_i entries draining
      split at taken
      · cases taken
        exact .drained draining ‹_›
      · cases taken
    · cases taken
  | closeResolves =>
    simp only [step] at taken
    split at taken
    · rename_i enabled
      cases taken
      exact .closeResolves enabled.1
    · cases taken

end Worker

/-- A claim to run a worker on. -/
def mailClaim : ClaimedJob where
  id := "j"
  name := "mails"
  payload := []
  metadata := { parentId := "", traceId := "", executionDepth := 0 }
  attempts := 1
  leaseExpiresAtMs := 30000

end AnvilMQ.Client
