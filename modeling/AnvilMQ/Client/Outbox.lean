import AnvilMQ.Client.SendAdd
import AnvilMQ.Relational.Table
import AnvilMQ.Transition.Pool
import AnvilMQ.Transition.Run

/-!
# The outbox of the client

`MemoryOutboxStore` and `OutboxForwarder` (`client/src/index.ts`): a store of records keyed
by their idempotency key, and any number of forwarders that put records into it and drain it
to their queues.

The store's methods act when they are called, and the forwarder is suspended after each
call, so a drain is a pool of tasks that interleave with each other, with other drains and
with enqueues.  `Outbox.step` is one turn of one of them; its label says which one it is and
gives what comes from outside: the outcome of an add, what the broker accepted, and whether
the callback throws.

## Design notes

The log of a state is a history of what happened, written by the steps and read by no
step.  A pass likewise remembers the store it was opened on.  `attempts` and `lastError` are
kept although no function of the forwarder reads them.
-/

namespace AnvilMQ.Client

open Rust Relational Transition

/-! ## The store -/

/-- The state of a record. -/
inductive RecordState
  | pending
  | sent
  | failed
deriving DecidableEq

/-- A state no drain leaves on purpose. -/
def RecordState.terminal : RecordState → Bool
  | pending => false
  | sent | failed => true

/-- `OutboxRecord`. -/
structure OutboxRecord (α : Type) where
  key : String
  queue : String
  payload : α
  options : Option AddOptions := none
  state : RecordState := .pending
  attempts : ℕ := 0
  createdAt : ℤ := 0
  lastError : Option Thrown := none
deriving DecidableEq

variable {α : Type}

/-- `MemoryOutboxStore`: a map in insertion order. -/
abbrev Store (α : Type) := Table (OutboxRecord.key (α := α))

namespace Store

/-- `put`: the first writer for a key wins. -/
def put (store : Store α) (record : OutboxRecord α) : Store α :=
  (store.insert record).getD store

/-- A record that is there stays. -/
theorem find?_put_of_some {store : Store α} {key : String} {record fresh : OutboxRecord α}
    (found : store.find? key = some record) : (store.put fresh).find? key = some record := by
  rw [put]
  cases inserted : store.insert fresh with
  | none => exact found
  | some store' =>
    have apart : key ≠ fresh.key := fun same =>
      Table.not_has_of_insert inserted (Table.has_iff_find?.mpr ⟨record, same ▸ found⟩)
    rw [Option.getD_some, Table.find?_of_insert inserted, if_neg apart]
    exact found

/-- The record of the key that was put: the one that was there, or the new one. -/
theorem find?_put_self (store : Store α) (fresh : OutboxRecord α) :
    (store.put fresh).find? fresh.key = some ((store.find? fresh.key).getD fresh) := by
  cases found : store.find? fresh.key with
  | some record => exact find?_put_of_some found
  | none =>
    rw [put]
    cases inserted : store.insert fresh with
    | none => exact absurd (Table.insert_eq_none.mp inserted) (Table.not_has_iff.mpr found)
    | some store' => rw [Option.getD_some, Table.find?_of_insert inserted, if_pos rfl,
        Option.getD_none]

theorem find?_put_cases {store : Store α} {key : String} {record fresh : OutboxRecord α}
    (found : (store.put fresh).find? key = some record) :
    store.find? key = some record ∨ record = fresh := by
  rw [put] at found
  cases inserted : store.insert fresh with
  | none =>
    rw [inserted] at found
    exact .inl found
  | some store' =>
    rw [inserted, Option.getD_some, Table.find?_of_insert inserted] at found
    split at found
    · exact .inr (Option.some.inj found).symm
    · exact .inl found

/-- `claimPending`: the first records that are pending. -/
def claimPending (store : Store α) (limit : ℕ) : List (OutboxRecord α) :=
  (store.rows.filter fun record => decide (record.state = .pending)).take limit

/-- `markSent`. -/
def markSent (store : Store α) (key : String) : Store α :=
  store.modify key (fun record =>
    { record with state := .sent, attempts := record.attempts + 1 }) fun _ => rfl

/-- `markFailed`. -/
def markFailed (store : Store α) (key : String) (error : Thrown) : Store α :=
  store.modify key (fun record =>
    { record with
      state := .failed
      attempts := record.attempts + 1
      lastError := some error }) fun _ => rfl

theorem find?_markSent (store : Store α) (key other : String) :
    (store.markSent key).find? other =
      if other = key then (store.find? key).map fun record =>
        { record with state := .sent, attempts := record.attempts + 1 }
      else store.find? other :=
  Table.find?_modify other

theorem find?_markFailed (store : Store α) (key : String) (error : Thrown) (other : String) :
    (store.markFailed key error).find? other =
      if other = key then (store.find? key).map fun record =>
        { record with
          state := .failed
          attempts := record.attempts + 1
          lastError := some error }
      else store.find? other :=
  Table.find?_modify other

end Store

/-! ## Drains -/

/-- An `OutboxForwarder`: its queue, batch size and concurrency, which its constructor
checks. -/
structure Forwarder where
  queue : String
  batchSize : ℕ := 32
  concurrency : ℕ := 8
  batches : 1 ≤ batchSize := by decide
  concurrent : 1 ≤ concurrency := by decide
deriving DecidableEq

/-- The arguments of an `add`, with the queue it is sent to. -/
structure AddCall (α : Type) where
  queue : String
  payload : α
  options : AddOptions
deriving DecidableEq

/-- The add of a record: its held key, and a single attempt. -/
def Forwarder.add (forwarder : Forwarder) (record : OutboxRecord α) : AddCall α where
  queue := forwarder.queue
  payload := record.payload
  options :=
    { record.options.getD {} with
      idempotencyKey := some record.key
      noIdempotencyKey := false
      enqueueRetryMaxMs := some F64.zero }

/-- What the task of a record is suspended on. -/
inductive Stage
  /-- The add. -/
  | adding
  /-- `markSent`. -/
  | marking (response : AddJobResponse)
  /-- `markFailed`. -/
  | poisoning (error : Thrown)
deriving DecidableEq

/-- A `drainOnce` on its way.  Only the stages of tasks in flight mean something. -/
structure Pass (α : Type) where
  forwarder : Forwarder
  batch : List (OutboxRecord α)
  pool : Pool
  stage : ℕ → Stage := fun _ => .adding
  forwarded : ℕ := 0
  /-- A task has thrown, and with it `drainOnce`. -/
  rejected : Bool := false
  /-- The store as the pass found it. -/
  opened : Store α

namespace Pass

/-- `drainOnce` up to its first suspension. -/
def start (store : Store α) (forwarder : Forwarder) : Pass α :=
  let batch := Store.claimPending store forwarder.batchSize
  { forwarder := forwarder
    batch := batch
    pool := if batch.isEmpty then ⟨0, 0, []⟩ else .start batch.length forwarder.concurrency
    opened := store }

/-- The task of a record is suspended on something else. -/
def await (pass : Pass α) (i : ℕ) (stage : Stage) : Pass α :=
  { pass with stage := Function.update pass.stage i stage }

theorem stage_await (pass : Pass α) (i : ℕ) (stage : Stage) (j : ℕ) :
    (pass.await i stage).stage j = if j = i then stage else pass.stage j :=
  Function.update_apply pass.stage i stage j

/-- The task of a record returns. -/
def finish (pass : Pass α) (i : ℕ) : Pass α := { pass with pool := pass.pool.finish i }

/-- The task of a record throws. -/
def throw (pass : Pass α) (i : ℕ) : Pass α :=
  { pass with pool := pass.pool.abandon i, rejected := true }

/-- `forwarded++`. -/
def counted (pass : Pass α) : Pass α := { pass with forwarded := pass.forwarded + 1 }

/-- The record of a task in flight. -/
def inFlight (pass : Pass α) (i : ℕ) : Option (OutboxRecord α) :=
  if i ∈ pass.pool.running then pass.batch[i]? else none

/-- The record of a task that was started. -/
def handedOut (pass : Pass α) (i : ℕ) : Option (OutboxRecord α) :=
  if i < pass.pool.next then pass.batch[i]? else none

/-- What `drainOnce` returns, once every task has. -/
def returned (pass : Pass α) : Option ℕ :=
  if pass.rejected = false ∧ pass.pool.running = [] then some pass.forwarded else none

end Pass

/-! ## The system -/

/-- What has happened. -/
inductive OutboxEvent (α : Type)
  /-- `enqueue` put a record, or found its key taken. -/
  | enqueued (key queue : String) (payload : α)
  /-- The broker accepted an add. -/
  | accepted (key : String) (call : AddCall α)
  /-- An add was rejected. -/
  | refused (key : String) (error : Thrown)
  /-- A record was poisoned. -/
  | poisoned (key : String)
deriving DecidableEq

/-- The store, the passes over it, and the log. -/
structure Outbox (α : Type) where
  store : Store α
  passes : ℕ → Option (Pass α)
  log : List (OutboxEvent α)

/-- What can happen next. -/
inductive OutboxLabel (α : Type)
  /-- `enqueue`, with the key `mintKey` would return. -/
  | enqueue (forwarder : Forwarder) (payload : α) (options : Option AddOptions) (minted : String)
    (createdAt : ℤ)
  /-- `drainOnce` is called. -/
  | drain (pass : ℕ) (forwarder : Forwarder)
  /-- The broker accepts the request of a task, whatever becomes of its answer. -/
  | accept (pass task : ℕ)
  /-- The add of a task resolves. -/
  | resolve (pass task : ℕ) (response : AddJobResponse)
  /-- The add of a task is rejected. -/
  | reject (pass task : ℕ) (error : Thrown)
  /-- A task goes on after its mark, and the callback returns or throws. -/
  | callback (pass task : ℕ) (thrown : Option Thrown)

/-- The key of a record: the caller's, or a minted one. -/
def outboxKey (options : Option AddOptions) (minted : String) : String :=
  (options.bind AddOptions.idempotencyKey).getD minted

namespace Outbox

/-- Go on with a pass. -/
def setPass (s : Outbox α) (p : ℕ) (pass : Pass α) : Outbox α :=
  { s with passes := Function.update s.passes p (some pass) }

theorem passes_setPass (s : Outbox α) (p : ℕ) (pass : Pass α) (q : ℕ) :
    (s.setPass p pass).passes q = if q = p then some pass else s.passes q :=
  Function.update_apply s.passes p (some pass) q

/-- Record what happened. -/
def record (s : Outbox α) (event : OutboxEvent α) : Outbox α := { s with log := s.log ++ [event] }

/-- The `catch` of a task: an error without properties throws again, a transient one leaves
the record as it is, and any other poisons it. -/
def caught (s : Outbox α) (p i : ℕ) (pass : Pass α) (key : String) (error : Thrown) : Outbox α :=
  match error with
  | .nullish => s.setPass p (pass.throw i)
  | .error _ _ =>
    if error.transient then s.setPass p (pass.finish i)
    else
      ({ s with store := s.store.markFailed key error }.record (.poisoned key)).setPass p
        (pass.await i (.poisoning error))

/-- One turn of the system. -/
def step (s : Outbox α) : OutboxLabel α → Option (Outbox α)
  | .enqueue forwarder payload options minted createdAt =>
    let key := outboxKey options minted
    let fresh : OutboxRecord α :=
      { key := key
        queue := forwarder.queue
        payload := payload
        options := options
        createdAt := createdAt }
    some ({ s with store := s.store.put fresh }.record (.enqueued key forwarder.queue payload))
  | .drain p forwarder =>
    match s.passes p with
    | some _ => none
    | none => some (s.setPass p (.start s.store forwarder))
  | .accept p i => do
    let pass ← s.passes p
    let record ← pass.handedOut i
    return s.record (.accepted record.key (pass.forwarder.add record))
  | .resolve p i response => do
    let pass ← s.passes p
    let record ← pass.inFlight i
    match pass.stage i with
    | .adding =>
      some (({ s with store := s.store.markSent record.key }.record
        (.accepted record.key (pass.forwarder.add record))).setPass p
          (pass.await i (.marking response)))
    | _ => none
  | .reject p i error => do
    let pass ← s.passes p
    let record ← pass.inFlight i
    match pass.stage i with
    | .adding => some ((s.record (.refused record.key error)).caught p i pass record.key error)
    | _ => none
  | .callback p i thrown => do
    let pass ← s.passes p
    let record ← pass.inFlight i
    match pass.stage i, thrown with
    | .adding, _ => none
    | .marking _, none => some (s.setPass p (pass.counted.finish i))
    | .marking _, some error => some (s.caught p i pass.counted record.key error)
    | .poisoning _, none => some (s.setPass p (pass.counted.finish i))
    | .poisoning _, some _ => some (s.setPass p (pass.counted.throw i))

/-- An outbox with a given store and a given past, before any pass. -/
def start (store : Store α) (log : List (OutboxEvent α)) : Outbox α := ⟨store, fun _ => none, log⟩

/-! ## What a turn can do -/

variable {s s' : Outbox α} {p i : ℕ}

/-- A task in flight, its record and what it is suspended on. -/
structure Task (s : Outbox α) (p i : ℕ) (pass : Pass α) (record : OutboxRecord α) (stage : Stage) :
    Prop where
  found : s.passes p = some pass
  running : i ∈ pass.pool.running
  listed : pass.batch[i]? = some record
  suspended : pass.stage i = stage

theorem inFlight_eq_some {pass : Pass α} {record : OutboxRecord α} :
    pass.inFlight i = some record ↔ i ∈ pass.pool.running ∧ pass.batch[i]? = some record := by
  rw [Pass.inFlight]
  split
  · simp [*]
  · simp [*]

theorem step_drain {forwarder : Forwarder} (taken : s.step (.drain p forwarder) = some s') :
    s.passes p = none ∧ s' = s.setPass p (.start s.store forwarder) := by
  rw [step] at taken
  cases free : s.passes p with
  | some pass => simp [free] at taken
  | none =>
    simp only [free, Option.some.injEq] at taken
    exact ⟨rfl, taken.symm⟩

theorem step_accept (taken : s.step (.accept p i) = some s') :
    ∃ pass record, s.passes p = some pass ∧ i < pass.pool.next ∧ pass.batch[i]? = some record ∧
      s' = s.record (.accepted record.key (pass.forwarder.add record)) := by
  simp only [step, Option.bind_eq_bind, Option.bind_eq_some_iff] at taken
  obtain ⟨pass, found, record, started, done⟩ := taken
  rw [Pass.handedOut] at started
  split at started
  · exact ⟨pass, record, found, ‹_›, started, (Option.some.inj done).symm⟩
  · cases started

/-- An accepted record is marked as sent, and its task waits for the mark. -/
theorem step_resolve {response : AddJobResponse}
    (taken : s.step (.resolve p i response) = some s') :
    ∃ pass record, s.Task p i pass record .adding ∧
      s' = ({ s with store := s.store.markSent record.key }.record
        (.accepted record.key (pass.forwarder.add record))).setPass p
          (pass.await i (.marking response)) := by
  simp only [step, Option.bind_eq_bind, Option.bind_eq_some_iff] at taken
  obtain ⟨pass, found, record, flight, done⟩ := taken
  obtain ⟨running, here⟩ := inFlight_eq_some.mp flight
  split at done
  · exact ⟨pass, record, ⟨found, running, here, ‹_›⟩, (Option.some.inj done).symm⟩
  · cases done

theorem step_reject {error : Thrown} (taken : s.step (.reject p i error) = some s') :
    ∃ pass record, s.Task p i pass record .adding ∧
      s' = (s.record (.refused record.key error)).caught p i pass record.key error := by
  simp only [step, Option.bind_eq_bind, Option.bind_eq_some_iff] at taken
  obtain ⟨pass, found, record, flight, done⟩ := taken
  obtain ⟨running, here⟩ := inFlight_eq_some.mp flight
  split at done
  · exact ⟨pass, record, ⟨found, running, here, ‹_›⟩, (Option.some.inj done).symm⟩
  · cases done

/-- What a callback can lead to, by where its task stands. -/
theorem step_callback {thrown : Option Thrown} (taken : s.step (.callback p i thrown) = some s') :
    ∃ pass record stage, s.Task p i pass record stage ∧ stage ≠ .adding ∧
      ((thrown = none ∧ s' = s.setPass p (pass.counted.finish i)) ∨
        (∃ response error, stage = .marking response ∧ thrown = some error ∧
          s' = s.caught p i pass.counted record.key error) ∨
        (∃ error again, stage = .poisoning error ∧ thrown = some again ∧
          s' = s.setPass p (pass.counted.throw i))) := by
  simp only [step, Option.bind_eq_bind, Option.bind_eq_some_iff] at taken
  obtain ⟨pass, found, record, flight, done⟩ := taken
  obtain ⟨running, here⟩ := inFlight_eq_some.mp flight
  refine ⟨pass, record, pass.stage i, ⟨found, running, here, rfl⟩, ?_⟩
  cases stage : pass.stage i with
  | adding => simp [stage] at done
  | marking response =>
    refine ⟨by simp, ?_⟩
    cases thrown with
    | none =>
      simp only [stage, Option.some.injEq] at done
      exact .inl ⟨rfl, done.symm⟩
    | some error =>
      simp only [stage, Option.some.injEq] at done
      exact .inr (.inl ⟨response, error, rfl, rfl, done.symm⟩)
  | poisoning error =>
    refine ⟨by simp, ?_⟩
    cases thrown with
    | none =>
      simp only [stage, Option.some.injEq] at done
      exact .inl ⟨rfl, done.symm⟩
    | some again =>
      simp only [stage, Option.some.injEq] at done
      exact .inr (.inr ⟨error, again, rfl, rfl, done.symm⟩)

end Outbox

/-! ## A sample run -/

/-- A forwarder for the queue `mails`. -/
def mails : Forwarder := { queue := "mails" }

/-- The options of an enqueue under the key `k`. -/
def underKey : Option AddOptions := some { idempotencyKey := some "k" }

/-- An answer of the broker. -/
def accepted : AddJobResponse := { id := "j", state := .waiting, replayed := false }

/-- A forwarder enqueues a record and drains it, and the broker accepts. -/
def loneRun : List (OutboxLabel ℕ) :=
  [.enqueue mails 1 underKey "m" 0, .drain 0 mails, .resolve 0 0 accepted]

end AnvilMQ.Client
