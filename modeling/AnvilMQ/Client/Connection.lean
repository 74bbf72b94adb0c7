import AnvilMQ.Client.Worker

/-!
# The callbacks about the connection

`Worker.onPollSuccess`, `Worker.onPollFailure` and `Worker.safeEmit` (`client/src/index.ts`),
statement by statement.  A callback may throw, and so may the `onError` that hears of it.  An
exception would skip the statements after the call, and `onPollSuccess` emits before it resets
its counters.

`Contact.onPollSuccess` and `Contact.onPollFailure` are the same handlers as functions.  They are
what the handlers come to, whatever the callbacks do.
-/

namespace AnvilMQ.Client

open Transition

/-! ## Handlers -/

/-- What the callbacks of a worker do when they are called.  One that was not given returns. -/
structure Callbacks where
  onConnectionLost : Thrown → ℕ → Except Thrown Unit
  onConnectionRestored : ℤ → ℕ → Except Thrown Unit
  /-- `options.onError`, or `logger.error`. -/
  onError : Thrown → Except Thrown Unit

/-- What the handlers read and write, and the callbacks they have called. -/
structure Watch where
  contact : Contact := {}
  emitted : List ConnectionEvent := []
deriving DecidableEq

/-- A synchronous method of the worker. -/
abbrev Handler := ExceptT Thrown (StateM Watch)

/-- The call of a callback. -/
def Callbacks.call (callbacks : Callbacks) : ConnectionEvent → Except Thrown Unit
  | .lost error consecutiveFailures => callbacks.onConnectionLost error consecutiveFailures
  | .restored downForMs failuresWhileDown =>
    callbacks.onConnectionRestored downForMs failuresWhileDown

/-- `safeEmit`. -/
def safeEmit (callbacks : Callbacks) (event : ConnectionEvent) : Handler Unit := do
  modify fun watch => { watch with emitted := watch.emitted ++ [event] }
  match callbacks.call event with
  | .ok () => pure ()
  | .error e =>
    match callbacks.onError e with
    | .ok () => pure ()
    | .error _ => pure ()

/-- An assignment to the fields of the connection. -/
def assign (f : Contact → Contact) : Handler Unit :=
  modify fun watch => { watch with contact := f watch.contact }

/-- `onPollSuccess`. -/
def onPollSuccess (callbacks : Callbacks) (now : ℤ) : Handler Unit := do
  assign fun contact => { contact with lastPollOkAt := now }
  let contact := (← get).contact
  if !contact.connected then
    let info := ConnectionEvent.restored (now - contact.lostSince) contact.failuresWhileDown
    assign fun contact => { contact with connected := true }
    assign fun contact => { contact with reconnectsTotal := contact.reconnectsTotal + 1 }
    safeEmit callbacks info
  assign fun contact => { contact with consecutiveFailures := 0 }
  assign fun contact => { contact with failuresWhileDown := 0 }

/-- `onPollFailure`. -/
def onPollFailure (callbacks : Callbacks) (threshold : ℕ) (now : ℤ) (error : Thrown) :
    Handler Unit := do
  assign fun contact => { contact with consecutiveFailures := contact.consecutiveFailures + 1 }
  assign fun contact => { contact with pollFailuresTotal := contact.pollFailuresTotal + 1 }
  let contact := (← get).contact
  if contact.connected && decide (threshold ≤ contact.consecutiveFailures) then
    assign fun contact => { contact with connected := false }
    assign fun contact => { contact with lostSince := now }
    assign fun contact => { contact with failuresWhileDown := contact.consecutiveFailures }
    safeEmit callbacks (.lost error contact.consecutiveFailures)
  else if !contact.connected then
    assign fun contact => { contact with failuresWhileDown := contact.failuresWhileDown + 1 }

/-- How a poll went. -/
inductive Poll
  | succeeded (now : ℤ)
  | failed (now : ℤ) (error : Thrown)
deriving DecidableEq

/-- The handler of a poll. -/
def onPoll (callbacks : Callbacks) (threshold : ℕ) : Poll → Handler Unit
  | .succeeded now => onPollSuccess callbacks now
  | .failed now error => onPollFailure callbacks threshold now error

/-- The handlers of a sequence of polls. -/
def onPolls (callbacks : Callbacks) (threshold : ℕ) : List Poll → Handler Unit
  | [] => pure ()
  | poll :: rest => do
    onPoll callbacks threshold poll
    onPolls callbacks threshold rest

/-! ## The handlers as functions -/

/-- What a poll does to the contact, with what it emits. -/
def Contact.onPoll (contact : Contact) (threshold : ℕ) : Poll → Contact × List ConnectionEvent
  | .succeeded now => contact.onPollSuccess now
  | .failed now error => contact.onPollFailure threshold now error

/-- What a poll does to a watch. -/
def Watch.onPoll (threshold : ℕ) (watch : Watch) (poll : Poll) : Watch where
  contact := (watch.contact.onPoll threshold poll).1
  emitted := watch.emitted ++ (watch.contact.onPoll threshold poll).2

/-- How a handler ends, and what it leaves. -/
def Handler.outcome (handler : Handler Unit) (watch : Watch) : Except Thrown Unit × Watch :=
  handler.run.run watch

section Outcome

variable (callbacks : Callbacks) (threshold : ℕ) (watch : Watch)

theorem outcome_pure : Handler.outcome (pure ()) watch = (.ok (), watch) := rfl

theorem outcome_assign (f : Contact → Contact) :
    (assign f).outcome watch = (.ok (), { watch with contact := f watch.contact }) := rfl

/-- A throwing callback stays inside `safeEmit`. -/
theorem outcome_safeEmit (event : ConnectionEvent) :
    (safeEmit callbacks event).outcome watch =
      (.ok (), { watch with emitted := watch.emitted ++ [event] }) := by
  unfold safeEmit
  cases callbacks.call event with
  | ok => rfl
  | error e =>
    dsimp only
    cases callbacks.onError e with
    | ok => rfl
    | error e' => rfl

theorem outcome_get_bind (f : Watch → Handler Unit) :
    Handler.outcome (get >>= f) watch = (f watch).outcome watch := rfl

theorem outcome_assign_bind (f : Contact → Contact) (rest : Unit → Handler Unit) :
    Handler.outcome (assign f >>= rest) watch =
      (rest ()).outcome { watch with contact := f watch.contact } := rfl

/-- What follows a statement that does not throw. -/
theorem outcome_bind_of_ok {handler : Handler Unit} {watch watch' : Watch}
    (ok : handler.outcome watch = (.ok (), watch')) (rest : Unit → Handler Unit) :
    Handler.outcome (handler >>= rest) watch = (rest ()).outcome watch' := by
  have run : (handler : StateM Watch (Except Thrown Unit)) watch = (.ok (), watch') := ok
  show (match (handler : StateM Watch (Except Thrown Unit)) watch with
    | (result, left) => (ExceptT.bindCont rest result : StateM Watch (Except Thrown Unit)) left) = _
  rw [run]
  rfl

theorem outcome_onPollSuccess (now : ℤ) :
    (onPollSuccess callbacks now).outcome watch =
      (.ok (), watch.onPoll threshold (.succeeded now)) := by
  unfold onPollSuccess
  rw [outcome_assign_bind, outcome_get_bind]
  cases up : watch.contact.connected with
  | true =>
    rw [if_neg (by simp), outcome_assign_bind, outcome_assign]
    simp [Watch.onPoll, Contact.onPoll, Contact.onPollSuccess, up]
  | false =>
    rw [if_pos (by simp), outcome_assign_bind, outcome_assign_bind,
      outcome_bind_of_ok (outcome_safeEmit _ _ _), outcome_assign_bind, outcome_assign]
    simp [Watch.onPoll, Contact.onPoll, Contact.onPollSuccess, up]

/-- A failed poll, callbacks included, does what the watch does. -/
theorem outcome_onPollFailure (now : ℤ) (error : Thrown) :
    (onPollFailure callbacks threshold now error).outcome watch =
      (.ok (), watch.onPoll threshold (.failed now error)) := by
  unfold onPollFailure
  rw [outcome_assign_bind, outcome_assign_bind, outcome_get_bind]
  cases up : watch.contact.connected with
  | true =>
    by_cases reached : threshold ≤ watch.contact.consecutiveFailures + 1
    · rw [if_pos (by simp [reached]), outcome_assign_bind, outcome_assign_bind,
        outcome_assign_bind, outcome_safeEmit]
      simp [Watch.onPoll, Contact.onPoll, Contact.onPollFailure, up, reached]
    · rw [if_neg (by simp [reached]), if_neg (by simp), outcome_pure]
      simp [Watch.onPoll, Contact.onPoll, Contact.onPollFailure, up, reached]
  | false =>
    rw [if_neg (by simp), if_pos (by simp), outcome_assign]
    simp [Watch.onPoll, Contact.onPoll, Contact.onPollFailure, up]

theorem outcome_onPoll (poll : Poll) :
    (onPoll callbacks threshold poll).outcome watch = (.ok (), watch.onPoll threshold poll) := by
  cases poll with
  | succeeded now => exact outcome_onPollSuccess callbacks threshold watch now
  | failed now error => exact outcome_onPollFailure callbacks threshold watch now error

/-- **No exception leaves the handlers**, and they do what the functions say. -/
theorem outcome_onPolls (polls : List Poll) :
    (onPolls callbacks threshold polls).outcome watch =
      (.ok (), after (Watch.onPoll threshold) watch polls) := by
  induction polls generalizing watch with
  | nil => rfl
  | cons poll rest ih =>
    rw [onPolls, outcome_bind_of_ok (outcome_onPoll callbacks threshold watch poll), ih]
    rfl

end Outcome

end AnvilMQ.Client
