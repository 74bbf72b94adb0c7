import AnvilMQ.Broker
import AnvilMQ.Client.SendAdd
import AnvilMQ.Transition.Run

/-!
# Calls of the client over a network

A family of calls of `sendAdd`, a broker, and a network between them that may lose, delay,
duplicate and reorder what it carries.

Every attempt of a call sends the frozen request.  The network keeps what was sent: an
attempt may reach the broker any number of times, at any time after it was sent and in any
order, or not at all.  It keeps the answers in the same way, and an answer reaches its call if
the call still waits for that attempt.  An attempt may also fail in transit, which says
nothing about its request: a deadline that passes is such a failure.  Between the deliveries
the broker serves any other operation.
-/

namespace AnvilMQ.Client

open Transition

/-- A call that has sent its first attempt: when it started, what it is suspended on, and how
many attempts it has sent. -/
structure Sending where
  started : ℤ
  state : CallState := .waiting 0
  sent : ℕ := 1
deriving DecidableEq

/-- The broker's operations so far, the calls, the answers the broker has given to their
attempts, and the jobs it has created for them. -/
structure Link (ι : Type) where
  run : List Op
  calls : ι → Option Sending
  replies : List (ι × ℕ × Except Status Reply)
  created : List (ι × JobRow)

/-- What can happen next. -/
inductive LinkLabel (ι : Type)
  /-- A call sends its first attempt. -/
  | send (c : ι) (started : ℤ)
  /-- A copy of an attempt reaches the broker. -/
  | deliver (c : ι) (attempt : ℕ) (clock : Clock)
  /-- The broker serves something else. -/
  | other (op : Op)
  /-- A copy of an answer reaches its call. -/
  | answer (n : ℕ) (now : ℤ)
  /-- The attempt a call waits for fails in transit. -/
  | fail (c : ι) (now : ℤ) (thrown : Thrown)
  /-- The sleep of a call ends, and it sends its next attempt. -/
  | wake (c : ι)

/-- How the answer to an `AddJob` settles the attempt. -/
def received : Except Status Reply → Option (Except Thrown AddJobResponse)
  | .ok (.enqueued [response]) => some (.ok response)
  | .ok _ => none
  | .error status => some (.error (.ofStatus status))

theorem received_ok {reply : Except Status Reply} {response : AddJobResponse}
    (ok : received reply = some (.ok response)) : reply = .ok (.enqueued [response]) := by
  unfold received at ok
  split at ok
  · cases ok
    rfl
  · cases ok
  · cases ok

namespace Link

variable {ι : Type}

/-- Nothing was sent yet. -/
def start (before : List Op) : Link ι := ⟨before, fun _ => none, [], []⟩

/-- The broker has answered a request of the call with a response. -/
def Answered (s : Link ι) (c : ι) (response : AddJobResponse) : Prop :=
  ∃ attempt, (c, attempt, .ok (.enqueued [response])) ∈ s.replies

/-- The broker has accepted a request of one of the calls. -/
def Accepted (s : Link ι) (group : ι → Prop) : Prop :=
  ∃ c response, group c ∧ s.Answered c response

/-- The jobs the broker has created for the requests of the calls. -/
def createdBy (s : Link ι) (group : ι → Prop) [DecidablePred group] : List JobRow :=
  (s.created.filter fun entry => decide (group entry.1)).map Prod.snd

variable [DecidableEq ι]

/-- A call goes on. -/
def setCall (s : Link ι) (c : ι) (sending : Sending) : Link ι :=
  { s with calls := Function.update s.calls c (some sending) }

theorem calls_setCall (s : Link ι) (c : ι) (sending : Sending) (d : ι) :
    (s.setCall c sending).calls d = if d = c then some sending else s.calls d :=
  Function.update_apply s.calls c (some sending) d

/-- The broker serves a request of a call. -/
def served (ext : Externals) (service : Service) (s : Link ι) (c : ι) (attempt : ℕ) (op : Op) :
    Link ι :=
  let outcome := servedNext ext service s.run op
  { s with
    run := s.run ++ [op]
    replies := s.replies ++ [(c, attempt, outcome.2.map Prod.fst)]
    created := s.created ++ (newRows (dbAfter ext service s.run) outcome.1).map (c, ·) }

/-- One step of the calls `call`, the network or the broker. -/
def step (ext : Externals) (service : Service) (call : ι → Option Prepared) (s : Link ι) :
    LinkLabel ι → Option (Link ι)
  | .send c started =>
    match call c, s.calls c with
    | some _, none => some (s.setCall c { started := started })
    | _, _ => none
  | .deliver c attempt clock =>
    match call c, s.calls c with
    | some prepared, some sending =>
      if attempt < sending.sent then
        some (s.served ext service c attempt (.addJob clock prepared.request))
      else none
    | _, _ => none
  | .other op => some { s with run := s.run ++ [op] }
  | .answer n now =>
    match s.replies[n]? with
    | none => none
    | some (c, attempt, reply) =>
      match call c, s.calls c, received reply with
      | some prepared, some sending, some outcome =>
        if sending.state = .waiting attempt then
          some (s.setCall c { sending with
            state := prepared.settle sending.started now attempt outcome })
        else none
      | _, _, _ => none
  | .fail c now thrown =>
    match call c, s.calls c with
    | some prepared, some sending =>
      match sending.state with
      | .waiting attempt =>
        some (s.setCall c { sending with
          state := prepared.settle sending.started now attempt (.error thrown) })
      | _ => none
    | _, _ => none
  | .wake c =>
    match s.calls c with
    | some sending =>
      match sending.state with
      | .sleeping attempt =>
        some (s.setCall c { sending with
          state := .waiting (attempt + 1)
          sent := sending.sent + 1 })
      | _ => none
    | none => none

/-- The calls of a later state resolve as before, or with an answer of the broker. -/
def Resolves (s s' : Link ι) : Prop :=
  ∀ c sending' response, s'.calls c = some sending' → sending'.state = .resolved response →
    (∃ sending, s.calls c = some sending ∧ sending.state = .resolved response) ∨
      s.Answered c response

theorem resolves_of_setCall {s : Link ι} {c : ι} {sending : Sending}
    (new : ∀ response, sending.state = .resolved response → s.Answered c response) :
    s.Resolves (s.setCall c sending) := by
  intro d sending' response found resolved
  rw [calls_setCall] at found
  split at found
  · rename_i here
    cases found
    exact .inr (here ▸ new response resolved)
  · exact .inl ⟨sending', found, resolved⟩

/-- **What a step does**: the broker serves an attempt or something else, or a call goes
on. -/
theorem step_cases {ext : Externals} {service : Service} {call : ι → Option Prepared}
    {s s' : Link ι} {l : LinkLabel ι} (taken : s.step ext service call l = some s') :
    (∃ c attempt clock prepared, l = .deliver c attempt clock ∧ call c = some prepared ∧
      s' = s.served ext service c attempt (.addJob clock prepared.request)) ∨
    (∃ op, l = .other op ∧ s' = { s with run := s.run ++ [op] }) ∨
    (s'.run = s.run ∧ s'.replies = s.replies ∧ s'.created = s.created ∧ s.Resolves s') := by
  cases l with
  | deliver c attempt clock =>
    simp only [step] at taken
    split at taken
    · rename_i prepared sending given _
      split at taken
      · cases taken
        exact .inl ⟨c, attempt, clock, prepared, rfl, given, rfl⟩
      · cases taken
    · cases taken
  | other op =>
    cases taken
    exact .inr (.inl ⟨op, rfl, rfl⟩)
  | send c started =>
    simp only [step] at taken
    split at taken
    · cases taken
      exact .inr (.inr ⟨rfl, rfl, rfl, resolves_of_setCall fun _ resolved => by cases resolved⟩)
    · cases taken
  | answer n now =>
    simp only [step] at taken
    split at taken
    · cases taken
    · rename_i c attempt reply found
      split at taken
      · rename_i prepared sending outcome _ _ read
        split at taken
        · cases taken
          refine .inr (.inr ⟨rfl, rfl, rfl, resolves_of_setCall fun response resolved => ?_⟩)
          rw [Prepared.settle_resolved resolved] at read
          rw [received_ok read] at found
          exact ⟨attempt, List.mem_of_getElem? found⟩
        · cases taken
      · cases taken
  | fail c now thrown =>
    simp only [step] at taken
    split at taken
    · split at taken
      · cases taken
        refine .inr (.inr ⟨rfl, rfl, rfl, resolves_of_setCall fun response resolved => ?_⟩)
        have never : Except.error thrown = Except.ok response := Prepared.settle_resolved resolved
        cases never
      · cases taken
    · cases taken
  | wake c =>
    simp only [step] at taken
    split at taken
    · split at taken
      · cases taken
        exact .inr (.inr ⟨rfl, rfl, rfl, resolves_of_setCall fun _ resolved => by cases resolved⟩)
      · cases taken
    · cases taken

end Link

end AnvilMQ.Client
