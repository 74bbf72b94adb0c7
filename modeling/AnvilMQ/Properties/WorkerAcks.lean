import AnvilMQ.Client.Worker

/-!
# What a worker acknowledges

A claim is acknowledged once its handler has settled and its heartbeat loop has ended.  The
two run beside each other, and a heartbeat may be in flight when the handler settles, so the
invariant says for each point `process` can be suspended at what it has sent by then, and
that a heartbeat can only fail while nothing has been sent.
-/

namespace AnvilMQ.Client

open Transition

/-! ## The property -/

/-- The acknowledgment an event stands for. -/
def ProcessEvent.ack? : ProcessEvent → Option Ack
  | acked ack => some ack
  | _ => none

/-- The acknowledgments that were sent, in order. -/
def acks (log : List ProcessEvent) : List Ack := log.filterMap ProcessEvent.ack?

/-- Only completions of the claim were sent, at most three, or only one failure. -/
def SentOneKind (workerId : String) (claim : ClaimedJob) (sent : List Ack) : Prop :=
  (∃ n ≤ 3, sent = List.replicate n (.complete (completion workerId claim))) ∨
    ∃ message, sent = [.fail (failReport workerId claim message)]

/-- What an acknowledgment says has happened. -/
def Justified (past : List ProcessEvent) : Ack → Prop
  | .complete _ => .resolved ∈ past
  | .fail _ => ∃ failure, .failed failure ∈ past

/-- An acknowledgment is sent when what it says has happened. -/
def Ordered (log : List ProcessEvent) : Prop :=
  ∀ before ack after, log = before ++ .acked ack :: after → Justified before ack

/-- **The guarantee for a claim**, on what its process has done. -/
structure AckSafe (workerId : String) (claim : ClaimedJob) (log : List ProcessEvent) : Prop where
  /-- The handler is invoked at most once. -/
  once : log.count .invoked ≤ 1
  /-- Acknowledgments are for this claim, and of one kind. -/
  oneKind : SentOneKind workerId claim (acks log)
  /-- A completion follows the handler's success, a failure its failure. -/
  justified : Ordered log
  /-- After a heartbeat has failed there is none. -/
  unsure : .beatLost ∈ log → acks log = []

/-! ## Logs -/

variable {workerId : String} {claim : ClaimedJob} {log : List ProcessEvent} {event : ProcessEvent}

theorem acks_concat (log : List ProcessEvent) (event : ProcessEvent) :
    acks (log ++ [event]) = acks log ++ event.ack?.toList :=
  Transition.filterMap_concat ProcessEvent.ack? log event

theorem acks_concat_quiet (quiet : event.ack? = none) : acks (log ++ [event]) = acks log := by
  rw [acks_concat, quiet]
  exact List.append_nil _

theorem Ordered.concat (ordered : Ordered log)
    (new : ∀ ack, event = .acked ack → Justified log ack) : Ordered (log ++ [event]) := by
  intro before ack after same
  rcases split_log same with ⟨middle, old, -⟩ | ⟨front, rfl, last⟩
  · exact ordered before ack middle old
  · -- The new event stands alone, so nothing is before it but the old log.
    cases front with
    | nil =>
      rw [List.append_nil]
      exact new ack (List.cons.inj last).1
    | cons _ rest =>
      have short := congrArg List.length last
      simp at short

theorem Ordered.concat_quiet (ordered : Ordered log) (quiet : event.ack? = none) :
    Ordered (log ++ [event]) :=
  ordered.concat fun ack same => by
    rw [same] at quiet
    cases quiet

/-! ## The invariant -/

/-- The points at which nothing has been acknowledged yet. -/
def ProcessState.Open : ProcessState → Prop
  | handling | joining _ => True
  | _ => False

/-- What has been sent, by what the process is suspended on. -/
def Phase (workerId : String) (claim : ClaimedJob) (aborted : Bool) (log : List ProcessEvent) :
    ProcessState → Prop
  | .handling => acks log = []
  | .joining failure => acks log = [] ∧ failure.elim .resolved .failed ∈ log
  | .completing n => n ≤ 2 ∧ aborted = false ∧ .resolved ∈ log ∧
      acks log = List.replicate (n + 1) (.complete (completion workerId claim))
  | .pausing n => n < 2 ∧ aborted = false ∧ .resolved ∈ log ∧
      acks log = List.replicate (n + 1) (.complete (completion workerId claim))
  | .failing => aborted = false ∧
      ∃ message, acks log = [.fail (failReport workerId claim message)]
  | .settled => (aborted = true → acks log = []) ∧ SentOneKind workerId claim (acks log)

/-- **The invariant of a process.** -/
structure Process.Inv (workerId : String) (claim : ClaimedJob) (p : Process) : Prop where
  own : p.workerId = workerId ∧ p.claim = claim
  once : p.log.count .invoked ≤ 1
  lost : .beatLost ∈ p.log → p.aborted = true
  /-- The heartbeat loop has ended when the first acknowledgment is sent. -/
  beating : p.beats = .sleeping ∨ p.beats = .calling → p.state.Open
  phase : Phase workerId claim p.aborted p.log p.state
  ordered : Ordered p.log

/-- An event that acknowledges nothing keeps the phase. -/
theorem Phase.concat {aborted : Bool} {state : ProcessState}
    (phase : Phase workerId claim aborted log state) (quiet : event.ack? = none) :
    Phase workerId claim aborted (log ++ [event]) state := by
  cases state with
  | handling => exact (acks_concat_quiet quiet).trans phase
  | joining failure =>
    exact ⟨(acks_concat_quiet quiet).trans phase.1, List.mem_append_left _ phase.2⟩
  | completing n | pausing n =>
    obtain ⟨bound, sure, resolved, sent⟩ := phase
    exact ⟨bound, sure, List.mem_append_left _ resolved, (acks_concat_quiet quiet).trans sent⟩
  | failing | settled =>
    unfold Phase
    rw [acks_concat_quiet quiet]
    exact phase

/-- Before the first acknowledgment the process may be aborted. -/
theorem Phase.abort {aborted : Bool} {state : ProcessState}
    (phase : Phase workerId claim aborted log state) (early : state.Open) :
    Phase workerId claim true log state := by
  cases state with
  | handling | joining _ => exact phase
  | _ => cases early

namespace Process

variable {p p' : Process} {l : ProcessLabel}

/-- Something else than an acknowledgment is recorded. -/
theorem Inv.record (inv : p.Inv workerId claim) (quiet : event.ack? = none)
    (other : event ≠ .invoked) (lost : event = .beatLost → p.aborted = true) :
    (p.record event).Inv workerId claim where
  own := inv.own
  once := by
    show (p.log ++ [event]).count .invoked ≤ 1
    rw [List.count_append, List.count_eq_zero_of_not_mem (l := [event]) (by simpa using other.symm)]
    exact inv.once
  lost := by
    intro mem
    rcases List.mem_append.mp mem with old | new
    · exact inv.lost old
    · exact lost (List.mem_singleton.mp new).symm
  beating := inv.beating
  phase := inv.phase.concat quiet
  ordered := inv.ordered.concat_quiet quiet

/-- The heartbeat loop goes on, or ends. -/
theorem Inv.setBeats (inv : p.Inv workerId claim) {beats : Beats}
    (beating : beats = .sleeping ∨ beats = .calling → p.state.Open) :
    { p with beats := beats }.Inv workerId claim :=
  ⟨inv.own, inv.once, inv.lost, beating, inv.phase, inv.ordered⟩

/-- The process goes on without sending anything. -/
theorem Inv.setState (inv : p.Inv workerId claim) {state : ProcessState}
    (idle : ¬ (p.beats = .sleeping ∨ p.beats = .calling))
    (phase : Phase workerId claim p.aborted p.log state) :
    { p with state := state }.Inv workerId claim :=
  ⟨inv.own, inv.once, inv.lost, fun beating => absurd beating idle, phase, inv.ordered⟩

/-- An acknowledgment is sent. -/
theorem Inv.send (inv : p.Inv workerId claim) {state : ProcessState} {ack : Ack}
    (idle : ¬ (p.beats = .sleeping ∨ p.beats = .calling)) (justified : Justified p.log ack)
    (phase : Phase workerId claim p.aborted (p.log ++ [.acked ack]) state) :
    ({ p with state := state }.record (.acked ack)).Inv workerId claim where
  own := inv.own
  once := by
    show (p.log ++ [ProcessEvent.acked ack]).count .invoked ≤ 1
    rw [List.count_append, List.count_eq_zero_of_not_mem (l := [ProcessEvent.acked ack]) (by simp)]
    exact inv.once
  lost := by
    intro mem
    rcases List.mem_append.mp mem with old | new
    · exact inv.lost old
    · cases List.mem_singleton.mp new
  beating := fun beating => absurd beating idle
  phase := phase
  ordered := inv.ordered.concat fun other same => by
    cases same
    exact justified

theorem not_beating (inv : p.Inv workerId claim) (late : ¬ p.state.Open) :
    ¬ (p.beats = .sleeping ∨ p.beats = .calling) :=
  fun beating => late (inv.beating beating)

theorem Inv.complete (inv : p.Inv workerId claim) {n : ℕ} (bound : n ≤ 2)
    (idle : ¬ (p.beats = .sleeping ∨ p.beats = .calling)) (sure : p.aborted = false)
    (resolved : .resolved ∈ p.log)
    (sent : acks p.log = List.replicate n (.complete (completion workerId claim))) :
    (p.complete n).Inv workerId claim := by
  obtain ⟨rfl, rfl⟩ := inv.own
  refine inv.send idle resolved ⟨bound, sure, List.mem_append_left _ resolved, ?_⟩
  rw [acks_concat, sent, List.replicate_succ']
  rfl

theorem Inv.fail (inv : p.Inv workerId claim) {failure : Thrown} {message : String}
    (idle : ¬ (p.beats = .sleeping ∨ p.beats = .calling)) (sure : p.aborted = false)
    (failed : .failed failure ∈ p.log) (sent : acks p.log = []) :
    (p.fail message).Inv workerId claim := by
  obtain ⟨rfl, rfl⟩ := inv.own
  refine inv.send idle ⟨failure, failed⟩ ⟨sure, message, ?_⟩
  rw [acks_concat, sent]
  rfl

/-- Nothing was sent, and nothing will be. -/
theorem Inv.settle_silent (inv : p.Inv workerId claim)
    (idle : ¬ (p.beats = .sleeping ∨ p.beats = .calling)) (sent : acks p.log = []) :
    p.settle.Inv workerId claim :=
  inv.setState idle ⟨fun _ => sent, .inl ⟨0, Nat.zero_le 3, sent⟩⟩

/-- **What follows the heartbeat loop.**  A heartbeat that failed has aborted the process
by now, and no other is in flight. -/
theorem Inv.conclude (inv : p.Inv workerId claim) {failure : Option Thrown}
    (joining : p.state = .joining failure) (ended : p.beats = .ended) (reports : Bool)
    (message : Option String) : (p.conclude failure reports message).Inv workerId claim := by
  have idle : ¬ (p.beats = .sleeping ∨ p.beats = .calling) := by simp [ended]
  have phase := inv.phase
  rw [joining] at phase
  obtain ⟨sent, settled⟩ := phase
  unfold Process.conclude
  split
  · exact inv.settle_silent idle sent
  · rename_i sure
    have sure : p.aborted = false := by simpa using sure
    split
    · exact inv.complete (Nat.zero_le 2) idle sure settled sent
    · exact inv.fail idle sure settled sent
    · exact inv.settle_silent idle sent

/-- A process starts with nothing reported. -/
theorem Inv.start (workerId : String) (claim : ClaimedJob) (parsed : Except Thrown Unit) :
    (start workerId claim parsed).Inv workerId claim := by
  have empty : Ordered [] := by
    intro before ack after same
    simp at same
  have ordered : ∀ event : ProcessEvent, event.ack? = none → Ordered [event] :=
    fun _ quiet => empty.concat_quiet quiet
  rcases parsed with failure | _
  · refine ⟨⟨rfl, rfl⟩, ?_, ?_, fun _ => trivial, ⟨rfl, List.mem_singleton_self _⟩, ordered _ rfl⟩
    · show [ProcessEvent.failed failure].count .invoked ≤ 1
      simp
    · intro mem
      cases List.mem_singleton.mp mem
  · refine ⟨⟨rfl, rfl⟩, ?_, ?_, fun _ => trivial, rfl, ordered _ rfl⟩
    · show [ProcessEvent.invoked].count .invoked ≤ 1
      simp
    · intro mem
      cases List.mem_singleton.mp mem

/-- **A turn of either thread keeps the invariant.** -/
theorem Inv.step (inv : p.Inv workerId claim) (taken : p.step l = some p') :
    p'.Inv workerId claim := by
  have phase := inv.phase
  cases turn_of_step taken with
  | stopped sleeping => exact inv.setBeats fun _ => inv.beating (.inl sleeping)
  | beat sleeping =>
    exact (inv.setBeats fun _ => inv.beating (.inl sleeping)).record rfl (by simp) (by simp)
  | beatReturns calling => exact inv.setBeats fun _ => inv.beating (.inr calling)
  | beatFails calling reports =>
    have early := inv.beating (.inr calling)
    -- Nothing has been sent yet, so the process may still be aborted.
    have aborted : { p with
        beats := if reports then .ended else .thrown
        aborted := true }.Inv workerId claim :=
      ⟨inv.own, inv.once, fun _ => rfl, fun _ => early, inv.phase.abort early, inv.ordered⟩
    exact aborted.record rfl (by simp) fun _ => rfl
  | settle handling failure =>
    rw [handling] at phase
    have quiet : (failure.elim ProcessEvent.resolved .failed).ack? = none := by
      cases failure with
      | none => rfl
      | some _ => rfl
    have recorded := inv.record quiet (by cases failure <;> simp) (by cases failure <;> simp)
    exact ⟨recorded.own, recorded.once, recorded.lost, fun _ => trivial,
      ⟨(acks_concat_quiet quiet).trans phase, List.mem_append_right _ List.mem_cons_self⟩,
      recorded.ordered⟩
  | join joining ended reports message => exact inv.conclude joining ended reports message
  | rejects joining thrown =>
    rw [joining] at phase
    exact inv.settle_silent (by simp [thrown]) phase.1
  | completed completing | gaveUp completing =>
    have idle := not_beating inv (by simp [completing, ProcessState.Open])
    rw [completing] at phase
    obtain ⟨bound, sure, -, sent⟩ := phase
    exact inv.setState idle ⟨by simp [sure], .inl ⟨_, Nat.succ_le_succ bound, sent⟩⟩
  | paused completing again =>
    have idle := not_beating inv (by simp [completing, ProcessState.Open])
    rw [completing] at phase
    obtain ⟨-, sure, resolved, sent⟩ := phase
    exact inv.setState idle ⟨again, sure, resolved, sent⟩
  | retry pausing =>
    have idle := not_beating inv (by simp [pausing, ProcessState.Open])
    rw [pausing] at phase
    obtain ⟨bound, sure, resolved, sent⟩ := phase
    exact inv.complete bound idle sure resolved sent
  | failAnswered failing =>
    have idle := not_beating inv (by simp [failing, ProcessState.Open])
    rw [failing] at phase
    exact inv.setState idle ⟨by simp [phase.1], .inr phase.2⟩

/-- What the invariant says about the log. -/
theorem Inv.ackSafe (inv : p.Inv workerId claim) : AckSafe workerId claim p.log := by
  obtain ⟨-, once, lost, -, phase, ordered⟩ := inv
  have both : (p.aborted = true → acks p.log = []) ∧ SentOneKind workerId claim (acks p.log) := by
    cases state : p.state with
    | handling =>
      rw [state] at phase
      exact ⟨fun _ => phase, .inl ⟨0, Nat.zero_le 3, phase⟩⟩
    | joining failure =>
      rw [state] at phase
      exact ⟨fun _ => phase.1, .inl ⟨0, Nat.zero_le 3, phase.1⟩⟩
    | completing n | pausing n =>
      rw [state] at phase
      obtain ⟨bound, sure, -, sent⟩ := phase
      exact ⟨by simp [sure], .inl ⟨n + 1, by omega, sent⟩⟩
    | failing =>
      rw [state] at phase
      exact ⟨by simp [phase.1], .inr phase.2⟩
    | settled =>
      rw [state] at phase
      exact phase
  exact ⟨once, both.2, ordered, fun mem => both.1 (lost mem)⟩

end Process

/-! ## The guarantee -/

end AnvilMQ.Client
