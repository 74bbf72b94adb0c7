import AnvilMQ.Client.Fleet
import AnvilMQ.Properties.Handover
import AnvilMQ.Properties.WorkerAcks

/-!
# A fleet of workers

A claim is processed once, by the worker the broker gave it to.  Two processes of one job
overlap only when the earlier one lost its lease or had reported its failure.  What a worker
counts as processed the broker has completed, once per job, and what the broker has completed a
handler has resolved.

The workers enter through what their turns can do to their processes (`Worker.Grown`) and the
broker through its claims and its history.  Between the two stands the network, with the
invariant that nothing on it was invented (`Fleet.Inv.traced`) and that an answer a worker still
waits for is for a claim no process has (`Fleet.Inv.fresh`).
-/

namespace AnvilMQ.Client

open Relational Transition

/-! ## The guarantees -/

/-- The claim of a process, as the broker records it. -/
def Process.held (p : Process) : ClaimRecord := (p.claim.id, p.claim.attempts, p.workerId)

/-- The process has reported that its handler failed. -/
structure Process.Reported (p : Process) : Prop where
  ended : p.state ≠ .handling
  failed : ∃ failure, .failed failure ∈ p.log
  sent : ∃ message, .acked (.fail (failReport p.workerId p.claim message)) ∈ p.log

section Statement

variable {ι : Type} (ext : Externals) (service : Service)

/-- The operation is not an acknowledgment under the name of a worker of the fleet. -/
def Foreign (options : ι → WorkerOptions) (op : Op) : Prop :=
  ∀ ack, op.acknowledgment = some ack → ∀ i, ack.workerId ≠ (options i).workerId

/-- **The guarantee for the handlers of a fleet.** -/
structure HandlersExclusive (s : Fleet ι) : Prop where
  /-- A process has a claim that the broker issued. -/
  issued : ∀ {i m p}, s.process i m = some p → p.held ∈ claims ext service s.run
  /-- No two processes have the same claim. -/
  distinct : ∀ {i i' m m' p p'}, s.process i m = some p → s.process i' m' = some p' →
    p.claim.id = p'.claim.id → p.claim.attempts = p'.claim.attempts → i = i' ∧ m = m'
  /-- Of two processes of one job the earlier one ran out of its lease, or had failed. -/
  exclusive : ∀ {i i' m m' p p'}, s.process i m = some p → s.process i' m' = some p' →
    p.claim.id = p'.claim.id → p.claim.attempts < p'.claim.attempts →
    RanOut ext service s.run p.held ∨ p.Reported

/-- **The guarantee for what a fleet counts.** -/
structure CountsHonest (options : ι → WorkerOptions) (s : Fleet ι) : Prop where
  /-- A process that is counted has resolved its handler, and its job was completed. -/
  completed : ∀ {i m}, (i, m) ∈ s.processed → ∃ p, s.process i m = some p ∧
    .resolved ∈ p.log ∧ CompletedFor ext service s.run p.held
  /-- A process is counted once, -/
  once : s.processed.Nodup
  /-- and so is a job, across all workers. -/
  single : ∀ {i i' m m' p p'}, (i, m) ∈ s.processed → (i', m') ∈ s.processed →
    s.process i m = some p → s.process i' m' = some p' → p.claim.id = p'.claim.id →
    i = i' ∧ m = m'
  /-- A job that is archived as completed by the fleet has been resolved by a handler of it. -/
  resolved : ∀ {j entry}, (dbAfter ext service s.run).jobHistory.find? j = some entry →
    entry.state = .completed → (∃ i, entry.workerId = some (options i).workerId) →
    ∃ i m p, s.process i m = some p ∧ p.claim.id = j ∧ p.claim.attempts = entry.attempts ∧
      entry.workerId = some p.workerId ∧ .resolved ∈ p.log

end Statement

/-! ## Processes -/

/-- What every turn of a process keeps. -/
structure Process.Grows (p p' : Process) : Prop where
  claim : p'.claim = p.claim
  workerId : p'.workerId = p.workerId
  log : p.log <+: p'.log
  settled : p.state = .settled → p'.state = .settled

namespace Process

variable {p p' : Process} {l : ProcessLabel} {workerId : String} {claim : ClaimedJob}

theorem Grows.refl (p : Process) : p.Grows p := ⟨rfl, rfl, List.prefix_rfl, id⟩

theorem Grows.held (grows : p.Grows p') : p'.held = p.held := by
  rw [Process.held, grows.claim, grows.workerId, Process.held]

/-- A process that is not settled need not stay so. -/
theorem Grows.of_busy {state : ProcessState} (busy : p.state = state) (other : state ≠ .settled)
    (claim : p'.claim = p.claim) (workerId : p'.workerId = p.workerId) (log : p.log <+: p'.log) :
    p.Grows p' :=
  ⟨claim, workerId, log, fun settled => absurd (busy.symm.trans settled) other⟩

/-- A turn of a process keeps its claim and adds to its log. -/
theorem grows_of_step (taken : p.step l = some p') : p.Grows p' := by
  cases turn_of_step taken with
  | stopped | beatReturns => exact ⟨rfl, rfl, List.prefix_rfl, id⟩
  | beat | beatFails => exact ⟨rfl, rfl, List.prefix_append _ _, id⟩
  | completed | gaveUp | rejects | failAnswered => exact ⟨rfl, rfl, List.prefix_rfl, fun _ => rfl⟩
  | settle handling => exact .of_busy handling nofun rfl rfl (List.prefix_append _ _)
  | paused completing => exact .of_busy completing nofun rfl rfl List.prefix_rfl
  | retry pausing => exact .of_busy pausing nofun rfl rfl (List.prefix_append _ _)
  | join joining =>
    unfold conclude
    split
    · exact .of_busy joining nofun rfl rfl List.prefix_rfl
    · split
      · exact .of_busy joining nofun rfl rfl (List.prefix_append _ _)
      · exact .of_busy joining nofun rfl rfl (List.prefix_append _ _)
      · exact .of_busy joining nofun rfl rfl List.prefix_rfl

theorem mem_acks {log : List ProcessEvent} {ack : Ack} :
    ack ∈ acks log ↔ .acked ack ∈ log := by
  rw [acks, List.mem_filterMap]
  constructor
  · rintro ⟨event, mem, same⟩
    cases event with
    | acked other =>
      cases same
      exact mem
    | _ => cases same
  · intro mem
    exact ⟨_, mem, rfl⟩

/-- What was acknowledged was done. -/
theorem Inv.justified (inv : p.Inv workerId claim) {ack : Ack} (mem : .acked ack ∈ p.log) :
    Justified p.log ack := by
  obtain ⟨before, after, same⟩ := List.append_of_mem mem
  have done := inv.ordered before ack after same
  rw [same]
  cases ack with
  | complete request => exact List.mem_append_left _ done
  | fail request =>
    obtain ⟨failure, failed⟩ := done
    exact ⟨failure, List.mem_append_left _ failed⟩

/-- The acknowledgments are for the claim of the process. -/
theorem Inv.acked_eq (inv : p.Inv workerId claim) {ack : Ack} (mem : .acked ack ∈ p.log) :
    ack = .complete (completion workerId claim) ∨
      ∃ message, ack = .fail (failReport workerId claim message) := by
  have sent := mem_acks.mpr mem
  rcases inv.ackSafe.oneKind with ⟨n, -, all⟩ | ⟨message, all⟩
  · rw [all] at sent
    exact .inl (List.eq_of_mem_replicate sent)
  · rw [all] at sent
    exact .inr ⟨message, List.mem_singleton.mp sent⟩

theorem Inv.complete_eq (inv : p.Inv workerId claim) {request : CompleteJobRequest}
    (mem : .acked (.complete request) ∈ p.log) : request = completion workerId claim := by
  rcases inv.acked_eq mem with same | ⟨message, same⟩
  · exact Ack.complete.inj same
  · cases same

theorem Inv.fail_eq (inv : p.Inv workerId claim) {request : FailJobRequest}
    (mem : .acked (.fail request) ∈ p.log) :
    ∃ message, request = failReport workerId claim message := by
  rcases inv.acked_eq mem with same | ⟨message, same⟩
  · cases same
  · exact ⟨message, Ack.fail.inj same⟩

/-- A process that has sent a failure has reported it. -/
theorem Inv.reported (inv : p.Inv workerId claim) {request : FailJobRequest}
    (mem : .acked (.fail request) ∈ p.log) : p.Reported := by
  refine ⟨fun handling => ?_, inv.justified mem, ?_⟩
  · have phase := inv.phase
    rw [handling] at phase
    have here := mem_acks.mpr mem
    rw [show acks p.log = [] from phase] at here
    cases here
  · obtain ⟨message, rfl⟩ := inv.fail_eq mem
    obtain ⟨rfl, rfl⟩ := inv.own
    exact ⟨message, mem⟩

end Process

/-! ## Workers -/

/-- **What a turn of a worker does to its processes**: each goes on or stays, and a new one is
started for a claim that was found. -/
structure Worker.Grown (w : Worker) (label : WorkerLabel) (w' : Worker) : Prop where
  options : w'.options = w.options
  forward : ∀ {m : ℕ} {p : Process}, w.processes[m]? = some p →
    ∃ p', w'.processes[m]? = some p' ∧ p.Grows p'
  backward : ∀ {m : ℕ} {p' : Process}, w'.processes[m]? = some p' →
    (∃ p, w.processes[m]? = some p ∧ (p' = p ∨ ∃ l, p.step l = some p')) ∨
    ∃ now claim parsed, label = .found now claim parsed ∧ m = w.processes.length ∧
      p' = .start w.options.workerId claim parsed
  /-- A worker that is at its poll without having passed the head of its loop was there. -/
  polling : label.loops = false → w'.loop = .polling → w.loop = .polling

namespace Worker

variable {w w' : Worker} {label : WorkerLabel}

theorem head_same (w : Worker) :
    w.head.options = w.options ∧ w.head.processes = w.processes := by
  unfold head
  split
  · exact ⟨rfl, rfl⟩
  · split <;> exact ⟨rfl, rfl⟩

/-- A turn that leaves the processes alone. -/
theorem Grown.of_same (options : w'.options = w.options) (same : w'.processes = w.processes)
    (polling : label.loops = false → w'.loop = .polling → w.loop = .polling) :
    w.Grown label w' where
  options := options
  forward := by
    intro m p found
    rw [same]
    exact ⟨p, found, .refl p⟩
  backward := by
    intro m p' found
    rw [same] at found
    exact .inl ⟨p', found, .inl rfl⟩
  polling := polling

/-- **What a turn of a worker does to its processes.** -/
theorem grown_of_step (taken : w.step label = some w') : w.Grown label w' := by
  cases turn_of_step taken with
  | found polling now claim parsed =>
    have processes : ((w.onPollSuccess now).dispatch claim parsed).head.processes =
        w.processes ++ [.start w.options.workerId claim parsed] := (head_same _).2
    refine ⟨(head_same _).1, fun {m p} found => ?_, fun {m p'} found => ?_, nofun⟩
    · rw [processes, List.getElem?_append_left (List.getElem?_eq_some_iff.mp found).1]
      exact ⟨p, found, .refl p⟩
    · rw [processes] at found
      rcases Nat.lt_trichotomy m w.processes.length with old | last | beyond
      · rw [List.getElem?_append_left old] at found
        exact .inl ⟨p', found, .inl rfl⟩
      · rw [last, List.getElem?_concat_length] at found
        exact .inr ⟨now, claim, parsed, rfl, last, (Option.some.inj found).symm⟩
      · rw [List.getElem?_eq_none (by simpa using Nat.succ_le_of_lt beyond)] at found
        cases found
  | notFound | reported | rejected => exact .of_same rfl rfl nofun
  | wake | unpark => exact .of_same w.head_same.1 w.head_same.2 nofun
  | @process entry label process process' found turn =>
    refine ⟨rfl, fun {m p} here => ?_, fun {m p'} here => ?_, fun _ => id⟩
    · rw [List.getElem?_set]
      split
      · rename_i same
        subst same
        cases found.symm.trans here
        rw [if_pos (List.getElem?_eq_some_iff.mp found).1]
        exact ⟨process', rfl, Process.grows_of_step turn⟩
      · exact ⟨p, here, .refl p⟩
    · rw [List.getElem?_set] at here
      split at here
      · rename_i same
        subst same
        rw [if_pos (List.getElem?_eq_some_iff.mp found).1] at here
        cases here
        exact .inl ⟨process, found, .inr ⟨label, turn⟩⟩
      · exact .inl ⟨p', here, .inl rfl⟩
  | release | close => exact .of_same rfl rfl fun _ => id
  | drained => exact .of_same rfl rfl nofun
  | closeResolves => exact .of_same rfl rfl fun _ => id

end Worker

/-! ## The invariant -/

section Fleet

variable {ι : Type} {ext : Externals} {service : Service} {queue : ι → String}
  {options : ι → WorkerOptions} {before : List Op} {past : List (FleetLabel ι)} {s s' : Fleet ι}
  {op : Op} {m : ℕ} {p : Process} {call : WorkerCall} {clock : Clock}

/-- The claim an answer to a poll tells. -/
def claimTold : ι × WorkerCall × Except Status Reply → Option (JobId × ℕ)
  | (_, .poll _, .ok (.claimed (some job))) => some (job.id, job.attempts)
  | _ => none

/-- The worker waits for the answer to one of its polls. -/
def Fleet.Awaits (s : Fleet ι) (i : ι) (n : ℕ) : Prop :=
  (s.workers i).loop = .polling ∧ n + 1 = s.polls i

/-- The operation was sent by a process. -/
def Fleet.SentBy (s : Fleet ι) (op : Op) : Prop :=
  ∃ i m p event clock jittered, s.process i m = some p ∧ event ∈ p.log ∧
    event.request clock jittered = some op

variable (ext service options before past) in
/-- **The invariant of a fleet**, after the labels `past`. -/
structure Fleet.Inv (s : Fleet ι) : Prop where
  own : ∀ i, (s.workers i).options = options i
  sound : ∀ {i m p}, s.process i m = some p → p.Inv (options i).workerId p.claim
  held : ∀ {i m p}, s.process i m = some p → p.held ∈ claims ext service s.run
  distinct : ∀ {i i' m m' p p'}, s.process i m = some p → s.process i' m' = some p' →
    p.claim.id = p'.claim.id → p.claim.attempts = p'.claim.attempts → i = i' ∧ m = m'
  asked : ∀ {i n reply}, (i, .poll n, reply) ∈ s.answers → n < s.polls i
  issued : ∀ {i n job}, (i, .poll n, .ok (.claimed (some job))) ∈ s.answers →
    (job.id, job.attempts, (options i).workerId) ∈ claims ext service s.run
  separate : (s.answers.filterMap claimTold).Nodup
  /-- No process has the claim of an answer that a worker waits for. -/
  fresh : ∀ {i n job}, (i, .poll n, .ok (.claimed (some job))) ∈ s.answers → s.Awaits i n →
    ∀ {i' m p}, s.process i' m = some p →
      (p.claim.id, p.claim.attempts) ≠ (job.id, job.attempts)
  /-- What the broker was sent in the name of a worker a process of it has sent. -/
  traced : ∀ op ∈ s.run, op.acknowledgment = none ∨ s.SentBy op ∨ op ∈ before ∨ .other op ∈ past
  confirmed : ∀ {i m position}, (i, .process m position, .ok .completed) ∈ s.answers →
    ∃ p, s.process i m = some p ∧ CompletedFor ext service s.run p.held
  counted : ∀ {i m}, (i, m) ∈ s.processed → ∃ p, s.process i m = some p ∧ p.state = .settled ∧
    .resolved ∈ p.log ∧ CompletedFor ext service s.run p.held
  once : s.processed.Nodup

/-- Nothing was served or answered yet. -/
theorem Fleet.Inv.start (options : ι → WorkerOptions) (before : List Op) :
    (Fleet.start options before).Inv ext service options before [] := by
  have none_ : ∀ {i m p}, (Fleet.start options before).process i m = some p → False := by
    intro i m p found
    have empty : (Fleet.start options before).process i m = ([] : List Process)[m]? :=
      congrArg (·[m]?) ((Worker.head_same _).2)
    rw [empty, List.getElem?_nil] at found
    cases found
  exact {
    own := fun i => (Worker.head_same _).1
    sound := fun found => (none_ found).elim
    held := fun found => (none_ found).elim
    distinct := fun found => (none_ found).elim
    asked := nofun
    issued := nofun
    separate := List.nodup_nil
    fresh := nofun
    traced := fun op mem => .inr (.inr (.inl mem))
    confirmed := nofun
    counted := nofun
    once := List.nodup_nil }

/-! ### The broker serves -/

/-- What is kept of an answer is what was replied. -/
theorem replyTo_of_served {run : List Op} {reply : Reply}
    (same : (servedNext ext service run op).2.map Prod.fst = .ok reply) :
    replyTo ext service run op = some reply := by
  obtain ⟨⟨_, calls⟩, answer, rfl⟩ := Rust.map_eq_ok.mp same
  exact replyTo_eq_some.mpr ⟨calls, answer⟩

/-- A poll that finds a job issues a new claim. -/
theorem claims_of_poll {run : List Op} {req : GetNextJobRequest} {job : ClaimedJob}
    (replied : replyTo ext service run (.getNextJob clock req) = some (.claimed (some job))) :
    (job.id, job.attempts, req.workerId) ∈ claims ext service (run ++ [.getNextJob clock req]) ∧
      (job.id, job.attempts) ∉ (claims ext service run).map fun c => (c.1, c.2.1) := by
  have grown : claims ext service (run ++ [.getNextJob clock req]) =
      claims ext service run ++ [(job.id, job.attempts, req.workerId)] := by
    rw [claims, told_concat, replied]
    rfl
  have nodup := (fenced_after ext service (run ++ [.getNextJob clock req])).issuedNodup
  rw [claimsOf, ← claims_eq, grown, List.map_append, List.nodup_append'] at nodup
  refine ⟨?_, fun mem => nodup.2.2 mem (List.mem_singleton.mpr rfl)⟩
  rw [grown]
  exact List.mem_append_right _ (List.mem_singleton.mpr rfl)

theorem claimTold_eq {a : ι × WorkerCall × Except Status Reply} {c : JobId × ℕ}
    (told : claimTold a = some c) :
    ∃ i n job, a = (i, .poll n, .ok (.claimed (some job))) ∧ c = (job.id, job.attempts) := by
  unfold claimTold at told
  split at told
  · exact ⟨_, _, _, rfl, (Option.some.inj told).symm⟩
  · cases told

theorem Fleet.Inv.told_issued (inv : s.Inv ext service options before past)
    {a : ι × WorkerCall × Except Status Reply} (mem : a ∈ s.answers) {c : JobId × ℕ}
    (told : claimTold a = some c) :
    c ∈ (claims ext service s.run).map fun c => (c.1, c.2.1) := by
  obtain ⟨i, n, job, rfl, rfl⟩ := claimTold_eq told
  exact List.mem_map.mpr ⟨_, inv.issued mem, rfl⟩

theorem Fleet.Inv.held_issued (inv : s.Inv ext service options before past) {i : ι}
    (found : s.process i m = some p) :
    (p.claim.id, p.claim.attempts) ∈ (claims ext service s.run).map fun c => (c.1, c.2.1) :=
  List.mem_map.mpr ⟨_, inv.held found, rfl⟩

/-- A call of a process that is answered with a completion has completed its job. -/
theorem Fleet.Inv.completes (inv : s.Inv ext service options before past) {i : ι} {position : ℕ}
    {jittered : ℤ} (sent : s.request queue i clock jittered (.process m position) = some op)
    (replied : replyTo ext service s.run op = some .completed) :
    ∃ p, s.process i m = some p ∧ CompletedFor ext service (s.run ++ [op]) p.held := by
  obtain ⟨event, logged, request⟩ := Option.bind_eq_some_iff.mp sent
  obtain ⟨p, found, here⟩ := Option.bind_eq_some_iff.mp logged
  refine ⟨p, found, ?_⟩
  cases event with
  | beat request' =>
    cases request
    obtain ⟨_, -, other, -⟩ := replyTo_transact ext service rfl replied
    cases other
  | acked ack =>
    cases ack with
    | complete request' =>
      cases request
      have own := (inv.sound found).own.1
      cases (inv.sound found).complete_eq (List.mem_of_getElem? here)
      rw [Process.held, own]
      exact completedFor_of_reply replied
    | fail request' =>
      cases request
      obtain ⟨_, -, other, -⟩ := replyTo_transact ext service rfl replied
      cases other
  | _ => cases request

/-- **The broker serves an operation**, and an answer may be kept for a worker.  What a poll is
answered with is a claim that nobody has. -/
theorem Fleet.Inv.serve (inv : s.Inv ext service options before past) {label : FleetLabel ι}
    (answer : Option (ι × WorkerCall × Except Status Reply))
    (sent : op.acknowledgment = none ∨ s.SentBy op ∨ label = .other op)
    (asked : ∀ {i n reply}, answer = some (i, .poll n, reply) → n < s.polls i)
    (new : ∀ {i n job}, answer = some (i, .poll n, .ok (.claimed (some job))) →
      (job.id, job.attempts, (options i).workerId) ∈ claims ext service (s.run ++ [op]) ∧
        (job.id, job.attempts) ∉ (claims ext service s.run).map fun c => (c.1, c.2.1))
    (completes : ∀ {i m position}, answer = some (i, .process m position, .ok .completed) →
      ∃ p, s.process i m = some p ∧ CompletedFor ext service (s.run ++ [op]) p.held) :
    Fleet.Inv ext service options before (past ++ [label])
      { s with run := s.run ++ [op], answers := s.answers ++ answer.toList } := by
  have grows : ∀ {c}, c ∈ claims ext service s.run → c ∈ claims ext service (s.run ++ [op]) := by
    intro c mem
    rw [claims, told_concat]
    exact List.mem_append_left _ mem
  have split_ : ∀ {a}, a ∈ s.answers ++ answer.toList → a ∈ s.answers ∨ answer = some a :=
    fun mem => (List.mem_append.mp mem).imp_right Option.mem_toList.mp
  constructor
  case own => exact inv.own
  case sound => exact inv.sound
  case distinct => exact inv.distinct
  case once => exact inv.once
  case held =>
    intro j m p found
    exact grows (inv.held found)
  case asked =>
    intro j n reply mem
    exact (split_ mem).elim inv.asked asked
  case issued =>
    intro j n job mem
    exact (split_ mem).elim (grows ∘ inv.issued) fun here => (new here).1
  case separate =>
    show ((s.answers ++ answer.toList).filterMap claimTold).Nodup
    rw [List.filterMap_append]
    refine inv.separate.append ?_ fun c old here => ?_
    · cases answer with
      | none => exact List.nodup_nil
      | some a =>
        cases told : claimTold a <;> simp [told]
    · obtain ⟨a, mem, seen⟩ := List.mem_filterMap.mp old
      obtain ⟨a', last, told⟩ := List.mem_filterMap.mp here
      obtain ⟨j, n, job, rfl, rfl⟩ := claimTold_eq told
      exact (new (Option.mem_toList.mp last)).2 (inv.told_issued mem seen)
  case fresh =>
    intro j n job mem awaits j' m p found clash
    rcases split_ mem with old | here
    · exact inv.fresh old awaits found clash
    · exact (new here).2 (clash ▸ inv.held_issued found)
  case traced =>
    intro other mem
    rcases List.mem_append.mp mem with old | last
    · exact (inv.traced other old).imp_right (Or.imp_right (Or.imp_right
        (List.mem_append_left _)))
    · rw [List.mem_singleton.mp last]
      refine sent.imp_right (Or.imp_right fun outside => .inr ?_)
      exact List.mem_append_right _ (List.mem_singleton.mpr outside.symm)
  case confirmed =>
    intro j m position mem
    rcases split_ mem with old | here
    · obtain ⟨p, found, completed⟩ := inv.confirmed old
      exact ⟨p, found, completed.mono (List.prefix_append _ _)⟩
    · exact completes here
  case counted =>
    intro j m mem
    obtain ⟨p, found, settled, resolved, completed⟩ := inv.counted mem
    exact ⟨p, found, settled, resolved, completed.mono (List.prefix_append _ _)⟩

/-- The broker serves a request of a worker. -/
theorem Fleet.Inv.deliver [DecidableEq ι] (inv : s.Inv ext service options before past) {i : ι}
    {jittered : ℤ} (sent : s.request queue i clock jittered call = some op) (label : FleetLabel ι) :
    (s.served ext service i call op).Inv ext service options before (past ++ [label]) := by
  refine inv.serve (some _) ?_ ?_ ?_ ?_
  · cases call with
    | poll n =>
      rw [Fleet.request] at sent
      split at sent
      · cases sent
        exact .inl rfl
      · cases sent
    | process m position =>
      obtain ⟨event, logged, request⟩ := Option.bind_eq_some_iff.mp sent
      obtain ⟨p, found, here⟩ := Option.bind_eq_some_iff.mp logged
      exact .inr (.inl ⟨i, m, p, event, clock, jittered, found, List.mem_of_getElem? here,
        request⟩)
  · intro j n reply same
    cases same
    rw [Fleet.request] at sent
    split at sent
    · assumption
    · cases sent
  · intro j n job same
    obtain ⟨rfl, rest⟩ := Prod.mk.inj (Option.some.inj same)
    obtain ⟨rfl, replied⟩ := Prod.mk.inj rest
    rw [Fleet.request] at sent
    split at sent
    · cases sent
      rw [inv.own] at replied ⊢
      exact claims_of_poll (replyTo_of_served replied)
    · cases sent
  · intro j m position same
    obtain ⟨rfl, rest⟩ := Prod.mk.inj (Option.some.inj same)
    obtain ⟨rfl, replied⟩ := Prod.mk.inj rest
    exact inv.completes sent (replyTo_of_served replied)

/-! ### What reaches a worker -/

variable {i : ι} {label : WorkerLabel} {w : Worker}

/-- A claim reaches a worker as the answer to its last poll. -/
theorem Fleet.found_of_returns {now now' : ℤ} {parsed parsed' : Except Thrown Unit}
    {reply : Except Status Reply} {claim : ClaimedJob}
    (returned : s.returns i now parsed call reply = some (.found now' claim parsed')) :
    ∃ n, call = .poll n ∧ reply = .ok (.claimed (some claim)) ∧ n + 1 = s.polls i := by
  unfold Fleet.returns at returned
  split at returned
  · split at returned
    · rename_i last
      split at returned
      · cases returned
        exact ⟨_, rfl, rfl, last⟩
      · cases returned
    · cases returned
  · split at returned <;> cases returned
  · split at returned <;> cases returned
  · cases returned

/-- A completion is counted on the answer to it. -/
theorem Fleet.counts_of_returns {now : ℤ} {parsed : Except Thrown Unit}
    {reply : Except Status Reply} (returned : s.returns i now parsed call reply = some label)
    (counted : label.counts = some m) :
    ∃ position, call = .process m position ∧ reply = .ok .completed := by
  unfold Fleet.returns at returned
  split at returned
  · split at returned
    · split at returned <;> cases returned <;> cases counted
    · cases returned
  · split at returned
    · cases returned
      cases counted
    · cases returned
  · split at returned
    · cases returned
      cases counted
      exact ⟨_, rfl, rfl⟩
    · cases returned
  · cases returned

/-! ### What the invariant says of acknowledgments -/

section Guarantees

variable (inv : s.Inv ext service options before past)
  (foreign : ∀ op, op ∈ before ∨ .other op ∈ past → Foreign options op)
include inv

theorem Fleet.Inv.attempted {j : ι} (found : s.process j m = some p) :
    max p.claim.attempts 1 = p.claim.attempts :=
  max_eq_left (attempt_pos (inv.held found))

include foreign in
/-- An acknowledgment in the name of a worker was sent by a process. -/
theorem Fleet.Inv.sentBy (mem : op ∈ s.run) {ack : AckRequest} (acks : op.acknowledgment = some ack)
    (worker : ack.workerId = (options i).workerId) : s.SentBy op := by
  rcases inv.traced op mem with silent | sent | outside
  · rw [acks] at silent
    cases silent
  · exact sent
  · exact absurd worker (foreign op outside ack acks i)

include foreign in
/-- A failure under the claim of a process was reported by that process. -/
theorem Fleet.Inv.reported (found : s.process i m = some p) (failed : FailureUnder s.run p.held) :
    p.Reported := by
  obtain ⟨clock, jittered, req, mem, sameId, worker, attempt⟩ := failed
  have named : req.workerId = (options i).workerId := worker.trans (inv.sound found).own.1
  obtain ⟨j, m', q, event, clock', jittered', there, logged, sent⟩ :=
    inv.sentBy foreign (i := i) mem rfl named
  cases event with
  | acked ack =>
    cases ack with
    | fail request =>
      cases sent
      obtain ⟨message, rfl⟩ := (inv.sound there).fail_eq logged
      have same : q.claim.attempts = p.claim.attempts :=
        (inv.attempted there).symm.trans attempt
      obtain ⟨rfl, rfl⟩ := inv.distinct there found sameId same
      cases there.symm.trans found
      exact (inv.sound found).reported logged
    | complete request => cases sent
  | beat request => cases sent
  | _ => cases sent

include foreign in
/-- A completion in the name of a worker follows the success of a handler. -/
theorem Fleet.Inv.resolved {j : JobId} {entry : HistoryRow}
    (found : (dbAfter ext service s.run).jobHistory.find? j = some entry)
    (completed : entry.state = .completed) (worker : entry.workerId = some (options i).workerId) :
    ∃ i m p, s.process i m = some p ∧ p.claim.id = j ∧ p.claim.attempts = entry.attempts ∧
      entry.workerId = some p.workerId ∧ .resolved ∈ p.log := by
  obtain ⟨clock, req, mem, rfl, owner, attempts⟩ :=
    completion_of_archived ext service s.run found completed
  have named : req.workerId = (options i).workerId := Option.some.inj (owner.symm.trans worker)
  obtain ⟨j, m, p, event, clock', jittered, there, logged, sent⟩ :=
    inv.sentBy foreign (i := i) mem rfl named
  cases event with
  | acked ack =>
    cases ack with
    | complete request =>
      cases sent
      have sound := inv.sound there
      cases sound.complete_eq logged
      refine ⟨j, m, p, there, rfl, ?_, ?_, sound.justified logged⟩
      · exact (inv.attempted there).symm.trans attempts.symm
      · rw [owner, sound.own.1]
        rfl
    | fail request => cases sent
  | beat request => cases sent
  | _ => cases sent

end Guarantees

/-! ### A worker takes a turn -/

variable [DecidableEq ι]

theorem Fleet.process_setWorker (s : Fleet ι) (i : ι) (label : WorkerLabel) (w : Worker) (j : ι)
    (m : ℕ) : (s.setWorker i label w).process j m =
      if j = i then w.processes[m]? else s.process j m := by
  rw [Fleet.process, Fleet.workers_setWorker]
  split <;> rfl

/-- A process goes on in every turn of its worker and of the others. -/
theorem Fleet.process_forward (taken : (s.workers i).step label = some w) {j : ι}
    (found : s.process j m = some p) :
    ∃ p', (s.setWorker i label w).process j m = some p' ∧ p.Grows p' := by
  rw [Fleet.process_setWorker]
  split
  · rename_i same
    subst same
    exact (Worker.grown_of_step taken).forward found
  · exact ⟨p, found, .refl p⟩

/-- A process after a turn was there before it, or is new. -/
theorem Fleet.process_backward (taken : (s.workers i).step label = some w) {j : ι} {p' : Process}
    (found : (s.setWorker i label w).process j m = some p') :
    (∃ p, s.process j m = some p ∧ (p' = p ∨ ∃ l, p.step l = some p')) ∨
    j = i ∧ ∃ now claim parsed, label = .found now claim parsed ∧
      m = (s.workers i).processes.length ∧
      p' = .start (s.workers i).options.workerId claim parsed := by
  rw [Fleet.process_setWorker] at found
  split at found
  · rename_i same
    subst same
    exact ((Worker.grown_of_step taken).backward found).imp_right fun new => ⟨rfl, new⟩
  · exact .inl ⟨p', found, .inl rfl⟩

theorem Process.start_claim (workerId : String) (claim : ClaimedJob)
    (parsed : Except Thrown Unit) :
    (Process.start workerId claim parsed).claim = claim ∧
      (Process.start workerId claim parsed).workerId = workerId := by
  cases parsed with
  | ok _ => exact ⟨rfl, rfl⟩
  | error _ => exact ⟨rfl, rfl⟩

/-- What a worker waits for after a turn it waited for before, and the turn did not find a
claim. -/
theorem Fleet.Inv.awaits_of_setWorker (inv : s.Inv ext service options before past)
    (taken : (s.workers i).step label = some w) {j : ι} {n : ℕ} {reply : Except Status Reply}
    (mem : (j, .poll n, reply) ∈ s.answers) (awaits : (s.setWorker i label w).Awaits j n) :
    s.Awaits j n ∧ (j = i → label.loops = false) := by
  obtain ⟨polling, last⟩ := awaits
  rw [Fleet.workers_setWorker] at polling
  rw [Fleet.polls_setWorker] at last
  by_cases here : j = i
  · subst here
    rw [if_pos rfl] at polling last
    simp only [polling, decide_true, Bool.and_true] at last
    have asked := inv.asked mem
    cases loops : label.loops with
    | true =>
      -- a new poll was sent, and it has no answer yet
      rw [loops, if_pos rfl] at last
      omega
    | false =>
      rw [loops] at last
      exact ⟨⟨(Worker.grown_of_step taken).polling loops polling, last⟩, fun _ => rfl⟩
  · rw [if_neg here] at polling last
    exact ⟨⟨polling, last⟩, fun same => absurd same here⟩

/-- A turn that counts a process settles it, after a completion. -/
theorem counted_of_step (taken : (s.workers i).step label = some w)
    (counted : label.counts = some m) :
    ∃ p, s.process i m = some p ∧ ∃ n, p.state = .completing n ∧
      (s.setWorker i label w).process i m = some p.settle := by
  cases Worker.turn_of_step taken with
  | @process entry label p p' found turn =>
    cases label with
    | completed =>
      cases counted
      cases Process.turn_of_step turn with
      | completed completing =>
        refine ⟨p, found, _, completing, ?_⟩
        rw [Fleet.process_setWorker, if_pos rfl, List.getElem?_set_self]
        exact (List.getElem?_eq_some_iff.mp found).1
    | _ => cases counted
  | _ => cases counted

/-- A process after a turn has the claim it had, or one its worker waited for. -/
theorem Fleet.Inv.came (inv : s.Inv ext service options before past)
    (taken : (s.workers i).step label = some w)
    (finds : ∀ now claim parsed, label = .found now claim parsed →
      ∃ n, (i, .poll n, .ok (.claimed (some claim))) ∈ s.answers ∧ s.Awaits i n) {j : ι}
    {p' : Process} (found : (s.setWorker i label w).process j m = some p') :
    (∃ p, s.process j m = some p ∧ p'.claim = p.claim ∧ p'.held = p.held) ∨
      j = i ∧ m = (s.workers i).processes.length ∧ label.loops = true ∧
        p'.workerId = (options i).workerId ∧
        ∃ n, (i, .poll n, .ok (.claimed (some p'.claim))) ∈ s.answers ∧ s.Awaits i n := by
  rcases Fleet.process_backward taken found with
    ⟨p, old, same | ⟨turn, step⟩⟩ | ⟨here, now, claim, parsed, rfl, last, rfl⟩
  · rw [same]
    exact .inl ⟨p, old, rfl, rfl⟩
  · have grows := Process.grows_of_step step
    exact .inl ⟨p, old, grows.claim, grows.held⟩
  · obtain ⟨sameClaim, sameWorker⟩ :=
      Process.start_claim (s.workers i).options.workerId claim parsed
    rw [sameClaim, sameWorker, inv.own]
    exact .inr ⟨here, last, rfl, rfl, finds now claim parsed rfl⟩

/-- **A worker takes a turn.**  A claim it finds is one it waited for, and a completion it
counts was answered. -/
theorem Fleet.Inv.act (inv : s.Inv ext service options before past)
    (taken : (s.workers i).step label = some w)
    (finds : ∀ now claim parsed, label = .found now claim parsed →
      ∃ n, (i, .poll n, .ok (.claimed (some claim))) ∈ s.answers ∧ s.Awaits i n)
    (counts : ∀ m, label.counts = some m →
      ∃ position, (i, .process m position, .ok .completed) ∈ s.answers)
    (l : FleetLabel ι) :
    (s.setWorker i label w).Inv ext service options before (past ++ [l]) := by
  constructor
  case own =>
    intro j
    rw [Fleet.workers_setWorker]
    split
    · rename_i same
      subst same
      exact (Worker.grown_of_step taken).options.trans (inv.own _)
    · exact inv.own j
  case sound =>
    intro j m p' found
    rcases Fleet.process_backward taken found with
      ⟨p, old, rfl | ⟨turn, step⟩⟩ | ⟨rfl, now, claim, parsed, rfl, -, rfl⟩
    · exact inv.sound old
    · rw [(Process.grows_of_step step).claim]
      exact (inv.sound old).step step
    · rw [(Process.start_claim _ claim parsed).1, inv.own]
      exact .start _ claim parsed
  case held =>
    intro j m p' found
    rcases inv.came taken finds found with ⟨p, old, -, same⟩ | ⟨rfl, -, -, worker, n, mem, -⟩
    · rw [same]
      exact inv.held old
    · rw [Process.held, worker]
      exact inv.issued mem
  case distinct =>
    intro j j' m m' p p' found found' sameId sameAttempt
    rcases inv.came taken finds found with
      ⟨q, old, claim, -⟩ | ⟨here, last, -, -, n, mem, awaits⟩ <;>
      rcases inv.came taken finds found' with
        ⟨q', old', claim', -⟩ | ⟨here', last', -, -, n', mem', awaits'⟩
    · rw [claim, claim'] at sameId sameAttempt
      exact inv.distinct old old' sameId sameAttempt
    · rw [claim] at sameId sameAttempt
      exact absurd (Prod.ext sameId sameAttempt) (inv.fresh mem' awaits' old)
    · rw [claim'] at sameId sameAttempt
      exact absurd (Prod.ext sameId.symm sameAttempt.symm) (inv.fresh mem awaits old')
    · exact ⟨here.trans here'.symm, last.trans last'.symm⟩
  case asked =>
    intro j n reply mem
    have old := inv.asked mem
    rw [Fleet.polls_setWorker]
    split
    · rename_i same
      subst same
      omega
    · exact old
  case issued => exact inv.issued
  case separate => exact inv.separate
  case fresh =>
    intro j n job mem awaits j' m p' found clash
    obtain ⟨awaited, quiet⟩ := inv.awaits_of_setWorker taken mem awaits
    rcases inv.came taken finds found with ⟨p, old, claim, -⟩ | ⟨-, -, loops, -, n', mem', -⟩
    · rw [claim] at clash
      exact inv.fresh mem awaited old clash
    · -- the claim was found by one worker and another still waits for it
      have same := eq_of_nodup_filterMap inv.separate mem mem' (a := (job.id, job.attempts)) rfl
        (congrArg some clash)
      cases same
      rw [quiet rfl] at loops
      cases loops
  case traced =>
    intro op mem
    rcases inv.traced op mem with silent | ⟨j, m, p, event, clock, jittered, found, logged, sent⟩ |
      earlier | other
    · exact .inl silent
    · obtain ⟨p', found', grows⟩ := Fleet.process_forward taken found
      exact .inr (.inl ⟨j, m, p', event, clock, jittered, found', grows.log.subset logged, sent⟩)
    · exact .inr (.inr (.inl earlier))
    · exact .inr (.inr (.inr (List.mem_append_left _ other)))
  case confirmed =>
    intro j m position mem
    obtain ⟨p, found, completed⟩ := inv.confirmed mem
    obtain ⟨p', found', grows⟩ := Fleet.process_forward taken found
    exact ⟨p', found', grows.held ▸ completed⟩
  case counted =>
    intro j m mem
    rcases List.mem_append.mp mem with old | new
    · obtain ⟨p, found, settled, resolved, completed⟩ := inv.counted old
      obtain ⟨p', found', grows⟩ := Fleet.process_forward taken found
      exact ⟨p', found', grows.settled settled, grows.log.subset resolved,
        grows.held ▸ completed⟩
    · obtain ⟨m', counted, same⟩ := Option.map_eq_some_iff.mp (Option.mem_toList.mp new)
      cases same
      obtain ⟨p, found, n, completing, found'⟩ := counted_of_step taken counted
      obtain ⟨position, answered⟩ := counts m counted
      obtain ⟨q, same, completed⟩ := inv.confirmed answered
      cases found.symm.trans same
      have phase := (inv.sound found).phase
      rw [completing] at phase
      exact ⟨p.settle, found', rfl, phase.2.2.1, completed⟩
  case once =>
    show (s.processed ++ (label.counts.map (i, ·)).toList).Nodup
    cases counted : label.counts with
    | none => simpa using inv.once
    | some m =>
      refine inv.once.append (List.nodup_singleton (i, m)) ?_
      intro pair old new
      cases List.mem_singleton.mp new
      obtain ⟨p, found, n, completing, -⟩ := counted_of_step taken counted
      obtain ⟨q, same, settled, -⟩ := inv.counted old
      cases found.symm.trans same
      rw [completing] at settled
      cases settled

/-! ### Every step -/

theorem WorkerLabel.waits_of_counts (counted : label.counts = some m) : label.waits = true := by
  cases label with
  | process entry turn =>
    cases turn with
    | completed => rfl
    | _ => cases counted
  | _ => cases counted

/-- **Every step keeps the invariant.** -/
theorem Fleet.Inv.step (inv : s.Inv ext service options before past) {l : FleetLabel ι}
    (taken : s.step ext service queue l = some s') :
    s'.Inv ext service options before (past ++ [l]) := by
  cases Fleet.move_of_step taken with
  | turn alone turn =>
    refine inv.act turn ?_ (fun m counted => ?_) _
    · rintro now claim parsed rfl
      cases alone
    · rw [WorkerLabel.waits_of_counts counted] at alone
      cases alone
  | deliver sent => exact inv.deliver sent _
  | other op => simpa using inv.serve none (.inr (.inr rfl)) nofun nofun nofun
  | answer kept returned turn =>
    refine inv.act turn ?_ (fun m counted => ?_) _
    · rintro now claim parsed rfl
      obtain ⟨n, rfl, rfl, last⟩ := Fleet.found_of_returns returned
      cases Worker.turn_of_step turn with
      | found polling => exact ⟨n, kept, polling, last⟩
    · obtain ⟨position, rfl, rfl⟩ := Fleet.counts_of_returns returned counted
      exact ⟨position, kept⟩

theorem Fleet.inv_of_follow {labels : List (FleetLabel ι)}
    (ran : follow (Fleet.step ext service queue) (.start options before) labels = some s) :
    s.Inv ext service options before labels :=
  invariant_of_follow (I := fun past s => Fleet.Inv ext service options before past s)
    (fun taken inv => inv.step taken) [] ran (.start options before)

end Fleet

/-! ## The guarantees hold -/

variable {ι : Type} [DecidableEq ι] {ext : Externals} {service : Service} {queue : ι → String}
  {options : ι → WorkerOptions} {before : List Op} {labels : List (FleetLabel ι)} {s : Fleet ι}

/-- **The handlers of a fleet exclude each other**, whatever the network does and whatever else
is served, if nobody else acknowledges under the names of its workers: every process has a claim
of its own, and of two processes of one job the earlier one has lost its lease to a recovery,
past every expiry it was told, or has reported its failure. -/
theorem handlers_exclusive
    (ran : follow (Fleet.step ext service queue) (.start options before) labels = some s)
    (foreign : ∀ op, op ∈ before ∨ .other op ∈ labels → Foreign options op) :
    HandlersExclusive ext service s := by
  have inv := Fleet.inv_of_follow ran
  refine ⟨inv.held, inv.distinct, fun found found' sameId earlier => ?_⟩
  have ended := ended_of_later_claim (inv.held found) (inv.held found') sameId.symm earlier
  exact ended.imp_right (inv.reported foreign found)

/-- **A fleet counts honestly**: what its workers count as processed was completed by the
broker, each job once across all workers, and what is archived as completed in the name of a
worker was resolved by a handler. -/
theorem fleet_counts_honest
    (ran : follow (Fleet.step ext service queue) (.start options before) labels = some s)
    (foreign : ∀ op, op ∈ before ∨ .other op ∈ labels → Foreign options op) :
    CountsHonest ext service options s := by
  have inv := Fleet.inv_of_follow ran
  refine ⟨fun mem => ?_, inv.once, fun {_ _ _ _ p p'} mem mem' found found' sameId => ?_,
    fun found completed worker => ?_⟩
  · obtain ⟨p, found, -, resolved, completed⟩ := inv.counted mem
    exact ⟨p, found, resolved, completed⟩
  · obtain ⟨_, here, -, -, completed⟩ := inv.counted mem
    obtain ⟨_, here', -, -, completed'⟩ := inv.counted mem'
    cases found.symm.trans here
    cases found'.symm.trans here'
    have same := completed'.unique completed sameId
    rw [show max p.held.2.1 1 = p.claim.attempts from inv.attempted found,
      show max p'.held.2.1 1 = p'.claim.attempts from inv.attempted found'] at same
    exact inv.distinct found found' sameId same
  · obtain ⟨i, worker⟩ := worker
    exact inv.resolved foreign found completed worker

/-! ## Two workers -/

/-- Two workers on one queue. -/
def twoWorkers (i : Bool) : WorkerOptions := { workerId := if i then "v" else "u" }

/-- The first worker claims the only job and loses its lease; the second worker gets it. -/
def lostLease : List (FleetLabel Bool) :=
  [.deliver false (.poll 0) stopped 0, .answer 0 0 (.ok ()),
    .other (.recoverExpired (fun _ => 30000) 100),
    .deliver true (.poll 0) (fun _ => 1000000) 0, .answer 1 1000000 (.ok ())]

theorem foreign_lostLease (op : Op)
    (outside : op ∈ [Op.addJob stopped { name := "mails" }] ∨ .other op ∈ lostLease) :
    Foreign twoWorkers op := by
  intro ack acks
  simp only [lostLease, List.mem_cons, List.not_mem_nil, or_false, reduceCtorEq, false_or,
    FleetLabel.other.injEq] at outside
  rcases outside with rfl | rfl <;> cases acks

theorem lostLease_exclusive :
    ∃ s, follow (Fleet.step .unary {} fun _ : Bool => "mails")
        (.start twoWorkers [.addJob stopped { name := "mails" }]) lostLease = some s ∧
      (∃ p p', s.process false 0 = some p ∧ s.process true 0 = some p' ∧
        p.claim.id = p'.claim.id ∧ p.claim.attempts < p'.claim.attempts) ∧
      HandlersExclusive .unary {} s := by
  have ran : (follow (Fleet.step .unary {} fun _ : Bool => "mails")
      (.start twoWorkers [.addJob stopped { name := "mails" }]) lostLease).any (fun s =>
        (s.process false 0).any fun p => (s.process true 0).any fun p' =>
          decide (p.claim.id = p'.claim.id ∧ p.claim.attempts < p'.claim.attempts)) = true := by
    decide +kernel
  obtain ⟨s, followed, both⟩ := (Option.any_eq_true _ _).mp ran
  obtain ⟨p, first, rest⟩ := (Option.any_eq_true _ _).mp both
  obtain ⟨p', second, same⟩ := (Option.any_eq_true _ _).mp rest
  exact ⟨s, followed, ⟨p, p', first, second, of_decide_eq_true same⟩,
    handlers_exclusive followed foreign_lostLease⟩

/-- The first worker processes the job; its first completion runs into the deadline and is never
answered, and the second one succeeds. -/
def retriedCompletion : List (FleetLabel Bool) :=
  [.deliver false (.poll 0) stopped 0, .answer 0 0 (.ok ()),
    .turn false (.process 0 (.settle none)), .turn false (.process 0 .wake),
    .turn false (.process 0 (.join true none)), .deliver false (.process 0 2) stopped 0,
    .turn false (.process 0 (.completionFails (.error (some .deadlineExceeded) "deadline"))),
    .turn false (.process 0 .retry), .deliver false (.process 0 3) stopped 0,
    .answer 2 0 (.ok ())]

/-- The job is counted once, however often its completion was sent. -/
theorem retriedCompletion_counted :
    ∃ s, follow (Fleet.step .unary {} fun _ : Bool => "mails")
        (.start twoWorkers [.addJob stopped { name := "mails" }]) retriedCompletion = some s ∧
      s.processed = [(false, 0)] ∧ CountsHonest .unary {} twoWorkers s := by
  have ran : (follow (Fleet.step .unary {} fun _ : Bool => "mails")
      (.start twoWorkers [.addJob stopped { name := "mails" }]) retriedCompletion).any
        (fun s => decide (s.processed = [(false, 0)])) = true := by decide +kernel
  obtain ⟨s, followed, counted⟩ := (Option.any_eq_true _ _).mp ran
  refine ⟨s, followed, of_decide_eq_true counted, fleet_counts_honest followed fun op outside => ?_⟩
  intro ack acks
  simp only [retriedCompletion, List.mem_cons, List.not_mem_nil, or_false, reduceCtorEq] at outside
  subst outside
  cases acks

end AnvilMQ.Client
