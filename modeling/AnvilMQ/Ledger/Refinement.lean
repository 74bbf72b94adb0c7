import AnvilMQ.Ledger.Flows
import AnvilMQ.Ledger.Identity
import AnvilMQ.Ledger.Maintenance

/-!
# The broker refines the ledger machine

Every operation of the broker, from every sound database, is a chain of events of
the ledger machine, and its answer and its gauge calls tell the truth about them.
A run therefore has a history: the events of its operations, one after another.
-/

namespace AnvilMQ

open Rust Relational Transition

/-! ## Operations and their events -/

/-- A live job with a running claim that is acknowledged. -/
def Acknowledged (db : Db) (id workerId : String) (attempt : ℕ) (now : ℤ) (row : JobRow) : Prop :=
  db.jobs.find? id = some row ∧ Accepts row workerId attempt now

/-- Whether a failure report sends the job to `Failed`. -/
def Terminal (row : JobRow) (nonRetryable : Bool) : Prop :=
  ¬ (row.attempts < row.maxAttempts ∧ ¬ nonRetryable)

/-- The result a completion stores. -/
def CompleteJobRequest.stored (req : CompleteJobRequest) : Option Bytes :=
  if req.result.isEmpty then none else some req.result

/-- The events an operation can make of a database. -/
def Op.Emits (service : Service) (db : Db) : Op → Event → Prop
  | addJob _ _, e => e.IsIntake
  | addJobBulk _ _, e => e.IsIntake
  | addFlow _ flow, e => e.Sows (FlowJob.allOptionsList flow.toList)
  | addFlowBulk _ flows, e => e.Sows (FlowJob.allOptionsList flows)
  | addFlowMerge _ flow, e => ∃ tree target, flow = some tree ∧
      resolveTarget db tree.options.name tree.options.idempotencyKey = .ok target ∧
      e.Merges (FlowJob.allOptionsList tree.children) target
  | getNextJob clock req, e => ∃ row, e = claimEvent service row req.workerId (clock 1)
  | heartbeat clock req, e => ∃ row lease, Acknowledged db req.id req.workerId req.attempt (clock 0)
      row ∧ e = .renewed row lease (clock 0)
  | completeJob clock req, e => ∃ row,
      Acknowledged db req.id req.workerId req.attempt (clock 0) row ∧
      e = completionEvent clock db row req.stored
  | failJob clock jittered req, e =>
    (∃ row, Acknowledged db req.id req.workerId req.attempt (clock 0) row ∧
      (e = retryEvent clock jittered row req.errorMessage ∨
        ∃ n, e = .failed row (row.toHistory .failed (clock 1) (some req.errorMessage) none)
          .reported n)) ∨
    ∃ row entry n, e = .failed row entry .cascaded n
  | recoverExpired clock _, e => ∃ row n, e = recoveryEvent (clock 0) row n
  | sweep _ _ _, e => e.IsPruning
  | upsertRateLimitRule _ _, _ => False
  | deleteRateLimitRule _, _ => False
  | upsertIngressLimitRule _ _, e => e.IsRecord
  | deleteIngressLimitRule _, e => e.IsRecord
  | upsertJobScheduler _ _, e => e.IsRecord
  | deleteJobScheduler _, e => e.IsRecord
  | runOnce _ _, e => e.IsIntake

/-- The operations of a worker, and the recovery of what it has left. -/
def Op.Works : Op → Prop
  | getNextJob _ _ | heartbeat _ _ | completeJob _ _ | failJob _ _ _ | recoverExpired _ _ => True
  | _ => False

/-- A claim, a renewal, a return to the queue, a completion or a failure. -/
def Event.IsWork : Event → Prop
  | claimed _ _ _ _ | renewed _ _ _ | requeued _ _ _ _ _ _ | completed _ _ _ _ _ _
  | failed _ _ _ _ => True
  | _ => False

/-- The operations of a worker move jobs along and do nothing else. -/
theorem Op.Emits.isWork {service : Service} {db : Db} {op : Op} {e : Event}
    (emits : op.Emits service db e) (works : op.Works) : e.IsWork := by
  cases op with
  | getNextJob clock req =>
    obtain ⟨row, rfl⟩ := emits
    trivial
  | heartbeat clock req =>
    obtain ⟨row, lease, -, rfl⟩ := emits
    trivial
  | completeJob clock req =>
    obtain ⟨row, -, rfl⟩ := emits
    trivial
  | failJob clock jittered req =>
    rcases emits with ⟨row, -, rfl | ⟨n, rfl⟩⟩ | ⟨row, entry, n, rfl⟩ <;> trivial
  | recoverExpired clock batchSize =>
    obtain ⟨row, n, rfl⟩ := emits
    rw [recoveryEvent]
    split <;> trivial
  | _ => exact works.elim

/-- **When the gauge calls of an operation mirror its events**: always, except
that a terminal failure has to cascade only through ancestors that are parked on
their children and hold no receipt to release. -/
def Op.Mirrored (db : Db) : Op → Prop
  | failJob clock _ req => ∀ row, Acknowledged db req.id req.workerId req.attempt (clock 0) row →
      Terminal row req.nonRetryable → CascadeMirrored db row
  | _ => True

/-- What the answer of an operation shows to an observer of its reply. -/
def shown {α : Type} (see : Reply → List α) : Except Status (Reply × List MetricCall) → List α
  | .error _ => []
  | .ok (reply, _) => see reply

/-- The gauge calls of an answered operation. -/
def answerCalls : Except Status (Reply × List MetricCall) → List MetricCall
  | .error _ => []
  | .ok (_, calls) => calls

/-- A claim as its worker learns of it: the job, the attempt and the worker. -/
abbrev ClaimRecord := JobId × ℕ × String

/-- The claim an event makes. -/
def Event.claim : Event → Option ClaimRecord
  | claimed row workerId _ _ => some (row.id, row.attempts + 1, workerId)
  | _ => none

/-- The claim an answer reports. -/
def claimsShown : Op → Reply → List ClaimRecord
  | .getNextJob _ req, .claimed (some job) => [(job.id, job.attempts, req.workerId)]
  | _, _ => []

/-- The claim an event settles on a report of its worker. -/
def Event.settles : Event → Option (JobId × ℕ)
  | completed row _ _ _ _ _ => some (row.id, row.attempts)
  | requeued row .retry _ _ _ _ => some (row.id, row.attempts)
  | failed row _ .reported _ => some (row.id, row.attempts)
  | _ => none

/-- The claim an accepted report settles: that of the live job it names. -/
def settlesShown (db : Db) : Op → List (JobId × ℕ)
  | .completeJob _ req => ((db.jobs.find? req.id).map fun row => (row.id, row.attempts)).toList
  | .failJob _ _ req => ((db.jobs.find? req.id).map fun row => (row.id, row.attempts)).toList
  | _ => []

/-- **The correspondence of an operation with its events.** -/
structure Refines (ext : Externals) (service : Service) (t slot : ℕ) (db : Db) (op : Op)
    (events : List Event) : Prop where
  chain : Chain (Step ext) (db.ledger t 0) events ((serve ext service t db op).1.ledger t slot)
  emits : ∀ e ∈ events, op.Emits service db e
  links : events.filterMap Event.link = shown Reply.links (serve ext service t db op).2
  balanced : Balanced events
  claims : events.filterMap Event.claim = shown (claimsShown op) (serve ext service t db op).2
  settles : events.filterMap Event.settles =
    shown (fun _ => settlesShown db op) (serve ext service t db op).2
  gauges : op.Mirrored db → ∀ gauge,
    callDelta (answerCalls (serve ext service t db op).2) gauge = eventDelta events gauge
  silent : ∀ status, (serve ext service t db op).2 = .error status → events = []

variable {ext : Externals} {service : Service} {t slot : ℕ} {db db' : Db} {op : Op} {e : Event}
  {run : List Op} {α : Type} {outcome : Except Status α} {pack : α → Reply × Db × List MetricCall}
  {reply : Reply}

/-! ## From traces to refinements -/

section Traces

variable {kind : Event → Prop} {safe : Prop} {calls : List MetricCall} {events : List Event}

/-- A refused operation leaves the books alone. -/
theorem refines_of_refused {status : Status}
    (served : serve ext service t db op = (db', .error status))
    (same : db'.ledger t 0 = db.ledger t 0) :
    ∃ slot events, Refines ext service t slot db op events := by
  refine ⟨0, [], ?_, by simp, ?_, fun _ => rfl, ?_, ?_, fun _ gauge => ?_, fun _ _ => rfl⟩
  · rw [served, same]
    exact .nil _
  · rw [served]
    rfl
  · rw [served]
    rfl
  · rw [served]
    rfl
  · rw [served]
    rfl

/-- An event that makes no links. -/
structure Event.Unlinked (e : Event) : Prop where
  link : e.link = none
  announces : ∀ j, e.announces j = 0

/-- An event that neither links nor claims. -/
structure Event.Plain (e : Event) : Prop extends e.Unlinked where
  claim : e.claim = none

/-- A plain event that settles no claim either. -/
structure Event.Passive (e : Event) : Prop extends e.Plain where
  settles : e.settles = none

theorem links_of_unlinked (unlinked : ∀ e ∈ events, e.Unlinked) :
    events.filterMap Event.link = [] :=
  List.filterMap_eq_nil_iff.mpr fun e mem => (unlinked e mem).link

theorem balanced_of_unlinked (unlinked : ∀ e ∈ events, e.Unlinked) : Balanced events := by
  intro j
  rw [links_of_unlinked unlinked, announced,
    List.map_congr_left fun e mem => (unlinked e mem).announces j]
  simp [linkedTo]

theorem settles_of_passive (passive : ∀ e ∈ events, e.Passive) :
    events.filterMap Event.settles = [] :=
  List.filterMap_eq_nil_iff.mpr fun e mem => (passive e mem).settles

theorem claims_of_plain (plain : ∀ e ∈ events, e.Plain) : events.filterMap Event.claim = [] :=
  List.filterMap_eq_nil_iff.mpr fun e mem => (plain e mem).claim

/-- An operation that neither plants nor claims refines the machine when it leaves
a trace of its events. -/
theorem refines_of_plain (served : serve ext service t db op = (db', .ok (reply, calls)))
    (trace : Trace ext kind safe t 0 slot db db' calls events)
    (emits : ∀ e ∈ events, op.Emits service db e) (holds : op.Mirrored db → safe)
    (plain : ∀ e ∈ events, e.Plain) (unlinked : reply.links = [])
    (unclaimed : claimsShown op reply = [])
    (settles : events.filterMap Event.settles = settlesShown db op) :
    Refines ext service t slot db op events where
  chain := by
    rw [served]
    exact trace.chain
  emits := emits
  links := by
    rw [served, links_of_unlinked fun e mem => (plain e mem).toUnlinked]
    exact unlinked.symm
  balanced := balanced_of_unlinked fun e mem => (plain e mem).toUnlinked
  claims := by
    rw [served, claims_of_plain plain]
    exact unclaimed.symm
  settles := by
    rw [served]
    exact settles
  gauges := by
    intro mirrored gauge
    rw [served]
    exact trace.gauges (holds mirrored) gauge
  silent := by
    intro status refused
    rw [served] at refused
    cases refused

/-- So does one whose events are all passive. -/
theorem refines_of_trace (served : serve ext service t db op = (db', .ok (reply, calls)))
    (trace : Trace ext kind safe t 0 slot db db' calls events)
    (emits : ∀ e ∈ events, op.Emits service db e) (holds : op.Mirrored db → safe)
    (passive : ∀ e ∈ events, e.Passive) (unlinked : reply.links = [])
    (unclaimed : claimsShown op reply = []) (unsettled : settlesShown db op = []) :
    Refines ext service t slot db op events :=
  refines_of_plain served trace emits holds (fun e mem => (passive e mem).toPlain) unlinked
    unclaimed ((settles_of_passive passive).trans unsettled.symm)

/-- A flow request refines the machine when it leaves a flow trace. -/
theorem refines_of_flowTrace (served : serve ext service t db op = (db', .ok (reply, calls)))
    (flow : FlowTrace ext kind t 0 slot db db' calls reply.links events)
    (emits : ∀ e, kind e → op.Emits service db e)
    (idle : ∀ e, kind e → e.claim = none ∧ e.settles = none)
    (unclaimed : claimsShown op reply = []) (unsettled : settlesShown db op = []) :
    Refines ext service t slot db op events where
  chain := by
    rw [served]
    exact flow.trace.chain
  emits := fun e mem => emits e (flow.trace.only e mem)
  links := by
    rw [served, flow.links]
    rfl
  balanced := flow.balanced
  claims := by
    rw [served, List.filterMap_eq_nil_iff.mpr fun e mem => (idle e (flow.trace.only e mem)).1]
    exact unclaimed.symm
  settles := by
    rw [served, List.filterMap_eq_nil_iff.mpr fun e mem => (idle e (flow.trace.only e mem)).2]
    exact unsettled.symm
  gauges := by
    intro _ gauge
    rw [served]
    exact flow.trace.gauges trivial gauge
  silent := by
    intro status refused
    rw [served] at refused
    cases refused

theorem Event.IsIntake.passive (intake : e.IsIntake) : e.Passive := by
  cases e <;> first | exact intake.elim | exact ⟨⟨⟨rfl, fun _ => rfl⟩, rfl⟩, rfl⟩

theorem Event.IsPruning.passive (pruning : e.IsPruning) : e.Passive := by
  cases e <;> first | exact pruning.elim | exact ⟨⟨⟨rfl, fun _ => rfl⟩, rfl⟩, rfl⟩

theorem Event.IsRecord.passive (record : e.IsRecord) : e.Passive := by
  cases e <;> first | exact record.elim | exact ⟨⟨⟨rfl, fun _ => rfl⟩, rfl⟩, rfl⟩

theorem Event.Sows.idle {asked : List FlowOptions} (sows : e.Sows asked) :
    e.claim = none ∧ e.settles = none := by
  cases e <;> first | exact sows.elim | exact ⟨rfl, rfl⟩

theorem Event.Merges.idle {asked : List FlowOptions} {target : JobRow}
    (merges : e.Merges asked target) : e.claim = none ∧ e.settles = none := by
  cases e <;> first | exact merges.elim | exact ⟨rfl, rfl⟩

end Traces

/-! ## Operation by operation -/

/-- What soundness of the books says of the tables. -/
theorem Ledger.Sound.parentsOlder {k : ℕ} (sound : (db.ledger t k).Sound ext) :
    ParentsOlder ext db.jobs.find? := by
  intro j row found
  exact ⟨sound.keyed found, fun p here => sound.older found here⟩

theorem Ledger.Sound.db_disjoint {k : ℕ} (sound : (db.ledger t k).Sound ext) : db.Disjoint := by
  intro j live done
  obtain ⟨row, found⟩ := Table.has_iff_find?.mp live
  exact Table.not_has_iff.mpr (sound.disjoint found) done

theorem Ledger.Sound.named {k : ℕ} (sound : (db.ledger t k).Sound ext) :
    ∀ j, db.jobs.Has j → j ≠ "" := by
  intro j live
  obtain ⟨row, found⟩ := Table.has_iff_find?.mp live
  obtain ⟨t', k', rfl, -⟩ := sound.drawn found
  exact ne_empty_of_not_isBlank (ext.newV4_not_blank t' k')

/-- Refinement for the operations that enqueue, from their traces. -/
theorem enqueue_refines (answer : Db → Db × Except Status (List AddJobResponse × List MetricCall))
    (served : serve ext service t db op =
      ((answer db).1, (answer db).2.map fun (responses, calls) => (.enqueued responses, calls)))
    (cases : ((answer db).1.ledger t 0 = db.ledger t 0 ∧ ∃ status, (answer db).2 = .error status) ∨
      ∃ responses calls slot events, (answer db).2 = .ok (responses, calls) ∧
        Trace ext Event.IsIntake True t 0 slot db (answer db).1 calls events)
    (emits : ∀ e : Event, e.IsIntake → op.Emits service db e)
    (unclaimed : ∀ responses, claimsShown op (.enqueued responses) = [])
    (unsettled : settlesShown db op = []) :
    ∃ slot events, Refines ext service t slot db op events := by
  rcases cases with ⟨same, status, refused⟩ | ⟨responses, calls, slot, events, accepted, trace⟩
  · rw [refused] at served
    exact refines_of_refused served same
  · rw [accepted] at served
    exact ⟨slot, events, refines_of_trace served trace (fun e mem => emits e (trace.only e mem))
      (fun _ => trivial) (fun e mem => (trace.only e mem).passive) rfl (unclaimed responses)
      unsettled⟩

/-- A transaction that rolls back leaves the books alone. -/
theorem transact_refines (served : serve ext service t db op = transact db (outcome.map pack))
    (commits : ∀ a, outcome = .ok a → serve ext service t db op =
      ((pack a).2.1, .ok ((pack a).1, (pack a).2.2)) →
      ∃ slot events, Refines ext service t slot db op events) :
    ∃ slot events, Refines ext service t slot db op events := by
  cases done : outcome with
  | error status =>
    rw [done] at served
    exact refines_of_refused served rfl
  | ok a =>
    rw [done] at served
    exact commits a done served

section Operations

variable {clock : Clock}

/-- An accepted request that leaves the books alone. -/
theorem refines_of_unchanged (served : serve ext service t db op = (db', .ok (reply, [])))
    (same : db'.ledger t 0 = db.ledger t 0) (unlinked : reply.links = [])
    (unclaimed : claimsShown op reply = []) (unsettled : settlesShown db op = []) :
    ∃ slot events, Refines ext service t slot db op events := by
  have trace : Trace ext (fun _ => True) True t 0 0 db db' [] [] :=
    ⟨same ▸ .nil _, by simp, by simp⟩
  exact ⟨0, [], refines_of_trace served trace (by simp) (fun _ => trivial) (by simp) unlinked
    unclaimed unsettled⟩

theorem flow_refines {flow : Option FlowJob} :
    ∃ slot events, Refines ext service t slot db (.addFlow clock flow) events := by
  refine transact_refines rfl ?_
  rintro ⟨response, db', calls⟩ ok served
  obtain ⟨slot, events, trace⟩ := addFlow_trace ok
  have links : (Reply.planted [response]).links = nodeLinks response.nodes := by
    simp [Reply.links]
  rw [← links] at trace
  exact ⟨slot, events, refines_of_flowTrace served trace (fun _ => id)
    (fun _ => Event.Sows.idle) rfl rfl⟩

theorem flowBulk_refines {flows : List FlowJob} :
    ∃ slot events, Refines ext service t slot db (.addFlowBulk clock flows) events := by
  refine transact_refines rfl ?_
  rintro ⟨responses, db', calls⟩ ok served
  obtain ⟨slot, events, trace⟩ := addFlowBulk_trace ok
  exact ⟨slot, events, refines_of_flowTrace served trace (fun _ => id)
    (fun _ => Event.Sows.idle) rfl rfl⟩

theorem flowMerge_refines (sound : (db.ledger t 0).Sound ext) {flow : Option FlowJob} :
    ∃ slot events, Refines ext service t slot db (.addFlowMerge clock flow) events := by
  refine transact_refines rfl ?_
  rintro ⟨response, db', calls⟩ ok served
  obtain ⟨tree, target, given, resolved, slot, events, trace⟩ := addFlowMerge_trace sound.named ok
  exact ⟨slot, events, refines_of_flowTrace served trace
    (fun _ merges => ⟨tree, target, given, resolved, merges⟩)
    (fun _ => Event.Merges.idle) rfl rfl⟩

/-- A poll refines the claim of the job it selects. -/
theorem claim_refines {req : GetNextJobRequest} :
    ∃ slot events, Refines ext service t slot db (.getNextJob clock req) events := by
  refine transact_refines rfl ?_
  rintro ⟨job, db', calls⟩ ok served
  rcases getNextJob_cases ok with ⟨rfl, rfl, rfl⟩ | ⟨row, selected, worker, rfl, rfl, rfl⟩
  · exact refines_of_unchanged served rfl rfl rfl rfl
  · obtain ⟨live, claimable⟩ := selectNext_some selected
    refine ⟨0, [claimEvent service row req.workerId (clock 1)], ?_, ?_, ?_, ?_, ?_, ?_, ?_, ?_⟩
    · rw [served]
      exact .single (claim_step live claimable worker)
    · intro e mem
      exact ⟨row, List.mem_singleton.mp mem⟩
    · rw [served]
      rfl
    · refine balanced_of_unlinked fun e mem => ?_
      rw [List.mem_singleton.mp mem]
      exact ⟨rfl, fun _ => rfl⟩
    · rw [served]
      rfl
    · rw [served]
      rfl
    · intro _ gauge
      rw [served, eventDelta_cons, eventDelta_nil, add_zero]
      exact claim_gauges claimable gauge
    · intro status refused
      rw [served] at refused
      cases refused

/-- A heartbeat refines a renewal. -/
theorem heartbeat_refines {req : HeartbeatRequest} :
    ∃ slot events, Refines ext service t slot db (.heartbeat clock req) events := by
  refine transact_refines rfl ?_
  rintro ⟨expiry, db'⟩ ok served
  obtain ⟨row, lease, live, active, owner, current, positive, leased, running, -, step⟩ :=
    renewLease_cases ok
  have trace : Trace ext (fun _ => True) True t 0 0 db db' [] [.renewed row expiry (clock 0)] :=
    ⟨.single step, by simp, by simp⟩
  refine ⟨0, _, refines_of_trace served trace ?_ id ?_ rfl rfl rfl⟩
  · intro e mem
    refine ⟨row, expiry, ⟨live, active, owner, ?_, lease, leased, running⟩,
      List.mem_singleton.mp mem⟩
    omega
  · intro e mem
    rw [List.mem_singleton.mp mem]
    exact ⟨⟨⟨rfl, fun _ => rfl⟩, rfl⟩, rfl⟩

/-- `CompleteJob` refines a completion, or nothing when it is a replay. -/
theorem complete_refines {req : CompleteJobRequest} :
    ∃ slot events, Refines ext service t slot db (.completeJob clock req) events := by
  refine transact_refines rfl ?_
  rintro ⟨db', calls⟩ ok served
  simp only [completeJob] at ok
  split at ok
  · cases ok
  simp only [bind_eq_ok, Except.ok.injEq, Prod.mk.injEq] at ok
  obtain ⟨⟨moved, db₁, calls₁⟩, finished, rfl, rfl⟩ := ok
  rcases finishJob_cases finished with ⟨gone, -, -, -, rfl, rfl⟩ | ⟨row, live, accepts, settled⟩
  · exact refines_of_unchanged served rfl rfl rfl (by simp [settlesShown, gone])
  · simp only [settle, bind_eq_ok, Except.ok.injEq, Prod.mk.injEq] at settled
    obtain ⟨⟨db₂, calls₂⟩, completed, -, rfl, rfl⟩ := settled
    have here := Table.key_of_find? live
    have found : db.jobs.find? row.id = some row := by rwa [here]
    obtain ⟨chain, gauges⟩ := finishCompleted_trace found accepts.active completed
    have trace : Trace ext (fun _ => True) True t 0 0 db db₂ calls₂
        [completionEvent clock db row req.stored] := ⟨chain, by simp, fun _ => gauges⟩
    refine ⟨0, _, refines_of_plain served trace ?_ id ?_ rfl rfl ?_⟩
    · intro e mem
      exact ⟨row, ⟨live, accepts⟩, List.mem_singleton.mp mem⟩
    · intro e mem
      rw [List.mem_singleton.mp mem]
      exact ⟨⟨rfl, fun _ => rfl⟩, rfl⟩
    · simp [settlesShown, live, completionEvent, Event.settles]

/-- Every event of a cascade is an ancestor's failure. -/
theorem CascadeEvents.mem {receipts : Table Receipt.key} {chain : List JobRow}
    {events : List Event} (cascaded : CascadeEvents receipts chain events) :
    ∀ e ∈ events, ∃ row entry n, e = .failed row entry .cascaded n := by
  induction cascaded with
  | nil => simp
  | cons this _ ih =>
    intro e mem
    rcases List.mem_cons.mp mem with rfl | later
    · obtain ⟨entry, n, rfl, -⟩ := this
      exact ⟨_, entry, n, rfl⟩
    · exact ih e later

/-- `FailJob` refines a retry, or a failure and what it takes along. -/
theorem fail_refines (sound : (db.ledger t 0).Sound ext) {jittered : ℤ} {req : FailJobRequest} :
    ∃ slot events, Refines ext service t slot db (.failJob clock jittered req) events := by
  refine transact_refines rfl ?_
  rintro ⟨moved, db', calls⟩ ok served
  rcases finishJob_cases ok with ⟨gone, -, -, -, rfl, rfl⟩ | ⟨row, live, accepts, settled⟩
  · exact refines_of_unchanged served rfl rfl rfl (by simp [settlesShown, gone])
  have here := Table.key_of_find? live
  have found : db.jobs.find? row.id = some row := by rwa [here]
  simp only [settle] at settled
  split at settled
  · rename_i again
    simp only [Except.ok.injEq, Prod.mk.injEq] at settled
    obtain ⟨rfl, rfl, rfl⟩ := settled
    obtain ⟨chain, gauges⟩ := finishRetry_trace found accepts.active again.1
    have trace : Trace ext (fun _ => True) True t 0 0 db _ _
        [retryEvent clock jittered row req.errorMessage] := ⟨chain, by simp, fun _ => gauges⟩
    refine ⟨0, _, refines_of_plain served trace ?_ (fun _ => trivial) ?_ rfl rfl ?_⟩
    · intro e mem
      exact .inl ⟨row, ⟨live, accepts⟩, .inl (List.mem_singleton.mp mem)⟩
    · intro e mem
      rw [List.mem_singleton.mp mem]
      exact ⟨⟨rfl, fun _ => rfl⟩, rfl⟩
    · simp [settlesShown, live, retryEvent, Event.settles]
  · rename_i terminal
    simp only [bind_eq_ok, Except.ok.injEq, Prod.mk.injEq] at settled
    obtain ⟨⟨db₂, calls₂⟩, failed, rfl, rfl, rfl⟩ := settled
    obtain ⟨n, ancestors, events, -, cascaded, chain, gauges⟩ :=
      finishFailed_trace found accepts.active sound.parentsOlder failed
    have trace : Trace ext (fun _ => True) (CascadeMirrored db row) t 0 0 db db₂ calls₂
        (.failed row (row.toHistory .failed (clock 1) (some req.errorMessage) none) .reported n ::
          events) := ⟨chain, by simp, gauges⟩
    refine ⟨0, _, refines_of_plain served trace ?_ ?_ ?_ rfl rfl ?_⟩
    · intro e mem
      rcases List.mem_cons.mp mem with rfl | later
      · exact .inl ⟨row, ⟨live, accepts⟩, .inr ⟨n, rfl⟩⟩
      · exact .inr (cascaded.mem e later)
    · intro mirrored
      exact mirrored row ⟨live, accepts⟩ terminal
    · intro e mem
      rcases List.mem_cons.mp mem with rfl | later
      · exact ⟨⟨rfl, fun _ => rfl⟩, rfl⟩
      · obtain ⟨row, entry, m, rfl⟩ := cascaded.mem e later
        exact ⟨⟨rfl, fun _ => rfl⟩, rfl⟩
    · have silent : events.filterMap Event.settles = [] := by
        refine List.filterMap_eq_nil_iff.mpr fun e mem => ?_
        obtain ⟨row, entry, m, rfl⟩ := cascaded.mem e mem
        rfl
      simp [settlesShown, live, Event.settles, silent]

/-- A recovery refines one event for each claim it takes back. -/
theorem recover_refines {batchSize : ℕ} :
    ∃ slot events, Refines ext service t slot db (.recoverExpired clock batchSize) events := by
  refine transact_refines rfl ?_
  rintro ⟨jobs, db', calls⟩ ok served
  obtain ⟨counts, -, chain, gauges⟩ := recoverExpired_trace ok
  have recovered : ∀ e ∈ List.zipWith (recoveryEvent (clock 0))
      (selectExpired db (clock 0) batchSize) counts,
      ∃ row n, e = recoveryEvent (clock 0) row n := by
    intro e mem
    rw [← List.map_uncurry_zip_eq_zipWith] at mem
    obtain ⟨⟨row, n⟩, -, rfl⟩ := List.mem_map.mp mem
    exact ⟨row, n, rfl⟩
  have trace : Trace ext (fun _ => True) True t 0 0 db db' calls _ :=
    ⟨chain, by simp, fun _ => gauges⟩
  refine ⟨0, _, refines_of_trace served trace recovered (fun _ => trivial) ?_ rfl rfl rfl⟩
  intro e mem
  obtain ⟨row, n, rfl⟩ := recovered e mem
  rw [recoveryEvent]
  split <;> exact ⟨⟨⟨rfl, fun _ => rfl⟩, rfl⟩, rfl⟩

/-- An operation that only keeps records refines the machine. -/
theorem record_refines {safe : Prop} {calls : List MetricCall} {events : List Event}
    (served : serve ext service t db op = (db', .ok (reply, calls)))
    (trace : Trace ext Event.IsRecord safe t 0 0 db db' calls events) (holds : safe)
    (emits : ∀ e : Event, e.IsRecord → op.Emits service db e) (unlinked : reply.links = [])
    (unclaimed : claimsShown op reply = []) (unsettled : settlesShown db op = []) :
    ∃ slot events, Refines ext service t slot db op events :=
  ⟨0, events, refines_of_trace served trace (fun e mem => emits e (trace.only e mem))
    (fun _ => holds) (fun e mem => (trace.only e mem).passive) unlinked unclaimed unsettled⟩

end Operations

/-- **Every operation refines the ledger machine.** -/
theorem serve_refines (service : Service) (sound : (db.ledger t 0).Sound ext) (op : Op) :
    ∃ slot events, Refines ext service t slot db op events := by
  cases op with
  | addJob clock req =>
    exact enqueue_refines (fun db => enqueue ext service t clock db req) rfl (enqueue_trace rfl)
      (fun _ => id) (fun _ => rfl) rfl
  | addJobBulk clock requests =>
    exact enqueue_refines (fun db => enqueueBulk ext service t clock db requests) rfl
      (enqueueBulk_trace rfl) (fun _ => id) (fun _ => rfl) rfl
  | addFlow clock flow => exact flow_refines
  | addFlowBulk clock flows => exact flowBulk_refines
  | addFlowMerge clock flow => exact flowMerge_refines sound
  | getNextJob clock req => exact claim_refines
  | heartbeat clock req => exact heartbeat_refines
  | completeJob clock req => exact complete_refines
  | failJob clock jittered req => exact fail_refines sound
  | recoverExpired clock batchSize => exact recover_refines
  | sweep plan clock cfg =>
    obtain ⟨events, trace⟩ := sweep_trace ext t 0 plan clock db cfg
    exact ⟨0, events, refines_of_trace rfl trace trace.only (fun _ => trivial)
      (fun e mem => (trace.only e mem).passive) rfl rfl rfl⟩
  | upsertRateLimitRule clock req =>
    refine transact_refines rfl fun db' ok served => ?_
    exact refines_of_unchanged served (upsertRateLimitRule_ledger ok) rfl rfl rfl
  | deleteRateLimitRule facetKey =>
    refine transact_refines rfl ?_
    rintro ⟨deleted, db'⟩ ok served
    exact refines_of_unchanged served (deleteRateLimitRule_ledger ok) rfl rfl rfl
  | upsertIngressLimitRule clock req =>
    refine transact_refines rfl fun db' ok served => ?_
    exact record_refines served (upsertIngressLimitRule_trace ok) trivial (fun _ => id) rfl rfl
      rfl
  | deleteIngressLimitRule facetKey =>
    refine transact_refines rfl ?_
    rintro ⟨deleted, db'⟩ ok served
    exact record_refines served (deleteIngressLimitRule_trace ok) trivial (fun _ => id) rfl rfl
      rfl
  | upsertJobScheduler clock req =>
    refine transact_refines rfl ?_
    rintro ⟨⟨name, next⟩, db', calls⟩ ok served
    obtain ⟨events, trace⟩ := upsertJobScheduler_trace ok
    exact record_refines served trace sound.scheduled (fun _ => id) rfl rfl rfl
  | deleteJobScheduler name =>
    refine transact_refines rfl ?_
    rintro ⟨deleted, db', calls⟩ ok served
    obtain ⟨events, trace⟩ := deleteJobScheduler_trace ok
    exact record_refines served trace sound.scheduled (fun _ => id) rfl rfl rfl
  | runOnce clock batchSize =>
    obtain ⟨slot, events, trace⟩ := runOnce_trace rfl
    exact ⟨slot, events, refines_of_trace rfl trace trace.only (fun _ => sound.scheduled)
      (fun e mem => (trace.only e mem).passive) rfl rfl rfl⟩

/-! ## Runs -/

section Runs

variable (ext : Externals) (service : Service)

theorem step_tick (db : Db) (t k : ℕ) : Step ext (db.ledger t k) .tick (db.ledger (t + 1) 0) := by
  refine ⟨trivial, Ledger.ext (funext fun j => ?_) (funext fun j => ?_) (funext fun key => ?_)
    rfl rfl rfl (funext fun gauge => ?_) rfl rfl⟩
  all_goals simp [Db.ledger, Ledger.apply]

/-- **The books after every run are sound.** -/
theorem sound_after (run : List Op) :
    ((dbAfter ext service run).ledger run.length 0).Sound ext := by
  induction run using List.reverseRecOn with
  | nil => exact .empty ext
  | append_singleton run op ih =>
    obtain ⟨slot, events, refines⟩ := serve_refines service ih op
    have served : (_ : Ledger).Sound ext :=
      Chain.preserves (R := Step ext) Ledger.Sound.step refines.chain ih
    rw [dbAfter_concat, List.length_append, List.length_singleton]
    exact served.step (step_tick ext _ _ _)

theorem next_refines (run : List Op) (op : Op) :
    ∃ events slot, Refines ext service run.length slot (dbAfter ext service run) op events := by
  obtain ⟨slot, events, refines⟩ := serve_refines service (sound_after ext service run) op
  exact ⟨events, slot, refines⟩

/-- A transaction is refused and changes nothing, or it commits. -/
theorem transact_cases (run : List Op) (op : Op)
    (served : serve ext service run.length (dbAfter ext service run) op =
      transact (dbAfter ext service run) (outcome.map pack)) :
    Refused ext service run op ∨
    ∃ a, outcome = .ok a ∧ replyTo ext service run op = some (pack a).1 ∧
      dbAfter ext service (run ++ [op]) = (pack a).2.1 := by
  rw [Refused, Changes, not_not, replyTo, dbAfter_concat, servedNext, served]
  cases outcome with
  | error status => exact .inl ⟨rfl, rfl⟩
  | ok a => exact .inr ⟨a, rfl, rfl, rfl⟩

/-- An answered transaction committed. -/
theorem replyTo_transact {op : Op}
    (served : serve ext service run.length (dbAfter ext service run) op =
      transact (dbAfter ext service run) (outcome.map pack))
    (replied : replyTo ext service run op = some reply) :
    ∃ a, outcome = .ok a ∧ (pack a).1 = reply ∧
      dbAfter ext service (run ++ [op]) = (pack a).2.1 := by
  rcases transact_cases ext service run op served with ⟨unanswered, -⟩ | ⟨a, ok, answered, after⟩
  · rw [replied] at unanswered
    cases unanswered
  · exact ⟨a, ok, Option.some.inj (answered.symm.trans replied), after⟩

/-- A transaction that succeeds is answered and commits. -/
theorem replied_of_transact (run : List Op) (op : Op) {a : α}
    (served : serve ext service run.length (dbAfter ext service run) op =
      transact (dbAfter ext service run) (outcome.map pack)) (ok : outcome = .ok a) :
    replyTo ext service run op = some (pack a).1 ∧
      dbAfter ext service (run ++ [op]) = (pack a).2.1 := by
  rw [replyTo, dbAfter_concat, servedNext, served, ok]
  exact ⟨rfl, rfl⟩

/-- The events of the operation after a run. -/
noncomputable def eventsOf (run : List Op) (op : Op) : List Event :=
  (next_refines ext service run op).choose

theorem eventsOf_refines (run : List Op) (op : Op) :
    ∃ slot, Refines ext service run.length slot (dbAfter ext service run) op
      (eventsOf ext service run op) :=
  (next_refines ext service run op).choose_spec

/-- An operation with events was answered. -/
theorem answered_of_mem {op : Op} (mem : e ∈ eventsOf ext service run op) :
    ∃ reply, replyTo ext service run op = some reply := by
  obtain ⟨slot, refines⟩ := eventsOf_refines ext service run op
  rw [replyTo, servedNext]
  cases answer : (serve ext service run.length (dbAfter ext service run) op).2 with
  | error status =>
    rw [refines.silent status answer] at mem
    cases mem
  | ok reply => exact ⟨reply.1, rfl⟩

/-- **The history of a run**: the events of its operations, with a tick after
each. -/
noncomputable def history (run : List Op) : List Event :=
  collect (fun before op => eventsOf ext service before op ++ [.tick]) [] run

@[simp] theorem history_nil : history ext service [] = [] := rfl

theorem history_concat (run : List Op) (op : Op) :
    history ext service (run ++ [op]) =
      history ext service run ++ (eventsOf ext service run op ++ [.tick]) := by
  rw [history, collect_concat, List.nil_append]
  rfl

/-- The chain of one operation, from the books after the run before it. -/
theorem next_chain (run : List Op) (op : Op) :
    Chain (Step ext) ((dbAfter ext service run).ledger run.length 0)
      (eventsOf ext service run op ++ [.tick])
      ((dbAfter ext service (run ++ [op])).ledger (run ++ [op]).length 0) := by
  obtain ⟨slot, refines⟩ := eventsOf_refines ext service run op
  rw [dbAfter_concat, List.length_append, List.length_singleton]
  exact refines.chain.append (.single (step_tick ext _ _ _))

/-- The books after a run are those its history leads to. -/
theorem history_chain (run : List Op) :
    Chain (Step ext) (Db.empty.ledger 0 0) (history ext service run)
      ((dbAfter ext service run).ledger run.length 0) := by
  induction run using List.reverseRecOn with
  | nil => exact .nil _
  | append_singleton run op ih =>
    rw [history_concat]
    exact ih.append (next_chain ext service run op)

/-- The history of a longer run goes on from that of a shorter one. -/
theorem history_append (run more : List Op) :
    ∃ later, history ext service (run ++ more) = history ext service run ++ later ∧
      Chain (Step ext) ((dbAfter ext service run).ledger run.length 0) later
        ((dbAfter ext service (run ++ more)).ledger (run ++ more).length 0) := by
  induction more using List.reverseRecOn with
  | nil =>
    rw [List.append_nil]
    exact ⟨[], (List.append_nil _).symm, .nil _⟩
  | append_singleton more op ih =>
    obtain ⟨later, same, chain⟩ := ih
    rw [← List.append_assoc, history_concat, same, List.append_assoc]
    exact ⟨_, rfl, chain.append (next_chain ext service (run ++ more) op)⟩

/-- The links the answers of a run report are those of its history. -/
theorem flowLinks_eq (run : List Op) :
    flowLinks ext service run = (history ext service run).filterMap Event.link := by
  induction run using List.reverseRecOn with
  | nil => rfl
  | append_singleton run op ih =>
    obtain ⟨slot, refines⟩ := eventsOf_refines ext service run op
    rw [flowLinks, told_concat, ← flowLinks, ih, history_concat, List.filterMap_append,
      List.filterMap_append, refines.links, replyTo, servedNext]
    cases (serve ext service run.length (dbAfter ext service run) op).2 with
    | error status => simp [shown, Except.toOption, Event.link]
    | ok answer => simp [shown, Except.toOption, Event.link]

/-- **The claims of a run**, as its workers learn of them. -/
def claims (run : List Op) : List ClaimRecord := told ext service claimsShown run

theorem claims_eq (run : List Op) :
    claims ext service run = (history ext service run).filterMap Event.claim := by
  induction run using List.reverseRecOn with
  | nil => rfl
  | append_singleton run op ih =>
    obtain ⟨slot, refines⟩ := eventsOf_refines ext service run op
    rw [claims, told_concat, ← claims, ih, history_concat, List.filterMap_append,
      List.filterMap_append, refines.claims, replyTo, servedNext]
    cases (serve ext service run.length (dbAfter ext service run) op).2 with
    | error status => simp [shown, Except.toOption, Event.claim]
    | ok answer => simp [shown, Except.toOption, Event.claim]

/-- Every operation announces as many children as it links. -/
theorem history_balanced (run : List Op) : Balanced (history ext service run) := by
  induction run using List.reverseRecOn with
  | nil => exact fun _ => rfl
  | append_singleton run op ih =>
    obtain ⟨slot, refines⟩ := eventsOf_refines ext service run op
    intro j
    rw [history_concat, announced_append, announced_append, List.filterMap_append,
      List.filterMap_append, linkedTo_append, linkedTo_append, ih, refines.balanced]
    simp [announced, Event.announces, Event.link, linkedTo]

variable {ext service}

/-- What a committed completion of a live job does, as one event. -/
theorem completed_step {clock : Clock} {req : CompleteJobRequest}
    (replied : replyTo ext service run (.completeJob clock req) = some .completed)
    (live : (dbAfter ext service run).jobs.Has req.id) :
    ∃ row, (dbAfter ext service run).jobs.find? req.id = some row ∧
      Accepts row req.workerId req.attempt (clock 0) ∧
      Step ext ((dbAfter ext service run).ledger run.length 0)
        (completionEvent clock (dbAfter ext service run) row req.stored)
        ((dbAfter ext service (run ++ [.completeJob clock req])).ledger run.length 0) := by
  obtain ⟨⟨db', calls⟩, ok, -, after⟩ := replyTo_transact ext service rfl replied
  rw [after]
  simp only [completeJob] at ok
  split at ok
  · cases ok
  simp only [bind_eq_ok, Except.ok.injEq, Prod.mk.injEq] at ok
  obtain ⟨⟨moved, db₁, calls₁⟩, finished, rfl, rfl⟩ := ok
  obtain ⟨row, found⟩ := Table.has_iff_find?.mp live
  rcases finishJob_cases finished with ⟨gone, -⟩ | ⟨row', found', accepts, settled⟩
  · rw [found] at gone
    cases gone
  cases found.symm.trans found'
  simp only [settle, bind_eq_ok, Except.ok.injEq, Prod.mk.injEq] at settled
  obtain ⟨⟨db₂, calls₂⟩, completed, -, rfl, rfl⟩ := settled
  have here := Table.key_of_find? found
  obtain ⟨chain, -⟩ := finishCompleted_trace (by rwa [here]) accepts.active completed
  cases chain with
  | cons step rest =>
    cases rest
    exact ⟨row, found, accepts, step⟩

/-- The invariant rule for histories. -/
theorem history_invariant {I : List Event → Ledger → Prop} (start : I [] (Db.empty.ledger 0 0))
    (keep : ∀ {past l e l'}, Step ext l e l' → I past l → I (past ++ [e]) l') (run : List Op) :
    I (history ext service run) ((dbAfter ext service run).ledger run.length 0) := by
  have reached := (history_chain ext service run).invariant keep start
  rwa [List.nil_append] at reached

/-- The invariant rule for runs whose operations all meet a condition that the
events of an operation inherit. -/
theorem history_invariant_along {I : List Event → Ledger → Prop} {C : List Op → Op → Prop}
    {G : List Event → Event → Prop} (start : I [] (Db.empty.ledger 0 0))
    (grows : ∀ {past e e'}, G past e → G (past ++ [e']) e)
    (keep : ∀ {past l e l'}, G past e → Step ext l e l' → I past l → I (past ++ [e]) l')
    (tick : ∀ past, G past .tick) (inherits : ∀ run op, C run op → I (history ext service run)
      ((dbAfter ext service run).ledger run.length 0) →
      ∀ e ∈ eventsOf ext service run op, G (history ext service run) e) (along : Along C run) :
    I (history ext service run) ((dbAfter ext service run).ledger run.length 0) := by
  have carry : ∀ {l l' : Ledger} {events past : List Event}, Chain (Step ext) l events l' →
      (∀ e ∈ events, G past e) → I past l → I (past ++ events) l' := by
    intro l l' events past chain
    induction chain generalizing past with
    | nil => simp
    | cons step _ ih =>
      intro good holds
      have rest := ih (fun e mem => grows (good e (List.mem_cons_of_mem _ mem)))
        (keep (good _ List.mem_cons_self) step holds)
      simpa using rest
  induction run using List.reverseRecOn with
  | nil => exact start
  | append_singleton run op ih =>
    obtain ⟨before, last⟩ := along_concat.mp along
    have holds := ih before
    rw [history_concat]
    refine carry (next_chain ext service run op) ?_ holds
    intro e mem
    rcases List.mem_append.mp mem with here | final
    · exact inherits run op last holds e here
    · rw [List.mem_singleton.mp final]
      exact tick _

end Runs

end AnvilMQ
