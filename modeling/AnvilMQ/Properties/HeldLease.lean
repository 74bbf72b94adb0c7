import AnvilMQ.Properties.Fencing
import AnvilMQ.Properties.LeaseRange
import AnvilMQ.Properties.Recovery

/-!
# A lease that was told is honoured

A worker learns the expiry of its lease from the answer to its poll and to each of its
heartbeats.  As long as no recovery reads a clock at or after that expiry, its claim stands and
every report it makes in time is accepted, whatever else the broker serves.

Two things end a claim early: a report under it, and a failure that takes the job along with a
flagged child.  Nothing is assumed about the clock otherwise, which may jump in either direction
between operations.
-/

namespace AnvilMQ

open Rust Relational Transition

/-! ## The contract -/

/-- The expiries an answer tells the holder of a claim. -/
def leasesTold (c : ClaimRecord) : Op → Reply → List ℤ
  | .getNextJob _ req, .claimed (some job) =>
    if (job.id, job.attempts, req.workerId) = c then [job.leaseExpiresAtMs] else []
  | .heartbeat _ req, .renewed expiry =>
    if (req.id, req.attempt, req.workerId) = c then [expiry] else []
  | _, _ => []

/-- The failure an operation reports takes a job along. -/
def FailedAlong (db : Db) (op : Op) (j : JobId) : Prop :=
  ∃ clock jittered req row chain ancestor, op = .failJob clock jittered req ∧
    Acknowledged db req.id req.workerId req.attempt (clock 0) row ∧
    Terminal row req.nonRetryable ∧
    Cascade db.jobs.find? row.failParentOnFailure row.parentId chain ∧
    ancestor ∈ chain ∧ ancestor.id = j

section Statement

variable (ext : Externals) (service : Service)

/-- The operation after a run is an accepted report under a claim. -/
def SettledBy (run : List Op) (op : Op) (c : ClaimRecord) : Prop :=
  op.reports = some (c.1, c.2.1) ∧
    (∃ ack, op.acknowledgment = some ack ∧ ack.workerId = c.2.2) ∧
    ∃ reply, replyTo ext service run op = some reply

/-- **What the holder of a claim can rely on** until its lease runs out. -/
structure LeaseHonoured (run : List Op) (c : ClaimRecord) (lease : ℤ) : Prop where
  /-- The job was not handed out again. -/
  latest : latestClaim (claims ext service run) c.1 = some c.2
  /-- A heartbeat renews the lease and does not shorten it. -/
  renews : ∀ clock : Clock, clock 0 < lease → ∃ expiry, lease ≤ expiry ∧
    replyTo ext service run (.heartbeat clock ⟨c.1, c.2.2, c.2.1⟩) = some (.renewed expiry)
  /-- A completion is accepted, and the job is archived under the claim. -/
  completes : ∀ (clock : Clock) (result : Bytes), clock 0 < lease →
    result.length ≤ maxResultBytes →
    let op := Op.completeJob clock ⟨c.1, c.2.2, c.2.1, result⟩
    replyTo ext service run op = some .completed ∧
      ∃ entry, (dbAfter ext service (run ++ [op])).jobHistory.find? c.1 = some entry ∧
        Replays entry c.2.2 c.2.1
  /-- A failure is accepted. -/
  fails : ∀ (clock : Clock) (jittered : ℤ) (error : String) (nonRetryable : Bool),
    clock 0 < lease → ∃ moved,
      replyTo ext service run (.failJob clock jittered ⟨c.1, c.2.2, c.2.1, error, nonRetryable⟩) =
        some (.failed moved)

end Statement

/-! ## The running claim -/

/-- A row under a running claim whose lease is not before `lease`. -/
structure JobRow.Holds (row : JobRow) (c : ClaimRecord) (lease : ℤ) : Prop where
  active : row.state = .active
  attempt : row.attempts = c.2.1
  owner : row.workerId = some c.2.2
  leased : ∃ expiry, row.leaseExpiresAtMs = some expiry ∧ lease ≤ expiry

/-- Among the jobs, the one of the claim is leased under it. -/
def Holding (jobs : JobId → Option JobRow) (c : ClaimRecord) (lease : ℤ) : Prop :=
  ∃ row, jobs c.1 = some row ∧ row.Holds c lease

/-- The job whose claim an event renews or ends. -/
def Event.touches : Event → Option JobId
  | renewed row _ _ => some row.id
  | requeued row _ _ _ _ _ => some row.id
  | completed row _ _ _ _ _ => some row.id
  | failed row _ _ _ => some row.id
  | _ => none

variable {ext : Externals} {service : Service} {c : ClaimRecord} {lease : ℤ} {row : JobRow}
  {clock : Clock}

section Events

variable {l l' : Ledger} {e : Event}

/-- An active job that is not touched keeps its claim and its lease. -/
theorem Event.Enabled.evolve_holds (enabled : e.Enabled ext l) (live : l.jobs c.1 = some row)
    (holds : row.Holds c lease) (untouched : e.touches ≠ some c.1) :
    (e.evolve c.1 row).Holds c lease := by
  cases e with
  | claimed other workerId now expiry =>
    -- a claim takes a job that waits
    have elsewhere : c.1 ≠ other.id := by
      intro here
      rw [here] at live
      cases live.symm.trans enabled.1
      rcases enabled.2.1 with state | state <;> rw [holds.active] at state <;> cases state
    rwa [Event.evolve, if_neg elsewhere]
  | renewed other expiry now =>
    have elsewhere : c.1 ≠ other.id := fun here => untouched (congrArg some here.symm)
    rwa [Event.evolve, if_neg elsewhere]
  | requeued other cause state availableAt lastError updatedAt =>
    have elsewhere : c.1 ≠ other.id := fun here => untouched (congrArg some here.symm)
    rwa [Event.evolve, if_neg elsewhere]
  | completed other entry parent now updatedAt released =>
    rw [Event.evolve]
    split
    · -- the gate of an active job does not open
      have shut : gateOpens { row with pendingChildren := row.pendingChildren - 1 } = false := by
        simp [gateOpens, holds.active]
      rw [JobRow.countedDown, if_neg (by simp [shut])]
      exact ⟨holds.active, holds.attempt, holds.owner, holds.leased⟩
    · exact holds
  | adopted target =>
    rw [Event.evolve]
    split
    · exact ⟨holds.active, holds.attempt, holds.owner, holds.leased⟩
    · exact holds
  | regated target n updatedAt =>
    have elsewhere : c.1 ≠ target.id := by
      intro here
      rw [here] at live
      cases live.symm.trans enabled.1
      exact enabled.2 holds.active
    rwa [Event.evolve, if_neg elsewhere]
  | _ => exact holds

/-- A job that an event does not touch is not archived by it. -/
theorem Event.retiredId_of_untouched {j : JobId} (untouched : e.touches ≠ some j) :
    e.retiredId ≠ some j := by
  cases e with
  | completed row entry parent now updatedAt released => exact untouched
  | failed row entry cause n => exact untouched
  | _ => exact nofun

/-- An event that does not touch the job leaves the claim as it is held. -/
theorem Step.holding (untouched : e.touches ≠ some c.1) (step : Step ext l e l')
    (holding : Holding l.jobs c lease) : Holding l'.jobs c lease := by
  obtain ⟨row, live, holds⟩ := holding
  obtain ⟨enabled, rfl⟩ := step
  refine ⟨e.evolve c.1 row, ?_, enabled.evolve_holds live holds untouched⟩
  have unborn : e.born.map JobRow.id ≠ some c.1 := by
    intro born
    obtain ⟨new, here, same⟩ := Option.map_eq_some_iff.mp born
    rw [← same, (enabled.born here).absent] at live
    cases live
  show (if e.retiredId = some c.1 then none else if e.born.map JobRow.id = some c.1 then e.born
    else (l.jobs c.1).map fun row => e.evolve c.1 row) = _
  rw [if_neg (Event.retiredId_of_untouched untouched), if_neg unborn, live]
  rfl

/-- A chain of events that do not touch the job keeps its claim. -/
theorem Holding.of_chain {events : List Event} (chain : Chain (Step ext) l events l')
    (untouched : ∀ e ∈ events, e.touches ≠ some c.1) (holding : Holding l.jobs c lease) :
    Holding l'.jobs c lease :=
  Chain.preserves_of (R := Step ext) (G := fun e => e.touches ≠ some c.1)
    (I := fun l => Holding l.jobs c lease) Step.holding chain untouched holding

/-- Only the operations of a worker and recovery touch claims. -/
theorem Op.Emits.untouched {db : Db} {op : Op} (emits : op.Emits service db e)
    (other : ¬ op.Works) : e.touches = none := by
  cases op with
  | addFlowMerge clock flow =>
    obtain ⟨tree, target, -, -, merges⟩ := emits
    cases e <;> first | exact merges.elim | rfl
  | upsertRateLimitRule clock req => exact emits.elim
  | deleteRateLimitRule facetKey => exact emits.elim
  | _ => first | exact absurd trivial other | cases e <;> first | exact emits.elim | rfl

end Events

/-- An event of a cascade is the failure of an ancestor. -/
theorem CascadeEvents.ancestor {receipts : Table Receipt.key} {chain : List JobRow}
    {events : List Event} (cascaded : CascadeEvents receipts chain events) {e : Event}
    (mem : e ∈ events) : ∃ row ∈ chain, ∃ entry n, e = .failed row entry .cascaded n := by
  induction cascaded with
  | nil => cases mem
  | cons this _ ih =>
    rcases List.mem_cons.mp mem with rfl | later
    · obtain ⟨entry, n, rfl, -⟩ := this
      exact ⟨_, List.mem_cons_self, entry, n, rfl⟩
    · obtain ⟨row, inChain, failed⟩ := ih later
      exact ⟨row, List.mem_cons_of_mem _ inChain, failed⟩

/-! ## One operation -/

section Runs

variable {run : List Op} {op : Op}

theorem replyTo_eq_some {reply : Reply} : replyTo ext service run op = some reply ↔
    ∃ calls, (servedNext ext service run op).2 = .ok (reply, calls) := by
  rw [replyTo]
  cases (servedNext ext service run op).2 with
  | error status => simp [Except.toOption]
  | ok outcome => simp [Except.toOption, Prod.ext_iff]

/-- An operation none of whose events touches the job. -/
theorem Holding.of_untouched (holding : Holding (dbAfter ext service run).jobs.find? c lease)
    (untouched : ∀ e ∈ eventsOf ext service run op, e.touches ≠ some c.1) :
    Holding (dbAfter ext service (run ++ [op])).jobs.find? c lease := by
  obtain ⟨slot, refines⟩ := eventsOf_refines ext service run op
  rw [dbAfter_concat]
  exact Holding.of_chain refines.chain untouched holding

/-- A heartbeat does not shorten the lease. -/
theorem Holding.heartbeat {req : HeartbeatRequest}
    (holding : Holding (dbAfter ext service run).jobs.find? c lease) :
    Holding (dbAfter ext service (run ++ [.heartbeat clock req])).jobs.find? c lease := by
  rcases transact_cases ext service run (.heartbeat clock req) rfl with
    ⟨-, same⟩ | ⟨⟨expiry, db'⟩, renewed, -, after⟩
  · rwa [not_not.mp same]
  · rw [after]
    obtain ⟨row, live, holds⟩ := holding
    obtain ⟨other, until_, found, active, owner, attempt, -, leased, -, extended, rfl⟩ :=
      renewLease_ok renewed
    by_cases here : req.id = c.1
    · rw [here] at found
      cases live.symm.trans found
      obtain ⟨expiry', leased', le⟩ := holds.leased
      cases leased.symm.trans leased'
      refine ⟨{ row with leaseExpiresAtMs := some expiry, updatedAt := clock 0 }, ?_,
        holds.active, holds.attempt, holds.owner, expiry, rfl, ?_⟩
      · simp [leaseRenewed, Table.find?_modify, here, live]
      · rw [extended]
        exact le.trans (le_max_left _ _)
    · refine ⟨row, ?_, holds⟩
      simp only [leaseRenewed, Table.find?_modify, if_neg (Ne.symm here)]
      exact live

/-- A recovery before the lease runs out does not take the job. -/
theorem Holding.recover {batchSize : ℕ}
    (holding : Holding (dbAfter ext service run).jobs.find? c lease) (early : clock 0 < lease) :
    Holding (dbAfter ext service (run ++ [.recoverExpired clock batchSize])).jobs.find? c
      lease := by
  obtain ⟨row, live, holds⟩ := holding
  obtain ⟨-, -, jobs⟩ := @served_recovery ext service run clock batchSize
  rcases jobs c.1 with same | ⟨other, found, expired, -⟩
  · exact ⟨row, same.1.trans live, holds⟩
  · cases live.symm.trans found
    obtain ⟨expiry, leased, le⟩ := holds.leased
    simp only [leaseExpired, leased, Option.any_some, Bool.and_eq_true,
      decide_eq_true_eq] at expired
    omega

/-- The claim of a report that names the job of a running claim is that claim. -/
theorem Holding.settledBy (holding : Holding (dbAfter ext service run).jobs.find? c lease)
    {ack : AckRequest} {claim : JobId × ℕ} (acks : op.acknowledgment = some ack)
    (reports : op.reports = some claim) (same : claim = (ack.id, max ack.attempt 1))
    (here : ack.id = c.1)
    (accepts : Acknowledged (dbAfter ext service run) ack.id ack.workerId ack.attempt ack.now row)
    {reply : Reply} (replied : replyTo ext service run op = some reply) :
    SettledBy ext service run op c := by
  obtain ⟨live, accepts⟩ := accepts
  obtain ⟨other, live', holds⟩ := holding
  rw [here] at live
  cases live.symm.trans live'
  refine ⟨?_, ⟨ack, acks, ?_⟩, reply, replied⟩
  · rw [reports, same, here, ← accepts.attempt, holds.attempt]
  · exact Option.some.inj (accepts.owner.symm.trans holds.owner)

/-- A completion leaves a held claim alone or settles it. -/
theorem Holding.complete {req : CompleteJobRequest}
    (holding : Holding (dbAfter ext service run).jobs.find? c lease) :
    Holding (dbAfter ext service (run ++ [.completeJob clock req])).jobs.find? c lease ∨
      SettledBy ext service run (.completeJob clock req) c := by
  by_cases touched : ∃ e ∈ eventsOf ext service run (.completeJob clock req),
      e.touches = some c.1
  · obtain ⟨e, mem, touches⟩ := touched
    obtain ⟨slot, refines⟩ := eventsOf_refines ext service run (.completeJob clock req)
    obtain ⟨reply, replied⟩ := answered_of_mem ext service mem
    obtain ⟨row, accepts, rfl⟩ := refines.emits e mem
    have keyed : row.id = req.id := Table.key_of_find? accepts.1
    have here : req.id = c.1 := keyed.symm.trans (Option.some.inj touches)
    exact .inr (holding.settledBy rfl rfl rfl here accepts replied)
  · exact .inl (holding.of_untouched fun e mem touches => touched ⟨e, mem, touches⟩)

variable (ext service run) in
/-- **The jobs a failure report touches**: the job it names, when the report is accepted, and
the ancestors it takes along. -/
theorem failJob_touches (clock : Clock) (jittered : ℤ) (req : FailJobRequest) :
    ∃ events, Chain (Step ext) ((dbAfter ext service run).ledger run.length 0) events
        ((dbAfter ext service (run ++ [.failJob clock jittered req])).ledger run.length 0) ∧
      ∀ e ∈ events, ∃ j, e.touches = some j ∧
        ((req.id = j ∧ (∃ row, Acknowledged (dbAfter ext service run) req.id req.workerId
            req.attempt (clock 0) row) ∧
          ∃ reply, replyTo ext service run (.failJob clock jittered req) = some reply) ∨
        FailedAlong (dbAfter ext service run) (.failJob clock jittered req) j) := by
  rcases transact_cases ext service run (.failJob clock jittered req) rfl with
    ⟨-, same⟩ | ⟨⟨moved, db', calls⟩, failed, replied, after⟩
  · rw [not_not.mp same]
    exact ⟨[], .nil _, List.forall_mem_nil _⟩
  rcases finishJob_cases failed with ⟨-, completes, -⟩ | ⟨row, live, accepts, settled⟩
  · cases completes
  have keyed : row.id = req.id := Table.key_of_find? live
  have found : (dbAfter ext service run).jobs.find? row.id = some row := by rwa [keyed]
  rw [after]
  -- the job goes back to the queue, or it fails with its ancestors
  simp only [settle] at settled
  split at settled
  · rename_i again
    simp only [Except.ok.injEq, Prod.mk.injEq] at settled
    obtain ⟨-, rfl, -⟩ := settled
    refine ⟨_, (finishRetry_trace found accepts.active again.1).1, fun e mem => ?_⟩
    rw [List.mem_singleton.mp mem]
    exact ⟨row.id, rfl, .inl ⟨keyed.symm, ⟨row, live, accepts⟩, _, replied⟩⟩
  · rename_i terminal
    simp only [bind_eq_ok, Except.ok.injEq, Prod.mk.injEq] at settled
    obtain ⟨⟨db₂, calls₂⟩, finished, -, rfl, -⟩ := settled
    obtain ⟨n, chain, events, ancestors, cascaded, steps, -⟩ :=
      finishFailed_trace found accepts.active (sound_after ext service run).parentsOlder finished
    refine ⟨_, steps, fun e mem => ?_⟩
    rcases List.mem_cons.mp mem with rfl | later
    · exact ⟨row.id, rfl, .inl ⟨keyed.symm, ⟨row, live, accepts⟩, _, replied⟩⟩
    · obtain ⟨ancestor, inChain, entry, m, rfl⟩ := cascaded.ancestor later
      exact ⟨ancestor.id, rfl, .inr ⟨clock, jittered, req, row, chain, ancestor, rfl,
        ⟨live, accepts⟩, terminal, ancestors, inChain, rfl⟩⟩

/-- A failure report leaves the claim alone, settles it, or takes the job along. -/
theorem Holding.fail {jittered : ℤ} {req : FailJobRequest}
    (holding : Holding (dbAfter ext service run).jobs.find? c lease) :
    Holding (dbAfter ext service (run ++ [.failJob clock jittered req])).jobs.find? c lease ∨
      SettledBy ext service run (.failJob clock jittered req) c ∨
      FailedAlong (dbAfter ext service run) (.failJob clock jittered req) c.1 := by
  obtain ⟨events, steps, touched⟩ := failJob_touches ext service run clock jittered req
  by_cases here : ∃ e ∈ events, e.touches = some c.1
  · obtain ⟨e, mem, touches⟩ := here
    obtain ⟨j, same, cause⟩ := touched e mem
    cases touches.symm.trans same
    rcases cause with ⟨here, ⟨row, accepts⟩, reply, replied⟩ | along
    · exact .inr (.inl (holding.settledBy rfl rfl rfl here accepts replied))
    · exact .inr (.inr along)
  · exact .inl (Holding.of_chain steps (fun e mem touches => here ⟨e, mem, touches⟩) holding)

/-- **What an operation does to a running claim**: it stands, unless the operation is a
report under it or takes the job along. -/
theorem Holding.step (holding : Holding (dbAfter ext service run).jobs.find? c lease)
    (early : ∀ clock n, op = .recoverExpired clock n → clock 0 < lease) :
    Holding (dbAfter ext service (run ++ [op])).jobs.find? c lease ∨
      SettledBy ext service run op c ∨ FailedAlong (dbAfter ext service run) op c.1 := by
  by_cases works : op.Works
  · cases op with
    | getNextJob clock req =>
      refine .inl (holding.of_untouched fun e mem => ?_)
      obtain ⟨slot, refines⟩ := eventsOf_refines ext service run (.getNextJob clock req)
      obtain ⟨row, rfl⟩ := refines.emits e mem
      exact nofun
    | heartbeat clock req => exact .inl holding.heartbeat
    | completeJob clock req => exact holding.complete.imp_right .inl
    | failJob clock jittered req => exact holding.fail
    | recoverExpired clock batchSize => exact .inl (holding.recover (early clock batchSize rfl))
    | _ => exact works.elim
  · refine .inl (holding.of_untouched fun e mem => ?_)
    obtain ⟨slot, refines⟩ := eventsOf_refines ext service run op
    rw [(refines.emits e mem).untouched works]
    exact nofun

/-! ## From the answer to the claim -/

/-- What an answer tells is stored. -/
theorem Holding.of_told {reply : Reply} (replied : replyTo ext service run op = some reply)
    (tells : lease ∈ leasesTold c op reply) :
    Holding (dbAfter ext service (run ++ [op])).jobs.find? c lease ∧ c.2.1 ≠ 0 := by
  cases op with
  | getNextJob clock req =>
    obtain ⟨⟨job, db', calls⟩, ok, rfl, after⟩ := replyTo_transact ext service rfl replied
    rcases getNextJob_cases ok with ⟨rfl, -⟩ | ⟨row, selected, -, rfl, -, stored⟩
    · cases tells
    obtain ⟨live, -⟩ := selectNext_some selected
    rw [leasesTold, List.mem_ite_nil_right] at tells
    obtain ⟨rfl, told⟩ := tells
    rw [List.mem_singleton.mp told, after]
    refine ⟨⟨row.leased req.workerId (clock 1)
      (wrappingAdd (clock 1) service.leaseDurationMs), ?_, rfl, rfl, rfl, _, rfl, le_rfl⟩,
      Nat.succ_ne_zero _⟩
    rw [stored]
    exact jobs_find?_leaseTo live req.workerId (clock 0) (clock 1)
  | heartbeat clock req =>
    obtain ⟨⟨expiry, db'⟩, renewed, rfl, after⟩ := replyTo_transact ext service rfl replied
    obtain ⟨row, until_, live, active, owner, attempt, positive, -, -, -, rfl⟩ :=
      renewLease_ok renewed
    rw [leasesTold, List.mem_ite_nil_right] at tells
    obtain ⟨rfl, told⟩ := tells
    rw [List.mem_singleton.mp told, after]
    refine ⟨⟨{ row with leaseExpiresAtMs := some expiry, updatedAt := clock 0 }, ?_, active,
      attempt, owner, expiry, rfl, le_rfl⟩, positive⟩
    simp [leaseRenewed, Table.find?_modify, live]
  | _ => cases reply <;> cases tells

/-- The holder of a running claim is on record as the last to have claimed the job. -/
theorem Holding.latest (holding : Holding (dbAfter ext service run).jobs.find? c lease) :
    latestClaim (claims ext service run) c.1 = some c.2 ∧ isBlank c.2.2 = false := by
  obtain ⟨row, live, holds⟩ := holding
  have fenced := fenced_after ext service run
  obtain ⟨workerId, owner, latest⟩ := fenced.holder live holds.active
  cases holds.owner.symm.trans owner
  rw [holds.attempt] at latest
  rw [claims_eq]
  exact ⟨latest, fenced.issuedNamed (mem_of_latestClaim latest)⟩

variable (ext service) in
/-- The id of a live job is not blank. -/
theorem live_not_blank (run : List Op) {j : JobId}
    (live : (dbAfter ext service run).jobs.find? j = some row) : isBlank j = false := by
  obtain ⟨t, k, rfl, -⟩ := (sound_after ext service run).drawn live
  exact ext.newV4_not_blank t k

/-- A report in time under a running claim is settled. -/
theorem finishJob_of_holds {db : Db} (disjoint : db.Disjoint) {row : JobRow}
    (live : db.jobs.find? c.1 = some row) (holds : row.Holds c lease) (attempted : c.2.1 ≠ 0)
    (named : isBlank c.1 = false) (worker : isBlank c.2.2 = false) {clock : Clock}
    (early : clock 0 < lease) (jittered : ℤ) (ack : Acknowledgment) :
    ∃ outcome, settle clock jittered db row ack = .ok outcome ∧
      finishJob clock jittered db c.1 c.2.2 c.2.1 ack = .ok outcome := by
  obtain ⟨expiry, leased, le⟩ := holds.leased
  have accepts : Accepts row c.2.2 c.2.1 (clock 0) := by
    refine ⟨holds.active, holds.owner, ?_, expiry, leased, early.trans_le le⟩
    rw [holds.attempt]
    omega
  have keyed : row.id = c.1 := Table.key_of_find? live
  have found : db.jobs.find? row.id = some row := by rwa [keyed]
  obtain ⟨outcome, settled⟩ : ∃ outcome, settle clock jittered db row ack = .ok outcome :=
    settle_of_disjoint disjoint found ack
  refine ⟨outcome, settled, ?_⟩
  rw [finishJob, if_neg (by simp [named, worker])]
  simp only [live, checkClaim_ok.mpr accepts]
  exact settled

/-- A running claim is honoured. -/
theorem Holding.honoured (holding : Holding (dbAfter ext service run).jobs.find? c lease)
    (attempted : c.2.1 ≠ 0) : LeaseHonoured ext service run c lease := by
  obtain ⟨latest, worker⟩ := holding.latest
  obtain ⟨row, live, holds⟩ := holding
  have named := live_not_blank ext service run live
  have sound := sound_after ext service run
  have keyed : row.id = c.1 := Table.key_of_find? live
  refine ⟨latest, fun clock early => ?_, fun clock result early small => ?_,
    fun clock jittered error nonRetryable early => ?_⟩
  · obtain ⟨expiry, leased, le⟩ := holds.leased
    refine ⟨max expiry (wrappingAdd (clock 0) service.leaseDurationMs),
      le.trans (le_max_left _ _), ?_⟩
    rw [replyTo, servedNext, serve, renewLease, if_neg (by simp [named, worker, attempted])]
    simp only [live, holds.active, holds.owner, leased]
    rw [if_neg (by simp), if_neg (by simp),
      if_neg (by simp [holds.attempt, early.trans_le le])]
    rfl
  · obtain ⟨⟨moved, db', calls⟩, settled, finished⟩ := finishJob_of_holds sound.db_disjoint live
      holds attempted named worker early 0
        (.completed (if result.isEmpty then none else some result))
    have ok : completeJob clock (dbAfter ext service run) ⟨c.1, c.2.2, c.2.1, result⟩ =
        .ok (db', calls) := by
      rw [completeJob, if_neg (Nat.not_lt.mpr small)]
      simp only [finished]
      rfl
    simp only [settle, bind_eq_ok, Except.ok.injEq, Prod.mk.injEq] at settled
    obtain ⟨⟨db₁, calls₁⟩, completed, -, rfl, rfl⟩ := settled
    obtain ⟨replied, after⟩ := replied_of_transact ext service run
      (.completeJob clock ⟨c.1, c.2.2, c.2.1, result⟩) rfl ok
    refine ⟨replied, ?_⟩
    rw [after]
    obtain ⟨steps, -⟩ := @finishCompleted_trace ext _ _ run.length 0 _ _ _ _ (by rwa [keyed])
      holds.active completed
    cases steps with
    | cons step rest =>
      cases rest
      have archived := Ledger.Sound.archived step rfl
      rw [keyed] at archived
      refine ⟨_, archived, rfl, holds.owner, ?_⟩
      show row.attempts = _
      rw [holds.attempt]
      omega
  · obtain ⟨⟨moved, db', calls⟩, -, finished⟩ := finishJob_of_holds sound.db_disjoint live
      holds attempted named worker early jittered (.failed error nonRetryable)
    refine ⟨moved, ?_⟩
    rw [replyTo, servedNext, serve, failJob, finished]
    rfl

/-- **Every lease told is honoured.**  Whatever the broker serves after an answer that told the
holder of a claim its expiry, if no recovery reads a clock at or after that expiry, no report
under the claim was accepted and no failure took the job along, then the claim is the latest
one and every report under it that is served in time is accepted. -/
theorem told_leases_honoured {run : List Op} {op : Op} {reply : Reply} {c : ClaimRecord}
    {lease : ℤ} {more : List Op} (replied : replyTo ext service run op = some reply)
    (tells : lease ∈ leasesTold c op reply)
    (early : ∀ clock n, .recoverExpired clock n ∈ more → clock 0 < lease)
    (unsettled : Along (fun before other =>
      ¬ SettledBy ext service (run ++ [op] ++ before) other c ∧
        ¬ FailedAlong (dbAfter ext service (run ++ [op] ++ before)) other c.1) more) :
    LeaseHonoured ext service (run ++ [op] ++ more) c lease := by
  obtain ⟨told, attempted⟩ := Holding.of_told replied tells
  refine Holding.honoured ?_ attempted
  -- the claim stands after every operation served since
  induction more using List.reverseRecOn with
  | nil => rwa [List.append_nil]
  | append_singleton more other ih =>
    obtain ⟨before, last⟩ := along_concat.mp unsettled
    have holding := ih (fun clock n mem => early clock n (List.mem_append_left _ mem)) before
    rw [← List.append_assoc]
    refine (holding.step fun clock n same => ?_).resolve_right (not_or.mpr last)
    exact early clock n (List.mem_append_right _ (List.mem_singleton.mpr same.symm))

end Runs

/-- A job is claimed, another worker polls, and a recovery runs just before the lease ends. -/
theorem told_lease_outlives_recovery :
    LeaseHonoured .unary {} ([.addJob stopped { name := "a" }] ++ [poll "a"] ++
      [.getNextJob stopped { workerId := "v" }, .recoverExpired (fun _ => 29999) 100])
      (unaryId 0 0, 1, "w") 30000 := by
  have told : (replyTo .unary {} [.addJob stopped { name := "a" }] (poll "a")).any
      (fun reply => decide (30000 ∈ leasesTold (unaryId 0 0, 1, "w") (poll "a") reply)) = true := by
    decide +kernel
  obtain ⟨reply, replied, tells⟩ := (Option.any_eq_true _ _).mp told
  refine told_leases_honoured replied (of_decide_eq_true tells) ?_ ?_
  · intro clock n mem
    rcases List.mem_cons.mp mem with other | last
    · cases other
    · cases List.mem_singleton.mp last
      decide
  · intro before other le
    have mem := le.subset (List.mem_append_right before (List.mem_singleton.mpr rfl))
    simp only [List.mem_cons, List.not_mem_nil, or_false] at mem
    constructor
    · rintro ⟨reports, -⟩
      rcases mem with rfl | rfl <;> cases reports
    · rintro ⟨clock, jittered, req, row, chain, ancestor, same, -⟩
      rcases mem with rfl | rfl <;> cases same

end AnvilMQ
