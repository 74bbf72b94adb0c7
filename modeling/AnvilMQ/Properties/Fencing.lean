import AnvilMQ.Ledger.Refinement

/-!
# Claims are fenced

A claim is a job handed to a worker for one attempt.  Whatever workers do and in
whatever order their requests arrive, an attempt is handed out once, only the
holder of the latest claim can renew or settle it, and it is settled at most once.
-/

namespace AnvilMQ

open Rust Relational Transition

/-! ## The guarantees -/

/-- The attempt and the worker of the last claim of a job in a log of claims. -/
def latestClaim (log : List ClaimRecord) (j : JobId) : Option (ℕ × String) :=
  ((log.filter fun c => decide (c.1 = j)).getLast?).map Prod.snd

/-- An acknowledgment: the job, the worker, the attempt and the clock reading it is
checked against. -/
structure AckRequest where
  id : JobId
  workerId : String
  attempt : ℕ
  now : ℤ

/-- The acknowledgment an operation makes. -/
def Op.acknowledgment : Op → Option AckRequest
  | heartbeat clock req => some ⟨req.id, req.workerId, req.attempt, clock 0⟩
  | completeJob clock req => some ⟨req.id, req.workerId, req.attempt, clock 0⟩
  | failJob clock _ req => some ⟨req.id, req.workerId, req.attempt, clock 0⟩
  | _ => none

/-- The claim an operation reports the end of; attempt `0` stands for `1`. -/
def Op.reports : Op → Option (JobId × ℕ)
  | completeJob _ req => some (req.id, max req.attempt 1)
  | failJob _ _ req => some (req.id, max req.attempt 1)
  | _ => none

section Statement

variable (ext : Externals) (service : Service)

end Statement

variable {ext : Externals} {service : Service} {past : List Event} {l l' : Ledger} {e : Event}
  {claim : JobId × ℕ} {req : CompleteJobRequest} {entry : HistoryRow}

/-! ## The log of claims and settlements -/

/-- The claims a history has issued. -/
def claimsOf (past : List Event) : List ClaimRecord := past.filterMap Event.claim

/-- The claims a history has settled. -/
def settledOf (past : List Event) : List (JobId × ℕ) := past.filterMap Event.settles

theorem claimsOf_concat (past : List Event) (e : Event) :
    claimsOf (past ++ [e]) = claimsOf past ++ e.claim.toList :=
  Transition.filterMap_concat Event.claim past e

theorem latestClaim_concat (log : List ClaimRecord) (c : ClaimRecord) (j : JobId) :
    latestClaim (log ++ [c]) j = if c.1 = j then some c.2 else latestClaim log j := by
  rw [latestClaim, List.filter_append]
  by_cases here : c.1 = j <;> simp [latestClaim, here]

/-! ## What events do to claims -/

theorem Event.claimed_of_claim {c : ClaimRecord} (claims : e.claim = some c) :
    ∃ row workerId now lease, e = .claimed row workerId now lease ∧
      c = (row.id, row.attempts + 1, workerId) := by
  cases e with
  | claimed row workerId now lease =>
    exact ⟨row, workerId, now, lease, rfl, (Option.some.inj claims).symm⟩
  | _ => cases claims

/-- A job that stays live is claimed by the event, or it keeps its attempts and is
active only if it was, under the same worker. -/
theorem Event.Enabled.evolve_claim (enabled : e.Enabled ext l) {j : JobId} {r : JobRow}
    (live : l.jobs j = some r) :
    (∃ workerId now lease, e = .claimed r workerId now lease ∧ r.id = j) ∨
      ((e.evolve j r).attempts = r.attempts ∧ (∀ c, e.claim = some c → c.1 ≠ j) ∧
        ((e.evolve j r).state = .active →
          r.state = .active ∧ (e.evolve j r).workerId = r.workerId)) := by
  cases e with
  | claimed row workerId now lease =>
    by_cases here : j = row.id
    · subst here
      cases live.symm.trans enabled.1
      exact .inl ⟨workerId, now, lease, rfl, rfl⟩
    · refine .inr ⟨by simp [here], ?_, by simp [here]⟩
      rintro c claims
      cases claims
      exact Ne.symm here
  | renewed row lease now =>
    refine .inr ⟨?_, (fun _ claims => by cases claims), ?_⟩ <;> simp only [evolve] <;> split <;>
      simp
  | requeued row cause state availableAt lastError updatedAt =>
    refine .inr ⟨?_, (fun _ claims => by cases claims), ?_⟩ <;> simp only [evolve] <;> split
    · rfl
    · rfl
    · intro active
      rcases enabled.2.2.1 with rest | rest <;> simp [JobRow.requeued, rest] at active
    · simp
  | completed row entry parent now updatedAt released =>
    refine .inr ⟨?_, (fun _ claims => by cases claims), ?_⟩ <;> simp only [evolve] <;> split
    · rw [JobRow.countedDown]
      split <;> rfl
    · rfl
    · rw [JobRow.countedDown]
      split
      · intro active
        simp only [releasedState] at active
        split at active <;> cases active
      · exact fun active => ⟨active, rfl⟩
    · simp
  | adopted target =>
    refine .inr ⟨?_, (fun _ claims => by cases claims), ?_⟩ <;> simp only [evolve] <;> split <;>
      simp
  | regated target n updatedAt =>
    refine .inr ⟨?_, (fun _ claims => by cases claims), ?_⟩ <;> simp only [evolve] <;> split <;>
      simp [JobRow.parked]
  | _ => exact .inr ⟨rfl, (fun _ claims => by cases claims), fun active => ⟨active, rfl⟩⟩

/-- A job is not born active. -/
theorem Event.Enabled.born_idle (enabled : e.Enabled ext l) {row : JobRow}
    (born : e.born = some row) : row.state ≠ .active ∧ row.attempts = 0 := by
  refine ⟨?_, (enabled.born born).untouched.attempts⟩
  cases e with
  | enqueued inserted now slot =>
    cases born
    rcases enabled.claimable with state | state <;> simp [state]
  | planted inserted slot =>
    cases born
    rcases enabled.gated with ⟨state, -⟩ | ⟨state | state, -⟩ <;> simp [state]
  | _ => cases born

/-- What is settled was active, and is not active afterwards. -/
theorem Event.Enabled.settles (enabled : e.Enabled ext l) {c : JobId × ℕ}
    (settles : e.settles = some c) :
    ∃ row, l.jobs c.1 = some row ∧ row.state = .active ∧ row.attempts = c.2 ∧ e.claim = none ∧
      ∀ after, (l.apply ext e).jobs c.1 = some after → after.state ≠ .active := by
  cases e with
  | completed row entry parent now updatedAt released =>
    cases settles
    refine ⟨row, enabled.1, enabled.2.1, rfl, rfl, fun after found => ?_⟩
    rw [Ledger.jobs_of_retired rfl] at found
    cases found
  | requeued row cause state availableAt lastError updatedAt =>
    cases cause with
    | expiry => cases settles
    | retry =>
      cases settles
      refine ⟨row, enabled.1, enabled.2.1, rfl, rfl, fun after found => ?_⟩
      rcases Ledger.apply_jobs found with ⟨born, -⟩ | ⟨before, -, rfl, -⟩
      · cases born
      · rcases enabled.2.2.1 with rest | rest <;> simp [JobRow.requeued, rest]
  | failed row entry cause n =>
    cases cause with
    | reported =>
      cases settles
      refine ⟨row, enabled.1, enabled.2.1, rfl, rfl, fun after found => ?_⟩
      rw [Ledger.jobs_of_retired rfl] at found
      cases found
    | cascaded => cases settles
    | expired => cases settles
  | _ => cases settles

/-! ## The invariant -/

/-- **The fencing invariant.**  Attempts count the claims of a job, an active job is
held by its latest claim, and a settled claim is not the running one. -/
structure Fenced (ext : Externals) (past : List Event) (l : Ledger) : Prop where
  sound : l.Sound ext
  issuedDrawn : ∀ {c}, c ∈ claimsOf past → l.Drawn ext c.1
  issuedBound : ∀ {c row}, c ∈ claimsOf past → l.jobs c.1 = some row → c.2.1 ≤ row.attempts
  issuedNodup : ((claimsOf past).map fun c => (c.1, c.2.1)).Nodup
  issuedNamed : ∀ {c}, c ∈ claimsOf past → isBlank c.2.2 = false
  holder : ∀ {j row}, l.jobs j = some row → row.state = .active →
    ∃ workerId, row.workerId = some workerId ∧
      latestClaim (claimsOf past) j = some (row.attempts, workerId)
  settledDrawn : ∀ {c}, c ∈ settledOf past → l.Drawn ext c.1
  settledBound : ∀ {c row}, c ∈ settledOf past → l.jobs c.1 = some row →
    c.2 ≤ row.attempts ∧ (row.state = .active → c.2 < row.attempts)
  archivedNamed : ∀ {j entry}, l.jobHistory j = some entry → entry.state = .completed →
    ∃ workerId, entry.workerId = some workerId ∧ isBlank workerId = false

theorem Fenced.empty (ext : Externals) : Fenced ext [] (Db.empty.ledger 0 0) where
  sound := .empty ext
  issuedDrawn := nofun
  issuedBound := nofun
  issuedNodup := List.nodup_nil
  issuedNamed := nofun
  holder := nofun
  settledDrawn := nofun
  settledBound := nofun
  archivedNamed := nofun

theorem mem_of_latestClaim {log : List ClaimRecord} {j : JobId} {a : ℕ} {workerId : String}
    (latest : latestClaim log j = some (a, workerId)) : (j, a, workerId) ∈ log := by
  obtain ⟨c, last, same⟩ := Option.map_eq_some_iff.mp latest
  have mem := List.mem_of_getLast? last
  simp only [List.mem_filter, decide_eq_true_eq] at mem
  rw [← mem.2, ← same]
  exact mem.1

/-- **An enabled event keeps the fencing invariant.** -/
theorem Fenced.step (step : Step ext l e l') (fenced : Fenced ext past l) :
    Fenced ext (past ++ [e]) l' := by
  have sound := fenced.sound.step step
  have mono : ∀ {j}, l.Drawn ext j → l'.Drawn ext j := step.drawn_mono
  have whole := step
  obtain ⟨enabled, rfl⟩ := step
  have issued : ∀ {c}, c ∈ claimsOf (past ++ [e]) → c ∈ claimsOf past ∨ e.claim = some c :=
    Transition.mem_filterMap_concat.mp
  have settled : ∀ {c}, c ∈ settledOf (past ++ [e]) → c ∈ settledOf past ∨ e.settles = some c :=
    Transition.mem_filterMap_concat.mp
  constructor
  case sound => exact sound
  case issuedDrawn =>
    intro c mem
    rcases issued mem with old | new
    · exact mono (fenced.issuedDrawn old)
    · obtain ⟨row, workerId, now, lease, rfl, rfl⟩ := Event.claimed_of_claim new
      exact mono (fenced.sound.drawn enabled.1)
  case issuedBound =>
    intro c row mem found
    rcases Ledger.apply_jobs found with ⟨born, here⟩ | ⟨before, live, rfl, -⟩
    · have fresh := (enabled.born born).draws.not_drawn
      rw [here] at fresh
      rcases issued mem with old | new
      · exact absurd (fenced.issuedDrawn old) fresh
      · obtain ⟨other, workerId, now, lease, rfl, rfl⟩ := Event.claimed_of_claim new
        cases born
    · rcases enabled.evolve_claim live with ⟨workerId, now, lease, rfl, here⟩ | ⟨same, other, -⟩
      · rcases issued mem with old | new
        · have := fenced.issuedBound old live
          simp only [Event.evolve, here, if_true, JobRow.leased]
          omega
        · cases new
          simp [JobRow.leased]
      · rcases issued mem with old | new
        · rw [same]
          exact fenced.issuedBound old live
        · exact absurd rfl (other c new)
  case issuedNodup =>
    rw [claimsOf_concat, List.map_append]
    refine fenced.issuedNodup.append ?_ ?_
    · cases e.claim <;> simp
    · intro pair old new
      obtain ⟨c, here, rfl⟩ := List.mem_map.mp old
      obtain ⟨c', there, same⟩ := List.mem_map.mp new
      obtain ⟨row, workerId, now, lease, rfl, rfl⟩ :=
        Event.claimed_of_claim (Option.mem_toList.mp there)
      simp only [Prod.mk.injEq] at same
      have live : l.jobs c.1 = some row := by
        rw [← same.1]
        exact enabled.1
      have := fenced.issuedBound here live
      omega
  case issuedNamed =>
    intro c mem
    rcases issued mem with old | new
    · exact fenced.issuedNamed old
    · obtain ⟨row, workerId, now, lease, rfl, rfl⟩ := Event.claimed_of_claim new
      exact enabled.2.2
  case archivedNamed =>
    intro j entry found completed
    rcases Ledger.apply_jobHistory found with ⟨row, retires, retired⟩ | ⟨old, -, -⟩
    · obtain ⟨parent, now, updatedAt, n, rfl⟩ := whole.completed_of_retires retires completed
      obtain ⟨live, active, ⟨at_, result, rfl⟩, -⟩ := enabled
      obtain ⟨workerId, owner, latest⟩ := fenced.holder live active
      exact ⟨workerId, owner, fenced.issuedNamed (mem_of_latestClaim latest)⟩
    · exact fenced.archivedNamed old completed
  case holder =>
    intro j row found active
    rcases Ledger.apply_jobs found with ⟨born, -⟩ | ⟨before, live, rfl, -⟩
    · exact absurd active (enabled.born_idle born).1
    · rcases enabled.evolve_claim live with ⟨workerId, now, lease, rfl, rfl⟩ | ⟨same, other, stays⟩
      · refine ⟨workerId, by simp [JobRow.leased], ?_⟩
        rw [claimsOf_concat]
        simp only [Event.claim, Option.toList_some, latestClaim_concat, if_true]
        simp [JobRow.leased]
      · obtain ⟨was, worker⟩ := stays active
        obtain ⟨workerId, owner, latest⟩ := fenced.holder live was
        refine ⟨workerId, worker.trans owner, ?_⟩
        rw [same, ← latest, claimsOf_concat]
        cases claim : e.claim with
        | none => simp
        | some c => rw [Option.toList_some, latestClaim_concat, if_neg (other c claim)]
  case settledDrawn =>
    intro c mem
    rcases settled mem with old | new
    · exact mono (fenced.settledDrawn old)
    · obtain ⟨row, live, -⟩ := enabled.settles new
      exact mono (fenced.sound.drawn live)
  case settledBound =>
    intro c row mem found
    rcases Ledger.apply_jobs found with ⟨born, here⟩ | ⟨before, live, rfl, -⟩
    · have fresh := (enabled.born born).draws.not_drawn
      rw [here] at fresh
      rcases settled mem with old | new
      · exact absurd (fenced.settledDrawn old) fresh
      · obtain ⟨other, live, -⟩ := enabled.settles new
        exact absurd (fenced.sound.drawn live) fresh
    · rcases settled mem with old | new
      · obtain ⟨bound, running⟩ := fenced.settledBound old live
        rcases enabled.evolve_claim live with ⟨workerId, now, lease, rfl, here⟩ | ⟨same, -, stays⟩
        · simp only [Event.evolve, here, if_true, JobRow.leased]
          omega
        · rw [same]
          exact ⟨bound, fun active => running (stays active).1⟩
      · obtain ⟨row, alive, -, attempts, unclaimed, idle⟩ := enabled.settles new
        cases live.symm.trans alive
        refine ⟨?_, fun active => absurd active (idle _ found)⟩
        rcases enabled.evolve_claim live with ⟨workerId, now, lease, rfl, here⟩ | ⟨same, -, -⟩
        · cases unclaimed
        · rw [same, attempts]

variable (ext service) in
theorem fenced_after (run : List Op) :
    Fenced ext (history ext service run) ((dbAfter ext service run).ledger run.length 0) :=
  history_invariant (.empty ext) Fenced.step run

/-! ## Runs -/

section Runs

variable {run : List Op} {op : Op}

/-- The operation answers with success because it replays a recorded completion. -/
structure ReplaysArchived (ext : Externals) (service : Service) (run : List Op) (op : Op)
    (ack : AckRequest) : Prop where
  replied : replyTo ext service run op = some .completed
  unchanged : ¬ Changes ext service run op
  gone : (dbAfter ext service run).jobs.find? ack.id = none
  recorded : ∃ entry, (dbAfter ext service run).jobHistory.find? ack.id = some entry ∧
    Replays entry ack.workerId ack.attempt

/-- **The three outcomes of an acknowledgment**: it is refused, it is answered from
the history, or it is accepted under the running claim. -/
theorem acknowledgment_cases {ack : AckRequest} (acks : op.acknowledgment = some ack) :
    Refused ext service run op ∨ ReplaysArchived ext service run op ack ∨
      (∃ reply, replyTo ext service run op = some reply) ∧
        ∃ row, Acknowledged (dbAfter ext service run) ack.id ack.workerId ack.attempt ack.now
          row := by
  cases op with
  | heartbeat clock req =>
    cases acks
    rcases transact_cases ext service run (.heartbeat clock req) rfl with
      refused | ⟨⟨expiry, db'⟩, renewed, replied, -⟩
    · exact .inl refused
    · obtain ⟨row, lease, live, active, owner, current, positive, leased, running, -,
        (_ : Step ext (Db.ledger _ 0 0) _ _)⟩ := renewLease_cases renewed
      have attempt : row.attempts = max req.attempt 1 := by omega
      exact .inr (.inr ⟨⟨_, replied⟩, row, live, active, owner, attempt, lease, leased, running⟩)
  | completeJob clock req =>
    cases acks
    rcases transact_cases ext service run (.completeJob clock req) rfl with
      refused | ⟨⟨db', calls⟩, completed, replied, after⟩
    · exact .inl refused
    · simp only [completeJob] at completed
      split at completed
      · cases completed
      simp only [bind_eq_ok, Except.ok.injEq, Prod.mk.injEq] at completed
      obtain ⟨⟨moved, db₁, calls₁⟩, finished, rfl, rfl⟩ := completed
      rcases finishJob_cases finished with
        ⟨gone, -, recorded, -, rfl, -⟩ | ⟨row, live, accepts, -⟩
      · exact .inr (.inl ⟨replied, fun changes => changes after, gone, recorded⟩)
      · exact .inr (.inr ⟨⟨_, replied⟩, row, live, accepts⟩)
  | failJob clock jittered req =>
    cases acks
    rcases transact_cases ext service run (.failJob clock jittered req) rfl with
      refused | ⟨⟨moved, db', calls⟩, failed, replied, -⟩
    · exact .inl refused
    · rcases finishJob_cases failed with ⟨-, completes, -⟩ | ⟨row, live, accepts, -⟩
      · cases completes
      · exact .inr (.inr ⟨⟨_, replied⟩, row, live, accepts⟩)
  | _ => cases acks

/-- A completion within the result limit that replays a recorded one succeeds. -/
theorem completeJob_replays (clock : Clock) {db : Db} (gone : db.jobs.find? req.id = none)
    (named : isBlank req.id = false) (found : db.jobHistory.find? req.id = some entry)
    (worker : isBlank req.workerId = false) (small : req.result.length ≤ maxResultBytes)
    (replays : Replays entry req.workerId req.attempt) :
    completeJob clock db req = .ok (db, []) := by
  have acknowledged : acknowledgeArchived db req.id req.workerId req.attempt false = .ok () :=
    acknowledgeArchived_ok.mpr ⟨rfl, entry, found, replays⟩
  rw [completeJob, if_neg (Nat.not_lt.mpr small), finishJob, if_neg (by simp [named, worker])]
  simp only [gone, Acknowledgment.isFailure, acknowledged]
  rfl

variable (ext service) in
/-- An archived job is not live, and its id is not blank. -/
theorem archived_only (run : List Op) {j : JobId}
    (found : (dbAfter ext service run).jobHistory.find? j = some entry) :
    (dbAfter ext service run).jobs.find? j = none ∧ isBlank j = false := by
  have sound := sound_after ext service run
  obtain ⟨t, k, rfl, -⟩ := sound.historyDrawn found
  exact ⟨sound.not_live found, ext.newV4_not_blank t k⟩

variable (ext service) in
/-- A completion within the result limit that replays a recorded one is answered
with success. -/
theorem completed_of_replays (run : List Op) (clock : Clock) {req : CompleteJobRequest}
    {entry : HistoryRow}
    (found : (dbAfter ext service run).jobHistory.find? req.id = some entry)
    (small : req.result.length ≤ maxResultBytes)
    (replays : Replays entry req.workerId req.attempt) :
    replyTo ext service run (.completeJob clock req) = some .completed := by
  obtain ⟨gone, named⟩ := archived_only ext service run found
  obtain ⟨workerId, owner, worker⟩ :=
    (fenced_after ext service run).archivedNamed found replays.completed
  cases replays.owner.symm.trans owner
  have ok := completeJob_replays clock gone named found worker small replays
  rw [replyTo, servedNext, serve, ok]
  rfl

end Runs

/-! ## A replay that carries too much -/

/-- An oversize result is refused before the job is looked at. -/
theorem refused_of_oversize (ext : Externals) (service : Service) (run : List Op) {clock : Clock}
    (large : maxResultBytes < req.result.length) :
    replyTo ext service run (.completeJob clock req) = none := by
  rw [replyTo, servedNext, serve, completeJob, if_pos large]
  rfl

/-- A job is enqueued, claimed and completed. -/
def completedRun : List Op :=
  [.addJob stopped { name := "a" }, poll "a",
    .completeJob stopped { id := unaryId 0 0, workerId := "w", attempt := 1 }]

end AnvilMQ
