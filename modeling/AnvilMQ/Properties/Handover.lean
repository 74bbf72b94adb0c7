import AnvilMQ.Properties.HeldLease
import AnvilMQ.Properties.Pending

/-!
# When a job changes hands

A job is handed out again only after its last claim has come to an end.  A claim that was issued
is running, or the job is gone and was not handed out again, or a recovery took the job back
because the lease had run out, or a failure was reported under the claim.  The lease of a running
claim is not before any expiry its holder was told.
-/

namespace AnvilMQ

open Rust Relational Transition

section Statement

variable (ext : Externals) (service : Service)

/-- A row under a claim, with its lease. -/
structure JobRow.LeasedTo (row : JobRow) (c : ClaimRecord) (expiry : ℤ) : Prop where
  active : row.state = .active
  attempt : row.attempts = c.2.1
  owner : row.workerId = some c.2.2
  leased : row.leaseExpiresAtMs = some expiry

/-- **The claim stands** after a run, and its lease is not before any expiry its holder was
told. -/
def Running (run : List Op) (c : ClaimRecord) (row : JobRow) (expiry : ℤ) : Prop :=
  (dbAfter ext service run).jobs.find? c.1 = some row ∧ row.LeasedTo c expiry ∧
    ∀ lease ∈ told ext service (leasesTold c) run, lease ≤ expiry

/-- **The lease of the claim ran out**: a recovery whose clock had reached it, and with it
every expiry the holder was told, took the job. -/
def RanOut (run : List Op) (c : ClaimRecord) : Prop :=
  ∃ earlier clock batchSize later row expiry,
    run = earlier ++ .recoverExpired clock batchSize :: later ∧
    Running ext service earlier c row expiry ∧ expiry ≤ clock 0 ∧
    (dbAfter ext service (earlier ++ [.recoverExpired clock batchSize])).jobs.find? c.1 ≠ some row

/-- A failure was reported under the claim. -/
def FailureUnder (run : List Op) (c : ClaimRecord) : Prop :=
  ∃ clock jittered req, .failJob clock jittered req ∈ run ∧ req.id = c.1 ∧
    req.workerId = c.2.2 ∧ max req.attempt 1 = c.2.1

/-- No claim of the job is later than `c`. -/
def LastClaim (run : List Op) (c : ClaimRecord) : Prop :=
  ∀ c' ∈ claims ext service run, c'.1 = c.1 → c'.2.1 ≤ c.2.1

/-- **What became of a claim.** -/
inductive Fate (run : List Op) (c : ClaimRecord) : Prop
  | running {row : JobRow} {expiry : ℤ} (stands : Running ext service run c row expiry)
  | gone (absent : (dbAfter ext service run).jobs.find? c.1 = none)
      (last : LastClaim ext service run c)
  | ranOut (taken : RanOut ext service run c)
  | failed (reported : FailureUnder run c)

end Statement

variable {ext : Externals} {service : Service} {c : ClaimRecord}

/-! ## Events -/

section Events

variable {l l' : Ledger} {e : Event} {lease : ℤ}

/-- The job whose claim an event renews or sends back to the queue. -/
def Event.returns : Event → Option JobId
  | renewed row _ _ => some row.id
  | requeued row _ _ _ _ _ => some row.id
  | _ => none

/-- An event that touches a claim and does not return its job archives it. -/
theorem Event.retired_of_touches {j : JobId} (touches : e.touches = some j)
    (kept : e.returns ≠ some j) : e.retiredId = some j := by
  cases e with
  | renewed row lease now => exact absurd touches kept
  | requeued row cause state availableAt lastError updatedAt => exact absurd touches kept
  | completed row entry parent now updatedAt released => exact touches
  | failed row entry cause n => exact touches
  | _ => cases touches

/-- The claim stands, or its job is gone for good. -/
def HoldingOrGone (ext : Externals) (c : ClaimRecord) (lease : ℤ) (l : Ledger) : Prop :=
  l.Drawn ext c.1 ∧ (Holding l.jobs c lease ∨ l.jobs c.1 = none)

theorem HoldingOrGone.step (kept : e.returns ≠ some c.1) (step : Step ext l e l')
    (here : HoldingOrGone ext c lease l) : HoldingOrGone ext c lease l' := by
  obtain ⟨drawn, holding | gone⟩ := here
  · refine ⟨step.drawn_mono drawn, ?_⟩
    by_cases touches : e.touches = some c.1
    · right
      rw [step.2]
      exact Ledger.jobs_of_retired (Event.retired_of_touches touches kept)
    · exact .inl (step.holding touches holding)
  · exact ⟨step.drawn_mono drawn, .inr (Ledger.Sound.gone_stays step drawn gone)⟩

end Events

/-! ## One operation -/

section Runs

variable {run : List Op} {op : Op} {row : JobRow} {expiry : ℤ}

theorem JobRow.LeasedTo.holds (leased : row.LeasedTo c expiry) : row.Holds c expiry :=
  ⟨leased.active, leased.attempt, leased.owner, expiry, leased.leased, le_rfl⟩

theorem Running.holding (stands : Running ext service run c row expiry) :
    Holding (dbAfter ext service run).jobs.find? c expiry :=
  ⟨row, stands.1, stands.2.1.holds⟩

theorem mem_told_concat {α : Type} {see : Op → Reply → List α} {x : α}
    (mem : x ∈ told ext service see (run ++ [op])) :
    x ∈ told ext service see run ∨
      ∃ reply, replyTo ext service run op = some reply ∧ x ∈ see op reply := by
  rw [told_concat] at mem
  refine (List.mem_append.mp mem).imp_right fun new => ?_
  cases replied : replyTo ext service run op with
  | none =>
    rw [replied] at new
    cases new
  | some reply =>
    rw [replied] at new
    exact ⟨reply, rfl, new⟩

/-- What a run has told a holder, one operation later. -/
theorem mem_leasesTold {lease : ℤ}
    (mem : lease ∈ told ext service (leasesTold c) (run ++ [op])) :
    lease ∈ told ext service (leasesTold c) run ∨
      Holding (dbAfter ext service (run ++ [op])).jobs.find? c lease := by
  refine (mem_told_concat mem).imp_right ?_
  rintro ⟨reply, replied, tells⟩
  exact (Holding.of_told replied tells).1

/-- A claim that is held is running, with the lease of its row. -/
theorem Holding.running {lease : ℤ}
    (holding : Holding (dbAfter ext service (run ++ [op])).jobs.find? c lease)
    (before : ∀ earlier ∈ told ext service (leasesTold c) run, earlier ≤ lease) :
    ∃ row expiry, Running ext service (run ++ [op]) c row expiry := by
  obtain ⟨row, live, holds⟩ := holding
  obtain ⟨expiry, leased, le⟩ := holds.leased
  refine ⟨row, expiry, live, ⟨holds.active, holds.attempt, holds.owner, leased⟩, ?_⟩
  intro other mem
  rcases mem_leasesTold mem with old | ⟨row', live', holds'⟩
  · exact (before other old).trans le
  · cases live.symm.trans live'
    obtain ⟨expiry', leased', le'⟩ := holds'.leased
    cases leased.symm.trans leased'
    exact le'

/-- An operation that returns the job of a running claim to no queue leaves it running or
archives it. -/
theorem Running.or_gone (stands : Running ext service run c row expiry)
    (kept : ∀ e ∈ eventsOf ext service run op, e.returns ≠ some c.1) :
    (∃ row expiry, Running ext service (run ++ [op]) c row expiry) ∨
      (dbAfter ext service (run ++ [op])).jobs.find? c.1 = none := by
  obtain ⟨slot, refines⟩ := eventsOf_refines ext service run op
  have after : HoldingOrGone ext c expiry
      ((servedNext ext service run op).1.ledger run.length slot) :=
    Chain.preserves_of (R := Step ext) (G := fun e => e.returns ≠ some c.1)
      (I := HoldingOrGone ext c expiry) HoldingOrGone.step refines.chain kept
      ⟨(sound_after ext service run).drawn stands.1, .inl stands.holding⟩
  rw [dbAfter_concat]
  rcases after.2 with holding | gone
  · left
    exact Holding.running (by rwa [dbAfter_concat]) stands.2.2
  · exact .inr gone

/-- The job that a failure report returns to the queue is the one it names. -/
theorem Running.failureUnder (stands : Running ext service run c row expiry) {clock : Clock}
    {jittered : ℤ} {req : FailJobRequest} {e : Event}
    (mem : e ∈ eventsOf ext service run (.failJob clock jittered req))
    (returns : e.returns = some c.1) :
    FailureUnder (run ++ [.failJob clock jittered req]) c := by
  obtain ⟨slot, refines⟩ := eventsOf_refines ext service run (.failJob clock jittered req)
  rcases refines.emits e mem with ⟨found, ⟨live, accepts⟩, rfl | ⟨n, rfl⟩⟩ | ⟨_, _, _, rfl⟩
  · have keyed : found.id = req.id := Table.key_of_find? live
    have here : req.id = c.1 := keyed.symm.trans (Option.some.inj returns)
    rw [here] at live
    cases stands.1.symm.trans live
    refine ⟨clock, jittered, req, List.mem_append_right _ (List.mem_singleton.mpr rfl), here,
      ?_, ?_⟩
    · exact Option.some.inj (accepts.owner.symm.trans stands.2.1.owner)
    · rw [← accepts.attempt, stands.2.1.attempt]
  · cases returns
  · cases returns

/-- What a report does to a running claim. -/
theorem Running.reported (stands : Running ext service run c row expiry) {claim : JobId × ℕ}
    (reports : op.reports = some claim) :
    (∃ row expiry, Running ext service (run ++ [op]) c row expiry) ∨
      (dbAfter ext service (run ++ [op])).jobs.find? c.1 = none ∨ FailureUnder (run ++ [op]) c := by
  by_cases returned : ∃ e ∈ eventsOf ext service run op, e.returns = some c.1
  · obtain ⟨e, mem, returns⟩ := returned
    cases op with
    | completeJob clock req =>
      obtain ⟨slot, refines⟩ := eventsOf_refines ext service run (.completeJob clock req)
      obtain ⟨other, -, rfl⟩ := refines.emits e mem
      cases returns
    | failJob clock jittered req => exact .inr (.inr (stands.failureUnder mem returns))
    | _ => cases reports
  · exact (stands.or_gone fun e mem returns => returned ⟨e, mem, returns⟩).imp_right .inl

/-- **What an operation does to a running claim.** -/
theorem Running.next (stands : Running ext service run c row expiry) (op : Op) :
    (∃ row expiry, Running ext service (run ++ [op]) c row expiry) ∨
      (dbAfter ext service (run ++ [op])).jobs.find? c.1 = none ∨
      RanOut ext service (run ++ [op]) c ∨ FailureUnder (run ++ [op]) c := by
  by_cases early : ∀ clock n, op = .recoverExpired clock n → clock 0 < expiry
  · rcases stands.holding.step early with
      holding | ⟨reports, -⟩ | ⟨clock, jittered, req, -, -, -, rfl, -⟩
    · exact .inl (Holding.running holding stands.2.2)
    · exact (stands.reported reports).imp_right (Or.imp_right .inr)
    · exact (stands.reported rfl).imp_right (Or.imp_right .inr)
  · -- a recovery whose clock has reached the lease takes the job or leaves it
    obtain ⟨clock, n, rfl, late⟩ : ∃ clock n, op = .recoverExpired clock n ∧ expiry ≤ clock 0 := by
      simpa using early
    by_cases left_ : (dbAfter ext service (run ++ [.recoverExpired clock n])).jobs.find? c.1 =
        some row
    · exact .inl (Holding.running ⟨row, left_, stands.2.1.holds⟩ stands.2.2)
    · exact .inr (.inr (.inl ⟨run, clock, n, [], row, expiry, rfl, stands, late, left_⟩))

/-! ## Whole runs -/

theorem RanOut.concat (taken : RanOut ext service run c) : RanOut ext service (run ++ [op]) c := by
  obtain ⟨earlier, clock, n, later, row, expiry, rfl, rest⟩ := taken
  exact ⟨earlier, clock, n, later ++ [op], row, expiry, by simp, rest⟩

theorem FailureUnder.concat (reported : FailureUnder run c) : FailureUnder (run ++ [op]) c := by
  obtain ⟨clock, jittered, req, mem, rest⟩ := reported
  exact ⟨clock, jittered, req, List.mem_append_left _ mem, rest⟩

/-- A claim is issued with its lease. -/
theorem issued_holding (mem : c ∈ claims ext service (run ++ [op])) :
    c ∈ claims ext service run ∨
      ∃ lease, Holding (dbAfter ext service (run ++ [op])).jobs.find? c lease := by
  refine (mem_told_concat mem).imp_right ?_
  rintro ⟨reply, replied, new⟩
  -- only the answer to a poll shows a claim
  cases op with
  | getNextJob clock req =>
    cases reply with
    | claimed job =>
      cases job with
      | none => cases new
      | some job =>
        have here := List.mem_singleton.mp new
        refine ⟨job.leaseExpiresAtMs, (Holding.of_told replied ?_).1⟩
        rw [leasesTold, if_pos here.symm]
        exact List.mem_singleton.mpr rfl
    | _ => cases new
  | _ => cases reply <;> cases new

variable (ext service) in
/-- Leases are told to those who hold a claim. -/
theorem issued_of_told (run : List Op) {lease : ℤ}
    (mem : lease ∈ told ext service (leasesTold c) run) : c ∈ claims ext service run := by
  induction run using List.reverseRecOn with
  | nil => cases mem
  | append_singleton run op ih =>
    rcases mem_leasesTold mem with old | holding
    · rw [claims, told_concat]
      exact List.mem_append_left _ (ih old)
    · exact mem_of_latestClaim holding.latest.1

/-- The last claim of a job that is gone stays the last. -/
theorem LastClaim.concat (last : LastClaim ext service run c)
    (gone : (dbAfter ext service (run ++ [op])).jobs.find? c.1 = none) :
    LastClaim ext service (run ++ [op]) c := by
  intro c' mem same
  rcases issued_holding mem with old | ⟨lease, row, live, -⟩
  · exact last c' old same
  · rw [same, gone] at live
    cases live

/-- No claim is later than the running one. -/
theorem Running.last (stands : Running ext service run c row expiry) :
    LastClaim ext service run c := by
  intro c' mem same
  rw [claims_eq] at mem
  have live := stands.1
  rw [← same] at live
  have bound := (fenced_after ext service run).issuedBound mem live
  rwa [stands.2.1.attempt] at bound

variable (ext service) in
/-- **Every claim has a fate.** -/
theorem fate_of_claim (run : List Op) (issued : c ∈ claims ext service run) :
    Fate ext service run c := by
  induction run using List.reverseRecOn with
  | nil => cases issued
  | append_singleton run op ih =>
    by_cases old : c ∈ claims ext service run
    · cases ih old with
      | running stands =>
        rcases stands.next op with ⟨row, expiry, still⟩ | gone | taken | reported
        · exact .running still
        · exact .gone gone (stands.last.concat gone)
        · exact .ranOut taken
        · exact .failed reported
      | gone absent last =>
        -- an id that was handed out is never drawn again
        have drawn := (fenced_after ext service run).issuedDrawn
          (claims_eq ext service run ▸ old)
        have gone := Ledger.Sound.gone_of_chain (next_chain ext service run op) drawn absent
        exact .gone gone (last.concat gone)
      | ranOut taken => exact .ranOut taken.concat
      | failed reported => exact .failed reported.concat
    · obtain ⟨lease, holding⟩ := (issued_holding issued).resolve_left old
      obtain ⟨row, expiry, stands⟩ := Holding.running holding fun earlier mem =>
        absurd (issued_of_told ext service run mem) old
      exact .running stands

/-- **A claim that another followed has ended**: its lease ran out, or a failure was reported
under it. -/
theorem ended_of_later_claim {c' : ClaimRecord} (issued : c ∈ claims ext service run)
    (later : c' ∈ claims ext service run) (same : c'.1 = c.1) (lt : c.2.1 < c'.2.1) :
    RanOut ext service run c ∨ FailureUnder run c := by
  cases fate_of_claim ext service run issued with
  | running stands => exact absurd (stands.last c' later same) (Nat.not_le.mpr lt)
  | gone _ last => exact absurd (last c' later same) (Nat.not_le.mpr lt)
  | ranOut taken => exact .inl taken
  | failed reported => exact .inr reported

/-- The attempts of the claims count from one. -/
theorem attempt_pos (issued : c ∈ claims ext service run) : 1 ≤ c.2.1 := by
  rw [claims_eq] at issued
  obtain ⟨e, -, claim⟩ := List.mem_filterMap.mp issued
  obtain ⟨row, workerId, now, lease, -, rfl⟩ := Event.claimed_of_claim claim
  exact Nat.le_add_left 1 row.attempts

/-! ## Completions -/

variable (ext service) in
/-- The job of the claim was archived as completed under it, at some time of the run. -/
def CompletedFor (run : List Op) (c : ClaimRecord) : Prop :=
  ∃ earlier, earlier <+: run ∧ ∃ entry,
    (dbAfter ext service earlier).jobHistory.find? c.1 = some entry ∧ Replays entry c.2.2 c.2.1

theorem CompletedFor.mono {more : List Op} (completed : CompletedFor ext service run c)
    (grows : run <+: more) : CompletedFor ext service more c := by
  obtain ⟨earlier, le, recorded⟩ := completed
  exact ⟨earlier, le.trans grows, recorded⟩

/-- A job is archived under one attempt. -/
theorem archived_attempt {earlier later : List Op} (le : earlier <+: later) {j : JobId}
    {entry entry' : HistoryRow}
    (first : (dbAfter ext service earlier).jobHistory.find? j = some entry)
    (second : (dbAfter ext service later).jobHistory.find? j = some entry') : entry' = entry := by
  obtain ⟨more, rfl⟩ := le
  obtain ⟨events, -, chain⟩ := history_append ext service earlier more
  have sound := sound_after ext service earlier
  rcases Ledger.Sound.archived_or_erased_of_chain chain (sound.historyDrawn first)
    (sound.not_live first) with same | erased
  · exact Option.some.inj (second.symm.trans (same.trans first))
  · cases second.symm.trans erased

theorem CompletedFor.unique {c' : ClaimRecord} (first : CompletedFor ext service run c)
    (second : CompletedFor ext service run c') (same : c'.1 = c.1) :
    max c'.2.1 1 = max c.2.1 1 := by
  obtain ⟨earlier, le, entry, found, replays⟩ := first
  obtain ⟨earlier', le', entry', found', replays'⟩ := second
  rw [same] at found'
  rw [← replays.attempt, ← replays'.attempt]
  rcases List.prefix_or_prefix_of_prefix le le' with before | after
  · rw [archived_attempt before found found']
  · rw [archived_attempt after found' found]

/-- A completion that was answered is on record. -/
theorem completedFor_of_reply {clock : Clock} {req : CompleteJobRequest}
    (replied : replyTo ext service run (.completeJob clock req) = some .completed) :
    CompletedFor ext service (run ++ [.completeJob clock req])
      (req.id, req.attempt, req.workerId) := by
  have acks : (Op.completeJob clock req).acknowledgment =
    some ⟨req.id, req.workerId, req.attempt, clock 0⟩ := rfl
  rcases @acknowledgment_cases ext service run _ _ acks with
    refused | replays | ⟨-, row, live, -⟩
  · cases replied.symm.trans refused.1
  · obtain ⟨entry, found, same⟩ := replays.recorded
    exact ⟨run, List.prefix_append _ _, entry, found, same⟩
  · obtain ⟨row', live', accepts, step⟩ :=
      completed_step replied (Table.has_iff_find?.mpr ⟨row, live⟩)
    have archived := Ledger.Sound.archived step rfl
    rw [Table.key_of_find? live'] at archived
    exact ⟨_, List.prefix_rfl, _, archived, rfl, accepts.owner, accepts.attempt⟩

/-- A completion was reported by the holder of the job. -/
theorem completion_of_event {row : JobRow} {entry : HistoryRow} {parent : Option JobRow}
    {now updatedAt : ℤ} {n : ℕ}
    (mem : .completed row entry parent now updatedAt n ∈ history ext service run) :
    ∃ clock req, .completeJob clock req ∈ run ∧ req.id = row.id ∧
      entry.workerId = some req.workerId ∧ entry.attempts = max req.attempt 1 := by
  induction run using List.reverseRecOn with
  | nil => cases mem
  | append_singleton run op ih =>
    rw [history_concat, List.mem_append] at mem
    rcases mem with old | here
    · obtain ⟨clock, req, before, rest⟩ := ih old
      exact ⟨clock, req, List.mem_append_left _ before, rest⟩
    · obtain ⟨slot, refines⟩ := eventsOf_refines ext service run op
      have emits := refines.emits _ (by simpa using here)
      obtain ⟨clock, req, rfl, -⟩ := emits.completed
      obtain ⟨other, ⟨live, accepts⟩, same⟩ := emits
      cases same
      exact ⟨clock, req, List.mem_append_right _ (List.mem_singleton.mpr rfl),
        (Table.key_of_find? live).symm, accepts.owner, accepts.attempt⟩

variable (ext service) in
/-- **Every completed job was reported by its holder.** -/
theorem completion_of_archived (run : List Op) {j : JobId} {entry : HistoryRow}
    (found : (dbAfter ext service run).jobHistory.find? j = some entry)
    (completed : entry.state = .completed) :
    ∃ clock req, .completeJob clock req ∈ run ∧ req.id = j ∧
      entry.workerId = some req.workerId ∧ entry.attempts = max req.attempt 1 := by
  have chronicled : Chronicled (history ext service run)
      ((dbAfter ext service run).ledger run.length 0) :=
    history_invariant .empty Chronicled.step run
  obtain ⟨e, mem, row, retires, rfl, -⟩ := chronicled j entry found
  obtain ⟨t, t', step⟩ := (history_chain ext service run).step_of_mem mem
  obtain ⟨parent, now, updatedAt, n, rfl⟩ := step.completed_of_retires retires completed
  exact completion_of_event mem

end Runs

end AnvilMQ
