import AnvilMQ.Ledger.Ticks
import AnvilMQ.Transition.Backlog

/-!
# Failing schedulers

Each scheduler fires in a transaction of its own, so one that fails does not roll back
the others of its batch.  It is not moved either: `next_run_at` stays in the past, and
the next tick, which takes the first `batch_size` records by `next_run_at`, meets it
again.  The due records are a backlog whose failures collect at the head.

A tick is a batch of that backlog (`dueSchedulers_tick`).  With a fixed set of failing
schedulers, a due record that could fire therefore does so within as many ticks as
there are due records exactly when fewer than `batch_size` failing ones are ahead of
it.
-/

namespace AnvilMQ

open Rust Relational

/-! ## Repeated ticks -/

section Statement

variable (ext : Externals) (service : Service) (t : ℕ) (now : ℤ) (batchSize : ℕ) (db : Db)

/-- The database after `n` ticks at `now`, the first of them the `t`-th operation. -/
def ticked : ℕ → Db
  | 0 => db
  | n + 1 => (runOnce ext service (t + n) (fun _ => now) (ticked n) batchSize).2.1

/-- The attempts of the `n`-th of the ticks. -/
def tickAttempts (n : ℕ) : List Attempt :=
  let db := ticked ext service t now batchSize db n
  attempts ext service (t + n) (fun _ => now) 0 db (selectDueSchedulers db now batchSize)

/-- In the first `n` ticks exactly the fires of the schedulers in `failing` fail. -/
def FailExactly (failing : String → Bool) (n : ℕ) : Prop :=
  ∀ m < n, ∀ a ∈ tickAttempts ext service t now batchSize db m,
    a.succeeded = !failing a.record.id

/-- One of the first `n` ticks fires the scheduler. -/
def FiredWithin (n : ℕ) (id : String) : Prop :=
  ∃ m < n, ∃ a ∈ tickAttempts ext service t now batchSize db m,
    a.record.id = id ∧ a.succeeded = true

/-- **A failing scheduler never blocks the others**: as many ticks as there are due
records fire every one of them that does not fail. -/
def NeverBlocked (failing : String → Bool) : Prop :=
  ∀ row ∈ dueSchedulers db now, failing row.id = false →
    FiredWithin ext service t now batchSize db (dueSchedulers db now).length row.id

instance (failing : String → Bool) (n : ℕ) :
    Decidable (FailExactly ext service t now batchSize db failing n) :=
  inferInstanceAs (Decidable (∀ m < n, ∀ a ∈ tickAttempts ext service t now batchSize db m,
    a.succeeded = !failing a.record.id))

instance (n : ℕ) (id : String) : Decidable (FiredWithin ext service t now batchSize db n id) :=
  inferInstanceAs (Decidable (∃ m < n, ∃ a ∈ tickAttempts ext service t now batchSize db m,
    a.record.id = id ∧ a.succeeded = true))

end Statement

/-! ## A tick is a batch of the backlog -/

section Batch

variable {ext : Externals} {service : Service} {t : ℕ} {now : ℤ} {batchSize : ℕ} {db : Db}
  {failing : String → Bool} {row : JobSchedulerRow} {a : Attempt}

/-- A record that was fired is not due any more. -/
theorem not_due_of_fired (cron : CronAdvances ext)
    (mem : a ∈ attempts ext service t (fun _ => now) 0 db (selectDueSchedulers db now batchSize))
    (succeeded : a.succeeded = true) (own : a.record.id = row.id) :
    row ∉ dueSchedulers (runOnce ext service t (fun _ => now) db batchSize).2.1 now := by
  intro due
  obtain ⟨stored, next, waits, passed⟩ := mem_dueSchedulers.mp due
  obtain ⟨job, later, found, advanced⟩ :=
    find?_fireAll_of_fired stored_of_selectDue selectDue_nodup mem succeeded
  obtain ⟨-, -, ⟨j, time⟩, -⟩ := attempts_spec stored_of_selectDue selectDue_nodup mem
  rw [own] at advanced
  cases advanced.symm.trans stored
  cases waits
  have future := cron found
  rw [time] at future
  exact absurd future (not_lt.mpr passed)

/-- A record that was not fired is due as before. -/
theorem due_iff_of_unfired
    (unfired : ∀ a ∈ attempts ext service t (fun _ => now) 0 db
      (selectDueSchedulers db now batchSize), a.record.id = row.id → a.succeeded = false) :
    row ∈ dueSchedulers (runOnce ext service t (fun _ => now) db batchSize).2.1 now ↔
      row ∈ dueSchedulers db now := by
  have kept := find?_fireAll_of_unfired stored_of_selectDue selectDue_nodup unfired
  rw [mem_dueSchedulers, mem_dueSchedulers]
  unfold runOnce
  rw [kept]

theorem exists_attempt (ext : Externals) (service : Service) (t : ℕ)
    (selected : row ∈ selectDueSchedulers db now batchSize) :
    ∃ a ∈ attempts ext service t (fun _ => now) 0 db (selectDueSchedulers db now batchSize),
      a.record = row := by
  rw [← List.mem_map, attempts_record]
  exact selected

/-- A record behind the batch has not the id of one in it. -/
theorem ne_of_mem_drop {other : JobSchedulerRow}
    (selected : other ∈ selectDueSchedulers db now batchSize)
    (behind : row ∈ (dueSchedulers db now).drop batchSize) : other.id ≠ row.id := by
  intro same
  have nodup : (dueSchedulers db now).Nodup := List.Nodup.of_map _ dueSchedulers_nodup
  have one : other = row :=
    eq_of_due (due_of_selected selected) (List.mem_of_mem_drop behind) same
  exact List.disjoint_take_drop nodup (Nat.le_refl batchSize) selected (one ▸ behind)

/-- **A tick is a batch of the backlog**: it leaves due the records that failed and
those it did not reach, in the same order. -/
theorem dueSchedulers_tick (cron : CronAdvances ext)
    (outcome : ∀ a ∈ attempts ext service t (fun _ => now) 0 db
      (selectDueSchedulers db now batchSize), a.succeeded = !failing a.record.id) :
    dueSchedulers (runOnce ext service t (fun _ => now) db batchSize).2.1 now =
      Backlog.advance (fun row => failing row.id) batchSize (dueSchedulers db now) := by
  have sub : (Backlog.advance (fun row : JobSchedulerRow => failing row.id) batchSize
      (dueSchedulers db now)).Sublist (dueSchedulers db now) := Backlog.advance_sublist
  refine dueSchedulers_eq (dueSchedulers_sorted.sublist sub)
    ((List.Nodup.of_map _ dueSchedulers_nodup).sublist sub) fun row => ?_
  constructor
  · intro due
    have unfired : ∀ a ∈ attempts ext service t (fun _ => now) 0 db
        (selectDueSchedulers db now batchSize), a.record.id = row.id → a.succeeded = false := by
      intro a mem own
      refine Bool.eq_false_iff.mpr fun succeeded => ?_
      exact not_due_of_fired cron mem succeeded own due
    have before := (due_iff_of_unfired unfired).mp due
    rw [← List.take_append_drop batchSize (dueSchedulers db now)] at before
    unfold Backlog.advance
    refine List.mem_append.mpr ((List.mem_append.mp before).imp_left fun selected => ?_)
    -- it was attempted and did not succeed, so it is one of those that fail
    obtain ⟨a, mem, rfl⟩ := exists_attempt ext service t selected
    have failed := unfired a mem rfl
    rw [outcome a mem, Bool.not_eq_false'] at failed
    exact List.mem_filter.mpr ⟨selected, failed⟩
  · intro left
    refine (due_iff_of_unfired fun a mem own => ?_).mpr (sub.subset left)
    have selected := (attempts_spec stored_of_selectDue selectDue_nodup mem).1
    rcases List.mem_append.mp left with failed | behind
    · have fails : failing row.id = true := (List.mem_filter.mp failed).2
      rw [outcome a mem, own, fails]
      rfl
    · exact absurd own (ne_of_mem_drop selected behind)

/-- Ticks are batches of the backlog. -/
theorem dueSchedulers_ticked (cron : CronAdvances ext) {n : ℕ}
    (outcome : FailExactly ext service t now batchSize db failing n) :
    dueSchedulers (ticked ext service t now batchSize db n) now =
      (Backlog.advance (fun row => failing row.id) batchSize)^[n] (dueSchedulers db now) := by
  induction n with
  | zero => rfl
  | succ n ih =>
    rw [Function.iterate_succ_apply', ← ih fun m lt => outcome m (Nat.lt_succ_of_lt lt)]
    exact dueSchedulers_tick cron (outcome n (Nat.lt_succ_self n))

/-- A record that does not fail is fired when a batch takes it. -/
theorem firedWithin_iff (cron : CronAdvances ext) {n : ℕ}
    (outcome : FailExactly ext service t now batchSize db failing n)
    (due : row ∈ dueSchedulers db now) (able : failing row.id = false) :
    FiredWithin ext service t now batchSize db n row.id ↔
      ∃ m < n, row ∈ ((Backlog.advance (fun row => failing row.id) batchSize)^[m]
        (dueSchedulers db now)).take batchSize := by
  unfold FiredWithin
  refine exists_congr fun m => and_congr_right fun lt => ?_
  have earlier : FailExactly ext service t now batchSize db failing m :=
    fun k below => outcome k (below.trans lt)
  have backlog := dueSchedulers_ticked cron earlier
  rw [← backlog, ← selectDueSchedulers_eq]
  constructor
  · rintro ⟨a, mem, own, -⟩
    have selected := (attempts_spec stored_of_selectDue selectDue_nodup mem).1
    have still := due_of_selected selected
    rw [backlog] at still
    rwa [← eq_of_due ((Backlog.iterate_advance_sublist m).subset still) due own]
  · intro selected
    obtain ⟨a, mem, rfl⟩ := exists_attempt ext service (t + m) selected
    refine ⟨a, mem, rfl, ?_⟩
    rw [outcome m lt a mem, able]
    rfl

end Batch

/-- **A failing scheduler blocks the others exactly when it can fill the batches.**  For
every table, time and batch size, and every fixed set of failing schedulers: as many
ticks as there are due records fire each of them that does not fail iff fewer than
`batchSize` failing ones are ahead of each in the order of the ticks. -/
theorem never_blocked_iff (ext : Externals) (service : Service) (cron : CronAdvances ext) (t : ℕ)
    (now : ℤ) (batchSize : ℕ) (db : Db) (failing : String → Bool)
    (outcome : FailExactly ext service t now batchSize db failing (dueSchedulers db now).length) :
    NeverBlocked ext service t now batchSize db failing ↔
      ∀ before row after, dueSchedulers db now = before ++ row :: after →
        failing row.id = false →
        (before.filter fun other => failing other.id).length < batchSize := by
  have nodup : (dueSchedulers db now).Nodup := List.Nodup.of_map _ dueSchedulers_nodup
  have each : ∀ before row after, dueSchedulers db now = before ++ row :: after →
      failing row.id = false →
      (FiredWithin ext service t now batchSize db (dueSchedulers db now).length row.id ↔
        (before.filter fun other => failing other.id).length < batchSize) := by
    intro before row after split able
    have due : row ∈ dueSchedulers db now := split ▸ List.mem_append_right _ List.mem_cons_self
    have fresh : row ∉ before := by
      rw [split] at nodup
      exact fun mem => List.disjoint_of_nodup_append nodup mem List.mem_cons_self
    rw [firedWithin_iff cron outcome due able, split]
    exact Backlog.taken_iff fresh
  constructor
  · intro fires before row after split able
    have due : row ∈ dueSchedulers db now := split ▸ List.mem_append_right _ List.mem_cons_self
    exact (each before row after split able).mp (fires row due able)
  · intro few row due able
    obtain ⟨before, after, split⟩ := List.append_of_mem due
    exact (each before row after split able).mpr (few before row after split able)

/-! ## A failing record at the head -/

section Samples

/-- Two schedulers due at the same time, of which the first has its facet paused. -/
def blockedDb : Db := dbAfter .unary {} [schedule "r" "f", schedule "s" "", pauseFacet]

/-- Every tick with a batch of one takes `r`, which fails; `s` is never attempted. -/
theorem failing_head_blocks :
    FailExactly .unary {} 3 60000 1 blockedDb (· == "r") (dueSchedulers blockedDb 60000).length ∧
      ¬ NeverBlocked .unary {} 3 60000 1 blockedDb (· == "r") := by
  refine ⟨by decide +kernel, fun fires => ?_⟩
  have waits : ∃ row ∈ dueSchedulers blockedDb 60000, row.id = "s" := by decide +kernel
  have unfired : ¬ FiredWithin .unary {} 3 60000 1 blockedDb
      (dueSchedulers blockedDb 60000).length "s" := by decide +kernel
  obtain ⟨row, due, named⟩ := waits
  exact unfired (named ▸ fires row due (by rw [named]; rfl))

/-- A batch of two reaches past `r`. -/
theorem wider_batch_passes :
    NeverBlocked .unary {} 3 60000 2 blockedDb (· == "r") := by
  refine (never_blocked_iff .unary {} unary_cronAdvances 3 60000 2 blockedDb (· == "r")
    (by decide +kernel)).mpr fun before row after split _ => ?_
  have two : (dueSchedulers blockedDb 60000).length = 2 := by decide +kernel
  have shorter := List.length_filter_le (fun other : JobSchedulerRow => other.id == "r") before
  rw [split, List.length_append, List.length_cons] at two
  omega

end Samples

end AnvilMQ
