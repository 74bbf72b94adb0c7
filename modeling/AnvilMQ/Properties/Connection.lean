import AnvilMQ.Client.Connection
import Mathlib.Data.List.DropRight

/-!
# The connection events follow the failure streaks

A worker counts the failures of its polls in a row.  When the count reaches the threshold it
declares the connection lost, and the next success declares it restored.

The run of failures that is going on is a function of the polls alone (`lastRun`), and the three
counters and the flag of the worker are functions of its length (`Contact.Inv`).  What a poll
emits is read off from there.
-/

namespace AnvilMQ.Client

open Transition

/-! ## The property -/

/-- The poll failed. -/
def Poll.isFailure : Poll → Bool
  | succeeded _ => false
  | failed _ _ => true

/-- No failure comes last. -/
def EndsWell (polls : List Poll) : Prop := ∀ poll ∈ polls.getLast?, poll.isFailure = false

/-- The contact of a worker after a sequence of polls, and what it has emitted. -/
def watchAfter (threshold : ℕ) (polls : List Poll) : Watch :=
  after (Watch.onPoll threshold) {} polls

/-- What a poll emits after others. -/
def emittedBy (threshold : ℕ) (before : List Poll) (poll : Poll) : List ConnectionEvent :=
  ((watchAfter threshold before).contact.onPoll threshold poll).2

/-- The event says that the connection is lost. -/
def ConnectionEvent.isLost : ConnectionEvent → Bool
  | lost _ _ => true
  | restored _ _ => false

/-- **The guarantee for a sequence of polls**: `watch` is what the worker has come to, and
`threshold` its `connectionLostThreshold`. -/
structure FollowsStreaks (threshold : ℕ) (polls : List Poll) (watch : Watch) : Prop where
  /-- In a run of failures the one that reaches the threshold is announced, and no other. -/
  lost : ∀ before run now error rest, polls = before ++ run ++ .failed now error :: rest →
    EndsWell before → (∀ poll ∈ run, poll.isFailure) →
    emittedBy threshold (before ++ run) (.failed now error) =
      if run.length + 1 = threshold then [.lost error threshold] else []
  /-- The success that ends a run of failures is announced if the run has reached the threshold,
  with the length of the run and the time since the loss was announced. -/
  restored : ∀ before run now rest, polls = before ++ run ++ .succeeded now :: rest →
    EndsWell before → (∀ poll ∈ run, poll.isFailure) →
    if threshold ≤ run.length then
      ∃ lostAt error, run[threshold - 1]? = some (.failed lostAt error) ∧
        emittedBy threshold (before ++ run) (.succeeded now) =
          [.restored (now - lostAt) run.length]
    else emittedBy threshold (before ++ run) (.succeeded now) = []
  /-- What has been emitted is what the polls have emitted, in their order. -/
  all : watch.emitted = collect (emittedBy threshold) [] polls
  /-- The announcements alternate, and the first one is a loss. -/
  alternate : ∀ i event, watch.emitted[i]? = some event → (event.isLost = true ↔ i % 2 = 0)
  /-- The worker is disconnected from a loss to the next restoration. -/
  connected : watch.contact.connected = false ↔
    ∃ event ∈ watch.emitted.getLast?, event.isLost = true
  /-- The restorations are counted. -/
  reconnects : watch.contact.reconnectsTotal =
    watch.emitted.countP fun event => !event.isLost

/-! ## Runs of failures -/

/-- The failures a sequence of polls ends with. -/
def lastRun (polls : List Poll) : List Poll := polls.rtakeWhile Poll.isFailure

theorem lastRun_concat_failed (polls : List Poll) (now : ℤ) (error : Thrown) :
    lastRun (polls ++ [.failed now error]) = lastRun polls ++ [.failed now error] :=
  List.rtakeWhile_concat_pos _ _ _ rfl

theorem lastRun_concat_succeeded (polls : List Poll) (now : ℤ) :
    lastRun (polls ++ [.succeeded now]) = [] :=
  List.rtakeWhile_concat_neg _ _ _ Bool.false_ne_true

/-- A run of failures after a success, or from the start, is the last one. -/
theorem lastRun_append {before run : List Poll} (well : EndsWell before)
    (failures : ∀ poll ∈ run, poll.isFailure) : lastRun (before ++ run) = run := by
  induction run using List.reverseRecOn with
  | nil =>
    rw [List.append_nil]
    cases last : before.getLast? with
    | none =>
      rw [List.getLast?_eq_none_iff.mp last]
      rfl
    | some poll =>
      obtain ⟨earlier, rfl⟩ := List.getLast?_eq_some_iff.mp last
      exact List.rtakeWhile_concat_neg _ _ _ (by simp [well poll last])
  | append_singleton run poll ih =>
    rw [← List.append_assoc, lastRun, List.rtakeWhile_concat_pos _ _ _ (failures poll (by simp))]
    rw [← lastRun, ih fun poll mem => failures poll (List.mem_append_left _ mem)]

/-! ## The invariant -/

/-- What a worker knows about its connection after a run of failures. -/
structure Contact.Inv (threshold : ℕ) (contact : Contact) (run : List Poll) : Prop where
  counted : contact.consecutiveFailures = run.length
  connected : contact.connected = decide (run.length < threshold)
  down : threshold ≤ run.length → contact.failuresWhileDown = run.length
  since : threshold ≤ run.length →
    ∃ error, run[threshold - 1]? = some (.failed contact.lostSince error)

section

variable {threshold : ℕ} {contact : Contact} {run : List Poll} {watch : Watch}

/-- No failure is counted against a connection that is up. -/
theorem Contact.Inv.of_up (positive : 1 ≤ threshold) (counted : contact.consecutiveFailures = 0)
    (up : contact.connected = true) : contact.Inv threshold [] where
  counted := counted
  connected := up.trans (decide_eq_true positive).symm
  down := fun reached => absurd positive (not_le.mpr (Nat.lt_succ_of_le reached))
  since := fun reached => absurd positive (not_le.mpr (Nat.lt_succ_of_le reached))

/-- What a failure emits. -/
theorem Contact.Inv.emits_failed (inv : contact.Inv threshold run) (now : ℤ) (error : Thrown) :
    (contact.onPollFailure threshold now error).2 =
      if run.length + 1 = threshold then [.lost error threshold] else [] := by
  rw [Contact.onPollFailure, inv.connected, inv.counted]
  by_cases up : run.length < threshold
  · simp only [up, decide_true, if_true]
    by_cases reached : threshold ≤ run.length + 1
    · obtain rfl : run.length + 1 = threshold := by omega
      simp
    · rw [if_neg reached, if_neg (by omega)]
  · rw [if_neg (by omega : ¬ run.length + 1 = threshold)]
    simp [up]

/-- What a success emits. -/
theorem Contact.Inv.emits_succeeded (inv : contact.Inv threshold run) (now : ℤ) :
    (contact.onPollSuccess now).2 =
      if threshold ≤ run.length then [.restored (now - contact.lostSince) run.length] else [] := by
  rw [Contact.onPollSuccess, inv.connected]
  by_cases reached : threshold ≤ run.length
  · have up : ¬ run.length < threshold := not_lt.mpr reached
    simp [reached, up, inv.down reached]
  · simp [reached, not_le.mp reached]

/-- A failed poll keeps the contact in step with the streak. -/
theorem Contact.Inv.failed (inv : contact.Inv threshold run) (now : ℤ) (error : Thrown) :
    (contact.onPollFailure threshold now error).1.Inv threshold (run ++ [.failed now error]) := by
  rw [Contact.onPollFailure, inv.connected, inv.counted]
  by_cases up : run.length < threshold
  · by_cases reached : threshold ≤ run.length + 1
    · -- the failure that reaches the threshold
      obtain rfl : run.length + 1 = threshold := by omega
      simp only [up, decide_true, if_true, le_refl]
      exact
        { counted := by simp
          connected := by simp
          down := fun _ => by simp
          since := fun _ => ⟨error, by simp⟩ }
    · simp only [up, decide_true, if_true, if_neg reached]
      exact
        { counted := by simp
          connected := by simp [not_le.mp reached]
          down := fun down => absurd down (by simpa using reached)
          since := fun down => absurd down (by simpa using reached) }
  · -- the loss was announced before, and its failure stays where it is in the run
    have reached : threshold ≤ run.length := not_lt.mp up
    obtain ⟨first, lost⟩ := inv.since reached
    simp only [up, decide_false, Bool.false_eq_true, if_false]
    exact
      { counted := by simp
        connected := by simp [reached.trans (Nat.le_succ _)]
        down := fun _ => by simp [inv.down reached]
        since := fun _ => ⟨first, by
          rw [List.getElem?_append_left (List.getElem?_eq_some_iff.mp lost).1, lost]⟩ }

theorem Contact.Inv.succeeded (positive : 1 ≤ threshold) (contact : Contact) (now : ℤ) :
    (contact.onPollSuccess now).1.Inv threshold [] := by
  rw [Contact.onPollSuccess]
  split
  · rename_i up
    exact .of_up positive rfl up
  · exact .of_up positive rfl rfl

/-- What a poll does to the flag and to the count of restorations. -/
inductive Announces (contact : Contact) : Contact × List ConnectionEvent → Prop
  | nothing {contact'} (same : contact'.connected = contact.connected)
      (total : contact'.reconnectsTotal = contact.reconnectsTotal) :
      Announces contact (contact', [])
  | loss {contact' event} (isLost : event.isLost = true) (up : contact.connected = true)
      (down : contact'.connected = false)
      (total : contact'.reconnectsTotal = contact.reconnectsTotal) :
      Announces contact (contact', [event])
  | restoration {contact' event} (isLost : event.isLost = false) (down : contact.connected = false)
      (up : contact'.connected = true)
      (total : contact'.reconnectsTotal = contact.reconnectsTotal + 1) :
      Announces contact (contact', [event])

/-- A poll announces a change of the connection and nothing else. -/
theorem Contact.announces (contact : Contact) (threshold : ℕ) (poll : Poll) :
    Announces contact (contact.onPoll threshold poll) := by
  cases poll with
  | succeeded now =>
    show Announces contact (contact.onPollSuccess now)
    rw [Contact.onPollSuccess]
    split
    · exact .nothing rfl rfl
    · rename_i down
      exact .restoration rfl (Bool.eq_false_iff.mpr down) rfl rfl
  | failed now error =>
    show Announces contact (contact.onPollFailure threshold now error)
    rw [Contact.onPollFailure]
    split
    · rename_i up
      split
      · exact .loss rfl up rfl rfl
      · exact .nothing rfl rfl
    · exact .nothing rfl rfl

/-- Announcements alternate, and the first one is a loss. -/
def Alternates (events : List ConnectionEvent) : Prop :=
  ∀ i event, events[i]? = some event → (event.isLost = true ↔ i % 2 = 0)

theorem Alternates.concat {events : List ConnectionEvent} {event : ConnectionEvent}
    (alternates : Alternates events) (next : event.isLost = true ↔ events.length % 2 = 0) :
    Alternates (events ++ [event]) := by
  intro i other found
  rw [List.getElem?_append] at found
  split at found
  · exact alternates i other found
  · obtain ⟨last, rfl⟩ : i - events.length = 0 ∧ event = other := by
      simpa [List.getElem?_singleton] using found
    obtain rfl : i = events.length := by omega
    exact next

/-- What holds of the announcements of a worker. -/
structure Watch.Inv (watch : Watch) : Prop where
  parity : watch.contact.connected = true ↔ watch.emitted.length % 2 = 0
  alternates : Alternates watch.emitted
  reconnects : watch.contact.reconnectsTotal = watch.emitted.countP fun event => !event.isLost

theorem Watch.Inv.start : Watch.Inv {} where
  parity := by decide
  alternates := fun i event found => by simp at found
  reconnects := rfl

/-- **A poll keeps the watch in step.** -/
theorem Watch.Inv.onPoll (inv : watch.Inv) (threshold : ℕ) (poll : Poll) :
    (watch.onPoll threshold poll).Inv := by
  have announces := watch.contact.announces threshold poll
  rw [Watch.onPoll]
  generalize watch.contact.onPoll threshold poll = outcome at announces
  obtain ⟨parity, alternates, reconnects⟩ := inv
  cases announces with
  | nothing same total =>
    rw [List.append_nil]
    exact ⟨by rw [same, parity], alternates, total.trans reconnects⟩
  | loss isLost up down total =>
    have even := parity.mp up
    refine ⟨?_, alternates.concat (iff_of_true isLost even), ?_⟩
    · rw [down, List.length_append, List.length_singleton]
      simp only [Bool.false_eq_true, false_iff]
      omega
    · rw [total, reconnects, List.countP_append, List.countP_singleton, isLost]
      rfl
  | restoration isLost down up total =>
    have odd : ¬ watch.emitted.length % 2 = 0 := by
      rw [← parity, down]
      exact Bool.false_ne_true
    refine ⟨?_, alternates.concat (iff_of_false (by simp [isLost]) odd), ?_⟩
    · rw [up, List.length_append, List.length_singleton]
      simp only [true_iff]
      omega
    · rw [total, reconnects, List.countP_append, List.countP_singleton, isLost]
      rfl

/-- A worker is disconnected while the last announcement is a loss. -/
theorem Watch.Inv.connected (inv : watch.Inv) :
    watch.contact.connected = false ↔ ∃ event ∈ watch.emitted.getLast?, event.isLost = true := by
  rw [← Bool.not_eq_true, inv.parity]
  cases last : watch.emitted.getLast? with
  | none => simp [List.getLast?_eq_none_iff.mp last]
  | some event =>
    have found := last
    rw [List.getLast?_eq_getElem?] at found
    have position := inv.alternates _ event found
    have nonempty : watch.emitted ≠ [] := by
      rintro silent
      rw [silent] at last
      cases last
    have positive := List.length_pos_iff.mpr nonempty
    -- the last position is even exactly if the number of events is odd
    simp only [Option.mem_some_iff, exists_eq_left', position]
    omega

/-! ## Runs -/

theorem watchAfter_concat (threshold : ℕ) (polls : List Poll) (poll : Poll) :
    watchAfter threshold (polls ++ [poll]) = (watchAfter threshold polls).onPoll threshold poll :=
  after_concat ..

theorem watchAfter_inv (threshold : ℕ) (polls : List Poll) : (watchAfter threshold polls).Inv :=
  after_preserves (fun _ poll inv => inv.onPoll threshold poll) .start polls

/-- The counters are functions of the run of failures that is going on. -/
theorem contactAfter_inv (positive : 1 ≤ threshold) (polls : List Poll) :
    (watchAfter threshold polls).contact.Inv threshold (lastRun polls) := by
  induction polls using List.reverseRecOn with
  | nil => exact .of_up positive rfl rfl
  | append_singleton polls poll ih =>
    rw [watchAfter_concat]
    cases poll with
    | succeeded now =>
      rw [lastRun_concat_succeeded]
      exact .succeeded positive _ now
    | failed now error =>
      rw [lastRun_concat_failed]
      exact ih.failed now error

theorem emitted_watchAfter (threshold : ℕ) (polls : List Poll) :
    (watchAfter threshold polls).emitted = collect (emittedBy threshold) [] polls := by
  induction polls using List.reverseRecOn with
  | nil => rfl
  | append_singleton polls poll ih =>
    rw [watchAfter_concat, collect_concat, ← ih]
    rfl

/-- What the invariant says about the announcements. -/
theorem followsStreaks (positive : 1 ≤ threshold) (polls : List Poll) :
    FollowsStreaks threshold polls (watchAfter threshold polls) where
  lost := by
    intro before run now error rest _ well failures
    have inv := contactAfter_inv positive (before ++ run)
    rw [lastRun_append well failures] at inv
    exact inv.emits_failed now error
  restored := by
    intro before run now rest _ well failures
    have inv := contactAfter_inv positive (before ++ run)
    rw [lastRun_append well failures] at inv
    have emits := inv.emits_succeeded now
    split
    · rename_i reached
      rw [if_pos reached] at emits
      obtain ⟨error, found⟩ := inv.since reached
      exact ⟨_, error, found, emits⟩
    · rename_i short
      rw [if_neg short] at emits
      exact emits
  all := emitted_watchAfter threshold polls
  alternate := (watchAfter_inv threshold polls).alternates
  connected := (watchAfter_inv threshold polls).connected
  reconnects := (watchAfter_inv threshold polls).reconnects

end

/-! ## The guarantee -/

/-- **The connection events follow the failure streaks**, for every sequence of polls and every
behaviour of the callbacks: no exception leaves the handlers, and what they leave is as
promised. -/
theorem connection_follows_streaks (callbacks : Callbacks) {threshold : ℕ}
    (positive : 1 ≤ threshold) (polls : List Poll) :
    ∃ watch, (onPolls callbacks threshold polls).outcome {} = (.ok (), watch) ∧
      FollowsStreaks threshold polls watch :=
  ⟨_, outcome_onPolls callbacks threshold {} polls, followsStreaks positive polls⟩

/-- Callbacks that throw whatever they are called with. -/
def throwing : Callbacks where
  onConnectionLost := fun error _ => .error error
  onConnectionRestored := fun _ _ => .error .nullish
  onError := fun error => .error error

/-- An outage of three failures, and one of a single failure. -/
def outages : List Poll :=
  [.failed 1 .nullish, .failed 2 .nullish, .failed 3 .nullish, .succeeded 7, .failed 8 .nullish,
    .succeeded 9]

theorem outages_follow_streaks :
    ∃ watch, (onPolls throwing 2 outages).outcome {} = (.ok (), watch) ∧
      watch.emitted = [.lost .nullish 2, .restored 5 3] ∧ FollowsStreaks 2 outages watch := by
  obtain ⟨watch, ran, follows⟩ :=
    connection_follows_streaks throwing (by decide : 1 ≤ 2) outages
  obtain rfl : _ = watch := congrArg Prod.snd ran
  exact ⟨_, ran, rfl, follows⟩

/-! ## The worker -/

/-- The poll a label tells of. -/
def WorkerLabel.poll? : WorkerLabel → Option Poll
  | found now _ _ => some (.succeeded now)
  | notFound now => some (.succeeded now)
  | pollFails now error _ => some (.failed now error)
  | _ => none

/-- The part of a worker the handlers see. -/
def Worker.watch (w : Worker) : Watch := ⟨w.contact, w.emitted⟩

theorem Worker.watch_head (w : Worker) :
    w.head.watch = w.watch ∧ w.head.options = w.options := by
  rw [Worker.head]
  split
  · exact ⟨rfl, rfl⟩
  · split
    · exact ⟨rfl, rfl⟩
    · exact ⟨rfl, rfl⟩

/-- What a turn of a worker does to its contact is what its poll does, if there is one. -/
theorem Worker.watch_step {w w' : Worker} {l : WorkerLabel} (taken : w.step l = some w') :
    w'.options = w.options ∧
      w'.watch = l.poll?.elim w.watch (w.watch.onPoll w.options.connectionLostThreshold) := by
  cases Worker.turn_of_step taken with
  | found polling now claim parsed =>
    obtain ⟨watch, options⟩ := ((w.onPollSuccess now).dispatch claim parsed).watch_head
    exact ⟨options, watch⟩
  | wake | unpark => exact w.watch_head.symm
  | _ => exact ⟨rfl, rfl⟩

/-- **A worker announces what its polls tell**, at every point of every run. -/
theorem worker_follows_streaks {options : WorkerOptions} {labels : List WorkerLabel} {w : Worker}
    (ran : follow Worker.step (.start options) labels = some w) :
    FollowsStreaks options.connectionLostThreshold (labels.filterMap WorkerLabel.poll?)
      w.watch := by
  have sees := invariant_of_follow
    (I := fun past (w : Worker) => w.options = options ∧
      w.watch = watchAfter options.connectionLostThreshold (past.filterMap WorkerLabel.poll?))
    (fun {past s l s'} taken inv => by
      obtain ⟨same, watch⟩ := Worker.watch_step taken
      refine ⟨same.trans inv.1, ?_⟩
      rw [watch, inv.1, inv.2, filterMap_concat]
      cases l.poll? with
      | none => simp
      | some poll => simp [watchAfter_concat]) [] ran (Worker.watch_head _).symm
  rw [List.nil_append] at sees
  rw [sees.2]
  exact followsStreaks options.patient _

end AnvilMQ.Client
