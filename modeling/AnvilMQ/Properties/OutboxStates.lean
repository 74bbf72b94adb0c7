import AnvilMQ.Client.Outbox

/-!
# The states of the outbox

A record of the outbox should be sent exactly when the broker has accepted it, failed when
it never will, and `drainOnce` should return how many records it settled.  The forwarder
adds, marks, counts and calls the user's callback inside one `try`, whose `catch` takes
every error for one of the add; so this holds only while the callback does not throw, and
while the broker does not refuse for good what it has accepted.
-/

namespace AnvilMQ.Client

open Relational Transition

variable {α : Type} {s s' : Outbox α} {l : OutboxLabel α} {store opened : Store α} {pass : Pass α}
  {p i : ℕ} {record : OutboxRecord α}

/-! ## The property -/

/-- An error that poisons a record. -/
def Thrown.permanent : Thrown → Bool
  | nullish => false
  | thrown => !thrown.transient

/-- **The states of the records agree with the broker.** -/
structure Outbox.Agrees (s : Outbox α) : Prop where
  failed : ∀ key record, s.store.find? key = some record → record.state = .failed →
    (∃ error, .refused key error ∈ s.log ∧ error.permanent = true) ∧
      ∀ call, .accepted key call ∉ s.log
  sent : ∀ key record, s.store.find? key = some record → record.state = .sent →
    ∃ call, .accepted key call ∈ s.log

/-- The record of a key is settled. -/
def Store.settled (store : Store α) (key : String) : Bool :=
  (store.find? key).any fun record => record.state.terminal

/-- The number of records that became sent or failed since a store was as `opened`. -/
def settledSince (opened store : Store α) : ℕ :=
  store.count fun record => record.state.terminal && !opened.settled record.key

/-- What a step must keep. -/
structure Honest (s s' : Outbox α) : Prop where
  /-- No record leaves `sent`. -/
  stays : ∀ key record, s.store.find? key = some record → record.state = .sent →
    ∃ record', s'.store.find? key = some record' ∧ record'.state = .sent
  /-- A drain that returns with this step returns the number of records that became sent or
  failed during it. -/
  returns : ∀ p pass n, s'.passes p = some pass → pass.returned = some n →
    (s.passes p).bind Pass.returned = none → n = settledSince pass.opened s'.store

/-- **The condition**: no drain starts while one is on its way, the broker does not accept a
record after a permanent refusal nor refuse one for good after accepting it, and the
callback does not throw a permanent error after a success. -/
def Orderly (s : Outbox α) : OutboxLabel α → Prop
  | .drain _ _ => ∀ p pass, s.passes p = some pass → pass.pool.running = []
  | .accept p i => ∀ pass record, s.passes p = some pass → pass.batch[i]? = some record →
      ∀ error, .refused record.key error ∈ s.log → error.permanent = false
  | .reject p i error => error.permanent = true → ∀ pass record, s.passes p = some pass →
      pass.batch[i]? = some record → ∀ call, .accepted record.key call ∉ s.log
  | .callback p i (some thrown) => ∀ pass response, s.passes p = some pass →
      pass.stage i = .marking response → thrown.permanent = false
  | _ => True

/-! ## A drain on its way -/

/-- The record of a key is pending, and was when the store was opened. -/
def Unsettled (opened store : Store α) (key : String) : Prop :=
  (∃ record, store.find? key = some record ∧ record.state = .pending) ∧
    opened.settled key = false

/-- The task has marked its record and goes on to count it. -/
def marked (pass : Pass α) (i : ℕ) : Bool := decide (pass.stage i ≠ .adding)

/-- **The invariant of a drain that is alone on its way.** -/
structure Active (store : Store α) (pass : Pass α) : Prop where
  pool : pass.pool.Sound
  keys : ∀ (i j : ℕ) (record record' : OutboxRecord α), pass.batch[i]? = some record →
    pass.batch[j]? = some record' → record.key = record'.key → i = j
  fresh : ∀ i, pass.pool.next ≤ i → pass.stage i = .adding
  unsettled : ∀ (i : ℕ) (record : OutboxRecord α), pass.batch[i]? = some record →
    pass.pool.next ≤ i ∨ (i ∈ pass.pool.running ∧ pass.stage i = .adding) →
    Unsettled pass.opened store record.key
  counted : settledSince pass.opened store =
    pass.forwarded + pass.pool.running.countP (marked pass)

/-- A task leaves the pool, and is counted if it has marked its record. -/
theorem Active.leave {next : Pass α} (active : Active store pass) (batch : next.batch = pass.batch)
    (stage : next.stage = pass.stage) (opened : next.opened = pass.opened)
    (pool : next.pool.Sound) (later : pass.pool.next ≤ next.pool.next)
    (running : ∀ j ∈ next.pool.running, j ∈ pass.pool.running ∨ j = pass.pool.next)
    (counted : next.forwarded + next.pool.running.countP (marked pass) =
      pass.forwarded + pass.pool.running.countP (marked pass)) : Active store next where
  pool := pool
  keys := batch ▸ active.keys
  fresh := fun j le => stage ▸ active.fresh j (later.trans le)
  unsettled := by
    rw [batch, stage, opened]
    intro j record listed waiting
    refine active.unsettled j record listed ?_
    rcases waiting with above | ⟨flight, adding⟩
    · exact .inl (later.trans above)
    · rcases running j flight with was | rfl
      · exact .inr ⟨was, adding⟩
      · exact .inl le_rfl
  counted := by
    have same : marked next = marked pass := by
      unfold marked
      rw [stage]
    rw [opened, active.counted, same]
    exact counted.symm

theorem Active.finish (active : Active store pass) (mem : i ∈ pass.pool.running) (n : ℕ)
    (count : n = if marked pass i then 1 else 0) :
    Active store (Pass.finish { pass with forwarded := pass.forwarded + n } i) := by
  refine active.leave rfl rfl rfl (active.pool.finish i) (Nat.le_succ _) ?_ ?_
  · intro j flight
    exact ((Pool.mem_finish active.pool).mp flight).imp And.left And.left
  · have fresh : marked pass pass.pool.next = false := by
      simp [marked, active.fresh _ le_rfl]
    rw [← Pool.countP_finish mem fresh, count]
    show pass.forwarded + _ + _ = _
    ac_rfl

theorem Active.throw (active : Active store pass) (mem : i ∈ pass.pool.running) (n : ℕ)
    (count : n = if marked pass i then 1 else 0) :
    Active store (Pass.throw { pass with forwarded := pass.forwarded + n } i) := by
  refine active.leave rfl rfl rfl (active.pool.abandon i) le_rfl ?_ ?_
  · intro j flight
    exact .inl ((Pool.mem_abandon active.pool).mp flight).1
  · rw [← Pool.countP_abandon mem, count]
    show pass.forwarded + _ + _ = _
    ac_rfl

/-- Marking a pending record settles it. -/
theorem settledSince_modify {key : String} {f : OutboxRecord α → OutboxRecord α}
    (keeps : ∀ record, (f record).key = record.key)
    (settles : ∀ record, (f record).state.terminal = true)
    (unsettled : Unsettled opened store key) :
    settledSince opened (store.modify key f keeps) = settledSince opened store + 1 := by
  obtain ⟨⟨record, found, pending⟩, before⟩ := unsettled
  have here := Table.key_of_find? found
  have counts := @Table.count_modify _ _ _ record key store
    (fun record => record.state.terminal && !opened.settled record.key) _ f keeps found
  rw [settles record, keeps record, here, before, pending] at counts
  exact counts

/-- **A task marks its record**, whatever the mark. -/
theorem Active.mark {store' : Store α} {stage : Stage} (active : Active store pass)
    (mem : i ∈ pass.pool.running) (adding : pass.stage i = .adding) (next : stage ≠ .adding)
    (listed : pass.batch[i]? = some record)
    (others : ∀ other, other ≠ record.key → store'.find? other = store.find? other)
    (settles : settledSince pass.opened store' = settledSince pass.opened store + 1) :
    Active store' (pass.await i stage) where
  pool := active.pool
  keys := active.keys
  fresh := by
    intro j above
    have apart : j ≠ i := fun same => (active.pool.started i mem).not_ge (same ▸ above)
    rw [Pass.stage_await, if_neg apart]
    exact active.fresh j above
  unsettled := by
    intro j other there waiting
    have apart : j ≠ i := by
      rintro rfl
      rcases waiting with above | ⟨-, still⟩
      · exact (active.pool.started j mem).not_ge above
      · rw [Pass.stage_await, if_pos rfl] at still
        exact next still
    rw [Pass.stage_await, if_neg apart] at waiting
    obtain ⟨⟨stored, found, pending⟩, before⟩ := active.unsettled j other there waiting
    have elsewhere : other.key ≠ record.key := fun same =>
      apart (active.keys j i other record there listed same)
    exact ⟨⟨stored, (others other.key elsewhere).trans found, pending⟩, before⟩
  counted := by
    have one : pass.pool.running.countP (marked (pass.await i stage)) =
        pass.pool.running.countP (marked pass) + 1 := by
      refine active.pool.countP_succ mem ?_ ?_ fun j apart => ?_
      · simp [marked, adding]
      · simp [marked, Pass.stage_await, next]
      · simp [marked, Pass.stage_await, apart]
    show settledSince pass.opened _ = pass.forwarded + pass.pool.running.countP _
    rw [settles, active.counted, one, Nat.add_assoc]

/-- Enqueues do not settle records. -/
theorem Active.put (active : Active store pass) {record : OutboxRecord α}
    (pending : record.state = .pending) : Active (store.put record) pass where
  pool := active.pool
  keys := active.keys
  fresh := active.fresh
  unsettled := by
    intro j other listed waiting
    obtain ⟨⟨stored, found, idle⟩, before⟩ := active.unsettled j other listed waiting
    exact ⟨⟨stored, Store.find?_put_of_some found, idle⟩, before⟩
  counted := by
    rw [← active.counted, Store.put]
    cases inserted : store.insert record with
    | none => rfl
    | some store' =>
      rw [Option.getD_some, settledSince, Table.count_of_insert inserted, pending]
      rfl

/-- A drain that is opened. -/
theorem Active.start (store : Store α) (forwarder : Forwarder) :
    Active store (.start store forwarder) := by
  have idle : ∀ record ∈ (Pass.start store forwarder).batch,
      store.find? record.key = some record ∧ record.state = .pending := by
    intro record claimed
    obtain ⟨mem, pending⟩ := List.mem_filter.mp (List.mem_of_mem_take claimed)
    exact ⟨Table.find?_of_mem mem, of_decide_eq_true pending⟩
  constructor
  case pool =>
    rw [Pass.start]
    dsimp only
    split
    · exact ⟨List.nodup_nil, by simp, by simp⟩
    · exact Pool.Sound.start _ _
  case keys =>
    intro i j record record' there there' same
    have nodup : ((Pass.start store forwarder).batch.map OutboxRecord.key).Nodup :=
      store.nodup.sublist (((List.take_sublist _ _).trans List.filter_sublist).map _)
    have key : ((Pass.start store forwarder).batch.map OutboxRecord.key)[i]? = some record.key := by
      rw [List.getElem?_map, there]
      rfl
    have key' : ((Pass.start store forwarder).batch.map OutboxRecord.key)[j]? =
        some record'.key := by
      rw [List.getElem?_map, there']
      rfl
    refine (List.getElem?_inj ?_ nodup).mp (key.trans (same ▸ key'.symm))
    exact (List.getElem?_eq_some_iff.mp key).1
  case fresh => exact fun _ _ => rfl
  case unsettled =>
    intro i record there _
    obtain ⟨found, pending⟩ := idle record (List.mem_of_getElem? there)
    refine ⟨⟨record, found, pending⟩, ?_⟩
    show Store.settled store record.key = false
    rw [Store.settled, found, Option.any_some, pending]
    rfl
  case counted =>
    have unsettled : settledSince store store = 0 := by
      refine List.countP_eq_zero.mpr fun record mem => ?_
      rw [Store.settled, Table.find?_of_mem mem, Option.any_some]
      simp
    show settledSince store store = 0 + _
    rw [unsettled, Nat.zero_add]
    exact (List.countP_eq_zero.mpr fun i _ => by simp [marked, Pass.start]).symm

/-- A drain that returns has counted every record it settled. -/
theorem Active.returns {n : ℕ} (active : Active store pass) (returned : pass.returned = some n) :
    n = settledSince pass.opened store := by
  rw [Pass.returned] at returned
  split at returned
  · rename_i done
    rw [active.counted, done.2, ← Option.some.inj returned]
    rfl
  · cases returned

/-! ## Agreement -/

/-- An event that is no acceptance of a failed record does no harm. -/
theorem Outbox.Agrees.log (agrees : s.Agrees) {event : OutboxEvent α}
    (harmless : ∀ key record call, s.store.find? key = some record → record.state = .failed →
      event ≠ .accepted key call) : (s.record event).Agrees where
  failed := by
    intro key record found failed
    obtain ⟨⟨cause, refused, permanent⟩, never⟩ := agrees.failed key record found failed
    refine ⟨⟨cause, List.mem_append_left _ refused, permanent⟩, fun call mem => ?_⟩
    rcases List.mem_append.mp mem with old | new
    · exact never call old
    · exact harmless key record call found failed (List.mem_singleton.mp new).symm
  sent := by
    intro key record found sent
    obtain ⟨call, accepted⟩ := agrees.sent key record found sent
    exact ⟨call, List.mem_append_left _ accepted⟩

/-- A pending record does no harm. -/
theorem Outbox.Agrees.put (agrees : s.Agrees) {fresh : OutboxRecord α}
    (pending : fresh.state = .pending) : { s with store := s.store.put fresh }.Agrees where
  failed := by
    intro key record found failed
    rcases Store.find?_put_cases found with old | rfl
    · exact agrees.failed key record old failed
    · cases failed.symm.trans pending
  sent := by
    intro key record found sent
    rcases Store.find?_put_cases found with old | rfl
    · exact agrees.sent key record old sent
    · cases sent.symm.trans pending

/-- A record becomes sent when the broker accepts it. -/
theorem Outbox.Agrees.markSent (agrees : s.Agrees) (key : String) (call : AddCall α) :
    ({ s with store := s.store.markSent key }.record (.accepted key call)).Agrees where
  failed := by
    intro other record found failed
    have found' : (s.store.markSent key).find? other = some record := found
    rw [Store.find?_markSent] at found'
    split at found'
    · obtain ⟨old, -, rfl⟩ := Option.map_eq_some_iff.mp found'
      cases failed
    · rename_i apart
      obtain ⟨⟨cause, refused, permanent⟩, never⟩ := agrees.failed other record found' failed
      refine ⟨⟨cause, List.mem_append_left _ refused, permanent⟩, fun call mem => ?_⟩
      rcases List.mem_append.mp mem with old | new
      · exact never call old
      · exact apart (OutboxEvent.accepted.inj (List.mem_singleton.mp new)).1
  sent := by
    intro other record found sent
    have found' : (s.store.markSent key).find? other = some record := found
    rw [Store.find?_markSent] at found'
    split at found'
    · rename_i here
      exact ⟨call, here ▸ List.mem_append_right _ List.mem_cons_self⟩
    · obtain ⟨call, accepted⟩ := agrees.sent other record found' sent
      exact ⟨call, List.mem_append_left _ accepted⟩

/-- A record fails when it was refused for good and never accepted. -/
theorem Outbox.Agrees.markFailed (agrees : s.Agrees) {key : String} {error : Thrown}
    (refused : .refused key error ∈ s.log) (permanent : error.permanent = true)
    (never : ∀ call, .accepted key call ∉ s.log) :
    ({ s with store := s.store.markFailed key error }.record (.poisoned key)).Agrees where
  failed := by
    intro other record found failed
    have found' : (s.store.markFailed key error).find? other = some record := found
    have logged : ∀ call, .accepted other call ∈ s.log ++ [.poisoned key] →
        .accepted other call ∈ s.log := by
      intro call mem
      simpa using mem
    rw [Store.find?_markFailed] at found'
    split at found'
    · rename_i here
      subst here
      exact ⟨⟨error, List.mem_append_left _ refused, permanent⟩,
        fun call mem => never call (logged call mem)⟩
    · obtain ⟨⟨cause, was, lasting⟩, free⟩ := agrees.failed other record found' failed
      exact ⟨⟨cause, List.mem_append_left _ was, lasting⟩,
        fun call mem => free call (logged call mem)⟩
  sent := by
    intro other record found sent
    have found' : (s.store.markFailed key error).find? other = some record := found
    rw [Store.find?_markFailed] at found'
    split at found'
    · obtain ⟨old, -, rfl⟩ := Option.map_eq_some_iff.mp found'
      cases sent
    · obtain ⟨call, accepted⟩ := agrees.sent other record found' sent
      exact ⟨call, List.mem_append_left _ accepted⟩

/-! ## The invariant -/

/-- **The invariant**: the states agree with the broker, and a drain on its way is alone. -/
structure Inv (s : Outbox α) : Prop where
  agrees : s.Agrees
  active : ∀ p pass, s.passes p = some pass → pass.pool.running ≠ [] →
    Active s.store pass ∧ ∀ q other, s.passes q = some other → q ≠ p → other.pool.running = []

/-- No record of the store leaves `sent`. -/
def Stays (store store' : Store α) : Prop :=
  ∀ key record, store.find? key = some record → record.state = .sent →
    ∃ record', store'.find? key = some record' ∧ record'.state = .sent

theorem Stays.refl (store : Store α) : Stays store store := fun _ record found sent =>
  ⟨record, found, sent⟩

/-- A mark on a pending record leaves the sent ones alone. -/
theorem Stays.of_pending {store' : Store α} {key : String}
    (pending : ∃ record, store.find? key = some record ∧ record.state = .pending)
    (others : ∀ other, other ≠ key → store'.find? other = store.find? other) :
    Stays store store' := by
  intro other record found sent
  obtain ⟨idle, there, waiting⟩ := pending
  have apart : other ≠ key := by
    rintro rfl
    cases found.symm.trans there
    cases sent.symm.trans waiting
  exact ⟨record, (others other apart).trans found, sent⟩

/-- **A turn of a task keeps the invariant** when its marks do. -/
theorem Inv.of_task {s₁ : Outbox α} {next : Pass α} (inv : Inv s) {stage : Stage}
    (task : s.Task p i pass record stage) (passes : s₁.passes = s.passes) (agrees : s₁.Agrees)
    (active : Active s₁.store next) (stays : Stays s.store s₁.store) :
    Inv (s₁.setPass p next) ∧ Honest s (s₁.setPass p next) := by
  obtain ⟨-, alone⟩ := inv.active p pass task.found (List.ne_nil_of_mem task.running)
  have others : ∀ q other, (s₁.setPass p next).passes q = some other → q ≠ p →
      s.passes q = some other := by
    intro q other found apart
    rw [Outbox.passes_setPass, if_neg apart, passes] at found
    exact found
  refine ⟨⟨⟨agrees.failed, agrees.sent⟩, fun q other found running => ?_⟩, stays,
    fun q other n found returned idle => ?_⟩
  · by_cases here : q = p
    · subst here
      rw [Outbox.passes_setPass, if_pos rfl] at found
      cases found
      exact ⟨active, fun r third there apart => alone r third (others r third there apart) apart⟩
    · exact absurd (alone q other (others q other found here) here) running
  · by_cases here : q = p
    · subst here
      rw [Outbox.passes_setPass, if_pos rfl] at found
      cases found
      exact active.returns returned
    · rw [others q other found here] at idle
      cases returned.symm.trans idle

/-- A turn that leaves the passes alone. -/
theorem Inv.of_passes (inv : Inv s) (passes : s'.passes = s.passes) (agrees : s'.Agrees)
    (active : ∀ pass, Active s.store pass → Active s'.store pass)
    (stays : Stays s.store s'.store) : Inv s' ∧ Honest s s' := by
  refine ⟨⟨agrees, fun p pass found running => ?_⟩, stays, fun p pass n found returned idle => ?_⟩
  · rw [passes] at found ⊢
    obtain ⟨was, alone⟩ := inv.active p pass found running
    exact ⟨active pass was, alone⟩
  · rw [passes] at found
    rw [found] at idle
    cases returned.symm.trans idle

/-- The `catch` of a task, for an error that does not poison. -/
theorem Inv.caught {next : Pass α} {error : Thrown} {s₁ : Outbox α} (inv : Inv s) {stage : Stage}
    (task : s.Task p i pass record stage) (passes : s₁.passes = s.passes) (agrees : s₁.Agrees)
    (throws : Active s₁.store (next.throw i)) (finishes : Active s₁.store (next.finish i))
    (stays : Stays s.store s₁.store) (passing : error.permanent = false) :
    Inv (s₁.caught p i next record.key error) ∧
      Honest s (s₁.caught p i next record.key error) := by
  cases error with
  | nullish => exact inv.of_task task passes agrees throws stays
  | error code message =>
    have transient : (Thrown.error code message).transient = true := by
      simpa [Thrown.permanent] using passing
    rw [Outbox.caught, if_pos transient]
    exact inv.of_task task passes agrees finishes stays

/-- The `catch` of a task, for an error that poisons. -/
theorem caught_permanent {next : Pass α} {key : String} {error : Thrown} (value : error ≠ .nullish)
    (lasting : error.transient = false) :
    s.caught p i next key error =
      ({ s with store := s.store.markFailed key error }.record (.poisoned key)).setPass p
        (next.await i (.poisoning error)) := by
  cases error with
  | nullish => exact absurd rfl value
  | error code message => rw [Outbox.caught, if_neg (by rw [lasting]; exact Bool.false_ne_true)]

/-- **An orderly step keeps the invariant and is honest.** -/
theorem Inv.step (inv : Inv s) (orderly : Orderly s l) (taken : s.step l = some s') :
    Inv s' ∧ Honest s s' := by
  cases l with
  | enqueue forwarder payload options minted createdAt =>
    cases taken
    refine inv.of_passes rfl ?_ (fun pass active => active.put rfl) ?_
    · refine (inv.agrees.put ?_).log fun _ _ _ _ _ => ?_
      · rfl
      · simp
    · exact fun key record found sent => ⟨record, Store.find?_put_of_some found, sent⟩
  | drain p forwarder =>
    obtain ⟨free, rfl⟩ := Outbox.step_drain taken
    have opens := Active.start s.store forwarder
    refine ⟨⟨⟨inv.agrees.failed, inv.agrees.sent⟩, fun q pass found running => ?_⟩,
      Stays.refl _, fun q pass n found returned idle => ?_⟩
    · rw [Outbox.passes_setPass] at found
      split at found
      · rename_i here
        cases found
        refine ⟨opens, fun r other there apart => ?_⟩
        rw [Outbox.passes_setPass, if_neg (here ▸ apart)] at there
        exact orderly r other there
      · exact absurd (orderly q pass found) running
    · rw [Outbox.passes_setPass] at found
      split at found
      · cases found
        exact opens.returns returned
      · rw [found] at idle
        cases returned.symm.trans idle
  | accept p i =>
    obtain ⟨pass, record, found, -, listed, rfl⟩ := Outbox.step_accept taken
    refine inv.of_passes rfl (inv.agrees.log ?_) (fun pass active => active) (.refl _)
    rintro key stored call held failed same
    obtain ⟨rfl, -⟩ := OutboxEvent.accepted.inj same
    obtain ⟨⟨cause, refused, permanent⟩, -⟩ := inv.agrees.failed _ stored held failed
    rw [orderly pass record found listed cause refused] at permanent
    cases permanent
  | resolve p i response =>
    obtain ⟨pass, record, task, rfl⟩ := Outbox.step_resolve taken
    obtain ⟨active, -⟩ := inv.active p pass task.found (List.ne_nil_of_mem task.running)
    have unsettled := active.unsettled i record task.listed
      (.inr ⟨task.running, task.suspended⟩)
    have others : ∀ other, other ≠ record.key →
        (s.store.markSent record.key).find? other = s.store.find? other := fun other apart =>
      (Store.find?_markSent _ _ _).trans (if_neg apart)
    refine inv.of_task task rfl (inv.agrees.markSent record.key _) ?_
      (.of_pending unsettled.1 others)
    exact active.mark task.running task.suspended (by simp) task.listed others
      (settledSince_modify (fun record => by rfl) (fun _ => rfl) unsettled)
  | reject p i error =>
    obtain ⟨pass, record, task, rfl⟩ := Outbox.step_reject taken
    obtain ⟨active, -⟩ := inv.active p pass task.found (List.ne_nil_of_mem task.running)
    have unsettled := active.unsettled i record task.listed
      (.inr ⟨task.running, task.suspended⟩)
    have others : ∀ other, other ≠ record.key →
        (s.store.markFailed record.key error).find? other = s.store.find? other :=
      fun other apart => (Store.find?_markFailed _ _ _ _).trans (if_neg apart)
    have agrees : (s.record (.refused record.key error)).Agrees :=
      inv.agrees.log fun _ _ _ _ _ => by simp
    have unmarked : 0 = if marked pass i then 1 else 0 := by simp [marked, task.suspended]
    by_cases permanent : error.permanent = true
    · -- The record is pending, and the broker has not accepted it.
      have lasting : error ≠ .nullish ∧ error.transient = false := by
        cases error with
        | nullish => cases permanent
        | error code message => simpa [Thrown.permanent] using permanent
      rw [caught_permanent lasting.1 lasting.2]
      refine inv.of_task task rfl (agrees.markFailed ?_ permanent fun call mem => ?_) ?_
        (.of_pending unsettled.1 others)
      · exact List.mem_append_right _ List.mem_cons_self
      · rcases List.mem_append.mp mem with old | new
        · exact orderly permanent pass record task.found task.listed call old
        · cases List.mem_singleton.mp new
      · exact active.mark task.running task.suspended (by simp) task.listed others
          (settledSince_modify (fun record => by rfl) (fun _ => rfl) unsettled)
    · exact inv.caught task rfl agrees (active.throw task.running 0 unmarked)
        (active.finish task.running 0 unmarked) (.refl _) (Bool.eq_false_iff.mpr permanent)
  | callback p i thrown =>
    obtain ⟨pass, record, stage, task, on, outcome⟩ := Outbox.step_callback taken
    obtain ⟨active, -⟩ := inv.active p pass task.found (List.ne_nil_of_mem task.running)
    have counts : 1 = if marked pass i then 1 else 0 := by simp [marked, task.suspended, on]
    rcases outcome with ⟨-, rfl⟩ | ⟨response, error, rfl, rfl, rfl⟩ | ⟨error, again, -, -, rfl⟩
    · exact inv.of_task task rfl inv.agrees (active.finish task.running 1 counts) (.refl _)
    · exact inv.caught task rfl inv.agrees (active.throw task.running 1 counts)
        (active.finish task.running 1 counts) (.refl _)
        (orderly pass response task.found task.suspended)
    · exact inv.of_task task rfl inv.agrees (active.throw task.running 1 counts) (.refl _)

/-! ## The guarantee -/

/-- **The states of the outbox agree with the broker**, for every store and past they agree
for, in every run whose steps are orderly: in each state reached the agreement holds, and
each further step leaves the sent records alone and lets a drain return only the number of
records settled during it. -/
theorem outbox_agrees {log : List (OutboxEvent α)} {labels : List (OutboxLabel α)}
    (known : (Outbox.start store log).Agrees)
    (run : Chain (TakesIf Orderly Outbox.step) (.start store log) labels s) :
    s.Agrees ∧ ∀ l s', TakesIf Orderly Outbox.step s l s' → Honest s s' := by
  have start : Inv (Outbox.start store log) := by
    refine ⟨known, fun p pass found => ?_⟩
    cases found
  have inv : Inv s := run.preserves (fun step inv => (inv.step step.2 step.1).1) start
  exact ⟨inv.agrees, fun l s' step => (inv.step step.2 step.1).2⟩

theorem empty_agrees : (Outbox.start (Table.empty : Store ℕ) []).Agrees where
  failed := fun _ _ found => by cases found
  sent := fun _ _ found => by cases found

theorem loneRun_orderly : Meets Orderly Outbox.step (.start Table.empty []) loneRun := by
  refine ⟨trivial, fun s₁ taken => ?_⟩
  cases taken
  refine ⟨fun p pass found => ?_, fun _ _ => ⟨trivial, fun _ _ => trivial⟩⟩
  cases found

/-- A record is sent and its drain goes on without a throw. -/
theorem loneRun_agrees :
    ∃ s s', follow Outbox.step (.start Table.empty []) loneRun = some s ∧
      s.step (.callback 0 0 none) = some s' ∧
      (s'.passes 0).bind Pass.returned = some 1 ∧ s.Agrees ∧ Honest s s' := by
  have run := outbox_agrees empty_agrees (chain_of_follow loneRun_orderly rfl)
  exact ⟨_, _, rfl, rfl, rfl, run.1, run.2 (.callback 0 0 none) _ ⟨rfl, trivial⟩⟩

/-- **A callback that throws.**  The broker has accepted the record and it is sent; the
callback throws, the record is failed, and the drain of one record returns two. -/
theorem throwing_callback_poisons :
    ∃ s s₁ s₂, follow Outbox.step (.start Table.empty []) loneRun = some s ∧
      s.step (.callback 0 0 (some (.ofMessage "boom"))) = some s₁ ∧
      s₁.step (.callback 0 0 none) = some s₂ ∧
      ¬ s₁.Agrees ∧ ¬ Honest s s₁ ∧
      (s₂.passes 0).bind Pass.returned = some 2 ∧ ¬ Honest s₁ s₂ := by
  refine ⟨_, _, _, rfl, rfl, rfl, fun agrees => ?_, fun honest => ?_, rfl, fun honest => ?_⟩
  · obtain ⟨-, never⟩ := agrees.failed "k" _ rfl rfl
    exact never _ (List.mem_cons_of_mem _ List.mem_cons_self)
  · obtain ⟨record, found, sent⟩ := honest.stays "k" _ rfl rfl
    cases found
    cases sent
  · exact absurd (honest.returns 0 _ 2 rfl rfl rfl) (by decide)

end AnvilMQ.Client
