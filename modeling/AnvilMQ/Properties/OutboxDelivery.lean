import AnvilMQ.Client.Outbox

/-!
# What the outbox delivers, and where

A record says which queue it is for and what it carries.  The store files it under its
key alone, keeps the first record of a key whatever is put later, and hands every pending
record to whichever forwarder drains it, which sends it to its own queue.  So the outbox
delivers what was enqueued where it was enqueued as long as forwarders that share a store
keep to their own records.
-/

namespace AnvilMQ.Client

open Relational Transition

variable {α : Type} {s s' : Outbox α} {l : OutboxLabel α} {store store' : Store α}

/-! ## The property -/

/-- **The outbox delivers what was enqueued, where it was enqueued.** -/
structure Outbox.Delivers (s : Outbox α) : Prop where
  /-- An accepted add went to the queue of its record, with its payload. -/
  routed : ∀ key call, .accepted key call ∈ s.log →
    ∃ record, s.store.find? key = some record ∧ call.queue = record.queue ∧
      call.payload = record.payload
  /-- What was enqueued is in the store, pending or sent unless it was poisoned since. -/
  held : ∀ before key queue payload after,
    s.log = before ++ .enqueued key queue payload :: after →
    ∃ record, s.store.find? key = some record ∧ record.queue = queue ∧
      record.payload = payload ∧ (record.state ≠ .failed ∨ .poisoned key ∈ after)

/-- A forwarder drains records of its own queue, and enqueues under a key that is free or
that has the same record, not poisoned. -/
def OwnRecords (s : Outbox α) : OutboxLabel α → Prop
  | .drain _ forwarder => ∀ record ∈ s.store.claimPending forwarder.batchSize,
      record.queue = forwarder.queue
  | .enqueue forwarder payload options minted _ => ∀ record,
      s.store.find? (outboxKey options minted) = some record →
      record.queue = forwarder.queue ∧ record.payload = payload ∧ record.state ≠ .failed
  | _ => True

/-! ## What the store keeps -/

/-- The records of a store stay, with their queue and payload; one that fails is poisoned. -/
def Keeps (poisoned : String → Prop) (store store' : Store α) : Prop :=
  ∀ key record, store.find? key = some record → ∃ record', store'.find? key = some record' ∧
    record'.queue = record.queue ∧ record'.payload = record.payload ∧
    (record'.state = .failed → record.state = .failed ∨ poisoned key)

theorem Keeps.refl (poisoned : String → Prop) (store : Store α) : Keeps poisoned store store :=
  fun _ record found => ⟨record, found, rfl, rfl, .inl⟩

theorem keeps_put (poisoned : String → Prop) (store : Store α) (record : OutboxRecord α) :
    Keeps poisoned store (store.put record) :=
  fun _ old found => ⟨old, Store.find?_put_of_some found, rfl, rfl, .inl⟩

theorem keeps_markSent (poisoned : String → Prop) (store : Store α) (key : String) :
    Keeps poisoned store (store.markSent key) := by
  intro other old found
  rw [Store.find?_markSent]
  split
  · rename_i here
    rw [← here, found]
    exact ⟨_, rfl, rfl, rfl, fun failed => by cases failed⟩
  · exact ⟨old, found, rfl, rfl, .inl⟩

theorem keeps_markFailed (store : Store α) (key : String) (error : Thrown) :
    Keeps (· = key) store (store.markFailed key error) := by
  intro other old found
  rw [Store.find?_markFailed]
  split
  · rename_i here
    rw [← here, found]
    exact ⟨_, rfl, rfl, rfl, fun _ => .inr rfl⟩
  · exact ⟨old, found, rfl, rfl, .inl⟩

theorem Keeps.imp {poisoned poisoned' : String → Prop} (keeps : Keeps poisoned store store')
    (weaker : ∀ key, poisoned key → poisoned' key) : Keeps poisoned' store store' := by
  intro key record found
  obtain ⟨record', found', queue, payload, state⟩ := keeps key record found
  exact ⟨record', found', queue, payload, fun failed => (state failed).imp_right (weaker key)⟩

/-! ## What a turn does -/

/-- A pass goes on with its batch and its forwarder. -/
def Continues (pass pass' : Pass α) : Prop :=
  pass'.batch = pass.batch ∧ pass'.forwarder = pass.forwarder

/-- **What a turn does** to the log, the store and the passes. -/
structure Effect (s : Outbox α) (l : OutboxLabel α) (s' : Outbox α)
    (events : List (OutboxEvent α)) : Prop where
  log : s'.log = s.log ++ events
  store : Keeps (fun key => .poisoned key ∈ events) s.store s'.store
  accepted : ∀ key call, .accepted key call ∈ events → ∃ p pass record,
    s.passes p = some pass ∧ record ∈ pass.batch ∧ key = record.key ∧
      call = pass.forwarder.add record
  enqueued : ∀ key queue payload, .enqueued key queue payload ∈ events →
    ∃ forwarder options minted createdAt,
      l = .enqueue forwarder payload options minted createdAt ∧ key = outboxKey options minted ∧
        queue = forwarder.queue
  passes : ∀ p pass', s'.passes p = some pass' →
    (∃ pass, s.passes p = some pass ∧ Continues pass pass') ∨
      ∃ forwarder, l = .drain p forwarder ∧ pass' = .start s.store forwarder

theorem continues_of_setPass {p q : ℕ} {pass next pass' : Pass α}
    (now : (s.setPass p next).passes q = some pass') (found : s.passes p = some pass)
    (goes : Continues pass next) :
    ∃ pass, s.passes q = some pass ∧ Continues pass pass' := by
  rw [Outbox.passes_setPass] at now
  split at now
  · rename_i here
    cases now
    exact ⟨pass, here ▸ found, goes⟩
  · exact ⟨pass', now, rfl, rfl⟩

/-- The `catch` of a task poisons its record, or does nothing to the store. -/
theorem caught_effect (l : OutboxLabel α) {p i : ℕ} {pass next : Pass α} {key : String}
    {error : Thrown} (found : s.passes p = some pass) (goes : Continues pass next) :
    ∃ events, Effect s l (s.caught p i next key error) events ∧
      ∀ event ∈ events, event = .poisoned key := by
  have throws : ∃ events, Effect s l (s.setPass p (next.throw i)) events ∧
      ∀ event ∈ events, event = .poisoned key :=
    ⟨[], ⟨(List.append_nil _).symm, .refl _ _, by simp, by simp,
      fun _ _ now => .inl (continues_of_setPass now found goes)⟩, by simp⟩
  have finishes : ∃ events, Effect s l (s.setPass p (next.finish i)) events ∧
      ∀ event ∈ events, event = .poisoned key :=
    ⟨[], ⟨(List.append_nil _).symm, .refl _ _, by simp, by simp,
      fun _ _ now => .inl (continues_of_setPass now found goes)⟩, by simp⟩
  cases error with
  | nullish => exact throws
  | error code message =>
    rw [Outbox.caught]
    split
    · exact finishes
    · refine ⟨[.poisoned key], ⟨rfl, ?_, by simp, by simp, fun q pass' now => ?_⟩, by simp⟩
      · exact (keeps_markFailed s.store key (.error code message)).imp fun other here => by
          simp [here]
      · exact .inl (continues_of_setPass now found goes)

/-- **What a turn of the outbox does.** -/
theorem exists_effect (taken : s.step l = some s') : ∃ events, Effect s l s' events := by
  cases l with
  | enqueue forwarder payload options minted createdAt =>
    cases taken
    refine ⟨[.enqueued (outboxKey options minted) forwarder.queue payload], rfl,
      keeps_put _ _ _, by simp, ?_, fun p pass' now => .inl ⟨pass', now, rfl, rfl⟩⟩
    intro key queue other mem
    simp only [List.mem_singleton, OutboxEvent.enqueued.injEq] at mem
    obtain ⟨rfl, rfl, rfl⟩ := mem
    exact ⟨_, _, _, _, rfl, rfl, rfl⟩
  | drain p forwarder =>
    obtain ⟨free, rfl⟩ := Outbox.step_drain taken
    refine ⟨[], (List.append_nil _).symm, .refl _ _, by simp, by simp, fun q pass' now => ?_⟩
    rw [Outbox.passes_setPass] at now
    split at now
    · rename_i here
      exact .inr ⟨forwarder, by rw [here], (Option.some.inj now).symm⟩
    · exact .inl ⟨pass', now, rfl, rfl⟩
  | accept p i =>
    obtain ⟨pass, record, found, -, here, rfl⟩ := Outbox.step_accept taken
    refine ⟨_, rfl, .refl _ _, ?_, by simp, fun q pass' now => .inl ⟨pass', now, rfl, rfl⟩⟩
    intro key call mem
    simp only [List.mem_singleton, OutboxEvent.accepted.injEq] at mem
    exact ⟨p, pass, record, found, List.mem_of_getElem? here, mem⟩
  | resolve p i response =>
    obtain ⟨pass, record, task, rfl⟩ := Outbox.step_resolve taken
    refine ⟨_, rfl, keeps_markSent _ _ _, ?_, by simp, fun q pass' now => .inl ?_⟩
    · intro key call mem
      simp only [List.mem_singleton, OutboxEvent.accepted.injEq] at mem
      exact ⟨p, pass, record, task.found, List.mem_of_getElem? task.listed, mem⟩
    · exact continues_of_setPass now task.found ⟨rfl, rfl⟩
  | reject p i error =>
    obtain ⟨pass, record, task, rfl⟩ := Outbox.step_reject taken
    have found : (s.record (.refused record.key error)).passes p = some pass := task.found
    obtain ⟨events, effect, only⟩ := @caught_effect _ _ (.reject p i error) p i pass pass
      record.key error found ⟨rfl, rfl⟩
    refine ⟨.refused record.key error :: events, ?_, ?_, ?_, ?_, effect.passes⟩
    · rw [effect.log, Outbox.record, List.append_assoc, List.singleton_append]
    · exact effect.store.imp fun key => List.mem_cons_of_mem _
    · intro key call mem
      rcases List.mem_cons.mp mem with other | later
      · cases other
      · exact effect.accepted key call later
    · intro key queue payload mem
      rcases List.mem_cons.mp mem with other | later
      · cases other
      · exact effect.enqueued key queue payload later
  | callback p i thrown =>
    obtain ⟨pass, record, stage, task, -, outcome⟩ := Outbox.step_callback taken
    have goes : Continues pass pass.counted := ⟨rfl, rfl⟩
    rcases outcome with ⟨-, rfl⟩ | ⟨response, error, -, -, rfl⟩ | ⟨error, again, -, -, rfl⟩
    · exact ⟨[], (List.append_nil _).symm, .refl _ _, by simp, by simp,
        fun _ _ now => .inl (continues_of_setPass now task.found ⟨rfl, rfl⟩)⟩
    · obtain ⟨events, effect, -⟩ := caught_effect (.callback p i thrown) task.found goes
      exact ⟨events, effect⟩
    · exact ⟨[], (List.append_nil _).symm, .refl _ _, by simp, by simp,
        fun _ _ now => .inl (continues_of_setPass now task.found ⟨rfl, rfl⟩)⟩

/-! ## The invariant -/

/-- The batches of the passes are records of the store, for the queue of their forwarder. -/
def Routed (s : Outbox α) : Prop :=
  ∀ p pass, s.passes p = some pass → ∀ record ∈ pass.batch,
    record.queue = pass.forwarder.queue ∧
      ∃ stored, s.store.find? record.key = some stored ∧ stored.queue = record.queue ∧
        stored.payload = record.payload

/-- A step keeps the records with their forwarder. -/
theorem Routed.step (routed : Routed s) (own : OwnRecords s l) (taken : s.step l = some s') :
    Routed s' := by
  obtain ⟨events, effect⟩ := exists_effect taken
  intro p pass' now record mem
  rcases effect.passes p pass' now with ⟨pass, found, batch, forwarder⟩ | ⟨forwarder, rfl, rfl⟩
  · rw [batch] at mem
    obtain ⟨queue, stored, held, sameQueue, samePayload⟩ := routed p pass found record mem
    obtain ⟨stored', held', queue', payload', -⟩ := effect.store _ stored held
    rw [forwarder]
    exact ⟨queue, stored', held', queue'.trans sameQueue, payload'.trans samePayload⟩
  · have claimed := List.mem_of_mem_take mem
    have held := Table.find?_of_mem (List.mem_of_mem_filter claimed)
    obtain ⟨stored', held', queue', payload', -⟩ := effect.store _ record held
    exact ⟨own record mem, stored', held', queue', payload'⟩

/-- **A step keeps the delivery**, if records stay with their forwarder. -/
theorem Outbox.Delivers.step (delivers : s.Delivers) (routed : Routed s) (own : OwnRecords s l)
    (taken : s.step l = some s') : s'.Delivers := by
  obtain ⟨events, effect⟩ := exists_effect taken
  constructor
  case routed =>
    intro key call mem
    rw [effect.log] at mem
    rcases List.mem_append.mp mem with old | new
    · obtain ⟨record, held, queue, payload⟩ := delivers.routed key call old
      obtain ⟨record', held', queue', payload', -⟩ := effect.store _ record held
      exact ⟨record', held', queue.trans queue'.symm, payload.trans payload'.symm⟩
    · obtain ⟨p, pass, record, found, listed, rfl, rfl⟩ := effect.accepted key call new
      obtain ⟨queue, stored, held, sameQueue, samePayload⟩ := routed p pass found record listed
      obtain ⟨stored', held', queue', payload', -⟩ := effect.store _ stored held
      refine ⟨stored', held', ?_, ?_⟩
      · rw [queue', sameQueue, queue]
        rfl
      · rw [payload', samePayload]
        rfl
  case held =>
    intro before key queue payload after split
    rw [effect.log] at split
    rcases split_log split with ⟨middle, old, rfl⟩ | ⟨front, -, new⟩
    · obtain ⟨record, held, rfl, rfl, state⟩ := delivers.held before key queue payload middle old
      obtain ⟨record', held', queue', payload', fails⟩ := effect.store _ record held
      refine ⟨record', held', queue', payload', ?_⟩
      by_cases failed : record'.state = .failed
      · rcases fails failed with was | poisoned
        · exact .inr (List.mem_append_left _ (state.resolve_left (not_not.mpr was)))
        · exact .inr (List.mem_append_right _ poisoned)
      · exact .inl failed
    · obtain ⟨forwarder, options, minted, createdAt, rfl, rfl, rfl⟩ :=
        effect.enqueued key queue payload (new ▸ List.mem_append_right _ List.mem_cons_self)
      cases taken
      refine ⟨_, Store.find?_put_self s.store _, ?_⟩
      cases found : s.store.find? (outboxKey options minted) with
      | none => exact ⟨rfl, rfl, .inl (by simp)⟩
      | some record =>
        obtain ⟨queue, payload, state⟩ := own record found
        exact ⟨queue, payload, .inl state⟩

/-! ## The guarantee -/

/-- **The outbox delivers what was enqueued, where it was enqueued**, in every run of any
number of forwarders on one store whose steps keep to their own records. -/
theorem outbox_delivers {labels : List (OutboxLabel α)}
    (run : Chain (TakesIf OwnRecords Outbox.step) (.start store []) labels s) : s.Delivers := by
  have start : Routed (.start store []) ∧ (Outbox.start store []).Delivers := by
    constructor
    · intro p pass found
      cases found
    · constructor
      · intro key call mem
        cases mem
      · intro before key queue payload after split
        have impossible : before ++ .enqueued key queue payload :: after = [] := split.symm
        simp at impossible
  refine (run.preserves (I := fun s => Routed s ∧ s.Delivers) ?_ start).2
  rintro s l s' ⟨taken, own⟩ ⟨routed, delivers⟩
  exact ⟨routed.step own taken, delivers.step routed own taken⟩

theorem loneRun_own : Meets OwnRecords Outbox.step (.start Table.empty []) loneRun := by
  refine ⟨?_, fun s₁ taken => ?_⟩
  · intro record found
    cases found
  · cases taken
    refine ⟨?_, fun s₂ _ => ⟨trivial, fun _ _ => trivial⟩⟩
    show ∀ record ∈ _, _
    decide

/-- A forwarder alone on its store delivers. -/
theorem lone_forwarder_delivers :
    ∃ s, follow Outbox.step (.start Table.empty []) loneRun = some s ∧
      s.log = [.enqueued "k" "mails" 1, .accepted "k" (mails.add
        { key := "k", queue := "mails", payload := 1, options := underKey })] ∧
      s.Delivers :=
  ⟨_, rfl, rfl, outbox_delivers (chain_of_follow loneRun_own rfl)⟩

/-- A forwarder for another queue. -/
def bills : Forwarder := { mails with queue := "bills" }

/-- **Two forwarders on one store.**  The drain of `bills` sends a record of `mails` to its
own queue; and an enqueue on `bills` under the same key resolves, but its data is nowhere in
the store. -/
theorem shared_store_misdelivers :
    (∃ s, follow Outbox.step (.start Table.empty [])
        [.enqueue mails 1 underKey "m" 0, .drain 0 bills, .resolve 0 0 accepted] = some s ∧
      ¬ s.Delivers) ∧
    ∃ s, follow Outbox.step (.start Table.empty [])
        [.enqueue mails 1 underKey "m" 0, .enqueue bills 2 underKey "n" 0] = some s ∧
      s.store.rows = [{ key := "k", queue := "mails", payload := 1, options := underKey }] ∧
      ¬ s.Delivers := by
  refine ⟨⟨_, rfl, fun delivers => ?_⟩, _, rfl, rfl, fun delivers => ?_⟩
  · obtain ⟨record, held, queue, -⟩ :=
      delivers.routed "k" _ (List.mem_cons_of_mem _ List.mem_cons_self)
    cases held
    exact absurd queue (by decide)
  · obtain ⟨record, held, queue, -⟩ :=
      delivers.held [.enqueued "k" "mails" 1] "k" "bills" 2 [] rfl
    cases held
    exact absurd queue (by decide)

end AnvilMQ.Client
