import AnvilMQ.Client.Link
import AnvilMQ.Properties.Receipts

/-!
# An enqueue call creates one job at most

The attempts of a call carry one request under one key.  The first of them that the broker
accepts leaves the receipt of that key, and while it stands every later one is answered from
it.  So whatever the network does, all answers name the job of the receipt, and at most one of
the attempts created it.

The argument does not need the attempts to be of one call: it is made for a group of calls
that send the same request.
-/

namespace AnvilMQ.Client

open Relational Transition

section Group

variable {ext : Externals} {service : Service} {ι : Type} {group : ι → Prop}
variable {req : AddJobRequest} {s s' : Link ι} {l : LinkLabel ι} {c : ι} {attempt : ℕ}

/-! ## The condition -/

/-- Once a request of the calls was accepted, the receipt of its key is not removed. -/
def KeepsReceipt (ext : Externals) (service : Service) (name key : String) (group : ι → Prop)
    (s : Link ι) : LinkLabel ι → Prop
  | .other op => s.Accepted group → ∀ receipt,
      (dbAfter ext service s.run).receiptFor name key = some receipt →
      (dbAfter ext service (s.run ++ [op])).receiptFor name key = some receipt
  | _ => True

/-! ## A group of calls with one request -/

/-- All answers to the calls name the job of a receipt that stands, and that is the only job
they may have created. -/
structure Link.Holds (ext : Externals) (service : Service) (req : AddJobRequest) (group : ι → Prop)
    [DecidablePred group] (s : Link ι) (receipt : Receipt) : Prop where
  accepted : s.Accepted group
  found : (dbAfter ext service s.run).receiptFor req.name req.idempotencyKey = some receipt
  answers : ∀ c response, group c → s.Answered c response → response.id = receipt.jobId
  created : s.createdBy group = [] ∨ ∃ row, s.createdBy group = [row] ∧
    row.id = receipt.jobId ∧ row.parentId = (req.metadata.getD {}).parentColumn

/-- **No request of the calls was accepted, or all of them go by one receipt.** -/
def Link.Once (ext : Externals) (service : Service) (req : AddJobRequest) (group : ι → Prop)
    [DecidablePred group] (s : Link ι) : Prop :=
  (¬ s.Accepted group ∧ s.createdBy group = []) ∨ ∃ receipt, s.Holds ext service req group receipt

theorem Link.Once.start (ext : Externals) (service : Service) (req : AddJobRequest)
    (group : ι → Prop) [DecidablePred group] (before : List Op) :
    (Link.start before).Once ext service req group := by
  refine .inl ⟨?_, rfl⟩
  rintro ⟨c, response, -, n, mem⟩
  cases mem

/-- What is answered after a request was served. -/
theorem Link.answered_served {op : Op} {d : ι} {response : AddJobResponse} :
    (s.served ext service c attempt op).Answered d response ↔
      s.Answered d response ∨ (d = c ∧
        (servedNext ext service s.run op).2.map Prod.fst = .ok (.enqueued [response])) := by
  constructor
  · rintro ⟨n, mem⟩
    rcases List.mem_append.mp mem with old | new
    · exact .inl ⟨n, old⟩
    · simp only [List.mem_singleton, Prod.mk.injEq] at new
      exact .inr ⟨new.1, new.2.2.symm⟩
  · rintro (⟨n, old⟩ | ⟨rfl, answer⟩)
    · exact ⟨n, List.mem_append_left _ old⟩
    · refine ⟨attempt, List.mem_append_right _ ?_⟩
      rw [answer]
      exact List.mem_singleton_self _

theorem Link.createdBy_served [DecidablePred group] {op : Op} :
    (s.served ext service c attempt op).createdBy group = s.createdBy group ++
      if group c then newRows (dbAfter ext service s.run) (servedNext ext service s.run op).1
      else [] := by
  unfold Link.createdBy Link.served
  rw [List.filter_append, List.map_append]
  congr 1
  split
  · rename_i here
    rw [List.filter_eq_self.mpr (by simp [here]), List.map_map]
    exact List.map_id _
  · rename_i elsewhere
    rw [List.filter_eq_nil_iff.mpr (by simp [elsewhere])]
    rfl

/-- The database after a request was served. -/
theorem Link.dbAfter_served {op : Op} :
    dbAfter ext service (s.served ext service c attempt op).run =
      (servedNext ext service s.run op).1 :=
  dbAfter_concat ext service s.run op

variable [DecidablePred group]

/-- A job that was created for the group is the one of the receipt. -/
theorem Link.Holds.id_of_created {receipt : Receipt} {row : JobRow}
    (holds : s.Holds ext service req group receipt) (mem : row ∈ s.createdBy group) :
    row.id = receipt.jobId := by
  rcases holds.created with empty | ⟨only, here, id, -⟩
  · rw [empty] at mem
    cases mem
  · rw [here, List.mem_singleton] at mem
    rw [mem]
    exact id

/-- **The group has at most one created job**, which has the parent of the request. -/
theorem Link.Once.created_cases (once : s.Once ext service req group) :
    s.createdBy group = [] ∨ ∃ row, s.createdBy group = [row] ∧
      row.parentId = (req.metadata.getD {}).parentColumn := by
  rcases once with ⟨-, empty⟩ | ⟨receipt, holds⟩
  · exact .inl empty
  · rcases holds.created with empty | ⟨row, only, -, parent⟩
    · exact .inl empty
    · exact .inr ⟨row, only, parent⟩

/-- An answer to a call of the group comes from a receipt that stands. -/
theorem Link.Once.holds_of_answered (once : s.Once ext service req group)
    {response : AddJobResponse} (inside : group c) (answered : s.Answered c response) :
    ∃ receipt, s.Holds ext service req group receipt ∧ response.id = receipt.jobId := by
  rcases once with ⟨idle, -⟩ | ⟨receipt, holds⟩
  · exact absurd ⟨c, response, inside, answered⟩ idle
  · exact ⟨receipt, holds, holds.answers c response inside answered⟩

/-- A job created for the group comes with a receipt that stands. -/
theorem Link.Once.holds_of_created (once : s.Once ext service req group) {row : JobRow}
    (mem : row ∈ s.createdBy group) :
    ∃ receipt, s.Holds ext service req group receipt ∧ row.id = receipt.jobId := by
  rcases once with ⟨-, empty⟩ | ⟨receipt, holds⟩
  · rw [empty] at mem
    cases mem
  · exact ⟨receipt, holds, holds.id_of_created mem⟩

/-- Nothing of the group changes but the rest of the database, which keeps the receipt. -/
theorem Link.Once.congr (once : s.Once ext service req group)
    (answered : ∀ c response, group c → (s'.Answered c response ↔ s.Answered c response))
    (created : s'.createdBy group = s.createdBy group)
    (kept : s.Accepted group → ∀ receipt,
      (dbAfter ext service s.run).receiptFor req.name req.idempotencyKey = some receipt →
      (dbAfter ext service s'.run).receiptFor req.name req.idempotencyKey = some receipt) :
    s'.Once ext service req group := by
  rcases once with ⟨idle, empty⟩ | ⟨receipt, holds⟩
  · refine .inl ⟨?_, created.trans empty⟩
    rintro ⟨c, response, inside, answer⟩
    exact idle ⟨c, response, inside, (answered c response inside).mp answer⟩
  · obtain ⟨c, response, inside, answer⟩ := holds.accepted
    exact .inr ⟨receipt, ⟨c, response, inside, (answered c response inside).mpr answer⟩,
      kept holds.accepted receipt holds.found,
      fun c response inside answer => holds.answers c response inside
        ((answered c response inside).mp answer), created ▸ holds.created⟩

/-- **A request of the group is served.**  Without a receipt it may create the job; with one it
is answered from it or refused. -/
theorem Link.Once.served (once : s.Once ext service req group) (keyed : req.idempotencyKey ≠ "")
    (here : group c) (clock : Clock) :
    (s.served ext service c attempt (.addJob clock req)).Once ext service req group := by
  have delivered := addJob_delivered ext service s.run clock keyed
  have after := @Link.dbAfter_served ext service ι s c attempt (.addJob clock req)
  have answers := fun d response => @Link.answered_served ext service ι s c attempt
    (.addJob clock req) d response
  have created := @Link.createdBy_served ext service ι group s c attempt _ (.addJob clock req)
  rw [if_pos here] at created
  generalize servedNext ext service s.run (.addJob clock req) = outcome at *
  cases delivered with
  | refused jobs receipts =>
    rw [newRows_of_same jobs, List.append_nil] at created
    refine once.congr (fun d response _ => ?_) created fun _ receipt found => ?_
    · rw [answers]
      refine or_iff_left ?_
      rintro ⟨-, never⟩
      cases never
    · rw [after, Db.receiptFor, receipts]
      exact found
  | @replayed receipt found =>
    rw [newRows_of_same rfl, List.append_nil] at created
    refine .inr ⟨receipt, ⟨c, _, here, (answers c _).mpr (.inr ⟨rfl, rfl⟩)⟩, ?_,
      fun d response inside answered => ?_, ?_⟩
    · rw [after]
      exact found
    · rcases (answers d response).mp answered with was | ⟨-, new⟩
      · rcases once with ⟨idle, -⟩ | ⟨receipt', holds⟩
        · exact absurd ⟨d, response, inside, was⟩ idle
        · cases found.symm.trans holds.found
          exact holds.answers d response inside was
      · cases new
        rfl
    · rw [created]
      rcases once with ⟨-, empty⟩ | ⟨receipt', holds⟩
      · exact .inl empty
      · cases found.symm.trans holds.found
        exact holds.created
  | @created db' row receipt calls free rows parent found own =>
    rw [newRows_of_append rows] at created
    -- A receipt of the group would have been found.
    rcases once with ⟨idle, empty⟩ | ⟨receipt', holds⟩
    · refine .inr ⟨receipt, ⟨c, _, here, (answers c _).mpr (.inr ⟨rfl, rfl⟩)⟩, ?_,
        fun d response inside answered => ?_, ?_⟩
      · rw [after]
        exact found
      · rcases (answers d response).mp answered with was | ⟨-, new⟩
        · exact absurd ⟨d, response, inside, was⟩ idle
        · cases new
          exact own.symm
      · rw [created, empty]
        exact .inr ⟨row, rfl, own.symm, parent⟩
    · cases free.symm.trans holds.found

variable [DecidableEq ι] {call : ι → Option Prepared}

/-- **A step keeps what holds of the group**, when all its calls send the same request. -/
theorem Link.Once.step (once : s.Once ext service req group) (keyed : req.idempotencyKey ≠ "")
    (same : ∀ c prepared, group c → call c = some prepared → prepared.request = req)
    (keeps : KeepsReceipt ext service req.name req.idempotencyKey group s l)
    (taken : s.step ext service call l = some s') : s'.Once ext service req group := by
  rcases Link.step_cases taken with
    ⟨c, attempt, clock, prepared, rfl, given, rfl⟩ | ⟨op, rfl, rfl⟩ | ⟨run, replies, created, -⟩
  · by_cases here : group c
    · rw [same c prepared here given]
      exact once.served keyed here clock
    · refine once.congr (fun d response inside => ?_) ?_ fun _ receipt found => ?_
      · rw [Link.answered_served]
        refine or_iff_left ?_
        rintro ⟨rfl, -⟩
        exact here inside
      · rw [Link.createdBy_served, if_neg here, List.append_nil]
      · have registers := registers_after ext service s.run (.addJob clock prepared.request) trivial
        exact registers.kept found
  · exact once.congr (fun _ _ _ => Iff.rfl) rfl keeps
  · refine once.congr (fun d response _ => ?_) ?_ fun _ receipt found => ?_
    · unfold Link.Answered
      rw [replies]
    · unfold Link.createdBy
      rw [created]
    · rw [run]
      exact found

end Group

/-! ## Calls that resolve -/

section Calls

variable {ext : Externals} {service : Service} {ι : Type}
variable {call : ι → Option Prepared} {s s' : Link ι} {l : LinkLabel ι}

/-- A call resolves with an answer of the broker. -/
def Link.Truthful (s : Link ι) : Prop :=
  ∀ c sending response, s.calls c = some sending → sending.state = .resolved response →
    s.Answered c response

theorem Link.Truthful.start (before : List Op) : (Link.start before : Link ι).Truthful := by
  intro c sending response found
  cases found

variable [DecidableEq ι]

/-- So it stays in every step. -/
theorem Link.Truthful.step (truthful : s.Truthful) (taken : s.step ext service call l = some s') :
    s'.Truthful := by
  intro c sending response found resolved
  rcases Link.step_cases taken with
    ⟨d, attempt, clock, prepared, -, -, rfl⟩ | ⟨op, -, rfl⟩ | ⟨-, replies, -, resolves⟩
  · exact Link.answered_served.mpr (.inl (truthful c sending response found resolved))
  · exact truthful c sending response found resolved
  · unfold Link.Answered
    rw [replies]
    rcases resolves c sending response found resolved with ⟨old, was, already⟩ | answered
    · exact truthful c old response was already
    · exact answered

end Calls

/-! ## The guarantee -/

/-- **The guarantee for a call** under a key. -/
structure SentOnce {ι : Type} [DecidableEq ι] (ext : Externals) (service : Service)
    (name key : String) (c : ι) (s : Link ι) : Prop where
  /-- All its requests together create at most one job. -/
  once : (s.createdBy (· = c)).length ≤ 1
  /-- If it resolves, it returns the job of the receipt of its key, which is also the one it
  may have created. -/
  resolved : ∀ sending response, s.calls c = some sending → sending.state = .resolved response →
    ∃ receipt, (dbAfter ext service s.run).receiptFor name key = some receipt ∧
      response.id = receipt.jobId ∧ Created ext service s.run receipt.jobId ∧
      ∀ row ∈ s.createdBy (· = c), row.id = receipt.jobId

/-- The effective key of a call is not empty. -/
theorem effectiveKey_ne_empty {options : AddOptions} {minted : String}
    (checked : checkOptions options = .ok ()) (mints : minted ≠ "") :
    options.idempotencyKey.getD minted ≠ "" := by
  cases given : options.idempotencyKey with
  | none => exact mints
  | some key => exact ne_empty_of_checkOptions checked given

/-- **A call of `sendAdd` creates at most one job**, and resolves with the job of its receipt,
whatever the network does and whatever else the broker serves, as long as the receipt of the
call is not removed. -/
theorem send_add_creates_once {ext : Externals} {service : Service} {ι : Type} [DecidableEq ι]
    {call : ι → Option Prepared} {c : ι} {prepared : Prepared} {name : String} {json : Json}
    {options : AddOptions} {minted : String} {before : List Op} {labels : List (LinkLabel ι)}
    {s : Link ι} (given : call c = some prepared)
    (made : prepareAdd name json options minted = .ok prepared)
    (keyed : options.noIdempotencyKey = false) (mints : minted ≠ "")
    (run : Chain (TakesIf (KeepsReceipt ext service name (options.idempotencyKey.getD minted)
      (· = c)) (Link.step ext service call)) (.start before) labels s) :
    SentOnce ext service name (options.idempotencyKey.getD minted) c s := by
  obtain ⟨checked, payload, request, effective⟩ := prepareAdd_ok made
  rw [keyed] at effective
  have sameName : prepared.request.name = name := by rw [request]; rfl
  have sameKey : prepared.request.idempotencyKey = options.idempotencyKey.getD minted := by
    rw [request, effective]
    rfl
  have nonempty : prepared.request.idempotencyKey ≠ "" := by
    rw [sameKey]
    exact effectiveKey_ne_empty checked mints
  have same : ∀ d other, d = c → call d = some other → other.request = prepared.request := by
    rintro d other rfl found
    cases given.symm.trans found
    rfl
  obtain ⟨once, truthful⟩ : s.Once ext service prepared.request (· = c) ∧ s.Truthful := by
    refine run.preserves (I := fun s => s.Once ext service prepared.request (· = c) ∧ s.Truthful)
      ?_ ⟨.start ext service _ _ before, .start before⟩
    rintro s l s' ⟨taken, keeps⟩ ⟨once, truthful⟩
    rw [← sameName, ← sameKey] at keeps
    exact ⟨once.step nonempty same keeps taken, truthful.step taken⟩
  constructor
  · rcases once.created_cases with empty | ⟨row, only, -⟩
    · rw [empty]
      exact Nat.zero_le 1
    · rw [only]
      exact le_refl 1
  · intro sending response found resolved
    have answered := truthful c sending response found resolved
    obtain ⟨receipt, holds, own⟩ := once.holds_of_answered rfl answered
    have stands := holds.found
    rw [sameName, sameKey] at stands
    exact ⟨receipt, stands, own, created_of_receipt ext service s.run stands,
      fun row mem => holds.id_of_created mem⟩

/-- The calls of a client that makes one call, without a key of its own. -/
def mailCall (_ : Unit) : Option Prepared :=
  (prepareAdd "mails" (.ok (some "1")) {} "m").toOption

/-- The first attempt commits, but its answer is lost and the deadline passes; the second is
answered. -/
def mailRun : List (LinkLabel Unit) :=
  [.send () 0, .deliver () 0 fun _ => 10,
    .fail () 5000 (.error (some .deadlineExceeded) "Deadline exceeded"), .wake (),
    .deliver () 1 fun _ => 20, .answer 1 5300]

theorem mailRun_creates_once :
    ∃ s : Link Unit, follow (Link.step .unary {} mailCall) (.start []) mailRun = some s ∧
      (s.created.length, (s.calls ()).map Sending.state) =
        (1, some (.resolved { id := unaryId 0 0, state := .waiting, replayed := true })) ∧
      SentOnce .unary {} "mails" "m" () s := by
  have taken : (follow (Link.step .unary {} mailCall) (.start []) mailRun).map
      (fun s => (s.created.length, (s.calls ()).map Sending.state)) =
        some (1, some (.resolved { id := unaryId 0 0, state := .waiting, replayed := true })) := by
    decide +kernel
  obtain ⟨s, ran, reached⟩ := Option.map_eq_some_iff.mp taken
  have meets : Meets (KeepsReceipt .unary {} "mails" "m" (· = ())) (Link.step .unary {} mailCall)
      (.start []) mailRun := by
    simp only [mailRun, Meets, KeepsReceipt, true_and, implies_true]
  obtain ⟨prepared, made⟩ : ∃ prepared,
      prepareAdd "mails" (.ok (some "1")) {} "m" = .ok prepared := ⟨_, rfl⟩
  have given : mailCall () = some prepared := by
    rw [mailCall, made]
    rfl
  exact ⟨s, ran, reached,
    send_add_creates_once given made rfl (by decide) (chain_of_follow meets ran)⟩

end AnvilMQ.Client
