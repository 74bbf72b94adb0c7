import AnvilMQ.Client.FanOut
import AnvilMQ.Properties.SendOnce

/-!
# A fan-out creates each child once

The key of a child depends on the parent, the name and the position of the child and on
nothing else, so every execution sends the same request for it, and the argument for the
attempts of one call is an argument for the calls of all executions.  Two children have two
receipts, and two receipts name two jobs.

An execution that resolves has seen every task return without an error, and a task that returns
so has stored the answer of the broker.
-/

namespace AnvilMQ.Client

open Relational Transition

/-! ## The guarantee -/

/-- The job was created for the child by a request of one of the executions, or one of its
requests was answered with it. -/
def Link.Gives (s : Link (ℕ × ℕ)) (i : ℕ) (j : JobId) : Prop :=
  (∃ row ∈ s.createdBy (fun c => c.2 = i), row.id = j) ∨
    ∃ e response, s.Answered (e, i) response ∧ response.id = j

section Statement

variable (ext : Externals) (service : Service) (parentId : JobId) (children : List Child)

/-- Once a request for a child was accepted, the receipt of the child is not removed. -/
def KeepsChildren (s : FanOut) : FanOutLabel → Prop
  | .network l => ∀ i child, children[i]? = some child →
      KeepsReceipt ext service child.name (childKey parentId child.name i) (fun c => c.2 = i)
        s.link l
  | _ => True

/-- **The guarantee of a fan-out.** -/
structure FannedOut (s : FanOut) : Prop where
  /-- All executions together create at most one job for a child. -/
  once : ∀ i, (s.link.createdBy fun c => c.2 = i).length ≤ 1
  /-- A child has one job. -/
  one : ∀ {i j j'}, s.link.Gives i j → s.link.Gives i j' → j = j'
  /-- Different children have different jobs. -/
  apart : ∀ {i i' j}, s.link.Gives i j → s.link.Gives i' j → i = i'
  /-- A job that was created for a child has the parent. -/
  parent : ∀ i, ∀ row ∈ s.link.createdBy (fun c => c.2 = i), row.parentId = some parentId
  /-- An execution that resolves returns the job of each child at its position. -/
  resolved : ∀ e x results, s.executions e = some x → x.outcome = some (.ok results) →
    results.length = children.length ∧ ∀ i child, children[i]? = some child →
      ∃ response receipt, results[i]? = some (some response) ∧ s.link.Gives i response.id ∧
        (dbAfter ext service s.link.run).receiptFor child.name
          (childKey parentId child.name i) = some receipt ∧
        response.id = receipt.jobId ∧ Created ext service s.link.run response.id

end Statement

/-! ## An execution -/

section Executions

variable {count i : ℕ} {answered resolved : ℕ → AddJobResponse → Prop} {x x' : Execution}

/-- **The invariant of an execution.**  A child that was handed out is in flight, or the
execution has stopped, or the answer to the child is stored. -/
structure Execution.Inv (count : ℕ) (answered : ℕ → AddJobResponse → Prop) (x : Execution) :
    Prop where
  sound : x.pool.Sound
  exhaustive : x.pool.Exhaustive
  size : x.pool.count = count
  skipped : ∀ i, x.stage i = .skipped → x.stopped.isSome
  stored : ∀ i, i < x.pool.count → i < x.pool.next →
    i ∈ x.pool.running ∨ x.stopped.isSome ∨ ∃ response, x.results i = some response ∧
      answered i response

/-- What a turn makes of an execution. -/
inductive Execution.Turn (resolved : ℕ → AddJobResponse → Prop) (x : Execution) :
    Execution → Prop
  | await {i : ℕ} {stage : ChildStage} (why : stage = .skipped → x.stopped.isSome) :
      Turn resolved x (x.await i stage)
  | skipped {i : ℕ} (here : x.stage i = .skipped) : Turn resolved x (x.finish i)
  | caught {i : ℕ} (error : Thrown) : Turn resolved x ((x.caught error).finish i)
  | stored {i : ℕ} {response : AddJobResponse} (answer : resolved i response) :
      Turn resolved x ((x.store i response).finish i)

namespace Execution.Inv

theorem start (count : ℕ) (answered : ℕ → AddJobResponse → Prop) :
    (Execution.start count).Inv count answered where
  sound := .start count 8
  exhaustive := .start count 8
  size := rfl
  skipped := by
    intro i here
    cases here
  stored := fun i inside started => .inl (List.mem_range.mpr (lt_min started inside))

theorem mono {answered' : ℕ → AddJobResponse → Prop} (inv : x.Inv count answered)
    (more : ∀ i response, answered i response → answered' i response) :
    x.Inv count answered' where
  sound := inv.sound
  exhaustive := inv.exhaustive
  size := inv.size
  skipped := inv.skipped
  stored := by
    intro i inside started
    rcases inv.stored i inside started with flying | stopped | ⟨response, found, answer⟩
    · exact .inl flying
    · exact .inr (.inl stopped)
    · exact .inr (.inr ⟨response, found, more i response answer⟩)

theorem await (inv : x.Inv count answered) {stage : ChildStage}
    (why : stage = .skipped → x.stopped.isSome) : (x.await i stage).Inv count answered where
  sound := inv.sound
  exhaustive := inv.exhaustive
  size := inv.size
  skipped := by
    intro j here
    change Function.update x.stage i stage j = .skipped at here
    rw [Function.update_apply] at here
    split at here
    · exact why here
    · exact inv.skipped j here
  stored := inv.stored

theorem caught (inv : x.Inv count answered) (error : Thrown) :
    (x.caught error).Inv count answered where
  sound := inv.sound
  exhaustive := inv.exhaustive
  size := inv.size
  skipped := fun _ _ => rfl
  stored := fun _ _ _ => .inr (.inl rfl)

theorem store (inv : x.Inv count answered) {response : AddJobResponse}
    (answer : answered i response) : (x.store i response).Inv count answered where
  sound := inv.sound
  exhaustive := inv.exhaustive
  size := inv.size
  skipped := inv.skipped
  stored := by
    intro j inside started
    by_cases here : j = i
    · subst here
      exact .inr (.inr ⟨response, Function.update_self .., answer⟩)
    · rcases inv.stored j inside started with flying | stopped | ⟨other, found, answer⟩
      · exact .inl flying
      · exact .inr (.inl stopped)
      · exact .inr (.inr ⟨other, (Function.update_of_ne here ..).trans found, answer⟩)

/-- The task of a child returns, after an error or with its answer stored. -/
theorem finish (inv : x.Inv count answered)
    (done : x.stopped.isSome ∨ ∃ response, x.results i = some response ∧ answered i response) :
    (x.finish i).Inv count answered where
  sound := inv.sound.finish i
  exhaustive := .finish x.pool i
  size := inv.size
  skipped := inv.skipped
  stored := by
    intro j inside started
    -- The next child was just handed out, if there is one.
    rcases Nat.lt_succ_iff_lt_or_eq.mp started with before | rfl
    · rcases inv.stored j inside before with flying | rest
      · by_cases here : j = i
        · exact .inr (here ▸ done)
        · exact .inl ((Pool.mem_finish inv.sound).mpr (.inl ⟨flying, here⟩))
      · exact .inr rest
    · exact .inl ((Pool.mem_finish inv.sound).mpr (.inr ⟨rfl, inside⟩))

theorem turn (inv : x.Inv count answered) (turn : x.Turn resolved x')
    (truthful : ∀ i response, resolved i response → answered i response) :
    x'.Inv count answered := by
  cases turn with
  | await why => exact inv.await why
  | skipped here => exact inv.finish (.inl (inv.skipped _ here))
  | caught error => exact (inv.caught error).finish (.inl rfl)
  | stored answer =>
    have told := truthful _ _ answer
    exact (inv.store told).finish (.inr ⟨_, Function.update_self .., told⟩)

/-- **An execution that resolves** returns the stored answers of all children. -/
theorem resolves (inv : x.Inv count answered) {results : List (Option AddJobResponse)}
    (ok : x.outcome = some (.ok results)) :
    results.length = count ∧ ∀ i < count, ∃ response, results[i]? = some (some response) ∧
      answered i response := by
  unfold Execution.outcome at ok
  split at ok
  · rename_i idle
    split at ok
    · cases ok
    · rename_i fine
      cases ok
      refine ⟨by rw [List.length_map, List.length_range, inv.size], fun i inside => ?_⟩
      rw [← inv.size] at inside
      have started := inside.trans_le (inv.exhaustive idle)
      rcases inv.stored i inside started with flying | stopped | ⟨response, found, answer⟩
      · rw [idle] at flying
        cases flying
      · rw [fine] at stopped
        cases stopped
      · refine ⟨response, ?_, answer⟩
        rw [List.getElem?_map, List.getElem?_range inside]
        exact congrArg some found
  · cases ok

end Execution.Inv

end Executions

/-! ## What a step does -/

section Steps

variable {ext : Externals} {service : Service} {parentId : JobId} {children : List Child}
variable {s s' : FanOut} {label : FanOutLabel}

/-- How an execution came about: it begins, or it takes a turn. -/
def FanOut.Reaches (children : List Child) (s : FanOut) (e : ℕ) (x' : Execution) : Prop :=
  x' = .start children.length ∨ ∃ x, s.executions e = some x ∧
    x.Turn (fun i response => ∃ sending, s.link.calls (e, i) = some sending ∧
      sending.state = .resolved response) x'

theorem FanOut.reaches_of_setExecution {link : Link (ℕ × ℕ)} {e : ℕ} {x : Execution}
    (new : s.Reaches children e x) {d : ℕ} {x' : Execution}
    (found : ({ s with link := link }.setExecution e x).executions d = some x') :
    s.executions d = some x' ∨ s.Reaches children d x' := by
  rw [executions_setExecution] at found
  split at found
  · rename_i here
    cases found
    exact .inr (here ▸ new)
  · exact .inl found

/-- **What a step does**: the network takes a step or none, and an execution takes a turn or
none. -/
theorem FanOut.step_cases (taken : s.step ext service parentId children label = some s') :
    (s'.link = s.link ∨
      ∃ l, s.link.step ext service (childCall parentId children) l = some s'.link ∧
        ((∃ c started, l = .send c started) ∨ label = .network l)) ∧
    ∀ d x', s'.executions d = some x' → s.executions d = some x' ∨ s.Reaches children d x' := by
  cases label with
  | execute e =>
    simp only [step] at taken
    split at taken
    · cases taken
    · cases taken
      exact ⟨.inl rfl, fun d x' => reaches_of_setExecution (.inl rfl)⟩
  | begin e i started =>
    simp only [step] at taken
    split at taken
    · cases taken
    rename_i x here
    split at taken
    · split at taken
      · rename_i stopped
        cases taken
        exact ⟨.inl rfl, fun d x' =>
          reaches_of_setExecution (.inr ⟨x, here, .await fun _ => stopped⟩)⟩
      · split at taken
        · cases taken
        · cases taken
          refine ⟨.inl rfl, fun d x' =>
            reaches_of_setExecution (.inr ⟨x, here, .await ?_⟩)⟩
          rintro ⟨⟩
        · obtain ⟨link, sent, rfl⟩ := Option.map_eq_some_iff.mp taken
          refine ⟨.inr ⟨_, sent, .inl ⟨_, _, rfl⟩⟩, fun d x' =>
            reaches_of_setExecution (.inr ⟨x, here, .await ?_⟩)⟩
          rintro ⟨⟩
    · cases taken
  | settle e i =>
    simp only [step] at taken
    split at taken
    · cases taken
    rename_i x here
    split at taken
    · split at taken
      · cases taken
      · rename_i skipped
        cases taken
        exact ⟨.inl rfl, fun d x' =>
          reaches_of_setExecution (.inr ⟨x, here, .skipped skipped⟩)⟩
      · cases taken
        exact ⟨.inl rfl, fun d x' =>
          reaches_of_setExecution (.inr ⟨x, here, .caught _⟩)⟩
      · split at taken
        · rename_i resolved
          cases taken
          obtain ⟨sending, found, state⟩ := Option.map_eq_some_iff.mp resolved
          exact ⟨.inl rfl, fun d x' =>
            reaches_of_setExecution (.inr ⟨x, here, .stored ⟨sending, found, state⟩⟩)⟩
        · cases taken
          exact ⟨.inl rfl, fun d x' =>
            reaches_of_setExecution (.inr ⟨x, here, .caught _⟩)⟩
        · cases taken
    · cases taken
  | network l =>
    have moved : (s.link.step ext service (childCall parentId children) l).map
        (fun link => { s with link := link }) = some s' := by
      cases l with
      | send c started => cases taken
      | _ => exact taken
    obtain ⟨link, sent, rfl⟩ := Option.map_eq_some_iff.mp moved
    exact ⟨.inr ⟨l, sent, .inr rfl⟩, fun d x' => .inl⟩

end Steps

/-! ## The requests of the children -/

section Requests

variable {parentId : JobId} {children : List Child} {c : ℕ × ℕ} {prepared : Prepared}

/-- Neither a key nor the lack of one was asked for. -/
def Child.Plain (child : Child) : Prop :=
  child.options.idempotencyKey = none ∧ child.options.noIdempotencyKey = false

/-- **The request for a child** goes to its queue, under its key and with the parent. -/
theorem childCall_request (plain : ∀ child ∈ children, child.Plain)
    (given : childCall parentId children c = some prepared) :
    ∃ child, children[c.2]? = some child ∧ prepared.request.name = child.name ∧
      prepared.request.idempotencyKey = childKey parentId child.name c.2 ∧
      prepared.request.metadata = some { parentId := parentId } ∧
      prepared.request.idempotencyKey ≠ "" := by
  obtain ⟨outcome, made, ok⟩ := Option.bind_eq_some_iff.mp given
  obtain ⟨child, here, rfl⟩ := Option.map_eq_some_iff.mp made
  obtain ⟨noKey, keyed⟩ := plain child (List.mem_of_getElem? here)
  cases done : prepareAdd child.name child.json (childOptions parentId child c.2) "" with
  | error thrown =>
    rw [done] at ok
    cases ok
  | ok call =>
    rw [done] at ok
    cases ok
    obtain ⟨checked, payload, request, effective⟩ := prepareAdd_ok done
    have key : (childOptions parentId child c.2).idempotencyKey =
        some (childKey parentId child.name c.2) := by
      unfold childOptions
      rw [noKey]
      rfl
    have sent : prepared.request.idempotencyKey = childKey parentId child.name c.2 := by
      rw [request, effective, key, show (childOptions parentId child c.2).noIdempotencyKey = false
        from keyed]
      rfl
    refine ⟨child, here, by rw [request]; rfl, sent, by rw [request]; rfl, ?_⟩
    rw [sent]
    exact ne_empty_of_checkOptions checked key

end Requests

/-! ## The invariant -/

section Invariant

variable {ext : Externals} {service : Service} {parentId : JobId} {children : List Child}
variable {s s' : FanOut} {label : FanOutLabel} {i : ℕ} {j : JobId}

/-- Only calls that were made are answered or create jobs. -/
structure Link.Known {ι : Type} (call : ι → Option Prepared) (s : Link ι) : Prop where
  replies : ∀ entry ∈ s.replies, (call entry.1).isSome
  created : ∀ entry ∈ s.created, (call entry.1).isSome

/-- A step of the network answers only calls that were made. -/
theorem Link.Known.step {ι : Type} [DecidableEq ι] {call : ι → Option Prepared} {s s' : Link ι}
    {l : LinkLabel ι} (known : s.Known call) (taken : s.step ext service call l = some s') :
    s'.Known call := by
  rcases Link.step_cases taken with
    ⟨c, attempt, clock, prepared, rfl, given, rfl⟩ | ⟨op, rfl, rfl⟩ | ⟨-, replies, created, -⟩
  · have made : (call c).isSome := by rw [given]; rfl
    constructor
    · intro entry mem
      rcases List.mem_append.mp mem with old | new
      · exact known.replies entry old
      · rw [List.mem_singleton.mp new]
        exact made
    · intro entry mem
      rcases List.mem_append.mp mem with old | new
      · exact known.created entry old
      · obtain ⟨row, -, rfl⟩ := List.mem_map.mp new
        exact made
  · exact ⟨known.replies, known.created⟩
  · exact ⟨replies ▸ known.replies, created ▸ known.created⟩

/-- Answers are not taken back. -/
theorem Link.Answered.step {ι : Type} [DecidableEq ι] {call : ι → Option Prepared}
    {s s' : Link ι} {l : LinkLabel ι} {c : ι} {response : AddJobResponse}
    (answered : s.Answered c response) (taken : s.step ext service call l = some s') :
    s'.Answered c response := by
  rcases Link.step_cases taken with
    ⟨d, attempt, clock, prepared, -, -, rfl⟩ | ⟨op, -, rfl⟩ | ⟨-, replies, -, -⟩
  · exact Link.answered_served.mpr (.inl answered)
  · exact answered
  · unfold Link.Answered
    rw [replies]
    exact answered

/-- **The invariant of the fan-out.** -/
structure FanOut.Inv (ext : Externals) (service : Service) (parentId : JobId)
    (children : List Child) (s : FanOut) : Prop where
  once : ∀ c prepared, childCall parentId children c = some prepared →
    s.link.Once ext service prepared.request fun d => d.2 = c.2
  known : s.link.Known (childCall parentId children)
  truthful : s.link.Truthful
  executions : ∀ e x, s.executions e = some x →
    x.Inv children.length fun i response => s.link.Answered (e, i) response

theorem FanOut.Inv.start (before : List Op) :
    (FanOut.start before).Inv ext service parentId children where
  once := fun _ _ _ => .start ext service _ _ before
  known := ⟨by rintro _ ⟨⟩, by rintro _ ⟨⟩⟩
  truthful := .start before
  executions := by
    intro e x found
    cases found

/-- **A step keeps the invariant.** -/
theorem FanOut.Inv.step (plain : ∀ child ∈ children, child.Plain)
    (inv : s.Inv ext service parentId children)
    (keeps : KeepsChildren ext service parentId children s label)
    (taken : s.step ext service parentId children label = some s') :
    s'.Inv ext service parentId children := by
  obtain ⟨network, executions⟩ := FanOut.step_cases taken
  -- What every step of the network keeps is kept.
  have carried : ∀ P : Link (ℕ × ℕ) → Prop, (∀ {l},
      s.link.step ext service (childCall parentId children) l = some s'.link →
        P s.link → P s'.link) → P s.link → P s'.link := by
    intro P keep holds
    rcases network with same | ⟨l, moved, -⟩
    · rw [same]
      exact holds
    · exact keep moved holds
  have grown : ∀ c response, s.link.Answered c response → s'.link.Answered c response :=
    fun c response => carried (Link.Answered · c response) fun moved answered =>
      answered.step moved
  constructor
  case once =>
    intro c prepared given
    have once := inv.once c prepared given
    rcases network with same | ⟨l, moved, why⟩
    · rw [same]
      exact once
    · obtain ⟨child, here, name, key, -, nonempty⟩ := childCall_request plain given
      refine once.step nonempty ?_ ?_ moved
      · -- All executions send the same request for a child.
        intro d other same found
        have agree : childCall parentId children d = childCall parentId children c := by
          unfold childCall
          rw [same]
        rw [agree, given] at found
        cases found
        rfl
      · rw [name, key]
        rcases why with ⟨d, started, rfl⟩ | rfl
        · exact trivial
        · exact keeps c.2 child here
  case known => exact carried _ (fun moved known => known.step moved) inv.known
  case truthful => exact carried _ (fun moved truthful => truthful.step moved) inv.truthful
  case executions =>
    intro e x' found
    rcases executions e x' found with old | begun | ⟨x, old, turn⟩
    · exact (inv.executions e x' old).mono fun i => grown (e, i)
    · rw [begun]
      exact .start _ _
    · refine ((inv.executions e x old).turn turn ?_).mono fun i => grown (e, i)
      rintro i response ⟨sending, there, state⟩
      exact inv.truthful (e, i) sending response there state

/-- A job of a child was given to a call that was made. -/
theorem Link.Known.of_gives {call : ℕ × ℕ → Option Prepared} {s : Link (ℕ × ℕ)}
    (known : s.Known call) (gives : s.Gives i j) :
    ∃ c prepared, c.2 = i ∧ call c = some prepared := by
  rcases gives with ⟨row, mem, -⟩ | ⟨e, response, ⟨attempt, mem⟩, -⟩
  · obtain ⟨⟨c, row⟩, inside, -⟩ := List.mem_map.mp mem
    obtain ⟨stored, here⟩ := List.mem_filter.mp inside
    obtain ⟨prepared, given⟩ := Option.isSome_iff_exists.mp (known.created _ stored)
    exact ⟨c, prepared, of_decide_eq_true here, given⟩
  · obtain ⟨prepared, given⟩ := Option.isSome_iff_exists.mp (known.replies _ mem)
    exact ⟨(e, i), prepared, rfl, given⟩

/-- **The job of a child is the job of its receipt.** -/
theorem FanOut.Inv.receipt_of_gives (plain : ∀ child ∈ children, child.Plain)
    (inv : s.Inv ext service parentId children) (gives : s.link.Gives i j) :
    ∃ child receipt, children[i]? = some child ∧
      (dbAfter ext service s.link.run).receiptFor child.name
        (childKey parentId child.name i) = some receipt ∧ receipt.jobId = j := by
  obtain ⟨c, prepared, rfl, given⟩ := inv.known.of_gives gives
  obtain ⟨child, here, name, key, -, -⟩ := childCall_request plain given
  have once := inv.once c prepared given
  obtain ⟨receipt, holds, own⟩ : ∃ receipt,
      s.link.Holds ext service prepared.request (fun d => d.2 = c.2) receipt ∧
        j = receipt.jobId := by
    rcases gives with ⟨row, mem, rfl⟩ | ⟨e, response, answered, rfl⟩
    · exact once.holds_of_created mem
    · exact once.holds_of_answered (c := (e, c.2)) rfl answered
  have stands := holds.found
  rw [name, key] at stands
  exact ⟨child, receipt, here, stands, own.symm⟩

/-- **A child has at most one created job**, which has the parent. -/
theorem FanOut.Inv.created_cases (plain : ∀ child ∈ children, child.Plain) (named : parentId ≠ "")
    (inv : s.Inv ext service parentId children) (i : ℕ) :
    (s.link.createdBy fun c => c.2 = i) = [] ∨ ∃ row,
      (s.link.createdBy fun c => c.2 = i) = [row] ∧ row.parentId = some parentId := by
  rcases List.eq_nil_or_concat (s.link.createdBy fun c => c.2 = i) with empty | ⟨_, row, last⟩
  · exact .inl empty
  · have gives : s.link.Gives i row.id := .inl ⟨row, by rw [last]; simp, rfl⟩
    obtain ⟨c, prepared, rfl, given⟩ := inv.known.of_gives gives
    obtain ⟨child, -, -, -, metadata, -⟩ := childCall_request plain given
    have column : (prepared.request.metadata.getD {}).parentColumn = some parentId := by
      rw [metadata]
      exact if_neg named
    rcases (inv.once c prepared given).created_cases with empty | ⟨row, only, parent⟩
    · exact .inl empty
    · exact .inr ⟨row, only, parent.trans column⟩

end Invariant

/-- **A fan-out creates each child once.**  Whatever executions of a parent job call
`enqueueChildBulk` with the same children, wherever they are cut off and whatever the network
loses, and whatever else the broker serves, as long as the receipts of the children are not
removed. -/
theorem fan_out_creates_each_once {ext : Externals} {service : Service} {parentId : JobId}
    {children : List Child} {before : List Op} {labels : List FanOutLabel} {s : FanOut}
    (plain : ∀ child ∈ children, child.Plain) (parent : Created ext service before parentId)
    (run : Chain (TakesIf (KeepsChildren ext service parentId children)
      (FanOut.step ext service parentId children)) (.start before) labels s) :
    FannedOut ext service parentId children s := by
  have named : parentId ≠ "" := by
    obtain ⟨earlier, -, live⟩ := parent
    exact (sound_after ext service earlier).named parentId live
  have inv : s.Inv ext service parentId children := by
    refine run.preserves (I := FanOut.Inv ext service parentId children) ?_ (.start before)
    rintro s label s' ⟨taken, keeps⟩ inv
    exact inv.step plain keeps taken
  constructor
  case once =>
    intro i
    rcases inv.created_cases plain named i with empty | ⟨row, only, -⟩
    · rw [empty]
      exact Nat.zero_le 1
    · rw [only]
      exact le_refl 1
  case one =>
    intro i j j' gives gives'
    obtain ⟨child, receipt, here, found, rfl⟩ := inv.receipt_of_gives plain gives
    obtain ⟨child', receipt', here', found', rfl⟩ := inv.receipt_of_gives plain gives'
    cases here.symm.trans here'
    cases found.symm.trans found'
    rfl
  case apart =>
    intro i i' j gives gives'
    obtain ⟨child, receipt, -, found, rfl⟩ := inv.receipt_of_gives plain gives
    obtain ⟨child', receipt', -, found', same⟩ := inv.receipt_of_gives plain gives'
    have keys : (child.name, childKey parentId child.name i) =
        (child'.name, childKey parentId child'.name i') :=
      receipts_apart_after ext service s.link.run _ _ receipt receipt' found found' same.symm
    obtain ⟨names, keys⟩ := Prod.mk.inj keys
    rw [names] at keys
    exact childKey_injective keys
  case parent =>
    intro i row mem
    rcases inv.created_cases plain named i with empty | ⟨only, here, column⟩
    · rw [empty] at mem
      cases mem
    · rw [here, List.mem_singleton] at mem
      rw [mem]
      exact column
  case resolved =>
    intro e x results found ok
    obtain ⟨length, stored⟩ := (inv.executions e x found).resolves ok
    refine ⟨length, fun i child here => ?_⟩
    obtain ⟨inside, -⟩ := List.getElem?_eq_some_iff.mp here
    obtain ⟨response, returned, answered⟩ := stored i inside
    have gives : s.link.Gives i response.id := .inr ⟨e, response, answered, rfl⟩
    obtain ⟨child', receipt, here', stands, own⟩ := inv.receipt_of_gives plain gives
    cases here.symm.trans here'
    exact ⟨response, receipt, returned, gives, stands, own.symm,
      own ▸ created_of_receipt ext service s.link.run stands⟩

/-- The enqueue of the parent. -/
def parentRun : List Op := [.addJob (fun _ => 0) { name := "reports", payload := [] }]

/-- Two children of one queue. -/
def pages : List Child :=
  [{ name := "pages", json := .ok (some "1") }, { name := "pages", json := .ok (some "2") }]

/-- The first execution is cut off after the broker has created the first child; the second
resolves. -/
def pagesRun : List FanOutLabel :=
  [.execute 0, .begin 0 0 0, .network (.deliver (0, 0) 0 fun _ => 10),
    .execute 1, .begin 1 0 5000, .begin 1 1 5000, .network (.deliver (1, 0) 0 fun _ => 20),
    .network (.deliver (1, 1) 0 fun _ => 30), .network (.answer 1 5020),
    .network (.answer 2 5030), .settle 1 1, .settle 1 0]

theorem pagesRun_creates_each_once :
    ∃ s : FanOut, follow (FanOut.step .unary {} (unaryId 0 0) pages) (.start parentRun) pagesRun =
        some s ∧
      (s.link.created.length, (s.executions 1).bind Execution.outcome) =
        (2, some (.ok [some { id := unaryId 1 0, state := .waiting, replayed := true },
          some { id := unaryId 3 0, state := .waiting, replayed := false }])) ∧
      FannedOut .unary {} (unaryId 0 0) pages s := by
  have taken : (follow (FanOut.step .unary {} (unaryId 0 0) pages) (.start parentRun)
      pagesRun).map (fun s => (s.link.created.length, (s.executions 1).bind Execution.outcome)) =
        some (2, some (.ok [some { id := unaryId 1 0, state := .waiting, replayed := true },
          some { id := unaryId 3 0, state := .waiting, replayed := false }])) := by
    decide +kernel
  obtain ⟨s, ran, reached⟩ := Option.map_eq_some_iff.mp taken
  have plain : ∀ child ∈ pages, child.Plain := by
    simp [pages, Child.Plain]
  have parent : Created .unary {} parentRun (unaryId 0 0) :=
    ⟨parentRun, List.prefix_rfl, by decide +kernel⟩
  have meets : Meets (KeepsChildren .unary {} (unaryId 0 0) pages)
      (FanOut.step .unary {} (unaryId 0 0) pages) (.start parentRun) pagesRun := by
    simp only [pagesRun, Meets, KeepsChildren, KeepsReceipt, true_and, implies_true]
  exact ⟨s, ran, reached, fan_out_creates_each_once plain parent (chain_of_follow meets ran)⟩

end AnvilMQ.Client
