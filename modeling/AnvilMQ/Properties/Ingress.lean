import AnvilMQ.Ledger.Refinement

/-!
# Ingress limits

An ingress rule pauses a facet or admits its jobs through a sliding-window counter.
`enqueue_one` asks the counter before it inserts a job; the flow requests insert
their nodes without asking.
-/

namespace AnvilMQ

open Rust Relational Transition

/-! ## The guarantee -/

/-- The bucket pair before and after successive admissions at the given times. -/
inductive Admits (ext : Externals) (rule : LimitRule) :
    Option Bucket → List ℤ → Option Bucket → Prop
  | nil (bucket : Option Bucket) : Admits ext rule bucket [] bucket
  | cons {before after : Option Bucket} {counted : Bucket} {now : ℤ} {rest : List ℤ} :
      admitBucket ext rule before now = some counted → Admits ext rule (some counted) rest after →
      Admits ext rule before (now :: rest) after

section Statement

variable (ext : Externals) (service : Service)

/-- The operation inserts the job `j` with the facet `f`. -/
def Inserts (run : List Op) (op : Op) (f : String) (j : JobId) : Prop :=
  ¬ (dbAfter ext service run).jobs.Has j ∧
    ∃ row, (dbAfter ext service (run ++ [op])).jobs.find? j = some row ∧
      row.rateLimitFacet = some f

/-- **What an operation inserts under an ingress rule was admitted and counted.** -/
structure IngressCovers (run : List Op) (op : Op) : Prop where
  /-- Nothing is inserted while the facet is paused. -/
  paused : ∀ f rule j, (dbAfter ext service run).ingressLimitRules.find? f = some rule →
    rule.maxJobs = 0 → ¬ Inserts ext service run op f j
  /-- Every inserted job has an admission of its own, and these admissions are what
  happens to the counter. -/
  counted : ∀ f rule, (dbAfter ext service run).ingressLimitRules.find? f = some rule →
    (∃ j, Inserts ext service run op f j) →
    ∃ log : List (JobId × ℤ), (log.map Prod.fst).Nodup ∧
      (∀ j, j ∈ log.map Prod.fst ↔ Inserts ext service run op f j) ∧
      Admits ext rule ((dbAfter ext service run).ingressBucket f) (log.map Prod.snd)
        ((dbAfter ext service (run ++ [op])).ingressBucket f)

/-- **The condition on flows**: a committed flow request creates no node whose facet
has an ingress rule. -/
def FlowsUnruled (run : List Op) (op : Op) : Prop :=
  (∃ reply, replyTo ext service run op = some reply) →
    ∀ options ∈ op.newNodes, options.rateLimitFacet ≠ "" →
      (dbAfter ext service run).ingressLimitRules.find? options.rateLimitFacet = none

end Statement

variable {ext : Externals} {service : Service} {l l' : Ledger} {e : Event} {rule : LimitRule}
  {asked : List FlowOptions}

/-! ## Admissions along a chain -/

/-- The admission of a job of the facet `f` an event makes. -/
def Event.admits (f : String) : Event → Option (JobId × ℤ)
  | enqueued row now _ => if row.rateLimitFacet = some f then some (row.id, now) else none
  | _ => none

/-- The events that leave the ingress rules alone. -/
def Event.KeepsRules : Event → Prop
  | ruleStored _ => False
  | ruleDropped _ => False
  | _ => True

theorem Event.enqueued_of_admits {f : String} {j : JobId} {now : ℤ}
    (admits : e.admits f = some (j, now)) :
    ∃ row slot, e = .enqueued row now slot ∧ row.rateLimitFacet = some f ∧ row.id = j := by
  cases e with
  | enqueued row at_ slot =>
    simp only [Event.admits] at admits
    split at admits
    · cases admits
      exact ⟨row, slot, rfl, ‹_›, rfl⟩
    · cases admits
  | _ => cases admits

theorem Event.KeepsRules.ruleAfter (keeps : e.KeepsRules) (f : String)
    (old : Option LimitRule) : e.ruleAfter f old = old := by
  cases e <;> first | exact keeps.elim | rfl

/-- The counter of a ruled facet after an event: one admission, or nothing. -/
theorem Step.ingressBucket (step : Step ext l e l') (keeps : e.KeepsRules) {f : String}
    (ruled : l.ingressLimitRules f = some rule) :
    (∃ j now counted, e.admits f = some (j, now) ∧
      admitBucket ext rule (l.ingressBucket f) now = some counted ∧
      l'.ingressBucket f = some counted) ∨
    (e.admits f = none ∧ l'.ingressBucket f = l.ingressBucket f) := by
  obtain ⟨enabled, rfl⟩ := step
  cases e with
  | enqueued row now slot =>
    have admitted := enabled.admitted
    simp only [Event.admits, Ledger.apply, Event.bucketsAfter]
    cases facet : row.rateLimitFacet with
    | none => exact .inr ⟨rfl, rfl⟩
    | some g =>
      rw [facet] at admitted
      by_cases same : g = f
      · subst same
        left
        simp only [Ledger.admission, ruled] at admitted ⊢
        cases counted : admitBucket ext rule (l.ingressBucket g) now with
        | none => simp [counted] at admitted
        | some bucket => exact ⟨row.id, now, bucket, by simp, counted, by simp⟩
      · right
        refine ⟨by simp [same], ?_⟩
        rw [Ledger.admission]
        cases l.ingressLimitRules g with
        | none => rfl
        | some other =>
          dsimp only
          cases admitBucket ext other (l.ingressBucket g) now with
          | none => rfl
          | some bucket => simp [Function.update_of_ne (Ne.symm same)]
  | ruleStored stored => exact keeps.elim
  | ruleDropped dropped => exact keeps.elim
  | _ => exact .inr ⟨rfl, rfl⟩

/-- **A chain admits the jobs it enqueues.** -/
theorem admits_of_chain {events : List Event} (chain : Chain (Step ext) l events l')
    (keeps : ∀ e ∈ events, e.KeepsRules) {f : String} (ruled : l.ingressLimitRules f = some rule) :
    Admits ext rule (l.ingressBucket f) ((events.filterMap (Event.admits f)).map Prod.snd)
      (l'.ingressBucket f) := by
  induction chain with
  | nil => exact .nil _
  | @cons l next final e events head rest ih =>
    have still : next.ingressLimitRules f = some rule := by
      rw [← ruled, head.2]
      exact (keeps e List.mem_cons_self).ruleAfter f _
    have later := ih (fun e mem => keeps e (List.mem_cons_of_mem _ mem)) still
    rcases head.ingressBucket (keeps e List.mem_cons_self) ruled with
      ⟨j, now, counted, admits, admitted, after⟩ | ⟨none, same⟩
    · rw [List.filterMap_cons_some admits, List.map_cons]
      rw [after] at later
      exact .cons admitted later
    · rwa [List.filterMap_cons_none none, ← same]

/-- The ids a chain admits are among those it brings into being. -/
theorem admits_sublist (f : String) (events : List Event) :
    ((events.filterMap (Event.admits f)).map Prod.fst).Sublist
      ((events.filterMap Event.born).map JobRow.id) := by
  induction events with
  | nil => exact .slnil
  | cons e events ih =>
    cases admits : e.admits f with
    | none =>
      rw [List.filterMap_cons_none admits]
      cases birth : e.born with
      | none => rwa [List.filterMap_cons_none birth]
      | some row =>
        rw [List.filterMap_cons_some birth]
        exact ih.cons _
    | some admission =>
      obtain ⟨j, now⟩ := admission
      obtain ⟨row, slot, rfl, -, rfl⟩ := Event.enqueued_of_admits admits
      have birth : (Event.enqueued row now slot).born = some row := rfl
      rw [List.filterMap_cons_some admits, List.filterMap_cons_some birth]
      exact ih.cons_cons _

/-! ## Operations that create jobs -/

/-- The operations that insert jobs. -/
def Op.Creates : Op → Prop
  | addJob _ _ => True
  | addJobBulk _ _ => True
  | addFlow _ _ => True
  | addFlowBulk _ _ => True
  | addFlowMerge _ _ => True
  | runOnce _ _ => True
  | _ => False

/-- An event of an operation that creates jobs: it archives none and keeps the
rules, and a job of a facet that it creates without an admission is a node the
operation was asked for. -/
structure Event.Creation (asked : List FlowOptions) (e : Event) : Prop where
  kept : e.retiredId = none
  keepsRules : e.KeepsRules
  admitted : ∀ row f, e.born = some row → row.rateLimitFacet = some f →
    (∃ now, e.admits f = some (row.id, now)) ∨
      ∃ options ∈ asked, textColumn options.rateLimitFacet = some f

theorem Event.Creation.of_unborn (kept : e.retiredId = none) (keepsRules : e.KeepsRules)
    (unborn : e.born = none) : e.Creation asked := by
  refine ⟨kept, keepsRules, fun row f born _ => ?_⟩
  rw [unborn] at born
  cases born

theorem Event.IsIntake.creation (intake : e.IsIntake) (asked : List FlowOptions) :
    e.Creation asked := by
  cases e with
  | enqueued row now slot =>
    refine ⟨rfl, trivial, fun other f born facet => ?_⟩
    cases born
    exact .inl ⟨now, if_pos facet⟩
  | receipted receipt request => exact .of_unborn rfl trivial rfl
  | schedulerStored row old => exact .of_unborn rfl trivial rfl
  | _ => exact intake.elim

theorem Event.Sows.creation (sows : e.Sows asked) : e.Creation asked := by
  cases e with
  | planted row slot =>
    refine ⟨rfl, trivial, fun other f born facet => ?_⟩
    cases born
    obtain ⟨options, mem, same, -⟩ := sows
    exact .inr ⟨options, mem, same.symm.trans facet⟩
  | receipted receipt request => exact .of_unborn rfl trivial rfl
  | _ => exact sows.elim

theorem Event.Merges.creation {target : JobRow} (merges : e.Merges asked target) :
    e.Creation asked := by
  cases e with
  | adopted row => exact .of_unborn rfl trivial rfl
  | regated row n updatedAt => exact .of_unborn rfl trivial rfl
  | _ => exact Event.Sows.creation merges

/-- An operation creates jobs for what was asked, or none. -/
theorem Op.Emits.creates {db : Db} {op : Op} (emits : op.Emits service db e) :
    (¬ op.Creates ∧ e.born = none) ∨ (op.Creates ∧ e.Creation op.newNodes) := by
  cases op with
  | addJob clock req => exact .inr ⟨trivial, Event.IsIntake.creation emits _⟩
  | addJobBulk clock requests => exact .inr ⟨trivial, Event.IsIntake.creation emits _⟩
  | runOnce clock batchSize => exact .inr ⟨trivial, Event.IsIntake.creation emits _⟩
  | addFlow clock flow => exact .inr ⟨trivial, Event.Sows.creation emits⟩
  | addFlowBulk clock flows => exact .inr ⟨trivial, Event.Sows.creation emits⟩
  | addFlowMerge clock flow =>
    obtain ⟨tree, target, rfl, -, merges⟩ := emits
    exact .inr ⟨trivial, merges.creation⟩
  | getNextJob _ _ | heartbeat _ _ | completeJob _ _ | failJob _ _ _ | recoverExpired _ _ =>
    have work := emits.isWork trivial
    cases e <;> first | exact work.elim | exact .inl ⟨id, rfl⟩
  | upsertRateLimitRule clock req => exact emits.elim
  | deleteRateLimitRule facetKey => exact emits.elim
  | _ => cases e <;> first | exact emits.elim | exact .inl ⟨id, rfl⟩

/-! ## Runs -/

section Runs

variable {run : List Op} {op : Op} {f : String} {j : JobId}

/-- What an operation inserts is born by one of its events. -/
theorem born_of_inserts (inserts : Inserts ext service run op f j) :
    ∃ e ∈ eventsOf ext service run op, ∃ row, e.born = some row ∧ row.id = j ∧
      row.rateLimitFacet = some f := by
  obtain ⟨absent, row, live, facet⟩ := inserts
  rcases Ledger.Sound.live_or_born_of_chain (next_chain ext service run op) live with
    ⟨old, was, -⟩ | ⟨e, mem, newborn, born, here, same⟩
  · exact absurd (Table.has_iff_find?.mpr ⟨old, was⟩) absent
  · rcases List.mem_append.mp mem with mem | last
    · exact ⟨e, mem, newborn, born, here, same.rateLimitFacet.symm.trans facet⟩
    · rw [List.mem_singleton.mp last] at born
      cases born

theorem creates_of_born {row : JobRow} (mem : e ∈ eventsOf ext service run op)
    (born : e.born = some row) : op.Creates := by
  obtain ⟨slot, refines⟩ := eventsOf_refines ext service run op
  rcases (refines.emits e mem).creates with ⟨-, unborn⟩ | ⟨creates, -⟩
  · rw [unborn] at born
    cases born
  · exact creates

theorem creation_of_creates (creates : op.Creates) :
    ∀ e ∈ eventsOf ext service run op ++ [.tick], e.Creation op.newNodes := by
  obtain ⟨slot, refines⟩ := eventsOf_refines ext service run op
  intro e mem
  rcases List.mem_append.mp mem with here | last
  · rcases (refines.emits e here).creates with ⟨other, -⟩ | ⟨-, creation⟩
    · exact absurd creates other
    · exact creation
  · rw [List.mem_singleton.mp last]
    exact .of_unborn rfl trivial rfl

/-- Under the condition, every job of a ruled facet is admitted. -/
theorem admitted_of_flowsUnruled (unruled : FlowsUnruled ext service run op)
    (ruled : (dbAfter ext service run).ingressLimitRules.find? f = some rule) {row : JobRow}
    (mem : e ∈ eventsOf ext service run op) (born : e.born = some row)
    (facet : row.rateLimitFacet = some f) : ∃ now, e.admits f = some (row.id, now) := by
  have creation := creation_of_creates (creates_of_born mem born) e (List.mem_append_left _ mem)
  rcases creation.admitted row f born facet with admitted | ⟨options, asked, column⟩
  · exact admitted
  · rw [textColumn] at column
    split at column
    · cases column
    · rename_i named
      have free := unruled (answered_of_mem ext service mem) options asked named
      rw [Option.some.inj column, ruled] at free
      cases free

/-- The jobs of a facet an operation inserts are those its events admit. -/
theorem mem_admits_iff (unruled : FlowsUnruled ext service run op) {rule : LimitRule}
    (ruled : (dbAfter ext service run).ingressLimitRules.find? f = some rule)
    (creates : op.Creates) :
    j ∈ ((eventsOf ext service run op ++ [Event.tick]).filterMap (Event.admits f)).map Prod.fst ↔
      Inserts ext service run op f j := by
  have sound := sound_after ext service run
  have chain := next_chain ext service run op
  constructor
  · intro logged
    obtain ⟨⟨id, now⟩, admission, rfl⟩ := List.mem_map.mp logged
    obtain ⟨e, mem, admits⟩ := List.mem_filterMap.mp admission
    obtain ⟨row, slot, rfl, facet, rfl⟩ := Event.enqueued_of_admits admits
    have birth : (Event.enqueued row now slot).born = some row := rfl
    obtain ⟨row', live, same⟩ := sound.live_of_born chain
      (fun e mem => (creation_of_creates creates e mem).kept) mem birth
    refine ⟨fun was => ?_, row', live, same.rateLimitFacet.trans facet⟩
    obtain ⟨old, found⟩ := Table.has_iff_find?.mp was
    exact Ledger.Sound.born_not_drawn chain mem birth (sound.drawn found)
  · intro inserts
    obtain ⟨e, mem, row, born, rfl, facet⟩ := born_of_inserts inserts
    obtain ⟨now, admits⟩ := admitted_of_flowsUnruled unruled ruled mem born facet
    exact List.mem_map.mpr ⟨(row.id, now),
      List.mem_filterMap.mpr ⟨e, List.mem_append_left _ mem, admits⟩, rfl⟩

/-- A paused facet admits nothing. -/
theorem Admits.eq_nil {before after : Option Bucket} {times : List ℤ}
    (admits : Admits ext rule before times after) (paused : rule.maxJobs = 0) : times = [] := by
  cases admits with
  | nil => rfl
  | cons admitted _ =>
    rw [admitBucket, if_pos paused] at admitted
    cases admitted

theorem counted_of_flowsUnruled (unruled : FlowsUnruled ext service run op)
    (ruled : (dbAfter ext service run).ingressLimitRules.find? f = some rule)
    (inserted : ∃ j, Inserts ext service run op f j) :
    ∃ log : List (JobId × ℤ), (log.map Prod.fst).Nodup ∧
      (∀ j, j ∈ log.map Prod.fst ↔ Inserts ext service run op f j) ∧
      Admits ext rule ((dbAfter ext service run).ingressBucket f) (log.map Prod.snd)
        ((dbAfter ext service (run ++ [op])).ingressBucket f) := by
  obtain ⟨j, inserts⟩ := inserted
  obtain ⟨e, mem, row, born, -⟩ := born_of_inserts inserts
  have creates := creates_of_born mem born
  have chain := next_chain ext service run op
  refine ⟨(eventsOf ext service run op ++ [Event.tick]).filterMap (Event.admits f), ?_,
    fun j => mem_admits_iff unruled ruled creates, ?_⟩
  · exact (Ledger.Sound.born_nodup chain).sublist (admits_sublist f _)
  · exact admits_of_chain chain (fun e mem => (creation_of_creates creates e mem).keepsRules) ruled

theorem covers_of_flowsUnruled (unruled : FlowsUnruled ext service run op) :
    IngressCovers ext service run op where
  paused := by
    intro f rule j ruled paused inserts
    obtain ⟨log, -, ids, admits⟩ := counted_of_flowsUnruled unruled ruled ⟨j, inserts⟩
    have mem := (ids j).mpr inserts
    have unlogged : log = [] := List.map_eq_nil_iff.mp (admits.eq_nil paused)
    rw [unlogged] at mem
    cases mem
  counted := fun f rule ruled inserted => counted_of_flowsUnruled unruled ruled inserted

end Runs

/-- **Ingress limits cover every insertion of a run whose flow requests have no
ruled facet.** -/
theorem ingress_covers_of_flowsUnruled (ext : Externals) (service : Service) (run : List Op)
    (along : Along (FlowsUnruled ext service) run) : Along (IngressCovers ext service) run :=
  fun before op le => covers_of_flowsUnruled (along before op le)

/-! ## A paused facet -/

section Samples

/-- A flow of one job of the facet. -/
def plantFaceted : Op := .addFlow stopped (some (.node { name := "a", rateLimitFacet := "f" } []))

/-- **A flow passes a paused facet**: its job is inserted although the rule admits
nothing. -/
theorem flow_passes_paused_facet : ¬ IngressCovers .unary {} [pauseFacet] plantFaceted := by
  intro covers
  have ruled : (dbAfter .unary {} [pauseFacet]).ingressLimitRules.find? "f" =
      some { facetPattern := "f", maxJobs := 0, windowDurationMs := 1000 } := by decide +kernel
  have planted : ((dbAfter .unary {} ([pauseFacet] ++ [plantFaceted])).jobs.find?
      (unaryId 1 0)).bind JobRow.rateLimitFacet = some "f" := by decide +kernel
  obtain ⟨row, live, facet⟩ := Option.bind_eq_some_iff.mp planted
  exact covers.paused "f" _ (unaryId 1 0) ruled rfl ⟨by decide +kernel, row, live, facet⟩

/-- A rule of one job per second. -/
def limitFacet : Op :=
  .upsertIngressLimitRule stopped { facetPattern := "f", maxJobs := 1, windowDurationMs := 1000 }

/-- Two enqueues of the facet and a flow without one. -/
def facetRun : List Op :=
  [limitFacet, .addJob stopped { name := "a", rateLimitFacet := "f" },
    .addJob stopped { name := "a", rateLimitFacet := "f" },
    .addFlow stopped (some (.node { name := "b" } []))]

theorem facetRun_flowsUnruled : Along (FlowsUnruled .unary {}) facetRun := by
  intro before op le _ options mem named
  have here : op ∈ facetRun := le.subset (by simp)
  have unfaceted : ∀ op ∈ facetRun, ∀ options ∈ op.newNodes, options.rateLimitFacet = "" := by
    decide +kernel
  exact absurd (unfaceted op here options mem) named

/-- The second enqueue is refused, and the run is covered. -/
theorem facet_limited_to_one_job :
    Along (FlowsUnruled .unary {}) facetRun ∧ Along (IngressCovers .unary {}) facetRun ∧
      (dbAfter .unary {} facetRun).jobs.rows.map JobRow.id = [unaryId 1 0, unaryId 3 0] :=
  ⟨facetRun_flowsUnruled, ingress_covers_of_flowsUnruled .unary {} facetRun facetRun_flowsUnruled,
    by decide +kernel⟩

end Samples

end AnvilMQ
