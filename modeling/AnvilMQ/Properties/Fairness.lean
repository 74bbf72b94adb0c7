import AnvilMQ.Ledger.Lifecycle
import AnvilMQ.Ledger.Margins
import AnvilMQ.Ledger.Refinement
import AnvilMQ.Transition.Rotation
import Mathlib.Data.Prod.Lex
import Mathlib.Data.String.Basic

/-!
# Round-robin fairness

With fairness on, a poll prefers among the jobs of the lowest priority those of the
facet served longest ago.  What the broker keeps of the past is one number per facet,
`MAX + 1` at the time of the service, in a table the retention sweep deletes from.
That is a rotation by stamp: a claim is a service, a sweep forgets.
-/

namespace AnvilMQ

open Rust Relational Transition

/-! ## The claim order -/

/-- The facet of a job; jobs without one form a facet of their own. -/
def JobRow.facet (row : JobRow) : String := row.rateLimitFacet.getD ""

/-- A job that a poll at `now` may take. -/
structure Eligible (db : Db) (now : ℤ) (queueNames : List String) (row : JobRow) : Prop where
  live : row ∈ db.jobs
  due : due now queueNames row = true
  unthrottled : blocked db now row = false

/-- The columns the claim query orders by. -/
def claimKey (fairnessEnabled : Bool) (db : Db) (row : JobRow) : ℤ ×ₗ ℤ ×ₗ ℤ ×ₗ String :=
  toLex (row.priority, toLex (if fairnessEnabled then lastServed db row else 0,
    toLex (row.createdAt, row.id)))

section Order

variable {service : Service} {db : Db} {now : ℤ} {queueNames : List String} {row other : JobRow}

/-- The order of the claims is that of a key. -/
theorem claimsBefore_iff {fairnessEnabled : Bool} (a b : JobRow) :
    claimsBefore fairnessEnabled db a b = true ↔
      claimKey fairnessEnabled db a < claimKey fairnessEnabled db b := by
  unfold claimsBefore claimKey
  rw [Prod.Lex.toLex_lt_toLex, Prod.Lex.toLex_lt_toLex, Prod.Lex.toLex_lt_toLex]
  -- one branch of the comparison for each column
  split
  · rename_i priority
    simp [priority]
  rename_i priority
  rw [not_not] at priority
  split
  · rename_i served
    simp [priority, served.1, served.2]
  rename_i served
  have level : (if fairnessEnabled then lastServed db a else 0) =
      if fairnessEnabled then lastServed db b else 0 := by
    cases fairnessEnabled with
    | false => rfl
    | true => simpa using served
  split
  · rename_i age
    simp [priority, level, age]
  · rename_i age
    rw [not_not] at age
    simp [priority, level, age]

theorem eligible_of_selectNext (selected : selectNext service db now queueNames = some row) :
    Eligible db now queueNames row := by
  obtain ⟨mem, passes⟩ := List.mem_filter.mp (mem_of_firstBy selected)
  rw [Bool.and_eq_true, Bool.not_eq_true'] at passes
  exact ⟨mem, passes.1, passes.2⟩

/-- **A poll takes the least eligible job in the claim order.** -/
theorem selectNext_least (selected : selectNext service db now queueNames = some row)
    (eligible : Eligible db now queueNames other) :
    claimKey service.fairnessEnabled db row ≤ claimKey service.fairnessEnabled db other := by
  refine firstBy_le claimsBefore_iff selected (List.mem_filter.mpr ⟨eligible.live, ?_⟩)
  rw [eligible.due, eligible.unthrottled]
  rfl

theorem priority_le_of_claimKey_le {fairnessEnabled : Bool}
    (le : claimKey fairnessEnabled db row ≤ claimKey fairnessEnabled db other) :
    row.priority ≤ other.priority := by
  unfold claimKey at le
  rcases Prod.Lex.toLex_le_toLex.mp le with lt | ⟨same, -⟩
  · exact lt.le
  · exact same.le

theorem lastServed_le_of_claimKey_le (le : claimKey true db row ≤ claimKey true db other)
    (level : other.priority = row.priority) : lastServed db row ≤ lastServed db other := by
  unfold claimKey at le
  rcases Prod.Lex.toLex_le_toLex.mp le with lt | ⟨-, rest⟩
  · exact absurd level lt.ne'
  · rcases Prod.Lex.toLex_le_toLex.mp rest with lt | ⟨same, -⟩
    · exact lt.le
    · exact same.le

end Order

/-! ## The rotation -/

/-- The stamp of a facet, zero when it has no row. -/
def stampOf (db : Db) (f : String) : ℤ :=
  ((db.facetDispatch.find? f).map FacetDispatch.lastServedSeq).getD 0

/-- The stamp of the next service. -/
def nextStamp (db : Db) : ℤ :=
  ((db.facetDispatch.rows.map FacetDispatch.lastServedSeq).max?).getD 0 + 1

/-- Every stored stamp is positive. -/
def Db.Stamped (db : Db) : Prop :=
  ∀ f row, db.facetDispatch.find? f = some row → 0 < row.lastServedSeq

section Stamps

variable {service : Service} {db : Db} {row : JobRow} {now : ℤ}

theorem Db.Stamped.nonneg (stamped : db.Stamped) (f : String) : 0 ≤ stampOf db f := by
  unfold stampOf
  cases found : db.facetDispatch.find? f with
  | none => exact le_rfl
  | some stored => exact (stamped f stored found).le

theorem Db.Stamped.pos (stamped : db.Stamped) {f : String} (has : db.facetDispatch.Has f) :
    0 < stampOf db f := by
  obtain ⟨stored, found⟩ := Table.has_iff_find?.mp has
  unfold stampOf
  rw [found]
  exact stamped f stored found

/-- The next stamp is above all stored ones. -/
theorem Db.Stamped.lt_next (stamped : db.Stamped) (f : String) :
    stampOf db f < nextStamp db := by
  unfold nextStamp
  cases greatest : (db.facetDispatch.rows.map FacetDispatch.lastServedSeq).max? with
  | none =>
    rw [List.max?_eq_none_iff, List.map_eq_nil_iff] at greatest
    have absent : db.facetDispatch.find? f = none := by
      cases found : db.facetDispatch.find? f with
      | none => rfl
      | some stored =>
        have mem : stored ∈ db.facetDispatch.rows := Table.mem_of_find? found
        rw [greatest] at mem
        cases mem
    unfold stampOf
    rw [absent]
    exact Int.zero_lt_one
  | some top =>
    obtain ⟨mem, above⟩ := List.max?_eq_some_iff.mp greatest
    obtain ⟨highest, here, rfl⟩ := List.mem_map.mp mem
    refine Int.lt_add_one_of_le ?_
    unfold stampOf
    cases found : db.facetDispatch.find? f with
    | none => exact (stamped _ highest (Table.find?_of_mem here)).le
    | some stored => exact above _ (List.mem_map_of_mem (Table.mem_of_find? found))

/-- What a claim writes: the next stamp for the facet of its job. -/
theorem find?_recordDispatch (f : String) :
    (recordDispatch db row now).facetDispatch.find? f =
      if f = row.facet then
        some ⟨row.facet, nextStamp db, now⟩
      else db.facetDispatch.find? f := by
  unfold recordDispatch nextStamp
  rw [Table.find?_upsert]
  show (if f = row.facet then _ else _) = _
  by_cases here : f = row.facet
  · rw [if_pos here, if_pos here]
    cases found : db.facetDispatch.find? f with
    | none => rfl
    | some stored =>
      have key : stored.facetKey = row.facet := (Table.key_of_find? found).trans here
      rw [Option.elim_some, key]
  · rw [if_neg here, if_neg here]

/-- A claim with fairness on stamps the facet of its job and no other. -/
theorem find?_leaseTo (fair : service.fairnessEnabled = true) {workerId : String} {later : ℤ}
    (f : String) :
    (leaseTo service (consume db row now) row workerId later).facetDispatch.find? f =
      if f = row.facet then some ⟨row.facet, nextStamp db, later⟩
      else db.facetDispatch.find? f := by
  have counted : (consume db row now).facetDispatch = db.facetDispatch := by
    unfold consume
    split <;> rfl
  unfold leaseTo
  rw [if_pos fair, find?_recordDispatch]
  unfold nextStamp
  rw [counted]

end Stamps

section Runs

variable (ext : Externals) (service : Service)

/-- The facet of the job that the operation after a run claims, if it claims one. -/
def servedFacet (run : List Op) (op : Op) : Option String :=
  match op, replyTo ext service run op with
  | .getNextJob _ _, some (.claimed (some job)) =>
    ((dbAfter ext service run).jobs.find? job.id).map JobRow.facet
  | _, _ => none

/-- The facets served in the part `more` of a run, operation by operation. -/
def servedFacets (before more : List Op) : List (Option String) :=
  collect (fun run op => [servedFacet ext service run op]) before more

/-- A poll after a run claims the job of this row. -/
def Claims (run : List Op) (clock : Clock) (req : GetNextJobRequest) (row : JobRow) : Prop :=
  ∃ job, replyTo ext service run (.getNextJob clock req) = some (.claimed (some job)) ∧
    (dbAfter ext service run).jobs.find? job.id = some row

/-- **What a claim owes the jobs it passes over.** -/
structure FairClaim (run : List Op) (clock : Clock) (req : GetNextJobRequest) (row : JobRow) :
    Prop where
  eligible : Eligible (dbAfter ext service run) (clock 0) req.queueNames row
  /-- No eligible job has a lower priority number. -/
  lowest : ∀ other, Eligible (dbAfter ext service run) (clock 0) req.queueNames other →
    row.priority ≤ other.priority
  /-- When the facet of the job has been served before and still has its row, every
  other facet with an eligible job of the same priority has been served since. -/
  rotates : ∀ before op since, run = before ++ op :: since →
    servedFacet ext service before op = some row.facet →
    (dbAfter ext service run).facetDispatch.Has row.facet →
    ∀ other, Eligible (dbAfter ext service run) (clock 0) req.queueNames other →
      other.priority = row.priority → other.facet ≠ row.facet →
      some other.facet ∈ servedFacets ext service (before ++ [op]) since

variable {ext service} {run : List Op} {op : Op}

theorem servedFacet_eq_none (unpolled : ∀ clock req, op ≠ .getNextJob clock req) :
    servedFacet ext service run op = none := by
  cases op with
  | getNextJob clock req => exact absurd rfl (unpolled clock req)
  | _ => rfl

/-- **What an operation does to the table of the rotation**: it claims a job and
stamps its facet, or it serves no facet and at most deletes rows. -/
theorem dispatch_cases (fair : service.fairnessEnabled = true) (run : List Op) (op : Op) :
    (∃ (row : JobRow) (now : ℤ), servedFacet ext service run op = some row.facet ∧
      ∀ f, (dbAfter ext service (run ++ [op])).facetDispatch.find? f =
        if f = row.facet then some ⟨row.facet, nextStamp (dbAfter ext service run), now⟩
        else (dbAfter ext service run).facetDispatch.find? f) ∨
    servedFacet ext service run op = none ∧
      (dbAfter ext service run).facetDispatch.DeletesOnly (fun _ => True)
        (dbAfter ext service (run ++ [op])).facetDispatch := by
  by_cases polls : ∃ clock req, op = .getNextJob clock req
  · obtain ⟨clock, req, rfl⟩ := polls
    rcases transact_cases ext service run (.getNextJob clock req) rfl with
      ⟨unanswered, unchanged⟩ | ⟨⟨job, db', calls⟩, ok, answered, after⟩
    · refine .inr ⟨?_, ?_⟩
      · unfold servedFacet
        rw [unanswered]
      · rw [not_not.mp unchanged]
        exact .refl _ _
    rcases getNextJob_cases ok with ⟨rfl, rfl, -⟩ | ⟨row, selected, -, rfl, -, rfl⟩
    · refine .inr ⟨?_, ?_⟩
      · unfold servedFacet
        rw [answered]
      · rw [after]
        exact .refl _ _
    · have live : (dbAfter ext service run).jobs.find? (claimedJob service row (clock 1)).id =
          some row := (selectNext_some selected).1
      refine .inl ⟨row, clock 1, ?_, fun f => ?_⟩
      · unfold servedFacet
        rw [answered]
        simp only [live, Option.map_some]
      · rw [after]
        exact find?_leaseTo fair f
  · have unpolled : ∀ clock req, op ≠ .getNextJob clock req :=
      fun clock req same => polls ⟨clock, req, same⟩
    refine .inr ⟨servedFacet_eq_none unpolled, ?_⟩
    by_cases sweeps : ∃ plan clock cfg, op = .sweep plan clock cfg
    · obtain ⟨plan, clock, cfg, rfl⟩ := sweeps
      rw [dbAfter_concat]
      exact sweep_facetDispatch plan cfg
    · rw [facetDispatch_after ext service run unpolled
        fun plan clock cfg same => sweeps ⟨plan, clock, cfg, same⟩]
      exact .refl _ _

/-- Under fairness every stored stamp of a run is positive. -/
theorem stamped_after (fair : service.fairnessEnabled = true) (run : List Op) :
    (dbAfter ext service run).Stamped := by
  induction run using List.reverseRecOn with
  | nil =>
    intro f stored found
    cases found
  | append_singleton run op ih =>
    intro f stored found
    rcases dispatch_cases fair run op with ⟨row, now, -, stamps⟩ | ⟨-, only⟩
    · rw [stamps] at found
      split at found
      · cases found
        exact (ih.nonneg f).trans_lt (ih.lt_next f)
      · exact ih f stored found
    · rcases only.find?_eq_or_none f with same | gone
      · exact ih f stored (same.symm.trans found)
      · rw [gone] at found
        cases found

/-- **Every operation is a step of the rotation.** -/
theorem rotation_step (fair : service.fairnessEnabled = true) (run : List Op) (op : Op) :
    Rotation.Step (stampOf (dbAfter ext service run)) (servedFacet ext service run op)
      (stampOf (dbAfter ext service (run ++ [op]))) := by
  have stamped : (dbAfter ext service run).Stamped := stamped_after fair run
  rcases dispatch_cases fair run op with ⟨row, now, serves, stamps⟩ | ⟨idle, only⟩
  · rw [serves]
    refine .served (fun f => ?_) fun f other => ?_
    · have next : stampOf (dbAfter ext service (run ++ [op])) row.facet =
          nextStamp (dbAfter ext service run) := by
        unfold stampOf
        rw [stamps, if_pos rfl]
        rfl
      rw [next]
      exact stamped.lt_next f
    · unfold stampOf
      rw [stamps, if_neg other]
  · rw [idle]
    refine .dropped fun f => ?_
    unfold stampOf
    rcases only.find?_eq_or_none f with same | gone
    · exact .inl (by rw [same])
    · exact .inr (by rw [gone]; rfl)

/-- Under fairness the facets that a run serves rotate. -/
theorem rotation_chain (fair : service.fairnessEnabled = true) (before more : List Op) :
    Chain Rotation.Step (stampOf (dbAfter ext service before))
      (servedFacets ext service before more)
      (stampOf (dbAfter ext service (before ++ more))) := by
  induction more using List.reverseRecOn with
  | nil =>
    rw [List.append_nil]
    exact .nil _
  | append_singleton more op ih =>
    unfold servedFacets
    rw [collect_concat, ← List.append_assoc]
    exact ih.append (.single (rotation_step fair (before ++ more) op))

/-- **Every claim is fair**, with fairness on. -/
theorem claims_are_fair (ext : Externals) (service : Service)
    (fair : service.fairnessEnabled = true) (run : List Op) (clock : Clock)
    (req : GetNextJobRequest) (row : JobRow) (claims : Claims ext service run clock req row) :
    FairClaim ext service run clock req row := by
  obtain ⟨job, replied, live⟩ := claims
  have selected : selectNext service (dbAfter ext service run) (clock 0) req.queueNames =
      some row := by
    obtain ⟨⟨claimed, db', calls⟩, ok, shape, -⟩ := replyTo_transact ext service rfl replied
    cases shape
    rcases getNextJob_cases ok with ⟨unclaimed, -, -⟩ | ⟨chosen, selected, -, same, -, -⟩
    · cases unclaimed
    · cases same
      rw [selected, ← live]
      exact (selectNext_some selected).1.symm
  refine ⟨eligible_of_selectNext selected,
    fun other eligible => priority_le_of_claimKey_le (selectNext_least selected eligible), ?_⟩
  rintro before op since rfl serves has other eligible level apart
  have least := selectNext_least selected eligible
  rw [fair] at least
  have chain : Chain Rotation.Step (stampOf (dbAfter ext service before))
      (servedFacets ext service before (op :: since))
      (stampOf (dbAfter ext service (before ++ op :: since))) :=
    rotation_chain fair before (op :: since)
  have labels : servedFacets ext service before (op :: since) =
      some row.facet :: servedFacets ext service (before ++ [op]) since := by
    rw [← serves]
    rfl
  rw [labels] at chain
  exact Rotation.served_of_le chain (stamped_after fair before).nonneg
    ((stamped_after fair _).pos has) apart (lastServed_le_of_claimKey_le least level)

end Runs

/-! ## Two tenants -/

section Samples

/-- A service with fairness on. -/
def fairService : Service := { fairnessEnabled := true }

/-- Two jobs of the facet `f`, two of the facet `g` and two polls. -/
def tenantRun : List Op :=
  [.addJob stopped { name := "a", rateLimitFacet := "f" },
    .addJob stopped { name := "a", rateLimitFacet := "f" },
    .addJob stopped { name := "a", rateLimitFacet := "g" },
    .addJob stopped { name := "a", rateLimitFacet := "g" }, poll "a", poll "a"]

/-- The third poll is the second turn of `f`: `g` has had its first in between. -/
theorem third_claim_fair : ∃ row, row.facet = "f" ∧
    Claims .unary fairService tenantRun stopped { workerId := "w", queueNames := ["a"] } row ∧
    FairClaim .unary fairService tenantRun stopped { workerId := "w", queueNames := ["a"] } row ∧
    servedFacets .unary fairService [] tenantRun =
      [none, none, none, none, some "f", some "g"] := by
  have found : ((dbAfter .unary fairService tenantRun).jobs.find? (unaryId 1 0)).map JobRow.facet =
      some "f" := by decide +kernel
  obtain ⟨row, live, facet⟩ := Option.map_eq_some_iff.mp found
  have claims : Claims .unary fairService tenantRun stopped
      { workerId := "w", queueNames := ["a"] } row :=
    ⟨{ id := unaryId 1 0
       name := "a"
       payload := []
       metadata := { traceId := unaryId 1 1, executionDepth := 0 }
       attempts := 1
       leaseExpiresAtMs := 30000 }, by decide +kernel, live⟩
  exact ⟨row, facet, claims, claims_are_fair .unary fairService rfl tenantRun stopped _ row claims,
    by decide +kernel⟩

end Samples

end AnvilMQ
