import AnvilMQ.Ledger.Margins
import AnvilMQ.Properties.Gate
import AnvilMQ.Properties.Ingress

/-!
# The runaway-chain quarantine

A lineage is the set of jobs with one trace id.  `enqueue_one` keeps a counter per
lineage and refuses a job once the counter has reached the configured size.  The
flow requests give their nodes the trace id of a tree without asking the counter.
-/

namespace AnvilMQ

open Rust Relational Transition

/-! ## The guarantee -/

/-- How many of the rows belong to a lineage. -/
def ofTrace (rows : List JobRow) (trace : String) : ℕ :=
  rows.countP fun row => decide (row.traceId = trace)

/-- The number the quarantine compares with the size of a chain. -/
def chainCount (db : Db) (trace : String) : ℕ :=
  ((db.chainCounters.find? trace).map ChainCounter.jobCount).getD 0

/-- The requests that create flow nodes. -/
def Op.Plants : Op → Prop
  | addFlow _ _ => True
  | addFlowBulk _ _ => True
  | addFlowMerge _ _ => True
  | _ => False

section Statement

variable (ext : Externals) (service : Service)

/-- The jobs an operation inserts. -/
def insertedBy (run : List Op) (op : Op) : List JobRow :=
  newRows (dbAfter ext service run) (dbAfter ext service (run ++ [op]))

/-- The jobs a run has inserted, finished ones included. -/
def insertedJobs (run : List Op) : List JobRow := collect (insertedBy ext service) [] run

/-- The number of jobs ever inserted into a lineage. -/
def spawned (run : List Op) (trace : String) : ℕ := ofTrace (insertedJobs ext service run) trace

/-- The counter of the lineage is not pruned. -/
def KeepsChain (trace : String) (run : List Op) (op : Op) : Prop :=
  (dbAfter ext service run).chainCounters.Has trace →
    (dbAfter ext service (run ++ [op])).chainCounters.Has trace

instance (trace : String) (run : List Op) (op : Op) :
    Decidable (KeepsChain ext service trace run op) :=
  inferInstanceAs (Decidable (_ → _))

/-- **The bound on a lineage.** -/
structure ChainBounded (trace : String) (run : List Op) : Prop where
  bounded : spawned ext service run trace ≤ service.maxChainSize
  /-- The quarantine counts the jobs that were inserted and nothing else. -/
  counted : chainCount (dbAfter ext service run) trace = spawned ext service run trace
  /-- An operation that inserts no job of the lineage, be it a replay, a conflict, a
  refusal or a batch that is rolled back, leaves the count where it is. -/
  unspent : ∀ op, KeepsChain ext service trace run op →
    (∀ row ∈ insertedBy ext service run op, row.traceId ≠ trace) →
    chainCount (dbAfter ext service (run ++ [op])) trace =
      chainCount (dbAfter ext service run) trace

/-- **The condition on flows**: a flow request inserts no job of the lineage. -/
def FlowsAvoid (trace : String) (run : List Op) (op : Op) : Prop :=
  op.Plants → ∀ row ∈ insertedBy ext service run op, row.traceId ≠ trace

end Statement

variable {ext : Externals} {service : Service} {t k : ℕ} {clock : Clock} {db db' db'' : Db}

/-! ## Enqueues spend the quota of their lineage -/

/-- From one database to the other jobs were appended, each counted in its lineage,
and no lineage was taken past its size. -/
def Spends (size : ℕ) (db db' : Db) : Prop :=
  ∃ new, db'.jobs.rows = db.jobs.rows ++ new ∧ ∀ trace,
    chainCount db' trace = chainCount db trace + ofTrace new trace ∧
      (chainCount db trace ≤ size → chainCount db' trace ≤ size)

theorem Spends.of_same {size : ℕ} (jobs : db'.jobs = db.jobs)
    (chains : db'.chainCounters = db.chainCounters) : Spends size db db' := by
  refine ⟨[], by simp [jobs], fun trace => ?_⟩
  rw [chainCount, chains]
  exact ⟨rfl, id⟩

theorem Spends.refl (size : ℕ) (db : Db) : Spends size db db := .of_same rfl rfl

theorem Spends.trans {size : ℕ} (first : Spends size db db') (second : Spends size db' db'') :
    Spends size db db'' := by
  obtain ⟨new, rows, first⟩ := first
  obtain ⟨new', rows', second⟩ := second
  refine ⟨new ++ new', by rw [rows', rows, List.append_assoc], fun trace => ⟨?_, ?_⟩⟩
  · rw [(second trace).1, (first trace).1, ofTrace, ofTrace, ofTrace, List.countP_append,
      Nat.add_assoc]
  · exact fun within => (second trace).2 ((first trace).2 within)

/-- The counters after a job was let through. -/
theorem checkChain_counts {size : ℕ} {name traceId : String} {parentId : Option JobId}
    {depth now : ℤ} (positive : 0 < size)
    (ok : checkChain size db name traceId parentId depth now = .ok db') :
    db'.jobs = db.jobs ∧ chainCount db traceId < size ∧
      ∀ trace, chainCount db' trace = chainCount db trace + if traceId = trace then 1 else 0 := by
  rw [checkChain, if_neg positive.ne'] at ok
  dsimp only at ok
  split at ok
  · cases ok
  · rename_i below
    cases ok
    refine ⟨rfl, not_le.mp below, fun trace => ?_⟩
    simp only [chainCount, Table.find?_upsert]
    by_cases here : traceId = trace
    · subst here
      cases db.chainCounters.find? traceId <;> simp
    · simp [here, Ne.symm here]

/-- An insertion counts its job in its lineage, within the size. -/
theorem insertEnqueued_spends {req : AddJobRequest} {receiptRequest : Option Bytes} {now : ℤ}
    {out : EnqueueOutcome} (positive : 0 < service.maxChainSize)
    (ok : insertEnqueued ext service t k db req receiptRequest now = .ok out) :
    Spends service.maxChainSize db out.db := by
  obtain ⟨db₁, db₂, availableAt, depth, trace, jobs, admitted, -, -, -, chained, insert, written,
    -⟩ := insertEnqueued_ok ok
  obtain ⟨jobs₂, below, counts⟩ := checkChain_counts positive chained
  have admission : Spends service.maxChainSize db db₁ :=
    .of_same (admitRequest_ok (t := 0) (k := 0) admitted).1.jobs
      (congrArg Margins.chainCounters (admitRequest_margins admitted))
  have receipt : Spends service.maxChainSize { db₂ with jobs := jobs } out.db :=
    .of_same (writeReceipt_jobs written)
      (congrArg Margins.chainCounters (writeReceipt_margins written))
  have rows := Table.rows_of_insert insert
  rw [jobs₂] at rows
  have insertion : Spends service.maxChainSize db₁ { db₂ with jobs := jobs } := by
    refine ⟨_, rows, fun other => ?_⟩
    have counted : chainCount { db₂ with jobs := jobs } other = chainCount db₂ other := rfl
    rw [counted, counts other, ofTrace, List.countP_singleton]
    by_cases here : trace = other
    · subst here
      simp only [enqueuedRow, decide_true, if_true]
      exact ⟨trivial, fun _ => below⟩
    · simp only [enqueuedRow, here, decide_false, if_false]
      exact ⟨rfl, id⟩
  exact admission.trans (insertion.trans receipt)

/-- A batch spends what it commits; a refused one spends nothing. -/
theorem intake_spends (positive : 0 < service.maxChainSize) :
    IntakeRelation ext service t (fun _ => True) (Spends service.maxChainSize) where
  refl := .refl _
  trans := Spends.trans
  inserted := fun _ => insertEnqueued_spends positive

theorem serve_spends (positive : 0 < service.maxChainSize) {op : Op} (enqueues : op.Enqueues) :
    Spends service.maxChainSize db (serve ext service t db op).1 :=
  (intake_spends positive).serve
    (fun db _ _ _ => .of_same (recordRejection_view Db.jobs (fun _ _ _ => rfl) db _ _ _)
      (recordRejection_view Db.chainCounters (fun _ _ _ => rfl) db _ _ _))
    (fun _ _ _ _ _ => .of_same rfl rfl) enqueues

/-! ## Runs -/

section Runs

variable {run : List Op} {op : Op} {trace : String}

/-- Only the requests that create jobs insert any. -/
theorem insertedBy_eq_nil (other : ¬ op.Creates) : insertedBy ext service run op = [] := by
  refine List.filter_eq_nil_iff.mpr fun row mem => ?_
  have live : (dbAfter ext service (run ++ [op])).jobs.find? row.id = some row :=
    Table.find?_of_mem mem
  rcases Ledger.Sound.live_or_born_of_chain (next_chain ext service run op) live with
    ⟨old, was, -⟩ | ⟨e, emitted, newborn, born, -⟩
  · simpa using Table.has_iff_find?.mpr ⟨old, was⟩
  · rcases List.mem_append.mp emitted with here | last
    · exact absurd (creates_of_born here born) other
    · rw [List.mem_singleton.mp last] at born
      cases born

theorem Op.not_creates (plants : ¬ op.Plants) (enqueues : ¬ op.Enqueues) : ¬ op.Creates := by
  intro creates
  cases op <;> first | exact creates.elim | exact plants trivial | exact enqueues trivial

/-- **One operation spends what it inserts**, and keeps a lineage within its size. -/
theorem chainCount_after (positive : 0 < service.maxChainSize)
    (kept : KeepsChain ext service trace run op) (avoids : FlowsAvoid ext service trace run op) :
    chainCount (dbAfter ext service (run ++ [op])) trace =
        chainCount (dbAfter ext service run) trace + ofTrace (insertedBy ext service run op) trace ∧
      (chainCount (dbAfter ext service run) trace ≤ service.maxChainSize →
        chainCount (dbAfter ext service (run ++ [op])) trace ≤ service.maxChainSize) := by
  by_cases enqueues : op.Enqueues
  · have spends : Spends service.maxChainSize (dbAfter ext service run)
        (servedNext ext service run op).1 := serve_spends positive enqueues
    obtain ⟨new, rows, counts⟩ := spends
    rw [insertedBy, dbAfter_concat, newRows_of_append rows]
    exact counts trace
  · -- every other operation leaves the counter alone and inserts nothing in the lineage
    have same : chainCount (dbAfter ext service (run ++ [op])) trace =
        chainCount (dbAfter ext service run) trace := by
      by_cases sweeps : ∃ plan clock cfg, op = .sweep plan clock cfg
      · obtain ⟨plan, clock, cfg, rfl⟩ := sweeps
        rw [KeepsChain, dbAfter_concat] at kept
        have found := (sweep_chainCounters plan cfg).find?_of_kept kept
        rw [chainCount, dbAfter_concat, servedNext, serve, found]
        rfl
      · rw [chainCount, chainCounters_after ext service run enqueues fun plan clock cfg here =>
          sweeps ⟨plan, clock, cfg, here⟩]
        rfl
    have uninserted : ofTrace (insertedBy ext service run op) trace = 0 := by
      rw [ofTrace, List.countP_eq_zero]
      intro row mem
      by_cases plants : op.Plants
      · simpa using avoids plants row mem
      · rw [insertedBy_eq_nil (Op.not_creates plants enqueues)] at mem
        cases mem
    rw [same, uninserted]
    exact ⟨rfl, id⟩

theorem chainCount_unspent (positive : 0 < service.maxChainSize)
    (kept : KeepsChain ext service trace run op)
    (unspent : ∀ row ∈ insertedBy ext service run op, row.traceId ≠ trace) :
    chainCount (dbAfter ext service (run ++ [op])) trace =
      chainCount (dbAfter ext service run) trace := by
  have uninserted : ofTrace (insertedBy ext service run op) trace = 0 := by
    rw [ofTrace, List.countP_eq_zero]
    intro row mem
    simpa using unspent row mem
  have counts := (chainCount_after positive kept fun _ => unspent).1
  rwa [uninserted, Nat.add_zero] at counts

theorem spawned_concat (run : List Op) (op : Op) (trace : String) :
    spawned ext service (run ++ [op]) trace =
      spawned ext service run trace + ofTrace (insertedBy ext service run op) trace := by
  rw [spawned, insertedJobs, collect_concat, ofTrace, List.countP_append]
  rfl

variable (ext service) in
/-- **A lineage that no flow request grows is bounded**, as long as its counter is
not pruned: the quarantine lets at most `max_chain_size` of its jobs through, and
counts nothing but the jobs it let through. -/
theorem chain_bounded_of_flowsAvoid (positive : 0 < service.maxChainSize) (trace : String)
    (run : List Op) (kept : Along (KeepsChain ext service trace) run)
    (avoids : Along (FlowsAvoid ext service trace) run) : ChainBounded ext service trace run := by
  induction run using List.reverseRecOn with
  | nil => exact ⟨Nat.zero_le _, rfl, fun op => chainCount_unspent positive⟩
  | append_singleton run op ih =>
    obtain ⟨keptBefore, keptLast⟩ := along_concat.mp kept
    obtain ⟨avoidsBefore, avoidsLast⟩ := along_concat.mp avoids
    obtain ⟨bounded, counted, -⟩ := ih keptBefore avoidsBefore
    obtain ⟨counts, within⟩ := chainCount_after positive keptLast avoidsLast
    rw [counted] at counts within
    rw [← spawned_concat] at counts
    exact ⟨counts ▸ within bounded, counts, fun op => chainCount_unspent positive⟩

end Runs

/-! ## Samples -/

section Samples

/-- A service that lets one job of a lineage through. -/
def oneJobChains : Service := { maxChainSize := 1 }

/-- Two jobs of one lineage, and one without a trace id of its own. -/
def chainRun : List Op :=
  [.addJob stopped { name := "a", metadata := some { traceId := "t" } },
    .addJob stopped { name := "b", metadata := some { traceId := "t" } },
    .addJob stopped { name := "c" }]

theorem chainRun_kept : Along (KeepsChain .unary oneJobChains "t") chainRun :=
  along_concat.mpr ⟨along_concat.mpr ⟨along_concat.mpr ⟨along_nil _, by decide +kernel⟩,
    by decide +kernel⟩, by decide +kernel⟩

theorem chainRun_avoids : Along (FlowsAvoid .unary oneJobChains "t") chainRun := by
  intro before op le plants
  have here : op ∈ chainRun := le.subset (by simp)
  simp only [chainRun, List.mem_cons, List.not_mem_nil, or_false] at here
  rcases here with rfl | rfl | rfl <;> exact plants.elim

/-- The second job of the lineage is refused, and the bound holds with equality. -/
theorem chain_quarantined_at_one_job :
    ChainBounded .unary oneJobChains "t" chainRun ∧
      spawned .unary oneJobChains chainRun "t" = 1 :=
  ⟨chain_bounded_of_flowsAvoid .unary oneJobChains (by decide) "t" chainRun chainRun_kept
    chainRun_avoids, by decide +kernel⟩

/-- **A flow exceeds the size of its chain**: both nodes have the trace id of the
tree, and nothing counts them. -/
theorem flow_exceeds_chain_size :
    KeepsChain .unary oneJobChains parentJob [] plantParent ∧
      spawned .unary oneJobChains [plantParent] parentJob = 2 ∧
      ¬ ChainBounded .unary oneJobChains parentJob [plantParent] := by
  have two : spawned .unary oneJobChains [plantParent] parentJob = 2 := by decide +kernel
  refine ⟨by decide +kernel, two, fun bounded => ?_⟩
  have within := bounded.bounded
  rw [two] at within
  exact absurd within (by decide)

end Samples

end AnvilMQ
