import AnvilMQ.Ledger.Enqueues
import AnvilMQ.Ledger.Lifecycle

/-!
# Identity

What never changes about a job.  Ids are drawn once and never again, a live job
and its history row share every column but the outcome, and a job leaves the
books only through the history.
-/

namespace AnvilMQ

open Rust Relational Transition

variable {ext : Externals} {l l' : Ledger} {e : Event} {row : JobRow} {events : List Event}
  {j : JobId} {entry : HistoryRow}

/-! ## Drawn ids -/

/-- An id drawn by an earlier operation or at an earlier slot of this one. -/
def Ledger.Drawn (ext : Externals) (l : Ledger) (j : JobId) : Prop :=
  ∃ t k, j = ext.newV4 t k ∧ (t < l.tick ∨ (t = l.tick ∧ k < l.slot))

/-- The UUID generator only moves forward. -/
theorem Step.drawn_mono (step : Step ext l e l') (drawn : l.Drawn ext j) : l'.Drawn ext j := by
  obtain ⟨t, k, rfl, before⟩ := drawn
  obtain ⟨enabled, rfl⟩ := step
  refine ⟨t, k, rfl, ?_⟩
  cases e with
  | tick =>
    left
    simp only [Ledger.apply, Event.tickAfter]
    omega
  | enqueued row now slot =>
    obtain ⟨k', low, high, -⟩ := enabled.draws
    simp only [Ledger.apply, Event.tickAfter, Event.slotAfter]
    omega
  | planted row slot =>
    obtain ⟨k', low, high, -⟩ := enabled.draws
    simp only [Ledger.apply, Event.tickAfter, Event.slotAfter]
    omega
  | _ => exact before

theorem Ledger.Drawn.of_chain (chain : Chain (Step ext) l events l') (drawn : l.Drawn ext j) :
    l'.Drawn ext j := by
  induction chain with
  | nil => exact drawn
  | cons head _ ih => exact ih (head.drawn_mono drawn)

theorem Ledger.Draws.not_drawn {slot : ℕ} (draws : l.Draws ext j slot) : ¬ l.Drawn ext j := by
  rintro ⟨t, k, here, before⟩
  obtain ⟨k', low, high, there⟩ := draws
  obtain ⟨rfl, rfl⟩ := ext.newV4_injective (here.symm.trans there)
  omega

/-- An id drawn now is younger than every id drawn before. -/
theorem Ledger.Draws.younger {p : JobId} {slot : ℕ} (draws : l.Draws ext j slot)
    (drawn : l.Drawn ext p) : Older ext p j := by
  obtain ⟨t, k, rfl, before⟩ := drawn
  obtain ⟨k', low, high, rfl⟩ := draws
  exact ⟨t, k, l.tick, k', rfl, rfl, by omega⟩

theorem Older.drawn {p c : JobId} (older : Older ext p c) (drawn : l.Drawn ext c) :
    l.Drawn ext p := by
  obtain ⟨t, k, t₁, k₁, rfl, rfl, before⟩ := older
  obtain ⟨t₂, k₂, same, earlier⟩ := drawn
  obtain ⟨rfl, rfl⟩ := ext.newV4_injective same
  exact ⟨t, k, rfl, by omega⟩

/-- What an event needs to bring a job into being. -/
structure Born (ext : Externals) (l : Ledger) (e : Event) (row : JobRow) : Prop where
  draws : l.Draws ext row.id (e.slotAfter l)
  absent : l.jobs row.id = none
  untouched : row.Untouched
  parent : ∀ p, row.parentId = some p → (l.jobs p).isSome ∨ (l.jobHistory p).isSome

/-- What an enabled event tells about the job it creates. -/
theorem Event.Enabled.born (enabled : e.Enabled ext l) (born : e.born = some row) :
    Born ext l e row := by
  cases e with
  | enqueued inserted now slot =>
    cases born
    refine ⟨enabled.draws, enabled.absent, enabled.untouched, fun p here => ?_⟩
    have lineage := enabled.lineage p here
    rw [Ledger.lineage] at lineage
    cases live : l.jobs p with
    | some parent => exact .inl rfl
    | none =>
      rw [live] at lineage
      cases done : l.jobHistory p with
      | some entry => exact .inr rfl
      | none => simp [done] at lineage
  | planted inserted slot =>
    cases born
    refine ⟨enabled.draws, enabled.absent, enabled.untouched, fun p here => ?_⟩
    obtain ⟨parent, live, -⟩ := enabled.child p here
    exact .inl (by simp [live])
  | _ => cases born

theorem Event.Enabled.drawn_born (enabled : e.Enabled ext l) (born : e.born = some row) :
    (l.apply ext e).Drawn ext row.id := by
  obtain ⟨k, low, high, here⟩ := (enabled.born born).draws
  have sameTick : e.tickAfter l = l.tick := by cases e <;> simp_all
  refine ⟨l.tick, k, here, .inr ⟨?_, high⟩⟩
  exact sameTick.symm

/-! ## The columns no statement updates -/

/-- Two rows of one job at different times. -/
structure JobRow.SameIdentity (r r' : JobRow) : Prop where
  id : r'.id = r.id
  name : r'.name = r.name
  parentId : r'.parentId = r.parentId
  traceId : r'.traceId = r.traceId
  executionDepth : r'.executionDepth = r.executionDepth
  rateLimitFacet : r'.rateLimitFacet = r.rateLimitFacet
  failParentOnFailure : r'.failParentOnFailure = r.failParentOnFailure
  treeDepth : r'.treeDepth = r.treeDepth
  maxAttempts : r'.maxAttempts = r.maxAttempts

theorem JobRow.SameIdentity.refl (r : JobRow) : r.SameIdentity r :=
  ⟨rfl, rfl, rfl, rfl, rfl, rfl, rfl, rfl, rfl⟩

theorem JobRow.SameIdentity.trans {r r' r'' : JobRow} (first : r.SameIdentity r')
    (second : r'.SameIdentity r'') : r.SameIdentity r'' :=
  ⟨second.1.trans first.1, second.2.trans first.2, second.3.trans first.3, second.4.trans first.4,
    second.5.trans first.5, second.6.trans first.6, second.7.trans first.7, second.8.trans first.8,
    second.9.trans first.9⟩

theorem JobRow.countedDown_sameIdentity (r : JobRow) (now updatedAt : ℤ) :
    r.SameIdentity (r.countedDown now updatedAt) := by
  rw [JobRow.countedDown]
  split <;> exact ⟨rfl, rfl, rfl, rfl, rfl, rfl, rfl, rfl, rfl⟩

/-- No event changes who a row is. -/
theorem Event.evolve_sameIdentity (e : Event) (j : JobId) (r : JobRow) :
    r.SameIdentity (e.evolve j r) := by
  cases e with
  | claimed row workerId now lease =>
    simp only [evolve]
    split <;> exact ⟨rfl, rfl, rfl, rfl, rfl, rfl, rfl, rfl, rfl⟩
  | renewed row lease now =>
    simp only [evolve]
    split <;> exact ⟨rfl, rfl, rfl, rfl, rfl, rfl, rfl, rfl, rfl⟩
  | requeued row cause state availableAt lastError updatedAt =>
    simp only [evolve]
    split <;> exact ⟨rfl, rfl, rfl, rfl, rfl, rfl, rfl, rfl, rfl⟩
  | completed row entry parent now updatedAt released =>
    simp only [evolve]
    split
    · exact r.countedDown_sameIdentity now updatedAt
    · exact .refl r
  | adopted target =>
    simp only [evolve]
    split <;> exact ⟨rfl, rfl, rfl, rfl, rfl, rfl, rfl, rfl, rfl⟩
  | regated target n updatedAt =>
    simp only [evolve]
    split <;> exact ⟨rfl, rfl, rfl, rfl, rfl, rfl, rfl, rfl, rfl⟩
  | _ => exact .refl r

/-- The history row of a job agrees with the live row it was copied from. -/
structure HistoryRow.CopyOf (entry : HistoryRow) (row : JobRow) : Prop where
  id : entry.id = row.id
  parentId : entry.parentId = row.parentId
  traceId : entry.traceId = row.traceId
  executionDepth : entry.executionDepth = row.executionDepth
  workerId : entry.workerId = row.workerId
  attempts : entry.attempts = row.attempts

theorem FailureCause.Writes.copyOf {cause : FailureCause} (writes : cause.Writes row entry) :
    entry.CopyOf row := by
  cases cause with
  | reported =>
    obtain ⟨-, at_, error, rfl⟩ := writes
    exact ⟨rfl, rfl, rfl, rfl, rfl, rfl⟩
  | cascaded =>
    obtain ⟨at_, error, rfl⟩ := writes
    exact ⟨rfl, rfl, rfl, rfl, rfl, rfl⟩
  | expired =>
    obtain ⟨-, at_, rfl⟩ := writes
    exact ⟨rfl, rfl, rfl, rfl, rfl, rfl⟩

/-- What an event archives was live and is copied. -/
theorem Event.Enabled.retires {row : JobRow} {entry : HistoryRow} (enabled : e.Enabled ext l)
    (retires : e.retires = some (row, entry)) :
    l.jobs row.id = some row ∧ entry.CopyOf row ∧ e.retiredId = some row.id := by
  cases e with
  | completed found written parent now updatedAt released =>
    cases retires
    obtain ⟨live, -, ⟨at_, result, rfl⟩, -⟩ := enabled
    exact ⟨live, ⟨rfl, rfl, rfl, rfl, rfl, rfl⟩, rfl⟩
  | failed found written cause released =>
    cases retires
    exact ⟨enabled.1, enabled.2.copyOf, rfl⟩
  | _ => cases retires

theorem Event.retires_of_retiredId (retired : e.retiredId = some j) :
    ∃ row entry, e.retires = some (row, entry) ∧ row.id = j := by
  cases e with
  | completed row entry parent now updatedAt released =>
    exact ⟨row, entry, rfl, Option.some.inj retired⟩
  | failed row entry cause released => exact ⟨row, entry, rfl, Option.some.inj retired⟩
  | _ => cases retired

/-! ## The books after an event -/

/-- A live job after an event was born by it, or was live before and evolved. -/
theorem Ledger.apply_jobs (found : (l.apply ext e).jobs j = some row) :
    (e.born = some row ∧ row.id = j) ∨
      ∃ before, l.jobs j = some before ∧ row = e.evolve j before ∧ e.retiredId ≠ some j := by
  simp only [Ledger.apply] at found
  split at found
  · cases found
  rename_i stays
  split at found
  · rename_i born
    rw [found] at born
    exact .inl ⟨found, Option.some.inj born⟩
  · obtain ⟨before, live, rfl⟩ := Option.map_eq_some_iff.mp found
    exact .inr ⟨before, live, rfl, stays⟩

/-- A finished job after an event was archived by it, or was finished before. -/
theorem Ledger.apply_jobHistory (found : (l.apply ext e).jobHistory j = some entry) :
    (∃ row, e.retires = some (row, entry) ∧ e.retiredId = some j) ∨
      (l.jobHistory j = some entry ∧ j ∉ e.forgets ∧ e.retiredId ≠ some j) := by
  simp only [Ledger.apply] at found
  split at found
  · rename_i retired
    obtain ⟨pair, retires, rfl⟩ := Option.map_eq_some_iff.mp found
    exact .inl ⟨pair.1, retires, retired⟩
  · rename_i stays
    split at found
    · cases found
    · rename_i kept
      exact .inr ⟨found, kept, stays⟩

theorem Ledger.jobs_of_retired (retired : e.retiredId = some j) :
    (l.apply ext e).jobs j = none := if_pos retired

/-- A job that is live before an event and not after it was archived by it. -/
theorem Ledger.retired_of_gone (live : l.jobs j = some row) (gone : (l.apply ext e).jobs j = none) :
    e.retiredId = some j := by
  simp only [Ledger.apply] at gone
  split at gone
  · assumption
  split at gone
  · rename_i born
    rw [gone] at born
    cases born
  · simp [live] at gone

/-! ## Soundness of the books -/

/-- **The invariant of the books.**  Rows stand under their ids, every id in the
books has been drawn, no job is both live and finished, parents are older than
their children, and every scheduler record has a next run. -/
structure Ledger.Sound (ext : Externals) (l : Ledger) : Prop where
  keyed : ∀ {j row}, l.jobs j = some row → row.id = j
  historyKeyed : ∀ {j entry}, l.jobHistory j = some entry → entry.id = j
  drawn : ∀ {j row}, l.jobs j = some row → l.Drawn ext j
  historyDrawn : ∀ {j entry}, l.jobHistory j = some entry → l.Drawn ext j
  disjoint : ∀ {j row}, l.jobs j = some row → l.jobHistory j = none
  older : ∀ {j row p}, l.jobs j = some row → row.parentId = some p → Older ext p j
  scheduled : l.SchedulersActive

namespace Ledger.Sound

theorem empty (ext : Externals) : (Db.empty.ledger 0 0).Sound ext where
  keyed := nofun
  historyKeyed := nofun
  drawn := nofun
  historyDrawn := nofun
  disjoint := nofun
  older := nofun
  scheduled := fun _ _ found => nomatch found

/-- A job drawn now is in no book. -/
theorem fresh (sound : l.Sound ext) {slot : ℕ} (draws : l.Draws ext j slot) :
    l.jobs j = none ∧ l.jobHistory j = none := by
  constructor
  · exact Option.eq_none_iff_forall_ne_some.mpr fun row found => draws.not_drawn (sound.drawn found)
  · exact Option.eq_none_iff_forall_ne_some.mpr fun entry found =>
      draws.not_drawn (sound.historyDrawn found)

theorem known (sound : l.Sound ext) {p : JobId}
    (known : (l.jobs p).isSome ∨ (l.jobHistory p).isSome) : l.Drawn ext p := by
  rcases known with live | done
  · obtain ⟨row, found⟩ := Option.isSome_iff_exists.mp live
    exact sound.drawn found
  · obtain ⟨entry, found⟩ := Option.isSome_iff_exists.mp done
    exact sound.historyDrawn found

/-- A finished job is not live. -/
theorem not_live (sound : l.Sound ext) (done : l.jobHistory j = some entry) : l.jobs j = none := by
  refine Option.eq_none_iff_forall_ne_some.mpr fun row live => ?_
  cases (sound.disjoint live).symm.trans done

/-- Every event keeps the books sound. -/
theorem step (step : Step ext l e l') (sound : l.Sound ext) : l'.Sound ext := by
  have mono : ∀ {j}, l.Drawn ext j → l'.Drawn ext j := step.drawn_mono
  have scheduled := step.schedulersActive sound.scheduled
  obtain ⟨enabled, rfl⟩ := step
  constructor
  case scheduled => exact scheduled
  case keyed =>
    intro j row found
    rcases apply_jobs found with ⟨-, here⟩ | ⟨before, live, rfl, -⟩
    · exact here
    · exact (e.evolve_sameIdentity j before).id.trans (sound.keyed live)
  case historyKeyed =>
    intro j entry found
    rcases apply_jobHistory found with ⟨row, retires, retired⟩ | ⟨done, -, -⟩
    · obtain ⟨-, copy, here⟩ := enabled.retires retires
      exact copy.id.trans (Option.some.inj (here.symm.trans retired))
    · exact sound.historyKeyed done
  case drawn =>
    intro j row found
    rcases apply_jobs found with ⟨born, rfl⟩ | ⟨before, live, -, -⟩
    · exact enabled.drawn_born born
    · exact mono (sound.drawn live)
  case historyDrawn =>
    intro j entry found
    rcases apply_jobHistory found with ⟨row, retires, retired⟩ | ⟨done, -, -⟩
    · obtain ⟨live, -, here⟩ := enabled.retires retires
      cases here.symm.trans retired
      exact mono (sound.drawn live)
    · exact mono (sound.historyDrawn done)
  case disjoint =>
    intro j row found
    refine Option.eq_none_iff_forall_ne_some.mpr fun entry done => ?_
    rcases apply_jobHistory done with ⟨-, -, retired⟩ | ⟨done, -, -⟩
    · rw [jobs_of_retired retired] at found
      cases found
    · rcases apply_jobs found with ⟨born, rfl⟩ | ⟨before, live, -, -⟩
      · simp [(sound.fresh (enabled.born born).draws).2] at done
      · simp [sound.disjoint live] at done
  case older =>
    intro j row p found here
    rcases apply_jobs found with ⟨born, rfl⟩ | ⟨before, live, rfl, -⟩
    · have birth := enabled.born born
      exact birth.draws.younger (sound.known (birth.parent p here))
    · rw [(e.evolve_sameIdentity j before).parentId] at here
      exact sound.older live here

/-! ## What is gone stays gone, what is archived stays archived -/

/-- A job that has left the books of live jobs never returns to them. -/
theorem gone_stays (step : Step ext l e l') (drawn : l.Drawn ext j) (gone : l.jobs j = none) :
    l'.jobs j = none := by
  obtain ⟨enabled, rfl⟩ := step
  refine Option.eq_none_iff_forall_ne_some.mpr fun row found => ?_
  rcases apply_jobs found with ⟨born, rfl⟩ | ⟨before, live, -, -⟩
  · exact (enabled.born born).draws.not_drawn drawn
  · rw [gone] at live
    cases live

theorem gone_of_chain (chain : Chain (Step ext) l events l') (drawn : l.Drawn ext j)
    (gone : l.jobs j = none) : l'.jobs j = none := by
  induction chain with
  | nil => exact gone
  | cons head _ ih => exact ih (head.drawn_mono drawn) (gone_stays head drawn gone)

/-- A history row stays as it is until a sweep deletes it. -/
theorem archived_stays (sound : l.Sound ext) (step : Step ext l e l')
    (done : l.jobHistory j = some entry) (kept : j ∉ e.forgets) : l'.jobHistory j = some entry := by
  obtain ⟨enabled, rfl⟩ := step
  have stays : e.retiredId ≠ some j := by
    intro retired
    obtain ⟨row, other, retires, rfl⟩ := Event.retires_of_retiredId retired
    have := sound.disjoint (enabled.retires retires).1
    rw [done] at this
    cases this
  exact (if_neg stays).trans ((if_neg kept).trans done)

/-- What an event archives is in the history after it. -/
theorem archived (step : Step ext l e l') (retires : e.retires = some (row, entry)) :
    l'.jobHistory row.id = some entry := by
  obtain ⟨enabled, rfl⟩ := step
  refine (if_pos (enabled.retires retires).2.2).trans ?_
  rw [retires]
  rfl

theorem archived_stays_of_chain (sound : l.Sound ext) (chain : Chain (Step ext) l events l')
    (done : l.jobHistory j = some entry) (kept : ∀ e ∈ events, j ∉ e.forgets) :
    l'.jobHistory j = some entry := by
  induction chain with
  | nil => exact done
  | cons head _ ih =>
    exact ih (sound.step head) (archived_stays sound head done (kept _ List.mem_cons_self))
      fun e mem => kept e (List.mem_cons_of_mem _ mem)

theorem archived_of_chain (sound : l.Sound ext) (chain : Chain (Step ext) l events l') {e : Event}
    (mem : e ∈ events) (retires : e.retires = some (row, entry))
    (kept : ∀ e ∈ events, row.id ∉ e.forgets) : l'.jobHistory row.id = some entry := by
  induction chain with
  | nil => cases mem
  | cons head rest ih =>
    rcases List.mem_cons.mp mem with rfl | later
    · exact archived_stays_of_chain (sound.step head) rest (archived head retires)
        fun e mem => kept e (List.mem_cons_of_mem _ mem)
    · exact ih (sound.step head) later fun e mem => kept e (List.mem_cons_of_mem _ mem)

/-- The history row of a job that is no longer live only ever disappears: it is
never replaced or written anew. -/
theorem archived_or_erased (step : Step ext l e l') (gone : l.jobs j = none) :
    l'.jobHistory j = l.jobHistory j ∨ l'.jobHistory j = none := by
  obtain ⟨enabled, rfl⟩ := step
  cases found : (l.apply ext e).jobHistory j with
  | none => exact .inr rfl
  | some entry =>
    rcases Ledger.apply_jobHistory found with ⟨row, retires, retired⟩ | ⟨old, -⟩
    · obtain ⟨live, -, here⟩ := enabled.retires retires
      rw [retired, Option.some.injEq] at here
      rw [← here, gone] at live
      cases live
    · exact .inl old.symm

theorem archived_or_erased_of_chain (chain : Chain (Step ext) l events l') (drawn : l.Drawn ext j)
    (gone : l.jobs j = none) : l'.jobHistory j = l.jobHistory j ∨ l'.jobHistory j = none := by
  induction chain with
  | nil => exact .inl rfl
  | cons head _ ih =>
    rcases ih (head.drawn_mono drawn) (gone_stays head drawn gone) with same | erased
    · rw [same]
      exact archived_or_erased head gone
    · exact .inr erased

/-- A live job stays live along a chain that does not archive it. -/
theorem live_or_retired_of_chain (chain : Chain (Step ext) l events l') (live : (l.jobs j).isSome) :
    (l'.jobs j).isSome ∨ ∃ e ∈ events, e.retiredId = some j := by
  induction chain with
  | nil => exact .inl live
  | @cons l next final e events head rest ih =>
    obtain ⟨row, found⟩ := Option.isSome_iff_exists.mp live
    by_cases stays : (next.jobs j).isSome
    · rcases ih stays with alive | ⟨e, mem, retired⟩
      · exact .inl alive
      · exact .inr ⟨e, List.mem_cons_of_mem _ mem, retired⟩
    · obtain ⟨-, rfl⟩ := head
      have gone := Option.not_isSome_iff_eq_none.mp stays
      exact .inr ⟨e, List.mem_cons_self, Ledger.retired_of_gone found gone⟩

/-! ## Births -/

/-- The ids born along a chain had not been drawn before it. -/
theorem born_not_drawn (chain : Chain (Step ext) l events l') {e : Event} (mem : e ∈ events)
    (born : e.born = some row) : ¬ l.Drawn ext row.id := by
  induction chain with
  | nil => cases mem
  | cons head _ ih =>
    rcases List.mem_cons.mp mem with rfl | later
    · exact (head.1.born born).draws.not_drawn
    · exact fun drawn => ih later (head.drawn_mono drawn)

/-- No id is born twice. -/
theorem born_nodup (chain : Chain (Step ext) l events l') :
    ((events.filterMap Event.born).map JobRow.id).Nodup := by
  induction chain with
  | nil => exact List.nodup_nil
  | @cons l next final e events head rest ih =>
    cases birth : e.born with
    | none => rwa [List.filterMap_cons_none birth]
    | some row =>
      rw [List.filterMap_cons_some birth, List.map_cons, List.nodup_cons]
      refine ⟨fun again => ?_, ih⟩
      obtain ⟨other, mem, same⟩ := List.mem_map.mp again
      obtain ⟨e', later, born⟩ := List.mem_filterMap.mp mem
      have drawn := head.1.drawn_born birth
      rw [← head.2, ← same] at drawn
      exact born_not_drawn rest later born drawn

/-- A live job that is not archived keeps its identity. -/
theorem live_stays (sound : l.Sound ext) (step : Step ext l e l') (live : l.jobs j = some row)
    (kept : e.retiredId ≠ some j) : ∃ row', l'.jobs j = some row' ∧ row.SameIdentity row' := by
  obtain ⟨enabled, rfl⟩ := step
  have unborn : e.born.map JobRow.id ≠ some j := by
    intro birth
    obtain ⟨newborn, born, rfl⟩ := Option.map_eq_some_iff.mp birth
    exact (enabled.born born).draws.not_drawn (sound.drawn live)
  refine ⟨e.evolve j row, ?_, e.evolve_sameIdentity j row⟩
  exact (if_neg kept).trans ((if_neg unborn).trans (by rw [live]; rfl))

theorem live_stays_of_chain (sound : l.Sound ext) (chain : Chain (Step ext) l events l')
    (kept : ∀ e ∈ events, e.retiredId = none) (live : l.jobs j = some row) :
    ∃ row', l'.jobs j = some row' ∧ row.SameIdentity row' := by
  induction chain generalizing row with
  | nil => exact ⟨row, live, .refl row⟩
  | @cons l next final e events head rest ih =>
    obtain ⟨row₁, live₁, same₁⟩ := live_stays sound head live
      (by rw [kept e List.mem_cons_self]; exact nofun)
    obtain ⟨row₂, live₂, same₂⟩ := ih (sound.step head)
      (fun e mem => kept e (List.mem_cons_of_mem _ mem)) live₁
    exact ⟨row₂, live₂, same₁.trans same₂⟩

/-- What is born along a chain that archives nothing is live at its end. -/
theorem live_of_born (sound : l.Sound ext) (chain : Chain (Step ext) l events l')
    (kept : ∀ e ∈ events, e.retiredId = none) {e : Event} (mem : e ∈ events)
    (born : e.born = some row) : ∃ row', l'.jobs row.id = some row' ∧ row.SameIdentity row' := by
  induction chain with
  | nil => cases mem
  | @cons l next final e' events head rest ih =>
    have later := fun e mem => kept e (List.mem_cons_of_mem _ mem)
    rcases List.mem_cons.mp mem with rfl | mem
    · have live : next.jobs row.id = some row := by
        obtain ⟨-, rfl⟩ := head
        have unretired : e.retiredId ≠ some row.id := by
          rw [kept e List.mem_cons_self]
          exact nofun
        exact (if_neg unretired).trans ((if_pos (by rw [born]; rfl)).trans born)
      exact live_stays_of_chain (sound.step head) rest later live
    · exact ih (sound.step head) later mem

/-- A live job at the end of a chain was live at its start or is born along it. -/
theorem live_or_born_of_chain (chain : Chain (Step ext) l events l') (live : l'.jobs j = some row) :
    (∃ old, l.jobs j = some old ∧ old.SameIdentity row) ∨
      ∃ e ∈ events, ∃ newborn, e.born = some newborn ∧ newborn.id = j ∧
        newborn.SameIdentity row := by
  induction chain with
  | nil => exact .inl ⟨row, live, .refl row⟩
  | @cons l next final e events head rest ih =>
    rcases ih live with ⟨mid, alive, same⟩ | ⟨e', mem, newborn, birth⟩
    · obtain ⟨-, rfl⟩ := head
      rcases apply_jobs alive with ⟨born, here⟩ | ⟨before, was, rfl, -⟩
      · exact .inr ⟨e, List.mem_cons_self, mid, born, here, same⟩
      · exact .inl ⟨before, was, (e.evolve_sameIdentity j before).trans same⟩
    · exact .inr ⟨e', List.mem_cons_of_mem _ mem, newborn, birth⟩

end Ledger.Sound

end AnvilMQ
