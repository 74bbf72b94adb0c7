import AnvilMQ.Ledger.Identity

/-!
# Parents, children and the pending counter

Two invariants of the ledger machine about flows.  They speak of the history of
events: which links have been made, which jobs have completed, and which
completions were counted off a parent.
-/

namespace AnvilMQ

open Rust Relational Transition

variable {ext : Externals} {past : List Event} {l l' : Ledger} {e : Event} {c p : JobId}

/-! ## Counting off -/

/-- The job an event counts a child off. -/
def Event.countsOff : Event → Option JobId
  | completed _ _ parent _ _ _ => parent.map JobRow.id
  | _ => none

/-- How many children a history has counted off a job. -/
def countedOff (past : List Event) (j : JobId) : ℕ :=
  past.countP fun e => decide (e.countsOff = some j)

/-- The job an event completes. -/
def Event.completes : Event → Option JobId
  | completed row _ _ _ _ _ => some row.id
  | _ => none

theorem countedOff_concat (past : List Event) (e : Event) (j : JobId) :
    countedOff (past ++ [e]) j = countedOff past j + if e.countsOff = some j then 1 else 0 := by
  simp [countedOff, List.countP_append, List.countP_singleton]

theorem announced_concat (past : List Event) (e : Event) (j : JobId) :
    announced (past ++ [e]) j = announced past j + e.announces j := by
  simp [announced]

/-- **The counter is a tally**: the children announced less the children counted
off; and a job that is not parked has none pending. -/
structure Tally (ext : Externals) (past : List Event) (l : Ledger) : Prop where
  sound : l.Sound ext
  unborn : ∀ {j}, ¬ l.Drawn ext j → announced past j = 0 ∧ countedOff past j = 0
  pending : ∀ {j row}, l.jobs j = some row →
    row.pendingChildren = announced past j - countedOff past j
  gated : ∀ {j row}, l.jobs j = some row → row.state = .waitingChildren ∨ row.pendingChildren ≤ 0

theorem JobRow.countedDown_pending (row : JobRow) (now updatedAt : ℤ) :
    (row.countedDown now updatedAt).pendingChildren = row.pendingChildren - 1 := by
  rw [JobRow.countedDown]
  split <;> rfl

theorem JobRow.countedDown_gated (row : JobRow) (now updatedAt : ℤ)
    (gated : row.state = .waitingChildren ∨ row.pendingChildren ≤ 0) :
    (row.countedDown now updatedAt).state = .waitingChildren ∨
      (row.countedDown now updatedAt).pendingChildren ≤ 0 := by
  rw [JobRow.countedDown_pending]
  rcases gated with parked | open_
  · by_cases low : row.pendingChildren - 1 ≤ 0
    · exact .inr low
    · left
      simp [JobRow.countedDown, gateOpens, parked, low]
  · right
    omega

/-- What an event does to the counter of a job that stays live. -/
theorem Event.evolve_pending (e : Event) {j : JobId} (r : JobRow)
    (unborn : e.born.map JobRow.id ≠ some j) :
    (e.evolve j r).pendingChildren =
      r.pendingChildren + e.announces j - if e.countsOff = some j then 1 else 0 := by
  cases e with
  | planted row slot =>
    have other : row.id ≠ j := fun here => unborn (congrArg some here)
    simp [announces, countsOff, other]
  | completed row entry parent now updatedAt released =>
    by_cases off : (completed row entry parent now updatedAt released).countsOff = some j
    · have here : parent.map JobRow.id = some j := off
      simp only [if_pos off, evolve, if_pos here, JobRow.countedDown_pending, announces, add_zero]
    · have there : parent.map JobRow.id ≠ some j := off
      simp only [if_neg off, evolve, if_neg there, announces, add_zero, sub_zero]
  | regated target n updatedAt =>
    by_cases here : target.id = j
    · simp [announces, countsOff, here, JobRow.parked]
    · simp [announces, countsOff, here, Ne.symm here]
  | claimed row workerId now lease =>
    simp only [evolve, announces, countsOff]
    split <;> simp [JobRow.leased]
  | renewed row lease now =>
    simp only [evolve, announces, countsOff]
    split <;> simp
  | requeued row cause state availableAt lastError updatedAt =>
    simp only [evolve, announces, countsOff]
    split <;> simp [JobRow.requeued]
  | adopted target =>
    simp only [evolve, announces, countsOff]
    split <;> simp
  | _ => simp [announces, countsOff]

/-- A job that stays live is still parked or has nothing pending. -/
theorem Event.Enabled.evolve_gated (enabled : e.Enabled ext l) {j : JobId} {r : JobRow}
    (live : l.jobs j = some r)
    (gated : r.state = .waitingChildren ∨ r.pendingChildren ≤ 0) :
    (e.evolve j r).state = .waitingChildren ∨ (e.evolve j r).pendingChildren ≤ 0 := by
  have free : ∀ row : JobRow, l.jobs row.id = some row → j = row.id →
      row.state ≠ .waitingChildren → r.pendingChildren ≤ 0 := by
    rintro row found rfl running
    cases live.symm.trans found
    exact gated.resolve_left running
  cases e with
  | claimed row workerId now lease =>
    simp only [evolve]
    split
    · rename_i here
      refine .inr (free row enabled.1 here ?_)
      rcases enabled.2.1 with state | state <;> simp [state]
    · exact gated
  | renewed row lease now =>
    simp only [evolve]
    split <;> exact gated
  | requeued row cause state availableAt lastError updatedAt =>
    simp only [evolve]
    split
    · rename_i here
      exact .inr (free row enabled.1 here (by simp [enabled.2.1]))
    · exact gated
  | completed row entry parent now updatedAt released =>
    simp only [evolve]
    split
    · exact r.countedDown_gated now updatedAt gated
    · exact gated
  | adopted target =>
    simp only [evolve]
    split <;> exact gated
  | regated target n updatedAt =>
    simp only [evolve]
    split
    · exact .inl rfl
    · exact gated
  | _ => exact gated

/-- What an event announces or counts off is in the books. -/
theorem Event.Enabled.silent (enabled : e.Enabled ext l) (sound : l.Sound ext) {j : JobId}
    (undrawn : ¬ (l.apply ext e).Drawn ext j) : e.announces j = 0 ∧ e.countsOff ≠ some j := by
  have mono : ∀ {j}, l.Drawn ext j → (l.apply ext e).Drawn ext j :=
    Step.drawn_mono ⟨enabled, rfl⟩
  cases e with
  | planted row slot =>
    refine ⟨if_neg ?_, nofun⟩
    rintro rfl
    exact undrawn (enabled.drawn_born rfl)
  | regated target n updatedAt =>
    refine ⟨if_neg ?_, nofun⟩
    rintro rfl
    exact undrawn (mono (sound.drawn enabled.1))
  | completed row entry parent now updatedAt released =>
    refine ⟨rfl, fun counts => undrawn ?_⟩
    obtain ⟨p, here, rfl⟩ := Option.map_eq_some_iff.mp counts
    obtain ⟨-, -, -, found⟩ := enabled
    rw [here] at found
    obtain ⟨q, -, live⟩ := Option.bind_eq_some_iff.mp found.symm
    rw [Function.update_apply] at live
    split at live
    · cases live
    · rw [sound.keyed live]
      exact mono (sound.drawn live)
  | _ => exact ⟨rfl, nofun⟩

/-- **An enabled event keeps the tally of announced and counted children.** -/
theorem Tally.step (step : Step ext l e l') (tally : Tally ext past l) :
    Tally ext (past ++ [e]) l' := by
  have sound := tally.sound.step step
  have mono : ∀ {j}, l.Drawn ext j → l'.Drawn ext j := step.drawn_mono
  obtain ⟨enabled, rfl⟩ := step
  refine ⟨sound, ?_, ?_, ?_⟩
  · intro j undrawn
    obtain ⟨quiet, off⟩ := enabled.silent tally.sound undrawn
    obtain ⟨unannounced, uncounted⟩ := tally.unborn fun drawn => undrawn (mono drawn)
    rw [announced_concat, countedOff_concat, unannounced, uncounted, quiet, if_neg off]
    exact ⟨rfl, rfl⟩
  · intro j row found
    rw [announced_concat, countedOff_concat]
    rcases Ledger.apply_jobs found with ⟨born, rfl⟩ | ⟨before, live, rfl, -⟩
    · obtain ⟨unannounced, uncounted⟩ := tally.unborn (enabled.born born).draws.not_drawn
      rw [unannounced, uncounted]
      cases e with
      | enqueued inserted now slot =>
        cases born
        simp [Event.announces, Event.countsOff, enabled.childless]
      | planted inserted slot =>
        cases born
        simp [Event.announces, Event.countsOff]
      | _ => cases born
    · have unborn : e.born.map JobRow.id ≠ some j := by
        intro here
        obtain ⟨row, born, rfl⟩ := Option.map_eq_some_iff.mp here
        rw [(enabled.born born).absent] at live
        cases live
      rw [e.evolve_pending before unborn, tally.pending live]
      split <;> simp <;> ring
  · intro j row found
    rcases Ledger.apply_jobs found with ⟨born, rfl⟩ | ⟨before, live, rfl, -⟩
    · cases e with
      | enqueued inserted now slot =>
        cases born
        exact .inr enabled.childless.le
      | planted inserted slot =>
        cases born
        rcases enabled.gated with ⟨parked, -⟩ | ⟨-, childless⟩
        · exact .inl parked
        · exact .inr childless.le
      | _ => cases born
    · exact enabled.evolve_gated live (tally.gated live)

theorem Tally.empty (ext : Externals) : Tally ext [] (Db.empty.ledger 0 0) where
  sound := .empty ext
  unborn := fun _ => ⟨rfl, rfl⟩
  pending := nofun
  gated := nofun

/-! ## Links and completions -/

/-- The links a history has made. -/
def linksOf (past : List Event) : List (JobId × JobId) := past.filterMap Event.link

/-- The jobs a history has completed. -/
def completionsOf (past : List Event) : List JobId := past.filterMap Event.completes

/-- **What links and completions have to do with each other.**  A link names a
child once and for good, a job completes once, and a completed child was counted
off its parent unless the parent has left the books. -/
structure Kinship (ext : Externals) (past : List Event) (l : Ledger) : Prop where
  sound : l.Sound ext
  linkDrawn : ∀ {c p}, (c, p) ∈ linksOf past → l.Drawn ext c
  linkNodup : ((linksOf past).map Prod.fst).Nodup
  linkParent : ∀ {c p row}, (c, p) ∈ linksOf past → l.jobs c = some row → row.parentId = some p
  linkCompleted : ∀ {c p row entry parent now updatedAt n}, (c, p) ∈ linksOf past →
    .completed row entry parent now updatedAt n ∈ past → row.id = c → row.parentId = some p
  completedDrawn : ∀ {c}, c ∈ completionsOf past → l.Drawn ext c
  completedGone : ∀ {c}, c ∈ completionsOf past → l.jobs c = none
  completedNodup : (completionsOf past).Nodup
  counted : ∀ {row entry parent now updatedAt n p},
    .completed row entry parent now updatedAt n ∈ past → row.parentId = some p →
    parent.map JobRow.id = some p ∨ (l.Drawn ext p ∧ l.jobs p = none)
  countedParent : ∀ {row entry parent now updatedAt n p},
    .completed row entry parent now updatedAt n ∈ past → parent.map JobRow.id = some p →
    row.parentId = some p
  archived : ∀ {j entry}, l.jobHistory j = some entry → entry.state = .completed →
    j ∈ completionsOf past

theorem linksOf_concat (past : List Event) (e : Event) :
    linksOf (past ++ [e]) = linksOf past ++ e.link.toList :=
  Transition.filterMap_concat Event.link past e

theorem completionsOf_concat (past : List Event) (e : Event) :
    completionsOf (past ++ [e]) = completionsOf past ++ e.completes.toList :=
  Transition.filterMap_concat Event.completes past e

/-- A link is made by the birth of the child. -/
theorem Event.born_of_link (link : e.link = some (c, p)) :
    ∃ row, e.born = some row ∧ row.id = c ∧ row.parentId = some p := by
  cases e with
  | planted row slot =>
    obtain ⟨q, here, same⟩ := Option.map_eq_some_iff.mp link
    cases same
    exact ⟨row, rfl, rfl, here⟩
  | _ => cases link

theorem Event.completed_of_completes (completes : e.completes = some c) :
    ∃ row entry parent now updatedAt n,
      e = .completed row entry parent now updatedAt n ∧ row.id = c := by
  cases e with
  | completed row entry parent now updatedAt n =>
    exact ⟨row, entry, parent, now, updatedAt, n, rfl, Option.some.inj completes⟩
  | _ => cases completes

theorem mem_completionsOf {row : JobRow} {entry : HistoryRow} {parent : Option JobRow}
    {now updatedAt : ℤ} {n : ℕ} (mem : .completed row entry parent now updatedAt n ∈ past) :
    row.id ∈ completionsOf past :=
  List.mem_filterMap.mpr ⟨_, mem, rfl⟩

/-- The parent a completion counts off is the job's own, found live. -/
theorem Event.Enabled.completed_parent {row : JobRow} {entry : HistoryRow} {parent : Option JobRow}
    {now updatedAt : ℤ} {n : ℕ} (sound : l.Sound ext)
    (enabled : (Event.completed row entry parent now updatedAt n).Enabled ext l) :
    (row.parentId = some p → parent.map JobRow.id = some p ∨ l.jobs p = none) ∧
      (parent.map JobRow.id = some p → row.parentId = some p) := by
  obtain ⟨live, -, -, found⟩ := enabled
  constructor
  · intro here
    have other : p ≠ row.id := by
      rintro rfl
      exact (sound.older live here).irrefl
    rw [here, Option.bind_some, Function.update_of_ne other] at found
    cases there : l.jobs p with
    | none => exact .inr rfl
    | some q =>
      rw [there] at found
      rw [found, Option.map_some, sound.keyed there]
      exact .inl rfl
  · intro counts
    obtain ⟨q, rfl, rfl⟩ := Option.map_eq_some_iff.mp counts
    obtain ⟨a, here, live⟩ := Option.bind_eq_some_iff.mp found.symm
    rw [Function.update_apply] at live
    split at live
    · cases live
    · rw [sound.keyed live]
      exact here

/-- **An enabled event keeps links and completions in step.** -/
theorem Kinship.step (step : Step ext l e l') (kin : Kinship ext past l) :
    Kinship ext (past ++ [e]) l' := by
  have sound := kin.sound.step step
  have mono : ∀ {j}, l.Drawn ext j → l'.Drawn ext j := step.drawn_mono
  have gone : ∀ {j}, l.Drawn ext j → l.jobs j = none → l'.jobs j = none :=
    Ledger.Sound.gone_stays step
  have whole := step
  obtain ⟨enabled, rfl⟩ := step
  have fresh : ∀ {c p}, e.link = some (c, p) → ¬ l.Drawn ext c := by
    intro c p link
    obtain ⟨row, born, rfl, -⟩ := Event.born_of_link link
    exact (enabled.born born).draws.not_drawn
  have linked : ∀ {c p}, (c, p) ∈ linksOf (past ++ [e]) →
      (c, p) ∈ linksOf past ∨ e.link = some (c, p) :=
    Transition.mem_filterMap_concat.mp
  have finished : ∀ {c}, c ∈ completionsOf (past ++ [e]) →
      c ∈ completionsOf past ∨ e.completes = some c :=
    Transition.mem_filterMap_concat.mp
  have done : ∀ {row entry parent now updatedAt n},
      Event.completed row entry parent now updatedAt n ∈ past ++ [e] →
      .completed row entry parent now updatedAt n ∈ past ∨
        e = .completed row entry parent now updatedAt n := by
    intro row entry parent now updatedAt n mem
    rcases List.mem_append.mp mem with old | new
    · exact .inl old
    · exact .inr (List.mem_singleton.mp new).symm
  constructor
  case sound => exact sound
  case linkDrawn =>
    intro c p mem
    rcases linked mem with old | new
    · exact mono (kin.linkDrawn old)
    · obtain ⟨row, born, rfl, -⟩ := Event.born_of_link new
      exact enabled.drawn_born born
  case linkNodup =>
    rw [linksOf_concat, List.map_append]
    refine kin.linkNodup.append ?_ ?_
    · cases e.link <;> simp
    · intro c old new
      obtain ⟨⟨c, p⟩, here, rfl⟩ := List.mem_map.mp old
      obtain ⟨⟨c', p'⟩, there, same⟩ := List.mem_map.mp new
      cases same
      exact fresh (Option.mem_toList.mp there) (kin.linkDrawn here)
  case linkParent =>
    intro c p row mem found
    rcases linked mem with old | new
    · rcases Ledger.apply_jobs found with ⟨born, rfl⟩ | ⟨before, live, rfl, -⟩
      · exact absurd (kin.linkDrawn old) (enabled.born born).draws.not_drawn
      · rw [(e.evolve_sameIdentity c before).parentId]
        exact kin.linkParent old live
    · obtain ⟨child, born, rfl, here⟩ := Event.born_of_link new
      rcases Ledger.apply_jobs found with ⟨born', -⟩ | ⟨before, live, -, -⟩
      · cases born.symm.trans born'
        exact here
      · rw [(enabled.born born).absent] at live
        cases live
  case linkCompleted =>
    intro c p row entry parent now updatedAt n mem completed here
    rcases linked mem with old | new
    · rcases done completed with before | rfl
      · exact kin.linkCompleted old before here
      · subst here
        exact kin.linkParent old enabled.1
    · rcases done completed with before | rfl
      · subst here
        exact absurd (kin.completedDrawn (mem_completionsOf before)) (fresh new)
      · cases new
  case completedDrawn =>
    intro c mem
    rcases finished mem with old | new
    · exact mono (kin.completedDrawn old)
    · obtain ⟨row, entry, parent, now, updatedAt, n, rfl, rfl⟩ := Event.completed_of_completes new
      exact mono (kin.sound.drawn enabled.1)
  case completedGone =>
    intro c mem
    rcases finished mem with old | new
    · exact gone (kin.completedDrawn old) (kin.completedGone old)
    · obtain ⟨row, entry, parent, now, updatedAt, n, rfl, rfl⟩ := Event.completed_of_completes new
      exact Ledger.jobs_of_retired rfl
  case completedNodup =>
    rw [completionsOf_concat]
    refine kin.completedNodup.append ?_ ?_
    · cases e.completes <;> simp
    · intro c old new
      obtain ⟨row, entry, parent, now, updatedAt, n, rfl, rfl⟩ :=
        Event.completed_of_completes (Option.mem_toList.mp new)
      have := kin.completedGone old
      rw [enabled.1] at this
      cases this
  case counted =>
    intro row entry parent now updatedAt n p mem here
    rcases done mem with before | rfl
    · rcases kin.counted before here with counts | ⟨drawn, absent⟩
      · exact .inl counts
      · exact .inr ⟨mono drawn, gone drawn absent⟩
    · rcases (Event.Enabled.completed_parent kin.sound enabled).1 here with counts | absent
      · exact .inl counts
      · have drawn := (kin.sound.older enabled.1 here).drawn (kin.sound.drawn enabled.1)
        exact .inr ⟨mono drawn, gone drawn absent⟩
  case countedParent =>
    intro row entry parent now updatedAt n p mem counts
    rcases done mem with before | rfl
    · exact kin.countedParent before counts
    · exact (Event.Enabled.completed_parent kin.sound enabled).2 counts
  case archived =>
    intro j entry found completed
    rw [completionsOf_concat]
    rcases Ledger.apply_jobHistory found with ⟨row, retires, retired⟩ | ⟨old, -, -⟩
    · obtain ⟨parent, now, updatedAt, n, rfl⟩ := whole.completed_of_retires retires completed
      exact List.mem_append_right _ (Option.mem_toList.mpr retired)
    · exact List.mem_append_left _ (kin.archived old completed)

/-- At the start nothing is linked. -/
theorem Kinship.empty (ext : Externals) : Kinship ext [] (Db.empty.ledger 0 0) where
  sound := .empty ext
  linkDrawn := nofun
  linkNodup := List.nodup_nil
  linkParent := nofun
  linkCompleted := nofun
  completedDrawn := nofun
  completedGone := nofun
  completedNodup := List.nodup_nil
  counted := nofun
  countedParent := nofun
  archived := nofun

/-! ## Counting children -/

/-- The children linked to a job. -/
def childrenOf (links : List (JobId × JobId)) (p : JobId) : List JobId :=
  (links.filter fun link => decide (link.2 = p)).map Prod.fst

/-- The children counted off a job. -/
def countedChildren (past : List Event) (p : JobId) : List JobId :=
  (past.filter fun e => decide (e.countsOff = some p)).filterMap Event.completes

theorem mem_childrenOf {links : List (JobId × JobId)} :
    c ∈ childrenOf links p ↔ (c, p) ∈ links := by
  simp [childrenOf]

theorem length_childrenOf (links : List (JobId × JobId)) (p : JobId) :
    (childrenOf links p).length = linkedTo links p := by
  simp [childrenOf, linkedTo, List.countP_eq_length_filter]

/-- The children a parent has counted off are those completed under it. -/
theorem mem_countedChildren :
    c ∈ countedChildren past p ↔ ∃ row entry parent now updatedAt n,
      Event.completed row entry parent now updatedAt n ∈ past ∧ row.id = c ∧
        parent.map JobRow.id = some p := by
  simp only [countedChildren, List.mem_filterMap, List.mem_filter, decide_eq_true_eq]
  constructor
  · rintro ⟨e, ⟨mem, counts⟩, completes⟩
    obtain ⟨row, entry, parent, now, updatedAt, n, rfl, rfl⟩ :=
      Event.completed_of_completes completes
    exact ⟨row, entry, parent, now, updatedAt, n, mem, rfl, counts⟩
  · rintro ⟨row, entry, parent, now, updatedAt, n, mem, rfl, counts⟩
    exact ⟨_, ⟨mem, counts⟩, rfl⟩

theorem length_countedChildren (past : List Event) (p : JobId) :
    (countedChildren past p).length = countedOff past p := by
  rw [countedOff, List.countP_eq_length_filter, countedChildren, List.filterMap_length_eq_length]
  intro e mem
  have counts : e.countsOff = some p := by simpa using (List.mem_filter.mp mem).2
  cases e with
  | completed row entry parent now updatedAt n => rfl
  | _ => cases counts

namespace Kinship

theorem childrenOf_nodup (kin : Kinship ext past l) (p : JobId) :
    (childrenOf (linksOf past) p).Nodup :=
  kin.linkNodup.sublist (List.filter_sublist.map _)

theorem countedChildren_nodup (kin : Kinship ext past l) (p : JobId) :
    (countedChildren past p).Nodup :=
  kin.completedNodup.sublist (List.filter_sublist.filterMap _)

/-- When only linked children were counted off and none is missing, every child
has completed. -/
theorem all_completed (kin : Kinship ext past l)
    (linked : ∀ c ∈ countedChildren past p, (c, p) ∈ linksOf past)
    (enough : linkedTo (linksOf past) p ≤ countedOff past p) (child : (c, p) ∈ linksOf past) :
    c ∈ completionsOf past := by
  have within : countedChildren past p ⊆ childrenOf (linksOf past) p := fun c mem =>
    mem_childrenOf.mpr (linked c mem)
  have sub := List.subperm_of_subset (kin.countedChildren_nodup p) within
  have perm := sub.perm_of_length_le (by rwa [length_childrenOf, length_countedChildren])
  obtain ⟨row, entry, parent, now, updatedAt, n, mem, rfl, -⟩ :=
    mem_countedChildren.mp (perm.mem_iff.mpr (mem_childrenOf.mpr child))
  exact mem_completionsOf mem

/-- A completed child of a live job was counted off it. -/
theorem counted_of_completed (kin : Kinship ext past l) {parent : JobRow}
    (live : l.jobs p = some parent) (child : (c, p) ∈ linksOf past)
    (completed : c ∈ completionsOf past) : c ∈ countedChildren past p := by
  obtain ⟨e, mem, completes⟩ := List.mem_filterMap.mp completed
  obtain ⟨row, entry, found, now, updatedAt, n, rfl, rfl⟩ :=
    Event.completed_of_completes completes
  have here := kin.linkCompleted child mem rfl
  rcases kin.counted mem here with counts | ⟨-, gone⟩
  · exact mem_countedChildren.mpr ⟨row, entry, found, now, updatedAt, n, mem, rfl, counts⟩
  · rw [live] at gone
    cases gone

/-- When all children of a live job but one have completed, at most one is still
to be counted off. -/
theorem one_missing (kin : Kinship ext past l) {parent : JobRow} (live : l.jobs p = some parent)
    (child : (c, p) ∈ linksOf past)
    (others : ∀ c', (c', p) ∈ linksOf past → c' ≠ c → c' ∈ completionsOf past) :
    linkedTo (linksOf past) p ≤ countedOff past p + 1 := by
  have within : (childrenOf (linksOf past) p).erase c ⊆ countedChildren past p := by
    intro c' mem
    rw [(kin.childrenOf_nodup p).mem_erase_iff] at mem
    have link := mem_childrenOf.mp mem.2
    exact kin.counted_of_completed live link (others c' link mem.1)
  have sub := List.subperm_of_subset ((kin.childrenOf_nodup p).erase c) within
  have length := sub.length_le
  rw [List.length_erase_of_mem (mem_childrenOf.mpr child), length_childrenOf,
    length_countedChildren] at length
  omega

end Kinship

end AnvilMQ
