import AnvilMQ.Relational.Select
import AnvilMQ.Relational.Table

/-!
# Pruning in bounded batches

A bounded `DELETE` removes some of the rows that meet a condition, at least one of them if there
are any, and all of them if the bound covers the table; otherwise its query plan decides which.
Repeated, such a statement comes to an end when no row meets the condition any more.  Where the
condition depends on the table itself, as the rank of a row does, it has to be shown that what is
deleted on the way does not change the verdict on the rows that are left.
-/

namespace Relational

universe u v

/-! ## Ranks -/

section Rank

variable {ρ : Type u} {before : ρ → ρ → Bool} {rows : List ρ}

/-- A row has a smaller rank than the rows it comes before. -/
theorem countP_before_lt (transitive : ∀ a b c, before a b = true → before b c = true →
      before a c = true) (irreflexive : ∀ a, before a a = false) {x r : ρ} (mem : x ∈ rows)
    (earlier : before x r = true) :
    rows.countP (before · x) < rows.countP (before · r) := by
  obtain ⟨front, back, rfl⟩ := List.append_of_mem mem
  have mono : ∀ l : List ρ, l.countP (before · x) ≤ l.countP (before · r) :=
    fun l => List.countP_mono_left fun y _ first => transitive y x r first earlier
  have here : (x :: back).countP (before · x) < (x :: back).countP (before · r) := by
    rw [List.countP_cons_of_neg (p := (before · x)) (by simp [irreflexive]),
      List.countP_cons_of_pos (p := (before · r)) earlier]
    exact Nat.lt_succ_of_le (mono back)
  rw [List.countP_append, List.countP_append]
  exact Nat.add_lt_add_of_le_of_lt (mono front) here

/-- **A row stays beyond a rank** while the rows that are dropped before it are beyond that rank
themselves. -/
theorem le_countP_filter (transitive : ∀ a b c, before a b = true → before b c = true →
      before a c = true) (irreflexive : ∀ a, before a a = false) {kept : ρ → Bool} {n : ℕ} {r : ρ}
    (dropped : ∀ x ∈ rows, before x r = true → kept x = false → n ≤ rows.countP (before · x))
    (beyond : n ≤ rows.countP (before · r)) : n ≤ (rows.filter kept).countP (before · r) := by
  -- on the rank of `r`: a dropped row before it has a smaller one
  induction rank : rows.countP (before · r) using Nat.strong_induction_on generalizing r with
  | _ rank_ ih =>
    subst rank
    by_cases all : ∀ x ∈ rows, before x r = true → kept x = true
    · have same : (rows.filter kept).countP (before · r) = rows.countP (before · r) := by
        rw [List.countP_filter]
        refine List.countP_congr fun x mem => ?_
        constructor
        · intro both
          exact (Bool.and_eq_true _ _ |>.mp both).1
        · intro first
          rw [first, all x mem first]
          rfl
      rw [same]
      exact beyond
    · obtain ⟨x, mem, first, gone⟩ : ∃ x ∈ rows, before x r = true ∧ kept x = false := by
        simpa using all
      have smaller := countP_before_lt transitive irreflexive mem first
      have bound : n ≤ (rows.filter kept).countP (before · x) :=
        ih _ smaller (fun y my earlier => dropped y my (transitive y x r earlier first))
          (dropped x mem first gone) rfl
      exact bound.trans (List.countP_mono_left fun y _ earlier => transitive y x r earlier first)

end Rank

/-! ## Tables that lose rows -/

namespace Table

variable {ρ : Type u} {κ : Type v} {key : ρ → κ} {t t' : Table key} {P : ρ → Prop}

theorem DeletesOnly.sublist (only : DeletesOnly P t t') : t'.rows.Sublist t.rows := by
  obtain ⟨q, rfl, -⟩ := only
  exact List.filter_sublist

/-- A table that has lost no row is the same. -/
theorem DeletesOnly.eq_of_length_le (only : DeletesOnly P t t')
    (whole : t.rows.length ≤ t'.rows.length) : t' = t :=
  Table.ext (only.sublist.eq_of_length_le whole)

/-- Nothing is lost where nothing may be deleted. -/
theorem DeletesOnly.eq_of_none (only : DeletesOnly P t t') (spared : ∀ r ∈ t, ¬ P r) : t' = t := by
  obtain ⟨q, rfl, chosen⟩ := only
  apply Table.ext
  rw [delete, List.filter_eq_self]
  intro r mem
  cases picked : q r with
  | false => rfl
  | true => exact absurd (chosen r mem picked) (spared r mem)

/-- **A table that has lost only doomed rows, and has none left**, is the table without them. -/
theorem DeletesOnly.eq_delete {doomed : ρ → Bool}
    (only : DeletesOnly (fun r => doomed r = true) t t')
    (spared : ∀ r ∈ t', doomed r = false) : t' = t.delete doomed := by
  obtain ⟨q, rfl, chosen⟩ := only
  apply Table.ext
  refine List.filter_congr fun r mem => ?_
  cases picked : q r with
  | true => rw [chosen r mem picked]
  | false => rw [spared r (mem_delete.mpr ⟨mem, picked⟩)]

/-- A bounded `DELETE`: it removes only rows that satisfy `P`, one at least if there is one and
the bound admits it, and all of them if the bound covers the table. -/
structure Prunes (bound : ℤ) (P : ρ → Prop) (t t' : Table key) : Prop where
  only : DeletesOnly P t t'
  idle : 0 < bound → t' = t → ∀ r ∈ t, ¬ P r
  reached : t.rows.length ≤ bound → ∀ r ∈ t', ¬ P r

variable {bound : ℤ}

theorem Prunes.congr {Q : ρ → Prop} (prunes : Prunes bound P t t') (means : ∀ r, Q r ↔ P r) :
    Prunes bound Q t t' := by
  obtain rfl : Q = P := funext fun r => propext (means r)
  exact prunes

theorem Prunes.refl (spared : ∀ r ∈ t, ¬ P r) : Prunes bound P t t :=
  ⟨.refl P t, fun _ _ => spared, fun _ => spared⟩

/-- The rows of a selection are deleted and no others. -/
theorem deletesOnly_of_selected [DecidableEq κ] {selected : List ρ}
    (picks : ∀ r ∈ selected, r ∈ t ∧ P r) :
    DeletesOnly P t (t.delete fun r => (selected.map key).contains (key r)) := by
  refine ⟨_, rfl, fun r mem chosen => ?_⟩
  obtain ⟨picked, here, same⟩ := List.mem_map.mp (List.contains_iff_mem.mp chosen)
  obtain ⟨stored, holds⟩ := picks picked here
  rwa [← eq_of_key_eq stored mem same]

/-- The rows of a bounded selection prune. -/
theorem prunes_of_selected [DecidableEq κ] {p : ρ → Bool} {selected : List ρ}
    (picks : ∀ r ∈ selected, r ∈ t.rows.filter p)
    (bounded : 0 < bound → selected = [] → t.rows.filter p = [])
    (covers : t.rows.length ≤ bound → ∀ r ∈ t.rows.filter p, r ∈ selected) :
    Prunes bound (fun r => p r = true) t
      (t.delete fun r => (selected.map key).contains (key r)) := by
  have met : ∀ {r}, r ∈ t → p r = true → r ∈ t.rows.filter p :=
    fun mem holds => List.mem_filter.mpr ⟨mem, holds⟩
  constructor
  · exact deletesOnly_of_selected fun r here => List.mem_filter.mp (picks r here)
  · intro positive unchanged r mem holds
    cases selected with
    | nil =>
      have here := met mem holds
      rw [bounded positive rfl] at here
      cases here
    | cons first rest =>
      -- the first selected row is gone
      have stored : first ∈ t := (List.mem_filter.mp (picks first List.mem_cons_self)).1
      rw [← unchanged] at stored
      have spared := (mem_delete.mp stored).2
      simp at spared
  · intro covered r mem holds
    obtain ⟨stored, spared⟩ := mem_delete.mp mem
    have chosen := List.mem_map_of_mem (f := key) (covers covered r (met stored holds))
    exact absurd spared (ne_false_of_eq_true (List.contains_iff_mem.mpr chosen))

end Table

namespace Scan

variable {α : Type u} {scan : Scan α} {rows : List α} {n : ℕ}

/-- A bound that admits a row leaves none out only where there is none. -/
theorem eq_nil_of_limit (positive : 0 < n) (empty : scan.limit n rows = []) : rows = [] := by
  rcases List.take_eq_nil_iff.mp empty with zero | nothing
  · exact absurd zero positive.ne'
  · exact List.Perm.eq_nil ((scan.perm rows).symm.trans (nothing ▸ .refl _))

theorem eq_nil_of_limitBy {key : α → ℤ} (positive : 0 < n)
    (empty : scan.limitBy key n rows = []) : rows = [] := by
  rcases List.take_eq_nil_iff.mp empty with zero | nothing
  · exact absurd zero positive.ne'
  · have visited := (List.perm_insertionSort (fun a b => key a ≤ key b) (scan.visit rows)).symm
    rw [nothing] at visited
    exact List.Perm.eq_nil ((scan.perm rows).symm.trans visited)

/-- A bound that covers the rows leaves none out. -/
theorem mem_limit (enough : rows.length ≤ n) {a : α} (mem : a ∈ rows) : a ∈ scan.limit n rows := by
  rw [limit, List.take_of_length_le ((scan.perm rows).length_eq.trans_le enough)]
  exact (scan.perm rows).mem_iff.mpr mem

theorem mem_limitBy {key : α → ℤ} (enough : rows.length ≤ n) {a : α} (mem : a ∈ rows) :
    a ∈ scan.limitBy key n rows := by
  have visited := (List.perm_insertionSort (fun a b => key a ≤ key b) (scan.visit rows)).trans
    (scan.perm rows)
  rw [limitBy, List.take_of_length_le (visited.length_eq.trans_le enough)]
  exact visited.mem_iff.mpr mem

end Scan

end Relational
