import Mathlib.Data.List.Nodup
import Mathlib.Data.List.Count

/-!
# Keyed tables

A relational table with a primary key, as the list of its rows in insertion
order.  The uniqueness of the key is a field of the structure, so a table that
violates its `PRIMARY KEY` cannot be built: `insert` is partial and every other
statement keeps the key by construction.

## Design notes

Every statement has one lookup equation (`find?_insert`, `find?_modify`,
`find?_delete`), one membership equation and one counting equation.  Proofs
about programs over tables use these and never unfold the row list.
-/

namespace Relational

universe u v

/-- A table over rows `ρ` with primary key `key`. -/
@[ext] structure Table {ρ : Type u} {κ : Type v} (key : ρ → κ) where
  /-- The rows in insertion order. -/
  rows : List ρ
  /-- The primary key is unique. -/
  nodup : (rows.map key).Nodup

namespace Table

variable {ρ : Type u} {κ : Type v} {key : ρ → κ} {r : ρ} {k : κ} {t t' : Table key}

instance : Membership ρ (Table key) := ⟨fun t r => r ∈ t.rows⟩

theorem mem_def : r ∈ t ↔ r ∈ t.rows := Iff.rfl

instance [DecidableEq ρ] : DecidableEq (Table key) := fun t t' =>
  decidable_of_iff (t.rows = t'.rows) Table.ext_iff.symm

instance [DecidableEq ρ] (t : Table key) (r : ρ) : Decidable (r ∈ t) :=
  inferInstanceAs (Decidable (r ∈ t.rows))

/-- The table without rows. -/
def empty : Table key := ⟨[], List.nodup_nil⟩

@[simp] theorem notMem_empty (r : ρ) : r ∉ (empty : Table key) := by
  simp [mem_def, empty]

/-- Two rows of one table with the same key are the same row. -/
theorem eq_of_key_eq {r' : ρ} (mem : r ∈ t) (mem' : r' ∈ t) (same : key r = key r') : r = r' :=
  List.inj_on_of_nodup_map t.nodup mem mem' same

/-! ## `SELECT` -/

section Lookup

variable [DecidableEq κ]

/-- The row with key `k`, if there is one. -/
def find? (t : Table key) (k : κ) : Option ρ := t.rows.find? fun r => decide (key r = k)

@[simp] theorem find?_empty (k : κ) : (empty : Table key).find? k = none := rfl

/-- Lookup is exactly membership at a key, because the key is unique. -/
theorem find?_eq_some : t.find? k = some r ↔ r ∈ t ∧ key r = k := by
  constructor
  · intro found
    exact ⟨List.mem_of_find?_eq_some found, by simpa using List.find?_some found⟩
  · rintro ⟨mem, rfl⟩
    cases found : t.find? (key r) with
    | none =>
      have absent := List.find?_eq_none.mp found r mem
      simp at absent
    | some r' =>
      have same : key r' = key r := by simpa using List.find?_some found
      rw [eq_of_key_eq (List.mem_of_find?_eq_some found) mem same]

theorem find?_eq_none : t.find? k = none ↔ ∀ r ∈ t, key r ≠ k := by
  simp [find?, List.find?_eq_none, mem_def]

theorem find?_of_mem (mem : r ∈ t) : t.find? (key r) = some r :=
  find?_eq_some.mpr ⟨mem, rfl⟩

theorem mem_of_find? (found : t.find? k = some r) : r ∈ t :=
  (find?_eq_some.mp found).1

theorem key_of_find? (found : t.find? k = some r) : key r = k :=
  (find?_eq_some.mp found).2

/-- A key is present when some row carries it. -/
def Has (t : Table key) (k : κ) : Prop := (t.find? k).isSome

instance (t : Table key) (k : κ) : Decidable (t.Has k) :=
  inferInstanceAs (Decidable (_ = true))

theorem has_iff : t.Has k ↔ ∃ r ∈ t, key r = k := by
  rw [Has, Option.isSome_iff_exists]
  simp only [find?_eq_some]

theorem has_iff_find? : t.Has k ↔ ∃ r, t.find? k = some r :=
  Option.isSome_iff_exists

theorem not_has_iff : ¬ t.Has k ↔ t.find? k = none := by
  simp [Has]

theorem has_of_mem (mem : r ∈ t) : t.Has (key r) :=
  has_iff.mpr ⟨r, mem, rfl⟩

@[simp] theorem not_has_empty (k : κ) : ¬ (empty : Table key).Has k := by
  simp [Has]

end Lookup

/-! ## `INSERT` -/

section Insert

variable [DecidableEq κ]

/-- Append a row.  `none` is the key conflict. -/
def insert (t : Table key) (r : ρ) : Option (Table key) :=
  if fresh : key r ∈ t.rows.map key then none
  else some ⟨t.rows ++ [r], by
    rw [List.map_append, List.nodup_append]
    refine ⟨t.nodup, by simp, ?_⟩
    intro a memA b memB same
    rw [List.map_singleton, List.mem_singleton] at memB
    exact fresh (memB ▸ same ▸ memA)⟩

/-- An insertion conflicts exactly when its key is already present. -/
theorem insert_eq_none : t.insert r = none ↔ t.Has (key r) := by
  rw [has_iff, insert]
  split
  · rename_i present
    simpa [mem_def] using present
  · rename_i absent
    simpa [mem_def] using absent

theorem rows_of_insert (inserted : t.insert r = some t') : t'.rows = t.rows ++ [r] := by
  rw [insert] at inserted
  split at inserted
  · cases inserted
  · cases inserted
    rfl

theorem mem_of_insert (inserted : t.insert r = some t') {x : ρ} :
    x ∈ t' ↔ x ∈ t ∨ x = r := by
  rw [mem_def, rows_of_insert inserted, List.mem_append, List.mem_singleton, mem_def]

theorem not_has_of_insert (inserted : t.insert r = some t') : ¬ t.Has (key r) := by
  intro present
  rw [insert_eq_none.mpr present] at inserted
  cases inserted

theorem find?_of_insert (inserted : t.insert r = some t') (k : κ) :
    t'.find? k = if k = key r then some r else t.find? k := by
  split
  · rename_i same
    exact find?_eq_some.mpr ⟨(mem_of_insert inserted).mpr (Or.inr rfl), same.symm⟩
  · rename_i different
    rw [find?, rows_of_insert inserted, List.find?_append, find?]
    simp [Ne.symm different]

theorem has_of_insert (inserted : t.insert r = some t') : t'.Has k ↔ t.Has k ∨ k = key r := by
  rw [Has, find?_of_insert inserted, Has]
  split
  · rename_i same
    simp [same]
  · rename_i different
    simp [different]

end Insert

/-! ## `UPDATE` -/

section Modify

variable [DecidableEq κ]

/-- Apply `f` to the row with key `k`.  No statement rewrites a primary key, so
`f` comes with the proof that it keeps the key. -/
def modify (t : Table key) (k : κ) (f : ρ → ρ) (keeps : ∀ r, key (f r) = key r) : Table key where
  rows := t.rows.map fun r => if key r = k then f r else r
  nodup := by
    have same : (t.rows.map fun r => if key r = k then f r else r).map key =
        t.rows.map key := by
      rw [List.map_map]
      refine List.map_congr_left fun r _ => ?_
      by_cases here : key r = k
      · simp [here, keeps]
      · simp [here]
    rw [same]
    exact t.nodup

variable {f : ρ → ρ} {keeps : ∀ r, key (f r) = key r}

/-- What is found after an update. -/
theorem find?_modify (k' : κ) :
    (t.modify k f keeps).find? k' =
      if k' = k then (t.find? k).map f else t.find? k' := by
  have keyed : ∀ r : ρ, key (if key r = k then f r else r) = key r := by
    intro r
    split
    · exact keeps r
    · rfl
  rw [find?, modify, List.find?_map]
  have pointwise : (fun r => decide (key r = k')) ∘ (fun r => if key r = k then f r else r) =
      fun r => decide (key r = k') := by
    funext r
    simp [keyed]
  rw [pointwise]
  change (t.find? k').map _ = _
  cases found : t.find? k' with
  | none =>
    split
    · rename_i same
      rw [← same, found]
      rfl
    · rfl
  | some r =>
    have here := key_of_find? found
    split
    · rename_i same
      rw [← same, found, Option.map_some, Option.map_some]
      simp [here, same]
    · rename_i different
      rw [Option.map_some]
      simp [here, different]

theorem has_modify {k' : κ} : (t.modify k f keeps).Has k' ↔ t.Has k' := by
  rw [Has, find?_modify, Has]
  split
  · rename_i same
    simp [same]
  · rfl

/-- An update of an absent key changes nothing. -/
theorem modify_of_not_has (absent : ¬ t.Has k) : t.modify k f keeps = t := by
  apply Table.ext
  rw [modify]
  conv_rhs => rw [← List.map_id t.rows]
  refine List.map_congr_left fun r mem => ?_
  have away : key r ≠ k := fun here => absent (has_iff.mpr ⟨r, mem, here⟩)
  simp [away]

/-- An update depends only on what it does to the row it finds. -/
theorem modify_congr {g : ρ → ρ} {keeps' : ∀ r, key (g r) = key r}
    (same : ∀ r, t.find? k = some r → f r = g r) :
    t.modify k f keeps = t.modify k g keeps' := by
  apply Table.ext
  refine List.map_congr_left fun r mem => ?_
  split
  · rename_i here
    exact same r (find?_eq_some.mpr ⟨mem, here⟩)
  · rfl

/-- Two updates of one key are one update. -/
theorem modify_modify {g : ρ → ρ} {keeps' : ∀ r, key (g r) = key r} :
    (t.modify k f keeps).modify k g keeps' =
      t.modify k (fun r => g (f r)) fun r => (keeps' (f r)).trans (keeps r) := by
  apply Table.ext
  simp only [modify, List.map_map]
  refine List.map_congr_left fun r _ => ?_
  by_cases here : key r = k
  · simp [here, keeps]
  · simp [here]

end Modify

/-! ## `DELETE` -/

section Delete

/-- Remove the rows satisfying `p`. -/
def delete (t : Table key) (p : ρ → Bool) : Table key where
  rows := t.rows.filter fun r => !p r
  nodup := t.nodup.sublist (List.Sublist.map key List.filter_sublist)

variable {p : ρ → Bool}

@[simp] theorem mem_delete {x : ρ} : x ∈ t.delete p ↔ x ∈ t ∧ p x = false := by
  simp [mem_def, delete]

variable [DecidableEq κ]

omit [DecidableEq κ] in
@[simp] theorem filter_true (o : Option ρ) : (o.filter fun _ => true) = o := by
  cases o <;> rfl

theorem find?_delete_eq_some :
    (t.delete p).find? k = some r ↔ t.find? k = some r ∧ p r = false := by
  simp only [find?_eq_some, mem_delete]
  tauto

theorem find?_delete (k : κ) :
    (t.delete p).find? k = (t.find? k).filter fun r => !p r := by
  ext r
  rw [find?_delete_eq_some, Option.filter_eq_some_iff]
  simp

/-- Remove the row with key `k`. -/
def erase (t : Table key) (k : κ) : Table key := t.delete fun r => decide (key r = k)

@[simp] theorem mem_erase {x : ρ} : x ∈ t.erase k ↔ x ∈ t ∧ key x ≠ k := by
  simp [erase]

theorem find?_erase (k k' : κ) :
    (t.erase k).find? k' = if k' = k then none else t.find? k' := by
  rw [erase, find?_delete]
  cases found : t.find? k' with
  | none => simp
  | some r => simp [Option.filter_some, key_of_find? found]

theorem has_erase {k' : κ} : (t.erase k).Has k' ↔ t.Has k' ∧ k' ≠ k := by
  rw [Has, find?_erase, Has]
  split <;> simp_all

theorem erase_of_not_has (absent : ¬ t.Has k) : t.erase k = t := by
  apply Table.ext
  rw [erase, delete, List.filter_eq_self]
  intro r mem
  have away : key r ≠ k := fun here => absent (has_iff.mpr ⟨r, mem, here⟩)
  simp [away]

end Delete

/-! ## `INSERT … ON CONFLICT DO UPDATE` -/

section Upsert

variable [DecidableEq κ]

/-- Insert `r`, or apply `f` to the row that already carries its key. -/
def upsert (t : Table key) (r : ρ) (f : ρ → ρ) (keeps : ∀ r, key (f r) = key r) : Table key :=
  match t.insert r with
  | some t' => t'
  | none => t.modify (key r) f keeps

variable {f : ρ → ρ} {keeps : ∀ r, key (f r) = key r}

/-- What is found after an upsert. -/
theorem find?_upsert (k : κ) :
    (t.upsert r f keeps).find? k =
      if k = key r then some ((t.find? k).elim r f) else t.find? k := by
  rw [upsert]
  cases inserted : t.insert r with
  | some t' =>
    rw [find?_of_insert inserted]
    split
    · rename_i same
      rw [same, not_has_iff.mp (not_has_of_insert inserted)]
      rfl
    · rfl
  | none =>
    obtain ⟨r', found⟩ := has_iff_find?.mp (insert_eq_none.mp inserted)
    rw [find?_modify]
    split
    · rename_i same
      rw [same, found]
      rfl
    · rfl

end Upsert

/-! ## `INSERT OR REPLACE` -/

section Replace

variable [DecidableEq κ] {x : ρ}

theorem nodup_replace (t : Table key) (r : ρ) :
    (((t.erase (key r)).rows ++ [r]).map key).Nodup := by
  rw [List.map_append, List.map_singleton, ← List.concat_eq_append,
    List.nodup_concat]
  refine ⟨fun mem => ?_, (t.erase (key r)).nodup⟩
  obtain ⟨other, kept, same⟩ := List.mem_map.mp mem
  exact (mem_erase.mp kept).2 same

/-- Insert `r` in the place of the row that carries its key. -/
def replace (t : Table key) (r : ρ) : Table key :=
  ⟨(t.erase (key r)).rows ++ [r], nodup_replace t r⟩

theorem mem_replace : x ∈ t.replace r ↔ x = r ∨ x ∈ t ∧ key x ≠ key r := by
  rw [mem_def, replace, List.mem_append, List.mem_singleton, or_comm]
  exact or_congr_right mem_erase

end Replace

/-! ## `SELECT COUNT(*)` -/

section Count

/-- The number of rows satisfying `p`. -/
def count (t : Table key) (p : ρ → Bool) : ℕ := t.rows.countP p

variable {p : ρ → Bool}

@[simp] theorem count_empty : (empty : Table key).count p = 0 := rfl

variable [DecidableEq κ]

theorem count_of_insert (inserted : t.insert r = some t') :
    t'.count p = t.count p + if p r then 1 else 0 := by
  rw [count, rows_of_insert inserted, List.countP_append, List.countP_singleton, count]

/-- Counting after one row has changed. -/
private theorem countP_map_of_nodup {rows : List ρ} (nodup : (rows.map key).Nodup) (mem : r ∈ rows)
    (f : ρ → ρ) :
    rows.countP (fun x => p (if key x = key r then f x else x)) + (if p r then 1 else 0) =
      rows.countP p + if p (f r) then 1 else 0 := by
  induction rows with
  | nil => simp at mem
  | cons head rest ih =>
    rw [List.map_cons, List.nodup_cons] at nodup
    obtain ⟨headFresh, restNodup⟩ := nodup
    rw [List.countP_cons, List.countP_cons]
    rcases List.mem_cons.mp mem with rfl | memRest
    · -- the updated row is the head, and no later row carries its key
      have untouched : rest.countP (fun x => p (if key x = key r then f x else x)) =
          rest.countP p := by
        refine List.countP_congr fun x memX => ?_
        have away : key x ≠ key r := fun same =>
          headFresh (same ▸ List.mem_map_of_mem memX)
        simp [away]
      rw [untouched]
      simp only [if_true]
      omega
    · have away : key head ≠ key r := fun same =>
        headFresh (same ▸ List.mem_map_of_mem memRest)
      have := ih restNodup memRest
      simp only [away, if_false]
      omega

theorem count_modify {f : ρ → ρ} {keeps : ∀ r, key (f r) = key r} (found : t.find? k = some r) :
    (t.modify k f keeps).count p + (if p r then 1 else 0) =
      t.count p + if p (f r) then 1 else 0 := by
  obtain ⟨mem, rfl⟩ := find?_eq_some.mp found
  rw [count, modify, List.countP_map, count]
  exact countP_map_of_nodup t.nodup mem f

omit [DecidableEq κ] in
theorem count_delete (q : ρ → Bool) :
    (t.delete q).count p + t.rows.countP (fun r => p r && q r) = t.count p := by
  rw [count, delete, List.countP_filter, count]
  induction t.rows with
  | nil => rfl
  | cons head rest ih =>
    rw [List.countP_cons, List.countP_cons, List.countP_cons]
    cases p head <;> cases q head <;> simp <;> omega

/-- A key is counted once. -/
private theorem countP_key_of_nodup {rows : List ρ} (nodup : (rows.map key).Nodup) {r : ρ}
    (mem : r ∈ rows) :
    rows.countP (fun x => p x && decide (key x = key r)) = if p r then 1 else 0 := by
  induction rows with
  | nil => simp at mem
  | cons head rest ih =>
    rw [List.map_cons, List.nodup_cons] at nodup
    obtain ⟨headFresh, restNodup⟩ := nodup
    rw [List.countP_cons]
    rcases List.mem_cons.mp mem with rfl | memRest
    · have elsewhere : rest.countP (fun x => p x && decide (key x = key r)) = 0 := by
        rw [List.countP_eq_zero]
        intro x memX
        have away : key x ≠ key r := fun same =>
          headFresh (same ▸ List.mem_map_of_mem memX)
        simp [away]
      simp [elsewhere]
    · have away : key head ≠ key r := fun same =>
        headFresh (same ▸ List.mem_map_of_mem memRest)
      simpa [away] using ih restNodup memRest

theorem count_erase (found : t.find? k = some r) :
    (t.erase k).count p + (if p r then 1 else 0) = t.count p := by
  obtain ⟨mem, rfl⟩ := find?_eq_some.mp found
  rw [← count_delete (t := t) (p := p) fun x => decide (key x = key r),
    countP_key_of_nodup t.nodup mem, erase]

omit [DecidableEq κ] in
/-- A table has no more of a kind of rows than one in which their keys stand for
rows of that kind. -/
theorem count_le_of_keys (stands : ∀ r ∈ t', p r = true → ∃ r' ∈ t, key r' = key r ∧ p r' = true) :
    t'.count p ≤ t.count p := by
  have nodup : ((t'.rows.filter p).map key).Nodup :=
    t'.nodup.sublist (List.filter_sublist.map key)
  have sub : (t'.rows.filter p).map key ⊆ (t.rows.filter p).map key := by
    intro k mem
    obtain ⟨r, kept, rfl⟩ := List.mem_map.mp mem
    obtain ⟨here, holds⟩ := List.mem_filter.mp kept
    obtain ⟨r', mem', same, holds'⟩ := stands r here holds
    exact List.mem_map.mpr ⟨r', List.mem_filter.mpr ⟨mem', holds'⟩, same⟩
  have le := (List.subperm_of_subset nodup sub).length_le
  rwa [List.length_map, List.length_map, ← List.countP_eq_length_filter,
    ← List.countP_eq_length_filter] at le

/-- A table that has lost one key is shorter by one row. -/
theorem length_of_lost (here : t.Has k) (lost : ∀ k', t'.Has k' ↔ t.Has k' ∧ k' ≠ k) :
    t'.rows.length + 1 = t.rows.length := by
  have keys : ∀ (t : Table key) (k : κ), k ∈ t.rows.map key ↔ t.Has k := by
    intro t k
    rw [has_iff, List.mem_map]
    rfl
  have same : (t'.rows.map key).Perm ((t.rows.map key).erase k) := by
    refine (List.perm_ext_iff_of_nodup t'.nodup (t.nodup.erase k)).mpr fun k' => ?_
    rw [t.nodup.mem_erase_iff, keys, keys, lost, and_comm]
  have length := same.length_eq
  rw [List.length_erase_of_mem ((keys t k).mpr here), List.length_map, List.length_map] at length
  have positive := List.length_pos_of_mem ((keys t k).mpr here)
  rw [List.length_map] at positive
  omega

end Count

/-! ## Bounded deletes -/

section DeletesOnly

variable {t'' : Table key} {P Q : ρ → Prop}

/-- The second table is the first without some of the rows that satisfy `P`. -/
def DeletesOnly (P : ρ → Prop) (t t' : Table key) : Prop :=
  ∃ q : ρ → Bool, t' = t.delete q ∧ ∀ r ∈ t, q r = true → P r

theorem DeletesOnly.refl (P : ρ → Prop) (t : Table key) : DeletesOnly P t t := by
  refine ⟨fun _ => false, Table.ext ?_, by simp⟩
  simp [delete]

theorem DeletesOnly.imp (only : DeletesOnly P t t') (weaker : ∀ r, P r → Q r) :
    DeletesOnly Q t t' := by
  obtain ⟨q, same, chosen⟩ := only
  exact ⟨q, same, fun r mem picked => weaker r (chosen r mem picked)⟩

theorem DeletesOnly.trans (only : DeletesOnly P t t') (only' : DeletesOnly P t' t'') :
    DeletesOnly P t t'' := by
  obtain ⟨q, rfl, chosen⟩ := only
  obtain ⟨q', rfl, chosen'⟩ := only'
  refine ⟨fun r => q r || q' r, Table.ext ?_, fun r mem picked => ?_⟩
  · simp [delete, List.filter_filter, Bool.and_comm]
  · cases first : q r with
    | true => exact chosen r mem first
    | false => exact chosen' r (mem_delete.mpr ⟨mem, first⟩) (by simpa [first] using picked)

/-- A row that may not be deleted stays. -/
theorem DeletesOnly.mem (only : DeletesOnly P t t') (mem : r ∈ t) (spared : ¬ P r) : r ∈ t' := by
  obtain ⟨q, rfl, chosen⟩ := only
  refine mem_delete.mpr ⟨mem, ?_⟩
  cases picked : q r with
  | false => rfl
  | true => exact absurd (chosen r mem picked) spared

theorem DeletesOnly.mem_of (only : DeletesOnly P t t') (mem : r ∈ t') : r ∈ t := by
  obtain ⟨q, rfl, -⟩ := only
  exact (mem_delete.mp mem).1

theorem DeletesOnly.has_of [DecidableEq κ] (only : DeletesOnly P t t') (has : t'.Has k) :
    t.Has k := by
  obtain ⟨r, mem, same⟩ := has_iff.mp has
  exact has_iff.mpr ⟨r, only.mem_of mem, same⟩

/-- A row that is still there is the same. -/
theorem DeletesOnly.find?_of_kept [DecidableEq κ] (only : DeletesOnly P t t')
    (kept : t.Has k → t'.Has k) : t'.find? k = t.find? k := by
  obtain ⟨q, rfl, -⟩ := only
  cases found : t.find? k with
  | none => rw [find?_delete, found, Option.filter_none]
  | some r =>
    obtain ⟨r', found'⟩ := has_iff_find?.mp (kept (has_iff_find?.mpr ⟨r, found⟩))
    obtain ⟨same, -⟩ := find?_delete_eq_some.mp found'
    rw [found', ← found, same]

/-- A row is unchanged or gone. -/
theorem DeletesOnly.find?_eq_or_none [DecidableEq κ] (only : DeletesOnly P t t') (k : κ) :
    t'.find? k = t.find? k ∨ t'.find? k = none := by
  by_cases kept : t'.Has k
  · exact .inl (only.find?_of_kept fun _ => kept)
  · exact .inr (not_has_iff.mp kept)

/-- Rows that may not be deleted keep their count. -/
theorem DeletesOnly.count (only : DeletesOnly P t t') {p : ρ → Bool}
    (spared : ∀ r, p r = true → ¬ P r) : t'.count p = t.count p := by
  obtain ⟨q, rfl, chosen⟩ := only
  have untouched : t.rows.countP (fun r => p r && q r) = 0 := by
    rw [List.countP_eq_zero]
    intro r mem both
    rw [Bool.and_eq_true] at both
    exact spared r both.1 (chosen r mem both.2)
  have total := count_delete (t := t) (p := p) q
  omega

end DeletesOnly

end Table

end Relational
