import AnvilMQ.Relational.Select
import AnvilMQ.Relational.Table

/-!
# A table that mirrors another

An index holds copies of the rows of a source under the same keys.  Two triggers keep it: a row
that is inserted into the source is copied, and a row that is deleted takes its copy with it.
Rows that were there before the triggers are copied in batches that look for the rows whose key
has no copy.

`MirrorOf` is what the triggers and the batches keep: every row of the index is the copy of a row
of the source.  `missing` is what a batch looks for.  Neither trigger lets it grow, and every
batch takes what it copies out of it.
-/

namespace Relational

universe u v w

variable {ρ : Type u} {τ : Type v} {κ : Type w} [DecidableEq κ] {key : ρ → κ} {key' : τ → κ}

namespace Table

/-- Insert rows one after the other.  `none` is a key conflict anywhere. -/
def insertAll (t : Table key) : List ρ → Option (Table key)
  | [] => some t
  | r :: rest => (t.insert r).bind fun t => t.insertAll rest

/-- Rows with new keys, each its own, are all inserted. -/
theorem insertAll_of_fresh {rows : List ρ} {t : Table key} (nodup : (rows.map key).Nodup)
    (fresh : ∀ r ∈ rows, ¬ t.Has (key r)) :
    ∃ t', t.insertAll rows = some t' ∧ ∀ r, r ∈ t' ↔ r ∈ t ∨ r ∈ rows := by
  induction rows generalizing t with
  | nil => exact ⟨t, rfl, by simp⟩
  | cons first rest ih =>
    obtain ⟨apart, nodup⟩ := List.nodup_cons.mp nodup
    cases inserted : t.insert first with
    | none => exact absurd (insert_eq_none.mp inserted) (fresh first List.mem_cons_self)
    | some t₁ =>
      have still : ∀ r ∈ rest, ¬ t₁.Has (key r) := by
        intro r mem has
        rcases (has_of_insert inserted).mp has with before | same
        · exact fresh r (List.mem_cons_of_mem first mem) before
        · exact apart (same ▸ List.mem_map_of_mem mem)
      obtain ⟨t₂, all, members⟩ := ih nodup still
      refine ⟨t₂, ?_, fun r => ?_⟩
      · rw [insertAll, inserted]
        exact all
      · rw [members r, mem_of_insert inserted, List.mem_cons, or_assoc]

end Table

open Table

/-- Every row of the index is the copy of a row of the source. -/
def MirrorOf (copy : ρ → τ) (source : Table key) (index : Table key') : Prop :=
  ∀ x ∈ index, ∃ r ∈ source, copy r = x

/-- The rows of the source whose key is not in the index. -/
def missing (source : Table key) (index : Table key') : List ρ :=
  source.rows.filter fun r => decide (¬ index.Has (key r))

variable {copy : ρ → τ} {source source' : Table key} {index : Table key'}

theorem mem_missing {r : ρ} : r ∈ missing source index ↔ r ∈ source ∧ ¬ index.Has (key r) := by
  rw [missing, List.mem_filter, decide_eq_true_eq]
  exact Iff.rfl

theorem nodup_missing (source : Table key) (index : Table key') :
    ((missing source index).map key).Nodup :=
  source.nodup.sublist (List.filter_sublist.map key)

/-- Rows that are missing in the first pair of tables as well are no more than there. -/
theorem length_missing_le {source' : Table key} {index' : Table key'}
    (fewer : ∀ r ∈ missing source' index', r ∈ missing source index) :
    (missing source' index').length ≤ (missing source index).length :=
  (List.subperm_of_subset (List.Nodup.of_map key (nodup_missing source' index')) fewer).length_le

section Keys

variable (keeps : ∀ r, key' (copy r) = key r)
include keeps

/-- A key of the index is a key of the source. -/
theorem MirrorOf.has (mirror : MirrorOf copy source index) {k : κ} (has : index.Has k) :
    source.Has k := by
  obtain ⟨x, mem, rfl⟩ := has_iff.mp has
  obtain ⟨r, stored, rfl⟩ := mirror x mem
  exact has_iff.mpr ⟨r, stored, (keeps r).symm⟩

/-- The keys agree when nothing is missing. -/
theorem MirrorOf.has_iff_of_complete (mirror : MirrorOf copy source index)
    (complete : missing source index = []) (k : κ) : index.Has k ↔ source.Has k := by
  refine ⟨mirror.has keeps, fun has => ?_⟩
  obtain ⟨r, mem, rfl⟩ := has_iff.mp has
  by_contra absent
  have left : r ∈ missing source index := mem_missing.mpr ⟨mem, absent⟩
  rw [complete] at left
  cases left

/-- **A row that the source accepts is accepted by the index**, and nothing new is missing. -/
theorem MirrorOf.insert (mirror : MirrorOf copy source index) {r : ρ}
    (inserted : source.insert r = some source') :
    ∃ index', index.insert (copy r) = some index' ∧ MirrorOf copy source' index' ∧
      ∀ x ∈ missing source' index', x ∈ missing source index := by
  have fresh := not_has_of_insert inserted
  cases copied : index.insert (copy r) with
  | none =>
    have has := insert_eq_none.mp copied
    rw [keeps r] at has
    exact absurd (mirror.has keeps has) fresh
  | some index' =>
    refine ⟨index', rfl, fun x mem => ?_, fun x mem => ?_⟩
    · rcases (mem_of_insert copied).mp mem with before | rfl
      · obtain ⟨r', stored, same⟩ := mirror x before
        exact ⟨r', (mem_of_insert inserted).mpr (.inl stored), same⟩
      · exact ⟨r, (mem_of_insert inserted).mpr (.inr rfl), rfl⟩
    · obtain ⟨stored, absent⟩ := mem_missing.mp mem
      have has := has_of_insert copied (k := key x)
      rw [keeps r] at has
      rcases (mem_of_insert inserted).mp stored with before | rfl
      · exact mem_missing.mpr ⟨before, fun present => absent (has.mpr (.inl present))⟩
      · exact absurd (has.mpr (.inr rfl)) absent

/-- **Copies go with their rows**, and nothing new is missing. -/
theorem MirrorOf.delete (mirror : MirrorOf copy source index) {doomed : ρ → Bool}
    {index' : Table key'}
    (follows : ∀ x, x ∈ index' ↔ x ∈ index ∧ ¬ ∃ r ∈ source, doomed r = true ∧ key r = key' x) :
    MirrorOf copy (source.delete doomed) index' ∧
      ∀ x ∈ missing (source.delete doomed) index', x ∈ missing source index := by
  constructor
  · intro x mem
    obtain ⟨before, kept⟩ := (follows x).mp mem
    obtain ⟨r, stored, rfl⟩ := mirror x before
    refine ⟨r, mem_delete.mpr ⟨stored, ?_⟩, rfl⟩
    exact Bool.eq_false_iff.mpr fun gone => kept ⟨r, stored, gone, (keeps r).symm⟩
  · intro r mem
    obtain ⟨left, absent⟩ := mem_missing.mp mem
    obtain ⟨stored, spared⟩ := mem_delete.mp left
    refine mem_missing.mpr ⟨stored, fun present => absent ?_⟩
    obtain ⟨x, here, same⟩ := has_iff.mp present
    -- the copy of a row that stays is not deleted
    refine has_iff.mpr ⟨x, (follows x).mpr ⟨here, ?_⟩, same⟩
    rintro ⟨r', stored', gone, same'⟩
    rw [eq_of_key_eq stored' stored (same'.trans same), spared] at gone
    cases gone

/-- **A batch of missing rows is copied**, and they are missing no more. -/
theorem insertAll_missing {batch : List ρ} (nodup : (batch.map key).Nodup)
    (lacking : ∀ r ∈ batch, r ∈ missing source index) :
    ∃ index', index.insertAll (batch.map copy) = some index' ∧
      (MirrorOf copy source index → MirrorOf copy source index') ∧
      (missing source index').length + batch.length ≤ (missing source index).length := by
  have keys : (batch.map copy).map key' = batch.map key := by
    rw [List.map_map]
    exact List.map_congr_left fun r _ => keeps r
  have fresh : ∀ x ∈ batch.map copy, ¬ index.Has (key' x) := by
    intro x mem
    obtain ⟨r, here, rfl⟩ := List.mem_map.mp mem
    rw [keeps r]
    exact (mem_missing.mp (lacking r here)).2
  obtain ⟨index', all, members⟩ := insertAll_of_fresh (keys ▸ nodup) fresh
  refine ⟨index', all, fun mirror x mem => ?_, ?_⟩
  · rcases (members x).mp mem with before | new
    · exact mirror x before
    · obtain ⟨r, here, rfl⟩ := List.mem_map.mp new
      exact ⟨r, (mem_missing.mp (lacking r here)).1, rfl⟩
  · -- what is still missing and the batch are apart, and both were missing
    have apart : ∀ r ∈ missing source index', r ∉ batch := by
      intro r mem here
      refine (mem_missing.mp mem).2 (has_iff.mpr ⟨copy r, (members _).mpr (.inr ?_), keeps r⟩)
      exact List.mem_map_of_mem here
    have union : (missing source index' ++ batch).Nodup := by
      refine List.nodup_append.mpr ⟨List.Nodup.of_map key (nodup_missing _ _),
        List.Nodup.of_map key nodup, ?_⟩
      rintro a left b here rfl
      exact apart a left here
    have inside : missing source index' ++ batch ⊆ missing source index := by
      intro r mem
      rcases List.mem_append.mp mem with left | here
      · obtain ⟨stored, absent⟩ := mem_missing.mp left
        refine mem_missing.mpr ⟨stored, fun present => absent ?_⟩
        obtain ⟨x, before, same⟩ := has_iff.mp present
        exact has_iff.mpr ⟨x, (members x).mpr (.inl before), same⟩
      · exact lacking r here
    have le := (List.subperm_of_subset union inside).length_le
    rwa [List.length_append] at le

end Keys

end Relational
