import Mathlib.Data.List.Basic

/-!
# Words

The words of a text are its maximal runs without separators.
-/

namespace Text

universe u

variable {α : Type u} {sep : α → Bool}

/-- The words of a text. -/
def words (sep : α → Bool) (s : List α) : List (List α) :=
  (s.splitOnP sep).filter fun w => !w.isEmpty

/-- A nonempty run without separators. -/
structure IsWord (sep : α → Bool) (w : List α) : Prop where
  ne_nil : w ≠ []
  clean : ∀ c ∈ w, sep c = false

theorem words_word {w : List α} (word : IsWord sep w) : words sep w = [w] := by
  have kept : (!w.isEmpty) = true := by simp [word.ne_nil]
  rw [words, List.splitOnP_eq_singleton word.clean]
  exact List.filter_cons_of_pos kept

theorem words_word_append {w : List α} (word : IsWord sep w) {c : α} (isSep : sep c = true)
    (s : List α) : words sep (w ++ c :: s) = w :: words sep s := by
  have kept : (!w.isEmpty) = true := by simp [word.ne_nil]
  rw [words, List.splitOnP_append_cons_of_forall_mem word.clean c isSep]
  exact List.filter_cons_of_pos kept

theorem intercalate_cons_cons (c : α) (w w' : List α) (ws : List (List α)) :
    [c].intercalate (w :: w' :: ws) = w ++ c :: [c].intercalate (w' :: ws) := by
  simp [List.intercalate]

/-- What is written with a separator between its parts, part by part. -/
theorem intercalate_cons (c : α) (w : List α) (ws : List (List α)) :
    [c].intercalate (w :: ws) = w ++ ws.flatMap (c :: ·) := by
  induction ws generalizing w with
  | nil => simp [List.intercalate]
  | cons w' ws ih => rw [intercalate_cons_cons, ih, List.flatMap_cons, List.cons_append]

/-- **Words with a separator between them are read back.** -/
theorem words_intercalate {c : α} (isSep : sep c = true) {ws : List (List α)}
    (all : ∀ w ∈ ws, IsWord sep w) : words sep ([c].intercalate ws) = ws := by
  induction ws with
  | nil => rfl
  | cons w ws ih =>
    have word := all w List.mem_cons_self
    have rest := ih fun w' mem => all w' (List.mem_cons_of_mem w mem)
    cases ws with
    | nil =>
      rw [List.intercalate_singleton]
      exact words_word word
    | cons w' ws =>
      rw [intercalate_cons_cons, words_word_append word isSep, rest]

/-- What is written with a separator between its parts is made of them and of the separator. -/
theorem mem_of_mem_intercalate {c d : α} {parts : List (List α)}
    (mem : d ∈ [c].intercalate parts) : d = c ∨ ∃ part ∈ parts, d ∈ part := by
  cases parts with
  | nil => cases mem
  | cons part parts =>
    rw [intercalate_cons, List.mem_append, List.mem_flatMap] at mem
    rcases mem with first | ⟨other, isPart, inside⟩
    · exact .inr ⟨part, List.mem_cons_self, first⟩
    · refine (List.mem_cons.mp inside).imp_right fun inside => ?_
      exact ⟨other, List.mem_cons_of_mem part isPart, inside⟩

/-- No part of a split contains a separator. -/
theorem clean_of_mem_splitOnP {s w : List α} (mem : w ∈ s.splitOnP sep) :
    ∀ c ∈ w, sep c = false := by
  induction s generalizing w with
  | nil =>
    rw [List.splitOnP_nil, List.mem_singleton] at mem
    simp [mem]
  | cons d s ih =>
    rw [List.splitOnP_cons_eq_if_modifyHead] at mem
    split_ifs at mem with isSep
    · rcases List.mem_cons.mp mem with rfl | later
      · simp
      · exact ih later
    · cases parts : s.splitOnP sep with
      | nil => exact absurd parts (List.splitOnP_ne_nil sep s)
      | cons part parts' =>
        rw [parts, List.modifyHead_cons] at mem
        rw [parts] at ih
        rcases List.mem_cons.mp mem with rfl | later
        · intro c mem
          rcases List.mem_cons.mp mem with rfl | inside
          · exact Bool.eq_false_iff.mpr isSep
          · exact ih List.mem_cons_self c inside
        · exact ih (List.mem_cons_of_mem part later)

theorem of_mem_words {s w : List α} (mem : w ∈ words sep s) : IsWord sep w := by
  obtain ⟨part, kept⟩ := List.mem_filter.mp mem
  refine ⟨?_, clean_of_mem_splitOnP part⟩
  rintro rfl
  cases kept

/-- The parts contain what is no separator. -/
theorem mem_splitOnP_iff {s : List α} {c : α} :
    (∃ w ∈ s.splitOnP sep, c ∈ w) ↔ c ∈ s ∧ sep c = false := by
  induction s with
  | nil => simp [List.splitOnP_nil]
  | cons d s ih =>
    rw [List.splitOnP_cons_eq_if_modifyHead]
    split_ifs with isSep
    · have apart : sep c = false → c ≠ d := by
        rintro clean rfl
        cases clean.symm.trans isSep
      constructor
      · rintro ⟨w, mem, inside⟩
        rcases List.mem_cons.mp mem with rfl | later
        · cases inside
        · exact (ih.mp ⟨w, later, inside⟩).imp_left (List.mem_cons_of_mem d)
      · rintro ⟨mem, clean⟩
        have later := (List.mem_cons.mp mem).resolve_left (apart clean)
        obtain ⟨w, part, inside⟩ := ih.mpr ⟨later, clean⟩
        exact ⟨w, List.mem_cons_of_mem [] part, inside⟩
    · cases parts : s.splitOnP sep with
      | nil => exact absurd parts (List.splitOnP_ne_nil sep s)
      | cons part parts' =>
        rw [parts] at ih
        simp only [List.modifyHead_cons, List.mem_cons, exists_eq_or_imp] at ih ⊢
        rw [or_assoc, ih]
        have plain : c = d → sep c = false := by
          rintro rfl
          exact Bool.eq_false_iff.mpr isSep
        tauto

/-- The words have every character that is not a separator. -/
theorem mem_words_iff {s : List α} {c : α} :
    (∃ w ∈ words sep s, c ∈ w) ↔ c ∈ s ∧ sep c = false := by
  rw [← mem_splitOnP_iff]
  constructor
  · rintro ⟨w, mem, inside⟩
    exact ⟨w, List.mem_of_mem_filter mem, inside⟩
  · rintro ⟨w, mem, inside⟩
    refine ⟨w, List.mem_filter.mpr ⟨mem, ?_⟩, inside⟩
    simp [List.ne_nil_of_mem inside]

end Text
