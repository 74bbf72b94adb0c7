import Mathlib.Data.List.Forall2
import Mathlib.Data.Set.Basic
import AnvilMQ.Scheduling

/-!
# Normal forms of cron patterns

`normalize_cron` splits a pattern into fields and a field into components, rewrites the components
`N/M`, and puts the pattern together again.  A field is a word and a component a stretch without
commas, and rewriting keeps them so; hence splitting the result gives the rewritten components.
-/

namespace AnvilMQ

open Rust

/-! ## Components -/

/-- A component of the form `N/M`. -/
def IsStep (part : List Char) : Prop :=
  ∃ n m, bareNumber n = true ∧ bareNumber m = true ∧ part = n ++ '/' :: m

/-- `start`, `start + stride`, `start + 2 * stride`, …, not above `stop`. -/
def progression (start stride stop : ℕ) : Set ℕ := {v | ∃ k, v = start + k * stride ∧ v ≤ stop}

/-- The values a stepped component of a field stands for: `N/M` runs to the maximum of the field,
and `N-X/M` to `X`. -/
inductive Selects (max : ℕ) : List Char → Set ℕ → Prop
  | step {n m : List Char} {start stride : ℕ} (reads₁ : parseDigits n = some start)
      (reads₂ : parseDigits m = some stride) :
      Selects max (n ++ '/' :: m) (progression start stride max)
  | range {n x m : List Char} {start stop stride : ℕ} (reads₁ : parseDigits n = some start)
      (reads₂ : parseDigits x = some stop) (reads₃ : parseDigits m = some stride) :
      Selects max (n ++ '-' :: (x ++ '/' :: m)) (progression start stride stop)

/-- **What becomes of a component** of a field with that maximum. -/
structure Rewritten (max : ℕ) (part part' : List Char) : Prop where
  /-- `N/M` becomes `N-max/M`. -/
  step : ∀ n m, bareNumber n = true → bareNumber m = true → part = n ++ '/' :: m →
    part' = n ++ '-' :: ((toString max).toList ++ '/' :: m)
  /-- Nothing else changes. -/
  other : ¬ IsStep part → part' = part
  /-- `N/M` does not remain. -/
  noStep : ¬ IsStep part'
  /-- The values are the same. -/
  selects : ∀ values, Selects max part values ↔ Selects max part' values

theorem bareNumber_iff {text : List Char} :
    bareNumber text = true ↔ text ≠ [] ∧ ∀ c ∈ text, c.isDigit = true := by
  rw [bareNumber, Bool.and_eq_true, List.all_eq_true]
  cases text <;> simp

theorem parseDigits_of_bareNumber {text : List Char} (bare : bareNumber text = true) :
    parseDigits text = some (Nat.ofDigitChars 10 text 0) := if_pos bare

theorem bareNumber_of_parseDigits {text : List Char} {n : ℕ} (reads : parseDigits text = some n) :
    bareNumber text = true := by
  rw [parseDigits] at reads
  split_ifs at reads with bare
  exact bare

theorem notMem_of_bareNumber {text : List Char} (bare : bareNumber text = true) {c : Char}
    (notDigit : c.isDigit = false) : c ∉ text := by
  intro mem
  have digit := (bareNumber_iff.mp bare).2 c mem
  cases digit.symm.trans notDigit

theorem bareNumber_toString (n : ℕ) : bareNumber (toString n).toList = true := by
  rw [Nat.toString_eq_ofList_toDigits, String.toList_ofList]
  exact bareNumber_iff.mpr ⟨Nat.toDigits_ne_nil, fun c mem =>
    Nat.isDigit_of_mem_toDigits (by decide) (by decide) mem⟩

theorem parseDigits_toString (n : ℕ) : parseDigits (toString n).toList = some n := by
  rw [parseDigits_of_bareNumber (bareNumber_toString n), Nat.toString_eq_ofList_toDigits,
    String.toList_ofList, Nat.ofDigitChars_ten_toDigits]

/-- A component with a dash has not the form `N/M`. -/
theorem not_isStep_of_dash {part : List Char} (dash : '-' ∈ part) : ¬ IsStep part := by
  rintro ⟨n, m, bare₁, bare₂, rfl⟩
  rcases List.mem_append.mp dash with inStart | inStep
  · exact notMem_of_bareNumber bare₁ (by decide) inStart
  · rcases List.mem_cons.mp inStep with slash | inStep
    · cases slash
    · exact notMem_of_bareNumber bare₂ (by decide) inStep

section Component

variable {n m : List Char}

/-- A component number/number gets the maximum of its field, -/
theorem normalizeStepComponent_step (bare₁ : bareNumber n = true) (bare₂ : bareNumber m = true)
    (max : ℕ) :
    normalizeStepComponent (n ++ '/' :: m) max =
      n ++ '-' :: ((toString max).toList ++ '/' :: m) := by
  have split : (n ++ '/' :: m).span (· ≠ '/') = (n, '/' :: m) := by
    have plain : ∀ c ∈ n, decide (c ≠ '/') = true := by
      rintro c mem
      refine decide_eq_true ?_
      rintro rfl
      exact notMem_of_bareNumber bare₁ (by decide) mem
    rw [List.span_eq_takeWhile_dropWhile, List.takeWhile_append_of_pos plain,
      List.dropWhile_append_of_pos plain]
    simp
  rw [normalizeStepComponent, split]
  simp [bare₁, bare₂]

/-- and any other is left as it is. -/
theorem normalizeStepComponent_other {part : List Char} (other : ¬ IsStep part) (max : ℕ) :
    normalizeStepComponent part max = part := by
  rw [normalizeStepComponent]
  split
  · rename_i start step split
    split_ifs with bare
    · rw [Bool.and_eq_true] at bare
      have whole : part = start ++ '/' :: step := by
        rw [← List.takeWhile_append_dropWhile (p := (· ≠ '/')) (l := part)]
        rw [List.span_eq_takeWhile_dropWhile] at split
        rw [(Prod.mk.inj split).1, (Prod.mk.inj split).2]
      exact absurd ⟨start, step, bare.1, bare.2, whole⟩ other
    · rfl
  · rfl

/-- Two components of the form `N/M` are the same only if their numbers are. -/
theorem step_inj {n' m' : List Char} (bare₁ : bareNumber n = true) (bare₂ : bareNumber m = true)
    (same : n ++ '/' :: m = n' ++ '/' :: m') : n = n' ∧ m = m' := by
  have slash₁ : '/' ∉ n := notMem_of_bareNumber bare₁ (by decide)
  have slash₂ : '/' ∉ m := notMem_of_bareNumber bare₂ (by decide)
  obtain ⟨first, -, second⟩ := (List.append_cons_inj_of_notMem slash₁ slash₂).mp same
  exact ⟨first, second⟩

theorem range_inj {x n' x' m' : List Char} (bare₁ : bareNumber n = true)
    (bare₂ : bareNumber x = true) (bare₃ : bareNumber m = true)
    (same : n ++ '-' :: (x ++ '/' :: m) = n' ++ '-' :: (x' ++ '/' :: m')) :
    n = n' ∧ x = x' ∧ m = m' := by
  have dash₁ : '-' ∉ n := notMem_of_bareNumber bare₁ (by decide)
  have dash₂ : '-' ∉ x ++ '/' :: m := by
    rw [List.mem_append, List.mem_cons, not_or, not_or]
    exact ⟨notMem_of_bareNumber bare₂ (by decide), by decide,
      notMem_of_bareNumber bare₃ (by decide)⟩
  obtain ⟨first, -, rest⟩ := (List.append_cons_inj_of_notMem dash₁ dash₂).mp same
  exact ⟨first, step_inj bare₂ bare₃ rest⟩

/-- The values of `N/M`. -/
theorem selects_step_iff {max start stride : ℕ} {values : Set ℕ}
    (reads₁ : parseDigits n = some start) (reads₂ : parseDigits m = some stride) :
    Selects max (n ++ '/' :: m) values ↔ values = progression start stride max := by
  constructor
  · intro selects
    generalize whole : n ++ '/' :: m = part at selects
    have bare₁ := bareNumber_of_parseDigits reads₁
    have bare₂ := bareNumber_of_parseDigits reads₂
    cases selects with
    | step reads₁' reads₂' =>
      obtain ⟨rfl, rfl⟩ := step_inj bare₁ bare₂ whole
      cases reads₁.symm.trans reads₁'
      cases reads₂.symm.trans reads₂'
      rfl
    | range =>
      -- the other reading has a dash, and two numbers and a slash have none
      exact absurd ⟨n, m, bare₁, bare₂, whole.symm⟩ (not_isStep_of_dash (by simp))
  · rintro rfl
    exact .step reads₁ reads₂

/-- The values of `N-X/M`. -/
theorem selects_range_iff {x : List Char} {max start stop stride : ℕ} {values : Set ℕ}
    (reads₁ : parseDigits n = some start) (reads₂ : parseDigits x = some stop)
    (reads₃ : parseDigits m = some stride) :
    Selects max (n ++ '-' :: (x ++ '/' :: m)) values ↔ values = progression start stride stop := by
  constructor
  · intro selects
    generalize whole : n ++ '-' :: (x ++ '/' :: m) = part at selects
    cases selects with
    | @step n' m' _ _ reads₁' reads₂' =>
      have isStep : IsStep (n' ++ '/' :: m') := ⟨n', m', bareNumber_of_parseDigits reads₁',
        bareNumber_of_parseDigits reads₂', rfl⟩
      rw [← whole] at isStep
      exact absurd isStep (not_isStep_of_dash (by simp))
    | range reads₁' reads₂' reads₃' =>
      obtain ⟨rfl, rfl, rfl⟩ := range_inj (bareNumber_of_parseDigits reads₁)
        (bareNumber_of_parseDigits reads₂) (bareNumber_of_parseDigits reads₃) whole
      cases reads₁.symm.trans reads₁'
      cases reads₂.symm.trans reads₂'
      cases reads₃.symm.trans reads₃'
      rfl
  · rintro rfl
    exact .range reads₁ reads₂ reads₃

/-- **What becomes of a component.** -/
theorem rewritten_normalizeStepComponent (max : ℕ) (part : List Char) :
    Rewritten max part (normalizeStepComponent part max) := by
  by_cases isStep : IsStep part
  · obtain ⟨n, m, bare₁, bare₂, rfl⟩ := isStep
    rw [normalizeStepComponent_step bare₁ bare₂]
    refine ⟨?_, ?_, not_isStep_of_dash (by simp), fun values => ?_⟩
    · intro n' m' _ _ same
      obtain ⟨rfl, rfl⟩ := step_inj bare₁ bare₂ same
      rfl
    · intro other
      exact absurd ⟨n, m, bare₁, bare₂, rfl⟩ other
    · have reads₁ := parseDigits_of_bareNumber bare₁
      have reads₂ := parseDigits_of_bareNumber bare₂
      rw [selects_step_iff reads₁ reads₂,
        selects_range_iff reads₁ (parseDigits_toString max) reads₂]
  · rw [normalizeStepComponent_other isStep]
    refine ⟨?_, fun _ => rfl, isStep, fun _ => Iff.rfl⟩
    rintro n m bare₁ bare₂ rfl
    exact absurd ⟨n, m, bare₁, bare₂, rfl⟩ isStep

/-- A component is normalised once. -/
theorem normalizeStepComponent_idem (part : List Char) (max : ℕ) :
    normalizeStepComponent (normalizeStepComponent part max) max =
      normalizeStepComponent part max :=
  normalizeStepComponent_other (rewritten_normalizeStepComponent max part).noStep max

/-- The characters of a normalised component. -/
theorem mem_normalizeStepComponent {part : List Char} {max : ℕ} {c : Char}
    (mem : c ∈ normalizeStepComponent part max) :
    c ∈ part ∨ c = '-' ∨ c.isDigit = true := by
  by_cases isStep : IsStep part
  · obtain ⟨n, m, bare₁, bare₂, rfl⟩ := isStep
    rw [normalizeStepComponent_step bare₁ bare₂] at mem
    have digits := (bareNumber_iff.mp (bareNumber_toString max)).2 c
    simp only [List.mem_append, List.mem_cons] at mem ⊢
    tauto
  · rw [normalizeStepComponent_other isStep] at mem
    exact .inl mem

theorem normalizeStepComponent_eq_nil {part : List Char} {max : ℕ} :
    normalizeStepComponent part max = [] ↔ part = [] := by
  by_cases isStep : IsStep part
  · obtain ⟨n, m, bare₁, bare₂, rfl⟩ := isStep
    rw [normalizeStepComponent_step bare₁ bare₂]
    simp
  · rw [normalizeStepComponent_other isStep]

end Component

/-! ## Fields -/

/-- The components of a field. -/
def components (field : List Char) : List (List Char) := splitOnChar ',' field

/-- What becomes of a field. -/
def normalizeField (field : List Char) (max : ℕ) : List Char :=
  [','].intercalate ((components field).map fun part => normalizeStepComponent part max)

theorem isWhitespace_of_isDigit {c : Char} (digit : c.isDigit = true) : isWhitespace c = false := by
  have range : 48 ≤ c.toNat ∧ c.toNat ≤ 57 := by
    rw [Char.isDigit, Bool.and_eq_true, decide_eq_true_iff, decide_eq_true_iff] at digit
    exact digit
  rw [isWhitespace]
  simp
  omega

theorem intercalate_components (field : List Char) :
    [','].intercalate (components field) = field := by
  rw [components, splitOnChar_eq_splitOn, List.intercalate_splitOn]

/-- **The components of a normalised field** are the normalised components of the field. -/
theorem components_normalizeField (field : List Char) (max : ℕ) :
    components (normalizeField field max) =
      (components field).map fun part => normalizeStepComponent part max := by
  rw [normalizeField, components, splitOnChar_eq_splitOn]
  refine List.splitOn_intercalate ',' ?_ ?_
  · intro part' mem comma
    obtain ⟨part, isPart, rfl⟩ := List.mem_map.mp mem
    rw [components, splitOnChar_eq_splitOn] at isPart
    -- what is put into a component is a dash and digits, so no comma is new
    rcases mem_normalizeStepComponent comma with inside | dash | digit
    · have clean := Text.clean_of_mem_splitOnP isPart ',' inside
      cases clean
    · cases dash
    · cases digit
  · rw [components, splitOnChar_eq_splitOn]
    exact List.map_eq_nil_iff.not.mpr (List.splitOnP_ne_nil _ field)

theorem normalizeField_idem (field : List Char) (max : ℕ) :
    normalizeField (normalizeField field max) max = normalizeField field max := by
  rw [normalizeField, components_normalizeField, List.map_map, normalizeField]
  congr 1
  refine List.map_congr_left fun part _ => ?_
  exact normalizeStepComponent_idem part max

/-- A normalised field is a word again. -/
theorem isWord_normalizeField {field : List Char} (word : Text.IsWord isWhitespace field)
    (max : ℕ) : Text.IsWord isWhitespace (normalizeField field max) := by
  constructor
  · intro empty
    -- an empty field has one component, which was empty before
    have parts := components_normalizeField field max
    rw [empty] at parts
    obtain ⟨part, only, blank⟩ := List.map_eq_singleton_iff.mp parts.symm
    have whole := intercalate_components field
    rw [only, normalizeStepComponent_eq_nil.mp blank] at whole
    exact word.ne_nil whole.symm
  · intro c mem
    rcases Text.mem_of_mem_intercalate mem with comma | ⟨part', isPart', inside⟩
    · rw [comma]
      rfl
    · obtain ⟨part, isPart, rfl⟩ := List.mem_map.mp isPart'
      rcases mem_normalizeStepComponent inside with inside | dash | digit
      · rw [components, splitOnChar_eq_splitOn] at isPart
        exact word.clean c (Text.mem_splitOnP_iff.mp ⟨part, isPart, inside⟩).1
      · rw [dash]
        rfl
      · exact isWhitespace_of_isDigit digit

/-! ## Patterns -/

/-- The fields of a pattern. -/
def cronFields (cron : String) : List (List Char) := splitWhitespace cron.toList

/-- The fields of a pattern are kept, and their components are rewritten for the maxima. -/
def FieldsPreserved (cron : String) (maxes : List ℕ) : Prop :=
  (cronFields (normalizeCron cron)).length = (cronFields cron).length ∧
    List.Forall₂ (fun (field, max) field' =>
        List.Forall₂ (Rewritten max) (components field) (components field'))
      ((cronFields cron).zip maxes) (cronFields (normalizeCron cron))

/-- **What becomes of a pattern.** -/
structure CronPreserved (cron : String) : Prop where
  /-- Normalising twice is normalising once. -/
  idempotent : normalizeCron (normalizeCron cron) = normalizeCron cron
  /-- A pattern without five or six fields is left as it is. -/
  unchanged : (cronFields cron).length ≠ 5 → (cronFields cron).length ≠ 6 →
    normalizeCron cron = cron
  /-- A pattern of five fields (minute, hour, day, month, weekday) keeps them, and their
  components, but for those of the form `N/M`. -/
  five : (cronFields cron).length = 5 → FieldsPreserved cron [59, 23, 31, 12, 7]
  /-- So does one of six, with a second in front. -/
  six : (cronFields cron).length = 6 → FieldsPreserved cron [59, 59, 23, 31, 12, 7]

section Pattern

variable {cron : String} {maxes : List ℕ}

theorem fieldMaxes_eq_none {n : ℕ} : fieldMaxes n = none ↔ n ≠ 5 ∧ n ≠ 6 := by
  unfold fieldMaxes
  split <;> simp_all

theorem length_of_fieldMaxes {n : ℕ} (known : fieldMaxes n = some maxes) : maxes.length = n := by
  unfold fieldMaxes at known
  split at known <;> cases known <;> rfl

theorem normalizeCron_of_none (unknown : fieldMaxes (cronFields cron).length = none) :
    normalizeCron cron = cron := by
  rw [cronFields] at unknown
  simp only [normalizeCron, unknown]

theorem normalizeCron_of_some (known : fieldMaxes (cronFields cron).length = some maxes) :
    normalizeCron cron = String.ofList ([' '].intercalate
      (((cronFields cron).zip maxes).map fun (field, max) => normalizeField field max)) := by
  rw [cronFields] at known
  simp only [normalizeCron, known]
  rfl

/-- **The fields of a normalised pattern** are the normalised fields of the pattern. -/
theorem fields_normalizeCron (known : fieldMaxes (cronFields cron).length = some maxes) :
    cronFields (normalizeCron cron) =
      ((cronFields cron).zip maxes).map fun (field, max) => normalizeField field max := by
  rw [normalizeCron_of_some known, cronFields, String.toList_ofList, splitWhitespace_eq_words]
  refine Text.words_intercalate rfl ?_
  intro field' mem
  obtain ⟨⟨field, max⟩, pair, rfl⟩ := List.mem_map.mp mem
  have isField := (List.of_mem_zip pair).1
  rw [cronFields, splitWhitespace_eq_words] at isField
  exact isWord_normalizeField (Text.of_mem_words isField) max

theorem length_fields_normalizeCron (known : fieldMaxes (cronFields cron).length = some maxes) :
    (cronFields (normalizeCron cron)).length = (cronFields cron).length := by
  rw [fields_normalizeCron known, List.length_map, List.length_zip, length_of_fieldMaxes known,
    min_self]

end Pattern

/-- Fields that were normalised are normalised again to themselves. -/
theorem zip_normalizeField_idem (fields : List (List Char)) (maxes : List ℕ) :
    (((fields.zip maxes).map fun (field, max) => normalizeField field max).zip maxes).map
        (fun (field, max) => normalizeField field max) =
      (fields.zip maxes).map fun (field, max) => normalizeField field max := by
  induction fields generalizing maxes with
  | nil => rfl
  | cons field fields ih =>
    cases maxes with
    | nil => rfl
    | cons max maxes =>
      simp only [List.zip_cons_cons, List.map_cons, normalizeField_idem]
      rw [ih]

theorem normalizeCron_idem (cron : String) :
    normalizeCron (normalizeCron cron) = normalizeCron cron := by
  cases known : fieldMaxes (cronFields cron).length with
  | none => rw [normalizeCron_of_none known, normalizeCron_of_none known]
  | some maxes =>
    -- as many fields as before have the same maxima
    have again : fieldMaxes (cronFields (normalizeCron cron)).length = some maxes := by
      rw [length_fields_normalizeCron known, known]
    rw [normalizeCron_of_some again, fields_normalizeCron known, zip_normalizeField_idem,
      normalizeCron_of_some known]

/-- A pattern with known maxima keeps its fields. -/
theorem fieldsPreserved {cron : String} {maxes : List ℕ}
    (known : fieldMaxes (cronFields cron).length = some maxes) : FieldsPreserved cron maxes := by
  refine ⟨length_fields_normalizeCron known, ?_⟩
  rw [fields_normalizeCron known, List.forall₂_map_right_iff]
  refine List.forall₂_same.mpr ?_
  rintro ⟨field, max⟩ -
  dsimp only
  rw [components_normalizeField, List.forall₂_map_right_iff]
  exact List.forall₂_same.mpr fun part _ => rewritten_normalizeStepComponent max part

/-- **Cron normalisation preserves meaning.** -/
theorem normalize_cron_preserves (cron : String) : CronPreserved cron where
  idempotent := normalizeCron_idem cron
  unchanged := fun five six => normalizeCron_of_none (fieldMaxes_eq_none.mpr ⟨five, six⟩)
  five := fun length => fieldsPreserved (by rw [length]; rfl)
  six := fun length => fieldsPreserved (by rw [length]; rfl)

end AnvilMQ
