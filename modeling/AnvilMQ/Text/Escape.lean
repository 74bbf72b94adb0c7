import Mathlib.Data.List.Basic

/-!
# Escaped texts

A character that a format gives a meaning to is written as a mark and a letter.  `scan` is what a
reader of such a format does first: it tells the characters that stand after a mark from those that
stand for themselves.
-/

namespace Text

universe u v w

/-! ## Reading what was written piece by piece -/

/-- If an automaton takes in the writing of each piece, it takes in that of a list of them. -/
theorem foldl_flatMap_enter {α : Type u} {β : Type v} {σ : Type w} {step : σ → β → σ}
    {write : α → List β} (enter : List α → σ) {pieces : List α}
    (one : ∀ a ∈ pieces, ∀ front, (write a).foldl step (enter front) = enter (front ++ [a]))
    (front : List α) :
    (pieces.flatMap write).foldl step (enter front) = enter (front ++ pieces) := by
  induction pieces generalizing front with
  | nil => simp
  | cons a pieces ih =>
    rw [List.flatMap_cons, List.foldl_append, one a List.mem_cons_self,
      ih fun b mem => one b (List.mem_cons_of_mem a mem), List.append_assoc,
      List.singleton_append]

/-- The same for pieces that are written as they are. -/
theorem foldl_enter {α : Type u} {σ : Type w} {step : σ → α → σ} (enter : List α → σ)
    {text : List α} (one : ∀ a ∈ text, ∀ front, step (enter front) a = enter (front ++ [a]))
    (front : List α) : text.foldl step (enter front) = enter (front ++ text) := by
  have all : (text.flatMap fun a => [a]).foldl step (enter front) = enter (front ++ text) :=
    foldl_flatMap_enter enter one front
  rwa [List.flatMap_singleton'] at all

variable {α : Type u}

/-! ## Replacing -/

/-- Replace every occurrence of a character. -/
def replaceAll [DecidableEq α] (c : α) (text s : List α) : List α :=
  s.flatMap fun d => if d = c then text else [d]

/-- Replacing in what was written character by character is replacing in each writing. -/
theorem replaceAll_flatMap [DecidableEq α] (c : α) (text s : List α) (f : α → List α) :
    replaceAll c text (s.flatMap f) = s.flatMap fun d => replaceAll c text (f d) :=
  List.flatMap_assoc

/-! ## Escaping -/

variable (α) in
/-- What is escaped, and how it is read back. -/
structure Escaping where
  /-- What is written before a letter. -/
  mark : α
  /-- The letter of a character that is escaped. -/
  letter : α → Option α
  /-- What a letter after a mark stands for. -/
  meaning : α → Option α
  /-- The mark itself is escaped. -/
  letter_mark : (letter mark).isSome
  /-- A letter stands for the character it was written for. -/
  meaning_letter : ∀ {c l}, letter c = some l → meaning l = some c

namespace Escaping

variable (e : Escaping α)

/-- How one character is written. -/
def write (c : α) : List α :=
  match e.letter c with
  | some l => [e.mark, l]
  | none => [c]

/-- How a text is written. -/
def escape (s : List α) : List α := s.flatMap e.write

/-- How a scan shows a character that was written. -/
def shown (c : α) : Bool × α :=
  match e.letter c with
  | some l => (true, l)
  | none => (false, c)

/-- What a character of a scan stands for. -/
def heard : Bool × α → Option α
  | (true, l) => e.meaning l
  | (false, c) => some c

@[simp]
theorem heard_shown (c : α) : e.heard (e.shown c) = some c := by
  rw [shown]
  cases letter : e.letter c with
  | none => rfl
  | some l => exact e.meaning_letter letter

theorem ne_mark_of_letter {c : α} (plain : e.letter c = none) : c ≠ e.mark := by
  rintro rfl
  have special := e.letter_mark
  rw [plain] at special
  cases special

/-- What is escaped is not found in a scan without its mark. -/
theorem special_unread {c : α} (special : (e.letter c).isSome) (s : List α) :
    (false, c) ∉ s.map e.shown := by
  intro mem
  obtain ⟨d, -, shows⟩ := List.mem_map.mp mem
  rw [shown] at shows
  cases letter : e.letter d with
  | none =>
    rw [letter] at shows
    cases shows
    rw [letter] at special
    cases special
  | some l =>
    rw [letter] at shows
    cases shows

/-- A character that is not used to escape. -/
structure Foreign (c : α) : Prop where
  ne_mark : c ≠ e.mark
  ne_letter : ∀ d, e.letter d ≠ some c

variable {e} in
theorem Foreign.mem_write {c : α} (foreign : e.Foreign c) {d : α} :
    c ∈ e.write d ↔ e.letter d = none ∧ c = d := by
  rw [write]
  cases letter : e.letter d with
  | none => simp
  | some l =>
    have apart : c ≠ l := by
      rintro rfl
      exact foreign.ne_letter d letter
    simp [foreign.ne_mark, apart]

variable {e} in
/-- What is escaped is not found in an escaped text. -/
theorem Foreign.not_mem_escape {c : α} (foreign : e.Foreign c) (special : (e.letter c).isSome)
    (s : List α) : c ∉ e.escape s := by
  intro mem
  obtain ⟨d, -, written⟩ := List.mem_flatMap.mp mem
  obtain ⟨plain, rfl⟩ := foreign.mem_write.mp written
  rw [plain] at special
  cases special

variable {e} in
/-- What is not escaped is found in an escaped text if it is in the text. -/
theorem Foreign.mem_escape {c : α} (foreign : e.Foreign c) (plain : e.letter c = none)
    {s : List α} : c ∈ e.escape s ↔ c ∈ s := by
  rw [escape, List.mem_flatMap]
  constructor
  · rintro ⟨d, mem, written⟩
    rwa [(foreign.mem_write.mp written).2]
  · intro mem
    exact ⟨c, mem, foreign.mem_write.mpr ⟨plain, rfl⟩⟩

end Escaping

/-! ## Reading -/

variable [DecidableEq α]

/-- The characters of a text, each with whether a mark stands before it; `none` if the text ends
with a mark. -/
def scan (mark : α) : List α → Option (List (Bool × α))
  | [] => some []
  | [c] => if c = mark then none else some [(false, c)]
  | c :: l :: rest =>
    if c = mark then (scan mark rest).map ((true, l) :: ·)
    else (scan mark (l :: rest)).map ((false, c) :: ·)

theorem scan_mark (mark l : α) (rest : List α) :
    scan mark (mark :: l :: rest) = (scan mark rest).map ((true, l) :: ·) := by
  rw [scan, if_pos rfl]

theorem scan_plain {mark c : α} (plain : c ≠ mark) (rest : List α) :
    scan mark (c :: rest) = (scan mark rest).map ((false, c) :: ·) := by
  cases rest with
  | nil =>
    rw [scan.eq_2, if_neg plain]
    rfl
  | cons l rest => rw [scan, if_neg plain]

namespace Escaping

variable (e : Escaping α)

/-- Read an escaped text. -/
def decode (text : List α) : Option (List α) := (scan e.mark text).bind (List.mapM e.heard)

/-- One character that was written, in front of a rest. -/
theorem scan_write_append (c : α) (rest : List α) :
    scan e.mark (e.write c ++ rest) = (scan e.mark rest).map (e.shown c :: ·) := by
  rw [write, shown]
  cases letter : e.letter c with
  | none => exact scan_plain (e.ne_mark_of_letter letter) rest
  | some l => exact scan_mark e.mark l rest

/-- **A reader sees one character for each that was written.** -/
theorem scan_escape_append (s rest : List α) :
    scan e.mark (e.escape s ++ rest) = (scan e.mark rest).map (s.map e.shown ++ ·) := by
  induction s with
  | nil =>
    simp only [escape, List.flatMap_nil, List.nil_append, List.map_nil]
    exact Option.map_id'.symm
  | cons c s ih =>
    rw [escape, List.flatMap_cons, List.append_assoc, scan_write_append]
    refine (congrArg _ ih).trans ?_
    rw [Option.map_map]
    rfl

theorem scan_escape (s : List α) : scan e.mark (e.escape s) = some (s.map e.shown) := by
  have seen := e.scan_escape_append s []
  rw [List.append_nil, scan, Option.map_some, List.append_nil] at seen
  exact seen

/-- **Escaping loses nothing.** -/
theorem decode_escape (s : List α) : e.decode (e.escape s) = some s := by
  rw [decode, scan_escape, Option.bind_some]
  induction s with
  | nil => rfl
  | cons c s ih =>
    rw [List.map_cons, List.mapM_cons, heard_shown, ih]
    rfl

end Escaping

end Text
