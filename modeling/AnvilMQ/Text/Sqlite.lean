import Mathlib.Data.List.Infix
import AnvilMQ.Text.Escape
import AnvilMQ.Text.Words

/-!
# Patterns and phrases of SQLite

The two small languages in which SQLite takes the text of a search: the patterns of `LIKE`, and the
strings of an FTS5 expression.  Both are read as C strings, up to the first NUL.
-/

namespace Sqlite

open Text

/-! ## C strings -/

/-- A text up to the first NUL. -/
def cString (s : List Char) : List Char := s.takeWhile (· ≠ '\x00')

theorem cString_cons {c : Char} (plain : c ≠ '\x00') (s : List Char) :
    cString (c :: s) = c :: cString s := by
  unfold cString
  exact List.takeWhile_cons_of_pos (decide_eq_true plain)

theorem cString_append_of_notMem {s : List Char} (clean : '\x00' ∉ s) (rest : List Char) :
    cString (s ++ rest) = s ++ cString rest := by
  induction s with
  | nil => rfl
  | cons c s ih =>
    rw [List.mem_cons, not_or] at clean
    rw [List.cons_append, cString_cons (Ne.symm clean.1), ih clean.2, List.cons_append]

theorem cString_of_notMem {s : List Char} (clean : '\x00' ∉ s) : cString s = s := by
  have whole := cString_append_of_notMem clean []
  rw [List.append_nil] at whole
  rw [whole]
  exact List.append_nil s

theorem cString_append_of_mem {s : List Char} (cuts : '\x00' ∈ s) (rest : List Char) :
    cString (s ++ rest) = cString s := by
  induction s with
  | nil => cases cuts
  | cons c s ih =>
    by_cases nul : c = '\x00'
    · rw [nul]
      rfl
    · have later : '\x00' ∈ s := (List.mem_cons.mp cuts).resolve_left (Ne.symm nul)
      rw [List.cons_append, cString_cons nul, cString_cons nul, ih later]

/-! ## `LIKE` -/

/-- What a pattern asks for. -/
inductive Item
  | any
  | one
  | lit (c : Char)
deriving DecidableEq

/-- What a character of a pattern asks for, given whether it stands after the escape character. -/
def Item.of : Bool × Char → Item
  | (true, c) => .lit c
  | (false, c) => if c = '%' then .any else if c = '_' then .one else .lit c

/-- What a pattern asks for; `none` if it ends inside an escape. -/
def items (escape : Char) (pattern : List Char) : Option (List Item) :=
  (scan escape pattern).map (List.map Item.of)

/-- The text is what the items ask for.  Letters of ASCII compare without their case. -/
def holds : List Item → List Char → Bool
  | [], s => s.isEmpty
  | .any :: rest, s => s.tails.any (holds rest)
  | .one :: _, [] => false
  | .one :: rest, _ :: s => holds rest s
  | .lit _ :: _, [] => false
  | .lit c :: rest, d :: s => c.toLower = d.toLower && holds rest s

/-- `s LIKE pattern ESCAPE escape`. -/
def like (escape : Char) (pattern s : List Char) : Bool :=
  match items escape (cString pattern) with
  | some asked => holds asked (cString s)
  | none => false

/-- The letters of a text in lower case. -/
def lower (s : List Char) : List Char := s.map Char.toLower

theorem holds_any {rest : List Item} {s : List Char} :
    holds (.any :: rest) s = true ↔ ∃ t, t <:+ s ∧ holds rest t = true := by
  rw [holds, List.any_eq_true]
  simp only [List.mem_tails]

theorem holds_nil_any (s : List Char) : holds [.any] s = true := by
  exact holds_any.mpr ⟨[], List.nil_suffix, rfl⟩

/-- Literals ask for a front of the text. -/
theorem holds_lits_append {w : List Char} {rest : List Item} {s : List Char} :
    holds (w.map .lit ++ rest) s = true ↔
      ∃ t u, s = t ++ u ∧ lower w = lower t ∧ holds rest u = true := by
  induction w generalizing s with
  | nil =>
    constructor
    · intro held
      exact ⟨[], s, rfl, rfl, held⟩
    · rintro ⟨t, u, rfl, same, held⟩
      obtain rfl : t = [] := List.map_eq_nil_iff.mp same.symm
      exact held
  | cons c w ih =>
    cases s with
    | nil =>
      constructor
      · intro held
        cases held
      · rintro ⟨t, u, empty, same, -⟩
        obtain ⟨rfl, -⟩ := List.append_eq_nil_iff.mp empty.symm
        cases same
    | cons d s =>
      rw [List.map_cons, List.cons_append, holds, Bool.and_eq_true, decide_eq_true_iff, ih]
      constructor
      · rintro ⟨letter, t, u, rfl, same, held⟩
        exact ⟨d :: t, u, rfl, congrArg₂ List.cons letter same, held⟩
      · rintro ⟨t, u, split, same, held⟩
        cases t with
        | nil => cases same
        | cons d' t =>
          obtain ⟨rfl, rfl⟩ := List.cons_eq_cons.mp split
          obtain ⟨letter, same⟩ := List.cons_eq_cons.mp same
          exact ⟨letter, t, u, rfl, same, held⟩

/-- **Literals between two `%` ask for an infix.** -/
theorem holds_between_any {w s : List Char} :
    holds (.any :: (w.map .lit ++ [.any])) s = true ↔ lower w <:+: lower s := by
  rw [holds_any]
  constructor
  · rintro ⟨t, ⟨front, rfl⟩, held⟩
    obtain ⟨v, u, rfl, same, -⟩ := holds_lits_append.mp held
    refine ⟨lower front, lower u, ?_⟩
    rw [same, lower, lower, lower, lower, List.append_assoc, ← List.map_append, ← List.map_append]
  · rintro ⟨front, back, split⟩
    -- the lower-case text is split, and the text itself at the same places
    rw [List.append_assoc] at split
    obtain ⟨f, t, rfl, -, rest⟩ := List.map_eq_append_iff.mp split.symm
    obtain ⟨v, u, rfl, same, -⟩ := List.map_eq_append_iff.mp rest
    exact ⟨v ++ u, List.suffix_append f (v ++ u),
      holds_lits_append.mpr ⟨v, u, rfl, same.symm, holds_nil_any u⟩⟩

/-! ## Strings of an FTS5 expression -/

/-- A string of an expression, and whether a star stands after it. -/
structure Phrase where
  text : List Char
  starred : Bool
deriving DecidableEq

/-- Where the reader of an expression stands. -/
inductive Mode
  | idle
  | inside (text : List Char)
  /-- After a quote, which may be the first of two. -/
  | closing (text : List Char)
  /-- After a string, where a star may stand. -/
  | closed (text : List Char)
  | failed
deriving DecidableEq

/-- The reader of an expression. -/
structure Lexer where
  phrases : List Phrase := []
  mode : Mode := .idle
deriving DecidableEq

/-- The blanks of an expression. -/
def isSpace (c : Char) : Bool := c = ' ' || c = '\t' || c = '\n' || c = '\r'

namespace Lexer

/-- What may follow a string. -/
def stepClosed (l : Lexer) (text : List Char) (c : Char) : Lexer :=
  if isSpace c then { l with mode := .closed text }
  else if c = '*' then ⟨l.phrases ++ [⟨text, true⟩], .idle⟩
  else if c = '"' then ⟨l.phrases ++ [⟨text, false⟩], .inside []⟩
  else { l with mode := .failed }

/-- Read one character. -/
def step (l : Lexer) (c : Char) : Lexer :=
  match l.mode with
  | .idle => if isSpace c then l else { l with mode := if c = '"' then .inside [] else .failed }
  | .inside text => { l with mode := if c = '"' then .closing text else .inside (text ++ [c]) }
  | .closing text =>
    if c = '"' then { l with mode := .inside (text ++ [c]) } else l.stepClosed text c
  | .closed text => l.stepClosed text c
  | .failed => l

/-- The phrases at the end of an expression, unless a string is still open. -/
def result (l : Lexer) : Option (List Phrase) :=
  match l.mode with
  | .idle => some l.phrases
  | .closing text | .closed text => some (l.phrases ++ [⟨text, false⟩])
  | .inside _ | .failed => none

end Lexer

/-- The phrases of an expression that is made of strings. -/
def lex (expression : List Char) : Option (List Phrase) :=
  ((cString expression).foldl Lexer.step {}).result

/-- Quotes are doubled. -/
def quoting : Escaping Char where
  mark := '"'
  letter := fun c => if c = '"' then some '"' else none
  meaning := fun l => if l = '"' then some '"' else none
  letter_mark := rfl
  meaning_letter := by
    intro c l letter
    split_ifs at letter with quote
    cases letter
    rw [if_pos rfl, quote]

/-- How a phrase is written. -/
def Phrase.write (p : Phrase) : List Char :=
  '"' :: (quoting.escape p.text ++ '"' :: if p.starred then ['*'] else [])

/-- How phrases are written. -/
def expression (ps : List Phrase) : List Char := [' '].intercalate (ps.map Phrase.write)

theorem expression_cons (p : Phrase) (ps : List Phrase) :
    expression (p :: ps) = p.write ++ ps.flatMap fun q => ' ' :: q.write := by
  rw [expression, List.map_cons, intercalate_cons, List.flatMap_map]

theorem quoting_letter {c : Char} (plain : c ≠ '"') : quoting.letter c = none := if_neg plain

theorem quoting_write (c : Char) : quoting.write c = if c = '"' then ['"', '"'] else [c] := by
  rw [Escaping.write]
  by_cases quote : c = '"'
  · rw [quote]
    rfl
  · rw [quoting_letter quote, if_neg quote]

theorem quoting_nul : quoting.Foreign '\x00' where
  ne_mark := by decide
  ne_letter := by
    intro d letter
    by_cases quote : d = '"'
    · rw [quote] at letter
      exact absurd (Option.some.inj letter) (by decide)
    · rw [quoting_letter quote] at letter
      cases letter

theorem nul_mem_escape {s : List Char} : '\x00' ∈ quoting.escape s ↔ '\x00' ∈ s :=
  quoting_nul.mem_escape (quoting_letter (by decide))

/-- A text that is cut off is the writing of what is cut off. -/
theorem cString_escape (s : List Char) :
    cString (quoting.escape s) = quoting.escape (cString s) := by
  induction s with
  | nil => rfl
  | cons c s ih =>
    by_cases nul : c = '\x00'
    · rw [nul]
      rfl
    · have clean : '\x00' ∉ quoting.write c := fun mem =>
        nul (quoting_nul.mem_write.mp mem).2.symm
      rw [cString_cons nul, Escaping.escape, List.flatMap_cons,
        cString_append_of_notMem clean]
      exact congrArg (quoting.write c ++ ·) ih

namespace Lexer

/-- The reader inside a string takes in what was written for a text. -/
theorem foldl_escape (done : List Phrase) (front s : List Char) :
    (quoting.escape s).foldl step ⟨done, .inside front⟩ = ⟨done, .inside (front ++ s)⟩ := by
  refine foldl_flatMap_enter (fun text => Lexer.mk done (.inside text)) ?_ front
  intro c _ front
  rw [quoting_write]
  split_ifs with quote
  · simp [step, quote]
  · simp [step, quote]

/-- Where the reader stands after a phrase. -/
def entered (done : List Phrase) (p : Phrase) : Lexer :=
  if p.starred then ⟨done ++ [p], .idle⟩ else ⟨done, .closing p.text⟩

theorem result_entered (done : List Phrase) (p : Phrase) :
    (entered done p).result = some (done ++ [p]) := by
  obtain ⟨text, starred⟩ := p
  cases starred <;> rfl

/-- A quote opens a string. -/
def Opens (l : Lexer) (done : List Phrase) : Prop := l.step '"' = ⟨done, .inside []⟩

theorem opens_entered (done : List Phrase) (p : Phrase) :
    ((entered done p).step ' ').Opens (done ++ [p]) := by
  obtain ⟨text, starred⟩ := p
  cases starred <;> rfl

variable {l : Lexer} {done : List Phrase} {p : Phrase}

/-- A phrase without a NUL is read as it was written. -/
theorem foldl_write (opens : l.Opens done) (clean : '\x00' ∉ p.text) (rest : List Char) :
    (cString (p.write ++ rest)).foldl step l = (cString rest).foldl step (entered done p) := by
  have whole : '\x00' ∉ p.write := by
    rw [Phrase.write, List.mem_cons, List.mem_append, List.mem_cons, nul_mem_escape]
    cases p.starred <;> simp [clean]
  rw [cString_append_of_notMem whole, List.foldl_append]
  congr 1
  rw [Phrase.write, List.foldl_cons, opens, List.foldl_append, foldl_escape]
  obtain ⟨text, starred⟩ := p
  cases starred <;> rfl

/-- A phrase with a NUL is still open where the expression is cut off. -/
theorem result_cut (opens : l.Opens done) (cut : '\x00' ∈ p.text) (rest : List Char) :
    ((cString (p.write ++ rest)).foldl step l).result = none := by
  -- the reader is left inside the string, after what stands before the NUL
  have cuts : '\x00' ∈ quoting.escape p.text := nul_mem_escape.mpr cut
  rw [Phrase.write, List.cons_append, List.append_assoc, cString_cons (by decide),
    cString_append_of_mem cuts, cString_escape, List.foldl_cons, opens, foldl_escape]
  rfl

/-- The phrases that follow one. -/
theorem result_rest (done : List Phrase) (p : Phrase) (ps : List Phrase) :
    ((cString (ps.flatMap fun q => ' ' :: q.write)).foldl step (entered done p)).result =
      if ∃ q ∈ ps, '\x00' ∈ q.text then none else some (done ++ p :: ps) := by
  induction ps generalizing done p with
  | nil =>
    rw [if_neg (by simp)]
    exact result_entered done p
  | cons q ps ih =>
    have opens := opens_entered done p
    rw [List.flatMap_cons, List.cons_append, cString_cons (by decide), List.foldl_cons]
    by_cases cut : '\x00' ∈ q.text
    · rw [result_cut opens cut, if_pos ⟨q, List.mem_cons_self, cut⟩]
    · rw [foldl_write opens cut, ih]
      simp [cut]

end Lexer

/-- **An expression is read as the phrases it was written for**, unless a NUL cuts it off: then a
string is left open. -/
theorem lex_expression (ps : List Phrase) :
    lex (expression ps) = if ∃ p ∈ ps, '\x00' ∈ p.text then none else some ps := by
  cases ps with
  | nil => simp [lex, expression, cString, Lexer.result]
  | cons p ps =>
    have opens : Lexer.Opens {} [] := rfl
    rw [lex, expression_cons]
    by_cases cut : '\x00' ∈ p.text
    · rw [Lexer.result_cut opens cut, if_pos ⟨p, List.mem_cons_self, cut⟩]
    · rw [Lexer.foldl_write opens cut, Lexer.result_rest]
      simp [cut]

end Sqlite
