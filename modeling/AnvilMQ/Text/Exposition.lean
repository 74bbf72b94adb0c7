import AnvilMQ.Text.Escape

/-!
# The text format of Prometheus

A document is a list of lines, each a comment or a sample.  The series of a sample is its metric
with its labels; label values are written between quotes, with a backslash, a newline and a quote
escaped.
-/

namespace Exposition

open Text

/-! ## Label values -/

/-- A backslash, a newline and a quote are written after a backslash. -/
def labelEscaping : Escaping Char where
  mark := '\\'
  letter := fun c =>
    if c = '\\' then some '\\' else if c = '\n' then some 'n'
    else if c = '"' then some '"' else none
  meaning := fun l =>
    if l = '\\' then some '\\' else if l = 'n' then some '\n'
    else if l = '"' then some '"' else none
  letter_mark := rfl
  meaning_letter := by
    intro c l letter
    split_ifs at letter with backslash newline quote
    all_goals
      cases letter
      simp [*]

/-- A value in which nothing is escaped. -/
def isPlain (v : List Char) : Bool := v.all fun c => (labelEscaping.letter c).isNone

theorem escape_of_plain {v : List Char} (plain : isPlain v = true) :
    labelEscaping.escape v = v := by
  induction v with
  | nil => rfl
  | cons c v ih =>
    rw [isPlain, List.all_cons, Bool.and_eq_true, Option.isNone_iff_eq_none] at plain
    rw [Escaping.escape, List.flatMap_cons, Escaping.write, plain.1]
    exact congrArg (c :: ·) (ih plain.2)

/-! ## Documents -/

/-- A label: its name and its value. -/
abbrev Label := List Char × List Char

/-- A sample: its series and its value. -/
structure Sample where
  metric : List Char
  labels : List Label
  value : List Char
deriving DecidableEq

/-- The characters of names. -/
def isNameChar (c : Char) : Bool := c.isAlphanum || c = '_' || c = ':'

/-- The names of metrics and labels. -/
structure IsName (name : List Char) : Prop where
  ne_nil : name ≠ []
  chars : ∀ c ∈ name, isNameChar c = true

instance (name : List Char) : Decidable (IsName name) :=
  decidable_of_iff (name ≠ [] ∧ name.all isNameChar = true)
    ⟨fun ⟨ne_nil, chars⟩ => ⟨ne_nil, List.all_eq_true.mp chars⟩,
      fun ⟨ne_nil, chars⟩ => ⟨ne_nil, List.all_eq_true.mpr chars⟩⟩

theorem IsName.append {front back : List Char} (isName : IsName front)
    (isName' : IsName back) : IsName (front ++ back) where
  ne_nil := List.append_ne_nil_of_left_ne_nil isName.ne_nil back
  chars := fun c mem => (List.mem_append.mp mem).elim (isName.chars c) (isName'.chars c)

/-- A name is checked on the characters of its literal. -/
theorem isName_ofList {name : List Char} (isName : IsName name) :
    IsName (String.ofList name).toList := by
  rwa [String.toList_ofList]

/-- A sample that can be written.  Nothing is asked of the values of its labels. -/
structure Sample.Valid (s : Sample) : Prop where
  metric : IsName s.metric
  labels : ∀ l ∈ s.labels, IsName l.1
  value : '\n' ∉ s.value

/-- How a label is written. -/
def writeLabel (l : Label) : List Char := l.1 ++ '=' :: '"' :: (labelEscaping.escape l.2 ++ ['"'])

/-- How labels are written. -/
def writeLabels : List Label → List Char
  | [] => []
  | l :: rest => '{' :: (writeLabel l ++ (rest.flatMap fun l => ',' :: writeLabel l) ++ ['}'])

/-- How a sample is written. -/
def Sample.write (s : Sample) : List Char :=
  s.metric ++ writeLabels s.labels ++ ' ' :: (s.value ++ ['\n'])

/-- A line of a document. -/
inductive Line
  | comment (text : List Char)
  | sample (s : Sample)
deriving DecidableEq

namespace Line

/-- How a line is written. -/
def write : Line → List Char
  | comment text => '#' :: (text ++ ['\n'])
  | sample s => s.write

/-- The sample of a line. -/
def sample? : Line → Option Sample
  | comment _ => none
  | sample s => some s

/-- A line that can be written. -/
def Valid : Line → Prop
  | comment text => '\n' ∉ text
  | sample s => s.Valid

end Line

/-! ## The reader -/

/-- Where the reader stands in a line, with what it has read of it. -/
inductive Mode
  | start
  | comment
  | metric (name : List Char)
  | name (metric : List Char) (labels : List Label) (name : List Char)
  | opening (metric : List Char) (labels : List Label) (name : List Char)
  | inside (metric : List Char) (labels : List Label) (name value : List Char)
  | escaped (metric : List Char) (labels : List Label) (name value : List Char)
  | between (metric : List Char) (labels : List Label)
  | closed (metric : List Char) (labels : List Label)
  | value (metric : List Char) (labels : List Label) (value : List Char)
  | failed
deriving DecidableEq

/-- The reader. -/
structure Reader where
  samples : List Sample := []
  mode : Mode := .start
deriving DecidableEq

namespace Mode

/-- What follows a character inside a line. -/
def next (c : Char) : Mode → Mode
  | start => if c = '#' then comment else if isNameChar c then metric [c] else failed
  | comment => comment
  | metric m =>
    if c = '{' then name m [] [] else if c = ' ' then value m [] []
    else if isNameChar c then metric (m ++ [c]) else failed
  | name m ls k =>
    if c = '=' then opening m ls k else if isNameChar c then name m ls (k ++ [c]) else failed
  | opening m ls k => if c = '"' then inside m ls k [] else failed
  | inside m ls k v =>
    if c = '\\' then escaped m ls k v else if c = '"' then between m (ls ++ [(k, v)])
    else inside m ls k (v ++ [c])
  | escaped m ls k v =>
    match labelEscaping.meaning c with
    | some d => inside m ls k (v ++ [d])
    | none => failed
  | between m ls => if c = ',' then name m ls [] else if c = '}' then closed m ls else failed
  | closed m ls => if c = ' ' then value m ls [] else failed
  | value m ls v => value m ls (v ++ [c])
  | failed => failed

end Mode

/-- Read one character.  A newline ends a line, which is then a comment, a sample or empty. -/
def Reader.step (r : Reader) (c : Char) : Reader :=
  if c = '\n' then
    match r.mode with
    | .start | .comment => { r with mode := .start }
    | .value metric labels value => ⟨r.samples ++ [⟨metric, labels, value⟩], .start⟩
    | _ => { r with mode := .failed }
  else { r with mode := r.mode.next c }

/-- The samples of a document, whose last line must have ended. -/
def read (text : List Char) : Option (List Sample) :=
  let r := text.foldl Reader.step {}
  if r.mode = .start then some r.samples else none

/-! ## Newlines -/

/-- A text is checked on the characters of its literal. -/
theorem newline_notMem_ofList {text : List Char} (within : '\n' ∉ text) :
    '\n' ∉ (String.ofList text).toList := by
  rwa [String.toList_ofList]

theorem labelEscaping_newline : labelEscaping.Foreign '\n' where
  ne_mark := by decide
  ne_letter := by
    intro d letter
    dsimp only [labelEscaping] at letter
    split_ifs at letter <;> exact absurd (Option.some.inj letter) (by decide)

theorem IsName.notMem {name : List Char} (isName : IsName name) {c : Char}
    (other : isNameChar c = false) : c ∉ name := by
  intro mem
  cases (isName.chars c mem).symm.trans other

theorem newline_notMem_writeLabel {l : Label} (isName : IsName l.1) : '\n' ∉ writeLabel l := by
  have value : '\n' ∉ labelEscaping.escape l.2 := labelEscaping_newline.not_mem_escape rfl l.2
  have name : '\n' ∉ l.1 := isName.notMem rfl
  simp [writeLabel, name, value]

theorem newline_notMem_writeLabels {ls : List Label} (names : ∀ l ∈ ls, IsName l.1) :
    '\n' ∉ writeLabels ls := by
  cases ls with
  | nil => exact List.not_mem_nil
  | cons l rest =>
    have first := newline_notMem_writeLabel (names l List.mem_cons_self)
    have later : ∀ l' ∈ rest, '\n' ∉ writeLabel l' := fun l' mem =>
      newline_notMem_writeLabel (names l' (List.mem_cons_of_mem l mem))
    simpa [writeLabels, first] using later

/-- Up to the end of the line only the mode of the reader changes. -/
theorem foldl_step_of_notMem {text : List Char} (within : '\n' ∉ text) (samples : List Sample)
    (mode : Mode) :
    text.foldl Reader.step ⟨samples, mode⟩ =
      ⟨samples, text.foldl (fun mode c => mode.next c) mode⟩ := by
  induction text generalizing mode with
  | nil => rfl
  | cons c text ih =>
    rw [List.mem_cons, not_or] at within
    rw [List.foldl_cons, List.foldl_cons, Reader.step, if_neg (Ne.symm within.1)]
    exact ih within.2 (mode.next c)

/-! ## Reading a line -/

namespace Mode

variable {m : List Char} {ls : List Label}

theorem foldl_comment (text : List Char) :
    text.foldl (fun mode c => next c mode) comment = comment := by
  induction text with
  | nil => rfl
  | cons c text ih => exact ih

theorem foldl_value (m : List Char) (ls : List Label) (v text : List Char) :
    text.foldl (fun mode c => next c mode) (value m ls v) = value m ls (v ++ text) :=
  foldl_enter (value m ls) (fun _ _ _ => rfl) v

theorem next_metric {c : Char} (nameChar : isNameChar c = true) (m : List Char) :
    next c (metric m) = metric (m ++ [c]) := by
  have brace : c ≠ '{' := by
    rintro rfl
    cases nameChar
  have blank : c ≠ ' ' := by
    rintro rfl
    cases nameChar
  rw [next, if_neg brace, if_neg blank, if_pos nameChar]

theorem next_name {c : Char} (nameChar : isNameChar c = true) (k : List Char) :
    next c (name m ls k) = name m ls (k ++ [c]) := by
  have equals : c ≠ '=' := by
    rintro rfl
    cases nameChar
  rw [next, if_neg equals, if_pos nameChar]

theorem foldl_metric {text : List Char} (chars : ∀ c ∈ text, isNameChar c = true) :
    text.foldl (fun mode c => next c mode) (metric m) = metric (m ++ text) :=
  foldl_enter metric (fun c mem => next_metric (chars c mem)) m

theorem foldl_name {k text : List Char} (chars : ∀ c ∈ text, isNameChar c = true) :
    text.foldl (fun mode c => next c mode) (name m ls k) = name m ls (k ++ text) :=
  foldl_enter (name m ls) (fun c mem => next_name (chars c mem)) k

/-- A metric at the start of a line. -/
theorem foldl_start {text : List Char} (isName : IsName text) :
    text.foldl (fun mode c => next c mode) start = metric text := by
  cases text with
  | nil => exact absurd rfl isName.ne_nil
  | cons c text =>
    have nameChar := isName.chars c List.mem_cons_self
    have noComment : c ≠ '#' := by
      rintro rfl
      cases nameChar
    rw [List.foldl_cons, next, if_neg noComment, if_pos nameChar]
    exact foldl_metric fun d mem => isName.chars d (List.mem_cons_of_mem c mem)

/-- A label value is read back, whatever it is. -/
theorem foldl_inside (m : List Char) (ls : List Label) (k v s : List Char) :
    (labelEscaping.escape s).foldl (fun mode c => next c mode) (inside m ls k v) =
      inside m ls k (v ++ s) := by
  refine foldl_flatMap_enter (inside m ls k) ?_ v
  intro c _ v
  rw [Escaping.write]
  cases letter : labelEscaping.letter c with
  | some l =>
    have back := labelEscaping.meaning_letter letter
    simp only [List.foldl_cons, List.foldl_nil]
    rw [show next labelEscaping.mark (inside m ls k v) = escaped m ls k v from rfl, next, back]
  | none =>
    have noQuote : c ≠ '"' := by
      rintro rfl
      cases letter
    have noMark : c ≠ '\\' := labelEscaping.ne_mark_of_letter letter
    rw [List.foldl_cons, List.foldl_nil, next, if_neg noMark, if_neg noQuote]

theorem foldl_writeLabel {l : Label} (isName : IsName l.1) :
    (writeLabel l).foldl (fun mode c => next c mode) (name m ls []) = between m (ls ++ [l]) := by
  have equals (k : List Char) : next '=' (name m ls k) = opening m ls k := rfl
  have quote (k : List Char) : next '"' (opening m ls k) = inside m ls k [] := rfl
  have last (k v : List Char) : next '"' (inside m ls k v) = between m (ls ++ [(k, v)]) := rfl
  rw [writeLabel, List.foldl_append, foldl_name isName.chars, List.foldl_cons, List.foldl_cons,
    List.foldl_append, equals, quote, foldl_inside, List.foldl_cons, List.foldl_nil, last]
  rfl

theorem foldl_moreLabels {rest : List Label} (names : ∀ l ∈ rest, IsName l.1) :
    (rest.flatMap fun l => ',' :: writeLabel l).foldl (fun mode c => next c mode) (between m ls) =
      between m (ls ++ rest) := by
  refine foldl_flatMap_enter (between m) ?_ ls
  intro l mem ls
  have comma : next ',' (between m ls) = name m ls [] := rfl
  rw [List.foldl_cons, comma, foldl_writeLabel (names l mem)]

/-- The series of a sample, up to the blank in front of its value. -/
theorem foldl_series (names : ∀ l ∈ ls, IsName l.1) :
    (writeLabels ls ++ [' ']).foldl (fun mode c => next c mode) (metric m) = value m ls [] := by
  cases ls with
  | nil => rfl
  | cons l rest =>
    have brace : next '{' (metric m) = name m [] [] := rfl
    rw [writeLabels, List.cons_append, List.foldl_cons, brace, List.foldl_append,
      List.foldl_append, List.foldl_append, foldl_writeLabel (names l List.mem_cons_self),
      foldl_moreLabels fun l' mem => names l' (List.mem_cons_of_mem l mem)]
    rfl

end Mode

/-- A line is read as it was written. -/
theorem foldl_write {line : Line} (valid : line.Valid) (samples : List Sample) :
    line.write.foldl Reader.step ⟨samples, .start⟩ = ⟨samples ++ line.sample?.toList, .start⟩ := by
  cases line with
  | comment text =>
    have within : '\n' ∉ '#' :: text := by
      rw [List.mem_cons, not_or]
      exact ⟨by decide, valid⟩
    have commented : ('#' :: text).foldl (fun mode c => Mode.next c mode) .start = .comment :=
      Mode.foldl_comment text
    rw [Line.write, ← List.cons_append, List.foldl_append, foldl_step_of_notMem within, commented]
    simp [Reader.step, Line.sample?]
  | sample s =>
    -- all but the last character is read within the line
    have whole : s.write =
        (s.metric ++ (writeLabels s.labels ++ [' ']) ++ s.value) ++ ['\n'] := by
      simp [Sample.write]
    have within : '\n' ∉ s.metric ++ (writeLabels s.labels ++ [' ']) ++ s.value := by
      simp only [List.mem_append, List.mem_singleton, not_or]
      exact ⟨⟨valid.metric.notMem rfl, newline_notMem_writeLabels valid.labels, by decide⟩,
        valid.value⟩
    rw [Line.write, whole, List.foldl_append, foldl_step_of_notMem within, List.foldl_append,
      List.foldl_append, Mode.foldl_start valid.metric, Mode.foldl_series valid.labels,
      Mode.foldl_value]
    rfl

/-- **A document is read as the samples it was written for.** -/
theorem read_document {lines : List Line} (valid : ∀ line ∈ lines, line.Valid) :
    read (lines.flatMap Line.write) = some (lines.filterMap Line.sample?) := by
  have reads (samples : List Sample) : (lines.flatMap Line.write).foldl Reader.step
      ⟨samples, .start⟩ = ⟨samples ++ lines.filterMap Line.sample?, .start⟩ := by
    induction lines generalizing samples with
    | nil => simp
    | cons line lines ih =>
      rw [List.flatMap_cons, List.foldl_append, foldl_write (valid line List.mem_cons_self),
        ih fun other mem => valid other (List.mem_cons_of_mem line mem), List.append_assoc]
      cases line <;> rfl
  rw [read, reads]
  rfl

end Exposition
