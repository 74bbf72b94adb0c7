import AnvilMQ.Search

/-!
# The text of a search

What a user types reaches SQLite as a `LIKE` pattern or as an FTS5 expression.  A pattern is a
literal search, whatever the text.  An expression is one phrase for each token that has anything
to search for; but FTS5 reads it as a C string, and a NUL in the text leaves a phrase open.
-/

namespace AnvilMQ

open Rust Relational Sqlite

/-! ## Patterns -/

/-- `%`, `_` and the escape character are written after an escape character. -/
def likeEscaping : Text.Escaping Char where
  mark := likeEscape
  letter := fun c => if c = likeEscape ∨ c = '%' ∨ c = '_' then some c else none
  meaning := some
  letter_mark := rfl
  meaning_letter := by
    intro c l letter
    split_ifs at letter
    rw [Option.some.inj letter]

theorem toList_escapeLike (q : String) :
    (escapeLike q).toList = likeEscaping.escape q.toList := by
  rw [escapeLike, String.toList_ofList, Text.Escaping.escape]
  congr 1
  funext c
  rw [Text.Escaping.write]
  dsimp only [likeEscaping]
  split_ifs <;> rfl

/-- A character of the query asks for itself. -/
theorem item_shown (c : Char) : Item.of (likeEscaping.shown c) = .lit c := by
  rw [Text.Escaping.shown]
  dsimp only [likeEscaping]
  by_cases special : c = likeEscape ∨ c = '%' ∨ c = '_'
  · rw [if_pos special]
    rfl
  · rw [if_neg special]
    rw [not_or, not_or] at special
    rw [Item.of, if_neg special.2.1, if_neg special.2.2]

theorem toList_likePattern (q : String) :
    (likePattern q).toList = '%' :: (likeEscaping.escape q.toList ++ ['%']) := by
  rw [likePattern, String.toList_append, String.toList_append, toList_escapeLike]
  rfl

/-- **What a pattern asks for**: the query, between two wildcards. -/
theorem items_likePattern (q : String) :
    items likeEscape (likePattern q).toList = some (.any :: (q.toList.map .lit ++ [.any])) := by
  have last : Text.scan likeEscape ['%'] = some [(false, '%')] := rfl
  have seen := likeEscaping.scan_escape_append q.toList ['%']
  rw [toList_likePattern, items, Text.scan_plain (by decide)]
  rw [show likeEscaping.mark = likeEscape from rfl, last] at seen
  rw [seen]
  simp only [Option.map_some, List.map_cons, List.map_append, List.map_map, List.map_nil]
  rw [show Item.of ∘ likeEscaping.shown = Item.lit from funext item_shown]
  rfl

theorem likeEscaping_nul : likeEscaping.Foreign '\x00' where
  ne_mark := by decide
  ne_letter := by
    intro d letter
    dsimp only [likeEscaping] at letter
    split_ifs at letter with special
    rw [Option.some.inj letter] at special
    exact absurd special (by decide)

theorem nul_mem_likePattern {q : String} :
    '\x00' ∈ (likePattern q).toList ↔ '\x00' ∈ q.toList := by
  rw [toList_likePattern, List.mem_cons, List.mem_append, List.mem_singleton,
    likeEscaping_nul.mem_escape rfl]
  simp

theorem isLike_iff {q s : String} (cleanQuery : '\x00' ∉ q.toList)
    (cleanText : '\x00' ∉ s.toList) :
    isLike (likePattern q) s = true ↔ lower q.toList <:+: lower s.toList := by
  rw [isLike, like, cString_of_notMem (mt nul_mem_likePattern.mp cleanQuery), items_likePattern,
    cString_of_notMem cleanText]
  exact holds_between_any

/-- **LIKE search is literal substring search.**  The pattern asks for the characters of the query,
between two wildcards, and what is like it is what the query occurs in, up to case. -/
theorem like_search_literal (q s : String) (cleanQuery : '\x00' ∉ q.toList)
    (cleanText : '\x00' ∉ s.toList) :
    items likeEscape (likePattern q).toList = some (.any :: (q.toList.map .lit ++ [.any])) ∧
      (isLike (likePattern q) s = true ↔ lower q.toList <:+: lower s.toList) :=
  ⟨items_likePattern q, isLike_iff cleanQuery cleanText⟩

/-- A query of nothing but wildcards and escapes is looked for as it stands. -/
theorem wildcards_search_literal :
    '\x00' ∉ "\\%_".toList ∧ '\x00' ∉ "at 5\\%_".toList ∧
      items likeEscape (likePattern "\\%_").toList =
        some (.any :: ("\\%_".toList.map .lit ++ [.any])) ∧
      (isLike (likePattern "\\%_") "at 5\\%_" = true ↔
        lower "\\%_".toList <:+: lower "at 5\\%_".toList) :=
  ⟨by decide, by decide, like_search_literal "\\%_" "at 5\\%_" (by decide) (by decide)⟩

/-- The texts of a row that are searched. -/
def HistoryRow.texts (row : HistoryRow) : List String :=
  [row.id, row.name, row.traceId] ++ row.lastError.toList

/-- The rows that a search with `LIKE` finds are those the query occurs in. -/
theorem mem_likeRows_iff {s : FtsState} {q : String} (cleanQuery : '\x00' ∉ q.toList)
    {stored : Stored} (cleanRow : ∀ text ∈ stored.row.texts, '\x00' ∉ text.toList) :
    stored ∈ likeRows s (some q) ↔
      stored ∈ s.history.rows ∧
        ∃ text ∈ stored.row.texts, lower q.toList <:+: lower text.toList := by
  have clause : stored.row.isLike (likePattern q) = true ↔
      ∃ text ∈ stored.row.texts, isLike (likePattern q) text = true := by
    rw [HistoryRow.isLike, HistoryRow.texts]
    cases stored.row.lastError <;> simp [or_assoc]
  rw [likeRows, List.mem_filter, Option.all_some, clause]
  refine and_congr_right fun _ => exists_congr fun text => ?_
  exact and_congr_right fun mem => isLike_iff cleanQuery (cleanRow text mem)

/-! ## Expressions -/

/-- The part of a token before its trailing stars, and whether there are any. -/
def phraseOf (token : List Char) : Phrase where
  text := token.rdropWhile (· = '*')
  starred := token.getLast? = some '*'

/-- The phrases a query asks for: one for each token with anything but quotes before its trailing
stars. -/
def phrasesOf (q : String) : List Phrase :=
  ((splitWhitespace q.toList).map phraseOf).filter fun p => p.text.any (· ≠ '"')

/-- The expression of a query is read as the phrases it asks for, and there is one unless it asks
for nothing. -/
structure SafeMatch (q : String) : Prop where
  reads : ∀ expr, sanitizeMatch q = some expr → lex expr.toList = some (phrasesOf q)
  none_iff : sanitizeMatch q = none ↔ phrasesOf q = []

/-- A token loses something at its end exactly when a star is there. -/
theorem starred_iff (token : List Char) :
    (token.rdropWhile (· = '*')).length ≠ token.length ↔ token.getLast? = some '*' := by
  induction token using List.reverseRecOn with
  | nil => simp
  | append_singleton token c =>
    rw [List.getLast?_concat, Option.some.injEq]
    by_cases star : c = '*'
    · have shorter := (List.rdropWhile_prefix (· = '*') token).length_le
      have dropped : (token ++ [c]).rdropWhile (· = '*') = token.rdropWhile (· = '*') :=
        List.rdropWhile_concat_pos _ _ _ (decide_eq_true star)
      rw [dropped, List.length_append, List.length_singleton]
      simp only [star, iff_true]
      omega
    · have kept : (token ++ [c]).rdropWhile (· = '*') = token ++ [c] :=
        List.rdropWhile_concat_neg _ _ _ (by simp [star])
      simp [kept, star]

theorem replaceAll_quote (s : List Char) :
    Text.replaceAll '"' ['"', '"'] s = quoting.escape s := by
  rw [Text.replaceAll, Text.Escaping.escape]
  congr 1
  funext c
  rw [quoting_write]

/-- The term of a token writes its phrase. -/
theorem matchTerm_eq (token : List Char) :
    matchTerm token =
      if (phraseOf token).text.any (· ≠ '"') then some (phraseOf token).write else none := by
  have quotes : (phraseOf token).text.any (· ≠ '"') =
      !(token.rdropWhile (· = '*')).all (· = '"') := by
    rw [List.all_eq_not_any_not, Bool.not_not, phraseOf]
    simp only [decide_not]
  rw [matchTerm, replaceAll_quote, quotes]
  cases (token.rdropWhile (· = '*')).all (· = '"') with
  | true => rfl
  | false =>
    simp only [starred_iff, Bool.not_false, if_true, Bool.false_eq_true, if_false]
    rw [Phrase.write, phraseOf]
    by_cases star : token.getLast? = some '*'
    · simp [star]
    · simp [star]

/-- The expression of a query writes its phrases. -/
theorem sanitizeMatch_eq (q : String) :
    sanitizeMatch q =
      if phrasesOf q = [] then none else some (String.ofList (expression (phrasesOf q))) := by
  have terms : (splitWhitespace q.toList).filterMap matchTerm = (phrasesOf q).map Phrase.write := by
    rw [phrasesOf]
    induction splitWhitespace q.toList with
    | nil => rfl
    | cons token tokens ih =>
      rw [List.map_cons, List.filter_cons, List.filterMap_cons, matchTerm_eq]
      split_ifs
      · rw [List.map_cons, ih]
      · exact ih
  rw [sanitizeMatch, terms, List.isEmpty_map]
  cases phrasesOf q <;> rfl

/-- A NUL of the query is in one of its phrases. -/
theorem nul_mem_phrasesOf {q : String} :
    (∃ p ∈ phrasesOf q, '\x00' ∈ p.text) ↔ '\x00' ∈ q.toList := by
  have inWords : (∃ w ∈ splitWhitespace q.toList, '\x00' ∈ w) ↔ '\x00' ∈ q.toList := by
    rw [splitWhitespace_eq_words, Text.mem_words_iff]
    exact and_iff_left rfl
  rw [← inWords]
  constructor
  · rintro ⟨p, mem, inside⟩
    obtain ⟨token, isToken, rfl⟩ := List.mem_map.mp (List.mem_of_mem_filter mem)
    exact ⟨token, isToken, (List.rdropWhile_prefix _ token).subset inside⟩
  · rintro ⟨token, isToken, inside⟩
    -- a NUL is no star, so it stands before the trailing ones
    have stays : '\x00' ∈ (phraseOf token).text := by
      have split : token.rdropWhile (· = '*') ++ token.rtakeWhile (· = '*') = token :=
        List.rdropWhile_append_rtakeWhile
      rw [← split, List.mem_append] at inside
      refine inside.resolve_right fun star => ?_
      exact absurd (List.mem_rtakeWhile_imp star) (by decide)
    refine ⟨phraseOf token, List.mem_filter.mpr ⟨List.mem_map_of_mem isToken, ?_⟩, stays⟩
    exact List.any_eq_true.mpr ⟨_, stays, by decide⟩

/-- What FTS5 makes of the expression of a query. -/
theorem lex_sanitizeMatch {q expr : String} (asks : sanitizeMatch q = some expr) :
    lex expr.toList = if '\x00' ∈ q.toList then none else some (phrasesOf q) := by
  rw [sanitizeMatch_eq] at asks
  split_ifs at asks
  rw [← Option.some.inj asks, String.toList_ofList, lex_expression]
  exact if_congr nul_mem_phrasesOf rfl rfl

/-- A query with a NUL asks for something, and what it asks for cannot be read. -/
theorem sanitizeMatch_of_nul {q : String} (nul : '\x00' ∈ q.toList) :
    ∃ expr, sanitizeMatch q = some expr ∧ lex expr.toList = none := by
  obtain ⟨p, mem, -⟩ := nul_mem_phrasesOf.mpr nul
  have asks := sanitizeMatch_eq q
  rw [if_neg (List.ne_nil_of_mem mem)] at asks
  refine ⟨_, asks, ?_⟩
  rw [lex_sanitizeMatch asks, if_pos nul]

/-- **The expression of a query is safe exactly if the query has no NUL.** -/
theorem safe_match_iff (q : String) : SafeMatch q ↔ '\x00' ∉ q.toList := by
  constructor
  · rintro ⟨reads, -⟩ nul
    obtain ⟨expr, asks, unread⟩ := sanitizeMatch_of_nul nul
    cases unread.symm.trans (reads expr asks)
  · intro clean
    constructor
    · intro expr asks
      rw [lex_sanitizeMatch asks, if_neg clean]
    · rw [sanitizeMatch_eq]
      split_ifs with empty <;> simp [empty]

/-- Quotes and stars do no harm. -/
theorem hostile_query_safe : SafeMatch "a\"b \" OR* *" := (safe_match_iff _).mpr (by decide)

/-- What the index finds for a query without a NUL are the rows that have all its phrases. -/
theorem matchRows_of_clean {q expr : String} (asks : sanitizeMatch q = some expr)
    (clean : '\x00' ∉ q.toList) (fts5 : Fts5) {s : FtsState} {index : Table FtsRow.rowid}
    (created : s.index = some index) :
    matchRows fts5 s expr = .ok (s.history.rows.filter fun stored =>
      (index.find? stored.rowid).any fun entry => (phrasesOf q).all (fts5.hasPhrase · entry)) := by
  rw [matchRows, created, lex_sanitizeMatch asks, if_neg clean]

/-- A query with a NUL is a server error of the search that sends it to the index. -/
theorem search_of_nul (fts5 : Fts5) (scan : Scan Stored) (s : FtsState) {params : SearchParams}
    {q : String} (query : (params.q.map trim).filter (· ≠ "") = some q)
    (nul : '\x00' ∈ q.toList) :
    search fts5 scan true (.ok s) params = .error .internalServerError := by
  obtain ⟨expr, asks, unread⟩ := sanitizeMatch_of_nul nul
  have failed : matchRows fts5 s expr = .error .db := by
    rw [matchRows, unread]
    cases s.index <;> rfl
  simp only [search, query, Option.isNone_some, Option.isSome_some, Option.getD_some,
    Bool.false_and, Bool.false_eq_true, if_false, Bool.and_self, if_true, asks, Except.bind, failed]
  rfl

/-- **A NUL leaves a phrase open.**  The expression of such a query is not read as its phrase, and
the search is answered with a server error, whatever the index holds. -/
theorem nul_query_unreadable :
    ¬ SafeMatch "a\x00b" ∧
      ∀ (fts5 : Fts5) (scan : Scan Stored) (s : FtsState),
        search fts5 scan true (.ok s) { q := some "a\x00b" } = .error .internalServerError := by
  constructor
  · rintro ⟨reads, -⟩
    have asks : sanitizeMatch "a\x00b" = some "\"a\x00b\"" := by decide
    have unread : lex "\"a\x00b\"".toList = none := by decide
    cases unread.symm.trans (reads _ asks)
  · intro fts5 scan s
    exact search_of_nul fts5 scan s (q := "a\x00b") (by decide) (by decide)

end AnvilMQ
