import Mathlib.Data.List.DropRight
import AnvilMQ.Endpoints
import AnvilMQ.Fts
import AnvilMQ.Relational.Select
import AnvilMQ.Scheduling
import AnvilMQ.Text.Sqlite

/-!
# The search of the history

`GET /v1/search` (`search` of `src/telemetry.rs`).  The free text `q` is looked for in one of two
ways: with `LIKE`, as a pattern `escape_like` writes, or, when the full-text index is enabled, with
`MATCH`, as an expression `sanitize_match` of `src/fts.rs` writes.

## Design notes

The tokenizer of FTS5 is not modelled: `Fts5` says which rows of the index have a phrase.  Phrases
that stand next to each other are asked for together.
-/

namespace AnvilMQ

open Rust Relational

/-! ## Full-text expressions -/

/-- The term of a token, if its stem has anything to search for. -/
def matchTerm (token : List Char) : Option (List Char) :=
  let stem := token.rdropWhile (· = '*')
  let starred := stem.length ≠ token.length
  if stem.all (· = '"') then none
  else
    let escaped := Text.replaceAll '"' ['"', '"'] stem
    some (if starred then '"' :: escaped ++ ['"', '*'] else '"' :: escaped ++ ['"'])

/-- `sanitize_match`. -/
def sanitizeMatch (query : String) : Option String :=
  let terms := (splitWhitespace query.toList).filterMap matchTerm
  if terms.isEmpty then none else some (String.ofList ([' '].intercalate terms))

/-! ## Patterns -/

/-- `LIKE_ESCAPE`. -/
def likeEscape : Char := '\\'

/-- `escape_like`. -/
def escapeLike (input : String) : String :=
  String.ofList (input.toList.flatMap fun ch =>
    if ch = likeEscape ∨ ch = '%' ∨ ch = '_' then [likeEscape, ch] else [ch])

/-- `%…%` around the escaped text. -/
def likePattern (q : String) : String := "%" ++ escapeLike q ++ "%"

/-! ## The endpoint -/

/-- `SearchParams`. -/
structure SearchParams where
  q : Option String := none
  name : Option String := none
  state : Option String := none
  traceId : Option String := none
  sinceMs : Option ℤ := none
  limit : Option ℕ := none

/-- The text of a terminal state. -/
def TerminalState.text : TerminalState → String
  | .completed => "Completed"
  | .failed => "Failed"

/-- `SearchRow`. -/
structure SearchRow where
  id : JobId
  name : String
  state : TerminalState
  attempts : ℕ
  createdAt : ℤ
  finishedAt : ℤ
  lastError : Option String
  traceId : String
  executionDepth : ℤ
deriving DecidableEq

/-- The columns a search selects. -/
def SearchRow.of (row : HistoryRow) : SearchRow where
  id := row.id
  name := row.name
  state := row.state
  attempts := row.attempts
  createdAt := row.createdAt
  finishedAt := row.finishedAt
  lastError := row.lastError
  traceId := row.traceId
  executionDepth := row.executionDepth

/-- `SEARCH_DEFAULT_LIMIT`. -/
def searchDefaultLimit : ℕ := 100

/-- `SEARCH_MAX_LIMIT`. -/
def searchMaxLimit : ℕ := 1000

/-- `s LIKE ? ESCAPE '\'`. -/
def isLike (pattern s : String) : Bool := Sqlite.like likeEscape pattern.toList s.toList

/-- The `LIKE` clause.  A null `last_error` is not like anything. -/
def HistoryRow.isLike (row : HistoryRow) (pattern : String) : Bool :=
  AnvilMQ.isLike pattern row.id || AnvilMQ.isLike pattern row.name ||
    AnvilMQ.isLike pattern row.traceId || row.lastError.any (AnvilMQ.isLike pattern)

/-- The structured filters. -/
def SearchParams.admits (params : SearchParams) (row : HistoryRow) : Bool :=
  params.name.all (row.name = ·) && params.state.all (row.state.text = ·) &&
    params.traceId.all (row.traceId = ·) && params.sinceMs.all (· ≤ row.finishedAt)

/-- The tokenizer of the index. -/
structure Fts5 where
  hasPhrase : Sqlite.Phrase → FtsRow → Bool

/-- `job_history_fts MATCH ?1`, joined back to `job_history`.  An expression that FTS5 cannot read
is an error of the statement. -/
def matchRows (fts5 : Fts5) (s : FtsState) (expression : String) :
    Except ReaderError (List Stored) :=
  match s.index, Sqlite.lex expression.toList with
  | some index, some phrases =>
    .ok (s.history.rows.filter fun stored =>
      (index.find? stored.rowid).any fun entry => phrases.all (fts5.hasPhrase · entry))
  | _, _ => .error .db

/-- `WHERE 1=1`, and the `LIKE` clause if there is a query. -/
def likeRows (s : FtsState) (q : Option String) : List Stored :=
  s.history.rows.filter fun stored => q.all fun q => stored.row.isLike (likePattern q)

/-- The filters, the order and the limit of a search. -/
def SearchParams.page (params : SearchParams) (scan : Scan Stored) (rows : List Stored) :
    List SearchRow :=
  let limit := min (params.limit.getD searchDefaultLimit) searchMaxLimit
  (scan.limitBy (fun stored => -stored.row.finishedAt) limit
    (rows.filter fun stored => params.admits stored.row)).map fun stored => .of stored.row

/-- `search`, for a reader that sees a committed state or fails. -/
def search (fts5 : Fts5) (scan : Scan Stored) (ftsEnabled : Bool)
    (snapshot : Except ReaderError FtsState) (params : SearchParams) :
    Except StatusCode (List SearchRow) :=
  let q := (params.q.map trim).filter (· ≠ "")
  let read (select : FtsState → Except ReaderError (List Stored)) :
      Except StatusCode (List SearchRow) :=
    match snapshot.bind select with
    | .ok rows => .ok (params.page scan rows)
    | .error error => .error error.status
  if q.isNone && params.name.isNone && params.state.isNone && params.traceId.isNone &&
      params.sinceMs.isNone then .error .badRequest
  else if ftsEnabled && q.isSome then
    match sanitizeMatch (q.getD "") with
    | some expression => read fun s => matchRows fts5 s expression
    -- nothing to search for matches nothing
    | none => .ok []
  else read fun s => .ok (likeRows s q)

end AnvilMQ
