import AnvilMQ.Schema
import AnvilMQ.Text.Words

/-!
# Retry delays and cron times

`src/scheduling.rs`: the exponential backoff of a retry, its jitter, and the
cron/time-zone layer over the `croner` and `chrono-tz` libraries.
-/

namespace AnvilMQ

open Rust

/-! ## Backoff -/

/-- `1_i64.checked_shl(shift)`; a shift by 63 lands on the sign bit. -/
def checkedShlOne (shift : ℕ) : Option ℤ :=
  if shift < 63 then some (2 ^ shift)
  else if shift = 63 then some i64Min
  else none

/-- `retry_delay`: attempt one waits `base`, attempt two `2 * base`, and so on,
saturating before the cap. -/
def retryDelay (base cap : ℤ) (attempt : ℕ) : ℤ :=
  if base = 0 then 0
  else
    let multiplier := ((checkedShlOne (attempt - 1)).filter fun v => decide (0 < v)).getD i64Max
    min (saturatingMul base multiplier) cap

/-- `apply_jitter`.  `jittered` is the rounded `f64` blend of the delay and the
random sample; whatever it is, the result is clamped to `[0, delay]`. -/
def applyJitter (delay : ℤ) (jitter : F64) (jittered : ℤ) : ℤ :=
  if jitter.nonpositive || decide (delay ≤ 0) then delay
  else max 0 (min delay jittered)

/-! ## Cron -/

/-- `SchedulerError`. -/
inductive SchedulerError
  | invalidCron (message : String)
  | invalidTimezone (message : String)
  | compute (message : String)
deriving DecidableEq

/-- Split a character list at every separator. -/
def splitOnChar (separator : Char) : List Char → List (List Char)
  | [] => [[]]
  | c :: rest =>
    match splitOnChar separator rest with
    | [] => [[c]]
    | field :: fields => if c = separator then [] :: field :: fields else (c :: field) :: fields

/-- `split_whitespace`: the maximal runs without whitespace. -/
def splitWhitespace (text : List Char) : List (List Char) :=
  (splitOnChar ' ' (text.map fun c => if isWhitespace c then ' ' else c)).filter (· ≠ [])

theorem splitOnChar_eq_splitOn (separator : Char) (text : List Char) :
    splitOnChar separator text = text.splitOn separator := by
  induction text with
  | nil => rfl
  | cons c rest ih =>
    rw [splitOnChar, ih, List.splitOn, List.splitOn, List.splitOnP_cons_eq_if_modifyHead]
    cases parts : rest.splitOnP (· == separator) with
    | nil => exact absurd parts (List.splitOnP_ne_nil _ rest)
    | cons field fields => simp only [beq_iff_eq, List.modifyHead_cons]

/-- The fields are the words between runs of whitespace. -/
theorem splitWhitespace_eq_words (text : List Char) :
    splitWhitespace text = Text.words isWhitespace text := by
  have split : splitOnChar ' ' (text.map fun c => if isWhitespace c then ' ' else c) =
      text.splitOnP isWhitespace := by
    induction text with
    | nil => rfl
    | cons c rest ih =>
      rw [List.map_cons, splitOnChar, ih, List.splitOnP_cons_eq_if_modifyHead]
      cases parts : rest.splitOnP isWhitespace with
      | nil => exact absurd parts (List.splitOnP_ne_nil _ rest)
      | cons field fields =>
        cases white : isWhitespace c with
        | true => simp
        | false =>
          have plain : c ≠ ' ' := by
            rintro rfl
            cases white
          simp [plain]
  rw [splitWhitespace, split, Text.words]
  refine List.filter_congr fun w _ => ?_
  cases w <;> rfl

/-- A nonempty run of ASCII digits. -/
def bareNumber (text : List Char) : Bool := !text.isEmpty && text.all fun c => c.isDigit

/-- `normalize_step_component`: rewrite `N/M` to `N-max/M` and nothing else. -/
def normalizeStepComponent (part : List Char) (max : ℕ) : List Char :=
  match part.span (· ≠ '/') with
  | (start, '/' :: step) =>
    if bareNumber start && bareNumber step then
      start ++ '-' :: (toString max).toList ++ '/' :: step
    else part
  | _ => part

/-- The largest value of each field of a cron pattern with that many fields. -/
def fieldMaxes : ℕ → Option (List ℕ)
  | 5 => some [59, 23, 31, 12, 7]
  | 6 => some [59, 59, 23, 31, 12, 7]
  | _ => none

/-- `normalize_cron`. -/
def normalizeCron (cron : String) : String :=
  let fields := splitWhitespace cron.toList
  match fieldMaxes fields.length with
  | none => cron
  | some maxes =>
    let normalized := (fields.zip maxes).map fun (field, max) =>
      [','].intercalate ((splitOnChar ',' field).map fun part => normalizeStepComponent part max)
    String.ofList ([' '].intercalate normalized)

/-- `parse_cron`: the normalised pattern, once `croner` accepts it. -/
def parseCron (ext : Externals) (cron : String) : Except SchedulerError String :=
  if isBlank cron then .error (.invalidCron "pattern is empty")
  else
    match ext.cronFromStr (normalizeCron cron) with
    | .ok () => .ok (normalizeCron cron)
    | .error message => .error (.invalidCron message)

/-- `resolve_tz`: a blank name is UTC. -/
def resolveTz (ext : Externals) (tz : String) : Except SchedulerError String :=
  if isBlank tz then .ok "UTC"
  else if ext.tzFromStr (trim tz) then .ok (trim tz)
  else .error (.invalidTimezone tz)

/-- `validate_cron`. -/
def validateCron (ext : Externals) (cron tz : String) : Except SchedulerError Unit := do
  let _ ← parseCron ext cron
  let _ ← resolveTz ext tz
  .ok ()

/-- `next_cron_after`: the first occurrence strictly after `nowMs`. -/
def nextCronAfter (ext : Externals) (nowMs : ℤ) (cron tz : String) :
    Except SchedulerError ℤ := do
  let pattern ← parseCron ext cron
  let zone ← resolveTz ext tz
  match ext.findNextOccurrence pattern zone nowMs with
  | .ok next => .ok next
  | .error message => .error (.compute message)

end AnvilMQ
