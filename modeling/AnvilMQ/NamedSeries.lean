import AnvilMQ.Rust
import AnvilMQ.Text.Escape

/-!
# The metrics of job names

The part of `/metrics` with a label that a producer chooses: the counters and the duration
histogram of each registered job name (`render_named_series` of `src/telemetry.rs`).

## Design notes

Durations are divided by 1000 as `f64`s and displayed.  `SecondsText` is what is used of that: the
text of a duration has only digits and a point.
-/

namespace AnvilMQ

open Text

/-- `escape_label`: three replacements, one after the other. -/
def escapeLabel (value : String) : String :=
  String.ofList
    (replaceAll '"' ['\\', '"'] (replaceAll '\n' ['\\', 'n'] (replaceAll '\\' ['\\', '\\']
      value.toList)))

/-- `NAMED_EVENTS`. -/
def namedEvents : List String := ["enqueued", "claimed", "completed", "failed", "retried"]

/-- `DURATION_BOUNDS_MS`. -/
def durationBoundsMs : List ℕ := [1, 10, 100, 500, 1000, 5000, 15000, 60000, 300000, 3600000]

/-- `DurationHistogram`. -/
structure DurationHistogram where
  buckets : Vector ℕ 10
  count : ℕ
  millis : ℕ

/-- `NamedSeries`. -/
structure NamedSeries where
  events : Vector ℕ 5
  duration : DurationHistogram

/-- The text of `ms as f64 / 1000.`. -/
structure SecondsText where
  text : ℕ → String
  plain : ∀ ms, ∀ c ∈ (text ms).toList, c.isDigit = true ∨ c = '.'

/-- `DurationHistogram::render`. -/
def DurationHistogram.render (h : DurationHistogram) (seconds : SecondsText)
    (metric labels out : String) : String :=
  let out := (durationBoundsMs.zip h.buckets.toList).foldl (fun out (bound, n) =>
    out ++ (metric ++ "_bucket\x7b" ++ labels ++ ",le=\"" ++ seconds.text bound ++ "\"\x7d " ++
      toString n ++ "\n")) out
  out ++ (metric ++ "_bucket\x7b" ++ labels ++ ",le=\"+Inf\"\x7d " ++ toString h.count ++ "\n" ++
    metric ++ "_count\x7b" ++ labels ++ "\x7d " ++ toString h.count ++ "\n" ++
    metric ++ "_sum\x7b" ++ labels ++ "\x7d " ++ seconds.text h.millis ++ "\n")

/-- `render_named_series`. -/
def renderNamedSeries (seconds : SecondsText) (series : List (String × NamedSeries))
    (out : String) : String :=
  let out := out ++ ("# HELP anvilmq_jobs_by_name_total " ++
    "Committed lifecycle events since process start, per job name.\n" ++
    "# TYPE anvilmq_jobs_by_name_total counter\n")
  let out := series.foldl (fun out (name, s) =>
    (namedEvents.zip s.events.toList).foldl (fun out (event, n) =>
      out ++ ("anvilmq_jobs_by_name_total\x7bname=\"" ++ escapeLabel name ++ "\",event=\"" ++
        event ++ "\"\x7d " ++ toString n ++ "\n")) out) out
  let out := out ++ ("# HELP anvilmq_job_duration_seconds " ++
    "Enqueue to terminal (completed or exhausted-failed) latency by name; " ++
    "includes queue wait, retries, and backoff.\n" ++
    "# TYPE anvilmq_job_duration_seconds histogram\n")
  series.foldl (fun out (name, s) =>
    s.duration.render seconds "anvilmq_job_duration_seconds"
      ("name=\"" ++ escapeLabel name ++ "\"") out) out

end AnvilMQ
