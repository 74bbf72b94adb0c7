import AnvilMQ.Text.Escape

/-!
# The metrics of a worker

`renderPrometheus` of `client/src/index.ts`: the counters and gauges of a worker as a Prometheus
document, with labels of the caller's choice on every sample.
-/

namespace AnvilMQ.Client

open Text

/-- `WorkerMetrics`. -/
structure WorkerMetrics where
  jobsProcessedTotal : ℕ
  jobsFailedTotal : ℕ
  jobsRetriedTotal : ℕ
  jobsActive : ℕ
  pollFailuresTotal : ℕ
  reconnectsTotal : ℕ
  connectionUp : ℕ

/-- How a label value is written: the quotes are replaced before the newlines. -/
def escapeValue (v : String) : String :=
  String.ofList
    (replaceAll '\n' ['\\', 'n'] (replaceAll '"' ['\\', '"'] (replaceAll '\\' ['\\', '\\']
      v.toList)))

/-- `labelStr`. -/
def labelStr (entries : List (String × String)) : String :=
  if entries.length = 0 then ""
  else
    "\x7b" ++ String.ofList ([','].intercalate
      (entries.map fun (k, v) => (k ++ "=\"" ++ escapeValue v ++ "\"").toList)) ++ "\x7d"

/-- The type of a metric. -/
inductive MetricType
  | counter
  | gauge
deriving DecidableEq

/-- The text of a type. -/
def MetricType.text : MetricType → String
  | counter => "counter"
  | gauge => "gauge"

/-- An entry of `series`. -/
structure Series where
  name : String
  type : MetricType
  help : String
  value : ℕ

/-- `series`. -/
def WorkerMetrics.series (m : WorkerMetrics) : List Series :=
  [⟨"jobs_processed_total", .counter, "Jobs completed successfully.", m.jobsProcessedTotal⟩,
    ⟨"jobs_failed_total", .counter, "Jobs moved to the terminal failed state.", m.jobsFailedTotal⟩,
    ⟨"jobs_retried_total", .counter, "Jobs that failed and will be redelivered.",
      m.jobsRetriedTotal⟩,
    ⟨"poll_failures_total", .counter, "Dispatcher poll failures.", m.pollFailuresTotal⟩,
    ⟨"reconnects_total", .counter, "Connection recoveries after being declared lost.",
      m.reconnectsTotal⟩,
    ⟨"jobs_active", .gauge, "Jobs currently processing.", m.jobsActive⟩,
    ⟨"connection_up", .gauge, "1 when the broker is considered reachable, else 0.",
      m.connectionUp⟩]

/-- The name of a metric in the document. -/
def Series.full (s : Series) : String := "anvilmq_client_" ++ s.name

/-- `renderPrometheus`. -/
def renderPrometheus (m : WorkerMetrics) (labels : List (String × String)) : String :=
  m.series.foldl (fun out s =>
    let out := out ++ ("# HELP " ++ s.full ++ " " ++ s.help ++ "\n")
    let out := out ++ ("# TYPE " ++ s.full ++ " " ++ s.type.text ++ "\n")
    out ++ (s.full ++ labelStr labels ++ " " ++ toString s.value ++ "\n")) ""

end AnvilMQ.Client
