import AnvilMQ.Client.Prometheus
import AnvilMQ.NamedSeries
import AnvilMQ.Text.Exposition
import AnvilMQ.Text.Words

/-!
# Label values in the metrics

A job name is a label value that a producer chooses, and it is written into a text that a scraper
reads line by line.  The replacements of `escape_label` come to the escaping of the format, in the
order of the broker as in that of the client, so that a scraper reads the samples that were meant.
-/

namespace AnvilMQ

open Text Exposition

/-! ## Escaping -/

/-- What the replacements make of one character. -/
theorem labelEscaping_write (c : Char) :
    labelEscaping.write c =
      if c = '\\' then ['\\', '\\'] else if c = '\n' then ['\\', 'n']
      else if c = '"' then ['\\', '"'] else [c] := by
  rw [Escaping.write]
  dsimp only [labelEscaping]
  split_ifs <;> rfl

/-- Three replacements one after the other, character by character. -/
theorem replaceAll_thrice (a b c : Char) (u v w s : List Char) :
    replaceAll c w (replaceAll b v (replaceAll a u s)) =
      s.flatMap fun d => replaceAll c w (replaceAll b v (if d = a then u else [d])) := by
  have first : replaceAll a u s = s.flatMap fun d => if d = a then u else [d] := rfl
  rw [first, replaceAll_flatMap, replaceAll_flatMap]

/-- **The replacements of the broker** are the escaping of the format. -/
theorem toList_escapeLabel (v : String) :
    (escapeLabel v).toList = labelEscaping.escape v.toList := by
  rw [escapeLabel, String.toList_ofList, replaceAll_thrice, Escaping.escape]
  congr 1
  funext c
  rw [labelEscaping_write]
  -- the backslashes of the later replacements come after those of the value are doubled
  by_cases backslash : c = '\\'
  · rw [backslash]
    rfl
  by_cases newline : c = '\n'
  · rw [newline]
    rfl
  simp [replaceAll, backslash, newline]

/-- **The replacements of the client** are, too. -/
theorem Client.toList_escapeValue (v : String) :
    (Client.escapeValue v).toList = labelEscaping.escape v.toList := by
  rw [Client.escapeValue, String.toList_ofList, replaceAll_thrice, Escaping.escape]
  congr 1
  funext c
  rw [labelEscaping_write]
  by_cases backslash : c = '\\'
  · rw [backslash]
    rfl
  by_cases quote : c = '"'
  · rw [quote]
    rfl
  by_cases newline : c = '\n'
  · rw [newline]
    rfl
  simp [replaceAll, backslash, newline, quote]

/-! ## Documents -/

/-- Appending piece by piece. -/
theorem toList_foldl_append {α : Type} {append : String → α → String} {piece : α → List Char}
    {l : List α} (appends : ∀ a ∈ l, ∀ out, (append out a).toList = out.toList ++ piece a)
    (out : String) : (l.foldl append out).toList = out.toList ++ l.flatMap piece := by
  induction l generalizing out with
  | nil => simp
  | cons a l ih =>
    rw [List.foldl_cons, ih fun b mem => appends b (List.mem_cons_of_mem a mem),
      appends a List.mem_cons_self, List.flatMap_cons, List.append_assoc]

theorem newline_notMem_toString (n : ℕ) : '\n' ∉ (toString n).toList := by
  rw [Nat.toString_eq_ofList_toDigits, String.toList_ofList]
  intro mem
  cases Nat.isDigit_of_mem_toDigits (by decide) (by decide) mem

namespace SecondsText

variable (seconds : SecondsText)

theorem newline_notMem (ms : ℕ) : '\n' ∉ (seconds.text ms).toList := by
  intro mem
  rcases seconds.plain ms _ mem with digit | point
  · cases digit
  · cases point

/-- The text of a duration is a plain word. -/
theorem isPlain_text (ms : ℕ) : isPlain (seconds.text ms).toList = true := by
  refine List.all_eq_true.mpr fun c mem => Option.isNone_iff_eq_none.mpr ?_
  dsimp only [labelEscaping]
  rcases seconds.plain ms c mem with digit | point
  · have backslash : c ≠ '\\' := by
      rintro rfl
      cases digit
    have newline : c ≠ '\n' := by
      rintro rfl
      cases digit
    have quote : c ≠ '"' := by
      rintro rfl
      cases digit
    rw [if_neg backslash, if_neg newline, if_neg quote]
  · rw [point]
    rfl

end SecondsText

/-! ## The document of the broker -/

/-- A counter of a job name. -/
def eventSample (name event : String) (n : ℕ) : Sample where
  metric := "anvilmq_jobs_by_name_total".toList
  labels := [("name".toList, name.toList), ("event".toList, event.toList)]
  value := (toString n).toList

/-- The counters of a job name. -/
def eventSamples (name : String) (s : NamedSeries) : List Sample :=
  (namedEvents.zip s.events.toList).map fun (event, n) => eventSample name event n

/-- A bucket of the histogram of a job name. -/
def bucketSample (name le : String) (n : ℕ) : Sample where
  metric := "anvilmq_job_duration_seconds_bucket".toList
  labels := [("name".toList, name.toList), ("le".toList, le.toList)]
  value := (toString n).toList

/-- The total or the sum of the histogram of a job name. -/
def totalSample (metric name value : String) : Sample where
  metric := metric.toList
  labels := [("name".toList, name.toList)]
  value := value.toList

/-- The histogram of a job name. -/
def durationSamples (seconds : SecondsText) (name : String) (h : DurationHistogram) :
    List Sample :=
  (durationBoundsMs.zip h.buckets.toList).map
      (fun (bound, n) => bucketSample name (seconds.text bound) n) ++
    [bucketSample name "+Inf" h.count,
      totalSample "anvilmq_job_duration_seconds_count" name (toString h.count),
      totalSample "anvilmq_job_duration_seconds_sum" name (seconds.text h.millis)]

/-- The samples of all job names. -/
def namedSamples (seconds : SecondsText) (series : List (String × NamedSeries)) : List Sample :=
  (series.flatMap fun (name, s) => eventSamples name s) ++
    series.flatMap fun (name, s) => durationSamples seconds name s.duration

/-- The comment on the counters. -/
def countersHelp : String :=
  " HELP anvilmq_jobs_by_name_total " ++
    "Committed lifecycle events since process start, per job name."

/-- The comment on the histograms. -/
def durationsHelp : String :=
  " HELP anvilmq_job_duration_seconds " ++
    "Enqueue to terminal (completed or exhausted-failed) latency by name; " ++
    "includes queue wait, retries, and backoff."

/-- The lines of all job names. -/
def namedLines (seconds : SecondsText) (series : List (String × NamedSeries)) : List Line :=
  [.comment countersHelp.toList, .comment " TYPE anvilmq_jobs_by_name_total counter".toList] ++
  (series.flatMap fun (name, s) => eventSamples name s).map .sample ++
  [.comment durationsHelp.toList,
    .comment " TYPE anvilmq_job_duration_seconds histogram".toList] ++
  (series.flatMap fun (name, s) => durationSamples seconds name s.duration).map .sample

/-- The text of a sample with one label. -/
theorem write_one (metric k v value : List Char) :
    Sample.write ⟨metric, [(k, v)], value⟩ =
      metric ++ (['{'] ++ (k ++ (['=', '"'] ++ (labelEscaping.escape v ++ (['"'] ++
        (['}', ' '] ++ (value ++ ['\n']))))))) := by
  simp [Sample.write, writeLabels, writeLabel]

/-- The text of a sample with two labels. -/
theorem write_two (metric k v k' v' value : List Char) :
    Sample.write ⟨metric, [(k, v), (k', v')], value⟩ =
      metric ++ (['{'] ++ (k ++ (['=', '"'] ++ (labelEscaping.escape v ++ (['"'] ++ ([','] ++
        (k' ++ (['=', '"'] ++ (labelEscaping.escape v' ++ (['"'] ++
          (['}', ' '] ++ (value ++ ['\n'])))))))))))) := by
  simp [Sample.write, writeLabels, writeLabel]

/-! The format strings are cut where the pieces of a sample are. -/

theorem toList_brace : "\x7b".toList = ['{'] := rfl

theorem toList_equals : "=\"".toList = ['=', '"'] := rfl

theorem toList_quote : "\"".toList = ['"'] := rfl

theorem toList_comma : ",".toList = [','] := rfl

theorem toList_close : "\x7d ".toList = ['}', ' '] := rfl

theorem toList_newline : "\n".toList = ['\n'] := rfl

theorem toList_eventLine {event : String} (name : String) (n : ℕ)
    (plain : isPlain event.toList = true) :
    ("anvilmq_jobs_by_name_total\x7bname=\"" ++ escapeLabel name ++ "\",event=\"" ++ event ++
      "\"\x7d " ++ toString n ++ "\n").toList = (eventSample name event n).write := by
  have head : "anvilmq_jobs_by_name_total\x7bname=\"" =
      "anvilmq_jobs_by_name_total" ++ "\x7b" ++ "name" ++ "=\"" := by simp
  have middle : "\",event=\"" = "\"" ++ "," ++ "event" ++ "=\"" := by simp
  have tail : "\"\x7d " = "\"" ++ "\x7d " := by simp
  unfold eventSample
  rw [write_two, escape_of_plain plain, head, middle, tail]
  -- the literals stay apart, so that both sides are the same pieces one after the other
  simp only [-String.reduceAppend, String.toList_append, toList_escapeLabel, List.append_assoc,
    toList_brace, toList_equals, toList_quote, toList_comma, toList_close, toList_newline]

theorem toList_bucketLine {le : String} (name : String) (n : ℕ)
    (plain : isPlain le.toList = true) :
    ("anvilmq_job_duration_seconds" ++ "_bucket\x7b" ++ ("name=\"" ++ escapeLabel name ++ "\"") ++
      ",le=\"" ++ le ++ "\"\x7d " ++ toString n ++ "\n").toList =
      (bucketSample name le n).write := by
  have head : "anvilmq_job_duration_seconds" ++ "_bucket\x7b" =
      "anvilmq_job_duration_seconds_bucket" ++ "\x7b" := by simp
  have label : "name=\"" = "name" ++ "=\"" := by simp
  have middle : ",le=\"" = "," ++ "le" ++ "=\"" := by simp
  have tail : "\"\x7d " = "\"" ++ "\x7d " := by simp
  unfold bucketSample
  rw [write_two, escape_of_plain plain, head, label, middle, tail]
  simp only [-String.reduceAppend, String.toList_append, toList_escapeLabel, List.append_assoc,
    toList_brace, toList_equals, toList_quote, toList_comma, toList_close, toList_newline]

theorem toList_totalLine (metric name value : String) :
    (metric ++ "\x7b" ++ ("name=\"" ++ escapeLabel name ++ "\"") ++ "\x7d " ++ value ++
      "\n").toList = (totalSample metric name value).write := by
  have label : "name=\"" = "name" ++ "=\"" := by simp
  unfold totalSample
  rw [write_one, label]
  simp only [-String.reduceAppend, String.toList_append, toList_escapeLabel, List.append_assoc,
    toList_brace, toList_equals, toList_quote, toList_close, toList_newline]

theorem write_comment (text : String) :
    (Line.comment text.toList).write = "#".toList ++ (text.toList ++ "\n".toList) := rfl

/-- The counters of a job name, line by line. -/
theorem toList_events (name : String) (s : NamedSeries) (out : String) :
    ((namedEvents.zip s.events.toList).foldl (fun out (event, n) =>
      out ++ ("anvilmq_jobs_by_name_total\x7bname=\"" ++ escapeLabel name ++ "\",event=\"" ++
        event ++ "\"\x7d " ++ toString n ++ "\n")) out).toList =
      out.toList ++ (eventSamples name s).flatMap Sample.write := by
  have plain : ∀ event ∈ namedEvents, isPlain event.toList = true := by decide
  rw [eventSamples, List.flatMap_map]
  refine toList_foldl_append ?_ out
  rintro ⟨event, n⟩ mem out
  rw [String.toList_append, toList_eventLine name n (plain event (List.of_mem_zip mem).1)]

/-- The buckets of a job name, line by line. -/
theorem toList_buckets (seconds : SecondsText) (h : DurationHistogram) (name out : String) :
    ((durationBoundsMs.zip h.buckets.toList).foldl (fun out (bound, n) =>
      out ++ ("anvilmq_job_duration_seconds" ++ "_bucket\x7b" ++
        ("name=\"" ++ escapeLabel name ++ "\"") ++ ",le=\"" ++ seconds.text bound ++ "\"\x7d " ++
        toString n ++ "\n")) out).toList =
      out.toList ++ (durationBoundsMs.zip h.buckets.toList).flatMap fun (bound, n) =>
        (bucketSample name (seconds.text bound) n).write := by
  refine toList_foldl_append ?_ out
  rintro ⟨bound, n⟩ - out
  rw [String.toList_append, toList_bucketLine name n (seconds.isPlain_text bound)]

/-- The other lines of the histogram. -/
theorem toList_totals (seconds : SecondsText) (h : DurationHistogram) (name : String) :
    ("anvilmq_job_duration_seconds" ++ "_bucket\x7b" ++ ("name=\"" ++ escapeLabel name ++ "\"") ++
      ",le=\"+Inf\"\x7d " ++ toString h.count ++ "\n" ++
      "anvilmq_job_duration_seconds" ++ "_count\x7b" ++ ("name=\"" ++ escapeLabel name ++ "\"") ++
      "\x7d " ++ toString h.count ++ "\n" ++
      "anvilmq_job_duration_seconds" ++ "_sum\x7b" ++ ("name=\"" ++ escapeLabel name ++ "\"") ++
      "\x7d " ++ seconds.text h.millis ++ "\n").toList =
      (bucketSample name "+Inf" h.count).write ++
        ((totalSample "anvilmq_job_duration_seconds_count" name (toString h.count)).write ++
          (totalSample "anvilmq_job_duration_seconds_sum" name (seconds.text h.millis)).write) := by
  have inf : ",le=\"+Inf\"\x7d " = ",le=\"" ++ "+Inf" ++ "\"\x7d " := by simp
  have count : "anvilmq_job_duration_seconds_count" ++ "\x7b" =
      "anvilmq_job_duration_seconds" ++ "_count\x7b" := by simp
  have sum : "anvilmq_job_duration_seconds_sum" ++ "\x7b" =
      "anvilmq_job_duration_seconds" ++ "_sum\x7b" := by simp
  have plain : isPlain "+Inf".toList = true := by decide
  rw [← toList_bucketLine name h.count plain, ← toList_totalLine, ← toList_totalLine, count, sum,
    inf, ← String.toList_append, ← String.toList_append]
  simp only [-String.reduceAppend, String.append_assoc]

/-- The histogram of a job name, line by line. -/
theorem toList_render (seconds : SecondsText) (h : DurationHistogram) (name out : String) :
    (h.render seconds "anvilmq_job_duration_seconds" ("name=\"" ++ escapeLabel name ++ "\"")
      out).toList = out.toList ++ (durationSamples seconds name h).flatMap Sample.write := by
  have buckets := toList_buckets seconds h name out
  have totals := toList_totals seconds h name
  unfold DurationHistogram.render durationSamples
  rw [String.toList_append, buckets, totals, List.flatMap_append, List.flatMap_map,
    List.append_assoc]
  simp only [List.flatMap_cons, List.flatMap_nil, List.append_nil]

theorem flatMap_write_samples (samples : List Sample) :
    (samples.map Line.sample).flatMap Line.write = samples.flatMap Sample.write := by
  rw [List.flatMap_map]
  rfl

/-- The document of the broker is made of its lines. -/
theorem toList_renderNamedSeries (seconds : SecondsText) (series : List (String × NamedSeries)) :
    (renderNamedSeries seconds series "").toList =
      (namedLines seconds series).flatMap Line.write := by
  have counters (out : String) : (series.foldl (fun out (name, s) =>
      (namedEvents.zip s.events.toList).foldl (fun out (event, n) =>
        out ++ ("anvilmq_jobs_by_name_total\x7bname=\"" ++ escapeLabel name ++ "\",event=\"" ++
          event ++ "\"\x7d " ++ toString n ++ "\n")) out) out).toList =
      out.toList ++ (series.flatMap fun (name, s) => eventSamples name s).flatMap Sample.write := by
    rw [List.flatMap_assoc]
    exact toList_foldl_append (fun (name, s) _ out => toList_events name s out) out
  have durations (out : String) : (series.foldl (fun out (name, s) =>
      s.duration.render seconds "anvilmq_job_duration_seconds"
        ("name=\"" ++ escapeLabel name ++ "\"") out) out).toList =
      out.toList ++ (series.flatMap fun (name, s) =>
        durationSamples seconds name s.duration).flatMap Sample.write := by
    rw [List.flatMap_assoc]
    exact toList_foldl_append (fun (name, s) _ out => toList_render seconds s.duration name out) out
  have help₁ : "# HELP anvilmq_jobs_by_name_total " =
      "#" ++ " HELP anvilmq_jobs_by_name_total " := by simp
  have end₁ : "Committed lifecycle events since process start, per job name.\n" =
      "Committed lifecycle events since process start, per job name." ++ "\n" := by simp
  have type₁ : "# TYPE anvilmq_jobs_by_name_total counter\n" =
      "#" ++ " TYPE anvilmq_jobs_by_name_total counter" ++ "\n" := by simp
  have help₂ : "# HELP anvilmq_job_duration_seconds " =
      "#" ++ " HELP anvilmq_job_duration_seconds " := by simp
  have end₂ : "includes queue wait, retries, and backoff.\n" =
      "includes queue wait, retries, and backoff." ++ "\n" := by simp
  have type₂ : "# TYPE anvilmq_job_duration_seconds histogram\n" =
      "#" ++ " TYPE anvilmq_job_duration_seconds histogram" ++ "\n" := by simp
  -- a definition whose body has literals is unfolded: rewriting with it would evaluate them
  unfold renderNamedSeries namedLines countersHelp durationsHelp
  rw [durations, String.toList_append, counters, String.toList_append, help₁, end₁, type₁, help₂,
    end₂, type₂]
  simp only [-String.reduceAppend, List.flatMap_append, flatMap_write_samples, List.flatMap_cons,
    List.flatMap_nil, List.append_nil, write_comment]
  simp only [-String.reduceAppend, String.toList_append, String.toList_empty, List.nil_append,
    List.append_assoc]

theorem isName_name : IsName "name".toList := by decide

theorem isName_event : IsName "event".toList := by decide

theorem isName_le : IsName "le".toList := by decide

theorem isName_jobsByName : IsName "anvilmq_jobs_by_name_total".toList := isName_ofList (by decide)

theorem isName_bucket : IsName "anvilmq_job_duration_seconds_bucket".toList :=
  isName_ofList (by decide)

theorem isName_count : IsName "anvilmq_job_duration_seconds_count".toList :=
  isName_ofList (by decide)

theorem isName_sum : IsName "anvilmq_job_duration_seconds_sum".toList := isName_ofList (by decide)

theorem eventSample_valid (name event : String) (n : ℕ) : (eventSample name event n).Valid where
  metric := isName_jobsByName
  labels := by
    intro l mem
    rcases List.mem_pair.mp mem with rfl | rfl
    · exact isName_name
    · exact isName_event
  value := newline_notMem_toString n

theorem bucketSample_valid (name le : String) (n : ℕ) : (bucketSample name le n).Valid where
  metric := isName_bucket
  labels := by
    intro l mem
    rcases List.mem_pair.mp mem with rfl | rfl
    · exact isName_name
    · exact isName_le
  value := newline_notMem_toString n

theorem totalSample_valid {metric : String} (name : String) {value : String}
    (isName : IsName metric.toList) (within : '\n' ∉ value.toList) :
    (totalSample metric name value).Valid where
  metric := isName
  labels := by
    intro l mem
    rw [List.mem_singleton.mp mem]
    exact isName_name
  value := within

theorem eventSamples_valid {name : String} {series : NamedSeries} {s : Sample}
    (mem : s ∈ eventSamples name series) : s.Valid := by
  obtain ⟨⟨event, n⟩, -, rfl⟩ := List.mem_map.mp mem
  exact eventSample_valid name event n

theorem durationSamples_valid {seconds : SecondsText} {name : String} {h : DurationHistogram}
    {s : Sample} (mem : s ∈ durationSamples seconds name h) : s.Valid := by
  unfold durationSamples at mem
  rcases List.mem_append.mp mem with bucket | total
  · obtain ⟨⟨bound, n⟩, -, rfl⟩ := List.mem_map.mp bucket
    exact bucketSample_valid name (seconds.text bound) n
  · simp only [List.mem_cons, List.not_mem_nil, or_false] at total
    rcases total with rfl | rfl | rfl
    · exact bucketSample_valid name "+Inf" h.count
    · exact totalSample_valid name isName_count (newline_notMem_toString h.count)
    · exact totalSample_valid name isName_sum (seconds.newline_notMem h.millis)

theorem newline_notMem_append {a b : String} (within : '\n' ∉ a.toList)
    (within' : '\n' ∉ b.toList) : '\n' ∉ (a ++ b).toList := by
  rw [String.toList_append, List.mem_append, not_or]
  exact ⟨within, within'⟩

theorem newline_notMem_countersHelp : '\n' ∉ countersHelp.toList :=
  newline_notMem_append (newline_notMem_ofList (by decide)) (newline_notMem_ofList (by decide))

theorem newline_notMem_durationsHelp : '\n' ∉ durationsHelp.toList :=
  newline_notMem_append
    (newline_notMem_append (newline_notMem_ofList (by decide)) (newline_notMem_ofList (by decide)))
    (newline_notMem_ofList (by decide))

theorem namedLines_valid (seconds : SecondsText) (series : List (String × NamedSeries)) :
    ∀ line ∈ namedLines seconds series, line.Valid := by
  unfold namedLines
  simp only [List.forall_mem_append, List.forall_mem_cons, List.forall_mem_map, List.mem_flatMap]
  refine ⟨⟨⟨⟨?_, ?_, by simp⟩, ?_⟩, ?_, ?_, by simp⟩, ?_⟩
  · exact newline_notMem_countersHelp
  · exact newline_notMem_ofList (by decide)
  · rintro s ⟨⟨name, values⟩, -, mem⟩
    exact eventSamples_valid mem
  · exact newline_notMem_durationsHelp
  · exact newline_notMem_ofList (by decide)
  · rintro s ⟨⟨name, values⟩, -, mem⟩
    exact durationSamples_valid mem

theorem filterMap_sample_map (samples : List Sample) :
    (samples.map Line.sample).filterMap Line.sample? = samples := by
  rw [List.filterMap_map]
  exact List.filterMap_some

/-- **The document of the broker is read as the samples of its job names**, whatever the names. -/
theorem read_renderNamedSeries (seconds : SecondsText) (series : List (String × NamedSeries)) :
    read (renderNamedSeries seconds series "").toList = some (namedSamples seconds series) := by
  rw [toList_renderNamedSeries, read_document (namedLines_valid seconds series)]
  unfold namedLines namedSamples
  simp only [List.filterMap_append, filterMap_sample_map, List.filterMap_cons, Line.sample?,
    List.filterMap_nil, List.nil_append, List.append_nil]

/-! ## The document of a worker -/

namespace Client

/-- The labels of a worker. -/
def labelsOf (entries : List (String × String)) : List Label :=
  entries.map fun (k, v) => (k.toList, v.toList)

/-- The sample of a series. -/
def Series.sample (s : Series) (entries : List (String × String)) : Sample where
  metric := s.full.toList
  labels := labelsOf entries
  value := (toString s.value).toList

/-- The samples of a worker. -/
def workerSamples (m : WorkerMetrics) (entries : List (String × String)) : List Sample :=
  m.series.map fun s => s.sample entries

/-- The lines of a series. -/
def Series.lines (s : Series) (entries : List (String × String)) : List Line :=
  [.comment (" HELP " ++ s.full ++ " " ++ s.help).toList,
    .comment (" TYPE " ++ s.full ++ " " ++ s.type.text).toList, .sample (s.sample entries)]

theorem toList_label (k v : String) :
    (k ++ "=\"" ++ escapeValue v ++ "\"").toList = writeLabel (k.toList, v.toList) := by
  simp [String.toList_append, toList_escapeValue, writeLabel]

/-- The client writes labels as the format does. -/
theorem toList_labelStr (entries : List (String × String)) :
    (labelStr entries).toList = writeLabels (labelsOf entries) := by
  cases entries with
  | nil => rfl
  | cons entry entries =>
    have written : (entry :: entries).map
        (fun (k, v) => (k ++ "=\"" ++ escapeValue v ++ "\"").toList) =
        (labelsOf (entry :: entries)).map writeLabel := by
      rw [labelsOf, List.map_map]
      exact List.map_congr_left fun (k, v) _ => toList_label k v
    have labelled : ¬ (entry :: entries).length = 0 := Nat.succ_ne_zero _
    have last : "\x7d".toList = ['}'] := rfl
    rw [labelStr, if_neg labelled, written, String.toList_append, String.toList_append,
      toList_brace, last, String.toList_ofList, labelsOf, List.map_cons, List.map_cons,
      intercalate_cons, List.flatMap_map, writeLabels]
    simp only [List.cons_append, List.nil_append]

/-- A series, line by line. -/
theorem toList_series (s : Series) (entries : List (String × String)) (out : String) :
    (out ++ ("# HELP " ++ s.full ++ " " ++ s.help ++ "\n") ++
      ("# TYPE " ++ s.full ++ " " ++ s.type.text ++ "\n") ++
      (s.full ++ labelStr entries ++ " " ++ toString s.value ++ "\n")).toList =
      out.toList ++ (s.lines entries).flatMap Line.write := by
  have help : "# HELP " = "#" ++ " HELP " := by simp
  have type : "# TYPE " = "#" ++ " TYPE " := by simp
  have sample : (Line.sample (s.sample entries)).write = s.full.toList ++
      (writeLabels (labelsOf entries) ++ (" ".toList ++ ((toString s.value).toList ++
        "\n".toList))) := List.append_assoc _ _ _
  unfold Series.lines
  rw [help, type]
  simp only [-String.reduceAppend, List.flatMap_cons, List.flatMap_nil, List.append_nil,
    write_comment, sample]
  simp only [-String.reduceAppend, String.toList_append, toList_labelStr, List.append_assoc]

/-- What is written of a series without escaping. -/
theorem series_texts {m : WorkerMetrics} {s : Series} (mem : s ∈ m.series) :
    IsName s.name.toList ∧ '\n' ∉ s.help.toList := by
  simp only [WorkerMetrics.series, List.mem_cons, List.not_mem_nil, or_false] at mem
  rcases mem with rfl | rfl | rfl | rfl | rfl | rfl | rfl
  all_goals exact ⟨isName_ofList (by decide), newline_notMem_ofList (by decide)⟩

theorem isName_full {m : WorkerMetrics} {s : Series} (mem : s ∈ m.series) :
    IsName s.full.toList := by
  have front : IsName "anvilmq_client_".toList := isName_ofList (by decide)
  have split : s.full.toList = "anvilmq_client_".toList ++ s.name.toList := String.toList_append
  rw [split]
  exact front.append (series_texts mem).1

theorem lines_valid {m : WorkerMetrics} {s : Series} (mem : s ∈ m.series)
    {entries : List (String × String)} (names : ∀ l ∈ entries, IsName l.1.toList) :
    ∀ line ∈ s.lines entries, line.Valid := by
  have isName := isName_full mem
  have full : '\n' ∉ s.full.toList := isName.notMem rfl
  have blank : '\n' ∉ " ".toList := by decide
  simp only [Series.lines, List.forall_mem_cons, Line.Valid, String.toList_append,
    List.mem_append, not_or]
  refine ⟨⟨⟨⟨by decide, full⟩, blank⟩, (series_texts mem).2⟩, ⟨⟨⟨by decide, full⟩, blank⟩, ?_⟩,
    ⟨isName, ?_, newline_notMem_toString s.value⟩, by simp⟩
  · cases s.type <;> decide
  · intro l isLabel
    obtain ⟨⟨k, v⟩, isEntry, rfl⟩ := List.mem_map.mp isLabel
    exact names (k, v) isEntry

/-- **The document of a worker is read as its samples**, whatever the values of its labels. -/
theorem read_renderPrometheus (m : WorkerMetrics) {entries : List (String × String)}
    (names : ∀ l ∈ entries, IsName l.1.toList) :
    read (renderPrometheus m entries).toList = some (workerSamples m entries) := by
  have written : (renderPrometheus m entries).toList =
      (m.series.flatMap fun s => s.lines entries).flatMap Line.write := by
    unfold renderPrometheus
    rw [toList_foldl_append fun s _ out => toList_series s entries out, String.toList_empty,
      List.nil_append, List.flatMap_assoc]
  have samples : (m.series.flatMap fun s => s.lines entries).filterMap Line.sample? =
      workerSamples m entries := by
    have one (s : Series) : (s.lines entries).filterMap Line.sample? = [s.sample entries] := rfl
    rw [List.filterMap_flatMap, workerSamples, List.map_eq_flatMap]
    simp only [one]
  rw [written, read_document, samples]
  intro line mem
  obtain ⟨s, isSeries, isLine⟩ := List.mem_flatMap.mp mem
  exact lines_valid isSeries names line isLine

end Client

/-! ## Label values -/

/-- **Label escaping is injective and safe.**  A value is written without a newline and without a
quote that is not escaped, it is read back, and the client writes it as the broker does; a document
is read as the samples that were meant, whatever the job names and label values, so that no value
makes up a series or joins two of them. -/
theorem label_escaping_safe :
    (∀ v : String,
      '\n' ∉ (escapeLabel v).toList ∧
      (∃ seen, scan '\\' (escapeLabel v).toList = some seen ∧ (false, '"') ∉ seen) ∧
      labelEscaping.decode (escapeLabel v).toList = some v.toList ∧
      Client.escapeValue v = escapeLabel v) ∧
    (∀ seconds series,
      read (renderNamedSeries seconds series "").toList = some (namedSamples seconds series)) ∧
    (∀ m entries, (∀ l ∈ entries, IsName l.1.toList) →
      read (Client.renderPrometheus m entries).toList = some (Client.workerSamples m entries)) := by
  refine ⟨fun v => ?_, read_renderNamedSeries, fun m entries => Client.read_renderPrometheus m⟩
  have written := toList_escapeLabel v
  have same : (Client.escapeValue v).toList = (escapeLabel v).toList := by
    rw [written, Client.toList_escapeValue]
  rw [written]
  exact ⟨labelEscaping_newline.not_mem_escape rfl v.toList,
    ⟨_, labelEscaping.scan_escape v.toList, labelEscaping.special_unread rfl v.toList⟩,
    labelEscaping.decode_escape v.toList, String.toList_inj.mp same⟩

/-- A value that would end its label and its line. -/
theorem hostile_value_safe :
    (∀ l ∈ [("queue", "a\"\x7d 1\nb\\")], IsName l.1.toList) ∧
      read (Client.renderPrometheus ⟨0, 0, 0, 0, 0, 0, 1⟩
        [("queue", "a\"\x7d 1\nb\\")]).toList =
        some (Client.workerSamples ⟨0, 0, 0, 0, 0, 0, 1⟩ [("queue", "a\"\x7d 1\nb\\")]) :=
  ⟨by decide, label_escaping_safe.2.2 _ _ (by decide)⟩

end AnvilMQ
