import AnvilMQ.IngressLimit
import AnvilMQ.Limiter.SlidingWindow
import Mathlib.Algebra.Order.Field.Rat
import Mathlib.Tactic.FieldSimp

/-!
# What the ingress buckets count

`admit` keeps two counters and the start of a window for each facet, and a refusal writes
nothing, so the next attempt rolls an older pair.  In exact arithmetic the pair is nevertheless
the two counts of the admissions themselves: the code is the sliding-window limiter of
`SlidingWindow`, whose windows are laid from the first admission on.

The bound on a span of time is the bound of that limiter.  It is twice the limit of the rule,
and smaller only for windows at most twice as long, in milliseconds, as the limit: two full
bursts can be admitted just less than a window apart.
-/

namespace AnvilMQ

open Rust Relational

/-- An attempt at `now`: the times admitted so far and the database. -/
def admitNext (ext : Externals) (facet : String) (state : List ℤ × Db) (now : ℤ) :
    List ℤ × Db :=
  match admitIngress ext state.2 facet now with
  | none => state
  | some db => (state.1 ++ [now], db)

/-- Attempts at the given times, one after another. -/
def admitEach (ext : Externals) (facet : String) (db : Db) (times : List ℤ) : List ℤ × Db :=
  times.foldl (admitNext ext facet) ([], db)

/-- A bucket pair at `now` counts the admissions of the current window and of the one before,
for windows of length `w` laid from `first`. -/
structure BucketExact (w first now : ℤ) (log : List ℤ) (b : Bucket) : Prop where
  start : IsGreatest { s | s ≤ now ∧ ∃ k : ℤ, s = first + k * w } b.start
  current : b.current = log.countP fun t => decide (b.start ≤ t ∧ t ≤ now)
  previous : b.previous = log.countP fun t => decide (b.start - w ≤ t ∧ t < b.start)

/-- Every half-open span of the length of the window has fewer admissions than `bound`, for
every sequence of attempts at times that never go back, from any database where the rule stands
and nothing has been counted yet. -/
def SpansBelow (rule : LimitRule) (bound : ℕ) : Prop :=
  ∀ {ext : Externals} {db : Db} {facet : String} {times : List ℤ}, ext.roundF64 = id →
    db.ingressLimitRules.find? facet = some rule → db.ingressLimitCounters.find? facet = none →
    times.Pairwise (· ≤ ·) → ∀ a : ℤ,
      ((admitEach ext facet db times).1.countP fun t =>
        decide (a ≤ t ∧ t < a + rule.windowDurationMs)) < bound

/-! ## The pair is the counters of the limiter -/

section Refinement

variable {ext : Externals} {db db' : Db} {facet : String} {rule : LimitRule} {log : List ℤ}
  {now last w : ℤ} {b : Bucket}

/-- The pair holds the counts of the log at `now`. -/
abbrev Bucket.Holds (b : Bucket) (w : ℤ) (log : List ℤ) (now : ℤ) : Prop :=
  SlidingWindow.Counts w log now b.start b.current b.previous

/-- Rolling moves a right pair to a later time. -/
theorem Bucket.Holds.roll (holds : b.Holds w log last) (positive : 0 < w) (nonempty : log ≠ [])
    (past : ∀ t ∈ log, t ≤ last) (advances : last ≤ now) : (roll b now w).Holds w log now := by
  have begun := holds.start_le positive
  unfold AnvilMQ.roll
  by_cases within : now - b.start < w
  · rw [if_neg (not_le.mpr within)]
    exact holds.stay positive nonempty past advances (by linarith)
  rw [if_pos (not_lt.mp within)]
  by_cases one : (now - b.start) / w = 1
  · rw [if_pos one]
    have ends := Int.lt_ediv_add_one_mul_self (now - b.start) positive
    rw [one] at ends
    exact holds.next positive nonempty past (by linarith) (by linarith)
  · rw [if_neg one]
    -- a gap of two windows or more
    have two : 2 ≤ (now - b.start) / w := by
      have : 1 ≤ (now - b.start) / w := Int.le_ediv_of_mul_le positive (by linarith)
      omega
    have far : 2 * w ≤ now - b.start := by
      have := Int.ediv_mul_le (now - b.start) positive.ne'
      nlinarith
    have start : SlidingWindow.windowStart w (SlidingWindow.anchor log now) now =
        now - (now - b.start) % w := by
      rw [SlidingWindow.anchor_eq nonempty last now, holds.start_eq]
      exact SlidingWindow.windowStart_eq_sub_emod _
    have skipped : SlidingWindow.Counts w log now
        (SlidingWindow.windowStart w (SlidingWindow.anchor log now) now) 0 0 :=
      holds.skip positive nonempty past (by linarith)
    rw [start] at skipped
    exact skipped

/-- Counting an admission keeps the pair right. -/
theorem Bucket.Holds.count (holds : b.Holds w log now) (positive : 0 < w) :
    ({ b with current := b.current + 1 } : Bucket).Holds w (log ++ [now]) now :=
  holds.concat positive

/-- In exact arithmetic the estimate has reached the limit when the pressure has. -/
theorem le_estimate_iff (exact : ext.roundF64 = id) (positive : 0 < w)
    (holds : b.Holds w log now) (limit : ℕ) :
    (limit : ℚ) ≤ estimate ext b now w ↔ limit * w ≤ SlidingWindow.pressure w log now := by
  have begun := holds.start_le positive
  have ended := holds.lt_start_add positive
  have scale : (0 : ℚ) < w := by exact_mod_cast positive
  have started : (0 : ℚ) ≤ ((now - b.start : ℤ) : ℚ) := by exact_mod_cast sub_nonneg.mpr begun
  have ends : ((now - b.start : ℤ) : ℚ) < w := by exact_mod_cast sub_lt_iff_lt_add'.mpr ended
  -- inside the window the weight is not clamped
  have weight : max 0 (min 1 (((w : ℚ) - ((now - b.start : ℤ) : ℚ)) / w)) =
      ((w : ℚ) - ((now - b.start : ℤ) : ℚ)) / w := by
    rw [min_eq_right, max_eq_right]
    · exact div_nonneg (by linarith) scale.le
    · rw [div_le_one₀ scale]
      linarith
  have value : estimate ext b now w =
      ((b.previous * (b.start + w - now) + b.current * w : ℤ) : ℚ) / w := by
    unfold estimate
    simp only [exact, id_eq, weight]
    push_cast
    field_simp
    ring
  rw [value, holds.pressure_eq, le_div_iff₀ scale]
  exact_mod_cast Iff.rfl

/-- What the database stores for a facet whose admissions are `log`. -/
structure Metered (facet : String) (rule : LimitRule) (log : List ℤ) (db : Db) : Prop where
  ruled : db.ingressLimitRules.find? facet = some rule
  admits : SlidingWindow.Admits rule.maxJobs rule.windowDurationMs log
  stored : (log = [] ∧ db.ingressBucket facet = none) ∨
    ∃ last b, log ≠ [] ∧ last ∈ log ∧ (∀ t ∈ log, t ≤ last) ∧
      db.ingressBucket facet = some b ∧ b.Holds rule.windowDurationMs log last

/-- The pair an attempt decides on is right. -/
theorem Metered.rolled (metered : Metered facet rule log db) (positive : 0 < rule.windowDurationMs)
    (past : ∀ t ∈ log, t ≤ now) :
    (roll ((db.ingressBucket facet).getD ⟨now, 0, 0⟩) now rule.windowDurationMs).Holds
      rule.windowDurationMs log now := by
  rcases metered.stored with ⟨rfl, unstored⟩ | ⟨last, b, nonempty, mem, before, stored, holds⟩
  · rw [unstored]
    show (roll ⟨now, 0, 0⟩ now rule.windowDurationMs).Holds _ _ _
    unfold roll
    rw [if_neg (by simpa using positive)]
    exact SlidingWindow.Counts.first
  · rw [stored]
    exact holds.roll positive nonempty before (past last mem)

/-- **An attempt is a step of the limiter.** -/
theorem Metered.admitNext (metered : Metered facet rule log db) (exact : ext.roundF64 = id)
    (allows : 0 < rule.maxJobs) (positive : 0 < rule.windowDurationMs)
    (past : ∀ t ∈ log, t ≤ now) :
    ∃ db', admitNext ext facet (log, db) now =
        (SlidingWindow.attempt rule.maxJobs rule.windowDurationMs log now, db') ∧
      Metered facet rule
        (SlidingWindow.attempt rule.maxJobs rule.windowDurationMs log now) db' := by
  have holds := metered.rolled positive past
  have limit := le_estimate_iff exact positive holds rule.maxJobs
  unfold AnvilMQ.admitNext admitIngress admitBucket SlidingWindow.attempt
  simp only [metered.ruled, if_neg allows.ne', limit]
  by_cases free : SlidingWindow.pressure rule.windowDurationMs log now <
      rule.maxJobs * rule.windowDurationMs
  · simp only [if_neg (not_le.mpr free), if_pos free]
    refine ⟨_, rfl, metered.ruled, metered.admits.concat past free, .inr ⟨now, _, ?_, ?_, ?_, ?_,
      holds.count positive⟩⟩
    · simp
    · simp
    · intro t mem
      rcases List.mem_append.mp mem with older | newest
      · exact past t older
      · exact (List.mem_singleton.mp newest).le
    · unfold Db.ingressBucket
      rw [Table.find?_upsert, if_pos rfl]
      cases db.ingressLimitCounters.find? facet with
      | none => rfl
      | some counter => rfl
  · simp only [if_pos (not_lt.mp free), if_neg free]
    exact ⟨db, rfl, metered⟩

/-- A run of attempts is a run of the limiter. -/
theorem Metered.foldl_admitNext {times : List ℤ} (metered : Metered facet rule log db)
    (exact : ext.roundF64 = id) (allows : 0 < rule.maxJobs) (positive : 0 < rule.windowDurationMs)
    (ordered : times.Pairwise (· ≤ ·)) (past : ∀ t ∈ log, ∀ u ∈ times, t ≤ u) :
    ∃ db', times.foldl (AnvilMQ.admitNext ext facet) (log, db) =
        (times.foldl (SlidingWindow.attempt rule.maxJobs rule.windowDurationMs) log, db') ∧
      Metered facet rule
        (times.foldl (SlidingWindow.attempt rule.maxJobs rule.windowDurationMs) log) db' := by
  induction times generalizing log db with
  | nil => exact ⟨db, rfl, metered⟩
  | cons now times ih =>
    obtain ⟨first, ordered⟩ := List.pairwise_cons.mp ordered
    obtain ⟨db', step, metered'⟩ := metered.admitNext exact allows positive
      fun t mem => past t mem now List.mem_cons_self
    rw [List.foldl_cons, List.foldl_cons, step]
    refine ih metered' ordered fun t mem u later => ?_
    rcases SlidingWindow.mem_attempt mem with older | rfl
    · exact past t older u (List.mem_cons_of_mem now later)
    · exact first u later

/-- Nothing has been counted for a rule that was just stored. -/
theorem metered_nil (ruled : db.ingressLimitRules.find? facet = some rule)
    (fresh : db.ingressLimitCounters.find? facet = none) : Metered facet rule [] db := by
  refine ⟨ruled, .nil, .inl ⟨rfl, ?_⟩⟩
  unfold Db.ingressBucket
  rw [fresh]
  rfl

/-- A right pair at `now` is the greatest window start with the two counts after it. -/
theorem Bucket.Holds.bucketExact (holds : b.Holds w log now) (positive : 0 < w) {first : ℤ}
    (anchored : SlidingWindow.anchor log now = first) (past : ∀ t ∈ log, t ≤ now) :
    BucketExact w first now log b where
  start := by
    have started := holds.start_eq
    rw [anchored] at started
    refine ⟨⟨holds.start_le positive, (now - first) / w, started⟩, ?_⟩
    rintro s ⟨before, k, rfl⟩
    have quotient : k ≤ (now - first) / w := Int.le_ediv_of_mul_le positive (by linarith)
    have := mul_le_mul_of_nonneg_right quotient positive.le
    rw [started]
    unfold SlidingWindow.windowStart
    linarith
  current := by
    rw [holds.current_eq]
    refine congrArg Nat.cast (List.countP_congr fun t mem => ?_)
    have := past t mem
    simp only [decide_eq_true_iff]
    omega
  previous := holds.previous_eq

end Refinement

/-- **The ingress buckets count exactly.**  After any attempts at times that never go back, of
which the first is admitted, the stored pair rolled to any later time is exact, and every window
laid from the first admission has at most `max_jobs` admissions. -/
theorem ingress_buckets_exact {ext : Externals} {db : Db} {facet : String} {rule : LimitRule}
    {first now : ℤ} {rest : List ℤ} (exact : ext.roundF64 = id)
    (ruled : db.ingressLimitRules.find? facet = some rule) (allows : 0 < rule.maxJobs)
    (positive : 0 < rule.windowDurationMs) (fresh : db.ingressLimitCounters.find? facet = none)
    (ordered : (first :: rest).Pairwise (· ≤ ·)) (past : ∀ t ∈ first :: rest, t ≤ now) :
    ∃ log db' stored, admitEach ext facet db (first :: rest) = (first :: log, db') ∧
      db'.ingressBucket facet = some stored ∧
      BucketExact rule.windowDurationMs first now (first :: log)
        (roll stored now rule.windowDurationMs) ∧
      ∀ k : ℤ, ((first :: log).countP fun t =>
        decide (first + k * rule.windowDurationMs ≤ t ∧
          t < first + (k + 1) * rule.windowDurationMs)) ≤ rule.maxJobs := by
  obtain ⟨db', ran, metered⟩ := (metered_nil ruled fresh).foldl_admitNext exact allows positive
    ordered nofun
  have begins : [first] <+: (first :: rest).foldl
      (SlidingWindow.attempt rule.maxJobs rule.windowDurationMs) [] := by
    rw [List.foldl_cons, SlidingWindow.attempt_nil positive allows]
    exact SlidingWindow.prefix_foldl_attempt rest
  have before : ∀ t ∈ (first :: rest).foldl
      (SlidingWindow.attempt rule.maxJobs rule.windowDurationMs) [], t ≤ now := by
    intro t mem
    rcases SlidingWindow.mem_of_mem_foldl_attempt mem with never | mem
    · cases never
    · exact past t mem
  obtain ⟨log, same⟩ := begins
  rw [List.singleton_append] at same
  rw [← same] at metered ran before
  have rolled := metered.rolled positive before
  rcases metered.stored with ⟨never, -⟩ | ⟨last, stored, -, -, -, found, -⟩
  · cases never
  · rw [found] at rolled
    exact ⟨log, db', stored, ran, found, rolled.bucketExact positive rfl before,
      metered.admits.window_le positive now⟩

/-- A database with one ingress rule and nothing counted. -/
def ruledBy (rule : LimitRule) : Db :=
  { Db.empty with
    ingressLimitRules := ⟨[rule], List.nodup_singleton _⟩ }

theorem find?_ruledBy (rule : LimitRule) :
    (ruledBy rule).ingressLimitRules.find? rule.facetPattern = some rule :=
  Table.find?_eq_some.mpr ⟨List.mem_singleton_self rule, rfl⟩

/-- Two windows of a rule of one job in ten milliseconds, with a refusal in the first. -/
theorem buckets_exact_after_refusal :
    ∃ log db' stored, admitEach .unary "f" (ruledBy ⟨"f", 1, 10⟩) [0, 5, 19] = (0 :: log, db') ∧
      db'.ingressBucket "f" = some stored ∧
      BucketExact 10 0 25 (0 :: log) (roll stored 25 10) ∧
      ∀ k : ℤ, ((0 :: log).countP fun t =>
        decide (0 + k * 10 ≤ t ∧ t < 0 + (k + 1) * 10)) ≤ 1 :=
  ingress_buckets_exact rfl (find?_ruledBy ⟨"f", 1, 10⟩) (by decide) (by decide) rfl (by decide)
    (by decide)

/-! ## Spans -/

section Spans

variable {rule : LimitRule}

/-- The admissions of a sequence of attempts are a log of the limiter. -/
theorem admits_admitEach {ext : Externals} {db : Db} {facet : String} {times : List ℤ}
    (exact : ext.roundF64 = id) (ruled : db.ingressLimitRules.find? facet = some rule)
    (allows : 0 < rule.maxJobs) (positive : 0 < rule.windowDurationMs)
    (fresh : db.ingressLimitCounters.find? facet = none) (ordered : times.Pairwise (· ≤ ·)) :
    SlidingWindow.Admits rule.maxJobs rule.windowDurationMs (admitEach ext facet db times).1 := by
  obtain ⟨db', ran, metered⟩ := (metered_nil ruled fresh).foldl_admitNext exact allows positive
    ordered nofun
  unfold admitEach
  rw [ran]
  exact metered.admits

/-- Every log of the limiter is what some attempts are admitted at. -/
theorem admitEach_of_admits {log : List ℤ} (allows : 0 < rule.maxJobs)
    (positive : 0 < rule.windowDurationMs)
    (admits : SlidingWindow.Admits rule.maxJobs rule.windowDurationMs log)
    (ordered : log.Pairwise (· ≤ ·)) :
    (admitEach .unary rule.facetPattern (ruledBy rule) log).1 = log := by
  obtain ⟨db', ran, -⟩ := (metered_nil (find?_ruledBy rule) rfl).foldl_admitNext
    (show Externals.unary.roundF64 = id from rfl) allows positive ordered nofun
  unfold admitEach
  rw [ran]
  exact admits.foldl_attempt

/-- **Ingress spans are bounded by twice the limit**, and by less exactly when the window is at
most twice as long as the limit. -/
theorem ingress_spans_below (allows : 2 ≤ rule.maxJobs) (long : 2 ≤ rule.windowDurationMs) :
    SpansBelow rule (2 * rule.maxJobs + 1) ∧
      (SpansBelow rule (2 * rule.maxJobs) ↔ rule.windowDurationMs ≤ 2 * rule.maxJobs) := by
  have unpaused : 0 < rule.maxJobs := by omega
  have positive : 0 < rule.windowDurationMs := by omega
  refine ⟨?_, ?_, ?_⟩
  · intro ext db facet times exact ruled fresh ordered a
    exact Nat.lt_succ_of_le
      ((admits_admitEach exact ruled unpaused positive fresh ordered).span_le positive a)
  · intro below
    by_contra longer
    have admits := SlidingWindow.admits_burst unpaused (not_le.mp longer)
    have ordered := admits.ordered
    have attained := SlidingWindow.admitted_burst (not_le.mp longer)
    have bounded := below (show Externals.unary.roundF64 = id from rfl) (find?_ruledBy rule) rfl
      ordered (3 * rule.windowDurationMs - 1)
    rw [admitEach_of_admits unpaused positive admits ordered] at bounded
    exact absurd attained (ne_of_lt bounded)
  · intro short ext db facet times exact ruled fresh ordered a
    exact (admits_admitEach exact ruled unpaused positive fresh ordered).span_lt positive unpaused
      short a

/-- A window no longer than twice the limit is smoothed. -/
theorem short_window_smoothed : SpansBelow ⟨"f", 2, 4⟩ 4 :=
  (@ingress_spans_below ⟨"f", 2, 4⟩ (by decide) (by decide)).2.mpr (by decide)

/-- **A longer window is not**: two jobs in five milliseconds are allowed, and four are admitted
from 14 to 18. -/
theorem burst_fills_span :
    upsertIngressLimitRule .empty (fun _ => 0)
        { facetPattern := "f", maxJobs := 2, windowDurationMs := 5 } =
      .ok (ruledBy ⟨"f", 2, 5⟩) ∧
    (admitEach .unary "f" (ruledBy ⟨"f", 2, 5⟩) [0, 14, 14, 18, 18]).1 = [0, 14, 14, 18, 18] ∧
    ([0, 14, 14, 18, 18].countP fun t : ℤ => decide (14 ≤ t ∧ t < 14 + 5)) = 2 * 2 := by
  refine ⟨by decide +kernel, ?_, by decide⟩
  decide +kernel

end Spans

end AnvilMQ
