import Mathlib.Algebra.Order.Group.Int
import Mathlib.Data.List.Induction
import Mathlib.Tactic.Linarith
import Mathlib.Tactic.Ring

/-!
# Sliding-window limiters

A sliding-window limiter looks at what it let through in two adjacent windows of one length:
the window the clock is in, and the one before.  The earlier window counts in proportion to
how much of it a window that ends now would still cover.  Windows are laid end to end from the
first admission on.

The limiter is given here by the log of its admissions alone: what it lets through next is a
function of the log, and a pair of stored counters is right when it holds the two counts of the
log.
-/

namespace SlidingWindow

/-- The start of the window `now` lies in, for windows of length `w` laid from `anchor`. -/
def windowStart (w anchor now : ℤ) : ℤ := anchor + (now - anchor) / w * w

/-- The admissions of the log from `a` on and before `b`. -/
def admitted (log : List ℤ) (a b : ℤ) : ℕ := log.countP fun t => decide (a ≤ t ∧ t < b)

/-- The first admission of the log; the next one when there is none. -/
def anchor (log : List ℤ) (now : ℤ) : ℤ := log.headD now

/-- The weighted count at `now`, in units of one admission over the length of a window. -/
def pressure (w : ℤ) (log : List ℤ) (now : ℤ) : ℤ :=
  let start := windowStart w (anchor log now) now
  admitted log (start - w) start * (start + w - now) + admitted log start (now + 1) * w

/-- The logs of a limiter: each admission comes after the others, at a pressure below the
limit. -/
inductive Admits (limit : ℕ) (w : ℤ) : List ℤ → Prop
  | nil : Admits limit w []
  | concat {log : List ℤ} {now : ℤ} :
      Admits limit w log → (∀ t ∈ log, t ≤ now) → pressure w log now < limit * w →
        Admits limit w (log ++ [now])

/-- An attempt at `now`: it is admitted when the pressure is below the limit. -/
def attempt (limit : ℕ) (w : ℤ) (log : List ℤ) (now : ℤ) : List ℤ :=
  if pressure w log now < limit * w then log ++ [now] else log

/-- Stored counters hold the counts of the log for the window `now` lies in. -/
structure Counts (w : ℤ) (log : List ℤ) (now start current previous : ℤ) : Prop where
  start_eq : start = windowStart w (anchor log now) now
  current_eq : current = admitted log start (now + 1)
  previous_eq : previous = admitted log (start - w) start

/-! ## Windows -/

section Window

variable {w anchor now : ℤ}

theorem windowStart_le (positive : 0 < w) : windowStart w anchor now ≤ now := by
  unfold windowStart
  have := Int.ediv_mul_le (now - anchor) positive.ne'
  linarith

theorem lt_windowStart_add (positive : 0 < w) : now < windowStart w anchor now + w := by
  unfold windowStart
  have := Int.lt_ediv_add_one_mul_self (now - anchor) positive
  linarith

/-- The window of a time is the only one it lies in. -/
theorem windowStart_eq (positive : 0 < w) {k : ℤ} (starts : anchor + k * w ≤ now)
    (ends : now < anchor + (k + 1) * w) : windowStart w anchor now = anchor + k * w := by
  have quotient : (now - anchor) / w = k := by
    refine le_antisymm (Int.lt_add_one_iff.mp (Int.ediv_lt_of_lt_mul positive ?_))
      (Int.le_ediv_of_mul_le positive ?_)
    · linarith
    · linarith
  unfold windowStart
  rw [quotient]

@[simp] theorem windowStart_self : windowStart w now now = now := by
  unfold windowStart
  rw [sub_self, Int.zero_ediv, zero_mul, add_zero]

/-- The start of the window, from the start of another one. -/
theorem windowStart_eq_sub_emod (k : ℤ) :
    windowStart w anchor now = now - (now - (anchor + k * w)) % w := by
  have same : (now - (anchor + k * w)) % w = (now - anchor) % w := by
    rw [← sub_sub, Int.sub_mul_emod_self_right]
  unfold windowStart
  rw [same, Int.emod_def]
  ring

end Window

/-! ## Counting -/

section Counting

variable {log : List ℤ} {a b c now : ℤ}

@[simp] theorem admitted_nil : admitted [] a b = 0 := rfl

theorem admitted_append (first second : List ℤ) :
    admitted (first ++ second) a b = admitted first a b + admitted second a b :=
  List.countP_append

theorem admitted_concat :
    admitted (log ++ [now]) a b = admitted log a b + if a ≤ now ∧ now < b then 1 else 0 := by
  rw [admitted_append]
  unfold admitted
  rw [List.countP_singleton]
  simp only [decide_eq_true_eq]

theorem admitted_concat_of_mem (inside : a ≤ now ∧ now < b) :
    admitted (log ++ [now]) a b = admitted log a b + 1 := by
  rw [admitted_concat, if_pos inside]

theorem admitted_concat_of_notMem (outside : ¬ (a ≤ now ∧ now < b)) :
    admitted (log ++ [now]) a b = admitted log a b := by
  rw [admitted_concat, if_neg outside, add_zero]

theorem admitted_eq_zero (outside : ∀ t ∈ log, ¬ (a ≤ t ∧ t < b)) : admitted log a b = 0 := by
  unfold admitted
  rw [List.countP_eq_zero]
  intro t mem inside
  exact outside t mem (of_decide_eq_true inside)

/-- Two intervals with the same admissions of the log count the same. -/
theorem admitted_congr {a' b' : ℤ} (same : ∀ t ∈ log, (a ≤ t ∧ t < b) ↔ a' ≤ t ∧ t < b') :
    admitted log a b = admitted log a' b' := by
  unfold admitted
  refine List.countP_congr fun t mem => ?_
  rw [decide_eq_true_iff, decide_eq_true_iff]
  exact same t mem

theorem admitted_mono {a' b' : ℤ} (left : a' ≤ a) (right : b ≤ b') :
    admitted log a b ≤ admitted log a' b' := by
  unfold admitted
  refine List.countP_mono_left fun t _ inside => ?_
  have := of_decide_eq_true inside
  exact decide_eq_true ⟨left.trans this.1, this.2.trans_le right⟩

/-- An interval splits at a point of it. -/
theorem admitted_split (left : a ≤ b) (right : b ≤ c) :
    admitted log a c = admitted log a b + admitted log b c := by
  induction log using List.reverseRecOn with
  | nil => rfl
  | append_singleton log t ih =>
    rw [admitted_concat, admitted_concat, admitted_concat, ih]
    split_ifs <;> omega

end Counting

/-! ## Counters -/

section Counters

variable {w : ℤ} {log : List ℤ} {now later start current previous : ℤ}

/-- The anchor of a log that is not empty is fixed. -/
theorem anchor_append (next : List ℤ) (nonempty : log ≠ []) (now later : ℤ) :
    anchor (log ++ next) later = anchor log now := by
  cases log with
  | nil => exact absurd rfl nonempty
  | cons first rest => rfl

theorem anchor_eq (nonempty : log ≠ []) (now later : ℤ) : anchor log later = anchor log now := by
  have := anchor_append [] nonempty now later
  rwa [List.append_nil] at this

@[simp] theorem anchor_concat : anchor (log ++ [now]) later = anchor log now := by
  cases log with
  | nil => rfl
  | cons first rest => rfl

/-- Windows after that of `now` begin a whole number of windows later. -/
theorem add_mul_le_windowStart (positive : 0 < w) {s k : ℤ}
    (starts : windowStart w s now + k * w ≤ later) :
    windowStart w s now + k * w ≤ windowStart w s later := by
  unfold windowStart at *
  have quotient : (now - s) / w + k ≤ (later - s) / w :=
    Int.le_ediv_of_mul_le positive (by linarith)
  have := mul_le_mul_of_nonneg_right quotient positive.le
  linarith

theorem windowStart_of_shift (positive : 0 < w) {s k : ℤ}
    (starts : windowStart w s now + k * w ≤ later)
    (ends : later < windowStart w s now + (k + 1) * w) :
    windowStart w s later = windowStart w s now + k * w := by
  unfold windowStart at starts ends
  have found : windowStart w s later = s + ((now - s) / w + k) * w :=
    windowStart_eq positive (by linarith) (by linarith)
  rw [found]
  unfold windowStart
  ring

namespace Counts

/-- Before the first admission there is nothing to count. -/
theorem first : Counts w [] now now 0 0 where
  start_eq := windowStart_self.symm
  current_eq := rfl
  previous_eq := rfl

theorem start_le (counts : Counts w log now start current previous) (positive : 0 < w) :
    start ≤ now := counts.start_eq ▸ windowStart_le positive

theorem lt_start_add (counts : Counts w log now start current previous) (positive : 0 < w) :
    now < start + w := counts.start_eq ▸ lt_windowStart_add positive

/-- Within the window the counts stay. -/
theorem stay (counts : Counts w log now start current previous) (positive : 0 < w)
    (nonempty : log ≠ []) (past : ∀ t ∈ log, t ≤ now) (advances : now ≤ later)
    (within : later < start + w) : Counts w log later start current previous where
  start_eq := by
    have begun := counts.start_le positive
    rw [anchor_eq nonempty now later, counts.start_eq] at *
    have same := @windowStart_of_shift w now later positive (anchor log now) 0 (by linarith)
      (by linarith)
    rw [same, zero_mul, add_zero]
  current_eq := by
    rw [counts.current_eq]
    refine congrArg Nat.cast (admitted_congr fun t mem => ?_)
    have := past t mem
    omega
  previous_eq := counts.previous_eq

/-- One window on, the current count becomes the previous one. -/
theorem next (counts : Counts w log now start current previous) (positive : 0 < w)
    (nonempty : log ≠ []) (past : ∀ t ∈ log, t ≤ now) (starts : start + w ≤ later)
    (ends : later < start + 2 * w) : Counts w log later (start + w) 0 current where
  start_eq := by
    rw [anchor_eq nonempty now later]
    rw [counts.start_eq] at *
    have same := @windowStart_of_shift w now later positive (anchor log now) 1 (by linarith)
      (by linarith)
    rw [same, one_mul]
  current_eq := by
    have ended := counts.lt_start_add positive
    rw [admitted_eq_zero fun t mem => ?_, Nat.cast_zero]
    have := past t mem
    omega
  previous_eq := by
    have ended := counts.lt_start_add positive
    rw [counts.current_eq, add_sub_cancel_right]
    refine congrArg Nat.cast (admitted_congr fun t mem => ?_)
    have := past t mem
    omega

/-- Two windows on or more, there is nothing left to count. -/
theorem skip (counts : Counts w log now start current previous) (positive : 0 < w)
    (nonempty : log ≠ []) (past : ∀ t ∈ log, t ≤ now) (starts : start + 2 * w ≤ later) :
    Counts w log later (windowStart w (anchor log later) later) 0 0 := by
  have ended := counts.lt_start_add positive
  have far : start + 2 * w ≤ windowStart w (anchor log later) later := by
    rw [anchor_eq nonempty now later]
    rw [counts.start_eq] at *
    exact add_mul_le_windowStart positive starts
  refine ⟨rfl, ?_, ?_⟩
  · rw [admitted_eq_zero fun t mem => ?_, Nat.cast_zero]
    have := past t mem
    omega
  · rw [admitted_eq_zero fun t mem => ?_, Nat.cast_zero]
    have := past t mem
    omega

/-- An admission is counted in the current window. -/
theorem concat (counts : Counts w log now start current previous) (positive : 0 < w) :
    Counts w (log ++ [now]) now start (current + 1) previous where
  start_eq := by rw [anchor_concat, counts.start_eq]
  current_eq := by
    have begun := counts.start_le positive
    rw [admitted_concat_of_mem ⟨begun, by omega⟩, counts.current_eq, Nat.cast_succ]
  previous_eq := by
    have begun := counts.start_le positive
    rw [admitted_concat_of_notMem (fun inside => not_lt.mpr begun inside.2), counts.previous_eq]

/-- The weighted count, read off the counters. -/
theorem pressure_eq (counts : Counts w log now start current previous) :
    pressure w log now = previous * (start + w - now) + current * w := by
  rw [counts.previous_eq, counts.current_eq, counts.start_eq]
  rfl

end Counts

end Counters

/-! ## Attempts -/

section Attempts

variable {limit : ℕ} {w : ℤ} {log : List ℤ} {now : ℤ}

theorem attempt_nil (positive : 0 < w) (allows : 0 < limit) :
    attempt limit w [] now = [now] := by
  refine if_pos ?_
  show (0 : ℤ) * _ + 0 * w < _
  have : 0 < (limit : ℤ) * w := mul_pos (by exact_mod_cast allows) positive
  linarith

theorem mem_attempt {t : ℤ} (mem : t ∈ attempt limit w log now) : t ∈ log ∨ t = now := by
  unfold attempt at mem
  split at mem
  · simpa using mem
  · exact .inl mem

/-- Attempts are admitted at their own times. -/
theorem mem_of_mem_foldl_attempt {times : List ℤ} {t : ℤ}
    (mem : t ∈ times.foldl (attempt limit w) log) : t ∈ log ∨ t ∈ times := by
  induction times generalizing log with
  | nil => exact .inl mem
  | cons now times ih =>
    rcases ih mem with attempted | later
    · rcases mem_attempt attempted with older | rfl
      · exact .inl older
      · exact .inr List.mem_cons_self
    · exact .inr (List.mem_cons_of_mem now later)

theorem Admits.attempt (admits : Admits limit w log) (past : ∀ t ∈ log, t ≤ now) :
    Admits limit w (attempt limit w log now) := by
  unfold SlidingWindow.attempt
  split
  · exact admits.concat past ‹_›
  · exact admits

/-- Attempts only extend the log. -/
theorem prefix_foldl_attempt (times : List ℤ) : log <+: times.foldl (attempt limit w) log := by
  induction times generalizing log with
  | nil => exact List.prefix_rfl
  | cons now times ih =>
    have begins : log <+: attempt limit w log now := by
      unfold attempt
      split
      · exact List.prefix_append _ _
      · exact List.prefix_rfl
    exact begins.trans ih

/-- A log is in the order of time. -/
theorem Admits.ordered (admits : Admits limit w log) : log.Pairwise (· ≤ ·) := by
  induction admits with
  | nil => exact List.Pairwise.nil
  | concat _ past _ ih =>
    refine List.pairwise_append.mpr ⟨ih, List.pairwise_singleton _ _, fun t older u newest => ?_⟩
    exact List.mem_singleton.mp newest ▸ past t older

/-- A log is what the attempts at its own times are admitted at. -/
theorem Admits.foldl_attempt (admits : Admits limit w log) :
    log.foldl (SlidingWindow.attempt limit w) [] = log := by
  induction admits with
  | nil => rfl
  | @concat log now _ _ free ih =>
    rw [List.foldl_append, ih]
    exact if_pos free

end Attempts

/-! ## Bounds -/

namespace Admits

variable {limit : ℕ} {w : ℤ} {log : List ℤ}

/-- What the pressure at an admission leaves for the current window. -/
theorem current_lt {now : ℤ} (positive : 0 < w) (free : pressure w log now < limit * w) :
    admitted log (windowStart w (anchor log now) now) (now + 1) < limit := by
  set start := windowStart w (anchor log now) now with same
  have ended : now < start + w := same ▸ lt_windowStart_add positive
  have earlier : (0 : ℤ) ≤ admitted log (start - w) start * (start + w - now) :=
    mul_nonneg (Nat.cast_nonneg _) (by linarith)
  have room : (admitted log start (now + 1) : ℤ) * w < limit * w := by
    unfold pressure at free
    simp only [← same] at free
    linarith
  exact_mod_cast lt_of_mul_lt_mul_right room positive.le

/-- **A window lets through at most the limit.** -/
theorem window_le (admits : Admits limit w log) (positive : 0 < w) (now k : ℤ) :
    admitted log (anchor log now + k * w) (anchor log now + (k + 1) * w) ≤ limit := by
  induction admits generalizing now with
  | nil => exact Nat.zero_le _
  | @concat log t _ past free ih =>
    rw [anchor_concat]
    by_cases inside : anchor log t + k * w ≤ t ∧ t < anchor log t + (k + 1) * w
    · have here := windowStart_eq positive inside.1 inside.2
      have room := current_lt positive free
      rw [here] at room
      rw [admitted_concat_of_mem inside]
      have same : admitted log (anchor log t + k * w) (anchor log t + (k + 1) * w) =
          admitted log (anchor log t + k * w) (t + 1) := by
        refine admitted_congr fun u mem => ?_
        have := past u mem
        have := inside.2
        omega
      rw [same]
      exact room
    · rw [admitted_concat_of_notMem inside]
      exact ih t

/-- A span as long as a window lies in two adjacent windows. -/
theorem exists_boundary (positive : 0 < w) (s a : ℤ) :
    ∃ k, s + k * w ≤ a ∧ a < s + (k + 1) * w := by
  refine ⟨(a - s) / w, ?_, ?_⟩
  · have := Int.ediv_mul_le (a - s) positive.ne'
    linarith
  · have := Int.lt_ediv_add_one_mul_self (a - s) positive
    linarith

/-- **A span as long as a window lets through at most twice the limit.** -/
theorem span_le (admits : Admits limit w log) (positive : 0 < w) (a : ℤ) :
    admitted log a (a + w) ≤ 2 * limit := by
  obtain ⟨k, starts, ends⟩ := exists_boundary positive (anchor log 0) a
  have first := admits.window_le positive 0 k
  have second := admits.window_le positive 0 (k + 1)
  set boundary := anchor log 0 + (k + 1) * w with same
  have left : admitted log a boundary ≤ admitted log (anchor log 0 + k * w) boundary :=
    admitted_mono starts le_rfl
  have right : admitted log boundary (a + w) ≤
      admitted log boundary (anchor log 0 + (k + 1 + 1) * w) := by
    refine admitted_mono le_rfl ?_
    linarith
  have split : admitted log a (a + w) = admitted log a boundary + admitted log boundary (a + w) :=
    admitted_split ends.le (by linarith)
  omega

/-- The pressure at an admission that would fill both halves of a span. -/
theorem pressure_ge_of_full {now boundary a : ℤ} (positive : 0 < w) (past : ∀ t ∈ log, t ≤ now)
    (here : windowStart w (anchor log now) now = boundary) (before : boundary - w ≤ a)
    (started : a < boundary) (inside : now < a + w)
    (first : limit ≤ admitted log a boundary)
    (second : limit ≤ admitted log boundary (a + w) + 1) :
    (limit : ℤ) * 2 + (limit - 1) * w ≤ pressure w log now := by
  have begun : boundary ≤ now := here ▸ windowStart_le positive
  have previous : limit ≤ admitted log (boundary - w) boundary :=
    first.trans (admitted_mono before le_rfl)
  have current : admitted log boundary (now + 1) = admitted log boundary (a + w) := by
    refine admitted_congr fun t mem => ?_
    have := past t mem
    omega
  unfold pressure
  simp only [here, current]
  have earlier : (limit : ℤ) * 2 ≤
      admitted log (boundary - w) boundary * (boundary + w - now) := by
    refine mul_le_mul (by exact_mod_cast previous) (by linarith) (by norm_num) (Nat.cast_nonneg _)
  have later : ((limit : ℤ) - 1) * w ≤ admitted log boundary (a + w) * w := by
    refine mul_le_mul_of_nonneg_right ?_ positive.le
    have : (limit : ℤ) ≤ admitted log boundary (a + w) + 1 := by exact_mod_cast second
    linarith
  linarith

/-- **A span lets through fewer than twice the limit**, if a window is at most twice as long as
the limit. -/
theorem span_lt (admits : Admits limit w log) (positive : 0 < w) (allows : 0 < limit)
    (short : w ≤ 2 * limit) (a : ℤ) : admitted log a (a + w) < 2 * limit := by
  induction admits with
  | nil =>
    rw [admitted_nil]
    omega
  | @concat log t admits past free ih =>
    by_cases inside : a ≤ t ∧ t < a + w
    swap
    · rw [admitted_concat_of_notMem inside]
      exact ih
    by_contra full
    obtain ⟨k, starts, ends⟩ := exists_boundary positive (anchor log t) a
    have whole := admits.concat past free
    have first := whole.window_le positive t k
    have second := whole.window_le positive t (k + 1)
    rw [anchor_concat] at first second
    set boundary := anchor log t + (k + 1) * w with same
    have left : admitted (log ++ [t]) a boundary ≤
        admitted (log ++ [t]) (anchor log t + k * w) boundary := admitted_mono starts le_rfl
    have right : admitted (log ++ [t]) boundary (a + w) ≤
        admitted (log ++ [t]) boundary (anchor log t + (k + 1 + 1) * w) := by
      refine admitted_mono le_rfl ?_
      linarith
    have split : admitted (log ++ [t]) a (a + w) =
        admitted (log ++ [t]) a boundary + admitted (log ++ [t]) boundary (a + w) :=
      admitted_split ends.le (by linarith)
    -- the last admission lies past the boundary: before it there is room for one window only
    have past_boundary : boundary ≤ t := by
      by_contra early
      have noneInside : admitted (log ++ [t]) boundary (a + w) = 0 := by
        refine admitted_eq_zero fun u mem inside => ?_
        rcases List.mem_append.mp mem with older | newest
        · have := past u older
          have := inside.1
          omega
        · have := List.mem_singleton.mp newest
          have := inside.1
          omega
      omega
    have here : windowStart w (anchor log t) t = boundary := by
      refine windowStart_eq positive past_boundary ?_
      have := inside.2
      linarith
    rw [admitted_concat_of_notMem (fun within => not_lt.mpr past_boundary within.2)] at left split
    rw [admitted_concat_of_mem ⟨past_boundary, inside.2⟩] at right split
    have pressed : (limit : ℤ) * 2 + (limit - 1) * w ≤ pressure w log t :=
      pressure_ge_of_full positive past here (by linarith) ends inside.2 (by omega) (by omega)
    have : ((limit : ℤ) - 1) * w = limit * w - w := by ring
    linarith

/-! ### The bound is attained -/

/-- An admission adds one to the weighted count. -/
theorem pressure_concat {now : ℤ} (positive : 0 < w) :
    pressure w (log ++ [now]) now = pressure w log now + w := by
  have counts : Counts w log now _ _ _ := ⟨rfl, rfl, rfl⟩
  rw [(counts.concat positive).pressure_eq, counts.pressure_eq]
  ring

/-- Admissions at one time, as long as there is room. -/
theorem replicate (admits : Admits limit w log) {now : ℤ} (positive : 0 < w)
    (past : ∀ t ∈ log, t ≤ now) {n : ℕ} (room : pressure w log now + n * w < limit * w + w) :
    Admits limit w (log ++ List.replicate n now) ∧
      pressure w (log ++ List.replicate n now) now = pressure w log now + n * w := by
  induction n with
  | zero => simpa using admits
  | succ n ih =>
    push_cast at room
    obtain ⟨earlier, pressed⟩ := ih (by linarith)
    rw [List.replicate_succ', ← List.append_assoc]
    refine ⟨earlier.concat ?_ (by linarith), ?_⟩
    · intro t mem
      rcases List.mem_append.mp mem with older | same
      · exact past t older
      · exact (List.eq_of_mem_replicate same).le
    · rw [pressure_concat positive, pressed]
      push_cast
      ring

end Admits

theorem admitted_replicate {n : ℕ} {now a b : ℤ} (inside : a ≤ now ∧ now < b) :
    admitted (List.replicate n now) a b = n := by
  unfold admitted
  rw [List.countP_replicate, if_pos (decide_eq_true inside)]

/-- A first admission, a full window at its end, and one more close to the end of the next. -/
def burst (limit : ℕ) (w : ℤ) : List ℤ :=
  ([0] ++ List.replicate limit (3 * w - 1)) ++ List.replicate limit (4 * w - 2)

section Burst

variable {limit : ℕ} {w : ℤ}

/-- The windows after the anchor at zero. -/
theorem windowStart_zero {k now : ℤ} (positive : 0 < w) (starts : k * w ≤ now)
    (ends : now < (k + 1) * w) : windowStart w 0 now = k * w := by
  have := @windowStart_eq w 0 now positive k (by linarith) (by linarith)
  rw [this, zero_add]

/-- **Twice the limit is attained** if a window is longer than that. -/
theorem admits_burst (allows : 0 < limit) (long : 2 * limit < w) :
    Admits limit w (burst limit w) := by
  have positive : 0 < w := by omega
  have one : Admits limit w [0] := by
    have first : Admits limit w (attempt limit w [] 0) := Admits.nil.attempt nofun
    rwa [attempt_nil positive allows] at first
  -- the window at `2 * w` has nothing before it
  have idle : pressure w [0] (3 * w - 1) = 0 := by
    have start : windowStart w 0 (3 * w - 1) = 2 * w := windowStart_zero positive (by linarith)
      (by linarith)
    have counts : Counts w [0] (3 * w - 1) (2 * w) 0 0 := by
      refine ⟨start.symm, ?_, ?_⟩
      · rw [admitted_eq_zero (by simp; omega), Nat.cast_zero]
      · rw [admitted_eq_zero (by simp; omega), Nat.cast_zero]
    rw [counts.pressure_eq]
    ring
  have two : Admits limit w ([0] ++ List.replicate limit (3 * w - 1)) := by
    refine (one.replicate positive (by simp; omega) ?_).1
    rw [idle]
    linarith
  have before : ∀ t ∈ [0] ++ List.replicate limit (3 * w - 1), t ≤ 3 * w - 1 := by
    intro t mem
    rcases List.mem_append.mp mem with first | full
    · have := List.mem_singleton.mp first
      omega
    · exact (List.eq_of_mem_replicate full).le
  -- two units before the end of the next one, little of it is left
  have fading : pressure w ([0] ++ List.replicate limit (3 * w - 1)) (4 * w - 2) = 2 * limit := by
    have start : windowStart w 0 (4 * w - 2) = 3 * w := windowStart_zero positive (by linarith)
      (by linarith)
    have counts : Counts w ([0] ++ List.replicate limit (3 * w - 1)) (4 * w - 2) (3 * w) 0
        limit := by
      refine ⟨start.symm, ?_, ?_⟩
      · rw [admitted_eq_zero, Nat.cast_zero]
        intro t mem inside
        have := before t mem
        have := inside.1
        omega
      · rw [admitted_append, admitted_replicate ⟨by omega, by omega⟩,
          admitted_eq_zero (by simp; omega), zero_add]
    rw [counts.pressure_eq]
    ring
  refine (two.replicate positive ?_ ?_).1
  · intro t mem
    exact (before t mem).trans (by omega)
  · rw [fading]
    linarith

theorem admitted_burst (long : 2 * limit < w) :
    admitted (burst limit w) (3 * w - 1) (3 * w - 1 + w) = 2 * limit := by
  unfold burst
  rw [admitted_append, admitted_append, admitted_replicate ⟨by omega, by omega⟩,
    admitted_replicate ⟨by omega, by omega⟩]
  rw [admitted_eq_zero (by simp; omega)]
  omega

end Burst

end SlidingWindow
