import Mathlib.Algebra.Order.Group.Int
import Mathlib.Data.List.Infix
import Mathlib.Data.Int.ConditionallyCompleteOrder
import Mathlib.Order.ConditionallyCompleteLattice.Basic

/-!
# Fixed-window limiters

A fixed-window limiter counts what it lets through.  The first charge opens a window
and sets the time it expires at; later charges count against the same window until
one of them comes at or after the expiry and opens the next.  A charge is let through
while the running window has not used up the limit.

The clock is only read, never assumed to advance: with arbitrary readings a window
still lets through no more than the limit.  With readings that never go back, windows
cannot overlap, and a closed interval as long as a window meets at most two of them:
a charge in the interval, a window opened after it, and a window opened after that
lie more than a window apart.
-/

namespace FixedWindow

/-- A window: the charges counted in it and the time it expires at. -/
structure Counter where
  count : ℕ
  expiry : ℤ
deriving DecidableEq

/-- The count of the stored window. -/
def used (stored : Option Counter) : ℕ := (stored.map Counter.count).getD 0

/-- The stored window has not expired. -/
def running (stored : Option Counter) (now : ℤ) : Bool :=
  stored.any fun counter => decide (now < counter.expiry)

/-- The limiter lets nothing through: the limit is zero, or the running window has
used it up. -/
def exhausted (limit : ℕ) (stored : Option Counter) (now : ℤ) : Bool :=
  decide (limit = 0) ||
    stored.any fun counter => decide (now < counter.expiry) && decide (limit ≤ counter.count)

/-- Count a charge, opening a window that expires at `expiry` when none is running. -/
def charge (expiry now : ℤ) : Option Counter → Counter
  | none => ⟨1, expiry⟩
  | some counter =>
    if counter.expiry ≤ now then ⟨1, expiry⟩ else { counter with count := counter.count + 1 }

/-- A charge: its time, and whether it opens a window. -/
structure Charge where
  time : ℤ
  opens : Bool
deriving DecidableEq

/-- The charges a limiter lets through from the stored state `start`; a window opened
at `t` expires at `expire t`. -/
inductive Charges (limit : ℕ) (expire : ℤ → ℤ) (start : Option Counter) :
    List Charge → Option Counter → Prop
  | nil : Charges limit expire start [] start
  | concat {log : List Charge} {stored : Option Counter} {now : ℤ} :
      Charges limit expire start log stored → exhausted limit stored now = false →
        Charges limit expire start (log ++ [⟨now, !running stored now⟩])
          (some (charge (expire now) now stored))

/-- Only the first of the charges may open a window. -/
def OneWindow (segment : List Charge) : Prop := ∀ c ∈ segment.tail, c.opens = false

section Step

variable {limit : ℕ} {stored : Option Counter} {now : ℤ}

theorem charge_of_running (expiry : ℤ) (runs : running stored now = true) :
    ∃ counter, stored = some counter ∧ now < counter.expiry ∧
      charge expiry now stored = ⟨counter.count + 1, counter.expiry⟩ := by
  cases stored with
  | none => cases runs
  | some counter =>
    have unexpired : now < counter.expiry := of_decide_eq_true runs
    refine ⟨counter, rfl, unexpired, ?_⟩
    unfold charge
    exact if_neg (not_le.mpr unexpired)

theorem expiry_le_of_not_running {counter : Counter}
    (stopped : running (some counter) now = false) : counter.expiry ≤ now := by
  unfold running at stopped
  exact not_lt.mp (of_decide_eq_false stopped)

theorem charge_of_not_running (expiry : ℤ) (stopped : running stored now = false) :
    charge expiry now stored = ⟨1, expiry⟩ := by
  cases stored with
  | none => rfl
  | some counter =>
    unfold charge
    exact if_pos (expiry_le_of_not_running stopped)

theorem limit_pos_of_free (free : exhausted limit stored now = false) : 0 < limit := by
  unfold exhausted at free
  rw [Bool.or_eq_false_iff] at free
  exact Nat.pos_of_ne_zero (of_decide_eq_false free.1)

theorem count_lt_of_free {counter : Counter} (free : exhausted limit (some counter) now = false)
    (unexpired : now < counter.expiry) : counter.count < limit := by
  unfold exhausted at free
  simp only [Option.any_some, Bool.or_eq_false_iff, Bool.and_eq_false_iff,
    decide_eq_false_iff_not] at free
  rcases free.2 with expired | room
  · exact absurd unexpired expired
  · exact not_le.mp room

/-- A charge that is let through stays within the limit. -/
theorem count_charge_le (expiry : ℤ) (free : exhausted limit stored now = false) :
    (charge expiry now stored).count ≤ limit := by
  cases runs : running stored now with
  | true =>
    obtain ⟨counter, rfl, unexpired, charged⟩ := charge_of_running expiry runs
    rw [charged]
    exact count_lt_of_free free unexpired
  | false =>
    rw [charge_of_not_running _ runs]
    exact limit_pos_of_free free

end Step

namespace Charges

variable {limit : ℕ} {expire : ℤ → ℤ} {start stored : Option Counter} {log : List Charge}

/-- A limit of zero lets nothing through. -/
theorem eq_nil (charges : Charges 0 expire start log stored) : log = [] := by
  cases charges with
  | nil => rfl
  | concat _ free => exact absurd (limit_pos_of_free free) (lt_irrefl 0)

theorem used_le (charges : Charges limit expire start log stored) (fits : used start ≤ limit) :
    used stored ≤ limit := by
  cases charges with
  | nil => exact fits
  | concat _ free => exact count_charge_le _ free

theorem stored_of_mem (charges : Charges limit expire start log stored) {c : Charge}
    (mem : c ∈ log) : ∃ counter, stored = some counter := by
  cases charges with
  | nil => cases mem
  | concat => exact ⟨_, rfl⟩

/-- The last charges of one window are counted in the stored one. -/
theorem suffix_le (charges : Charges limit expire start log stored) {segment : List Charge}
    (last : segment <:+ log) (one : OneWindow segment) : segment.length ≤ used stored := by
  induction charges generalizing segment with
  | nil =>
    rw [List.suffix_nil.mp last]
    exact Nat.zero_le _
  | @concat log stored now _ _ ih =>
    rcases List.suffix_concat_iff.mp last with rfl | ⟨earlier, rfl, suffix⟩
    · exact Nat.zero_le _
    show (earlier ++ [_]).length ≤ (charge (expire now) now stored).count
    cases runs : running stored now with
    | true =>
      obtain ⟨counter, rfl, -, charged⟩ := charge_of_running (expire now) runs
      rw [charged, List.length_append, List.length_singleton]
      refine Nat.succ_le_succ (ih suffix fun c mem => one c ?_)
      rw [List.tail_append_of_ne_nil (List.ne_nil_of_mem (List.mem_of_mem_tail mem))]
      exact List.mem_append_left _ mem
    | false =>
      -- the new charge opens a window, so it is the only one of the segment
      rw [charge_of_not_running _ runs]
      cases earlier with
      | nil => exact le_rfl
      | cons first rest =>
        have opened := one ⟨now, !running stored now⟩ (by simp)
        simp [runs] at opened

/-- **A window lets through at most the limit**, whatever the clock reads. -/
theorem window_le (charges : Charges limit expire start log stored) (fits : used start ≤ limit)
    {segment : List Charge} (within : segment <:+: log) (one : OneWindow segment) :
    segment.length ≤ limit := by
  induction charges with
  | nil =>
    rw [List.infix_nil.mp within]
    exact Nat.zero_le _
  | concat earlier free ih =>
    rcases List.infix_concat_iff.mp within with suffix | before
    · have whole := earlier.concat free
      exact (whole.suffix_le suffix one).trans (whole.used_le fits)
    · exact ih before

section Advancing

/-! ### Clocks that never go back -/

/-- What holds of a charge with every expiry it is counted against, and with the
expiry of every window that opens later, holds with the stored one. -/
theorem holds_at_expiry (P : Charge → ℤ → Prop) (charges : Charges limit expire start log stored)
    (sorted : log.Pairwise fun x y => x.time ≤ y.time)
    (counted : ∀ now expiry, now < expiry → P ⟨now, false⟩ expiry)
    (opened : ∀ x ∈ log, ∀ y ∈ log, x.time ≤ y.time → P x (expire y.time)) {c : Charge}
    (mem : c ∈ log) {counter : Counter} (here : stored = some counter) : P c counter.expiry := by
  induction charges generalizing c counter with
  | nil => cases mem
  | @concat log stored now _ _ ih =>
    obtain ⟨older, -, newest⟩ := List.pairwise_append.mp sorted
    have last : (⟨now, !running stored now⟩ : Charge) ∈ log ++ [⟨now, !running stored now⟩] :=
      List.mem_append_right _ (List.mem_singleton_self _)
    cases here
    cases runs : running stored now with
    | true =>
      obtain ⟨old, rfl, unexpired, charged⟩ := charge_of_running (expire now) runs
      rw [charged]
      show P c old.expiry
      rcases List.mem_append.mp mem with before | new
      · exact ih older (fun x mx y my => opened x (List.mem_append_left _ mx) y
          (List.mem_append_left _ my)) before rfl
      · rw [List.mem_singleton.mp new, runs]
        exact counted now old.expiry unexpired
    | false =>
      rw [charge_of_not_running _ runs]
      refine opened c mem _ last ?_
      rcases List.mem_append.mp mem with before | new
      · exact newest c before _ (List.mem_singleton_self _)
      · rw [List.mem_singleton.mp new]

/-- A window opens after every earlier charge, and after every earlier window has
expired. -/
theorem spaced (charges : Charges limit expire start log stored)
    (sorted : log.Pairwise fun x y => x.time ≤ y.time) (monotone : Monotone expire)
    (ahead : ∀ c ∈ log, c.time < expire c.time) :
    log.Pairwise fun x y =>
      y.opens = true → x.time < y.time ∧ (x.opens = true → expire x.time ≤ y.time) := by
  induction charges with
  | nil => exact List.Pairwise.nil
  | @concat log stored now earlier _ ih =>
    obtain ⟨sorted, -, -⟩ := List.pairwise_append.mp sorted
    have ahead' : ∀ c ∈ log, c.time < expire c.time :=
      fun c mem => ahead c (List.mem_append_left _ mem)
    refine List.pairwise_append.mpr ⟨ih sorted ahead', List.pairwise_singleton _ _, ?_⟩
    intro x older y new opens
    cases List.mem_singleton.mp new
    obtain ⟨counter, here⟩ := earlier.stored_of_mem older
    have expired : counter.expiry ≤ now := by
      rw [here] at opens
      exact expiry_le_of_not_running (by simpa using opens)
    have ends : x.time < counter.expiry ∧ (x.opens = true → expire x.time ≤ counter.expiry) :=
      earlier.holds_at_expiry
        (fun c expiry => c.time < expiry ∧ (c.opens = true → expire c.time ≤ expiry)) sorted
        (fun _ _ before => ⟨before, nofun⟩)
        (fun u _ v mem le => ⟨le.trans_lt (ahead' v mem), fun _ => monotone le⟩) older here
    exact ⟨ends.1.trans_le expired, fun opened => (ends.2 opened).trans expired⟩

end Advancing

end Charges

/-! ## Intervals -/

section Intervals

variable {α : Type*} {key : α → ℤ} {l : List α}

theorem filter_ge_eq_dropWhile (sorted : l.Pairwise fun x y => key x ≤ key y) (a : ℤ) :
    l.filter (fun x => decide (a ≤ key x)) = l.dropWhile fun x => decide (key x < a) := by
  induction l with
  | nil => rfl
  | cons x rest ih =>
    obtain ⟨first, sorted⟩ := List.pairwise_cons.mp sorted
    by_cases early : key x < a
    · rw [List.dropWhile_cons_of_pos (by simpa using early), ← ih sorted]
      exact List.filter_cons_of_neg (by simpa using early)
    · rw [List.dropWhile_cons_of_neg (by simpa using early), List.filter_eq_self]
      intro y mem
      rcases List.mem_cons.mp mem with rfl | later
      · simpa using early
      · exact decide_eq_true ((not_lt.mp early).trans (first y later))

theorem filter_le_eq_takeWhile (sorted : l.Pairwise fun x y => key x ≤ key y) (b : ℤ) :
    l.filter (fun x => decide (key x ≤ b)) = l.takeWhile fun x => decide (key x ≤ b) := by
  induction l with
  | nil => rfl
  | cons x rest ih =>
    obtain ⟨first, sorted⟩ := List.pairwise_cons.mp sorted
    by_cases early : key x ≤ b
    · rw [List.takeWhile_cons_of_pos (by simpa using early), ← ih sorted]
      exact List.filter_cons_of_pos (by simpa using early)
    · rw [List.takeWhile_cons_of_neg (by simpa using early), List.filter_eq_nil_iff]
      intro y mem late
      rcases List.mem_cons.mp mem with rfl | later
      · exact early (of_decide_eq_true late)
      · exact early ((first y later).trans (of_decide_eq_true late))

/-- The elements of a sorted list that lie in an interval are consecutive. -/
theorem filter_interval_infix (sorted : l.Pairwise fun x y => key x ≤ key y) (a b : ℤ) :
    l.filter (fun x => decide (a ≤ key x) && decide (key x ≤ b)) <:+: l := by
  have split : l.filter (fun x => decide (a ≤ key x) && decide (key x ≤ b)) =
      (l.dropWhile fun x => decide (key x < a)).takeWhile fun x => decide (key x ≤ b) := by
    rw [← filter_ge_eq_dropWhile sorted, ← filter_le_eq_takeWhile (sorted.filter _),
      List.filter_filter]
    exact List.filter_congr fun x _ => Bool.and_comm _ _
  rw [split]
  exact (List.takeWhile_prefix _).isInfix.trans (List.dropWhile_suffix _).isInfix

end Intervals

/-- Charges split at the first that opens a window. -/
theorem exists_split_at_opening (log : List Charge) : ∃ first second,
    log = first ++ second ∧ (∀ c ∈ first, c.opens = false) ∧
      (second = [] ∨ ∃ y later, second = y :: later ∧ y.opens = true) := by
  induction log with
  | nil => exact ⟨[], [], rfl, nofun, .inl rfl⟩
  | cons c rest ih =>
    cases opens : c.opens with
    | true => exact ⟨[], c :: rest, rfl, nofun, .inr ⟨c, rest, rfl, opens⟩⟩
    | false =>
      obtain ⟨first, second, rfl, closed, opened⟩ := ih
      exact ⟨c :: first, second, rfl, List.forall_mem_cons.mpr ⟨opens, closed⟩, opened⟩

/-- The charges whose time lies in the closed interval from `a` to `b`. -/
def between (a b : ℤ) (log : List Charge) : List Charge :=
  log.filter fun c => decide (a ≤ c.time) && decide (c.time ≤ b)

/-- **An interval as long as a window holds at most twice the limit**, when the clock
never goes back and an expired window is at least `d` old. -/
theorem Charges.interval_le {limit : ℕ} {expire : ℤ → ℤ} {start stored : Option Counter}
    {log : List Charge} (charges : Charges limit expire start log stored)
    (fits : used start ≤ limit) (sorted : log.Pairwise fun x y => x.time ≤ y.time)
    (monotone : Monotone expire) (ahead : ∀ c ∈ log, c.time < expire c.time) {d : ℤ}
    (aged : ∀ x ∈ log, ∀ y ∈ log, expire x.time ≤ y.time → x.time + d ≤ y.time) (a : ℤ) :
    (between a (a + d) log).length ≤ 2 * limit := by
  have within : between a (a + d) log <:+: log := filter_interval_infix sorted a (a + d)
  have spaced := (charges.spaced sorted monotone ahead).sublist within.sublist
  have inside : ∀ c ∈ between a (a + d) log, a ≤ c.time ∧ c.time ≤ a + d := fun c mem => by
    simpa using (List.mem_filter.mp mem).2
  generalize between a (a + d) log = segment at within spaced inside
  cases segment with
  | nil => exact Nat.zero_le _
  | cons x rest =>
    -- split at the first charge after `x` that opens a window
    obtain ⟨first, second, rfl, closed, opened⟩ := exists_split_at_opening rest
    have one : (x :: first).length ≤ limit := by
      refine charges.window_le fits (List.IsInfix.trans ?_ within) closed
      exact ⟨[], second, rfl⟩
    have two : second.length ≤ limit := by
      refine charges.window_le fits (List.IsInfix.trans ?_ within) ?_
      · exact ⟨x :: first, [], by simp⟩
      rcases opened with rfl | ⟨y, later, rfl, opens⟩
      · exact nofun
      intro z mem
      by_contra third
      -- a third window would open more than `d` after `x`
      obtain ⟨fromX, rest⟩ := List.pairwise_cons.mp spaced
      obtain ⟨fromY, -⟩ := List.pairwise_cons.mp (List.pairwise_append.mp rest).2.1
      have second : y ∈ first ++ y :: later := List.mem_append_right _ List.mem_cons_self
      have last : z ∈ first ++ y :: later :=
        List.mem_append_right _ (List.mem_cons_of_mem y mem)
      have after : x.time < y.time := (fromX y second opens).1
      have expired : expire y.time ≤ z.time := (fromY z mem (by simpa using third)).2 opens
      have apart : y.time + d ≤ z.time :=
        aged y (within.subset (List.mem_cons_of_mem x second)) z
          (within.subset (List.mem_cons_of_mem x last)) expired
      have begins := (inside x List.mem_cons_self).1
      have ends := (inside z (List.mem_cons_of_mem x last)).2
      omega
    rw [← List.cons_append, List.length_append]
    omega

end FixedWindow
