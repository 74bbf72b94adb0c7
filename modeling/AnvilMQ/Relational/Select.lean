import Mathlib.Data.List.Sort

/-!
# Ordered and bounded selection

`SELECT … ORDER BY … LIMIT n` over the rows of a query.  SQL fixes neither the
order in which an unordered query visits its rows nor how `ORDER BY` breaks
ties, so a bounded selection depends on the query plan.  `Scan` is that plan:
a visiting order, known only to be a permutation of the rows.  Results about a
bounded statement quantify over its scan.
-/

namespace Relational

universe u

variable {α : Type u} {n : ℕ} {rows : List α} {a : α}

/-- The order in which a query plan visits the rows of a query. -/
structure Scan (α : Type u) where
  /-- The rows in visiting order. -/
  visit : List α → List α
  /-- A plan visits every row exactly once. -/
  perm : ∀ rows, (visit rows).Perm rows

namespace Scan

variable {scan : Scan α}

/-- The plan that visits the rows as they are stored. -/
def stored : Scan α := ⟨id, fun _ => List.Perm.refl _⟩

/-- `LIMIT n` without an order: the first `n` rows the plan visits. -/
def limit (scan : Scan α) (n : ℕ) (rows : List α) : List α := (scan.visit rows).take n

theorem mem_of_mem_limit (selected : a ∈ scan.limit n rows) : a ∈ rows :=
  (scan.perm rows).subset (List.mem_of_mem_take selected)

theorem nodup_map_limit {β : Type*} {key : α → β} (nodup : (rows.map key).Nodup) :
    ((scan.limit n rows).map key).Nodup :=
  (((scan.perm rows).map key).nodup_iff.mpr nodup).sublist ((List.take_sublist _ _).map key)

/-- The plan that visits one row before all others. -/
def first [DecidableEq α] (a : α) : Scan α where
  visit rows := if a ∈ rows then a :: rows.erase a else rows
  perm rows := by
    split
    · exact (List.perm_cons_erase ‹_›).symm
    · exact List.Perm.refl _

theorem mem_limit_first [DecidableEq α] (mem : a ∈ rows) (positive : 0 < n) :
    a ∈ (first a).limit n rows := by
  obtain ⟨m, rfl⟩ := Nat.exists_eq_add_of_lt positive
  simp [limit, first, mem]

/-- `ORDER BY key LIMIT n`: ties are broken by the visiting order. -/
def limitBy (scan : Scan α) (key : α → ℤ) (n : ℕ) (rows : List α) : List α :=
  ((scan.visit rows).insertionSort fun a b => key a ≤ key b).take n

theorem mem_of_mem_limitBy {key : α → ℤ} (selected : a ∈ scan.limitBy key n rows) : a ∈ rows :=
  ((List.perm_insertionSort _ _).trans (scan.perm rows)).subset (List.mem_of_mem_take selected)

end Scan

/-- The row that comes before all others in a total order. -/
def firstBy (before : α → α → Bool) : List α → Option α
  | [] => none
  | row :: rest =>
    match firstBy before rest with
    | none => some row
    | some best => if before best row then some best else some row

/-- The first row in an order is a row. -/
theorem mem_of_firstBy {before : α → α → Bool} (first : firstBy before rows = some a) :
    a ∈ rows := by
  induction rows generalizing a with
  | nil => cases first
  | cons row rest ih =>
    rw [firstBy] at first
    cases best : firstBy before rest with
    | none =>
      simp only [best, Option.some.injEq] at first
      simp [first]
    | some b =>
      simp only [best] at first
      split at first
      · cases first
        exact List.mem_cons_of_mem row (ih best)
      · cases first
        exact List.mem_cons_self

/-- There is a first row among some. -/
theorem exists_firstBy (before : α → α → Bool) (some_ : rows ≠ []) :
    ∃ a, firstBy before rows = some a := by
  cases rows with
  | nil => exact absurd rfl some_
  | cons row rest =>
    rw [firstBy]
    split
    · exact ⟨row, rfl⟩
    · split
      · exact ⟨_, rfl⟩
      · exact ⟨row, rfl⟩

/-- **The first row has the least key**, when the order compares keys. -/
theorem firstBy_le {β : Type*} [LinearOrder β] {before : α → α → Bool} {key : α → β}
    (compares : ∀ a b, before a b = true ↔ key a < key b) {b : α}
    (first : firstBy before rows = some a) (mem : b ∈ rows) : key a ≤ key b := by
  induction rows generalizing a with
  | nil => cases mem
  | cons row rest ih =>
    rw [firstBy] at first
    cases best : firstBy before rest with
    | none =>
      -- only an empty rest has no first row
      cases rest with
      | nil =>
        simp only [best, Option.some.injEq] at first
        rw [← first, List.mem_singleton.mp mem]
      | cons next later =>
        rw [firstBy] at best
        split at best
        · cases best
        · split at best <;> cases best
    | some c =>
      simp only [best] at first
      split at first
      · rename_i earlier
        cases first
        rcases List.mem_cons.mp mem with rfl | later
        · exact ((compares a b).mp earlier).le
        · exact ih best later
      · rename_i later
        cases first
        have head : key row ≤ key c := not_lt.mp fun lt => later ((compares c row).mpr lt)
        rcases List.mem_cons.mp mem with rfl | rest
        · exact le_rfl
        · exact head.trans (ih best rest)

/-! ## Keeping the greatest -/

section Excess

variable [LinearOrder α]

/-- The least elements of a list, those beyond the `keep` greatest. -/
def excess (keep : ℕ) (l : List α) : List α :=
  (l.insertionSort (· ≤ ·)).take (l.length - keep)

/-- In an ascending list the first elements are those with enough greater ones. -/
theorem mem_take_of_sorted [DecidableLT α] {l : List α} (sorted : l.SortedLT) (le : n ≤ l.length) :
    a ∈ l.take n ↔ a ∈ l ∧ l.length - n ≤ l.countP fun b => decide (a < b) := by
  induction l generalizing n with
  | nil => simp
  | cons first rest ih =>
    have above : ∀ b ∈ rest, first < b := (List.pairwise_cons.mp sorted.pairwise).1
    have tail : rest.SortedLT := (List.pairwise_cons.mp sorted.pairwise).2.sortedLT
    cases n with
    | zero =>
      -- an element is not greater than itself
      rw [List.take_zero, Nat.sub_zero]
      refine iff_of_false (List.not_mem_nil) fun ⟨mem, all⟩ => ?_
      have everything := List.countP_eq_length.mp (le_antisymm List.countP_le_length all) a mem
      exact lt_irrefl a (of_decide_eq_true everything)
    | succ n =>
      rw [List.take_succ_cons, List.mem_cons, List.mem_cons, List.length_cons,
        Nat.add_sub_add_right]
      by_cases same : a = first
      · subst same
        have counted : (a :: rest).countP (fun b => decide (a < b)) = rest.length := by
          rw [List.countP_cons_of_neg (by simp), List.countP_eq_length]
          exact fun b mem => decide_eq_true (above b mem)
        rw [counted]
        simp
      · rw [or_iff_right same, or_iff_right same, ih tail (Nat.le_of_succ_le_succ le)]
        refine and_congr_right fun mem => ?_
        rw [List.countP_cons_of_neg (by simpa using (above a mem).le)]

/-- **An element is in excess when enough others are greater.** -/
theorem mem_excess [DecidableLT α] {keep : ℕ} {l : List α} (nodup : l.Nodup) :
    a ∈ excess keep l ↔ a ∈ l ∧ keep ≤ l.countP fun b => decide (a < b) := by
  have perm := List.perm_insertionSort (· ≤ ·) l
  have sorted : (l.insertionSort (· ≤ ·)).SortedLT :=
    List.sortedLE_insertionSort.sortedLT_of_nodup (perm.nodup_iff.mpr nodup)
  rw [excess, mem_take_of_sorted sorted (by rw [perm.length_eq]; omega), perm.mem_iff,
    perm.countP_eq, perm.length_eq]
  refine and_congr_right fun mem => ?_
  -- the element itself is not among the greater ones
  have fewer : l.countP (fun b => decide (a < b)) < l.length := by
    refine lt_of_le_of_ne List.countP_le_length fun all => ?_
    exact lt_irrefl a (of_decide_eq_true (List.countP_eq_length.mp all a mem))
  omega

/-- No more are left than are to be kept. -/
theorem length_le_of_notMem_excess {keep : ℕ} {l left : List α} (nodup : left.Nodup)
    (rest : ∀ a ∈ left, a ∈ l ∧ a ∉ excess keep l) : left.length ≤ keep := by
  let sorted := l.insertionSort (· ≤ ·)
  have perm : sorted.Perm l := List.perm_insertionSort (· ≤ ·) l
  have inside : left ⊆ sorted.drop (l.length - keep) := by
    intro a mem
    have visited : a ∈ sorted.take (l.length - keep) ++ sorted.drop (l.length - keep) := by
      rw [List.take_append_drop]
      exact perm.mem_iff.mpr (rest a mem).1
    exact (List.mem_append.mp visited).resolve_left (rest a mem).2
  have le := (List.subperm_of_subset nodup inside).length_le
  rw [List.length_drop, perm.length_eq] at le
  omega

end Excess

end Relational
