import Mathlib.Data.List.Basic
import Mathlib.Data.Nat.Init
import Mathlib.Order.Nat
import Mathlib.Logic.Function.Iterate

/-!
# Backlogs worked off in batches

A worker takes the first `size` entries of an ordered backlog, again and again.  What
succeeds leaves the backlog; what fails keeps its place.  Failures therefore collect at
the head, and an entry gets its turn exactly when fewer than `size` failures are ahead
of it: otherwise they fill every batch.
-/

namespace Backlog

variable {α : Type*}

/-- The backlog after a batch: the failures of the batch, and the rest. -/
def advance (fails : α → Bool) (size : ℕ) (l : List α) : List α :=
  (l.take size).filter fails ++ l.drop size

variable {fails : α → Bool} {size : ℕ} {x : α} {l before after : List α}

theorem advance_sublist : (advance fails size l).Sublist l := by
  have parts := (List.filter_sublist (p := fails) (l := l.take size)).append_right (l.drop size)
  rwa [List.take_append_drop] at parts

theorem iterate_advance_sublist (n : ℕ) : ((advance fails size)^[n] l).Sublist l := by
  induction n with
  | zero => exact List.Sublist.refl l
  | succ n ih =>
    rw [Function.iterate_succ_apply']
    exact advance_sublist.trans ih

/-- A batch loses no failure. -/
theorem filter_advance : (advance fails size l).filter fails = l.filter fails := by
  unfold advance
  rw [List.filter_append, List.filter_filter]
  simp only [Bool.and_self]
  rw [← List.filter_append, List.take_append_drop]

/-- Ahead of an entry the batch does not reach, the backlog advances by itself. -/
theorem advance_append (unreached : size ≤ before.length) :
    advance fails size (before ++ after) = advance fails size before ++ after := by
  unfold advance
  rw [List.take_append_of_le_length unreached, List.drop_append_of_le_length unreached,
    List.append_assoc]

/-- A batch that is not all failures shortens the backlog. -/
theorem length_advance_lt (full : size ≤ l.length) (few : (l.filter fails).length < size) :
    (advance fails size l).length < l.length := by
  have failures : ((l.take size).filter fails).length ≤ (l.filter fails).length :=
    ((List.take_sublist size l).filter fails).length_le
  unfold advance
  rw [List.length_append, List.length_drop]
  omega

theorem mem_take_iff (fresh : x ∉ before) :
    x ∈ (before ++ x :: after).take size ↔ before.length < size := by
  constructor
  · intro taken
    by_contra short
    rw [List.take_append_of_le_length (not_lt.mp short)] at taken
    exact fresh (List.mem_of_mem_take taken)
  · intro reached
    rw [List.mem_take_iff_getElem]
    refine ⟨before.length, ?_, List.getElem_append_right (Nat.le_refl _) |>.trans (by simp)⟩
    rw [List.length_append, List.length_cons]
    omega

/-- Fewer failures than a batch holds are passed, one batch after the other. -/
theorem taken_of_few (after : List α) (fresh : x ∉ before)
    (few : (before.filter fails).length < size) :
    ∃ n ≤ before.length, x ∈ ((advance fails size)^[n] (before ++ x :: after)).take size := by
  -- what is ahead gets shorter with every batch that does not reach the entry
  induction shorter : before.length using Nat.strong_induction_on generalizing before with
  | _ ahead ih =>
    subst shorter
    by_cases reached : before.length < size
    · exact ⟨0, Nat.zero_le _, (mem_take_iff fresh).mpr reached⟩
    · have full := not_lt.mp reached
      have drops : (advance fails size before).length < before.length :=
        length_advance_lt full few
      obtain ⟨n, le, taken⟩ := ih _ drops (fun mem => fresh (advance_sublist.subset mem))
        (by rwa [filter_advance]) rfl
      refine ⟨n + 1, by omega, ?_⟩
      rwa [Function.iterate_succ_apply, advance_append full]

/-- As many failures as a batch holds are never passed. -/
theorem not_taken_of_many (fresh : x ∉ before) (many : size ≤ (before.filter fails).length)
    (n : ℕ) : x ∉ ((advance fails size)^[n] (before ++ x :: after)).take size := by
  have full : size ≤ before.length := many.trans (List.length_filter_le _ _)
  induction n generalizing before with
  | zero => exact fun taken => absurd ((mem_take_iff fresh).mp taken) (not_lt.mpr full)
  | succ n ih =>
    rw [Function.iterate_succ_apply, advance_append full]
    have kept : size ≤ ((advance fails size before).filter fails).length := by
      rwa [filter_advance]
    exact ih (fun mem => fresh (advance_sublist.subset mem)) kept
      (kept.trans (List.length_filter_le _ _))

/-- **An entry gets its turn exactly when the failures ahead of it do not fill a
batch.** -/
theorem taken_iff (fresh : x ∉ before) :
    (∃ n < (before ++ x :: after).length,
      x ∈ ((advance fails size)^[n] (before ++ x :: after)).take size) ↔
      (before.filter fails).length < size := by
  constructor
  · rintro ⟨n, -, taken⟩
    by_contra many
    exact not_taken_of_many fresh (not_lt.mp many) n taken
  · intro few
    obtain ⟨n, le, taken⟩ := taken_of_few after fresh few
    refine ⟨n, ?_, taken⟩
    rw [List.length_append, List.length_cons]
    omega

end Backlog
