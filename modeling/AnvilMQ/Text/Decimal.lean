import Mathlib.Algebra.Order.Group.Nat
import Mathlib.Data.List.Lex

/-!
# Zero-padded decimals

Numbers that are written with zeros on the left to a fixed width sort as texts the way they sort
as numbers, as long as they fit the width.
-/

namespace Text

universe u

variable {α : Type u} [LT α]

/-- Lists of one length that differ decide the order of what they begin. -/
theorem append_lt_append {a b s t : List α} (same : a.length = b.length) (lt : a < b) :
    a ++ s < b ++ t := by
  induction a generalizing b with
  | nil =>
    obtain rfl : b = [] := List.length_eq_zero_iff.mp same.symm
    exact absurd lt (List.not_lt_nil [])
  | cons x a ih =>
    cases b with
    | nil => cases same
    | cons y b =>
      rw [List.cons_lt_cons_iff] at lt
      rw [List.cons_append, List.cons_append, List.cons_lt_cons_iff]
      exact lt.imp_right fun ⟨head, tail⟩ => ⟨head, ih (Nat.succ.inj same) tail⟩

/-- The decimal digits of a number with zeros on the left to fill a width. -/
def zeroPadded (width n : ℕ) : List Char :=
  List.replicate (width - (Nat.toDigits 10 n).length) '0' ++ Nat.toDigits 10 n

theorem length_zeroPadded {width n : ℕ} (positive : 0 < width) (fits : n < 10 ^ width) :
    (zeroPadded width n).length = width := by
  have short := (Nat.length_toDigits_le_iff (by decide) positive).mpr fits
  rw [zeroPadded, List.length_append, List.length_replicate]
  omega

/-- The last digit of a padded number stands after the padded rest. -/
theorem zeroPadded_succ {width : ℕ} (positive : 0 < width) (n : ℕ) :
    zeroPadded (width + 1) n = zeroPadded width (n / 10) ++ [(n % 10).digitChar] := by
  unfold zeroPadded
  by_cases small : n < 10
  · rw [Nat.toDigits_of_lt_base small, Nat.div_eq_of_lt small, Nat.mod_eq_of_lt small,
      Nat.toDigits_of_lt_base (by decide), List.length_singleton]
    show List.replicate width '0' ++ _ = List.replicate (width - 1) '0' ++ ['0'] ++ _
    rw [← List.replicate_succ', Nat.sub_add_cancel positive]
  · rw [Nat.toDigits_of_base_le (by decide) (not_lt.mp small), List.length_append,
      List.length_singleton, Nat.add_sub_add_right, List.append_assoc]

/-- **Padded decimals sort as their numbers**, under any code that keeps the order of the
digits. -/
theorem zeroPadded_lt {code : Char → α}
    (codes : ∀ a b : ℕ, a < b → b < 10 → code a.digitChar < code b.digitChar)
    {width m n : ℕ} (positive : 0 < width) (fits : n < 10 ^ width) (lt : m < n) :
    (zeroPadded width m).map code < (zeroPadded width n).map code := by
  induction width, positive using Nat.le_induction generalizing m n with
  | base =>
    have digit : n < 10 := by simpa using fits
    have digit' : m < 10 := lt.trans digit
    rw [zeroPadded, zeroPadded, Nat.toDigits_of_lt_base digit, Nat.toDigits_of_lt_base digit']
    exact List.cons_lt_cons_iff.mpr (.inl (codes m n lt digit))
  | succ width positive ih =>
    rw [zeroPadded_succ positive, zeroPadded_succ positive, List.map_append, List.map_append]
    have fits' : n / 10 < 10 ^ width := by
      rw [Nat.div_lt_iff_lt_mul (by decide), ← Nat.pow_succ]
      exact fits
    rcases Nat.lt_or_ge (m / 10) (n / 10) with above | below
    · -- the rests differ, and they have one length
      refine append_lt_append ?_ (ih fits' above)
      rw [List.length_map, List.length_map, length_zeroPadded positive fits',
        length_zeroPadded positive (above.trans fits')]
    · have same : m / 10 = n / 10 := le_antisymm (Nat.div_le_div_right lt.le) below
      rw [same]
      refine List.append_left_lt (List.cons_lt_cons_iff.mpr (.inl ?_))
      exact codes _ _ (by omega) (Nat.mod_lt _ (by decide))

end Text
