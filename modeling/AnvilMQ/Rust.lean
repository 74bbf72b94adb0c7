import Mathlib.Algebra.Order.Ring.Unbundled.Rat
import Mathlib.Data.List.Infix
import Mathlib.Data.Rat.Defs

/-!
# The parts of Rust the broker computes with

Signed 64-bit arithmetic, the `f64` values a request can carry and the string
predicates of the validators.  Integers are unbounded; an operation whose
machine behaviour matters says so in its name (`checkedAdd`, `saturatingSub`).

An `f64` is `nan`, an infinity or a rational: the broker stores and compares
floats but never branches on how their arithmetic rounds.
-/

namespace Rust

/-- A blob column or a `Vec<u8>`. -/
abbrev Bytes := List UInt8

/-! ## Machine integers -/

/-- `i64::MAX`. -/
def i64Max : ℤ := 9223372036854775807

/-- `i64::MIN`. -/
def i64Min : ℤ := -9223372036854775808

/-- `u32::MAX`. -/
def u32Max : ℕ := 4294967295

/-- `a + b` in a release build: two's complement wrap-around. -/
def wrappingAdd (a b : ℤ) : ℤ := (a + b).bmod 18446744073709551616

/-- `n as i64` for an unsigned `n`: the low 64 bits. -/
def asI64 (n : ℕ) : ℤ := (n : ℤ).bmod 18446744073709551616

/-- Clamp an exact result into the `i64` range. -/
def saturate (x : ℤ) : ℤ := max i64Min (min i64Max x)

/-- `a.checked_add(b)`. -/
def checkedAdd (a b : ℤ) : Option ℤ :=
  if i64Min ≤ a + b ∧ a + b ≤ i64Max then some (a + b) else none

/-- `a.saturating_add(b)`. -/
def saturatingAdd (a b : ℤ) : ℤ := saturate (a + b)

/-- `a.saturating_sub(b)`. -/
def saturatingSub (a b : ℤ) : ℤ := saturate (a - b)

/-- `a.saturating_mul(b)`. -/
def saturatingMul (a b : ℤ) : ℤ := saturate (a * b)

theorem checkedAdd_eq_some {a b c : ℤ} (h : checkedAdd a b = some c) : c = a + b := by
  rw [checkedAdd] at h
  split at h
  · exact (Option.some.inj h).symm
  · cases h

/-! ## `Result` -/

/-- `x?` followed by `f` succeeds when both do. -/
theorem bind_eq_ok {ε α β : Type} {x : Except ε α} {f : α → Except ε β} {b : β} :
    x >>= f = .ok b ↔ ∃ a, x = .ok a ∧ f a = .ok b := by
  cases x with
  | error e => simp [bind, Except.bind]
  | ok a => simp [bind, Except.bind]

/-- A check that fails early was passed. -/
theorem guard_eq_ok {ε α : Type} {c : Prop} [Decidable c] {e : ε} {x : Except ε α} {a : α} :
    (if c then .error e else x) = .ok a ↔ ¬ c ∧ x = .ok a := by
  by_cases fails : c
  · simp [fails]
  · simp [fails]

/-- `x.map(f)` succeeds when `x` does. -/
theorem map_eq_ok {ε α β : Type} {x : Except ε α} {f : α → β} {b : β} :
    x.map f = .ok b ↔ ∃ a, x = .ok a ∧ f a = b := by
  cases x with
  | error e => simp [Except.map]
  | ok a => simp [Except.map]

/-- `x?` followed by `f` fails when `x` does, or `f` on the value of `x`. -/
theorem bind_eq_error {ε α β : Type} {x : Except ε α} {f : α → Except ε β} {e : ε} :
    x >>= f = .error e ↔ x = .error e ∨ ∃ a, x = .ok a ∧ f a = .error e := by
  cases x with
  | error e => simp [bind, Except.bind]
  | ok a => simp [bind, Except.bind]

/-! ## `f64` -/

/-- The `f64` values up to rounding: the two zeros are one value. -/
inductive F64
  | nan
  | infinite (negative : Bool)
  | finite (value : ℚ)
deriving DecidableEq

namespace F64

/-- `0.0`, the protobuf default. -/
def zero : F64 := finite 0

/-- `(0.0..=1.0).contains(&x)`, which is false on `nan`. -/
def inUnitInterval : F64 → Bool
  | finite value => decide (0 ≤ value) && decide (value ≤ 1)
  | _ => false

/-- `x.is_nan()`. -/
def isNan : F64 → Bool
  | nan => true
  | _ => false

/-- `x <= 0.0`, which is false on `nan`. -/
def nonpositive : F64 → Bool
  | nan => false
  | infinite negative => negative
  | finite value => decide (value ≤ 0)

end F64

/-- `x.round()` of a finite `f64`: to the nearest integer, half-way cases away from zero. -/
def roundHalfAway (x : ℚ) : ℤ := if 0 ≤ x then (x + 1 / 2).floor else -(-x + 1 / 2).floor

/-! ## `str` -/

/-- `char::is_whitespace`: the Unicode `White_Space` property. -/
def isWhitespace (c : Char) : Bool :=
  let n := c.toNat
  (9 ≤ n && n ≤ 13) || n == 32 || n == 0x85 || n == 0xA0 || n == 0x1680 ||
    (0x2000 ≤ n && n ≤ 0x200A) || n == 0x2028 || n == 0x2029 || n == 0x202F ||
    n == 0x205F || n == 0x3000

/-- `s.trim()`. -/
def trim (s : String) : String :=
  String.ofList ((s.toList.dropWhile isWhitespace).reverse.dropWhile isWhitespace).reverse

/-- `s.trim().is_empty()`. -/
def isBlank (s : String) : Bool := s.toList.all isWhitespace

/-- `s.contains(pattern)`. -/
def contains (s pattern : String) : Bool := decide (pattern.toList <:+: s.toList)

/-- The number a nonempty run of ASCII digits spells. -/
def parseDigits (digits : List Char) : Option ℕ :=
  if !digits.isEmpty && digits.all Char.isDigit then some (Nat.ofDigitChars 10 digits 0) else none

/-- `s.parse::<i64>()`: an optional sign and ASCII digits, in range. -/
def parseI64 (s : String) : Option ℤ :=
  let parsed : Option ℤ :=
    match s.toList with
    | '-' :: digits => (parseDigits digits).map fun n => -(n : ℤ)
    | '+' :: digits => (parseDigits digits).map Int.ofNat
    | digits => (parseDigits digits).map Int.ofNat
  parsed.filter fun n => decide (i64Min ≤ n) && decide (n ≤ i64Max)

theorem parseI64_le {s : String} {n : ℤ} (parsed : parseI64 s = some n) : n ≤ i64Max := by
  have inside := (Option.filter_eq_some_iff.mp parsed).2
  rw [Bool.and_eq_true] at inside
  exact of_decide_eq_true inside.2

/-- `s.len()`: the length in UTF-8 bytes. -/
def byteLen (s : String) : ℕ := s.utf8ByteSize

theorem ne_empty_of_not_isBlank {s : String} (h : isBlank s = false) : s ≠ "" := by
  rintro rfl
  exact absurd h (by decide)

end Rust
