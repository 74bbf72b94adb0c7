import Mathlib.Algebra.Order.Group.Nat
import Mathlib.Data.List.Basic

/-!
# Base64

The alphabet of RFC 4648 and its strict decoder: padding ends the text, and the bits that a padded
group leaves over are zero.
-/

namespace Base64

/-- The sextet a character stands for. -/
def value (c : Char) : Option ℕ :=
  if 'A' ≤ c ∧ c ≤ 'Z' then some (c.toNat - 65)
  else if 'a' ≤ c ∧ c ≤ 'z' then some (c.toNat - 71)
  else if '0' ≤ c ∧ c ≤ '9' then some (c.toNat + 4)
  else if c = '+' then some 62
  else if c = '/' then some 63
  else none

@[simp]
theorem value_pad : value '=' = none := rfl

theorem ne_pad_of_value {c : Char} {x : ℕ} (spelled : value c = some x) : c ≠ '=' := by
  rintro rfl
  cases spelled

/-! ## Sextets -/

/-- Three bytes as one number. -/
def word (b₀ b₁ b₂ : UInt8) : ℕ := b₀.toNat * 65536 + b₁.toNat * 256 + b₂.toNat

/-- A sextet of a number, the last one first. -/
def sextet (n i : ℕ) : ℕ := n / 2 ^ (6 * i) % 64

/-- The bytes that four sextets make up. -/
def bytesOf (x y z w : ℕ) : List UInt8 :=
  [.ofNat (x * 4 + y / 16), .ofNat (y % 16 * 16 + z / 4), .ofNat (z % 4 * 64 + w)]

theorem ofNat_eq_of_eq_toNat {n : ℕ} {b : UInt8} (same : n = b.toNat) : UInt8.ofNat n = b := by
  rw [same, UInt8.ofNat_toNat]

/-- **The sextets of three bytes make up these bytes.** -/
theorem bytesOf_word (b₀ b₁ b₂ : UInt8) :
    bytesOf (sextet (word b₀ b₁ b₂) 3) (sextet (word b₀ b₁ b₂) 2) (sextet (word b₀ b₁ b₂) 1)
      (sextet (word b₀ b₁ b₂) 0) = [b₀, b₁, b₂] := by
  have lt₀ := b₀.toNat_lt
  have lt₁ := b₁.toNat_lt
  have lt₂ := b₂.toNat_lt
  simp only [bytesOf, sextet, word]
  congr 1
  · exact ofNat_eq_of_eq_toNat (by omega)
  congr 1
  · exact ofNat_eq_of_eq_toNat (by omega)
  congr 1
  exact ofNat_eq_of_eq_toNat (by omega)

/-- Without the last byte the last sextet is zero, and so are two bits of the one before. -/
theorem sextet_word_two (b₀ b₁ : UInt8) :
    sextet (word b₀ b₁ 0) 0 = 0 ∧ sextet (word b₀ b₁ 0) 1 % 4 = 0 := by
  simp only [sextet, word, UInt8.toNat_zero]
  omega

/-- Without the last two bytes the last two sextets are zero, and so are four bits of the one
before. -/
theorem sextet_word_one (b₀ : UInt8) :
    sextet (word b₀ 0 0) 0 = 0 ∧ sextet (word b₀ 0 0) 1 = 0 ∧ sextet (word b₀ 0 0) 2 % 16 = 0 := by
  simp only [sextet, word, UInt8.toNat_zero]
  omega

/-! ## The decoder -/

/-- The strict decoder. -/
def decode : List Char → Option (List UInt8)
  | [] => some []
  | a :: b :: c :: d :: rest => do
    let x ← value a
    let y ← value b
    if c = '=' then
      -- one byte, and four bits that are left over
      if d = '=' ∧ rest = [] ∧ y % 16 = 0 then some ((bytesOf x y 0 0).take 1) else none
    else
      let z ← value c
      if d = '=' then
        -- two bytes, and two bits that are left over
        if rest = [] ∧ z % 4 = 0 then some ((bytesOf x y z 0).take 2) else none
      else
        let w ← value d
        let bytes ← decode rest
        some (bytesOf x y z w ++ bytes)
  | _ => none

section Groups

variable {a b c d : Char} {x y z w : ℕ}

theorem decode_full (spells₀ : value a = some x) (spells₁ : value b = some y)
    (spells₂ : value c = some z) (spells₃ : value d = some w) (rest : List Char) :
    decode (a :: b :: c :: d :: rest) = (decode rest).map (bytesOf x y z w ++ ·) := by
  rw [decode, spells₀, spells₁, spells₂, spells₃]
  simp only [Option.bind_eq_bind, Option.bind_some, ne_pad_of_value spells₂,
    ne_pad_of_value spells₃, if_false]
  cases decode rest <;> rfl

theorem decode_two (spells₀ : value a = some x) (spells₁ : value b = some y)
    (spells₂ : value c = some z) (clean : z % 4 = 0) :
    decode [a, b, c, '='] = some ((bytesOf x y z 0).take 2) := by
  rw [decode, spells₀, spells₁, spells₂]
  simp [ne_pad_of_value spells₂, clean]

theorem decode_one (spells₀ : value a = some x) (spells₁ : value b = some y)
    (clean : y % 16 = 0) : decode [a, b, '=', '='] = some ((bytesOf x y 0 0).take 1) := by
  rw [decode, spells₀, spells₁]
  simp [clean]

end Groups

/-! ## The groups of an encoding -/

/-- The four characters spell the sextets of three bytes. -/
structure Spells (b₀ b₁ b₂ : UInt8) (a b c d : Char) : Prop where
  first : value a = some (sextet (word b₀ b₁ b₂) 3)
  second : value b = some (sextet (word b₀ b₁ b₂) 2)
  third : value c = some (sextet (word b₀ b₁ b₂) 1)
  fourth : value d = some (sextet (word b₀ b₁ b₂) 0)

namespace Spells

variable {b₀ b₁ b₂ : UInt8} {a b c d : Char}

/-- Three bytes in front of a rest. -/
theorem decode_full (spells : Spells b₀ b₁ b₂ a b c d) (rest : List Char) :
    decode (a :: b :: c :: d :: rest) = (decode rest).map ([b₀, b₁, b₂] ++ ·) := by
  rw [Base64.decode_full spells.first spells.second spells.third spells.fourth, bytesOf_word]

/-- Two bytes at the end. -/
theorem decode_two (spells : Spells b₀ b₁ 0 a b c d) : decode [a, b, c, '='] = some [b₀, b₁] := by
  obtain ⟨last, clean⟩ := sextet_word_two b₀ b₁
  have bytes := bytesOf_word b₀ b₁ 0
  rw [last] at bytes
  rw [Base64.decode_two spells.first spells.second spells.third clean, bytes, List.take_succ_cons,
    List.take_succ_cons, List.take_zero]

/-- One byte at the end. -/
theorem decode_one (spells : Spells b₀ 0 0 a b c d) : decode [a, b, '=', '='] = some [b₀] := by
  obtain ⟨last, third, clean⟩ := sextet_word_one b₀
  have bytes := bytesOf_word b₀ 0 0
  rw [last, third] at bytes
  rw [Base64.decode_one spells.first spells.second clean, bytes, List.take_succ_cons,
    List.take_zero]

end Spells

/-! ## Padding -/

/-- The text is written in the alphabet, up to the padding that ends it. -/
def Padded (text : List Char) (padding : ℕ) : Prop :=
  ∃ symbols, (∀ c ∈ symbols, (value c).isSome) ∧ text = symbols ++ List.replicate padding '='

namespace Padded

theorem nil : Padded [] 0 := ⟨[], by simp, rfl⟩

theorem append {front text : List Char} {padding : ℕ} (unpadded : Padded front 0)
    (padded : Padded text padding) : Padded (front ++ text) padding := by
  obtain ⟨symbols, spelled, rfl⟩ := unpadded
  obtain ⟨symbols', spelled', rfl⟩ := padded
  refine ⟨symbols ++ symbols', ?_, by simp⟩
  intro c mem
  exact (List.mem_append.mp mem).elim (spelled c) (spelled' c)

end Padded

end Base64
