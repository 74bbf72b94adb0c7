import AnvilMQ.Endpoints
import AnvilMQ.Text.Base64

/-!
# Payload bytes as text

`job_detail` embeds bytes that are not JSON as base64.  The encoder packs three bytes at a time
into a machine word and cuts the word into sextets; the decoder of RFC 4648 gets the bytes back.
-/

namespace AnvilMQ

open Rust Base64

/-! ## The word of a chunk -/

/-- A byte that is moved to the left by two bytes at most is not cut off. -/
theorem toNat_toUInt32_shiftLeft (b : UInt8) {k : UInt32} (fits : k.toNat ≤ 16) :
    (b.toUInt32 <<< k).toNat = b.toNat <<< k.toNat := by
  have lt := b.toNat_lt
  have scale : b.toNat * 2 ^ k.toNat ≤ 255 * 2 ^ 16 :=
    Nat.mul_le_mul (by omega) (Nat.pow_le_pow_right (by decide) fits)
  rw [UInt32.toNat_shiftLeft, UInt8.toNat_toUInt32, Nat.mod_eq_of_lt (by omega : k.toNat < 32),
    Nat.shiftLeft_eq]
  exact Nat.mod_eq_of_lt (by omega)

/-- `(b0 << 16) | (b1 << 8) | b2`. -/
theorem toNat_pack (b₀ b₁ b₂ : UInt8) :
    ((b₀.toUInt32 <<< 16) ||| (b₁.toUInt32 <<< 8) ||| b₂.toUInt32).toNat = word b₀ b₁ b₂ := by
  have lt₀ := b₀.toNat_lt
  have lt₁ := b₁.toNat_lt
  have lt₂ := b₂.toNat_lt
  have high : (b₀.toUInt32 <<< 16).toNat = b₀.toNat <<< 16 :=
    toNat_toUInt32_shiftLeft b₀ (by decide)
  have middle : (b₁.toUInt32 <<< 8).toNat = b₁.toNat <<< 8 :=
    toNat_toUInt32_shiftLeft b₁ (by decide)
  rw [UInt32.toNat_or, UInt32.toNat_or, high, middle, UInt8.toNat_toUInt32]
  -- the bytes do not overlap, so that the disjunctions are sums
  have join : b₀.toNat <<< 16 ||| b₁.toNat <<< 8 = (b₀.toNat * 256 + b₁.toNat) <<< 8 := by
    rw [← Nat.shiftLeft_add_eq_or_of_lt (by rw [Nat.shiftLeft_eq]; omega)]
    simp only [Nat.shiftLeft_eq]
    omega
  rw [join, ← Nat.shiftLeft_add_eq_or_of_lt (by omega), Nat.shiftLeft_eq, word]
  omega

/-- The alphabet lists the characters by the sextets they stand for. -/
theorem value_base64Alphabet : ∀ i : Fin 64, value (base64Alphabet.get i) = some i.val := by
  decide

/-- The character of a word stands for its last sextet. -/
theorem value_base64Symbol (n : UInt32) : value (base64Symbol n) = some (n.toNat % 64) := by
  have last : (n &&& 63).toNat = n.toNat % 64 := by
    rw [UInt32.toNat_and]
    exact Nat.and_two_pow_sub_one_eq_mod n.toNat 6
  rw [base64Symbol, value_base64Alphabet, ← last]

theorem value_base64Symbol_shiftRight (n k : UInt32) (i : ℕ) (shift : k.toNat = 6 * i)
    (small : k.toNat < 32) :
    value (base64Symbol (n >>> k)) = some (sextet n.toNat i) := by
  rw [value_base64Symbol, UInt32.toNat_shiftRight, Nat.mod_eq_of_lt small, shift,
    Nat.shiftRight_eq_div_pow, sextet]

/-! ## The characters of a chunk -/

/-- A chunk is written as the characters of its sextets, as many as its bytes reach. -/
theorem base64Chunk_spells (chunk : Bytes) :
    ∃ a b c d, Spells (chunk.getD 0 0) (chunk.getD 1 0) (chunk.getD 2 0) a b c d ∧
      base64Chunk chunk =
        [a, b, if 1 < chunk.length then c else '=', if 2 < chunk.length then d else '='] := by
  refine ⟨_, _, _, _, ⟨?_, ?_, ?_, ?_⟩, rfl⟩
  · rw [value_base64Symbol_shiftRight _ _ 3 rfl (by decide), toNat_pack]
  · rw [value_base64Symbol_shiftRight _ _ 2 rfl (by decide), toNat_pack]
  · rw [value_base64Symbol_shiftRight _ _ 1 rfl (by decide), toNat_pack]
  · rw [value_base64Symbol, toNat_pack, sextet, Nat.mul_zero, Nat.pow_zero, Nat.div_one]

@[simp]
theorem length_base64Chunk (chunk : Bytes) : (base64Chunk chunk).length = 4 := rfl

theorem padded_base64Chunk {chunk : Bytes} (nonempty : 0 < chunk.length)
    (short : chunk.length ≤ 3) : Padded (base64Chunk chunk) (3 - chunk.length) := by
  obtain ⟨a, b, c, d, spells, written⟩ := base64Chunk_spells chunk
  rw [written]
  have count : chunk.length = 1 ∨ chunk.length = 2 ∨ chunk.length = 3 := by omega
  rcases count with one | two | three
  · exact ⟨[a, b], by simp [spells.first, spells.second], by simp [one]⟩
  · exact ⟨[a, b, c], by simp [spells.first, spells.second, spells.third], by simp [two]⟩
  · exact ⟨[a, b, c, d], by simp [spells.first, spells.second, spells.third, spells.fourth],
      by simp [three]⟩

/-! ## The encoding -/

theorem toList_base64Encode (input : Bytes) :
    (base64Encode input).toList = (chunks3 input).flatMap base64Chunk := String.toList_ofList

/-- The decoder gets the bytes back. -/
theorem decode_base64Encode (input : Bytes) : decode (base64Encode input).toList = some input := by
  rw [toList_base64Encode]
  fun_induction chunks3 input with
  | case1 => rfl
  | case2 b₀ =>
    obtain ⟨a, b, c, d, spells, written⟩ := base64Chunk_spells [b₀]
    rw [List.flatMap_singleton, written]
    exact spells.decode_one
  | case3 b₀ b₁ =>
    obtain ⟨a, b, c, d, spells, written⟩ := base64Chunk_spells [b₀, b₁]
    rw [List.flatMap_singleton, written]
    exact spells.decode_two
  | case4 b₀ b₁ b₂ rest ih =>
    obtain ⟨a, b, c, d, spells, written⟩ := base64Chunk_spells [b₀, b₁, b₂]
    rw [List.flatMap_cons, written]
    have read := spells.decode_full ((chunks3 rest).flatMap base64Chunk)
    rw [ih] at read
    exact read

/-- Every chunk is written as four characters. -/
theorem length_base64Encode (input : Bytes) :
    (base64Encode input).length = 4 * ((input.length + 2) / 3) := by
  rw [← String.length_toList, toList_base64Encode]
  fun_induction chunks3 input with
  | case1 => rfl
  | case2 b₀ => rw [List.flatMap_singleton, length_base64Chunk, List.length_singleton]
  | case3 b₀ b₁ =>
    rw [List.flatMap_singleton, length_base64Chunk, List.length_cons, List.length_singleton]
  | case4 b₀ b₁ b₂ rest ih =>
    rw [List.flatMap_cons, List.length_append, length_base64Chunk, ih]
    simp only [List.length_cons]
    omega

/-- Only the last chunk is padded. -/
theorem padded_base64Encode (input : Bytes) :
    Padded (base64Encode input).toList ((3 - input.length % 3) % 3) := by
  rw [toList_base64Encode]
  fun_induction chunks3 input with
  | case1 => exact .nil
  | case2 b₀ =>
    rw [List.flatMap_singleton]
    exact (padded_base64Chunk (by simp) (by simp) : Padded (base64Chunk [b₀]) 2)
  | case3 b₀ b₁ =>
    rw [List.flatMap_singleton]
    exact (padded_base64Chunk (by simp) (by simp) : Padded (base64Chunk [b₀, b₁]) 1)
  | case4 b₀ b₁ b₂ rest ih =>
    have front : Padded (base64Chunk [b₀, b₁, b₂]) 0 := padded_base64Chunk (by simp) (by simp)
    have period : (b₀ :: b₁ :: b₂ :: rest).length % 3 = rest.length % 3 :=
      Nat.add_mod_right rest.length 3
    rw [List.flatMap_cons, period]
    exact front.append ih

/-- **Payload encoding is lossless.**  An encoding has four characters for every three bytes or
part of three bytes, all of the alphabet but for the padding at its end; the strict decoder gets
the bytes back; and so no two byte sequences have the same encoding. -/
theorem base64_encode_lossless :
    (∀ input : Bytes, (base64Encode input).length = 4 * ((input.length + 2) / 3) ∧
      Padded (base64Encode input).toList ((3 - input.length % 3) % 3) ∧
      decode (base64Encode input).toList = some input) ∧
    Function.Injective base64Encode := by
  refine ⟨fun input => ⟨length_base64Encode input, padded_base64Encode input,
    decode_base64Encode input⟩, ?_⟩
  intro input input' same
  have read := decode_base64Encode input
  rw [same, decode_base64Encode input'] at read
  exact (Option.some.inj read).symm

end AnvilMQ
