import Cairn.Library.LittleEndian

/-!
Owns fixed-width big-endian integers over bytes, as the reverse of the little-endian ones,
with their round trips in both directions.
-/

set_option autoImplicit false

namespace Cairn.Library.BigEndian

/-- The low `width` bytes of a number, highest first. -/
def encode (width value : Nat) : List UInt8 := (LittleEndian.encode width value).reverse

/-- The number a byte sequence spells. -/
def decode (bytes : List UInt8) : Nat := LittleEndian.decode bytes.reverse

@[simp] theorem encode_length (width value : Nat) : (encode width value).length = width := by
  simp [encode]

theorem decode_encode {width value : Nat} (fits : value < 256 ^ width) :
    decode (encode width value) = value := by
  rw [decode, encode, List.reverse_reverse, LittleEndian.decode_encode fits]

theorem little_decode_lt (bytes : List UInt8) : LittleEndian.decode bytes < 256 ^ bytes.length := by
  induction bytes with
  | nil => exact Nat.one_pos
  | cons byte rest inductionHypothesis =>
      have low := byte.toNat_lt
      rw [LittleEndian.decode, List.length_cons, pow_succ]
      omega

theorem little_encode_decode (bytes : List UInt8) :
    LittleEndian.encode bytes.length (LittleEndian.decode bytes) = bytes := by
  induction bytes with
  | nil => rfl
  | cons byte rest inductionHypothesis =>
      have low := byte.toNat_lt
      have high : (byte.toNat + 256 * LittleEndian.decode rest) / 256 = LittleEndian.decode rest := by
        omega
      have first : UInt8.ofNat (byte.toNat + 256 * LittleEndian.decode rest) = byte := by
        refine UInt8.toNat.inj ?_
        rw [UInt8.toNat_ofNat']
        omega
      rw [LittleEndian.decode, List.length_cons, LittleEndian.encode, high, first,
        inductionHypothesis]

theorem decode_lt (bytes : List UInt8) : decode bytes < 256 ^ bytes.length := by
  have bound := little_decode_lt bytes.reverse
  rwa [List.length_reverse] at bound

/-- The bytes of the number that they spell. -/
theorem encode_decode (bytes : List UInt8) : encode bytes.length (decode bytes) = bytes := by
  have same := little_encode_decode bytes.reverse
  rw [List.length_reverse] at same
  rw [encode, decode, same, List.reverse_reverse]

/-- A text of so many bytes is the encoding of what it spells. -/
theorem eq_encode {bytes : List UInt8} {width value : Nat} (long : bytes.length = width)
    (spells : decode bytes = value) : bytes = encode width value := by
  rw [← long, ← spells, encode_decode]

end Cairn.Library.BigEndian
