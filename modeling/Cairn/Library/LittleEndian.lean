import Mathlib.Algebra.Order.Ring.Nat
import Mathlib.Tactic.Ring

/-!
Owns fixed-width little-endian integers over bytes, unsigned and in two's
complement, with the round trip of every value that fits its width.
-/

set_option autoImplicit false

namespace Cairn.Library.LittleEndian

/-- The low `width` bytes of a number, lowest first. -/
def encode : Nat → Nat → List UInt8
  | 0, _ => []
  | width + 1, value => UInt8.ofNat value :: encode width (value / 256)

/-- The number a byte sequence spells. -/
def decode : List UInt8 → Nat
  | [] => 0
  | byte :: rest => byte.toNat + 256 * decode rest

/-- The number a byte sequence spells in two's complement. -/
def decodeSigned (bytes : List UInt8) : Int :=
  if 2 * decode bytes < 256 ^ bytes.length then decode bytes
  else (decode bytes : Int) - (256 ^ bytes.length : Nat)

@[simp] theorem encode_length (width value : Nat) : (encode width value).length = width := by
  induction width generalizing value with
  | zero => rfl
  | succ width inductionHypothesis => simp [encode, inductionHypothesis]

theorem decode_encode {width value : Nat} (fits : value < 256 ^ width) :
    decode (encode width value) = value := by
  induction width generalizing value with
  | zero =>
      simp only [pow_zero, Nat.lt_one_iff] at fits
      simp [encode, decode, fits]
  | succ width inductionHypothesis =>
      have high : value / 256 < 256 ^ width := by
        rw [pow_succ] at fits
        omega
      have low : (UInt8.ofNat value).toNat = value % 256 := by simp
      rw [encode, decode, inductionHypothesis high, low]
      omega

/-- A non-negative value survives if the sign bit of its width stays clear. -/
theorem decodeSigned_encode {width value : Nat} (fits : 2 * value < 256 ^ width) :
    decodeSigned (encode width value) = value := by
  have unsigned : decode (encode width value) = value := decode_encode (by omega)
  rw [decodeSigned, unsigned, encode_length, if_pos fits]

end Cairn.Library.LittleEndian
