import Mathlib.Data.Nat.Digits.Defs
import LinuxExercises.Foundations.Buffer

/-!
# Little-endian integers in memory

An unsigned integer is kept in memory as its digits to the base 256, the lowest first.
Encoding to a fixed width and decoding gives the integer up to that width
(`decode_encode`). An integer read with a larger width than it was stored with has the
same low digits and other high ones (`decode_append`).
-/

set_option autoImplicit false

namespace LinuxExercises.Foundations

namespace LittleEndian

/-- The integer whose digits are the bytes. -/
def decode (bytes : List Byte) : Nat := Nat.ofDigits 256 (bytes.map UInt8.toNat)

/-- The lowest digits of an integer, as many as the width says. -/
def encode : Nat → Nat → List Byte
  | 0, _ => []
  | width + 1, n => UInt8.ofNat n :: encode width (n / 256)

@[simp] theorem length_encode (width n : Nat) : (encode width n).length = width := by
  induction width generalizing n with
  | zero => rfl
  | succ width ih => rw [encode, List.length_cons, ih]

theorem decode_cons (b : Byte) (bytes : List Byte) :
    decode (b :: bytes) = b.toNat + 256 * decode bytes := by
  rw [decode, List.map_cons, Nat.ofDigits_cons]
  rfl

theorem decode_append (low high : List Byte) :
    decode (low ++ high) = decode low + 256 ^ low.length * decode high := by
  rw [decode, List.map_append, Nat.ofDigits_append, List.length_map]
  rfl

/-- Encoding keeps what fits the width. -/
theorem decode_encode (width n : Nat) : decode (encode width n) = n % 256 ^ width := by
  induction width generalizing n with
  | zero => rw [encode, Nat.pow_zero, Nat.mod_one]; rfl
  | succ width ih =>
      rw [encode, decode_cons, ih, @Nat.pow_succ' 256 width, Nat.mod_mul]
      rfl

end LittleEndian

end LinuxExercises.Foundations
