/-
# Byte strings written to a stream

The writing half of `src/serialize.h`: integers of a fixed width, counted byte
strings, and the two facts a hash preimage is read with: a field of fixed width
has its length, and its bytes determine it.
-/

import Mathlib.Data.List.Basic
import Mathlib.Tactic.Ring

namespace Btx.Util.Writer

/-- The `width` low bytes of a number, the least significant first. -/
def littleEndian : ℕ → ℕ → List UInt8
  | 0, _ => []
  | width + 1, n => UInt8.ofNat (n % 256) :: littleEndian width (n / 256)

/-- The `width` low bytes of a number, the most significant first. -/
def bigEndian (width n : ℕ) : List UInt8 := (littleEndian width n).reverse

/-- `WriteCompactSize`. -/
def compactSize (n : ℕ) : List UInt8 :=
  if n < 253 then littleEndian 1 n
  else if n ≤ 0xffff then 253 :: littleEndian 2 n
  else if n ≤ 0xffffffff then 254 :: littleEndian 4 n
  else 255 :: littleEndian 8 n

/-- A byte vector, with its size in front. -/
def counted (bytes : List UInt8) : List UInt8 := compactSize bytes.length ++ bytes

/-- A signed integer, in two's complement. -/
def signedLittleEndian (width : ℕ) (n : ℤ) : List UInt8 :=
  littleEndian width (n % 256 ^ width).toNat

@[simp] theorem littleEndian_length (width n : ℕ) : (littleEndian width n).length = width := by
  induction width generalizing n with
  | zero => rfl
  | succ width ih => rw [littleEndian, List.length_cons, ih]

@[simp] theorem bigEndian_length (width n : ℕ) : (bigEndian width n).length = width := by
  rw [bigEndian, List.length_reverse, littleEndian_length]

/-- **Fixed-width bytes determine the number**, if it fits. -/
theorem littleEndian_injective {width m n : ℕ} (hm : m < 256 ^ width) (hn : n < 256 ^ width)
    (h : littleEndian width m = littleEndian width n) : m = n := by
  induction width generalizing m n with
  | zero =>
    rw [pow_zero] at hm hn
    omega
  | succ width ih =>
    rw [littleEndian, littleEndian, List.cons.injEq] at h
    obtain ⟨hbyte, hrest⟩ := h
    have hlow : m % 256 = n % 256 := by
      have := congrArg UInt8.toNat hbyte
      simpa using this
    have hhigh : m / 256 = n / 256 := by
      refine ih ?_ ?_ hrest
      · rw [pow_succ] at hm
        omega
      · rw [pow_succ] at hn
        omega
    omega

theorem bigEndian_injective {width m n : ℕ} (hm : m < 256 ^ width) (hn : n < 256 ^ width)
    (h : bigEndian width m = bigEndian width n) : m = n :=
  littleEndian_injective hm hn (List.reverse_injective h)

end Btx.Util.Writer
