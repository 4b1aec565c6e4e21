/-
# The field of the sketch

The arithmetic of `src/matmul/int8_field.cpp` modulo `q = 2 ^ 61 - 1`, and the limits on the
dimension that keep the integer products before it exact.
-/

import Btx.Util.MersenneFold

namespace Btx.Matmul.Int8Field

open Util

/-- `kBalancedBound`. -/
def balancedBound : ℕ := 125

/-- `kElementSqBound`. -/
def elementSqBound : ℕ := balancedBound * balancedBound

/-- `kMaxHeaderDim`. -/
def maxHeaderDim : ℕ := 65535

/-- `CheckAccumulationBound`. -/
def checkAccumulationBound (n : ℕ) : Bool := n * elementSqBound < 2 ^ 30

/-- `kFieldPrime`. -/
def fieldPrime : ℕ := 2 ^ 61 - 1

/-- `Fq`: a `uint64_t` below the modulus. -/
abbrev Fq := Fin fieldPrime

instance neZeroFieldPrime : NeZero fieldPrime := ⟨by decide⟩

/-- The words of `FqReduce` before the subtraction. -/
def fqFold (x : ℕ) : ℕ := fold 61 ((x % 2 ^ 61 + x / 2 ^ 61 % 2 ^ 64) % 2 ^ 64)

theorem fqFold_lt (x : ℕ) : fqFold x < 2 * fieldPrime := by
  have := Nat.mod_lt (x % 2 ^ 61 + x / 2 ^ 61 % 2 ^ 64) (show 0 < 2 ^ 64 by decide)
  unfold fqFold fold fieldPrime
  omega

/-- `FqReduce`. -/
def fqReduce (x : ℕ) : Fq := ⟨subtractOnce fieldPrime (fqFold x), subtractOnce_lt (fqFold_lt x)⟩

/-- `FqAdd`. -/
def fqAdd (a b : Fq) : Fq := addMod a b

/-- `FqMul`. -/
def fqMul (a b : Fq) : Fq := fqReduce (a.val * b.val)

/-- `FqNeg`. -/
def fqNeg (a : Fq) : Fq := if h : a = 0 then 0 else ⟨fieldPrime - a.val, by
  have : a.val ≠ 0 := fun hval => h (Fin.ext hval)
  omega⟩

/-- `FqFromSigned`. -/
def fqFromSigned (x : ℤ) : Fq :=
  if 0 ≤ x then fqReduce x.toNat else fqNeg (fqReduce ((-(x + 1)).toNat + 1))

/-- `FqFromInt32`. -/
def fqFromInt32 (x : ℤ) : Fq := fqFromSigned x

/-! ## Residues -/

variable {a b : Fq} {x : ℕ}

/-- **`FqReduce` keeps the residue.** -/
theorem residue_fqReduce (hx : x < 2 ^ 122) : residue (fqReduce x) = x := by
  have hhi : x / 2 ^ 61 < 2 ^ 61 := Nat.div_lt_of_lt_mul (by rwa [← pow_add])
  have hsum : (x % 2 ^ 61 + x / 2 ^ 61 % 2 ^ 64) % 2 ^ 64 = fold 61 x := by
    have := Nat.mod_lt x (show 0 < 2 ^ 61 by decide)
    unfold fold
    omega
  have hmod : fqFold x % fieldPrime = x % fieldPrime := by
    rw [fqFold, hsum, show fieldPrime = 2 ^ 61 - 1 from rfl, fold_mod, fold_mod]
  rw [residue, fqReduce, cast_subtractOnce (fqFold_lt x), ← ZMod.natCast_mod, hmod,
    ZMod.natCast_mod]

@[simp] theorem residue_fqAdd : residue (fqAdd a b) = residue a + residue b := residue_addMod a b

@[simp] theorem residue_fqMul : residue (fqMul a b) = residue a * residue b := by
  have hlt : a.val * b.val < 2 ^ 122 :=
    calc a.val * b.val < 2 ^ 61 * 2 ^ 61 :=
          Nat.mul_lt_mul'' (a.isLt.trans (by decide)) (b.isLt.trans (by decide))
      _ = 2 ^ 122 := by rw [← pow_add]
  rw [fqMul, residue_fqReduce hlt, Nat.cast_mul, residue, residue]

@[simp] theorem residue_fqNeg : residue (fqNeg a) = -residue a := by
  unfold fqNeg
  split_ifs with h
  · rw [h, residue_zero, neg_zero]
  · rw [residue, residue, Nat.cast_sub a.isLt.le, ZMod.natCast_self, zero_sub]

/-- **A signed word has its residue.** -/
theorem residue_fqFromSigned {z : ℤ} (hz : |z| ≤ 2 ^ 63) : residue (fqFromSigned z) = z := by
  rw [abs_le] at hz
  unfold fqFromSigned
  split_ifs with h
  · rw [residue_fqReduce (by omega), ← Int.cast_natCast, Int.toNat_of_nonneg h]
  · have hmagnitude : (((-(z + 1)).toNat + 1 : ℕ) : ℤ) = -z := by omega
    rw [residue_fqNeg, residue_fqReduce (by omega), ← Int.cast_natCast, hmagnitude, Int.cast_neg,
      neg_neg]

end Btx.Matmul.Int8Field
