/-
# Reduction modulo a Mersenne number

Modulo `2 ^ k - 1` the high part of a number counts like the low part: `2 ^ k` is one
more than the modulus. So adding the two does not change the residue
(`fold_mod`), and repeated a few times it leaves a number from which the modulus is
subtracted once.
-/

import Mathlib.Data.ZMod.Basic

namespace Btx.Util

variable {k x m : ℕ}

/-- The low `k` bits plus the rest. -/
def fold (k x : ℕ) : ℕ := x % 2 ^ k + x / 2 ^ k

theorem fold_add (k x : ℕ) : fold k x + (2 ^ k - 1) * (x / 2 ^ k) = x := by
  have hpos : 1 ≤ 2 ^ k := Nat.one_le_two_pow
  have hsplit := Nat.mod_add_div x (2 ^ k)
  have hmul : 2 ^ k * (x / 2 ^ k) = (2 ^ k - 1) * (x / 2 ^ k) + x / 2 ^ k := by
    rw [Nat.sub_mul, one_mul, Nat.sub_add_cancel (Nat.le_mul_of_pos_left _ hpos)]
  unfold fold
  omega

/-- **A fold keeps the residue.** -/
theorem fold_mod (k x : ℕ) : fold k x % (2 ^ k - 1) = x % (2 ^ k - 1) := by
  conv_rhs => rw [← fold_add k x]
  rw [Nat.add_mul_mod_self_left]

/-- One conditional subtraction. -/
def subtractOnce (m x : ℕ) : ℕ := if m ≤ x then x - m else x

theorem subtractOnce_eq_mod (hx : x < 2 * m) : subtractOnce m x = x % m := by
  unfold subtractOnce
  split_ifs with h
  · rw [Nat.mod_eq_sub_mod h, Nat.mod_eq_of_lt (by omega)]
  · rw [Nat.mod_eq_of_lt (by omega)]

theorem subtractOnce_lt (hx : x < 2 * m) : subtractOnce m x < m := by
  rw [subtractOnce_eq_mod hx]
  exact Nat.mod_lt _ (by omega)

theorem cast_subtractOnce (hx : x < 2 * m) : (subtractOnce m x : ZMod m) = x := by
  rw [subtractOnce_eq_mod hx, ZMod.natCast_mod]

/-! ## Residues -/

/-- The residue class of a number below the modulus. -/
def residue (a : Fin m) : ZMod m := (a.val : ZMod m)

theorem residue_injective : Function.Injective (residue (m := m)) := fun a b h => by
  rw [residue, residue, ZMod.natCast_eq_natCast_iff', Nat.mod_eq_of_lt a.isLt,
    Nat.mod_eq_of_lt b.isLt] at h
  exact Fin.ext h

@[simp] theorem residue_zero [NeZero m] : residue (0 : Fin m) = 0 := by simp [residue]

/-- Addition with one conditional subtraction. -/
def addMod (a b : Fin m) : Fin m :=
  ⟨subtractOnce m (a.val + b.val), subtractOnce_lt (by have := a.isLt; have := b.isLt; omega)⟩

@[simp] theorem residue_addMod (a b : Fin m) : residue (addMod a b) = residue a + residue b := by
  have ha := a.isLt
  have hb := b.isLt
  rw [residue, addMod, cast_subtractOnce (by omega), Nat.cast_add, residue, residue]

end Btx.Util
