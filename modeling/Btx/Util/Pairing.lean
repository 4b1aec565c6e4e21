/-
# Tables as matrices

`entries` is the matrix of a table that is read by row and column number.
-/

import Mathlib.Data.Matrix.Mul
import Mathlib.Algebra.BigOperators.Fin

namespace Btx.Util

open Matrix Finset

variable {R S : Type*} [CommRing R] {rows cols inner : ℕ}

/-- The matrix with the entries that `f` gives for a row and a column number. -/
def entries (rows cols : ℕ) (f : ℕ → ℕ → S) : Matrix (Fin rows) (Fin cols) S :=
  of fun i j => f i j

@[simp] theorem entries_apply (f : ℕ → ℕ → S) (i : Fin rows) (j : Fin cols) :
    entries rows cols f i j = f i j := rfl

theorem entries_congr {f g : ℕ → ℕ → S} (h : ∀ i < rows, ∀ j < cols, f i j = g i j) :
    entries rows cols f = entries rows cols g :=
  Matrix.ext fun i j => h i i.isLt j j.isLt

theorem entries_mul (f g : ℕ → ℕ → R) : entries rows inner f * entries inner cols g =
    entries rows cols fun i j => ∑ t ∈ range inner, f i t * g t j := by
  ext i j
  simp only [mul_apply, entries_apply, sum_range]

end Btx.Util
