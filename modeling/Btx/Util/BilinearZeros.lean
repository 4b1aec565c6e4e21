/-
# Zeros of a bilinear form over a finite field

A nonzero linear form on `k` coordinates vanishes on `q ^ (k - 1)` vectors (`card_hyperplane`). A
form `x ⬝ D y` vanishes where `D y` is zero or `x` is on the hyperplane of `D y`: together at most
two parts in `q` (`card_bilinear_zeros_le`).
-/

import Mathlib.FieldTheory.Finiteness
import Mathlib.LinearAlgebra.Dual.Lemmas
import Mathlib.LinearAlgebra.Matrix.DotProduct

namespace Btx.Util

open Matrix Finset

variable {F ι κ : Type*} [Field F] [Fintype F] [DecidableEq F] [Fintype ι] [Fintype κ]
  [DecidableEq ι] [DecidableEq κ]

/-- **A hyperplane.** -/
theorem card_hyperplane {v : ι → F} (hv : v ≠ 0) :
    (univ.filter fun x : ι → F => x ⬝ᵥ v = 0).card * Fintype.card F =
      Fintype.card F ^ Fintype.card ι := by
  let f : Module.Dual F (ι → F) :=
    { toFun := fun x => x ⬝ᵥ v
      map_add' := fun x y => add_dotProduct x y v
      map_smul' := fun c x => smul_dotProduct c x v }
  have hf : f ≠ 0 := fun h => hv <| funext fun i => by
    have := LinearMap.congr_fun h (Pi.single i 1)
    simpa [f] using this
  have hker : (univ.filter fun x : ι → F => x ⬝ᵥ v = 0).card = Nat.card (LinearMap.ker f) := by
    rw [Nat.subtype_card]
    intro x
    rw [mem_filter, LinearMap.mem_ker]
    exact and_iff_right (mem_univ x)
  have hrank := Module.Dual.finrank_ker_add_one_of_ne_zero hf
  rw [Module.finrank_fintype_fun_eq_card] at hrank
  rw [hker, Module.natCard_eq_pow_finrank (K := F), Nat.card_eq_fintype_card, ← hrank, pow_succ]

omit [DecidableEq ι] in
theorem card_ker_le {D : Matrix ι κ F} (hD : D ≠ 0) :
    (univ.filter fun y : κ → F => D *ᵥ y = 0).card * Fintype.card F ≤
      Fintype.card F ^ Fintype.card κ := by
  obtain ⟨i, hi⟩ : ∃ i, D i ≠ 0 := by
    by_contra h
    exact hD (funext fun i => not_not.1 fun hi => h ⟨i, hi⟩)
  rw [← card_hyperplane hi]
  refine Nat.mul_le_mul_right _ (card_le_card fun y hy => ?_)
  rw [mem_filter] at hy ⊢
  refine ⟨mem_univ y, ?_⟩
  rw [dotProduct_comm]
  exact congrFun hy.2 i

/-- **At most two parts in `q` of all pairs are zeros.** -/
theorem card_bilinear_zeros_le {D : Matrix ι κ F} (hD : D ≠ 0) :
    (univ.filter fun p : (ι → F) × (κ → F) => p.1 ⬝ᵥ (D *ᵥ p.2) = 0).card * Fintype.card F ≤
      2 * Fintype.card F ^ (Fintype.card ι + Fintype.card κ) := by
  set q := Fintype.card F with hq
  -- For each `y` the zeros `x`: all of them, or a hyperplane.
  have hfibre : ∀ y : κ → F, (univ.filter fun x : ι → F => x ⬝ᵥ (D *ᵥ y) = 0).card * q ≤
      (if D *ᵥ y = 0 then q ^ Fintype.card ι * q else 0) + q ^ Fintype.card ι := fun y => by
    split_ifs with hy
    · refine Nat.le_add_right_of_le (Nat.mul_le_mul_right q ?_)
      refine (card_filter_le _ _).trans ?_
      rw [card_univ, Fintype.card_fun, hq]
    · rw [card_hyperplane hy, zero_add]
  have hkernel := card_ker_le hD
  calc (univ.filter fun p : (ι → F) × (κ → F) => p.1 ⬝ᵥ (D *ᵥ p.2) = 0).card * q
      = ∑ y, (univ.filter fun x : ι → F => x ⬝ᵥ (D *ᵥ y) = 0).card * q := by
        rw [← sum_mul]
        congr 1
        simp only [card_filter, Fintype.sum_prod_type_right]
    _ ≤ ∑ y, ((if D *ᵥ y = 0 then q ^ Fintype.card ι * q else 0) + q ^ Fintype.card ι) :=
        sum_le_sum fun y _ => hfibre y
    _ = (univ.filter fun y : κ → F => D *ᵥ y = 0).card * q * q ^ Fintype.card ι +
        q ^ Fintype.card κ * q ^ Fintype.card ι := by
        rw [sum_add_distrib, ← sum_filter, sum_const, sum_const, card_univ, Fintype.card_fun,
          smul_eq_mul, smul_eq_mul]
        ring
    _ ≤ q ^ Fintype.card κ * q ^ Fintype.card ι + q ^ Fintype.card κ * q ^ Fintype.card ι :=
        Nat.add_le_add_right (Nat.mul_le_mul_right _ hkernel) _
    _ = 2 * q ^ (Fintype.card ι + Fintype.card κ) := by
        rw [pow_add]
        ring

end Btx.Util
