/-
# Evaluation at the roots of Xⁿ + 1, and the slots K[X]/(X⁴ − r)

A number-theoretic transform that stops at factors of degree four: a vector is evaluated at the
roots of `Xⁿ + 1` and interpolated back (`interpolate_eval`, `eval_interpolate`), and polynomials of
degree below four are multiplied modulo `X⁴ − r` in between (`Quartic`).
-/

import Mathlib.Algebra.Field.GeomSum
import Mathlib.LinearAlgebra.Matrix.NonsingularInverse

namespace Btx.Util

open Finset

/-! ## A slot -/

/-- `c0 + c1·X + c2·X² + c3·X³` modulo `X⁴ − r`. -/
@[ext] structure Quartic {K : Type*} (r : K) where
  c0 : K
  c1 : K
  c2 : K
  c3 : K
  deriving DecidableEq

namespace Quartic

variable {K : Type*} [CommRing K] {r : K}

instance : Zero (Quartic r) := ⟨⟨0, 0, 0, 0⟩⟩
instance : One (Quartic r) := ⟨⟨1, 0, 0, 0⟩⟩
instance : Add (Quartic r) := ⟨fun a b => ⟨a.c0 + b.c0, a.c1 + b.c1, a.c2 + b.c2, a.c3 + b.c3⟩⟩
instance : Neg (Quartic r) := ⟨fun a => ⟨-a.c0, -a.c1, -a.c2, -a.c3⟩⟩
instance : Sub (Quartic r) := ⟨fun a b => ⟨a.c0 - b.c0, a.c1 - b.c1, a.c2 - b.c2, a.c3 - b.c3⟩⟩

/-- The product, `X⁴` replaced by `r`. -/
instance : Mul (Quartic r) :=
  ⟨fun a b =>
    ⟨a.c0 * b.c0 + (a.c1 * b.c3 + a.c2 * b.c2 + a.c3 * b.c1) * r,
      a.c0 * b.c1 + a.c1 * b.c0 + (a.c2 * b.c3 + a.c3 * b.c2) * r,
      a.c0 * b.c2 + a.c1 * b.c1 + a.c2 * b.c0 + a.c3 * b.c3 * r,
      a.c0 * b.c3 + a.c1 * b.c2 + a.c2 * b.c1 + a.c3 * b.c0⟩⟩

@[simp] theorem zero_def : (0 : Quartic r) = ⟨0, 0, 0, 0⟩ := rfl
@[simp] theorem one_def : (1 : Quartic r) = ⟨1, 0, 0, 0⟩ := rfl

variable (a b : Quartic r)

@[simp] theorem add_def :
    a + b = ⟨a.c0 + b.c0, a.c1 + b.c1, a.c2 + b.c2, a.c3 + b.c3⟩ := rfl

@[simp] theorem neg_def (a : Quartic r) : -a = ⟨-a.c0, -a.c1, -a.c2, -a.c3⟩ := rfl

@[simp] theorem sub_def :
    a - b = ⟨a.c0 - b.c0, a.c1 - b.c1, a.c2 - b.c2, a.c3 - b.c3⟩ := rfl

@[simp] theorem mul_def :
    a * b = ⟨a.c0 * b.c0 + (a.c1 * b.c3 + a.c2 * b.c2 + a.c3 * b.c1) * r,
      a.c0 * b.c1 + a.c1 * b.c0 + (a.c2 * b.c3 + a.c3 * b.c2) * r,
      a.c0 * b.c2 + a.c1 * b.c1 + a.c2 * b.c0 + a.c3 * b.c3 * r,
      a.c0 * b.c3 + a.c1 * b.c2 + a.c2 * b.c1 + a.c3 * b.c0⟩ := rfl

/-- The coefficients, by exponent. -/
def coeff (a : Quartic r) : Fin 4 → K := ![a.c0, a.c1, a.c2, a.c3]

/-- The slot with given coefficients. -/
def ofCoeffs (e : Fin 4 → K) : Quartic r := ⟨e 0, e 1, e 2, e 3⟩

omit [CommRing K] in
@[simp] theorem coeff_ofCoeffs (e : Fin 4 → K) (c : Fin 4) :
    (ofCoeffs e : Quartic r).coeff c = e c := by
  fin_cases c <;> rfl

@[simp] theorem coeff_add (c : Fin 4) : (a + b).coeff c = a.coeff c + b.coeff c := by
  fin_cases c <;> rfl

omit [CommRing K] in
theorem ext_coeff {a b : Quartic r} (h : ∀ c, a.coeff c = b.coeff c) : a = b :=
  Quartic.ext (h 0) (h 1) (h 2) (h 3)

instance : CommRing (Quartic r) where
  add_assoc a b c := by ext <;> simp [add_assoc]
  zero_add a := by ext <;> simp
  add_zero a := by ext <;> simp
  add_comm a b := by ext <;> simp [add_comm]
  neg_add_cancel a := by ext <;> simp
  sub_eq_add_neg a b := by ext <;> simp [sub_eq_add_neg]
  left_distrib a b c := by ext <;> simp <;> ring
  right_distrib a b c := by ext <;> simp <;> ring
  zero_mul a := by ext <;> simp
  mul_zero a := by ext <;> simp
  mul_assoc a b c := by ext <;> simp <;> ring
  one_mul a := by ext <;> simp
  mul_one a := by ext <;> simp
  mul_comm a b := by ext <;> simp <;> ring
  nsmul := nsmulRec
  zsmul := zsmulRec

end Quartic

/-! ## Evaluation and interpolation -/

section Transform

variable {K : Type*} [Field K] {n : ℕ}

/-- The values of `a 0 + a 1·X + …` at the roots. -/
def evalAt (root : Fin n → K) (a : Fin n → K) (j : Fin n) : K := ∑ k : Fin n, a k * root j ^ (k : ℕ)

/-- The vector with given values at the roots, `inv` being `1/n`. As `root j ^ (2n) = 1`, the
power `2n − k` is the inverse of the power `k`. -/
def interpolate (root : Fin n → K) (inv : K) (v : Fin n → K) (k : Fin n) : K :=
  ∑ j : Fin n, inv * root j ^ (2 * n - k : ℕ) * v j

variable {root : Fin n → K} {inv : K}

theorem sum_root_pow (hpow : ∀ j, root j ^ n = -1) (hinj : Function.Injective root)
    (hinv : (n : K) * inv = 1) (i j : Fin n) :
    ∑ k : Fin n, root i ^ (k : ℕ) * (inv * root j ^ (2 * n - k : ℕ)) = if i = j then 1 else 0 := by
  have hn : 0 < n := i.pos
  have hne : root j ≠ 0 := by
    intro h0
    have h := hpow j
    rw [h0, zero_pow hn.ne'] at h
    exact neg_ne_zero.2 one_ne_zero h.symm
  have hone : root j ^ (2 * n) = 1 := by
    rw [two_mul, pow_add, hpow, neg_mul_neg, one_mul]
  have hterm : ∀ k : Fin n, root i ^ (k : ℕ) * (inv * root j ^ (2 * n - k : ℕ)) =
      inv * (root i / root j) ^ (k : ℕ) := by
    intro k
    have hk : root j ^ (2 * n - k : ℕ) = (root j ^ (k : ℕ))⁻¹ := by
      rw [pow_sub₀ _ hne (by omega), hone, one_mul]
    rw [hk, div_pow, div_eq_mul_inv]
    ring
  rw [sum_congr rfl fun k _ => hterm k, ← mul_sum,
    Fin.sum_univ_eq_sum_range fun k => (root i / root j) ^ k]
  by_cases hij : i = j
  · subst hij
    rw [div_self hne, if_pos rfl]
    simp only [one_pow, sum_const, card_range, nsmul_eq_mul, mul_one]
    rw [mul_comm, hinv]
  · have hratio : root i / root j ≠ 1 := by
      intro h
      exact hij (hinj ((div_eq_one_iff_eq hne).1 h))
    rw [if_neg hij, geom_sum_eq hratio, div_pow, hpow, hpow, div_self (neg_ne_zero.2 one_ne_zero),
      sub_self, zero_div, mul_zero]

/-- The matrix of powers of the roots. -/
def vandermonde (root : Fin n → K) : Matrix (Fin n) (Fin n) K :=
  Matrix.of fun j k => root j ^ (k : ℕ)

/-- Its inverse. -/
def vandermondeInverse (root : Fin n → K) (inv : K) : Matrix (Fin n) (Fin n) K :=
  Matrix.of fun k j => inv * root j ^ (2 * n - k : ℕ)

theorem vandermonde_mul_inverse (hpow : ∀ j, root j ^ n = -1) (hinj : Function.Injective root)
    (hinv : (n : K) * inv = 1) : vandermonde root * vandermondeInverse root inv = 1 := by
  ext i j
  rw [Matrix.mul_apply, Matrix.one_apply]
  exact sum_root_pow hpow hinj hinv i j

theorem evalAt_eq_mulVec (a : Fin n → K) : evalAt root a = (vandermonde root).mulVec a :=
  funext fun _ => sum_congr rfl fun _ _ => mul_comm _ _

theorem interpolate_eq_mulVec (v : Fin n → K) :
    interpolate root inv v = (vandermondeInverse root inv).mulVec v := rfl

section

variable (hpow : ∀ j, root j ^ n = -1) (hinj : Function.Injective root) (hinv : (n : K) * inv = 1)

include hpow hinj hinv

theorem eval_interpolate (v : Fin n → K) : evalAt root (interpolate root inv v) = v := by
  rw [evalAt_eq_mulVec, interpolate_eq_mulVec, Matrix.mulVec_mulVec,
    vandermonde_mul_inverse hpow hinj hinv, Matrix.one_mulVec]

theorem interpolate_eval (a : Fin n → K) : interpolate root inv (evalAt root a) = a := by
  rw [evalAt_eq_mulVec, interpolate_eq_mulVec, Matrix.mulVec_mulVec,
    mul_eq_one_comm.1 (vandermonde_mul_inverse hpow hinj hinv), Matrix.one_mulVec]

end

theorem evalAt_add (a b : Fin n → K) (j : Fin n) :
    evalAt root (fun k => a k + b k) j = evalAt root a j + evalAt root b j := by
  simp only [evalAt, add_mul, sum_add_distrib]

theorem evalAt_single (k : Fin n) (s : K) (j : Fin n) :
    evalAt root (fun i => if i = k then s else 0) j = s * root j ^ (k : ℕ) := by
  rw [evalAt, sum_eq_single k]
  · rw [if_pos rfl]
  · intro i _ hi
    rw [if_neg hi, zero_mul]
  · intro hk
    exact absurd (mem_univ k) hk

theorem evalAt_zero (j : Fin n) : evalAt root (fun _ => 0) j = 0 := by
  simp only [evalAt, zero_mul, sum_const_zero]

end Transform

end Btx.Util
