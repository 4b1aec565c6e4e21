/-
# Balanced digits

Numbers in base `2 * h` with the digits `-h, …, h - 1`. A given number of digits covers an interval
that is not symmetric, from `-h` to `h - 1` times the number whose digits are all 1
(`balancedDigits_spec`). A number outside it leaves a rest, and the function fails.
-/

import Mathlib.Algebra.BigOperators.Ring.Finset
import Mathlib.Tactic.Linarith
import Mathlib.Tactic.Ring

namespace Btx.Util

/-- The lowest digit. -/
def balancedDigit (h x : ℤ) : ℤ := (x + h) % (2 * h) - h

/-- The `l` lowest digits, from the lowest on, if they are all. -/
def balancedDigits (h : ℤ) : ℕ → ℤ → Option (List ℤ)
  | 0, x => if x = 0 then some [] else none
  | l + 1, x =>
    (balancedDigits h l ((x - balancedDigit h x) / (2 * h))).map (balancedDigit h x :: ·)

/-- The number with `l` digits 1. -/
def repunit (h : ℤ) : ℕ → ℤ
  | 0 => 0
  | l + 1 => 2 * h * repunit h l + 1

/-- What the digits stand for. -/
def ofDigits (h : ℤ) (ds : List ℤ) : ℤ := ds.foldr (fun d rest => d + 2 * h * rest) 0

variable {h x : ℤ} {l : ℕ}

theorem balancedDigit_bounds (hh : 0 < h) (x : ℤ) :
    -h ≤ balancedDigit h x ∧ balancedDigit h x < h := by
  have hlow := Int.emod_nonneg (x + h) (show 2 * h ≠ 0 by omega)
  have hhigh := Int.emod_lt_of_pos (x + h) (show 0 < 2 * h by omega)
  unfold balancedDigit
  constructor <;> omega

theorem balancedDigit_add (h x : ℤ) :
    balancedDigit h x + 2 * h * ((x - balancedDigit h x) / (2 * h)) = x := by
  have hdvd : 2 * h ∣ x - balancedDigit h x := by
    refine ⟨(x + h) / (2 * h), ?_⟩
    have := Int.emod_add_mul_ediv (x + h) (2 * h)
    unfold balancedDigit
    omega
  rw [Int.mul_ediv_cancel' hdvd]
  ring

/-- **The digits of a number in range.** -/
theorem balancedDigits_spec (hh : 0 < h) (hlow : -h * repunit h l ≤ x)
    (hhigh : x ≤ (h - 1) * repunit h l) : ∃ ds, balancedDigits h l x = some ds ∧
      ds.length = l ∧ (∀ d ∈ ds, -h ≤ d ∧ d < h) ∧ ofDigits h ds = x := by
  induction l generalizing x with
  | zero =>
    have hx : x = 0 := by
      simp only [repunit, mul_zero] at hlow hhigh
      omega
    exact ⟨[], if_pos hx, rfl, by simp, hx.symm⟩
  | succ l ih =>
    obtain ⟨hd₁, hd₂⟩ := balancedDigit_bounds hh x
    have hrest := balancedDigit_add h x
    set d := balancedDigit h x with hd
    set y := (x - d) / (2 * h) with hy
    -- Both bounds are off by less than one step of `2 * h`.
    have hy₁ : -h * repunit h l ≤ y := by
      by_contra hlt
      have hle : y + 1 ≤ -h * repunit h l := by omega
      have := mul_le_mul_of_nonneg_left hle (show 0 ≤ 2 * h by omega)
      simp only [repunit] at hlow
      nlinarith
    have hy₂ : y ≤ (h - 1) * repunit h l := by
      by_contra hlt
      have hle : (h - 1) * repunit h l + 1 ≤ y := by omega
      have := mul_le_mul_of_nonneg_left hle (show 0 ≤ 2 * h by omega)
      simp only [repunit] at hhigh
      nlinarith
    obtain ⟨ds, hds, hlength, hbounds, hvalue⟩ := ih hy₁ hy₂
    refine ⟨d :: ds, ?_, by rw [List.length_cons, hlength], ?_, ?_⟩
    · rw [balancedDigits, ← hd, ← hy, hds, Option.map_some]
    · simpa using ⟨⟨hd₁, hd₂⟩, hbounds⟩
    · show d + 2 * h * ofDigits h ds = x
      rw [hvalue, hrest]

theorem ofDigits_eq_sum (h : ℤ) (ds : List ℤ) :
    ofDigits h ds = ∑ i ∈ Finset.range ds.length, (2 * h) ^ i * ds.getD i 0 := by
  induction ds with
  | nil => rfl
  | cons d ds ih =>
    show d + 2 * h * ofDigits h ds = _
    rw [ih, List.length_cons, Finset.sum_range_succ', Finset.mul_sum, add_comm]
    simp [pow_succ', mul_assoc]

end Btx.Util
