/-
# Sums by a loop

A loop that adds a term in every round ends with the sum of the terms. It is stated for a
map into a commutative monoid, so that the loop's own addition may be that of a machine
type.
-/

import Mathlib.Algebra.BigOperators.Group.Finset.Basic

namespace Btx.Util

open Finset

variable {α M : Type*} [AddCommMonoid M] {n : ℕ}

/-- **A loop that adds ends with the sum.** -/
theorem map_foldl_range {φ : α → M} {step : α → ℕ → α} {term : ℕ → M} (init : α)
    (h : ∀ acc, ∀ k < n, φ (step acc k) = φ acc + term k) :
    φ ((List.range n).foldl step init) = φ init + ∑ k ∈ range n, term k := by
  induction n with
  | zero => simp
  | succ n ih =>
    rw [List.range_succ, List.foldl_append, List.foldl_cons, List.foldl_nil, h _ n n.lt_succ_self,
      ih fun acc k hk => h acc k (Nat.lt_succ_of_lt hk), sum_range_succ, add_assoc]

end Btx.Util
