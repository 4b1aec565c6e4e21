/-
# Walks confined to an interval

`walk lo hi x ds` moves from `x` by the steps of `ds` in order and gives up at the first step that
leaves `[lo, hi]`. It arrives exactly when every prefix sum stays inside (`walk_eq_some_iff`).
-/

import Mathlib.Algebra.Order.BigOperators.Group.List
import Mathlib.Tactic.Linarith
import Mathlib.Tactic.Ring

namespace Btx.Util

/-- Move from `x` by the steps of `ds` in order, `none` as soon as a step leaves
`[lo, hi]`. -/
def walk (lo hi : ℤ) : ℤ → List ℤ → Option ℤ
  | x, [] => some x
  | x, d :: ds => if lo ≤ x + d ∧ x + d ≤ hi then walk lo hi (x + d) ds else none

variable {lo hi x y : ℤ} {ds : List ℤ}

@[simp] theorem walk_nil : walk lo hi x [] = some x := rfl

theorem walk_cons {d : ℤ} : walk lo hi x (d :: ds) =
      if lo ≤ x + d ∧ x + d ≤ hi then walk lo hi (x + d) ds else none := rfl

/-- **When a confined walk arrives.** It arrives exactly when each nonempty
prefix of the steps ends inside the interval, and then at the sum. -/
theorem walk_eq_some_iff : walk lo hi x ds = some y ↔ y = x + ds.sum ∧
        ∀ k, k < ds.length → lo ≤ x + (ds.take (k + 1)).sum ∧ x + (ds.take (k + 1)).sum ≤ hi := by
  induction ds generalizing x with
  | nil => simp [eq_comm]
  | cons d ds ih =>
    rw [walk_cons]
    split_ifs with h
    · rw [ih]
      constructor
      · rintro ⟨rfl, hin⟩
        refine ⟨by simp [add_assoc], fun k hk => ?_⟩
        cases k with
        | zero => simpa using h
        | succ k => simpa [add_assoc] using hin k (by simpa using hk)
      · rintro ⟨rfl, hin⟩
        refine ⟨by simp [add_assoc], fun k hk => ?_⟩
        simpa [add_assoc] using hin (k + 1) (by simpa using hk)
    · refine iff_of_false (by simp) fun ⟨_, hin⟩ => h ?_
      simpa using hin 0 (by simp)

/-- **Undoing a walk in the order it was made.** After a walk by the negated steps of `ds`, walking
by `ds`, first step first, arrives exactly when every suffix of `ds` can be taken from the starting
point without leaving the interval; it then arrives at the start. -/
theorem walk_undo_in_order_iff (h : walk lo hi x (ds.map (-·)) = some y) :
    walk lo hi y ds = some x ↔
      ∀ k, k ≤ ds.length → 0 < k → lo ≤ x - (ds.drop k).sum ∧ x - (ds.drop k).sum ≤ hi := by
  obtain ⟨rfl, -⟩ := walk_eq_some_iff.1 h
  have hneg : (ds.map (-·)).sum = -ds.sum := (List.sum_neg ds).symm
  have hsplit : ∀ k, x + (ds.map (-·)).sum + (ds.take k).sum = x - (ds.drop k).sum := by
    intro k
    have := List.sum_take_add_sum_drop ds k
    rw [hneg]
    linarith
  rw [walk_eq_some_iff]
  constructor
  · rintro ⟨-, hin⟩ k hk hpos
    have := hin (k - 1) (by omega)
    rwa [Nat.sub_add_cancel hpos, hsplit] at this
  · intro hin
    refine ⟨by rw [hneg]; ring, fun k hk => ?_⟩
    rw [hsplit]
    exact hin (k + 1) (by omega) (by omega)

end Btx.Util
