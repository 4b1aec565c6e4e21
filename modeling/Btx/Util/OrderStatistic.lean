/-
# Order statistics of a list

The entry at place `k` of a sorted list is at most `x` exactly when more than `k` entries
are at most `x`. Counting does not depend on the order, so this holds of the sorted
form of any list (`insertionSort_getElem_le_iff`).
-/

import Mathlib.Data.List.Sort

namespace Btx.Util

open List

variable {α : Type*} [LinearOrder α] {l : List α} {k : ℕ} {x : α}

theorem pairwise_getElem_le_iff (h : l.Pairwise (· ≤ ·)) (hk : k < l.length) :
    l[k] ≤ x ↔ k < l.countP (· ≤ x) := by
  induction l generalizing k with
  | nil => simp at hk
  | cons a l ih =>
    rw [pairwise_cons] at h
    by_cases ha : a ≤ x
    · rw [countP_cons_of_pos (by simpa using ha)]
      cases k with
      | zero => simpa using ha
      | succ k =>
        rw [getElem_cons_succ, ih h.2 (by simpa using hk)]
        omega
    · -- the entries that follow are no smaller
      have hnone : (a :: l).countP (· ≤ x) = 0 := by
        rw [countP_eq_zero]
        intro b hb hbx
        rcases mem_cons.1 hb with rfl | hb
        · exact ha (by simpa using hbx)
        · exact ha ((h.1 b hb).trans (by simpa using hbx))
      rw [hnone]
      refine iff_of_false (fun hle => ha ?_) (Nat.not_lt_zero k)
      cases k with
      | zero => exact hle
      | succ k => exact (h.1 _ (getElem_mem _)).trans hle

theorem insertionSort_getElem_le_iff (hk : k < (l.insertionSort (· ≤ ·)).length) :
    (l.insertionSort (· ≤ ·))[k] ≤ x ↔ k < l.countP (· ≤ x) := by
  rw [pairwise_getElem_le_iff (pairwise_insertionSort (· ≤ ·) l) hk,
    (perm_insertionSort (· ≤ ·) l).countP_eq]

end Btx.Util
