/-
# Sorted lists without repetitions

`std::sort` and then `std::unique`: the canonical list of a finite set. Two lists have the
same one exactly when they have the same members (`sortUnique_eq_iff`).
-/

import Mathlib.Data.List.Sort

namespace Btx.Util

open List

/-- `std::unique`: the first of each run. -/
def uniqueRuns {α : Type*} [DecidableEq α] : List α → List α
  | a :: b :: l => if a = b then uniqueRuns (b :: l) else a :: uniqueRuns (b :: l)
  | l => l

variable {α : Type*} [LinearOrder α] {l l' : List α} {x : α}

/-- The members in increasing order, each once. -/
def sortUnique (l : List α) : List α := uniqueRuns (l.insertionSort (· ≤ ·))

theorem mem_uniqueRuns : x ∈ uniqueRuns l ↔ x ∈ l := by
  fun_induction uniqueRuns l with
  | case1 b l ih =>
    rw [ih]
    simp
  | case2 a b l hne ih =>
    rw [mem_cons, ih]
    exact mem_cons.symm
  | case3 => rfl

theorem pairwise_lt_uniqueRuns (h : l.Pairwise (· ≤ ·)) : (uniqueRuns l).Pairwise (· < ·) := by
  fun_induction uniqueRuns l with
  | case1 b l ih => exact ih h.of_cons
  | case2 a b l hne ih =>
    refine pairwise_cons.2 ⟨fun x hx => ?_, ih h.of_cons⟩
    have hab : a < b := lt_of_le_of_ne (rel_of_pairwise_cons h mem_cons_self) hne
    rcases mem_cons.1 (mem_uniqueRuns.1 hx) with rfl | hmem
    · exact hab
    · exact lt_of_lt_of_le hab (rel_of_pairwise_cons h.of_cons hmem)
  | case3 l hl =>
    rcases l with _ | ⟨a, _ | ⟨b, l⟩⟩
    · exact List.Pairwise.nil
    · exact pairwise_singleton _ _
    · exact (hl a b l rfl).elim

@[simp] theorem mem_sortUnique : x ∈ sortUnique l ↔ x ∈ l := by
  rw [sortUnique, mem_uniqueRuns, mem_insertionSort]

theorem pairwise_sortUnique (l : List α) : (sortUnique l).Pairwise (· < ·) :=
  pairwise_lt_uniqueRuns (pairwise_insertionSort _ l)

theorem nodup_sortUnique (l : List α) : (sortUnique l).Nodup :=
  (pairwise_sortUnique l).imp fun h => h.ne

/-- **The sorted list is the set.** -/
theorem sortUnique_eq_iff : sortUnique l = sortUnique l' ↔ ∀ x, x ∈ l ↔ x ∈ l' := by
  constructor
  · intro h x
    rw [← mem_sortUnique, h, mem_sortUnique]
  · intro h
    have hperm : (sortUnique l).Perm (sortUnique l') := by
      rw [perm_ext_iff_of_nodup (nodup_sortUnique l) (nodup_sortUnique l')]
      intro x
      rw [mem_sortUnique, mem_sortUnique, h]
    exact hperm.eq_of_pairwise (fun _ _ _ _ hab hba => absurd hab hba.asymm)
      (pairwise_sortUnique l) (pairwise_sortUnique l')

end Btx.Util
