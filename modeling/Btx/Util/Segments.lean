/-
# Segments that abut

A list of segments, each a start and a length, abuts from `a` to `b` if every segment starts where
the one before it ends. Then each of them lies between `a` and `b` (`Abut.le_of_mem`).
Segments may be empty.
-/

import Mathlib.Order.Interval.Finset.Nat

namespace Btx.Util

/-- The segments `(start, length)` follow one another from `a` to `b`. -/
def Abut : ℕ → List (ℕ × ℕ) → ℕ → Prop
  | a, [], b => a = b
  | a, s :: segments, b => s.1 = a ∧ Abut (a + s.2) segments b

namespace Abut

variable {a b i : ℕ} {segments : List (ℕ × ℕ)}

theorem le (h : Abut a segments b) : a ≤ b := by
  induction segments generalizing a with
  | nil => exact h.le
  | cons s segments ih => exact (Nat.le_add_right a s.2).trans (ih h.2)

theorem le_of_mem {s : ℕ × ℕ} (h : Abut a segments b) (hs : s ∈ segments) :
    a ≤ s.1 ∧ s.1 + s.2 ≤ b := by
  induction segments generalizing a with
  | nil => cases hs
  | cons s' segments ih =>
    obtain ⟨rfl, hrest⟩ := h
    rcases List.mem_cons.1 hs with rfl | hmem
    · exact ⟨le_rfl, hrest.le⟩
    · obtain ⟨hlo, hhi⟩ := ih hrest hmem
      exact ⟨(Nat.le_add_right _ _).trans hlo, hhi⟩

end Abut

end Btx.Util
