/-
# Values of the last few prefixes

A log kept newest first, and a value for each of its states: `recent f l n` lists the values of `l`,
of `l` without its newest entry, and so on, `n` of them. A bounded queue holds such a list, with an
`n` that a pop lowers for good.
-/

import Mathlib.Data.List.TakeDrop
import Mathlib.Data.List.Basic

namespace Btx.Util

open List

section Recent

variable {α β : Type} (f : List α → β)

/-- The values of the last `n` states of a log, newest first. Past the first entry the log stays
empty. -/
def recent (l : List α) (n : ℕ) : List β := (List.range n).map fun i => f (l.drop i)

variable {f} {l : List α} {a : α} {b : β} {m n k : ℕ}

theorem mem_recent : b ∈ recent f l n ↔ ∃ i < n, f (l.drop i) = b := by
  simp [recent]

theorem recent_succ : recent f l (n + 1) = f l :: recent f l.tail n := by
  rw [recent, range_succ_eq_map]
  cases l <;> simp [recent, Function.comp_def]

theorem take_recent : (recent f l n).take k = recent f l (min k n) := by
  rw [recent, ← map_take, take_range]
  rfl

theorem push_recent : (f (a :: l) :: recent f l n).take k = recent f (a :: l) (min k (n + 1)) := by
  rw [← take_recent, recent_succ, tail_cons]

theorem recent_subset (hnm : n ≤ m) : recent f l n ⊆ recent f l m := by
  intro b hb
  obtain ⟨i, hi, rfl⟩ := mem_recent.1 hb
  exact mem_recent.2 ⟨i, by omega, rfl⟩

theorem recent_subset_of_length (hl : l.length < n) : recent f l m ⊆ recent f l n := by
  intro b hb
  obtain ⟨i, hi, rfl⟩ := mem_recent.1 hb
  rcases Nat.lt_or_ge i n with hin | hin
  · exact mem_recent.2 ⟨i, hin, rfl⟩
  · refine mem_recent.2 ⟨l.length, hl, ?_⟩
    rw [drop_length, drop_eq_nil_of_le (by omega)]

end Recent

end Btx.Util
