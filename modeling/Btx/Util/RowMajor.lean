/-
# Row-major tables

A matrix in a flat vector: entry `(i, j)` of a table with `cols` columns is at place
`i * cols + j`. A table is read with `cell` and written, entry by entry, with `table`.
-/

import Mathlib.Algebra.BigOperators.Group.Finset.Basic

namespace Btx.Util

open List

variable {α : Type*} {rows cols i j : ℕ} {f g : ℕ → ℕ → α} {v w : List α}

/-- Entry `(i, j)`. Out of range it is 0. -/
def cell [Zero α] (v : List α) (cols i j : ℕ) : α := v.getD (i * cols + j) 0

/-- The table with the given entries. -/
def table (rows cols : ℕ) (f : ℕ → ℕ → α) : List α :=
  (List.range (rows * cols)).map fun k => f (k / cols) (k % cols)

@[simp] theorem length_table : (table rows cols f).length = rows * cols := by simp [table]

theorem place_lt (hi : i < rows) (hj : j < cols) : i * cols + j < rows * cols :=
  calc i * cols + j < i * cols + cols := Nat.add_lt_add_left hj _
    _ = (i + 1) * cols := by rw [Nat.add_mul, one_mul]
    _ ≤ rows * cols := Nat.mul_le_mul_right cols hi

theorem place_div (hj : j < cols) : (i * cols + j) / cols = i := by
  rw [mul_comm, Nat.mul_add_div (Nat.zero_lt_of_lt hj), Nat.div_eq_of_lt hj, add_zero]

theorem place_mod (hj : j < cols) : (i * cols + j) % cols = j := by
  rw [mul_comm, Nat.mul_add_mod, Nat.mod_eq_of_lt hj]

@[simp] theorem table_getElem? (hi : i < rows) (hj : j < cols) :
    (table rows cols f)[i * cols + j]? = some (f i j) := by
  rw [table, getElem?_map, getElem?_range (place_lt hi hj), Option.map_some,
    place_div hj, place_mod hj]

/-- **What has been written is read.** -/
theorem cell_table [Zero α] (hi : i < rows) (hj : j < cols) :
    cell (table rows cols f) cols i j = f i j := by
  rw [cell, getD_eq_getElem?_getD, table_getElem? hi hj, Option.getD_some]

theorem table_congr (h : ∀ i < rows, ∀ j < cols, f i j = g i j) :
    table rows cols f = table rows cols g := by
  refine map_congr_left fun k hk => ?_
  rw [mem_range] at hk
  have hcols : 0 < cols := Nat.pos_of_ne_zero (by rintro rfl; simp at hk)
  exact h _ (Nat.div_lt_of_lt_mul (by rwa [mul_comm])) _ (Nat.mod_lt k hcols)

theorem table_cell [Zero α] (h : v.length = rows * cols) : table rows cols (cell v cols) = v := by
  refine ext_getElem (by rw [length_table, h]) fun k hk hk' => ?_
  simp only [table, getElem_map, getElem_range, cell]
  rw [Nat.div_add_mod', getD_eq_getElem?_getD, getElem?_eq_getElem hk', Option.getD_some]

theorem table_ext [Zero α] (hv : v.length = rows * cols) (hw : w.length = rows * cols)
    (h : ∀ i < rows, ∀ j < cols, cell v cols i j = cell w cols i j) : v = w := by
  rw [← table_cell hv, ← table_cell hw]
  exact table_congr h

theorem cell_map {β : Type*} [Zero α] [Zero β] {h : α → β} (hh : h 0 = 0) :
    cell (v.map h) cols i j = h (cell v cols i j) := by
  rw [cell, cell, getD_eq_getElem?_getD, getD_eq_getElem?_getD, getElem?_map]
  cases v[i * cols + j]? with
  | none => exact hh.symm
  | some x => rfl

theorem cell_map_of_lt {β : Type*} [Zero α] [Zero β] (h : α → β) (hv : v.length = rows * cols)
    (hi : i < rows) (hj : j < cols) : cell (v.map h) cols i j = h (cell v cols i j) := by
  have hplace : i * cols + j < v.length := hv ▸ place_lt hi hj
  rw [cell, cell, getD_eq_getElem?_getD, getD_eq_getElem?_getD, getElem?_map,
    getElem?_eq_getElem hplace]
  rfl

theorem map_table {β : Type*} (h : α → β) :
    (table rows cols f).map h = table rows cols fun i j => h (f i j) := by
  rw [table, table, map_map]
  rfl

theorem zipWith_table {β γ : Type*} {g : ℕ → ℕ → β} (h : α → β → γ) :
    List.zipWith h (table rows cols f) (table rows cols g) =
      table rows cols fun i j => h (f i j) (g i j) := by
  rw [table, table, table, zipWith_map, zipWith_self]

theorem cell_mem_or_zero [Zero α] (v : List α) (cols i j : ℕ) :
    cell v cols i j ∈ v ∨ cell v cols i j = 0 := by
  rw [cell, getD_eq_getElem?_getD]
  cases h : v[i * cols + j]? with
  | none => exact .inr rfl
  | some x => exact .inl (mem_of_getElem? h)

theorem flatMap_map_eq_table (rows cols : ℕ) (f : ℕ → ℕ → α) :
    ((List.range rows).flatMap fun i => (List.range cols).map (f i)) = table rows cols f := by
  induction rows with
  | zero => simp [table]
  | succ rows ih =>
    rw [range_succ, flatMap_append, flatMap_singleton, ih, table, table,
      Nat.succ_mul, range_add, map_append, map_map]
    congr 1
    refine map_congr_left fun j hj => ?_
    rw [mem_range] at hj
    simp only [Function.comp, place_div hj, place_mod hj]

end Btx.Util
