/-
# Parallel loops whose jobs write to cells of their own

The writes of the threads of a parallel loop happen in some rearrangement of those of the first job,
then those of the second, and so on (`Interleaving`). Jobs that together fill a stretch of the array
leave it as a single loop would have (`parallelFor_eq`).
-/

import Mathlib.Data.List.Nodup
import Mathlib.Data.List.Range

namespace Btx.Util

open List

/-- In which order the writes of the parallel regions happen. Each region of a run has a number,
so that two regions with the same writes may differ. -/
structure Interleaving where
  order : {α : Type} → ℕ → List α → List α
  perm : ∀ {α : Type} (region : ℕ) (l : List α), (order region l).Perm l

section Writes

variable {α : Type*}

/-- The array after the writes, each a cell and its new value. -/
def scatter (out : List α) (writes : List (ℕ × α)) : List α :=
  writes.foldl (fun out w => out.set w.1 w.2) out

theorem scatter_append (out : List α) (writes writes' : List (ℕ × α)) :
    scatter out (writes ++ writes') = scatter (scatter out writes) writes' := foldl_append

/-- **Writes to different cells commute.** -/
theorem scatter_perm {writes writes' : List (ℕ × α)} (h : writes.Perm writes')
    (hcells : (writes.map Prod.fst).Nodup) (out : List α) :
    scatter out writes = scatter out writes' := by
  refine h.foldl_eq' (fun w hw w' hw' out => ?_) out
  by_cases hcell : w.1 = w'.1
  · rw [inj_on_of_nodup_map hcells hw hw' hcell]
  · exact set_comm w.2 w'.2 hcell

/-- The writes that fill the cells from `start` on. -/
def consecutive : ℕ → List α → List (ℕ × α)
  | _, [] => []
  | start, v :: values => (start, v) :: consecutive (start + 1) values

theorem map_fst_consecutive (start : ℕ) (values : List α) :
    (consecutive start values).map Prod.fst = List.range' start values.length := by
  induction values generalizing start with
  | nil => rfl
  | cons v values ih => rw [consecutive, map_cons, ih, length_cons, range'_succ]

theorem consecutive_append (start : ℕ) (values values' : List α) :
    consecutive start (values ++ values') =
      consecutive start values ++ consecutive (start + values.length) values' := by
  induction values generalizing start with
  | nil => rfl
  | cons v values ih =>
    rw [cons_append, consecutive, consecutive, ih, cons_append, length_cons,
      Nat.add_right_comm, Nat.add_assoc]

theorem consecutive_map_range (start n : ℕ) (f : ℕ → α) :
    consecutive start ((List.range n).map f) = (List.range n).map fun i => (start + i, f i) := by
  induction n with
  | zero => rfl
  | succ n ih =>
    rw [range_succ, map_append, consecutive_append, ih, map_append,
      length_map, length_range]
    rfl

theorem scatter_consecutive {out : List α} {start : ℕ} {values : List α}
    (h : start + values.length ≤ out.length) :
    scatter out (consecutive start values) =
      out.take start ++ values ++ out.drop (start + values.length) := by
  induction values generalizing start out with
  | nil => rw [append_nil, length_nil, Nat.add_zero, take_append_drop]; rfl
  | cons v values ih =>
    rw [length_cons] at h
    have hlt : start < out.length := by omega
    have hrest : scatter out (consecutive start (v :: values)) =
        scatter (out.set start v) (consecutive (start + 1) values) := rfl
    have hhead : (out.set start v).take (start + 1) = out.take start ++ [v] := by
      rw [take_set, take_add_one, getElem?_eq_getElem hlt, Option.toList_some,
        set_append_right _ _ (by rw [length_take]; omega), length_take,
        Nat.min_eq_left hlt.le, Nat.sub_self, set_cons_zero]
    rw [hrest, ih (by rw [length_set]; omega), hhead, drop_set_of_lt (by omega),
      append_assoc (out.take start), singleton_append, length_cons, Nat.add_assoc,
      Nat.add_comm 1]

end Writes

variable {α : Type}

/-- The array after a parallel loop: worker by worker, the jobs each of them has, job by job, the
writes of the job, all in the order of the schedule. -/
def parallelFor (sched : Interleaving) (region : ℕ) (workers : List (List ℕ))
    (writes : ℕ → List (ℕ × α)) (out : List α) : List α :=
  scatter out (sched.order region (workers.flatten.flatMap writes))

/-- **A parallel loop that fills a stretch of the array.** It is enough to know which values a
single loop over the jobs would have written there. -/
theorem parallelFor_eq {sched : Interleaving} {region : ℕ} {workers : List (List ℕ)}
    {writes : ℕ → List (ℕ × α)} {out : List α} {start : ℕ} {values : List α}
    (hwrites : workers.flatten.flatMap writes = consecutive start values)
    (h : start + values.length ≤ out.length) :
    parallelFor sched region workers writes out =
      out.take start ++ values ++ out.drop (start + values.length) := by
  have hperm := sched.perm region (workers.flatten.flatMap writes)
  have hcells : ((workers.flatten.flatMap writes).map Prod.fst).Nodup := by
    rw [hwrites, map_fst_consecutive]
    exact nodup_range'
  rw [parallelFor, ← scatter_perm hperm.symm hcells, hwrites, scatter_consecutive h]

end Btx.Util
