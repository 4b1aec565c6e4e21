/-
# Partial maps

A key-value store seen from outside: a function to `Option`. `insertAll` and `eraseAll` write and
erase a list of keys in order. Erasing the written keys gives the old map back exactly when none of
them was bound before (`eraseAll_insertAll_iff`).
-/

import Mathlib.Data.List.AList
import Mathlib.Data.List.Induction

namespace Btx.Util

open List

variable {κ ν : Type*} [DecidableEq κ]

/-- A partial map from `κ` to `ν`. -/
abbrev PartialMap (κ ν : Type*) := κ → Option ν

namespace PartialMap

/-- The map with no bindings. -/
def empty : PartialMap κ ν := fun _ => none

variable (m : PartialMap κ ν)

/-- `m[k] = v`. -/
def insert (k : κ) (v : ν) : PartialMap κ ν := Function.update m k (some v)

/-- `m.erase(k)`. -/
def erase (k : κ) : PartialMap κ ν := Function.update m k none

/-- Write the pairs in order. -/
def insertAll (kvs : List (κ × ν)) : PartialMap κ ν :=
  kvs.foldl (fun m kv => m.insert kv.1 kv.2) m

/-- Erase the keys in order. -/
def eraseAll (ks : List κ) : PartialMap κ ν := ks.foldl erase m

theorem insertAll_append (kvs kvs' : List (κ × ν)) :
    m.insertAll (kvs ++ kvs') = (m.insertAll kvs).insertAll kvs' := foldl_append

theorem insert_apply (k : κ) (v : ν) (k' : κ) :
    m.insert k v k' = if k' = k then some v else m k' := Function.update_apply ..

variable {m : PartialMap κ ν} {kvs : List (κ × ν)} {k : κ}

theorem insertAll_of_notMem (hk : k ∉ kvs.map Prod.fst) : m.insertAll kvs k = m k := by
  induction kvs generalizing m with
  | nil => rfl
  | cons kv kvs ih =>
    rw [map_cons, mem_cons, not_or] at hk
    exact (ih hk.2).trans (Function.update_of_ne hk.1 _ _)

theorem insertAll_of_mem
    (hk : k ∈ kvs.map Prod.fst) : ∃ v, (k, v) ∈ kvs ∧ m.insertAll kvs k = some v := by
  induction kvs generalizing m with
  | nil => cases hk
  | cons kv kvs ih =>
    by_cases hmem : k ∈ kvs.map Prod.fst
    · obtain ⟨v, hv, hget⟩ := ih hmem
      exact ⟨v, mem_cons_of_mem kv hv, hget⟩
    · obtain rfl : k = kv.1 := (mem_cons.1 hk).resolve_right hmem
      refine ⟨kv.2, mem_cons_self, ?_⟩
      change (m.insert kv.1 kv.2).insertAll kvs kv.1 = some kv.2
      rw [insertAll_of_notMem hmem]
      exact Function.update_self _ _ _

theorem insertAll_isSome (hk : k ∈ kvs.map Prod.fst) : (m.insertAll kvs k).isSome := by
  obtain ⟨v, -, hget⟩ := insertAll_of_mem hk
  rw [hget]
  rfl

theorem eraseAll_apply (m : PartialMap κ ν) (ks : List κ) (k : κ) :
    m.eraseAll ks k = if k ∈ ks then none else m k := by
  induction ks generalizing m with
  | nil => simp [eraseAll]
  | cons k' ks ih =>
    change (m.erase k').eraseAll ks k = _
    rw [ih, erase, Function.update_apply]
    by_cases hmem : k ∈ ks <;> by_cases hk : k = k' <;> simp [hmem, hk]

/-- **When erasing undoes writing.** Erasing the keys that were written restores the map
exactly when none of them was bound before. -/
theorem eraseAll_insertAll_iff {ks : List κ} (hks : ∀ k, k ∈ ks ↔ k ∈ kvs.map Prod.fst) :
    (m.insertAll kvs).eraseAll ks = m ↔ ∀ k ∈ ks, m k = none := by
  constructor
  · intro h k hk
    rw [← h, eraseAll_apply, if_pos hk]
  · intro h
    funext k
    rw [eraseAll_apply]
    split_ifs with hk
    · exact (h k hk).symm
    · exact insertAll_of_notMem fun hmem => hk ((hks k).2 hmem)

end PartialMap
theorem insertAll_entries {κ ν : Type} [DecidableEq κ] (m : AList fun _ : κ => ν) (k : κ) :
    (PartialMap.empty : PartialMap κ ν).insertAll (m.entries.map fun e => (e.1, e.2)) k =
      m.lookup k := by
  by_cases hmem : k ∈ (m.entries.map fun e => (e.1, e.2)).map Prod.fst
  · obtain ⟨v, hv, hget⟩ := PartialMap.insertAll_of_mem (m := .empty) hmem
    obtain ⟨e, he, heq⟩ := mem_map.1 hv
    cases heq
    exact hget.trans (AList.mem_lookup_iff.2 he).symm
  · have hnone : m.lookup k = none := by
      by_contra hne
      obtain ⟨v, hv⟩ := Option.ne_none_iff_exists'.1 hne
      have hentry : (k, v) ∈ m.entries.map fun e => (e.1, e.2) :=
        mem_map.2 ⟨⟨k, v⟩, AList.mem_lookup_iff.1 hv, rfl⟩
      exact hmem (mem_map.2 ⟨(k, v), hentry, rfl⟩)
    exact (PartialMap.insertAll_of_notMem hmem).trans hnone.symm

end Btx.Util
