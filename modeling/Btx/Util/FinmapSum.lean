/-
# Totals over finite maps

The sum of a weight over the values of a `Finmap`, and how it moves when a key
is erased, written or overwritten.
-/

import Mathlib.Data.Finmap
import Mathlib.Algebra.Order.BigOperators.Group.Multiset
import Mathlib.Tactic.Linarith

namespace Btx.Util

variable {κ ν : Type*} [DecidableEq κ]

/-- The sum of `f` over the values of `m`. -/
def sumBy (f : ν → ℤ) (m : Finmap fun _ : κ => ν) : ℤ := (m.entries.map fun e => f e.2).sum

/-- Every value of `m` satisfies `P`. -/
def AllValues (P : ν → Prop) (m : Finmap fun _ : κ => ν) : Prop :=
  ∀ k v, m.lookup k = some v → P v

variable {f : ν → ℤ} {m : Finmap fun _ : κ => ν} {k : κ} {v : ν} {P : ν → Prop}

theorem sumBy_insert_of_notMem (hk : k ∉ m) : sumBy f (m.insert k v) = f v + sumBy f m := by
  rw [sumBy, sumBy, Finmap.entries_insert_of_notMem hk, Multiset.map_cons, Multiset.sum_cons]

theorem sumBy_eq_add_erase (hk : m.lookup k = some v) : sumBy f m = f v + sumBy f (m.erase k) := by
  have hrestore : (m.erase k).insert k v = m := by
    apply Finmap.ext_lookup
    intro k'
    by_cases hkk : k' = k
    · subst hkk
      rw [Finmap.lookup_insert, hk]
    · rw [Finmap.lookup_insert_of_ne _ hkk, Finmap.lookup_erase_ne hkk]
  conv_lhs => rw [← hrestore]
  exact sumBy_insert_of_notMem (Finmap.notMem_erase_self)

theorem insert_erase_eq_insert : (m.erase k).insert k v = m.insert k v := by
  apply Finmap.ext_lookup
  intro k'
  by_cases hkk : k' = k
  · subst hkk
    rw [Finmap.lookup_insert, Finmap.lookup_insert]
  · rw [Finmap.lookup_insert_of_ne _ hkk, Finmap.lookup_insert_of_ne _ hkk,
      Finmap.lookup_erase_ne hkk]

theorem sumBy_insert_le (hm : AllValues (fun v => 0 ≤ f v) m) :
    sumBy f (m.insert k v) ≤ sumBy f m + f v := by
  cases hk : m.lookup k with
  | none =>
    have hnot : k ∉ m := Finmap.lookup_eq_none.1 hk
    rw [sumBy_insert_of_notMem hnot, add_comm]
  | some w =>
    have hw : 0 ≤ f w := hm k w hk
    have hfresh : k ∉ m.erase k := Finmap.notMem_erase_self
    rw [← insert_erase_eq_insert, sumBy_insert_of_notMem hfresh, sumBy_eq_add_erase hk]
    linarith

theorem AllValues.erase (hm : AllValues P m) : AllValues P (m.erase k) := by
  intro k' v' h
  by_cases hkk : k' = k
  · subst hkk
    rw [Finmap.lookup_erase] at h
    exact nomatch h
  · rw [Finmap.lookup_erase_ne hkk] at h
    exact hm k' v' h

theorem AllValues.insert (hm : AllValues P m) (hv : P v) : AllValues P (m.insert k v) := by
  intro k' v' h
  by_cases hkk : k' = k
  · subst hkk
    rw [Finmap.lookup_insert] at h
    exact Option.some.inj h ▸ hv
  · rw [Finmap.lookup_insert_of_ne _ hkk] at h
    exact hm k' v' h

end Btx.Util
