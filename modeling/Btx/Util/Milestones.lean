/-
# The latest milestone passed

`latest base ms h` is the last of the milestones that `h` has reached, and `base` while it has
reached none above that. It is the greatest milestone reached (`latest_eq_iff`), and stays between
it and the position (`latest_eq_of_between`).
-/

import Mathlib.Order.Lattice
import Mathlib.Data.List.Basic

namespace Btx.Util

open List

section Latest

variable {α : Type} [LinearOrder α]

/-- The latest of the milestones that `h` has reached, tried in order. -/
def latest (base : α) (ms : List α) (h : α) : α :=
  ms.foldl (fun a m => if m ≤ h ∧ a < m then m else a) base

variable {base a m h h' c : α} {ms ms' : List α}

@[simp] theorem latest_nil : latest base [] h = base := rfl

theorem latest_cons :
    latest base (m :: ms) h = latest (if m ≤ h ∧ base < m then m else base) ms h := rfl

theorem latest_append : latest base (ms ++ ms') h = latest (latest base ms h) ms' h :=
  foldl_append ..

theorem base_le_latest : base ≤ latest base ms h := by
  induction ms generalizing base with
  | nil => exact le_rfl
  | cons m ms ih =>
    rw [latest_cons]
    refine le_trans ?_ ih
    split_ifs with hm
    · exact hm.2.le
    · exact le_rfl

theorem le_latest (hm : m ∈ ms) (hh : m ≤ h) : m ≤ latest base ms h := by
  induction ms generalizing base with
  | nil => cases hm
  | cons k ms ih =>
    rw [latest_cons]
    rcases mem_cons.1 hm with rfl | hm
    · refine le_trans ?_ base_le_latest
      split_ifs with hk
      · exact le_rfl
      · exact not_lt.1 fun hlt => hk ⟨hh, hlt⟩
    · exact ih hm

theorem latest_mem (base : α) (ms : List α) (h : α) :
    latest base ms h = base ∨ latest base ms h ∈ ms ∧ latest base ms h ≤ h := by
  induction ms generalizing base with
  | nil => exact .inl rfl
  | cons m ms ih =>
    rw [latest_cons]
    rcases ih (if m ≤ h ∧ base < m then m else base) with heq | ⟨hmem, hle⟩
    · rw [heq]
      split_ifs with hm
      · exact .inr ⟨mem_cons_self .., hm.1⟩
      · exact .inl rfl
    · exact .inr ⟨mem_cons_of_mem _ hmem, hle⟩

theorem latest_le (hbase : base ≤ h) : latest base ms h ≤ h := by
  rcases latest_mem base ms h with heq | ⟨-, hle⟩
  · rwa [heq]
  · exact hle

/-- **What the latest milestone is**, whatever the order they were tried in. -/
theorem latest_eq_iff : latest base ms h = a ↔
    (a = base ∨ a ∈ ms ∧ a ≤ h) ∧ base ≤ a ∧ ∀ m ∈ ms, m ≤ h → m ≤ a := by
  constructor
  · rintro rfl
    exact ⟨latest_mem .., base_le_latest, fun m hm hh => le_latest hm hh⟩
  · rintro ⟨hmem, hbase, hall⟩
    apply le_antisymm
    · rcases latest_mem base ms h with heq | ⟨hin, hle⟩
      · rwa [heq]
      · exact hall _ hin hle
    · rcases hmem with rfl | ⟨hin, hle⟩
      · exact base_le_latest
      · exact le_latest hin hle

/-- **Between the latest milestone and the position nothing has changed.** -/
theorem latest_eq_of_between (hc : latest base ms h ≤ c) (hch : c ≤ h) :
    latest base ms c = latest base ms h := by
  refine latest_eq_iff.2 ⟨?_, base_le_latest, fun m hm hmc => le_latest hm (hmc.trans hch)⟩
  rcases latest_mem base ms h with heq | ⟨hmem, -⟩
  · exact .inl heq
  · exact .inr ⟨hmem, hc⟩

theorem latest_map_filter {β : Type} {f : β → α} {keep : β → Bool} {l : List β} (base : α)
    (hl : ∀ b ∈ l, keep b = false → h < f b) :
    latest base ((l.filter keep).map f) h = latest base (l.map f) h := by
  induction l generalizing base with
  | nil => rfl
  | cons b l ih =>
    have ih := fun a => ih a fun c hc => hl c (mem_cons_of_mem _ hc)
    rcases hkeep : keep b with _ | _
    · rw [filter_cons_of_neg (by simp [hkeep]), map_cons, latest_cons, ih]
      rw [if_neg fun hb => absurd hb.1 (not_le.2 (hl b (mem_cons_self ..) hkeep))]
    · rw [filter_cons_of_pos hkeep, map_cons, map_cons, latest_cons, latest_cons, ih]

end Latest

end Btx.Util
