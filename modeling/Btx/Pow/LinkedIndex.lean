/-
# Linked chains of the block index

In an index that is linked down to the genesis block, `GetAncestor` finds every height
(`getAncestor_of_linked`). `FindGenesisBlockIndex` only needs that every hop goes down
(`findGenesisBlockIndex_of_descends`).
-/

import Btx.Pow.Asert

namespace Btx.Pow

open List

/-- The heights go down at every hop, and the last block is at height 0. -/
def Descends : List CBlockIndex → Prop
  | [] => False
  | [genesis] => genesis.nHeight = 0
  | block :: prev :: earlier => prev.nHeight < block.nHeight ∧ Descends (prev :: earlier)

/-- The heights go down by one at every hop, and the last block is at height 0. -/
def Linked : List CBlockIndex → Prop
  | [] => False
  | [genesis] => genesis.nHeight = 0
  | block :: prev :: earlier => block.nHeight = prev.nHeight + 1 ∧ Linked (prev :: earlier)

variable {tip block prev : CBlockIndex} {index index' ancestors earlier : List CBlockIndex}
  {height remaining : ℤ} {i : ℕ}

theorem Linked.height_add (h : Linked index) (hi : index[i]? = some block) :
    block.nHeight + i + 1 = index.length := by
  induction index generalizing i block with
  | nil => simp at hi
  | cons tip ancestors ih =>
    cases ancestors with
    | nil =>
      obtain ⟨rfl, rfl⟩ : i = 0 ∧ tip = block := by
        cases i with
        | zero => simpa using hi
        | succ i => simp at hi
      simp [show tip.nHeight = 0 from h]
    | cons prev earlier =>
      have hprev := ih h.2 (i := 0) rfl
      cases i with
      | zero =>
        obtain rfl : tip = block := by simpa using hi
        simp only [length_cons] at hprev ⊢
        have := h.1
        omega
      | succ i =>
        have := ih h.2 (i := i) (by simpa using hi)
        simp only [length_cons] at this ⊢
        omega

theorem Linked.tip_height (h : Linked (tip :: ancestors)) : tip.nHeight = ancestors.length := by
  have := h.height_add (i := 0) rfl
  simp only [length_cons] at this
  omega

/-- **Every height up to the tip's has its ancestor.** -/
theorem getAncestor_of_linked (h : Linked (tip :: ancestors)) (hpos : 0 ≤ height)
    (hle : height ≤ tip.nHeight) :
    ∃ block ∈ tip :: ancestors, getAncestor tip ancestors height = some block ∧
      block.nHeight = height := by
  have htip := h.tip_height
  have hlt : (tip.nHeight - height).toNat < (tip :: ancestors).length := by
    simp only [length_cons]
    omega
  have hget := getElem?_eq_getElem hlt
  refine ⟨_, getElem_mem hlt, ?_, ?_⟩
  · rw [getAncestor, if_neg (by omega), hget]
  · have := h.height_add hget
    simp only [length_cons] at this
    omega

theorem Linked.ne_nil (h : Linked index) : index ≠ [] := by
  rintro rfl
  exact h

theorem linked_of_heights (hne : index ≠ [])
    (h : ∀ (i : ℕ) (block : CBlockIndex), index[i]? = some block →
      block.nHeight + i + 1 = index.length) :
    Linked index := by
  induction index with
  | nil => exact absurd rfl hne
  | cons tip ancestors ih =>
    have htip := h 0 tip rfl
    cases ancestors with
    | nil => simpa [Linked] using htip
    | cons prev earlier =>
      have hprev := h 1 prev rfl
      simp only [length_cons] at htip hprev
      refine ⟨by omega, ih (cons_ne_nil prev earlier) fun i block hi => ?_⟩
      have := h (i + 1) block (by simpa using hi)
      simp only [length_cons] at this ⊢
      omega

theorem Linked.congr (h : Linked index)
    (hsame : index'.map CBlockIndex.toBlockData = index.map CBlockIndex.toBlockData) :
    Linked index' := by
  have hlength : index'.length = index.length := by
    simpa using congrArg List.length hsame
  refine linked_of_heights ?_ fun i block' hi => ?_
  · rintro rfl
    exact h.ne_nil (length_eq_zero_iff.1 hlength.symm)
  · have hmap : (index.map CBlockIndex.toBlockData)[i]? = some block'.toBlockData := by
      rw [← hsame, getElem?_map, hi]
      rfl
    rw [getElem?_map, Option.map_eq_some_iff] at hmap
    obtain ⟨block, hblock, hdata⟩ := hmap
    rw [hlength, ← h.height_add hblock, hdata]

theorem Linked.descends : ∀ {index : List CBlockIndex}, Linked index → Descends index
  | [], h => h
  | [_], h => h
  | _ :: _ :: _, h => ⟨by have := h.1; omega, Linked.descends h.2⟩

theorem Descends.nonneg : ∀ {tip : CBlockIndex} {ancestors : List CBlockIndex},
    Descends (tip :: ancestors) → 0 ≤ tip.nHeight
  | tip, [], h => le_of_eq (show tip.nHeight = 0 from h).symm
  | _, _ :: _, h => h.2.nonneg.trans h.1.le

theorem findGenesisFrom_of_descends (h : Descends (tip :: ancestors))
    (hremaining : tip.nHeight ≤ remaining) :
    findGenesisFrom remaining tip ancestors = (tip :: ancestors).getLast? := by
  induction ancestors generalizing tip remaining with
  | nil => simp [findGenesisFrom, show tip.nHeight = 0 from h]
  | cons prev earlier ih =>
    obtain ⟨hlt, hdescends⟩ := h
    have hprev := hdescends.nonneg
    rw [findGenesisFrom, if_pos (by omega), if_neg (by omega), if_neg (by omega),
      ih hdescends (by omega), getLast?_cons_cons]

/-- **The genesis block is found below every chain that only goes down.** -/
theorem findGenesisBlockIndex_of_descends (h : Descends (tip :: ancestors)) :
    findGenesisBlockIndex tip ancestors = (tip :: ancestors).getLast? := by
  have := h.nonneg
  rw [findGenesisBlockIndex, if_neg (by omega), findGenesisFrom_of_descends h le_rfl]

end Btx.Pow
