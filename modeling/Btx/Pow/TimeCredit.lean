/-
# Stored time credits

`MatMulAsertClampedTimeCredit` stores in each block the credit from the anchor up to it. The key it
is stored under, a variable here, does not name the anchor. A stored credit is valid if it is the
one from the anchor of its block's own height (`CreditsValid`). So the walk returns the credit
without a store, `creditSpec` (`creditWalk_spec`).
-/

import Btx.Pow.AsertTargets

namespace Btx.Pow

open OneShot List Option

/-- The credit over the `hops` newest blocks, without a store. -/
def creditSpec (p : Params) : ℕ → List BlockData → ℤ
  | hops + 1, block :: prev :: earlier =>
    if block.nHeight < p.nMatMulStallRecoveryHeight then 0
    else addBlockCredit p (creditSpec p hops (prev :: earlier)) block prev earlier
  | _, _ => 0

/-- The number of blocks from a block of the given height to its anchor. -/
def anchorDepth (p : Params) (height : ℤ) : ℕ := (height - anchorHeight p height).toNat

/-- A block whose stored credit would be read. -/
def IsCached (keyFor : BlockData → UInt64) (block : CBlockIndex) : Prop :=
  block.nMatMulClampedAsertCreditKey = keyFor block.toBlockData

/-- Every credit that would be read is that of its block. -/
def CreditsValid (p : Params) (keyFor : BlockData → UInt64) : List CBlockIndex → Prop
  | [] => True
  | block :: ancestors =>
    (IsCached keyFor block → block.nMatMulClampedAsertCredit = creditSpec p
      (anchorDepth p block.nHeight) ((block :: ancestors).map CBlockIndex.toBlockData)) ∧
      CreditsValid p keyFor ancestors

variable {p : Params} {keyFor : BlockData → UInt64} {hops : ℕ} {tip tip' block prev : CBlockIndex}
  {ancestors ancestors' earlier : List CBlockIndex} {height credit : ℤ}

theorem clampedAsertCreditCacheKey_ne_zero (block : BlockData) :
    clampedAsertCreditCacheKey p block ≠ 0 := by
  unfold clampedAsertCreditCacheKey
  dsimp only
  split_ifs with h
  · decide
  · exact h

/-! ## Credits saturate -/

theorem addBlockCredit_max {b prev : BlockData} {earlier : List BlockData} :
    addBlockCredit p int64Max b prev earlier = int64Max := by
  unfold addBlockCredit
  dsimp only
  split
  · rfl
  · split_ifs
    · rfl
    · unfold saturatingAdd
      split_ifs <;> omega
    · rfl

theorem anchorHeight_of_between (hlow : anchorHeight p height ≤ height - 1) :
    anchorHeight p (height - 1) = anchorHeight p height :=
  Util.latest_eq_of_between hlow (by omega)

theorem anchorDepth_pred (hdepth : hops + 1 = anchorDepth p height) :
    hops = anchorDepth p (height - 1) := by
  unfold anchorDepth at hdepth ⊢
  rw [anchorHeight_of_between (by omega)]
  omega

/-! ## The walk -/

/-- The block with its credit stored. -/
def storeCredit (keyFor : BlockData → UInt64) (block : CBlockIndex) (credit : ℤ) : CBlockIndex :=
  { block with
    nMatMulClampedAsertCreditKey := keyFor block.toBlockData
    nMatMulClampedAsertCredit := credit }

@[simp] theorem storeCredit_toBlockData :
    (storeCredit keyFor block credit).toBlockData = block.toBlockData := rfl

theorem creditWalk_of_low (hlow : block.nHeight < p.nMatMulStallRecoveryHeight) :
    creditWalk p keyFor (hops + 1) (block :: ancestors) = ⟨0, block :: ancestors, false⟩ := by
  simp only [creditWalk, hlow, if_true]

theorem creditWalk_of_cached (hlow : ¬block.nHeight < p.nMatMulStallRecoveryHeight)
    (hcached : IsCached keyFor block) : creditWalk p keyFor (hops + 1) (block :: ancestors) =
      ⟨block.nMatMulClampedAsertCredit, block :: ancestors, false⟩ := by
  unfold IsCached at hcached
  simp only [creditWalk, hlow, if_false, hcached, if_true]

theorem creditWalk_of_uncached (hlow : ¬block.nHeight < p.nMatMulStallRecoveryHeight)
    (hcached : ¬IsCached keyFor block) : creditWalk p keyFor (hops + 1) (block :: prev :: earlier) =
      let walk := creditWalk p keyFor hops (prev :: earlier)
      if walk.stopped then ⟨walk.credit, block :: walk.index, true⟩
      else
        let credit := addBlockCredit p walk.credit block.toBlockData prev.toBlockData
          (earlier.map CBlockIndex.toBlockData)
        ⟨credit, storeCredit keyFor block credit :: walk.index, credit = int64Max⟩ := by
  unfold IsCached at hcached
  simp only [creditWalk, hlow, if_false, hcached, storeCredit]

/-- What a walk is to return, for an index. -/
structure WalkSpec (p : Params) (keyFor : BlockData → UInt64) (hops : ℕ)
    (index : List CBlockIndex) (walk : CreditWalk) : Prop where
  credit : walk.credit = creditSpec p hops (index.map CBlockIndex.toBlockData)
  valid : CreditsValid p keyFor walk.index
  data : walk.index.map CBlockIndex.toBlockData = index.map CBlockIndex.toBlockData
  stopped : walk.stopped = true → walk.credit = int64Max

/-- **The walk returns the credit of the blocks**, and keeps the store valid. -/
theorem creditWalk_spec (hlinked : Linked (tip :: ancestors))
    (hvalid : CreditsValid p keyFor (tip :: ancestors)) (hhops : hops = anchorDepth p tip.nHeight)
    (hlength : hops ≤ ancestors.length) :
    WalkSpec p keyFor hops (tip :: ancestors) (creditWalk p keyFor hops (tip :: ancestors)) := by
  induction hops generalizing tip ancestors with
  | zero => exact ⟨rfl, hvalid, rfl, fun h => by cases h⟩
  | succ hops ih =>
    cases ancestors with
    | nil => simp at hlength
    | cons prev earlier =>
      obtain ⟨hheight, hlinked'⟩ := hlinked
      have hpred : hops = anchorDepth p prev.nHeight := by
        rw [show prev.nHeight = tip.nHeight - 1 by omega]
        exact anchorDepth_pred hhops
      have ih := ih hlinked' hvalid.2 hpred (by simpa using hlength)
      by_cases hlow : tip.nHeight < p.nMatMulStallRecoveryHeight
      · rw [creditWalk_of_low hlow]
        exact ⟨by simp [creditSpec, hlow], hvalid, rfl, fun h => by cases h⟩
      by_cases hcached : IsCached keyFor tip
      · rw [creditWalk_of_cached hlow hcached]
        exact ⟨hhops ▸ hvalid.1 hcached, hvalid, rfl, fun h => by cases h⟩
      rw [creditWalk_of_uncached hlow hcached]
      have hspec : creditSpec p (hops + 1) ((tip :: prev :: earlier).map CBlockIndex.toBlockData) =
          addBlockCredit p (creditWalk p keyFor hops (prev :: earlier)).credit tip.toBlockData
            prev.toBlockData (earlier.map CBlockIndex.toBlockData) := by
        simp only [map_cons, creditSpec, if_neg hlow, ih.credit]
      dsimp only
      split_ifs with hstopped
      · -- left early: the sum has reached the largest value and stays there
        have hmax := ih.stopped hstopped
        refine ⟨?_, ⟨fun h => absurd h hcached, ih.valid⟩, ?_, fun _ => hmax⟩
        · rw [hspec, hmax, addBlockCredit_max]
        · simp only [map_cons, ih.data]
      · refine ⟨hspec.symm, ⟨fun _ => ?_, ih.valid⟩, ?_, of_decide_eq_true⟩
        · rw [map_cons, storeCredit_toBlockData, ih.data, ← map_cons, ← hhops, hspec]
          rfl
        · simp only [map_cons, storeCredit_toBlockData, ih.data]

/-! ## The two indices of one chain -/

/-- The last part of `MatMulAsert` is reached at a tip of the given height. -/
structure AsertReached (p : Params) (height : ℤ) : Prop where
  nonneg : 0 ≤ height + 1
  range : height + 1 ≤ int32Max
  started : p.nMatMulAsertHeight ≤ height + 1
  valid : ValidateMatMulAsertParams p
  notFiring : firing p (height + 1) = none

theorem AsertReached.anchorHeight_le (h : AsertReached p height) :
    anchorHeight p height ≤ height := by
  have := bootstrap_le_of_not_firing h.started h.notFiring
  exact Pow.anchorHeight_le (by omega)

theorem AsertReached.currentAnchorHeight (h : AsertReached p height) :
    (resolveMatMulAsertHalfLifeInfo p height).currentAnchorHeight = anchorHeight p height :=
  currentAnchorHeight_eq h.valid (by have := h.range; omega)

/-- The target of an anchor from which `MatMulAsert` goes on. -/
def AnchorInRange (p : Params) (height : ℤ) (anchor : BlockData) : Prop :=
  (setCompact anchor.nBits).value ≠ 0 ∧
    (setCompact anchor.nBits).value ≤ matMulAsertPowLimitForNextHeight p (height + 1)

/-- The credit is asked for. -/
structure CreditReached (p : Params) (tip : CBlockIndex) (ancestors : List CBlockIndex) : Prop
    extends AsertReached p tip.nHeight where
  anchorNonneg : 0 ≤ anchorHeight p tip.nHeight
  anchor : ∃ anchor, getAncestor tip ancestors (anchorHeight p tip.nHeight) = some anchor ∧
    AnchorInRange p tip.nHeight anchor.toBlockData

section Rel

variable {R : List CBlockIndex → List CBlockIndex → Prop}
  (htip : tip'.toBlockData = tip.toBlockData) (hrel : R (tip' :: ancestors') (tip :: ancestors))
  (hcredit : CreditReached p tip ancestors →
    (matMulAsertClampedTimeCredit p tip' ancestors' (anchorDepth p tip.nHeight)).credit =
      (matMulAsertClampedTimeCredit p tip ancestors (anchorDepth p tip.nHeight)).credit ∧
    R (matMulAsertClampedTimeCredit p tip' ancestors' (anchorDepth p tip.nHeight)).index
      (matMulAsertClampedTimeCredit p tip ancestors (anchorDepth p tip.nHeight)).index)

include htip hrel hcredit

/-- Tips that agree on the anchor leave `asertFromAnchor` the same way. -/
theorem asertFromAnchor_rel (hasert : AsertReached p tip.nHeight)
    (hanchor : 0 ≤ anchorHeight p tip.nHeight →
      (getAncestor tip' ancestors' (anchorHeight p tip.nHeight)).map CBlockIndex.toBlockData =
        (getAncestor tip ancestors (anchorHeight p tip.nHeight)).map CBlockIndex.toBlockData) :
    let limit := matMulAsertPowLimitForNextHeight p (tip.nHeight + 1)
    (asertFromAnchor p limit tip' ancestors').branch =
      (asertFromAnchor p limit tip ancestors).branch ∧
    (asertFromAnchor p limit tip' ancestors').bits = (asertFromAnchor p limit tip ancestors).bits ∧
    R (asertFromAnchor p limit tip' ancestors').index
      (asertFromAnchor p limit tip ancestors).index := by
  intro limit
  have hle := hasert.anchorHeight_le
  simp only [asertFromAnchor, htip, hasert.currentAnchorHeight]
  by_cases hneg : anchorHeight p tip.nHeight < 0
  · rw [if_pos (.inl hneg), if_pos (.inl hneg)]
    exact ⟨rfl, rfl, hrel⟩
  have hin : ¬(anchorHeight p tip.nHeight < 0 ∨ tip.nHeight < anchorHeight p tip.nHeight) := by
    omega
  rw [if_neg hin, if_neg hin]
  have hanchor := hanchor (by omega)
  cases hget : getAncestor tip ancestors (anchorHeight p tip.nHeight) with
  | none =>
    rw [hget, map_none, map_eq_none_iff] at hanchor
    rw [hanchor]
    exact ⟨rfl, rfl, hrel⟩
  | some anchor =>
    rw [hget, map_some, map_eq_some_iff] at hanchor
    obtain ⟨anchor', hget', hdata⟩ := hanchor
    rw [hget']
    simp only [hdata]
    by_cases hinvalid : (setCompact anchor.nBits).value = 0 ∨
      limit < (setCompact anchor.nBits).value
    · rw [if_pos hinvalid, if_pos hinvalid]
      exact ⟨rfl, rfl, hrel⟩
    · rw [if_neg hinvalid, if_neg hinvalid]
      obtain ⟨hsame, hindex⟩ := hcredit ⟨hasert, by omega, anchor, hget, by
        rw [not_or, not_lt] at hinvalid
        exact hinvalid⟩
      unfold anchorDepth at hsame hindex
      dsimp only
      rw [hsame]
      exact ⟨rfl, rfl, hindex⟩

/-- **What a call returns depends on little.** -/
theorem matMulAsert_rel
    (hgenesis : (findGenesisBlockIndex tip' ancestors').map CBlockIndex.toBlockData =
      (findGenesisBlockIndex tip ancestors).map CBlockIndex.toBlockData)
    (hanchor : AsertReached p tip.nHeight → 0 ≤ anchorHeight p tip.nHeight →
      (getAncestor tip' ancestors' (anchorHeight p tip.nHeight)).map CBlockIndex.toBlockData =
        (getAncestor tip ancestors (anchorHeight p tip.nHeight)).map CBlockIndex.toBlockData) :
    (matMulAsert p tip' ancestors').branch = (matMulAsert p tip ancestors).branch ∧
    (matMulAsert p tip' ancestors').bits = (matMulAsert p tip ancestors).bits ∧
    R (matMulAsert p tip' ancestors').index (matMulAsert p tip ancestors).index := by
  simp only [matMulAsert, htip]
  by_cases hrange : tip.nHeight + 1 < 0 ∨ int32Max < tip.nHeight + 1
  · rw [if_pos hrange, if_pos hrange]
    exact ⟨rfl, rfl, hrel⟩
  rw [if_neg hrange, if_neg hrange]
  by_cases hlow : tip.nHeight + 1 < p.nMatMulAsertHeight
  · rw [if_pos hlow, if_pos hlow]
    cases hfind : findGenesisBlockIndex tip ancestors with
    | none =>
      rw [hfind, map_none, map_eq_none_iff] at hgenesis
      rw [hgenesis]
      exact ⟨rfl, rfl, hrel⟩
    | some genesis =>
      rw [hfind, map_some, map_eq_some_iff] at hgenesis
      obtain ⟨genesis', hfind', hdata⟩ := hgenesis
      rw [hfind']
      simp only [fastMineBootstrapBits, hdata]
      exact ⟨trivial, trivial, hrel⟩
  rw [if_neg hlow, if_neg hlow]
  by_cases hvalid : ValidateMatMulAsertParams p
  · rw [if_neg (not_not.2 hvalid), if_neg (not_not.2 hvalid)]
    cases hfiring : firing p (tip.nHeight + 1) with
    | some s =>
      dsimp only
      split <;> exact ⟨rfl, rfl, hrel⟩
    | none =>
      have hasert : AsertReached p tip.nHeight :=
        ⟨by omega, by omega, by omega, hvalid, hfiring⟩
      exact asertFromAnchor_rel htip hrel hcredit hasert (hanchor hasert)
  · rw [if_pos hvalid, if_pos hvalid]
    exact ⟨rfl, rfl, hrel⟩

end Rel

/-! ## One chain -/

section

variable
  (hsame : (tip' :: ancestors').map CBlockIndex.toBlockData =
    (tip :: ancestors).map CBlockIndex.toBlockData)

include hsame

theorem getAncestor_congr (height : ℤ) :
    (getAncestor tip' ancestors' height).map CBlockIndex.toBlockData =
      (getAncestor tip ancestors height).map CBlockIndex.toBlockData := by
  have htip := (cons.inj hsame).1
  simp only [getAncestor, htip]
  split_ifs
  · rfl
  · rw [← getElem?_map, hsame, getElem?_map]

theorem findGenesisBlockIndex_congr (hlinked : Linked (tip :: ancestors)) :
    (findGenesisBlockIndex tip' ancestors').map CBlockIndex.toBlockData =
      (findGenesisBlockIndex tip ancestors).map CBlockIndex.toBlockData := by
  rw [findGenesisBlockIndex_of_descends hlinked.descends,
    findGenesisBlockIndex_of_descends (hlinked.congr hsame).descends,
    ← getLast?_map, hsame, getLast?_map]

end

section

variable (hlinked : Linked (tip :: ancestors))

include hlinked

variable (hvalid : CreditsValid p (clampedAsertCreditCacheKey p) (tip :: ancestors))

include hvalid in
/-- **The credit of a linked chain.** -/
theorem matMulAsertClampedTimeCredit_spec (hcredit : CreditReached p tip ancestors) :
    let walk := matMulAsertClampedTimeCredit p tip ancestors (anchorDepth p tip.nHeight)
    (walk.credit = if !p.isMatMulStallRecoveryActive tip.nHeight ∨
        p.matMulAsertClampedMinIntervalSeconds ≤ 0 then 0
      else creditSpec p (anchorDepth p tip.nHeight)
        ((tip :: ancestors).map CBlockIndex.toBlockData)) ∧
    CreditsValid p (clampedAsertCreditCacheKey p) walk.index ∧
    walk.index.map CBlockIndex.toBlockData = (tip :: ancestors).map CBlockIndex.toBlockData := by
  intro walk
  have hlength : anchorDepth p tip.nHeight ≤ ancestors.length := by
    have := hlinked.tip_height
    have := hcredit.anchorNonneg
    unfold anchorDepth
    omega
  simp only [walk, matMulAsertClampedTimeCredit]
  split_ifs with hoff
  · exact ⟨rfl, hvalid, rfl⟩
  · have hspec := creditWalk_spec hlinked hvalid rfl hlength
    exact ⟨hspec.credit, hspec.valid, hspec.data⟩

/-- **The work of a linked chain is that of its blocks**, whatever valid credits are stored. -/
theorem matMulAsert_congr (hsame : (tip' :: ancestors').map CBlockIndex.toBlockData =
      (tip :: ancestors).map CBlockIndex.toBlockData)
    (hvalid : CreditsValid p (clampedAsertCreditCacheKey p) (tip :: ancestors))
    (hvalid' : CreditsValid p (clampedAsertCreditCacheKey p) (tip' :: ancestors')) :
    (matMulAsert p tip' ancestors').bits = (matMulAsert p tip ancestors).bits := by
  have htip : tip'.toBlockData = tip.toBlockData := (cons.inj hsame).1
  refine (matMulAsert_rel (R := fun _ _ => True) htip trivial (fun hcredit => ⟨?_, trivial⟩)
    (findGenesisBlockIndex_congr hsame hlinked) fun _ _ => getAncestor_congr hsame _).2.1
  have hcredit' : CreditReached p tip' ancestors' := by
    obtain ⟨hasert, hnonneg, anchor, hget, hrange⟩ := hcredit
    have hget' := getAncestor_congr hsame (anchorHeight p tip.nHeight)
    rw [hget, map_some, map_eq_some_iff] at hget'
    obtain ⟨anchor', hget', hdata⟩ := hget'
    refine ⟨by rwa [htip], by rwa [htip], anchor', by rwa [htip], by rwa [hdata, htip]⟩
  have h := (matMulAsertClampedTimeCredit_spec hlinked hvalid hcredit).1
  have h' := (matMulAsertClampedTimeCredit_spec (hlinked.congr hsame) hvalid' hcredit').1
  rw [htip, hsame] at h'
  rw [h', h]

include hvalid in
/-- **A call keeps the blocks, and leaves valid credits.** -/
theorem matMulAsert_index :
    CreditsValid p (clampedAsertCreditCacheKey p) (matMulAsert p tip ancestors).index ∧
      (matMulAsert p tip ancestors).index.map CBlockIndex.toBlockData =
        (tip :: ancestors).map CBlockIndex.toBlockData := by
  refine (matMulAsert_rel (R := fun _ index => CreditsValid p (clampedAsertCreditCacheKey p) index ∧
    index.map CBlockIndex.toBlockData = (tip :: ancestors).map CBlockIndex.toBlockData)
    rfl ⟨hvalid, rfl⟩ (fun hcredit => ⟨rfl, ?_⟩) rfl fun _ _ => rfl).2.2
  exact (matMulAsertClampedTimeCredit_spec hlinked hvalid hcredit).2

end

end Btx.Pow
