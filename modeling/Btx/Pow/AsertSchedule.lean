/-
# The cascade and the anchor agree

For validated parameters the anchor is the latest height of the schedule that the tip has reached
(`currentAnchorHeight_eq`), at every such height some rule fires (`ne_height_of_firing`), and a rule
that changes the target fires at its own height only (`height_of_firing`). The last section reads
`MatMulAsert` with these.
-/

import Btx.Pow.LinkedIndex

namespace Btx.Pow

open OneShot List

variable {p : Params} {tip next : ℤ} {s other : OneShot}

/-! ## The anchor -/

/-- The rules, other than the start of ASERT, that move the anchor. -/
def anchorMoves : List OneShot :=
  [retune, retune2, v4, bmx4c, drlt, rc, rcCoupled, powLimitUpgrade, stallRecovery,
    halfLifeUpgrade]

/-- The latest height of the schedule that the tip has reached. -/
def anchorHeight (p : Params) (tip : ℤ) : ℤ :=
  Util.latest (bootstrap.height p) (anchorMoves.map fun s => s.height p) tip

theorem height_le_max (s : OneShot) : s.height p ≤ int32Max := by
  cases s <;> exact int32_le_max _

theorem enabled_of_le (hs : s.height p ≤ tip) (htip : tip < int32Max) : s.Enabled p := by
  unfold Enabled IsDisabledHeight
  omega

theorem lt_height_of_not_enabled (hs : ¬s.Enabled p) (htip : tip < int32Max) :
    tip < s.height p := by
  unfold Enabled IsDisabledHeight at hs
  omega

variable (hp : ValidateMatMulAsertParams p)

include hp in
theorem latest_retunes (htip : tip < int32Max) :
    Util.latest (bootstrap.height p) [retune.height p, retune2.height p] tip =
      if bootstrap.height p ≤ retune2.height p ∧ retune2.height p ≤ tip then retune2.height p
      else if bootstrap.height p ≤ retune.height p ∧ retune.height p ≤ tip then retune.height p
      else bootstrap.height p := by
  have hretune := hp.retuneAbove
  have hretune2 := hp.retune2Above
  have horder := hp.retune2Order
  simp only [AboveAsert, NotBelow, Enabled, IsDisabledHeight] at hretune hretune2 horder
  simp only [Util.latest_cons, Util.latest_nil]
  split_ifs <;> omega

include hp in
/-- **The anchor is the latest height of the schedule that the tip has reached.** -/
theorem currentAnchorHeight_eq (htip : tip < int32Max) :
    (resolveMatMulAsertHalfLifeInfo p tip).currentAnchorHeight = anchorHeight p tip := by
  have hpre : latestMatMulAsertPreUpgradeAnchorHeight p tip =
      Util.latest (bootstrap.height p) ([retune, retune2, v4, bmx4c, drlt, rc, rcCoupled,
        powLimitUpgrade, stallRecovery].map fun s => s.height p) tip := by
    rw [latestMatMulAsertPreUpgradeAnchorHeight, reanchorHeights, Util.latest_map_filter,
      ← latest_retunes hp htip, ← Util.latest_append]
    · rfl
    · intro s _ hs
      exact lt_height_of_not_enabled (of_decide_eq_false hs) htip
  have hsplit : anchorHeight p tip = Util.latest (latestMatMulAsertPreUpgradeAnchorHeight p tip)
      [halfLifeUpgrade.height p] tip := by
    rw [hpre, ← Util.latest_append]
    rfl
  rw [hsplit, Util.latest_cons, Util.latest_nil, resolveMatMulAsertHalfLifeInfo]
  by_cases hpassed : halfLifeUpgrade.height p ≤ tip
  · have hon := enabled_of_le hpassed htip
    simp only [hon, hpassed, true_and, and_self, if_true]
    split_ifs <;> omega
  · simp [hpassed]

theorem bootstrap_le_anchorHeight : bootstrap.height p ≤ anchorHeight p tip :=
  Util.base_le_latest

/-- **A height that the tip has reached is not above the anchor.** -/
theorem height_le_anchorHeight (hs : s.height p ≤ tip) : s.height p ≤ anchorHeight p tip := by
  by_cases hboot : s = bootstrap
  · rw [hboot]
    exact bootstrap_le_anchorHeight
  · refine Util.le_latest (mem_map_of_mem ?_) hs
    cases s <;> simp_all [anchorMoves]

theorem anchorHeight_le (htip : bootstrap.height p ≤ tip) : anchorHeight p tip ≤ tip :=
  Util.latest_le htip

/-! ## The cascade -/

theorem height_of_fires (h : s.Fires p next) : next = s.height p := by
  cases s with
  | bootstrap | retune | retune2 | rc | halfLifeUpgrade => exact h
  | v4 | bmx4c | drlt | rcCoupled => exact h.1
  | powLimitUpgrade | stallRecovery => exact h.2

theorem height_of_firing (h : firing p next = some s) : next = s.height p := by
  have hfires := find?_some (show cascade.find? (fun t => t.Fires p next) = some s from h)
  exact height_of_fires (of_decide_eq_true hfires)

theorem mem_cascade (s : OneShot) : s ∈ cascade := by
  cases s <;> simp [cascade]

theorem exists_fires (hs : s.Enabled p) : ∃ t : OneShot, t.Fires p (s.height p) := by
  by_cases hrc : s.height p = rc.height p
  · exact ⟨rc, hrc⟩
  by_cases hbmx4c : s.height p = bmx4c.height p
  · exact ⟨bmx4c, hbmx4c, hrc⟩
  cases s with
  | bootstrap => exact ⟨bootstrap, rfl⟩
  | retune => exact ⟨retune, rfl⟩
  | retune2 => exact ⟨retune2, rfl⟩
  | halfLifeUpgrade => exact ⟨halfLifeUpgrade, rfl⟩
  | v4 => exact ⟨v4, rfl, hbmx4c, hrc⟩
  | bmx4c => exact absurd rfl hbmx4c
  | drlt => exact ⟨drlt, rfl, hbmx4c, hrc⟩
  | rc => exact absurd rfl hrc
  | rcCoupled => exact ⟨rcCoupled, rfl, hrc⟩
  | powLimitUpgrade => exact ⟨powLimitUpgrade, hs, rfl⟩
  | stallRecovery => exact ⟨stallRecovery, hs, rfl⟩

/-- **Some rule fires at every height of the schedule.** -/
theorem ne_height_of_firing (h : firing p next = none) (hs : s.Enabled p) : next ≠ s.height p := by
  rintro rfl
  obtain ⟨t, ht⟩ := exists_fires hs
  exact find?_eq_none.1 h t (mem_cascade t) (decide_eq_true ht)

theorem ne_of_apartFrom {others : List OneShot} (h : s.ApartFrom p others) (hs : s.Enabled p) :
    ∀ t ∈ others, s.height p ≠ t.height p := by
  intro t ht heq
  refine h t ht ⟨?_, heq⟩
  rwa [Enabled, ← heq]

theorem ne_of_inertWhenUnified (h : s.InertWhenUnified p other) (hs : s.Enabled p)
    (hinert : ¬s.Inert p) : s.height p ≠ other.height p := by
  intro heq
  refine hinert (h hs ?_ heq)
  rwa [Enabled, ← heq]

include hp in
theorem retune_factor (hinert : ¬retune.Inert p) :
    1 < (p.nMatMulAsertRetuneHardeningFactor : ℕ) := by
  have hzero : (p.nMatMulAsertRetuneHardeningFactor : ℕ) ≠ 0 := fun h =>
    hp.retuneFactor (UInt32.toNat_inj.1 h)
  have hone : ((p.nMatMulAsertRetuneHardeningFactor : ℕ) : ℤ) ≠ 1 := fun h => hinert h.symm
  omega

theorem firing_bootstrap : firing p (bootstrap.height p) = some bootstrap := by
  simp [firing, cascade, Fires]

include hp in
/-- **A rule that changes the target is not skipped.** -/
theorem firing_height (hs : s.Enabled p)
    (hinert : ¬s.Inert p) : firing p (s.height p) = some s := by
  cases s with
  | bootstrap => exact firing_bootstrap
  | retune =>
    have hboot := hp.retuneShadow hs (retune_factor hp hinert)
    simp [firing, cascade, Fires, hboot]
  | retune2 =>
    have hboot := hp.retune2Shadow hs hinert
    have hretune : retune2.height p ≠ retune.height p := fun heq =>
      hp.retune2ShadowRetune hs hinert (by rwa [Enabled, ← heq]) heq
    simp [firing, cascade, Fires, hboot, hretune]
  | v4 =>
    have hearlier := ne_of_apartFrom (hp.v4Shadow hs hinert) hs
    have hbmx4c := ne_of_inertWhenUnified hp.v4Unified hs hinert
    simp [firing, cascade, Fires, hearlier, hbmx4c]
  | bmx4c =>
    have hearlier := ne_of_apartFrom (hp.bmx4cShadow hs hinert) hs
    simp [firing, cascade, Fires, hearlier]
  | drlt =>
    have hearlier := ne_of_apartFrom (hp.drltShadow hs hinert) hs
    simp [firing, cascade, Fires, hearlier]
  | rc =>
    have hearlier := ne_of_apartFrom (hp.rcShadow hs hinert) hs
    simp [firing, cascade, Fires, hearlier]
  | rcCoupled =>
    have hearlier := ne_of_apartFrom (hp.coupledShadow hs hinert) hs
    simp [firing, cascade, Fires, hearlier]
  | powLimitUpgrade | halfLifeUpgrade => exact absurd rfl hinert
  | stallRecovery =>
    have hearlier := ne_of_apartFrom (hp.recoveryApart hs) hs
    simp [firing, cascade, Fires, hearlier, hs]

/-! ## The ways through `MatMulAsert` -/

section MatMulAsert

variable {block : CBlockIndex} {ancestors : List CBlockIndex} {limit target : ℕ} {a : ℤ}

theorem matMulAsert_of_lt (hlinked : Linked (block :: ancestors))
    (hheight : block.nHeight < int32Max) (hlow : block.nHeight + 1 < bootstrap.height p) :
    ∃ genesis, matMulAsert p block ancestors =
      ⟨.fastMine, fastMineBootstrapBits p genesis, block :: ancestors⟩ := by
  have hpos := hlinked.descends.nonneg
  have hlow' : block.nHeight + 1 < p.nMatMulAsertHeight := hlow
  refine ⟨(block :: ancestors).getLast (cons_ne_nil block ancestors), ?_⟩
  simp only [matMulAsert, hlow', if_true, findGenesisBlockIndex_of_descends hlinked.descends,
    getLast?_eq_some_getLast (cons_ne_nil block ancestors)]
  rw [if_neg (by omega)]

theorem matMulAsert_of_ge (hp : ValidateMatMulAsertParams p)
    (hlinked : Linked (block :: ancestors)) (hheight : block.nHeight < int32Max)
    (hasert : bootstrap.height p ≤ block.nHeight + 1) :
    matMulAsert p block ancestors =
      match firing p (block.nHeight + 1) with
      | some s =>
        match s.target p (block.nHeight + 1)
            (matMulAsertPowLimitForNextHeight p (block.nHeight + 1))
            (setCompact block.nBits).value with
        | none => ⟨.ratioRefused s, matMulAsertFailClosedBits, block :: ancestors⟩
        | some target => ⟨.oneShot s, getCompact (clampRetargetResult target
            (matMulAsertPowLimitForNextHeight p (block.nHeight + 1))), block :: ancestors⟩
      | none => asertFromAnchor p (matMulAsertPowLimitForNextHeight p (block.nHeight + 1)) block
          ancestors := by
  have hpos := hlinked.descends.nonneg
  have hasert' : ¬block.nHeight + 1 < p.nMatMulAsertHeight := not_lt.2 hasert
  simp only [matMulAsert, hasert', if_false, hp, not_true_eq_false]
  exact if_neg (by omega)

theorem bootstrap_le_of_not_firing (hasert : bootstrap.height p ≤ next)
    (hfiring : firing p next = none) : bootstrap.height p < next := by
  refine lt_of_le_of_ne hasert fun heq => ?_
  rw [← heq, firing_bootstrap] at hfiring
  cases hfiring

theorem exists_anchor (hlinked : Linked (block :: ancestors))
    (hasert : bootstrap.height p ≤ block.nHeight) (hanchor : 0 ≤ anchorHeight p block.nHeight) :
    ∃ anchor ∈ block :: ancestors,
      getAncestor block ancestors (anchorHeight p block.nHeight) = some anchor ∧
        anchor.nHeight = anchorHeight p block.nHeight :=
  getAncestor_of_linked hlinked hanchor (anchorHeight_le hasert)

theorem currentHalfLife_pos (hp : ValidateMatMulAsertParams p) (tip : ℤ) :
    0 < (resolveMatMulAsertHalfLifeInfo p tip).currentHalfLife := by
  unfold resolveMatMulAsertHalfLifeInfo
  dsimp only
  split_ifs with hupgrade
  · exact (hp.halfLifeUpgrade hupgrade.1).positive
  · exact hp.halfLife

theorem calculateMatMulAsertTarget_clamped {anchorTarget : ℕ} {heightDiff halfLife : ℤ}
    (timeDiff : ℤ) (hguard : asertTargetGuard p anchorTarget heightDiff halfLife limit = none) :
    ∃ t, calculateMatMulAsertTarget p anchorTarget timeDiff heightDiff halfLife limit =
      clampRetargetResult t limit := by
  unfold calculateMatMulAsertTarget
  rw [hguard]
  exact ⟨_, rfl⟩

/-- **From an anchor in range the target is computed and cut to the limit.** -/
theorem asertFromAnchor_of_anchor (hp : ValidateMatMulAsertParams p)
    (hlinked : Linked (block :: ancestors)) (hheight : block.nHeight < int32Max)
    (hasert : bootstrap.height p ≤ block.nHeight) (hanchor : 0 ≤ anchorHeight p block.nHeight)
    (hrange : ∀ anchor ∈ block :: ancestors, anchor.nHeight = anchorHeight p block.nHeight →
      (setCompact anchor.nBits).value ≠ 0 ∧ (setCompact anchor.nBits).value ≤ limit) :
    (asertFromAnchor p limit block ancestors).branch = .asert (anchorHeight p block.nHeight) ∧
      ∃ t, (asertFromAnchor p limit block ancestors).bits =
        getCompact (clampRetargetResult t limit) := by
  obtain ⟨anchor, hmem, hget, hat⟩ := exists_anchor hlinked hasert hanchor
  obtain ⟨hzero, hle⟩ := hrange anchor hmem hat
  have hreached := anchorHeight_le hasert
  have hlow :
      ¬(anchorHeight p block.nHeight < 0 ∨ block.nHeight < anchorHeight p block.nHeight) := by
    omega
  have hinvalid :
      ¬((setCompact anchor.nBits).value = 0 ∨ limit < (setCompact anchor.nBits).value) := by
    omega
  have hguard : asertTargetGuard p (setCompact anchor.nBits).value
      (block.nHeight - anchorHeight p block.nHeight)
      (resolveMatMulAsertHalfLifeInfo p block.nHeight).currentHalfLife limit = none := by
    have hhalf := currentHalfLife_pos hp block.nHeight
    have hspacing := hp.targetSpacing
    rw [asertTargetGuard, if_neg hinvalid, if_neg (by omega), if_neg (by omega)]
  simp only [asertFromAnchor, currentAnchorHeight_eq hp hheight, if_neg hlow, hget,
    if_neg hinvalid, hat, hguard, Option.isSome_none, Bool.false_eq_true, if_false, true_and]
  obtain ⟨t, ht⟩ := calculateMatMulAsertTarget_clamped _ hguard
  exact ⟨t, congrArg getCompact ht⟩

end MatMulAsert

end Btx.Pow
