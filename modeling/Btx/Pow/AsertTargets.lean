/-
# Targets stay within the limit

Each target has been cut to the limit at its height and stored in compact form
(`deriveTarget_clamped`). The limit changes at one height only, and there the cascade fires. With an
ASERT height below 0 every block up to the first other height has the limit as its target
(`negativeStart_falls_back`); at 0 the anchor is the genesis block, whose target nothing has cut.
-/

import Btx.Pow.AsertSchedule

namespace Btx.Pow

open OneShot List Option

/-- A chain from a genesis block of the given `nBits`, in which every block has the `nBits` that
`GetNextWorkRequired` asks for. What the index stores of time credits is left open. -/
inductive FollowsWork (p : Params) (genesisBits : ℕ) : List CBlockIndex → Prop
  | genesis {block : CBlockIndex} (hheight : block.nHeight = 0)
      (hbits : block.nBits = genesisBits) : FollowsWork p genesisBits [block]
  | next {block tip : CBlockIndex} {ancestors : List CBlockIndex} {required : Requirement}
      (hchain : FollowsWork p genesisBits (tip :: ancestors))
      (hheight : block.nHeight = tip.nHeight + 1) (hmax : block.nHeight ≤ int32Max)
      (hrequired : getNextWorkRequired p tip ancestors block.blockTime = some required)
      (hbits : block.nBits = required.nBits) : FollowsWork p genesisBits (block :: tip :: ancestors)
  | recached {index index' : List CBlockIndex} (hchain : FollowsWork p genesisBits index)
      (hsame : index'.map CBlockIndex.toBlockData = index.map CBlockIndex.toBlockData) :
      FollowsWork p genesisBits index'

/-- What the ASERT start has to meet beside the validation: the first block has an anchor or a rule
fires at its height, and what these read of the genesis block is in range. -/
@[mk_iff]
structure AsertStart (p : Params) (genesisBits : ℕ) : Prop where
  matMul : p.fMatMulPOW = true
  limit : p.powLimit.toNat ≠ 0
  start : 0 ≤ bootstrap.height p ∨ ∃ s ∈ anchorMoves, s.height p = 0 ∨ s.height p = 1
  genesis : bootstrap.height p ≤ 0 → firing p 1 = none →
    (deriveTarget genesisBits (matMulAsertPowLimitForNextHeight p 0)).isSome
  parent : firing p 1 = some rc → p.isMatMulV47EpochAActivationTuple = true →
    (setCompact genesisBits).value ≠ 0

instance (p : Params) (genesisBits : ℕ) : Decidable (AsertStart p genesisBits) :=
  decidable_of_iff _ (asertStart_iff p genesisBits).symm

/-- Without retargeting all blocks have the `nBits` of the genesis block, which must be within the
first and the last limit. -/
def SoundStart (p : Params) (genesisBits : ℕ) : Prop :=
  if p.fPowNoRetargeting then
    (deriveTarget genesisBits (matMulAsertPowLimitForNextHeight p 1)).isSome ∧
      (deriveTarget genesisBits (matMulAsertPowLimitForNextHeight p int32Max)).isSome
  else AsertStart p genesisBits

/-- The target of `nBits` is within the limit of the height. -/
def InRange (p : Params) (height : ℤ) (nBits : ℕ) : Prop :=
  ∃ t, deriveTarget nBits (matMulAsertPowLimitForNextHeight p height) = some t ∧
    1 ≤ t ∧ t ≤ matMulAsertPowLimitForNextHeight p height

variable {p : Params} {genesisBits nBits : ℕ} {tip block : CBlockIndex}
  {index index' ancestors : List CBlockIndex} {next other height : ℤ}

/-! ## The limit -/

theorem toNat_le_maxUint (x : BitVec 256) : x.toNat ≤ maxUint := by
  have := x.isLt
  unfold maxUint
  omega

theorem limit_le_maxUint : matMulAsertPowLimitForNextHeight p next ≤ maxUint := by
  simp only [matMulAsertPowLimitForNextHeight]
  split_ifs <;> exact toNat_le_maxUint _

theorem limit_pos (next : ℤ) (hlimit : p.powLimit.toNat ≠ 0) :
    1 ≤ matMulAsertPowLimitForNextHeight p next := by
  simp only [matMulAsertPowLimitForNextHeight]
  split_ifs <;> omega

theorem limit_of_lt (hnext : next < powLimitUpgrade.height p) :
    matMulAsertPowLimitForNextHeight p next = p.powLimit.toNat := by
  simp only [matMulAsertPowLimitForNextHeight]
  exact if_pos (.inr (.inr hnext))

theorem limit_of_not_enabled (hoff : ¬powLimitUpgrade.Enabled p) :
    matMulAsertPowLimitForNextHeight p next = p.powLimit.toNat := by
  simp only [matMulAsertPowLimitForNextHeight]
  exact if_pos (.inr (.inl (not_not.1 hoff)))

variable (hp : ValidateMatMulAsertParams p)

include hp in
theorem limit_of_le_asert (hnext : next ≤ bootstrap.height p) :
    matMulAsertPowLimitForNextHeight p next = p.powLimit.toNat := by
  by_cases hon : powLimitUpgrade.Enabled p
  · have := (hp.powLimitUpgrade hon).above
    exact limit_of_lt (by omega)
  · exact limit_of_not_enabled hon

theorem limit_of_le (hnext : powLimitUpgrade.height p ≤ next) (hother : next ≤ other)
    (hpos : 0 ≤ next) : matMulAsertPowLimitForNextHeight p other =
      matMulAsertPowLimitForNextHeight p next := by
  have hnext' : (p.nMatMulPowLimitUpgradeHeight : ℤ) ≤ next := hnext
  have hiff : (other < 0 ∨ IsDisabledHeight p.nMatMulPowLimitUpgradeHeight ∨
      other < p.nMatMulPowLimitUpgradeHeight) ↔ (next < 0 ∨
        IsDisabledHeight p.nMatMulPowLimitUpgradeHeight ∨
          next < p.nMatMulPowLimitUpgradeHeight) := by
    constructor
    · rintro (h | h | h)
      · omega
      · exact .inr (.inl h)
      · omega
    · rintro (h | h | h)
      · omega
      · exact .inr (.inl h)
      · omega
  simp only [matMulAsertPowLimitForNextHeight, hiff]

/-- **Where no rule fires, the limit has not changed since the anchor.** -/
theorem limit_eq_of_anchor {h : ℤ} (hfiring : firing p (other + 1) = none)
    (hanchor : anchorHeight p other ≤ h) (hle : h ≤ other + 1) (hpos : 0 ≤ h) :
    matMulAsertPowLimitForNextHeight p h = matMulAsertPowLimitForNextHeight p (other + 1) := by
  by_cases hpassed : powLimitUpgrade.height p ≤ other
  · have hup : powLimitUpgrade.height p ≤ h := (height_le_anchorHeight hpassed).trans hanchor
    exact (limit_of_le hup hle hpos).symm
  · by_cases hon : powLimitUpgrade.Enabled p
    · have hne := ne_height_of_firing hfiring hon
      rw [limit_of_lt (by omega), limit_of_lt (by omega)]
    · rw [limit_of_not_enabled hon, limit_of_not_enabled hon]

theorem inRange_clamped (t : ℕ) (hlimit : p.powLimit.toNat ≠ 0) :
    InRange p next (getCompact (clampRetargetResult t (matMulAsertPowLimitForNextHeight p next))) :=
  deriveTarget_clamped t (limit_pos next hlimit) limit_le_maxUint

theorem setCompact_of_inRange (h : InRange p height nBits) : (setCompact nBits).value ≠ 0 ∧
      (setCompact nBits).value ≤ matMulAsertPowLimitForNextHeight p height := by
  obtain ⟨t, ht, -, -⟩ := h
  obtain ⟨rfl, hpos, hle⟩ := deriveTarget_eq_some ht
  exact ⟨by omega, hle⟩

/-! ## One block -/

/-- What a chain has shown so far: it is linked, starts with the genesis block, and the blocks
above that are in range. -/
structure ChainInRange (p : Params) (genesisBits : ℕ) (index : List CBlockIndex) : Prop where
  linked : Linked index
  first : ∀ block ∈ index, block.nHeight = 0 → block.nBits = genesisBits
  ranged : ∀ block ∈ index, 1 ≤ block.nHeight → InRange p block.nHeight block.nBits

/-- **There is an anchor** where no rule fires: a rule at height 1 fires there, or is reached. -/
theorem AsertStart.anchorHeight_nonneg (hstart : AsertStart p genesisBits) (hpos : 0 ≤ other)
    (hfiring : firing p (other + 1) = none) : 0 ≤ anchorHeight p other := by
  rcases hstart.start with h | ⟨s, -, hs | hs⟩
  · exact h.trans bootstrap_le_anchorHeight
  · exact hs ▸ height_le_anchorHeight (hs.le.trans hpos)
  · rcases hpos.eq_or_lt with rfl | hpos
    · exact absurd hs.symm (ne_height_of_firing hfiring (enabled_of_le hs.le (by decide)))
    · have := height_le_anchorHeight (hs.le.trans hpos)
      omega

/-- The genesis block is an anchor only if no rule fires at height 1. -/
theorem firing_one_of_anchor (hfiring : firing p (other + 1) = none) (hpos : 0 ≤ other)
    (hanchor : anchorHeight p other = 0) : firing p 1 = none := by
  rcases hpos.eq_or_lt with rfl | hpos
  · exact hfiring
  · refine Option.eq_none_iff_forall_ne_some.2 fun s hs => ?_
    have := height_le_anchorHeight ((height_of_firing hs).ge.trans hpos)
    have := height_of_firing hs
    omega

/-- **The anchor is in range for the next block.** Where no rule fires, the limit has not changed
since the anchor. -/
theorem anchor_inRange (hstart : AsertStart p genesisBits)
    (hchain : ChainInRange p genesisBits (tip :: ancestors))
    (hfiring : firing p (tip.nHeight + 1) = none) :
    ∀ anchor ∈ tip :: ancestors, anchor.nHeight = anchorHeight p tip.nHeight →
      (setCompact anchor.nBits).value ≠ 0 ∧ (setCompact anchor.nBits).value ≤
        matMulAsertPowLimitForNextHeight p (tip.nHeight + 1) := by
  intro anchor hmem hat
  have htip := hchain.linked.descends.nonneg
  have hboot : bootstrap.height p ≤ anchor.nHeight := hat ▸ bootstrap_le_anchorHeight
  have hpos : 0 ≤ anchor.nHeight := hat ▸ hstart.anchorHeight_nonneg htip hfiring
  have hrange : InRange p anchor.nHeight anchor.nBits := by
    rcases hpos.eq_or_lt with hzero | hpos
    · obtain ⟨t, ht⟩ := isSome_iff_exists.1 (hstart.genesis (by omega)
        (firing_one_of_anchor hfiring htip (by omega)))
      rw [← hzero, hchain.first anchor hmem hzero.symm]
      exact ⟨t, ht, (deriveTarget_eq_some ht).2⟩
    · exact hchain.ranged anchor hmem hpos
  have hle : anchor.nHeight ≤ tip.nHeight := by
    obtain ⟨i, hi⟩ := getElem?_of_mem hmem
    have := hchain.linked.height_add hi
    have := hchain.linked.tip_height
    simp only [length_cons] at *
    omega
  rw [← limit_eq_of_anchor hfiring hat.ge (by omega) (by omega)]
  exact setCompact_of_inRange hrange

include hp in
theorem exists_target {parent limit : ℕ} (s : OneShot) (next : ℤ)
    (hparent : s = rc → p.isMatMulV47EpochAActivationTuple = true → parent ≠ 0)
    (hlimit : s = rc → p.isMatMulV47EpochAActivationTuple = true → limit ≠ 0) :
    ∃ t, s.target p next limit parent = some t := by
  have hscale : ∀ {t : OneShot}, t.Reduces p → ∃ v, t.scaleReduced p parent = some v := by
    intro t ht
    obtain ⟨⟨num, den⟩, hr⟩ := isSome_iff_exists.1 ht
    exact ⟨_, by simp only [scaleReduced, hr]; rfl⟩
  cases s with
  | bootstrap | retune | retune2 | powLimitUpgrade | halfLifeUpgrade => exact ⟨_, rfl⟩
  | v4 => exact hscale hp.v4Reduces
  | bmx4c => exact hscale hp.bmx4cReduces
  | drlt => exact hscale hp.drltReduces
  | rcCoupled => exact hscale hp.coupledReduces
  | stallRecovery => exact hscale hp.recoveryReduces
  | rc =>
    have hreduces := hp.rcReduces
    by_cases hepoch : p.isMatMulV47EpochAActivationTuple = true
    · rw [if_pos hepoch] at hreduces
      obtain ⟨⟨num, den⟩, hr⟩ := isSome_iff_exists.1 hreduces
      obtain ⟨hnum, hden, -⟩ := reduceRescaleRatioToU64_eq hr
      have hparent := hparent rfl hepoch
      have hlimit := hlimit rfl hepoch
      have hzero : ¬(parent = 0 ∨ num = 0 ∨ den = 0 ∨ limit = 0) := by omega
      simp only [target, if_pos hepoch, hr, bind_eq_bind, bind_some,
        deriveMatMulEpochATransitionTarget, if_neg hzero]
      exact ⟨_, rfl⟩
    · rw [if_neg hepoch] at hreduces
      simp only [target, if_neg hepoch]
      exact hscale hreduces

include hp in
/-- **One block.** On a chain in range the next target is in range, and no fallback is taken. -/
theorem matMulAsert_inRange (hstart : AsertStart p genesisBits)
    (hchain : ChainInRange p genesisBits (tip :: ancestors)) (hheight : tip.nHeight < int32Max) :
    InRange p (tip.nHeight + 1) (matMulAsert p tip ancestors).bits ∧
      ¬(matMulAsert p tip ancestors).branch.IsFallback := by
  have hlinked := hchain.linked
  have htip := hlinked.descends.nonneg
  have hlimit := hstart.limit
  by_cases hlow : tip.nHeight + 1 < bootstrap.height p
  · -- before ASERT: the scaled genesis target, cut to the historical limit
    obtain ⟨genesis, hwork⟩ := matMulAsert_of_lt hlinked hheight hlow
    obtain ⟨t, ht⟩ : ∃ t, fastMineBootstrapBits p genesis =
        getCompact (clampRetargetResult t p.powLimit.toNat) := ⟨_, rfl⟩
    rw [hwork, ht, ← limit_of_le_asert hp hlow.le]
    exact ⟨inRange_clamped t hlimit, id⟩
  · have hwork := matMulAsert_of_ge hp hlinked hheight (not_lt.1 hlow)
    rcases hfiring : firing p (tip.nHeight + 1) with _ | s
    · rw [hfiring] at hwork
      have hasert := bootstrap_le_of_not_firing (not_lt.1 hlow) hfiring
      obtain ⟨hbranch, t, hbits⟩ := asertFromAnchor_of_anchor hp hlinked hheight (by omega)
        (hstart.anchorHeight_nonneg htip hfiring) (anchor_inRange hstart hchain hfiring)
      simp only at hwork
      rw [hwork, hbits, hbranch]
      exact ⟨inRange_clamped t hlimit, id⟩
    · have hparent : s = rc → p.isMatMulV47EpochAActivationTuple = true →
          (setCompact tip.nBits).value ≠ 0 := by
        rintro rfl hepoch
        rcases htip.eq_or_lt with hzero | hpos
        · rw [hchain.first tip (mem_cons_self ..) hzero.symm]
          rw [← hzero] at hfiring
          exact hstart.parent hfiring hepoch
        · exact (setCompact_of_inRange (hchain.ranged tip (mem_cons_self ..) hpos)).1
      obtain ⟨t, ht⟩ := exists_target hp s (tip.nHeight + 1) hparent fun _ _ =>
        Nat.one_le_iff_ne_zero.1 (limit_pos (tip.nHeight + 1) hlimit)
      rw [hfiring] at hwork
      simp only [ht] at hwork
      rw [hwork]
      exact ⟨inRange_clamped t hlimit, id⟩

/-! ## Every chain -/

theorem getNextWorkRequired_matMul (hsound : AsertStart p genesisBits)
    (hretargets : p.fPowNoRetargeting = false) (hpos : 0 ≤ tip.nHeight)
    (hheight : tip.nHeight < int32Max) (blockTime : ℤ) :
    getNextWorkRequired p tip ancestors blockTime =
      some ⟨(matMulAsert p tip ancestors).bits, (matMulAsert p tip ancestors).index⟩ := by
  simp only [getNextWorkRequired, hretargets, hsound.matMul, Bool.false_eq_true, if_false, if_true]
  rw [if_neg (by omega)]

theorem getNextWorkRequired_fixed (hfixed : p.fPowNoRetargeting = true) (hpos : 0 ≤ tip.nHeight)
    (hheight : tip.nHeight < int32Max) (blockTime : ℤ) :
    getNextWorkRequired p tip ancestors blockTime = some ⟨tip.nBits, tip :: ancestors⟩ := by
  simp only [getNextWorkRequired, hfixed, if_true]
  rw [if_neg (by omega)]

theorem exists_toBlockData_eq
    (hsame : index'.map CBlockIndex.toBlockData = index.map CBlockIndex.toBlockData)
    (hmem : block ∈ index') : ∃ b ∈ index, b.toBlockData = block.toBlockData :=
  mem_map.1 (hsame ▸ mem_map_of_mem hmem)

theorem chainInRange_congr (h : ChainInRange p genesisBits index)
    (hsame : index'.map CBlockIndex.toBlockData = index.map CBlockIndex.toBlockData) :
    ChainInRange p genesisBits index' := by
  refine ⟨h.linked.congr hsame, fun block' hmem => ?_, fun block' hmem => ?_⟩
  · obtain ⟨block, hblock, heq⟩ := exists_toBlockData_eq hsame hmem
    rw [← heq]
    exact h.first block hblock
  · obtain ⟨block, hblock, heq⟩ := exists_toBlockData_eq hsame hmem
    rw [← heq]
    exact h.ranged block hblock

/-- Without retargeting every block has the `nBits` of the genesis block. -/
theorem FollowsWork.fixed (hchain : FollowsWork p genesisBits index)
    (hfixed : p.fPowNoRetargeting = true) :
    ∀ block ∈ index, 0 ≤ block.nHeight ∧ block.nBits = genesisBits := by
  induction hchain with
  | genesis hheight hbits => exact forall_mem_singleton.2 ⟨hheight.ge, hbits⟩
  | @next block tip ancestors required _ hheight hmax hrequired hbits ih =>
    obtain ⟨htip, htipBits⟩ := ih tip (mem_cons_self ..)
    rw [getNextWorkRequired_fixed hfixed htip (by omega)] at hrequired
    cases hrequired
    exact forall_mem_cons.2 ⟨⟨by omega, hbits.trans htipBits⟩, ih⟩
  | recached _ hsame ih =>
    intro block' hmem
    obtain ⟨block, hblock, heq⟩ := exists_toBlockData_eq hsame hmem
    rw [← heq]
    exact ih block hblock

theorem limit_mem (hpos : 1 ≤ next) (hmax : next ≤ int32Max) :
    matMulAsertPowLimitForNextHeight p next = matMulAsertPowLimitForNextHeight p 1 ∨
      matMulAsertPowLimitForNextHeight p next = matMulAsertPowLimitForNextHeight p int32Max := by
  by_cases hpassed : powLimitUpgrade.height p ≤ next
  · exact .inr (limit_of_le hpassed hmax (by omega)).symm
  · exact .inl (by rw [limit_of_lt (by omega), limit_of_lt (by omega)])

/-- Without retargeting the `nBits` of the genesis block are in range at every height. -/
theorem inRange_fixed (hsound : SoundStart p genesisBits) (hfixed : p.fPowNoRetargeting = true)
    (hpos : 1 ≤ next) (hmax : next ≤ int32Max) : InRange p next genesisBits := by
  rw [SoundStart, if_pos hfixed] at hsound
  have hsome : (deriveTarget genesisBits (matMulAsertPowLimitForNextHeight p next)).isSome := by
    rcases limit_mem (p := p) hpos hmax with h | h
    · exact h ▸ hsound.1
    · exact h ▸ hsound.2
  obtain ⟨t, ht⟩ := isSome_iff_exists.1 hsome
  exact ⟨t, ht, (deriveTarget_eq_some ht).2⟩

theorem SoundStart.asert (hsound : SoundStart p genesisBits)
    (hretargets : p.fPowNoRetargeting = false) : AsertStart p genesisBits := by
  rwa [SoundStart, hretargets, if_neg Bool.false_ne_true] at hsound

include hp in
/-- **Every block of the chain is in range.** By induction along the chain: the step is
`matMulAsert_inRange`. -/
theorem chainInRange (hsound : SoundStart p genesisBits)
    (hretargets : p.fPowNoRetargeting = false) (hchain : FollowsWork p genesisBits index) :
    ChainInRange p genesisBits index := by
  have hasert := hsound.asert hretargets
  induction hchain with
  | @genesis block hheight hbits =>
    refine ⟨hheight, fun b hb _ => ?_, fun b hb hpos => ?_⟩
    · obtain rfl := mem_singleton.1 hb
      exact hbits
    · obtain rfl := mem_singleton.1 hb
      omega
  | @next block tip ancestors required _ hheight hmax hrequired hbits ih =>
    have htip := ih.linked.descends.nonneg
    rw [getNextWorkRequired_matMul hasert hretargets htip (by omega)] at hrequired
    cases hrequired
    obtain ⟨hnext, -⟩ := matMulAsert_inRange hp hasert ih (by omega)
    refine ⟨⟨hheight, ih.linked⟩, fun b hb hzero => ?_, fun b hb hpos => ?_⟩
    · rcases mem_cons.1 hb with rfl | hb
      · omega
      · exact ih.first b hb hzero
    · rcases mem_cons.1 hb with rfl | hb
      · rw [hheight, hbits]
        exact hnext
      · exact ih.ranged b hb hpos
  | recached _ hsame ih => exact chainInRange_congr ih hsame

/-- **Targets stay within the limit.** For validated parameters with a sound start, on every chain
that follows `GetNextWorkRequired`, the next `nBits` decode to a target between 1 and the limit in
force at their height, and `MatMulAsert` takes none of its fallbacks. -/
theorem targets_within_limit (hp : ValidateMatMulAsertParams p)
    (hsound : SoundStart p genesisBits) (hchain : FollowsWork p genesisBits (tip :: ancestors))
    (hheight : tip.nHeight < int32Max) (blockTime : ℤ) :
    (∃ required t, getNextWorkRequired p tip ancestors blockTime = some required ∧
      deriveTarget required.nBits (matMulAsertPowLimitForNextHeight p (tip.nHeight + 1)) = some t ∧
        1 ≤ t ∧ t ≤ matMulAsertPowLimitForNextHeight p (tip.nHeight + 1)) ∧
      (p.fPowNoRetargeting = false → ¬(matMulAsert p tip ancestors).branch.IsFallback) := by
  cases hretargets : p.fPowNoRetargeting with
  | false =>
    have hrange := chainInRange hp hsound hretargets hchain
    have htip := hrange.linked.descends.nonneg
    have hasert := hsound.asert hretargets
    obtain ⟨⟨t, ht⟩, hfallback⟩ := matMulAsert_inRange hp hasert hrange hheight
    exact ⟨⟨_, t, getNextWorkRequired_matMul hasert hretargets htip hheight blockTime, ht⟩,
      fun _ => hfallback⟩
  | true =>
    obtain ⟨htip, hbits⟩ := hchain.fixed hretargets tip (mem_cons_self ..)
    obtain ⟨t, ht⟩ := inRange_fixed hsound hretargets (by omega) hheight
    rw [← hbits] at ht
    exact ⟨⟨_, t, getNextWorkRequired_fixed hretargets htip hheight blockTime, ht⟩, nofun⟩

/-- The genesis block of the main network. -/
def mainnetGenesis : CBlockIndex where
  nHeight := 0
  nTime := 1773878400
  nBits := 0x20147ae1

/-- The first block of the main network. -/
theorem mainnet_first_target :
    (∃ required t, getNextWorkRequired mainnet mainnetGenesis [] 1773878401 = some required ∧
      deriveTarget required.nBits (matMulAsertPowLimitForNextHeight mainnet 1) = some t ∧
        1 ≤ t ∧ t ≤ matMulAsertPowLimitForNextHeight mainnet 1) ∧
      ¬(matMulAsert mainnet mainnetGenesis []).branch.IsFallback := by
  have hsound : SoundStart mainnet 0x20147ae1 := show AsertStart mainnet 0x20147ae1 by
    decide +kernel
  have hchain : FollowsWork mainnet 0x20147ae1 [mainnetGenesis] := .genesis rfl rfl
  obtain ⟨htarget, hfallback⟩ :=
    targets_within_limit mainnet_valid hsound hchain (by decide) 1773878401
  exact ⟨htarget, hfallback rfl⟩

/-- The main network with its ASERT height below 0. -/
def negativeStart : Params := { mainnet with nMatMulAsertHeight := -1 }

/-- **A negative ASERT height passes the validation and falls back to the limit.** The first block
after the genesis block is computed for an anchor at height -1. -/
theorem negativeStart_falls_back :
    ValidateMatMulAsertParams negativeStart ∧
      FollowsWork negativeStart 0x20147ae1 [mainnetGenesis] ∧
      (matMulAsert negativeStart mainnetGenesis []).branch = .anchorOutOfRange ∧
      (matMulAsert negativeStart mainnetGenesis []).branch.IsFallback :=
  ⟨by decide +kernel, .genesis rfl rfl, by decide +kernel, by
    rw [show (matMulAsert negativeStart mainnetGenesis []).branch = .anchorOutOfRange by
      decide +kernel]
    trivial⟩

end Btx.Pow
