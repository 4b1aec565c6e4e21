/-
# Every rescale is applied once

A rule of the schedule that changes the target has to act at its own height, once, and must not be
undone (`AppliedOnce`). A rule at height 0 or below passes the validation, although `MatMulAsert`
starts at height 1 (`zeroStart_never_applied`); and the Epoch-A form of the RC rule refuses a limit
of zero.
-/

import Btx.Pow.AsertTargets

namespace Btx.Pow

open OneShot List Option

/-- The target a rule asks for: the parent's times the ratio. At the Epoch-A transition the share
of attempts that passed the gate that is dropped comes in as well. -/
def OneShot.rescaled (p : Params) (nextHeight : ℤ) (parentTarget : ℕ) (s : OneShot) : ℕ :=
  if s = rc ∧ p.isMatMulV47EpochAActivationTuple then
    parentTarget * saturatingLeftShift256 parentTarget
      (p.matMulPreHashEpsilonBitsForHeight (nextHeight - 1)) * (s.num p).toNat /
        ((s.den p).toNat * 2 ^ 256)
  else min maxUint (parentTarget * (s.num p).toNat / (s.den p).toNat)

/-- The branches by which the blocks of a chain above its last were computed, newest first. -/
def branches (p : Params) : List CBlockIndex → List Branch
  | _ :: prev :: earlier => (matMulAsert p prev earlier).branch :: branches p (prev :: earlier)
  | _ => []

/-- A linked chain without a target of zero. -/
structure Worked (index : List CBlockIndex) : Prop where
  linked : Linked index
  nonzero : ∀ block ∈ index, (setCompact block.nBits).value ≠ 0

/-- The rule is applied once, at its own height, and is not undone. -/
structure AppliedOnce (p : Params) (s : OneShot) : Prop where
  atOwnHeight : ∀ {tip ancestors}, Worked (tip :: ancestors) →
    ((matMulAsert p tip ancestors).branch = .oneShot s ↔ tip.nHeight + 1 = s.height p)
  rescales : ∀ {tip ancestors}, Worked (tip :: ancestors) → tip.nHeight + 1 = s.height p →
    (matMulAsert p tip ancestors).bits = getCompact (clampRetargetResult
      (s.rescaled p (tip.nHeight + 1) (setCompact tip.nBits).value)
      (matMulAsertPowLimitForNextHeight p (tip.nHeight + 1)))
  once : ∀ {index}, Worked index → s.height p < index.length →
    (branches p index).count (.oneShot s) = 1
  notUndone : ∀ {tip ancestors anchor}, Worked (tip :: ancestors) → s.height p ≤ tip.nHeight →
    (matMulAsert p tip ancestors).branch = .asert anchor → s.height p ≤ anchor

variable {p : Params} {s : OneShot} {tip : CBlockIndex} {index ancestors : List CBlockIndex}
  {parent limit t : ℕ} {next a : ℤ}

/-! ## The target of a rule -/

theorem setCompact_le (nBits : ℕ) : (setCompact nBits).value ≤ maxUint := by
  unfold setCompact compactWord maxUint
  dsimp only
  split_ifs with hshort
  · have hword : nBits % 2 ^ 23 / 256 ^ (3 - nBits / 2 ^ 24) ≤ nBits % 2 ^ 23 := Nat.div_le_self ..
    omega
  · omega

theorem scaleReduced_eq (h : s.scaleReduced p parent = some t) :
    t = min maxUint (parent * (s.num p).toNat / (s.den p).toNat) := by
  simp only [scaleReduced, bind_eq_bind, bind_eq_some_iff, Option.pure_def, some.injEq] at h
  obtain ⟨⟨num, den⟩, hreduced, rfl⟩ := h
  exact scaleTargetByTimespan_reduced hreduced

theorem uint32_le (x : UInt32) : (x : ℕ) ≤ uint32Max := by
  have := x.toNat_lt
  unfold uint32Max
  omega

theorem epochA_rescaled {bits num den : ℕ} {n d : ℤ}
    (hreduced : reduceRescaleRatioToU64 n d = some (num, den))
    (h : deriveMatMulEpochATransitionTarget parent bits num den limit = some t) :
    clampRetargetResult t limit = clampRetargetResult
      (parent * saturatingLeftShift256 parent bits * n.toNat / (d.toNat * 2 ^ 256)) limit := by
  obtain ⟨-, -, g, hg, rfl, rfl⟩ := reduceRescaleRatioToU64_eq hreduced
  have htoNat : ∀ k : ℕ, ((k : ℤ) * (g : ℤ)).toNat = k * g := fun k => by
    rw [← Int.natCast_mul, Int.toNat_natCast]
  have hcancel : parent * saturatingLeftShift256 parent bits * (num * g) / (den * g * 2 ^ 256) =
      parent * saturatingLeftShift256 parent bits * num / (den * 2 ^ 256) := by
    rw [← mul_assoc, mul_right_comm den g, Nat.mul_div_mul_right _ _ hg]
  rw [htoNat, htoNat, hcancel]
  unfold deriveMatMulEpochATransitionTarget at h
  split_ifs at h with hzero
  simp only [some.injEq] at h
  subst h
  have hlimit : limit ≠ 0 := by omega
  generalize parent * saturatingLeftShift256 parent bits * num / (den * 2 ^ 256) = x
  simp only [clampRetargetResult]
  split_ifs <;> omega

/-- **What a rule gives is the rescaled target**, up to the cut to the limit. -/
theorem target_rescaled (hp : ValidateMatMulAsertParams p) (hparent : parent ≤ maxUint)
    (h : s.target p next limit parent = some t) :
    clampRetargetResult t limit = clampRetargetResult (s.rescaled p next parent) limit := by
  have hplain : ∀ {s : OneShot}, s ≠ rc →
      s.rescaled p next parent = min maxUint (parent * (s.num p).toNat / (s.den p).toNat) := by
    intro s hs
    rw [rescaled, if_neg fun hrc => hs hrc.1]
  cases s with
  | bootstrap =>
    have hfactor : (p.nMatMulAsertBootstrapFactor : ℕ) ≠ 0 := fun h0 =>
      hp.bootstrapFactor (UInt32.toNat_inj.1 h0)
    simp only [target, some.injEq] at h
    rw [← h, hplain (by decide)]
    simp only [num, den, Int.toNat_natCast, Int.toNat_one, Nat.div_one]
    split_ifs with hone
    · rw [saturatingMultiplyByUint32_eq hparent]
    · rw [show (p.nMatMulAsertBootstrapFactor : ℕ) = 1 by omega, mul_one, min_eq_right hparent]
  | retune =>
    have hfactor : (p.nMatMulAsertRetuneHardeningFactor : ℕ) ≠ 0 := fun h0 =>
      hp.retuneFactor (UInt32.toNat_inj.1 h0)
    simp only [target, some.injEq] at h
    rw [← h, hplain (by decide)]
    simp only [num, den, Int.toNat_natCast, Int.toNat_one, mul_one]
    rw [min_eq_right ((Nat.div_le_self _ _).trans hparent)]
    split_ifs with hone
    · rfl
    · rw [show (p.nMatMulAsertRetuneHardeningFactor : ℕ) = 1 by omega, Nat.div_one]
  | retune2 =>
    obtain ⟨hnum, hden⟩ := hp.retune2Terms
    have hpos : ∀ {x : UInt32}, x ≠ 0 → 0 < (x : ℕ) := fun hx =>
      Nat.pos_of_ne_zero fun h0 => hx (UInt32.toNat_inj.1 h0)
    simp only [target, some.injEq] at h
    rw [← h, hplain (by decide)]
    simp only [num, den, Int.toNat_natCast]
    rw [scaleTargetByTimespan_eq (hpos hnum) (uint32_le _) (hpos hden) (uint32_le _)]
  | v4 | bmx4c | drlt | rcCoupled | stallRecovery =>
    rw [scaleReduced_eq h, hplain (by decide)]
  | rc =>
    by_cases hepoch : p.isMatMulV47EpochAActivationTuple = true
    · simp only [target, if_pos hepoch, bind_eq_bind, bind_eq_some_iff] at h
      obtain ⟨⟨num, den⟩, hreduced, hderive⟩ := h
      rw [epochA_rescaled hreduced hderive, rescaled, if_pos ⟨rfl, hepoch⟩]
    · simp only [target, if_neg hepoch] at h
      rw [scaleReduced_eq h, rescaled, if_neg fun hrc => hepoch hrc.2]
  | powLimitUpgrade | halfLifeUpgrade =>
    simp only [target, some.injEq] at h
    rw [← h, hplain (by decide)]
    simp only [num, den, Int.toNat_one, mul_one, Nat.div_one]
    rw [min_eq_right hparent]

/-! ## The branches -/

theorem asertFromAnchor_branch (limit : ℕ) (hp : ValidateMatMulAsertParams p)
    (hlinked : Linked (tip :: ancestors)) (hheight : tip.nHeight < int32Max) :
    (asertFromAnchor p limit tip ancestors).branch ∈
      [.asert (anchorHeight p tip.nHeight), .anchorOutOfRange, .anchorTargetInvalid,
        .targetGuard] := by
  simp only [asertFromAnchor, currentAnchorHeight_eq hp hheight]
  by_cases hrange : anchorHeight p tip.nHeight < 0 ∨ tip.nHeight < anchorHeight p tip.nHeight
  · simp [hrange]
  · obtain ⟨hpos, hle⟩ := not_or.1 hrange
    obtain ⟨anchor, -, hget, hat⟩ := getAncestor_of_linked hlinked (not_lt.1 hpos) (not_lt.1 hle)
    simp only [if_neg hrange, hget, hat]
    by_cases hinvalid : (setCompact anchor.nBits).value = 0 ∨
      limit < (setCompact anchor.nBits).value
    · simp [hinvalid]
    · rw [if_neg hinvalid]
      dsimp only
      split_ifs <;> simp

theorem matMulAsert_of_max (hheight : ¬tip.nHeight < int32Max) :
    (matMulAsert p tip ancestors).branch = .heightOutOfRange := by
  unfold matMulAsert
  dsimp only
  rw [if_pos (.inr (by omega))]

section

variable (hp : ValidateMatMulAsertParams p)

include hp

theorem branch_eq_oneShot_iff
    (hlinked : Linked (tip :: ancestors)) : (matMulAsert p tip ancestors).branch = .oneShot s ↔
      tip.nHeight < int32Max ∧ bootstrap.height p ≤ tip.nHeight + 1 ∧
        firing p (tip.nHeight + 1) = some s ∧
          ∃ t, s.target p (tip.nHeight + 1) (matMulAsertPowLimitForNextHeight p (tip.nHeight + 1))
            (setCompact tip.nBits).value = some t := by
  by_cases hheight : tip.nHeight < int32Max
  · by_cases hlow : tip.nHeight + 1 < bootstrap.height p
    · obtain ⟨genesis, hwork⟩ := matMulAsert_of_lt hlinked hheight hlow
      simp [hwork, not_le.2 hlow]
    · rw [matMulAsert_of_ge hp hlinked hheight (not_lt.1 hlow)]
      rcases hfiring : firing p (tip.nHeight + 1) with _ | r
      · have hbranch := asertFromAnchor_branch
          (matMulAsertPowLimitForNextHeight p (tip.nHeight + 1)) hp hlinked hheight
        simp only [reduceCtorEq, false_and, and_false, iff_false]
        intro heq
        rw [heq] at hbranch
        simp at hbranch
      · simp only [some.injEq]
        rcases htarget : r.target p (tip.nHeight + 1)
            (matMulAsertPowLimitForNextHeight p (tip.nHeight + 1)) (setCompact tip.nBits).value
          with _ | t
        · simp only [reduceCtorEq, false_iff]
          rintro ⟨-, -, rfl, t, ht⟩
          simp [htarget] at ht
        · simp only [Branch.oneShot.injEq]
          constructor
          · rintro rfl
            exact ⟨hheight, not_lt.1 hlow, rfl, t, htarget⟩
          · exact fun h => h.2.2.1
  · rw [matMulAsert_of_max hheight]
    simp [hheight]

theorem anchor_of_branch (hlinked : Linked (tip :: ancestors))
    (h : (matMulAsert p tip ancestors).branch = .asert a) : a = anchorHeight p tip.nHeight := by
  by_cases hheight : tip.nHeight < int32Max
  · by_cases hlow : tip.nHeight + 1 < bootstrap.height p
    · obtain ⟨genesis, hwork⟩ := matMulAsert_of_lt hlinked hheight hlow
      simp [hwork] at h
    · rw [matMulAsert_of_ge hp hlinked hheight (not_lt.1 hlow)] at h
      split at h
      · split at h <;> simp at h
      · have hbranch := asertFromAnchor_branch
          (matMulAsertPowLimitForNextHeight p (tip.nHeight + 1)) hp hlinked hheight
        rw [h] at hbranch
        simpa using hbranch
  · rw [matMulAsert_of_max hheight] at h
    cases h

/-! ## One application -/

theorem bootstrap_le_height (hs : s.Enabled p)
    (hratio : ¬s.Inert p) : bootstrap.height p ≤ s.height p := by
  cases s with
  | bootstrap => exact le_rfl
  | retune => exact not_lt.1 (hp.retuneAbove hs)
  | retune2 => exact not_lt.1 (hp.retune2Above hs)
  | v4 => exact not_lt.1 (hp.v4Above hs)
  | bmx4c => exact not_lt.1 (hp.bmx4cAbove hs)
  | drlt => exact not_lt.1 (hp.drltAbove hs)
  | rc => exact not_lt.1 (hp.rcAbove hs)
  | rcCoupled => exact not_lt.1 (hp.coupledAbove hs)
  | stallRecovery => exact not_lt.1 (hp.recoveryAbove hs)
  | powLimitUpgrade | halfLifeUpgrade => exact absurd rfl hratio

/-- **A rule that changes the target is applied at its own height**, and at no other. -/
theorem branch_iff_height (hs : s.Enabled p) (hratio : ¬s.Inert p)
    (hlimit : s = rc → p.isMatMulV47EpochAActivationTuple = true → p.powLimit.toNat ≠ 0)
    (hworked : Worked (tip :: ancestors)) :
    (matMulAsert p tip ancestors).branch = .oneShot s ↔ tip.nHeight + 1 = s.height p := by
  rw [branch_eq_oneShot_iff hp hworked.linked]
  constructor
  · rintro ⟨-, -, hfiring, -⟩
    exact height_of_firing hfiring
  · intro heq
    have hmax := height_le_max (p := p) s
    refine ⟨by omega, heq ▸ bootstrap_le_height hp hs hratio, heq ▸ firing_height hp hs hratio, ?_⟩
    refine exists_target hp s _ (fun _ _ => hworked.nonzero tip (mem_cons_self ..)) ?_
    intro hrc hepoch
    exact Nat.one_le_iff_ne_zero.1 (limit_pos _ (hlimit hrc hepoch))

end

theorem Worked.tail {block prev : CBlockIndex} {earlier : List CBlockIndex}
    (h : Worked (block :: prev :: earlier)) : Worked (prev :: earlier) :=
  ⟨h.linked.2, fun b hb => h.nonzero b (mem_cons_of_mem _ hb)⟩

theorem count_branches (hown : ∀ {tip ancestors}, Worked (tip :: ancestors) →
      ((matMulAsert p tip ancestors).branch = .oneShot s ↔ tip.nHeight + 1 = s.height p))
    (hworked : Worked index) : (branches p index).count (.oneShot s) =
      if 1 ≤ s.height p ∧ s.height p < index.length then 1 else 0 := by
  induction index with
  | nil => exact absurd rfl hworked.linked.ne_nil
  | cons block ancestors ih =>
    cases ancestors with
    | nil =>
      rw [if_neg (by simp only [length_cons, length_nil]; omega)]
      rfl
    | cons prev earlier =>
      have ih := ih hworked.tail
      have hown := hown hworked.tail
      have hprev := hworked.tail.linked.tip_height
      simp only [length_cons] at ih ⊢
      rw [branches, count_cons, ih]
      by_cases heq : prev.nHeight + 1 = s.height p
      · rw [if_neg (by omega), if_pos (by simpa using hown.2 heq), if_pos (by omega)]
      · have hbranch : ¬((matMulAsert p prev earlier).branch == .oneShot s) = true := fun h =>
          heq (hown.1 (eq_of_beq h))
        rw [if_neg hbranch, add_zero]
        exact if_congr (by omega) rfl rfl

/-- A linked chain of the given height. -/
def uniformChain (genesis : CBlockIndex) : ℕ → List CBlockIndex
  | 0 => [genesis]
  | n + 1 => { genesis with nHeight := n + 1 } :: uniformChain genesis n

theorem uniformChain_worked (n : ℕ) : ∃ tip ancestors,
    uniformChain mainnetGenesis n = tip :: ancestors ∧ tip.nHeight = n ∧
      Worked (tip :: ancestors) := by
  have hbits : (setCompact mainnetGenesis.nBits).value ≠ 0 := by decide +kernel
  induction n with
  | zero =>
    refine ⟨mainnetGenesis, [], rfl, rfl, rfl, fun block hblock => ?_⟩
    rwa [mem_singleton.1 hblock]
  | succ n ih =>
    obtain ⟨tip, ancestors, heq, htip, hworked⟩ := ih
    refine ⟨_, uniformChain mainnetGenesis n, rfl, by simp, ?_⟩
    rw [heq]
    refine ⟨⟨by simp [htip], hworked.linked⟩, fun block hblock => ?_⟩
    rcases mem_cons.1 hblock with rfl | hblock
    · exact hbits
    · exact hworked.nonzero block hblock

/-- **Every rescale is applied once.** A rule with a height and a ratio other than one is applied
exactly once, at its own height, and is not undone, exactly when its height is at least 1 and, for
the RC rule at the Epoch-A transition, the limit is not zero. -/
theorem rescales_applied_once (hp : ValidateMatMulAsertParams p) (hs : s.Enabled p)
    (hratio : ¬s.Inert p) : AppliedOnce p s ↔
      1 ≤ s.height p ∧
        (s = rc → p.isMatMulV47EpochAActivationTuple = true → p.powLimit.toNat ≠ 0) := by
  constructor
  · intro happlied
    have hheight : 1 ≤ s.height p := by
      by_contra hlow
      obtain ⟨tip, ancestors, heq, -, hworked⟩ := uniformChain_worked 0
      obtain ⟨rfl, rfl⟩ := cons.inj heq
      have := happlied.once hworked (by simp only [length_cons, length_nil]; omega)
      simp [branches] at this
    refine ⟨hheight, ?_⟩
    rintro rfl hepoch hzero
    -- with a limit of zero the Epoch-A target is refused at the height of the rule
    obtain ⟨tip, ancestors, -, htip, hworked⟩ := uniformChain_worked (rc.height p - 1).toNat
    have hat : tip.nHeight + 1 = rc.height p := by omega
    obtain ⟨-, -, -, t, ht⟩ :=
      (branch_eq_oneShot_iff hp hworked.linked).1 ((happlied.atOwnHeight hworked).2 hat)
    have hlimit : matMulAsertPowLimitForNextHeight p (tip.nHeight + 1) = 0 := by
      simp only [matMulAsertPowLimitForNextHeight, hzero]
      split_ifs <;> omega
    simp only [target, if_pos hepoch, hlimit, deriveMatMulEpochATransitionTarget, or_true, if_true,
      bind_eq_bind, bind_eq_some_iff] at ht
    obtain ⟨_, -, hnone⟩ := ht
    cases hnone
  · rintro ⟨hheight, hlimit⟩
    have hown : ∀ {tip ancestors}, Worked (tip :: ancestors) →
        ((matMulAsert p tip ancestors).branch = .oneShot s ↔ tip.nHeight + 1 = s.height p) :=
      branch_iff_height hp hs hratio hlimit
    refine ⟨hown, ?_, ?_, ?_⟩
    · intro tip ancestors hworked hat
      obtain ⟨hmax, hge, hfiring, t, ht⟩ :=
        (branch_eq_oneShot_iff hp hworked.linked).1 ((hown hworked).2 hat)
      rw [matMulAsert_of_ge hp hworked.linked hmax hge]
      simp only [hfiring, ht]
      rw [target_rescaled hp (setCompact_le _) ht]
    · intro index hworked hlength
      rw [count_branches hown hworked, if_pos ⟨hheight, hlength⟩]
    · intro tip ancestors anchor hworked hpassed hbranch
      rw [anchor_of_branch hp hworked.linked hbranch]
      exact height_le_anchorHeight hpassed

/-- The bootstrap of the main network. -/
theorem mainnet_bootstrap_applied_once : AppliedOnce mainnet bootstrap :=
  (rescales_applied_once mainnet_valid (by decide) (by decide)).2
    ⟨by decide, fun h => by cases h⟩

/-- The main network with ASERT from the genesis block on. -/
def zeroStart : Params := { mainnet with nMatMulAsertHeight := 0 }

/-- **A rescale at height 0 passes the validation and is never applied.** The bootstrap factor of
180 is configured, and no block of any linked chain is computed by it. -/
theorem zeroStart_never_applied :
    ValidateMatMulAsertParams zeroStart ∧ bootstrap.Enabled zeroStart ∧
      ¬bootstrap.Inert zeroStart ∧ bootstrap.num zeroStart = 180 ∧
      ∀ index, Worked index → (branches zeroStart index).count (.oneShot bootstrap) = 0 := by
  have hvalid : ValidateMatMulAsertParams zeroStart := by decide +kernel
  have hs : bootstrap.Enabled zeroStart := by decide
  have hratio : ¬bootstrap.Inert zeroStart := by decide
  refine ⟨hvalid, hs, hratio, rfl, fun index hworked => ?_⟩
  rw [count_branches (branch_iff_height hvalid hs hratio fun h => by cases h) hworked]
  exact if_neg fun h => absurd h.1 (by decide)

end Btx.Pow
