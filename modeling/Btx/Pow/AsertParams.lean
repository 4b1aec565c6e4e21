/-
# The ASERT schedule

The fields of `Consensus::Params` (`src/consensus/params.h`) that the difficulty of the next block
is computed from, and `ValidateMatMulAsertParams` (`src/pow.cpp`). A later rule at the height of an
earlier one would be skipped, so it has to be one that changes nothing.
-/

import Btx.Consensus.Amount
import Btx.Util.Milestones
import Btx.Pow.Target
import Mathlib.Data.UInt

namespace Btx.Pow

/-- `std::numeric_limits<int32_t>::max()`, the height of a rule that is off. -/
def int32Max : ℤ := 2 ^ 31 - 1

instance coeInt32Int : Coe Int32 ℤ := ⟨Int32.toInt⟩
instance coeUInt32Nat : Coe UInt32 ℕ := ⟨UInt32.toNat⟩

theorem int32_le_max (h : Int32) : (h : ℤ) ≤ int32Max := by
  have := h.toInt_lt
  unfold int32Max
  omega

/-- A sum of `int64_t` as the source forms them, cut at the largest. -/
def saturatingAdd (time advance : ℤ) : ℤ :=
  if int64Max - advance < time then int64Max else time + advance

/-- `IsDisabledHeight`. -/
def IsDisabledHeight (h : ℤ) : Prop := h = int32Max

instance (h : ℤ) : Decidable (IsDisabledHeight h) := inferInstanceAs (Decidable (h = int32Max))

/-- `Consensus::Params`, the part that difficulty is computed from. -/
structure Params where
  powLimit : BitVec 256
  nMatMulPowLimitUpgradeHeight : Int32 := Int32.maxValue
  powLimitUpgrade : BitVec 256 := 0
  fPowAllowMinDifficultyBlocks : Bool := false
  enforce_BIP94 : Bool := false
  fPowNoRetargeting : Bool := false
  fKAWPOW : Bool := false
  nKAWPOWHeight : Int32 := Int32.maxValue
  fMatMulPOW : Bool := false
  nPowTargetSpacing : ℤ
  nPowTargetTimespan : ℤ
  nMatMulPreHashEpsilonBits : UInt32 := 10
  nMatMulPreHashEpsilonBitsUpgradeHeight : Int32 := Int32.maxValue
  nMatMulPreHashEpsilonBitsUpgrade : UInt32 := 10
  nMatMulV4Height : Int32 := Int32.maxValue
  nMatMulV4AsertRescaleNum : ℤ := 1
  nMatMulV4AsertRescaleDen : ℤ := 1
  nMatMulBMX4CHeight : Int32 := Int32.maxValue
  nMatMulBMX4CAsertRescaleNum : ℤ := 1
  nMatMulBMX4CAsertRescaleDen : ℤ := 1
  nMatMulDRLTHeight : Int32 := Int32.maxValue
  nMatMulDRLTAsertRescaleNum : ℤ := 1
  nMatMulDRLTAsertRescaleDen : ℤ := 1
  nMatMulRCHeight : Int32 := Int32.maxValue
  nMatMulRCAsertRescaleNum : ℤ := 1
  nMatMulRCAsertRescaleDen : ℤ := 1
  nMatMulRCProfile : UInt32 := 1
  fMatMulRCUseToyDims : Bool := false
  nMatMulRCCoupledHeight : Int32 := Int32.maxValue
  nMatMulRCCoupledAsertRescaleNum : ℤ := 1
  nMatMulRCCoupledAsertRescaleDen : ℤ := 1
  fMatMulRCCoupledUseToyDims : Bool := false
  fMatMulLTSealAsPoW : Bool := false
  nMatMulHeaderPoWDiscountBits : UInt32 := 0xffffffff
  nFastMineDifficultyScale : UInt32 := 1
  nMatMulAsertHeight : Int32 := Int32.maxValue
  nMatMulAsertHalfLife : ℤ := 14400
  nMatMulAsertBootstrapFactor : UInt32 := 1
  nMatMulAsertRetuneHeight : Int32 := Int32.maxValue
  nMatMulAsertRetuneHardeningFactor : UInt32 := 1
  nMatMulAsertRetune2Height : Int32 := Int32.maxValue
  nMatMulAsertRetune2TargetNum : UInt32 := 1
  nMatMulAsertRetune2TargetDen : UInt32 := 1
  nMatMulAsertHalfLifeUpgradeHeight : Int32 := Int32.maxValue
  nMatMulAsertHalfLifeUpgrade : ℤ := 14400
  nMatMulMaxFutureMtpDriftHeight : Int32 := Int32.maxValue
  nMatMulMaxFutureMtpDrift : ℤ := 3600
  nMatMulTimewarpReconcileHeight : Int32 := Int32.maxValue
  nMatMulStallRecoveryHeight : Int32 := Int32.maxValue
  nMatMulStallRecoveryAsertNum : UInt32 := 1
  nMatMulStallRecoveryAsertDen : UInt32 := 1
  nMatMulMaxBlockTimeAdvance : ℤ := 1080
  nMatMulAsertClampedMinInterval : ℤ := 0

namespace Params

variable (p : Params)

/-- `DifficultyAdjustmentInterval`. -/
def difficultyAdjustmentInterval : ℤ := p.nPowTargetTimespan.tdiv p.nPowTargetSpacing

/-- `IsMatMulHeaderPoWEnabled`. -/
def isMatMulHeaderPoWEnabled : Bool := p.nMatMulHeaderPoWDiscountBits ≠ 0xffffffff

/-- `IsMatMulStallRecoveryActive`. -/
def isMatMulStallRecoveryActive (height : ℤ) : Bool :=
  p.fMatMulPOW ∧ 0 ≤ height ∧ ¬IsDisabledHeight p.nMatMulStallRecoveryHeight ∧
    p.nMatMulStallRecoveryHeight ≤ height

/-- `IsMatMulMaxFutureMtpDriftActive`. -/
def isMatMulMaxFutureMtpDriftActive (height : ℤ) : Bool :=
  p.fMatMulPOW ∧ 0 ≤ height ∧ ¬IsDisabledHeight p.nMatMulMaxFutureMtpDriftHeight ∧
    p.nMatMulMaxFutureMtpDriftHeight ≤ height ∧ 0 < p.nMatMulMaxFutureMtpDrift

/-- `IsMatMulPreHashEpsilonBitsUpgradeActive`. -/
def isMatMulPreHashEpsilonBitsUpgradeActive (height : ℤ) : Bool :=
  0 ≤ height ∧ ¬IsDisabledHeight p.nMatMulPreHashEpsilonBitsUpgradeHeight ∧
    p.nMatMulPreHashEpsilonBitsUpgradeHeight ≤ height

/-- `GetMatMulPreHashEpsilonBitsForHeight`. -/
def matMulPreHashEpsilonBitsForHeight (height : ℤ) : ℕ :=
  if p.isMatMulPreHashEpsilonBitsUpgradeActive height then p.nMatMulPreHashEpsilonBitsUpgrade
  else p.nMatMulPreHashEpsilonBits

/-- `MatMulAsertClampedMinIntervalSeconds`. -/
def matMulAsertClampedMinIntervalSeconds : ℤ :=
  if 0 < p.nMatMulAsertClampedMinInterval then p.nMatMulAsertClampedMinInterval
  else p.nPowTargetSpacing

/-- `MatMulFutureBlockTimeLimit`. -/
def matMulFutureBlockTimeLimit (prevMedianTimePast : ℤ) : Option ℤ :=
  if !p.fMatMulPOW ∨ IsDisabledHeight p.nMatMulMaxFutureMtpDriftHeight ∨
      p.nMatMulMaxFutureMtpDrift ≤ 0 then none
  else some (saturatingAdd prevMedianTimePast p.nMatMulMaxFutureMtpDrift)

/-- `MaxMatMulFutureBlockTime`. -/
def maxMatMulFutureBlockTime (height prevMedianTimePast : ℤ) : Option ℤ :=
  if !p.isMatMulMaxFutureMtpDriftActive height then none
  else p.matMulFutureBlockTimeLimit prevMedianTimePast

/-- `MaxMatMulParentTimeAdvance`. -/
def maxMatMulParentTimeAdvance (height prevBlockTime : ℤ) : Option ℤ :=
  if !p.isMatMulStallRecoveryActive height ∨ p.nMatMulMaxBlockTimeAdvance ≤ 0 then none
  else some (saturatingAdd prevBlockTime p.nMatMulMaxBlockTimeAdvance)

/-- `MaxMatMulAllowedBlockTime`: the smaller of the caps that apply. -/
def maxMatMulAllowedBlockTime (height prevBlockTime prevMedianTimePast : ℤ) : Option ℤ :=
  match p.maxMatMulFutureBlockTime height prevMedianTimePast,
      p.maxMatMulParentTimeAdvance height prevBlockTime with
  | none, parentCap => parentCap
  | mtpCap, none => mtpCap
  | some mtpCap, some parentCap => some (if mtpCap < parentCap then mtpCap else parentCap)

/-- `IsMatMulV47EpochAActivationTuple`. -/
def isMatMulV47EpochAActivationTuple : Bool :=
  ¬IsDisabledHeight p.nMatMulV4Height ∧ (p.nMatMulBMX4CHeight : ℤ) = p.nMatMulV4Height ∧
    (p.nMatMulRCHeight : ℤ) = p.nMatMulV4Height ∧ IsDisabledHeight p.nMatMulDRLTHeight ∧
    IsDisabledHeight p.nMatMulRCCoupledHeight ∧ p.nMatMulRCProfile = 1 ∧
    !p.fMatMulRCUseToyDims ∧ !p.fMatMulRCCoupledUseToyDims ∧ !p.fMatMulLTSealAsPoW ∧
    !p.isMatMulHeaderPoWEnabled ∧
    p.nMatMulV4AsertRescaleNum = p.nMatMulV4AsertRescaleDen ∧
    p.nMatMulBMX4CAsertRescaleNum = p.nMatMulBMX4CAsertRescaleDen

end Params

/-! ## The rules for one height -/

/-- The rules that set the target of the block at one height, in the order in which `MatMulAsert`
tries them. -/
inductive OneShot
  | bootstrap
  | retune
  | retune2
  | v4
  | bmx4c
  | drlt
  | rc
  | rcCoupled
  | powLimitUpgrade
  | halfLifeUpgrade
  | stallRecovery
  deriving DecidableEq

namespace OneShot

variable (p : Params)

/-- The height of the rule. -/
def height : OneShot → ℤ
  | bootstrap => p.nMatMulAsertHeight
  | retune => p.nMatMulAsertRetuneHeight
  | retune2 => p.nMatMulAsertRetune2Height
  | v4 => p.nMatMulV4Height
  | bmx4c => p.nMatMulBMX4CHeight
  | drlt => p.nMatMulDRLTHeight
  | rc => p.nMatMulRCHeight
  | rcCoupled => p.nMatMulRCCoupledHeight
  | powLimitUpgrade => p.nMatMulPowLimitUpgradeHeight
  | halfLifeUpgrade => p.nMatMulAsertHalfLifeUpgradeHeight
  | stallRecovery => p.nMatMulStallRecoveryHeight

/-- What the parent's target is multiplied by. The retune only hardens, and the two upgrades keep
the target. -/
def num : OneShot → ℤ
  | bootstrap => (p.nMatMulAsertBootstrapFactor : ℕ)
  | retune2 => (p.nMatMulAsertRetune2TargetNum : ℕ)
  | v4 => p.nMatMulV4AsertRescaleNum
  | bmx4c => p.nMatMulBMX4CAsertRescaleNum
  | drlt => p.nMatMulDRLTAsertRescaleNum
  | rc => p.nMatMulRCAsertRescaleNum
  | rcCoupled => p.nMatMulRCCoupledAsertRescaleNum
  | stallRecovery => (p.nMatMulStallRecoveryAsertNum : ℕ)
  | retune | powLimitUpgrade | halfLifeUpgrade => 1

/-- What the parent's target is divided by. -/
def den : OneShot → ℤ
  | retune => (p.nMatMulAsertRetuneHardeningFactor : ℕ)
  | retune2 => (p.nMatMulAsertRetune2TargetDen : ℕ)
  | v4 => p.nMatMulV4AsertRescaleDen
  | bmx4c => p.nMatMulBMX4CAsertRescaleDen
  | drlt => p.nMatMulDRLTAsertRescaleDen
  | rc => p.nMatMulRCAsertRescaleDen
  | rcCoupled => p.nMatMulRCCoupledAsertRescaleDen
  | stallRecovery => (p.nMatMulStallRecoveryAsertDen : ℕ)
  | bootstrap | powLimitUpgrade | halfLifeUpgrade => 1

variable (s other : OneShot)

/-- The rule has a height. -/
def Enabled : Prop := ¬IsDisabledHeight (s.height p)

/-- The rule leaves the target as it is. -/
def Inert : Prop := s.num p = s.den p

/-- The ratio is positive and reduces to terms of 32 bits. -/
def Reduces : Prop := (reduceRescaleRatioToU32 (s.num p) (s.den p)).isSome

/-- A rule with a height does not come before ASERT. -/
def AboveAsert : Prop := s.Enabled p → ¬s.height p < bootstrap.height p

/-- Where both rules have a height, this one does not come first. -/
def NotBelow : Prop := s.Enabled p → other.Enabled p → ¬s.height p < other.height p

/-- At the height of the other rule, which takes it over, this rule changes nothing. -/
def InertWhenUnified : Prop :=
  s.Enabled p → other.Enabled p → s.height p = other.height p → s.Inert p

/-- The rule does not stand at the height of any of the others. -/
def ApartFrom (others : List OneShot) : Prop :=
  ∀ other ∈ others, ¬(other.Enabled p ∧ s.height p = other.height p)

/-- A rule that changes the target stands neither at the height of a rule that every profile rule
gives way to (`shadowed_by_earlier`) nor at that of one of the profile rules listed. -/
def ShadowFree (profiles : List OneShot) : Prop :=
  s.Enabled p → ¬s.Inert p →
    s.ApartFrom p ([bootstrap, retune, retune2, powLimitUpgrade, stallRecovery] ++ profiles)

instance : Decidable (s.Enabled p) := inferInstanceAs (Decidable ¬_)
instance : Decidable (s.Inert p) := inferInstanceAs (Decidable (_ = _))
instance : Decidable (s.Reduces p) := inferInstanceAs (Decidable (_ = true))
instance : Decidable (s.AboveAsert p) := inferInstanceAs (Decidable (_ → _))
instance : Decidable (s.NotBelow p other) := inferInstanceAs (Decidable (_ → _ → _))
instance : Decidable (s.InertWhenUnified p other) := inferInstanceAs (Decidable (_ → _ → _ → _))
instance (others : List OneShot) : Decidable (s.ApartFrom p others) :=
  inferInstanceAs (Decidable (∀ other ∈ others, ¬(_ ∧ _)))
instance (profiles : List OneShot) : Decidable (s.ShadowFree p profiles) :=
  inferInstanceAs (Decidable (_ → _ → _))

end OneShot

/-! ## The validation -/

section Validation

open OneShot

variable (p : Params)

/-- The checks on the stall recovery and on the terms that stand alone. -/
@[mk_iff]
structure ValidTerms : Prop where
  halfLife : 0 < p.nMatMulAsertHalfLife
  targetSpacing : 0 < p.nPowTargetSpacing
  bootstrapFactor : p.nMatMulAsertBootstrapFactor ≠ 0
  retuneFactor : p.nMatMulAsertRetuneHardeningFactor ≠ 0
  retune2Terms : p.nMatMulAsertRetune2TargetNum ≠ 0 ∧ p.nMatMulAsertRetune2TargetDen ≠ 0
  recoveryTerms : p.nMatMulStallRecoveryAsertNum ≠ 0 ∧ p.nMatMulStallRecoveryAsertDen ≠ 0
  recoveryReduces : stallRecovery.Reduces p
  maxBlockTimeAdvance : 0 ≤ p.nMatMulMaxBlockTimeAdvance
  clampedMinInterval : 0 ≤ p.nMatMulAsertClampedMinInterval
  recoveryAbove : stallRecovery.AboveAsert p
  recoveryApart : stallRecovery.Enabled p → stallRecovery.ApartFrom p
    [bootstrap, retune, retune2, v4, bmx4c, drlt, rc, rcCoupled, powLimitUpgrade, halfLifeUpgrade]

/-- The checks on the ratios of the profile rules, on their order and on shared heights. -/
@[mk_iff]
structure ValidProfiles : Prop where
  v4Reduces : v4.Reduces p
  v4Above : v4.AboveAsert p
  bmx4cReduces : bmx4c.Reduces p
  bmx4cAbove : bmx4c.AboveAsert p
  drltReduces : drlt.Reduces p
  drltAbove : drlt.AboveAsert p
  drltOrder : drlt.NotBelow p bmx4c
  drltUnified : drlt.InertWhenUnified p bmx4c
  rcReduces : if p.isMatMulV47EpochAActivationTuple then
    (reduceRescaleRatioToU64 (rc.num p) (rc.den p)).isSome else rc.Reduces p
  rcAbove : rc.AboveAsert p
  rcOrder : rc.NotBelow p drlt
  drltUnifiedRc : drlt.InertWhenUnified p rc
  coupledReduces : rcCoupled.Reduces p
  coupledAbove : rcCoupled.AboveAsert p
  coupledOrder : rcCoupled.NotBelow p rc
  coupledUnified : rcCoupled.InertWhenUnified p rc
  bmx4cOrder : bmx4c.NotBelow p v4
  v4Unified : v4.InertWhenUnified p bmx4c
  bmx4cUnifiedRc : bmx4c.InertWhenUnified p rc
  v4UnifiedRc : v4.InertWhenUnified p rc

/-- The checks that no rule which changes the target is skipped for an earlier one. -/
@[mk_iff]
structure ValidCascade : Prop where
  v4Shadow : v4.ShadowFree p [rc]
  bmx4cShadow : bmx4c.ShadowFree p [rc]
  drltShadow : drlt.ShadowFree p [v4, bmx4c, rc]
  rcShadow : rc.ShadowFree p []
  coupledShadow : rcCoupled.ShadowFree p [v4, bmx4c, drlt, rc]
  retuneAbove : retune.AboveAsert p
  retune2Above : retune2.AboveAsert p
  retune2Order : retune2.NotBelow p retune
  retuneShadow : retune.Enabled p → 1 < (p.nMatMulAsertRetuneHardeningFactor : ℕ) →
    ¬retune.height p = bootstrap.height p
  retune2Shadow : retune2.Enabled p → ¬retune2.Inert p → ¬retune2.height p = bootstrap.height p
  retune2ShadowRetune : retune2.Enabled p → ¬retune2.Inert p → retune.Enabled p →
    ¬retune2.height p = retune.height p

/-- The checks on the limit upgrade, made where it is configured. -/
@[mk_iff]
structure ValidPowLimitUpgrade : Prop where
  above : ¬powLimitUpgrade.height p ≤ bootstrap.height p
  strictlyAfter : ∀ other ∈ [retune, retune2, v4, bmx4c, drlt, rc, rcCoupled],
    other.Enabled p → other.height p < powLimitUpgrade.height p
  harder : p.powLimitUpgrade.toNat ≠ 0 ∧ ¬p.powLimit.toNat ≤ p.powLimitUpgrade.toNat
  decodes : let decoded := setCompact (getCompact p.powLimitUpgrade.toNat)
    ¬(decoded.negative ∨ decoded.overflow ∨ decoded.value = 0)

/-- `latest_pre_upgrade_anchor` of the validation. -/
def latestPreUpgradeAnchor : ℤ :=
  [retune, retune2, powLimitUpgrade].foldl
    (fun latest s => if s.Enabled p then max latest (s.height p) else latest) (bootstrap.height p)

/-- The checks on the half-life upgrade, made where it is configured. -/
@[mk_iff]
structure ValidHalfLifeUpgrade : Prop where
  positive : 0 < p.nMatMulAsertHalfLifeUpgrade
  above : latestPreUpgradeAnchor p < halfLifeUpgrade.height p

/-- `ValidateMatMulAsertParams`: one field for each check, in the order of the source. -/
@[mk_iff]
structure ValidateMatMulAsertParams : Prop extends
    ValidTerms p, ValidProfiles p, ValidCascade p where
  powLimitUpgrade : powLimitUpgrade.Enabled p → ValidPowLimitUpgrade p
  halfLifeUpgrade : halfLifeUpgrade.Enabled p → ValidHalfLifeUpgrade p

instance : Decidable (ValidTerms p) := decidable_of_iff _ (validTerms_iff p).symm
instance : Decidable (ValidProfiles p) := decidable_of_iff _ (validProfiles_iff p).symm
instance : Decidable (ValidCascade p) := decidable_of_iff _ (validCascade_iff p).symm
instance : Decidable (ValidPowLimitUpgrade p) :=
  decidable_of_iff _ (validPowLimitUpgrade_iff p).symm
instance : Decidable (ValidHalfLifeUpgrade p) :=
  decidable_of_iff _ (validHalfLifeUpgrade_iff p).symm
instance : Decidable (ValidateMatMulAsertParams p) :=
  decidable_of_iff _ (validateMatMulAsertParams_iff p).symm

end Validation

/-- The parameters of the main network (`CMainParams`). -/
def mainnet : Params where
  powLimit := 0x66c1540000000000000000000000000000000000000000000000000000000000
  nMatMulPowLimitUpgradeHeight := 191714
  powLimitUpgrade := 0x000a3d7000000000000000000000000000000000000000000000000000000000
  enforce_BIP94 := true
  fMatMulPOW := true
  nPowTargetSpacing := 90
  nPowTargetTimespan := 14 * 24 * 60 * 60
  nMatMulPreHashEpsilonBitsUpgradeHeight := 50000
  nMatMulPreHashEpsilonBitsUpgrade := 18
  nMatMulV4Height := 185000
  nMatMulBMX4CHeight := 185000
  nMatMulRCHeight := 185000
  nMatMulRCAsertRescaleNum := 6931159304
  nFastMineDifficultyScale := 6
  nMatMulAsertHeight := 50000
  nMatMulAsertHalfLife := 3600
  nMatMulAsertBootstrapFactor := 180
  nMatMulAsertHalfLifeUpgradeHeight := 191715
  nMatMulMaxFutureMtpDriftHeight := 118482
  nMatMulTimewarpReconcileHeight := 125000
  nMatMulStallRecoveryHeight := 199299

theorem mainnet_valid : ValidateMatMulAsertParams mainnet := by
  decide +kernel

end Btx.Pow
