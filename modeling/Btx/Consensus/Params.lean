/-
# Consensus parameters of the shielded pool

The fields of `Consensus::Params` (`src/consensus/params.h`) that the block
rules of the shielded pool read, and the height predicates over them. A rule
whose activation height is the largest `int32_t` is switched off.
-/

import Btx.Shielded.Bundle

namespace Btx

/-- `std::numeric_limits<int32_t>::max()`, the height of a rule that is off. -/
def heightNever : ℕ := 0x7fffffff

/-- The shape of the height predicates of `Consensus::Params`. -/
def activeAt (activation height : ℕ) : Bool :=
  decide (activation ≠ heightNever ∧ activation ≤ height)

/-- `Consensus::Params`, the shielded part. -/
structure Params where
  nShieldedPoolActivationHeight : ℕ
  nMaxShieldedTxSize : ℕ
  nMaxBlockShieldedVerifyCost : ℕ
  nMaxBlockShieldedScanUnits : ℕ
  nMaxBlockShieldedTreeUpdateUnits : ℕ
  nMaxBlockShieldedAccountRegistryAppends : ℕ
  nMaxShieldedAccountRegistryEntries : ℕ
  nShieldedBridgeTagActivationHeight : ℕ
  nShieldedMatRiCTDisableHeight : ℕ
  nShieldedSettlementAnchorMaturity : ℕ
  nShieldedSpendPathRecoveryActivationHeight : ℕ
  nShieldedSunsetHeight : ℕ
  nShieldedRecoveryExitActivationHeight : ℕ
  nShieldedRecoveryExitFrozenRoot : Uint256
  nShieldedUnshieldVelocityActivationHeight : ℕ
  nShieldedUnshieldVelocityEndHeight : ℕ
  nShieldedUnshieldVelocityCapBps : ℕ
  nShieldedUnshieldVelocityWindowBlocks : ℕ
  nShieldedUnshieldVelocityMinCapHeight : ℕ
  nShieldedUnshieldVelocityMinCap : CAmount
  nShieldedPoolCreditDisableHeight : ℕ := heightNever
  nShieldedV2SendZeroOutputExitActivationHeight : ℕ := heightNever
  hashGenesisBlock : Uint256 := 0
  nShieldedTxBindingActivationHeight : ℕ := heightNever
  nShieldedSmileRiceCodecDisableHeight : ℕ := heightNever
  nShieldedC002ActivationHeight : ℕ := 123000
  nShieldedDirectSendPublicFlowDisableHeight : ℕ := heightNever
  nShieldedPQ128UpgradeHeight : ℕ := heightNever

namespace Params

variable (params : Params) (height : ℕ)

/-- `IsShieldedBridgeTagUpgradeActive`, used as `UseNoncedShieldedBridgeTags`. -/
def useNoncedShieldedBridgeTags : Bool :=
  activeAt params.nShieldedBridgeTagActivationHeight height

/-- `IsShieldedMatRiCTDisabled`. -/
def isShieldedMatRiCTDisabled : Bool := activeAt params.nShieldedMatRiCTDisableHeight height

/-- `UseSingleUseSettlementAnchors`. -/
def useSingleUseSettlementAnchors : Bool := params.isShieldedMatRiCTDisabled height

/-- `UseNettingManifestFreshnessBinding`. -/
def useNettingManifestFreshnessBinding : Bool := params.isShieldedMatRiCTDisabled height

/-- `UseAccountRegistryAppendRateLimit`. -/
def useAccountRegistryAppendRateLimit : Bool := params.isShieldedMatRiCTDisabled height

/-- `UseAccountRegistryEntryCountLimit`. -/
def useAccountRegistryEntryCountLimit : Bool := params.isShieldedMatRiCTDisabled height

/-- `GetShieldedSettlementAnchorMaturityDepth`. -/
def shieldedSettlementAnchorMaturityDepth : ℕ :=
  if params.isShieldedMatRiCTDisabled height then params.nShieldedSettlementAnchorMaturity else 0

/-- `UseSettlementAnchorMaturityRule`. -/
def useSettlementAnchorMaturityRule : Bool :=
  decide (0 < params.shieldedSettlementAnchorMaturityDepth height)

/-- `IsShieldedSpendPathRecoveryActive`. -/
def isShieldedSpendPathRecoveryActive : Bool :=
  activeAt params.nShieldedSpendPathRecoveryActivationHeight height

/-- `IsShieldedSunsetActive`. -/
def isShieldedSunsetActive : Bool := activeAt params.nShieldedSunsetHeight height

/-- `IsShieldedRecoveryExitActive`: never before the sunset. -/
def isShieldedRecoveryExitActive : Bool :=
  activeAt params.nShieldedRecoveryExitActivationHeight height &&
    activeAt params.nShieldedSunsetHeight height &&
    decide (params.nShieldedSunsetHeight ≤ params.nShieldedRecoveryExitActivationHeight)

/-- `IsShieldedPoolCreditDisabled`. -/
def isShieldedPoolCreditDisabled : Bool := activeAt params.nShieldedPoolCreditDisableHeight height

/-- `IsShieldedV2SendZeroOutputExitActive`. -/
def isShieldedV2SendZeroOutputExitActive : Bool :=
  activeAt params.nShieldedV2SendZeroOutputExitActivationHeight height

/-- `IsShieldedUnshieldVelocityCapActive`. -/
def isShieldedUnshieldVelocityCapActive : Bool :=
  activeAt params.nShieldedUnshieldVelocityActivationHeight height &&
    decide (height < params.nShieldedUnshieldVelocityEndHeight)

/-- `ShieldedUnshieldVelocityMinCapForHeight`. -/
def shieldedUnshieldVelocityMinCapForHeight : CAmount :=
  if !params.isShieldedUnshieldVelocityCapActive height then 0
  else if height < params.nShieldedUnshieldVelocityMinCapHeight then 0
  else params.nShieldedUnshieldVelocityMinCap

end Params
end Btx
