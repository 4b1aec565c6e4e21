/-
# Recovery exits

`src/shielded/recovery_exit.cpp` and the helpers of `src/validation.cpp`: a transparent claim of a
note whose contents are revealed. The commitment and the nullifier that it retires are derived from
the note by the same function when a block is connected and disconnected.
-/

import Btx.Consensus.Params
import Btx.Primitives.Transaction
import Btx.Shielded.AccountRegistry
import Btx.Shielded.MerkleWitness

namespace Btx.Shielded

open Util

/-- The note a claim describes (`NoteFromClaim`). -/
structure ShieldedNote where
  value : CAmount
  recipientPkHash : Uint256
  rho : Uint256
  rcm : Uint256
  deriving DecidableEq, Repr

/-- The derivations from a revealed note. -/
structure NoteHash where
  /-- `HashKeyBytes` -/
  hashKeyBytes : List UInt8 → Uint256
  /-- `BuildCompactPublicAccountFromNote` -/
  accountFromNote : ShieldedNote → Option CompactPublicAccount
  /-- `ShieldedNote::GetCommitment`, the commitment of the legacy pool -/
  legacyCommitment : ShieldedNote → Uint256
  /-- `ComputeSmileNullifierFromNote` -/
  smileNullifier : ShieldedNote → Option Nullifier

/-- `RecoveryExitIdentifiers`. -/
structure RecoveryExitIdentifiers where
  commitment : Uint256
  nullifier : Nullifier
  deriving DecidableEq, Repr

def noteFromClaim (claim : RecoveryExitPayload) : ShieldedNote :=
  ⟨claim.value, claim.recipientPkHash, claim.rho, claim.rcm⟩

/-- `DeriveRecoveryExitIdentifiers`. -/
def deriveRecoveryExitIdentifiers (N : NoteHash) (A : AccountHash) (claim : RecoveryExitPayload) :
    Except String RecoveryExitIdentifiers := do
  require (claim.spendPubkey ≠ []) "bad-recovery-exit-missing-pubkey"
  require (N.hashKeyBytes claim.spendPubkey = claim.recipientPkHash)
    "bad-recovery-exit-pubkey-binding"
  require (MoneyRange claim.value ∧ 0 < claim.value) "bad-recovery-exit-value"
  require (¬claim.noteCommitment.IsNull) "bad-recovery-exit-commitment"
  let note := noteFromClaim claim
  match N.accountFromNote note with
  | none => throw "bad-recovery-exit-no-smile-account"
  | some account => do
      require (claim.noteCommitment ≠ N.legacyCommitment note)
        "bad-recovery-exit-legacy-commitment"
      require (claim.noteCommitment = A.compactPublicAccountHash account)
        "bad-recovery-exit-commitment-binding"
      match N.smileNullifier note with
      | none => throw "bad-recovery-exit-no-smile-nullifier"
      | some nullifier => do
          require (¬nullifier.IsNull) "bad-recovery-exit-no-smile-nullifier"
          pure ⟨claim.noteCommitment, nullifier⟩

/-- `GetRecoveryExitIdentifiersFromBundle`. -/
def getRecoveryExitIdentifiersFromBundle (N : NoteHash) (A : AccountHash) (b : CShieldedBundle) :
    Option (RecoveryExitPayload × RecoveryExitIdentifiers) :=
  match b.payload with
  | some (.recoveryExit claim) =>
      (deriveRecoveryExitIdentifiers N A claim).toOption.map (claim, ·)
  | _ => none

/-- `IsRecoveryExitBundle`. -/
def isRecoveryExitBundle (b : CShieldedBundle) : Bool :=
  b.transactionFamily == some .recoveryExit

/-- `RecoveryExitConstraints`. -/
structure RecoveryExitConstraints where
  valueBalance : CAmount
  fee : CAmount
  transparentOut : CAmount
  transparentInputCount : ℕ
  shieldedOutputCount : ℕ
  poolBalance : CAmount
  validationHeight : ℕ
  activationHeight : ℕ
  expiryHeight : ℕ
  ownershipVerified : Bool
  membershipVerified : Bool
  nullifierAlreadySpent : Bool
  commitmentAlreadyClaimed : Bool

/-- `CheckRecoveryExitClaim`. -/
def checkRecoveryExitClaim (N : NoteHash) (A : AccountHash) (claim : RecoveryExitPayload)
    (c : RecoveryExitConstraints) : Except String RecoveryExitIdentifiers := do
  require (c.activationHeight ≠ heightNever ∧ c.activationHeight ≤ c.validationHeight)
    "bad-recovery-exit-not-active"
  require (0 < c.poolBalance) "bad-recovery-exit-pool-empty"
  require (¬(0 < c.expiryHeight ∧ c.expiryHeight ≤ c.validationHeight)) "bad-recovery-exit-expired"
  require (MoneyRange claim.value ∧ 0 < claim.value) "bad-recovery-exit-value"
  require (c.transparentInputCount = 0) "bad-recovery-exit-transparent-input"
  require (c.shieldedOutputCount = 0) "bad-recovery-exit-has-shielded-output"
  require (c.valueBalance = claim.value) "bad-recovery-exit-value-balance"
  require (0 ≤ c.fee) "bad-recovery-exit-fee"
  require (c.fee < c.valueBalance) "bad-recovery-exit-not-outflow"
  require (c.transparentOut = claim.value - c.fee) "bad-recovery-exit-transparent-mismatch"
  require c.ownershipVerified "bad-recovery-exit-ownership"
  require c.membershipVerified "bad-recovery-exit-membership"
  let ids ← deriveRecoveryExitIdentifiers N A claim
  require (¬c.nullifierAlreadySpent) "bad-recovery-exit-nullifier-spent"
  require (¬c.commitmentAlreadyClaimed) "bad-recovery-exit-commitment-claimed"
  pure ids

/-- `TrySumTransparentOutputs`. -/
def trySumTransparentOutputs : List CTxOut → CAmount → Except String CAmount
  | [], total => pure total
  | txout :: vout, total =>
      if ¬MoneyRange txout.nValue ∨ maxMoney - total < txout.nValue then
        throw "bad-txns-vout-toolarge"
      else trySumTransparentOutputs vout (total + txout.nValue)

/-- `TryComputeRecoveryExitFee`. -/
def tryComputeRecoveryExitFee (claimValue transparentOut : CAmount) : Except String CAmount := do
  require (MoneyRange claimValue) "bad-recovery-exit-value"
  require (MoneyRange transparentOut) "bad-txns-vout-toolarge"
  match checkedAdd claimValue (-transparentOut) with
  | none => throw "bad-recovery-exit-fee"
  | some fee => pure fee

/-- `RecoveryExitMembershipRoot`: the pinned root, or the live one after the sunset. -/
def recoveryExitMembershipRoot (params : Params) {H : MerkleHash} (height : ℕ)
    (tree : ShieldedMerkleTree H) : Except AccessFault Uint256 :=
  if !params.isShieldedRecoveryExitActive height then pure 0
  else if ¬params.nShieldedRecoveryExitFrozenRoot.IsNull then
    pure params.nShieldedRecoveryExitFrozenRoot
  else if !params.isShieldedSunsetActive height then pure 0
  else tree.frontier.root H

/-- The verdict of `VerifyRecoveryExitMembership` that `ConnectBlock` uses. A walk that faults
verifies nothing. -/
def recoveryExitMembershipVerified (params : Params) {H : MerkleHash} (height : ℕ)
    (tree : ShieldedMerkleTree H) (claim : RecoveryExitPayload) (commitment : Uint256) : Bool :=
  match recoveryExitMembershipRoot params height tree with
  | .error _ => false
  | .ok root =>
      match verifyRecoveryExitMembership H claim.membershipProof commitment root with
      | .ok (.ok ()) => true
      | _ => false

end Btx.Shielded
