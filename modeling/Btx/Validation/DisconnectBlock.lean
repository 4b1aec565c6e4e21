/-
# Disconnecting a block

The shielded half of `Chainstate::DisconnectBlock` (`src/validation.cpp`). It collects from the
block again what `ConnectBlock` added, cuts the tree and the registry back *by count*, erases note
commitments *by key*, and undoes the pool in block order. The rebuild for a tree or registry that
cannot be cut is not modelled: that does not happen (`ShieldedMerkleTree.truncate_eq_some`).
-/

import Btx.Validation.ConnectBlock

namespace Btx.Validation

open Util Shielded

/-- What the loop of `DisconnectBlock` collects from one transaction. -/
structure TxUndoData where
  nullifiers : List Nullifier
  recoveryExitCommitments : List Uint256
  createdSettlementAnchors : List Uint256
  consumedSettlementAnchors : List Uint256
  nettingManifests : List Uint256
  smileCommitments : List Uint256
  leafCount : ℕ
  outputCount : ℕ

section Disconnect

variable (env : Env) (height : ℕ)

/-- The identifiers a transaction retires by a recovery exit; none for other bundles. -/
def recoveryExitIds (b : CShieldedBundle) : Option (List RecoveryExitIdentifiers) :=
  if isRecoveryExitBundle b then
    (getRecoveryExitIdentifiersFromBundle env.notes env.accounts b).map fun p => [p.2]
  else some []

/-- The anchors a bundle consumes, where anchors are single-use. -/
def consumedRefs (b : CShieldedBundle) : List Uint256 :=
  if env.params.useSingleUseSettlementAnchors height then collectShieldedSettlementAnchorRefs b
  else []

/-- The collecting part of the loop for a transaction with a bundle. -/
def txUndoData (tx : CTransaction) : Option TxUndoData := do
  let b := tx.shieldedBundle
  let ids ← recoveryExitIds env b
  let created ← (extractCreatedShieldedSettlementAnchors env tx height).toOption
  let manifests ← (extractCreatedShieldedNettingManifests env tx).toOption
  let leafCommitments ← collectShieldedOutputAccountLeafCommitments env.accounts
    (env.params.useNoncedShieldedBridgeTags height) b
  pure
    { nullifiers := collectShieldedNullifiers b ++ ids.map (·.nullifier)
      recoveryExitCommitments := ids.map (·.commitment)
      createdSettlementAnchors := created
      consumedSettlementAnchors := consumedRefs env height b
      nettingManifests := manifests
      smileCommitments := (collectShieldedOutputSmileAccounts b).map Prod.fst
      leafCount := leafCommitments.length
      outputCount := b.shieldedOutputCount }

/-- The collecting part of the loop over a block. -/
def blockUndoData (block : CBlock) : Option (List TxUndoData) :=
  (block.vtx.filter (·.hasShieldedBundle)).mapM (txUndoData env height)

/-- `settlement_anchor_undo_metadata`: valid records of distinct anchors, as many as there are
anchors to restore, one of them for each. -/
def restoredSettlementAnchors (undo : List ConfirmedSettlementAnchorState)
    (anchors : List Uint256) : Option (List ConfirmedSettlementAnchorState) :=
  if (∀ a ∈ undo, a.IsValid) ∧ (undo.map (·.anchor)).Nodup ∧ undo.length = anchors.length then
    anchors.mapM fun anchor => undo.find? (·.anchor = anchor)
  else none

/-- The database part of `DisconnectBlock`. -/
def undoDatabase (data : List TxUndoData) (undo : BlockUndo) (s : ShieldedState env.merkle) :
    Option (ShieldedState env.merkle) := do
  let created := data.flatMap (·.createdSettlementAnchors)
  let consumed := (data.flatMap (·.consumedSettlementAnchors)).dedup
  let s₁ ← s.removeNullifiers (data.flatMap (·.nullifiers))
  let s₂ ← s₁.removeRecoveryExitCommitments (data.flatMap (·.recoveryExitCommitments))
  let s₃ ← s₂.removeSettlementAnchors (created.filter (· ∉ consumed))
  let restored ← restoredSettlementAnchors undo.consumedSettlementAnchorStates
    (consumed.filter (· ∉ created))
  let s₄ ← s₃.insertSettlementAnchors restored
  s₄.removeNettingManifests (data.flatMap (·.nettingManifests))

/-- The shielded half of `DisconnectBlock`, when the block has a shielded part. -/
def undoShielded (block : CBlock) (undo : BlockUndo) (s : ShieldedState env.merkle) :
    Option (ShieldedState env.merkle) := do
  let data ← blockUndoData env height block
  let pool ← disconnectPool env.codec block.vtx s.pool
  let outputCount := (data.map (·.outputCount)).sum
  let leafCount := (data.map (·.leafCount)).sum
  guard (outputCount ≤ s.tree.size ∧ leafCount ≤ s.registry.entries.length)
  let tree ← s.tree.truncate (s.tree.size - outputCount)
  let registry ← s.registry.truncate (s.registry.entries.length - leafCount)
  let s' ← undoDatabase env data undo s
  let smileCommitments := data.flatMap (·.smileCommitments)
  pure { s' with
    tree := tree
    registry := registry
    smilePublicAccounts := s.smilePublicAccounts.eraseAll smileCommitments
    accountLeafCommitments := s.accountLeafCommitments.eraseAll smileCommitments
    pool := pool
    velocity :=
      if env.params.isShieldedUnshieldVelocityCapActive height then s.velocity.undoBlock height
      else s.velocity }

/-- `DisconnectBlock` on the shielded state of the active chainstate. -/
def disconnectBlock (block : CBlock) (undo : BlockUndo) (s : ShieldedState env.merkle) :
    Option (ShieldedState env.merkle) :=
  if enforcesShielded env height block then undoShielded env height block undo s else some s

end Disconnect

end Btx.Validation
