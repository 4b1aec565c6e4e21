/-
# Connecting a block

`Chainstate::ConnectBlock` (`src/validation.cpp`) on the active chainstate. The commit writes to the
nullifier database step by step, and a later step can still reject the block; so a rejection carries
the state the node is left with (`Rejection.state`).
-/

import Btx.Validation.ShieldedTx

namespace Btx.Validation

open Util Shielded

/-- A block that was not connected: the reject reason and the shielded state left behind. -/
structure Rejection (H : MerkleHash) where
  reason : String
  state : ShieldedState H

/-- Both ledgers. -/
structure ChainState (H : MerkleHash) where
  coins : CoinsView
  shielded : ShieldedState H

/-- `CBlockUndo`. -/
structure BlockUndo where
  vtxundo : List (List Coin)
  consumedSettlementAnchorStates : List ConfirmedSettlementAnchorState

section Connect

variable (env : Env) (ctx : BlockContext)

/-- `CheckBlock`: one coinbase, in front, and well-formed transactions. -/
def checkBlock (block : CBlock) : Except String Unit := do
  ctx.blockRules
  require (block.vtx ≠ []) "bad-blk-length"
  require ((block.vtx.head?.map (·.isCoinBase)) = some true) "bad-cb-missing"
  require (∀ tx ∈ block.vtx.tail, ¬tx.isCoinBase) "bad-cb-multiple"
  block.vtx.forM (checkTransaction env.wellFormed env.limits)

/-- The BIP30 loop: no output of the block may exist already. -/
def checkBIP30 (coins : CoinsView) (block : CBlock) : Except String Unit :=
  require (¬(ctx.enforceBIP30 ∧
    ∃ tx ∈ block.vtx, ∃ n ∈ List.range tx.vout.length, (coins.lookup ⟨tx.hash, n⟩).isSome))
    "bad-txns-BIP30"

/-- The variables of the transaction loop. -/
structure LoopState (H : MerkleHash) where
  coins : CoinsView
  nFees : CAmount
  acc : BlockAcc H
  vtxundo : List (List Coin)

/-- The fee part of the loop, for a transaction that is not a coinbase. -/
def spendTx (coins : CoinsView) (nFees : CAmount) (tx : CTransaction) : Except String CAmount :=
  if tx.isCoinBase then pure nFees
  else do
    let txfee ← checkTxInputs coins ctx.height tx
    require (MoneyRange (nFees + txfee)) "bad-txns-accumulated-fee-outofrange"
    ctx.spendRules tx txfee
    pure (nFees + txfee)

/-- The transparent part of the loop, after the shielded part. -/
def transparentTx {H : MerkleHash} (loop : LoopState H) (tx : CTransaction) (acc : BlockAcc H) :
    Except String (LoopState H) := do
  let nFees ← spendTx ctx loop.coins loop.nFees tx
  ctx.scriptCheck tx
  let updated ← updateCoins loop.coins ctx.height tx
  pure
    { coins := updated.1
      nFees := nFees
      acc := acc
      vtxundo := loop.vtxundo ++ (if tx.isCoinBase then [] else [updated.2]) }

variable (s : ShieldedState env.merkle)

/-- The body of the transaction loop. -/
def connectTx (loop : LoopState env.merkle) (tx : CTransaction) :
    Except String (LoopState env.merkle) := do
  let acc ←
    if tx.hasShieldedBundle then do
      ctx.heightGate tx
      shieldedTx env ctx s loop.acc tx
    else pure loop.acc
  transparentTx ctx loop tx acc

variable (st : ChainState env.merkle)

/-- The checks before the transaction loop. -/
def checkStart (block : CBlock) : Except String Unit := do
  checkBlock env ctx block
  checkBIP30 ctx st.coins block
  require (¬(env.params.useAccountRegistryEntryCountLimit ctx.height ∧
    env.params.nMaxShieldedAccountRegistryEntries < st.shielded.registry.entries.length))
    "bad-blk-shielded-account-registry-size-limit"

/-- The variables before the transaction loop. -/
def LoopState.start {H : MerkleHash} (st : ChainState H) : LoopState H where
  coins := st.coins
  nFees := 0
  acc := .start st.shielded
  vtxundo := []

/-- The limit on what the coinbase pays. -/
def checkReward {H : MerkleHash} (loop : LoopState H) (block : CBlock) : Except String Unit :=
  require (((block.vtx.head?.map (·.valueOut)).getD 0) ≤ loop.nFees + ctx.subsidy) "bad-cb-amount"

/-- Everything `ConnectBlock` checks before it writes. -/
def validateBlock (block : CBlock) :
    Except String (LoopState env.merkle) := do
  checkStart env ctx st block
  let loop ← block.vtx.foldlM (connectTx env ctx st.shielded) (.start st)
  checkReward ctx loop block
  ctx.completion
  pure loop

/-! ## The commit -/

/-- A database write that may fail with `reason`, leaving the state as it was. -/
def writeOr {H : MerkleHash} (reason : String)
    (write : ShieldedState H → Option (ShieldedState H)) (s : ShieldedState H) :
    Except (Rejection H) (ShieldedState H) :=
  match write s with
  | none => throw ⟨reason, s⟩
  | some s' => pure s'

/-- A check that fails with the given state left behind. -/
def rejectWith {H : MerkleHash} {α : Type} (s : ShieldedState H) (x : Except String α) :
    Except (Rejection H) α :=
  x.mapError (⟨·, s⟩)

/-- `projected_account_registry`. -/
def projectRegistry (acc : BlockAcc env.merkle) : Except String ShieldedAccountRegistryState :=
  match s.registry.appendPrepared env.accounts acc.accountLeaves with
  | none => throw "bad-blk-shielded-account-registry-append"
  | some registry => do
      require (¬(acc.accountLeaves ≠ [] ∧
        env.params.useAccountRegistryEntryCountLimit ctx.height ∧
        env.params.nMaxShieldedAccountRegistryEntries < registry.entries.length))
        "bad-blk-shielded-account-registry-size-limit"
      pure registry

/-- The created anchors that are stored: those not consumed in the same block, where anchors
are single-use. -/
def storedSettlementAnchors (acc : BlockAcc env.merkle) : List ConfirmedSettlementAnchorState :=
  if env.params.useSingleUseSettlementAnchors ctx.height then
    acc.settlementAnchors.filter fun a => a.anchor ∉ acc.consumedSettlementAnchors
  else acc.settlementAnchors

/-- The anchors that are removed. -/
def removedSettlementAnchors (acc : BlockAcc env.merkle) : List Uint256 :=
  if env.params.useSingleUseSettlementAnchors ctx.height then acc.consumedSettlementAnchors else []

/-- The velocity log after the block, if the cap is active and the block stays within it. -/
def nextVelocity (poolEnd : ShieldedPoolBalance) : Except String ShieldedUnshieldVelocity :=
  let params := env.params
  if !params.isShieldedUnshieldVelocityCapActive ctx.height then pure s.velocity
  else
    let poolStart := s.pool.balance
    let netEgress := if poolEnd.balance < poolStart then poolStart - poolEnd.balance else 0
    let next := s.velocity.recordBlock ctx.height netEgress
    if next.withinCap ctx.height poolStart params.nShieldedUnshieldVelocityCapBps
        params.nShieldedUnshieldVelocityWindowBlocks
        (params.shieldedUnshieldVelocityMinCapForHeight ctx.height) then
      pure (next.prune (ShieldedUnshieldVelocity.keepFromHeight ctx.height
        params.nShieldedUnshieldVelocityWindowBlocks))
    else throw "shielded-unshield-velocity-exceeded"

/-- The netting manifest states of a block. -/
def blockNettingManifestStates (block : CBlock) :
    Except String (List ConfirmedNettingManifestState) := do
  let states ← block.vtx.mapM (extractCreatedShieldedNettingManifestStates env · ctx.height)
  pure states.flatten

/-- The writes of the commit to the four stores, in the order of the source. -/
def writeStores (block : CBlock) (acc : BlockAcc env.merkle) (s : ShieldedState env.merkle) :
    Except (Rejection env.merkle) (ShieldedState env.merkle) := do
  let s₁ ← writeOr "shielded-nullifier-db-write-failed" (·.insertNullifiers acc.nullifiers) s
  let s₂ ← writeOr "shielded-recovery-exit-db-write-failed"
    (·.insertRecoveryExitCommitments acc.recoveryExitCommitments) s₁
  let s₃ ← writeOr "shielded-settlement-anchor-db-write-failed"
    (·.insertSettlementAnchors (storedSettlementAnchors env ctx acc)) s₂
  let s₄ ← writeOr "shielded-settlement-anchor-db-write-failed"
    (·.removeSettlementAnchors (removedSettlementAnchors env ctx acc)) s₃
  let manifests ← rejectWith s₄ (blockNettingManifestStates env ctx block)
  writeOr "shielded-netting-manifest-db-write-failed" (·.insertNettingManifests manifests) s₄

/-- The commit of the shielded state: the stores, the velocity log, and the rest. -/
def commitShielded (block : CBlock) (acc : BlockAcc env.merkle) (s : ShieldedState env.merkle) :
    Except (Rejection env.merkle) (ShieldedState env.merkle) := do
  let registry ← rejectWith s (projectRegistry env ctx s acc)
  let s₅ ← writeStores env ctx block acc s
  let velocity ← rejectWith s₅ (nextVelocity env ctx s₅ acc.pool)
  pure { s₅ with
    tree := acc.tree
    registry := registry
    smilePublicAccounts := s₅.smilePublicAccounts.insertAll acc.smilePublicAccounts
    accountLeafCommitments := s₅.accountLeafCommitments.insertAll acc.accountLeafEntries
    pool := acc.pool
    velocity := velocity }

/-- `enforce_shielded_consensus` on the active chainstate: some transaction has a bundle, or
the velocity log moves. -/
def enforcesShielded (height : ℕ) (block : CBlock) : Bool :=
  blockHasShieldedBundle block || env.params.isShieldedUnshieldVelocityCapActive height

/-- `ConnectBlock`, without the repair of `Btx.Validation.AutoRepair`. -/
def connectBlock (block : CBlock) :
    Except (Rejection env.merkle) (ChainState env.merkle × BlockUndo) := do
  let loop ← rejectWith st.shielded (validateBlock env ctx st block)
  let shielded ←
    if enforcesShielded env ctx.height block then commitShielded env ctx block loop.acc st.shielded
    else pure st.shielded
  pure (⟨loop.coins, shielded⟩, ⟨loop.vtxundo, loop.acc.consumedSettlementAnchorStates⟩)

end Connect

end Btx.Validation
