/-
# The shielded part of connecting a transaction

The block of `ConnectBlock` (`src/validation.cpp`) under `enforce_shielded_consensus &&
tx.HasShieldedBundle()`. It reads the shielded state of the parent block and grows the local
variables of the loop, `BlockAcc`. Checks that look at proofs, rings, sizes, script rules or the
history of roots are verdicts of `BlockContext`, of which nothing is assumed.
-/

import Btx.Validation.State

namespace Btx.Validation

open Util Shielded

/-- `ShieldedResourceUsage`. -/
structure ShieldedResourceUsage where
  verifyUnits : ℕ
  scanUnits : ℕ
  treeUpdateUnits : ℕ

/-- The height of a block and the verdicts of the checks that are not modelled. -/
structure BlockContext where
  height : ℕ
  /-- `GetBlockSubsidyForBlock` -/
  subsidy : CAmount
  /-- header, proof of work, Merkle root, size and content rules -/
  blockRules : Except String Unit
  enforceBIP30 : Bool
  /-- `RejectShieldedHeightGateViolation` -/
  heightGate : CTransaction → Except String Unit
  txSize : CTransaction → ℕ
  /-- `IsShieldedAnchorValid` -/
  anchorValid : Uint256 → Bool
  /-- `VerifyRecoveryExitOwnership` over the transparent binding of the transaction -/
  ownershipVerified : CTransaction → Bool
  /-- `GetShieldedResourceUsage` -/
  resourceUsage : CShieldedBundle → ShieldedResourceUsage
  /-- retired envelopes, registry references, ring and privacy prechecks, public flow rule, and
  the shielded proof and spend authorisation checks -/
  proofCheck : CTransaction → Except String Unit
  /-- content rules, fee buckets and sequence locks, given the fee -/
  spendRules : CTransaction → CAmount → Except String Unit
  /-- signature operation count and input scripts -/
  scriptCheck : CTransaction → Except String Unit
  /-- the check queues when they are completed -/
  completion : Except String Unit

/-- The local variables of the transaction loop that the shielded part grows. -/
structure BlockAcc (H : MerkleHash) where
  tree : ShieldedMerkleTree H
  pool : ShieldedPoolBalance
  nullifiers : List Nullifier := []
  recoveryExitCommitments : List Uint256 := []
  outputCommitments : List Uint256 := []
  smilePublicAccounts : List (Uint256 × CompactPublicAccount) := []
  accountLeafEntries : List (Uint256 × Uint256) := []
  accountLeaves : List ShieldedAccountLeaf := []
  settlementAnchors : List ConfirmedSettlementAnchorState := []
  consumedSettlementAnchors : List Uint256 := []
  consumedSettlementAnchorStates : List ConfirmedSettlementAnchorState := []
  nettingManifests : List Uint256 := []
  registryAppends : ℕ := 0
  verifyCost : ℕ := 0
  scanUnits : ℕ := 0
  treeUpdateUnits : ℕ := 0

/-- The variables at the start of the loop. -/
def BlockAcc.start {H : MerkleHash} (s : ShieldedState H) : BlockAcc H where
  tree := s.tree
  pool := s.pool

section Steps

variable (env : Env) (ctx : BlockContext) (s : ShieldedState env.merkle)

variable (acc : BlockAcc env.merkle)

/-- The loop body over the nullifiers of a bundle. -/
def retireNullifier (nf : Nullifier) :
    Except String (BlockAcc env.merkle) := do
  require (nf ∉ acc.nullifiers) "bad-shielded-nullifier-duplicate"
  require (¬s.isShieldedNullifierSpent nf) "bad-shielded-nullifier-spent"
  pure { acc with nullifiers := acc.nullifiers ++ [nf] }

/-- The loop body over the output commitments of a bundle. -/
def addOutputCommitment (cm : Uint256) :
    Except String (BlockAcc env.merkle) := do
  require (cm ∉ acc.outputCommitments) "bad-shielded-commitment-duplicate"
  pure { acc with outputCommitments := acc.outputCommitments ++ [cm] }

variable (tx : CTransaction)

/-- The recovery exit branch: derive the identifiers, check the claim, retire both. -/
def recoveryExitTx : Except String (BlockAcc env.merkle) :=
  let b := tx.shieldedBundle
  if !isRecoveryExitBundle b then pure acc
  else do
    require (env.params.isShieldedRecoveryExitActive ctx.height)
      "bad-shielded-v2-recovery-exit-disabled"
    match getRecoveryExitIdentifiersFromBundle env.notes env.accounts b with
    | none => throw "bad-shielded-recovery-exit-malformed"
    | some (claim, ids) => do
        let transparentOut ← trySumTransparentOutputs tx.vout 0
        let fee ← tryComputeRecoveryExitFee claim.value transparentOut
        let spent := decide (ids.nullifier ∈ acc.nullifiers) ||
          s.isShieldedNullifierSpent ids.nullifier
        require (¬spent) "bad-recovery-exit-nullifier-spent"
        let claimed := decide (ids.commitment ∈ acc.recoveryExitCommitments) ||
          s.containsRecoveryExitCommitment ids.commitment
        require (¬claimed) "bad-recovery-exit-commitment-claimed"
        let _ ← checkRecoveryExitClaim env.notes env.accounts claim
          { valueBalance := claim.value
            fee := fee
            transparentOut := transparentOut
            transparentInputCount := tx.vin.length
            shieldedOutputCount := (collectShieldedOutputCommitments b).length
            poolBalance := acc.pool.balance
            validationHeight := ctx.height
            activationHeight := env.params.nShieldedRecoveryExitActivationHeight
            expiryHeight := 0
            ownershipVerified := ctx.ownershipVerified tx
            membershipVerified := recoveryExitMembershipVerified env.params ctx.height s.tree
              claim ids.commitment
            nullifierAlreadySpent := spent
            commitmentAlreadyClaimed := claimed }
        pure { acc with
          nullifiers := acc.nullifiers ++ [ids.nullifier]
          recoveryExitCommitments := acc.recoveryExitCommitments ++ [ids.commitment] }

/-- `WouldExceedAccountRegistryEntryCountLimit`. -/
def wouldExceedAccountRegistryEntryCountLimit (params : Params) (current new : ℕ) : Bool :=
  decide (params.nMaxShieldedAccountRegistryEntries < current ∨
    params.nMaxShieldedAccountRegistryEntries - current < new)

variable (b : CShieldedBundle)

/-- The account registry part: public accounts, leaf entries and leaves of the outputs. -/
def accountTx : Except String (BlockAcc env.merkle) :=
  let useNonced := env.params.useNoncedShieldedBridgeTags ctx.height
  match collectShieldedOutputAccountLeafEntries env.accounts useNonced b,
      collectShieldedOutputAccountLeaves env.accounts useNonced b with
  | some entries, some leaves => do
      let appends :=
        if env.params.useAccountRegistryAppendRateLimit ctx.height then
          acc.registryAppends + leaves.length
        else acc.registryAppends
      require (¬(env.params.useAccountRegistryAppendRateLimit ctx.height ∧
        env.params.nMaxBlockShieldedAccountRegistryAppends < acc.registryAppends + leaves.length))
        "bad-blk-shielded-account-registry-rate-limit"
      require (¬(env.params.useAccountRegistryEntryCountLimit ctx.height ∧
        wouldExceedAccountRegistryEntryCountLimit env.params s.registry.entries.length appends))
        "bad-blk-shielded-account-registry-size-limit"
      pure { acc with
        smilePublicAccounts := acc.smilePublicAccounts ++ collectShieldedOutputSmileAccounts b
        accountLeafEntries := acc.accountLeafEntries ++ entries
        accountLeaves := acc.accountLeaves ++ leaves
        registryAppends := appends }
  | _, _ => throw "bad-shielded-account-leaf"

/-- The turnstile and the tree: the pool first, then the output commitments. -/
def poolAndTreeTx : Except String (BlockAcc env.merkle) := do
  let valueBalance ← tryGetShieldedStateValueBalance env.codec b
  match acc.pool.applyValueBalance valueBalance with
  | none => throw "shielded-pool-balance-negative"
  | some pool => do
      let tree ← (collectShieldedOutputCommitments b).foldlM ShieldedMerkleTree.append acc.tree
      pure { acc with pool := pool, tree := tree }

/-- The per-block resource limits. -/
def resourceTx : Except String (BlockAcc env.merkle) := do
  let usage := ctx.resourceUsage b
  require (acc.verifyCost + usage.verifyUnits ≤ env.params.nMaxBlockShieldedVerifyCost)
    "bad-blk-shielded-cost"
  require (acc.scanUnits + usage.scanUnits ≤ env.params.nMaxBlockShieldedScanUnits)
    "bad-blk-shielded-scan"
  require (acc.treeUpdateUnits + usage.treeUpdateUnits ≤
    env.params.nMaxBlockShieldedTreeUpdateUnits) "bad-blk-shielded-tree-updates"
  pure { acc with
    verifyCost := acc.verifyCost + usage.verifyUnits
    scanUnits := acc.scanUnits + usage.scanUnits
    treeUpdateUnits := acc.treeUpdateUnits + usage.treeUpdateUnits }

/-- The family gates before the proof checks. -/
def familyGate : Except String Unit := do
  require (b.transactionFamily = some .spendPathRecovery →
    env.params.isShieldedSpendPathRecoveryActive ctx.height)
    "bad-shielded-v2-spend-path-recovery-disabled"
  require (b.transactionFamily ≠ some .generic) "bad-shielded-v2-contextual"

/-- `IsSettlementAnchorMature`. -/
def isSettlementAnchorMature (params : Params) (height : ℕ)
    (anchor : ConfirmedSettlementAnchorState) : Bool :=
  let depth := params.shieldedSettlementAnchorMaturityDepth height
  decide (depth = 0 ∨ (anchor.IsValid ∧ anchor.createdHeight < height ∧
    (depth : ℤ) ≤ height - anchor.createdHeight))

/-- The error of an anchor record without metadata. -/
def missingAnchorMetadata : String := "ConnectBlock(): missing settlement-anchor metadata"

/-- Consumption of an anchor, where anchors are single-use. -/
def consumeSettlementAnchor (anchor : Uint256) :
    Except String (BlockAcc env.merkle) := do
  require (anchor ∉ acc.consumedSettlementAnchors) "bad-shielded-v2-egress-anchor-reused"
  let consumed := acc.consumedSettlementAnchors ++ [anchor]
  if anchor ∈ acc.settlementAnchors.map (·.anchor) then
    pure { acc with consumedSettlementAnchors := consumed }
  else
    match s.settlementAnchorState anchor with
    | none => throw missingAnchorMetadata
    | some anchorState =>
        if ¬anchorState.IsValid then throw missingAnchorMetadata
        else
          pure { acc with
            consumedSettlementAnchors := consumed
            consumedSettlementAnchorStates := acc.consumedSettlementAnchorStates ++ [anchorState] }

/-- The egress batch case: the anchor exists, is mature, and is consumed. -/
def egressBatchTx (p : EgressBatchPayload) :
    Except String (BlockAcc env.merkle) := do
  let createdInBlock := decide (p.settlementAnchor ∈ acc.settlementAnchors.map (·.anchor))
  let anchorState := s.settlementAnchorState p.settlementAnchor
  require (anchorState.isSome ∨ createdInBlock) "bad-shielded-v2-egress-unanchored"
  require (createdInBlock ∨ (∀ a ∈ anchorState, a.IsValid) ∨
    ¬(env.params.useSettlementAnchorMaturityRule ctx.height ∨
      env.params.useSingleUseSettlementAnchors ctx.height)) missingAnchorMetadata
  require (env.params.useSettlementAnchorMaturityRule ctx.height → ¬createdInBlock ∧
    ∃ a ∈ anchorState, isSettlementAnchorMature env.params ctx.height a)
    "bad-shielded-v2-egress-immature-anchor"
  if env.params.useSingleUseSettlementAnchors ctx.height then
    consumeSettlementAnchor env s acc p.settlementAnchor
  else pure acc

/-- The loop body over the anchors a settlement anchor transaction creates. -/
def createSettlementAnchor (anchor : Uint256) :
    Except String (BlockAcc env.merkle) := do
  require ((s.settlementAnchorState anchor).isNone ∧
    anchor ∉ acc.settlementAnchors.map (·.anchor)) "bad-shielded-v2-settlement-anchor-duplicate"
  pure { acc with settlementAnchors := acc.settlementAnchors ++ [⟨anchor, ctx.height⟩] }

/-- The settlement anchor case. -/
def settlementAnchorTx
    (p : SettlementAnchorPayload) : Except String (BlockAcc env.merkle) := do
  require (p.anchoredNettingManifestId.IsNull ∨
    s.isShieldedNettingManifestValid env.params ctx.height p.anchoredNettingManifestId ∨
    p.anchoredNettingManifestId ∈ acc.nettingManifests)
    "bad-shielded-v2-settlement-unanchored-manifest"
  let created ← extractCreatedShieldedSettlementAnchors env tx ctx.height
  created.foldlM (createSettlementAnchor env ctx s) acc

/-- The loop body over the manifests a rebalance creates. -/
def createNettingManifest (id : Uint256) :
    Except String (BlockAcc env.merkle) := do
  require ((s.nettingManifestState id).isNone ∧ id ∉ acc.nettingManifests)
    "bad-shielded-v2-rebalance-manifest-duplicate"
  pure { acc with nettingManifests := acc.nettingManifests ++ [id] }

/-- The rebalance case. -/
def rebalanceTx : Except String (BlockAcc env.merkle) := do
  let created ← extractCreatedShieldedNettingManifests env tx
  created.foldlM (createNettingManifest env s) acc

/-- The switch over the families after the proof checks. -/
def familyTx : Except String (BlockAcc env.merkle) :=
  match tx.shieldedBundle.payload with
  | some (.egressBatch p) => egressBatchTx env ctx s acc p
  | some (.settlementAnchor p) => settlementAnchorTx env ctx s acc tx p
  | some (.rebalance _) => rebalanceTx env s acc tx
  | some .generic => throw "bad-shielded-v2-contextual"
  | _ => pure acc

/-- The shielded part of the loop before the proof checks. -/
def checkShieldedTx : Except String (BlockAcc env.merkle) := do
  let b := tx.shieldedBundle
  require (env.params.nShieldedPoolActivationHeight ≤ ctx.height) "bad-shielded-premature"
  require (ctx.txSize tx ≤ env.params.nMaxShieldedTxSize) "bad-shielded-tx-size"
  let acc ← (collectShieldedNullifiers b).foldlM (retireNullifier env s) acc
  require (∀ anchor ∈ collectShieldedAnchors b, ctx.anchorValid anchor) "bad-shielded-anchor"
  let acc ← (collectShieldedOutputCommitments b).foldlM (addOutputCommitment env) acc
  let acc ← recoveryExitTx env ctx s acc tx
  let acc ← accountTx env ctx s acc b
  let acc ← poolAndTreeTx env acc b
  let acc ← resourceTx env ctx acc b
  familyGate env ctx b
  pure acc

/-- The shielded part of the loop for a transaction with a bundle. -/
def shieldedTx : Except String (BlockAcc env.merkle) := do
  let acc ← checkShieldedTx env ctx s acc tx
  ctx.proofCheck tx
  familyTx env ctx s acc tx

end Steps

end Btx.Validation
