/-
# The shielded bundle of a transaction

`src/shielded/bundle.h`, `src/shielded/bundle.cpp` and the payloads of `src/shielded/v2_bundle.h`: a
legacy direct-spend bundle or a v2 bundle of one of nine families, which is read off the payload.
Signatures, ciphertexts and proof bytes enter only through the checks that look at them.
-/

import Btx.Consensus.Amount
import Mathlib.Data.BitVec

namespace Btx

/-- `uint256`, its bytes in memory order with the first the most significant,
so that the order of bit vectors is the `memcmp` order of `operator<`. -/
abbrev Uint256 := BitVec 256

/-- `uint256::IsNull`. -/
def Uint256.IsNull (x : Uint256) : Prop := x = 0

instance (x : Uint256) : Decidable x.IsNull := inferInstanceAs (Decidable (x = 0))

instance (priority := high) Uint256.instLawfulBEq : LawfulBEq Uint256 := inferInstance

/-- A quantifier over a list of hashes is decided over the list; the instance for bit vectors
would try all `2 ^ 256` of them. -/
instance (priority := high) (p : Uint256 → Prop) [DecidablePred p] (l : List Uint256) :
    Decidable (∀ x ∈ l, p x) := List.decidableBAll p l

instance (priority := high) (p : Uint256 → Prop) [DecidablePred p] (l : List Uint256) :
    Decidable (∃ x ∈ l, p x) := List.decidableBEx p l

namespace Shielded

/-- `Nullifier`. -/
abbrev Nullifier := Uint256

/-- `smile2::CompactPublicAccount`: the public key and the public coin. -/
structure CompactPublicAccount where
  publicKey : List UInt8
  publicCoin : List UInt8
  deriving DecidableEq, Repr

/-- `NoteClass`. -/
inductive NoteClass where
  | user | reserve | operator | settlement
  deriving DecidableEq, Repr

/-- `OutputDescription`. -/
structure OutputDescription where
  noteCommitment : Uint256
  valueCommitment : Uint256 := 0
  smileAccount : Option CompactPublicAccount := none
  encryptedNote : List UInt8 := []
  noteClass : NoteClass := .user
  smilePublicKey : Option (List UInt8) := none
  deriving DecidableEq, Repr

/-- `SpendDescription`. -/
structure SpendDescription where
  nullifier : Nullifier
  merkleAnchor : Uint256 := 0
  accountLeafCommitment : Uint256 := 0
  noteCommitment : Uint256 := 0
  valueCommitment : Uint256 := 0
  deriving DecidableEq, Repr

/-- `SendOutputEncoding`. -/
inductive SendOutputEncoding where
  | legacy | smileCompact | smileCompactPostfork | smileCompactPostforkUnshield
  deriving DecidableEq, Repr

/-- `ConsumedAccountLeafSpend`. -/
structure ConsumedAccountLeafSpend where
  nullifier : Nullifier
  accountLeafCommitment : Uint256 := 0
  deriving DecidableEq, Repr

/-- `ReserveDelta`. -/
structure ReserveDelta where
  l2Id : Uint256
  reserveDelta : CAmount
  deriving DecidableEq, Repr

/-- `SendPayload`. -/
structure SendPayload where
  spendAnchor : Uint256 := 0
  accountRegistryAnchor : Uint256 := 0
  spends : List SpendDescription := []
  outputs : List OutputDescription := []
  valueBalance : CAmount := 0
  fee : CAmount := 0
  outputEncoding : SendOutputEncoding := .legacy
  lifecycleControls : List (List UInt8) := []
  deriving DecidableEq, Repr

/-- `SpendPathRecoveryPayload`. -/
structure SpendPathRecoveryPayload where
  spendAnchor : Uint256 := 0
  spends : List SpendDescription := []
  outputs : List OutputDescription := []
  fee : CAmount := 0
  deriving DecidableEq, Repr

/-- `RecoveryExitPayload`. -/
structure RecoveryExitPayload where
  value : CAmount
  noteCommitment : Uint256
  recipientPkHash : Uint256
  rho : Uint256
  rcm : Uint256
  spendPubkey : List UInt8
  ownershipSig : List UInt8
  membershipProof : List UInt8
  deriving DecidableEq, Repr

/-- `LifecyclePayload`. -/
structure LifecyclePayload where
  transparentBindingDigest : Uint256 := 0
  deriving DecidableEq, Repr

/-- `IngressBatchPayload`. -/
structure IngressBatchPayload where
  spendAnchor : Uint256 := 0
  accountRegistryAnchor : Uint256 := 0
  consumedSpends : List ConsumedAccountLeafSpend := []
  ingressLeafCount : ℕ := 0
  reserveOutputs : List OutputDescription := []
  fee : CAmount := 0
  settlementBindingDigest : Uint256 := 0
  deriving DecidableEq, Repr

/-- `EgressBatchPayload`. -/
structure EgressBatchPayload where
  settlementAnchor : Uint256 := 0
  outputBindingDigest : Uint256 := 0
  outputs : List OutputDescription := []
  settlementBindingDigest : Uint256 := 0
  deriving DecidableEq, Repr

/-- `NettingManifest`; its entries are reserve deltas by another name. -/
structure NettingManifest where
  settlementWindow : ℕ
  domains : List ReserveDelta
  aggregateNetDelta : CAmount := 0
  deriving DecidableEq, Repr

/-- `RebalancePayload`, the manifest present exactly when
`has_netting_manifest` is set. -/
structure RebalancePayload where
  reserveDeltas : List ReserveDelta := []
  reserveOutputs : List OutputDescription := []
  settlementBindingDigest : Uint256 := 0
  nettingManifest : Option NettingManifest := none
  deriving DecidableEq, Repr

/-- `SettlementAnchorPayload`. -/
structure SettlementAnchorPayload where
  reserveDeltas : List ReserveDelta := []
  anchoredNettingManifestId : Uint256 := 0
  deriving DecidableEq, Repr

/-- `FamilyPayload`, a variant with one alternative per `TransactionFamily`. -/
inductive FamilyPayload where
  | send (payload : SendPayload)
  | ingressBatch (payload : IngressBatchPayload)
  | egressBatch (payload : EgressBatchPayload)
  | rebalance (payload : RebalancePayload)
  | settlementAnchor (payload : SettlementAnchorPayload)
  | generic
  | lifecycle (payload : LifecyclePayload)
  | spendPathRecovery (payload : SpendPathRecoveryPayload)
  | recoveryExit (payload : RecoveryExitPayload)
  deriving DecidableEq, Repr

/-- `TransactionFamily`. -/
inductive TransactionFamily where
  | send | ingressBatch | egressBatch | rebalance | settlementAnchor | generic | lifecycle
  | spendPathRecovery | recoveryExit
  deriving DecidableEq, Repr

/-- `GetPayloadFamily`. -/
def FamilyPayload.family : FamilyPayload → TransactionFamily
  | .send _ => .send
  | .ingressBatch _ => .ingressBatch
  | .egressBatch _ => .egressBatch
  | .rebalance _ => .rebalance
  | .settlementAnchor _ => .settlementAnchor
  | .generic => .generic
  | .lifecycle _ => .lifecycle
  | .spendPathRecovery _ => .spendPathRecovery
  | .recoveryExit _ => .recoveryExit

/-- `ProofKind`. -/
inductive ProofKind where
  | none | directMatrict | batchMatrict | importedReceipt | importedClaim | directSmile | batchSmile
  | genericSmile | genericBridge | genericOpaque
  deriving DecidableEq, Repr

/-- `ProofComponentKind`. -/
inductive ProofComponentKind where
  | none | matrict | range | balance | receipt | smileMembership | smileBalance | genericOpaque
  deriving DecidableEq, Repr

/-- `SettlementBindingKind`. -/
inductive SettlementBindingKind where
  | none | nativeBatch | bridgeReceipt | bridgeClaim | nettingManifest | genericShielded
  | genericBridge | genericPostfork
  deriving DecidableEq, Repr

/-- `ProofEnvelope`. -/
structure ProofEnvelope where
  proofKind : ProofKind := .none
  membershipProofKind : ProofComponentKind := .none
  amountProofKind : ProofComponentKind := .none
  balanceProofKind : ProofComponentKind := .none
  settlementBindingKind : SettlementBindingKind := .none
  statementDigest : Uint256 := 0
  extensionDigest : Uint256 := 0
  deriving DecidableEq, Repr

/-- `TransactionHeader`, without the counts and roots of the shards and chunks. -/
structure TransactionHeader where
  familyId : TransactionFamily := .send
  proofEnvelope : ProofEnvelope := {}
  payloadDigest : Uint256 := 0
  deriving DecidableEq, Repr

/-- `shielded::v2::TransactionBundle`: the header, the payload and the proof bytes. -/
structure TransactionBundle where
  payload : FamilyPayload
  proofPayload : List UInt8 := []
  header : TransactionHeader := {}
  deriving DecidableEq, Repr

/-- `CShieldedInput`. -/
structure CShieldedInput where
  nullifier : Nullifier
  ringPositions : List ℕ := []
  deriving DecidableEq, Repr

/-- `CShieldedOutput`. -/
structure CShieldedOutput where
  noteCommitment : Uint256
  encryptedNote : List UInt8 := []
  merkleAnchor : Uint256 := 0
  deriving DecidableEq, Repr

/-- `CShieldedBundle`. -/
structure CShieldedBundle where
  shieldedInputs : List CShieldedInput := []
  shieldedOutputs : List CShieldedOutput := []
  viewGrants : List (List UInt8) := []
  proof : List UInt8 := []
  v2Bundle : Option TransactionBundle := none
  valueBalance : CAmount := 0
  deriving DecidableEq, Repr

namespace CShieldedBundle

variable (b : CShieldedBundle)

/-- `HasV2Bundle`. -/
def hasV2Bundle : Bool := b.v2Bundle.isSome

/-- `HasLegacyDirectSpendData`. -/
def hasLegacyDirectSpendData : Bool :=
  !b.shieldedInputs.isEmpty || !b.shieldedOutputs.isEmpty || !b.viewGrants.isEmpty ||
    !b.proof.isEmpty || decide (b.valueBalance ≠ 0)

/-- `IsEmpty`. -/
def isEmpty : Bool := !b.hasLegacyDirectSpendData && b.v2Bundle.isNone

/-- The payload of the v2 bundle, if there is one. -/
def payload (b : CShieldedBundle) : Option FamilyPayload := b.v2Bundle.map TransactionBundle.payload

/-- `GetTransactionFamily`. -/
def transactionFamily : Option TransactionFamily :=
  b.payload.map FamilyPayload.family

end CShieldedBundle

/-! ### What a bundle adds to and takes from the pool -/

/-- The output descriptions a v2 payload appends, family by family, as the
switches of the collectors read them. -/
def FamilyPayload.outputs : FamilyPayload → List OutputDescription
  | .send p => p.outputs
  | .ingressBatch p => p.reserveOutputs
  | .egressBatch p => p.outputs
  | .rebalance p => p.reserveOutputs
  | .spendPathRecovery p => p.outputs
  | .settlementAnchor _ | .generic | .lifecycle _ | .recoveryExit _ => []

/-- The nullifiers a v2 payload carries. A recovery exit carries none: the one
it retires is derived from the note it reveals. -/
def FamilyPayload.nullifiers : FamilyPayload → List Nullifier
  | .send p => p.spends.map (·.nullifier)
  | .ingressBatch p => p.consumedSpends.map (·.nullifier)
  | .spendPathRecovery p => p.spends.map (·.nullifier)
  | .egressBatch _ | .rebalance _ | .settlementAnchor _ | .generic | .lifecycle _
  | .recoveryExit _ => []

variable (b : CShieldedBundle)

/-- `CollectShieldedNullifiers`. -/
def collectShieldedNullifiers : List Nullifier :=
  match b.v2Bundle with
  | some v2 => v2.payload.nullifiers
  | none => b.shieldedInputs.map (·.nullifier)

/-- `CollectShieldedOutputCommitments`. -/
def collectShieldedOutputCommitments : List Uint256 :=
  match b.v2Bundle with
  | some v2 => v2.payload.outputs.map (·.noteCommitment)
  | none => b.shieldedOutputs.map (·.noteCommitment)

/-- `GetShieldedOutputCount`. -/
def CShieldedBundle.shieldedOutputCount : ℕ :=
  match b.v2Bundle with
  | some v2 => v2.payload.outputs.length
  | none => b.shieldedOutputs.length

/-- `GetShieldedInputCount`. -/
def CShieldedBundle.shieldedInputCount : ℕ :=
  match b.v2Bundle with
  | some v2 => v2.payload.nullifiers.length
  | none => b.shieldedInputs.length

/-- `CollectShieldedOutputSmileAccounts`: the outputs that carry an account.
Legacy outputs carry none. -/
def collectShieldedOutputSmileAccounts : List (Uint256 × CompactPublicAccount) :=
  match b.v2Bundle with
  | some v2 => v2.payload.outputs.filterMap fun o => o.smileAccount.map (o.noteCommitment, ·)
  | none => []

/-- `CollectShieldedAnchors`: every historical tree root the bundle refers to. -/
def collectShieldedAnchors : List Uint256 :=
  match b.v2Bundle with
  | some v2 =>
      match v2.payload with
      | .send p =>
          if p.spends.isEmpty then [] else p.spendAnchor :: p.spends.map (·.merkleAnchor)
      | .spendPathRecovery p =>
          if p.spends.isEmpty then [] else p.spendAnchor :: p.spends.map (·.merkleAnchor)
      | .ingressBatch p => [p.spendAnchor]
      | .egressBatch _ | .rebalance _ | .settlementAnchor _ | .generic | .lifecycle _
      | .recoveryExit _ => []
  | none => b.shieldedOutputs.map (·.merkleAnchor)

/-- `CollectShieldedSettlementAnchorRefs`: the anchor an egress batch consumes. -/
def collectShieldedSettlementAnchorRefs : List Uint256 :=
  match b.payload with
  | some (.egressBatch p) => [p.settlementAnchor]
  | _ => []

theorem collectShieldedOutputCommitments_length :
    (collectShieldedOutputCommitments b).length = b.shieldedOutputCount := by
  unfold collectShieldedOutputCommitments CShieldedBundle.shieldedOutputCount
  split <;> simp

end Shielded
end Btx
