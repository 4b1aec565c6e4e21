/-
# The state of the shielded pool

What `ChainstateManager` keeps for the shielded pool, in memory and in the nullifier database
(`src/shielded/nullifier.cpp`), whose calls refuse null keys and invalid records. An I/O failure of
the database is not a state of the model. `Env` is what stays fixed while a node runs.
-/

import Btx.Consensus.Coins
import Btx.Shielded.RecoveryExit
import Btx.Shielded.Turnstile
import Btx.Shielded.UnshieldVelocity

namespace Btx.Validation

open Util Shielded Option

/-- Consensus parameters, hash functions and decoders. -/
structure Env where
  params : Params
  merkle : MerkleHash
  accounts : AccountHash
  notes : NoteHash
  codec : Codec
  limits : TxLimits
  /-- the encoding rules of `TransactionBundle::IsValid` -/
  wellFormed : TransactionBundle → Bool
  /-- the digest that `ExtractCreatedShieldedSettlementAnchors` derives from the witness of a
  settlement anchor bundle at a height -/
  settlementAnchorDigest : TransactionBundle → ℕ → Except String Uint256
  /-- `ComputeNettingManifestId` -/
  nettingManifestId : NettingManifest → Uint256

/-- `ConfirmedSettlementAnchorState`. -/
structure ConfirmedSettlementAnchorState where
  anchor : Uint256
  createdHeight : ℤ
  deriving DecidableEq, Repr

/-- `ConfirmedSettlementAnchorState::IsValid`. -/
def ConfirmedSettlementAnchorState.IsValid (a : ConfirmedSettlementAnchorState) : Prop :=
  ¬a.anchor.IsNull ∧ 0 ≤ a.createdHeight

instance (a : ConfirmedSettlementAnchorState) : Decidable a.IsValid :=
  inferInstanceAs (Decidable (_ ∧ _))

/-- `ConfirmedNettingManifestState`. -/
structure ConfirmedNettingManifestState where
  manifestId : Uint256
  createdHeight : ℤ
  settlementWindow : ℕ
  deriving DecidableEq, Repr

/-- `ConfirmedNettingManifestState::IsValid`. -/
def ConfirmedNettingManifestState.IsValid (m : ConfirmedNettingManifestState) : Prop :=
  ¬m.manifestId.IsNull ∧ 0 ≤ m.createdHeight ∧ 0 < m.settlementWindow

instance (m : ConfirmedNettingManifestState) : Decidable m.IsValid :=
  inferInstanceAs (Decidable (_ ∧ _ ∧ _))

/-- The shielded members of `ChainstateManager`. -/
structure ShieldedState (H : MerkleHash) where
  tree : ShieldedMerkleTree H
  registry : ShieldedAccountRegistryState
  nullifiers : Finset Nullifier
  recoveryExitCommitments : Finset Uint256
  /-- created height by anchor -/
  settlementAnchors : PartialMap Uint256 ℤ
  /-- created height and settlement window by manifest id -/
  nettingManifests : PartialMap Uint256 (ℤ × ℕ)
  smilePublicAccounts : PartialMap Uint256 CompactPublicAccount
  accountLeafCommitments : PartialMap Uint256 Uint256
  pool : ShieldedPoolBalance
  velocity : ShieldedUnshieldVelocity

namespace ShieldedState

variable {H : MerkleHash}

/-- The state before the first block. -/
def empty : ShieldedState H where
  tree := .empty
  registry := .empty
  nullifiers := ∅
  recoveryExitCommitments := ∅
  settlementAnchors := .empty
  nettingManifests := .empty
  smilePublicAccounts := .empty
  accountLeafCommitments := .empty
  pool := .empty
  velocity := .empty

variable (s : ShieldedState H)

/-- `IsShieldedNullifierSpent`. -/
def isShieldedNullifierSpent (nf : Nullifier) : Bool := decide (¬nf.IsNull ∧ nf ∈ s.nullifiers)

/-- `ContainsRecoveryExitCommitment`. -/
def containsRecoveryExitCommitment (cm : Uint256) : Bool :=
  decide (¬cm.IsNull ∧ cm ∈ s.recoveryExitCommitments)

/-- `GetShieldedSettlementAnchorState`. -/
def settlementAnchorState (anchor : Uint256) : Option ConfirmedSettlementAnchorState :=
  if anchor.IsNull then none else (s.settlementAnchors anchor).map (⟨anchor, ·⟩)

/-- `GetShieldedNettingManifestState`. -/
def nettingManifestState (id : Uint256) : Option ConfirmedNettingManifestState :=
  if id.IsNull then none else (s.nettingManifests id).map fun m => ⟨id, m.1, m.2⟩

/-- `IsShieldedNettingManifestValid`, with `IsNettingManifestFresh`. -/
def isShieldedNettingManifestValid (params : Params) (height : ℕ) (id : Uint256) : Bool :=
  match s.nettingManifestState id with
  | none => false
  | some m =>
      !params.useNettingManifestFreshnessBinding height ||
        decide (m.IsValid ∧ m.createdHeight ≤ height ∧
          (height : ℤ) - m.createdHeight < m.settlementWindow)

/-! ### The calls of the nullifier database -/

/-- `NullifierSet::Insert`. -/
def insertNullifiers (nfs : List Nullifier) : Option (ShieldedState H) :=
  if ∃ nf ∈ nfs, nf.IsNull then none
  else some { s with nullifiers := s.nullifiers ∪ nfs.toFinset }

/-- `NullifierSet::Remove`. -/
def removeNullifiers (nfs : List Nullifier) : Option (ShieldedState H) :=
  if ∃ nf ∈ nfs, nf.IsNull then none
  else some { s with nullifiers := s.nullifiers \ nfs.toFinset }

/-- `InsertRecoveryExitCommitments`, called for a non-empty list only. -/
def insertRecoveryExitCommitments (cms : List Uint256) : Option (ShieldedState H) :=
  if ∃ cm ∈ cms, cm.IsNull then none
  else some { s with recoveryExitCommitments := s.recoveryExitCommitments ∪ cms.toFinset }

/-- `RemoveRecoveryExitCommitments`. -/
def removeRecoveryExitCommitments (cms : List Uint256) : Option (ShieldedState H) :=
  if ∃ cm ∈ cms, cm.IsNull then none
  else some { s with recoveryExitCommitments := s.recoveryExitCommitments \ cms.toFinset }

/-- `InsertSettlementAnchors`. -/
def insertSettlementAnchors (anchors : List ConfirmedSettlementAnchorState) :
    Option (ShieldedState H) :=
  if ∀ a ∈ anchors, a.IsValid then
    some { s with
      settlementAnchors := s.settlementAnchors.insertAll
        (anchors.map fun a => (a.anchor, a.createdHeight)) }
  else none

/-- `RemoveSettlementAnchors`. -/
def removeSettlementAnchors (anchors : List Uint256) : Option (ShieldedState H) :=
  if ∃ a ∈ anchors, a.IsNull then none
  else some { s with settlementAnchors := s.settlementAnchors.eraseAll anchors }

/-- `InsertNettingManifests`. -/
def insertNettingManifests (manifests : List ConfirmedNettingManifestState) :
    Option (ShieldedState H) :=
  if ∀ m ∈ manifests, m.IsValid then
    some { s with
      nettingManifests := s.nettingManifests.insertAll
        (manifests.map fun m => (m.manifestId, m.createdHeight, m.settlementWindow)) }
  else none

/-- `RemoveNettingManifests`. -/
def removeNettingManifests (ids : List Uint256) : Option (ShieldedState H) :=
  if ∃ id ∈ ids, id.IsNull then none
  else some { s with nettingManifests := s.nettingManifests.eraseAll ids }

variable {s} {s' : ShieldedState H}

variable {nfs : List Nullifier} {cms : List Uint256}

theorem insertNullifiers_eq_some (h : s.insertNullifiers nfs = some s') :
    (∀ nf ∈ nfs, ¬nf.IsNull) ∧ s' = { s with nullifiers := s.nullifiers ∪ nfs.toFinset } := by
  unfold insertNullifiers at h
  split_ifs at h with hnull
  exact ⟨by simpa using hnull, (some.inj h).symm⟩

theorem removeNullifiers_eq_some (h : s.removeNullifiers nfs = some s') :
    s' = { s with nullifiers := s.nullifiers \ nfs.toFinset } := by
  unfold removeNullifiers at h
  split_ifs at h
  exact (some.inj h).symm

theorem insertRecoveryExitCommitments_eq_some (h : s.insertRecoveryExitCommitments cms = some s') :
    (∀ cm ∈ cms, ¬cm.IsNull) ∧
      s' = { s with recoveryExitCommitments := s.recoveryExitCommitments ∪ cms.toFinset } := by
  unfold insertRecoveryExitCommitments at h
  split_ifs at h with hnull
  exact ⟨by simpa using hnull, (some.inj h).symm⟩

theorem removeRecoveryExitCommitments_eq_some (h : s.removeRecoveryExitCommitments cms = some s') :
    s' = { s with recoveryExitCommitments := s.recoveryExitCommitments \ cms.toFinset } := by
  unfold removeRecoveryExitCommitments at h
  split_ifs at h
  exact (some.inj h).symm

theorem insertSettlementAnchors_eq_some {anchors : List ConfirmedSettlementAnchorState}
    (h : s.insertSettlementAnchors anchors = some s') :
    (∀ a ∈ anchors, a.IsValid) ∧
      s' = { s with
        settlementAnchors := s.settlementAnchors.insertAll
          (anchors.map fun a => (a.anchor, a.createdHeight)) } := by
  unfold insertSettlementAnchors at h
  split_ifs at h with hvalid
  exact ⟨hvalid, (some.inj h).symm⟩

theorem removeSettlementAnchors_eq_some {anchors : List Uint256}
    (h : s.removeSettlementAnchors anchors = some s') :
    s' = { s with settlementAnchors := s.settlementAnchors.eraseAll anchors } := by
  unfold removeSettlementAnchors at h
  split_ifs at h
  exact (some.inj h).symm

theorem insertNettingManifests_eq_some {manifests : List ConfirmedNettingManifestState}
    (h : s.insertNettingManifests manifests = some s') :
    s' = { s with
      nettingManifests := s.nettingManifests.insertAll
        (manifests.map fun m => (m.manifestId, m.createdHeight, m.settlementWindow)) } := by
  unfold insertNettingManifests at h
  split_ifs at h
  exact (some.inj h).symm

theorem removeNettingManifests_eq_some {ids : List Uint256}
    (h : s.removeNettingManifests ids = some s') :
    s' = { s with nettingManifests := s.nettingManifests.eraseAll ids } := by
  unfold removeNettingManifests at h
  split_ifs at h
  exact (some.inj h).symm

end ShieldedState

/-! ## What a transaction creates -/

section Extract

variable (env : Env) (tx : CTransaction)

/-- `ExtractCreatedShieldedSettlementAnchors`. -/
def extractCreatedShieldedSettlementAnchors (validationHeight : ℕ) : Except String (List Uint256) :=
  match tx.shieldedBundle.v2Bundle with
  | none => pure []
  | some v2 =>
      match v2.payload with
      | .settlementAnchor _ => do
          let digest ← env.settlementAnchorDigest v2 validationHeight
          pure [digest]
      | _ => pure []

/-- The netting manifest of a rebalance that has one. -/
def nettingManifestOf : Option NettingManifest :=
  match tx.shieldedBundle.payload with
  | some (.rebalance p) => p.nettingManifest
  | _ => none

/-- `ExtractCreatedShieldedNettingManifests`. -/
def extractCreatedShieldedNettingManifests : Except String (List Uint256) :=
  match nettingManifestOf tx with
  | none => pure []
  | some manifest =>
      if (env.nettingManifestId manifest).IsNull then throw "bad-shielded-v2-rebalance-manifest"
      else pure [env.nettingManifestId manifest]

/-- `ExtractCreatedShieldedNettingManifestStates`, which also asks for a valid manifest. -/
def extractCreatedShieldedNettingManifestStates (createdHeight : ℕ) :
    Except String (List ConfirmedNettingManifestState) :=
  match nettingManifestOf tx with
  | none => pure []
  | some manifest =>
      if (env.nettingManifestId manifest).IsNull ∨ manifest.isValid = false then
        throw "bad-shielded-v2-rebalance-manifest"
      else
        pure [⟨env.nettingManifestId manifest, createdHeight, manifest.settlementWindow⟩]

end Extract

end Btx.Validation
