/-
# The output collectors: five switches, one traversal

`GetShieldedOutputCount`, `CollectShieldedOutputCommitments` and the three account leaf collectors
of `src/shielded/bundle.cpp` each have a switch over the families. They are written out as the
source has them (`Switch`) and shown to be one traversal of the outputs.
-/

import Btx.Shielded.AccountRegistry
import Btx.Shielded.Structure

namespace Btx.Shielded

open Util Option List

/-! ## The switches -/

namespace Switch

variable (A : AccountHash) (useNoncedBridgeTag : Bool)

/-- `GetV2ShieldedOutputCount`. -/
def getV2ShieldedOutputCount : FamilyPayload → ℕ
  | .send p => p.outputs.length
  | .spendPathRecovery p => p.outputs.length
  | .lifecycle _ => 0
  | .ingressBatch p => p.reserveOutputs.length
  | .egressBatch p => p.outputs.length
  | .rebalance p => p.reserveOutputs.length
  | .recoveryExit _ | .settlementAnchor _ | .generic => 0

variable (b : CShieldedBundle)

/-- `GetShieldedOutputCount`. -/
def getShieldedOutputCount : ℕ :=
  match b.v2Bundle with
  | some v2 => getV2ShieldedOutputCount v2.payload
  | none => b.shieldedOutputs.length

/-- `CollectShieldedOutputCommitments`. -/
def collectShieldedOutputCommitments : List Uint256 :=
  match b.v2Bundle with
  | some v2 =>
      match v2.payload with
      | .send p => p.outputs.map (·.noteCommitment)
      | .spendPathRecovery p => p.outputs.map (·.noteCommitment)
      | .ingressBatch p => p.reserveOutputs.map (·.noteCommitment)
      | .egressBatch p => p.outputs.map (·.noteCommitment)
      | .rebalance p => p.reserveOutputs.map (·.noteCommitment)
      | .recoveryExit _ | .lifecycle _ | .settlementAnchor _ | .generic => []
  | none => b.shieldedOutputs.map (·.noteCommitment)

/-- `CollectShieldedOutputAccountLeafCommitments`. -/
def collectShieldedOutputAccountLeafCommitments : Option (List Uint256) :=
  match b.v2Bundle with
  | some v2 =>
      match v2.payload with
      | .send p => p.outputs.mapM fun output =>
          (buildDirectSendAccountLeaf A output).bind (leafCommitmentItem A)
      | .spendPathRecovery p => p.outputs.mapM fun output =>
          (buildDirectSendAccountLeaf A output).bind (leafCommitmentItem A)
      | .lifecycle _ => some []
      | .ingressBatch p => p.reserveOutputs.mapM fun output =>
          (buildIngressAccountLeaf A p.settlementBindingDigest useNoncedBridgeTag output).bind
            (leafCommitmentItem A)
      | .egressBatch p => p.outputs.mapM fun output =>
          (buildEgressAccountLeaf A p.settlementBindingDigest p.outputBindingDigest
            useNoncedBridgeTag output).bind (leafCommitmentItem A)
      | .rebalance p => p.reserveOutputs.mapM fun output =>
          (buildRebalanceAccountLeaf A p.settlementBindingDigest useNoncedBridgeTag output).bind
            (leafCommitmentItem A)
      | .recoveryExit _ | .settlementAnchor _ | .generic => some []
  | none => some []

/-- `CollectShieldedOutputAccountLeaves`. -/
def collectShieldedOutputAccountLeaves : Option (List ShieldedAccountLeaf) :=
  match b.v2Bundle with
  | some v2 =>
      match v2.payload with
      | .send p => p.outputs.mapM (buildDirectSendAccountLeaf A)
      | .spendPathRecovery p => p.outputs.mapM (buildDirectSendAccountLeaf A)
      | .lifecycle _ => some []
      | .ingressBatch p =>
          p.reserveOutputs.mapM
            (buildIngressAccountLeaf A p.settlementBindingDigest useNoncedBridgeTag)
      | .egressBatch p =>
          p.outputs.mapM (buildEgressAccountLeaf A p.settlementBindingDigest p.outputBindingDigest
            useNoncedBridgeTag)
      | .rebalance p =>
          p.reserveOutputs.mapM
            (buildRebalanceAccountLeaf A p.settlementBindingDigest useNoncedBridgeTag)
      | .recoveryExit _ | .settlementAnchor _ | .generic => some []
  | none => some []

/-- `CollectShieldedOutputAccountLeafEntries`. -/
def collectShieldedOutputAccountLeafEntries : Option (List (Uint256 × Uint256)) :=
  match b.v2Bundle with
  | some v2 =>
      match v2.payload with
      | .send p => p.outputs.mapM fun output =>
          (buildDirectSendAccountLeaf A output).bind (leafEntryItem A output)
      | .spendPathRecovery p => p.outputs.mapM fun output =>
          (buildDirectSendAccountLeaf A output).bind (leafEntryItem A output)
      | .lifecycle _ => some []
      | .ingressBatch p => p.reserveOutputs.mapM fun output =>
          (buildIngressAccountLeaf A p.settlementBindingDigest useNoncedBridgeTag output).bind
            (leafEntryItem A output)
      | .egressBatch p => p.outputs.mapM fun output =>
          (buildEgressAccountLeaf A p.settlementBindingDigest p.outputBindingDigest
            useNoncedBridgeTag output).bind (leafEntryItem A output)
      | .rebalance p => p.reserveOutputs.mapM fun output =>
          (buildRebalanceAccountLeaf A p.settlementBindingDigest useNoncedBridgeTag output).bind
            (leafEntryItem A output)
      -- the one branch that the other collectors do not have
      | .generic => none
      | .recoveryExit _ | .settlementAnchor _ => some []
  | none => some []

/-! ### One traversal -/

theorem getShieldedOutputCount_eq : getShieldedOutputCount b = b.shieldedOutputCount := by
  rw [getShieldedOutputCount, CShieldedBundle.shieldedOutputCount]
  cases b.v2Bundle with
  | none => rfl
  | some v2 =>
    dsimp only
    cases v2.payload <;> rfl

theorem collectShieldedOutputCommitments_eq :
    collectShieldedOutputCommitments b = Shielded.collectShieldedOutputCommitments b := by
  rw [collectShieldedOutputCommitments, Shielded.collectShieldedOutputCommitments]
  cases b.v2Bundle with
  | none => rfl
  | some v2 =>
    dsimp only
    cases v2.payload <;> rfl

theorem collectShieldedOutputAccountLeafCommitments_eq :
    collectShieldedOutputAccountLeafCommitments A useNoncedBridgeTag b =
      Shielded.collectShieldedOutputAccountLeafCommitments A useNoncedBridgeTag b := by
  rw [collectShieldedOutputAccountLeafCommitments,
    Shielded.collectShieldedOutputAccountLeafCommitments, collectLeaves, CShieldedBundle.payload]
  cases b.v2Bundle with
  | none => rfl
  | some v2 =>
    rw [map_some]
    dsimp only
    cases v2.payload <;> rfl

theorem collectShieldedOutputAccountLeaves_eq :
    collectShieldedOutputAccountLeaves A useNoncedBridgeTag b =
      Shielded.collectShieldedOutputAccountLeaves A useNoncedBridgeTag b := by
  rw [collectShieldedOutputAccountLeaves, Shielded.collectShieldedOutputAccountLeaves,
    collectLeaves, CShieldedBundle.payload]
  cases b.v2Bundle with
  | none => rfl
  | some v2 =>
    rw [map_some]
    simp only [bind_fun_some]
    cases v2.payload <;> rfl

theorem collectShieldedOutputAccountLeafEntries_eq :
    collectShieldedOutputAccountLeafEntries A useNoncedBridgeTag b =
      Shielded.collectShieldedOutputAccountLeafEntries A useNoncedBridgeTag b := by
  rw [collectShieldedOutputAccountLeafEntries, Shielded.collectShieldedOutputAccountLeafEntries,
    collectLeaves, CShieldedBundle.payload]
  cases b.v2Bundle with
  | none => rfl
  | some v2 =>
    rw [map_some]
    dsimp only
    cases v2.payload <;> rfl

end Switch

/-! ## What the structural checks say about outputs -/

section Outputs

variable (A : AccountHash) (validKey : List UInt8 → Bool)

/-- `OutputHasCompactSmileKeyData`. -/
def OutputDescription.hasCompactSmileKeyData (output : OutputDescription) : Bool :=
  output.smilePublicKey.any validKey

/-- `OutputBindsCanonicalSmileAccount`. -/
def OutputDescription.bindsCanonicalSmileAccount (output : OutputDescription) : Bool :=
  output.smileAccount.any fun account =>
    A.isValidAccount account && A.compactPublicAccountHash account == output.noteCommitment

/-- `OutputDescription::IsValid`, the encodings apart. -/
def OutputDescription.isValid (output : OutputDescription) : Bool :=
  decide (¬output.noteCommitment.IsNull ∧ ¬output.valueCommitment.IsNull) &&
  (output.smileAccount.any (fun account =>
      A.isValidAccount account &&
      output.smilePublicKey.all (· == account.publicKey) &&
      A.compactPublicAccountHash account == output.noteCommitment) ||
    output.hasCompactSmileKeyData validKey)

/-- What every case of `TransactionBundle::IsValid` with outputs asks of them: `AllValid` and
`OutputsBindCanonicalSmileAccounts`. -/
def TransactionBundle.outputsValid (v2 : TransactionBundle) : Bool :=
  v2.payload.outputs.all fun output =>
    output.isValid A validKey && output.bindsCanonicalSmileAccount A

variable {A} {validKey} {wellFormed : TransactionBundle → Bool} {b : CShieldedBundle}

theorem checkStructure_outputs {payload : FamilyPayload}
    (h : b.checkStructure (fun v2 => v2.outputsValid A validKey && wellFormed v2) = true)
    (hpayload : b.payload = some payload) :
    payload ≠ .generic ∧ ∀ output ∈ payload.outputs, ¬output.noteCommitment.IsNull := by
  rw [CShieldedBundle.payload, map_eq_some_iff] at hpayload
  obtain ⟨v2, hv2, rfl⟩ := hpayload
  rw [CShieldedBundle.checkStructure, hv2, Bool.and_eq_true] at h
  have hvalid : v2.isValid (fun v2 => v2.outputsValid A validKey && wellFormed v2) = true :=
    (Bool.and_eq_true _ _ ▸ h.2 :).2
  rw [TransactionBundle.isValid, Bool.and_eq_true, Bool.and_eq_true] at hvalid
  obtain ⟨⟨houtputs, -⟩, hfamily⟩ := hvalid
  constructor
  · intro hgeneric
    rw [hgeneric] at hfamily
    cases hfamily
  · intro output hmem
    have houtput := List.all_eq_true.1 houtputs output hmem
    simp only [OutputDescription.isValid, Bool.and_eq_true, decide_eq_true_eq] at houtput
    exact houtput.1.1.1

end Outputs

/-! ## The collectors agree -/

section Agree

variable {A : AccountHash} {useNonced : Bool} {b : CShieldedBundle}

/-- No leaf of the bundle hashes to the null commitment. -/
def NoNullLeaf (A : AccountHash) (useNonced : Bool) (b : CShieldedBundle) : Prop :=
  ∀ payload ∈ b.payload, ∀ output ∈ payload.outputs,
    ∀ leaf ∈ payload.accountLeaf A useNonced output,
      A.leafHash leaf.noteCommitment leaf.domain leaf.accountPayloadCommitment
        leaf.spendTagCommitment leaf.bridgeTag ≠ 0

variable {payload : FamilyPayload} {output : OutputDescription} {leaf : ShieldedAccountLeaf}
  {leaves : List ShieldedAccountLeaf}

theorem accountLeaf_spec (hnote : ¬output.noteCommitment.IsNull)
    (h : payload.accountLeaf A useNonced output = some leaf) :
    leaf.isValid A = true ∧ leaf.noteCommitment = output.noteCommitment := by
  have hbuild {domain : AccountDomain} {tag : Option Uint256}
      (h : buildOutputAccountLeaf A output domain tag = some leaf) :
      leaf.isValid A = true ∧ leaf.noteCommitment = output.noteCommitment := by
    rw [buildOutputAccountLeaf, bind_eq_some_iff] at h
    obtain ⟨account, -, h⟩ := h
    rw [buildShieldedAccountLeaf] at h
    dsimp only at h
    split_ifs at h with haccount hvalid
    cases h
    exact ⟨hvalid, rfl⟩
  cases payload with
  | send _ | spendPathRecovery _ | ingressBatch _ | egressBatch _ | rebalance _ => exact hbuild h
  | settlementAnchor _ | generic | lifecycle _ | recoveryExit _ => cases h

theorem leaf_items (hnote : ¬output.noteCommitment.IsNull) (hvalid : leaf.isValid A = true)
    (hcarried : leaf.noteCommitment = output.noteCommitment)
    (hhash : A.leafHash leaf.noteCommitment leaf.domain leaf.accountPayloadCommitment
      leaf.spendTagCommitment leaf.bridgeTag ≠ 0) :
    leafCommitmentItem A leaf = some (computeShieldedAccountLeafCommitment A leaf) ∧
      leafEntryItem A output leaf =
        some (leaf.noteCommitment, computeShieldedAccountLeafCommitment A leaf) := by
  have hnull : ¬(computeShieldedAccountLeafCommitment A leaf).IsNull := by
    rw [computeShieldedAccountLeafCommitment, if_pos hvalid]
    exact hhash
  rw [leafCommitmentItem, leafEntryItem, hcarried]
  exact ⟨if_neg hnull, if_neg (not_or.2 ⟨hnote, hnull⟩)⟩

theorem collectors_of_leaves (hpayload : b.payload = some payload) (hgeneric : payload ≠ .generic)
    (hnotes : ∀ output ∈ payload.outputs, ¬output.noteCommitment.IsNull)
    (hhash : NoNullLeaf A useNonced b) :
    collectShieldedOutputAccountLeafCommitments A useNonced b =
      (collectShieldedOutputAccountLeaves A useNonced b).map
        (List.map (computeShieldedAccountLeafCommitment A)) ∧
    collectShieldedOutputAccountLeafEntries A useNonced b =
      (collectShieldedOutputAccountLeaves A useNonced b).map
        (List.map fun leaf =>
          (leaf.noteCommitment, computeShieldedAccountLeafCommitment A leaf)) := by
  have hitems : ∀ output ∈ payload.outputs, ∀ leaf,
      payload.accountLeaf A useNonced output = some leaf →
        leafCommitmentItem A leaf = some (computeShieldedAccountLeafCommitment A leaf) ∧
          leafEntryItem A output leaf =
            some (leaf.noteCommitment, computeShieldedAccountLeafCommitment A leaf) := by
    intro output hmem leaf hleaf
    obtain ⟨hvalid, hcarried⟩ := accountLeaf_spec (hnotes output hmem) hleaf
    exact leaf_items (hnotes output hmem) hvalid hcarried
      (hhash payload hpayload output hmem leaf hleaf)
  have hne : b.payload ≠ some .generic := by
    rw [hpayload]
    exact fun h => hgeneric (some.inj h)
  rw [collectShieldedOutputAccountLeafEntries, if_neg hne,
    collectShieldedOutputAccountLeafCommitments, collectShieldedOutputAccountLeaves]
  simp only [collectLeaves, hpayload, bind_fun_some]
  constructor
  · refine mapM_eq_map_mapM fun output hmem => ?_
    cases hleaf : payload.accountLeaf A useNonced output with
    | none => rfl
    | some leaf => exact (hitems output hmem leaf hleaf).1
  · refine mapM_eq_map_mapM fun output hmem => ?_
    cases hleaf : payload.accountLeaf A useNonced output with
    | none => rfl
    | some leaf => exact (hitems output hmem leaf hleaf).2

theorem map_noteCommitment_leaves (hpayload : b.payload = some payload)
    (hnotes : ∀ output ∈ payload.outputs, ¬output.noteCommitment.IsNull)
    (h : collectShieldedOutputAccountLeaves A useNonced b = some leaves) :
    leaves.map (·.noteCommitment) = payload.outputs.map (·.noteCommitment) := by
  simp only [collectShieldedOutputAccountLeaves, collectLeaves, hpayload, bind_fun_some] at h
  rw [mapM_eq_some_iff] at h
  generalize payload.outputs = outputs at h hnotes
  induction h with
  | nil => rfl
  | cons hleaf _ ih =>
    rw [forall_mem_cons] at hnotes
    rw [map_cons, map_cons, (accountLeaf_spec hnotes.1 hleaf).2, ih hnotes.2]

/-- The agreement of the leaf collectors on a bundle, whatever the family: the `i`-th leaf
commitment and the `i`-th entry are those of the `i`-th leaf, and the entry names the `i`-th note
commitment of the bundle. -/
structure LeavesAgree (A : AccountHash) (commitments : List Uint256)
    (leafCommitments : List Uint256) (leaves : List ShieldedAccountLeaf)
    (entries : List (Uint256 × Uint256)) : Prop where
  length_leafCommitments : leafCommitments.length = leaves.length
  length_entries : entries.length = leaves.length
  leafCommitment : ∀ (i : ℕ) leaf, leaves[i]? = some leaf →
    leafCommitments[i]? = some (computeShieldedAccountLeafCommitment A leaf)
  entry : ∀ (i : ℕ) leaf, leaves[i]? = some leaf →
    entries[i]? = some (leaf.noteCommitment, computeShieldedAccountLeafCommitment A leaf)
  note : ∀ (i : ℕ) leaf, leaves[i]? = some leaf → commitments[i]? = some leaf.noteCommitment

theorem leavesAgree_nil (commitments : List Uint256) : LeavesAgree A commitments [] [] [] := by
  constructor <;> simp

theorem leavesAgree_map {commitments : List Uint256}
    (h : leaves.map (·.noteCommitment) = commitments) :
    LeavesAgree A commitments (leaves.map (computeShieldedAccountLeafCommitment A)) leaves
      (leaves.map fun leaf =>
        (leaf.noteCommitment, computeShieldedAccountLeafCommitment A leaf)) := by
  subst h
  constructor <;> simp +contextual

end Agree

/-- Hashes that tell accounts apart by the length of their key. -/
def keyLengthHash : AccountHash where
  isValidAccount _ := true
  compactPublicAccountHash account := BitVec.ofNat 256 (account.publicKey.length + 1)
  accountPayloadCommitment _ := 1
  spendTagCommitment _ _ := 1
  bridgeTagHash _ _ _ := 1
  leafHash noteCommitment _ _ _ _ := noteCommitment
  entryHash _ leafCommitment _ _ := leafCommitment

/-- An egress batch with two outputs. -/
def twoOutputBundle : CShieldedBundle where
  v2Bundle := some
    { payload := .egressBatch
        { settlementAnchor := 1, outputBindingDigest := 1, settlementBindingDigest := 1
          outputs :=
            [⟨1, 1, some ⟨[], []⟩, [], .user, none⟩, ⟨2, 1, some ⟨[7], []⟩, [], .user, none⟩] } }

end Btx.Shielded
