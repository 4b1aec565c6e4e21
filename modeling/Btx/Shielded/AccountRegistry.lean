/-
# The account registry

`src/shielded/account_registry.cpp` and the three leaf collectors of `src/shielded/bundle.cpp`: the
leaves of a block, the entries of the note-commitment map, and the commitments counted by a
disconnect. They have one shape (`collectLeaves`). The hashes are a parameter, `AccountHash`.
-/

import Btx.Util.Result
import Btx.Shielded.Bundle

namespace Btx.Shielded

open Util List Option

/-- `AccountDomain`. -/
inductive AccountDomain where
  | directSend | ingress | egress | rebalance
  deriving DecidableEq, Repr

/-- `ShieldedAccountLeaf`; the account stands for its public key and coin parts. -/
structure ShieldedAccountLeaf where
  noteCommitment : Uint256
  domain : AccountDomain
  accountPayloadCommitment : Uint256
  spendTagCommitment : Uint256
  account : CompactPublicAccount
  bridgeTag : Option Uint256
  deriving DecidableEq, Repr

/-- The hash functions of the registry. The commitments of an invalid account are null. -/
structure AccountHash where
  /-- `CompactPublicAccount::IsValid` -/
  isValidAccount : CompactPublicAccount → Bool
  /-- `ComputeCompactPublicAccountHash` -/
  compactPublicAccountHash : CompactPublicAccount → Uint256
  /-- `ComputeAccountPayloadCommitment` -/
  accountPayloadCommitment : CompactPublicAccount → Uint256
  /-- `ComputeSpendTagCommitment` -/
  spendTagCommitment : CompactPublicAccount → Uint256 → Uint256
  /-- The bridge tag hashes: domain, digests, and the note commitment if nonced. -/
  bridgeTagHash : AccountDomain → List Uint256 → Option Uint256 → Uint256
  /-- The hash of `ComputeShieldedAccountLeafCommitment`. -/
  leafHash : Uint256 → AccountDomain → Uint256 → Uint256 → Option Uint256 → Uint256
  /-- `ComputeShieldedAccountRegistryEntryCommitment` -/
  entryHash : ℕ → Uint256 → ShieldedAccountLeaf → Bool → Uint256

section Leaves

variable (A : AccountHash)

variable (leaf : ShieldedAccountLeaf)

/-- `ShieldedAccountLeaf::IsValid`. -/
def ShieldedAccountLeaf.isValid : Bool :=
  decide (¬leaf.noteCommitment.IsNull ∧ ¬leaf.accountPayloadCommitment.IsNull ∧
    ¬leaf.spendTagCommitment.IsNull ∧
    A.accountPayloadCommitment leaf.account = leaf.accountPayloadCommitment ∧
    A.spendTagCommitment leaf.account leaf.noteCommitment = leaf.spendTagCommitment) &&
  A.isValidAccount leaf.account &&
  match leaf.domain, leaf.bridgeTag with
  | .directSend, tag => tag.isNone
  | _, none => false
  | _, some tag => decide ¬tag.IsNull

/-- `ComputeShieldedAccountLeafCommitment`. -/
def computeShieldedAccountLeafCommitment : Uint256 :=
  if leaf.isValid A then
    A.leafHash leaf.noteCommitment leaf.domain leaf.accountPayloadCommitment
      leaf.spendTagCommitment leaf.bridgeTag
  else 0

/-- `BuildShieldedAccountLeaf`. -/
def buildShieldedAccountLeaf (account : CompactPublicAccount) (noteCommitment : Uint256)
    (domain : AccountDomain) (bridgeTag : Option Uint256) : Option ShieldedAccountLeaf :=
  if !A.isValidAccount account then none
  else
    let effective :=
      if noteCommitment.IsNull then A.compactPublicAccountHash account else noteCommitment
    let leaf : ShieldedAccountLeaf :=
      { noteCommitment := effective
        domain := domain
        accountPayloadCommitment := A.accountPayloadCommitment account
        spendTagCommitment := A.spendTagCommitment account effective
        account := account
        bridgeTag := bridgeTag }
    if leaf.isValid A then some leaf else none

/-- `ComputeIngressBridgeTag`, `ComputeEgressBridgeTag` and `ComputeRebalanceBridgeTag` in both
forms: null as soon as one input is. -/
def computeBridgeTag (domain : AccountDomain) (digests : List Uint256)
    (nonce : Option Uint256) : Uint256 :=
  if (∃ d ∈ digests, d.IsNull) ∨ nonce = some 0 then 0
  else A.bridgeTagHash domain digests nonce

variable (output : OutputDescription)

/-- The body the four output leaf builders share: an output without an account has no leaf. -/
def buildOutputAccountLeaf (domain : AccountDomain)
    (bridgeTag : Option Uint256) : Option ShieldedAccountLeaf :=
  output.smileAccount.bind fun account =>
    buildShieldedAccountLeaf A account output.noteCommitment domain bridgeTag

/-- The tag of an output, bound to its note commitment from the bridge tag upgrade on. -/
def outputBridgeTag (domain : AccountDomain) (digests : List Uint256) (useNoncedBridgeTag : Bool)
    (output : OutputDescription) : Uint256 :=
  computeBridgeTag A domain digests
    (if useNoncedBridgeTag then some output.noteCommitment else none)

/-- `BuildDirectSendAccountLeaf`. -/
def buildDirectSendAccountLeaf : Option ShieldedAccountLeaf :=
  buildOutputAccountLeaf A output .directSend none

/-- `BuildIngressAccountLeaf`. -/
def buildIngressAccountLeaf (settlementBindingDigest : Uint256) (useNoncedBridgeTag : Bool)
    (output : OutputDescription) : Option ShieldedAccountLeaf :=
  buildOutputAccountLeaf A output .ingress
    (outputBridgeTag A .ingress [settlementBindingDigest] useNoncedBridgeTag output)

/-- `BuildEgressAccountLeaf`. -/
def buildEgressAccountLeaf (settlementBindingDigest outputBindingDigest : Uint256)
    (useNoncedBridgeTag : Bool) (output : OutputDescription) : Option ShieldedAccountLeaf :=
  buildOutputAccountLeaf A output .egress
    (outputBridgeTag A .egress [settlementBindingDigest, outputBindingDigest]
      useNoncedBridgeTag output)

/-- `BuildRebalanceAccountLeaf`. -/
def buildRebalanceAccountLeaf (settlementBindingDigest : Uint256) (useNoncedBridgeTag : Bool)
    (output : OutputDescription) : Option ShieldedAccountLeaf :=
  buildOutputAccountLeaf A output .rebalance
    (outputBridgeTag A .rebalance [settlementBindingDigest] useNoncedBridgeTag output)

variable (useNoncedBridgeTag : Bool)

/-- The leaf builder the collectors use for the outputs of a payload. -/
def FamilyPayload.accountLeaf : FamilyPayload → OutputDescription → Option ShieldedAccountLeaf
  | .send _ => buildDirectSendAccountLeaf A
  | .spendPathRecovery _ => buildDirectSendAccountLeaf A
  | .ingressBatch p => buildIngressAccountLeaf A p.settlementBindingDigest useNoncedBridgeTag
  | .egressBatch p =>
      buildEgressAccountLeaf A p.settlementBindingDigest p.outputBindingDigest useNoncedBridgeTag
  | .rebalance p => buildRebalanceAccountLeaf A p.settlementBindingDigest useNoncedBridgeTag
  | .settlementAnchor _ | .generic | .lifecycle _ | .recoveryExit _ => fun _ => none

/-! ### The collectors -/

/-- The loop of the collectors: every output of the bundle must yield an item. -/
def collectLeaves {α : Type} (useNoncedBridgeTag : Bool)
    (item : OutputDescription → ShieldedAccountLeaf → Option α) (b : CShieldedBundle) :
    Option (List α) :=
  match b.payload with
  | none => some []
  | some payload =>
      payload.outputs.mapM fun output =>
        (payload.accountLeaf A useNoncedBridgeTag output).bind (item output)

/-- `CollectShieldedOutputAccountLeaves`. -/
def collectShieldedOutputAccountLeaves (b : CShieldedBundle) : Option (List ShieldedAccountLeaf) :=
  collectLeaves A useNoncedBridgeTag (fun _ leaf => some leaf) b

/-- `append_leaf_commitment`. -/
def leafCommitmentItem : Option Uint256 :=
  let commitment := computeShieldedAccountLeafCommitment A leaf
  if commitment.IsNull then none else some commitment

/-- `append_leaf_entry`. -/
def leafEntryItem (leaf : ShieldedAccountLeaf) : Option (Uint256 × Uint256) :=
  let commitment := computeShieldedAccountLeafCommitment A leaf
  if output.noteCommitment.IsNull ∨ commitment.IsNull then none
  else some (output.noteCommitment, commitment)

/-- `CollectShieldedOutputAccountLeafCommitments`. -/
def collectShieldedOutputAccountLeafCommitments (b : CShieldedBundle) : Option (List Uint256) :=
  collectLeaves A useNoncedBridgeTag (fun _ => leafCommitmentItem A) b

/-- `CollectShieldedOutputAccountLeafEntries`, which alone refuses a generic payload. -/
def collectShieldedOutputAccountLeafEntries (b : CShieldedBundle) :
    Option (List (Uint256 × Uint256)) :=
  if b.payload = some .generic then none
  else collectLeaves A useNoncedBridgeTag (leafEntryItem A) b

/-! ### The collectors agree -/

variable {useNonced : Bool} {output : OutputDescription} {leaf : ShieldedAccountLeaf}
  {b : CShieldedBundle} {entries : List (Uint256 × Uint256)}

theorem accountLeaf_smileAccount {payload : FamilyPayload}
    (h : payload.accountLeaf A useNonced output = some leaf) : output.smileAccount.isSome := by
  cases hs : output.smileAccount with
  | some _ => rfl
  | none =>
    cases payload <;>
      simp [FamilyPayload.accountLeaf, buildDirectSendAccountLeaf, buildIngressAccountLeaf,
        buildEgressAccountLeaf, buildRebalanceAccountLeaf, buildOutputAccountLeaf, hs] at h

theorem leafEntryItem_eq_some
    {entry : Uint256 × Uint256} (h : leafEntryItem A output leaf = some entry) :
    entry.1 = output.noteCommitment ∧ leafCommitmentItem A leaf = some entry.2 := by
  unfold leafEntryItem at h
  dsimp only at h
  split_ifs at h with hnull
  cases h
  exact ⟨rfl, if_neg (not_or.1 hnull).2⟩

section

variable (h : collectShieldedOutputAccountLeafEntries A useNonced b = some entries)

include h

theorem collectLeaves_of_entries :
    collectLeaves A useNonced (leafEntryItem A) b = some entries := by
  unfold collectShieldedOutputAccountLeafEntries at h
  split_ifs at h
  exact h

theorem collectShieldedOutputAccountLeafCommitments_of_entries :
    collectShieldedOutputAccountLeafCommitments A useNonced b =
      some (entries.map Prod.snd) := by
  replace h := collectLeaves_of_entries A h
  unfold collectShieldedOutputAccountLeafCommitments
  unfold collectLeaves at h ⊢
  cases hp : b.payload with
  | none =>
    rw [hp] at h
    cases h
    rfl
  | some payload =>
    rw [hp] at h
    refine mapM_eq_some_map (fun output entry hentry => ?_) h
    obtain ⟨leaf, hleaf, hitem⟩ := bind_eq_some_iff.1 hentry
    rw [hleaf]
    exact (leafEntryItem_eq_some A hitem).2

theorem collectShieldedOutputSmileAccounts_keys :
    (collectShieldedOutputSmileAccounts b).map Prod.fst = entries.map Prod.fst := by
  replace h := collectLeaves_of_entries A h
  unfold collectLeaves CShieldedBundle.payload at h
  unfold collectShieldedOutputSmileAccounts
  cases hb : b.v2Bundle with
  | none =>
    simp only [hb, map_none] at h
    cases h
    rfl
  | some v2 =>
    simp only [hb, map_some] at h
    dsimp only
    generalize v2.payload.outputs = outputs at h ⊢
    induction outputs generalizing entries with
    | nil =>
      obtain rfl : [] = entries := by simpa using h
      rfl
    | cons output outputs ih =>
      simp only [mapM_cons, Option.pure_def, bind_eq_bind, bind_eq_some_iff] at h
      obtain ⟨entry, ⟨leaf, hleaf, hitem⟩, rest, hrest, hr⟩ := h
      cases hr
      obtain ⟨account, hacc⟩ := isSome_iff_exists.1 (accountLeaf_smileAccount A hleaf)
      simp [hacc, ih hrest, (leafEntryItem_eq_some A hitem).1]

end

theorem collectLeaves_length {α β : Type} {f : OutputDescription → ShieldedAccountLeaf → Option α}
    {g : OutputDescription → ShieldedAccountLeaf → Option β} {r : List α} {r' : List β}
    (hf : collectLeaves A useNonced f b = some r) (hg : collectLeaves A useNonced g b = some r') :
    r.length = r'.length := by
  unfold collectLeaves at hf hg
  cases hp : b.payload with
  | none =>
    rw [hp] at hf hg
    rw [← some.inj hf, ← some.inj hg]
    rfl
  | some payload =>
    rw [hp] at hf hg
    exact (mapM_eq_some_length hf).trans (mapM_eq_some_length hg).symm

end Leaves

/-! ### The registry state -/

/-- `MAX_REGISTRY_ENTRIES`. -/
def maxRegistryEntries : ℕ := 1000000

/-- `StoredEntry`; the payload is the leaf it serialises. -/
structure StoredEntry where
  leafIndex : ℕ
  accountLeafCommitment : Uint256
  entryCommitment : Uint256
  spent : Bool
  payload : ShieldedAccountLeaf
  deriving DecidableEq, Repr

/-- `ShieldedAccountRegistryState`. -/
structure ShieldedAccountRegistryState where
  entries : List StoredEntry
  deriving DecidableEq, Repr

namespace ShieldedAccountRegistryState

def empty : ShieldedAccountRegistryState := ⟨[]⟩

variable (A : AccountHash)

/-- The entry of the loop of `AppendInternal` for a leaf at an index. -/
def entryOf (leafIndex : ℕ) (leaf : ShieldedAccountLeaf) : StoredEntry :=
  let commitment := computeShieldedAccountLeafCommitment A leaf
  { leafIndex := leafIndex
    accountLeafCommitment := commitment
    entryCommitment := A.entryHash leafIndex commitment leaf false
    spent := false
    payload := leaf }

/-- The loop of `AppendInternal`: a leaf commitment that is null or already in the registry or
the batch stops it. -/
def appendLoop : List StoredEntry → List ShieldedAccountLeaf → Option (List StoredEntry)
  | entries, [] => some entries
  | entries, leaf :: leaves =>
      let entry := entryOf A entries.length leaf
      if entry.accountLeafCommitment ∈ entries.map (·.accountLeafCommitment) ∨
          entry.accountLeafCommitment.IsNull then none
      else appendLoop (entries ++ [entry]) leaves

/-- `AppendPrepared`: `none` where the source returns false. -/
def appendPrepared (r : ShieldedAccountRegistryState) (leaves : List ShieldedAccountLeaf) :
    Option ShieldedAccountRegistryState :=
  if leaves.isEmpty then some r
  else if maxRegistryEntries < r.entries.length + leaves.length then none
  else if leaves.any (fun leaf => !leaf.isValid A) then none
  else (appendLoop A r.entries leaves).map (⟨·⟩)

/-- `Truncate`. -/
def truncate (r : ShieldedAccountRegistryState) (size : ℕ) : Option ShieldedAccountRegistryState :=
  if r.entries.length < size then none else some ⟨r.entries.take size⟩

variable {A}

variable {leaves : List ShieldedAccountLeaf} {r r' : ShieldedAccountRegistryState}

theorem appendLoop_eq_some {entries entries' : List StoredEntry}
    (h : appendLoop A entries leaves = some entries') :
    ∃ new, entries' = entries ++ new ∧ new.length = leaves.length := by
  induction leaves generalizing entries with
  | nil => exact ⟨[], by simpa using (some.inj h).symm, rfl⟩
  | cons leaf leaves ih =>
    unfold appendLoop at h
    dsimp only at h
    split_ifs at h
    obtain ⟨new, hnew, hlen⟩ := ih h
    exact ⟨entryOf A entries.length leaf :: new, by simpa using hnew, by simp [hlen]⟩

theorem appendPrepared_eq_some (h : r.appendPrepared A leaves = some r') :
    ∃ new, r'.entries = r.entries ++ new ∧ new.length = leaves.length := by
  unfold appendPrepared at h
  split_ifs at h with hempty
  · cases h
    exact ⟨[], by simp, by simp [List.isEmpty_iff.1 hempty]⟩
  · obtain ⟨entries, hloop, rfl⟩ := map_eq_some_iff.1 h
    exact appendLoop_eq_some hloop

theorem appendLoop_append (entries : List StoredEntry) (l₁ l₂ : List ShieldedAccountLeaf) :
    appendLoop A entries (l₁ ++ l₂) = (appendLoop A entries l₁).bind (appendLoop A · l₂) := by
  induction l₁ generalizing entries with
  | nil => rfl
  | cons leaf l₁ ih =>
    rw [cons_append, appendLoop, appendLoop]
    split_ifs
    · rfl
    · exact ih _

theorem appendPrepared_eq_some_iff :
    r.appendPrepared A leaves = some r' ↔
      (leaves ≠ [] → r.entries.length + leaves.length ≤ maxRegistryEntries) ∧
        (∀ leaf ∈ leaves, leaf.isValid A = true) ∧
        appendLoop A r.entries leaves = some r'.entries := by
  cases leaves with
  | nil =>
    simp only [appendPrepared, appendLoop, isEmpty_nil, if_true, some.injEq]
    constructor
    · rintro rfl
      simp
    · rintro ⟨-, -, h⟩
      cases r
      cases r'
      rw [ShieldedAccountRegistryState.mk.injEq]
      exact h
  | cons leaf leaves =>
    have hvalid : ((leaf :: leaves).any fun leaf => !leaf.isValid A) = true ↔
        ¬∀ l ∈ leaf :: leaves, l.isValid A = true := by
      rw [List.any_eq_true]
      push Not
      simp
    rw [appendPrepared, if_neg (by simp)]
    split_ifs with hsize hany
    · refine iff_of_false not_false fun h => ?_
      exact absurd (h.1 (cons_ne_nil _ _)) (not_le.2 hsize)
    · exact iff_of_false not_false fun h => hvalid.1 hany h.2.1
    · rw [map_eq_some_iff]
      refine ⟨?_, fun h => ⟨r'.entries, h.2.2, rfl⟩⟩
      rintro ⟨entries, hloop, rfl⟩
      exact ⟨fun _ => by omega, not_not.1 fun h => hany (hvalid.2 h), hloop⟩

/-- **A batch can be split.** Leaves that are accepted as one batch are accepted one part after
the other, with the same result. -/
theorem appendPrepared_append
    {l₁ l₂ : List ShieldedAccountLeaf} (h : r.appendPrepared A (l₁ ++ l₂) = some r') :
    ∃ r₁, r.appendPrepared A l₁ = some r₁ ∧ r₁.appendPrepared A l₂ = some r' := by
  obtain ⟨hsize, hvalid, hloop⟩ := appendPrepared_eq_some_iff.1 h
  rw [forall_mem_append] at hvalid
  rw [appendLoop_append, bind_eq_some_iff] at hloop
  obtain ⟨entries, h₁, h₂⟩ := hloop
  obtain ⟨new, rfl, hlen⟩ := appendLoop_eq_some h₁
  rw [length_append] at hsize
  refine ⟨⟨r.entries ++ new⟩, appendPrepared_eq_some_iff.2 ⟨fun hne => ?_, hvalid.1, h₁⟩,
    appendPrepared_eq_some_iff.2 ⟨fun hne => ?_, hvalid.2, h₂⟩⟩
  · have := hsize (by simp [hne])
    omega
  · have := hsize (by simp [hne])
    rw [length_append]
    omega

/-- **Truncating undoes appending**, when as many entries are cut as were appended. -/
theorem truncate_appendPrepared (h : r.appendPrepared A leaves = some r') :
    r'.truncate (r'.entries.length - leaves.length) = some r := by
  obtain ⟨new, hnew, hlen⟩ := appendPrepared_eq_some h
  have hsize : r'.entries.length - leaves.length = r.entries.length := by
    rw [hnew, length_append, hlen, Nat.add_sub_cancel]
  rw [hsize, truncate, if_neg (by simp [hnew]), hnew, take_left]

end ShieldedAccountRegistryState

end Btx.Shielded
