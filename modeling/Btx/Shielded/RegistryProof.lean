/-
# Proofs against the root of the account registry

`Root`, `BuildProof`, `BuildSpendWitness` and the two verifiers of
`src/shielded/account_registry.cpp`, over the tree of `Btx.Util.DuplicateLast`. The soundness half
asks that the hash be injective on the messages of the root and of the proof at hand (`Set.InjOn`).
The index is part of an entry's message, so a proof cannot move an entry to a duplicated position.
-/

import Btx.Util.DuplicateLast
import Btx.Shielded.AccountRegistry

namespace Btx.Shielded

open Util PerfectTree DuplicateLast List Option

/-- `REGISTRY_WIRE_VERSION`. -/
def registryWireVersion : UInt8 := 1

/-- `MAX_REGISTRY_PROOF_SIBLINGS`. -/
def maxRegistryProofSiblings : ℕ := 64

/-- What the registry hashes, by tag. -/
inductive RegistryMessage where
  | entry (leafIndex : ℕ) (accountLeafCommitment : Uint256) (accountLeafPayload : List UInt8)
      (spent : Bool)
  | node (left right : Uint256)
  | empty
  deriving DecidableEq, Repr

/-- The tagged hash of the registry, and the byte format of an account leaf. -/
structure RegistryHash where
  hash : RegistryMessage → Uint256
  /-- `SerializeShieldedAccountLeafPayload` -/
  serialize : ShieldedAccountLeaf → List UInt8
  /-- `DeserializeShieldedAccountLeafPayload` -/
  deserialize : List UInt8 → Option ShieldedAccountLeaf

/-- `HashTaggedPair` under the node tag. -/
def RegistryHash.node (R : RegistryHash) (left right : Uint256) : Uint256 :=
  R.hash (.node left right)

/-- `ShieldedAccountRegistryEntry`. -/
structure ShieldedAccountRegistryEntry where
  version : UInt8 := registryWireVersion
  leafIndex : ℕ
  accountLeafCommitment : Uint256
  accountLeafPayload : List UInt8
  spent : Bool := false
  deriving DecidableEq, Repr

/-- `ShieldedAccountRegistryProof`. -/
structure ShieldedAccountRegistryProof where
  version : UInt8 := registryWireVersion
  entry : ShieldedAccountRegistryEntry
  siblingPath : List Uint256
  deriving DecidableEq, Repr

/-- `ShieldedAccountRegistrySpendWitness`. -/
structure ShieldedAccountRegistrySpendWitness where
  version : UInt8 := registryWireVersion
  leafIndex : ℕ
  accountLeafCommitment : Uint256
  siblingPath : List Uint256
  deriving DecidableEq, Repr

section Verify

variable (A : AccountHash) (R : RegistryHash)

variable (entry : ShieldedAccountRegistryEntry)

/-- `ShieldedAccountRegistryEntry::IsValid`. -/
def ShieldedAccountRegistryEntry.isValid : Bool :=
  entry.version == registryWireVersion && !entry.spent &&
    decide (¬entry.accountLeafCommitment.IsNull) && !entry.accountLeafPayload.isEmpty &&
    match R.deserialize entry.accountLeafPayload with
    | none => false
    | some leaf => computeShieldedAccountLeafCommitment A leaf == entry.accountLeafCommitment

/-- The message of `ComputeShieldedAccountRegistryEntryCommitment`. -/
def ShieldedAccountRegistryEntry.message : RegistryMessage :=
  .entry entry.leafIndex entry.accountLeafCommitment entry.accountLeafPayload entry.spent

/-- `ComputeShieldedAccountRegistryEntryCommitment`. -/
def computeShieldedAccountRegistryEntryCommitment : Uint256 :=
  if entry.isValid A R then R.hash entry.message else 0

/-- The bound on a sibling path that both `IsValid` functions check. -/
def siblingPathValid (siblingPath : List Uint256) : Bool :=
  decide (siblingPath.length ≤ maxRegistryProofSiblings) &&
    siblingPath.all fun sibling => decide ¬sibling.IsNull

/-- `ShieldedAccountRegistryProof::IsValid`. -/
def ShieldedAccountRegistryProof.isValid (proof : ShieldedAccountRegistryProof) : Bool :=
  proof.version == registryWireVersion && proof.entry.isValid A R &&
    siblingPathValid proof.siblingPath

/-- `ShieldedAccountRegistrySpendWitness::IsValid`. -/
def ShieldedAccountRegistrySpendWitness.isValid (witness : ShieldedAccountRegistrySpendWitness) :
    Bool :=
  witness.version == registryWireVersion && decide (¬witness.accountLeafCommitment.IsNull) &&
    siblingPathValid witness.siblingPath

/-- The loop of `ComputeShieldedAccountRegistryPathRoot`. -/
def registryPathLoop : List Uint256 → ℕ → Uint256 → Uint256
  | [], _, hash => hash
  | sibling :: path, nodeIndex, hash =>
      if sibling.IsNull then 0
      else registryPathLoop path (nodeIndex / 2)
        (if nodeIndex % 2 = 0 then R.node hash sibling else R.node sibling hash)

/-- `ComputeShieldedAccountRegistryPathRoot`. -/
def computeShieldedAccountRegistryPathRoot (hash : Uint256) (nodeIndex : ℕ)
    (siblingPath : List Uint256) : Uint256 :=
  if hash.IsNull then 0 else registryPathLoop R siblingPath nodeIndex hash

/-- `VerifyShieldedAccountRegistryProof`. -/
def verifyShieldedAccountRegistryProof (proof : ShieldedAccountRegistryProof)
    (expectedRoot : Uint256) : Bool :=
  proof.isValid A R && decide (¬expectedRoot.IsNull) &&
    computeShieldedAccountRegistryPathRoot R
      (computeShieldedAccountRegistryEntryCommitment A R proof.entry) proof.entry.leafIndex
      proof.siblingPath == expectedRoot

end Verify

/-! ## The registry side -/

/-- A stored entry as it goes over the wire. -/
def StoredEntry.wire (R : RegistryHash) (stored : StoredEntry) : ShieldedAccountRegistryEntry where
  leafIndex := stored.leafIndex
  accountLeafCommitment := stored.accountLeafCommitment
  accountLeafPayload := R.serialize stored.payload
  spent := stored.spent

namespace ShieldedAccountRegistryState

section Build

variable (A : AccountHash) (R : RegistryHash) (r : ShieldedAccountRegistryState)

/-- The lowest level of the tree. -/
def leaves : List Uint256 := r.entries.map (·.entryCommitment)

/-- `Root`, through `ComputeMerkleRoot`. -/
def root : Uint256 := DuplicateLast.root R.node (R.hash .empty) r.leaves

/-- `MaterializeEntry`, with a payload that can be read. -/
def materializeEntry (leafIndex : ℕ) : Option ShieldedAccountRegistryEntry :=
  match r.entries[leafIndex]? with
  | none => none
  | some stored =>
      let entry := stored.wire R
      if !entry.isValid A R then none
      else if computeShieldedAccountRegistryEntryCommitment A R entry ≠ stored.entryCommitment then
        none
      else some entry

/-- `BuildProof`. -/
def buildProof (leafIndex : ℕ) : Option ShieldedAccountRegistryProof :=
  match r.materializeEntry A R leafIndex with
  | none => none
  | some entry =>
      let proof : ShieldedAccountRegistryProof :=
        { entry := entry
          siblingPath := DuplicateLast.siblings R.node r.leaves leafIndex }
      if proof.isValid A R then some proof else none

/-- `BuildSpendWitness`. -/
def buildSpendWitness (leafIndex : ℕ) : Option ShieldedAccountRegistrySpendWitness :=
  match r.entries[leafIndex]? with
  | none => none
  | some entry =>
      if entry.spent ∨ entry.accountLeafCommitment.IsNull ∨ entry.entryCommitment.IsNull then none
      else
        let witness : ShieldedAccountRegistrySpendWitness :=
          { leafIndex := leafIndex
            accountLeafCommitment := entry.accountLeafCommitment
            siblingPath := DuplicateLast.siblings R.node r.leaves leafIndex }
        if witness.isValid then some witness else none

/-- `VerifyShieldedAccountRegistrySpendWitness`. -/
def verifySpendWitness (witness : ShieldedAccountRegistrySpendWitness) (expectedRoot : Uint256) :
    Bool :=
  witness.isValid && decide (¬expectedRoot.IsNull) &&
    match r.entries[witness.leafIndex]? with
    | none => false
    | some entry =>
        !entry.spent && decide (¬entry.entryCommitment.IsNull) &&
          entry.accountLeafCommitment == witness.accountLeafCommitment &&
          computeShieldedAccountRegistryPathRoot R entry.entryCommitment witness.leafIndex
            witness.siblingPath == expectedRoot

/-- Every entry stands at its index and carries the hash of its wire form. -/
structure WellFormed : Prop where
  size_le : r.entries.length ≤ maxRegistryEntries
  leafIndex : ∀ (i : ℕ) (stored : StoredEntry), r.entries[i]? = some stored →
    stored.leafIndex = i
  wire_valid : ∀ stored ∈ r.entries, (stored.wire R).isValid A R = true
  entryCommitment : ∀ stored ∈ r.entries,
    stored.entryCommitment = R.hash (stored.wire R).message

/-- The messages that `Root` hashes. -/
def rootMessages : List RegistryMessage :=
  if r.entries.isEmpty then [.empty]
  else (r.entries.map fun stored => (stored.wire R).message) ++
    (DuplicateLast.treePairs R.node r.leaves).map fun p => .node p.1 p.2

end Build

end ShieldedAccountRegistryState

/-- The messages that the verifier of a proof hashes. -/
def ShieldedAccountRegistryProof.messages (R : RegistryHash)
    (proof : ShieldedAccountRegistryProof) : List RegistryMessage :=
  proof.entry.message ::
    (pathPairs R.node proof.siblingPath proof.entry.leafIndex
      (R.hash proof.entry.message)).map fun p => .node p.1 p.2

/-! ## Completeness -/

section Completeness

variable {A : AccountHash} {R : RegistryHash} {r : ShieldedAccountRegistryState}

variable {path : List Uint256}

theorem registryPathLoop_eq (hpath : ∀ s ∈ path, ¬s.IsNull) (i : ℕ)
    (hash : Uint256) : registryPathLoop R path i hash = foldPath R.node path i hash := by
  induction path generalizing i hash with
  | nil => rfl
  | cons s path ih =>
    rw [registryPathLoop, if_neg (hpath s mem_cons_self), foldPath,
      ih fun s' hs' => hpath s' (mem_cons_of_mem s hs')]
    rcases Nat.mod_two_eq_zero_or_one i with hi | hi <;> simp [hi]

theorem siblingPathValid_iff : siblingPathValid path = true ↔
      path.length ≤ maxRegistryProofSiblings ∧ ∀ s ∈ path, ¬s.IsNull := by
  simp [siblingPathValid]

namespace ShieldedAccountRegistryState

variable {i : ℕ} {stored : StoredEntry}

theorem getElem?_leaves (hi : r.entries[i]? = some stored) :
    r.leaves[i]? = some stored.entryCommitment := by
  rw [leaves, getElem?_map, hi, map_some]

theorem message_mem_rootMessages (hstored : stored ∈ r.entries) :
    (stored.wire R).message ∈ r.rootMessages R := by
  have hne : ¬r.entries.isEmpty = true := by simpa using ne_nil_of_mem hstored
  rw [rootMessages, if_neg hne]
  exact mem_append_left _ (mem_map.2 ⟨stored, hstored, rfl⟩)

theorem node_mem_rootMessages (hne : r.entries ≠ []) {p : Uint256 × Uint256}
    (hp : p ∈ DuplicateLast.treePairs R.node r.leaves) : .node p.1 p.2 ∈ r.rootMessages R := by
  rw [rootMessages, if_neg (by simpa using hne)]
  exact mem_append_right _ (mem_map.2 ⟨p, hp, rfl⟩)

section

variable (hr : r.WellFormed A R)

include hr

theorem WellFormed.node_ne_null
    (hnull : ∀ m ∈ r.rootMessages R, ¬(R.hash m).IsNull) (hne : r.entries ≠ []) {x : Uint256}
    (hx : DuplicateLast.IsNode R.node r.leaves x) : ¬x.IsNull := by
  rcases hx with hleaf | ⟨p, hp, rfl⟩
  · obtain ⟨stored, hstored, rfl⟩ := mem_map.1 hleaf
    rw [hr.entryCommitment stored hstored]
    exact hnull _ (message_mem_rootMessages hstored)
  · exact hnull _ (node_mem_rootMessages hne hp)

theorem WellFormed.pathRoot
    (hnull : ∀ m ∈ r.rootMessages R, ¬(R.hash m).IsNull) (hi : r.entries[i]? = some stored) :
    ¬(r.root R).IsNull ∧ ¬stored.entryCommitment.IsNull ∧
      siblingPathValid (DuplicateLast.siblings R.node r.leaves i) = true ∧
      computeShieldedAccountRegistryPathRoot R stored.entryCommitment i
        (DuplicateLast.siblings R.node r.leaves i) = r.root R := by
  have hne : r.entries ≠ [] := ne_nil_of_mem (mem_of_getElem? hi)
  have hleaf := getElem?_leaves hi
  have hstored : ¬stored.entryCommitment.IsNull :=
    hr.node_ne_null hnull hne (.inl (mem_of_getElem? hleaf))
  have hsiblings : ∀ s ∈ DuplicateLast.siblings R.node r.leaves i, ¬s.IsNull := fun s hs =>
    hr.node_ne_null hnull hne (isNode_of_mem_siblings hs)
  -- a million entries make a tree of twenty levels
  have hlen : (DuplicateLast.siblings R.node r.leaves i).length ≤ 20 := by
    refine length_siblings_le ?_
    rw [leaves, length_map]
    exact hr.size_le.trans (by decide)
  refine ⟨?_, hstored, ?_, ?_⟩
  · refine hr.node_ne_null hnull hne (isNode_root ?_)
    simpa [leaves] using hne
  · exact siblingPathValid_iff.2 ⟨hlen.trans (by decide), hsiblings⟩
  · rw [computeShieldedAccountRegistryPathRoot, if_neg hstored, registryPathLoop_eq hsiblings]
    exact foldPath_siblings hleaf

theorem WellFormed.materializeEntry_eq
    (hi : r.entries[i]? = some stored) : r.materializeEntry A R i = some (stored.wire R) := by
  have hmem : stored ∈ r.entries := mem_of_getElem? hi
  have hvalid := hr.wire_valid stored hmem
  simp [materializeEntry, hi, hvalid, computeShieldedAccountRegistryEntryCommitment,
    hr.entryCommitment stored hmem]

/-- The parts of `IsValid` that the registry's own checks repeat. -/
theorem WellFormed.unspent
    (hmem : stored ∈ r.entries) : stored.spent = false ∧ ¬stored.accountLeafCommitment.IsNull := by
  have hvalid := hr.wire_valid stored hmem
  simp only [ShieldedAccountRegistryEntry.isValid, Bool.and_eq_true, Bool.not_eq_true',
    decide_eq_true_eq] at hvalid
  exact ⟨hvalid.1.1.1.2, hvalid.1.1.2⟩

section

variable (hnull : ∀ m ∈ r.rootMessages R, ¬(R.hash m).IsNull) (hi : r.entries[i]? = some stored)

include hnull hi

theorem WellFormed.buildProof_verifies :
    ∃ proof, r.buildProof A R i = some proof ∧ proof.entry = stored.wire R ∧
      verifyShieldedAccountRegistryProof A R proof (r.root R) = true := by
  have hmem : stored ∈ r.entries := mem_of_getElem? hi
  have hvalid := hr.wire_valid stored hmem
  obtain ⟨hroot, -, hpath, hfold⟩ := hr.pathRoot hnull hi
  have hindex : (stored.wire R).leafIndex = i := hr.leafIndex i stored hi
  have hcommitment : computeShieldedAccountRegistryEntryCommitment A R (stored.wire R) =
      stored.entryCommitment := by
    rw [computeShieldedAccountRegistryEntryCommitment, if_pos hvalid,
      hr.entryCommitment stored hmem]
  refine ⟨{ entry := stored.wire R, siblingPath := DuplicateLast.siblings R.node r.leaves i },
    ?_, rfl, ?_⟩
  · simp [buildProof, hr.materializeEntry_eq hi, ShieldedAccountRegistryProof.isValid, hvalid,
      hpath]
  · simp [verifyShieldedAccountRegistryProof, ShieldedAccountRegistryProof.isValid, hvalid, hpath,
      hroot, hcommitment, hindex, hfold]

theorem WellFormed.buildSpendWitness_verifies :
    ∃ witness, r.buildSpendWitness R i = some witness ∧
      r.verifySpendWitness R witness (r.root R) = true := by
  obtain ⟨hspent, hcommitment⟩ := hr.unspent (mem_of_getElem? hi)
  obtain ⟨hroot, hentry, hpath, hfold⟩ := hr.pathRoot hnull hi
  refine ⟨{ leafIndex := i, accountLeafCommitment := stored.accountLeafCommitment,
            siblingPath := DuplicateLast.siblings R.node r.leaves i }, ?_, ?_⟩
  · simp [buildSpendWitness, hi, hspent, hcommitment, hentry,
      ShieldedAccountRegistrySpendWitness.isValid, hpath]
  · simp [verifySpendWitness, ShieldedAccountRegistrySpendWitness.isValid, hcommitment, hpath,
      hroot, hi, hspent, hentry, hfold]

end

end

end ShieldedAccountRegistryState

end Completeness

/-! ## Soundness -/

section Soundness

variable {A : AccountHash} {R : RegistryHash} {r : ShieldedAccountRegistryState}
  {proof : ShieldedAccountRegistryProof}

theorem foldPath_of_verify {expectedRoot : Uint256}
    (h : verifyShieldedAccountRegistryProof A R proof expectedRoot = true) :
    proof.entry.isValid A R = true ∧
      foldPath R.node proof.siblingPath proof.entry.leafIndex (R.hash proof.entry.message) =
        expectedRoot := by
  simp only [verifyShieldedAccountRegistryProof, ShieldedAccountRegistryProof.isValid,
    Bool.and_eq_true, decide_eq_true_eq, beq_iff_eq] at h
  obtain ⟨⟨⟨⟨-, hvalid⟩, hpath⟩, hroot⟩, hfold⟩ := h
  refine ⟨hvalid, ?_⟩
  rw [computeShieldedAccountRegistryEntryCommitment, if_pos hvalid,
    computeShieldedAccountRegistryPathRoot] at hfold
  split_ifs at hfold with hnull
  · exact absurd (hfold ▸ rfl) hroot
  · rwa [registryPathLoop_eq (siblingPathValid_iff.1 hpath).2] at hfold

namespace ShieldedAccountRegistryState

theorem entries_ne_nil_of_verify
    (hinj : Set.InjOn R.hash {m | m ∈ r.rootMessages R ∨ m ∈ proof.messages R})
    (h : verifyShieldedAccountRegistryProof A R proof (r.root R) = true) : r.entries ≠ [] := by
  intro hnil
  have hempty : RegistryMessage.empty ∈ r.rootMessages R := by simp [rootMessages, hnil]
  have hroot : r.root R = R.hash .empty := by
    rw [root, leaves, hnil, map_nil, DuplicateLast.root, if_neg (by simp)]
    rfl
  have hfold := (foldPath_of_verify h).2
  rw [hroot] at hfold
  rcases @DuplicateLast.foldPath_eq_or_mem_pathPairs _ R.node proof.siblingPath
    proof.entry.leafIndex (R.hash proof.entry.message) with heq | ⟨p, hp, heq⟩
  · have hentry : proof.entry.message ∈ proof.messages R := mem_cons_self
    cases hinj (.inr hentry) (.inl hempty) (heq.symm.trans hfold)
  · have hnode : RegistryMessage.node p.1 p.2 ∈ proof.messages R :=
      mem_cons_of_mem _ (mem_map_of_mem hp)
    cases hinj (.inr hnode) (.inl hempty) (heq.trans hfold)

theorem WellFormed.isNode_of_verify (hr : r.WellFormed A R)
    (hinj : Set.InjOn R.hash {m | m ∈ r.rootMessages R ∨ m ∈ proof.messages R})
    (h : verifyShieldedAccountRegistryProof A R proof (r.root R) = true) :
    DuplicateLast.IsNode R.node r.leaves (R.hash proof.entry.message) := by
  have hne := entries_ne_nil_of_verify hinj h
  have hpathMem : ∀ p ∈ pathPairs R.node proof.siblingPath proof.entry.leafIndex
      (R.hash proof.entry.message), RegistryMessage.node p.1 p.2 ∈ proof.messages R :=
    fun p hp => mem_cons_of_mem _ (mem_map.2 ⟨p, hp, rfl⟩)
  have hroot : DuplicateLast.IsNode R.node r.leaves (r.root R) :=
    isNode_root (by simpa [leaves] using hne)
  rw [← (foldPath_of_verify h).2] at hroot
  refine isNode_of_foldPath ?_ ?_ hroot
  · intro p hp q hq heq
    have hp' := hp.imp (node_mem_rootMessages hne) (hpathMem p)
    have hq' := hq.imp (node_mem_rootMessages hne) (hpathMem q)
    obtain ⟨h₁, h₂⟩ := RegistryMessage.node.inj (hinj hp' hq' heq)
    exact Prod.ext h₁ h₂
  · intro p hp hleaf
    obtain ⟨stored, hstored, heq⟩ := mem_map.1 hleaf
    rw [hr.entryCommitment stored hstored] at heq
    cases hinj (.inl (message_mem_rootMessages hstored)) (.inr (hpathMem p hp)) heq

theorem wire_eq_of_message {stored : StoredEntry} {entry : ShieldedAccountRegistryEntry}
    (hvalid : entry.isValid A R = true) (h : (stored.wire R).message = entry.message) :
    stored.wire R = entry := by
  have hversion : entry.version = registryWireVersion := by
    simp only [ShieldedAccountRegistryEntry.isValid, Bool.and_eq_true, beq_iff_eq] at hvalid
    exact hvalid.1.1.1.1
  cases entry with
  | mk version leafIndex commitment payload spent =>
    injection h with h₁ h₂ h₃ h₄
    subst h₁ h₂ h₃ h₄ hversion
    rfl

/-- **A verified proof carries the entry at its index.** -/
theorem WellFormed.materializeEntry_of_verify (hr : r.WellFormed A R)
    (hinj : Set.InjOn R.hash {m | m ∈ r.rootMessages R ∨ m ∈ proof.messages R})
    (h : verifyShieldedAccountRegistryProof A R proof (r.root R) = true) :
    r.materializeEntry A R proof.entry.leafIndex = some proof.entry := by
  have hentry : proof.entry.message ∈ proof.messages R := mem_cons_self
  rcases hr.isNode_of_verify hinj h with hleaf | ⟨p, hp, heq⟩
  · obtain ⟨stored, hstored, heq⟩ := mem_map.1 hleaf
    rw [hr.entryCommitment stored hstored] at heq
    have hwire : stored.wire R = proof.entry :=
      wire_eq_of_message (foldPath_of_verify h).1
        (hinj (.inl (message_mem_rootMessages hstored)) (.inr hentry) heq)
    obtain ⟨i, hi⟩ := mem_iff_getElem?.1 hstored
    have hindex : proof.entry.leafIndex = i := by
      rw [← hwire]
      exact hr.leafIndex i stored hi
    rw [hindex, hr.materializeEntry_eq hi, hwire]
  · -- a combined pair is hashed under the other tag
    have hnode := node_mem_rootMessages (entries_ne_nil_of_verify hinj h) hp
    cases hinj (.inl hnode) (.inr hentry) heq

theorem WellFormed.materializeEntry_of_verifySpendWitness (hr : r.WellFormed A R)
    {witness : ShieldedAccountRegistrySpendWitness}
    (h : r.verifySpendWitness R witness (r.root R) = true) :
    ∃ entry, r.materializeEntry A R witness.leafIndex = some entry ∧
      entry.leafIndex = witness.leafIndex ∧
      entry.accountLeafCommitment = witness.accountLeafCommitment := by
  unfold verifySpendWitness at h
  cases hi : r.entries[witness.leafIndex]? with
  | none => simp [hi] at h
  | some stored =>
    simp only [hi, Bool.and_eq_true, beq_iff_eq] at h
    exact ⟨stored.wire R, hr.materializeEntry_eq hi, hr.leafIndex _ _ hi, h.2.1.2⟩

end ShieldedAccountRegistryState

/-- **Proofs and spend witnesses of the registry.**
* Where no hash is null, the membership proof and the spend witness of an index verify against the
  root.
* A membership proof that verifies carries the entry at the index it claims, if the hash is
  injective on the messages of the root and of the proof.
* A spend witness that verifies names the entry at the index it claims. -/
theorem registry_proofs_correct (hr : r.WellFormed A R) :
    ((∀ m ∈ r.rootMessages R, ¬(R.hash m).IsNull) → ∀ i < r.entries.length,
      (∃ proof, r.buildProof A R i = some proof ∧
        verifyShieldedAccountRegistryProof A R proof (r.root R) = true) ∧
      ∃ witness, r.buildSpendWitness R i = some witness ∧
        r.verifySpendWitness R witness (r.root R) = true) ∧
    (∀ proof, Set.InjOn R.hash {m | m ∈ r.rootMessages R ∨ m ∈ proof.messages R} →
      verifyShieldedAccountRegistryProof A R proof (r.root R) = true →
      r.materializeEntry A R proof.entry.leafIndex = some proof.entry) ∧
    ∀ witness, r.verifySpendWitness R witness (r.root R) = true →
      ∃ entry, r.materializeEntry A R witness.leafIndex = some entry ∧
        entry.leafIndex = witness.leafIndex ∧
        entry.accountLeafCommitment = witness.accountLeafCommitment := by
  refine ⟨fun hnull i hi => ?_, fun proof hinj h => hr.materializeEntry_of_verify hinj h,
    fun witness h => hr.materializeEntry_of_verifySpendWitness h⟩
  have hget : r.entries[i]? = some r.entries[i] := getElem?_eq_getElem hi
  obtain ⟨proof, hbuild, -, hverify⟩ := hr.buildProof_verifies hnull hget
  exact ⟨⟨proof, hbuild, hverify⟩, hr.buildSpendWitness_verifies hnull hget⟩

end Soundness

/-- Hashes with a readable value for each message of a small registry. -/
def toyAccounts : AccountHash where
  isValidAccount _ := true
  compactPublicAccountHash _ := 1
  accountPayloadCommitment _ := 1
  spendTagCommitment _ _ := 1
  bridgeTagHash _ _ _ := 1
  leafHash noteCommitment _ _ _ _ := noteCommitment
  entryHash leafIndex _ _ _ := 100 + BitVec.ofNat 256 leafIndex

/-- The account leaf of a direct send to a fixed account. -/
def toyLeaf (noteCommitment : Uint256) : ShieldedAccountLeaf :=
  ⟨noteCommitment, .directSend, 1, 1, ⟨[], []⟩, none⟩

def toyRegistryHash : RegistryHash where
  hash
    | .entry leafIndex _ _ _ => 100 + BitVec.ofNat 256 leafIndex
    | .node left right => left * 1000000 + right
    | .empty => 1
  serialize leaf := [UInt8.ofNat leaf.noteCommitment.toNat]
  deserialize
    | [byte] => some (toyLeaf (BitVec.ofNat 256 byte.toNat))
    | _ => none

/-- Three entries, so that the lowest level is odd. -/
def toyRegistry : ShieldedAccountRegistryState :=
  ⟨[toyLeaf 7, toyLeaf 8, toyLeaf 9].mapIdx (ShieldedAccountRegistryState.entryOf toyAccounts)⟩

theorem toyRegistry_wellFormed : toyRegistry.WellFormed toyAccounts toyRegistryHash := by
  refine ⟨by decide, fun i stored hi => ?_, by decide, by decide⟩
  rcases i with _ | _ | _ | i
  on_goal 4 => cases hi
  all_goals exact congrArg StoredEntry.leafIndex (some.inj hi.symm)

/-- The proof for the last entry: its own hash, once more, and the node on the left. -/
def toyProof : ShieldedAccountRegistryProof where
  entry := ⟨1, 2, 9, [9], false⟩
  siblingPath := [102, 100000101]

/-- The last of three entries: proof and spend witness are built and verify, and `toyProof`, which
verifies, carries the entry at index 2. -/
theorem toyRegistry_proofs_correct :
    ((∃ proof, toyRegistry.buildProof toyAccounts toyRegistryHash 2 = some proof ∧
        verifyShieldedAccountRegistryProof toyAccounts toyRegistryHash proof
          (toyRegistry.root toyRegistryHash) = true) ∧
      ∃ witness, toyRegistry.buildSpendWitness toyRegistryHash 2 = some witness ∧
        toyRegistry.verifySpendWitness toyRegistryHash witness
          (toyRegistry.root toyRegistryHash) = true) ∧
    toyRegistry.materializeEntry toyAccounts toyRegistryHash 2 = some toyProof.entry := by
  have hinj : ∀ m ∈ toyRegistry.rootMessages toyRegistryHash ++ toyProof.messages toyRegistryHash,
      ∀ m' ∈ toyRegistry.rootMessages toyRegistryHash ++ toyProof.messages toyRegistryHash,
        toyRegistryHash.hash m = toyRegistryHash.hash m' → m = m' := by
    decide +kernel
  refine ⟨(registry_proofs_correct toyRegistry_wellFormed).1 (by decide +kernel) 2 (by decide),
    (registry_proofs_correct toyRegistry_wellFormed).2.1 toyProof ?_ (by decide +kernel)⟩
  intro m hm m' hm' heq
  exact hinj m (mem_append.2 hm) m' (mem_append.2 hm') heq

/-! ## The registries that blocks build -/

/-- What the source says of its byte format and of the hash of an entry: a valid leaf is read back,
and `AppendInternal` hashes the bytes of the leaf. -/
structure RegistryHash.Lawful (A : AccountHash) (R : RegistryHash) : Prop where
  deserialize_nil : R.deserialize [] = none
  deserialize_serialize : ∀ leaf : ShieldedAccountLeaf, leaf.isValid A = true →
    R.deserialize (R.serialize leaf) = some leaf
  entryHash : ∀ leafIndex commitment leaf spent, A.entryHash leafIndex commitment leaf spent =
    R.hash (.entry leafIndex commitment (R.serialize leaf) spent)

namespace ShieldedAccountRegistryState

variable {A : AccountHash} {R : RegistryHash} {r r' : ShieldedAccountRegistryState}

theorem wellFormed_empty : empty.WellFormed A R :=
  ⟨zero_le, by simp [empty], by simp [empty], by simp [empty]⟩

theorem entryOf_wire (hR : R.Lawful A) {i : ℕ} {leaf : ShieldedAccountLeaf}
    (hvalid : leaf.isValid A = true) (hnull : ¬(entryOf A i leaf).accountLeafCommitment.IsNull) :
    ((entryOf A i leaf).wire R).isValid A R = true ∧
      (entryOf A i leaf).entryCommitment = R.hash ((entryOf A i leaf).wire R).message := by
  have hread := hR.deserialize_serialize leaf hvalid
  have hne : R.serialize leaf ≠ [] := by
    intro hnil
    rw [hnil, hR.deserialize_nil] at hread
    cases hread
  refine ⟨?_, hR.entryHash _ _ _ _⟩
  have hcommitment : ¬(computeShieldedAccountLeafCommitment A leaf).IsNull := hnull
  simp [ShieldedAccountRegistryEntry.isValid, StoredEntry.wire, entryOf, hread, hne, hcommitment]

variable {leaves : List ShieldedAccountLeaf}

/-- The loop keeps the registry well formed, leaf by leaf. -/
theorem appendLoop_wellFormed (hR : R.Lawful A) {entries entries' : List StoredEntry}
    (hvalid : ∀ leaf ∈ leaves, leaf.isValid A = true)
    (hsize : entries.length + leaves.length ≤ maxRegistryEntries)
    (hentries : WellFormed A R ⟨entries⟩) (h : appendLoop A entries leaves = some entries') :
    WellFormed A R ⟨entries'⟩ := by
  induction leaves generalizing entries with
  | nil =>
    cases h
    exact hentries
  | cons leaf leaves ih =>
    unfold appendLoop at h
    dsimp only at h
    split_ifs at h with hcheck
    obtain ⟨hwire, hhash⟩ := entryOf_wire hR (hvalid leaf mem_cons_self)
      (not_or.1 hcheck).2
    rw [length_cons] at hsize
    refine ih (fun l hl => hvalid l (mem_cons_of_mem leaf hl)) ?_ ?_ h
    · rw [length_append, length_singleton]
      omega
    · -- one more entry, at the index that is the size
      refine ⟨?_, fun i stored hi => ?_, ?_, ?_⟩
      · rw [length_append, length_singleton]
        omega
      · rw [getElem?_append] at hi
        split_ifs at hi with hlt
        · exact hentries.leafIndex i stored hi
        · obtain ⟨hzero, heq⟩ := List.getElem?_eq_some_iff.1 hi
          rw [length_singleton] at hzero
          have hi' : i = entries.length := by omega
          subst hi'
          simp only [Nat.sub_self, getElem_cons_zero] at heq
          rw [← heq]
          rfl
      · exact forall_mem_append.2 ⟨hentries.wire_valid, by simpa using hwire⟩
      · exact forall_mem_append.2 ⟨hentries.entryCommitment, by simpa using hhash⟩

/-- Appending keeps each entry at its own index. -/
theorem WellFormed.appendPrepared (hR : R.Lawful A)
    (hr : r.WellFormed A R) (h : r.appendPrepared A leaves = some r') : r'.WellFormed A R := by
  unfold ShieldedAccountRegistryState.appendPrepared at h
  split_ifs at h with hempty hsize hinvalid
  · cases h
    exact hr
  · obtain ⟨entries, hloop, rfl⟩ := map_eq_some_iff.1 h
    have hvalid : ∀ leaf ∈ leaves, leaf.isValid A = true := by simpa using hinvalid
    exact appendLoop_wellFormed hR hvalid (not_lt.1 hsize) hr hloop

theorem WellFormed.truncate {size : ℕ} (hr : r.WellFormed A R) (h : r.truncate size = some r') :
    r'.WellFormed A R := by
  unfold ShieldedAccountRegistryState.truncate at h
  split_ifs at h
  cases h
  refine ⟨?_, fun i stored hi => ?_, fun stored hs => ?_, fun stored hs => ?_⟩
  · exact (length_take_le' _ _).trans hr.size_le
  · rw [getElem?_take] at hi
    split_ifs at hi
    exact hr.leafIndex i stored hi
  · exact hr.wire_valid stored (mem_of_mem_take hs)
  · exact hr.entryCommitment stored (mem_of_mem_take hs)

end ShieldedAccountRegistryState

end Btx.Shielded
