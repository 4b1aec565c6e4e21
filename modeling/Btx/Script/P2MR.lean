/-
# The commitment of a P2MR output to its leaf scripts

`src/script/pqm.cpp`: the root of a tree over the tagged hashes of leaf scripts, in which the last
node of an odd level goes up unhashed and the children of a branch are hashed in the order of their
bytes; and the control blocks of a spend (`VerifyP2MRCommitment`), as `MRDescriptor::MakeScripts`
(`src/script/descriptor.cpp`) builds them.
-/

import Btx.Script.SignatureHash
import Btx.Util.PromotedTree

namespace Btx.Script

open Util List Option

def p2mrLeafVersion : UInt8 := 0xc2
def p2mrLeafMask : UInt8 := 0xfe
def p2mrProgramSize : ℕ := 32
def p2mrControlBaseSize : ℕ := 1
def p2mrControlNodeSize : ℕ := 32
def p2mrControlMaxSize : ℕ := 1 + 128 * 32

/-- The tags of P2MR hashes. -/
inductive P2MRTag where
  | leaf | branch
  deriving DecidableEq, Repr

/-- `"P2MRLeaf"` and `"P2MRBranch"`. -/
def P2MRTag.bytes : P2MRTag → List UInt8
  | .leaf => [80, 50, 77, 82, 76, 101, 97, 102]
  | .branch => [80, 50, 77, 82, 66, 114, 97, 110, 99, 104]

/-- What the leaf hash is taken of. -/
def p2mrLeafMessage (version : UInt8) (script : List UInt8) : List UInt8 :=
  version :: Writer.counted script

/-- What the branch hash is taken of: the children, the smaller one first. -/
def p2mrBranchMessage (left right : Uint256) : List UInt8 :=
  if uint256Bytes left < uint256Bytes right then uint256Bytes left ++ uint256Bytes right
  else uint256Bytes right ++ uint256Bytes left

section Commitment

variable (C : ScriptCrypto)

/-- `HashWriter{TaggedHash(tag)} << message`, and its SHA-256. -/
def p2mrTaggedHash (tag : P2MRTag) (message : List UInt8) : Uint256 :=
  C.sha256 (tapSighashMidstate C tag.bytes ++ message)

/-- `ComputeP2MRLeafHash`. -/
def computeP2MRLeafHash (version : UInt8) (script : List UInt8) : Uint256 :=
  p2mrTaggedHash C .leaf (p2mrLeafMessage version script)

/-- `ComputeP2MRBranchHash`. -/
def computeP2MRBranchHash (left right : Uint256) : Uint256 :=
  p2mrTaggedHash C .branch (p2mrBranchMessage left right)

/-- `ComputeP2MRMerkleRoot`. -/
def computeP2MRMerkleRoot (leafHashes : List Uint256) : Uint256 :=
  PromotedTree.root (computeP2MRBranchHash C) 0 leafHashes

/-- The number of nodes in a control block. -/
def controlPathLength (control : List UInt8) : ℕ :=
  (control.length - p2mrControlBaseSize) / p2mrControlNodeSize

/-- Node `i` of a control block. -/
def controlNode (control : List UInt8) (i : ℕ) : Uint256 :=
  uint256OfBytes
    ((control.drop (p2mrControlBaseSize + i * p2mrControlNodeSize)).take p2mrControlNodeSize)

/-- The nodes of a control block. -/
def controlNodes (control : List UInt8) : List Uint256 :=
  (List.range (controlPathLength control)).map (controlNode control)

/-- `VerifyP2MRCommitment`. -/
def verifyP2MRCommitment (control program : List UInt8) (leafHash : Uint256) : Bool :=
  if program.length ≠ p2mrProgramSize then false
  else if control.length < p2mrControlBaseSize ∨ p2mrControlMaxSize < control.length then false
  else if (control.length - p2mrControlBaseSize) % p2mrControlNodeSize ≠ 0 then false
  else
    decide (program =
      uint256Bytes ((controlNodes control).foldl (computeP2MRBranchHash C) leafHash))

/-- The commitment part of `VerifyWitnessProgram`: the leaf hash is of the script and the version
in the first byte of the control block. That the version is `P2MR_LEAF_VERSION` and the script not
too long is checked before it. -/
def verifyP2MRScript (control program script : List UInt8) : Bool :=
  control.head?.any fun first =>
    verifyP2MRCommitment C control program (computeP2MRLeafHash C (first &&& p2mrLeafMask) script)

/-! ## A list of leaves and its control blocks -/

/-- A leaf: a script and a version that fits the mask. -/
structure P2MRLeaf where
  version : UInt8
  script : List UInt8
  masked : version &&& p2mrLeafMask = version

/-- The hash of a leaf. -/
def P2MRLeaf.hash (leaf : P2MRLeaf) : Uint256 := computeP2MRLeafHash C leaf.version leaf.script

/-- The witness program of a list of leaves. -/
def p2mrProgram (leaves : List P2MRLeaf) : List UInt8 :=
  uint256Bytes (computeP2MRMerkleRoot C (leaves.map (P2MRLeaf.hash C)))

/-- The control block of the leaf at position `i`: its version and `merkle_paths[i]`. -/
def p2mrControlBlock (leaves : List P2MRLeaf) (leaf : P2MRLeaf) (i : ℕ) : List UInt8 :=
  leaf.version ::
    (PromotedTree.siblings (computeP2MRBranchHash C) (leaves.map (P2MRLeaf.hash C)) i).flatMap
      uint256Bytes

end Commitment

/-! ## Branches -/

theorem p2mrBranchMessage_comm (a b : Uint256) : p2mrBranchMessage a b = p2mrBranchMessage b a := by
  unfold p2mrBranchMessage
  by_cases hab : uint256Bytes a < uint256Bytes b
  · rw [if_pos hab, if_neg (List.lt_asymm hab)]
  · rw [if_neg hab]
    by_cases hba : uint256Bytes b < uint256Bytes a
    · rw [if_pos hba]
    · rw [if_neg hba, List.le_antisymm hba hab]

theorem p2mrBranchMessage_cases (a b : Uint256) :
    p2mrBranchMessage a b = uint256Bytes a ++ uint256Bytes b ∨
      p2mrBranchMessage a b = uint256Bytes b ++ uint256Bytes a := by
  unfold p2mrBranchMessage
  split_ifs
  · exact .inl rfl
  · exact .inr rfl

theorem uint256Bytes_append_inj {a b c d : Uint256}
    (h : uint256Bytes a ++ uint256Bytes b = uint256Bytes c ++ uint256Bytes d) : a = c ∧ b = d := by
  obtain ⟨hac, hbd⟩ := append_inj h (by simp)
  exact ⟨uint256Bytes_injective hac, uint256Bytes_injective hbd⟩

theorem mem_of_p2mrBranchMessage_eq {a b c d : Uint256}
    (h : p2mrBranchMessage a b = p2mrBranchMessage c d) : a = c ∨ a = d := by
  rcases p2mrBranchMessage_cases a b with hab | hab <;>
    rcases p2mrBranchMessage_cases c d with hcd | hcd <;>
    rw [hab, hcd] at h <;> have := uint256Bytes_append_inj h <;> tauto

theorem p2mrLeafMessage_injective {v w : UInt8} {s t : List UInt8}
    (h : p2mrLeafMessage v s = p2mrLeafMessage w t) : v = w ∧ s = t := by
  obtain ⟨hversion, hscript⟩ := cons.inj h
  exact ⟨hversion, Codec.counted_injective hscript⟩

section Results

variable {C : ScriptCrypto}

theorem computeP2MRBranchHash_comm (a b : Uint256) :
    computeP2MRBranchHash C a b = computeP2MRBranchHash C b a := by
  rw [computeP2MRBranchHash, computeP2MRBranchHash, p2mrBranchMessage_comm]

/-! ## Control blocks -/

theorem length_flatMap_uint256Bytes (path : List Uint256) :
    (path.flatMap uint256Bytes).length = 32 * path.length := by
  induction path with
  | nil => rfl
  | cons s path ih =>
    rw [flatMap_cons, length_append, ih, uint256Bytes_length, length_cons]
    ring

theorem controlNodes_cons_flatMap (version : UInt8) (path : List Uint256) :
    controlNodes (version :: path.flatMap uint256Bytes) = path := by
  have hlen : controlPathLength (version :: path.flatMap uint256Bytes) = path.length := by
    rw [controlPathLength, p2mrControlBaseSize, p2mrControlNodeSize, length_cons,
      length_flatMap_uint256Bytes]
    omega
  have hnode (i : ℕ) (path : List Uint256) (hi : i < path.length) :
      controlNode (version :: path.flatMap uint256Bytes) i = path[i] := by
    induction i generalizing path with
    | zero =>
      obtain ⟨s, rest, rfl⟩ := exists_cons_of_length_pos hi
      simp [controlNode, p2mrControlBaseSize, p2mrControlNodeSize]
    | succ i ih =>
      obtain ⟨s, rest, rfl⟩ := exists_cons_of_length_pos (Nat.zero_lt_of_lt hi)
      rw [getElem_cons_succ, ← ih rest (Nat.lt_of_succ_lt_succ hi)]
      unfold controlNode p2mrControlBaseSize p2mrControlNodeSize
      rw [flatMap_cons, show 1 + (i + 1) * 32 = (i * 32 + 32) + 1 by ring,
        show 1 + i * 32 = i * 32 + 1 by ring, drop_succ_cons, drop_succ_cons,
        drop_append, uint256Bytes_length, drop_eq_nil_of_le (by simp),
        nil_append, Nat.add_sub_cancel]
  rw [controlNodes, hlen]
  refine ext_getElem (by simp) fun i hi hi' => ?_
  rw [getElem_map, getElem_range, hnode i path hi']

theorem verifyP2MRCommitment_iff {control program : List UInt8} {leafHash : Uint256} :
    verifyP2MRCommitment C control program leafHash = true ↔
      program.length = 32 ∧ 1 ≤ control.length ∧ control.length ≤ p2mrControlMaxSize ∧
        (control.length - 1) % 32 = 0 ∧
        program =
          uint256Bytes ((controlNodes control).foldl (computeP2MRBranchHash C) leafHash) := by
  unfold verifyP2MRCommitment p2mrProgramSize p2mrControlBaseSize p2mrControlNodeSize
  split_ifs with hprogram hcontrol hpath
  · simp [hprogram]
  · simp only [false_iff, not_and]
    omega
  · simp [hpath]
  · rw [decide_eq_true_eq]
    exact ⟨fun h => ⟨by omega, by omega, by omega, by omega, h⟩, fun h => h.2.2.2.2⟩

/-! ## The commitment -/

/-- **Every leaf opens.** -/
theorem verifyP2MRScript_controlBlock {leaves : List P2MRLeaf} {leaf : P2MRLeaf} {i : ℕ}
    (hdepth : leaves.length ≤ 2 ^ 128) (hleaf : leaves[i]? = some leaf) :
    verifyP2MRScript C (p2mrControlBlock C leaves leaf i) (p2mrProgram C leaves) leaf.script =
      true := by
  rw [verifyP2MRScript, p2mrControlBlock, head?_cons, any_some, leaf.masked,
    verifyP2MRCommitment_iff, controlNodes_cons_flatMap, length_cons, length_flatMap_uint256Bytes]
  have hpath : (PromotedTree.siblings (computeP2MRBranchHash C)
      (leaves.map (P2MRLeaf.hash C)) i).length ≤ 128 :=
    PromotedTree.length_siblings_le (by rwa [length_map])
  have hhash : (leaves.map (P2MRLeaf.hash C))[i]? = some (leaf.hash C) := by
    rw [getElem?_map, hleaf, map_some]
  refine ⟨uint256Bytes_length _, by omega, ?_, by omega, ?_⟩
  · rw [p2mrControlMaxSize]
    omega
  · rw [← P2MRLeaf.hash, PromotedTree.foldl_siblings computeP2MRBranchHash_comm hhash]
    rfl

/-- What the tagged hash is taken of when the root of the leaves is computed, and when a script
with this version and path is checked. -/
def p2mrInputs (C : ScriptCrypto) (leaves : List P2MRLeaf) (version : UInt8) (script : List UInt8)
    (path : List Uint256) : List (P2MRTag × List UInt8) :=
  let pairs :=
    PromotedTree.treePairs (computeP2MRBranchHash C) (leaves.map (P2MRLeaf.hash C)) ++
      PromotedTree.pathPairs (computeP2MRBranchHash C) path (computeP2MRLeafHash C version script)
  (P2MRTag.leaf, p2mrLeafMessage version script) ::
    leaves.map (fun leaf => (P2MRTag.leaf, p2mrLeafMessage leaf.version leaf.script)) ++
    pairs.map fun p => (P2MRTag.branch, p2mrBranchMessage p.1 p.2)

/-- The tagged hash has no collision among them, within a tag or across the tags. -/
def P2MRNoCollision (C : ScriptCrypto) (leaves : List P2MRLeaf) (version : UInt8)
    (script : List UInt8) (path : List Uint256) : Prop :=
  ∀ p ∈ p2mrInputs C leaves version script path, ∀ q ∈ p2mrInputs C leaves version script path,
    p2mrTaggedHash C p.1 p.2 = p2mrTaggedHash C q.1 q.2 → p = q

instance decidableP2MRNoCollision (C : ScriptCrypto) (leaves : List P2MRLeaf) (version : UInt8)
    (script : List UInt8) (path : List Uint256) :
    Decidable (P2MRNoCollision C leaves version script path) :=
  inferInstanceAs (Decidable (∀ p ∈ p2mrInputs C leaves version script path,
    ∀ q ∈ p2mrInputs C leaves version script path,
      p2mrTaggedHash C p.1 p.2 = p2mrTaggedHash C q.1 q.2 → p = q))

/-- **Only leaves open**, along a path of any length. -/
theorem mem_leaves_of_foldl_eq_root {leaves : List P2MRLeaf} {version : UInt8}
    {script : List UInt8} {path : List Uint256} (hne : leaves ≠ [])
    (hcr : P2MRNoCollision C leaves version script path)
    (hroot : path.foldl (computeP2MRBranchHash C) (computeP2MRLeafHash C version script) =
      computeP2MRMerkleRoot C (leaves.map (P2MRLeaf.hash C))) :
    ∃ leaf ∈ leaves, leaf.script = script ∧ leaf.version = version := by
  have hleaf (leaf) (hleaf : leaf ∈ leaves) :
      (P2MRTag.leaf, p2mrLeafMessage leaf.version leaf.script) ∈
        p2mrInputs C leaves version script path :=
    mem_append_left _ (mem_cons_of_mem _ (mem_map.2 ⟨leaf, hleaf, rfl⟩))
  have hself : (P2MRTag.leaf, p2mrLeafMessage version script) ∈
      p2mrInputs C leaves version script path := mem_append_left _ mem_cons_self
  have htree (p) (hp : p ∈ PromotedTree.treePairs (computeP2MRBranchHash C)
      (leaves.map (P2MRLeaf.hash C))) :
      (P2MRTag.branch, p2mrBranchMessage p.1 p.2) ∈ p2mrInputs C leaves version script path :=
    mem_append_right _ (mem_map.2 ⟨p, mem_append_left _ hp, rfl⟩)
  have hpath (p) (hp : p ∈ PromotedTree.pathPairs (computeP2MRBranchHash C) path
      (computeP2MRLeafHash C version script)) :
      (P2MRTag.branch, p2mrBranchMessage p.1 p.2) ∈ p2mrInputs C leaves version script path :=
    mem_append_right _ (mem_map.2 ⟨p, mem_append_right _ hp, rfl⟩)
  have hmem : computeP2MRLeafHash C version script ∈ leaves.map (P2MRLeaf.hash C) := by
    refine PromotedTree.mem_of_foldl_eq_root (by simpa using hne) hroot ?_ ?_ ?_
    · intro p hp q hq heq
      have hsame := hcr _ (hpath p hp) _ (htree q hq) heq
      exact mem_of_p2mrBranchMessage_eq (Prod.mk.inj hsame).2
    · intro p hp hbranch
      obtain ⟨leaf, hl, heq⟩ := mem_map.1 hbranch
      have hsame := hcr _ (hleaf leaf hl) _ (hpath p hp) heq
      exact P2MRTag.noConfusion (Prod.mk.inj hsame).1
    · intro p hp heq
      have hsame := hcr _ (htree p hp) _ hself heq
      exact P2MRTag.noConfusion (Prod.mk.inj hsame).1
  obtain ⟨leaf, hl, heq⟩ := mem_map.1 hmem
  have hsame := hcr _ (hleaf leaf hl) _ hself heq
  obtain ⟨hversion, hscript⟩ := p2mrLeafMessage_injective (Prod.mk.inj hsame).2
  exact ⟨leaf, hl, hscript, hversion⟩

/-- **A P2MR output commits to exactly its leaves.** Up to the depth limit every leaf has a control
block that is accepted with its script, and a script accepted with any control block is a leaf of
the list, with the version in that control block. -/
theorem p2mr_commitment (C : ScriptCrypto) (leaves : List P2MRLeaf) (hne : leaves ≠ []) :
    (leaves.length ≤ 2 ^ 128 → ∀ i leaf, leaves[i]? = some leaf →
      verifyP2MRScript C (p2mrControlBlock C leaves leaf i) (p2mrProgram C leaves) leaf.script =
        true) ∧
    (∀ first nodes script,
      P2MRNoCollision C leaves (first &&& p2mrLeafMask) script (controlNodes (first :: nodes)) →
      verifyP2MRScript C (first :: nodes) (p2mrProgram C leaves) script = true →
      ∃ leaf ∈ leaves, leaf.script = script ∧ leaf.version = first &&& p2mrLeafMask) ∧
    ∀ script, verifyP2MRScript C [] (p2mrProgram C leaves) script = false := by
  refine ⟨fun hdepth i leaf hleaf => verifyP2MRScript_controlBlock hdepth hleaf, ?_, fun _ => rfl⟩
  intro first nodes script hcr haccept
  rw [verifyP2MRScript, head?_cons, any_some, verifyP2MRCommitment_iff] at haccept
  exact mem_leaves_of_foldl_eq_root hne hcr (uint256Bytes_injective haccept.2.2.2.2.symm)

end Results

/-! A list of three scripts, the last of which is promoted, under a hash that reads its input as a
number. -/

/-- Three leaves. -/
def sampleLeaves : List P2MRLeaf :=
  [[0x51], [0x52], [0x53]].map fun script => ⟨p2mrLeafVersion, script, by decide⟩

/-- A hash without collisions on the samples. -/
def sampleHash : ScriptCrypto where
  sha256 bytes := BitVec.ofNat 256 (bytes.foldl (fun n b => 263 * n + b.toNat + 1) 0)
  bundleCtvBytes _ := []
  pqVerify _ _ _ _ _ := false

/-- The nodes of the control block of the first leaf. -/
def sampleNodes : List UInt8 :=
  (PromotedTree.siblings (computeP2MRBranchHash sampleHash)
    (sampleLeaves.map (P2MRLeaf.hash sampleHash)) 0).flatMap uint256Bytes

/-- The three leaves open, and a control block with the unused bit of the version set is accepted
for the first leaf only because the leaf is in the list. -/
theorem p2mr_commitment_sample : (∀ i leaf, sampleLeaves[i]? = some leaf →
      verifyP2MRScript sampleHash (p2mrControlBlock sampleHash sampleLeaves leaf i)
        (p2mrProgram sampleHash sampleLeaves) leaf.script = true) ∧
      sampleNodes.length = 64 ∧
      verifyP2MRScript sampleHash (0xc3 :: sampleNodes) (p2mrProgram sampleHash sampleLeaves)
        [0x51] = true ∧
      ∃ leaf ∈ sampleLeaves, leaf.script = [0x51] ∧ leaf.version = 0xc3 &&& p2mrLeafMask := by
  have hmain := p2mr_commitment sampleHash sampleLeaves (by decide)
  have hcr : P2MRNoCollision sampleHash sampleLeaves (0xc3 &&& p2mrLeafMask) [0x51]
      (controlNodes (0xc3 :: sampleNodes)) := by decide +kernel
  have haccept : verifyP2MRScript sampleHash (0xc3 :: sampleNodes)
      (p2mrProgram sampleHash sampleLeaves) [0x51] = true := by decide +kernel
  exact ⟨hmain.1 (by decide), by decide +kernel, haccept, hmain.2.1 _ _ _ hcr haccept⟩

end Btx.Script
