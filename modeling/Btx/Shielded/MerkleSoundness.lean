/-
# What a verified witness proves

`Verify` of `src/shielded/merkle_tree.cpp` on a witness that anyone may have made: if the fold over
its 32 hashes ends in the root of a tree, it began in the leaf at the index whose bits were used,
unless `BranchHash` has a collision (`BranchCollisionFree`). A walk that leaves the array has no
verdict.

`Position` subtracts one from an unsigned size, and wraps on a witness with size zero, which the
decoder accepts. `verifyWord` is `Verify` with this wrap instead of a fault.
-/

import Btx.Shielded.WitnessBytes

namespace Btx.Shielded

open Util PerfectTree Filling List

variable {H : MerkleHash}

/-! ## The path has 32 entries -/

variable {path queue : List Uint256} {d : ℕ} {r : List Uint256 × List Uint256}

theorem setAuthPath_length {path' : List Uint256} {value : Uint256}
    (h : setAuthPath path d value = .ok path') : path'.length = path.length := by
  rw [setAuthPath] at h
  split at h
  · rw [← pure_eq_ok.mp h, length_set]
  · cases h

theorem recordParents_length {parents : List (Option Uint256)}
    (h : (recordParents H parents d path).run queue = .ok r) : r.1.length = path.length := by
  induction parents generalizing d path queue with
  | nil =>
    obtain rfl : (path, queue) = r := Except.ok.inj h
    rfl
  | cons parent parents ih =>
    cases parent with
    | some parent =>
      obtain ⟨path', queue', hset, h⟩ := run_bind_eq_ok.1 h
      rw [ih h, setAuthPath_length (run_lift_eq_ok.1 hset).1]
    | none =>
      obtain ⟨sibling, queue₁, -, h⟩ := run_bind_eq_ok.1 h
      obtain ⟨path', queue₂, hset, h⟩ := run_bind_eq_ok.1 h
      rw [ih h, setAuthPath_length (run_lift_eq_ok.1 hset).1]

theorem recordEmpty_length {n : ℕ} (h : (recordEmpty H n d path).run queue = .ok r) :
    r.1.length = path.length := by
  induction n generalizing d path queue with
  | zero =>
    obtain rfl : (path, queue) = r := Except.ok.inj h
    rfl
  | succ n ih =>
    obtain ⟨sibling, queue₁, -, h⟩ := run_bind_eq_ok.1 h
    obtain ⟨path', queue₂, hset, h⟩ := run_bind_eq_ok.1 h
    rw [ih h, setAuthPath_length (run_lift_eq_ok.1 hset).1]

theorem authPath_length {t : MerkleFrontier} (h : (t.authPath H).run queue = .ok r) :
    r.1.length = merkleDepth := by
  obtain ⟨sibling, queue, -, h⟩ := run_bind_eq_ok.1 h
  obtain ⟨path, queue, hset, h⟩ := run_bind_eq_ok.1 h
  obtain ⟨path', queue', hparents, h⟩ := run_bind_eq_ok.1 h
  rw [recordEmpty_length h, recordParents_length hparents,
    setAuthPath_length (run_lift_eq_ok.1 hset).1, length_replicate]

/-! ## `Verify` on machine words -/

namespace ShieldedMerkleWitness

/-- The index that the 32 bits used by `Verify` encode. -/
def pathIndex (w : ShieldedMerkleWitness) : ℕ := w.positionWord % 2 ^ merkleDepth

variable {w : ShieldedMerkleWitness}

theorem length_of_authPath_eq_ok (h : w.authPath H = .ok path) : path.length = merkleDepth := by
  rw [authPath, bind_eq_ok] at h
  obtain ⟨filler, -, hpath⟩ := h
  cases hrun : (w.tree.authPath H).run filler with
  | error e =>
    change Prod.fst <$> (w.tree.authPath H).run filler = _ at hpath
    rw [hrun] at hpath
    cases hpath
  | ok r =>
    change Prod.fst <$> (w.tree.authPath H).run filler = _ at hpath
    rw [hrun] at hpath
    obtain rfl : r.1 = path := Except.ok.inj hpath
    exact authPath_length hrun

/-! ## Soundness -/

variable (H) in
/-- `BranchHash` is injective on the pairs that the tree hashes above the index of the witness and
on those that `Verify` hashes. -/
def BranchCollisionFree (cs : List Uint256) (w : ShieldedMerkleWitness) (leaf : Uint256) : Prop :=
  ∀ path, w.authPath H = .ok path →
    NoCollision H.branchHash
      (nodePairs H.branchHash (paddedLeaves H cs) merkleDepth 0 w.pathIndex)
      (pathPairs H.branchHash path w.pathIndex leaf)

theorem leaf_eq_of_verifyWord {cs : List Uint256} {leaf : Uint256}
    (hinj : BranchCollisionFree H cs w leaf)
    (h : w.verifyWord H leaf (paddedRoot H cs) = .ok true) :
    leaf = paddedLeaves H cs w.pathIndex := by
  simp only [verifyWord, bind_eq_ok, pure_eq_ok, decide_eq_true_eq] at h
  obtain ⟨path, hpath, hfold⟩ := h
  have hlen := length_of_authPath_eq_ok hpath
  rw [foldPath_eq, ← foldPath_mod, hlen] at hfold
  have hpairs := hinj path hpath
  rw [← hlen] at hpairs
  refine eq_of_foldPath_eq_node hpairs ?_
  have htop : w.pathIndex / 2 ^ merkleDepth = 0 :=
    Nat.div_eq_of_lt (Nat.mod_lt _ (Nat.two_pow_pos _))
  rw [hlen, htop, zero_add]
  exact hfold

end ShieldedMerkleWitness

theorem verifyRecoveryExitMembership_eq_ok {membershipProof : List UInt8}
    {commitment frozenRoot : Uint256}
    (h : verifyRecoveryExitMembership H membershipProof commitment frozenRoot = .ok (.ok ())) :
    ∃ w, readWitness membershipProof = some (w, []) ∧
      w.verifyWord H commitment frozenRoot = .ok true := by
  rw [verifyRecoveryExitMembership] at h
  split at h
  · cases h
  · split at h
    next w hw =>
      rw [bind_eq_ok] at h
      obtain ⟨member, hverify, hmember⟩ := h
      have htrue : member = true := require_eq_ok.mp (pure_eq_ok.mp hmember)
      rw [htrue] at hverify
      exact ⟨w, hw, hverify⟩
    next => cases h

theorem mem_of_paddedLeaves_ne {cs : List Uint256} {i : ℕ}
    (h : paddedLeaves H cs i ≠ H.emptyLeafHash) : paddedLeaves H cs i ∈ cs := by
  by_cases hi : i < cs.length
  · simp [pad, getElem?_eq_getElem hi]
  · exact absurd (paddedLeaves_of_ge (not_lt.mp hi)) h

/-- **Soundness of `Verify`.** For every byte string that decodes to a witness, and a `BranchHash`
without collisions among the pairs involved:
* a leaf it verifies against the root is the padded leaf of the tree at the index that the bits of
  the path encode;
* a commitment it proves as a recovery exit was appended to the tree. That no commitment is the
  empty leaf is again the absence of a collision. -/
theorem verified_leaf_in_tree (cs : List Uint256) (t : ShieldedMerkleTree H) (root : Uint256)
    (htree : ShieldedMerkleTree.empty.appendAll cs = .ok t) (hroot : t.frontier.root H = .ok root)
    (bytes rest : List UInt8) (w : ShieldedMerkleWitness)
    (hdecode : readWitness bytes = some (w, rest)) (leaf : Uint256)
    (hinj : w.BranchCollisionFree H cs leaf) :
    (w.verifyWord H leaf root = .ok true → leaf = paddedLeaves H cs w.pathIndex) ∧
      (verifyRecoveryExitMembership H bytes leaf root = .ok (.ok ()) →
        leaf ≠ H.emptyLeafHash → leaf ∈ cs) := by
  have hcs : t.commitments = cs := ShieldedMerkleTree.appendAll_commitments htree
  have hlen : cs.length ≤ merkleMaxLeaves := by
    rw [← hcs]
    exact ShieldedMerkleTree.appendAll_length zero_le htree
  obtain rfl : paddedRoot H cs = root := by
    rw [t.built.frontier_eq, hcs, root_frontierOf cs hlen] at hroot
    exact Except.ok.inj hroot
  have hleaf : w.verifyWord H leaf (paddedRoot H cs) = .ok true →
      leaf = paddedLeaves H cs w.pathIndex :=
    ShieldedMerkleWitness.leaf_eq_of_verifyWord hinj
  refine ⟨hleaf, fun haccepted hne => ?_⟩
  obtain ⟨w', hw', hverify⟩ := verifyRecoveryExitMembership_eq_ok haccepted
  obtain ⟨rfl, -⟩ := Prod.mk.inj (Option.some.inj (hdecode.symm.trans hw'))
  rw [hleaf hverify] at hne ⊢
  exact mem_of_paddedLeaves_ne hne

/-! ### A tree with two leaves -/

/-- The witness of the first of the leaves 5 and 6. -/
def firstLeafWitness : ShieldedMerkleWitness where
  tree := frontierOf sumHash [5]
  filled := [6]
  cursor := none
  cursorDepth := 0

/-- Its path, under the sum as hash function: the second leaf and the empty subtrees. -/
def firstLeafPath : List Uint256 :=
  6 :: (List.range 31).map fun d => BitVec.ofNat 256 (2 ^ (d + 1))

theorem authPath_firstLeafWitness : firstLeafWitness.authPath sumHash = .ok firstLeafPath := by
  decide

theorem firstLeafPath_eq :
    firstLeafPath = siblings sumHash.branchHash (paddedLeaves sumHash [5, 6]) merkleDepth 0 0 := by
  obtain ⟨w, hw, htracks⟩ := tracks_ofTree (H := sumHash) [] 5
  obtain ⟨w', hw', htracks⟩ := ShieldedMerkleWitness.tracks_updateAll htracks [6] (by decide)
  obtain rfl := Except.ok.inj hw
  obtain rfl : firstLeafWitness = w' := Except.ok.inj hw'
  have hrun := htracks.tree.authPath_run (by decide) htracks.fills
  have hpath := authPath_firstLeafWitness
  rw [ShieldedMerkleWitness.authPath, htracks.partialPath_eq, ok_bind] at hpath
  exact Except.ok.inj (hpath.symm.trans hrun)

theorem firstLeafWitness_collisionFree : firstLeafWitness.BranchCollisionFree sumHash [5, 6] 5 := by
  intro path hpath
  obtain rfl : firstLeafPath = path := Except.ok.inj (authPath_firstLeafWitness.symm.trans hpath)
  have hpairs : nodePairs sumHash.branchHash (paddedLeaves sumHash [5, 6]) merkleDepth 0 0 =
      pathPairs sumHash.branchHash firstLeafPath 0 5 := by
    rw [firstLeafPath_eq]
    exact (pathPairs_siblings merkleDepth 0 0).symm
  -- the hashes along the path are pairwise distinct
  have hnodup : ((pathPairs sumHash.branchHash firstLeafPath 0 5).map
      fun p => sumHash.branchHash p.1 p.2).Nodup := by
    decide +kernel
  rw [show firstLeafWitness.pathIndex = 0 by decide, hpairs]
  intro p hp r hr heq
  exact inj_on_of_nodup_map hnodup (hp.elim id id) (hr.elim id id) heq

/-- It is accepted, for the leaf that was appended first. -/
theorem verified_first_leaf :
    let t := okValue ((ShieldedMerkleTree.empty : ShieldedMerkleTree sumHash).appendAll [5, 6])
      (by decide)
    t.frontier.root sumHash = .ok 4294967305 ∧
      readWitness (witnessBytes firstLeafWitness) = some (firstLeafWitness, []) ∧
      firstLeafWitness.BranchCollisionFree sumHash [5, 6] 5 ∧
      5 = paddedLeaves sumHash [5, 6] firstLeafWitness.pathIndex ∧
      (5 : Uint256) ∈ [(5 : Uint256), 6] := by
  intro t
  have hroot : t.frontier.root sumHash = .ok 4294967305 := by decide
  have hdecode : readWitness (witnessBytes firstLeafWitness) = some (firstLeafWitness, []) := by
    decide
  obtain ⟨hleaf, hmember⟩ := verified_leaf_in_tree [5, 6] t 4294967305
    (eq_ok_okValue (by decide)) hroot _ _ _ hdecode 5 firstLeafWitness_collisionFree
  exact ⟨hroot, hdecode, firstLeafWitness_collisionFree, hleaf (by decide),
    hmember (by decide) (by decide)⟩

end Btx.Shielded
