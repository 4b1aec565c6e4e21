/-
# Membership witnesses and their decoder

`ShieldedMerkleWitness` of `src/shielded/merkle_tree.{h,cpp}`: the frontier at the time a leaf was
appended, the hashes filled in since, and a cursor. The decoder does not relate the counts it reads
to each other, so the walk of `ComputePath` can leave its array.
-/

import Btx.Shielded.MerkleTree
import Btx.Util.Reader

namespace Btx.Shielded

open Util Reader Filling Option

structure ShieldedMerkleWitness where
  tree : MerkleFrontier
  filled : List Uint256
  cursor : Option MerkleFrontier
  cursorDepth : ℕ
  deriving DecidableEq, Repr

/-! ## Evaluation -/

/-- `auth_path[d] = value` on the array of 32 hashes. -/
def setAuthPath (path : List Uint256) (d : ℕ) (value : Uint256) :
    Except AccessFault (List Uint256) :=
  if d < merkleDepth then pure (path.set d value) else throw (.authPathIndex d)

section Evaluation

variable (H : MerkleHash)

/-- The loop of `ComputePath` over the parents, from depth `d`. -/
def recordParents : List (Option Uint256) → ℕ → List Uint256 → Filling (List Uint256)
  | [], _, path => pure path
  | some parent :: parents, d, path => do
      let path ← setAuthPath path d parent
      recordParents parents (d + 1) path
  | none :: parents, d, path => do
      let sibling ← fillerNext H d
      let path ← setAuthPath path d sibling
      recordParents parents (d + 1) path

/-- The last loop of `ComputePath`: `n` more levels from depth `d`. -/
def recordEmpty : ℕ → ℕ → List Uint256 → Filling (List Uint256)
  | 0, _, path => pure path
  | n + 1, d, path => do
      let sibling ← fillerNext H d
      let path ← setAuthPath path d sibling
      recordEmpty n (d + 1) path

/-- Depth 0 of `ComputePath`: the sibling of the witnessed leaf. -/
def leafSibling (t : MerkleFrontier) : Filling Uint256 :=
  if t.right.isSome then liftM (derefLeft t.left) else fillerNext H 0

/-- The walk of `ComputePath` over the frontier. -/
def MerkleFrontier.authPath (t : MerkleFrontier) : Filling (List Uint256) := do
  let sibling ← leafSibling H t
  let path ← setAuthPath (List.replicate merkleDepth 0) 0 sibling
  let path ← recordParents H t.parents 1 path
  recordEmpty H (merkleDepth - (1 + t.parents.length)) (1 + t.parents.length) path

namespace ShieldedMerkleWitness

variable (w : ShieldedMerkleWitness)

/-- `Position`. -/
def position : Except AccessFault ℕ :=
  if w.tree.size = 0 then throw .positionUnderflow else pure (w.tree.size - 1)

/-- `PartialPath`. -/
def partialPath : Except AccessFault (List Uint256) :=
  match w.cursor with
  | none => pure w.filled
  | some cursor => do
      let uncle ← cursor.rootAt H w.cursorDepth []
      pure (w.filled ++ [uncle])

/-- `Root`. -/
def root : Except AccessFault Uint256 := do
  let filler ← w.partialPath H
  w.tree.rootAt H merkleDepth filler

/-- `ComputePath`: the authentication path and the leaf's position. -/
def computePath : Except AccessFault (List Uint256 × ℕ) := do
  let filler ← w.partialPath H
  let pos ← w.position
  let path ← (w.tree.authPath H).run' filler
  pure (path, pos)

/-- The loop of `Verify` up an authentication path. -/
def foldPath : List Uint256 → ℕ → Uint256 → Uint256
  | [], _, current => current
  | sibling :: path, pos, current =>
      foldPath path (pos / 2)
        (if pos % 2 = 1 then H.branchHash sibling current else H.branchHash current sibling)

/-- `Verify`. -/
def verify (leaf root : Uint256) : Except AccessFault Bool := do
  let (path, pos) ← w.computePath H
  pure (foldPath H path pos leaf = root)

end ShieldedMerkleWitness

end Evaluation

/-! ## Decoding -/

/-- A `uint256`: 32 bytes in memory order. -/
def readHash : Reader Uint256 := do
  let bytes ← Reader.many Reader.byte 32
  pure (BitVec.ofNat 256 (Reader.ofBigEndian bytes))

/-- `DeserializeOptHash`: any non-zero flag means that a hash follows. -/
def readOptHash : Reader (Option Uint256) := do
  let flag ← Reader.byte
  if flag = 0 then pure none
  else do
    let h ← readHash
    pure (some h)

/-- `ShieldedMerkleTree::Unserialize`. -/
def readFrontier : Reader MerkleFrontier := do
  let size ← Reader.littleEndian 8
  Reader.ensure (size ≤ merkleMaxLeaves)
  let left ← readOptHash
  let right ← readOptHash
  let count ← Reader.compactSize
  Reader.ensure (count ≤ merkleDepth)
  let parents ← Reader.many readOptHash count
  pure { size, left, right, parents }

/-- The cursor part of `ShieldedMerkleWitness::Unserialize`. -/
def readCursor : Reader (Option MerkleFrontier × ℕ) := do
  let hasCursor ← Reader.byte
  Reader.ensure (hasCursor ≤ 1)
  if hasCursor = 0 then pure (none, 0)
  else do
    let cursor ← readFrontier
    let depth ← Reader.compactSize
    Reader.ensure (depth ≤ merkleDepth)
    pure (some cursor, depth)

/-- `ShieldedMerkleWitness::Unserialize`. -/
def readWitness : Reader ShieldedMerkleWitness := do
  let tree ← readFrontier
  let count ← Reader.compactSize
  Reader.ensure (count ≤ merkleDepth)
  let filled ← Reader.many readHash count
  let cursor ← readCursor
  pure { tree, filled, cursor := cursor.1, cursorDepth := cursor.2 }

/-! ### What the decoder guarantees -/

variable {s r : List UInt8} {w : ShieldedMerkleWitness}

theorem readFrontier_bounds {t : MerkleFrontier} (h : readFrontier s = some (t, r)) :
    t.size ≤ merkleMaxLeaves ∧ t.parents.length ≤ merkleDepth := by
  obtain ⟨size, s, -, h⟩ := bind_eq_some.1 h
  obtain ⟨⟨⟩, s, hsize, h⟩ := bind_eq_some.1 h
  obtain ⟨left, s, -, h⟩ := bind_eq_some.1 h
  obtain ⟨right, s, -, h⟩ := bind_eq_some.1 h
  obtain ⟨count, s, -, h⟩ := bind_eq_some.1 h
  obtain ⟨⟨⟩, s, hcount, h⟩ := bind_eq_some.1 h
  obtain ⟨parents, s, hparents, h⟩ := bind_eq_some.1 h
  obtain ⟨rfl, -⟩ := pure_eq_some.1 h
  exact ⟨(ensure_eq_some.1 hsize).1, (many_length hparents).trans_le (ensure_eq_some.1 hcount).1⟩

theorem readCursor_bounds {cursor : Option MerkleFrontier} {depth : ℕ}
    (h : readCursor s = some ((cursor, depth), r)) :
    depth ≤ merkleDepth ∧ ∀ c ∈ cursor, c.parents.length ≤ merkleDepth := by
  obtain ⟨flag, s, -, h⟩ := bind_eq_some.1 h
  obtain ⟨-, s, -, h⟩ := bind_eq_some.1 h
  by_cases hflag : flag = 0
  · rw [if_pos hflag] at h
    obtain ⟨heq, -⟩ := pure_eq_some.1 h
    cases heq
    simp
  · rw [if_neg hflag] at h
    obtain ⟨c, s, hc, h⟩ := bind_eq_some.1 h
    obtain ⟨d, s, -, h⟩ := bind_eq_some.1 h
    obtain ⟨⟨⟩, s, hd, h⟩ := bind_eq_some.1 h
    obtain ⟨heq, -⟩ := pure_eq_some.1 h
    cases heq
    refine ⟨(ensure_eq_some.1 hd).1, ?_⟩
    rintro _ ⟨⟩
    exact (readFrontier_bounds hc).2

/-- The bounds that the decoder checks, and all it checks. -/
structure ShieldedMerkleWitness.Bounded (w : ShieldedMerkleWitness) : Prop where
  parents : w.tree.parents.length ≤ merkleDepth
  cursorDepth : w.cursorDepth ≤ merkleDepth
  cursorParents : ∀ c ∈ w.cursor, c.parents.length ≤ merkleDepth

theorem readWitness_parts (h : readWitness s = some (w, r)) :
    (∃ rest, readFrontier s = some (w.tree, rest)) ∧
      ∃ t rest, readCursor t = some ((w.cursor, w.cursorDepth), rest) := by
  obtain ⟨tree, s, htree, h⟩ := bind_eq_some.1 h
  obtain ⟨count, s, -, h⟩ := bind_eq_some.1 h
  obtain ⟨-, s, -, h⟩ := bind_eq_some.1 h
  obtain ⟨filled, s, -, h⟩ := bind_eq_some.1 h
  obtain ⟨cursor, s, hcursor, h⟩ := bind_eq_some.1 h
  obtain ⟨rfl, -⟩ := pure_eq_some.1 h
  exact ⟨⟨_, htree⟩, _, _, hcursor⟩

theorem readWitness_bounded (h : readWitness s = some (w, r)) : w.Bounded := by
  obtain ⟨⟨_, htree⟩, _, _, hcursor⟩ := readWitness_parts h
  obtain ⟨hdepth, hparents⟩ := readCursor_bounds hcursor
  exact ⟨(readFrontier_bounds htree).2, hdepth, hparents⟩

namespace ShieldedMerkleWitness

/-- The array that `ComputePath` fills. -/
def authPath (H : MerkleHash) (w : ShieldedMerkleWitness) : Except AccessFault (List Uint256) := do
  let filler ← w.partialPath H
  (w.tree.authPath H).run' filler

/-- `Size() - 1` as a `uint64_t`. -/
def positionWord (w : ShieldedMerkleWitness) : ℕ := (w.tree.size + (2 ^ 64 - 1)) % 2 ^ 64

/-- `Verify`, with the position as a machine word. -/
def verifyWord (H : MerkleHash) (w : ShieldedMerkleWitness) (leaf root : Uint256) :
    Except AccessFault Bool := do
  let path ← w.authPath H
  pure (foldPath H path w.positionWord leaf = root)

/-- Where the position does not wrap, this is `Verify`. -/
theorem verifyWord_of_verify {H : MerkleHash} {leaf root : Uint256} {b : Bool}
    (hsize : w.tree.size < 2 ^ 64)
    (h : w.verify H leaf root = .ok b) : w.verifyWord H leaf root = .ok b := by
  rw [verify, bind_eq_ok] at h
  obtain ⟨⟨path, pos⟩, hcompute, hb⟩ := h
  simp only [computePath, bind_eq_ok, pure_eq_ok] at hcompute
  obtain ⟨filler, hfiller, pos', hpos, path', hpath, heq⟩ := hcompute
  obtain ⟨rfl, rfl⟩ := Prod.mk.inj heq
  have hword : w.positionWord = pos' := by
    rw [position] at hpos
    split at hpos
    · cases hpos
    · cases hpos
      rw [positionWord]
      omega
  rw [verifyWord, authPath, hfiller, ok_bind, hpath, ok_bind, hword]
  exact hb

end ShieldedMerkleWitness

theorem readWitness_size {s r : List UInt8} {w : ShieldedMerkleWitness}
    (h : readWitness s = some (w, r)) : w.tree.size ≤ merkleMaxLeaves := by
  obtain ⟨⟨_, htree⟩, -⟩ := readWitness_parts h
  exact (readFrontier_bounds htree).1

/-- `VerifyRecoveryExitMembership`: the outer result is the evaluation of the witness, the
inner one the verdict with its reject reason. -/
def verifyRecoveryExitMembership (H : MerkleHash) (membershipProof : List UInt8)
    (commitment frozenRoot : Uint256) : Except AccessFault (Except String Unit) :=
  if frozenRoot.IsNull then pure (throw "bad-recovery-exit-no-frozen-root")
  else
    match readWitness membershipProof with
    | some (w, []) => do
        let member ← w.verifyWord H commitment frozenRoot
        pure (require member "bad-recovery-exit-membership")
    | _ => pure (throw "bad-recovery-exit-bad-membership-proof")

/-! ## Faults of the evaluation -/

section Faults

variable (H : MerkleHash)

variable {d : ℕ} {parents : List (Option Uint256)} {queue : List Uint256}
  {r : List Uint256 × List Uint256} {t : MerkleFrontier}

theorem setAuthPath_succeeds (hd : d < merkleDepth) (path : List Uint256) (value : Uint256) :
    Filling.Succeeds (liftM (setAuthPath path d value) : Filling (List Uint256)) := by
  rw [setAuthPath, if_pos hd]
  exact succeeds_pure _

theorem recordParents_succeeds (hd : d + parents.length ≤ merkleDepth) (path : List Uint256) :
    Filling.Succeeds (recordParents H parents d path) := by
  induction parents generalizing d path with
  | nil => exact succeeds_pure path
  | cons parent parents ih =>
    simp only [List.length_cons] at hd
    cases parent with
    | some parent =>
      exact (setAuthPath_succeeds (by omega) _ _).bind fun _ => ih (by omega) _
    | none =>
      refine (fillerNext_succeeds H (by omega)).bind fun _ => ?_
      exact (setAuthPath_succeeds (by omega) _ _).bind fun _ => ih (by omega) _

theorem recordEmpty_succeeds {n : ℕ} (hd : d + n ≤ merkleDepth) (path : List Uint256) :
    Filling.Succeeds (recordEmpty H n d path) := by
  induction n generalizing d path with
  | zero => exact succeeds_pure path
  | succ n ih =>
    refine (fillerNext_succeeds H (by omega)).bind fun _ => ?_
    exact (setAuthPath_succeeds (by omega) _ _).bind fun _ => ih (by omega) _

theorem recordParents_bound {path : List Uint256} (hd : d ≤ merkleDepth)
    (h : (recordParents H parents d path).run queue = .ok r) :
    d + parents.length ≤ merkleDepth := by
  induction parents generalizing d path queue with
  | nil => exact hd
  | cons parent parents ih =>
    -- both kinds of parent end in the same write at index `d`
    have hwrite : ∃ value queue' path', setAuthPath path d value = .ok path' ∧
        (recordParents H parents (d + 1) path').run queue' = .ok r := by
      cases parent with
      | some parent =>
        obtain ⟨path', queue', hset, h⟩ := run_bind_eq_ok.1 h
        exact ⟨parent, queue', path', (run_lift_eq_ok.1 hset).1, h⟩
      | none =>
        obtain ⟨sibling, queue₁, -, h⟩ := run_bind_eq_ok.1 h
        obtain ⟨path', queue₂, hset, h⟩ := run_bind_eq_ok.1 h
        exact ⟨sibling, queue₂, path', (run_lift_eq_ok.1 hset).1, h⟩
    obtain ⟨value, queue', path', hset, hrest⟩ := hwrite
    have hlt : d < merkleDepth := by
      by_contra hge
      rw [setAuthPath, if_neg hge] at hset
      cases hset
    have := ih (Nat.succ_le_of_lt hlt) hrest
    simp only [List.length_cons]
    omega

theorem leafSibling_succeeds (hl : t.right.isSome → t.left.isSome) :
    Filling.Succeeds (leafSibling H t) := by
  unfold leafSibling
  split_ifs with hr
  · obtain ⟨l, hl⟩ := isSome_iff_exists.1 (hl hr)
    rw [hl]
    exact succeeds_pure l
  · exact fillerNext_succeeds H zero_le

theorem leafSibling_left {r : Uint256 × List Uint256} (h : (leafSibling H t).run queue = .ok r)
    (hr : t.right.isSome) : t.left.isSome := by
  rw [leafSibling, if_pos hr, run_lift_eq_ok] at h
  cases hl : t.left with
  | some l => rfl
  | none =>
    rw [hl] at h
    exact (throw_eq_ok.1 h.1).elim

theorem authPath_succeeds (hl : t.right.isSome → t.left.isSome)
    (hp : t.parents.length < merkleDepth) : Filling.Succeeds (t.authPath H) := by
  refine (leafSibling_succeeds H hl).bind fun sibling => ?_
  refine (setAuthPath_succeeds (by decide) _ _).bind fun path => ?_
  refine (recordParents_succeeds H (by omega) path).bind fun path => ?_
  exact recordEmpty_succeeds H (by omega) path

theorem authPath_inv (h : (t.authPath H).run queue = .ok r) :
    (t.right.isSome → t.left.isSome) ∧ t.parents.length < merkleDepth := by
  obtain ⟨sibling, queue, hsibling, h⟩ := run_bind_eq_ok.1 h
  obtain ⟨path, queue, -, h⟩ := run_bind_eq_ok.1 h
  obtain ⟨path', queue', hparents, -⟩ := run_bind_eq_ok.1 h
  refine ⟨leafSibling_left H hsibling, ?_⟩
  have := recordParents_bound H (by decide) hparents
  omega

namespace ShieldedMerkleWitness

variable {w : ShieldedMerkleWitness}

theorem position_ok_iff : (∃ pos, w.position = .ok pos) ↔ w.tree.size ≠ 0 := by
  simp [position]

theorem partialPath_ok_iff (hw : w.Bounded) :
    (∃ filler, w.partialPath H = .ok filler) ↔ ∀ c ∈ w.cursor, c.size ≠ 0 → c.left.isSome := by
  unfold partialPath
  cases hc : w.cursor with
  | none => simp
  | some cursor =>
    have hroot := MerkleFrontier.rootAt_ok_iff H []
      (hw.cursorParents cursor hc) hw.cursorDepth
    simp only [bind_eq_ok, pure_eq_ok, exists_comm (α := List Uint256), mem_def,
      some.injEq, forall_eq', ← hroot]
    simp

theorem root_ok_iff (hw : w.Bounded) : (∃ r, w.root H = .ok r) ↔
      (∃ filler, w.partialPath H = .ok filler) ∧ (w.tree.size ≠ 0 → w.tree.left.isSome) := by
  simp only [root, bind_eq_ok]
  constructor
  · rintro ⟨r, filler, hfiller, hr⟩
    exact ⟨⟨filler, hfiller⟩, (MerkleFrontier.rootAt_ok_iff H filler hw.parents le_rfl).1 ⟨r, hr⟩⟩
  · rintro ⟨⟨filler, hfiller⟩, hleft⟩
    obtain ⟨r, hr⟩ := (MerkleFrontier.rootAt_ok_iff H filler hw.parents le_rfl).2 hleft
    exact ⟨r, filler, hfiller, hr⟩

theorem computePath_ok_iff : (∃ x, w.computePath H = .ok x) ↔
      (∃ filler, w.partialPath H = .ok filler) ∧ w.tree.size ≠ 0 ∧
        (w.tree.right.isSome → w.tree.left.isSome) ∧ w.tree.parents.length < merkleDepth := by
  rw [← position_ok_iff]
  simp only [computePath, StateT.run', bind_eq_ok, pure_eq_ok]
  constructor
  · rintro ⟨-, filler, hfiller, pos, hpos, path, hpath, -⟩
    cases hrun : (w.tree.authPath H) filler with
    | error e =>
      rw [hrun] at hpath
      cases hpath
    | ok r => exact ⟨⟨filler, hfiller⟩, ⟨pos, hpos⟩, authPath_inv H hrun⟩
  · rintro ⟨⟨filler, hfiller⟩, ⟨pos, hpos⟩, hright, hparents⟩
    obtain ⟨⟨path, queue⟩, hpath⟩ := authPath_succeeds H hright hparents filler
    refine ⟨(path, pos), filler, hfiller, pos, hpos, path, ?_, rfl⟩
    change Prod.fst <$> (w.tree.authPath H).run filler = _
    rw [hpath]
    rfl

theorem verify_ok_iff {leaf root : Uint256} :
    (∃ b, w.verify H leaf root = .ok b) ↔ ∃ x, w.computePath H = .ok x := by
  unfold verify
  cases w.computePath H with
  | error e => exact iff_of_false (fun ⟨b, h⟩ => nomatch h) (fun ⟨x, h⟩ => nomatch h)
  | ok x => exact iff_of_true ⟨_, rfl⟩ ⟨x, rfl⟩

/-- The frontier a decoded witness must have for its walks to be defined. -/
def HasWalkableFrontier (w : ShieldedMerkleWitness) : Prop :=
  w.tree.size ≠ 0 ∧ w.tree.left.isSome ∧ w.tree.parents.length < merkleDepth ∧
    ∀ c ∈ w.cursor, c.size ≠ 0 → c.left.isSome

end ShieldedMerkleWitness

/-- **Evaluating a decoded witness.** `Position`, `Root`, `ComputePath` and `Verify` are all fault
free exactly when the decoded frontier is not empty, has its left leaf and at most 31 parents, and a
non-empty cursor has its left leaf. `Unserialize` checks none of the four. -/
theorem decoded_witness_fault_free_iff {bytes rest : List UInt8} {w : ShieldedMerkleWitness}
    (hdecode : readWitness bytes = some (w, rest)) (leaf root : Uint256) :
    ((∃ pos, w.position = .ok pos) ∧ (∃ r, w.root H = .ok r) ∧
      (∃ path, w.computePath H = .ok path) ∧ ∃ b, w.verify H leaf root = .ok b) ↔
    w.HasWalkableFrontier := by
  have hw := readWitness_bounded hdecode
  rw [ShieldedMerkleWitness.verify_ok_iff, ShieldedMerkleWitness.computePath_ok_iff,
    ShieldedMerkleWitness.root_ok_iff H hw, ShieldedMerkleWitness.position_ok_iff,
    ShieldedMerkleWitness.partialPath_ok_iff H hw, ShieldedMerkleWitness.HasWalkableFrontier]
  tauto

/-! ### Decoded witnesses of both kinds -/

/-- The bytes of a witness for a tree with one leaf, zero, and `parents` absent parents. -/
def oneLeafWitnessBytes (parents : ℕ) : List UInt8 :=
  [1, 0, 0, 0, 0, 0, 0, 0] ++ (1 :: List.replicate 32 0) ++ [0] ++
    (UInt8.ofNat parents :: List.replicate parents 0) ++ [0, 0]

/-- What those bytes decode to. -/
def oneLeafWitness (parents : ℕ) : ShieldedMerkleWitness :=
  { tree := ⟨1, some 0, none, List.replicate parents none⟩
    filled := []
    cursor := none
    cursorDepth := 0 }

/-- A hash function to evaluate witnesses with: the sum. -/
def sumHash : MerkleHash := ⟨1, (· + ·)⟩

theorem readWitness_oneLeafWitnessBytes :
    readWitness (oneLeafWitnessBytes 31) = some (oneLeafWitness 31, []) := by
  decide

/-- An honest witness, with 31 parents as `FromAuthPath` writes it, is evaluated without a
fault. -/
theorem decoded_witness_of_one_leaf : (∃ pos, (oneLeafWitness 31).position = .ok pos) ∧
      (∃ r, (oneLeafWitness 31).root sumHash = .ok r) ∧
      (∃ path, (oneLeafWitness 31).computePath sumHash = .ok path) ∧
      ∃ b, (oneLeafWitness 31).verify sumHash 0 0 = .ok b :=
  (decoded_witness_fault_free_iff sumHash readWitness_oneLeafWitnessBytes 0 0).2
    (by unfold ShieldedMerkleWitness.HasWalkableFrontier; decide)

/-- **The path array is written out of bounds.** The decoder accepts a witness with 32
parents, and `Verify` on it writes `auth_path[32]`, for every hash function. -/
theorem decoded_witness_overruns_auth_path :
    readWitness (oneLeafWitnessBytes 32) = some (oneLeafWitness 32, []) ∧
      ∀ (H : MerkleHash) (leaf root : Uint256),
        (oneLeafWitness 32).verify H leaf root = .error (.authPathIndex 32) :=
  ⟨by decide, fun _ _ _ => rfl⟩

end Faults

end Btx.Shielded
