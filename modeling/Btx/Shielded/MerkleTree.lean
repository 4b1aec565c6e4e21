/-
# The note commitment tree

`src/shielded/merkle_tree.{h,cpp}`: an append-only Merkle tree of depth 32 that keeps only its
frontier. Every optional that the source dereferences, every array index and every unsigned
subtraction of a walk can fault, so that undefined behaviour is a value of the model.
-/

import Mathlib.Data.List.TakeWhile
import Btx.Shielded.Bundle
import Btx.Util.Result

namespace Btx.Shielded

open List

/-- `MERKLE_DEPTH`. -/
def merkleDepth : ℕ := 32

/-- `MERKLE_MAX_LEAVES`. -/
def merkleMaxLeaves : ℕ := 2 ^ 32

/-- The two hash functions of the tree: `EmptyLeafHash` and `BranchHash`. -/
structure MerkleHash where
  emptyLeafHash : Uint256
  branchHash : Uint256 → Uint256 → Uint256

/-- What goes wrong in a walk over a malformed frontier. -/
inductive AccessFault where
  /-- `*left_` with `left_` empty. -/
  | absentLeft
  /-- `auth_path[d]` with `d` not below 32. -/
  | authPathIndex (d : ℕ)
  /-- `Size() - 1` with size zero. -/
  | positionUnderflow
  /-- `std::out_of_range` thrown by `EmptyRoot`. -/
  | emptyRootDepth (d : ℕ)
  /-- `std::runtime_error` thrown by `Append` on a tree with `2 ^ 32` leaves. -/
  | treeFull
  /-- `std::runtime_error` thrown when a witness of an empty tree is asked for. -/
  | emptyTree
  deriving DecidableEq, Repr

/-- `ShieldedMerkleTree`, the part that is serialised: the frontier. -/
structure MerkleFrontier where
  size : ℕ
  left : Option Uint256
  right : Option Uint256
  /-- `parents[i]` is the waiting left child at depth `i + 1`. -/
  parents : List (Option Uint256)
  deriving DecidableEq, Repr

namespace MerkleFrontier

/-- The tree with no leaves. -/
def empty : MerkleFrontier := ⟨0, none, none, []⟩

end MerkleFrontier

/-! ## Filling positions that are still empty -/

section Walk

variable (H : MerkleHash)

/-- The table of `EmptyRoot`. -/
def emptyRootTable (depth : ℕ) : Uint256 :=
  (fun h => H.branchHash h h)^[depth] H.emptyLeafHash

/-- `EmptyRoot`. -/
def emptyRoot (depth : ℕ) : Except AccessFault Uint256 :=
  if depth > merkleDepth then throw (.emptyRootDepth depth) else pure (emptyRootTable H depth)

/-- A walk that consumes the `PathFiller`'s queue and may fault. -/
abbrev Filling (α : Type) := StateT (List Uint256) (Except AccessFault) α

/-- `PathFiller::Next`. -/
def fillerNext (depth : ℕ) : Filling Uint256
  | [] => (emptyRoot H depth).map (·, [])
  | h :: queue => .ok (h, queue)

/-- `*left_`. -/
def derefLeft : Option Uint256 → Except AccessFault Uint256
  | none => throw .absentLeft
  | some h => pure h

/-- The loop of `Root` over the frontier's parents, from depth `d`. -/
def climbParents : List (Option Uint256) → ℕ → Uint256 → Filling Uint256
  | [], _, current => pure current
  | some parent :: parents, d, current =>
      climbParents parents (d + 1) (H.branchHash parent current)
  | none :: parents, d, current => do
      let sibling ← fillerNext H d
      climbParents parents (d + 1) (H.branchHash current sibling)

/-- The loop of `Root` that fills `n` more levels, from depth `d`. -/
def climbEmpty : ℕ → ℕ → Uint256 → Filling Uint256
  | 0, _, current => pure current
  | n + 1, d, current => do
      let sibling ← fillerNext H d
      climbEmpty n (d + 1) (H.branchHash current sibling)

/-- Depth 0 of `Root`: the leaf pair. -/
def leafPair (left : Uint256) : Option Uint256 → Filling Uint256
  | some right => pure (H.branchHash left right)
  | none => do
      let sibling ← fillerNext H 0
      pure (H.branchHash left sibling)

/-- `Root` on a non-empty frontier. -/
def MerkleFrontier.climb (t : MerkleFrontier) (depth : ℕ) : Filling Uint256 := do
  let left ← derefLeft t.left
  let pair ← leafPair H left t.right
  let current ← climbParents H t.parents 1 pair
  climbEmpty H (depth - (1 + t.parents.length)) (1 + t.parents.length) current

/-- `ShieldedMerkleTree::Root(depth, filler)`. -/
def MerkleFrontier.rootAt (t : MerkleFrontier) (depth : ℕ) (filler : List Uint256) :
    Except AccessFault Uint256 :=
  if t.size = 0 then emptyRoot H depth
  else do
    let (current, _) ← (t.climb H depth).run filler
    pure current

/-- `ShieldedMerkleTree::Root()`. -/
def MerkleFrontier.root (t : MerkleFrontier) : Except AccessFault Uint256 :=
  t.rootAt H merkleDepth []

end Walk

/-! ## Walks that cannot fault -/

/-- The walk ends without a fault, whatever the filler holds. -/
def Filling.Succeeds {α : Type} (x : Filling α) : Prop := ∀ queue, ∃ r, x.run queue = .ok r

section Succeeds

variable {α β : Type} (H : MerkleHash)

theorem Filling.succeeds_pure (a : α) : Filling.Succeeds (pure a) :=
  fun queue => ⟨(a, queue), rfl⟩

variable {x : Filling α} {f : α → Filling β} {queue : List Uint256} {d depth : ℕ}
  {t : MerkleFrontier}

theorem Filling.Succeeds.bind (hx : Filling.Succeeds x)
    (hf : ∀ a, Filling.Succeeds (f a)) : Filling.Succeeds (x >>= f) := by
  intro queue
  obtain ⟨⟨a, queue'⟩, ha⟩ := hx queue
  obtain ⟨r, hr⟩ := hf a queue'
  refine ⟨r, ?_⟩
  rw [StateT.run_bind, ha]
  exact hr

theorem Filling.run_bind_eq_ok {r : β × List Uint256} :
    (x >>= f).run queue = .ok r ↔
      ∃ a queue', x.run queue = .ok (a, queue') ∧ (f a).run queue' = .ok r := by
  rw [StateT.run_bind, Util.bind_eq_ok, Prod.exists]

theorem Filling.run_lift_eq_ok {x : Except AccessFault α} {r : α × List Uint256} :
    (liftM x : Filling α).run queue = .ok r ↔ x = .ok r.1 ∧ r.2 = queue := by
  cases x with
  | error e => exact iff_of_false nofun fun h => nomatch h.1
  | ok a =>
    change Except.ok (a, queue) = Except.ok r ↔ _
    rw [Except.ok.injEq, Except.ok.injEq, Prod.ext_iff, @eq_comm _ r.2]

theorem fillerNext_succeeds (hd : d ≤ merkleDepth) : Filling.Succeeds (fillerNext H d) := by
  rintro (- | ⟨h, queue⟩)
  · refine ⟨(emptyRootTable H d, []), ?_⟩
    simp [fillerNext, emptyRoot, StateT.run, Nat.not_lt.2 hd, Except.map, pure, Except.pure]
  · exact ⟨(h, queue), rfl⟩

theorem climbParents_succeeds {parents : List (Option Uint256)}
    (hd : d + parents.length ≤ merkleDepth + 1) (current : Uint256) :
    Filling.Succeeds (climbParents H parents d current) := by
  induction parents generalizing d current with
  | nil => exact Filling.succeeds_pure current
  | cons parent parents ih =>
    have hd' : d + 1 + parents.length ≤ merkleDepth + 1 := by
      simp only [length_cons] at hd
      omega
    cases parent with
    | some parent => exact ih hd' _
    | none => exact (fillerNext_succeeds H (by omega)).bind fun _ => ih hd' _

theorem climbEmpty_succeeds {n : ℕ} (hd : d + n ≤ merkleDepth + 1) (current : Uint256) :
    Filling.Succeeds (climbEmpty H n d current) := by
  induction n generalizing d current with
  | zero => exact Filling.succeeds_pure current
  | succ n ih => exact (fillerNext_succeeds H (by omega)).bind fun _ => ih (by omega) _

/-- Past the dereference of `left_`, the walk of `Root` cannot fault. -/
theorem MerkleFrontier.climb_succeeds {l : Uint256}
    (hl : t.left = some l) (hp : t.parents.length ≤ merkleDepth) (hd : depth ≤ merkleDepth) :
    Filling.Succeeds (t.climb H depth) := by
  have hleft : Filling.Succeeds (liftM (derefLeft t.left) : Filling Uint256) := by
    rw [hl]
    exact Filling.succeeds_pure l
  refine hleft.bind fun left => Filling.Succeeds.bind ?_ fun pair => ?_
  · cases t.right with
    | some right => exact Filling.succeeds_pure _
    | none => exact (fillerNext_succeeds H zero_le).bind fun _ => Filling.succeeds_pure _
  · refine (climbParents_succeeds H (by omega) pair).bind fun current => ?_
    exact climbEmpty_succeeds H (by omega) current

/-- **`Root` is fault free exactly when a non-empty frontier has its left node.** -/
theorem MerkleFrontier.rootAt_ok_iff (filler : List Uint256)
    (hp : t.parents.length ≤ merkleDepth) (hd : depth ≤ merkleDepth) :
    (∃ r, t.rootAt H depth filler = .ok r) ↔ (t.size ≠ 0 → t.left.isSome) := by
  unfold MerkleFrontier.rootAt
  by_cases hs : t.size = 0
  · simp [hs, emptyRoot, Nat.not_lt.2 hd, pure, Except.pure]
  · cases hl : t.left with
    | none =>
      simp [hs, MerkleFrontier.climb, hl, derefLeft, Util.bind_eq_ok]
    | some l =>
      obtain ⟨⟨current, queue⟩, hc⟩ := MerkleFrontier.climb_succeeds H hl hp hd filler
      refine iff_of_true ⟨current, ?_⟩ (fun _ => rfl)
      rw [if_neg hs, hc]
      rfl

end Succeeds

/-! ## Appending and truncating -/

section Append

variable (H : MerkleHash)

/-- The carry of `Append`: `combined` climbs over the occupied parents. -/
def carry : List (Option Uint256) → Uint256 → List (Option Uint256)
  | [], combined => [some combined]
  | none :: parents, combined => some combined :: parents
  | some parent :: parents, combined => none :: carry parents (H.branchHash parent combined)

/-- What `Append` does to the frontier. -/
def MerkleFrontier.append (t : MerkleFrontier) (commitment : Uint256) : MerkleFrontier :=
  match t.left, t.right with
  | none, _ => { t with left := some commitment, size := t.size + 1 }
  | some _, none => { t with right := some commitment, size := t.size + 1 }
  | some l, some r =>
      { size := t.size + 1, left := some commitment, right := none,
        parents := carry H t.parents (H.branchHash l r) }

@[simp] theorem MerkleFrontier.append_size (t : MerkleFrontier) (c : Uint256) :
    (t.append H c).size = t.size + 1 := by
  unfold MerkleFrontier.append
  split <;> rfl

/-- The frontier after appending `commitments` to the empty tree. -/
def frontierOf (commitments : List Uint256) : MerkleFrontier :=
  commitments.foldl (MerkleFrontier.append H) MerkleFrontier.empty

theorem frontierOf_append (cs ds : List Uint256) :
    frontierOf H (cs ++ ds) = ds.foldl (MerkleFrontier.append H) (frontierOf H cs) :=
  foldl_append

@[simp] theorem frontierOf_size (cs : List Uint256) : (frontierOf H cs).size = cs.length := by
  induction cs using List.reverseRecOn with
  | nil => rfl
  | append_singleton cs c ih => simp [frontierOf_append, ih]

/-- `FRONTIER_CHECKPOINT_INTERVAL`. -/
def frontierCheckpointInterval : ℕ := 1024

/-- `ShieldedMerkleTree` with its in-memory commitment index and its frontier checkpoints. -/
structure IndexedTree where
  frontier : MerkleFrontier
  /-- `commitment_index_mem_` -/
  commitments : List Uint256
  /-- `frontier_checkpoints_` -/
  checkpoints : List MerkleFrontier
  deriving DecidableEq

namespace IndexedTree

def empty : IndexedTree := ⟨.empty, [], []⟩

variable (t : IndexedTree)

/-- `MaybeRecordFrontierCheckpoint`. -/
def maybeRecordFrontierCheckpoint : IndexedTree :=
  if t.frontier.size = 0 ∨ t.frontier.size % frontierCheckpointInterval ≠ 0 then t
  else if t.checkpoints.getLast?.map (·.size) = some t.frontier.size then t
  else { t with checkpoints := t.checkpoints ++ [t.frontier] }

/-- `Append` on a tree that is not full. -/
def push (commitment : Uint256) : IndexedTree :=
  maybeRecordFrontierCheckpoint
    { t with
      frontier := t.frontier.append H commitment
      commitments := t.commitments ++ [commitment] }

/-- Where `Truncate` resumes: the last checkpoint not above `newSize`, if it uses one. -/
def resumePoint (newSize : ℕ) : IndexedTree :=
  let below := t.checkpoints.takeWhile (·.size ≤ newSize)
  match below.getLast? with
  | none => empty
  | some cp =>
      if frontierCheckpointInterval ≤ newSize then
        { frontier := cp, commitments := t.commitments.take cp.size, checkpoints := below }
      else empty

/-- `Truncate` below the current size: resume and append the rest again. -/
def rebuild (newSize : ℕ) : IndexedTree :=
  let start := t.resumePoint newSize
  ((t.commitments.take newSize).drop start.frontier.size).foldl (push H) start

/-- Everything the tree stores is a function of the appended commitments: the frontier, and
each checkpoint as the frontier of a strict initial part. -/
structure IsBuilt (t : IndexedTree) : Prop where
  frontier_eq : t.frontier = frontierOf H t.commitments
  checkpoint_le : ∀ cp ∈ t.checkpoints, cp.size ≤ t.commitments.length
  checkpoint_eq : ∀ cp ∈ t.checkpoints, cp = frontierOf H (t.commitments.take cp.size)
  sorted : t.checkpoints.Pairwise (·.size < ·.size)

variable {H}

theorem empty_isBuilt : IsBuilt H empty :=
  ⟨rfl, by simp [empty], by simp [empty], by simp [empty]⟩

@[simp] theorem push_commitments (c : Uint256) :
    (t.push H c).commitments = t.commitments ++ [c] := by
  unfold push maybeRecordFrontierCheckpoint
  split_ifs <;> rfl

@[simp] theorem push_frontier (c : Uint256) : (t.push H c).frontier = t.frontier.append H c := by
  unfold push maybeRecordFrontierCheckpoint
  split_ifs <;> rfl

theorem push_checkpoints (c : Uint256) :
    (t.push H c).checkpoints = t.checkpoints ∨
      (t.push H c).checkpoints = t.checkpoints ++ [t.frontier.append H c] := by
  unfold push maybeRecordFrontierCheckpoint
  split_ifs
  · exact .inl rfl
  · exact .inl rfl
  · exact .inr rfl

variable {t : IndexedTree}

theorem IsBuilt.push (ht : IsBuilt H t) (c : Uint256) : IsBuilt H (t.push H c) := by
  have hfrontier : t.frontier.append H c = frontierOf H (t.commitments ++ [c]) := by
    rw [frontierOf_append, ht.frontier_eq]
    rfl
  have hold_le : ∀ cp ∈ t.checkpoints, cp.size ≤ (t.commitments ++ [c]).length := by
    intro cp hcp
    have := ht.checkpoint_le cp hcp
    simp only [length_append, length_singleton]
    omega
  have hold_eq : ∀ cp ∈ t.checkpoints, cp = frontierOf H ((t.commitments ++ [c]).take cp.size) := by
    intro cp hcp
    rw [take_append_of_le_length (ht.checkpoint_le cp hcp)]
    exact ht.checkpoint_eq cp hcp
  have hnew : (t.frontier.append H c).size = (t.commitments ++ [c]).length := by
    rw [hfrontier, frontierOf_size]
  obtain hcps | hcps := push_checkpoints (H := H) t c
  · refine ⟨?_, ?_, ?_, ?_⟩ <;> simp only [push_frontier, push_commitments, hcps]
    · exact hfrontier
    · exact hold_le
    · exact hold_eq
    · exact ht.sorted
  · refine ⟨?_, ?_, ?_, ?_⟩ <;>
      simp only [push_frontier, push_commitments, hcps, mem_append, mem_singleton]
    · exact hfrontier
    · rintro cp (hcp | rfl)
      · exact hold_le cp hcp
      · exact hnew.le
    · rintro cp (hcp | rfl)
      · exact hold_eq cp hcp
      · rw [hnew, take_length]
        exact hfrontier
    · refine pairwise_append.2 ⟨ht.sorted, pairwise_singleton _ _, ?_⟩
      -- every older checkpoint was taken at a smaller size
      intro cp hcp cp' hcp'
      rw [mem_singleton.1 hcp', hnew, length_append, length_singleton]
      exact Nat.lt_succ_of_le (ht.checkpoint_le cp hcp)

theorem IsBuilt.foldl_push (ht : IsBuilt H t) (cs : List Uint256) :
    IsBuilt H (cs.foldl (IndexedTree.push H) t) := by
  induction cs generalizing t with
  | nil => exact ht
  | cons c cs ih => exact ih (ht.push c)

theorem foldl_push_commitments (t : IndexedTree) (cs : List Uint256) :
    (cs.foldl (push H) t).commitments = t.commitments ++ cs := by
  induction cs generalizing t with
  | nil => simp
  | cons c cs ih => simp [ih]

theorem resumePoint_cases (t : IndexedTree) (newSize : ℕ) : t.resumePoint newSize = empty ∨
      ∃ older cp, (older ++ [cp]).Sublist t.checkpoints ∧ cp.size ≤ newSize ∧
        t.resumePoint newSize =
          { frontier := cp, commitments := t.commitments.take cp.size,
            checkpoints := older ++ [cp] } := by
  unfold resumePoint
  dsimp only
  split
  next => exact .inl rfl
  next cp hlast =>
    split_ifs with hn
    · obtain ⟨older, holder⟩ := getLast?_eq_some_iff.1 hlast
      refine .inr ⟨older, cp, holder ▸ takeWhile_sublist _, ?_, by rw [holder]⟩
      have hmem : cp ∈ t.checkpoints.takeWhile (·.size ≤ newSize) := by simp [holder]
      simpa using mem_takeWhile_imp hmem
    · exact .inl rfl

/-- Resuming starts from a frontier of an initial part. -/
theorem resumePoint_spec (ht : IsBuilt H t) (newSize : ℕ) :
    IsBuilt H (t.resumePoint newSize) ∧ (t.resumePoint newSize).frontier.size ≤ newSize ∧
      (t.resumePoint newSize).commitments =
        t.commitments.take (t.resumePoint newSize).frontier.size := by
  obtain hempty | ⟨older, cp, hsub, hcpn, hcp⟩ := resumePoint_cases t newSize
  · rw [hempty]
    exact ⟨empty_isBuilt, zero_le, rfl⟩
  · have hsorted := ht.sorted.sublist hsub
    have hle : ∀ cp' ∈ older ++ [cp], cp'.size ≤ cp.size := by
      simp only [mem_append, mem_singleton]
      rintro cp' (hcp' | rfl)
      · exact ((pairwise_append.1 hsorted).2.2 cp' hcp' cp (by simp)).le
      · exact le_rfl
    rw [hcp]
    refine ⟨⟨ht.checkpoint_eq cp (hsub.subset (by simp)), ?_, ?_, hsorted⟩, hcpn, rfl⟩
    · intro cp' hcp'
      have := ht.checkpoint_le cp' (hsub.subset hcp')
      have := hle cp' hcp'
      simp only [length_take]
      omega
    · intro cp' hcp'
      simp only [take_take, min_eq_left (hle cp' hcp')]
      exact ht.checkpoint_eq cp' (hsub.subset hcp')

/-- Cutting back leaves the first commitments. -/
theorem rebuild_spec (ht : IsBuilt H t) (newSize : ℕ) :
    IsBuilt H (t.rebuild H newSize) ∧
      (t.rebuild H newSize).commitments = t.commitments.take newSize := by
  obtain ⟨hbuilt, hle, hcs⟩ := resumePoint_spec ht newSize
  refine ⟨hbuilt.foldl_push _, ?_⟩
  unfold rebuild
  rw [foldl_push_commitments, hcs]
  conv_rhs => rw [← take_append_drop (t.resumePoint newSize).frontier.size
    (t.commitments.take newSize)]
  rw [take_take, min_eq_left hle]

end IndexedTree

/-- The tree the node holds: one built by `Append` from the empty tree. -/
structure ShieldedMerkleTree (H : MerkleHash) extends IndexedTree where
  built : IndexedTree.IsBuilt H toIndexedTree

namespace ShieldedMerkleTree

variable {H}

def empty : ShieldedMerkleTree H := ⟨.empty, IndexedTree.empty_isBuilt⟩

/-- `Size`. -/
def size (t : ShieldedMerkleTree H) : ℕ := t.frontier.size

variable (t : ShieldedMerkleTree H)

theorem size_eq : t.size = t.commitments.length := by
  rw [size, t.built.frontier_eq, frontierOf_size]

/-- `CommitmentAt`. -/
def commitmentAt (position : ℕ) : Option Uint256 :=
  if position < t.size then t.commitments[position]? else none

/-- `Append`. -/
def append (commitment : Uint256) : Except String (ShieldedMerkleTree H) :=
  if merkleMaxLeaves ≤ t.size then throw "ShieldedMerkleTree: tree is full (2^32 leaves)"
  else pure ⟨t.push H commitment, t.built.push commitment⟩

/-- `Truncate`: `none` where the source returns false. -/
def truncate (newSize : ℕ) : Option (ShieldedMerkleTree H) :=
  if t.size < newSize then none
  else if newSize = t.size then some t
  else some ⟨t.rebuild H newSize, (IndexedTree.rebuild_spec t.built newSize).1⟩

variable {t t' : ShieldedMerkleTree H}

theorem frontier_eq_of_commitments_eq
    (h : t.commitments = t'.commitments) : t.frontier = t'.frontier := by
  rw [t.built.frontier_eq, t'.built.frontier_eq, h]

theorem append_commitments {c : Uint256}
    (h : t.append c = .ok t') : t'.commitments = t.commitments ++ [c] := by
  unfold append at h
  obtain ⟨-, h⟩ := Util.ite_throw_eq_ok.1 h
  obtain rfl := Util.pure_eq_ok.1 h
  exact IndexedTree.push_commitments _ _

theorem truncate_eq_some {newSize : ℕ} (hn : newSize ≤ t.size) :
    ∃ t', t.truncate newSize = some t' ∧ t'.commitments = t.commitments.take newSize := by
  unfold truncate
  rw [if_neg (Nat.not_lt.2 hn)]
  split_ifs with heq
  · refine ⟨t, rfl, ?_⟩
    rw [heq, size_eq, take_length]
  · exact ⟨_, rfl, (IndexedTree.rebuild_spec t.built newSize).2⟩

end ShieldedMerkleTree

end Append

end Btx.Shielded
