/-
# The roots a spend may refer to

The node keeps the roots of the last `SHIELDED_ANCHOR_DEPTH + 1` blocks in a queue, newest first:
`ConnectBlock` pushes one and drops the oldest, `DisconnectBlock` pops one (`src/validation.cpp`).
When a lookup fails, the block is given one rebuild of the queue from the active chain, unless the
last one was made with the same tree and account registry (`anchors_accepted_iff_window`).
-/

import Btx.Shielded.RegistryProof
import Btx.Shielded.MerkleRoot
import Btx.Util.RecentValues
import Btx.Validation.EgressHistory
import Btx.Validation.Rebuild

namespace Btx

open List
open Option (bind_eq_bind bind_eq_some_iff some.injEq some.inj)

namespace Shielded
namespace ShieldedMerkleTree

variable {H : MerkleHash}

/-- `Root()`. A tree within its limit has one (`root_eq`). -/
def root (t : ShieldedMerkleTree H) : Uint256 := (t.frontier.root H).toOption.getD 0

/-- `RemoveLast`. -/
def removeLast (t : ShieldedMerkleTree H) (count : ℕ) : Option (ShieldedMerkleTree H) :=
  if t.size < count then none else t.truncate (t.size - count)

variable {t : ShieldedMerkleTree H}

theorem root_eq (ht : t.commitments.length ≤ merkleMaxLeaves) :
    t.root = paddedRoot H t.commitments := by
  rw [root, t.built.frontier_eq, root_frontierOf _ ht]
  rfl

theorem removeLast_append {cs ds : List Uint256} (ht : t.commitments = cs ++ ds) :
    ∃ t', t.removeLast ds.length = some t' ∧ t'.commitments = cs := by
  have hsize : t.size = cs.length + ds.length := by rw [size_eq, ht, length_append]
  obtain ⟨t', ht', hkept⟩ := truncate_eq_some (Nat.sub_le t.size ds.length)
  refine ⟨t', ?_, ?_⟩
  · rw [removeLast, if_neg (by omega), ht']
  · rw [hkept, ht, hsize, Nat.add_sub_cancel, take_left]

end ShieldedMerkleTree
end Shielded

namespace Validation

open Util Shielded ShieldedMerkleTree

/-- `SHIELDED_ANCHOR_DEPTH`. -/
def shieldedAnchorDepth : ℕ := 100

/-- `ShieldedAutoRepairGeneration`: the root and the size of the tree, and the registry root. -/
abbrev ShieldedAutoRepairGeneration := Uint256 × ℕ × Uint256

/-- The roots the node tracks. -/
structure AnchorRoots where
  /-- `m_shielded_anchor_roots`, newest first -/
  roots : List Uint256
  /-- `m_last_shielded_anchor_auto_repair_generation` -/
  lastRepair : Option ShieldedAutoRepairGeneration := none
deriving DecidableEq

namespace AnchorRoots

/-- `RecordShieldedAnchorRoot`. -/
def record (n : AnchorRoots) (root : Uint256) : AnchorRoots :=
  if root.IsNull then n
  else { n with roots := (root :: n.roots).take (shieldedAnchorDepth + 1) }

/-- `IsShieldedAnchorValid`. -/
def isShieldedAnchorValid (n : AnchorRoots) (anchor : Uint256) : Bool :=
  decide (¬anchor.IsNull ∧ anchor ∈ n.roots)

end AnchorRoots

/-- The loop body of `TryCountShieldedOutputs`: `none` where the count would not fit in 64 bits. -/
def addOutputCount (count : ℕ) (tx : CTransaction) : Option ℕ :=
  if tx.hasShieldedBundle then
    if 2 ^ 64 - 1 - tx.shieldedBundle.shieldedOutputCount < count then none
    else some (count + tx.shieldedBundle.shieldedOutputCount)
  else some count

/-- `TryCountShieldedOutputs`. -/
def tryCountShieldedOutputs (block : CBlock) : Option ℕ := block.vtx.foldlM addOutputCount 0

/-- The scratch tree without the outputs of a block. -/
def withoutOutputs {H : MerkleHash} (tree : ShieldedMerkleTree H) (outputCount : ℕ) :
    Option (ShieldedMerkleTree H) :=
  if 0 < outputCount then tree.removeLast outputCount else some tree

/-- A root, unless it is null. -/
def trackedRoot {H : MerkleHash} (tree : ShieldedMerkleTree H) : List Uint256 :=
  if tree.root.IsNull then [] else [tree.root]

/-- The loop of `CollectShieldedAnchorHistoryFromTree`, over the active blocks, tip first. -/
def collectRoots {H : MerkleHash} : ℕ → List CBlock → ShieldedMerkleTree H → Option (List Uint256)
  | 0, _, _ => some []
  | _ + 1, [], _ => some []
  | depth + 1, block :: blocks, tree => do
      let outputCount ← tryCountShieldedOutputs block
      let tree ← withoutOutputs tree outputCount
      let rest ← collectRoots depth blocks tree
      pure (trackedRoot tree ++ rest)

/-- `CollectShieldedAnchorHistoryFromTree`. -/
def collectShieldedAnchorHistoryFromTree {H : MerkleHash} (blocks : List CBlock)
    (tree : ShieldedMerkleTree H) : Option (List Uint256) :=
  (collectRoots shieldedAnchorDepth blocks tree).map (trackedRoot tree ++ ·)

/-- The anchors a block refers to, in the order they are looked up. -/
def blockAnchors (block : CBlock) : List Uint256 :=
  (block.vtx.filter (·.hasShieldedBundle)).flatMap (collectShieldedAnchors ·.shieldedBundle)

/-- The anchor lookups of one block: the tracked roots and `shielded_anchor_repair_attempted`. -/
structure AnchorCheck where
  node : AnchorRoots
  repairAttempted : Bool := false

section Node

variable (env : Env) (R : RegistryHash) (genesis : CBlock) (chain : List Connection)
  (s : ShieldedState env.merkle)

variable (n : AnchorRoots)

/-- `RebuildShieldedAnchorHistory` from the active chain. The blocks can be read. -/
def rebuildShieldedAnchorHistory : Option AnchorRoots :=
  (collectShieldedAnchorHistoryFromTree (chain.map (·.block) ++ [genesis]) s.tree).map
    fun roots => { n with roots := roots }

/-- `current_generation`. -/
def repairGeneration : ShieldedAutoRepairGeneration := (s.tree.root, s.tree.size, s.registry.root R)

/-- `TryAutoRepairShieldedAnchorHistory`, with `MarkShieldedAutoRepairAttempt`. -/
def tryAutoRepairShieldedAnchorHistory : Bool × AnchorRoots :=
  if n.lastRepair = some (repairGeneration env R s) then (false, n)
  else
    let marked := { n with lastRepair := some (repairGeneration env R s) }
    match rebuildShieldedAnchorHistory env genesis chain s marked with
    | none => (false, marked)
    | some repaired => (true, repaired)

/-- The loop body over the anchors of a bundle. -/
def checkAnchor (c : AnchorCheck) (anchor : Uint256) : Bool × AnchorCheck :=
  if c.node.isShieldedAnchorValid anchor then (true, c)
  else if c.repairAttempted then (false, c)
  else
    let repair := tryAutoRepairShieldedAnchorHistory env R genesis chain s c.node
    (repair.1 && repair.2.isShieldedAnchorValid anchor, ⟨repair.2, true⟩)

/-- The lookups up to the first that is refused. -/
def checkAnchors (c : AnchorCheck) : List Uint256 → Bool × AnchorCheck
  | [] => (true, c)
  | anchor :: anchors =>
      match checkAnchor env R genesis chain s c anchor with
      | (true, c') => checkAnchors c' anchors
      | (false, c') => (false, c')

/-- Whether a block with these anchors passes the lookups. -/
def anchorsAccepted (anchors : List Uint256) : Bool :=
  (checkAnchors env R genesis chain s ⟨n, false⟩ anchors).1

/-- The tracked roots after lookups. -/
def anchorsChecked (anchors : List Uint256) : AnchorRoots :=
  (checkAnchors env R genesis chain s ⟨n, false⟩ anchors).2.node

/-- The end of `DisconnectBlock`, on the chain and the state without the block. -/
def disconnectAnchorRoots : Option AnchorRoots :=
  let popped := { n with roots := n.roots.tail }
  match popped.roots with
  | [] => some (popped.record s.tree.root)
  | front :: _ =>
      if front = s.tree.root then some popped
      else rebuildShieldedAnchorHistory env genesis chain s popped

end Node

/-- The active chain, the shielded state and the tracked roots of a node that connects and
disconnects blocks in any order, and may check a block that it does not connect. No root is the null
hash, which the code does not track. -/
inductive AnchorRun (env : Env) (R : RegistryHash) (genesis : CBlock) :
    List Connection → ShieldedState env.merkle → AnchorRoots → Prop
  | start {n : AnchorRoots} (hgenesis : ∀ tx ∈ genesis.vtx, tx.hasShieldedBundle = false)
      (hroot : ¬(ShieldedState.empty : ShieldedState env.merkle).tree.root.IsNull)
      (hinit : rebuildShieldedAnchorHistory env genesis [] .empty ⟨[], none⟩ = some n) :
      AnchorRun env R genesis [] .empty n
  | check {chain : List Connection} {s : ShieldedState env.merkle} {n : AnchorRoots}
      (anchors : List Uint256) (h : AnchorRun env R genesis chain s n) :
      AnchorRun env R genesis chain s (anchorsChecked env R genesis chain s n anchors)
  | connect {chain : List Connection} {s s' : ShieldedState env.merkle} {n : AnchorRoots}
      {ctx : BlockContext} {coins coins' : CoinsView} {block : CBlock} {undo : BlockUndo}
      (h : AnchorRun env R genesis chain s n)
      (hanchors : ctx.anchorValid = fun a => anchorsAccepted env R genesis chain s n [a])
      (hconnect : connectBlock env ctx ⟨coins, s⟩ block = .ok (⟨coins', s'⟩, undo))
      (hroot : ¬s'.tree.root.IsNull) :
      AnchorRun env R genesis (⟨block, ctx.height, undo⟩ :: chain) s'
        ((anchorsChecked env R genesis chain s n (blockAnchors block)).record s'.tree.root)
  | disconnect {c : Connection} {chain : List Connection} {s s' : ShieldedState env.merkle}
      {n n' : AnchorRoots} (h : AnchorRun env R genesis (c :: chain) s n)
      (hdisconnect : disconnectBlock env c.height c.block c.undo s = some s')
      (hroots : disconnectAnchorRoots env genesis chain s' n = some n') :
      AnchorRun env R genesis chain s' n'

/-! ## The tree of the active chain -/

/-- The note commitments of a block, in the order they are appended. -/
def blockCommitments (block : CBlock) : List Uint256 :=
  (block.vtx.filter (·.hasShieldedBundle)).flatMap
    (collectShieldedOutputCommitments ·.shieldedBundle)

/-- The note commitments of a chain, oldest first. -/
def chainCommitments : List Connection → List Uint256
  | [] => []
  | c :: chain => chainCommitments chain ++ blockCommitments c.block

/-- The root after the tip of a chain. -/
def chainRoot (env : Env) (chain : List Connection) : Uint256 :=
  paddedRoot env.merkle (chainCommitments chain)

/-- The roots after the last `SHIELDED_ANCHOR_DEPTH + 1` blocks of a chain. Below the first block
is the genesis block, with the empty tree. -/
def anchorWindow (env : Env) (chain : List Connection) : List Uint256 :=
  recent (chainRoot env) chain (shieldedAnchorDepth + 1)

section Tree

variable {env : Env} {ctx : BlockContext} {s s' : ShieldedState env.merkle} {block : CBlock}
  {chain : List Connection}

theorem foldlM_append_length_le {cms : List Uint256} {t t' : ShieldedMerkleTree env.merkle}
    (h : cms.foldlM ShieldedMerkleTree.append t = .ok t')
    (ht : t.commitments.length ≤ merkleMaxLeaves) : t'.commitments.length ≤ merkleMaxLeaves := by
  induction cms generalizing t with
  | nil =>
    obtain rfl : t = t' := by simpa using h
    exact ht
  | cons cm cms ih =>
    obtain ⟨t₁, ht₁, hrest⟩ := bind_eq_ok.1 (by simpa using h)
    refine ih hrest ?_
    rw [append_commitments ht₁, length_append, length_singleton, ← size_eq]
    exact Nat.lt_of_not_le (ite_throw_eq_ok.1 ht₁).1

theorem connectTxs_commitments {vtx : List CTransaction} {loop loop' : LoopState env.merkle}
    (h : vtx.foldlM (connectTx env ctx s) loop = .ok loop') :
    loop'.acc.tree.commitments = loop.acc.tree.commitments ++ blockCommitments ⟨vtx⟩ ∧
      (loop.acc.tree.commitments.length ≤ merkleMaxLeaves →
        loop'.acc.tree.commitments.length ≤ merkleMaxLeaves) := by
  induction vtx generalizing loop with
  | nil =>
    obtain rfl : loop = loop' := by simpa using h
    exact ⟨(append_nil _).symm, id⟩
  | cons tx vtx ih =>
    obtain ⟨mid, hstep, hrest⟩ := bind_eq_ok.1 (by simpa using h)
    obtain ⟨hcommit, hle⟩ := ih hrest
    obtain ⟨⟨hb, hacc⟩ | ⟨hb, hacc⟩, -⟩ := connectTx_ok hstep
    · rw [hacc] at hcommit hle
      refine ⟨?_, hle⟩
      rw [hcommit, blockCommitments, blockCommitments, filter_cons_of_neg (by simp [hb])]
    · obtain ⟨_, _, _, _, _, -, -, -, -, -, -, htree, -⟩ := shieldedTx_collects hacc
      rw [foldlM_append_commitments htree] at hcommit
      refine ⟨?_, fun hloop => hle (foldlM_append_length_le htree hloop)⟩
      rw [hcommit, blockCommitments, blockCommitments, filter_cons_of_pos hb,
        flatMap_cons, append_assoc]

variable {undo : BlockUndo} {height : ℕ}

theorem connectBlock_commitments {st st' : ChainState env.merkle}
    (h : connectBlock env ctx st block = .ok (st', undo)) :
    st'.shielded.tree.commitments = st.shielded.tree.commitments ++ blockCommitments block ∧
      (st.shielded.tree.commitments.length ≤ merkleMaxLeaves →
        st'.shielded.tree.commitments.length ≤ merkleMaxLeaves) := by
  obtain ⟨loop, hvalid, htree, -⟩ := connectBlock_memory h
  rw [htree]
  exact connectTxs_commitments (validateBlock_ok hvalid).2.1

theorem length_blockCommitments : (blockCommitments block).length =
      ((block.vtx.filter (·.hasShieldedBundle)).map
        (·.shieldedBundle.shieldedOutputCount)).sum := by
  simp [blockCommitments, length_flatMap, collectShieldedOutputCommitments_length]

theorem blockUndoData_outputCount {ds : List TxUndoData}
    (h : blockUndoData env height block = some ds) :
    (ds.map (·.outputCount)).sum = (blockCommitments block).length := by
  rw [length_blockCommitments]
  unfold blockUndoData at h
  generalize block.vtx.filter (·.hasShieldedBundle) = txs at h
  induction txs generalizing ds with
  | nil =>
    obtain rfl : ds = [] := by simpa using h.symm
    rfl
  | cons tx txs ih =>
    simp only [mapM_cons, bind_eq_bind, bind_eq_some_iff, Option.pure_def, some.injEq] at h
    obtain ⟨d, hd, ds', hds', rfl⟩ := h
    simp only [txUndoData, bind_eq_bind, bind_eq_some_iff, Option.pure_def, some.injEq] at hd
    obtain ⟨_, -, _, -, _, -, _, -, rfl⟩ := hd
    rw [map_cons, sum_cons, ih hds', map_cons, sum_cons]

theorem disconnectBlock_commitments {cs : List Uint256}
    (h : disconnectBlock env height block undo s = some s')
    (hs : s.tree.commitments = cs ++ blockCommitments block) : s'.tree.commitments = cs := by
  rcases disconnectBlock_cases h with ⟨ds, _, hds, -, -, htree, -⟩ | ⟨hfilter, rfl⟩
  · obtain ⟨tree', htree', hcommit⟩ := removeLast_append hs
    rw [blockUndoData_outputCount hds] at htree
    have hsize : ¬s.tree.size < (blockCommitments block).length := by
      rw [size_eq, hs, length_append]
      omega
    rw [ShieldedMerkleTree.removeLast, if_neg hsize, htree] at htree'
    cases htree'
    exact hcommit
  · rw [hs, blockCommitments, hfilter]
    exact append_nil _

end Tree

/-! ## The rebuilt roots -/

section Rebuilt

variable {env : Env} {R : RegistryHash} {genesis : CBlock} {chain : List Connection}
  {s s' : ShieldedState env.merkle} {n : AnchorRoots}

theorem foldlM_addOutputCount {vtx : List CTransaction} {count : ℕ}
    (hlen : count + (blockCommitments ⟨vtx⟩).length < 2 ^ 64) :
    vtx.foldlM addOutputCount count = some (count + (blockCommitments ⟨vtx⟩).length) := by
  induction vtx generalizing count with
  | nil => rfl
  | cons tx vtx ih =>
    rw [length_blockCommitments] at hlen ⊢
    rw [foldlM_cons, addOutputCount]
    cases hb : tx.hasShieldedBundle with
    | false =>
      rw [filter_cons_of_neg (by simp [hb]), ← length_blockCommitments] at hlen ⊢
      exact ih hlen
    | true =>
      rw [filter_cons_of_pos hb, map_cons, sum_cons, ← length_blockCommitments]
        at hlen ⊢
      rw [if_pos rfl, if_neg (by omega), ← add_assoc]
      exact ih (by omega)

theorem tryCountShieldedOutputs_eq {block : CBlock}
    (hlen : (blockCommitments block).length < 2 ^ 64) :
    tryCountShieldedOutputs block = some (blockCommitments block).length := by
  rw [tryCountShieldedOutputs, foldlM_addOutputCount (by simpa using hlen), zero_add]

/-- The state holds the tree of the chain, whose roots are not null. -/
structure HoldsTree (env : Env) (chain : List Connection) (tree : ShieldedMerkleTree env.merkle) :
    Prop where
  commitments : tree.commitments = chainCommitments chain
  within : tree.commitments.length ≤ merkleMaxLeaves
  roots_ne_null : ∀ i, ¬(chainRoot env (chain.drop i)).IsNull

variable {tree : ShieldedMerkleTree env.merkle} {a : Uint256}

theorem HoldsTree.root (h : HoldsTree env chain tree) : tree.root = chainRoot env chain := by
  rw [root_eq h.within, h.commitments, chainRoot]

theorem HoldsTree.trackedRoot
    (h : HoldsTree env chain tree) : trackedRoot tree = [chainRoot env chain] := by
  have hnull : ¬(chainRoot env chain).IsNull := h.roots_ne_null 0
  rw [Validation.trackedRoot, h.root, if_neg hnull]

theorem HoldsTree.of_cons {c : Connection} {tree' : ShieldedMerkleTree env.merkle}
    (h : HoldsTree env (c :: chain) tree) (htree : tree'.commitments = chainCommitments chain) :
    HoldsTree env chain tree' where
  commitments := htree
  within := by
    have hwithin := h.within
    rw [h.commitments, chainCommitments, length_append] at hwithin
    rw [htree]
    omega
  roots_ne_null i := h.roots_ne_null (i + 1)

variable (hgenesis : ∀ tx ∈ genesis.vtx, tx.hasShieldedBundle = false)

include hgenesis in
/-- **The collected roots.** The loop cuts back block by block, and finds the roots after the
blocks of the chain. -/
theorem HoldsTree.collectRoots {depth : ℕ} (h : HoldsTree env chain tree) :
    collectRoots depth (chain.map (·.block) ++ [genesis]) tree =
      some (recent (chainRoot env) chain.tail (min depth (chain.length + 1))) := by
  induction chain generalizing depth tree with
  | nil =>
    cases depth with
    | zero => rfl
    | succ depth =>
      have hcommit : blockCommitments genesis = [] := by
        rw [blockCommitments, filter_eq_nil_iff.2 fun tx htx => by simp [hgenesis tx htx]]
        rfl
      have hcount : tryCountShieldedOutputs genesis = some 0 := by
        rw [tryCountShieldedOutputs_eq (by simp [hcommit]), hcommit]
        rfl
      have hrest : Validation.collectRoots depth [] tree = some [] := by cases depth <;> rfl
      simp [Validation.collectRoots, hcount, withoutOutputs, hrest, h.trackedRoot, recent]
  | cons c chain ih =>
    cases depth with
    | zero => simp [Validation.collectRoots, recent]
    | succ depth =>
      obtain ⟨tree', hremove, hcommit⟩ := removeLast_append h.commitments
      have h' := h.of_cons hcommit
      have hcount : tryCountShieldedOutputs c.block =
          some (blockCommitments c.block).length := by
        have hwithin := h.within
        rw [h.commitments, chainCommitments, length_append] at hwithin
        refine tryCountShieldedOutputs_eq (lt_of_le_of_lt (by omega : _ ≤ merkleMaxLeaves) ?_)
        decide
      have hcut : ∃ t, withoutOutputs tree (blockCommitments c.block).length = some t ∧
          HoldsTree env chain t := by
        unfold withoutOutputs
        split_ifs with hpos
        · exact ⟨tree', hremove, h'⟩
        · have hnil : blockCommitments c.block = [] := length_eq_zero_iff.1 (by omega)
          refine ⟨tree, rfl, h.of_cons ?_⟩
          rw [h.commitments, chainCommitments, hnil, append_nil]
      obtain ⟨t, ht, hholds⟩ := hcut
      rw [map_cons, cons_append, Validation.collectRoots, hcount]
      simp only [bind_eq_bind, Option.bind_some, ht, ih hholds, hholds.trackedRoot,
        Option.pure_def, singleton_append]
      rw [← recent_succ, length_cons, tail_cons, Nat.add_min_add_right]

include hgenesis in
theorem HoldsTree.rebuild (h : HoldsTree env chain s.tree) (n : AnchorRoots) :
    ∃ m ≤ shieldedAnchorDepth,
      rebuildShieldedAnchorHistory env genesis chain s n =
        some { n with roots := recent (chainRoot env) chain (m + 1) } ∧
      anchorWindow env chain ⊆ recent (chainRoot env) chain (m + 1) := by
  refine ⟨min shieldedAnchorDepth (chain.length + 1), min_le_left _ _, ?_, ?_⟩
  · rw [rebuildShieldedAnchorHistory, collectShieldedAnchorHistoryFromTree,
      h.collectRoots hgenesis, h.trackedRoot, recent_succ]
    rfl
  · rcases Nat.le_total shieldedAnchorDepth (chain.length + 1) with hle | hle
    · rw [min_eq_left hle]
      exact .refl _
    · rw [min_eq_right hle]
      exact recent_subset_of_length (by omega)

/-! ## The verdict -/

/-- The tracked roots are the newest ones of the chain: one at least, and not more than the
window has. -/
def IsRecent (env : Env) (chain : List Connection) (n : AnchorRoots) : Prop :=
  ∃ m ≤ shieldedAnchorDepth, n.roots = recent (chainRoot env) chain (m + 1)

variable (hn : IsRecent env chain n)

include hn in
theorem IsRecent.mem_window (ha : a ∈ n.roots) : a ∈ anchorWindow env chain := by
  obtain ⟨m, hm, hroots⟩ := hn
  rw [hroots] at ha
  exact recent_subset (by omega) ha

include hn in
theorem IsRecent.isShieldedAnchorValid_iff (h : HoldsTree env chain s.tree) :
    n.isShieldedAnchorValid a = true ↔ a ∈ n.roots := by
  rw [AnchorRoots.isShieldedAnchorValid, decide_eq_true_iff]
  refine ⟨fun ha => ha.2, fun ha => ⟨?_, ha⟩⟩
  obtain ⟨i, -, rfl⟩ := mem_recent.1 (hn.mem_window ha)
  exact h.roots_ne_null i

variable (R) in
theorem HoldsTree.tryAutoRepair (hgenesis : ∀ tx ∈ genesis.vtx, tx.hasShieldedBundle = false)
    (h : HoldsTree env chain s.tree) (n : AnchorRoots) :
    (n.lastRepair = some (repairGeneration env R s) ∧
      tryAutoRepairShieldedAnchorHistory env R genesis chain s n = (false, n)) ∨
    (n.lastRepair ≠ some (repairGeneration env R s) ∧
      ∃ n', tryAutoRepairShieldedAnchorHistory env R genesis chain s n = (true, n') ∧
        IsRecent env chain n' ∧ ∀ a ∈ anchorWindow env chain, a ∈ n'.roots) := by
  unfold tryAutoRepairShieldedAnchorHistory
  split_ifs with hlast
  · exact .inl ⟨hlast, rfl⟩
  · obtain ⟨m, hm, hrebuild, hwindow⟩ :=
      h.rebuild hgenesis { n with lastRepair := some (repairGeneration env R s) }
    refine .inr ⟨hlast, ⟨recent (chainRoot env) chain (m + 1), some (repairGeneration env R s)⟩,
      ?_, ⟨m, hm, rfl⟩, fun a ha => hwindow ha⟩
    simp only [hrebuild]

include hn in
theorem IsRecent.checkAnchors_attempted (h : HoldsTree env chain s.tree) (anchors : List Uint256) :
    (checkAnchors env R genesis chain s ⟨n, true⟩ anchors).2.node = n ∧
      ((checkAnchors env R genesis chain s ⟨n, true⟩ anchors).1 = true ↔
        ∀ a ∈ anchors, a ∈ n.roots) := by
  induction anchors with
  | nil => simp [checkAnchors]
  | cons a anchors ih =>
    by_cases ha : a ∈ n.roots
    · have hstep : checkAnchor env R genesis chain s ⟨n, true⟩ a = (true, ⟨n, true⟩) := by
        rw [checkAnchor, if_pos ((hn.isShieldedAnchorValid_iff h).2 ha)]
      rw [checkAnchors, hstep]
      exact ⟨ih.1, by simpa [ha] using ih.2⟩
    · have hinvalid : ¬n.isShieldedAnchorValid a = true :=
        fun hvalid => ha ((hn.isShieldedAnchorValid_iff h).1 hvalid)
      have hstep : checkAnchor env R genesis chain s ⟨n, true⟩ a = (false, ⟨n, true⟩) := by
        rw [checkAnchor, if_neg hinvalid, if_pos rfl]
      rw [checkAnchors, hstep]
      simp [ha]

include hn in
/-- **One block.** An anchor passes if its root is tracked, or if it is in the window and the last
repair was made at another generation. The tracked roots stay the newest ones of the chain. -/
theorem IsRecent.checkAnchors (hgenesis : ∀ tx ∈ genesis.vtx, tx.hasShieldedBundle = false)
    (h : HoldsTree env chain s.tree) (anchors : List Uint256) :
    IsRecent env chain (anchorsChecked env R genesis chain s n anchors) ∧
      (anchorsAccepted env R genesis chain s n anchors = true ↔ ∀ a ∈ anchors, a ∈ n.roots ∨
        n.lastRepair ≠ some (repairGeneration env R s) ∧ a ∈ anchorWindow env chain) := by
  unfold anchorsChecked anchorsAccepted
  induction anchors with
  | nil => simpa [Validation.checkAnchors] using hn
  | cons a anchors ih =>
    by_cases ha : a ∈ n.roots
    · have hstep : checkAnchor env R genesis chain s ⟨n, false⟩ a = (true, ⟨n, false⟩) := by
        rw [checkAnchor, if_pos ((hn.isShieldedAnchorValid_iff h).2 ha)]
      rw [Validation.checkAnchors, hstep]
      exact ⟨ih.1, by simpa [ha] using ih.2⟩
    · have hinvalid : ¬n.isShieldedAnchorValid a = true :=
        fun hvalid => ha ((hn.isShieldedAnchorValid_iff h).1 hvalid)
      rcases h.tryAutoRepair R hgenesis n with ⟨hlast, hrepair⟩ | ⟨hlast, n', hrepair, hn', hall⟩
      · have hstep : checkAnchor env R genesis chain s ⟨n, false⟩ a = (false, ⟨n, true⟩) := by
          rw [checkAnchor, if_neg hinvalid]
          simp [hrepair]
        rw [Validation.checkAnchors, hstep]
        exact ⟨hn, by simp [ha, hlast]⟩
      · have hmem : ∀ b, b ∈ n'.roots ↔ b ∈ anchorWindow env chain :=
          fun b => ⟨hn'.mem_window, hall b⟩
        have hvalid' := hn'.isShieldedAnchorValid_iff h (a := a)
        by_cases hwindow : a ∈ anchorWindow env chain
        · have hstep : checkAnchor env R genesis chain s ⟨n, false⟩ a = (true, ⟨n', true⟩) := by
            rw [checkAnchor, if_neg hinvalid]
            simp [hrepair, hvalid'.2 (hall a hwindow)]
          obtain ⟨hnode, hverdict⟩ := hn'.checkAnchors_attempted h anchors
          rw [Validation.checkAnchors, hstep]
          refine ⟨?_, hverdict.trans ?_⟩
          · change IsRecent env chain
              (Validation.checkAnchors env R genesis chain s ⟨n', true⟩ anchors).2.node
            rwa [hnode]
          simp only [hmem, forall_mem_cons, hlast, hwindow, ne_eq, not_false_eq_true,
            true_and, or_true]
          exact forall₂_congr fun b _ => ⟨.inr, fun hb => hb.elim hn.mem_window id⟩
        · have hrefused : n'.isShieldedAnchorValid a = false := by
            rw [Bool.eq_false_iff]
            exact fun hvalid => hwindow (hn'.mem_window (hvalid'.1 hvalid))
          have hstep : checkAnchor env R genesis chain s ⟨n, false⟩ a = (false, ⟨n', true⟩) := by
            rw [checkAnchor, if_neg hinvalid]
            simp [hrepair, hrefused]
          rw [Validation.checkAnchors, hstep]
          exact ⟨hn', by simp [ha, hwindow]⟩

end Rebuilt

/-! ## Runs -/

section Runs

variable {env : Env} {R : RegistryHash} {genesis : CBlock} {chain : List Connection}
  {s s' : ShieldedState env.merkle} {n n' : AnchorRoots}

theorem AnchorRun.genesis_plain (h : AnchorRun env R genesis chain s n) :
    ∀ tx ∈ genesis.vtx, tx.hasShieldedBundle = false := by
  induction h with
  | start hgenesis => exact hgenesis
  | check _ _ ih => exact ih
  | connect _ _ _ _ ih => exact ih
  | disconnect _ _ _ ih => exact ih

theorem IsRecent.record {c : Connection} {tree : ShieldedMerkleTree env.merkle}
    (hn : IsRecent env chain n) (h : HoldsTree env (c :: chain) tree) :
    IsRecent env (c :: chain) (n.record tree.root) := by
  obtain ⟨m, hm, hroots⟩ := hn
  have hnull : ¬(chainRoot env (c :: chain)).IsNull := h.roots_ne_null 0
  refine ⟨min shieldedAnchorDepth (m + 1), min_le_left _ _, ?_⟩
  rw [AnchorRoots.record, h.root, if_neg hnull, hroots]
  change (_ :: recent (chainRoot env) chain (m + 1)).take _ = _
  rw [push_recent, Nat.add_min_add_right]

/-- A pop keeps the newest roots, and finds the root of the tree in front: the rebuild that
`DisconnectBlock` provides for is not needed. -/
theorem IsRecent.disconnect {c : Connection} (hn : IsRecent env (c :: chain) n)
    (h : HoldsTree env chain s.tree) :
    ∃ n', disconnectAnchorRoots env genesis chain s n = some n' ∧ IsRecent env chain n' := by
  obtain ⟨m, hm, hroots⟩ := hn
  have htail : n.roots.tail = recent (chainRoot env) chain m := by
    rw [hroots, recent_succ, tail_cons, tail_cons]
  have hnull : ¬(chainRoot env chain).IsNull := h.roots_ne_null 0
  unfold disconnectAnchorRoots
  cases m with
  | zero =>
    have hnil : n.roots.tail = [] := htail
    simp only [hnil, AnchorRoots.record, h.root, if_neg hnull]
    exact ⟨_, rfl, 0, zero_le, rfl⟩
  | succ m =>
    rw [recent_succ] at htail
    simp only [htail, h.root, if_true]
    exact ⟨_, rfl, m, by omega, recent_succ.symm⟩

/-- **The invariant of a run.** The tree is that of the active chain, and the tracked roots are the
newest ones of the chain. -/
theorem AnchorRun.recent (h : AnchorRun env R genesis chain s n) :
    HoldsTree env chain s.tree ∧ IsRecent env chain n := by
  induction h with
  | start hgenesis hroot hinit =>
    have hholds : HoldsTree env [] (ShieldedState.empty : ShieldedState env.merkle).tree := by
      have hempty : (ShieldedState.empty : ShieldedState env.merkle).tree.commitments = [] := rfl
      refine ⟨hempty, by simp [hempty], fun i => ?_⟩
      rw [root_eq (by simp [hempty]), hempty] at hroot
      rwa [drop_nil]
    obtain ⟨m, hm, hrebuild, -⟩ := hholds.rebuild hgenesis ⟨[], none⟩
    obtain rfl := some.inj (hinit.symm.trans hrebuild)
    exact ⟨hholds, m, hm, rfl⟩
  | check anchors h ih => exact ⟨ih.1, (ih.2.checkAnchors h.genesis_plain ih.1 anchors).1⟩
  | @connect chain s s' n ctx coins coins' block undo h hanchors hconnect hroot ih =>
    obtain ⟨hholds, hn⟩ := ih
    obtain ⟨hcommit, hwithin⟩ := connectBlock_commitments hconnect
    have hcommit' : s'.tree.commitments =
        chainCommitments (⟨block, ctx.height, undo⟩ :: chain) :=
      hcommit.trans (congrArg (· ++ _) hholds.commitments)
    have hholds' : HoldsTree env (⟨block, ctx.height, undo⟩ :: chain) s'.tree := by
      refine ⟨hcommit', hwithin hholds.within, fun i => ?_⟩
      cases i with
      | zero =>
        rw [root_eq (hwithin hholds.within), hcommit'] at hroot
        exact hroot
      | succ i => exact hholds.roots_ne_null i
    exact ⟨hholds', (hn.checkAnchors h.genesis_plain hholds (blockAnchors block)).1.record hholds'⟩
  | disconnect _ hdisconnect hroots ih =>
    obtain ⟨hholds, hn⟩ := ih
    have hholds' := hholds.of_cons (disconnectBlock_commitments hdisconnect hholds.commitments)
    obtain ⟨n', hn', hrecent⟩ : ∃ n', disconnectAnchorRoots env genesis _ _ _ = some n' ∧
        IsRecent env _ n' := hn.disconnect hholds'
    obtain rfl := some.inj (hroots.symm.trans hn')
    exact ⟨hholds', hrecent⟩

end Runs

/-! ## A reorganisation of depth one

Two notes are shielded and 99 blocks without bundles follow, so the root after the first note is the
oldest of the window. A node then connects one more block and disconnects it, which costs it this
root. It connects a withdrawal against the root, after a repair, and disconnects it. When the
withdrawal comes again, the root is missing and the generation is still that of the repair. -/

/-- The context of the node, which asks its tracked roots. -/
def nodeContext (chain : List Connection) (s : ShieldedState sampleEnv.merkle) (n : AnchorRoots) :
    BlockContext :=
  { sampleContext (chain.length + 1) with
    anchorValid a := anchorsAccepted sampleEnv toyRegistryHash (plainBlock 1) chain s n [a] }

/-- A run of the node. -/
abbrev NodeRun := AnchorRun sampleEnv toyRegistryHash (plainBlock 1)

theorem AnchorRun.nodeConnect {chain : List Connection} {s : ShieldedState sampleEnv.merkle}
    {n n' : AnchorRoots} {coins : CoinsView} {block : CBlock}
    {r : Ledgers sampleEnv} (h : NodeRun chain s n)
    (hconnect : connectBlock sampleEnv (nodeContext chain s n) ⟨coins, s⟩ block = .ok r)
    (hroot : ¬r.1.shielded.tree.root.IsNull)
    (hn : (anchorsChecked sampleEnv toyRegistryHash (plainBlock 1) chain s n
      (blockAnchors block)).record r.1.shielded.tree.root = n') :
    NodeRun (⟨block, chain.length + 1, r.2⟩ :: chain) r.1.shielded n' := by
  subst hn
  exact .connect h rfl hconnect hroot

/-- A block that pays four out of the pool against a root, and creates no note. -/
def exitAgainst (anchor : Uint256) : CBlock where
  vtx := [sampleCoinbase 3,
    { hash := 4
      vout := [{ nValue := 4 }]
      shieldedBundle := sendBundle (samplePayout anchor) }]

/-- The roots of the empty tree, of note 5, and of notes 5 and 6: the toy hash adds, and an empty
leaf counts one. -/
def rootZero : Uint256 := 2 ^ 32
def rootOne : Uint256 := rootZero + 4
def rootTwo : Uint256 := rootOne + 5

def rootsAtStart : AnchorRoots := ⟨[rootZero, rootZero], none⟩

theorem firstNote_accepted :
    (connectBlock sampleEnv (nodeContext [] .empty rootsAtStart) ⟨depositCoins, .empty⟩
      (noteBlock 5)).toOption.isSome = true := by
  decide

def firstNote : Ledgers sampleEnv := okValue _ firstNote_accepted

def firstChain : List Connection := [⟨noteBlock 5, 1, firstNote.2⟩]

theorem secondNote_accepted : (connectBlock sampleEnv
      (nodeContext firstChain firstNote.1.shielded ⟨[rootOne, rootZero, rootZero], none⟩)
      ⟨depositCoins, firstNote.1.shielded⟩ (noteBlock 6)).toOption.isSome = true := by
  decide

def secondNote : Ledgers sampleEnv := okValue _ secondNote_accepted

/-- The shielded state with both notes. -/
def twoNotes : ShieldedState sampleEnv.merkle := secondNote.1.shielded

theorem connect_plainBlock (chain : List Connection) (s : ShieldedState sampleEnv.merkle)
    (n : AnchorRoots) :
    ∃ coins, connectBlock sampleEnv (nodeContext chain s n) ⟨∅, s⟩ (plainBlock 6) =
      .ok (⟨coins, s⟩, ⟨[], []⟩) :=
  ⟨_, rfl⟩

/-- `k` blocks without bundles on a chain. -/
def plainBlocksOn : ℕ → List Connection → List Connection
  | 0, chain => chain
  | k + 1, chain =>
      ⟨plainBlock 6, (plainBlocksOn k chain).length + 1, ⟨[], []⟩⟩ :: plainBlocksOn k chain

theorem AnchorRun.plainBlocksOn {chain : List Connection} {s : ShieldedState sampleEnv.merkle}
    {n : AnchorRoots} (h : NodeRun chain s n) (hroot : ¬s.tree.root.IsNull) (k : ℕ) :
    NodeRun (plainBlocksOn k chain) s ((·.record s.tree.root)^[k] n) := by
  induction k with
  | zero => exact h
  | succ k ih =>
    rw [Function.iterate_succ_apply']
    obtain ⟨coins, hplain⟩ := connect_plainBlock (Validation.plainBlocksOn k chain) s _
    exact ih.nodeConnect hplain hroot rfl

/-- The chain of 101 blocks. -/
@[irreducible] def noteChain : List Connection :=
  plainBlocksOn 99 (⟨noteBlock 6, 2, secondNote.2⟩ :: firstChain)

/-- The tracked roots of a node that has connected the chain and nothing else. -/
def rootsAfterChain : AnchorRoots := ⟨List.replicate 100 rootTwo ++ [rootOne], none⟩

theorem nodeRun_noteChain : NodeRun noteChain twoNotes rootsAfterChain := by
  have h₀ : NodeRun [] .empty rootsAtStart := .start (by decide) (by decide) (by decide)
  have h₁ : NodeRun firstChain firstNote.1.shielded ⟨[rootOne, rootZero, rootZero], none⟩ :=
    h₀.nodeConnect (eq_ok_okValue firstNote_accepted) (by decide) (by decide)
  have h₂ : NodeRun (⟨noteBlock 6, 2, secondNote.2⟩ :: firstChain) twoNotes
      ⟨[rootTwo, rootOne, rootZero, rootZero], none⟩ :=
    h₁.nodeConnect (eq_ok_okValue secondNote_accepted) (by decide) (by decide)
  have hroots : (·.record twoNotes.tree.root)^[99]
      (⟨[rootTwo, rootOne, rootZero, rootZero], none⟩ : AnchorRoots) = rootsAfterChain := by
    decide +kernel
  rw [← hroots, noteChain]
  exact h₂.plainBlocksOn (by decide) 99

/-- The tracked roots after one more block and its disconnection. -/
def shortRoots : AnchorRoots := ⟨List.replicate 100 rootTwo, none⟩

theorem nodeRun_shortRoots : NodeRun noteChain twoNotes shortRoots := by
  have hroot : ¬twoNotes.tree.root.IsNull := by decide
  have hroots : (anchorsChecked sampleEnv toyRegistryHash (plainBlock 1) noteChain twoNotes
      rootsAfterChain (blockAnchors (plainBlock 6))).record twoNotes.tree.root =
        ⟨List.replicate 101 rootTwo, none⟩ := by
    decide +kernel
  obtain ⟨coins, hplain⟩ := connect_plainBlock noteChain twoNotes rootsAfterChain
  exact .disconnect (nodeRun_noteChain.nodeConnect hplain hroot hroots) rfl (by decide +kernel)

theorem exitAgainst_accepted :
    (connectBlock sampleEnv (nodeContext noteChain twoNotes shortRoots) ⟨∅, twoNotes⟩
      (exitAgainst rootOne)).toOption.isSome = true := by
  decide +kernel

def exited : Ledgers sampleEnv := okValue _ exitAgainst_accepted

theorem exitAgainst_disconnected :
    (disconnectBlock sampleEnv (noteChain.length + 1) (exitAgainst rootOne) exited.2
      exited.1.shielded).isSome = true := by
  decide +kernel

/-- The state after the withdrawal and its disconnection. -/
def afterUndo : ShieldedState sampleEnv.merkle := Option.get _ exitAgainst_disconnected

/-- The tracked roots then: the last repair is marked, and the oldest root is missing again. -/
def rootsAfterUndo : AnchorRoots :=
  ⟨List.replicate 100 rootTwo, some (repairGeneration sampleEnv toyRegistryHash afterUndo)⟩

theorem nodeRun_afterUndo : NodeRun noteChain afterUndo rootsAfterUndo := by
  have hroot : ¬exited.1.shielded.tree.root.IsNull := by decide +kernel
  have hroots : (anchorsChecked sampleEnv toyRegistryHash (plainBlock 1) noteChain twoNotes
      shortRoots (blockAnchors (exitAgainst rootOne))).record exited.1.shielded.tree.root =
        ⟨List.replicate 101 rootTwo, rootsAfterUndo.lastRepair⟩ := by
    decide +kernel
  have hconnect : connectBlock sampleEnv (nodeContext noteChain twoNotes shortRoots) ⟨∅, twoNotes⟩
      (exitAgainst rootOne) = .ok exited :=
    eq_ok_okValue exitAgainst_accepted
  have hdisconnect : disconnectBlock sampleEnv (noteChain.length + 1) (exitAgainst rootOne) exited.2
      exited.1.shielded = some afterUndo :=
    (Option.some_get exitAgainst_disconnected).symm
  have hpopped : disconnectAnchorRoots sampleEnv (plainBlock 1) noteChain afterUndo
      ⟨List.replicate 101 rootTwo, rootsAfterUndo.lastRepair⟩ = some rootsAfterUndo := by
    decide +kernel
  exact .disconnect (nodeRun_shortRoots.nodeConnect hconnect hroot hroots) hdisconnect hpopped

theorem exitAgainst_rejected :
    (connectBlock sampleEnv (nodeContext noteChain afterUndo rootsAfterUndo) ⟨∅, afterUndo⟩
      (exitAgainst rootOne)).toOption = none := by
  rw [← Option.isNone_iff_eq_none]
  decide +kernel

end Validation
end Btx
