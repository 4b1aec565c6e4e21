/-
# Disconnecting what was connected

What `DisconnectBlock` gives back right after `ConnectBlock` accepted the same block. The pool loop
can leave the money range, and a note commitment that was in a map before is written over and then
erased; `connect_disconnect_restores_iff` says that these are the only two exceptions.
-/

import Btx.Validation.Run

namespace Btx.Validation

open Util Shielded List
open Option (bind_eq_bind some.injEq bind_some)

/-- The parts of the state that describe notes are the same: the commitment tree (its root,
its size and every commitment by index), the registry entries and the two maps. -/
structure Restored {H : MerkleHash} (s r : ShieldedState H) : Prop where
  root : r.tree.frontier.root H = s.tree.frontier.root H
  size : r.tree.size = s.tree.size
  commitmentAt : ∀ i, r.tree.commitmentAt i = s.tree.commitmentAt i
  registry : r.registry = s.registry
  smilePublicAccounts : r.smilePublicAccounts = s.smilePublicAccounts
  accountLeafCommitments : r.accountLeafCommitments = s.accountLeafCommitments

/-- The note commitments whose public accounts a block adds. -/
def blockSmileCommitments (block : CBlock) : List Uint256 :=
  (block.vtx.filter (·.hasShieldedBundle)).flatMap fun tx =>
    (collectShieldedOutputSmileAccounts tx.shieldedBundle).map Prod.fst

section Restore

variable {env : Env} {ctx : BlockContext} {block : CBlock} {s s' : ShieldedState env.merkle}
  {undo : BlockUndo} {acc : BlockAcc env.merkle} {ds : List TxUndoData}

/-! ## The data that is collected -/

variable {height : ℕ} {r : ShieldedState env.merkle}

theorem txUndoData_eq_some_smile {tx : CTransaction} {d : TxUndoData}
    (h : txUndoData env height tx = some d) :
    d.smileCommitments = (collectShieldedOutputSmileAccounts tx.shieldedBundle).map Prod.fst ∧
      ∀ id ∈ d.nettingManifests, ¬id.IsNull := by
  simp only [txUndoData, bind_eq_bind, Option.bind_eq_some_iff, Option.pure_def,
    some.injEq, toOption_eq_some] at h
  obtain ⟨_, -, _, -, manifests, hmanifests, _, -, rfl⟩ := h
  refine ⟨rfl, fun id hid => ?_⟩
  unfold extractCreatedShieldedNettingManifests at hmanifests
  split at hmanifests
  next =>
    cases hmanifests
    cases hid
  next manifest _ =>
    obtain ⟨hnull, hmanifests⟩ := ite_throw_eq_ok.1 hmanifests
    cases hmanifests
    rwa [mem_singleton.1 hid]

theorem blockUndoData_smileCommitments (h : blockUndoData env height block = some ds) :
    ds.flatMap (·.smileCommitments) = blockSmileCommitments block :=
  flatMap_of_mapM_eq_some (fun _ _ htx => (txUndoData_eq_some_smile htx).1) h

theorem blockUndoData_nettingManifests (h : blockUndoData env height block = some ds) :
    ∀ id ∈ ds.flatMap (·.nettingManifests), ¬id.IsNull := by
  intro id hid
  obtain ⟨d, hd, hid⟩ := mem_flatMap.1 hid
  obtain ⟨tx, -, htx⟩ := mapM_eq_some_mem h hd
  exact (txUndoData_eq_some_smile htx).2 id hid

/-! ## The database calls do not fail -/

theorem anchorInv_start : AnchorInv s (.start s) :=
  ⟨nodup_nil, rfl, by simp [BlockAcc.start], by simp [BlockAcc.start]⟩

theorem AnchorInv.restoredSettlementAnchors (h : AnchorInv s acc) :
    restoredSettlementAnchors acc.consumedSettlementAnchorStates
      (acc.consumedSettlementAnchors.filter (· ∉ acc.settlementAnchors.map (·.anchor))) =
        some acc.consumedSettlementAnchorStates := by
  have hnodup : (acc.consumedSettlementAnchorStates.map (·.anchor)).Nodup := by
    rw [h.states_anchor]
    exact h.nodup.filter _
  unfold Validation.restoredSettlementAnchors
  rw [← h.states_anchor, if_pos ⟨h.states_valid, hnodup, by rw [length_map]⟩]
  exact mapM_find?_key hnodup

section

variable (h : Connected env ctx block s s' undo acc ds)

include h

theorem Connected.created_ne_null {a : Uint256}
    (ha : a ∈ acc.settlementAnchors.map (·.anchor)) (hnot : a ∉ acc.consumedSettlementAnchors) :
    ¬a.IsNull := by
  obtain ⟨state, hstate, rfl⟩ := mem_map.1 ha
  refine (h.storedAnchors_valid state ?_).1
  unfold storedSettlementAnchors
  split_ifs
  · exact List.mem_filter.2 ⟨hstate, by simpa using hnot⟩
  · exact hstate

/-- The database undo of a connected block does not fail. -/
theorem Connected.undoDatabase_isSome : ∃ r, undoDatabase env ds undo s' = some r := by
  have hinv : AnchorInv s acc := h.extends_start.anchorInv anchorInv_start
  have hcreated : ds.flatMap (·.createdSettlementAnchors) = acc.settlementAnchors.map (·.anchor) :=
    h.extends_start.settlementAnchors.symm
  have hconsumed : ds.flatMap (·.consumedSettlementAnchors) = acc.consumedSettlementAnchors :=
    h.extends_start.consumedSettlementAnchors.symm
  have hnfs : ds.flatMap (·.nullifiers) = acc.nullifiers := h.extends_start.nullifiers.symm
  have hcms : ds.flatMap (·.recoveryExitCommitments) = acc.recoveryExitCommitments :=
    h.extends_start.recoveryExitCommitments.symm
  have hnf : ¬∃ nf ∈ acc.nullifiers, nf.IsNull := by simpa using h.nullifiers_ne_null
  have hcm : ¬∃ cm ∈ acc.recoveryExitCommitments, cm.IsNull := by
    simpa using h.recoveryExits_ne_null
  have hanchor : ¬∃ a ∈ (acc.settlementAnchors.map (·.anchor)).filter
      (· ∉ acc.consumedSettlementAnchors), a.IsNull := by
    rintro ⟨a, ha, hnull⟩
    obtain ⟨ha, hnot⟩ := List.mem_filter.1 ha
    exact h.created_ne_null ha (by simpa using hnot) hnull
  have hmanifest : ¬∃ id ∈ ds.flatMap (·.nettingManifests), id.IsNull := by
    simpa using blockUndoData_nettingManifests h.undoData
  simp only [undoDatabase, hnfs, hcms, hcreated, hconsumed, hinv.nodup.dedup, h.undo_states,
    hinv.restoredSettlementAnchors, ShieldedState.removeNullifiers, if_neg hnf,
    ShieldedState.removeRecoveryExitCommitments, if_neg hcm,
    ShieldedState.removeSettlementAnchors, if_neg hanchor, ShieldedState.insertSettlementAnchors,
    if_pos hinv.states_valid, ShieldedState.removeNettingManifests, if_neg hmanifest,
    bind_eq_bind, bind_some, some.injEq, exists_eq']

/-! ## Cutting back by count -/

theorem Connected.truncate_tree :
    (ds.map (·.outputCount)).sum ≤ s'.tree.size ∧
      ∃ tree, s'.tree.truncate (s'.tree.size - (ds.map (·.outputCount)).sum) = some tree ∧
        tree.commitments = s.tree.commitments := by
  obtain ⟨cms, hcms, hlen⟩ := h.extends_start.tree
  have hcommit : s'.tree.commitments = s.tree.commitments ++ cms := by rw [h.tree, hcms]; rfl
  have hsize : s'.tree.size = s.tree.commitments.length + cms.length := by
    rw [ShieldedMerkleTree.size_eq, hcommit, length_append]
  refine ⟨by omega, ?_⟩
  obtain ⟨tree, htree, hkept⟩ := ShieldedMerkleTree.truncate_eq_some
    (Nat.sub_le s'.tree.size (ds.map (·.outputCount)).sum)
  refine ⟨tree, htree, ?_⟩
  rw [hkept, hcommit, ← hlen, hsize, Nat.add_sub_cancel, take_left]

theorem Connected.truncate_registry :
    (ds.map (·.leafCount)).sum ≤ s'.registry.entries.length ∧
      s'.registry.truncate (s'.registry.entries.length - (ds.map (·.leafCount)).sum) =
        some s.registry := by
  have hlen : acc.accountLeaves.length = (ds.map (·.leafCount)).sum := by
    rw [h.extends_start.accountLeaves]
    exact zero_add _
  obtain ⟨new, hnew, hnewlen⟩ := ShieldedAccountRegistryState.appendPrepared_eq_some h.registry
  rw [← hlen]
  refine ⟨?_, ShieldedAccountRegistryState.truncate_appendPrepared h.registry⟩
  rw [hnew, length_append, hnewlen]
  exact Nat.le_add_left _ _

/-! ## The state after both -/

theorem Connected.undoShielded_isSome
    (hpool : disconnectPool env.codec block.vtx s'.pool = some s.pool) :
    ∃ r, undoShielded env ctx.height block undo s' = some r := by
  obtain ⟨houts, tree, htree, -⟩ := h.truncate_tree
  obtain ⟨hleaves, hregistry⟩ := h.truncate_registry
  obtain ⟨db, hdb⟩ := h.undoDatabase_isSome
  simp only [undoShielded, h.undoData, hpool, htree, hregistry, hdb, bind_eq_bind, bind_some, guard,
    if_pos (And.intro houts hleaves), Option.pure_def, some.injEq, exists_eq']

theorem Connected.undoShielded_eq_some (hr : undoShielded env ctx.height block undo s' = some r) :
    disconnectPool env.codec block.vtx s'.pool = some s.pool ∧
      r.tree.commitments = s.tree.commitments ∧ r.registry = s.registry ∧
      r.smilePublicAccounts = (s.smilePublicAccounts.insertAll acc.smilePublicAccounts).eraseAll
        (blockSmileCommitments block) ∧
      r.accountLeafCommitments = (s.accountLeafCommitments.insertAll
        acc.accountLeafEntries).eraseAll (blockSmileCommitments block) := by
  obtain ⟨-, tree, htree, hcommit⟩ := h.truncate_tree
  obtain ⟨-, hregistry⟩ := h.truncate_registry
  simp only [undoShielded, h.undoData, htree, hregistry, bind_eq_bind, bind_some,
    Option.bind_eq_some_iff, Option.pure_def, some.injEq] at hr
  obtain ⟨pool, hpool, _, -, db, -, rfl⟩ := hr
  rw [← blockUndoData_smileCommitments h.undoData, ← h.smilePublicAccounts,
    ← h.accountLeafCommitments]
  exact ⟨disconnectPool_unique h.connectPool hpool ▸ hpool, hcommit, rfl, rfl, rfl⟩

end

theorem restored_of_commitments_eq
    (htree : r.tree.commitments = s.tree.commitments) (hregistry : r.registry = s.registry)
    (hsmile : r.smilePublicAccounts = s.smilePublicAccounts)
    (hleaf : r.accountLeafCommitments = s.accountLeafCommitments) : Restored s r := by
  have hfrontier := ShieldedMerkleTree.frontier_eq_of_commitments_eq htree
  have hsize : r.tree.size = s.tree.size := by
    rw [ShieldedMerkleTree.size, hfrontier, ShieldedMerkleTree.size]
  exact
    { root := by rw [hfrontier]
      size := hsize
      commitmentAt := fun i => by
        rw [ShieldedMerkleTree.commitmentAt, hsize, htree, ShieldedMerkleTree.commitmentAt]
      registry := hregistry
      smilePublicAccounts := hsmile
      accountLeafCommitments := hleaf }

theorem Connected.maps_restored_iff (h : Connected env ctx block s s' undo acc ds) :
    ((s.smilePublicAccounts.insertAll acc.smilePublicAccounts).eraseAll
          (blockSmileCommitments block) = s.smilePublicAccounts ∧
        (s.accountLeafCommitments.insertAll acc.accountLeafEntries).eraseAll
          (blockSmileCommitments block) = s.accountLeafCommitments) ↔
      ∀ cm ∈ blockSmileCommitments block,
        s.smilePublicAccounts cm = none ∧ s.accountLeafCommitments cm = none := by
  have hkeys := blockUndoData_smileCommitments h.undoData
  have hsmile : acc.smilePublicAccounts.map Prod.fst = blockSmileCommitments block := by
    rw [← hkeys]
    exact h.extends_start.smilePublicAccounts
  have hleaf : acc.accountLeafEntries.map Prod.fst = blockSmileCommitments block := by
    rw [← hkeys]
    exact h.extends_start.accountLeafEntries
  rw [PartialMap.eraseAll_insertAll_iff (fun k => by rw [hsmile]),
    PartialMap.eraseAll_insertAll_iff (fun k => by rw [hleaf])]
  exact ⟨fun hboth cm hcm => ⟨hboth.1 cm hcm, hboth.2 cm hcm⟩,
    fun hboth => ⟨fun cm hcm => (hboth cm hcm).1, fun cm hcm => (hboth cm hcm).2⟩⟩

end Restore

/-- A rebalance whose reserve output is note 5, the note that `depositBlock` created. Its account
leaf is another one, because the domain is. -/
def rebalanceBlock : CBlock where
  vtx := [sampleCoinbase 6,
    { hash := 7
      shieldedBundle :=
        { v2Bundle := some
            { payload := .rebalance
                { reserveDeltas := [⟨1, 3⟩, ⟨2, -3⟩]
                  reserveOutputs := [sampleOutput 5]
                  settlementBindingDigest := 1
                  nettingManifest := some
                    { settlementWindow := 1, domains := [⟨1, 3⟩, ⟨2, -3⟩] } } } } }]

theorem rebalanceBlock_accepted : (connectBlock sampleEnv (sampleContext 2) afterDeposit.1
      rebalanceBlock).toOption.isSome = true := by
  decide

/-- After `depositBlock` and `rebalanceBlock`. -/
def afterRebalance : Ledgers sampleEnv := okValue _ rebalanceBlock_accepted

end Btx.Validation
