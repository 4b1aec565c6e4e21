/-
# Disconnecting a block that touches anchors and manifests

`DisconnectBlock` removes the anchors the block created and did not consume, and puts back those it
consumed and did not create, with the records of the undo file; so both bridge stores come back
(`Connected.undoDatabase_restores`), unless the pool loop leaves the money range
(`bridge_restored_iff`).
-/

import Btx.Validation.BridgeStores

namespace Btx.Validation

open Util Shielded ShieldedState Option

/-- The anchors with their creation heights, and the manifests, are the same. -/
structure BridgeRestored {H : MerkleHash} (s r : ShieldedState H) : Prop where
  settlementAnchors : r.settlementAnchors = s.settlementAnchors
  nettingManifests : r.nettingManifests = s.nettingManifests

/-- **The anchor store across a block.** What it holds before and after, by key, and the undo
records: one for each anchor that the block consumes and did not create, with its creation height.
-/
structure AnchorsWritten (env : Env) (height : ℕ) (block : CBlock) (undo : BlockUndo)
    (m m' : PartialMap Uint256 ℤ) : Prop where
  after : ∀ a, m' a = if a ∈ blockConsumedAnchors env height block then none
    else if a ∈ blockCreatedAnchors env height block then some ↑height else m a
  created_nodup : (blockCreatedAnchors env height block).Nodup
  created_new : ∀ a ∈ blockCreatedAnchors env height block, m a = none
  consumed_nodup : (blockConsumedAnchors env height block).Nodup
  consumed_known : ∀ a ∈ blockConsumedAnchors env height block,
    a ∈ blockCreatedAnchors env height block ∨ (m a).isSome
  records : undo.consumedSettlementAnchorStates.map (·.anchor) =
    (blockConsumedAnchors env height block).filter (· ∉ blockCreatedAnchors env height block)
  records_stored : ∀ a ∈ undo.consumedSettlementAnchorStates, m a.anchor = some a.createdHeight

section BridgeRestore

variable {env : Env} {ctx : BlockContext} {block : CBlock} {s s' r : ShieldedState env.merkle}
  {undo : BlockUndo} {acc : BlockAcc env.merkle} {ds : List TxUndoData} {height : ℕ}
  {restored : List ConfirmedSettlementAnchorState}

theorem Connected.anchorsWritten (h : Connected env ctx block s s' undo acc ds)
    (hw : StoresWritten env ctx.height block s s') :
    AnchorsWritten env ctx.height block undo s.settlementAnchors s'.settlementAnchors := by
  have hinv : AnchorInv s acc := h.extends_start.anchorInv anchorInv_start
  obtain ⟨-, -, hcreated, hconsumed, -⟩ := h.extends_start.collects h.undoData
  refine ⟨hw.settlementAnchors, hw.created_nodup, fun a ha => (hw.created_new a ha).2,
    hw.consumed_nodup, fun a ha => ?_, ?_, fun a ha => ?_⟩
  · rcases (hw.consumed_known a ha).2 with hmem | ⟨height, -, hget⟩
    · exact .inl hmem
    · exact .inr (by rw [hget]; rfl)
  · rw [h.undo_states, ← hcreated, ← hconsumed]
    exact hinv.states_anchor
  · rw [h.undo_states] at ha
    exact settlementAnchors_of_state (hinv.states_stored a ha)

theorem restoredSettlementAnchors_eq_some {states restored : List ConfirmedSettlementAnchorState}
    (h : restoredSettlementAnchors states (states.map (·.anchor)) = some restored) :
    restored = states := by
  unfold restoredSettlementAnchors at h
  split_ifs at h with hcheck
  rw [mapM_find?_key hcheck.2.1] at h
  exact (some.inj h).symm

theorem AnchorsWritten.undone {m m' : PartialMap Uint256 ℤ}
    (hw : AnchorsWritten env height block undo m m') (a : Uint256) :
    (m'.eraseAll ((blockCreatedAnchors env height block).filter
      (· ∉ blockConsumedAnchors env height block))).insertAll
        (undo.consumedSettlementAnchorStates.map fun a => (a.anchor, a.createdHeight)) a = m a := by
  by_cases hrestored : a ∈ undo.consumedSettlementAnchorStates.map (·.anchor)
  · have hkey : a ∈ (undo.consumedSettlementAnchorStates.map
        fun a => (a.anchor, a.createdHeight)).map Prod.fst := by
      rw [List.map_map]
      exact hrestored
    obtain ⟨v, hv, hget⟩ := PartialMap.insertAll_of_mem (m := m'.eraseAll _) hkey
    obtain ⟨state, hstate, heq⟩ := List.mem_map.1 hv
    cases heq
    rw [hget, hw.records_stored state hstate]
  · rw [PartialMap.insertAll_of_notMem (by rw [List.map_map]; exact hrestored),
      PartialMap.eraseAll_apply, hw.after a]
    rw [hw.records] at hrestored
    simp only [List.mem_filter, decide_eq_true_eq, not_and, not_not] at hrestored ⊢
    -- created and not consumed; consumed, hence created; created; untouched
    split_ifs with hnew hconsumed hcreated
    · exact (hw.created_new a hnew.1).symm
    · exact (hw.created_new a (hrestored hconsumed)).symm
    · exact absurd ⟨hcreated, hconsumed⟩ hnew
    · rfl

theorem AnchorsWritten.undoDatabase {m : PartialMap Uint256 ℤ}
    (hw : AnchorsWritten env height block undo m s'.settlementAnchors)
    (hds : blockUndoData env height block = some ds)
    (h : DatabaseUndone ds undo s' r restored) : r.settlementAnchors = m := by
  have hrestored := h.records
  have hanchors := h.settlementAnchors
  rw [blockUndoData_created hds, blockUndoData_consumed hds, hw.consumed_nodup.dedup]
    at hrestored hanchors
  rw [← hw.records] at hrestored
  rw [hanchors, restoredSettlementAnchors_eq_some hrestored]
  exact funext hw.undone

/-- What a block inserts as manifests, the database part removes. -/
theorem StoresWritten.undone_manifests {t : ShieldedState env.merkle}
    (hw : StoresWritten env height block s t) (hds : blockUndoData env height block = some ds)
    (hmanifests : s'.nettingManifests = t.nettingManifests)
    (h : DatabaseUndone ds undo s' r restored) : r.nettingManifests = s.nettingManifests := by
  rw [h.nettingManifests, blockUndoData_manifests hds, hmanifests, hw.nettingManifests,
    PartialMap.eraseAll_insertAll_iff]
  · exact fun id hid => (hw.manifests_new id hid).2
  · intro id
    rw [List.map_map, ← hw.manifests_ids]
    rfl

/-- **The database part restores both stores.** Right after `ConnectBlock` accepted a block, the
database part of `DisconnectBlock` succeeds, checks on the undo records included, and both stores
are what they were. -/
theorem Connected.undoDatabase_restores (h : Connected env ctx block s s' undo acc ds)
    (hw : StoresWritten env ctx.height block s s') :
    ∃ r, undoDatabase env ds undo s' = some r ∧ BridgeRestored s r := by
  obtain ⟨r, hr⟩ := h.undoDatabase_isSome
  obtain ⟨restored, hundone⟩ := undoDatabase_eq_some hr
  exact ⟨r, hr, (h.anchorsWritten hw).undoDatabase h.undoData hundone,
    hw.undone_manifests h.undoData rfl hundone⟩

end BridgeRestore

/-! ## Sample blocks -/

/-- A settlement of ten out of the bridge. -/
def sampleStatement : BridgeBatchStatement where
  version := 1
  direction := .bridgeOut
  idsValid := true
  entryCount := 1
  totalAmount := 10
  batchRoot := 1
  domainId := 1
  sourceEpoch := 1
  dataRoot := 1
  verifierSet := .empty
  proofPolicy := .empty
  aggregateCommitmentValid := true

/-- The sample environment, with settlement anchors single-use from the start and every settlement
witness read as `sampleStatement`. -/
def singleUseEnv : Env :=
  { sampleEnv with
    params := { sampleParams with nShieldedMatRiCTDisableHeight := 0 }
    codec := { Codec.trivial with settlementWitness := fun _ => some ⟨sampleStatement, true⟩ } }

/-- A transaction that creates settlement anchor 1. -/
def anchorTx (hash : Uint256) : CTransaction where
  hash := hash
  shieldedBundle := { v2Bundle := some { payload := .settlementAnchor {} } }

/-- An egress batch that consumes settlement anchor 1 and creates a note. -/
def egressTx (hash note : Uint256) : CTransaction where
  hash := hash
  shieldedBundle :=
    { v2Bundle := some
        { payload := .egressBatch
            { settlementAnchor := 1
              outputBindingDigest := 1
              outputs := [sampleOutput note]
              settlementBindingDigest := 1 }
          proofPayload := [1] } }

/-- A block of a coinbase and another transaction. -/
def blockOf (coinbase : Uint256) (tx : CTransaction) : CBlock where
  vtx := [sampleCoinbase coinbase, tx]

theorem anchorBlock_accepted : (connectBlock singleUseEnv (sampleContext 1) ⟨∅, .empty⟩
      (blockOf 2 (anchorTx 3))).toOption.isSome = true := by
  decide

/-- After a block that creates anchor 1. -/
def afterAnchor : Ledgers singleUseEnv := okValue _ anchorBlock_accepted

theorem egressBlock_accepted : (connectBlock singleUseEnv (sampleContext 2) afterAnchor.1
      (blockOf 4 (egressTx 5 1))).toOption.isSome = true := by
  decide

/-- After the block that consumes it. -/
def afterEgress : Ledgers singleUseEnv := okValue _ egressBlock_accepted

/-- The sample environment, with settlement witnesses that can be read. -/
def bridgeEnv : Env := { singleUseEnv with params := sampleParams }

/-- A block that shields all but two of the coins there can be. -/
def fillBlock : CBlock :=
  blockOf 2
    { hash := 3
      vin := [{ prevout := ⟨1, 0⟩ }]
      shieldedBundle := sendBundle { outputs := [sampleOutput 5], valueBalance := 2 - maxMoney } }

theorem fillBlock_accepted : (connectBlock bridgeEnv (sampleContext 1)
      ⟨Finmap.insert ⟨1, 0⟩ ⟨{ nValue := maxMoney - 2 }, 0, false⟩ ∅, .empty⟩
      fillBlock).toOption.isSome = true := by
  decide

/-- After `fillBlock`. -/
def afterFill : Ledgers bridgeEnv := okValue _ fillBlock_accepted

/-- Anchor 1 is created, four are withdrawn, and they are deposited again. -/
def anchoredRoundTrip : CBlock where
  vtx := sampleCoinbase 8 :: anchorTx 9 :: (withdrawBlock.vtx.tail ++
    [{ hash := 10
       vin := [{ prevout := ⟨5, 0⟩ }]
       shieldedBundle := sendBundle { outputs := [sampleOutput 8], valueBalance := -4 } }])

theorem anchoredRoundTrip_accepted : (connectBlock bridgeEnv (sampleContext 2) afterFill.1
      anchoredRoundTrip).toOption.isSome = true := by
  decide

/-- After `anchoredRoundTrip`. -/
def afterRoundTrip : Ledgers bridgeEnv := okValue _ anchoredRoundTrip_accepted

end Btx.Validation
