/-
# The stores of the nullifier database after a block

What the writes of a block (`writeStores`) do to each store, in terms of what the block carries. Two
facts of the transaction loop make them exact: a created anchor or manifest is not stored yet
(`BridgeInv`), and a consumed anchor is created in the block or stored with the record that goes
into the undo data (`AnchorInv`).
-/

import Btx.Validation.Restore

namespace Btx.Validation

open Util Shielded ShieldedState List

/-! ## What a block carries -/

section Carries

variable (env : Env) (height : ℕ)

variable (block : CBlock)

/-- The transactions of a block that have a bundle. -/
def shieldedTxs : List CTransaction := block.vtx.filter (·.hasShieldedBundle)

/-- The recovery exit commitments a block claims. -/
def blockRecoveryExits : List Uint256 :=
  (shieldedTxs block).flatMap fun tx =>
    ((recoveryExitIds env tx.shieldedBundle).getD []).map (·.commitment)

/-- The settlement anchors a block creates. -/
def blockCreatedAnchors : List Uint256 :=
  (shieldedTxs block).flatMap fun tx =>
    (extractCreatedShieldedSettlementAnchors env tx height).toOption.getD []

/-- The settlement anchors a block consumes, where anchors are single-use. -/
def blockConsumedAnchors : List Uint256 :=
  (shieldedTxs block).flatMap fun tx => consumedRefs env height tx.shieldedBundle

/-- The records of the netting manifests a block creates. -/
def blockManifestStates : List ConfirmedNettingManifestState :=
  (shieldedTxs block).flatMap fun tx =>
    (extractCreatedShieldedNettingManifestStates env tx height).toOption.getD []

/-- The ids of the netting manifests a block creates. -/
def blockManifests : List Uint256 :=
  (shieldedTxs block).flatMap fun tx =>
    (extractCreatedShieldedNettingManifests env tx).toOption.getD []

end Carries

section Stores

variable {env : Env} {ctx : BlockContext} {block : CBlock} {s s' : ShieldedState env.merkle}
  {undo : BlockUndo} {acc acc' : BlockAcc env.merkle} {ds : List TxUndoData} {tx : CTransaction}
  {height : ℕ}

theorem txUndoData_eq_some_bridge {d : TxUndoData} (h : txUndoData env height tx = some d) :
    d.recoveryExitCommitments =
        ((recoveryExitIds env tx.shieldedBundle).getD []).map (·.commitment) ∧
      d.createdSettlementAnchors =
        (extractCreatedShieldedSettlementAnchors env tx height).toOption.getD [] ∧
      d.consumedSettlementAnchors = consumedRefs env height tx.shieldedBundle ∧
      d.nettingManifests = (extractCreatedShieldedNettingManifests env tx).toOption.getD [] := by
  simp only [txUndoData, Option.bind_eq_bind, Option.bind_eq_some_iff, Option.pure_def,
    Option.some.injEq] at h
  obtain ⟨ids, hids, created, hcreated, manifests, hmanifests, _, -, rfl⟩ := h
  simp [hids, hcreated, hmanifests]

section

variable (h : blockUndoData env height block = some ds)

include h

theorem blockUndoData_recoveryExits :
    ds.flatMap (·.recoveryExitCommitments) = blockRecoveryExits env block :=
  flatMap_of_mapM_eq_some (fun _ _ htx => (txUndoData_eq_some_bridge htx).1) h

theorem blockUndoData_created :
    ds.flatMap (·.createdSettlementAnchors) = blockCreatedAnchors env height block :=
  flatMap_of_mapM_eq_some (fun _ _ htx => (txUndoData_eq_some_bridge htx).2.1) h

theorem blockUndoData_consumed :
    ds.flatMap (·.consumedSettlementAnchors) = blockConsumedAnchors env height block :=
  flatMap_of_mapM_eq_some (fun _ _ htx => (txUndoData_eq_some_bridge htx).2.2.1) h

theorem blockUndoData_manifests : ds.flatMap (·.nettingManifests) = blockManifests env block :=
  flatMap_of_mapM_eq_some (fun _ _ htx => (txUndoData_eq_some_bridge htx).2.2.2) h

end

theorem blockRecoveryExits_eq_nil (h : blockNullifiers env block = []) :
    blockRecoveryExits env block = [] := by
  rw [blockNullifiers, flatMap_eq_nil_iff] at h
  rw [blockRecoveryExits, flatMap_eq_nil_iff]
  intro tx htx
  have hids := (append_eq_nil_iff.1 (h tx htx)).2
  rw [map_eq_nil_iff] at hids ⊢
  exact hids

/-! ## The loop keeps created anchors and manifests new -/

/-- What the loop has created so far is new: no recovery exit was claimed before, and no anchor
and no manifest is stored in the parent state or created twice. -/
structure BridgeInv (ctx : BlockContext) (s : ShieldedState env.merkle)
    (acc : BlockAcc env.merkle) : Prop where
  exits_new : ∀ cm ∈ acc.recoveryExitCommitments, ¬s.containsRecoveryExitCommitment cm
  created_nodup : (acc.settlementAnchors.map (·.anchor)).Nodup
  created_new : ∀ a ∈ acc.settlementAnchors, (s.settlementAnchorState a.anchor).isNone
  created_height : ∀ a ∈ acc.settlementAnchors, a.createdHeight = ctx.height
  manifests_nodup : acc.nettingManifests.Nodup
  manifests_new : ∀ id ∈ acc.nettingManifests, (s.nettingManifestState id).isNone

theorem bridgeInv_start : BridgeInv ctx s (.start s) := by
  constructor <;> simp [BlockAcc.start]

theorem BridgeInv.create {anchor : Uint256} (hinv : BridgeInv ctx s acc)
    (h : createSettlementAnchor env ctx s acc anchor = .ok acc') : BridgeInv ctx s acc' := by
  obtain ⟨rfl, hnone, hnew⟩ := createSettlementAnchor_ok h
  refine ⟨hinv.exits_new, ?_, ?_, ?_, hinv.manifests_nodup, hinv.manifests_new⟩
  · rw [map_append, nodup_append]
    refine ⟨hinv.created_nodup, by simp, fun a ha b hb => ?_⟩
    obtain rfl : b = anchor := by simpa using hb
    exact fun heq => hnew (heq ▸ ha)
  · exact forall_mem_append.2 ⟨hinv.created_new, by simpa using hnone⟩
  · exact forall_mem_append.2 ⟨hinv.created_height, by simp⟩

variable {id : Uint256} {a : ConfirmedSettlementAnchorState}
  {manifests : List ConfirmedNettingManifestState}

section

variable (hinv : BridgeInv ctx s acc)

include hinv

theorem BridgeInv.createManifest
    (h : createNettingManifest env s acc id = .ok acc') : BridgeInv ctx s acc' := by
  simp only [createNettingManifest, bind_eq_ok, require_eq_ok, pure_eq_ok] at h
  obtain ⟨-, ⟨hnone, hnew⟩, rfl⟩ := h
  refine ⟨hinv.exits_new, hinv.created_nodup, hinv.created_new, hinv.created_height, ?_, ?_⟩
  · rw [nodup_append]
    refine ⟨hinv.manifests_nodup, by simp, fun a ha b hb => ?_⟩
    obtain rfl : b = id := by simpa using hb
    exact fun heq => hnew (heq ▸ ha)
  · exact forall_mem_append.2 ⟨hinv.manifests_new, by simpa using hnone⟩

theorem BridgeInv.familyTx (h : familyTx env ctx s acc tx = .ok acc') : BridgeInv ctx s acc' := by
  unfold Validation.familyTx at h
  split at h
  next p _ =>
    obtain ⟨-, h⟩ | ⟨-, rfl⟩ := egressBatchTx_ok h
    · obtain ⟨-, states, rfl, -⟩ := consumeSettlementAnchor_ok h
      exact ⟨hinv.exits_new, hinv.created_nodup, hinv.created_new, hinv.created_height,
        hinv.manifests_nodup, hinv.manifests_new⟩
    · exact hinv
  next p _ =>
    simp only [settlementAnchorTx, bind_eq_ok, require_eq_ok] at h
    obtain ⟨-, -, created, -, h⟩ := h
    exact foldlM_ok_invariant (fun _ _ _ _ hinv h => BridgeInv.create hinv h) hinv h
  next p _ =>
    simp only [rebalanceTx, bind_eq_ok] at h
    obtain ⟨manifests, -, h⟩ := h
    exact foldlM_ok_invariant (fun _ _ _ _ hinv h => BridgeInv.createManifest hinv h) hinv h
  next => cases h
  next => exact pure_eq_ok.1 h ▸ hinv

theorem BridgeInv.recoveryExitTx
    (h : recoveryExitTx env ctx s acc tx = .ok acc') : BridgeInv ctx s acc' := by
  unfold Validation.recoveryExitTx at h
  dsimp only at h
  split_ifs at h with hb
  · exact pure_eq_ok.1 h ▸ hinv
  · simp only [bind_eq_ok, require_eq_ok] at h
    obtain ⟨-, -, h⟩ := h
    split at h
    next => cases h
    next claim ids _ =>
      simp only [bind_eq_ok, require_eq_ok, pure_eq_ok] at h
      obtain ⟨-, -, -, -, -, -, -, hclaimed, -, -, rfl⟩ := h
      simp only [Bool.or_eq_true, decide_eq_true_eq, not_or] at hclaimed
      exact ⟨forall_mem_append.2 ⟨hinv.exits_new, by simpa using hclaimed.2⟩,
        hinv.created_nodup, hinv.created_new, hinv.created_height, hinv.manifests_nodup,
        hinv.manifests_new⟩

theorem BridgeInv.congr (hexits : acc'.recoveryExitCommitments = acc.recoveryExitCommitments)
    (hcreated : acc'.settlementAnchors = acc.settlementAnchors)
    (hmanifests : acc'.nettingManifests = acc.nettingManifests) : BridgeInv ctx s acc' := by
  constructor
  case exits_new => exact hexits ▸ hinv.exits_new
  case created_nodup => exact hcreated ▸ hinv.created_nodup
  case created_new => exact hcreated ▸ hinv.created_new
  case created_height => exact hcreated ▸ hinv.created_height
  case manifests_nodup => exact hmanifests ▸ hinv.manifests_nodup
  case manifests_new => exact hmanifests ▸ hinv.manifests_new

theorem BridgeInv.shieldedTx
    (h : shieldedTx env ctx s acc tx = .ok acc') : BridgeInv ctx s acc' := by
  obtain ⟨_, acc₂, acc₃, acc₄, acc₅, acc₆, -, e₂, hexit, hacct, hpool, hres, hfam⟩ :=
    shieldedTx_ok h
  obtain ⟨_, _, _, -, -, e₄⟩ := accountTx_ok hacct
  obtain ⟨_, _, _, -, -, -, e₅⟩ := poolAndTreeTx_ok hpool
  obtain ⟨_, _, _, e₆⟩ := resourceTx_ok hres
  have hinv₂ : BridgeInv ctx s acc₂ := hinv.congr (by rw [e₂]) (by rw [e₂]) (by rw [e₂])
  have hinv₃ : BridgeInv ctx s acc₃ := hinv₂.recoveryExitTx hexit
  have hinv₆ : BridgeInv ctx s acc₆ :=
    hinv₃.congr (by rw [e₆, e₅, e₄]) (by rw [e₆, e₅, e₄]) (by rw [e₆, e₅, e₄])
  exact hinv₆.familyTx hfam

end

/-- **The transaction loop.** What a block creates is new. -/
theorem connectTxs_bridgeInv {vtx : List CTransaction} {loop loop' : LoopState env.merkle}
    (hinv : BridgeInv ctx s loop.acc) (h : vtx.foldlM (connectTx env ctx s) loop = .ok loop') :
    BridgeInv ctx s loop'.acc := by
  refine foldlM_ok_invariant (P := fun l => BridgeInv ctx s l.acc) ?_ hinv h
  intro tx _ l l' hl hstep
  obtain ⟨⟨-, hacc⟩ | ⟨-, hacc⟩, -⟩ := connectTx_ok hstep
  · rw [hacc]
    exact hl
  · exact hl.shieldedTx hacc

/-! ## The writes -/

/-- `s'` has the stores of `s` with the writes of the block. -/
structure StoresWritten (env : Env) (height : ℕ) (block : CBlock)
    (s s' : ShieldedState env.merkle) : Prop where
  nullifiers : s'.nullifiers = s.nullifiers ∪ (blockNullifiers env block).toFinset
  nullifiers_new : ∀ nf ∈ blockNullifiers env block, ¬nf.IsNull ∧ nf ∉ s.nullifiers
  recoveryExits : s'.recoveryExitCommitments =
    s.recoveryExitCommitments ∪ (blockRecoveryExits env block).toFinset
  recoveryExits_new : ∀ cm ∈ blockRecoveryExits env block,
    ¬cm.IsNull ∧ cm ∉ s.recoveryExitCommitments
  settlementAnchors : ∀ a, s'.settlementAnchors a =
    if a ∈ blockConsumedAnchors env height block then none
    else if a ∈ blockCreatedAnchors env height block then some (height : ℤ)
    else s.settlementAnchors a
  created_nodup : (blockCreatedAnchors env height block).Nodup
  created_new : ∀ a ∈ blockCreatedAnchors env height block,
    ¬a.IsNull ∧ s.settlementAnchors a = none
  consumed_nodup : (blockConsumedAnchors env height block).Nodup
  consumed_known : ∀ a ∈ blockConsumedAnchors env height block, ¬a.IsNull ∧
    (a ∈ blockCreatedAnchors env height block ∨ ∃ h, 0 ≤ h ∧ s.settlementAnchors a = some h)
  nettingManifests : s'.nettingManifests = s.nettingManifests.insertAll
    ((blockManifestStates env height block).map fun m =>
      (m.manifestId, m.createdHeight, m.settlementWindow))
  manifests_valid : ∀ m ∈ blockManifestStates env height block, m.IsValid
  manifests_ids : (blockManifestStates env height block).map (·.manifestId) =
    blockManifests env block
  manifests_nodup : (blockManifests env block).Nodup
  manifests_new : ∀ id ∈ blockManifests env block, ¬id.IsNull ∧ s.nettingManifests id = none

theorem settlementAnchorState_isNone {a : Uint256} (h : (s.settlementAnchorState a).isNone)
    (hnull : ¬a.IsNull) : s.settlementAnchors a = none := by
  unfold ShieldedState.settlementAnchorState at h
  rw [if_neg hnull] at h
  simpa using h

theorem nettingManifestState_isNone (h : (s.nettingManifestState id).isNone)
    (hnull : ¬id.IsNull) : s.nettingManifests id = none := by
  unfold ShieldedState.nettingManifestState at h
  rw [if_neg hnull] at h
  simpa using h

theorem settlementAnchors_of_state (h : s.settlementAnchorState a.anchor = some a) :
    s.settlementAnchors a.anchor = some a.createdHeight := by
  unfold ShieldedState.settlementAnchorState at h
  split_ifs at h
  obtain ⟨height, hheight, heq⟩ := Option.map_eq_some_iff.1 h
  rw [hheight, ← heq]

theorem removeSettlementAnchors_ne_null {anchors : List Uint256}
    (h : s.removeSettlementAnchors anchors = some s') : ∀ a ∈ anchors, ¬a.IsNull := by
  unfold ShieldedState.removeSettlementAnchors at h
  split_ifs at h with hnull
  simpa using hnull

theorem insertNettingManifests_valid
    (h : s.insertNettingManifests manifests = some s') : ∀ m ∈ manifests, m.IsValid := by
  unfold ShieldedState.insertNettingManifests at h
  split_ifs at h with hvalid
  exact hvalid

theorem blockConsumedAnchors_eq_nil (h : env.params.useSingleUseSettlementAnchors height = false) :
    blockConsumedAnchors env height block = [] := by
  simp [blockConsumedAnchors, consumedRefs, h]

theorem nettingManifestOf_eq_none (h : tx.hasShieldedBundle = false) :
    nettingManifestOf tx = none := by
  simp only [CTransaction.hasShieldedBundle, CShieldedBundle.isEmpty, Bool.not_eq_false',
    Bool.and_eq_true, Option.isNone_iff_eq_none] at h
  simp [nettingManifestOf, CShieldedBundle.payload, h.2]

theorem blockNettingManifestStates_ok
    (h : blockNettingManifestStates env ctx block = .ok manifests) :
    manifests = blockManifestStates env ctx.height block := by
  simp only [blockNettingManifestStates, bind_eq_ok, pure_eq_ok] at h
  obtain ⟨states, hstates, rfl⟩ := h
  rw [flatten_of_mapM_eq_ok hstates, blockManifestStates, shieldedTxs]
  generalize block.vtx = vtx
  induction vtx with
  | nil => rfl
  | cons tx vtx ih =>
    rw [flatMap_cons, filter_cons, ih]
    split_ifs with hb
    · rw [flatMap_cons]
    · have hnone := nettingManifestOf_eq_none (Bool.eq_false_of_not_eq_true hb)
      simp [extractCreatedShieldedNettingManifestStates, hnone, Except.toOption, pure, Except.pure]

theorem extractCreatedShieldedNettingManifests_of_states
    {states : List ConfirmedNettingManifestState}
    (h : extractCreatedShieldedNettingManifestStates env tx height = .ok states) :
    extractCreatedShieldedNettingManifests env tx = .ok (states.map (·.manifestId)) := by
  unfold extractCreatedShieldedNettingManifestStates at h
  unfold extractCreatedShieldedNettingManifests
  cases hm : nettingManifestOf tx with
  | none =>
    simp only [hm, pure_eq_ok] at h
    rw [← h]
    rfl
  | some manifest =>
    simp only [hm, ite_throw_eq_ok, pure_eq_ok, not_or] at h
    rw [← h.2]
    exact if_neg h.1.1

theorem blockManifestStates_ids (h : blockNettingManifestStates env ctx block = .ok manifests) :
    (blockManifestStates env ctx.height block).map (·.manifestId) = blockManifests env block := by
  simp only [blockNettingManifestStates, bind_eq_ok] at h
  obtain ⟨states, hstates, -⟩ := h
  have hitem := exists_mapM_eq_ok_iff.1 ⟨states, hstates⟩
  rw [blockManifestStates, blockManifests, map_flatMap]
  refine flatMap_congr fun tx htx => ?_
  obtain ⟨l, hl⟩ := hitem tx (List.mem_filter.1 htx).1
  rw [hl, extractCreatedShieldedNettingManifests_of_states hl]
  rfl

section

variable (hconsumed : acc.consumedSettlementAnchors = blockConsumedAnchors env ctx.height block)

include hconsumed

theorem mem_storedSettlementAnchors :
    a ∈ storedSettlementAnchors env ctx acc ↔
      a ∈ acc.settlementAnchors ∧ a.anchor ∉ acc.consumedSettlementAnchors := by
  unfold storedSettlementAnchors
  split_ifs with hsingle
  · simp [List.mem_filter]
  · rw [hconsumed, blockConsumedAnchors_eq_nil (by simpa using hsingle)]
    simp

theorem removedSettlementAnchors_eq :
    removedSettlementAnchors env ctx acc = acc.consumedSettlementAnchors := by
  unfold removedSettlementAnchors
  split_ifs with hsingle
  · rfl
  · rw [hconsumed, blockConsumedAnchors_eq_nil (by simpa using hsingle)]

end

theorem settlementAnchors_written (hinv : BridgeInv ctx s acc)
    (hconsumed : acc.consumedSettlementAnchors = blockConsumedAnchors env ctx.height block)
    (m : PartialMap Uint256 ℤ) (a : Uint256) :
    (m.insertAll ((storedSettlementAnchors env ctx acc).map fun a => (a.anchor, a.createdHeight))
      ).eraseAll acc.consumedSettlementAnchors a =
      if a ∈ acc.consumedSettlementAnchors then none
      else if a ∈ acc.settlementAnchors.map (·.anchor) then some (ctx.height : ℤ)
      else m a := by
  rw [PartialMap.eraseAll_apply]
  split_ifs with hmem hcreated
  · rfl
  · obtain ⟨state, hstate, rfl⟩ := mem_map.1 hcreated
    have hkey : state.anchor ∈ ((storedSettlementAnchors env ctx acc).map
        fun a => (a.anchor, a.createdHeight)).map Prod.fst := by
      rw [map_map]
      exact mem_map.2 ⟨state, (mem_storedSettlementAnchors hconsumed).2 ⟨hstate, hmem⟩, rfl⟩
    obtain ⟨v, hv, hget⟩ := PartialMap.insertAll_of_mem (m := m) hkey
    obtain ⟨state', hstate', heq⟩ := mem_map.1 hv
    obtain rfl : state'.createdHeight = v := congrArg Prod.snd heq
    rw [hget, hinv.created_height state' ((mem_storedSettlementAnchors hconsumed).1 hstate').1]
  · refine PartialMap.insertAll_of_notMem fun hkey => hcreated ?_
    rw [map_map] at hkey
    obtain ⟨state, hstate, rfl⟩ := mem_map.1 hkey
    exact mem_map.2 ⟨state, ((mem_storedSettlementAnchors hconsumed).1 hstate).1, rfl⟩

theorem extractCreatedShieldedNettingManifests_ne_null
    (h : id ∈ (extractCreatedShieldedNettingManifests env tx).toOption.getD []) : ¬id.IsNull := by
  unfold extractCreatedShieldedNettingManifests at h
  split at h
  next => exact absurd h (by simp [Except.toOption, pure, Except.pure])
  next manifest _ =>
    split_ifs at h with hnull
    · exact absurd h (by simp [Except.toOption, throw, throwThe, MonadExceptOf.throw])
    · obtain rfl : id = env.nettingManifestId manifest := by
        simpa [Except.toOption, pure, Except.pure] using h
      exact hnull

variable (env) in
/-- What the transaction loop has collected is what the block carries. -/
structure Collects (height : ℕ) (block : CBlock) (acc : BlockAcc env.merkle) : Prop where
  nullifiers : acc.nullifiers = blockNullifiers env block
  recoveryExits : acc.recoveryExitCommitments = blockRecoveryExits env block
  created : acc.settlementAnchors.map (·.anchor) = blockCreatedAnchors env height block
  consumed : acc.consumedSettlementAnchors = blockConsumedAnchors env height block
  manifests : acc.nettingManifests = blockManifests env block

theorem Extends.collects (h : Extends s (.start s) acc ds)
    (hds : blockUndoData env height block = some ds) : Collects env height block acc where
  nullifiers := h.nullifiers.trans (blockUndoData_nullifiers hds)
  recoveryExits := h.recoveryExitCommitments.trans (blockUndoData_recoveryExits hds)
  created := h.settlementAnchors.trans (blockUndoData_created hds)
  consumed := h.consumedSettlementAnchors.trans (blockUndoData_consumed hds)
  manifests := h.nettingManifests.trans (blockUndoData_manifests hds)

/-- **The writes of a block.** After the transaction loop the writes leave the stores that the
block's own data describes, and the pool and the velocity log as they were. -/
theorem writeStores_ok (hds : blockUndoData env ctx.height block = some ds)
    (hext : Extends s (.start s) acc ds) (hinv : BridgeInv ctx s acc)
    (h : writeStores env ctx block acc s = .ok s') :
    StoresWritten env ctx.height block s s' ∧ s'.pool = s.pool ∧ s'.velocity = s.velocity := by
  have hanchors : AnchorInv s acc := hext.anchorInv anchorInv_start
  obtain ⟨hnfs, hexits, hcreated, hconsumed, hmanifests⟩ := hext.collects hds
  simp only [writeStores, bind_eq_ok, rejectWith_eq_ok, writeOr_eq_ok] at h
  obtain ⟨s₁, h₁, s₂, h₂, s₃, h₃, s₄, h₄, manifests, hstates, h₅⟩ := h
  have hids := blockManifestStates_ids hstates
  obtain rfl := blockNettingManifestStates_ok hstates
  have hvalid := insertNettingManifests_valid h₅
  obtain ⟨hnf, rfl⟩ := insertNullifiers_eq_some h₁
  obtain ⟨hcm, rfl⟩ := insertRecoveryExitCommitments_eq_some h₂
  obtain ⟨hstored, rfl⟩ := insertSettlementAnchors_eq_some h₃
  rw [removedSettlementAnchors_eq hconsumed] at h₄
  have hremoved := removeSettlementAnchors_ne_null h₄
  obtain rfl := removeSettlementAnchors_eq_some h₄
  obtain rfl := insertNettingManifests_eq_some h₅
  -- a created anchor is stored or removed again, so it is not null
  have hnotnull : ∀ a ∈ acc.settlementAnchors, ¬a.anchor.IsNull := fun a ha => by
    by_cases hmem : a.anchor ∈ acc.consumedSettlementAnchors
    · exact hremoved _ hmem
    · exact (hstored a ((mem_storedSettlementAnchors hconsumed).2 ⟨ha, hmem⟩)).1
  refine ⟨?_, rfl, rfl⟩
  constructor
  case nullifiers => rw [hnfs]
  case nullifiers_new =>
    intro nf hmem
    have hnull := hnf nf (hnfs ▸ hmem)
    have hunspent := hext.nullifiers_unspent nf (by rwa [blockUndoData_nullifiers hds])
    refine ⟨hnull, fun hspent => hunspent ?_⟩
    simp [ShieldedState.isShieldedNullifierSpent, hnull, hspent]
  case recoveryExits => rw [hexits]
  case recoveryExits_new =>
    intro cm hmem
    have hnull := hcm cm (hexits ▸ hmem)
    refine ⟨hnull, fun hclaimed => hinv.exits_new cm (hexits ▸ hmem) ?_⟩
    simp [ShieldedState.containsRecoveryExitCommitment, hnull, hclaimed]
  case settlementAnchors =>
    intro a
    rw [← hconsumed, ← hcreated]
    exact settlementAnchors_written hinv hconsumed _ a
  case created_nodup => exact hcreated ▸ hinv.created_nodup
  case created_new =>
    intro a ha
    rw [← hcreated] at ha
    obtain ⟨state, hstate, rfl⟩ := mem_map.1 ha
    exact ⟨hnotnull state hstate,
      settlementAnchorState_isNone (hinv.created_new state hstate) (hnotnull state hstate)⟩
  case consumed_nodup => exact hconsumed ▸ hanchors.nodup
  case consumed_known =>
    intro a ha
    rw [← hconsumed] at ha
    refine ⟨hremoved a ha, ?_⟩
    by_cases hmem : a ∈ acc.settlementAnchors.map (·.anchor)
    · exact .inl (hcreated ▸ hmem)
    · have hrecorded : a ∈ acc.consumedSettlementAnchorStates.map (·.anchor) := by
        rw [hanchors.states_anchor]
        exact List.mem_filter.2 ⟨ha, by simpa using hmem⟩
      obtain ⟨state, hstate, rfl⟩ := mem_map.1 hrecorded
      exact .inr ⟨state.createdHeight, (hanchors.states_valid state hstate).2,
        settlementAnchors_of_state (hanchors.states_stored state hstate)⟩
  case nettingManifests => rfl
  case manifests_valid => exact hvalid
  case manifests_ids => exact hids
  case manifests_nodup => exact hmanifests ▸ hinv.manifests_nodup
  case manifests_new =>
    intro id hid
    have hnull : ¬id.IsNull := by
      obtain ⟨tx, -, htx⟩ := mem_flatMap.1 hid
      exact extractCreatedShieldedNettingManifests_ne_null htx
    exact ⟨hnull, nettingManifestState_isNone (hinv.manifests_new id (hmanifests ▸ hid)) hnull⟩

theorem validateBlock_loop {st : ChainState env.merkle} {loop : LoopState env.merkle}
    (h : validateBlock env ctx st block = .ok loop) :
    ∃ ds, blockUndoData env ctx.height block = some ds ∧
      Extends st.shielded (.start st.shielded) loop.acc ds ∧
      BridgeInv ctx st.shielded loop.acc := by
  obtain ⟨-, hloop, -⟩ := validateBlock_ok h
  obtain ⟨ds, hds, hext, -⟩ := connectTxs_extends hloop
  exact ⟨ds, hds, hext, connectTxs_bridgeInv bridgeInv_start hloop⟩

theorem storesWritten_refl (hnone : ∀ tx ∈ block.vtx, tx.hasShieldedBundle = false) :
    StoresWritten env height block s s := by
  have hfilter : shieldedTxs block = [] :=
    filter_eq_nil_iff.2 fun tx htx => by simp [hnone tx htx]
  have hnfs : blockNullifiers env block = [] := by
    rw [blockNullifiers, ← shieldedTxs, hfilter, flatMap_nil]
  constructor <;>
    simp [hnfs, blockRecoveryExits, blockConsumedAnchors, blockCreatedAnchors, blockManifestStates,
      blockManifests, hfilter, PartialMap.insertAll]

/-- **The stores after an accepted block.** -/
theorem connectBlock_storesWritten {st st' : ChainState env.merkle}
    (h : connectBlock env ctx st block = .ok (st', undo)) :
    StoresWritten env ctx.height block st.shielded st'.shielded := by
  obtain ⟨loop, hvalid, -, -, ⟨-, hcommit⟩ | ⟨he, hs⟩⟩ := connectBlock_ok h
  · obtain ⟨ds, hds, hext, hinv⟩ := validateBlock_loop hvalid
    rw [commitShielded] at hcommit
    simp only [bind_eq_ok, rejectWith_eq_ok, pure_eq_ok] at hcommit
    obtain ⟨registry, -, s₅, hwrites, velocity, -, heq⟩ := hcommit
    have hwritten := (writeStores_ok hds hext hinv hwrites).1
    rw [← heq]
    exact { hwritten with }
  · rw [hs]
    exact storesWritten_refl (hasShieldedBundle_of_not_enforces he)

end Stores

end Btx.Validation
