/-
# What an accepted block adds

Whatever `ConnectBlock` adds to its local variables for a transaction is what `DisconnectBlock`
collects from it (`txUndoData`). `Extends` says it for a list of transactions; it holds for one step
and is closed under composition, so it holds for the transaction loop (`connectTxs_extends`).
-/

import Btx.Validation.DisconnectBlock

namespace Btx.Validation

open Util Shielded List Option

section Effects

variable {env : Env} {ctx : BlockContext} {s : ShieldedState env.merkle}
  {acc acc' : BlockAcc env.merkle} {tx : CTransaction} {b : CShieldedBundle}

/-! ## The loops inside a transaction -/

theorem retireNullifier_ok {nf : Nullifier} (h : retireNullifier env s acc nf = .ok acc') :
    acc' = { acc with nullifiers := acc.nullifiers ++ [nf] } ∧ nf ∉ acc.nullifiers ∧
      ¬s.isShieldedNullifierSpent nf := by
  simp only [retireNullifier, bind_eq_ok, require_eq_ok, pure_eq_ok] at h
  obtain ⟨-, hnew, -, hunspent, rfl⟩ := h
  exact ⟨rfl, hnew, hunspent⟩

variable {nfs : List Nullifier} {cms : List Uint256} {anchor : Uint256}
  {ids : List RecoveryExitIdentifiers} {loop loop' : LoopState env.merkle}

theorem foldlM_retireNullifier_ok (h : nfs.foldlM (retireNullifier env s) acc = .ok acc') :
    acc' = { acc with nullifiers := acc.nullifiers ++ nfs } :=
  foldlM_ok_collect (g := fun acc nfs => { acc with nullifiers := acc.nullifiers ++ nfs })
    (by simp) (by simp) (fun _ _ _ h => (retireNullifier_ok h).1) h

theorem foldlM_addOutputCommitment_ok (h : cms.foldlM (addOutputCommitment env) acc = .ok acc') :
    acc' = { acc with outputCommitments := acc.outputCommitments ++ cms } := by
  refine foldlM_ok_collect
    (g := fun acc cms => { acc with outputCommitments := acc.outputCommitments ++ cms })
    (by simp) (by simp) (fun acc cm acc' h => ?_) h
  simp only [addOutputCommitment, bind_eq_ok, require_eq_ok, pure_eq_ok] at h
  obtain ⟨-, -, rfl⟩ := h
  rfl

theorem createSettlementAnchor_ok (h : createSettlementAnchor env ctx s acc anchor = .ok acc') :
    acc' = { acc with settlementAnchors := acc.settlementAnchors ++ [⟨anchor, ctx.height⟩] } ∧
      (s.settlementAnchorState anchor).isNone ∧
      anchor ∉ acc.settlementAnchors.map (·.anchor) := by
  simp only [createSettlementAnchor, bind_eq_ok, require_eq_ok, pure_eq_ok] at h
  obtain ⟨-, ⟨hnone, hnew⟩, rfl⟩ := h
  exact ⟨rfl, hnone, hnew⟩

theorem foldlM_createSettlementAnchor_ok {anchors : List Uint256}
    (h : anchors.foldlM (createSettlementAnchor env ctx s) acc = .ok acc') :
    acc' = { acc with
      settlementAnchors := acc.settlementAnchors ++ anchors.map (⟨·, ctx.height⟩) } :=
  foldlM_ok_collect
    (g := fun acc anchors => { acc with
      settlementAnchors := acc.settlementAnchors ++ anchors.map (⟨·, ctx.height⟩) })
    (by simp) (by simp) (fun _ _ _ h => (createSettlementAnchor_ok h).1) h

theorem foldlM_createNettingManifest_ok {ids : List Uint256}
    (h : ids.foldlM (createNettingManifest env s) acc = .ok acc') :
    acc' = { acc with nettingManifests := acc.nettingManifests ++ ids } := by
  refine foldlM_ok_collect
    (g := fun acc ids => { acc with nettingManifests := acc.nettingManifests ++ ids })
    (by simp) (by simp) (fun acc id acc' h => ?_) h
  simp only [createNettingManifest, bind_eq_ok, require_eq_ok, pure_eq_ok] at h
  obtain ⟨-, -, rfl⟩ := h
  rfl

theorem foldlM_append_commitments {t t' : ShieldedMerkleTree env.merkle}
    (h : cms.foldlM ShieldedMerkleTree.append t = .ok t') :
    t'.commitments = t.commitments ++ cms := by
  induction cms generalizing t with
  | nil =>
    obtain rfl : t = t' := by simpa using h
    simp
  | cons cm cms ih =>
    obtain ⟨t₁, ht₁, hrest⟩ := bind_eq_ok.1 (by simpa using h)
    rw [ih hrest, ShieldedMerkleTree.append_commitments ht₁, append_assoc, singleton_append]

/-! ## The parts of a transaction -/

theorem recoveryExitTx_ok (h : recoveryExitTx env ctx s acc tx = .ok acc') :
    ∃ ids, recoveryExitIds env tx.shieldedBundle = some ids ∧
      acc' = { acc with
        nullifiers := acc.nullifiers ++ ids.map (·.nullifier)
        recoveryExitCommitments := acc.recoveryExitCommitments ++ ids.map (·.commitment) } ∧
      (∀ id ∈ ids, id.nullifier ∉ acc.nullifiers ∧ ¬s.isShieldedNullifierSpent id.nullifier) ∧
      ids.length ≤ 1 := by
  unfold recoveryExitTx at h
  unfold recoveryExitIds
  cases hb : isRecoveryExitBundle tx.shieldedBundle with
  | false =>
    simp only [hb, Bool.not_false, if_true, pure_eq_ok] at h
    exact ⟨[], by simp, by simp [h], by simp, by simp⟩
  | true =>
    simp only [hb, Bool.not_true, Bool.false_eq_true, if_false, bind_eq_ok, require_eq_ok] at h
    obtain ⟨-, -, h⟩ := h
    split at h
    next => cases h
    next claim ids hids =>
      simp only [bind_eq_ok, require_eq_ok, pure_eq_ok] at h
      obtain ⟨-, -, -, -, -, hspent, -, -, -, -, rfl⟩ := h
      simp only [Bool.or_eq_true, decide_eq_true_eq, not_or] at hspent
      exact ⟨[ids], by simp [hids], by simp, by simpa using hspent, by simp⟩

theorem accountTx_ok (h : accountTx env ctx s acc b = .ok acc') : ∃ entries leaves appends,
      collectShieldedOutputAccountLeafEntries env.accounts
        (env.params.useNoncedShieldedBridgeTags ctx.height) b = some entries ∧
      collectShieldedOutputAccountLeaves env.accounts
        (env.params.useNoncedShieldedBridgeTags ctx.height) b = some leaves ∧
      acc' = { acc with
        smilePublicAccounts := acc.smilePublicAccounts ++ collectShieldedOutputSmileAccounts b
        accountLeafEntries := acc.accountLeafEntries ++ entries
        accountLeaves := acc.accountLeaves ++ leaves
        registryAppends := appends } := by
  unfold accountTx at h
  dsimp only at h
  split at h
  next entries leaves hentries hleaves =>
    simp only [bind_eq_ok, require_eq_ok, pure_eq_ok] at h
    obtain ⟨-, -, -, -, rfl⟩ := h
    exact ⟨entries, leaves, _, hentries, hleaves, rfl⟩
  next => cases h

theorem poolAndTreeTx_eq_ok (h : poolAndTreeTx env acc b = .ok acc') :
    ∃ vb pool tree, tryGetShieldedStateValueBalance env.codec b = .ok vb ∧
      acc.pool.applyValueBalance vb = some pool ∧
      (collectShieldedOutputCommitments b).foldlM ShieldedMerkleTree.append acc.tree = .ok tree ∧
      acc' = { acc with pool := pool, tree := tree } := by
  obtain ⟨vb, hvb, h⟩ := bind_eq_ok.1 h
  split at h
  next => cases h
  next pool hpool =>
    simp only [bind_eq_ok, pure_eq_ok] at h
    obtain ⟨tree, htree, rfl⟩ := h
    exact ⟨vb, pool, tree, hvb, hpool, htree, rfl⟩

theorem poolAndTreeTx_ok (h : poolAndTreeTx env acc b = .ok acc') :
    ∃ vb pool tree, tryGetShieldedStateValueBalance env.codec b = .ok vb ∧
      acc.pool.applyValueBalance vb = some pool ∧
      tree.commitments = acc.tree.commitments ++ collectShieldedOutputCommitments b ∧
      acc' = { acc with pool := pool, tree := tree } := by
  obtain ⟨vb, pool, tree, hvb, hpool, htree, hacc⟩ := poolAndTreeTx_eq_ok h
  exact ⟨vb, pool, tree, hvb, hpool, foldlM_append_commitments htree, hacc⟩

theorem resourceTx_ok (h : resourceTx env ctx acc b = .ok acc') :
    ∃ v sc t, acc' = { acc with verifyCost := v, scanUnits := sc, treeUpdateUnits := t } := by
  simp only [resourceTx, bind_eq_ok, require_eq_ok, pure_eq_ok] at h
  obtain ⟨-, -, -, -, -, -, rfl⟩ := h
  exact ⟨_, _, _, rfl⟩

/-! ## Settlement anchors -/

/-- What the consumed anchors of a block are: distinct, and those not created in the block
come with a valid record of the parent state, in the same order. -/
structure AnchorInv (s : ShieldedState env.merkle) (acc : BlockAcc env.merkle) : Prop where
  nodup : acc.consumedSettlementAnchors.Nodup
  states_anchor : acc.consumedSettlementAnchorStates.map (·.anchor) =
    acc.consumedSettlementAnchors.filter (· ∉ acc.settlementAnchors.map (·.anchor))
  states_valid : ∀ a ∈ acc.consumedSettlementAnchorStates, a.IsValid
  states_stored : ∀ a ∈ acc.consumedSettlementAnchorStates,
    s.settlementAnchorState a.anchor = some a

theorem settlementAnchorState_anchor {a : ConfirmedSettlementAnchorState}
    (h : s.settlementAnchorState anchor = some a) : a.anchor = anchor := by
  unfold ShieldedState.settlementAnchorState at h
  split_ifs at h
  obtain ⟨_, -, rfl⟩ := map_eq_some_iff.1 h
  rfl

theorem consumeSettlementAnchor_ok (h : consumeSettlementAnchor env s acc anchor = .ok acc') :
    anchor ∉ acc.consumedSettlementAnchors ∧
      ∃ states, acc' = { acc with
          consumedSettlementAnchors := acc.consumedSettlementAnchors ++ [anchor]
          consumedSettlementAnchorStates := acc.consumedSettlementAnchorStates ++ states } ∧
        ((anchor ∈ acc.settlementAnchors.map (·.anchor) ∧ states = []) ∨
          (anchor ∉ acc.settlementAnchors.map (·.anchor) ∧
            ∃ a, states = [a] ∧ s.settlementAnchorState anchor = some a ∧ a.IsValid)) := by
  unfold consumeSettlementAnchor at h
  simp only [bind_eq_ok, require_eq_ok] at h
  obtain ⟨-, hnew, h⟩ := h
  refine ⟨hnew, ?_⟩
  split_ifs at h with hcreated
  · cases h
    exact ⟨[], by simp, .inl ⟨hcreated, rfl⟩⟩
  · split at h
    next => cases h
    next a ha =>
      obtain ⟨hvalid, h⟩ := ite_throw_eq_ok.1 h
      cases h
      exact ⟨[a], rfl, .inr ⟨hcreated, a, rfl, ha, not_not.1 hvalid⟩⟩

theorem AnchorInv.consume (hinv : AnchorInv s acc)
    (h : consumeSettlementAnchor env s acc anchor = .ok acc') : AnchorInv s acc' := by
  obtain ⟨hnew, states, rfl, hcases⟩ := consumeSettlementAnchor_ok h
  have hnodup : (acc.consumedSettlementAnchors ++ [anchor]).Nodup :=
    nodup_append.2 ⟨hinv.nodup, nodup_singleton _, by
      intro a ha b hb
      rw [mem_singleton.1 hb]
      exact fun heq => hnew (heq ▸ ha)⟩
  obtain ⟨hcreated, rfl⟩ | ⟨hcreated, a, rfl, ha, hvalid⟩ := hcases
  · refine ⟨hnodup, ?_, ?_, ?_⟩
    · simp [hinv.states_anchor, filter_append, List.mem_map.1 hcreated]
    · simpa using hinv.states_valid
    · simpa using hinv.states_stored
  · have hanchor := settlementAnchorState_anchor ha
    refine ⟨hnodup, ?_, ?_, ?_⟩
    · have hkept : [anchor].filter (· ∉ acc.settlementAnchors.map (·.anchor)) = [anchor] :=
        filter_cons_of_pos (by simpa using hcreated)
      rw [map_append, hinv.states_anchor, filter_append, hkept, map_singleton, hanchor]
    · exact forall_mem_append.2 ⟨hinv.states_valid, by simpa using hvalid⟩
    · exact forall_mem_append.2 ⟨hinv.states_stored, by simpa [hanchor] using ha⟩

theorem AnchorInv.create (hinv : AnchorInv s acc)
    (h : createSettlementAnchor env ctx s acc anchor = .ok acc') : AnchorInv s acc' := by
  obtain ⟨rfl, hnone, -⟩ := createSettlementAnchor_ok h
  refine ⟨hinv.nodup, ?_, hinv.states_valid, hinv.states_stored⟩
  -- a created anchor is not stored, so it is none of those with a record
  have hnot : anchor ∉ acc.consumedSettlementAnchorStates.map (·.anchor) := by
    intro hmem
    obtain ⟨a, ha, rfl⟩ := List.mem_map.1 hmem
    rw [hinv.states_stored a ha] at hnone
    exact nomatch hnone
  change acc.consumedSettlementAnchorStates.map (·.anchor) = _
  rw [hinv.states_anchor] at hnot ⊢
  refine filter_congr fun a ha => ?_
  by_cases heq : a = anchor
  · subst heq
    have : a ∈ acc.settlementAnchors.map (·.anchor) := by
      by_contra hcreated
      exact hnot (List.mem_filter.2 ⟨ha, by simpa using hcreated⟩)
    simpa using List.mem_map.1 this
  · simp [heq]

/-! ## The families -/

theorem egressBatchTx_ok {p : EgressBatchPayload} (h : egressBatchTx env ctx s acc p = .ok acc') :
    (env.params.useSingleUseSettlementAnchors ctx.height = true ∧
      consumeSettlementAnchor env s acc p.settlementAnchor = .ok acc') ∨
    (env.params.useSingleUseSettlementAnchors ctx.height = false ∧ acc' = acc) := by
  simp only [egressBatchTx, bind_eq_ok, require_eq_ok] at h
  obtain ⟨-, -, -, -, -, -, h⟩ := h
  split_ifs at h with hsingle
  · exact .inl ⟨hsingle, h⟩
  · exact .inr ⟨by simpa using hsingle, (pure_eq_ok.1 h).symm⟩

/-- What the switch over the families adds to the block. -/
theorem familyTx_ok (h : familyTx env ctx s acc tx = .ok acc') : ∃ created manifests states,
      extractCreatedShieldedSettlementAnchors env tx ctx.height = .ok created ∧
      extractCreatedShieldedNettingManifests env tx = .ok manifests ∧
      acc' = { acc with
        settlementAnchors := acc.settlementAnchors ++ created.map (⟨·, ctx.height⟩)
        consumedSettlementAnchors :=
          acc.consumedSettlementAnchors ++ consumedRefs env ctx.height tx.shieldedBundle
        consumedSettlementAnchorStates := acc.consumedSettlementAnchorStates ++ states
        nettingManifests := acc.nettingManifests ++ manifests } := by
  unfold familyTx CShieldedBundle.payload at h
  unfold extractCreatedShieldedSettlementAnchors extractCreatedShieldedNettingManifests
    nettingManifestOf consumedRefs collectShieldedSettlementAnchorRefs CShieldedBundle.payload
  cases hb : tx.shieldedBundle.v2Bundle with
  | none =>
    simp only [hb, map_none, pure_eq_ok] at h
    exact ⟨[], [], [], rfl, rfl, by simp [h]⟩
  | some v2 =>
    simp only [hb, map_some] at h ⊢
    cases hp : v2.payload with
    | egressBatch p =>
      simp only [hp] at h ⊢
      obtain ⟨hsingle, h⟩ | ⟨hsingle, rfl⟩ := egressBatchTx_ok h
      · obtain ⟨-, states, rfl, -⟩ := consumeSettlementAnchor_ok h
        exact ⟨[], [], states, rfl, rfl, by simp [hsingle]⟩
      · exact ⟨[], [], [], rfl, rfl, by simp [hsingle]⟩
    | settlementAnchor p =>
      simp only [hp, settlementAnchorTx, bind_eq_ok, require_eq_ok] at h ⊢
      obtain ⟨-, -, created, hcreated, h⟩ := h
      obtain rfl := foldlM_createSettlementAnchor_ok h
      unfold extractCreatedShieldedSettlementAnchors at hcreated
      simp only [hb, hp, bind_eq_ok] at hcreated
      exact ⟨created, [], [], hcreated, rfl, by simp⟩
    | rebalance p =>
      simp only [hp, rebalanceTx, bind_eq_ok] at h ⊢
      obtain ⟨manifests, hmanifests, h⟩ := h
      obtain rfl := foldlM_createNettingManifest_ok h
      unfold extractCreatedShieldedNettingManifests nettingManifestOf
        CShieldedBundle.payload at hmanifests
      simp only [hb, hp, map_some] at hmanifests
      exact ⟨[], manifests, [], rfl, hmanifests, by simp⟩
    | generic =>
      simp only [hp] at h
      cases h
    | send p | ingressBatch p | lifecycle p | spendPathRecovery p | recoveryExit p =>
      simp only [hp, pure_eq_ok] at h ⊢
      exact ⟨[], [], [], rfl, rfl, by simp [h]⟩

theorem AnchorInv.familyTx (hinv : AnchorInv s acc) (h : familyTx env ctx s acc tx = .ok acc') :
    AnchorInv s acc' := by
  unfold Validation.familyTx at h
  split at h
  next p _ =>
    obtain ⟨-, h⟩ | ⟨-, rfl⟩ := egressBatchTx_ok h
    · exact hinv.consume h
    · exact hinv
  next p _ =>
    simp only [settlementAnchorTx, bind_eq_ok, require_eq_ok] at h
    obtain ⟨-, -, created, -, h⟩ := h
    exact foldlM_ok_invariant (fun _ _ _ _ hinv h => AnchorInv.create hinv h) hinv h
  next p _ =>
    simp only [rebalanceTx, bind_eq_ok] at h
    obtain ⟨manifests, -, h⟩ := h
    obtain rfl := foldlM_createNettingManifest_ok h
    exact ⟨hinv.nodup, hinv.states_anchor, hinv.states_valid, hinv.states_stored⟩
  next => cases h
  next => exact pure_eq_ok.1 h ▸ hinv

/-! ## A transaction and a block -/

/-- `acc'` is `acc` after transactions from which `DisconnectBlock` collects `ds`. -/
structure Extends (s : ShieldedState env.merkle) (acc acc' : BlockAcc env.merkle)
    (ds : List TxUndoData) : Prop where
  nullifiers : acc'.nullifiers = acc.nullifiers ++ ds.flatMap (·.nullifiers)
  nullifiers_nodup : acc.nullifiers.Nodup → acc'.nullifiers.Nodup
  nullifiers_unspent : ∀ nf ∈ ds.flatMap (·.nullifiers), ¬s.isShieldedNullifierSpent nf
  recoveryExitCommitments : acc'.recoveryExitCommitments =
    acc.recoveryExitCommitments ++ ds.flatMap (·.recoveryExitCommitments)
  settlementAnchors : acc'.settlementAnchors.map (·.anchor) =
    acc.settlementAnchors.map (·.anchor) ++ ds.flatMap (·.createdSettlementAnchors)
  consumedSettlementAnchors : acc'.consumedSettlementAnchors =
    acc.consumedSettlementAnchors ++ ds.flatMap (·.consumedSettlementAnchors)
  nettingManifests : acc'.nettingManifests =
    acc.nettingManifests ++ ds.flatMap (·.nettingManifests)
  smilePublicAccounts : acc'.smilePublicAccounts.map Prod.fst =
    acc.smilePublicAccounts.map Prod.fst ++ ds.flatMap (·.smileCommitments)
  accountLeafEntries : acc'.accountLeafEntries.map Prod.fst =
    acc.accountLeafEntries.map Prod.fst ++ ds.flatMap (·.smileCommitments)
  accountLeaves : acc'.accountLeaves.length =
    acc.accountLeaves.length + (ds.map (·.leafCount)).sum
  tree : ∃ cms, acc'.tree.commitments = acc.tree.commitments ++ cms ∧
    cms.length = (ds.map (·.outputCount)).sum
  anchorInv : AnchorInv s acc → AnchorInv s acc'

theorem Extends.refl : Extends s acc acc [] := by
  constructor <;> simp

theorem Extends.trans {acc'' : BlockAcc env.merkle} {ds ds' : List TxUndoData}
    (h : Extends s acc acc' ds) (h' : Extends s acc' acc'' ds') :
    Extends s acc acc'' (ds ++ ds') := by
  obtain ⟨cms, hcms, hlen⟩ := h.tree
  obtain ⟨cms', hcms', hlen'⟩ := h'.tree
  constructor
  case nullifiers => rw [h'.nullifiers, h.nullifiers, flatMap_append, append_assoc]
  case nullifiers_nodup => exact fun hn => h'.nullifiers_nodup (h.nullifiers_nodup hn)
  case nullifiers_unspent =>
    rw [flatMap_append]
    exact forall_mem_append.2 ⟨h.nullifiers_unspent, h'.nullifiers_unspent⟩
  case recoveryExitCommitments =>
    rw [h'.recoveryExitCommitments, h.recoveryExitCommitments, flatMap_append, append_assoc]
  case settlementAnchors =>
    rw [h'.settlementAnchors, h.settlementAnchors, flatMap_append, append_assoc]
  case consumedSettlementAnchors =>
    rw [h'.consumedSettlementAnchors, h.consumedSettlementAnchors, flatMap_append, append_assoc]
  case nettingManifests =>
    rw [h'.nettingManifests, h.nettingManifests, flatMap_append, append_assoc]
  case smilePublicAccounts =>
    rw [h'.smilePublicAccounts, h.smilePublicAccounts, flatMap_append, append_assoc]
  case accountLeafEntries =>
    rw [h'.accountLeafEntries, h.accountLeafEntries, flatMap_append, append_assoc]
  case accountLeaves =>
    rw [h'.accountLeaves, h.accountLeaves, map_append, sum_append, add_assoc]
  case tree =>
    refine ⟨cms ++ cms', ?_, ?_⟩
    · rw [hcms', hcms, append_assoc]
    · rw [length_append, hlen, hlen', map_append, sum_append]
  case anchorInv => exact fun hinv => h'.anchorInv (h.anchorInv hinv)

theorem retirements_nodup {acc₁ : BlockAcc env.merkle}
    (hloop : nfs.foldlM (retireNullifier env s) acc = .ok acc₁)
    (hids : ∀ id ∈ ids, id.nullifier ∉ acc.nullifiers ++ nfs) (hlen : ids.length ≤ 1)
    (hnodup : acc.nullifiers.Nodup) :
    (acc.nullifiers ++ (nfs ++ ids.map (·.nullifier))).Nodup := by
  have hacc₁ : acc₁.nullifiers.Nodup := by
    refine foldlM_ok_invariant (P := fun acc => acc.nullifiers.Nodup) ?_ hnodup hloop
    intro nf _ acc acc' hacc h
    obtain ⟨rfl, hnew, -⟩ := retireNullifier_ok h
    exact nodup_append.2 ⟨hacc, nodup_singleton _, by
      intro a ha b hb
      rw [mem_singleton.1 hb]
      exact fun heq => hnew (heq ▸ ha)⟩
  rw [foldlM_retireNullifier_ok hloop] at hacc₁
  rw [← append_assoc]
  match ids, hlen with
  | [], _ => simpa using hacc₁
  | [id], _ =>
    refine nodup_append.2 ⟨hacc₁, by simp, ?_⟩
    intro a ha b hb
    simp only [map_cons, map_nil, mem_singleton] at hb
    rw [hb]
    exact fun heq => hids id (by simp) (heq ▸ ha)

theorem foldlM_retireNullifier_unspent (h : nfs.foldlM (retireNullifier env s) acc = .ok acc') :
    ∀ nf ∈ nfs, ¬s.isShieldedNullifierSpent nf := by
  induction nfs generalizing acc with
  | nil => simp
  | cons nf nfs ih =>
    obtain ⟨acc₁, h₁, hrest⟩ := bind_eq_ok.1 (by simpa using h)
    exact forall_mem_cons.2 ⟨(retireNullifier_ok h₁).2.2, ih hrest⟩

theorem txUndoData_eq_some {height : ℕ} {created manifests leaves : List Uint256}
    (hids : recoveryExitIds env tx.shieldedBundle = some ids)
    (hcreated : extractCreatedShieldedSettlementAnchors env tx height = .ok created)
    (hmanifests : extractCreatedShieldedNettingManifests env tx = .ok manifests)
    (hleaves : collectShieldedOutputAccountLeafCommitments env.accounts
      (env.params.useNoncedShieldedBridgeTags height) tx.shieldedBundle = some leaves) :
    txUndoData env height tx = some
      { nullifiers := collectShieldedNullifiers tx.shieldedBundle ++ ids.map (·.nullifier)
        recoveryExitCommitments := ids.map (·.commitment)
        createdSettlementAnchors := created
        consumedSettlementAnchors := consumedRefs env height tx.shieldedBundle
        nettingManifests := manifests
        smileCommitments := (collectShieldedOutputSmileAccounts tx.shieldedBundle).map Prod.fst
        leafCount := leaves.length
        outputCount := tx.shieldedBundle.shieldedOutputCount } := by
  simp [txUndoData, hids, hcreated, hmanifests, hleaves, Except.toOption]

theorem shieldedTx_ok (h : shieldedTx env ctx s acc tx = .ok acc') :
    ∃ acc₁ acc₂ acc₃ acc₄ acc₅ acc₆,
      (collectShieldedNullifiers tx.shieldedBundle).foldlM (retireNullifier env s) acc =
        .ok acc₁ ∧
      acc₂ = { acc with
        nullifiers := acc.nullifiers ++ collectShieldedNullifiers tx.shieldedBundle
        outputCommitments := acc.outputCommitments ++
          collectShieldedOutputCommitments tx.shieldedBundle } ∧
      recoveryExitTx env ctx s acc₂ tx = .ok acc₃ ∧
      accountTx env ctx s acc₃ tx.shieldedBundle = .ok acc₄ ∧
      poolAndTreeTx env acc₄ tx.shieldedBundle = .ok acc₅ ∧
      resourceTx env ctx acc₅ tx.shieldedBundle = .ok acc₆ ∧
      familyTx env ctx s acc₆ tx = .ok acc' := by
  simp only [shieldedTx, checkShieldedTx, bind_eq_ok, require_eq_ok, pure_eq_ok] at h
  obtain ⟨_, ⟨_, -, _, -, acc₁, hnfs, _, -, acc₂, hcms, acc₃, hexit, acc₄, hacct, acc₅, hpool, acc₆,
    hres, _, -, rfl⟩, _, -, hfam⟩ := h
  refine ⟨acc₁, acc₂, acc₃, acc₄, acc₅, acc₆, hnfs, ?_, hexit, hacct, hpool, hres, hfam⟩
  rw [foldlM_addOutputCommitment_ok hcms, foldlM_retireNullifier_ok hnfs]

/-- **One transaction.** What the shielded part of the loop adds for a transaction is what
`DisconnectBlock` collects from it, and its pool step is that of the turnstile. -/
theorem shieldedTx_extends (hb : tx.hasShieldedBundle = true)
    (h : shieldedTx env ctx s acc tx = .ok acc') :
    ∃ d, txUndoData env ctx.height tx = some d ∧ Extends s acc acc' [d] ∧
      poolTx ShieldedPoolBalance.applyValueBalance env.codec acc.pool tx = .ok acc'.pool := by
  obtain ⟨acc₁, acc₂, acc₃, acc₄, acc₅, acc₆, hnfs, e₂, hexit, hacct, hpool, hres, hfam⟩ :=
    shieldedTx_ok h
  have e₁ := foldlM_retireNullifier_ok hnfs
  obtain ⟨ids, hids, e₃, hnew, hlen⟩ := recoveryExitTx_ok hexit
  obtain ⟨entries, leaves, appends, hentries, hleaves, e₄⟩ := accountTx_ok hacct
  obtain ⟨vb, pool, tree, hvb, happly, htree, e₅⟩ := poolAndTreeTx_ok hpool
  obtain ⟨v, sc, t, e₆⟩ := resourceTx_ok hres
  obtain ⟨created, manifests, states, hcreated, hmanifests, e₇⟩ := familyTx_ok hfam
  have hcommit := collectShieldedOutputAccountLeafCommitments_of_entries env.accounts hentries
  have hkeys := collectShieldedOutputSmileAccounts_keys env.accounts hentries
  have hcount := collectLeaves_length env.accounts hleaves
    (collectLeaves_of_entries env.accounts hentries)
  simp only [e₂] at hnew
  simp only [e₂, e₃, e₄] at htree happly
  refine ⟨_, txUndoData_eq_some hids hcreated hmanifests hcommit, ?_,
    by simp [poolTx, hb, hvb, happly, e₅, e₆, e₇]⟩
  constructor
  case nullifiers_nodup =>
    intro hacc
    simpa [e₁, e₂, e₃, e₄, e₅, e₆, e₇] using
      retirements_nodup hnfs (fun id hid => (hnew id hid).1) hlen hacc
  case nullifiers_unspent =>
    rw [flatMap_singleton]
    exact forall_mem_append.2 ⟨foldlM_retireNullifier_unspent hnfs,
      List.forall_mem_map.2 fun id hid => (hnew id hid).2⟩
  case tree =>
    exact ⟨_, by simpa [e₅, e₆, e₇] using htree,
      by simp [collectShieldedOutputCommitments_length]⟩
  case anchorInv =>
    intro hinv
    refine AnchorInv.familyTx ⟨?_, ?_, ?_, ?_⟩ hfam <;> simp only [e₂, e₃, e₄, e₅, e₆]
    exacts [hinv.nodup, hinv.states_anchor, hinv.states_valid, hinv.states_stored]
  all_goals simp [e₂, e₃, e₄, e₅, e₆, e₇, hkeys, hcount, Function.comp_def]

theorem connectTx_ok (h : connectTx env ctx s loop tx = .ok loop') :
    ((tx.hasShieldedBundle = false ∧ loop'.acc = loop.acc) ∨
        (tx.hasShieldedBundle = true ∧ shieldedTx env ctx s loop.acc tx = .ok loop'.acc)) ∧
      spendTx ctx loop.coins loop.nFees tx = .ok loop'.nFees ∧
      ∃ undo, updateCoins loop.coins ctx.height tx = .ok (loop'.coins, undo) := by
  unfold connectTx transparentTx at h
  cases hb : tx.hasShieldedBundle with
  | false =>
    simp only [hb, Bool.false_eq_true, if_false, bind_eq_ok, pure_eq_ok] at h
    obtain ⟨_, rfl, nFees, hfees, _, -, updated, hcoins, rfl⟩ := h
    exact ⟨.inl ⟨rfl, rfl⟩, hfees, updated.2, hcoins⟩
  | true =>
    simp only [hb, if_true, bind_eq_ok, pure_eq_ok] at h
    obtain ⟨_, -, acc, hacc, nFees, hfees, _, -, updated, hcoins, rfl⟩ := h
    exact ⟨.inr ⟨rfl, hacc⟩, hfees, updated.2, hcoins⟩

theorem connectTx_pool (h : connectTx env ctx s loop tx = .ok loop') :
    poolTx ShieldedPoolBalance.applyValueBalance env.codec loop.acc.pool tx =
      .ok loop'.acc.pool := by
  obtain ⟨⟨hb, hacc⟩ | ⟨hb, hacc⟩, -⟩ := connectTx_ok h
  · simp [poolTx, hb, hacc]
  · exact (shieldedTx_extends hb hacc).choose_spec.2.2

/-- **The transaction loop.** `DisconnectBlock` can collect its data from every list of
transactions the loop accepts, and it is what the loop added. -/
theorem connectTxs_extends {vtx : List CTransaction}
    (h : vtx.foldlM (connectTx env ctx s) loop = .ok loop') :
    ∃ ds, (vtx.filter (·.hasShieldedBundle)).mapM (txUndoData env ctx.height) = some ds ∧
      Extends s loop.acc loop'.acc ds ∧
      connectPool env.codec vtx loop.acc.pool = .ok loop'.acc.pool := by
  induction vtx generalizing loop with
  | nil =>
    obtain rfl : loop = loop' := by simpa using h
    exact ⟨[], rfl, .refl, rfl⟩
  | cons tx vtx ih =>
    obtain ⟨mid, hmid, hrest⟩ := bind_eq_ok.1 (by simpa using h)
    obtain ⟨ds, hds, hext, hpool⟩ := ih hrest
    have hstep : connectPool env.codec (tx :: vtx) loop.acc.pool = .ok loop'.acc.pool := by
      rw [connectPool, foldlM_cons, connectTx_pool hmid]
      exact hpool
    obtain ⟨⟨hb, hacc⟩ | ⟨hb, hacc⟩, -⟩ := connectTx_ok hmid
    · exact ⟨ds, by simpa [hb] using hds, hacc ▸ hext, hstep⟩
    · obtain ⟨d, hd, hone, -⟩ := shieldedTx_extends hb hacc
      exact ⟨d :: ds, by simp [hb, hd, hds], hone.trans hext, hstep⟩

end Effects

end Btx.Validation
