/-
# What accepting a block does to the shielded state

`Connected` is the specification of `ConnectBlock` on the shielded state: the data that
`DisconnectBlock` will collect, the local variables at the end of the loop, and the next state
written from them. The results about runs and about disconnecting use nothing else of
`ConnectBlock`.
-/

import Btx.Validation.Effects

namespace Btx.Validation

open Util Shielded ShieldedState Bool

/-- `s'` is the shielded state after the block was connected to `s`. -/
structure Connected (env : Env) (ctx : BlockContext) (block : CBlock)
    (s s' : ShieldedState env.merkle) (undo : BlockUndo) (acc : BlockAcc env.merkle)
    (ds : List TxUndoData) : Prop where
  undoData : blockUndoData env ctx.height block = some ds
  extends_start : Extends s (.start s) acc ds
  connectPool : connectPool env.codec block.vtx s.pool = .ok s'.pool
  tree : s'.tree = acc.tree
  nullifiers_ne_null : ∀ nf ∈ acc.nullifiers, ¬nf.IsNull
  nullifiers : s'.nullifiers = s.nullifiers ∪ acc.nullifiers.toFinset
  recoveryExits_ne_null : ∀ cm ∈ acc.recoveryExitCommitments, ¬cm.IsNull
  storedAnchors_valid : ∀ a ∈ storedSettlementAnchors env ctx acc, a.IsValid
  registry : s.registry.appendPrepared env.accounts acc.accountLeaves = some s'.registry
  smilePublicAccounts :
    s'.smilePublicAccounts = s.smilePublicAccounts.insertAll acc.smilePublicAccounts
  accountLeafCommitments :
    s'.accountLeafCommitments = s.accountLeafCommitments.insertAll acc.accountLeafEntries
  undo_states : undo.consumedSettlementAnchorStates = acc.consumedSettlementAnchorStates
  velocity : nextVelocity env ctx s s'.pool = .ok s'.velocity

section Accepted

variable {env : Env} {ctx : BlockContext} {block : CBlock} {s s' : ShieldedState env.merkle}

variable {H : MerkleHash} {acc : BlockAcc env.merkle} {st st' : ChainState env.merkle}
  {undo : BlockUndo}

theorem writeOr_eq_ok {reason : String}
    {write : ShieldedState H → Option (ShieldedState H)} {s s' : ShieldedState H} :
    writeOr reason write s = .ok s' ↔ write s = some s' := by
  unfold writeOr
  cases write s <;> simp

theorem rejectWith_eq_ok {α : Type} {s : ShieldedState H} {x : Except String α}
    {a : α} : rejectWith s x = .ok a ↔ x = .ok a := mapError_eq_ok

theorem projectRegistry_ok {registry : ShieldedAccountRegistryState}
    (h : projectRegistry env ctx s acc = .ok registry) :
    s.registry.appendPrepared env.accounts acc.accountLeaves = some registry := by
  unfold projectRegistry at h
  split at h
  next => cases h
  next r hr =>
    simp only [bind_eq_ok, pure_eq_ok] at h
    obtain ⟨_, -, rfl⟩ := h
    exact hr

/-- What an accepted block commits, field by field. -/
theorem commitShielded_ok (h : commitShielded env ctx block acc s = .ok s') :
    (∀ nf ∈ acc.nullifiers, ¬nf.IsNull) ∧ (∀ cm ∈ acc.recoveryExitCommitments, ¬cm.IsNull) ∧
      (∀ a ∈ storedSettlementAnchors env ctx acc, a.IsValid) ∧
      ∃ registry anchors manifests velocity,
        s.registry.appendPrepared env.accounts acc.accountLeaves = some registry ∧
        nextVelocity env ctx s acc.pool = .ok velocity ∧
        s' =
          { tree := acc.tree
            registry := registry
            nullifiers := s.nullifiers ∪ acc.nullifiers.toFinset
            recoveryExitCommitments :=
              s.recoveryExitCommitments ∪ acc.recoveryExitCommitments.toFinset
            settlementAnchors := anchors
            nettingManifests := manifests
            smilePublicAccounts := s.smilePublicAccounts.insertAll acc.smilePublicAccounts
            accountLeafCommitments := s.accountLeafCommitments.insertAll acc.accountLeafEntries
            pool := acc.pool
            velocity := velocity } := by
  simp only [commitShielded, writeStores, bind_eq_ok, rejectWith_eq_ok, writeOr_eq_ok,
    pure_eq_ok] at h
  obtain ⟨registry, hreg, s₅, ⟨s₁, h₁, s₂, h₂, s₃, h₃, s₄, h₄, manifests, -, h₅⟩, velocity,
    hvelocity, rfl⟩ := h
  obtain ⟨hnf, rfl⟩ := insertNullifiers_eq_some h₁
  obtain ⟨hcm, rfl⟩ := insertRecoveryExitCommitments_eq_some h₂
  obtain ⟨hvalid, rfl⟩ := insertSettlementAnchors_eq_some h₃
  obtain rfl := removeSettlementAnchors_eq_some h₄
  obtain rfl := insertNettingManifests_eq_some h₅
  exact ⟨hnf, hcm, hvalid, registry, _, _, velocity, projectRegistry_ok hreg, hvelocity, rfl⟩

theorem validateBlock_ok {loop : LoopState env.merkle}
    (h : validateBlock env ctx st block = .ok loop) :
    checkBlock env ctx block = .ok () ∧
      block.vtx.foldlM (connectTx env ctx st.shielded) (.start st) = .ok loop ∧
      ((block.vtx.head?.map (·.valueOut)).getD 0) ≤ loop.nFees + ctx.subsidy := by
  simp only [validateBlock, checkStart, checkReward, bind_eq_ok, require_eq_ok, pure_eq_ok] at h
  obtain ⟨_, ⟨⟨⟩, hcheck, _, -, -⟩, loop', hloop, _, hcb, _, -, rfl⟩ := h
  exact ⟨hcheck, hloop, hcb⟩

theorem connectBlock_ok (h : connectBlock env ctx st block = .ok (st', undo)) :
    ∃ loop, validateBlock env ctx st block = .ok loop ∧ st'.coins = loop.coins ∧
      undo.consumedSettlementAnchorStates = loop.acc.consumedSettlementAnchorStates ∧
      ((enforcesShielded env ctx.height block = true ∧
          commitShielded env ctx block loop.acc st.shielded = .ok st'.shielded) ∨
        (enforcesShielded env ctx.height block = false ∧ st'.shielded = st.shielded)) := by
  obtain ⟨loop, hloop, h⟩ := bind_eq_ok.1 h
  refine ⟨loop, rejectWith_eq_ok.1 hloop, ?_⟩
  cases he : enforcesShielded env ctx.height block with
  | true =>
    simp only [he, if_true, bind_eq_ok, pure_eq_ok] at h
    obtain ⟨shielded, hcommit, heq⟩ := h
    cases heq
    exact ⟨rfl, rfl, .inl ⟨rfl, hcommit⟩⟩
  | false =>
    simp only [he, false_eq_true, if_false, bind_eq_ok, pure_eq_ok] at h
    obtain ⟨_, rfl, heq⟩ := h
    cases heq
    exact ⟨rfl, rfl, .inr ⟨rfl, rfl⟩⟩

theorem hasShieldedBundle_of_not_enforces {height : ℕ}
    (he : enforcesShielded env height block = false) :
    ∀ tx ∈ block.vtx, tx.hasShieldedBundle = false := by
  simp only [enforcesShielded, or_eq_false_iff, blockHasShieldedBundle, List.any_eq_false,
    not_eq_true] at he
  exact he.1

theorem nextVelocity_of_not_enforces {pool : ShieldedPoolBalance}
    (he : enforcesShielded env ctx.height block = false) :
    nextVelocity env ctx s pool = .ok s.velocity := by
  simp only [enforcesShielded, or_eq_false_iff] at he
  rw [nextVelocity, he.2]
  rfl

theorem connectTxs_acc {vtx : List CTransaction} {loop loop' : LoopState env.merkle}
    (hnone : ∀ tx ∈ vtx, tx.hasShieldedBundle = false)
    (h : vtx.foldlM (connectTx env ctx s) loop = .ok loop') : loop'.acc = loop.acc := by
  refine foldlM_ok_invariant (P := fun l => l.acc = loop.acc) ?_ rfl h
  intro tx htx l l' hl hstep
  obtain ⟨⟨-, hacc⟩ | ⟨hb, -⟩, -⟩ := connectTx_ok hstep
  · rw [hacc, hl]
  · exact absurd (hnone tx htx) (by simp [hb])

/-- **What an accepted block does.** -/
theorem connectBlock_connected (h : connectBlock env ctx st block = .ok (st', undo)) :
    ∃ acc ds, Connected env ctx block st.shielded st'.shielded undo acc ds := by
  obtain ⟨loop, hvalid, -, hundo, hcase⟩ := connectBlock_ok h
  obtain ⟨-, hloop, -⟩ := validateBlock_ok hvalid
  obtain ⟨ds, hds, hext, hpool⟩ := connectTxs_extends hloop
  refine ⟨loop.acc, ds, ?_⟩
  obtain ⟨-, hcommit⟩ | ⟨he, hs⟩ := hcase
  · obtain ⟨hnf, hcm, hanchors, registry, _, _, _, hreg, hvelocity, hs⟩ :=
      commitShielded_ok hcommit
    rw [hs]
    exact
      { undoData := hds, extends_start := hext, connectPool := hpool, tree := rfl
        nullifiers_ne_null := hnf, nullifiers := rfl, recoveryExits_ne_null := hcm
        storedAnchors_valid := hanchors, registry := hreg, smilePublicAccounts := rfl
        accountLeafCommitments := rfl, undo_states := hundo, velocity := hvelocity }
  · have hacc : loop.acc = .start st.shielded :=
      connectTxs_acc (hasShieldedBundle_of_not_enforces he) hloop
    rw [hs]
    rw [hacc] at hext hpool hundo ⊢
    exact
      { undoData := hds, extends_start := hext, connectPool := hpool, tree := rfl
        nullifiers_ne_null := by simp [BlockAcc.start], nullifiers := by simp [BlockAcc.start]
        recoveryExits_ne_null := by simp [BlockAcc.start]
        storedAnchors_valid := by simp [BlockAcc.start, storedSettlementAnchors]
        registry := rfl, smilePublicAccounts := rfl, accountLeafCommitments := rfl
        undo_states := hundo, velocity := nextVelocity_of_not_enforces he }

end Accepted

end Btx.Validation
