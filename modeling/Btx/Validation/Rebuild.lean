/-
# The shielded state rebuilt from the chain

`RebuildShieldedChainDerivedState` and `ApplyShieldedStateEffects` of `src/validation.cpp` replay
the active chain from the genesis block, apart from `ConnectBlock`: they check almost nothing, apply
each transaction at once, and keep the live anchors in a map. `RebuildShieldedState` is the older
loop. Every block can be read here. For the velocity log see `Btx.Validation.VelocityRebuild`.
-/

import Btx.Validation.HeightGate
import Btx.Validation.RejectionFrame

namespace Btx.Validation

open Util Shielded List
open Option (some.inj bind_eq_bind bind_some bind_eq_some_iff some.injEq)

/-- `ShieldedChainDerivedRebuildResult`, with `active_settlement_anchors`. -/
structure RebuildResult (H : MerkleHash) where
  tree : ShieldedMerkleTree H := .empty
  pool : ShieldedPoolBalance := .empty
  nullifiers : List Nullifier := []
  publicAccounts : PartialMap Uint256 CompactPublicAccount := .empty
  accountLeafCommitments : PartialMap Uint256 Uint256 := .empty
  recoveryExitCommitments : List Uint256 := []
  unshieldVelocity : ShieldedUnshieldVelocity := .empty
  accountRegistry : ShieldedAccountRegistryState := .empty
  /-- created height by anchor -/
  activeSettlementAnchors : AList fun _ : Uint256 => ℤ := ∅
  nettingManifests : List ConfirmedNettingManifestState := []

section Replay

variable (env : Env)

/-- `ApplyShieldedStateEffects`. -/
def applyShieldedStateEffects (useNoncedBridgeTag : Bool) (r : RebuildResult env.merkle)
    (b : CShieldedBundle) : Option (RebuildResult env.merkle) := do
  let ids ← recoveryExitIds env b
  let entries ← collectShieldedOutputAccountLeafEntries env.accounts useNoncedBridgeTag b
  let tree ← ((collectShieldedOutputCommitments b).foldlM ShieldedMerkleTree.append
    r.tree).toOption
  let valueBalance ← (tryGetShieldedStateValueBalance env.codec b).toOption
  let pool ← r.pool.applyValueBalance valueBalance
  pure { r with
    tree := tree
    pool := pool
    nullifiers := r.nullifiers ++ (collectShieldedNullifiers b ++ ids.map (·.nullifier))
    recoveryExitCommitments := r.recoveryExitCommitments ++ ids.map (·.commitment)
    publicAccounts := r.publicAccounts.insertAll (collectShieldedOutputSmileAccounts b)
    accountLeafCommitments := r.accountLeafCommitments.insertAll entries }

/-- The part of the transaction loop after the bundle check. -/
def replayBundle (height : ℕ) (r : RebuildResult env.merkle) (tx : CTransaction) :
    Option (RebuildResult env.merkle) := do
  let b := tx.shieldedBundle
  let useNoncedBridgeTag := env.params.useNoncedShieldedBridgeTags height
  let live := (consumedRefs env height b).foldl (fun m a => m.erase a) r.activeSettlementAnchors
  (rejectShieldedHeightGateViolation env.codec env.params height tx).toOption
  let r ← applyShieldedStateEffects env useNoncedBridgeTag
    { r with activeSettlementAnchors := live } b
  let leaves ← collectShieldedOutputAccountLeaves env.accounts useNoncedBridgeTag b
  let registry ← r.accountRegistry.appendPrepared env.accounts leaves
  pure { r with accountRegistry := registry }

/-- The body of the transaction loop. -/
def replayTx (height : ℕ) (r : RebuildResult env.merkle) (tx : CTransaction) :
    Option (RebuildResult env.merkle) := do
  let created ← (extractCreatedShieldedSettlementAnchors env tx height).toOption
  let manifests ← (extractCreatedShieldedNettingManifestStates env tx height).toOption
  let r := { r with
    activeSettlementAnchors :=
      created.foldl (fun m a => m.insert a (height : ℤ)) r.activeSettlementAnchors
    nettingManifests := r.nettingManifests ++ manifests }
  if tx.hasShieldedBundle then replayBundle env height r tx else pure r

/-- The end of the block loop: the block's net egress goes into the velocity log. -/
def recordEgress (height : ℕ) (poolStart : CAmount) (r : RebuildResult env.merkle) :
    RebuildResult env.merkle :=
  let netEgress := if r.pool.balance < poolStart then poolStart - r.pool.balance else 0
  { r with
    unshieldVelocity :=
      if env.params.isShieldedUnshieldVelocityCapActive height then
        (r.unshieldVelocity.recordBlock height netEgress).prune
          (ShieldedUnshieldVelocity.keepFromHeight height
            env.params.nShieldedUnshieldVelocityWindowBlocks)
      else r.unshieldVelocity }

/-- The body of the block loop. -/
def replayBlock (r : RebuildResult env.merkle) (c : Connection) :
    Option (RebuildResult env.merkle) := do
  let r' ← c.block.vtx.foldlM (replayTx env c.height) r
  pure (recordEgress env c.height r.pool.balance r')

/-- `RebuildShieldedChainDerivedState`: the chain is given with its tip first and replayed from the
genesis block on. -/
def rebuildShieldedChainDerivedState : List Connection → Option (RebuildResult env.merkle)
  | [] => some {}
  | c :: chain => (rebuildShieldedChainDerivedState chain).bind (replayBlock env · c)

/-- The body of the transaction loop of `RebuildShieldedState`. -/
def replayTxState (height : ℕ) (r : RebuildResult env.merkle) (tx : CTransaction) :
    Option (RebuildResult env.merkle) :=
  if tx.hasShieldedBundle then do
    (rejectShieldedHeightGateViolation env.codec env.params height tx).toOption
    applyShieldedStateEffects env (env.params.useNoncedShieldedBridgeTags height) r
      tx.shieldedBundle
  else pure r

/-- The body of the block loop of `RebuildShieldedState`. -/
def replayBlockState (r : RebuildResult env.merkle) (c : Connection) :
    Option (RebuildResult env.merkle) := do
  let r' ← c.block.vtx.foldlM (replayTxState env c.height) r
  pure (recordEgress env c.height r.pool.balance r')

/-- `RebuildShieldedState`: the registry, the anchors and the manifests are not among its
results and stay empty. -/
def rebuildShieldedState : List Connection → Option (RebuildResult env.merkle)
  | [] => some {}
  | c :: chain => (rebuildShieldedState chain).bind (replayBlockState env · c)

/-- `rebuild_from_chain`: a wiped state is filled from the replay. -/
def rebuildFromChain (chain : List Connection) : Option (ShieldedState env.merkle) := do
  let r ← rebuildShieldedChainDerivedState env chain
  guard (∀ tip ∈ chain.head?, ¬(env.params.useAccountRegistryEntryCountLimit tip.height ∧
    env.params.nMaxShieldedAccountRegistryEntries < r.accountRegistry.entries.length))
  let s₁ ← (ShieldedState.empty : ShieldedState env.merkle).insertNullifiers r.nullifiers
  let s₂ ← s₁.insertRecoveryExitCommitments r.recoveryExitCommitments
  let s₃ ← s₂.insertSettlementAnchors (r.activeSettlementAnchors.entries.map fun e => ⟨e.1, e.2⟩)
  let s₄ ← s₃.insertNettingManifests r.nettingManifests
  pure { s₄ with
    tree := r.tree
    registry := r.accountRegistry
    smilePublicAccounts := r.publicAccounts
    accountLeafCommitments := r.accountLeafCommitments
    pool := r.pool
    velocity := r.unshieldVelocity }

end Replay

/-- A chain, tip first, and the shielded state that connecting its blocks one by one leaves. The
genesis block has no bundles and is not connected. -/
inductive ConnectedChain (env : Env) : List Connection → ShieldedState env.merkle → Prop
  | genesis {c : Connection} (hbundle : ∀ tx ∈ c.block.vtx, tx.hasShieldedBundle = false) :
      ConnectedChain env [c] .empty
  | connect {chain : List Connection} {s s' : ShieldedState env.merkle} {ctx : BlockContext}
      {coins coins' : CoinsView} {block : CBlock} {undo : BlockUndo}
      (h : ConnectedChain env chain s)
      (hgate : ctx.heightGate = rejectShieldedHeightGateViolation env.codec env.params ctx.height)
      (hconnect : connectBlock env ctx ⟨coins, s⟩ block = .ok (⟨coins', s'⟩, undo)) :
      ConnectedChain env (⟨block, ctx.height, undo⟩ :: chain) s'

/-! ## One transaction -/

section Agreement

variable {env : Env} {ctx : BlockContext} {s s' : ShieldedState env.merkle}
  {acc acc' : BlockAcc env.merkle} {tx : CTransaction} {r r₀ : RebuildResult env.merkle}

/-- What a shielded transaction adds, by the rebuild's own collectors. -/
theorem shieldedTx_collects (h : shieldedTx env ctx s acc tx = .ok acc') :
    ∃ ids entries leaves vb created,
      recoveryExitIds env tx.shieldedBundle = some ids ∧
      collectShieldedOutputAccountLeafEntries env.accounts
        (env.params.useNoncedShieldedBridgeTags ctx.height) tx.shieldedBundle = some entries ∧
      collectShieldedOutputAccountLeaves env.accounts
        (env.params.useNoncedShieldedBridgeTags ctx.height) tx.shieldedBundle = some leaves ∧
      tryGetShieldedStateValueBalance env.codec tx.shieldedBundle = .ok vb ∧
      extractCreatedShieldedSettlementAnchors env tx ctx.height = .ok created ∧
      acc.pool.applyValueBalance vb = some acc'.pool ∧
      (collectShieldedOutputCommitments tx.shieldedBundle).foldlM ShieldedMerkleTree.append
        acc.tree = .ok acc'.tree ∧
      acc'.nullifiers = acc.nullifiers ++
        (collectShieldedNullifiers tx.shieldedBundle ++ ids.map (·.nullifier)) ∧
      acc'.recoveryExitCommitments = acc.recoveryExitCommitments ++ ids.map (·.commitment) ∧
      acc'.smilePublicAccounts =
        acc.smilePublicAccounts ++ collectShieldedOutputSmileAccounts tx.shieldedBundle ∧
      acc'.accountLeafEntries = acc.accountLeafEntries ++ entries ∧
      acc'.accountLeaves = acc.accountLeaves ++ leaves ∧
      acc'.settlementAnchors.map (·.anchor) = acc.settlementAnchors.map (·.anchor) ++ created ∧
      acc'.consumedSettlementAnchors =
        acc.consumedSettlementAnchors ++ consumedRefs env ctx.height tx.shieldedBundle := by
  obtain ⟨_, acc₂, acc₃, acc₄, acc₅, acc₆, -, e₂, hexit, hacct, hpool, hres, hfam⟩ :=
    shieldedTx_ok h
  obtain ⟨ids, hids, e₃, -⟩ := recoveryExitTx_ok hexit
  obtain ⟨entries, leaves, appends, hentries, hleaves, e₄⟩ := accountTx_ok hacct
  obtain ⟨vb, pool, tree, hvb, happly, htree, e₅⟩ := poolAndTreeTx_eq_ok hpool
  obtain ⟨v, sc, t, e₆⟩ := resourceTx_ok hres
  obtain ⟨created, manifests, states, hcreated, hmanifests, e₇⟩ := familyTx_ok hfam
  simp only [e₂, e₃, e₄] at htree happly
  refine ⟨ids, entries, leaves, vb, created, hids, hentries, hleaves, hvb, hcreated, ?_, ?_, ?_⟩
  · simpa [e₅, e₆, e₇] using happly
  · simpa [e₅, e₆, e₇] using htree
  · simp [e₂, e₃, e₄, e₅, e₆, e₇, Function.comp_def]

variable {m : AList fun _ : Uint256 => ℤ} {as : List Uint256} {block : CBlock} {undo : BlockUndo}
  {height : ℕ} {c : Connection}

theorem lookup_foldl_insert {v : ℤ} (a : Uint256) :
    (as.foldl (fun m a => m.insert a v) m).lookup a = if a ∈ as then some v else m.lookup a := by
  induction as generalizing m with
  | nil => simp
  | cons b as ih =>
    rw [foldl_cons, ih]
    by_cases hmem : a ∈ as
    · simp [hmem]
    · by_cases hab : a = b
      · subst hab
        simp [hmem]
      · simp [hmem, hab, AList.lookup_insert_ne hab]

theorem lookup_foldl_erase (a : Uint256) :
    (as.foldl (fun m a => m.erase a) m).lookup a = if a ∈ as then none else m.lookup a := by
  induction as generalizing m with
  | nil => simp
  | cons b as ih =>
    rw [foldl_cons, ih]
    by_cases hmem : a ∈ as
    · simp [hmem]
    · by_cases hab : a = b
      · subst hab
        simp [hmem]
      · simp [hmem, hab, AList.lookup_erase_ne hab]

/-- In the middle of a block: the replay `r` has applied to `r₀` what `ConnectBlock` has collected
in `acc`. -/
structure MidBlock (height : ℕ) (r₀ r : RebuildResult env.merkle)
    (acc : BlockAcc env.merkle) : Prop where
  tree : r.tree = acc.tree
  pool : r.pool = acc.pool
  nullifiers : r.nullifiers = r₀.nullifiers ++ acc.nullifiers
  recoveryExitCommitments :
    r.recoveryExitCommitments = r₀.recoveryExitCommitments ++ acc.recoveryExitCommitments
  publicAccounts : r.publicAccounts = r₀.publicAccounts.insertAll acc.smilePublicAccounts
  accountLeafCommitments :
    r.accountLeafCommitments = r₀.accountLeafCommitments.insertAll acc.accountLeafEntries
  accountRegistry :
    r₀.accountRegistry.appendPrepared env.accounts acc.accountLeaves = some r.accountRegistry
  anchors : ∀ a, r.activeSettlementAnchors.lookup a =
    if a ∈ acc.consumedSettlementAnchors then none
    else if a ∈ acc.settlementAnchors.map (·.anchor) then some ↑height
    else r₀.activeSettlementAnchors.lookup a

theorem AnchorInv.notMem_consumed (hinv : AnchorInv s acc) (hbridge : BridgeInv ctx s acc')
    {created : List Uint256}
    (hcreated : acc'.settlementAnchors.map (·.anchor) =
      acc.settlementAnchors.map (·.anchor) ++ created) {a : Uint256} (ha : a ∈ created) :
    a ∉ acc.consumedSettlementAnchors := by
  intro hconsumed
  have hnew : a ∉ acc.settlementAnchors.map (·.anchor) := by
    have hnodup := hbridge.created_nodup
    rw [hcreated] at hnodup
    exact fun hold => (nodup_append.1 hnodup).2.2 a hold a ha rfl
  have hrecord : a ∈ acc.consumedSettlementAnchorStates.map (·.anchor) := by
    rw [hinv.states_anchor]
    exact List.mem_filter.2 ⟨hconsumed, by simpa using hnew⟩
  obtain ⟨state, hstate, rfl⟩ := mem_map.1 hrecord
  have hmem : state.anchor ∈ acc'.settlementAnchors.map (·.anchor) := by
    rw [hcreated]
    exact mem_append_right _ ha
  obtain ⟨state', hstate', heq⟩ := mem_map.1 hmem
  have hnone := hbridge.created_new state' hstate'
  rw [heq, hinv.states_stored state hstate] at hnone
  cases hnone

/-- **One transaction.** What `ConnectBlock` accepts is replayed, with the same effect. -/
theorem MidBlock.shieldedTx (hmid : MidBlock ctx.height r₀ r acc) (hinv : AnchorInv s acc)
    (hbridge : BridgeInv ctx s acc') (hb : tx.hasShieldedBundle = true)
    (hgate : rejectShieldedHeightGateViolation env.codec env.params ctx.height tx = .ok ())
    {states : List ConfirmedNettingManifestState}
    (hstates : extractCreatedShieldedNettingManifestStates env tx ctx.height = .ok states)
    (hregistry : ∃ registry, r₀.accountRegistry.appendPrepared env.accounts acc'.accountLeaves =
      some registry)
    (h : shieldedTx env ctx s acc tx = .ok acc') :
    ∃ r', replayTx env ctx.height r tx = some r' ∧ MidBlock ctx.height r₀ r' acc' ∧
      r'.nettingManifests = r.nettingManifests ++ states := by
  obtain ⟨ids, entries, leaves, vb, created, hids, hentries, hleaves, hvb, hcreated, hpool, htree,
    hnullifiers, hexits, haccounts, hleafEntries, haccountLeaves, hanchors, hconsumed⟩ :=
    shieldedTx_collects h
  obtain ⟨registry, hregistry⟩ := hregistry
  rw [haccountLeaves] at hregistry
  obtain ⟨registry₁, hfirst, hsecond⟩ :=
    ShieldedAccountRegistryState.appendPrepared_append hregistry
  obtain rfl : registry₁ = r.accountRegistry :=
    some.inj (hfirst.symm.trans hmid.accountRegistry)
  let b := tx.shieldedBundle
  refine ⟨{ r with
    tree := acc'.tree
    pool := acc'.pool
    nullifiers := r.nullifiers ++ (collectShieldedNullifiers b ++ ids.map (·.nullifier))
    recoveryExitCommitments := r.recoveryExitCommitments ++ ids.map (·.commitment)
    publicAccounts := r.publicAccounts.insertAll (collectShieldedOutputSmileAccounts b)
    accountLeafCommitments := r.accountLeafCommitments.insertAll entries
    accountRegistry := registry
    activeSettlementAnchors := (consumedRefs env ctx.height b).foldl (fun m a => m.erase a)
      (created.foldl (fun m a => m.insert a (ctx.height : ℤ)) r.activeSettlementAnchors)
    nettingManifests := r.nettingManifests ++ states }, ?_, ?_, rfl⟩
  · simp only [replayTx, hcreated, hstates, replayBundle, applyShieldedStateEffects, hgate, hids,
      hentries, hleaves, hvb, hmid.tree, htree, hmid.pool, hpool, hsecond, hb, Except.toOption,
      bind_eq_bind, bind_some, Option.pure_def, if_true, b]
  · constructor
    case tree => rfl
    case pool => rfl
    case nullifiers => simp [hmid.nullifiers, hnullifiers, b]
    case recoveryExitCommitments => simp [hmid.recoveryExitCommitments, hexits]
    case publicAccounts =>
      rw [haccounts, PartialMap.insertAll_append, ← hmid.publicAccounts]
    case accountLeafCommitments =>
      rw [hleafEntries, PartialMap.insertAll_append, ← hmid.accountLeafCommitments]
    case accountRegistry =>
      rw [haccountLeaves]
      exact hregistry
    case anchors =>
      intro a
      rw [lookup_foldl_erase, lookup_foldl_insert, hmid.anchors, hanchors, hconsumed]
      simp only [mem_append]
      have hnot := fun ha => hinv.notMem_consumed hbridge hanchors (a := a) ha
      split_ifs <;> tauto

theorem replayTx_of_not_hasShieldedBundle (hb : tx.hasShieldedBundle = false) (height : ℕ) :
    replayTx env height r tx = some r := by
  have hmanifest := nettingManifestOf_eq_none hb
  simp only [CTransaction.hasShieldedBundle, CShieldedBundle.isEmpty, Bool.not_eq_false',
    Bool.and_eq_true, Option.isNone_iff_eq_none] at hb
  have hnot : tx.hasShieldedBundle = false := by
    simp [CTransaction.hasShieldedBundle, CShieldedBundle.isEmpty, hb]
  simp [replayTx, extractCreatedShieldedSettlementAnchors,
    extractCreatedShieldedNettingManifestStates, hb.2, hmanifest, hnot, Except.toOption, pure,
    Except.pure]

/-! ## The transactions of a block -/

variable {vtx : List CTransaction} {loop loop' : LoopState env.merkle}

theorem connectTxs_accountLeaves (h : vtx.foldlM (connectTx env ctx s) loop = .ok loop') :
    ∃ more, loop'.acc.accountLeaves = loop.acc.accountLeaves ++ more := by
  refine foldlM_ok_invariant
    (P := fun l => ∃ more, l.acc.accountLeaves = loop.acc.accountLeaves ++ more) ?_
    ⟨[], (append_nil _).symm⟩ h
  rintro tx - l l' ⟨more, hmore⟩ hstep
  obtain ⟨⟨-, hacc⟩ | ⟨-, hacc⟩, -⟩ := connectTx_ok hstep
  · exact ⟨more, by rw [hacc, hmore]⟩
  · obtain ⟨_, _, leaves, _, _, -, -, -, -, -, -, -, -, -, -, -, hleaves, -⟩ :=
      shieldedTx_collects hacc
    exact ⟨more ++ leaves, by rw [hleaves, hmore, append_assoc]⟩

/-- **The transaction loop.** The induction is on the transactions; the registry is appended to in
one batch at the end of the block, so its success is handed down from there. -/
theorem MidBlock.connectTxs
    (hgate : ctx.heightGate = rejectShieldedHeightGateViolation env.codec env.params ctx.height)
    (hstates : ∀ tx ∈ vtx, ∃ states,
      extractCreatedShieldedNettingManifestStates env tx ctx.height = .ok states)
    (hregistry : ∃ registry, r₀.accountRegistry.appendPrepared env.accounts
      loop'.acc.accountLeaves = some registry)
    (hmid : MidBlock ctx.height r₀ r loop.acc) (hinv : AnchorInv s loop.acc)
    (hbridge : BridgeInv ctx s loop.acc)
    (h : vtx.foldlM (connectTx env ctx s) loop = .ok loop') :
    ∃ r', vtx.foldlM (replayTx env ctx.height) r = some r' ∧
      MidBlock ctx.height r₀ r' loop'.acc ∧
      r'.nettingManifests = r.nettingManifests ++ vtx.flatMap fun tx =>
        (extractCreatedShieldedNettingManifestStates env tx ctx.height).toOption.getD [] := by
  induction vtx generalizing loop r with
  | nil =>
    obtain rfl : loop = loop' := by simpa using h
    exact ⟨r, rfl, hmid, by simp⟩
  | cons tx vtx ih =>
    obtain ⟨mid, hstep, hrest⟩ := bind_eq_ok.1 (by simpa using h)
    obtain ⟨states, htx⟩ := hstates tx mem_cons_self
    have hrestStates := fun tx' htx' => hstates tx' (mem_cons_of_mem tx htx')
    obtain ⟨⟨hb, hacc⟩ | ⟨hb, hacc⟩, -⟩ := connectTx_ok hstep
    · rw [← hacc] at hmid hinv hbridge
      obtain ⟨r', hreplay, hmid', hmanifests⟩ := ih hrestStates hmid hinv hbridge hrest
      refine ⟨r', ?_, hmid', ?_⟩
      · rw [foldlM_cons, replayTx_of_not_hasShieldedBundle hb]
        exact hreplay
      · have hnone := nettingManifestOf_eq_none hb
        simp [hmanifests, extractCreatedShieldedNettingManifestStates, hnone, Except.toOption,
          pure, Except.pure]
    · have hbridge' := hbridge.shieldedTx hacc
      obtain ⟨d, -, hext, -⟩ := shieldedTx_extends hb hacc
      have hregistryMid : ∃ registry, r₀.accountRegistry.appendPrepared env.accounts
          mid.acc.accountLeaves = some registry := by
        obtain ⟨more, hmore⟩ := connectTxs_accountLeaves hrest
        obtain ⟨registry, hregistry⟩ := hregistry
        rw [hmore] at hregistry
        obtain ⟨registry₁, hfirst, -⟩ :=
          ShieldedAccountRegistryState.appendPrepared_append hregistry
        exact ⟨registry₁, hfirst⟩
      obtain ⟨r₁, hreplay₁, hmid₁, hmanifests₁⟩ := hmid.shieldedTx hinv hbridge' hb
        (hgate ▸ connectTx_heightGate hb hstep) htx hregistryMid hacc
      obtain ⟨r', hreplay, hmid', hmanifests⟩ :=
        ih hrestStates hmid₁ (hext.anchorInv hinv) hbridge' hrest
      refine ⟨r', ?_, hmid', ?_⟩
      · rw [foldlM_cons, hreplay₁]
        exact hreplay
      · rw [hmanifests, hmanifests₁, flatMap_cons, htx, append_assoc]
        rfl

/-! ## A block and a chain -/

/-- The replay holds the state: what it has collected fills the stores, and the rest is equal. What
it has collected can be stored, too. -/
structure Rebuilt (s : ShieldedState env.merkle) (r : RebuildResult env.merkle) : Prop where
  tree : r.tree = s.tree
  pool : r.pool = s.pool
  nullifiers : r.nullifiers.toFinset = s.nullifiers
  nullifiers_ne_null : ∀ nf ∈ r.nullifiers, ¬nf.IsNull
  recoveryExits : r.recoveryExitCommitments.toFinset = s.recoveryExitCommitments
  recoveryExits_ne_null : ∀ cm ∈ r.recoveryExitCommitments, ¬cm.IsNull
  publicAccounts : r.publicAccounts = s.smilePublicAccounts
  accountLeafCommitments : r.accountLeafCommitments = s.accountLeafCommitments
  accountRegistry : r.accountRegistry = s.registry
  anchors : ∀ a, r.activeSettlementAnchors.lookup a = s.settlementAnchors a
  anchors_valid : ∀ a height, r.activeSettlementAnchors.lookup a = some height →
    ConfirmedSettlementAnchorState.IsValid ⟨a, height⟩
  manifests : PartialMap.empty.insertAll (r.nettingManifests.map fun m =>
    (m.manifestId, m.createdHeight, m.settlementWindow)) = s.nettingManifests
  manifests_valid : ∀ m ∈ r.nettingManifests, m.IsValid

theorem rebuilt_empty : Rebuilt (.empty : ShieldedState env.merkle) {} := by
  constructor <;> simp [ShieldedState.empty, PartialMap.empty, PartialMap.insertAll]

theorem Rebuilt.withVelocity (hr : Rebuilt s r) (v : ShieldedUnshieldVelocity) :
    Rebuilt s { r with unshieldVelocity := v } := { hr with }

theorem midBlock_start (hr : Rebuilt s r) (height : ℕ) : MidBlock height r r (.start s) := by
  constructor <;> simp [BlockAcc.start, hr.tree, hr.pool, PartialMap.insertAll,
    ShieldedAccountRegistryState.appendPrepared]

variable {st st' : ChainState env.merkle} {r' : RebuildResult env.merkle}

theorem connectBlock_memory (h : connectBlock env ctx st block = .ok (st', undo)) :
    ∃ loop, validateBlock env ctx st block = .ok loop ∧
      st'.shielded.tree = loop.acc.tree ∧ st'.shielded.pool = loop.acc.pool ∧
      st.shielded.registry.appendPrepared env.accounts loop.acc.accountLeaves =
        some st'.shielded.registry ∧
      st'.shielded.smilePublicAccounts =
        st.shielded.smilePublicAccounts.insertAll loop.acc.smilePublicAccounts ∧
      st'.shielded.accountLeafCommitments =
        st.shielded.accountLeafCommitments.insertAll loop.acc.accountLeafEntries := by
  obtain ⟨loop, hvalid, -, -, ⟨-, hcommit⟩ | ⟨he, hs⟩⟩ := connectBlock_ok h
  · obtain ⟨-, -, -, registry, _, _, _, hregistry, -, hs⟩ := commitShielded_ok hcommit
    rw [hs]
    exact ⟨loop, hvalid, rfl, rfl, hregistry, rfl, rfl⟩
  · have hacc : loop.acc = .start st.shielded :=
      connectTxs_acc (hasShieldedBundle_of_not_enforces he) (validateBlock_ok hvalid).2.1
    rw [hs]
    exact ⟨loop, hvalid, by rw [hacc]; rfl, by rw [hacc]; rfl, by rw [hacc]; rfl, by rw [hacc]; rfl,
      by rw [hacc]; rfl⟩

/-- **One block.** A block that `ConnectBlock` accepts is replayed, with the same effect. -/
theorem Rebuilt.connectBlock {coins coins' : CoinsView} (hr : Rebuilt s r)
    (hgate : ctx.heightGate = rejectShieldedHeightGateViolation env.codec env.params ctx.height)
    (h : connectBlock env ctx ⟨coins, s⟩ block = .ok (⟨coins', s'⟩, undo)) :
    ∃ r', replayBlock env r ⟨block, ctx.height, undo⟩ = some r' ∧ Rebuilt s' r' := by
  have hw := connectBlock_storesWritten h
  obtain ⟨loop, hvalid, htree, hpool, hregistry, haccounts, hleaves⟩ := connectBlock_memory h
  obtain ⟨ds, hds, hext, -⟩ := validateBlock_loop hvalid
  obtain ⟨manifests, hmanifests⟩ := validateBlock_manifests hvalid
  have hflat : block.vtx.flatMap (fun tx =>
      (extractCreatedShieldedNettingManifestStates env tx ctx.height).toOption.getD []) =
        blockManifestStates env ctx.height block := by
    rw [← blockNettingManifestStates_ok hmanifests]
    simp only [blockNettingManifestStates, bind_eq_ok, pure_eq_ok] at hmanifests
    obtain ⟨lists, hlists, rfl⟩ := hmanifests
    exact (flatten_of_mapM_eq_ok hlists).symm
  have hstates : ∀ tx ∈ block.vtx, ∃ states,
      extractCreatedShieldedNettingManifestStates env tx ctx.height = .ok states := by
    simp only [blockNettingManifestStates, bind_eq_ok] at hmanifests
    obtain ⟨lists, hlists, -⟩ := hmanifests
    exact exists_mapM_eq_ok_iff.1 ⟨lists, hlists⟩
  have hregistry' := hregistry
  rw [← hr.accountRegistry] at hregistry'
  obtain ⟨r', hreplay, hmid, hr'⟩ := MidBlock.connectTxs hgate hstates ⟨_, hregistry'⟩
    (midBlock_start hr ctx.height) anchorInv_start bridgeInv_start (validateBlock_ok hvalid).2.1
  rw [hflat] at hr'
  obtain ⟨hnfs, hexits, hcreated, hconsumed, -⟩ := hext.collects hds
  have hanchors : ∀ a, r'.activeSettlementAnchors.lookup a = s'.settlementAnchors a := fun a => by
    rw [hmid.anchors, hconsumed, hcreated, hr.anchors]
    exact (hw.settlementAnchors a).symm
  refine ⟨_, by rw [replayBlock, hreplay]; rfl, ?_⟩
  constructor
  case tree => exact hmid.tree.trans htree.symm
  case pool => exact hmid.pool.trans hpool.symm
  case nullifiers =>
    change r'.nullifiers.toFinset = _
    rw [hmid.nullifiers, toFinset_append, hr.nullifiers, hnfs]
    exact hw.nullifiers.symm
  case nullifiers_ne_null =>
    change ∀ nf ∈ r'.nullifiers, _
    rw [hmid.nullifiers, hnfs]
    exact forall_mem_append.2 ⟨hr.nullifiers_ne_null, fun nf hnf => (hw.nullifiers_new nf hnf).1⟩
  case recoveryExits =>
    change r'.recoveryExitCommitments.toFinset = _
    rw [hmid.recoveryExitCommitments, toFinset_append, hr.recoveryExits, hexits]
    exact hw.recoveryExits.symm
  case recoveryExits_ne_null =>
    change ∀ cm ∈ r'.recoveryExitCommitments, _
    rw [hmid.recoveryExitCommitments, hexits]
    exact forall_mem_append.2
      ⟨hr.recoveryExits_ne_null, fun cm hcm => (hw.recoveryExits_new cm hcm).1⟩
  case publicAccounts =>
    change r'.publicAccounts = _
    rw [hmid.publicAccounts, hr.publicAccounts]
    exact haccounts.symm
  case accountLeafCommitments =>
    change r'.accountLeafCommitments = _
    rw [hmid.accountLeafCommitments, hr.accountLeafCommitments]
    exact hleaves.symm
  case accountRegistry =>
    exact some.inj (hmid.accountRegistry.symm.trans hregistry')
  case anchors => exact hanchors
  case anchors_valid =>
    intro a height hget
    change r'.activeSettlementAnchors.lookup a = some height at hget
    rw [hmid.anchors, hconsumed, hcreated] at hget
    split_ifs at hget with _ hnew
    · cases hget
      exact ⟨(hw.created_new a hnew).1, Int.natCast_nonneg _⟩
    · exact hr.anchors_valid a height hget
  case manifests =>
    change PartialMap.empty.insertAll (r'.nettingManifests.map _) = _
    rw [hr', map_append, PartialMap.insertAll_append, hr.manifests]
    exact hw.nettingManifests.symm
  case manifests_valid =>
    change ∀ m ∈ r'.nettingManifests, _
    rw [hr']
    exact forall_mem_append.2 ⟨hr.manifests_valid, hw.manifests_valid⟩

theorem foldlM_replayTx_of_not_hasShieldedBundle
    (hnone : ∀ tx ∈ vtx, tx.hasShieldedBundle = false) :
    vtx.foldlM (replayTx env height) r = some r := by
  induction vtx with
  | nil => rfl
  | cons tx vtx ih =>
    rw [foldlM_cons, replayTx_of_not_hasShieldedBundle (hnone tx mem_cons_self)]
    exact ih fun tx' htx' => hnone tx' (mem_cons_of_mem tx htx')

theorem replayBlock_of_not_hasShieldedBundle
    (hnone : ∀ tx ∈ c.block.vtx, tx.hasShieldedBundle = false) :
    ∃ v, replayBlock env r c = some { r with unshieldVelocity := v } := by
  rw [replayBlock, foldlM_replayTx_of_not_hasShieldedBundle hnone]
  exact ⟨_, rfl⟩

theorem connectBlock_registry_limit (h : connectBlock env ctx st block = .ok (st', undo)) :
    ¬(env.params.useAccountRegistryEntryCountLimit ctx.height ∧
      env.params.nMaxShieldedAccountRegistryEntries < st'.shielded.registry.entries.length) := by
  obtain ⟨loop, hvalid, -, -, hcase⟩ := connectBlock_ok h
  have hparent : ¬(env.params.useAccountRegistryEntryCountLimit ctx.height ∧
      env.params.nMaxShieldedAccountRegistryEntries < st.shielded.registry.entries.length) := by
    simp only [validateBlock, checkStart, bind_eq_ok, require_eq_ok] at hvalid
    obtain ⟨_, ⟨_, -, _, -, hlimit⟩, -⟩ := hvalid
    exact hlimit
  rcases hcase with ⟨-, hcommit⟩ | ⟨-, hs⟩
  · rw [commitShielded] at hcommit
    simp only [bind_eq_ok, rejectWith_eq_ok, pure_eq_ok] at hcommit
    obtain ⟨registry, hregistry, _, -, _, -, hs⟩ := hcommit
    rw [← hs]
    change ¬(_ ∧ _ < registry.entries.length)
    have happend := projectRegistry_ok hregistry
    simp only [projectRegistry, happend, bind_eq_ok, require_eq_ok] at hregistry
    obtain ⟨_, hlimit, -⟩ := hregistry
    by_cases hleaves : loop.acc.accountLeaves = []
    · rw [hleaves] at happend
      obtain rfl : st.shielded.registry = registry := some.inj happend
      exact hparent
    · exact fun hexceeds => hlimit ⟨hleaves, hexceeds⟩
  · rw [hs]
    exact hparent

/-! ## The two loops -/

/-- What `RebuildShieldedState` has of the result. -/
def RebuildResult.effects (r : RebuildResult env.merkle) : RebuildResult env.merkle :=
  { r with accountRegistry := .empty, activeSettlementAnchors := ∅, nettingManifests := [] }

theorem applyShieldedStateEffects_effects {nonced : Bool} {b : CShieldedBundle}
    (h : applyShieldedStateEffects env nonced r b = some r') :
    applyShieldedStateEffects env nonced r.effects b = some r'.effects := by
  simp only [applyShieldedStateEffects, bind_eq_bind, bind_eq_some_iff,
    Option.pure_def, some.injEq] at h ⊢
  obtain ⟨ids, hids, entries, hentries, tree, htree, vb, hvb, pool, hpool, rfl⟩ := h
  exact ⟨ids, hids, entries, hentries, tree, htree, vb, hvb, pool, hpool, rfl⟩

theorem replayTx_effects (h : replayTx env height r tx = some r') :
    replayTxState env height r.effects tx = some r'.effects := by
  simp only [replayTx, bind_eq_bind, bind_eq_some_iff] at h
  obtain ⟨created, -, manifests, -, h⟩ := h
  cases hb : tx.hasShieldedBundle with
  | false =>
    rw [hb] at h
    cases h
    rw [replayTxState, hb]
    rfl
  | true =>
    rw [hb, if_pos rfl] at h
    simp only [replayBundle, bind_eq_bind, bind_eq_some_iff, Option.pure_def, some.injEq] at h
    obtain ⟨_, hgate, r₁, happly, _, -, registry, -, rfl⟩ := h
    rw [replayTxState, hb, if_pos rfl, hgate]
    have heffects := applyShieldedStateEffects_effects happly
    exact heffects

theorem replayBlock_effects
    (h : replayBlock env r c = some r') : replayBlockState env r.effects c = some r'.effects := by
  simp only [replayBlock, bind_eq_bind, bind_eq_some_iff, Option.pure_def, some.injEq] at h
  obtain ⟨r₁, hfold, rfl⟩ := h
  have hstate : c.block.vtx.foldlM (replayTxState env c.height) r.effects = some r₁.effects := by
    generalize c.block.vtx = vtx at hfold
    induction vtx generalizing r with
    | nil =>
      cases hfold
      rfl
    | cons tx vtx ih =>
      obtain ⟨mid, hstep, hrest⟩ := bind_eq_some_iff.1 hfold
      rw [foldlM_cons, replayTx_effects hstep]
      exact ih hrest
  rw [replayBlockState, hstate]
  rfl

variable {chain : List Connection}

theorem rebuildShieldedState_of_full (h : rebuildShieldedChainDerivedState env chain = some r) :
    rebuildShieldedState env chain = some r.effects := by
  induction chain generalizing r with
  | nil =>
    cases h
    rfl
  | cons c chain ih =>
    obtain ⟨mid, hmid, hblock⟩ := bind_eq_some_iff.1 h
    rw [rebuildShieldedState, ih hmid]
    exact replayBlock_effects hblock

/-- **A chain.** The chain that was connected is replayed, and the replay holds its state. -/
theorem ConnectedChain.rebuilt (h : ConnectedChain env chain s) :
    ∃ r, rebuildShieldedChainDerivedState env chain = some r ∧ Rebuilt s r := by
  induction h with
  | genesis hbundle =>
    obtain ⟨v, hv⟩ := replayBlock_of_not_hasShieldedBundle (r := {}) hbundle
    exact ⟨_, hv, rebuilt_empty.withVelocity v⟩
  | connect _ hgate hconnect ih =>
    obtain ⟨r, hreplay, hr⟩ := ih
    obtain ⟨r', hblock, hr'⟩ := hr.connectBlock hgate hconnect
    exact ⟨r', by rw [rebuildShieldedChainDerivedState, hreplay]; exact hblock, hr'⟩

theorem ConnectedChain.registry_limit (h : ConnectedChain env chain s) :
    ∀ tip ∈ chain.head?, ¬(env.params.useAccountRegistryEntryCountLimit tip.height ∧
      env.params.nMaxShieldedAccountRegistryEntries < s.registry.entries.length) := by
  cases h with
  | genesis => simp [ShieldedState.empty, ShieldedAccountRegistryState.empty]
  | connect _ _ hconnect =>
    intro tip htip
    cases htip
    exact connectBlock_registry_limit hconnect

/-- The stores are filled with the state that was connected. -/
theorem ConnectedChain.rebuildFromChain_eq (h : ConnectedChain env chain s) :
    ∃ v, rebuildFromChain env chain = some { s with velocity := v } := by
  obtain ⟨r, hreplay, hr⟩ := h.rebuilt
  have hnfs : ¬∃ nf ∈ r.nullifiers, nf.IsNull := by simpa using hr.nullifiers_ne_null
  have hexits : ¬∃ cm ∈ r.recoveryExitCommitments, cm.IsNull := by
    simpa using hr.recoveryExits_ne_null
  have hanchors : ∀ a ∈ r.activeSettlementAnchors.entries.map
      fun e => (⟨e.1, e.2⟩ : ConfirmedSettlementAnchorState), a.IsValid := by
    intro a ha
    obtain ⟨e, he, rfl⟩ := mem_map.1 ha
    exact hr.anchors_valid e.1 e.2 (AList.mem_lookup_iff.2 he)
  have hstore : (PartialMap.empty : PartialMap Uint256 ℤ).insertAll
      ((r.activeSettlementAnchors.entries.map
        fun e => (⟨e.1, e.2⟩ : ConfirmedSettlementAnchorState)).map
          fun a => (a.anchor, a.createdHeight)) = s.settlementAnchors :=
    funext fun a => by
      rw [map_map]
      exact (insertAll_entries _ a).trans (hr.anchors a)
  refine ⟨r.unshieldVelocity, ?_⟩
  simp only [rebuildFromChain, hreplay, bind_eq_bind, bind_some, guard,
    ShieldedState.insertNullifiers, if_neg hnfs, ShieldedState.insertRecoveryExitCommitments,
    if_neg hexits, ShieldedState.insertSettlementAnchors, if_pos hanchors,
    ShieldedState.insertNettingManifests, if_pos hr.manifests_valid, Option.pure_def,
    ShieldedState.empty, hstore, hr.manifests, Finset.empty_union, hr.nullifiers,
    hr.recoveryExits, hr.tree, hr.pool, hr.publicAccounts, hr.accountLeafCommitments,
    hr.accountRegistry, if_pos h.registry_limit]

/-- **The rebuilt state is the connected state.** Rebuilding from the blocks of a connected chain
succeeds, and the tree, the registry, the nullifiers, the recovery exits, the anchors, the
manifests, both account maps and the pool are those that `ConnectBlock` left. What the older loop
collects is that, too. -/
theorem rebuild_eq_connected (h : ConnectedChain env chain s) :
    (∃ r, rebuildFromChain env chain = some r ∧ { r with velocity := s.velocity } = s) ∧
    ∃ r, rebuildShieldedState env chain = some r ∧ r.tree = s.tree ∧ r.pool = s.pool ∧
      r.nullifiers.toFinset = s.nullifiers ∧
      r.recoveryExitCommitments.toFinset = s.recoveryExitCommitments ∧
      r.publicAccounts = s.smilePublicAccounts ∧
      r.accountLeafCommitments = s.accountLeafCommitments := by
  obtain ⟨r, hreplay, hr⟩ := h.rebuilt
  obtain ⟨v, hv⟩ := h.rebuildFromChain_eq
  exact ⟨⟨_, hv, rfl⟩, r.effects, rebuildShieldedState_of_full hreplay, hr.tree, hr.pool,
    hr.nullifiers, hr.recoveryExits, hr.publicAccounts, hr.accountLeafCommitments⟩

end Agreement

/-! ## A deposit and a withdrawal -/

/-- The sample context with the gate of the source. -/
def gatedContext (height : ℕ) : BlockContext :=
  { sampleContext height with
    heightGate := rejectShieldedHeightGateViolation sampleEnv.codec sampleEnv.params height }

theorem depositBlock_gated : (connectBlock sampleEnv (gatedContext 1) ⟨depositCoins, .empty⟩
      depositBlock).toOption.isSome = true := by
  decide

def gatedDeposit : Ledgers sampleEnv := okValue _ depositBlock_gated

theorem withdrawBlock_gated : (connectBlock sampleEnv (gatedContext 2) gatedDeposit.1
      withdrawBlock).toOption.isSome = true := by
  decide

def gatedWithdraw : Ledgers sampleEnv := okValue _ withdrawBlock_gated

/-- Both blocks on a genesis block without transactions, tip first. -/
def gatedChain : List Connection :=
  [⟨withdrawBlock, 2, gatedWithdraw.2⟩, ⟨depositBlock, 1, gatedDeposit.2⟩, ⟨⟨[]⟩, 0, ⟨[], []⟩⟩]

theorem connectedChain_gatedChain : ConnectedChain sampleEnv gatedChain gatedWithdraw.1.shielded :=
  .connect
    (.connect (.genesis fun _ h => absurd h not_mem_nil) rfl
      (eq_ok_okValue depositBlock_gated))
    rfl (eq_ok_okValue withdrawBlock_gated)

/-- The state after the deposit and the withdrawal, with notes 5 and 6 in the tree and six of the
ten in the pool, is rebuilt from the three blocks. -/
theorem gatedChain_rebuilt : (∃ r, rebuildFromChain sampleEnv gatedChain = some r ∧
      { r with velocity := gatedWithdraw.1.shielded.velocity } = gatedWithdraw.1.shielded) ∧
    ∃ r, rebuildShieldedState sampleEnv gatedChain = some r ∧
      r.tree = gatedWithdraw.1.shielded.tree ∧ r.pool = gatedWithdraw.1.shielded.pool :=
  have h := rebuild_eq_connected connectedChain_gatedChain
  ⟨h.1, h.2.imp fun _ hr => ⟨hr.1, hr.2.1, hr.2.2.1⟩⟩

end Btx.Validation
