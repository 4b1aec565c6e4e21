/-
# The sunset of the shielded pool

`RejectShieldedHeightGateViolation` of `src/validation.cpp`. From the sunset height on it lets
through a send to transparent outputs and a recovery exit, both only without shielded outputs. It
counts them with `GetShieldedOutputCount` and the tree is fed by `CollectShieldedOutputCommitments`,
which agree; so the root of the tree stays (`sunset_freezes_tree`).
-/

import Btx.Validation.Run

namespace Btx.Validation

open Util Shielded List

/-! ## The gates -/

section Gates

variable (codec : Codec) (params : Params) (height : ℕ)

/-- `RejectShieldedSunsetViolation`. -/
def rejectShieldedSunsetViolation (tx : CTransaction) : Except String Unit :=
  let b := tx.shieldedBundle
  if !params.isShieldedSunsetActive height then pure ()
  else do
    let valueBalance ← tryGetShieldedStateValueBalance codec b
    require (0 < valueBalance) "bad-shielded-sunset-non-exit"
    let transparentOut ← trySumTransparentOutputs tx.vout 0
    require (0 < transparentOut) "bad-shielded-sunset-non-exit"
    match b.payload with
    | some (.recoveryExit _) => do
        require (params.isShieldedRecoveryExitActive height)
          "bad-shielded-v2-recovery-exit-disabled"
        require (b.shieldedOutputCount = 0) "bad-shielded-sunset-shielded-output"
    | some (.send p) => do
        require (p.fee < valueBalance) "bad-shielded-sunset-non-exit"
        require (b.shieldedOutputCount = 0) "bad-shielded-sunset-shielded-output"
    -- a legacy bundle, or another family
    | _ => throw "bad-shielded-sunset-non-exit"

/-- `RejectDisabledShieldedPoolCredit`. -/
def rejectDisabledShieldedPoolCredit (b : CShieldedBundle) : Except String Unit :=
  if !params.isShieldedPoolCreditDisabled height then pure ()
  else do
    let valueBalance ← tryGetShieldedStateValueBalance codec b
    require (0 ≤ valueBalance) "bad-shielded-pool-credit-disabled"
    match b.payload with
    | some (.settlementAnchor p) =>
        require (p.reserveDeltas = [] ∧ p.anchoredNettingManifestId.IsNull)
          "bad-shielded-v2-settlement-disabled"
    | some (.rebalance _) => throw "bad-shielded-v2-rebalance-disabled"
    | _ => pure ()

/-- `IsV2SendZeroOutputExitBundle`. -/
def isV2SendZeroOutputExitBundle (b : CShieldedBundle) : Bool :=
  match b.payload with
  | some (.send p) => p.outputs.isEmpty
  | _ => false

/-- `RejectDisabledV2SendZeroOutputExit`. -/
def rejectDisabledV2SendZeroOutputExit (b : CShieldedBundle) : Except String Unit :=
  require (¬isV2SendZeroOutputExitBundle b ∨ ¬params.isShieldedSunsetActive height ∨
    params.isShieldedV2SendZeroOutputExitActive height)
    "bad-shielded-v2-send-zero-output-exit-disabled"

/-- `RejectShieldedHeightGateViolation`. -/
def rejectShieldedHeightGateViolation (tx : CTransaction) : Except String Unit := do
  rejectShieldedSunsetViolation codec params height tx
  rejectDisabledShieldedPoolCredit codec params height tx.shieldedBundle
  rejectDisabledV2SendZeroOutputExit params height tx.shieldedBundle

end Gates

section Sunset

variable {env : Env} {ctx : BlockContext} {tx : CTransaction}

/-- **What the gate lets through past the sunset**, whatever the family: value leaves the pool, and
no commitment is added. -/
theorem sunsetGate_ok {codec : Codec} {params : Params} {height : ℕ}
    (hsunset : params.isShieldedSunsetActive height = true)
    (h : rejectShieldedHeightGateViolation codec params height tx = .ok ()) :
    (∃ valueBalance, tryGetShieldedStateValueBalance codec tx.shieldedBundle = .ok valueBalance ∧
      0 < valueBalance) ∧ collectShieldedOutputCommitments tx.shieldedBundle = [] := by
  simp only [rejectShieldedHeightGateViolation, bind_eq_ok] at h
  obtain ⟨_, h, -⟩ := h
  simp only [rejectShieldedSunsetViolation, hsunset, Bool.not_true, Bool.false_eq_true, if_false,
    bind_eq_ok, require_eq_ok] at h
  obtain ⟨valueBalance, hvb, _, hpos, _, -, _, -, h⟩ := h
  refine ⟨⟨valueBalance, hvb, hpos⟩, ?_⟩
  rw [← length_eq_zero_iff, collectShieldedOutputCommitments_length]
  split at h
  · simp only [bind_eq_ok, require_eq_ok] at h
    exact h.choose_spec.2
  · simp only [bind_eq_ok, require_eq_ok] at h
    exact h.choose_spec.2
  · cases h

variable {s : ShieldedState env.merkle} {loop loop' : LoopState env.merkle}

theorem shieldedTx_tree {acc acc' : BlockAcc env.merkle}
    (hnil : collectShieldedOutputCommitments tx.shieldedBundle = [])
    (h : shieldedTx env ctx s acc tx = .ok acc') : acc'.tree = acc.tree := by
  obtain ⟨_, acc₂, acc₃, acc₄, acc₅, acc₆, -, e₂, hexit, hacct, hpool, hres, hfam⟩ :=
    shieldedTx_ok h
  obtain ⟨_, -, e₃, -⟩ := recoveryExitTx_ok hexit
  obtain ⟨_, _, _, -, -, e₄⟩ := accountTx_ok hacct
  obtain ⟨_, _, _, e₆⟩ := resourceTx_ok hres
  obtain ⟨_, _, _, -, -, e₇⟩ := familyTx_ok hfam
  have e₅ : acc₅.tree = acc₄.tree := by
    simp only [poolAndTreeTx, hnil, foldlM_nil, bind_eq_ok] at hpool
    obtain ⟨_, -, hpool⟩ := hpool
    split at hpool
    · cases hpool
    · simp only [bind_eq_ok, pure_eq_ok] at hpool
      obtain ⟨_, rfl, rfl⟩ := hpool
      rfl
  simp [e₇, e₆, e₅, e₄, e₃, e₂]

theorem connectTx_heightGate
    (hb : tx.hasShieldedBundle = true) (h : connectTx env ctx s loop tx = .ok loop') :
    ctx.heightGate tx = .ok () := by
  simp only [connectTx, hb, if_true, bind_eq_ok] at h
  obtain ⟨_, hgate, -⟩ := h
  exact hgate

/-- The block is validated with the gate of the source, at or past the sunset height. -/
structure PastSunset (env : Env) (ctx : BlockContext) : Prop where
  gate : ctx.heightGate = rejectShieldedHeightGateViolation env.codec env.params ctx.height
  scheduled : env.params.nShieldedSunsetHeight ≠ heightNever
  height_ge : env.params.nShieldedSunsetHeight ≤ ctx.height

theorem PastSunset.active (h : PastSunset env ctx) :
    env.params.isShieldedSunsetActive ctx.height = true :=
  decide_eq_true ⟨h.scheduled, h.height_ge⟩

theorem PastSunset.connectTx
    (hpast : PastSunset env ctx) (h : connectTx env ctx s loop tx = .ok loop') :
    (tx.hasShieldedBundle = true → collectShieldedOutputCommitments tx.shieldedBundle = []) ∧
      loop'.acc.tree = loop.acc.tree ∧ loop'.acc.pool.balance ≤ loop.acc.pool.balance := by
  have hgate (hb : tx.hasShieldedBundle = true) := sunsetGate_ok hpast.active
    (hpast.gate ▸ connectTx_heightGate hb h)
  obtain ⟨⟨hb, hacc⟩ | ⟨hb, hacc⟩, -⟩ := connectTx_ok h
  · refine ⟨fun hb' => absurd hb' (by simp [hb]), ?_, ?_⟩
    · rw [hacc]
    · rw [hacc]
  · obtain ⟨⟨vb, hvb, hpos⟩, hnil⟩ := hgate hb
    refine ⟨fun _ => hnil, shieldedTx_tree hnil hacc, ?_⟩
    have hpool := connectTx_pool h
    simp only [poolTx, hb, if_true, hvb, ok_bind] at hpool
    split at hpool
    next next happly =>
      cases hpool
      have hmove := (ShieldedPoolBalance.applyValueBalance_eq_some_iff.1 happly).2
      linarith
    next => cases hpool

theorem PastSunset.tree_eq {st st' : ChainState env.merkle} {block : CBlock} {undo : BlockUndo}
    (hpast : PastSunset env ctx) (h : connectBlock env ctx st block = .ok (st', undo)) :
    st'.shielded.tree = st.shielded.tree := by
  obtain ⟨loop, hvalid, -, -, hcase⟩ := connectBlock_ok h
  obtain ⟨-, hloop, -⟩ := validateBlock_ok hvalid
  have htree : loop.acc.tree = st.shielded.tree := by
    refine foldlM_ok_invariant (P := fun l => l.acc.tree = st.shielded.tree) ?_ rfl hloop
    intro tx _ l l' hl hstep
    rw [(hpast.connectTx hstep).2.1, hl]
  obtain ⟨-, hcommit⟩ | ⟨-, hs⟩ := hcase
  · obtain ⟨-, -, -, registry, _, _, _, -, -, hs⟩ := commitShielded_ok hcommit
    rw [hs]
    exact htree
  · rw [hs]

/-- The states that blocks past the sunset lead to. -/
inductive SunsetRun (env : Env) (s : ShieldedState env.merkle) : ShieldedState env.merkle → Prop
  | refl : SunsetRun env s s
  | connect {s₁ s₂ : ShieldedState env.merkle} {ctx : BlockContext} {coins coins' : CoinsView}
      {block : CBlock} {undo : BlockUndo} :
      SunsetRun env s s₁ → PastSunset env ctx →
      connectBlock env ctx ⟨coins, s₁⟩ block = .ok (⟨coins', s₂⟩, undo) → SunsetRun env s s₂

theorem SunsetRun.tree_eq {s' : ShieldedState env.merkle} (h : SunsetRun env s s') :
    s'.tree = s.tree := by
  induction h with
  | refl => rfl
  | connect _ hpast hconnect ih => rw [← ih, ← hpast.tree_eq hconnect]

theorem recoveryExitMembershipRoot_eq {params : Params} {H : MerkleHash} {height height' : ℕ}
    {tree : ShieldedMerkleTree H} (h : params.isShieldedRecoveryExitActive height = true)
    (h' : params.isShieldedRecoveryExitActive height' = true) :
    recoveryExitMembershipRoot params height tree =
      recoveryExitMembershipRoot params height' tree := by
  have hsunset {k : ℕ} (hk : params.isShieldedRecoveryExitActive k = true) :
      params.isShieldedSunsetActive k = true := by
    simp only [Params.isShieldedRecoveryExitActive, Bool.and_eq_true] at hk
    exact hk.1.2
  simp only [recoveryExitMembershipRoot, h, h', hsunset h, hsunset h']

/-- **Past the sunset the tree is frozen and the pool only pays out.** A block at or past the sunset
height that passes the gate:
* has no output commitment, and leaves the tree of its parent;
* has no transaction after which the pool balance is larger;
* and through any further blocks recovery exits are checked against the root of the same tree. -/
theorem sunset_freezes_tree {s s' : ShieldedState env.merkle} {coins coins' : CoinsView}
    {block : CBlock} {undo : BlockUndo} (hpast : PastSunset env ctx)
    (h : connectBlock env ctx ⟨coins, s⟩ block = .ok (⟨coins', s'⟩, undo)) :
    ((∀ tx ∈ block.vtx, tx.hasShieldedBundle = true →
        collectShieldedOutputCommitments tx.shieldedBundle = []) ∧ s'.tree = s.tree) ∧
      (∀ before tx after, block.vtx = before ++ tx :: after →
        ∃ pool pool', connectPool env.codec before s.pool = .ok pool ∧
          poolTx ShieldedPoolBalance.applyValueBalance env.codec pool tx = .ok pool' ∧
          pool'.balance ≤ pool.balance) ∧
      ∀ s'', SunsetRun env s' s'' → ∀ height height',
        env.params.isShieldedRecoveryExitActive height = true →
        env.params.isShieldedRecoveryExitActive height' = true →
        recoveryExitMembershipRoot env.params height s.tree =
          recoveryExitMembershipRoot env.params height' s''.tree := by
  obtain ⟨loop, hvalid, -⟩ := connectBlock_ok h
  obtain ⟨-, hloop, -⟩ := validateBlock_ok hvalid
  -- Every transaction is one step of the loop, from the state the ones before it left.
  have hsplit : ∀ before tx after, block.vtx = before ++ tx :: after →
      ∃ l l', before.foldlM (Validation.connectTx env ctx s) ⟨coins, 0, .start s, []⟩ = .ok l ∧
        Validation.connectTx env ctx s l tx = .ok l' := by
    intro before tx after hvtx
    simp only [hvtx, foldlM_append, foldlM_cons, bind_eq_ok] at hloop
    obtain ⟨l, hl, l', hl', -⟩ := hloop
    exact ⟨l, l', hl, hl'⟩
  have htree : s'.tree = s.tree := hpast.tree_eq h
  refine ⟨⟨fun tx htx hb => ?_, htree⟩, fun before tx after hvtx => ?_, ?_⟩
  · obtain ⟨before, after, hvtx⟩ := append_of_mem htx
    obtain ⟨l, l', -, hstep⟩ := hsplit before tx after hvtx
    exact (hpast.connectTx hstep).1 hb
  · obtain ⟨l, l', hl, hstep⟩ := hsplit before tx after hvtx
    obtain ⟨-, -, -, hpool⟩ := connectTxs_extends hl
    exact ⟨l.acc.pool, l'.acc.pool, hpool, connectTx_pool hstep, (hpast.connectTx hstep).2.2⟩
  · intro s'' hrun height height' hactive hactive'
    rw [hrun.tree_eq, htree]
    exact recoveryExitMembershipRoot_eq hactive hactive'

end Sunset

/-! ## A block past the sunset -/

/-- The sample environment with a sunset at height 2. -/
def sunsetEnv : Env :=
  { sampleEnv with
    params := { sampleParams with
      nShieldedSunsetHeight := 2
      nShieldedV2SendZeroOutputExitActivationHeight := 2 } }

/-- The sample context with the gate of the source. -/
def sunsetContext (height : ℕ) : BlockContext :=
  { sampleContext height with
    heightGate := rejectShieldedHeightGateViolation sunsetEnv.codec sunsetEnv.params height }

/-- A block that pays four out of the pool, three of them to a transparent output. -/
def exitBlock : CBlock where
  vtx := [sampleCoinbase 3,
    { hash := 4
      vout := [{ nValue := 3 }]
      shieldedBundle := sendBundle { samplePayout 1 with fee := 1 } }]

theorem depositBlock_accepted_before_sunset :
    (connectBlock sunsetEnv (sunsetContext 1) ⟨depositCoins, .empty⟩
      depositBlock).toOption.isSome = true := by
  decide

/-- Both ledgers before the sunset. -/
def beforeSunset : Ledgers sunsetEnv := okValue _ depositBlock_accepted_before_sunset

theorem exitBlock_accepted :
    (connectBlock sunsetEnv (sunsetContext 2) beforeSunset.1 exitBlock).toOption.isSome = true := by
  decide

def afterExit : Ledgers sunsetEnv := okValue _ exitBlock_accepted

/-- The exit is accepted past the sunset, and leaves the tree with the one note of the deposit. -/
theorem tree_afterExit : afterExit.1.shielded.tree = beforeSunset.1.shielded.tree ∧
      beforeSunset.1.shielded.tree.commitments = [5] := by
  have hpast : PastSunset sunsetEnv (sunsetContext 2) := ⟨rfl, by decide, by decide⟩
  have hconnect : connectBlock sunsetEnv (sunsetContext 2) beforeSunset.1 exitBlock =
    .ok (afterExit.1, afterExit.2) := eq_ok_okValue exitBlock_accepted
  exact ⟨(sunset_freezes_tree hpast hconnect).1.2, by decide⟩

end Btx.Validation
