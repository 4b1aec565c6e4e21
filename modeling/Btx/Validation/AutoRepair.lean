/-
# Repairing the shielded state while a block is checked

When a proof check fails for one of certain reasons, `ConnectBlock` rebuilds the shielded state from
the active chain, at most once per call, and checks the proof again (`TryAutoRebuildShieldedState`).
The rebuilt stores stay when the block is rejected all the same (`rejection_keeps_stores_iff`).
`connectBlock` is the call in which no rebuild replaces the state
(`connectBlockRepairing_eq_connectBlock`).
-/

import Btx.Validation.Rebuild

namespace Btx.Validation

open Util Shielded List

/-- The reasons of `IsRecoverableShieldedProofReject`. -/
def recoverableShieldedProofRejects : List String :=
  ["bad-shielded-proof", "bad-shielded-ring-member-position", "bad-shielded-ring-tree-unavailable",
    "bad-smile2-ring-member-account", "bad-smile2-ring-member-public-account",
    "bad-smile2-ring-member-account-leaf", "bad-smile2-shared-ring"]

/-- What a call reads for its proof checks. The checks are made in the loop or, in parallel, when
the loop has ended; those that are not made pass. -/
structure RepairContext (H : MerkleHash) where
  /-- `CShieldedProofCheck`, on the tree and the account maps of a state -/
  proofCheck : ShieldedState H → CTransaction → Except String Unit
  /-- `CShieldedSpendAuthCheck` -/
  spendAuthCheck : CTransaction → Except String Unit
  /-- `shielded_proof_control.Complete`, and `RevalidateBlockShieldedProofsAfterRepair` -/
  completeProofs : ShieldedState H → Except String Unit
  /-- `shielded_auth_control.Complete` -/
  completeAuth : Except String Unit
  /-- `MarkShieldedAutoRepairAttempt`: no rebuild was tried for this tree and registry -/
  marked : Bool
  activeChain : List Connection

/-- The shielded state of the node during a call, and `shielded_state_repair_attempted`. -/
structure RepairState (H : MerkleHash) where
  shielded : ShieldedState H
  attempted : Bool := false

/-- A part of a call, which leaves a state behind also when it fails. -/
abbrev RepairM (H : MerkleHash) := ExceptT String (StateM (RepairState H))

/-- A check against the node's state. -/
def check {H : MerkleHash} {α : Type} (f : ShieldedState H → Except String α) : RepairM H α :=
  fun n => (f n.shielded, n)

section Repair

variable (env : Env) (ctx : BlockContext) (rep : RepairContext env.merkle)

/-- `TryAutoRebuildShieldedState`. -/
def tryAutoRebuildShieldedState : Option (ShieldedState env.merkle) :=
  if rep.marked then rebuildFromChain env rep.activeChain else none

/-- A proof check that is made again after a rebuild. -/
def checkOrRepair (f : ShieldedState env.merkle → Except String Unit) : RepairM env.merkle Unit :=
  fun n =>
    match f n.shielded with
    | .ok () => (.ok (), n)
    | .error reason =>
        if n.attempted ∨ reason ∉ recoverableShieldedProofRejects then (.error reason, n)
        else
          match tryAutoRebuildShieldedState env rep with
          | none => (.error reason, ⟨n.shielded, true⟩)
          | some s => (f s, ⟨s, true⟩)

/-- The body of the transaction loop. The local variables stay when the state is rebuilt. -/
def connectTxRepairing (loop : LoopState env.merkle) (tx : CTransaction) :
    RepairM env.merkle (LoopState env.merkle) :=
  if tx.hasShieldedBundle then do
    let acc ← check fun s => do
      ctx.heightGate tx
      let acc ← checkShieldedTx env ctx s loop.acc tx
      ctx.proofCheck tx
      pure acc
    checkOrRepair env rep (rep.proofCheck · tx)
    check fun s => do
      rep.spendAuthCheck tx
      let acc ← familyTx env ctx s acc tx
      transparentTx ctx loop tx acc
  else check fun _ => transparentTx ctx loop tx loop.acc

variable (st : ChainState env.merkle)

/-- Everything `ConnectBlock` checks before it writes. -/
def validateBlockRepairing (block : CBlock) :
    RepairM env.merkle (LoopState env.merkle) := do
  check fun _ => checkStart env ctx st block
  let loop ← block.vtx.foldlM (connectTxRepairing env ctx rep) (.start st)
  check fun _ => do
    checkReward ctx loop block
    ctx.completion
  checkOrRepair env rep rep.completeProofs
  check fun _ => do
    rep.completeAuth
    pure loop

/-- The shielded state of the node when the checks are over. -/
def checkedState (block : CBlock) : ShieldedState env.merkle :=
  (validateBlockRepairing env ctx rep st block ⟨st.shielded, false⟩).2.shielded

/-- `ConnectBlock`, with the repair. -/
def connectBlockRepairing (block : CBlock) :
    Except (Rejection env.merkle) (ChainState env.merkle × BlockUndo) := do
  let s := checkedState env ctx rep st block
  let loop ← rejectWith s (validateBlockRepairing env ctx rep st block ⟨st.shielded, false⟩).1
  let shielded ←
    if enforcesShielded env ctx.height block then commitShielded env ctx block loop.acc s
    else pure s
  pure (⟨loop.coins, shielded⟩, ⟨loop.vtxundo, loop.acc.consumedSettlementAnchorStates⟩)

/-- The verdicts of the proof checks at a state. -/
def BlockContext.withProofs {env : Env} (ctx : BlockContext) (rep : RepairContext env.merkle)
    (s : ShieldedState env.merkle) : BlockContext :=
  { ctx with
    proofCheck := fun tx => do
      ctx.proofCheck tx
      rep.proofCheck s tx
      rep.spendAuthCheck tx
    completion := do
      ctx.completion
      rep.completeProofs s
      rep.completeAuth }

end Repair

/-! ## A call without a repair -/

section Tracks

variable {env : Env} {ctx : BlockContext} {rep : RepairContext env.merkle} {α β : Type}
  {s : ShieldedState env.merkle} {n m l : RepairState env.merkle}
  {p : RepairM env.merkle α} {f : α → RepairM env.merkle β} {x : Except String α}
  {g : α → Except String β}

/-- The state is replaced once, by what the rebuild gives. -/
def Moves (rep : RepairContext env.merkle) (n m : RepairState env.merkle) : Prop :=
  m = n ∨ (n.attempted = false ∧ m.attempted = true ∧
    (m.shielded = n.shielded ∨ tryAutoRebuildShieldedState env rep = some m.shielded))

theorem Moves.trans (h : Moves rep n m) (h' : Moves rep m l) : Moves rep n l := by
  rcases h with rfl | ⟨hn, hm, h⟩
  · exact h'
  · rcases h' with rfl | ⟨hm', -⟩
    · exact .inr ⟨hn, hm, h⟩
    · rw [hm] at hm'
      cases hm'

/-- Where the state is the same in the end, it was the same in between. -/
theorem Moves.shielded_eq (h : Moves rep n m) (h' : Moves rep m l) (hl : l.shielded = n.shielded) :
    m.shielded = n.shielded := by
  rcases h with rfl | ⟨-, hm, -⟩
  · rfl
  · rcases h' with rfl | ⟨hm', -⟩
    · exact hl
    · rw [hm] at hm'
      cases hm'

/-- A part of a call does what `x` says, unless it replaces the state `s`. -/
structure Tracks (rep : RepairContext env.merkle) (s : ShieldedState env.merkle)
    (p : RepairM env.merkle α) (x : Except String α) : Prop where
  moves : ∀ n, Moves rep n (p n).2
  agrees : ∀ n, n.shielded = s → (p n).2.shielded = s → (p n).1 = x

theorem run_bind (p : RepairM env.merkle α) (f : α → RepairM env.merkle β)
    (n : RepairState env.merkle) : (p >>= f) n =
      match p n with
      | (.ok a, m) => f a m
      | (.error e, m) => (.error e, m) := by
  change ExceptT.bindCont f (p n).1 (p n).2 = _
  rcases p n with ⟨e | a, m⟩ <;> rfl

theorem Tracks.check (f : ShieldedState env.merkle → Except String α) :
    Tracks rep s (check f) (f s) :=
  ⟨fun _ => .inl rfl, fun _ hn _ => congrArg f hn⟩

theorem Tracks.checkOrRepair (f : ShieldedState env.merkle → Except String Unit) :
    Tracks rep s (checkOrRepair env rep f) (f s) := by
  constructor
  · intro n
    unfold Validation.checkOrRepair
    split
    · exact .inl rfl
    · split_ifs with hstop
      · exact .inl rfl
      · rw [not_or, Bool.not_eq_true] at hstop
        split
        · exact .inr ⟨hstop.1, rfl, .inl rfl⟩
        · next s' hs => exact .inr ⟨hstop.1, rfl, .inr hs⟩
  · rintro n rfl hn
    unfold Validation.checkOrRepair at hn ⊢
    split
    · next hf => exact hf.symm
    · next hf =>
      simp only [hf] at hn
      split_ifs at hn ⊢
      · exact hf.symm
      · split
        · exact hf.symm
        · next hs =>
          rw [hs] at hn
          exact congrArg f hn

theorem Tracks.bind (hp : Tracks rep s p x) (hf : ∀ a, Tracks rep s (f a) (g a)) :
    Tracks rep s (p >>= f) (x >>= g) := by
  constructor
  · intro n
    rw [run_bind]
    have hmoves := hp.moves n
    generalize p n = y at hmoves
    obtain ⟨e | a, m⟩ := y
    · exact hmoves
    · exact hmoves.trans ((hf a).moves m)
  · rintro n rfl hl
    rw [run_bind] at hl ⊢
    have hmoves := hp.moves n
    have hagrees := hp.agrees n rfl
    generalize p n = y at hl hmoves hagrees
    obtain ⟨e | a, m⟩ := y
    · rw [← hagrees hl]
      rfl
    · have hm := hmoves.shielded_eq ((hf a).moves m) hl
      rw [← hagrees hm]
      exact (hf a).agrees m hm hl

theorem Tracks.foldlM {γ : Type} {f : β → γ → RepairM env.merkle β} {g : β → γ → Except String β}
    (hf : ∀ b c, Tracks rep s (f b c) (g b c)) (cs : List γ) (b : β) :
    Tracks rep s (cs.foldlM f b) (cs.foldlM g b) := by
  induction cs generalizing b with
  | nil => exact ⟨fun _ => .inl rfl, fun _ _ _ => rfl⟩
  | cons c cs ih =>
    rw [foldlM_cons, foldlM_cons]
    exact (hf b c).bind ih

theorem Tracks.of_eq {y : Except String α} (h : Tracks rep s p x) (hxy : x = y) :
    Tracks rep s p y :=
  hxy ▸ h

theorem tracks_connectTx (loop : LoopState env.merkle) (tx : CTransaction) :
    Tracks rep s (connectTxRepairing env ctx rep loop tx)
      (connectTx env (ctx.withProofs rep s) s loop tx) := by
  unfold connectTxRepairing connectTx
  split_ifs
  · refine ((Tracks.check _).bind fun acc => (Tracks.checkOrRepair _).bind fun _ =>
      Tracks.check _).of_eq ?_
    simp only [shieldedTx, BlockContext.withProofs, bind_assoc, pure_bind]
    rfl
  · exact Tracks.check fun _ => transparentTx ctx loop tx loop.acc

variable {st : ChainState env.merkle} {block : CBlock} {r : Rejection env.merkle}

theorem tracks_validateBlock : Tracks rep st.shielded (validateBlockRepairing env ctx rep st block)
    (validateBlock env (ctx.withProofs rep st.shielded) st block) := by
  refine ((Tracks.check _).bind fun _ => (Tracks.foldlM tracks_connectTx _ _).bind fun loop =>
    (Tracks.check _).bind fun _ => (Tracks.checkOrRepair _).bind fun _ => Tracks.check _).of_eq ?_
  simp only [validateBlock, BlockContext.withProofs, bind_assoc]
  rfl

theorem checkedState_eq : checkedState env ctx rep st block = st.shielded ∨
    tryAutoRebuildShieldedState env rep = some (checkedState env ctx rep st block) := by
  have hmoves : Moves rep ⟨st.shielded, false⟩
      (validateBlockRepairing env ctx rep st block ⟨st.shielded, false⟩).2 :=
    tracks_validateBlock.moves _
  rcases hmoves with h | ⟨-, -, h⟩
  · exact .inl (congrArg RepairState.shielded h)
  · exact h

/-- **Without a repair**, or with one that changes nothing, a call is one of `connectBlock`. -/
theorem connectBlockRepairing_eq_connectBlock
    (h : checkedState env ctx rep st block = st.shielded) :
    connectBlockRepairing env ctx rep st block =
      connectBlock env (ctx.withProofs rep st.shielded) st block := by
  have hagrees := tracks_validateBlock.agrees ⟨st.shielded, false⟩ rfl h
  rw [connectBlockRepairing, connectBlock, h, hagrees]
  rfl

/-! ## A block that passed the checks -/

theorem run_bind_ok {b : β} (h : ((p >>= f) n).1 = .ok b) :
    ∃ a m, p n = (.ok a, m) ∧ (f a m).1 = .ok b := by
  rw [run_bind] at h
  generalize p n = y at h
  obtain ⟨e | a, m⟩ := y
  · cases h
  · exact ⟨a, m, rfl, h⟩

variable {loop loop' : LoopState env.merkle} {tx : CTransaction} {vtx : List CTransaction}

theorem connectTxRepairing_manifests
    (h : (connectTxRepairing env ctx rep loop tx n).1 = .ok loop') :
    ∃ ids, extractCreatedShieldedNettingManifests env tx = .ok ids := by
  unfold connectTxRepairing at h
  split_ifs at h with hb
  · obtain ⟨acc, m, -, h⟩ := run_bind_ok h
    obtain ⟨-, m, -, h⟩ := run_bind_ok h
    simp only [check, bind_eq_ok] at h
    obtain ⟨_, -, acc', hfam, -⟩ := h
    exact familyTx_manifests hfam
  · exact manifests_of_not_hasShieldedBundle (by simpa using hb)

theorem connectTxsRepairing_manifests
    (h : (vtx.foldlM (connectTxRepairing env ctx rep) loop n).1 = .ok loop') :
    ∀ tx ∈ vtx, ∃ ids, extractCreatedShieldedNettingManifests env tx = .ok ids := by
  induction vtx generalizing loop n with
  | nil => simp
  | cons tx vtx ih =>
    rw [foldlM_cons] at h
    obtain ⟨mid, m, hmid, hrest⟩ := run_bind_ok h
    exact forall_mem_cons.2 ⟨connectTxRepairing_manifests (congrArg Prod.fst hmid), ih hrest⟩

theorem validateBlockRepairing_manifests
    (h : (validateBlockRepairing env ctx rep st block n).1 = .ok loop) :
    ∃ manifests, blockNettingManifestStates env ctx block = .ok manifests := by
  obtain ⟨_, m, hstart, h⟩ := run_bind_ok h
  obtain ⟨loop', m', hloop, -⟩ := run_bind_ok h
  have hstart : checkStart env ctx st block = .ok _ := congrArg Prod.fst hstart
  simp only [checkStart, bind_eq_ok] at hstart
  obtain ⟨_, hcheck, -⟩ := hstart
  exact blockNettingManifestStates_isOk hcheck
    (connectTxsRepairing_manifests (congrArg Prod.fst hloop))

/-- Any other verdict than that of the cap comes before the first write. -/
theorem state_eq_checkedState (h : connectBlockRepairing env ctx rep st block = .error r)
    (hr : r.IsInvalid) (hreason : r.reason ≠ velocityExceeded) :
    r.state = checkedState env ctx rep st block := by
  rcases bind_eq_error.1 h with h | ⟨loop, hloop, h⟩
  · exact (rejectWith_eq_error.1 h).2
  · split_ifs at h
    · rcases bind_eq_error.1 h with h | ⟨_, -, h⟩
      · have hmanifests := validateBlockRepairing_manifests (rejectWith_eq_ok.1 hloop)
        rcases commitShielded_eq_error hmanifests h hr with ⟨-, hstate⟩ | ⟨_, -, -, hvelocity⟩
        · exact hstate
        · exact absurd (nextVelocity_eq_error hvelocity) hreason
      · cases h
    · cases h

/-- A repair of a state that was connected along the active chain replaces the velocity log. -/
theorem checkedState_of_connected (h : ConnectedChain env rep.activeChain st.shielded) :
    ∃ v, checkedState env ctx rep st block = { st.shielded with velocity := v } := by
  rcases checkedState_eq with heq | hrebuilt
  · exact ⟨st.shielded.velocity, heq⟩
  · obtain ⟨v, hv⟩ := h.rebuildFromChain_eq
    rw [tryAutoRebuildShieldedState] at hrebuilt
    split_ifs at hrebuilt
    exact ⟨v, Option.some.inj (hrebuilt.symm.trans hv)⟩

end Tracks

/-! ## A block over the cap -/

/-- A cap of ten percent of the pool over ten blocks, from height 2 on. -/
def cappedEnv : Env :=
  { sampleEnv with
    params := { sampleParams with
      nShieldedUnshieldVelocityActivationHeight := 2
      nShieldedUnshieldVelocityCapBps := 1000
      nShieldedUnshieldVelocityWindowBlocks := 10 } }

theorem depositBlock_accepted_under_cap :
    (connectBlock cappedEnv (sampleContext 1) ⟨depositCoins, .empty⟩
      depositBlock).toOption.isSome = true := by
  decide

/-- After `depositBlock`. -/
def cappedDeposit : Ledgers cappedEnv := okValue _ depositBlock_accepted_under_cap

theorem run_cappedDeposit :
    Run cappedEnv [⟨depositBlock, 1, cappedDeposit.2⟩] cappedDeposit.1.shielded :=
  .connect .start (eq_ok_okValue depositBlock_accepted_under_cap)

/-- The proofs pass, and a rebuild would find the deposit on its genesis block. -/
def cappedRepair : RepairContext cappedEnv.merkle where
  proofCheck _ _ := pure ()
  spendAuthCheck _ := pure ()
  completeProofs _ := pure ()
  completeAuth := pure ()
  marked := true
  activeChain := [⟨depositBlock, 1, cappedDeposit.2⟩, ⟨⟨[]⟩, 0, ⟨[], []⟩⟩]

theorem withdrawBlock_rejected : (connectBlockRepairing cappedEnv (sampleContext 2) cappedRepair
    cappedDeposit.1 withdrawBlock).toOption = none := by
  decide

/-- The rejection of a withdrawal of four from a pool of ten. -/
def cappedWithdrawal : Rejection cappedEnv.merkle := errorValue _ withdrawBlock_rejected

/-- The node after that. -/
def afterWithdrawal : ChainState cappedEnv.merkle := ⟨cappedDeposit.1.coins, cappedWithdrawal.state⟩

/-- No proof passes. -/
def failingProofs : RepairContext cappedEnv.merkle :=
  { cappedRepair with proofCheck := fun _ _ => throw "bad-shielded-proof" }

theorem depositBlock_rejected : (connectBlockRepairing cappedEnv
    { sampleContext 2 with enforceBIP30 := false } failingProofs afterWithdrawal
    depositBlock).toOption = none := by
  decide

end Btx.Validation
