/-
# The velocity log rebuilt from the chain

`RebuildRecentShieldedUnshieldVelocity` of `src/validation.cpp` should make the log that
`ConnectBlock` maintains, entry for entry. It keeps two windows below the *present* tip, the
maintained log two windows below the highest block that was connected with the cap active. So they
part after a disconnection and above the end height of the cap (`rebuilt_log_eq`).
-/

import Btx.Validation.EgressHistory

namespace Btx.Validation

open Util Shielded ShieldedUnshieldVelocity List Option

/-! ## The rebuild -/

/-- Why `RebuildRecentShieldedUnshieldVelocity` fails, with the height it reports. -/
inductive RebuildError where
  | blockUnavailable (height : ℕ)
  | readFailed (height : ℕ)
  | noValueBalance (height : ℕ) (reason : String)
  | valueBalanceOverflow (height : ℕ)
  deriving DecidableEq

/-- Which blocks are on disk (`ShieldedRebuildBlockAvailable`) and can be read
(`ReadShieldedRebuildBlock`). -/
structure BlockFiles where
  available : Connection → Bool
  readable : Connection → Bool

section Rebuild

variable (env : Env) (files : BlockFiles)

/-- The loop over the transactions of a block. -/
def addValueBalance (height : ℕ) (total : CAmount) (tx : CTransaction) :
    Except RebuildError CAmount :=
  if !tx.hasShieldedBundle then pure total
  else
    match tryGetShieldedStateValueBalance env.codec tx.shieldedBundle with
    | .error reason => throw (.noValueBalance height reason)
    | .ok valueBalance =>
        match checkedAdd total valueBalance with
        | none => throw (.valueBalanceOverflow height)
        | some next =>
            if MoneyRangeSigned next then pure next else throw (.valueBalanceOverflow height)

/-- The loop over the blocks. -/
def rebuildBlock (v : ShieldedUnshieldVelocity) (c : Connection) :
    Except RebuildError ShieldedUnshieldVelocity :=
  if !env.params.isShieldedUnshieldVelocityCapActive c.height then pure v
  else if !files.readable c then throw (.readFailed c.height)
  else do
    let total ← c.block.vtx.foldlM (addValueBalance env c.height) 0
    pure ((v.recordBlock c.height (if 0 < total then total else 0)).prune
      (ShieldedUnshieldVelocity.keepFromHeight c.height
        env.params.nShieldedUnshieldVelocityWindowBlocks))

/-- The check of the walk down the chain. -/
def checkAvailable (c : Connection) : Except RebuildError PUnit :=
  if files.available c then pure () else throw (.blockUnavailable c.height)

/-- The blocks that are read, last block first. Their range is computed in 64 bits. -/
def recentBlocks (tip : Connection) (chain : List Connection) : List Connection :=
  (tip :: chain).takeWhile fun c =>
    decide (max 0 ((tip.height : ℤ) - 2 * env.params.nShieldedUnshieldVelocityWindowBlocks) ≤
      c.height)

/-- `RebuildRecentShieldedUnshieldVelocity`, for the active chain, last block first. -/
def rebuildRecentShieldedUnshieldVelocity :
    List Connection → Except RebuildError ShieldedUnshieldVelocity
  | [] => pure .empty
  | tip :: chain => do
      (recentBlocks env tip chain).forM (checkAvailable files)
      let v ← (recentBlocks env tip chain).reverse.foldlM (rebuildBlock env files) .empty
      pure (v.prune (ShieldedUnshieldVelocity.keepFromHeight tip.height
        env.params.nShieldedUnshieldVelocityWindowBlocks))

/-- The entries of all blocks of a chain. -/
def chainLog : List Connection → PartialMap ℕ CAmount
  | [] => .empty
  | c :: chain =>
      if env.params.isShieldedUnshieldVelocityCapActive c.height then
        (chainLog chain).insert c.height (netEgress env c.block)
      else chainLog chain

/-- The entries of a chain, but for those more than two windows below height `tip`. -/
def chainLogFrom (tip : ℕ) (chain : List Connection) : ShieldedUnshieldVelocity :=
  ⟨fun h =>
    if h + 2 * env.params.nShieldedUnshieldVelocityWindowBlocks < tip then none
    else chainLog env chain h⟩

end Rebuild

section Rebuild

variable {env : Env} {files : BlockFiles} {chain : List Connection} {c : Connection}

/-! ## What it computes -/

variable {start p q : ShieldedPoolBalance} {h : ℕ}

theorem addValueBalance_eq {tx : CTransaction} (height : ℕ)
    (hpool : poolTx ShieldedPoolBalance.applyValueBalance env.codec p tx = .ok q) :
    addValueBalance env height (start.balance - p.balance) tx =
      .ok (start.balance - q.balance) := by
  rw [addValueBalance]
  cases hbundle : tx.hasShieldedBundle with
  | false =>
    rw [poolTx, hbundle] at hpool
    rw [pure_eq_ok.mp hpool]
    rfl
  | true =>
    rw [poolTx, hbundle, if_pos rfl, bind_eq_ok] at hpool
    obtain ⟨vb, hvb, hmove⟩ := hpool
    split at hmove
    case h_2 => cases hmove
    case h_1 next happly =>
      obtain rfl := pure_eq_ok.mp hmove
      obtain ⟨hrange, hbalance⟩ := ShieldedPoolBalance.applyValueBalance_eq_some_iff.mp happly
      have hbefore : MoneyRangeSigned (start.balance - p.balance) :=
        ⟨by linarith [start.inRange.1, p.inRange.2], by linarith [start.inRange.2, p.inRange.1]⟩
      have hafter : MoneyRangeSigned (start.balance - next.balance) :=
        ⟨by linarith [start.inRange.1, next.inRange.2],
          by linarith [start.inRange.2, next.inRange.1]⟩
      have hsum : start.balance - p.balance + vb = start.balance - next.balance := by
        rw [hbalance]
        ring
      simp only [hvb, checkedAdd_of_moneyRangeSigned hbefore hrange, hsum]
      exact if_pos hafter

theorem foldlM_addValueBalance {vtx : List CTransaction}
    (height : ℕ) (hpool : connectPool env.codec vtx p = .ok q) :
    vtx.foldlM (addValueBalance env height) (start.balance - p.balance) =
      .ok (start.balance - q.balance) := by
  induction vtx generalizing p with
  | nil =>
    rw [connectPool, foldlM_nil, pure_eq_ok] at hpool
    rw [hpool]
    rfl
  | cons tx vtx ih =>
    rw [connectPool, foldlM_cons, bind_eq_ok] at hpool
    obtain ⟨r, hfirst, hrest⟩ := hpool
    rw [foldlM_cons, addValueBalance_eq height hfirst, ok_bind]
    exact ih hrest

theorem rebuildBlock_eq (v : ShieldedUnshieldVelocity)
    (hpool : connectPool env.codec c.block.vtx p = .ok q) (hread : files.readable c = true) :
    rebuildBlock env files v c = .ok (logBlock env v c.height c.block) := by
  have htotal : c.block.vtx.foldlM (addValueBalance env c.height) (p.balance - p.balance) = _ :=
    foldlM_addValueBalance c.height hpool
  rw [sub_self] at htotal
  have hegress : (if 0 < p.balance - q.balance then p.balance - q.balance else 0) =
      netEgress env c.block := by
    rw [← netEgress_eq hpool]
    simp only [sub_pos]
  rw [rebuildBlock, logBlock]
  cases hactive : env.params.isShieldedUnshieldVelocityCapActive c.height with
  | false => rfl
  | true =>
    simp only [hread, htotal, hegress, Bool.not_true, Bool.false_eq_true, if_false, ok_bind,
      if_true]
    rfl

theorem chainLogFrom_egress (tip h : ℕ) (chain : List Connection) :
    (chainLogFrom env tip chain).egress h =
      if h + 2 * env.params.nShieldedUnshieldVelocityWindowBlocks < tip then none
      else chainLog env chain h := rfl

theorem chainLog_cons (c : Connection) (chain : List Connection) (h : ℕ) :
    chainLog env (c :: chain) h =
      if env.params.isShieldedUnshieldVelocityCapActive c.height ∧ h = c.height then
        some (netEgress env c.block)
      else chainLog env chain h := by
  rw [chainLog]
  split
  case isTrue hactive =>
    rw [PartialMap.insert, Function.update_apply]
    simp only [hactive, true_and]
  case isFalse hinactive => rw [if_neg fun hboth => hinactive hboth.1]

theorem chainLog_cons_of_ne (hne : h ≠ c.height) :
    chainLog env (c :: chain) h = chainLog env chain h := by
  rw [chainLog_cons, if_neg fun hboth => hne hboth.2]

theorem chainLog_cons_inactive
    (hinactive : ¬ env.params.isShieldedUnshieldVelocityCapActive c.height) :
    chainLog env (c :: chain) = chainLog env chain := by
  rw [chainLog, if_neg hinactive]

/-- The rebuild succeeds, and agrees with the log where it is kept. -/
theorem foldlM_rebuildBlock (hwindow : env.params.nShieldedUnshieldVelocityWindowBlocks < 2 ^ 30)
    {blocks : List Connection}
    (hpools : ∀ c ∈ blocks, ∃ p q, connectPool env.codec c.block.vtx p = .ok q)
    (hread : ∀ c ∈ blocks, files.readable c = true) :
    ∃ v, blocks.reverse.foldlM (rebuildBlock env files) .empty = .ok v ∧
      ∀ h : ℕ, (∀ c ∈ blocks,
          c.height ≤ h + 2 * env.params.nShieldedUnshieldVelocityWindowBlocks) →
        v.egress h = chainLog env blocks h := by
  induction blocks with
  | nil => exact ⟨.empty, rfl, fun h _ => rfl⟩
  | cons c blocks ih =>
    obtain ⟨v, hv, hlog⟩ := ih (fun d hd => hpools d (mem_cons_of_mem _ hd))
      fun d hd => hread d (mem_cons_of_mem _ hd)
    obtain ⟨p, q, hpool⟩ := hpools c mem_cons_self
    refine ⟨logBlock env v c.height c.block, ?_, fun h hkeep => ?_⟩
    · rw [reverse_cons, foldlM_append, hv, ok_bind, foldlM_cons,
        rebuildBlock_eq v hpool (hread c mem_cons_self), ok_bind, foldlM_nil]
      rfl
    · have hrest := hlog h fun d hd => hkeep d (mem_cons_of_mem _ hd)
      have hc := hkeep c mem_cons_self
      by_cases hactive : env.params.isShieldedUnshieldVelocityCapActive c.height
      · rw [logBlock_active hwindow hactive, if_neg (by omega), hrest, chainLog_cons]
        simp only [hactive, true_and]
      · rw [logBlock_inactive hactive, hrest, chainLog_cons_inactive hactive]

theorem chainLog_of_le (hchain : Consecutive chain) (hle : chain.length ≤ h) :
    chainLog env chain h = none := by
  induction chain with
  | nil => rfl
  | cons c chain ih =>
    rw [length_cons] at hle
    have hheight := hchain.1
    rw [chainLog_cons_of_ne (by omega), ih hchain.2 (by omega)]

theorem chainLog_takeWhile (hchain : Consecutive chain) {first : ℤ} (hfirst : first ≤ h) :
    chainLog env (chain.takeWhile fun c => decide (first ≤ c.height)) h = chainLog env chain h := by
  induction chain with
  | nil => rfl
  | cons c chain ih =>
    rw [takeWhile_cons]
    split
    case isTrue => rw [chainLog_cons, chainLog_cons, ih hchain.2]
    case isFalse hlow =>
      have hheight := hchain.1
      have hlow : ¬ first ≤ c.height := by simpa using hlow
      rw [chainLog_of_le hchain (by rw [length_cons]; omega)]
      rfl

theorem rebuild_eq_chainLogFrom
    (hwindow : env.params.nShieldedUnshieldVelocityWindowBlocks < 2 ^ 30)
    (hchain : Consecutive (c :: chain))
    (hpools : ∀ d ∈ c :: chain, ∃ p q, connectPool env.codec d.block.vtx p = .ok q)
    (hfiles : ∀ d ∈ c :: chain, files.available d = true ∧ files.readable d = true) :
    rebuildRecentShieldedUnshieldVelocity env files (c :: chain) =
      .ok (chainLogFrom env chain.length (c :: chain)) := by
  have hrecent : ∀ d ∈ recentBlocks env c chain, d ∈ c :: chain := fun d hd =>
    (takeWhile_sublist _).mem hd
  have havailable : (recentBlocks env c chain).forM (checkAvailable files) = .ok () :=
    forM_eq_ok.mpr fun d hd => if_pos (hfiles d (hrecent d hd)).1
  obtain ⟨v, hv, hlog⟩ := foldlM_rebuildBlock hwindow
    (fun d hd => hpools d (hrecent d hd)) fun d hd => (hfiles d (hrecent d hd)).2
  rw [rebuildRecentShieldedUnshieldVelocity, havailable, ok_bind, hv, ok_bind]
  refine congrArg Except.ok (ShieldedUnshieldVelocity.ext fun h => ?_)
  rw [keepFromHeight_eq hwindow, hchain.1, prune_egress, chainLogFrom_egress]
  refine if_ctx_congr (by omega) (fun _ => rfl) fun hkeep => ?_
  rw [hlog h fun d hd => ?_, recentBlocks, chainLog_takeWhile hchain]
  · rw [hchain.1]
    omega
  · have := hchain.height_lt (hrecent d hd)
    rw [length_cons] at this
    omega

theorem History.pools {rules : StepRules} {s : ShieldedState env.merkle} {peak : ℕ}
    (h : History env rules chain s peak) :
    ∀ c ∈ chain, ∃ p q, connectPool env.codec c.block.vtx p = .ok q := by
  induction h with
  | @start genesis _ hbundle =>
    intro c hc
    rw [mem_singleton.mp hc]
    refine ⟨.empty, .empty, connectPool_eq_ok_iff.mpr ⟨fun tx htx hb => ?_, ?_⟩⟩
    · exact absurd hb (by simp [hbundle tx htx])
    · rw [stateValueBalances_eq_nil hbundle, map_nil, walk_nil]
  | connect _ _ _ hconnect ih =>
    obtain ⟨acc, ds, hconn⟩ := connectBlock_connected hconnect
    exact forall_mem_cons.2 ⟨⟨_, _, hconn.connectPool⟩, ih⟩
  | disconnect _ _ _ _ ih => exact (forall_mem_cons.1 ih).2

/-! ## Where the two logs part -/

variable (env) in
/-- The block that is two windows and one block below height `tip` has no entry. -/
def EdgeFree (tip : ℕ) : Prop :=
  ∀ h, h + 2 * env.params.nShieldedUnshieldVelocityWindowBlocks + 1 = tip →
    env.params.isShieldedUnshieldVelocityCapActive h = false

variable (env) in
/-- The steps that keep the two logs equal. -/
def steadySteps : StepRules where
  connect height :=
    env.params.isShieldedUnshieldVelocityCapActive height = true ∨ EdgeFree env height
  disconnect height _ := EdgeFree env height

theorem chainLog_eq_none_iff (hchain : Consecutive chain) (hlt : h < chain.length) :
    chainLog env chain h = none ↔ env.params.isShieldedUnshieldVelocityCapActive h = false := by
  induction chain with
  | nil => exact absurd hlt (Nat.not_lt_zero h)
  | cons c chain ih =>
    rw [length_cons] at hlt
    by_cases heq : h = chain.length
    · subst heq
      rw [chainLog_cons, hchain.1, chainLog_of_le hchain.2 le_rfl]
      simp
    · rw [chainLog_cons_of_ne (by rw [hchain.1]; exact heq)]
      exact ih hchain.2 (by omega)

theorem chainLogFrom_succ_eq_iff (hchain : Consecutive chain) (hne : chain ≠ []) :
    chainLogFrom env chain.length chain = chainLogFrom env (chain.length - 1) chain ↔
      EdgeFree env chain.length := by
  have hpos := length_pos_of_ne_nil hne
  constructor
  · intro heq h hedge
    have hentry := congrFun (congrArg ShieldedUnshieldVelocity.egress heq) h
    rw [chainLogFrom_egress, chainLogFrom_egress, if_pos (by omega), if_neg (by omega)] at hentry
    exact (chainLog_eq_none_iff hchain (by omega)).mp hentry.symm
  · intro hfree
    refine ShieldedUnshieldVelocity.ext fun h => ?_
    rw [chainLogFrom_egress, chainLogFrom_egress]
    by_cases hedge : h + 2 * env.params.nShieldedUnshieldVelocityWindowBlocks + 1 = chain.length
    · rw [if_pos (by omega), if_neg (by omega),
        (chainLog_eq_none_iff hchain (by omega)).mpr (hfree h hedge)]
    · exact if_congr (by omega) rfl rfl

theorem logBlock_chainLogFrom (hwindow : env.params.nShieldedUnshieldVelocityWindowBlocks < 2 ^ 30)
    (hchain : Consecutive chain) (hne : chain ≠ []) (block : CBlock) (undo : BlockUndo) :
    logBlock env (chainLogFrom env (chain.length - 1) chain) chain.length block =
        chainLogFrom env chain.length (⟨block, chain.length, undo⟩ :: chain) ↔
      (steadySteps env).connect chain.length := by
  have hpos := length_pos_of_ne_nil hne
  by_cases hactive : env.params.isShieldedUnshieldVelocityCapActive chain.length
  · refine iff_of_true (ShieldedUnshieldVelocity.ext fun h => ?_) (.inl hactive)
    rw [logBlock_active hwindow hactive, chainLogFrom_egress, chainLogFrom_egress, chainLog_cons]
    refine if_ctx_congr Iff.rfl (fun _ => rfl) fun hkept => ?_
    have hkept' : ¬ h + 2 * env.params.nShieldedUnshieldVelocityWindowBlocks <
      chain.length - 1 := by omega
    simp only [hactive, true_and, if_neg hkept']
  · have hsame : chainLogFrom env chain.length (⟨block, chain.length, undo⟩ :: chain) =
        chainLogFrom env chain.length chain := by
      rw [chainLogFrom, chainLogFrom, chainLog_cons_inactive hactive]
    rw [logBlock_inactive hactive, hsame, eq_comm, chainLogFrom_succ_eq_iff hchain hne]
    exact ⟨.inr, fun hsteady => hsteady.resolve_left hactive⟩

theorem undoBlock_chainLogFrom {s s' : ShieldedState env.merkle} (hchain : Consecutive (c :: chain))
    (hlog : s.velocity = chainLogFrom env chain.length (c :: chain))
    (hdisconnect : disconnectBlock env c.height c.block c.undo s = some s') :
    s'.velocity = chainLogFrom env chain.length chain := by
  rw [disconnectBlock_velocity hdisconnect, hlog]
  split
  case isTrue hactive =>
    refine ShieldedUnshieldVelocity.ext fun h => ?_
    rw [undoBlock_egress, chainLogFrom_egress, chainLogFrom_egress]
    by_cases heq : h = c.height
    · rw [if_pos heq, chainLog_of_le hchain.2 (by rw [heq, hchain.1]), ite_self]
    · rw [if_neg heq, chainLog_cons_of_ne heq]
  case isFalse hinactive => rw [chainLogFrom, chainLogFrom, chainLog_cons_inactive hinactive]

variable {rules : StepRules} {s s' : ShieldedState env.merkle} {peak : ℕ}

section

variable (hwindow : env.params.nShieldedUnshieldVelocityWindowBlocks < 2 ^ 30)

include hwindow

theorem History.rebuild_eq (h : History env rules chain s peak)
    (hfiles : ∀ d ∈ chain, files.available d = true ∧ files.readable d = true) :
    rebuildRecentShieldedUnshieldVelocity env files chain =
      .ok (chainLogFrom env (chain.length - 1) chain) := by
  have hchain := h.consecutive
  have hpools := h.pools
  cases chain with
  | nil => exact absurd rfl h.ne_nil
  | cons c chain => exact rebuild_eq_chainLogFrom hwindow hchain hpools hfiles

theorem History.connect_log_eq_iff (h : History env rules chain s peak)
    (hlog : s.velocity = chainLogFrom env (chain.length - 1) chain) {ctx : BlockContext}
    {coins coins' : CoinsView} {block : CBlock} {undo : BlockUndo}
    (hheight : ctx.height = chain.length)
    (hconnect : connectBlock env ctx ⟨coins, s⟩ block = .ok (⟨coins', s'⟩, undo)) :
    s'.velocity = chainLogFrom env chain.length (⟨block, ctx.height, undo⟩ :: chain) ↔
      (steadySteps env).connect ctx.height := by
  obtain ⟨acc, ds, hconn⟩ := connectBlock_connected hconnect
  rw [nextVelocity_eq_logBlock hconn.connectPool hconn.velocity, hheight, hlog]
  exact logBlock_chainLogFrom hwindow h.consecutive h.ne_nil block undo

end

theorem History.disconnect_log_eq_iff (h : History env rules (c :: chain) s peak)
    (hlog : s.velocity = chainLogFrom env chain.length (c :: chain)) (hne : chain ≠ [])
    (hdisconnect : disconnectBlock env c.height c.block c.undo s = some s') :
    s'.velocity = chainLogFrom env (chain.length - 1) chain ↔
      (steadySteps env).disconnect c.height peak := by
  have hchain := h.consecutive
  rw [undoBlock_chainLogFrom hchain hlog hdisconnect, chainLogFrom_succ_eq_iff hchain.2 hne,
    ← hchain.1]
  rfl

theorem History.log_eq_of_steady
    (hwindow : env.params.nShieldedUnshieldVelocityWindowBlocks < 2 ^ 30)
    (hgenesis : env.params.isShieldedUnshieldVelocityCapActive 0 = false)
    (h : History env (steadySteps env) chain s peak) :
    s.velocity = chainLogFrom env (chain.length - 1) chain := by
  induction h with
  | @start genesis hheight =>
    refine ShieldedUnshieldVelocity.ext fun h => ?_
    have hinactive : ¬ env.params.isShieldedUnshieldVelocityCapActive genesis.height := by
      rw [hheight, hgenesis]
      exact Bool.false_ne_true
    rw [chainLogFrom_egress, chainLog_cons_inactive hinactive]
    exact (ite_self none).symm
  | connect h hheight hrule hconnect ih =>
    exact (h.connect_log_eq_iff hwindow ih hheight hconnect).mpr hrule
  | disconnect h hne hrule hdisconnect ih =>
    exact (h.disconnect_log_eq_iff ih hne hdisconnect).mpr hrule

/-- **The maintained and the rebuilt log.** Suppose the genesis block has no entry.
* In every history whose steps are steady, the log is the one the rebuild makes for the present tip.
* A connection keeps the two equal exactly if the cap is active at the block, or the block that
  leaves the two windows has no entry.
* A disconnection does exactly if the block that comes back into them has none. -/
theorem rebuilt_log_eq (env : Env) (files : BlockFiles)
    (hwindow : env.params.nShieldedUnshieldVelocityWindowBlocks < 2 ^ 30)
    (hgenesis : env.params.isShieldedUnshieldVelocityCapActive 0 = false)
    (hfiles : ∀ d, files.available d = true ∧ files.readable d = true) :
    (∀ chain s peak, History env (steadySteps env) chain s peak →
      rebuildRecentShieldedUnshieldVelocity env files chain = .ok s.velocity) ∧
    (∀ rules chain s peak, History env rules chain s peak →
      rebuildRecentShieldedUnshieldVelocity env files chain = .ok s.velocity →
      ∀ ctx coins coins' block s' undo, ctx.height = chain.length →
        connectBlock env ctx ⟨coins, s⟩ block = .ok (⟨coins', s'⟩, undo) →
        (rebuildRecentShieldedUnshieldVelocity env files (⟨block, ctx.height, undo⟩ :: chain) =
            .ok s'.velocity ↔
          (steadySteps env).connect ctx.height)) ∧
    (∀ rules c chain s peak, History env rules (c :: chain) s peak →
      rebuildRecentShieldedUnshieldVelocity env files (c :: chain) = .ok s.velocity →
      ∀ s', chain ≠ [] → disconnectBlock env c.height c.block c.undo s = some s' →
        (rebuildRecentShieldedUnshieldVelocity env files chain = .ok s'.velocity ↔
          (steadySteps env).disconnect c.height peak)) := by
  refine ⟨fun chain s peak h => ?_, ?_, ?_⟩
  · rw [h.rebuild_eq hwindow fun d _ => hfiles d, h.log_eq_of_steady hwindow hgenesis]
  · intro rules chain s peak h hlog ctx coins coins' block s' undo hheight hconnect
    rw [h.rebuild_eq hwindow fun d _ => hfiles d] at hlog
    have hnext := (h.toAny.connect hheight trivial hconnect).rebuild_eq hwindow
      fun d _ => hfiles d
    rw [hnext, ← h.connect_log_eq_iff hwindow (Except.ok.inj hlog).symm hheight hconnect]
    exact ⟨fun heq => (Except.ok.inj heq).symm, fun heq => congrArg Except.ok heq.symm⟩
  · intro rules c chain s peak h hlog s' hne hdisconnect
    rw [h.rebuild_eq hwindow fun d _ => hfiles d] at hlog
    have hnext := (h.toAny.disconnect hne trivial hdisconnect).rebuild_eq hwindow
      fun d _ => hfiles d
    rw [hnext, ← h.disconnect_log_eq_iff (Except.ok.inj hlog).symm hne hdisconnect]
    exact ⟨fun heq => (Except.ok.inj heq).symm, fun heq => congrArg Except.ok heq.symm⟩

end Rebuild

/-! ## Blocks without bundles -/

/-- Every block can be read. -/
def allFiles : BlockFiles := ⟨fun _ => true, fun _ => true⟩

/-- The entry of block 1 in the maintained and in the rebuilt log. -/
def firstEntries (env : Env) (moves : List Move) : Option (Option CAmount × Option CAmount) := do
  let st ← applyMoves env moves
  let rebuilt ← (rebuildRecentShieldedUnshieldVelocity env allFiles st.1).toOption
  pure (st.2.velocity.egress 1, rebuilt.egress 1)

theorem firstEntries_eq_some {env : Env} {moves : List Move} {maintained rebuilt : Option CAmount}
    (h : firstEntries env moves = some (maintained, rebuilt)) :
    ∃ chain s v, applyMoves env moves = some (chain, s) ∧
      rebuildRecentShieldedUnshieldVelocity env allFiles chain = .ok v ∧
      s.velocity.egress 1 = maintained ∧ v.egress 1 = rebuilt := by
  simp only [firstEntries, bind_eq_bind, bind_eq_some_iff, Option.pure_def,
    some.injEq, toOption_eq_some, Prod.mk.injEq] at h
  obtain ⟨⟨chain, s⟩, hmoves, v, hrebuild, hmaintained, hrebuilt⟩ := h
  exact ⟨chain, s, v, hmoves, hrebuild, hmaintained, hrebuilt⟩

/-- Three blocks connected with the cap active: the two logs are equal. -/
theorem rebuilt_log_of_three_blocks :
    ∃ chain s, applyMoves (capEnv 1 1) (List.replicate 3 (.connect (plainBlock 6))) =
        some (chain, s) ∧
      s.velocity.egress 1 = some 0 ∧
      rebuildRecentShieldedUnshieldVelocity (capEnv 1 1) allFiles chain = .ok s.velocity := by
  have hentries : firstEntries (capEnv 1 1) (List.replicate 3 (.connect (plainBlock 6))) =
      some (some 0, some 0) := by decide
  obtain ⟨chain, s, -, hmoves, -, hfirst, -⟩ := firstEntries_eq_some hentries
  have hgenesis : History (capEnv 1 1) (steadySteps (capEnv 1 1)) [sampleGenesis] .empty 0 :=
    .start rfl (by decide)
  have hactive : ∀ height < 3,
      (capEnv 1 1).params.isShieldedUnshieldVelocityCapActive (height + 1) = true := by decide
  have hsteady : ∀ height < 4, (steadySteps (capEnv 1 1)).connect height := by
    intro height hlt
    cases height with
    | zero => exact .inr fun h hedge => absurd hedge (Nat.succ_ne_zero _)
    | succ height => exact .inl (hactive height (by omega))
  obtain ⟨peak, hhistory⟩ : ∃ peak, History (capEnv 1 1) _ chain s peak := by
    refine hgenesis.applyMoves ?_ ?_ hmoves
    · exact hsteady
    · exact fun hmem => absurd hmem (by simp)
  exact ⟨chain, s, hmoves, hfirst,
    (rebuilt_log_eq (capEnv 1 1) allFiles (by decide) (by decide) fun _ => ⟨rfl, rfl⟩).1
      chain s peak hhistory⟩

/-- With a window of one block: four blocks are connected and the last one is taken off. Block 1 was
dropped when block 4 came and is not in the maintained log; the log rebuilt for block 3 has its
entry. -/
theorem rebuilt_log_differs_after_disconnect : ∃ chain s peak v,
      applyMoves (capEnv 1 1) (List.replicate 4 (.connect (plainBlock 6)) ++ [.disconnect]) =
        some (chain, s) ∧
      History (capEnv 1 1) .any chain s peak ∧
      rebuildRecentShieldedUnshieldVelocity (capEnv 1 1) allFiles chain = .ok v ∧
      s.velocity.egress 1 = none ∧ v.egress 1 = some 0 := by
  have hentries : firstEntries (capEnv 1 1)
      (List.replicate 4 (.connect (plainBlock 6)) ++ [.disconnect]) = some (none, some 0) := by
    decide
  obtain ⟨chain, s, v, hmoves, hrebuild, hmaintained, hrebuilt⟩ := firstEntries_eq_some hentries
  have hgenesis : History (capEnv 1 1) .any [sampleGenesis] .empty 0 := .start rfl (by decide)
  obtain ⟨peak, hhistory⟩ := hgenesis.applyMoves (fun _ _ => trivial) (fun _ _ _ => trivial) hmoves
  exact ⟨chain, s, peak, v, hmoves, hhistory, hrebuild, hmaintained, hrebuilt⟩

end Btx.Validation
