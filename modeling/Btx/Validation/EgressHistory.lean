/-
# The velocity log along the active chain

`ConnectBlock` writes the entry of a block while the cap is active and drops entries more than two
windows below it; `DisconnectBlock` restores nothing. So the log is right about a block of the
active chain as long as no block more than two windows above was connected since (`History.agrees`);
the height of the highest tip, `peak`, says how much was dropped.
-/

import Btx.Validation.Run

namespace Btx.Validation

open Util Shielded ShieldedUnshieldVelocity List
open Option (bind_eq_bind bind_eq_some_iff some.injEq some.inj)

/-! ## Histories -/

section History

variable (env : Env)

/-- What left the pool with a block, on balance. -/
def netEgress (block : CBlock) : CAmount := max 0 (stateValueBalances env.codec block.vtx).sum

/-- What the log is to hold for a block of the active chain. -/
def loggedEgress (c : Connection) : CAmount :=
  if env.params.isShieldedUnshieldVelocityCapActive c.height then netEgress env c.block else 0

/-- Conditions on the steps of a history: on the height of a connected block, and on the height of a
disconnected block and that of the highest tip so far. -/
structure StepRules where
  connect : ℕ → Prop
  disconnect : ℕ → ℕ → Prop

/-- Any steps. -/
def StepRules.any : StepRules := ⟨fun _ => True, fun _ _ => True⟩

/-- The tip never falls more than `depth` blocks below the highest one. -/
def StepRules.reorgDepth (depth : ℕ) : StepRules :=
  ⟨fun _ => True, fun height peak => peak < height + depth⟩

/-- Histories of connections and disconnections from the genesis block on: the active chain, the
shielded state, and the height of the highest tip so far. -/
inductive History (rules : StepRules) : List Connection → ShieldedState env.merkle → ℕ → Prop
  | start {genesis : Connection} (hheight : genesis.height = 0)
      (hbundle : ∀ tx ∈ genesis.block.vtx, tx.hasShieldedBundle = false) :
      History rules [genesis] .empty 0
  | connect {chain : List Connection} {s s' : ShieldedState env.merkle} {peak : ℕ}
      {ctx : BlockContext} {coins coins' : CoinsView} {block : CBlock} {undo : BlockUndo}
      (h : History rules chain s peak) (hheight : ctx.height = chain.length)
      (hrule : rules.connect ctx.height)
      (hconnect : connectBlock env ctx ⟨coins, s⟩ block = .ok (⟨coins', s'⟩, undo)) :
      History rules (⟨block, ctx.height, undo⟩ :: chain) s' (max peak ctx.height)
  | disconnect {c : Connection} {chain : List Connection} {s s' : ShieldedState env.merkle}
      {peak : ℕ} (h : History rules (c :: chain) s peak) (hne : chain ≠ [])
      (hrule : rules.disconnect c.height peak)
      (hdisconnect : disconnectBlock env c.height c.block c.undo s = some s') :
      History rules chain s' peak

end History

/-- The heights of a chain, last block first, go down to the genesis block. -/
def Consecutive : List Connection → Prop
  | [] => True
  | c :: chain => c.height = chain.length ∧ Consecutive chain

theorem Consecutive.height_lt {chain : List Connection} (h : Consecutive chain) {c : Connection}
    (hc : c ∈ chain) : c.height < chain.length := by
  induction chain with
  | nil => cases hc
  | cons d chain ih =>
    rw [length_cons]
    rcases mem_cons.mp hc with rfl | hc
    · have := h.1
      omega
    · have := ih h.2 hc
      omega

theorem Consecutive.le_height_of_mem_take {chain : List Connection} (h : Consecutive chain) {n : ℕ}
    {c : Connection} (hc : c ∈ chain.take n) : chain.length ≤ c.height + n := by
  induction chain generalizing n with
  | nil => simp at hc
  | cons d chain ih =>
    cases n with
    | zero => simp at hc
    | succ n =>
      rw [take_succ_cons] at hc
      rw [length_cons]
      rcases mem_cons.mp hc with rfl | hc
      · have := h.1
        omega
      · have := ih h.2 hc
        omega

section Log

variable {env : Env} {rules : StepRules} {peak : ℕ} {chain : List Connection}
  {s s' : ShieldedState env.merkle}
  {ctx : BlockContext} {block : CBlock}

section

variable (h : History env rules chain s peak)

include h

theorem History.consecutive : Consecutive chain := by
  induction h with
  | start hheight => exact ⟨hheight, trivial⟩
  | connect _ hheight _ _ ih => exact ⟨hheight, ih⟩
  | disconnect _ _ _ _ ih => exact ih.2

theorem History.ne_nil : chain ≠ [] := by
  cases h with
  | start | connect => exact cons_ne_nil _ _
  | disconnect _ hne => exact hne

theorem History.toAny : History env .any chain s peak := by
  induction h with
  | start hheight hbundle => exact .start hheight hbundle
  | connect _ hheight _ hconnect ih => exact ih.connect hheight trivial hconnect
  | disconnect _ hne _ hdisconnect ih => exact ih.disconnect hne trivial hdisconnect

end

theorem History.peak_lt {depth : ℕ} (h : History env (.reorgDepth depth) chain s peak) :
    peak < chain.length + depth := by
  induction h with
  | start => simp
  | connect _ hheight _ _ ih =>
    rw [length_cons]
    omega
  | disconnect h _ hrule _ _ =>
    have hheight := h.consecutive.1
    rw [hheight] at hrule
    exact hrule

/-! ## What a step does to the log -/

theorem netEgress_eq {p q : ShieldedPoolBalance}
    (hpool : connectPool env.codec block.vtx p = .ok q) :
    (if q.balance < p.balance then p.balance - q.balance else 0) = netEgress env block := by
  have hbalance := connectPool_balance hpool
  rw [netEgress]
  split
  case isTrue hlt => rw [max_eq_right (by linarith), hbalance]; ring
  case isFalse hge => rw [max_eq_left (by linarith)]

theorem netEgress_nonneg (block : CBlock) : 0 ≤ netEgress env block := le_max_left _ _

variable (env) in
/-- The total that `ConnectBlock` compares with the cap. -/
def comparedTotal (ctx : BlockContext) (s : ShieldedState env.merkle)
    (poolEnd : ShieldedPoolBalance) : CAmount :=
  (s.velocity.recordBlock ctx.height
    (if poolEnd.balance < s.pool.balance then s.pool.balance - poolEnd.balance else 0)).windowTotal
    ctx.height env.params.nShieldedUnshieldVelocityWindowBlocks

theorem nextVelocity_compares (hactive : env.params.isShieldedUnshieldVelocityCapActive ctx.height)
    (poolEnd : ShieldedPoolBalance) :
    nextVelocity env ctx s poolEnd = .error "shielded-unshield-velocity-exceeded" ↔
      ShieldedUnshieldVelocity.windowCap s.pool.balance env.params.nShieldedUnshieldVelocityCapBps
        (env.params.shieldedUnshieldVelocityMinCapForHeight ctx.height) <
        comparedTotal env ctx s poolEnd := by
  rw [nextVelocity, hactive, ← not_le, comparedTotal]
  simp only [ShieldedUnshieldVelocity.withinCap, Bool.not_true, Bool.false_eq_true, if_false,
    decide_eq_true_eq]
  generalize (if poolEnd.balance < s.pool.balance then s.pool.balance - poolEnd.balance else 0) =
    egress
  split
  case isTrue hle =>
    refine ⟨fun h => ?_, fun h => absurd hle h⟩
    cases h
  case isFalse hnle => exact ⟨fun _ => hnle, fun _ => rfl⟩

variable (env) in
/-- The log with one more block. -/
def logBlock (v : ShieldedUnshieldVelocity) (height : ℕ) (block : CBlock) :
    ShieldedUnshieldVelocity :=
  if env.params.isShieldedUnshieldVelocityCapActive height then
    (v.recordBlock height (netEgress env block)).prune
      (ShieldedUnshieldVelocity.keepFromHeight height
        env.params.nShieldedUnshieldVelocityWindowBlocks)
  else v

variable {height : ℕ} {v : ShieldedUnshieldVelocity} {poolEnd : ShieldedPoolBalance}
  {undo : BlockUndo} {c : Connection}

variable (hwindow : env.params.nShieldedUnshieldVelocityWindowBlocks < 2 ^ 30)

include hwindow in
theorem logBlock_active (hactive : env.params.isShieldedUnshieldVelocityCapActive height) (h : ℕ) :
    (logBlock env v height block).egress h =
      if h + 2 * env.params.nShieldedUnshieldVelocityWindowBlocks < height then none
      else if h = height then some (netEgress env block) else v.egress h := by
  rw [logBlock, if_pos hactive, keepFromHeight_eq hwindow, prune_egress,
    recordBlock_egress _ _ _ (netEgress_nonneg block)]
  exact if_congr (by omega) rfl rfl

theorem logBlock_inactive (hinactive : ¬ env.params.isShieldedUnshieldVelocityCapActive height) :
    logBlock env v height block = v := by
  rw [logBlock, if_neg hinactive]

theorem nextVelocity_eq_logBlock (hpool : connectPool env.codec block.vtx s.pool = .ok poolEnd)
    (h : nextVelocity env ctx s poolEnd = .ok v) :
    v = logBlock env s.velocity ctx.height block := by
  rw [nextVelocity] at h
  rw [logBlock]
  split at h
  case isTrue hinactive =>
    rw [if_neg (by simpa using hinactive)]
    exact (pure_eq_ok.mp h).symm
  case isFalse hactive =>
    rw [if_pos (by simpa using hactive)]
    simp only [netEgress_eq hpool] at h
    split at h
    · exact (pure_eq_ok.mp h).symm
    · cases h

theorem disconnectBlock_velocity (h : disconnectBlock env height block undo s = some s') :
    s'.velocity = if env.params.isShieldedUnshieldVelocityCapActive height then
      s.velocity.undoBlock height else s.velocity := by
  unfold disconnectBlock at h
  split at h
  case isTrue =>
    simp only [undoShielded, bind_eq_bind, bind_eq_some_iff, Option.pure_def, some.injEq] at h
    obtain ⟨ds, -, pool, -, _, -, _, -, _, -, s₁, -, rfl⟩ := h
    rfl
  case isFalse he =>
    cases h
    simp only [enforcesShielded, Bool.or_eq_true, not_or] at he
    rw [if_neg he.2]

/-! ## What the log holds -/

variable (env) in
/-- The log holds entries of the active chain only, and all of those above the genesis block that
are not more than two windows below the highest tip. -/
structure LogAgrees (chain : List Connection) (v : ShieldedUnshieldVelocity) (peak : ℕ) : Prop where
  present : ∀ c ∈ chain, 0 < c.height → env.params.isShieldedUnshieldVelocityCapActive c.height →
    peak ≤ c.height + 2 * env.params.nShieldedUnshieldVelocityWindowBlocks →
    v.egress c.height = some (netEgress env c.block)
  only : ∀ h e, v.egress h = some e → ∃ c ∈ chain, c.height = h ∧
    env.params.isShieldedUnshieldVelocityCapActive h ∧ e = netEgress env c.block

include hwindow in
/-- Connecting adds the block's own entry and prunes only what is two windows old. -/
theorem LogAgrees.connect (hchain : Consecutive chain) (h : LogAgrees env chain s.velocity peak)
    (hheight : ctx.height = chain.length)
    (hpool : connectPool env.codec block.vtx s.pool = .ok poolEnd)
    (hnext : nextVelocity env ctx s poolEnd = .ok v) :
    LogAgrees env (⟨block, ctx.height, undo⟩ :: chain) v (max peak ctx.height) := by
  obtain rfl := nextVelocity_eq_logBlock hpool hnext
  by_cases hactive : env.params.isShieldedUnshieldVelocityCapActive ctx.height
  · refine ⟨fun c hc hpos hcactive hpeak => ?_, fun h' e he => ?_⟩
    · rw [logBlock_active hwindow hactive, if_neg (by omega)]
      rcases mem_cons.mp hc with rfl | hc
      · rw [if_pos rfl]
      · have hlt := hchain.height_lt hc
        rw [if_neg (by omega)]
        exact h.present c hc hpos hcactive (by omega)
    · rw [logBlock_active hwindow hactive] at he
      split at he
      · cases he
      · split at he
        case isTrue heq =>
          subst heq
          exact ⟨_, mem_cons_self, rfl, hactive, (some.inj he).symm⟩
        case isFalse =>
          obtain ⟨c, hc, hrest⟩ := h.only h' e he
          exact ⟨c, mem_cons_of_mem _ hc, hrest⟩
  · rw [logBlock_inactive hactive]
    refine ⟨fun c hc hpos hcactive hpeak => ?_, fun h' e he => ?_⟩
    · rcases mem_cons.mp hc with rfl | hc
      · exact absurd hcactive hactive
      · exact h.present c hc hpos hcactive (by omega)
    · obtain ⟨c, hc, hrest⟩ := h.only h' e he
      exact ⟨c, mem_cons_of_mem _ hc, hrest⟩

/-- Disconnecting takes out the entry of the last block alone. -/
theorem LogAgrees.disconnect (hchain : Consecutive (c :: chain))
    (h : LogAgrees env (c :: chain) s.velocity peak)
    (hdisconnect : disconnectBlock env c.height c.block c.undo s = some s') :
    LogAgrees env chain s'.velocity peak := by
  have hbelow : ∀ c' ∈ chain, c'.height ≠ c.height := by
    intro c' hc'
    have := hchain.2.height_lt hc'
    have := hchain.1
    omega
  rw [disconnectBlock_velocity hdisconnect]
  split
  case isTrue hactive =>
    refine ⟨fun c' hc' hpos hactive' hpeak => ?_, fun h' e he => ?_⟩
    · rw [undoBlock_egress, if_neg (hbelow c' hc')]
      exact h.present c' (mem_cons_of_mem _ hc') hpos hactive' hpeak
    · rw [undoBlock_egress] at he
      split at he
      · cases he
      case isFalse heq =>
        obtain ⟨c', hc', hrest⟩ := h.only h' e he
        rcases mem_cons.mp hc' with rfl | hc'
        · exact absurd hrest.1.symm heq
        · exact ⟨c', hc', hrest⟩
  case isFalse hinactive =>
    refine ⟨fun c' hc' => h.present c' (mem_cons_of_mem _ hc'), fun h' e he => ?_⟩
    obtain ⟨c', hc', hheight, hactive', hrest⟩ := h.only h' e he
    rcases mem_cons.mp hc' with rfl | hc'
    · rw [hheight] at hinactive
      exact absurd hactive' hinactive
    · exact ⟨c', hc', hheight, hactive', hrest⟩

include hwindow in
theorem History.agrees
    (h : History env rules chain s peak) : LogAgrees env chain s.velocity peak := by
  induction h with
  | @start genesis hheight hbundle =>
    refine ⟨fun c hc hpos => ?_, fun h e he => nomatch he⟩
    rw [mem_singleton.mp hc, hheight] at hpos
    exact absurd hpos (lt_irrefl 0)
  | connect h hheight _ hconnect ih =>
    obtain ⟨acc, ds, hconn⟩ := connectBlock_connected hconnect
    exact ih.connect hwindow h.consecutive hheight hconn.connectPool hconn.velocity
  | disconnect h _ _ hdisconnect ih => exact ih.disconnect h.consecutive hdisconnect

theorem History.genesis_netEgress (h : History env rules chain s peak)
    (hc : c ∈ chain) (hzero : c.height = 0) : netEgress env c.block = 0 := by
  induction h with
  | @start genesis _ hbundle =>
    rw [mem_singleton.mp hc]
    rw [netEgress, stateValueBalances_eq_nil hbundle]
    rfl
  | connect h hheight _ _ ih =>
    rcases mem_cons.mp hc with rfl | hc
    · have := length_pos_of_ne_nil h.ne_nil
      simp only at hzero
      omega
    · exact ih hc
  | disconnect _ _ _ _ ih => exact ih (mem_cons_of_mem _ hc)

/-! ## The window total -/

/-- The saturating loop is the capped sum of the window. -/
theorem windowLoop_eq {f : Connection → CAmount}
    (hpos : ∀ c, 0 ≤ f c) (hchain : Consecutive (c :: chain)) {n : ℕ}
    (hlog : ∀ c' ∈ (c :: chain).take n, (v.egress c'.height).getD 0 = f c') {total : CAmount}
    (htotal : total < maxMoney) :
    v.windowLoop n c.height total = min maxMoney (total + (((c :: chain).take n).map f).sum) := by
  -- along the chain, with the sum so far in `total`
  induction chain generalizing c n total with
  | nil =>
    cases n with
    | zero => simpa [ShieldedUnshieldVelocity.windowLoop] using htotal.le
    | succ n =>
      have hfirst := hlog c (by simp)
      have hsum : (((c :: []).take (n + 1)).map f).sum = f c := by simp
      rw [hsum, ← hfirst]
      rcases le_or_gt maxMoney (total + (v.egress c.height).getD 0) with hfull | hroom
      · rw [min_eq_left hfull, windowLoop_saturated htotal hfull]
      · rw [hchain.1, length_nil] at hroom ⊢
        rw [min_eq_right hroom.le, windowLoop_zero hroom]
  | cons d chain ih =>
    cases n with
    | zero => simpa [ShieldedUnshieldVelocity.windowLoop] using htotal.le
    | succ n =>
      have hfirst := hlog c (by simp)
      have hrest : 0 ≤ (((d :: chain).take n).map f).sum :=
        sum_nonneg fun x hx => by
          obtain ⟨c', -, rfl⟩ := mem_map.mp hx
          exact hpos c'
      rw [take_succ_cons, map_cons, sum_cons, ← add_assoc, ← hfirst]
      rcases le_or_gt maxMoney (total + (v.egress c.height).getD 0) with hfull | hroom
      · rw [min_eq_left (by linarith), windowLoop_saturated htotal hfull]
      · have hnext := ih hchain.2 (fun c' hc' => hlog c' (by
          rw [take_succ_cons]
          exact mem_cons_of_mem _ hc')) hroom
        have hheight : c.height = d.height + 1 := by
          rw [hchain.1, hchain.2.1, length_cons]
        rw [hheight] at hroom hnext ⊢
        rw [windowLoop_succ hroom, hnext]

variable (c) in
theorem loggedEgress_nonneg : 0 ≤ loggedEgress env c := by
  rw [loggedEgress]
  split
  · exact netEgress_nonneg c.block
  · exact le_rfl

include hwindow in
theorem History.log_eq (h : History env rules chain s peak) (hc : c ∈ chain)
    (hpeak : peak ≤ c.height + 2 * env.params.nShieldedUnshieldVelocityWindowBlocks) :
    (s.velocity.egress c.height).getD 0 = loggedEgress env c := by
  have hagrees := h.agrees hwindow
  rw [loggedEgress]
  split
  case isTrue hactive =>
    rcases Nat.eq_zero_or_pos c.height with hzero | hpos
    · rw [h.genesis_netEgress hc hzero]
      cases hentry : s.velocity.egress c.height with
      | none => rfl
      | some e =>
        obtain ⟨c', hc', hheight, -, rfl⟩ := hagrees.only _ _ hentry
        exact h.genesis_netEgress hc' (hheight.trans hzero)
    · rw [hagrees.present c hc hpos hactive hpeak]
      rfl
  case isFalse hinactive =>
    cases hentry : s.velocity.egress c.height with
    | none => rfl
    | some e =>
      obtain ⟨-, -, -, hactive, -⟩ := hagrees.only _ _ hentry
      exact absurd hactive hinactive

/-- **The window total.** In every history in which the tip never falls more than a window below the
highest one, the total that is compared with the cap is what left the pool with the active blocks of
the last `W` heights, this block included, at which the cap is active, up to `MAX_MONEY`. The block
is rejected for it exactly if that is more than the cap. -/
theorem compared_total_eq (hwindow : env.params.nShieldedUnshieldVelocityWindowBlocks < 2 ^ 30)
    (h : History env (.reorgDepth env.params.nShieldedUnshieldVelocityWindowBlocks) chain s peak)
    (hheight : ctx.height = chain.length)
    (hactive : env.params.isShieldedUnshieldVelocityCapActive ctx.height = true)
    (coins : CoinsView) (undo : BlockUndo) {loop : LoopState env.merkle}
    (hvalid : validateBlock env ctx ⟨coins, s⟩ block = .ok loop) :
    comparedTotal env ctx s loop.acc.pool =
        min maxMoney (((⟨block, ctx.height, undo⟩ :: chain).take
          env.params.nShieldedUnshieldVelocityWindowBlocks).map (loggedEgress env)).sum ∧
      (nextVelocity env ctx s loop.acc.pool = .error "shielded-unshield-velocity-exceeded" ↔
        ShieldedUnshieldVelocity.windowCap s.pool.balance env.params.nShieldedUnshieldVelocityCapBps
          (env.params.shieldedUnshieldVelocityMinCapForHeight ctx.height) <
          min maxMoney (((⟨block, ctx.height, undo⟩ :: chain).take
            env.params.nShieldedUnshieldVelocityWindowBlocks).map (loggedEgress env)).sum) := by
  have htotal : comparedTotal env ctx s loop.acc.pool =
      min maxMoney (((⟨block, ctx.height, undo⟩ :: chain).take
        env.params.nShieldedUnshieldVelocityWindowBlocks).map (loggedEgress env)).sum := by
    obtain ⟨-, hloop, -⟩ := validateBlock_ok hvalid
    obtain ⟨-, -, -, hpool⟩ := connectTxs_extends hloop
    have hegress : (if loop.acc.pool.balance < s.pool.balance then
        s.pool.balance - loop.acc.pool.balance else 0) = netEgress env block := netEgress_eq hpool
    have hchain : Consecutive (⟨block, ctx.height, undo⟩ :: chain) := ⟨hheight, h.consecutive⟩
    have hpos : (0 : CAmount) < maxMoney := by decide
    have hlog : ∀ c ∈ (⟨block, ctx.height, undo⟩ :: chain : List Connection).take
        env.params.nShieldedUnshieldVelocityWindowBlocks,
        ((s.velocity.recordBlock ctx.height (netEgress env block)).egress c.height).getD 0 =
          loggedEgress env c := by
      intro c hc
      have hlow := hchain.le_height_of_mem_take hc
      rw [length_cons] at hlow
      rw [recordBlock_egress _ _ _ (netEgress_nonneg block)]
      rcases mem_cons.mp (mem_of_mem_take hc) with rfl | hold
      · rw [if_pos rfl, loggedEgress, if_pos hactive]
        rfl
      · have hlt := h.consecutive.height_lt hold
        have hpeak := h.peak_lt
        rw [if_neg (by omega)]
        exact h.log_eq hwindow hold (by omega)
    have hwalk := windowLoop_eq loggedEgress_nonneg hchain hlog hpos
    rw [zero_add] at hwalk
    rw [comparedTotal, hegress]
    exact hwalk
  refine ⟨htotal, ?_⟩
  rw [nextVelocity_compares hactive, htotal]

end Log

/-! ## Concrete histories -/

/-- The cap is the whole pool, over `window` blocks, from height `activation` on. -/
def capEnv (activation window : ℕ) : Env :=
  { sampleEnv with
    params :=
      { sampleParams with
        nShieldedUnshieldVelocityActivationHeight := activation
        nShieldedUnshieldVelocityCapBps := 10000
        nShieldedUnshieldVelocityWindowBlocks := window } }

/-- A block without bundles. -/
def plainBlock (hash : Uint256) : CBlock := ⟨[sampleCoinbase hash]⟩

def sampleGenesis : Connection := ⟨plainBlock 1, 0, ⟨[], []⟩⟩

/-- A step of a concrete history. -/
inductive Move where
  | connect (block : CBlock)
  | disconnect

/-- One step from the active chain and the shielded state. The coins are those `depositBlock`
needs. -/
def applyMove (env : Env) (st : List Connection × ShieldedState env.merkle) :
    Move → Option (List Connection × ShieldedState env.merkle)
  | .connect block => do
      let r ← (connectBlock env (sampleContext st.1.length) ⟨depositCoins, st.2⟩ block).toOption
      pure (⟨block, st.1.length, r.2⟩ :: st.1, r.1.shielded)
  | .disconnect =>
      match st.1 with
      | c :: d :: chain => do
          let s ← disconnectBlock env c.height c.block c.undo st.2
          pure (d :: chain, s)
      | _ => none

def applyMoves (env : Env) (moves : List Move) :
    Option (List Connection × ShieldedState env.merkle) :=
  moves.foldlM (applyMove env) ([sampleGenesis], .empty)

/-- A run of moves extends a history. -/
theorem History.applyMoves {env : Env} {rules : StepRules} {moves : List Move}
    {chain chain' : List Connection} {s s' : ShieldedState env.merkle} {peak : ℕ}
    (h : History env rules chain s peak)
    (hconnects : ∀ height < chain.length + moves.length, rules.connect height)
    (hdisconnects : .disconnect ∈ moves → ∀ height peak, rules.disconnect height peak)
    (hmoves : moves.foldlM (applyMove env) (chain, s) = some (chain', s')) :
    ∃ peak', History env rules chain' s' peak' := by
  induction moves generalizing chain s peak with
  | nil =>
    cases hmoves
    exact ⟨peak, h⟩
  | cons move moves ih =>
    rw [foldlM_cons, bind_eq_bind, bind_eq_some_iff] at hmoves
    obtain ⟨⟨chain₁, s₁⟩, hfirst, hrest⟩ := hmoves
    have hdisconnects' : .disconnect ∈ moves → ∀ height peak, rules.disconnect height peak :=
      fun hmem => hdisconnects (mem_cons_of_mem _ hmem)
    cases move with
    | connect block =>
      simp only [applyMove, bind_eq_bind, bind_eq_some_iff, Option.pure_def,
        some.injEq, toOption_eq_some] at hfirst
      obtain ⟨⟨⟨coins', s₂⟩, undo⟩, hconnect, heq⟩ := hfirst
      cases heq
      have hnext : History env rules (⟨block, (sampleContext chain.length).height, undo⟩ :: chain)
          s₂ _ := h.connect rfl (hconnects _ (by simp [sampleContext])) hconnect
      refine ih hnext (fun height hlt => hconnects height ?_) hdisconnects' hrest
      simp only [length_cons] at hlt ⊢
      omega
    | disconnect =>
      rw [applyMove] at hfirst
      split at hfirst
      case h_1 c d chain₂ hchain =>
        simp only at hchain
        subst hchain
        simp only [bind_eq_bind, bind_eq_some_iff, Option.pure_def, some.injEq] at hfirst
        obtain ⟨s₂, hdisconnect, heq⟩ := hfirst
        cases heq
        have hnext := h.disconnect (cons_ne_nil _ _)
          (hdisconnects mem_cons_self _ _) hdisconnect
        refine ih hnext (fun height hlt => hconnects height ?_) hdisconnects' hrest
        simp only [length_cons] at hlt ⊢
        omega
      case h_2 => cases hfirst

/-- For a plain block after the moves: the total that is compared, and the sum over all active
blocks of the window. -/
def windowReport (env : Env) (moves : List Move) : Option (CAmount × CAmount) := do
  let st ← applyMoves env moves
  let ctx := sampleContext st.1.length
  let loop ← (validateBlock env ctx ⟨depositCoins, st.2⟩ (plainBlock 6)).toOption
  pure (comparedTotal env ctx st.2 loop.acc.pool,
    min maxMoney (((⟨plainBlock 6, ctx.height, ⟨[], []⟩⟩ :: st.1).take
      env.params.nShieldedUnshieldVelocityWindowBlocks).map fun c => netEgress env c.block).sum)

/-- Ten in, and four out. -/
def depositAndWithdraw : List Move := [.connect depositBlock, .connect withdrawBlock]

/-- Two blocks off and one on. -/
def twoDownOneUp : List Move := [.disconnect, .disconnect, .connect (plainBlock 7)]

theorem windowReport_eq_some {env : Env} {moves : List Move} {total sum : CAmount}
    (h : windowReport env moves = some (total, sum)) :
    ∃ chain s loop, applyMoves env moves = some (chain, s) ∧
      validateBlock env (sampleContext chain.length) ⟨depositCoins, s⟩ (plainBlock 6) = .ok loop ∧
      comparedTotal env (sampleContext chain.length) s loop.acc.pool = total := by
  simp only [windowReport, bind_eq_bind, bind_eq_some_iff, Option.pure_def,
    some.injEq, toOption_eq_some, Prod.mk.injEq] at h
  obtain ⟨⟨chain, s⟩, hmoves, loop, hvalid, htotal, -⟩ := h
  exact ⟨chain, s, loop, hmoves, hvalid, htotal⟩

/-- With the cap active all along, the withdrawal is counted. -/
theorem compared_total_after_withdraw : ∃ chain s peak loop,
      applyMoves (capEnv 1 10) depositAndWithdraw = some (chain, s) ∧
      History (capEnv 1 10) (.reorgDepth 10) chain s peak ∧
      validateBlock (capEnv 1 10) (sampleContext chain.length) ⟨depositCoins, s⟩ (plainBlock 6) =
        .ok loop ∧
      comparedTotal (capEnv 1 10) (sampleContext chain.length) s loop.acc.pool = 4 ∧
      min maxMoney (((⟨plainBlock 6, chain.length, ⟨[], []⟩⟩ :: chain).take 10).map
        (loggedEgress (capEnv 1 10))).sum = 4 := by
  have hreport : windowReport (capEnv 1 10) depositAndWithdraw = some (4, 4) := by decide
  have hlength : (applyMoves (capEnv 1 10) depositAndWithdraw).map (·.1.length) = some 3 := by
    decide
  obtain ⟨chain, s, loop, hmoves, hvalid, htotal⟩ := windowReport_eq_some hreport
  rw [hmoves] at hlength
  have hactive : (capEnv 1 10).params.isShieldedUnshieldVelocityCapActive chain.length = true := by
    rw [show chain.length = 3 from some.inj hlength]
    decide
  have hgenesis : History (capEnv 1 10) (.reorgDepth 10) [sampleGenesis] .empty 0 :=
    .start rfl (by decide)
  obtain ⟨peak, hhistory⟩ := hgenesis.applyMoves (fun _ _ => trivial)
    (fun hmem => absurd hmem (by simp [depositAndWithdraw])) hmoves
  have hsum := (compared_total_eq (by decide) hhistory rfl hactive depositCoins ⟨[], []⟩ hvalid).1
  exact ⟨chain, s, peak, loop, hmoves, hhistory, hvalid, htotal, hsum.symm.trans htotal⟩

/-- The sum over all active blocks of the window is not what is compared:
* a withdrawal below the activation height is not counted;
* with a window of `2 ^ 32 - 1` blocks, which `static_cast<int32_t>` turns into `-1`, every `Prune`
  empties the log;
* after four reorganisations of depth two that end below where they began, with a window of two
  blocks, the entry of a withdrawal is gone. -/
theorem compared_total_misses_withdrawal :
    let missed (env : Env) (rules : StepRules) (moves : List Move) : Prop :=
      windowReport env moves = some (0, 4) ∧
        ∃ chain s peak, applyMoves env moves = some (chain, s) ∧ History env rules chain s peak
    missed (capEnv 3 10) (.reorgDepth 10) depositAndWithdraw ∧
      missed (capEnv 1 4294967295) (.reorgDepth 4294967295) depositAndWithdraw ∧
      missed (capEnv 1 2) .any (depositAndWithdraw ++ List.replicate 5 (.connect (plainBlock 6)) ++
        twoDownOneUp ++ twoDownOneUp ++ twoDownOneUp ++ [.disconnect, .disconnect]) := by
  intro missed
  have hmissed : ∀ env rules moves, windowReport env moves = some (0, 4) →
      (∀ height, rules.connect height) →
      (.disconnect ∈ moves → ∀ height peak, rules.disconnect height peak) →
      missed env rules moves := by
    intro env rules moves hreport hconnects hdisconnects
    obtain ⟨chain, s, -, hmoves, -⟩ := windowReport_eq_some hreport
    have hgenesis : History env rules [sampleGenesis] .empty 0 := .start rfl (by decide)
    obtain ⟨peak, hhistory⟩ :=
      hgenesis.applyMoves (fun height _ => hconnects height) hdisconnects hmoves
    exact ⟨hreport, chain, s, peak, hmoves, hhistory⟩
  refine ⟨hmissed _ _ _ (by decide) (fun _ => trivial) ?_,
    hmissed _ _ _ (by decide) (fun _ => trivial) ?_,
    hmissed _ _ _ (by decide) (fun _ => trivial) fun _ _ _ => trivial⟩
  all_goals exact fun hmem => absurd hmem (by simp [depositAndWithdraw])

end Btx.Validation
