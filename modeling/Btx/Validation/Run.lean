/-
# Runs of connections and disconnections

A run starts from the empty shielded state, connects accepted blocks and disconnects the last
connected one, in any order. The active chain is a list, last block first. The coins view, the
height and every verdict that is not modelled are arbitrary at each connection.
-/

import Btx.Validation.Accepted

namespace Btx.Validation

open Util Shielded ShieldedState List Option

/-- A block of the active chain, with what `DisconnectBlock` is given for it. -/
structure Connection where
  block : CBlock
  height : ℕ
  undo : BlockUndo

/-- The active chain and the shielded state that a run can reach. -/
inductive Run (env : Env) : List Connection → ShieldedState env.merkle → Prop
  | start : Run env [] .empty
  | connect {chain : List Connection} {s s' : ShieldedState env.merkle} {ctx : BlockContext}
      {coins coins' : CoinsView} {block : CBlock} {undo : BlockUndo} :
      Run env chain s → connectBlock env ctx ⟨coins, s⟩ block = .ok (⟨coins', s'⟩, undo) →
      Run env (⟨block, ctx.height, undo⟩ :: chain) s'
  | disconnect {c : Connection} {chain : List Connection} {s s' : ShieldedState env.merkle} :
      Run env (c :: chain) s → disconnectBlock env c.height c.block c.undo s = some s' →
      Run env chain s'

/-! ## What a block retires -/

/-- The nullifiers a transaction retires: those its bundle carries, and the one derived from a
recovery exit. -/
def txNullifiers (env : Env) (tx : CTransaction) : List Nullifier :=
  collectShieldedNullifiers tx.shieldedBundle ++
    ((recoveryExitIds env tx.shieldedBundle).getD []).map (·.nullifier)

/-- The nullifiers a block retires. -/
def blockNullifiers (env : Env) (block : CBlock) : List Nullifier :=
  (block.vtx.filter (·.hasShieldedBundle)).flatMap (txNullifiers env)

/-- The nullifiers the active chain retired. -/
def activeNullifiers (env : Env) (chain : List Connection) : List Nullifier :=
  chain.flatMap fun c => blockNullifiers env c.block

/-- The state value balances of the shielded transactions of the active chain. -/
def activeValueBalances (env : Env) (chain : List Connection) : List CAmount :=
  chain.flatMap fun c => stateValueBalances env.codec c.block.vtx

section Run

variable {env : Env} {ctx : BlockContext} {block : CBlock} {chain : List Connection}
  {s s' : ShieldedState env.merkle} {undo : BlockUndo} {height : ℕ}

theorem txUndoData_nullifiers {tx : CTransaction} {d : TxUndoData}
    (h : txUndoData env height tx = some d) : d.nullifiers = txNullifiers env tx := by
  simp only [txUndoData, bind_eq_bind, bind_eq_some_iff, Option.pure_def, some.injEq] at h
  obtain ⟨ids, hids, _, -, _, -, _, -, rfl⟩ := h
  simp [txNullifiers, hids]

variable {ds : List TxUndoData}

theorem blockUndoData_nullifiers (h : blockUndoData env height block = some ds) :
    ds.flatMap (·.nullifiers) = blockNullifiers env block :=
  flatMap_of_mapM_eq_some (fun _ _ => txUndoData_nullifiers) h

theorem Connected.blockNullifiers {acc : BlockAcc env.merkle}
    (h : Connected env ctx block s s' undo acc ds) :
    (blockNullifiers env block).Nodup ∧
      (∀ nf ∈ blockNullifiers env block, ¬nf.IsNull ∧ nf ∉ s.nullifiers) ∧
      s'.nullifiers = s.nullifiers ∪ (blockNullifiers env block).toFinset := by
  have hacc : acc.nullifiers = Validation.blockNullifiers env block := by
    rw [h.extends_start.nullifiers, blockUndoData_nullifiers h.undoData]
    rfl
  rw [← hacc]
  refine ⟨h.extends_start.nullifiers_nodup nodup_nil, fun nf hnf => ?_, h.nullifiers⟩
  have hnull := h.nullifiers_ne_null nf hnf
  have hunspent := h.extends_start.nullifiers_unspent nf
    (by rwa [blockUndoData_nullifiers h.undoData, ← hacc])
  refine ⟨hnull, fun hmem => hunspent ?_⟩
  simp [ShieldedState.isShieldedNullifierSpent, hnull, hmem]

/-- What the database part of `DisconnectBlock` does to the four stores. -/
structure DatabaseUndone (ds : List TxUndoData) (undo : BlockUndo) (s s' : ShieldedState env.merkle)
    (restored : List ConfirmedSettlementAnchorState) : Prop where
  nullifiers : s'.nullifiers = s.nullifiers \ (ds.flatMap (·.nullifiers)).toFinset
  recoveryExits : s'.recoveryExitCommitments =
    s.recoveryExitCommitments \ (ds.flatMap (·.recoveryExitCommitments)).toFinset
  records : restoredSettlementAnchors undo.consumedSettlementAnchorStates
    (((ds.flatMap (·.consumedSettlementAnchors)).dedup).filter
      (· ∉ ds.flatMap (·.createdSettlementAnchors))) = some restored
  settlementAnchors : s'.settlementAnchors = (s.settlementAnchors.eraseAll
    ((ds.flatMap (·.createdSettlementAnchors)).filter
      (· ∉ (ds.flatMap (·.consumedSettlementAnchors)).dedup))).insertAll
        (restored.map fun a => (a.anchor, a.createdHeight))
  nettingManifests :
    s'.nettingManifests = s.nettingManifests.eraseAll (ds.flatMap (·.nettingManifests))

theorem undoDatabase_eq_some (h : undoDatabase env ds undo s = some s') :
    ∃ restored, DatabaseUndone ds undo s s' restored := by
  simp only [undoDatabase, bind_eq_bind, bind_eq_some_iff] at h
  obtain ⟨s₁, h₁, s₂, h₂, s₃, h₃, restored, hrestored, s₄, h₄, h₅⟩ := h
  refine ⟨restored, ?_, ?_, hrestored, ?_, ?_⟩ <;>
    rw [removeNettingManifests_eq_some h₅, (insertSettlementAnchors_eq_some h₄).2,
      removeSettlementAnchors_eq_some h₃, removeRecoveryExitCommitments_eq_some h₂,
      removeNullifiers_eq_some h₁]

/-- `DisconnectBlock` undoes what it collects from the block, or the block has no bundle and it
changes nothing. -/
theorem disconnectBlock_cases (h : disconnectBlock env height block undo s = some s') :
    (∃ ds restored, blockUndoData env height block = some ds ∧
        DatabaseUndone ds undo s s' restored ∧
        disconnectPool env.codec block.vtx s.pool = some s'.pool ∧
        s.tree.truncate (s.tree.size - (ds.map (·.outputCount)).sum) = some s'.tree ∧
        s.registry.truncate (s.registry.entries.length - (ds.map (·.leafCount)).sum) =
          some s'.registry) ∨
      block.vtx.filter (·.hasShieldedBundle) = [] ∧ s' = s := by
  unfold disconnectBlock at h
  split_ifs at h with he
  · simp only [undoShielded, bind_eq_bind, bind_eq_some_iff, Option.pure_def, some.injEq] at h
    obtain ⟨ds, hds, pool, hpool, _, -, tree, htree, registry, hregistry, db, hdb, rfl⟩ := h
    obtain ⟨restored, hundone⟩ := undoDatabase_eq_some hdb
    exact .inl ⟨ds, restored, hds, { hundone with }, hpool, htree, hregistry⟩
  · have hnone := hasShieldedBundle_of_not_enforces (by simpa using he)
    exact .inr ⟨filter_eq_nil_iff.2 fun tx htx => by simp [hnone tx htx], (some.inj h).symm⟩

theorem disconnectBlock_eq_some (h : disconnectBlock env height block undo s = some s') :
    s'.nullifiers = s.nullifiers \ (blockNullifiers env block).toFinset ∧
      disconnectPool env.codec block.vtx s.pool = some s'.pool := by
  rcases disconnectBlock_cases h with ⟨ds, _, hds, hdb, hpool, -⟩ | ⟨hfilter, rfl⟩
  · exact ⟨by rw [← blockUndoData_nullifiers hds, hdb.nullifiers], hpool⟩
  · refine ⟨by simp [blockNullifiers, hfilter], ?_⟩
    have hnone : ∀ tx ∈ block.vtx, tx.hasShieldedBundle = false := by simpa using hfilter
    rw [disconnectPool_eq_some_iff]
    exact ⟨fun tx htx hb => absurd hb (by simp [hnone tx htx]),
      by rw [stateValueBalances_eq_nil hnone, walk_nil]⟩

/-! ## The nullifiers of the active chain -/

/-- The set is that of the active chain, where no nullifier occurs twice. -/
theorem Run.nullifiers (h : Run env chain s) :
    (activeNullifiers env chain).Nodup ∧ (∀ nf ∈ activeNullifiers env chain, ¬nf.IsNull) ∧
      s.nullifiers = (activeNullifiers env chain).toFinset := by
  induction h with
  | start => simp [activeNullifiers, ShieldedState.empty]
  | @connect chain s s' ctx coins coins' block undo _ hconnect ih =>
    obtain ⟨hnodup, hnull, hset⟩ := ih
    obtain ⟨acc, ds, hconn⟩ := connectBlock_connected hconnect
    obtain ⟨hblock, hnew, hset'⟩ := hconn.blockNullifiers
    have hdisj : List.Disjoint (blockNullifiers env block) (activeNullifiers env chain) := by
      intro nf hnf hold
      exact (hnew nf hnf).2 (by simpa [hset] using hold)
    refine ⟨List.Nodup.append hblock hnodup hdisj, ?_, ?_⟩
    · exact forall_mem_append.2 ⟨fun nf hnf => (hnew nf hnf).1, hnull⟩
    · change s'.nullifiers = (blockNullifiers env block ++ activeNullifiers env chain).toFinset
      rw [toFinset_append, Finset.union_comm, ← hset]
      exact hset'
  | @disconnect c chain s s' _ hdisconnect ih =>
    obtain ⟨hnodup, hnull, hset⟩ := ih
    obtain ⟨hset', -⟩ := disconnectBlock_eq_some hdisconnect
    have happ : activeNullifiers env (c :: chain) =
      blockNullifiers env c.block ++ activeNullifiers env chain := rfl
    rw [happ] at hnodup hnull hset
    obtain ⟨-, hrest, hdisj⟩ := nodup_append'.1 hnodup
    refine ⟨hrest, fun nf hnf => hnull nf (mem_append_right _ hnf), ?_⟩
    rw [hset', hset, toFinset_append, Finset.union_sdiff_left, Finset.sdiff_eq_self_iff_disjoint]
    exact (disjoint_toFinset_iff_disjoint.2 hdisj).symm

/-- **Every nullifier is retired once.** After every run of connections and disconnections:
* the nullifiers retired by the active blocks, by a bundle or a recovery exit, are distinct, within
  a block and across blocks, and exactly these are spent;
* no block that `ConnectBlock` accepts next retires one of them, or one nullifier twice. -/
theorem run_nullifiers_spent_once (h : Run env chain s) : (activeNullifiers env chain).Nodup ∧
      (∀ nf, s.isShieldedNullifierSpent nf = true ↔ nf ∈ activeNullifiers env chain) ∧
      ∀ ctx coins block accepted, connectBlock env ctx ⟨coins, s⟩ block = .ok accepted →
        (blockNullifiers env block).Nodup ∧
          ∀ nf ∈ blockNullifiers env block, nf ∉ activeNullifiers env chain := by
  obtain ⟨hnodup, hnull, hset⟩ := h.nullifiers
  refine ⟨hnodup, fun nf => ?_, fun ctx coins block accepted hconnect => ?_⟩
  · simp only [ShieldedState.isShieldedNullifierSpent, hset, List.mem_toFinset, decide_eq_true_eq]
    exact ⟨fun hnf => hnf.2, fun hnf => ⟨hnull nf hnf, hnf⟩⟩
  · obtain ⟨acc, ds, hconn⟩ := connectBlock_connected hconnect
    obtain ⟨hblock, hnew, -⟩ := hconn.blockNullifiers
    refine ⟨hblock, fun nf hnf hold => (hnew nf hnf).2 ?_⟩
    simpa [hset] using hold

/-! ## The pool of the active chain -/

theorem Run.balancesDefined (h : Run env chain s) :
    ∀ c ∈ chain, BalancesDefined env.codec c.block.vtx := by
  induction h with
  | start => simp
  | connect _ hconnect ih =>
    obtain ⟨acc, ds, hconn⟩ := connectBlock_connected hconnect
    exact forall_mem_cons.2 ⟨(connectPool_eq_ok_iff.1 hconn.connectPool).1, ih⟩
  | disconnect _ _ ih => exact (forall_mem_cons.1 ih).2

theorem Run.pool (h : Run env chain s) : s.pool.balance = -(activeValueBalances env chain).sum := by
  induction h with
  | start => rfl
  | @connect chain s s' ctx coins coins' block undo _ hconnect ih =>
    obtain ⟨acc, ds, hconn⟩ := connectBlock_connected hconnect
    have hpool := connectPool_balance hconn.connectPool
    simp only [activeValueBalances, flatMap_cons, sum_append] at ih ⊢
    linarith
  | @disconnect c chain s s' _ hdisconnect ih =>
    have hpool := disconnectPool_balance (disconnectBlock_eq_some hdisconnect).2
    simp only [activeValueBalances, flatMap_cons, sum_append] at ih ⊢
    linarith

/-- **The pool holds what was put in.** After every run of connections and disconnections:
* the pool balance is minus the sum of the state value balances of the active chain, and in `[0,
  MAX_MONEY]`;
* a block that, up to some transaction, would take out more is rejected, whatever its proofs are. -/
theorem run_pool_conserved (h : Run env chain s) :
    (∀ c ∈ chain, BalancesDefined env.codec c.block.vtx) ∧
      s.pool.balance = -(activeValueBalances env chain).sum ∧
      MoneyRange s.pool.balance ∧
      ∀ block k, -(activeValueBalances env chain).sum <
          ((stateValueBalances env.codec block.vtx).take k).sum →
        ∀ ctx coins accepted, connectBlock env ctx ⟨coins, s⟩ block ≠ .ok accepted := by
  refine ⟨h.balancesDefined, h.pool, s.pool.inRange, fun block k hmore => ?_⟩
  intro ctx coins accepted hconnect
  obtain ⟨acc, ds, hconn⟩ := connectBlock_connected hconnect
  have hle := connectPool_take_le hconn.connectPool k
  rw [← h.pool] at hmore
  exact absurd hmore (not_lt.2 hle)

end Run

/-! ## A concrete run

Parameters with every optional rule off, toy hash functions and a context in which every check
that is not modelled passes: what is left are the modelled rules. -/

/-- Generous limits, and no optional rule. -/
def sampleParams : Params where
  nShieldedPoolActivationHeight := 0
  nMaxShieldedTxSize := 1000
  nMaxBlockShieldedVerifyCost := 1000
  nMaxBlockShieldedScanUnits := 1000
  nMaxBlockShieldedTreeUpdateUnits := 1000
  nMaxBlockShieldedAccountRegistryAppends := 1000
  nMaxShieldedAccountRegistryEntries := 1000
  nShieldedBridgeTagActivationHeight := 0
  nShieldedMatRiCTDisableHeight := heightNever
  nShieldedSettlementAnchorMaturity := 0
  nShieldedSpendPathRecoveryActivationHeight := heightNever
  nShieldedSunsetHeight := heightNever
  nShieldedRecoveryExitActivationHeight := heightNever
  nShieldedRecoveryExitFrozenRoot := 0
  nShieldedUnshieldVelocityActivationHeight := heightNever
  nShieldedUnshieldVelocityEndHeight := heightNever
  nShieldedUnshieldVelocityCapBps := 0
  nShieldedUnshieldVelocityWindowBlocks := 0
  nShieldedUnshieldVelocityMinCapHeight := heightNever
  nShieldedUnshieldVelocityMinCap := 0

/-- Account leaf hashes that keep the four domains apart. -/
def sampleAccounts : AccountHash where
  isValidAccount _ := true
  compactPublicAccountHash _ := 1
  accountPayloadCommitment _ := 1
  spendTagCommitment _ _ := 1
  bridgeTagHash _ _ _ := 1
  leafHash cm domain _ _ _ :=
    match domain with
    | .directSend => cm
    | .ingress => cm + 1000
    | .egress => cm + 2000
    | .rebalance => cm + 3000
  entryHash _ leafCommitment _ _ := leafCommitment

def sampleEnv : Env where
  params := sampleParams
  merkle := ⟨1, (· + ·)⟩
  accounts := sampleAccounts
  notes := ⟨fun _ => 1, fun _ => none, fun _ => 1, fun _ => none⟩
  codec := .trivial
  limits := ⟨fun _ => true, fun _ => true⟩
  wellFormed _ := true
  settlementAnchorDigest _ _ := pure 1
  nettingManifestId _ := 1

/-- Every check that is not modelled passes. -/
def sampleContext (height : ℕ) : BlockContext where
  height := height
  subsidy := 50
  blockRules := pure ()
  enforceBIP30 := true
  heightGate _ := pure ()
  txSize _ := 1
  anchorValid _ := true
  ownershipVerified _ := true
  resourceUsage _ := ⟨1, 1, 1⟩
  proofCheck _ := pure ()
  spendRules _ _ := pure ()
  scriptCheck _ := pure ()
  completion := pure ()

def sampleCoinbase (hash : Uint256) : CTransaction where
  hash := hash
  vin := [{ prevout := ⟨0, nullIndex⟩, scriptSig := [0, 0] }]
  vout := [{ nValue := 50 }]

def sampleOutput (noteCommitment : Uint256) : OutputDescription where
  noteCommitment := noteCommitment
  smileAccount := some ⟨[1], [1]⟩

def sendBundle (payload : SendPayload) : CShieldedBundle :=
  { v2Bundle := some { payload := .send payload } }

/-- Ten from a transparent coin are shielded into a note. -/
def noteBlock (note : Uint256) : CBlock where
  vtx := [sampleCoinbase 2,
    { hash := 3
      vin := [{ prevout := ⟨1, 0⟩ }]
      shieldedBundle := sendBundle { outputs := [sampleOutput note], valueBalance := -10 } }]

def depositBlock : CBlock := noteBlock 5

/-- Four leave the pool against a root, and nullifier 7 is retired. -/
def samplePayout (anchor : Uint256) : SendPayload where
  spendAnchor := anchor
  accountRegistryAnchor := 1
  spends := [{ nullifier := 7, merkleAnchor := anchor, accountLeafCommitment := 1 }]
  valueBalance := 4

/-- A block that unshields four and creates note 6. -/
def withdrawBlock : CBlock where
  vtx := [sampleCoinbase 4,
    { hash := 5
      vout := [{ nValue := 4 }]
      shieldedBundle := sendBundle { samplePayout 1 with outputs := [sampleOutput 6] } }]

/-- The coin that `depositBlock` spends. -/
def depositCoins : CoinsView := Finmap.insert ⟨1, 0⟩ ⟨{ nValue := 10 }, 0, false⟩ ∅

theorem depositBlock_accepted : (connectBlock sampleEnv (sampleContext 1) ⟨depositCoins, .empty⟩
      depositBlock).toOption.isSome = true := by
  decide

/-- Both ledgers and the undo data after a block. -/
abbrev Ledgers (env : Env) := ChainState env.merkle × BlockUndo

def afterDeposit : Ledgers sampleEnv := okValue _ depositBlock_accepted

theorem withdrawBlock_accepted : (connectBlock sampleEnv (sampleContext 2) afterDeposit.1
      withdrawBlock).toOption.isSome = true := by
  decide

/-- After `depositBlock` and `withdrawBlock`. -/
def afterWithdraw : Ledgers sampleEnv := okValue _ withdrawBlock_accepted

theorem connect_depositBlock :
    connectBlock sampleEnv (sampleContext 1) ⟨depositCoins, .empty⟩ depositBlock =
      .ok (afterDeposit.1, afterDeposit.2) :=
  eq_ok_okValue depositBlock_accepted

theorem connect_withdrawBlock :
    connectBlock sampleEnv (sampleContext 2) afterDeposit.1 withdrawBlock =
      .ok (afterWithdraw.1, afterWithdraw.2) :=
  eq_ok_okValue withdrawBlock_accepted

theorem run_afterDeposit :
    Run sampleEnv [⟨depositBlock, 1, afterDeposit.2⟩] afterDeposit.1.shielded :=
  .connect .start connect_depositBlock

theorem run_afterWithdraw :
    Run sampleEnv [⟨withdrawBlock, 2, afterWithdraw.2⟩, ⟨depositBlock, 1, afterDeposit.2⟩]
      afterWithdraw.1.shielded :=
  .connect run_afterDeposit connect_withdrawBlock

/-- After the withdrawal nullifier 7 is spent, and it is the only one. -/
theorem nullifiers_afterWithdraw : afterWithdraw.1.shielded.isShieldedNullifierSpent 7 = true ∧
      ∀ nf, afterWithdraw.1.shielded.isShieldedNullifierSpent nf = true → nf = 7 := by
  have hspent := (run_nullifiers_spent_once run_afterWithdraw).2.1
  have hactive : activeNullifiers sampleEnv [⟨withdrawBlock, 2, afterWithdraw.2⟩,
      ⟨depositBlock, 1, afterDeposit.2⟩] = [7] := by decide
  simp only [hactive, mem_singleton] at hspent
  exact ⟨(hspent 7).2 rfl, fun nf => (hspent nf).1⟩

/-- Ten in and four out leave six, and no block can take out seven. -/
theorem pool_afterWithdraw : afterWithdraw.1.shielded.pool.balance = 6 ∧
      ∀ ctx coins accepted, connectBlock sampleEnv ctx ⟨coins, afterWithdraw.1.shielded⟩
        ⟨[sendOf 9 7]⟩ ≠ .ok accepted := by
  obtain ⟨-, hpool, -, hreject⟩ := run_pool_conserved run_afterWithdraw
  have hactive : activeValueBalances sampleEnv [⟨withdrawBlock, 2, afterWithdraw.2⟩,
      ⟨depositBlock, 1, afterDeposit.2⟩] = [4, -10] := by decide
  rw [hactive] at hpool hreject
  exact ⟨hpool, hreject ⟨[sendOf 9 7]⟩ 1 (by decide)⟩

end Btx.Validation
