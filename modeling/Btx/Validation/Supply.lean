/-
# The coin supply over both ledgers

The value that `CheckTxInputs` credits and the value that the turnstile debits agree except for the
two batches: an egress batch debits nothing that is credited, an ingress batch debits what is not
credited (`getShieldedTxValueBalance_eq`). So `unspent outputs + pool ≤ subsidies + egress −
ingress` (`chain_supply_le`).
-/

import Btx.Validation.Run

namespace Btx.Validation

open Util Shielded List Bool

/-- The ledgers that a sequence of connected blocks leads to, last block first. -/
inductive Chain (env : Env) : List (BlockContext × CBlock) → ChainState env.merkle → Prop
  | genesis : Chain env [] ⟨∅, .empty⟩
  | connect {blocks : List (BlockContext × CBlock)} {st st' : ChainState env.merkle}
      {ctx : BlockContext} {block : CBlock} {undo : BlockUndo} :
      Chain env blocks st → connectBlock env ctx st block = .ok (st', undo) →
      Chain env ((ctx, block) :: blocks) st'

/-- The total amount of the egress batches of a block. -/
def blockEgress (env : Env) (block : CBlock) : CAmount :=
  (block.vtx.map fun tx => egressTotalAmount env.codec tx.shieldedBundle).sum

/-- The total amount of the ingress batches of a block. -/
def blockIngress (env : Env) (block : CBlock) : CAmount :=
  (block.vtx.map fun tx => ingressTotalAmount env.codec tx.shieldedBundle).sum

section Supply

variable {env : Env} {ctx : BlockContext} {block : CBlock} {s : ShieldedState env.merkle}
  {loop loop' : LoopState env.merkle} {tx : CTransaction}

/-! ## One transaction -/

/-- What a bundle may add to the transparent side beyond what the pool gives up. -/
def batchNet (env : Env) (tx : CTransaction) : CAmount :=
  egressTotalAmount env.codec tx.shieldedBundle - ingressTotalAmount env.codec tx.shieldedBundle

theorem batchNet_of_no_bundle (hb : tx.hasShieldedBundle = false) : batchNet env tx = 0 := by
  simp only [CTransaction.hasShieldedBundle, CShieldedBundle.isEmpty, not_eq_false',
    and_eq_true, Option.isNone_iff_eq_none] at hb
  simp [batchNet, egressTotalAmount, ingressTotalAmount, hb.2]

/-- **Credit and debit of one transaction.** The pool gives up what `CheckTxInputs` credits,
except for the batch amounts. -/
theorem connectTx_credit (hcheck : checkTransaction env.wellFormed env.limits tx = .ok ())
    (h : connectTx env ctx s loop tx = .ok loop') :
    txValueBalance tx + loop'.acc.pool.balance = loop.acc.pool.balance + batchNet env tx := by
  have hpool := connectTx_pool h
  unfold poolTx at hpool
  cases hb : tx.hasShieldedBundle with
  | false =>
    simp only [hb, false_eq_true, if_false, pure_eq_ok] at hpool
    simp [txValueBalance, hb, batchNet_of_no_bundle hb, hpool]
  | true =>
    simp only [hb, if_true, bind_eq_ok] at hpool
    obtain ⟨debit, hdebit, hpool⟩ := hpool
    split at hpool
    next next happly =>
      cases hpool
      obtain ⟨-, hbalance⟩ := ShieldedPoolBalance.applyValueBalance_eq_some_iff.1 happly
      have hcredit := getShieldedTxValueBalance_eq hdebit
      rw [rebalanceNet_eq_zero ((checkTransaction_ok hcheck).2.2 hb)] at hcredit
      simp only [txValueBalance, hb, if_true, batchNet]
      linarith
    next => cases hpool

/-- Both ledgers and the fees collected so far. -/
def holdings (loop : LoopState env.merkle) : CAmount :=
  loop.coins.total + loop.acc.pool.balance + loop.nFees

/-- What a transaction pays out as the coinbase. -/
def coinbaseValue (tx : CTransaction) : CAmount := if tx.isCoinBase then tx.valueOut else 0

theorem connectTx_supply (hcheck : checkTransaction env.wellFormed env.limits tx = .ok ())
    (hcoins : loop.coins.Nonneg) (h : connectTx env ctx s loop tx = .ok loop') :
    loop'.coins.Nonneg ∧
      holdings loop' ≤ holdings loop + batchNet env tx + coinbaseValue tx := by
  obtain ⟨hvout, hnodup, -⟩ := checkTransaction_ok hcheck
  obtain ⟨-, hfees, undo, hupdate⟩ := connectTx_ok h
  have hcredit := connectTx_credit hcheck h
  unfold spendTx at hfees
  unfold holdings coinbaseValue
  cases hcb : tx.isCoinBase with
  | true =>
    simp only [hcb, if_true, pure_eq_ok] at hfees ⊢
    obtain ⟨hle, hnonneg⟩ := updateCoins_coinBase_total_le hcb hcoins hvout hupdate
    have hzero : txValueBalance tx = 0 := by
      simp [txValueBalance, checkTransaction_coinBase hcheck hcb]
    exact ⟨hnonneg, by linarith⟩
  | false =>
    simp only [hcb, false_eq_true, if_false, bind_eq_ok, require_eq_ok, pure_eq_ok] at hfees ⊢
    obtain ⟨txfee, hfee, _, -, _, -, hnFees⟩ := hfees
    obtain ⟨nValueIn, hsum, rfl⟩ := checkTxInputs_ok hfee
    obtain ⟨hle, hnonneg⟩ := updateCoins_total_le hcb hcoins hvout hnodup hsum hupdate
    exact ⟨hnonneg, by linarith⟩

/-! ## One block -/

theorem connectTxs_supply {vtx : List CTransaction}
    (hcheck : ∀ tx ∈ vtx, checkTransaction env.wellFormed env.limits tx = .ok ())
    (hcoins : loop.coins.Nonneg) (h : vtx.foldlM (connectTx env ctx s) loop = .ok loop') :
    loop'.coins.Nonneg ∧
      holdings loop' ≤
        holdings loop + (vtx.map (batchNet env)).sum + (vtx.map coinbaseValue).sum := by
  induction vtx generalizing loop with
  | nil =>
    obtain rfl : loop = loop' := by simpa using h
    simpa using hcoins
  | cons tx vtx ih =>
    obtain ⟨mid, hmid, hrest⟩ := bind_eq_ok.1 (by simpa using h)
    obtain ⟨htx, hvtx⟩ := forall_mem_cons.1 hcheck
    obtain ⟨hnonneg, hle⟩ := connectTx_supply htx hcoins hmid
    obtain ⟨hnonneg', hle'⟩ := ih hvtx hnonneg hrest
    refine ⟨hnonneg', ?_⟩
    simp only [map_cons, sum_cons]
    linarith

/-- `CheckBlock` leaves one coinbase, the first transaction. -/
theorem checkBlock_ok (h : checkBlock env ctx block = .ok ()) :
    (∀ tx ∈ block.vtx, checkTransaction env.wellFormed env.limits tx = .ok ()) ∧
      (block.vtx.map coinbaseValue).sum = (block.vtx.head?.map (·.valueOut)).getD 0 := by
  simp only [checkBlock, bind_eq_ok, require_eq_ok] at h
  obtain ⟨_, -, _, -, _, hhead, _, htail, hcheck⟩ := h
  refine ⟨forM_eq_ok.1 hcheck, ?_⟩
  cases hvtx : block.vtx with
  | nil => rfl
  | cons tx vtx =>
    rw [hvtx] at hhead htail
    have hcb : tx.isCoinBase = true := by simpa using hhead
    have hrest : (vtx.map coinbaseValue).sum = 0 := by
      refine sum_eq_zero fun v hv => ?_
      obtain ⟨tx', htx', rfl⟩ := mem_map.1 hv
      simp [coinbaseValue, htail tx' htx']
    simp [coinbaseValue, hcb, hrest]

theorem sum_batchNet :
    (block.vtx.map (batchNet env)).sum = blockEgress env block - blockIngress env block := by
  unfold blockEgress blockIngress
  induction block.vtx with
  | nil => rfl
  | cons tx vtx ih =>
    simp only [map_cons, sum_cons, ih, batchNet]
    ring

theorem blockIngress_nonneg : 0 ≤ blockIngress env block := by
  refine sum_nonneg fun v hv => ?_
  obtain ⟨tx, -, rfl⟩ := mem_map.1 hv
  exact ingressTotalAmount_nonneg env.codec tx.shieldedBundle

theorem blockEgress_eq_zero
    (h : ∀ tx ∈ block.vtx, tx.shieldedBundle.transactionFamily ≠ some .egressBatch) :
    blockEgress env block = 0 := by
  refine sum_eq_zero fun v hv => ?_
  obtain ⟨tx, htx, rfl⟩ := mem_map.1 hv
  have hfamily := h tx htx
  unfold CShieldedBundle.transactionFamily CShieldedBundle.payload at hfamily
  unfold egressTotalAmount
  cases hb : tx.shieldedBundle.v2Bundle with
  | none => rfl
  | some v2 =>
    rw [hb] at hfamily
    cases hp : v2.payload <;> simp_all [FamilyPayload.family]

variable {st : ChainState env.merkle} {blocks : List (BlockContext × CBlock)}

theorem connectBlock_supply {st' : ChainState env.merkle} {undo : BlockUndo}
    (hcoins : st.coins.Nonneg) (h : connectBlock env ctx st block = .ok (st', undo)) :
    st'.coins.Nonneg ∧
      st'.coins.total + st'.shielded.pool.balance ≤ st.coins.total + st.shielded.pool.balance +
        ctx.subsidy + blockEgress env block - blockIngress env block := by
  obtain ⟨loop, hvalid, hcoins', -⟩ := connectBlock_ok h
  obtain ⟨hcheck, hloop, hcb⟩ := validateBlock_ok hvalid
  obtain ⟨hcheck, hvalue⟩ := checkBlock_ok hcheck
  obtain ⟨hnonneg, hle⟩ := connectTxs_supply hcheck hcoins hloop
  -- the pool that is committed is that of the loop
  have hpool : loop.acc.pool = st'.shielded.pool := by
    obtain ⟨_, -, -, hpool⟩ := connectTxs_extends hloop
    obtain ⟨_, _, hconn⟩ := connectBlock_connected h
    exact Except.ok.inj (hpool.symm.trans hconn.connectPool)
  refine ⟨hcoins' ▸ hnonneg, ?_⟩
  rw [hvalue, sum_batchNet] at hle
  simp only [holdings, LoopState.start, BlockAcc.start] at hle
  rw [hcoins', ← hpool]
  linarith

/-! ## The chain -/

theorem Chain.supply (h : Chain env blocks st) :
    st.coins.Nonneg ∧
      st.coins.total + st.shielded.pool.balance ≤ (blocks.map (·.1.subsidy)).sum +
        (blocks.map fun b => blockEgress env b.2).sum -
          (blocks.map fun b => blockIngress env b.2).sum := by
  induction h with
  | genesis =>
    refine ⟨fun k v hv => ?_, le_of_eq rfl⟩
    simp at hv
  | connect _ hconnect ih =>
    obtain ⟨hnonneg, hle⟩ := connectBlock_supply ih.1 hconnect
    refine ⟨hnonneg, ?_⟩
    simp only [map_cons, sum_cons]
    linarith [ih.2]

theorem Chain.debits (h : Chain env blocks st) :
    ∀ b ∈ blocks, BalancesDefined env.codec b.2.vtx ∧
      ∀ tx ∈ b.2.vtx, checkTransaction env.wellFormed env.limits tx = .ok () := by
  induction h with
  | genesis => simp
  | connect _ hconnect ih =>
    obtain ⟨acc, ds, hconn⟩ := connectBlock_connected hconnect
    obtain ⟨loop, hvalid, -⟩ := connectBlock_ok hconnect
    obtain ⟨hcheck, -⟩ := checkBlock_ok (validateBlock_ok hvalid).1
    exact forall_mem_cons.2
      ⟨⟨(connectPool_eq_ok_iff.1 hconn.connectPool).1, hcheck⟩, ih⟩

/-- **The supply of a chain.** After every sequence of connected blocks, whatever their bundles:
* the unspent outputs and the pool hold at most the subsidies, plus the egress batch totals, minus
  the ingress batch totals; without egress batches, at most the subsidies;
* the transparent credit of `CheckTxInputs` is at most the debit of the turnstile plus the total of
  an egress batch minus that of an ingress batch. -/
theorem chain_supply_le {blocks : List (BlockContext × CBlock)} {st : ChainState env.merkle}
    (h : Chain env blocks st) :
    (st.coins.total + st.shielded.pool.balance ≤ (blocks.map (·.1.subsidy)).sum +
        (blocks.map fun b => blockEgress env b.2).sum -
          (blocks.map fun b => blockIngress env b.2).sum) ∧
      ((∀ b ∈ blocks, ∀ tx ∈ b.2.vtx,
          tx.shieldedBundle.transactionFamily ≠ some .egressBatch) →
        st.coins.total + st.shielded.pool.balance ≤ (blocks.map (·.1.subsidy)).sum) ∧
      ∀ b ∈ blocks, ∀ tx ∈ b.2.vtx, tx.hasShieldedBundle = true →
        ∃ debit, tryGetShieldedStateValueBalance env.codec tx.shieldedBundle = .ok debit ∧
          getShieldedTxValueBalance tx.shieldedBundle ≤ debit +
            egressTotalAmount env.codec tx.shieldedBundle -
              ingressTotalAmount env.codec tx.shieldedBundle := by
  have hsupply := h.supply.2
  refine ⟨hsupply, fun hnone => ?_, fun b hb tx htx hbundle => ?_⟩
  · have hegress : (blocks.map fun b => blockEgress env b.2).sum = 0 := by
      refine sum_eq_zero fun v hv => ?_
      obtain ⟨b, hb, rfl⟩ := mem_map.1 hv
      exact blockEgress_eq_zero (hnone b hb)
    have hingress : 0 ≤ (blocks.map fun b => blockIngress env b.2).sum := by
      refine sum_nonneg fun v hv => ?_
      obtain ⟨b, -, rfl⟩ := mem_map.1 hv
      exact blockIngress_nonneg
    linarith
  · obtain ⟨hdefined, hcheck⟩ := h.debits b hb
    obtain ⟨debit, hdebit, -⟩ := hdefined tx htx hbundle
    have hcredit := getShieldedTxValueBalance_eq hdebit
    rw [rebalanceNet_eq_zero ((checkTransaction_ok (hcheck tx htx)).2.2 hbundle)] at hcredit
    exact ⟨debit, hdebit, by linarith⟩

end Supply

/-- A block with a coinbase alone, and a later one that shields ten of its fifty. -/
def mintBlock : CBlock := ⟨[sampleCoinbase 2]⟩

def shieldBlock : CBlock where
  vtx := [sampleCoinbase 4,
    { hash := 3
      vin := [{ prevout := ⟨2, 0⟩ }]
      vout := [{ nValue := 40 }]
      shieldedBundle := sendBundle { outputs := [sampleOutput 5], valueBalance := -10 } }]

theorem mintBlock_accepted :
    (connectBlock sampleEnv (sampleContext 1) ⟨∅, .empty⟩ mintBlock).toOption.isSome = true := by
  decide

def afterMint : Ledgers sampleEnv := okValue _ mintBlock_accepted

theorem shieldBlock_accepted : (connectBlock sampleEnv (sampleContext 200) afterMint.1
      shieldBlock).toOption.isSome = true := by
  decide

def afterShield : Ledgers sampleEnv := okValue _ shieldBlock_accepted

theorem chain_afterShield :
    Chain sampleEnv [(sampleContext 200, shieldBlock), (sampleContext 1, mintBlock)]
      afterShield.1 := by
  have hmint : connectBlock sampleEnv (sampleContext 1) ⟨∅, .empty⟩ mintBlock =
      .ok (afterMint.1, afterMint.2) := eq_ok_okValue mintBlock_accepted
  have hshield : connectBlock sampleEnv (sampleContext 200) afterMint.1 shieldBlock =
      .ok (afterShield.1, afterShield.2) := eq_ok_okValue shieldBlock_accepted
  exact .connect (.connect .genesis hmint) hshield

/-- Two blocks of subsidy fifty: the pool holds ten, and both ledgers at most a hundred. -/
theorem supply_afterShield : afterShield.1.shielded.pool.balance = 10 ∧
      afterShield.1.coins.total + afterShield.1.shielded.pool.balance ≤ 100 := by
  refine ⟨by decide, (chain_supply_le chain_afterShield).2.1 ?_⟩
  decide

end Btx.Validation
