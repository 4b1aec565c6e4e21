/-
# Transparent coins

`CheckTransaction` (`src/consensus/tx_check.cpp`), `CheckTxInputs` (`src/consensus/tx_verify.cpp`)
and `UpdateCoins` (`src/validation.cpp`) over a view of the unspent outputs, which is a finite map.
-/

import Btx.Primitives.Transaction
import Btx.Shielded.Structure
import Btx.Util.FinmapSum

namespace Btx

open Util Shielded List

/-! ## Context-free checks -/

/-- The loop of `CheckTransaction` over the outputs. -/
def checkVouts : List CTxOut → CAmount → Except String Unit
  | [], _ => pure ()
  | txout :: vout, nValueOut => do
      require (0 ≤ txout.nValue) "bad-txns-vout-negative"
      require (txout.nValue ≤ maxMoney) "bad-txns-vout-toolarge"
      require (MoneyRange (nValueOut + txout.nValue)) "bad-txns-txouttotal-toolarge"
      checkVouts vout (nValueOut + txout.nValue)

/-- The input rules of `CheckTransaction`, one branch per size of `vin`. -/
def checkVins (tx : CTransaction) : Except String Unit :=
  match tx.vin with
  | [] => pure ()
  | [input] =>
      if tx.isCoinBase then do
        require (¬tx.hasShieldedBundle) "bad-cb-shielded"
        require (2 ≤ input.scriptSig.length ∧ input.scriptSig.length ≤ 100) "bad-cb-length"
      else pure ()
  | vin => do
      require (vin.map (·.prevout)).Nodup "bad-txns-inputs-duplicate"
      require (∀ input ∈ vin, ¬input.prevout.isNull) "bad-txns-prevout-null"

/-- The serialised sizes that `CheckTransaction` compares with its limits. -/
structure TxLimits where
  /-- `GetTransactionWeight(tx) <= MAX_SHIELDED_TX_WEIGHT` -/
  shieldedWeightFits : CTransaction → Bool
  /-- the stripped size times `WITNESS_SCALE_FACTOR` against `MAX_BLOCK_WEIGHT` -/
  sizeFits : CTransaction → Bool

/-- `CheckTransaction`. -/
def checkTransaction (wellFormed : TransactionBundle → Bool) (limits : TxLimits)
    (tx : CTransaction) : Except String Unit := do
  let b := tx.shieldedBundle
  let hasV2 := tx.hasShieldedBundle && b.hasV2Bundle
  require (tx.vin ≠ [] ∨ (tx.hasShieldedBundle ∧ 0 < b.shieldedInputCount) ∨ hasV2)
    "bad-txns-vin-empty"
  require (tx.vout ≠ [] ∨ (tx.hasShieldedBundle ∧ 0 < b.shieldedOutputCount) ∨ hasV2)
    "bad-txns-vout-empty"
  require (tx.hasShieldedBundle → b.checkStructure wellFormed) "bad-shielded-bundle"
  require (tx.hasShieldedBundle → limits.shieldedWeightFits tx) "bad-shielded-oversize"
  require (tx.hasShieldedBundle → (b.shieldedInputs.map (·.nullifier)).Nodup)
    "bad-shielded-nullifier-duplicate"
  require (limits.sizeFits tx) "bad-txns-oversize"
  checkVouts tx.vout 0
  checkVins tx

/-! ## The coins view -/

/-- `Coin`. -/
structure Coin where
  out : CTxOut
  nHeight : ℕ
  fCoinBase : Bool
  deriving DecidableEq, Repr

/-- `CCoinsViewCache`: the unspent outputs. -/
abbrev CoinsView := Finmap fun _ : COutPoint => Coin

/-- The value of a coin. -/
def Coin.value (coin : Coin) : CAmount := coin.out.nValue

variable (coins : CoinsView)

/-- The sum of all unspent output values. -/
def CoinsView.total : CAmount := sumBy Coin.value coins

/-- No coin has a negative value. -/
def CoinsView.Nonneg : Prop := AllValues (fun coin => 0 ≤ coin.value) coins

/-- `COINBASE_MATURITY`. -/
def coinbaseMaturity : ℕ := 100

/-- `CScript::IsUnspendable`: an `OP_RETURN` script, or one over `MAX_SCRIPT_SIZE`. -/
def isUnspendable (script : List UInt8) : Bool :=
  decide (script.head? = some 0x6a) || decide (10000 < script.length)

/-- The loop of `CheckTxInputs` over the inputs. -/
def sumInputs (coins : CoinsView) (nSpendHeight : ℕ) : List CTxIn → CAmount → Except String CAmount
  | [], nValueIn => pure nValueIn
  | input :: vin, nValueIn =>
      match coins.lookup input.prevout with
      | none => throw "bad-txns-inputs-missingorspent"
      | some coin => do
          require (¬(coin.fCoinBase ∧ nSpendHeight < coin.nHeight + coinbaseMaturity))
            "bad-txns-premature-spend-of-coinbase"
          require (MoneyRange coin.out.nValue) "bad-txns-inputvalues-outofrange"
          match checkedAdd nValueIn coin.out.nValue with
          | none => throw "bad-txns-inputvalues-outofrange"
          | some sum => do
              require (MoneyRange sum) "bad-txns-inputvalues-outofrange"
              sumInputs coins nSpendHeight vin sum

/-- What `CheckTxInputs` credits for the bundle. -/
def txValueBalance (tx : CTransaction) : CAmount :=
  if tx.hasShieldedBundle then getShieldedTxValueBalance tx.shieldedBundle else 0

/-- `CheckTxInputs`: the fee. -/
def checkTxInputs (nSpendHeight : ℕ) (tx : CTransaction) :
    Except String CAmount := do
  let nValueIn ← sumInputs coins nSpendHeight tx.vin 0
  let valueBalance := txValueBalance tx
  require (MoneyRangeSigned valueBalance) "bad-shielded-valuebalance-outofrange"
  match checkedAdd nValueIn valueBalance with
  | none => throw "bad-shielded-adjusted-input-outofrange"
  | some adjusted => do
      require (MoneyRange adjusted) "bad-shielded-adjusted-input-outofrange"
      require (tx.valueOut ≤ adjusted) "bad-txns-in-belowout"
      require (MoneyRange (adjusted - tx.valueOut)) "bad-txns-fee-outofrange"
      pure (adjusted - tx.valueOut)

/-- The spending loop of `UpdateCoins`, with the spent coins as undo data. -/
def spendInputs : CoinsView → List CTxIn → Except String (CoinsView × List Coin)
  | coins, [] => pure (coins, [])
  | coins, input :: vin =>
      match coins.lookup input.prevout with
      | none => throw "UpdateCoins: assertion is_spent failed"
      | some coin => do
          let (coins, undo) ← spendInputs (coins.erase input.prevout) vin
          pure (coins, coin :: undo)

/-- `AddCoin`: unspendable outputs are not stored. -/
def addCoin (outpoint : COutPoint) (coin : Coin) : CoinsView :=
  if isUnspendable coin.out.scriptPubKey then coins else coins.insert outpoint coin

/-- `AddCoins`, from output index `n` on. -/
def addOutputs (hash : Uint256) (nHeight : ℕ) (fCoinBase : Bool) :
    List CTxOut → ℕ → CoinsView → CoinsView
  | [], _, coins => coins
  | txout :: vout, n, coins =>
      addOutputs hash nHeight fCoinBase vout (n + 1)
        (addCoin coins ⟨hash, n⟩ ⟨txout, nHeight, fCoinBase⟩)

/-- `UpdateCoins`, with the undo data of the transaction. -/
def updateCoins (nHeight : ℕ) (tx : CTransaction) :
    Except String (CoinsView × List Coin) := do
  let (coins, undo) ← if tx.isCoinBase then pure (coins, []) else spendInputs coins tx.vin
  pure (addOutputs tx.hash nHeight tx.isCoinBase tx.vout 0 coins, undo)

/-! ## What the checks guarantee -/

variable {vout : List CTxOut} {total nValueIn : CAmount} {u : Unit} {tx : CTransaction}
  {wellFormed : TransactionBundle → Bool} {limits : TxLimits} {coins coins' : CoinsView}
  {nSpendHeight nHeight : ℕ} {vin : List CTxIn} {undo : List Coin}

theorem checkVouts_ok (h : checkVouts vout total = .ok u) : ∀ txout ∈ vout, 0 ≤ txout.nValue := by
  induction vout generalizing total with
  | nil => simp
  | cons txout vout ih =>
    simp only [checkVouts, bind_eq_ok, require_eq_ok] at h
    obtain ⟨-, hnonneg, -, -, -, -, h⟩ := h
    exact forall_mem_cons.2 ⟨hnonneg, ih h⟩

theorem checkVins_nodup (h : checkVins tx = .ok u) : (tx.vin.map (·.prevout)).Nodup := by
  unfold checkVins at h
  split at h
  next hvin => simp [hvin]
  next hvin => simp [hvin]
  next =>
    simp only [bind_eq_ok, require_eq_ok] at h
    exact h.choose_spec.1

theorem checkTransaction_ok (h : checkTransaction wellFormed limits tx = .ok u) :
    (∀ txout ∈ tx.vout, 0 ≤ txout.nValue) ∧ (tx.vin.map (·.prevout)).Nodup ∧
      (tx.hasShieldedBundle → tx.shieldedBundle.checkStructure wellFormed) := by
  simp only [checkTransaction, bind_eq_ok, require_eq_ok] at h
  obtain ⟨-, -, -, -, -, hstructure, -, -, -, -, -, -, _, hvouts, hvins⟩ := h
  exact ⟨checkVouts_ok hvouts, checkVins_nodup hvins, hstructure⟩

theorem checkTransaction_coinBase (h : checkTransaction wellFormed limits tx = .ok u)
    (hcb : tx.isCoinBase = true) : tx.hasShieldedBundle = false := by
  simp only [checkTransaction, bind_eq_ok, require_eq_ok] at h
  obtain ⟨-, -, -, -, -, -, -, -, -, -, -, -, -, -, hvins⟩ := h
  unfold CTransaction.isCoinBase at hcb
  unfold checkVins at hvins
  split at hcb
  next input hvin =>
    simp only [hvin] at hvins
    rw [if_pos (by unfold CTransaction.isCoinBase; simpa [hvin] using hcb)] at hvins
    simp only [bind_eq_ok, require_eq_ok] at hvins
    simpa using hvins.choose_spec.1
  next => simp at hcb

theorem sumInputs_congr
    (hagree : ∀ input ∈ vin, coins.lookup input.prevout = coins'.lookup input.prevout)
    (nValueIn : CAmount) :
    sumInputs coins nSpendHeight vin nValueIn = sumInputs coins' nSpendHeight vin nValueIn := by
  induction vin generalizing nValueIn with
  | nil => rfl
  | cons input vin ih =>
    obtain ⟨hinput, hvin⟩ := forall_mem_cons.1 hagree
    unfold sumInputs
    simp only [hinput, ih hvin]

/-- Spending removes from the coins what `sumInputs` summed. -/
theorem spendInputs_total (hnodup : (vin.map (·.prevout)).Nodup)
    (hsum : sumInputs coins nSpendHeight vin nValueIn = .ok total)
    (hspend : spendInputs coins vin = .ok (coins', undo)) :
    coins'.total = coins.total - (total - nValueIn) := by
  induction vin generalizing coins nValueIn undo with
  | nil =>
    cases hsum
    obtain ⟨rfl, -⟩ := Prod.mk.inj (pure_eq_ok.1 hspend)
    simp
  | cons input vin ih =>
    obtain ⟨hfresh, hnodup⟩ := nodup_cons.1 hnodup
    unfold sumInputs at hsum
    unfold spendInputs at hspend
    cases hcoin : coins.lookup input.prevout with
    | none =>
      rw [hcoin] at hsum
      cases hsum
    | some coin =>
      rw [hcoin] at hsum hspend
      simp only [bind_eq_ok, require_eq_ok] at hsum
      obtain ⟨-, -, -, -, hsum⟩ := hsum
      split at hsum
      next => cases hsum
      next sum hadd =>
        obtain ⟨-, rfl⟩ := checkedAdd_eq_some_iff.1 hadd
        simp only [bind_eq_ok, require_eq_ok] at hsum
        obtain ⟨-, -, hsum⟩ := hsum
        obtain ⟨⟨coins₁, undo₁⟩, hspend₁, hpure⟩ := bind_eq_ok.1 hspend
        obtain ⟨rfl, -⟩ := Prod.mk.inj (pure_eq_ok.1 hpure)
        -- the remaining inputs name other coins, which the erased one leaves alone
        have hagree : ∀ i ∈ vin,
            coins.lookup i.prevout = (coins.erase input.prevout).lookup i.prevout := by
          intro i hi
          refine (Finmap.lookup_erase_ne fun heq => hfresh ?_).symm
          exact mem_map.2 ⟨i, hi, heq⟩
        rw [sumInputs_congr hagree] at hsum
        have hrest := ih hnodup hsum hspend₁
        have hsplit : coins.total = coin.value + CoinsView.total (coins.erase input.prevout) :=
          sumBy_eq_add_erase hcoin
        have hvalue : coin.value = coin.out.nValue := rfl
        linarith

theorem spendInputs_nonneg
    (hcoins : coins.Nonneg) (hspend : spendInputs coins vin = .ok (coins', undo)) :
    coins'.Nonneg := by
  induction vin generalizing coins undo with
  | nil =>
    obtain ⟨rfl, -⟩ := Prod.mk.inj (pure_eq_ok.1 hspend)
    exact hcoins
  | cons input vin ih =>
    unfold spendInputs at hspend
    cases hcoin : coins.lookup input.prevout with
    | none =>
      rw [hcoin] at hspend
      cases hspend
    | some coin =>
      rw [hcoin] at hspend
      obtain ⟨⟨coins₁, undo₁⟩, hspend₁, hpure⟩ := bind_eq_ok.1 hspend
      obtain ⟨rfl, -⟩ := Prod.mk.inj (pure_eq_ok.1 hpure)
      exact ih hcoins.erase hspend₁

theorem addOutputs_total_le {hash : Uint256} {fCoinBase : Bool} {n : ℕ} (hcoins : coins.Nonneg)
    (hvout : ∀ txout ∈ vout, 0 ≤ txout.nValue) :
    (addOutputs hash nHeight fCoinBase vout n coins).total ≤
        coins.total + (vout.map (·.nValue)).sum ∧
      (addOutputs hash nHeight fCoinBase vout n coins).Nonneg := by
  induction vout generalizing n coins with
  | nil => simpa [addOutputs] using hcoins
  | cons txout vout ih =>
    obtain ⟨htxout, hvout⟩ := forall_mem_cons.1 hvout
    have hadd : (addCoin coins ⟨hash, n⟩ ⟨txout, nHeight, fCoinBase⟩).total ≤
        coins.total + txout.nValue ∧
        (addCoin coins ⟨hash, n⟩ ⟨txout, nHeight, fCoinBase⟩).Nonneg := by
      unfold addCoin
      split_ifs
      · exact ⟨by linarith, hcoins⟩
      · exact ⟨sumBy_insert_le hcoins, AllValues.insert hcoins htxout⟩
    obtain ⟨hle, hnonneg⟩ := ih (n := n + 1) hadd.2 hvout
    refine ⟨?_, hnonneg⟩
    rw [addOutputs, map_cons, sum_cons]
    linarith [hadd.1]

theorem checkTxInputs_ok {txfee : CAmount} (h : checkTxInputs coins nSpendHeight tx = .ok txfee) :
    ∃ nValueIn, sumInputs coins nSpendHeight tx.vin 0 = .ok nValueIn ∧
      txfee = nValueIn + txValueBalance tx - tx.valueOut := by
  simp only [checkTxInputs, bind_eq_ok, require_eq_ok] at h
  obtain ⟨nValueIn, hsum, _, -, h⟩ := h
  split at h
  next => cases h
  next adjusted hadd =>
    obtain ⟨-, rfl⟩ := checkedAdd_eq_some_iff.1 hadd
    simp only [bind_eq_ok, require_eq_ok, pure_eq_ok] at h
    obtain ⟨_, -, _, -, _, -, rfl⟩ := h
    exact ⟨nValueIn, hsum, rfl⟩

theorem updateCoins_total_le (hcb : tx.isCoinBase = false)
    (hcoins : coins.Nonneg) (hvout : ∀ txout ∈ tx.vout, 0 ≤ txout.nValue)
    (hnodup : (tx.vin.map (·.prevout)).Nodup)
    (hsum : sumInputs coins nSpendHeight tx.vin 0 = .ok nValueIn)
    (h : updateCoins coins nHeight tx = .ok (coins', undo)) :
    coins'.total ≤ coins.total - nValueIn + tx.valueOut ∧ coins'.Nonneg := by
  simp only [updateCoins, hcb, Bool.false_eq_true, if_false, bind_eq_ok, pure_eq_ok] at h
  obtain ⟨⟨spent, undo'⟩, hspend, heq⟩ := h
  obtain ⟨rfl, -⟩ := Prod.mk.inj heq
  have htotal := spendInputs_total hnodup hsum hspend
  rw [sub_zero] at htotal
  rw [← htotal]
  exact addOutputs_total_le (spendInputs_nonneg hcoins hspend) hvout

theorem updateCoins_coinBase_total_le (hcb : tx.isCoinBase = true) (hcoins : coins.Nonneg)
    (hvout : ∀ txout ∈ tx.vout, 0 ≤ txout.nValue)
    (h : updateCoins coins nHeight tx = .ok (coins', undo)) :
    coins'.total ≤ coins.total + tx.valueOut ∧ coins'.Nonneg := by
  simp only [updateCoins, hcb, if_true, bind_eq_ok, pure_eq_ok] at h
  obtain ⟨_, rfl, heq⟩ := h
  obtain ⟨rfl, -⟩ := Prod.mk.inj heq
  exact addOutputs_total_le hcoins hvout

end Btx
