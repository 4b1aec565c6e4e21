/-
# The turnstile

`src/shielded/turnstile.cpp`: the balance of the shielded pool, and the loops of `ConnectBlock` and
`DisconnectBlock` that move it, both *in block order*. So the second undoes the first transaction
first, and can leave `[0, MAX_MONEY]` although the first loop did not
(`disconnectPool_restores_iff`).
-/

import Btx.Primitives.Transaction
import Btx.Shielded.ValueBalance
import Btx.Util.RangeWalk
import Mathlib.Tactic.IntervalCases

namespace Btx.Shielded

open Util List

/-- `ShieldedPoolBalance`, with the range its operations maintain. -/
structure ShieldedPoolBalance where
  balance : CAmount
  inRange : MoneyRange balance
  deriving DecidableEq

namespace ShieldedPoolBalance

/-- The balance of a new pool. -/
def empty : ShieldedPoolBalance := ⟨0, moneyRange_zero⟩

variable (pool : ShieldedPoolBalance)

/-- A checked move by `delta`, common to `ApplyValueBalance` and
`UndoValueBalance`. -/
def move (delta : CAmount) : Option ShieldedPoolBalance :=
  (checkedAdd pool.balance delta).bind fun next =>
    if h : MoneyRange next then some ⟨next, h⟩ else none

/-- `ApplyValueBalance`. -/
def applyValueBalance (valueBalance : CAmount) : Option ShieldedPoolBalance :=
  if MoneyRangeSigned valueBalance then pool.move (-valueBalance) else none

/-- `UndoValueBalance`. -/
def undoValueBalance (valueBalance : CAmount) : Option ShieldedPoolBalance :=
  if MoneyRangeSigned valueBalance then pool.move valueBalance else none

variable {p q : ShieldedPoolBalance}

theorem ext (h : p.balance = q.balance) : p = q := by
  cases p; cases q; simpa using h

theorem move_eq_some_iff {delta : CAmount}
    (hd : MoneyRangeSigned delta) : p.move delta = some q ↔ q.balance = p.balance + delta := by
  simp only [move, checkedAdd_of_moneyRangeSigned p.inRange.signed hd, Option.bind_some]
  split_ifs with h
  · simp only [Option.some.injEq]
    exact ⟨fun e => by rw [← e], fun e => ext e.symm⟩
  · simp only [false_iff]
    exact fun e => h (e ▸ q.inRange)

theorem applyValueBalance_eq_some_iff {vb : CAmount} :
    p.applyValueBalance vb = some q ↔ MoneyRangeSigned vb ∧ q.balance = p.balance - vb := by
  unfold applyValueBalance
  split_ifs with h
  · have hneg : MoneyRangeSigned (-vb) := ⟨by linarith [h.2], by linarith [h.1]⟩
    simp [move_eq_some_iff hneg, h, sub_eq_add_neg]
  · simp [h]

theorem undoValueBalance_eq_some_iff {vb : CAmount} :
    p.undoValueBalance vb = some q ↔ MoneyRangeSigned vb ∧ q.balance = p.balance + vb := by
  unfold undoValueBalance
  split_ifs with h
  · simp [move_eq_some_iff h, h]
  · simp [h]

end ShieldedPoolBalance

/-! ### The pool loops of `ConnectBlock` and `DisconnectBlock` -/

/-- The pool step both loops make at a transaction, with `ApplyValueBalance` or
`UndoValueBalance` for `act`. -/
def poolTx (act : ShieldedPoolBalance → CAmount → Option ShieldedPoolBalance) (codec : Codec)
    (pool : ShieldedPoolBalance) (tx : CTransaction) : Except String ShieldedPoolBalance :=
  if tx.hasShieldedBundle then do
    let valueBalance ← tryGetShieldedStateValueBalance codec tx.shieldedBundle
    match act pool valueBalance with
    | some next => pure next
    | none => throw "shielded-pool-balance-negative"
  else pure pool

/-- The pool loop of `ConnectBlock`, in transaction order. -/
def connectPool (codec : Codec) (vtx : List CTransaction) (pool : ShieldedPoolBalance) :
    Except String ShieldedPoolBalance :=
  vtx.foldlM (poolTx ShieldedPoolBalance.applyValueBalance codec) pool

/-- The pool loop of `DisconnectBlock`, also in transaction order; every failure
is `DISCONNECT_FAILED`. -/
def disconnectPool (codec : Codec) (vtx : List CTransaction) (pool : ShieldedPoolBalance) :
    Option ShieldedPoolBalance :=
  (vtx.foldlM (poolTx ShieldedPoolBalance.undoValueBalance codec) pool).toOption

/-- The state value balances of the shielded transactions of a block, in order. -/
def stateValueBalances (codec : Codec) (vtx : List CTransaction) : List CAmount :=
  vtx.filterMap fun tx =>
    if tx.hasShieldedBundle then
      (tryGetShieldedStateValueBalance codec tx.shieldedBundle).toOption
    else none

theorem stateValueBalances_eq_nil {codec : Codec} {vtx : List CTransaction}
    (h : ∀ tx ∈ vtx, tx.hasShieldedBundle = false) : stateValueBalances codec vtx = [] :=
  filterMap_eq_nil_iff.2 fun tx htx => by simp [h tx htx]

/-- Every shielded transaction has a state value balance, and it is in the
signed money range. -/
def BalancesDefined (codec : Codec) (vtx : List CTransaction) : Prop :=
  ∀ tx ∈ vtx, tx.hasShieldedBundle = true →
    ∃ vb, tryGetShieldedStateValueBalance codec tx.shieldedBundle = .ok vb ∧ MoneyRangeSigned vb

section Loops

variable {codec : Codec} {vtx : List CTransaction} {p q : ShieldedPoolBalance} {tx : CTransaction}
  {act : ShieldedPoolBalance → CAmount → Option ShieldedPoolBalance} {sign : ℤ}

section

variable
  (hact : ∀ p q vb, act p vb = some q ↔ MoneyRangeSigned vb ∧ q.balance = p.balance + sign * vb)

include hact

theorem poolTx_eq_ok_iff :
    poolTx act codec p tx = .ok q ↔
      (tx.hasShieldedBundle = false ∧ p = q) ∨
      (tx.hasShieldedBundle = true ∧
        ∃ vb, tryGetShieldedStateValueBalance codec tx.shieldedBundle = .ok vb ∧
          MoneyRangeSigned vb ∧ q.balance = p.balance + sign * vb) := by
  unfold poolTx
  cases hb : tx.hasShieldedBundle with
  | false => simp
  | true =>
    simp only [if_true, bind_eq_ok, reduceCtorEq, false_and, true_and, false_or]
    refine exists_congr fun vb => and_congr_right fun _ => ?_
    rw [← hact]
    cases act p vb <;> simp

/-- **The pool loops are walks** by the signed value balances, confined to the
money range. -/
theorem foldlM_poolTx_eq_ok_iff :
    vtx.foldlM (poolTx act codec) p = .ok q ↔
      BalancesDefined codec vtx ∧
        walk 0 maxMoney p.balance ((stateValueBalances codec vtx).map (sign * ·)) =
          some q.balance := by
  induction vtx generalizing p with
  | nil =>
    simp only [foldlM_nil, pure_eq_ok, stateValueBalances, filterMap_nil,
      map_nil, walk_nil, Option.some.injEq]
    exact ⟨fun h => ⟨fun _ h => absurd h not_mem_nil, h ▸ rfl⟩,
      fun h => ShieldedPoolBalance.ext h.2⟩
  | cons tx vtx ih =>
    rw [foldlM_cons, bind_eq_ok]
    simp only [poolTx_eq_ok_iff hact, ih, BalancesDefined, forall_mem_cons]
    cases hb : tx.hasShieldedBundle with
    | false => simp [stateValueBalances, hb]
    | true =>
      simp only [stateValueBalances, filterMap_cons, hb, if_true, reduceCtorEq,
        false_and, true_and, false_or, forall_const]
      constructor
      · rintro ⟨r, ⟨vb, hvb, hr, hmove⟩, hdef, hwalk⟩
        refine ⟨⟨⟨vb, hvb, hr⟩, hdef⟩, ?_⟩
        rw [hvb]
        simp only [Except.toOption, map_cons, walk_cons]
        rw [if_pos (hmove ▸ r.inRange), ← hmove]
        exact hwalk
      · rintro ⟨⟨⟨vb, hvb, hr⟩, hdef⟩, hwalk⟩
        rw [hvb] at hwalk
        simp only [Except.toOption, map_cons, walk_cons] at hwalk
        split_ifs at hwalk with hin
        exact ⟨⟨_, hin⟩, ⟨vb, hvb, hr, rfl⟩, hdef, hwalk⟩

end

theorem connectPool_eq_ok_iff : connectPool codec vtx p = .ok q ↔ BalancesDefined codec vtx ∧
        walk 0 maxMoney p.balance ((stateValueBalances codec vtx).map (-·)) = some q.balance := by
  have hact : ∀ p q vb, ShieldedPoolBalance.applyValueBalance p vb = some q ↔
      MoneyRangeSigned vb ∧ q.balance = p.balance + -1 * vb := by
    intro p q vb
    rw [ShieldedPoolBalance.applyValueBalance_eq_some_iff, neg_one_mul, ← sub_eq_add_neg]
  simpa [connectPool] using foldlM_poolTx_eq_ok_iff hact

theorem disconnectPool_eq_some_iff : disconnectPool codec vtx p = some q ↔
      BalancesDefined codec vtx ∧
        walk 0 maxMoney p.balance (stateValueBalances codec vtx) = some q.balance := by
  have hact : ∀ p q vb, ShieldedPoolBalance.undoValueBalance p vb = some q ↔
      MoneyRangeSigned vb ∧ q.balance = p.balance + 1 * vb := by
    intro p q vb
    rw [ShieldedPoolBalance.undoValueBalance_eq_some_iff, one_mul]
  have h : vtx.foldlM (poolTx ShieldedPoolBalance.undoValueBalance codec) p = .ok q ↔ _ :=
    foldlM_poolTx_eq_ok_iff hact
  simp only [one_mul, map_id'] at h
  rw [← h, disconnectPool]
  cases vtx.foldlM (poolTx ShieldedPoolBalance.undoValueBalance codec) p <;> simp [Except.toOption]

variable (h : connectPool codec vtx p = .ok q)

include h in
theorem connectPool_balance : q.balance = p.balance - (stateValueBalances codec vtx).sum := by
  have hsum := (walk_eq_some_iff.1 (connectPool_eq_ok_iff.1 h).2).1
  rw [← sum_neg] at hsum
  linarith

theorem disconnectPool_balance (h : disconnectPool codec vtx p = some q) :
    q.balance = p.balance + (stateValueBalances codec vtx).sum :=
  (walk_eq_some_iff.1 (disconnectPool_eq_some_iff.1 h).2).1

include h in
theorem connectPool_take_le (k : ℕ) : ((stateValueBalances codec vtx).take k).sum ≤ p.balance := by
  have hin := (walk_eq_some_iff.1 (connectPool_eq_ok_iff.1 h).2).2
  -- beyond the end of the list the prefix is the whole list
  rw [take_eq_take_min]
  rcases hk : min k (stateValueBalances codec vtx).length with _ | k'
  · simpa using p.inRange.1
  · have hlt : k' < ((stateValueBalances codec vtx).map (-·)).length := by
      rw [length_map]
      omega
    have hstep := (hin k' hlt).1
    rw [← map_take, ← sum_neg] at hstep
    linarith

/-- Every suffix of `vbs` can be taken out of `start` without leaving the money
range: the condition under which a block with these value balances can be
undone first transaction first. -/
def UndoInRange (start : CAmount) (vbs : List CAmount) : Prop :=
  ∀ k, k ≤ vbs.length → 0 < k → MoneyRange (start - (vbs.drop k).sum)

include h in
theorem disconnectPool_eq_start_iff :
    disconnectPool codec vtx q = some p ↔
      UndoInRange p.balance (stateValueBalances codec vtx) := by
  obtain ⟨hdef, hwalk⟩ := connectPool_eq_ok_iff.1 h
  rw [disconnectPool_eq_some_iff, walk_undo_in_order_iff hwalk]
  exact and_iff_right hdef

include h in
theorem disconnectPool_unique {r : ShieldedPoolBalance}
    (hr : disconnectPool codec vtx q = some r) : r = p := by
  have h1 := connectPool_balance h
  have h2 := disconnectPool_balance hr
  exact ShieldedPoolBalance.ext (by linarith)

/-- **When disconnecting gives the pool back.** After an accepted block the loop of
`DisconnectBlock` returns the starting balance or reports `DISCONNECT_FAILED`; it returns the
balance exactly when, for every `k`, the value balances after the `k`-th can be taken out of the
starting balance without leaving `[0, MAX_MONEY]`. -/
theorem disconnectPool_restores_iff (h : connectPool codec vtx p = .ok q) :
    (disconnectPool codec vtx q = some p ↔
        UndoInRange p.balance (stateValueBalances codec vtx)) ∧
      (disconnectPool codec vtx q = none ↔
        ¬UndoInRange p.balance (stateValueBalances codec vtx)) := by
  have hiff := disconnectPool_eq_start_iff h
  refine ⟨hiff, ?_⟩
  rw [← hiff]
  cases hd : disconnectPool codec vtx q with
  | none => simp
  | some r => simp [disconnectPool_unique h hd]

end Loops

/-- A transaction that moves `valueBalance` out of the pool by a direct send. -/
def sendOf (hash : Uint256) (valueBalance : CAmount) : CTransaction where
  hash := hash
  shieldedBundle := { v2Bundle := some { payload := .send { valueBalance := valueBalance } } }

/-- A codec that decodes nothing. -/
def Codec.trivial : Codec where
  ingressWitness _ := throw ""
  settlementWitness _ := none

/-- A deposit of five before a withdrawal of three, from a pool of ten: both
orders stay in range, and the disconnect loop is back at ten. -/
theorem disconnectPool_deposit_withdraw :
    connectPool Codec.trivial [sendOf 1 (-5), sendOf 2 3] ⟨10, by decide⟩ = .ok ⟨12, by decide⟩ ∧
      disconnectPool Codec.trivial [sendOf 1 (-5), sendOf 2 3] ⟨12, by decide⟩ =
        some ⟨10, by decide⟩ := by
  have h : connectPool Codec.trivial [sendOf 1 (-5), sendOf 2 3] ⟨10, by decide⟩ =
      .ok ⟨12, by decide⟩ := by decide
  refine ⟨h, (disconnectPool_restores_iff h).1.2 fun k hk h0 => ?_⟩
  have hk2 : k ≤ 2 := hk
  interval_cases k <;> decide

/-- **A block that connects and cannot be disconnected.** A deposit of five and a withdrawal of five
leave the pool empty. Undoing the deposit first would take it to `-5`, so the disconnect loop fails.
-/
theorem disconnectPool_fails_after_connect :
    connectPool Codec.trivial [sendOf 1 (-5), sendOf 2 5] .empty = .ok .empty ∧
      disconnectPool Codec.trivial [sendOf 1 (-5), sendOf 2 5] .empty = none := by
  decide

end Btx.Shielded
