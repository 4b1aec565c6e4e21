/-
# The two value balances of a bundle

`TryGetShieldedStateValueBalance` of `src/shielded/bundle.cpp` is what the turnstile takes out of
the pool, `GetShieldedTxValueBalance` what `CheckTxInputs` credits to the transparent side. For
three families they differ:

| family | pool debit | transparent credit |
| --- | --- | --- |
| ingress batch | `total_amount + fee` | `fee` |
| egress batch | `-total_amount` | `0` |
| rebalance | `-Σ reserve_delta` | `0` |

The batch totals come from a witness inside the proof bytes, decoded by a `Codec`; the checks of
`ParseV2IngressWitness` and `ParseSettlementWitness` on the decoded statement are modelled.
-/

import Btx.Shielded.Bundle
import Btx.Util.Result

namespace Btx.Shielded

open Util

/-- `BridgeDirection`. -/
inductive BridgeDirection where
  | bridgeIn | bridgeOut
  deriving DecidableEq, Repr

/-- What a nested record answers to `IsEmpty` and `IsValid`. -/
inductive Presence where
  | empty | valid | malformed
  deriving DecidableEq, Repr

/-- `BridgeBatchStatement`. -/
structure BridgeBatchStatement where
  version : ℕ
  direction : BridgeDirection
  idsValid : Bool
  entryCount : ℕ
  totalAmount : CAmount
  batchRoot : Uint256
  domainId : Uint256
  sourceEpoch : ℕ
  dataRoot : Uint256
  verifierSet : Presence
  proofPolicy : Presence
  aggregateCommitmentValid : Bool
  deriving DecidableEq, Repr

/-- `BridgeBatchStatement::IsValid`. -/
def BridgeBatchStatement.isValid (s : BridgeBatchStatement) : Bool :=
  decide (¬s.batchRoot.IsNull ∧ ¬s.domainId.IsNull ∧ ¬s.dataRoot.IsNull ∧ s.idsValid = true ∧
    0 < s.entryCount ∧ 0 < s.sourceEpoch ∧ MoneyRange s.totalAmount ∧ 0 < s.totalAmount) &&
  match s.version with
  | 1 => s.verifierSet == .empty && s.proofPolicy == .empty
  | 2 => s.verifierSet == .valid && s.proofPolicy == .empty
  | 3 => s.verifierSet == .empty && s.proofPolicy == .valid
  | 4 => s.verifierSet == .valid && s.proofPolicy == .valid
  | 5 => s.verifierSet != .malformed && s.proofPolicy != .malformed && s.aggregateCommitmentValid
  | _ => false

/-- `V2IngressWitness` with the verdicts on its leaves, settlement witness and
proof shards. -/
structure V2IngressWitness where
  statement : BridgeBatchStatement
  leafCount : ℕ
  leavesValid : Bool
  settlementWitnessValid : Bool
  shardsValid : Bool
  deriving DecidableEq, Repr

/-- `V2IngressWitness::IsValid`, header first. -/
def V2IngressWitness.isValid (w : V2IngressWitness) (expectedLeafCount : ℕ) : Bool :=
  w.statement.isValid && w.statement.direction == .bridgeIn && w.leafCount == expectedLeafCount &&
    w.leavesValid && w.settlementWitnessValid && w.shardsValid

/-- `SettlementWitness` with the verdict on its receipts. -/
structure SettlementWitness where
  statement : BridgeBatchStatement
  receiptsValid : Bool
  deriving DecidableEq, Repr

/-- `SettlementWitness::IsValid`. -/
def SettlementWitness.isValid (w : SettlementWitness) : Bool :=
  w.statement.isValid && w.receiptsValid

/-- How the witnesses are laid out in the proof bytes. `ingressWitness` is
`ParseV2IngressWitness` up to its final `IsValid`, with its reject reasons;
`settlementWitness` reads a whole stream. -/
structure Codec where
  ingressWitness : TransactionBundle → Except String V2IngressWitness
  settlementWitness : List UInt8 → Option SettlementWitness

variable (codec : Codec)

/-- `ParseV2IngressWitness` for an ingress payload. -/
def parseV2IngressWitness (v2 : TransactionBundle) (p : IngressBatchPayload) :
    Except String V2IngressWitness := do
  let witness ← codec.ingressWitness v2
  if witness.isValid p.ingressLeafCount then pure witness
  else throw "bad-shielded-v2-ingress-witness"

/-- `ParseSettlementWitness`. -/
def parseSettlementWitness (proofPayload : List UInt8) : Except String SettlementWitness :=
  if proofPayload.isEmpty then throw "bad-v2-settlement-witness-missing"
  else match codec.settlementWitness proofPayload with
    | none => throw "bad-v2-settlement-witness-encoding"
    | some witness =>
        if witness.isValid then pure witness else throw "bad-v2-settlement-witness"

/-- `CheckedSumAllReserveDeltas`. -/
def checkedSumAllReserveDeltas : List ReserveDelta → CAmount → Except String CAmount
  | [], net => pure net
  | delta :: deltas, net =>
      if ¬MoneyRangeSigned delta.reserveDelta then throw "bad-shielded-v2-rebalance-deltas"
      else match checkedAdd net delta.reserveDelta with
        | none => throw "bad-shielded-v2-rebalance-deltas"
        | some next =>
            if ¬MoneyRangeSigned next then throw "bad-shielded-v2-rebalance-deltas"
            else checkedSumAllReserveDeltas deltas next

variable (b : CShieldedBundle)

/-- `TryGetShieldedStateValueBalance`: what the turnstile takes out of the pool
for the bundle, or the reject reason. -/
def tryGetShieldedStateValueBalance : Except String CAmount :=
  match b.v2Bundle with
  | none => pure b.valueBalance
  | some v2 =>
      match v2.payload with
      | .send p => pure p.valueBalance
      | .spendPathRecovery p => pure p.fee
      | .recoveryExit p => pure p.value
      | .lifecycle _ => pure 0
      | .ingressBatch p => do
          let witness ← parseV2IngressWitness codec v2 p
          match checkedAdd witness.statement.totalAmount p.fee with
          | none => throw "bad-shielded-v2-ingress-amount"
          | some delta =>
              if MoneyRange delta then pure delta else throw "bad-shielded-v2-ingress-amount"
      | .egressBatch _ => do
          let witness ← parseSettlementWitness codec v2.proofPayload
          pure (-witness.statement.totalAmount)
      | .rebalance p => do
          let net ← checkedSumAllReserveDeltas p.reserveDeltas 0
          pure (-net)
      | .settlementAnchor _ | .generic => pure 0

/-- `GetShieldedTxValueBalance`: what `CheckTxInputs` credits to the transparent
side. -/
def getShieldedTxValueBalance : CAmount :=
  match b.v2Bundle with
  | none => b.valueBalance
  | some v2 =>
      match v2.payload with
      | .send p => p.valueBalance
      | .spendPathRecovery p => p.fee
      | .recoveryExit p => p.value
      | .lifecycle _ => 0
      | .ingressBatch p => p.fee
      | .egressBatch _ | .rebalance _ | .settlementAnchor _ | .generic => 0

/-! ### How the two balances compare -/

/-- `total_amount` of an ingress batch, `0` for every other bundle. -/
def ingressTotalAmount : CAmount :=
  match b.v2Bundle with
  | none => 0
  | some v2 =>
      match v2.payload with
      | .ingressBatch p => ((parseV2IngressWitness codec v2 p).toOption.map
          (·.statement.totalAmount)).getD 0
      | _ => 0

/-- `total_amount` of an egress batch, `0` for every other bundle. -/
def egressTotalAmount : CAmount :=
  match b.v2Bundle with
  | none => 0
  | some v2 =>
      match v2.payload with
      | .egressBatch _ => ((parseSettlementWitness codec v2.proofPayload).toOption.map
          (·.statement.totalAmount)).getD 0
      | _ => 0

/-- The net of the reserve deltas of a rebalance, `0` for every other bundle. -/
def rebalanceNet : CAmount :=
  match b.payload with
  | some (.rebalance p) => (p.reserveDeltas.map (·.reserveDelta)).sum
  | _ => 0

theorem BridgeBatchStatement.isValid.totalAmount_pos {s : BridgeBatchStatement}
    (h : s.isValid = true) : 0 < s.totalAmount := by
  simp only [BridgeBatchStatement.isValid, Bool.and_eq_true, decide_eq_true_eq] at h
  exact h.1.2.2.2.2.2.2.2

theorem parseV2IngressWitness_ok {codec : Codec} {v2 : TransactionBundle} {p : IngressBatchPayload}
    {w : V2IngressWitness} (h : parseV2IngressWitness codec v2 p = .ok w) :
    0 < w.statement.totalAmount := by
  obtain ⟨w', -, h⟩ := bind_eq_ok.1 h
  split_ifs at h with hv
  cases h
  simp only [V2IngressWitness.isValid, Bool.and_eq_true] at hv
  exact BridgeBatchStatement.isValid.totalAmount_pos hv.1.1.1.1.1

theorem ingressTotalAmount_nonneg : 0 ≤ ingressTotalAmount codec b := by
  unfold ingressTotalAmount
  split
  · exact le_rfl
  · rename_i v2 _
    split
    · rename_i p _
      cases h : parseV2IngressWitness codec v2 p with
      | error e => simp [Except.toOption]
      | ok w => simpa [Except.toOption] using (parseV2IngressWitness_ok h).le
    · exact le_rfl

theorem checkedSumAllReserveDeltas_ok {deltas : List ReserveDelta} {net total : CAmount}
    (h : checkedSumAllReserveDeltas deltas net = .ok total) :
    total = net + (deltas.map (·.reserveDelta)).sum := by
  induction deltas generalizing net with
  | nil => simp [pure_eq_ok.1 h]
  | cons delta deltas ih =>
    rw [checkedSumAllReserveDeltas, ite_throw_eq_ok] at h
    obtain ⟨-, h⟩ := h
    split at h
    · simp at h
    · rename_i next hnext
      obtain ⟨-, rfl⟩ := checkedAdd_eq_some_iff.1 hnext
      rw [ih (ite_throw_eq_ok.1 h).2, List.map_cons, List.sum_cons, add_assoc]

/-- **Transparent credit against pool debit.** Whatever the family, the two
balances differ by the total of an egress batch, the total of an ingress batch
and the net of a rebalance, and by nothing else. -/
theorem getShieldedTxValueBalance_eq {codec : Codec} {b : CShieldedBundle} {debit : CAmount}
    (h : tryGetShieldedStateValueBalance codec b = .ok debit) :
    getShieldedTxValueBalance b =
      debit + egressTotalAmount codec b - ingressTotalAmount codec b + rebalanceNet b := by
  unfold tryGetShieldedStateValueBalance at h
  unfold getShieldedTxValueBalance egressTotalAmount ingressTotalAmount rebalanceNet
    CShieldedBundle.payload
  cases hb : b.v2Bundle with
  | none =>
    simp only [hb, pure_eq_ok] at h
    simp [h]
  | some v2 =>
    simp only [hb] at h
    cases hp : v2.payload with
    | ingressBatch p =>
      simp only [hp] at h
      obtain ⟨w, hw, h⟩ := bind_eq_ok.1 h
      split at h
      · simp at h
      · rename_i delta hdelta
        obtain ⟨-, rfl⟩ := checkedAdd_eq_some_iff.1 hdelta
        split_ifs at h
        simp [hp, hw, Except.toOption, ← pure_eq_ok.1 h]
    | egressBatch p =>
      simp only [hp] at h
      obtain ⟨w, hw, h⟩ := bind_eq_ok.1 h
      simp [hp, hw, Except.toOption, ← pure_eq_ok.1 h]
    | rebalance p =>
      simp only [hp] at h
      obtain ⟨net, hn, h⟩ := bind_eq_ok.1 h
      simp [hp, ← pure_eq_ok.1 h, checkedSumAllReserveDeltas_ok hn]
    | send p | spendPathRecovery p | recoveryExit p | lifecycle p | settlementAnchor p
    | generic =>
      simp only [hp, pure_eq_ok] at h
      simp [hp, h]

end Btx.Shielded
