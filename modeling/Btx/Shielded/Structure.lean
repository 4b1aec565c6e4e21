/-
# Structural validity of a bundle

`CShieldedBundle::CheckStructure` of `src/shielded/bundle.cpp` and the payload `IsValid` functions
of `src/shielded/v2_bundle.cpp`. The rules on counts, amounts and identifiers are modelled; wire
versions, encodings, envelope kinds and repeated digests are one verdict, `wellFormed`.
-/

import Btx.Shielded.ValueBalance

namespace Btx.Shielded

/-- `IsNonNullAndUnique`. -/
def IsNonNullAndUnique (values : List Uint256) : Prop :=
  (∀ v ∈ values, ¬v.IsNull) ∧ values.Nodup

instance (values : List Uint256) : Decidable (IsNonNullAndUnique values) :=
  inferInstanceAs (Decidable (_ ∧ _))

/-- `ReserveDelta::IsValid`. -/
def ReserveDelta.IsValid (d : ReserveDelta) : Prop :=
  ¬d.l2Id.IsNull ∧ d.reserveDelta ≠ 0 ∧ MoneyRangeSigned d.reserveDelta

instance (d : ReserveDelta) : Decidable d.IsValid := inferInstanceAs (Decidable (_ ∧ _ ∧ _))

/-- `ValueConservationHolds`: the running total stays in range and ends at zero. -/
def valueConservationHolds : List ReserveDelta → CAmount → Bool
  | [], total => total == 0
  | delta :: deltas, total =>
      decide (MoneyRangeSigned delta.reserveDelta) &&
        decide (MoneyRangeSigned (total + delta.reserveDelta)) &&
          valueConservationHolds deltas (total + delta.reserveDelta)

/-- `ReserveDeltaSetIsCanonical`: valid deltas in strictly increasing order of
domain that conserve value. -/
def reserveDeltaSetIsCanonical (deltas : List ReserveDelta) : Bool :=
  deltas.all (fun d => decide d.IsValid) &&
    decide ((deltas.map (·.l2Id)).IsChain (· < ·)) && valueConservationHolds deltas 0

/-- `SendPayload::IsValid`. -/
def SendPayload.isValid (p : SendPayload) : Bool :=
  decide (p.spends.length ≤ 64 ∧ p.outputs.length ≤ 64 ∧ MoneyRangeSigned p.valueBalance ∧
    MoneyRange p.fee ∧ (p.outputs = [] → p.spends ≠ [] ∧ p.fee < p.valueBalance)) &&
  (if p.spends.isEmpty then
    decide (p.spendAnchor.IsNull ∧ p.accountRegistryAnchor.IsNull ∧ p.valueBalance < 0)
  else
    decide (¬p.spendAnchor.IsNull ∧ ¬p.accountRegistryAnchor.IsNull ∧ p.fee ≤ p.valueBalance ∧
      (∀ s ∈ p.spends, s.merkleAnchor = p.spendAnchor ∧ ¬s.accountLeafCommitment.IsNull) ∧
      IsNonNullAndUnique (p.spends.map (·.nullifier)))) &&
  decide (IsNonNullAndUnique (p.outputs.map (·.noteCommitment)))

/-- `SpendPathRecoveryPayload::IsValid`. -/
def SpendPathRecoveryPayload.isValid (p : SpendPathRecoveryPayload) : Bool :=
  decide (¬p.spendAnchor.IsNull ∧ p.spends ≠ [] ∧ p.spends.length ≤ 64 ∧ p.outputs ≠ [] ∧
    p.outputs.length ≤ 64 ∧ MoneyRange p.fee ∧
    (∀ s ∈ p.spends, ¬s.noteCommitment.IsNull ∧ s.merkleAnchor = p.spendAnchor) ∧
    IsNonNullAndUnique (p.spends.map (·.nullifier)) ∧
    IsNonNullAndUnique (p.outputs.map (·.noteCommitment)))

/-- `RecoveryExitPayload::IsValid`. -/
def RecoveryExitPayload.isValid (p : RecoveryExitPayload) : Bool :=
  decide (MoneyRange p.value ∧ 0 < p.value ∧ ¬p.noteCommitment.IsNull ∧
    ¬p.recipientPkHash.IsNull ∧ ¬p.rho.IsNull ∧ ¬p.rcm.IsNull ∧ p.spendPubkey.length = 1312 ∧
    p.ownershipSig.length = 2420 ∧ p.membershipProof ≠ [] ∧ p.membershipProof.length ≤ 16384)

/-- `IngressBatchPayload::IsValid`. -/
def IngressBatchPayload.isValid (p : IngressBatchPayload) : Bool :=
  decide (¬p.spendAnchor.IsNull ∧ ¬p.accountRegistryAnchor.IsNull ∧ p.consumedSpends ≠ [] ∧
    p.consumedSpends.length ≤ 20000 ∧ 0 < p.ingressLeafCount ∧ p.ingressLeafCount ≤ 20000 ∧
    p.reserveOutputs ≠ [] ∧ p.reserveOutputs.length ≤ 64 ∧ MoneyRange p.fee ∧
    ¬p.settlementBindingDigest.IsNull ∧
    IsNonNullAndUnique (p.consumedSpends.map (·.nullifier)))

/-- `EgressBatchPayload::IsValid`. -/
def EgressBatchPayload.isValid (p : EgressBatchPayload) : Bool :=
  decide (¬p.settlementAnchor.IsNull ∧ ¬p.outputBindingDigest.IsNull ∧ p.outputs ≠ [] ∧
    p.outputs.length ≤ 20000 ∧ ¬p.settlementBindingDigest.IsNull)

/-- `NettingManifest::IsValid`: a running total of the deltas that ends at the
declared aggregate, which is zero. -/
def NettingManifest.isValid (m : NettingManifest) : Bool :=
  decide (0 < m.settlementWindow ∧ m.domains ≠ [] ∧ m.domains.length ≤ 64 ∧
    m.aggregateNetDelta = 0 ∧ (∀ d ∈ m.domains, d.IsValid)) &&
  decide ((m.domains.map (·.l2Id)).IsChain (· < ·)) &&
  decide ((m.domains.map (·.reserveDelta)).sum = m.aggregateNetDelta)

/-- `RebalancePayload::IsValid`, with the manifest `TransactionBundle::IsValid`
demands of it. -/
def RebalancePayload.isValid (p : RebalancePayload) : Bool :=
  decide (2 ≤ p.reserveDeltas.length ∧ p.reserveDeltas.length ≤ 64 ∧
    p.reserveOutputs.length ≤ 64) &&
  reserveDeltaSetIsCanonical p.reserveDeltas &&
  decide (¬p.settlementBindingDigest.IsNull) &&
  match p.nettingManifest with
  | none => false
  | some manifest => manifest.isValid && manifest.domains == p.reserveDeltas

/-- `SettlementAnchorPayload::IsValid`. -/
def SettlementAnchorPayload.isValid (p : SettlementAnchorPayload) : Bool :=
  decide (p.reserveDeltas.length ≤ 64) && reserveDeltaSetIsCanonical p.reserveDeltas &&
    decide (p.reserveDeltas = [] → p.anchoredNettingManifestId.IsNull)

/-- `TransactionBundle::IsValid`. A generic payload is never valid. -/
def TransactionBundle.isValid (wellFormed : TransactionBundle → Bool) (v2 : TransactionBundle) :
    Bool :=
  wellFormed v2 &&
  match v2.payload with
  | .send p => p.isValid
  | .spendPathRecovery p => p.isValid
  | .recoveryExit p => p.isValid
  | .lifecycle p => decide (¬p.transparentBindingDigest.IsNull)
  | .ingressBatch p => p.isValid
  | .egressBatch p => p.isValid
  | .rebalance p => p.isValid
  | .settlementAnchor p => p.isValid
  | .generic => false

/-- `IsSupportedRingSize`. -/
def isSupportedRingSize (n : ℕ) : Bool := decide (8 ≤ n ∧ n ≤ 32)

/-- `CShieldedBundle::CheckStructure`. An encrypted note and a view grant are
at least one authentication tag long. -/
def CShieldedBundle.checkStructure (wellFormed : TransactionBundle → Bool)
    (b : CShieldedBundle) : Bool :=
  !b.isEmpty &&
  match b.v2Bundle with
  | some v2 => !b.hasLegacyDirectSpendData && v2.isValid wellFormed
  | none =>
      decide (b.shieldedInputs.length ≤ 16 ∧ b.shieldedOutputs.length ≤ 16 ∧
        b.viewGrants.length ≤ 8 ∧ b.proof.length ≤ 1536 * 1024 ∧
        MoneyRangeSigned b.valueBalance) &&
      -- positive balances consume notes, negative ones create notes
      decide ((0 < b.valueBalance → b.shieldedInputs ≠ []) ∧
        (b.valueBalance < 0 → b.shieldedOutputs ≠ []) ∧
        (b.valueBalance = 0 → (b.shieldedInputs = [] ↔ b.shieldedOutputs = []))) &&
      decide (IsNonNullAndUnique (b.shieldedInputs.map (·.nullifier))) &&
      b.shieldedInputs.all (fun i => isSupportedRingSize i.ringPositions.length) &&
      decide (IsNonNullAndUnique (b.shieldedOutputs.map (·.noteCommitment))) &&
      b.shieldedOutputs.all (fun o => decide (¬o.merkleAnchor.IsNull ∧
        16 ≤ o.encryptedNote.length ∧ o.encryptedNote.length ≤ 2048)) &&
      b.viewGrants.all (fun g => decide (16 ≤ g.length ∧ g.length ≤ 512)) &&
      (b.shieldedInputs.isEmpty == b.proof.isEmpty)

theorem valueConservationHolds_sum {deltas : List ReserveDelta} {total : CAmount}
    (h : valueConservationHolds deltas total = true) :
    total + (deltas.map (·.reserveDelta)).sum = 0 := by
  induction deltas generalizing total with
  | nil => simpa [valueConservationHolds] using h
  | cons delta deltas ih =>
    simp only [valueConservationHolds, Bool.and_eq_true] at h
    rw [List.map_cons, List.sum_cons, ← add_assoc]
    exact ih h.2

/-- **A rebalance is pool-neutral.** In a structurally valid bundle the net of
the reserve deltas is zero, so the rebalance switch of
`TryGetShieldedStateValueBalance` debits nothing. -/
theorem rebalanceNet_eq_zero {wellFormed : TransactionBundle → Bool} {b : CShieldedBundle}
    (h : b.checkStructure wellFormed = true) : rebalanceNet b = 0 := by
  unfold rebalanceNet CShieldedBundle.payload
  cases hb : b.v2Bundle with
  | none => rfl
  | some v2 =>
    cases hp : v2.payload with
    | rebalance p =>
      simp only [CShieldedBundle.checkStructure, hb, TransactionBundle.isValid, hp,
        RebalancePayload.isValid, reserveDeltaSetIsCanonical, Bool.and_eq_true] at h
      have hcons : valueConservationHolds p.reserveDeltas 0 = true := h.2.2.2.1.1.2.2
      simpa [hp] using valueConservationHolds_sum hcons
    | _ => simp [hp]

end Btx.Shielded
