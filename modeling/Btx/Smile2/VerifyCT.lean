/-
# The carry of a confidential balance

The parts of `VerifyCT` (`src/shielded/smile2/ct_proof.cpp`) that are about amounts: the
digits of an amount in base 4 (`EncodeAmountToSmileAmountPoly`) and the check of the carry
polynomial that joins the digits of the inputs to those of the outputs.
-/

import Btx.Smile2.Poly

namespace Btx.Smile2

open SmilePoly

/-- The bytes of an ASCII tag. -/
def tagBytes (s : String) : List UInt8 := s.toList.map fun c => UInt8.ofNat c.toNat

/-- `AMOUNT_DIGIT_CEILING`. -/
def amountDigitCeiling : ℕ := 26

/-- `EncodeAmountToSmileAmountPoly`. -/
def encodeAmountToSmileAmountPoly (amount : ℤ) : Option SmilePoly :=
  if amount < 0 ∨ amount.toNat / 4 ^ 32 ≠ 0 then none
  else some (nttInverse fun j => ⟨(amount.toNat / 4 ^ (j : ℕ) % 4 : ℕ), 0, 0, 0⟩)

/-- The validity of a carry polynomial: small digits in the constant coefficients of the slots,
nothing elsewhere, and the value zero in base 4. -/
def CarryIsValid (numInputs numOutputs : ℕ) (carry : SmilePoly) : Prop :=
  (∀ j : Fin 32, (nttForward carry j).c1 = 0 ∧ (nttForward carry j).c2 = 0 ∧
    (nttForward carry j).c3 = 0 ∧
    |centered (nttForward carry j).c0| ≤ 4 * ((numInputs : ℤ) + numOutputs + 1)) ∧
  ((List.finRange 32).map fun j => centered (nttForward carry j).c0 * 4 ^ (j : ℕ)).sum = 0

instance (numInputs numOutputs : ℕ) (carry : SmilePoly) :
    Decidable (CarryIsValid numInputs numOutputs carry) := inferInstanceAs (Decidable (_ ∧ _))

end Btx.Smile2
