/-
# What the balance relation says about amounts

Step 11e of `VerifyCT` (`src/shielded/smile2/ct_proof.cpp`). An amount is committed to as a
polynomial with its 26 base-4 digits in the slots. The balance relation holds slot by slot modulo
`q`, so the proof brings a carry polynomial. With at most 16 inputs and 16 outputs no slot wraps
around (`centered_carry`), and a valid carry exists for exactly the balanced amounts.
-/

import Mathlib
import Btx.Smile2.VerifyCT

namespace Btx.Smile2

open Util SmilePoly List

/-- An amount as the range proof admits it: digits 0 to 3 in the low slots and nothing in the
high ones. -/
structure SmileAmount where
  digit : Fin 32 → ℕ
  digit_le : ∀ j, digit j ≤ 3
  high_eq_zero : ∀ j : Fin 32, amountDigitCeiling ≤ j → digit j = 0

/-- The polynomial with given digits in the slots. -/
def digitPoly (digit : Fin 32 → ℕ) : SmilePoly := nttInverse fun j => ⟨(digit j : Zq), 0, 0, 0⟩

/-- The number with given digits in base 4. -/
def digitValue (digit : Fin 32 → ℤ) : ℤ :=
  ((List.finRange 32).map fun j => digit j * 4 ^ (j : ℕ)).sum

namespace SmileAmount

/-- The committed polynomial. -/
def poly (a : SmileAmount) : SmilePoly := digitPoly a.digit

/-- The amount. -/
def value (a : SmileAmount) : ℤ := digitValue fun j => a.digit j

end SmileAmount

/-- The slotwise relation `inputs − outputs − fee + carry = 0`. -/
def SlotwiseBalance (inputs outputs : List SmileAmount) (encFee carry : SmilePoly) : Prop :=
  ∀ j : Fin 32, nttForward ((inputs.map SmileAmount.poly).sum -
    (outputs.map SmileAmount.poly).sum - encFee + carry) j = 0

/-! ## Centred residues -/

theorem cast_centered (x : Zq) : ((centered x : ℤ) : Zq) = x := by
  unfold centered
  split_ifs
  · rw [Int.cast_sub, Int.cast_natCast, Int.cast_natCast, ZMod.natCast_zmod_val,
      ZMod.natCast_self, sub_zero]
  · rw [Int.cast_natCast, ZMod.natCast_zmod_val]

theorem centered_bounds (x : Zq) : -(Q : ℤ) < 2 * centered x ∧ 2 * centered x < Q := by
  have hlt : x.val < Q := ZMod.val_lt x
  have hodd : Q = 2 * (Q / 2) + 1 := rfl
  unfold centered
  split_ifs with h <;> omega

/-- **A small integer is the centred representative of its residue.** -/
theorem centered_intCast {z : ℤ} (hlow : -(Q : ℤ) < 2 * z) (hhigh : 2 * z < Q) :
    centered (z : Zq) = z := by
  have hmod : ((centered (z : Zq) : ℤ) : Zq) = (z : Zq) := cast_centered _
  rw [ZMod.intCast_eq_intCast_iff_dvd_sub] at hmod
  have hbounds := centered_bounds (z : Zq)
  obtain ⟨k, hk⟩ := hmod
  have hk0 : k = 0 := by
    rcases lt_trichotomy k 0 with hneg | rfl | hpos
    · nlinarith
    · rfl
    · nlinarith
  rw [hk0, mul_zero] at hk
  omega

/-! ## Slots -/

/-- A coefficient of a slot, as an additive map. -/
def slotCoeff (j : Fin 32) (c : Fin 4) : SmilePoly →+ Zq :=
  AddMonoidHom.mk' (fun p => (nttForward p j).coeff c) fun p p' => by
    rw [nttForward_add, Pi.add_apply, Quartic.coeff_add]

theorem slotCoeff_apply (j : Fin 32) (c : Fin 4) (p : SmilePoly) :
    slotCoeff j c p = (nttForward p j).coeff c := rfl

theorem slotCoeff_digitPoly (digit : Fin 32 → ℕ) (j : Fin 32) (c : Fin 4) :
    slotCoeff j c (digitPoly digit) = if c = 0 then (digit j : Zq) else 0 := by
  rw [slotCoeff_apply, digitPoly, nttForward_nttInverse]
  fin_cases c <;> simp [Quartic.coeff]

/-- The digits of several amounts in one slot. -/
def digitSum (amounts : List SmileAmount) (j : Fin 32) : ℤ :=
  (amounts.map fun a => (a.digit j : ℤ)).sum

variable (amounts : List SmileAmount)

theorem digitSum_bounds (j : Fin 32) :
    0 ≤ digitSum amounts j ∧ digitSum amounts j ≤ 3 * amounts.length := by
  induction amounts with
  | nil => simp [digitSum]
  | cons a amounts ih =>
    have ha := a.digit_le j
    simp only [digitSum, map_cons, sum_cons, length_cons, Nat.cast_add, Nat.cast_one] at ih ⊢
    omega

theorem slotCoeff_sum (j : Fin 32) (c : Fin 4) :
    slotCoeff j c (amounts.map SmileAmount.poly).sum =
      if c = 0 then ((digitSum amounts j : ℤ) : Zq) else 0 := by
  rw [map_list_sum, map_map]
  induction amounts with
  | nil => simp [digitSum]
  | cons a amounts ih =>
    rw [map_cons, sum_cons, ih, Function.comp_apply, SmileAmount.poly, slotCoeff_digitPoly,
      digitSum, digitSum, map_cons, sum_cons, Int.cast_add, Int.cast_natCast]
    split_ifs <;> simp

theorem sum_digitValue : (amounts.map SmileAmount.value).sum = digitValue (digitSum amounts) := by
  induction amounts with
  | nil => simp [digitValue, digitSum]
  | cons a amounts ih =>
    rw [map_cons, sum_cons, ih, SmileAmount.value, digitValue, digitValue, digitValue,
      ← sum_map_add]
    congr 1
    refine map_congr_left fun j _ => ?_
    rw [digitSum, digitSum, map_cons, sum_cons]
    ring

theorem digitValue_add (d e : Fin 32 → ℤ) :
    digitValue (fun j => d j + e j) = digitValue d + digitValue e := by
  rw [digitValue, digitValue, digitValue, ← sum_map_add]
  simp only [add_mul]

theorem digitValue_neg (d : Fin 32 → ℤ) : digitValue (fun j => -d j) = -digitValue d := by
  rw [eq_neg_iff_add_eq_zero, ← digitValue_add]
  simp [digitValue]

/-! ## The fee -/

theorem sum_digits (n k : ℕ) : ∑ j ∈ Finset.range k, n / 4 ^ j % 4 * 4 ^ j = n % 4 ^ k := by
  induction k with
  | zero => simp [Nat.mod_one]
  | succ k ih => rw [Finset.sum_range_succ, ih, Nat.mod_pow_succ, mul_comm]

/-- The base-4 digits of an amount. -/
def amountDigit (amount : ℤ) (j : Fin 32) : ℕ := amount.toNat / 4 ^ (j : ℕ) % 4

theorem amountDigit_le (amount : ℤ) (j : Fin 32) : amountDigit amount j ≤ 3 :=
  Nat.le_of_lt_succ (Nat.mod_lt _ (by norm_num))

/-- **Every amount of 64 bits has an encoding**, with its digits in the slots. -/
theorem encodeAmountToSmileAmountPoly_eq {amount : ℤ} (hpos : 0 ≤ amount) (hlt : amount < 4 ^ 32) :
    encodeAmountToSmileAmountPoly amount = some (digitPoly (amountDigit amount)) := by
  have hfits : amount.toNat / 4 ^ 32 = 0 := Nat.div_eq_of_lt (by omega)
  exact if_neg (not_or.2 ⟨by omega, not_not.2 hfits⟩)

theorem digitValue_amountDigit {amount : ℤ} (hpos : 0 ≤ amount) (hlt : amount < 4 ^ 32) :
    digitValue (fun j => amountDigit amount j) = amount := by
  calc digitValue (fun j => amountDigit amount j)
      = ((∑ j ∈ Finset.range 32, amount.toNat / 4 ^ j % 4 * 4 ^ j : ℕ) : ℤ) := by
        simp only [digitValue, amountDigit]
        rw [← Fin.sum_univ_def, Fin.sum_univ_eq_sum_range fun j =>
          ((amount.toNat / 4 ^ j % 4 : ℕ) : ℤ) * 4 ^ j]
        push_cast
        rfl
    _ = amount := by
        rw [sum_digits, Nat.mod_eq_of_lt (by omega)]
        omega

/-- An amount below `4²⁶`, which every amount of money is. -/
def SmileAmount.ofInt (amount : ℤ) (hlt : amount < 4 ^ 26) : SmileAmount where
  digit := amountDigit amount
  digit_le := amountDigit_le amount
  high_eq_zero := by
    intro j hj
    have hpow : 4 ^ 26 ≤ 4 ^ (j : ℕ) := Nat.pow_le_pow_right (by norm_num) hj
    rw [amountDigit, Nat.div_eq_of_lt (by omega), Nat.zero_mod]

/-! ## The carry -/

section Carry

variable {inputs outputs : List SmileAmount} {fee : Fin 32 → ℕ} {carry : SmilePoly}

/-- What the carry has to be in a slot. -/
def carryDigit (inputs outputs : List SmileAmount) (fee : Fin 32 → ℕ) (j : Fin 32) : ℤ :=
  fee j + digitSum outputs j + -digitSum inputs j

theorem carryDigit_bounds (hfee : ∀ j, fee j ≤ 3) (j : Fin 32) :
    |carryDigit inputs outputs fee j| ≤ 4 * ((inputs.length : ℤ) + outputs.length + 1) := by
  have hin := digitSum_bounds inputs j
  have hout := digitSum_bounds outputs j
  have hfee := hfee j
  rw [abs_le, carryDigit]
  omega

theorem slotwiseBalance_iff : SlotwiseBalance inputs outputs (digitPoly fee) carry ↔
    ∀ j c, slotCoeff j c carry =
      if c = 0 then ((carryDigit inputs outputs fee j : ℤ) : Zq) else 0 := by
  have hslot (j : Fin 32) (c : Fin 4) : slotCoeff j c ((inputs.map SmileAmount.poly).sum -
      (outputs.map SmileAmount.poly).sum - digitPoly fee + carry) =
      slotCoeff j c carry -
        if c = 0 then ((carryDigit inputs outputs fee j : ℤ) : Zq) else 0 := by
    rw [map_add, map_sub, map_sub, slotCoeff_sum, slotCoeff_sum, slotCoeff_digitPoly, carryDigit]
    split_ifs <;> push_cast <;> ring
  constructor
  · intro h j c
    rw [← sub_eq_zero, ← hslot, slotCoeff_apply, h j]
    fin_cases c <;> rfl
  · intro h j
    refine Quartic.ext_coeff fun c => ?_
    rw [← slotCoeff_apply, hslot, h j c, sub_self]
    fin_cases c <;> rfl

section

variable (hin : inputs.length ≤ maxCtInputs) (hout : outputs.length ≤ maxCtOutputs)

include hin hout

/-- **No slot wraps around**: the carry that the relation leaves is, centred, the difference of
the digits as integers. -/
theorem centered_carry
    (hfee : ∀ j, fee j ≤ 3) (h : SlotwiseBalance inputs outputs (digitPoly fee) carry)
    (j : Fin 32) : centered (nttForward carry j).c0 = carryDigit inputs outputs fee j := by
  have hbounds : |carryDigit inputs outputs fee j| ≤ _ := carryDigit_bounds hfee j
  rw [abs_le] at hbounds
  have hc0 : (nttForward carry j).c0 = ((carryDigit inputs outputs fee j : ℤ) : Zq) :=
    slotwiseBalance_iff.1 h j 0
  unfold maxCtInputs at hin
  unfold maxCtOutputs at hout
  have hQ : Q = 4294966337 := rfl
  rw [hc0, centered_intCast (by omega) (by omega)]

theorem carryIsValid_iff
    (hfee : ∀ j, fee j ≤ 3) (h : SlotwiseBalance inputs outputs (digitPoly fee) carry) :
    CarryIsValid inputs.length outputs.length carry ↔
      (inputs.map SmileAmount.value).sum =
        (outputs.map SmileAmount.value).sum + digitValue fun j => fee j := by
  have hcarry : digitValue (fun j => centered (nttForward carry j).c0) =
      (digitValue fun j => fee j) + (outputs.map SmileAmount.value).sum -
        (inputs.map SmileAmount.value).sum := by
    simp only [centered_carry hin hout hfee h, carryDigit]
    rw [digitValue_add, digitValue_add, digitValue_neg, sum_digitValue, sum_digitValue,
      sub_eq_add_neg]
  constructor
  · intro hvalid
    have hzero : digitValue (fun j => centered (nttForward carry j).c0) = 0 := hvalid.2
    linarith
  · intro hbalance
    refine ⟨fun j => ⟨slotwiseBalance_iff.1 h j 1, slotwiseBalance_iff.1 h j 2,
      slotwiseBalance_iff.1 h j 3, ?_⟩, ?_⟩
    · rw [centered_carry hin hout hfee h]
      exact carryDigit_bounds hfee j
    · refine hcarry.trans ?_
      linarith

end

/-- **The balance relation is the balance of the amounts.** For amounts in the range that the range
proof admits and every public fee (`VerifyCT` rejects a negative one first): a valid carry that
satisfies the slotwise relation modulo `q` makes the amounts balance over the integers, and balanced
amounts have such a carry. -/
theorem carry_iff_balanced (inputs outputs : List SmileAmount) (publicFee : ℤ)
    (hin : inputs.length ≤ maxCtInputs) (hout : outputs.length ≤ maxCtOutputs)
    (hfee : 0 ≤ publicFee) (hint64 : publicFee < 2 ^ 63) :
    ∃ encFee, encodeAmountToSmileAmountPoly publicFee = some encFee ∧
    (∀ carry, SlotwiseBalance inputs outputs encFee carry →
      CarryIsValid inputs.length outputs.length carry →
        (inputs.map SmileAmount.value).sum = (outputs.map SmileAmount.value).sum + publicFee) ∧
    ((inputs.map SmileAmount.value).sum = (outputs.map SmileAmount.value).sum + publicFee →
      ∃ carry, SlotwiseBalance inputs outputs encFee carry ∧
        CarryIsValid inputs.length outputs.length carry) := by
  have hvalid {carry : SmilePoly}
      (hrel : SlotwiseBalance inputs outputs (digitPoly (amountDigit publicFee)) carry) :
      CarryIsValid inputs.length outputs.length carry ↔
        (inputs.map SmileAmount.value).sum = (outputs.map SmileAmount.value).sum + publicFee := by
    rw [carryIsValid_iff hin hout (amountDigit_le publicFee) hrel,
      digitValue_amountDigit hfee (by omega)]
  refine ⟨_, encodeAmountToSmileAmountPoly_eq hfee (by omega),
    fun carry hrel hcarry => (hvalid hrel).1 hcarry, fun hbal => ?_⟩
  have hrel : SlotwiseBalance inputs outputs (digitPoly (amountDigit publicFee))
      (digitPoly (amountDigit publicFee) + (outputs.map SmileAmount.poly).sum -
        (inputs.map SmileAmount.poly).sum) := by
    intro j
    rw [show (inputs.map SmileAmount.poly).sum - (outputs.map SmileAmount.poly).sum -
      digitPoly (amountDigit publicFee) + (digitPoly (amountDigit publicFee) +
        (outputs.map SmileAmount.poly).sum - (inputs.map SmileAmount.poly).sum) = 0 by abel,
      nttForward_zero]
    rfl
  exact ⟨_, hrel, (hvalid hrel).2 hbal⟩

end Carry

/-- Two inputs of 2 pay for an output of 3 and a fee of 1, with a carry of −4 in the lowest slot. -/
theorem carry_iff_balanced_sample :
    ∃ encFee, encodeAmountToSmileAmountPoly 1 = some encFee ∧ ∃ carry,
      SlotwiseBalance [.ofInt 2 (by norm_num), .ofInt 2 (by norm_num)] [.ofInt 3 (by norm_num)]
        encFee carry ∧ CarryIsValid 2 1 carry := by
  obtain ⟨encFee, henc, -, hcarry⟩ :=
    carry_iff_balanced [.ofInt 2 (by norm_num), .ofInt 2 (by norm_num)] [.ofInt 3 (by norm_num)] 1
      (by decide) (by decide) (by norm_num) (by norm_num)
  exact ⟨encFee, henc, hcarry (by decide +kernel)⟩

end Btx.Smile2
