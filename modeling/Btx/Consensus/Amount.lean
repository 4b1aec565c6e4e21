/-
# Amounts and checked arithmetic

`src/consensus/amount.h` and `CheckedAdd` of `src/util/overflow.h`. `CAmount` is an `int64_t`, kept
as an integer here, with the limits of the machine type stated wherever the source guards against
them.
-/

import Mathlib.Tactic.Linarith

namespace Btx

/-- `CAmount`, an `int64_t` number of satoshis. -/
abbrev CAmount := ℤ

/-- `COIN`. -/
def coin : CAmount := 100000000

/-- `MAX_MONEY`. -/
def maxMoney : CAmount := 21000000 * coin

/-- `MoneyRange`: no amount above `MAX_MONEY` (in satoshi) is valid. -/
def MoneyRange (value : CAmount) : Prop := 0 ≤ value ∧ value ≤ maxMoney

/-- `MoneyRangeSigned`, the range of signed deltas. -/
def MoneyRangeSigned (value : CAmount) : Prop := -maxMoney ≤ value ∧ value ≤ maxMoney

instance (value : CAmount) : Decidable (MoneyRange value) :=
  inferInstanceAs (Decidable (_ ∧ _))

instance (value : CAmount) : Decidable (MoneyRangeSigned value) :=
  inferInstanceAs (Decidable (_ ∧ _))

/-- `std::numeric_limits<int64_t>::min()`. -/
def int64Min : ℤ := -2 ^ 63

/-- `std::numeric_limits<int64_t>::max()`. -/
def int64Max : ℤ := 2 ^ 63 - 1

/-- `std::numeric_limits<size_t>::max()`. -/
def sizeMax : ℕ := 2 ^ 64 - 1

/-- `CheckedAdd<CAmount>`: the sum, or nothing when it overflows `int64_t`. -/
def checkedAdd (i j : CAmount) : Option CAmount :=
  if int64Min ≤ i + j ∧ i + j ≤ int64Max then some (i + j) else none

theorem MoneyRange.signed {v : CAmount} (h : MoneyRange v) : MoneyRangeSigned v := by
  have hmax : 0 ≤ maxMoney := by decide
  exact ⟨by linarith [h.1], h.2⟩

theorem moneyRange_zero : MoneyRange 0 := by decide

@[simp] theorem checkedAdd_eq_some_iff {i j k : CAmount} :
    checkedAdd i j = some k ↔ (int64Min ≤ i + j ∧ i + j ≤ int64Max) ∧ i + j = k := by
  unfold checkedAdd
  split_ifs with h <;> simp [h]

/-- Sums of two amounts of the signed money range never overflow: twice
`MAX_MONEY` is far below `2^63`. -/
theorem checkedAdd_of_moneyRangeSigned {i j : CAmount} (hi : MoneyRangeSigned i)
    (hj : MoneyRangeSigned j) : checkedAdd i j = some (i + j) := by
  have hlo : int64Min ≤ -maxMoney + -maxMoney := by decide
  have hhi : maxMoney + maxMoney ≤ int64Max := by decide
  refine checkedAdd_eq_some_iff.2 ⟨⟨?_, ?_⟩, rfl⟩
  · linarith [hi.1, hj.1]
  · linarith [hi.2, hj.2]

end Btx
