/-
# Keys and times

`std::map` walks `uint256` keys in the order of `base_blob::operator<`, a `memcmp`
of the bytes. A `Uint256` reads its bytes big-endian, so that is the order of the
numbers. Times are those of `std::chrono::steady_clock`.
-/

import Btx.Shielded.Bundle
import Mathlib.Data.Prod.Lex

namespace Btx.Node

/-- `base_blob::operator<`. -/
scoped instance uint256LinearOrder : LinearOrder Uint256 where
  le a b := a.toNat ≤ b.toNat
  lt a b := a.toNat < b.toNat
  le_refl a := Nat.le_refl _
  le_trans a b c := Nat.le_trans
  lt_iff_le_not_ge a b := Nat.lt_iff_le_and_not_ge
  le_antisymm a b hab hba := BitVec.eq_of_toNat_eq (Nat.le_antisymm hab hba)
  le_total a b := Nat.le_total _ _
  toDecidableLE a b := Nat.decLe _ _
  toDecidableEq := instDecidableEqBitVec
  toDecidableLT a b := Nat.decLt _ _

/-- `std::chrono::seconds` in nanoseconds, the unit of `std::chrono::steady_clock`. A point of time
is an integer. -/
def seconds (s : ℤ) : ℤ := s * 1000000000

end Btx.Node
