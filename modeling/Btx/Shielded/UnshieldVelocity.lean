/-
# The unshield velocity cap

`src/shielded/unshield_velocity.cpp`: a log of the net value that left the pool in each block, and
the rule that its sum over a trailing window stays below a share of the pool. The share is computed
in `int64_t`; a share of many times the pool overflows before it is cut to `MAX_MONEY`.
-/

import Btx.Consensus.Amount
import Btx.Util.PartialMap
import Btx.Util.ProductLoop

namespace Btx.Shielded

open Util

/-- `ShieldedUnshieldVelocity`: the net egress of each logged height. -/
structure ShieldedUnshieldVelocity where
  egress : PartialMap ℕ CAmount

namespace ShieldedUnshieldVelocity

def empty : ShieldedUnshieldVelocity := ⟨PartialMap.empty⟩

/-- `WindowCap`. -/
def windowCap (poolBalance : CAmount) (capBps : ℕ) (minCap : CAmount) : CAmount :=
  let floor := max 0 minCap
  if poolBalance ≤ 0 ∨ capBps = 0 then floor
  else
    let whole := poolBalance / 10000 * capBps
    let frac := poolBalance % 10000 * capBps / 10000
    let cap := whole + frac
    max (if cap < 0 ∨ maxMoney < cap then maxMoney else cap) floor

section

variable (v : ShieldedUnshieldVelocity)

/-- `RecordBlock`. -/
def recordBlock (height : ℕ) (netEgress : CAmount) : ShieldedUnshieldVelocity :=
  ⟨v.egress.insert height (if 0 < netEgress then netEgress else 0)⟩

/-- `UndoBlock`. -/
def undoBlock (height : ℕ) : ShieldedUnshieldVelocity :=
  ⟨v.egress.erase height⟩

/-- The loop of `WindowTotal`, down from height `h` over at most `n` heights. -/
def windowLoop (v : ShieldedUnshieldVelocity) : ℕ → ℕ → CAmount → CAmount
  | 0, _, total => total
  | n + 1, h, total =>
      let total := total + (v.egress h).getD 0
      if (v.egress h).isSome ∧ maxMoney ≤ total then maxMoney
      else match h with
        | 0 => total
        | h + 1 => windowLoop v n h total

/-- `WindowTotal`. -/
def windowTotal (tipHeight windowBlocks : ℕ) : CAmount :=
  v.windowLoop windowBlocks tipHeight 0

/-- `WithinCap`. -/
def withinCap (tipHeight : ℕ) (poolBalance : CAmount)
    (capBps windowBlocks : ℕ) (minCap : CAmount) : Bool :=
  decide (v.windowTotal tipHeight windowBlocks ≤ windowCap poolBalance capBps minCap)

/-- `Prune`. -/
def prune (keepFromHeight : ℤ) : ShieldedUnshieldVelocity :=
  ⟨fun h => if (h : ℤ) < keepFromHeight then none else v.egress h⟩
end

variable {v : ShieldedUnshieldVelocity} {n h : ℕ} {total : CAmount}

theorem ext {w : ShieldedUnshieldVelocity} (h : ∀ height, v.egress height = w.egress height) :
    v = w :=
  congrArg mk (funext h)

/-- The loop stops at `MAX_MONEY`; only an entry can reach it. -/
theorem windowLoop_saturated
    (htotal : total < maxMoney) (hfull : maxMoney ≤ total + (v.egress h).getD 0) :
    v.windowLoop (n + 1) h total = maxMoney := by
  have hsome : (v.egress h).isSome = true := by
    cases hentry : v.egress h with
    | some e => rfl
    | none =>
      rw [hentry, Option.getD_none, add_zero] at hfull
      exact absurd hfull (not_le.mpr htotal)
  cases h with
  | zero | succ h => exact if_pos ⟨hsome, hfull⟩

theorem windowLoop_zero (hroom : total + (v.egress 0).getD 0 < maxMoney) :
    v.windowLoop (n + 1) 0 total = total + (v.egress 0).getD 0 :=
  if_neg fun hstop => absurd hstop.2 (not_le.mpr hroom)

theorem windowLoop_succ (hroom : total + (v.egress (h + 1)).getD 0 < maxMoney) :
    v.windowLoop (n + 1) (h + 1) total =
      v.windowLoop n h (total + (v.egress (h + 1)).getD 0) :=
  if_neg fun hstop => absurd hstop.2 (not_le.mpr hroom)

variable (v) in
theorem recordBlock_egress (height h : ℕ) {netEgress : CAmount} (hnonneg : 0 ≤ netEgress) :
    (v.recordBlock height netEgress).egress h =
      if h = height then some netEgress else v.egress h := by
  have hstored : (if 0 < netEgress then netEgress else 0) = netEgress := by
    split
    · rfl
    case isFalse hzero => exact le_antisymm hnonneg (not_lt.mp hzero)
  rw [recordBlock, hstored]
  exact Function.update_apply _ _ _ _

variable (v) in
theorem prune_egress (keepFrom : ℤ) (h : ℕ) :
    (v.prune keepFrom).egress h = if (h : ℤ) < keepFrom then none else v.egress h := rfl

variable (v) in
theorem undoBlock_egress (height h : ℕ) :
    (v.undoBlock height).egress h = if h = height then none else v.egress h :=
  Function.update_apply _ _ _ _

/-- The height that every caller of `Prune` keeps from, `height - 2 * static_cast<int32_t>(window)`.
Windows from `2 ^ 31` on are negative after the cast; the doubling overflows for windows in `[2 ^
30, 2 ^ 32 - 2 ^ 30)`, where the source has no meaning. -/
def keepFromHeight (height windowBlocks : ℕ) : ℤ :=
  height - 2 * (BitVec.ofNat 32 windowBlocks).toInt

theorem keepFromHeight_eq {windowBlocks : ℕ} (h : windowBlocks < 2 ^ 30) (height : ℕ) :
    keepFromHeight height windowBlocks = height - 2 * windowBlocks := by
  rw [keepFromHeight, BitVec.toInt_ofNat', Int.bmod_eq_of_le (by omega) (by omega)]

/-! ## The cap in 64 bits -/

section Cap64

variable {pool : ℤ} {bps : ℕ}

/-- `WindowCap` on `int64_t`: without a value where a product or the sum overflows. -/
def windowCap64 (poolBalance : CAmount) (capBps : ℕ) (minCap : CAmount) : Option CAmount :=
  let floor := max 0 minCap
  if poolBalance ≤ 0 ∨ capBps = 0 then some floor
  else do
    let whole ← checked 64 (poolBalance / 10000 * capBps)
    let product ← checked 64 (poolBalance % 10000 * capBps)
    let cap ← checked 64 (whole + product / 10000)
    return max (if cap < 0 ∨ maxMoney < cap then maxMoney else cap) floor

theorem share_eq (pool : ℤ) (bps : ℕ) :
    pool * bps / 10000 = pool / 10000 * bps + pool % 10000 * bps / 10000 := by
  conv_lhs => rw [← Int.mul_ediv_add_emod pool 10000, add_mul, mul_assoc]
  exact Int.mul_add_ediv_left _ _ (by norm_num)

theorem windowCap_eq (hpool : 0 ≤ pool) (bps : ℕ) (minCap : CAmount) : windowCap pool bps minCap =
      max (min (pool * bps / 10000) maxMoney) (max 0 minCap) := by
  have hshare : 0 ≤ pool * bps / 10000 := by positivity
  unfold windowCap
  dsimp only
  rw [← share_eq]
  split_ifs with hnone hcut
  · have hzero : pool * bps = 0 := by
      rcases hnone with hpool' | rfl
      · rw [le_antisymm hpool' hpool, zero_mul]
      · simp
    rw [hzero]
    simp [maxMoney, coin]
  · rw [min_eq_right (hcut.resolve_left hshare.not_gt).le]
  · rw [min_eq_left (not_lt.1 (not_or.1 hcut).2)]

theorem windowCap64_eq (hpool : 0 ≤ pool) (hbps : bps < 2 ^ 32) (minCap : CAmount) :
    windowCap64 pool bps minCap =
      if pool * bps / 10000 < 2 ^ 63 then some (windowCap pool bps minCap) else none := by
  have hrem : 0 ≤ pool % 10000 := Int.emod_nonneg _ (by norm_num)
  have hrem' : pool % 10000 < 10000 := Int.emod_lt_of_pos _ (by norm_num)
  have hsmall : pool % 10000 * bps < 2 ^ 46 :=
    calc pool % 10000 * bps ≤ 10000 * (2 ^ 32 : ℤ) := by gcongr; exact_mod_cast hbps.le
      _ < 2 ^ 46 := by norm_num
  have hwhole : 0 ≤ pool / 10000 * bps := by positivity
  have hfrac : 0 ≤ pool % 10000 * bps := by positivity
  have hshare := share_eq pool bps
  unfold windowCap64 windowCap
  dsimp only
  by_cases hnone : pool ≤ 0 ∨ bps = 0
  · have hzero : pool * bps = 0 := by
      rcases hnone with hpool' | rfl
      · rw [le_antisymm hpool' hpool, zero_mul]
      · simp
    rw [if_pos hnone, if_pos hnone, if_pos (by rw [hzero]; norm_num)]
  · rw [if_neg hnone, if_neg hnone, checked.eq_def 64 (pool % 10000 * bps), if_pos (by omega)]
    by_cases hover : pool / 10000 * bps < 2 ^ 63
    · rw [checked.eq_def 64 (pool / 10000 * bps), if_pos (by omega)]
      simp only [bind, Option.bind_some, ← hshare]
      by_cases hfits : pool * bps / 10000 < 2 ^ 63
      · rw [checked, if_pos (by omega), if_pos hfits]
        rfl
      · rw [checked, if_neg (by omega), if_neg hfits]
        rfl
    · rw [checked.eq_def 64 (pool / 10000 * bps), if_neg (by omega), if_neg (by omega)]
      rfl

/-- **The cap is exact as long as the share fits in 64 bits.** -/
theorem windowCap64_exact_iff (hpool : MoneyRange pool) (hbps : bps < 2 ^ 32) (minCap : CAmount) :
    windowCap64 pool bps minCap =
        some (max (min (pool * bps / 10000) maxMoney) (max 0 minCap)) ↔
      pool * bps / 10000 < 2 ^ 63 := by
  rw [windowCap64_eq hpool.1 hbps, windowCap_eq hpool.1]
  split_ifs with hfits
  · exact iff_of_true rfl hfits
  · exact iff_of_false (by simp) hfits

/-- All the money there is, and the largest share: the first product overflows. -/
theorem windowCap64_overflow :
    MoneyRange maxMoney ∧ windowCap64 maxMoney (2 ^ 32 - 1) 0 = none := by
  decide +kernel

/-- A fifth of the pool. -/
theorem windowCap64_exact_iff_fifth : windowCap64 maxMoney 2000 0 =
      some (max (min (maxMoney * (2000 : ℕ) / 10000) maxMoney) (max 0 0)) :=
  (windowCap64_exact_iff (by decide) (by norm_num) 0).2 (by decide)

end Cap64

end ShieldedUnshieldVelocity

end Btx.Shielded
