/-
# Targets and their compact form

A target is an `arith_uint256`, here a natural number up to `maxUint`. A header stores its length in
bytes and the three leading bytes (`src/arith_uint256.cpp`); what is read back is at most what was
stored (`deriveTarget_getCompact`). The arithmetic of `src/pow.cpp` on targets saturates.
-/

import Mathlib.Data.Nat.Size
import Mathlib.Tactic.Ring

namespace Btx.Pow

open Option

/-- The largest `arith_uint256`. -/
def maxUint : ℕ := 2 ^ 256 - 1

/-- `std::numeric_limits<uint32_t>::max()`. -/
def uint32Max : ℕ := 2 ^ 32 - 1

/-! ## The compact form -/

/-- What `SetCompact` reads: the number and its two flags. -/
structure CompactTarget where
  value : ℕ
  negative : Bool
  overflow : Bool
  deriving DecidableEq

/-- The word of three bytes, moved to its place among the lowest three where the length is below
that. -/
def compactWord (nCompact : ℕ) : ℕ :=
  let nSize := nCompact / 2 ^ 24
  let nWord := nCompact % 2 ^ 23
  if nSize ≤ 3 then nWord / 256 ^ (3 - nSize) else nWord

/-- `arith_uint256::SetCompact`. -/
def setCompact (nCompact : ℕ) : CompactTarget :=
  let nSize := nCompact / 2 ^ 24
  let nWord := compactWord nCompact
  { value := if nSize ≤ 3 then nWord else nWord * 256 ^ (nSize - 3) % 2 ^ 256
    negative := nWord ≠ 0 ∧ nCompact.testBit 23
    overflow := nWord ≠ 0 ∧
      (34 < nSize ∨ (0xff < nWord ∧ 33 < nSize) ∨ (0xffff < nWord ∧ 32 < nSize)) }

/-- The length in bytes. -/
def byteSize (x : ℕ) : ℕ := (x.size + 7) / 8

/-- The three leading bytes, followed by zeros where there are fewer. -/
def leadingBytes (x : ℕ) : ℕ :=
  if byteSize x ≤ 3 then x * 256 ^ (3 - byteSize x) else x / 256 ^ (byteSize x - 3)

/-- `arith_uint256::GetCompact`. A top bit in the mantissa would be read as a sign: one byte less
is kept instead. -/
def getCompact (x : ℕ) : ℕ :=
  if 2 ^ 23 ≤ leadingBytes x then leadingBytes x / 256 + (byteSize x + 1) * 2 ^ 24
  else leadingBytes x + byteSize x * 2 ^ 24

/-- `DeriveTarget`. -/
def deriveTarget (nBits powLimit : ℕ) : Option ℕ :=
  let target := setCompact nBits
  if target.negative ∨ target.value = 0 ∨ target.overflow ∨ powLimit < target.value then none
  else some target.value

section Compact

variable {x m s limit : ℕ}

theorem setCompact_parts (hm : m < 2 ^ 23) :
    (m + s * 2 ^ 24) / 2 ^ 24 = s ∧ (m + s * 2 ^ 24) % 2 ^ 23 = m ∧
      (m + s * 2 ^ 24).testBit 23 = false := by
  refine ⟨by omega, by omega, ?_⟩
  rw [Nat.testBit_eq_decide_div_mod_eq, decide_eq_false_iff_not]
  omega

theorem setCompact_short (hm : m < 2 ^ 23) (hs : s ≤ 3) :
    setCompact (m + s * 2 ^ 24) = ⟨m / 256 ^ (3 - s), false, false⟩ := by
  obtain ⟨hsize, hword, hsign⟩ := setCompact_parts (s := s) hm
  have hshort : ¬(34 < s ∨ (0xff < m / 256 ^ (3 - s) ∧ 33 < s) ∨
      (0xffff < m / 256 ^ (3 - s) ∧ 32 < s)) := by omega
  unfold setCompact compactWord
  simp only [hsize, hword, hsign, if_pos hs, hshort]
  simp

theorem setCompact_long (hm : m < 2 ^ 23) (hs : 3 < s) (hlen : s ≤ 33)
    (htop : s = 33 → m < 2 ^ 16) (hfits : m * 256 ^ (s - 3) ≤ maxUint) :
    setCompact (m + s * 2 ^ 24) = ⟨m * 256 ^ (s - 3), false, false⟩ := by
  obtain ⟨hsize, hword, hsign⟩ := setCompact_parts (s := s) hm
  have hmod : m * 256 ^ (s - 3) % 2 ^ 256 = m * 256 ^ (s - 3) :=
    Nat.mod_eq_of_lt (by unfold maxUint at hfits; omega)
  have hshort : ¬(34 < s ∨ (0xff < m ∧ 33 < s) ∨ (0xffff < m ∧ 32 < s)) := by omega
  have hs' : ¬s ≤ 3 := by omega
  unfold setCompact compactWord
  simp only [hsize, hword, hsign, if_neg hs', hmod, hshort]
  simp

theorem byteSize_bounds (hx : x ≠ 0) :
    1 ≤ byteSize x ∧ 256 ^ (byteSize x - 1) ≤ x ∧ x < 256 ^ byteSize x := by
  have hsize : 0 < x.size := Nat.size_pos.2 (Nat.pos_of_ne_zero hx)
  have hpow : ∀ k, 256 ^ k = 2 ^ (8 * k) := fun k => by rw [pow_mul]; norm_num
  unfold byteSize
  refine ⟨by omega, ?_, ?_⟩
  · rw [hpow, ← Nat.lt_size]
    omega
  · rw [hpow, ← Nat.size_le]
    omega

theorem byteSize_le (hx : x ≤ maxUint) : byteSize x ≤ 32 := by
  have hsize : x.size ≤ 256 := Nat.size_le.2 (by unfold maxUint at hx; omega)
  unfold byteSize
  omega

theorem leadingBytes_bounds (hx : x ≠ 0) (hs : 3 < byteSize x) :
    256 ^ 2 ≤ leadingBytes x ∧ leadingBytes x < 256 ^ 3 ∧
      leadingBytes x * 256 ^ (byteSize x - 3) ≤ x := by
  obtain ⟨-, hlow, hhigh⟩ := byteSize_bounds hx
  have hunit : 0 < 256 ^ (byteSize x - 3) := Nat.pow_pos (by norm_num)
  rw [leadingBytes, if_neg (by omega)]
  refine ⟨?_, ?_, Nat.div_mul_le_self _ _⟩
  · rw [Nat.le_div_iff_mul_le hunit, ← pow_add]
    rwa [show 2 + (byteSize x - 3) = byteSize x - 1 by omega]
  · rw [Nat.div_lt_iff_lt_mul hunit, ← pow_add]
    rwa [show 3 + (byteSize x - 3) = byteSize x by omega]

theorem leadingBytes_short (hx : x ≠ 0) (hs : byteSize x ≤ 3) :
    leadingBytes x < 256 ^ 3 ∧ leadingBytes x / 256 ^ (3 - byteSize x) = x := by
  obtain ⟨-, -, hhigh⟩ := byteSize_bounds hx
  have hunit : 0 < 256 ^ (3 - byteSize x) := Nat.pow_pos (by norm_num)
  rw [leadingBytes, if_pos hs]
  refine ⟨?_, Nat.mul_div_cancel _ hunit⟩
  calc x * 256 ^ (3 - byteSize x)
      < 256 ^ byteSize x * 256 ^ (3 - byteSize x) := Nat.mul_lt_mul_of_pos_right hhigh hunit
    _ = 256 ^ 3 := by rw [← pow_add, Nat.add_sub_cancel' hs]

theorem leadingBytes_drop (hs : 3 ≤ byteSize x)
    (hle : leadingBytes x * 256 ^ (byteSize x - 3) ≤ x) :
    leadingBytes x / 256 * 256 ^ (byteSize x + 1 - 3) ≤ x := by
  calc leadingBytes x / 256 * 256 ^ (byteSize x + 1 - 3)
      = leadingBytes x / 256 * 256 * 256 ^ (byteSize x - 3) := by
        rw [show byteSize x + 1 - 3 = 1 + (byteSize x - 3) by omega, pow_add, pow_one, mul_assoc]
    _ ≤ leadingBytes x * 256 ^ (byteSize x - 3) :=
        Nat.mul_le_mul_right _ (Nat.div_mul_le_self _ _)
    _ ≤ x := hle

/-- **The compact form rounds down.** What is read back from it is not negative, has not
overflowed, is at most the number stored, and not zero. -/
theorem setCompact_getCompact (hx : x ≠ 0) (hmax : x ≤ maxUint) :
    ∃ v, setCompact (getCompact x) = ⟨v, false, false⟩ ∧ 1 ≤ v ∧ v ≤ x := by
  have hsize := byteSize_le hmax
  have hunit : ∀ k, 0 < 256 ^ k := fun k => Nat.pow_pos (by norm_num)
  unfold getCompact
  by_cases hs : byteSize x ≤ 3
  · obtain ⟨hlt, hback⟩ := leadingBytes_short hx hs
    split_ifs with htop
    · by_cases hthree : byteSize x = 3
      · have hle : leadingBytes x * 256 ^ (byteSize x - 3) ≤ x := by
          simpa [hthree] using hback.le
        have hdrop := leadingBytes_drop (by omega) hle
        exact ⟨_, setCompact_long (by omega) (by omega) (by omega) (by omega) (hdrop.trans hmax),
          Nat.mul_pos (by omega) (hunit _), hdrop⟩
      · have hsame : leadingBytes x / 256 / 256 ^ (3 - (byteSize x + 1)) = x := by
          rw [Nat.div_div_eq_div_mul, ← pow_succ',
            show 3 - (byteSize x + 1) + 1 = 3 - byteSize x by omega, hback]
        exact ⟨x, by rw [setCompact_short (by omega) (by omega), hsame], Nat.pos_of_ne_zero hx,
          le_rfl⟩
    · exact ⟨x, by rw [setCompact_short (by omega) hs, hback], Nat.pos_of_ne_zero hx, le_rfl⟩
  · obtain ⟨hlead, hlead', hle⟩ := leadingBytes_bounds hx (by omega)
    split_ifs with htop
    · have hdrop := leadingBytes_drop (by omega) hle
      exact ⟨_, setCompact_long (by omega) (by omega) (by omega) (by omega) (hdrop.trans hmax),
        Nat.mul_pos (by omega) (hunit _), hdrop⟩
    · exact ⟨_, setCompact_long (by omega) (by omega) (by omega) (by omega) (hle.trans hmax),
        Nat.mul_pos (by omega) (hunit _), hle⟩

theorem deriveTarget_getCompact (hx : x ≠ 0) (hlimit : x ≤ limit) (hmax : limit ≤ maxUint) :
    ∃ t, deriveTarget (getCompact x) limit = some t ∧ 1 ≤ t ∧ t ≤ x := by
  obtain ⟨v, hv, hpos, hle⟩ := setCompact_getCompact hx (hlimit.trans hmax)
  refine ⟨v, ?_, hpos, hle⟩
  have hzero : v ≠ 0 := by omega
  have hover : ¬limit < v := by omega
  simp [deriveTarget, hv, hzero, hover]

theorem deriveTarget_eq_some {nBits t : ℕ} (h : deriveTarget nBits limit = some t) :
    (setCompact nBits).value = t ∧ 1 ≤ t ∧ t ≤ limit := by
  unfold deriveTarget at h
  dsimp only at h
  split_ifs at h with hbad
  simp only [some.injEq] at h
  omega

end Compact

/-! ## Arithmetic on targets -/

/-- `ClampRetargetResult`. -/
def clampRetargetResult (target powLimit : ℕ) : ℕ :=
  let target := if target = 0 then 1 else target
  if powLimit < target then powLimit else target

/-- `SaturatingMultiplyByUint32`. -/
def saturatingMultiplyByUint32 (value factor : ℕ) : ℕ :=
  if value = 0 ∨ factor = 0 then 0
  else if maxUint / factor < value then maxUint
  else value * factor

/-- `SaturatingLeftShift256`. -/
def saturatingLeftShift256 (val shift : ℕ) : ℕ :=
  if shift = 0 ∨ val = 0 then val
  else if 256 ≤ shift then maxUint
  else if maxUint / 2 ^ shift < val then maxUint
  else val * 2 ^ shift

/-- A timespan as `ScaleTargetByTimespan` takes it: from 1 up to `UINT32_MAX`. -/
def clampTimespan (timespan : ℤ) : ℕ :=
  if timespan ≤ 0 then 1 else if (uint32Max : ℤ) < timespan then uint32Max else timespan.toNat

/-- `ScaleTargetByTimespan`. Quotient and remainder are scaled apart, so that no product exceeds
256 bits before it has been compared. -/
def scaleTargetByTimespan (target : ℕ) (actualTimespan targetTimespan : ℤ) : ℕ :=
  let actualU := clampTimespan actualTimespan
  let targetU := clampTimespan targetTimespan
  let quotient := target / targetU
  let remainder := target - quotient * targetU
  if maxUint / actualU < quotient then maxUint
  else
    let scaled := quotient * actualU
    let remainder := remainder * actualU / targetU
    if maxUint - remainder < scaled then maxUint else scaled + remainder

/-- `ReduceRescaleRatioToU64`. -/
def reduceRescaleRatioToU64 (num den : ℤ) : Option (ℕ × ℕ) :=
  if num ≤ 0 ∨ den ≤ 0 then none
  else some ((num / Int.gcd num den).toNat, (den / Int.gcd num den).toNat)

/-- `ReduceRescaleRatioToU32`: the terms in lowest form have to fit. -/
def reduceRescaleRatioToU32 (num den : ℤ) : Option (ℕ × ℕ) :=
  (reduceRescaleRatioToU64 num den).filter fun r => r.1 ≤ uint32Max ∧ r.2 ≤ uint32Max

/-- `DeriveMatMulEpochATransitionTarget`, on the wide integers of the source. -/
def deriveMatMulEpochATransitionTarget (parentTarget preHashEpsilonBits attemptRateNum
    attemptRateDen powLimit : ℕ) : Option ℕ :=
  if parentTarget = 0 ∨ attemptRateNum = 0 ∨ attemptRateDen = 0 ∨ powLimit = 0 then none
  else
    let preHashTarget := saturatingLeftShift256 parentTarget preHashEpsilonBits
    let target := parentTarget * preHashTarget * attemptRateNum / (attemptRateDen * 2 ^ 256)
    let target := if powLimit < target then powLimit else target
    some (if target = 0 then 1 else target)

/-- `MatMulAsertFailClosedBits`: the hardest target that can be stored. -/
def matMulAsertFailClosedBits : ℕ := getCompact 1

section Arithmetic

variable {target limit value factor n d : ℕ} {num den : ℤ}

theorem clampRetargetResult_bounds (target : ℕ) (hlimit : 1 ≤ limit) :
    1 ≤ clampRetargetResult target limit ∧ clampRetargetResult target limit ≤ limit := by
  simp only [clampRetargetResult]
  split_ifs <;> omega

theorem deriveTarget_clamped (target : ℕ) (hlimit : 1 ≤ limit) (hmax : limit ≤ maxUint) :
    ∃ t, deriveTarget (getCompact (clampRetargetResult target limit)) limit = some t ∧
      1 ≤ t ∧ t ≤ limit := by
  obtain ⟨hpos, hle⟩ := clampRetargetResult_bounds target hlimit
  obtain ⟨t, ht, htpos, htle⟩ := deriveTarget_getCompact (by omega) hle hmax
  exact ⟨t, ht, htpos, htle.trans hle⟩

theorem saturatingMultiplyByUint32_eq (hvalue : value ≤ maxUint) :
    saturatingMultiplyByUint32 value factor = min maxUint (value * factor) := by
  unfold saturatingMultiplyByUint32
  split_ifs with hzero hover
  · rcases hzero with rfl | rfl <;> simp
  · have hfactor : 0 < factor := by omega
    have := (Nat.div_lt_iff_lt_mul hfactor).1 hover
    omega
  · have hfactor : 0 < factor := by omega
    have := (Nat.le_div_iff_mul_le hfactor).1 (not_lt.1 hover)
    omega

theorem clampTimespan_of_fits (hn : 0 < n) (hfits : n ≤ uint32Max) : clampTimespan (n : ℤ) = n := by
  unfold clampTimespan
  rw [if_neg (by omega), if_neg (by omega), Int.toNat_natCast]

/-- **A target is scaled exactly, or saturated.** -/
theorem scaleTargetByTimespan_eq (hn : 0 < n) (hn' : n ≤ uint32Max) (hd : 0 < d)
    (hd' : d ≤ uint32Max) :
    scaleTargetByTimespan target n d = min maxUint (target * n / d) := by
  have hrem : target - target / d * d = target % d := by
    rw [Nat.mod_eq_sub_div_mul]
  have hsplit : target * n / d = target / d * n + target % d * n / d := by
    conv_lhs => rw [← Nat.div_add_mod target d]
    rw [add_mul, mul_assoc, Nat.mul_add_div hd]
  have hsmall : target % d * n / d ≤ maxUint := by
    have hlt : target % d * n ≤ d * n := Nat.mul_le_mul_right _ (Nat.mod_lt _ hd).le
    have : target % d * n / d ≤ n := Nat.div_le_of_le_mul hlt
    unfold uint32Max at hn'
    unfold maxUint
    omega
  simp only [scaleTargetByTimespan, clampTimespan_of_fits hn hn', clampTimespan_of_fits hd hd',
    hrem, hsplit]
  split_ifs with hquotient hsum
  · have hlt := (Nat.div_lt_iff_lt_mul hn).1 hquotient
    exact (min_eq_left (hlt.le.trans (Nat.le_add_right _ _))).symm
  · exact (min_eq_left (by omega)).symm
  · exact (min_eq_right (by omega)).symm

/-- A number of at most 256 bits, or an overflow. -/
def fits256 (x : ℕ) : Option ℕ := if x ≤ maxUint then some x else none

theorem fits256_eq {x : ℕ} (h : x ≤ maxUint) : fits256 x = some x := if_pos h

/-- `ScaleTargetByTimespan` with each of its products, and its sum, computed in 256 bits: without
a value if one of them would wrap. -/
def scaleTargetByTimespan256 (target : ℕ) (actualTimespan targetTimespan : ℤ) : Option ℕ := do
  let actualU := clampTimespan actualTimespan
  let targetU := clampTimespan targetTimespan
  let quotient := target / targetU
  let remainder := target - (← fits256 (quotient * targetU))
  if maxUint / actualU < quotient then some maxUint
  else do
    let scaled ← fits256 (quotient * actualU)
    let remainder := (← fits256 (remainder * actualU)) / targetU
    if maxUint - remainder < scaled then some maxUint else fits256 (scaled + remainder)

/-- No product wraps: the first is at most the target, the second has been compared, and the
remainder and the factor are below `2 ^ 32`. -/
theorem scaleTargetByTimespan256_eq (htarget : target ≤ maxUint) (hn : 0 < n)
    (hn' : n ≤ uint32Max) (hd : 0 < d) (hd' : d ≤ uint32Max) :
    scaleTargetByTimespan256 target n d = some (scaleTargetByTimespan target n d) := by
  have hfirst : target / d * d ≤ maxUint := (Nat.div_mul_le_self _ _).trans htarget
  have hrem : target - target / d * d ≤ uint32Max := by
    have := Nat.mod_lt target hd
    rw [Nat.mod_eq_sub_div_mul] at this
    omega
  have hthird : (target - target / d * d) * n ≤ maxUint :=
    calc (target - target / d * d) * n ≤ uint32Max * uint32Max := Nat.mul_le_mul hrem hn'
      _ ≤ maxUint := by decide
  simp only [scaleTargetByTimespan256, scaleTargetByTimespan, clampTimespan_of_fits hn hn',
    clampTimespan_of_fits hd hd', fits256_eq hfirst, fits256_eq hthird, bind_eq_bind, bind_some]
  by_cases hquotient : maxUint / n < target / d
  · rw [if_pos hquotient, if_pos hquotient]
  · have hsecond : target / d * n ≤ maxUint :=
      (Nat.le_div_iff_mul_le hn).1 (not_lt.1 hquotient)
    have hpart : (target - target / d * d) * n / d ≤ maxUint := (Nat.div_le_self _ _).trans hthird
    rw [if_neg hquotient, if_neg hquotient, fits256_eq hsecond, bind_some]
    split_ifs with hsum
    · rfl
    · exact fits256_eq (by omega)

/-- **A 256-bit target is scaled exactly or saturated, and no product wraps on the way.** -/
theorem scaleTargetByTimespan_exact (htarget : target ≤ maxUint) (hn : 0 < n)
    (hn' : n ≤ uint32Max) (hd : 0 < d) (hd' : d ≤ uint32Max) :
    scaleTargetByTimespan target n d = min maxUint (target * n / d) ∧
      scaleTargetByTimespan256 target n d = some (min maxUint (target * n / d)) := by
  have hvalue : scaleTargetByTimespan target n d = min maxUint (target * n / d) :=
    scaleTargetByTimespan_eq hn hn' hd hd'
  exact ⟨hvalue, by rw [scaleTargetByTimespan256_eq htarget hn hn' hd hd', hvalue]⟩

/-- The largest target, by the largest ratio below 1: the quotient alone fills 224 bits. -/
theorem scaleTargetByTimespan_exact_largest :
    scaleTargetByTimespan maxUint (uint32Max - 1 : ℕ) (uint32Max : ℕ) =
        min maxUint (maxUint * (uint32Max - 1) / uint32Max) ∧
      scaleTargetByTimespan256 maxUint (uint32Max - 1 : ℕ) (uint32Max : ℕ) =
        some (min maxUint (maxUint * (uint32Max - 1) / uint32Max)) :=
  scaleTargetByTimespan_exact le_rfl (by decide) (by decide) (by decide) (by decide)

theorem reduceRescaleRatioToU64_eq (h : reduceRescaleRatioToU64 num den = some (n, d)) :
    0 < n ∧ 0 < d ∧ ∃ g : ℕ, 0 < g ∧ num = n * g ∧ den = d * g := by
  unfold reduceRescaleRatioToU64 at h
  split_ifs at h with hsign
  obtain ⟨hnum, hden⟩ := not_or.1 hsign
  have hg : 0 < Int.gcd num den := Int.gcd_pos_of_ne_zero_left _ (by omega)
  have hpart : ∀ {x : ℤ}, 0 < x → (Int.gcd num den : ℤ) ∣ x →
      0 < x / Int.gcd num den ∧ x = x / Int.gcd num den * Int.gcd num den := fun hx hdvd =>
    ⟨Int.ediv_pos_of_pos_of_dvd hx (by omega) hdvd, (Int.ediv_mul_cancel hdvd).symm⟩
  obtain ⟨hnpos, hneq⟩ := hpart (not_le.1 hnum) (Int.gcd_dvd_left ..)
  obtain ⟨hdpos, hdeq⟩ := hpart (not_le.1 hden) (Int.gcd_dvd_right ..)
  simp only [some.injEq, Prod.mk.injEq] at h
  obtain ⟨rfl, rfl⟩ := h
  refine ⟨by omega, by omega, _, hg, ?_, ?_⟩
  · rwa [Int.toNat_of_nonneg hnpos.le]
  · rwa [Int.toNat_of_nonneg hdpos.le]

/-- **Reduced scaling is scaling by the ratio.** -/
theorem scaleTargetByTimespan_reduced (h : reduceRescaleRatioToU32 num den = some (n, d)) :
    scaleTargetByTimespan target n d = min maxUint (target * num.toNat / den.toNat) := by
  unfold reduceRescaleRatioToU32 at h
  obtain ⟨hreduced, hfits⟩ := filter_eq_some_iff.1 h
  obtain ⟨hn, hd, g, hg, rfl, rfl⟩ := reduceRescaleRatioToU64_eq hreduced
  obtain ⟨hn', hd'⟩ := of_decide_eq_true hfits
  have htoNat : ∀ k : ℕ, ((k : ℤ) * (g : ℤ)).toNat = k * g := fun k => by
    rw [← Int.natCast_mul, Int.toNat_natCast]
  rw [scaleTargetByTimespan_eq hn hn' hd hd', htoNat, htoNat, ← mul_assoc,
    Nat.mul_div_mul_right _ _ hg]

end Arithmetic

end Btx.Pow
