/-
# Is the ASERT target monotone?

`CalculateMatMulAsertTarget` (`src/pow.cpp`), on the machine types. A shift to the right comes after
the product where the product fits in 256 bits, and before it where it does not. For anchors between
about `2 ^ 239` and `2 ^ 240` both orders occur at one shift, and the target can drop although the
exponent has grown (`asertTargetAt_drops`); for all others it is monotone (`asertRaw_mono`).
-/

import Mathlib
import Btx.Pow.Asert
import Btx.Util.ProductLoop

namespace Btx.Pow

open Util
open Option (some.inj)

/-! ## On the machine types -/

/-- The target at an exponent: the computation from the exponent on. -/
def asertTargetAt (anchorTarget powLimit : ℕ) (exponent : ℤ) : ℕ :=
  let factor := asertFactor (exponent % 2 ^ 16).toNat
  let nextTarget := asertShift anchorTarget factor (exponent / 2 ^ 16 - 16)
  clampRetargetResult (if nextTarget = 0 then 1 else nextTarget) powLimit

/-- The exponent in 128 bits, for `blocks = height_diff + 1`: a left shift wraps. -/
def asertExponent128 (p : Params) (timeDiff blocks halfLife : ℤ) : ℤ :=
  let scaled := Int.bmod ((timeDiff - p.nPowTargetSpacing * blocks) * 2 ^ 16) (2 ^ 128)
  let exponent := scaled.tdiv halfLife
  if int64Max < exponent then int64Max else if exponent < int64Min then int64Min else exponent

/-- `CalculateMatMulAsertTarget` on its machine types: without a value where `height_diff + 1`
overflows. -/
def calculateMatMulAsertTarget64 (p : Params) (anchorTarget : ℕ)
    (timeDiff heightDiff halfLife : ℤ) (powLimit : ℕ) : Option ℕ :=
  match asertTargetGuard p anchorTarget heightDiff halfLife powLimit with
  | some target => some target
  | none => do
    let blocks ← checked 64 (heightDiff + 1)
    return asertTargetAt anchorTarget powLimit (asertExponent128 p timeDiff blocks halfLife)

/-! ## Shifts -/

section Shifts

variable {val shift A f f' : ℕ} {ns : ℤ}

theorem saturatingLeftShift256_eq (hval : val ≤ maxUint) :
    saturatingLeftShift256 val shift = min maxUint (val * 2 ^ shift) := by
  have hpow : 0 < 2 ^ shift := Nat.two_pow_pos shift
  unfold saturatingLeftShift256
  split_ifs with hzero hwide hover
  · rcases hzero with rfl | rfl
    · rw [pow_zero, mul_one, min_eq_right hval]
    · rw [zero_mul, min_eq_right zero_le]
  · refine (min_eq_left ?_).symm
    have hle : 2 ^ 256 ≤ 2 ^ shift := Nat.pow_le_pow_right (by norm_num) hwide
    have hval' : 1 ≤ val := by omega
    calc maxUint ≤ 1 * 2 ^ shift := by unfold maxUint; omega
      _ ≤ val * 2 ^ shift := Nat.mul_le_mul_right _ hval'
  · exact (min_eq_left ((Nat.div_lt_iff_lt_mul hpow).1 hover).le).symm
  · exact (min_eq_right ((Nat.le_div_iff_mul_le hpow).1 (not_lt.1 hover))).symm

theorem asertShift_left (hA : A ≤ maxUint) (hA' : 0 < A) (hf : 0 < f) (hns : 0 ≤ ns) :
    asertShift A f ns = min maxUint (A * f * 2 ^ ns.toNat) := by
  unfold asertShift
  rw [if_neg (by omega), if_neg (by omega)]
  split_ifs with hwide
  · refine (min_eq_left ?_).symm
    have hle : 2 ^ 256 ≤ 2 ^ ns.toNat := Nat.pow_le_pow_right (by norm_num) (by omega)
    have hproduct : 1 ≤ A * f := Nat.mul_pos hA' hf
    calc maxUint ≤ 1 * 2 ^ ns.toNat := by unfold maxUint; omega
      _ ≤ A * f * 2 ^ ns.toNat := Nat.mul_le_mul_right _ hproduct
  · rw [saturatingMultiplyByUint32_eq hA, saturatingLeftShift256_eq (min_le_left _ _)]
    rcases le_total maxUint (A * f) with hover | hfits
    · have hpow : 1 ≤ 2 ^ ns.toNat := Nat.one_le_two_pow
      have hcut : maxUint ≤ maxUint * 2 ^ ns.toNat := Nat.le_mul_of_pos_right _ hpow
      rw [min_eq_left hover, min_eq_left hcut,
        min_eq_left (hcut.trans (Nat.mul_le_mul_right _ hover))]
    · rw [min_eq_right hfits]

theorem asertShift_multiplyFirst (hfits : A ≤ maxUint / f) (hf : 0 < f) (hlow : -256 < ns)
    (hneg : ns < 0) : asertShift A f ns = A * f / 2 ^ (-ns).toNat := by
  have hproduct : A * f ≤ maxUint := (Nat.le_div_iff_mul_le hf).1 hfits
  have hA : A ≤ maxUint := hfits.trans (Nat.div_le_self _ _)
  unfold asertShift
  rw [if_neg (by omega), if_pos hneg, if_neg (not_lt.2 hfits), saturatingMultiplyByUint32_eq hA,
    min_eq_right hproduct]

theorem asertShift_shiftFirst (hA : A ≤ maxUint) (hover : maxUint / f < A) (hlow : -256 < ns)
    (hneg : ns < 0) : asertShift A f ns = min maxUint (A / 2 ^ (-ns).toNat * f) := by
  unfold asertShift
  rw [if_neg (by omega), if_pos hneg, if_pos hover,
    saturatingMultiplyByUint32_eq ((Nat.div_le_self _ _).trans hA)]

/-! ## One order for all factors -/

/-- The factors there are: from 65536 to 131071. -/
def IsFactor (f : ℕ) : Prop := asertFactor 0 ≤ f ∧ f ≤ asertFactor 65535

/-- The two orders of the shift and the product do not both occur. -/
def OneOrder (A : ℕ) : Prop := A ≤ maxUint / asertFactor 65535 ∨ maxUint / asertFactor 0 < A

theorem asertFactor_mono {a b : ℕ} (h : a ≤ b) : asertFactor a ≤ asertFactor b := by
  unfold asertFactor
  gcongr

theorem asertFactor_zero : asertFactor 0 = 65536 := by decide

theorem asertFactor_top : asertFactor 65535 = 131071 := by decide

theorem OneOrder.multiply_or_shift (h : OneOrder A) :
    (∀ f, IsFactor f → A ≤ maxUint / f) ∨ ∀ f, IsFactor f → maxUint / f < A := by
  refine h.imp (fun hle f hf => ?_) fun hlt f hf => ?_
  · have hpos : 0 < f := lt_of_lt_of_le (by decide) hf.1
    exact hle.trans (Nat.div_le_div_left hf.2 hpos)
  · exact (Nat.div_le_div_left hf.1 (by decide)).trans_lt hlt

theorem asertShift_mono_factor (hA : A ≤ maxUint) (hA' : 0 < A) (horder : OneOrder A)
    (hf : IsFactor f) (hf' : IsFactor f') (hle : f ≤ f') :
    asertShift A f ns ≤ asertShift A f' ns := by
  have hpos : 0 < f := lt_of_lt_of_le (by decide) hf.1
  rcases le_or_gt ns (-256) with hlow | hlow
  · rw [asertShift, if_pos hlow]
    exact zero_le
  rcases lt_or_ge ns 0 with hneg | hns
  · rcases horder.multiply_or_shift with hmul | hshift
    · rw [asertShift_multiplyFirst (hmul f hf) hpos hlow hneg,
        asertShift_multiplyFirst (hmul f' hf') (hpos.trans_le hle) hlow hneg]
      gcongr
    · rw [asertShift_shiftFirst hA (hshift f hf) hlow hneg,
        asertShift_shiftFirst hA (hshift f' hf') hlow hneg]
      gcongr
  · rw [asertShift_left hA hA' hpos hns, asertShift_left hA hA' (hpos.trans_le hle) hns]
    gcongr

/-- The seam of two octaves: no factor passes the first of the next. -/
theorem asertShift_next_octave (hA : A ≤ maxUint) (hA' : 0 < A) (horder : OneOrder A)
    (hf : IsFactor f) : asertShift A f ns ≤ asertShift A (asertFactor 0) (ns + 1) := by
  have hpos : 0 < f := lt_of_lt_of_le (by decide) hf.1
  have hzero : IsFactor (asertFactor 0) := ⟨le_rfl, by decide⟩
  have htop : f ≤ 2 * asertFactor 0 := hf.2.trans (by decide)
  have htwice : A * f ≤ A * asertFactor 0 * 2 :=
    calc A * f ≤ A * (2 * asertFactor 0) := Nat.mul_le_mul_left A htop
      _ = A * asertFactor 0 * 2 := by ring
  rcases le_or_gt ns (-256) with hlow | hlow
  · rw [asertShift, if_pos hlow]
    exact zero_le
  rcases lt_or_ge ns (-1) with hneg | hns
  · have hpow : 2 ^ (-ns).toNat = 2 ^ (-(ns + 1)).toNat * 2 := by
      rw [← pow_succ]
      congr 1
      omega
    rcases horder.multiply_or_shift with hmul | hshift
    · rw [asertShift_multiplyFirst (hmul f hf) hpos hlow (by omega),
        asertShift_multiplyFirst (hmul _ hzero) (by decide) (by omega) (by omega), hpow,
        ← Nat.mul_div_mul_right (A * asertFactor 0) _ (show 0 < 2 by norm_num)]
      exact Nat.div_le_div_right htwice
    · rw [asertShift_shiftFirst hA (hshift f hf) hlow (by omega),
        asertShift_shiftFirst hA (hshift _ hzero) (by omega) (by omega), hpow,
        ← Nat.div_div_eq_div_mul]
      refine min_le_min_left _ ?_
      calc A / 2 ^ (-(ns + 1)).toNat / 2 * f
          ≤ A / 2 ^ (-(ns + 1)).toNat / 2 * (2 * asertFactor 0) := Nat.mul_le_mul_left _ htop
        _ = A / 2 ^ (-(ns + 1)).toNat / 2 * 2 * asertFactor 0 := by ring
        _ ≤ A / 2 ^ (-(ns + 1)).toNat * asertFactor 0 :=
            Nat.mul_le_mul_right _ (Nat.div_mul_le_self _ _)
  rcases lt_or_ge ns 0 with hneg | hns'
  · obtain rfl : ns = -1 := by omega
    have hright : asertShift A (asertFactor 0) (-1 + 1) = min maxUint (A * asertFactor 0) := by
      rw [show (-1 + 1 : ℤ) = 0 by norm_num, asertShift_left hA hA' (by decide) le_rfl]
      simp
    have hhalf : A * f / 2 ≤ A * asertFactor 0 := Nat.div_le_of_le_mul (by omega)
    rw [hright]
    rcases horder.multiply_or_shift with hmul | hshift
    · have hproduct : A * f ≤ maxUint := (Nat.le_div_iff_mul_le hpos).1 (hmul f hf)
      rw [asertShift_multiplyFirst (hmul f hf) hpos hlow hneg]
      exact le_min ((Nat.div_le_self _ _).trans hproduct) hhalf
    · rw [asertShift_shiftFirst hA (hshift f hf) hlow hneg]
      refine min_le_min_left _ (le_trans ?_ hhalf)
      rw [mul_comm, mul_comm A f]
      exact Nat.mul_div_le_mul_div_assoc f A 2
  · rw [asertShift_left hA hA' hpos hns', asertShift_left hA hA' (by decide) (by omega)]
    refine min_le_min_left _ ?_
    have hpow : 2 ^ (ns + 1).toNat = 2 * 2 ^ ns.toNat := by
      rw [← pow_succ']
      congr 1
      omega
    rw [hpow, ← mul_assoc]
    exact Nat.mul_le_mul_right _ htwice

end Shifts

/-! ## The target as a function of the exponent -/

section Exponent

variable {A limit : ℕ}

/-- The target before it is cut. -/
def asertRaw (A : ℕ) (exponent : ℤ) : ℕ :=
  asertShift A (asertFactor (exponent % 2 ^ 16).toNat) (exponent / 2 ^ 16 - 16)

theorem isFactor_asertFactor (exponent : ℤ) : IsFactor (asertFactor (exponent % 2 ^ 16).toNat) := by
  have hlt := Int.emod_lt_of_pos exponent (show (0 : ℤ) < 2 ^ 16 by decide)
  exact ⟨asertFactor_mono zero_le, asertFactor_mono (by omega)⟩

/-- **With one order the target is monotone in the exponent.** -/
theorem asertRaw_mono (hA : A ≤ maxUint) (hA' : 0 < A) (horder : OneOrder A) :
    Monotone (asertRaw A) := by
  refine monotone_int_of_le_succ fun e => ?_
  unfold asertRaw
  by_cases hlast : e % 2 ^ 16 = 65535
  · have hwhole : (e + 1) / 2 ^ 16 - 16 = e / 2 ^ 16 - 16 + 1 := by omega
    have hfrac : (e + 1) % 2 ^ 16 = 0 := by omega
    rw [hwhole, hfrac, Int.toNat_zero]
    exact asertShift_next_octave hA hA' horder (isFactor_asertFactor e)
  · have hwhole : (e + 1) / 2 ^ 16 - 16 = e / 2 ^ 16 - 16 := by omega
    rw [hwhole]
    refine asertShift_mono_factor hA hA' horder (isFactor_asertFactor e) (isFactor_asertFactor _)
      (asertFactor_mono ?_)
    omega

theorem asertTargetAt_eq (hlimit : 1 ≤ limit) (exponent : ℤ) :
    asertTargetAt A limit exponent = min limit (max 1 (asertRaw A exponent)) := by
  have hcut : ∀ raw, clampRetargetResult (if raw = 0 then 1 else raw) limit =
      min limit (max 1 raw) := fun raw => by
    simp only [clampRetargetResult]
    split_ifs <;> omega
  exact hcut _

theorem asertTargetAt_mono (hA : A ≤ maxUint) (hA' : 0 < A) (horder : OneOrder A)
    (hlimit : 1 ≤ limit) : Monotone (asertTargetAt A limit) := fun e e' hle => by
  rw [asertTargetAt_eq hlimit, asertTargetAt_eq hlimit]
  exact min_le_min_left _ (max_le_max_left _ (asertRaw_mono hA hA' horder hle))

theorem asertTargetAt_min (hlimit : 1 ≤ limit) : asertTargetAt A limit int64Min = 1 := by
  have hraw : asertRaw A int64Min = 0 := by
    unfold asertRaw asertShift
    exact if_pos (by decide)
  rw [asertTargetAt_eq hlimit, hraw]
  omega

theorem asertTargetAt_max (hlimit : 1 ≤ limit) (hmax : limit ≤ maxUint) :
    asertTargetAt A limit int64Max = limit := by
  have hraw : asertRaw A int64Max = maxUint := by
    unfold asertRaw asertShift
    rw [if_neg (by decide), if_neg (by decide), if_pos (by decide)]
  rw [asertTargetAt_eq hlimit, hraw]
  omega

/-- **With both orders it is not**: `2 ^ 16 - 1` steps up from the exponent `-224` the whole anchor
has been shifted away. -/
theorem asertTargetAt_drops (hA : A ≤ limit) (hband : ¬OneOrder A) :
    1 < asertTargetAt A limit (-224 * 2 ^ 16) ∧
      asertTargetAt A limit (-224 * 2 ^ 16 + 65535) = 1 := by
  unfold OneOrder at hband
  rw [not_or, not_le, not_lt, asertFactor_zero, asertFactor_top] at hband
  obtain ⟨hlow, hhigh⟩ := hband
  have hlow' : 2 ^ 238 < A := lt_trans (by decide) hlow
  have hhigh' : A < 2 ^ 240 := lt_of_le_of_lt hhigh (by decide)
  have hmax : A ≤ maxUint := hhigh'.le.trans (by decide)
  have hmultiply : asertRaw A (-224 * 2 ^ 16) = A * 65536 / 2 ^ 240 := by
    have hshift : asertShift A (asertFactor 0) (-240) = A * asertFactor 0 / 2 ^ 240 :=
      asertShift_multiplyFirst (by rwa [asertFactor_zero]) (by decide) (by decide) (by decide)
    rw [asertFactor_zero] at hshift
    exact hshift
  have hfirst : asertRaw A (-224 * 2 ^ 16 + 65535) = min maxUint (A / 2 ^ 240 * 131071) := by
    have hshift : asertShift A (asertFactor 65535) (-240) =
        min maxUint (A / 2 ^ 240 * asertFactor 65535) :=
      asertShift_shiftFirst hmax (by rwa [asertFactor_top]) (by decide) (by decide)
    rw [asertFactor_top] at hshift
    exact hshift
  have hlimit : 1 ≤ limit := by omega
  rw [asertTargetAt_eq hlimit, asertTargetAt_eq hlimit, hmultiply, hfirst]
  omega

end Exponent

/-! ## The target as a function of time and height -/

section Differences

variable {p : Params} {A limit : ℕ} {t t' h h' blocks blocks' halfLife lo hi : ℤ}

theorem asertExponent128_eq (hlow : -2 ^ 111 ≤ t - p.nPowTargetSpacing * (h + 1))
    (hhigh : t - p.nPowTargetSpacing * (h + 1) < 2 ^ 111) :
    asertExponent128 p t (h + 1) halfLife = asertExponent p t h halfLife := by
  have hscaled : Int.bmod ((t - p.nPowTargetSpacing * (h + 1)) * 2 ^ 16) (2 ^ 128) =
      (t - p.nPowTargetSpacing * (h + 1)) * 2 ^ 16 :=
    Int.bmod_eq_of_le (by omega) (by omega)
  unfold asertExponent128 asertExponent
  rw [hscaled]

/-- **On the types of a chain nothing wraps.** Times and the spacing are 64-bit, and heights less
than `2^32` apart; then the scaled time difference stays within `2^111`, and the target on the
machine types is the one computed without bounds. -/
theorem calculateMatMulAsertTarget64_eq (ht : int64Min ≤ t ∧ t ≤ int64Max) (hh : h < 2 ^ 32)
    (hspacing : p.nPowTargetSpacing ≤ int64Max) :
    calculateMatMulAsertTarget64 p A t h halfLife limit =
      some (calculateMatMulAsertTarget p A t h halfLife limit) := by
  unfold calculateMatMulAsertTarget64 calculateMatMulAsertTarget
  cases hguard : asertTargetGuard p A h halfLife limit with
  | some target => rfl
  | none =>
    -- what the guard lets through is not negative
    obtain ⟨hnonneg, hpos⟩ : 0 ≤ h ∧ 0 < p.nPowTargetSpacing := by
      unfold asertTargetGuard at hguard
      split_ifs at hguard
      omega
    unfold int64Min int64Max at *
    have hideal : p.nPowTargetSpacing * (h + 1) ≤ (2 ^ 63 - 1) * 2 ^ 32 :=
      mul_le_mul hspacing (by omega) (by omega) (by norm_num)
    have hideal' : 0 ≤ p.nPowTargetSpacing * (h + 1) := mul_nonneg hpos.le (by omega)
    have hnext : checked 64 (h + 1) = some (h + 1) := if_pos (by omega)
    rw [hnext, ← asertExponent128_eq (by omega) (by omega)]
    rfl

/-- An hour after the anchor, at spacing 90. -/
theorem calculateMatMulAsertTarget64_hour :
    let p : Params := { powLimit := 0, nPowTargetSpacing := 90, nPowTargetTimespan := 0 }
    calculateMatMulAsertTarget64 p 1000 3600 50 14400 5000 =
      some (calculateMatMulAsertTarget p 1000 3600 50 14400 5000) :=
  calculateMatMulAsertTarget64_eq (by decide) (by decide) (by decide)

theorem asertExponent_mono (hhalf : 0 < halfLife) (hspacing : 0 ≤ p.nPowTargetSpacing)
    (ht : t ≤ t') (hh : h ≤ h') :
    asertExponent p t h' halfLife ≤ asertExponent p t' h halfLife := by
  have hideal : p.nPowTargetSpacing * (h + 1) ≤ p.nPowTargetSpacing * (h' + 1) :=
    mul_le_mul_of_nonneg_left (by omega) hspacing
  have hquotient : ((t - p.nPowTargetSpacing * (h' + 1)) * 2 ^ 16).tdiv halfLife ≤
      ((t' - p.nPowTargetSpacing * (h + 1)) * 2 ^ 16).tdiv halfLife :=
    Int.tdiv_le_tdiv hhalf (by omega)
  have hrange : int64Min ≤ int64Max := by decide
  unfold asertExponent
  dsimp only
  split_ifs <;> omega

section

variable (hA : A ≠ 0) (hle : A ≤ limit)

include hA hle

theorem asertTargetGuard_eq : asertTargetGuard p A h halfLife limit =
      if h < 0 ∨ halfLife ≤ 0 ∨ p.nPowTargetSpacing ≤ 0 then some 1 else none := by
  unfold asertTargetGuard
  rw [if_neg (by omega)]
  split_ifs <;> first | rfl | omega

theorem calculateMatMulAsertTarget64_guarded
    (hguard : h < 0 ∨ halfLife ≤ 0 ∨ p.nPowTargetSpacing ≤ 0) :
    calculateMatMulAsertTarget64 p A t h halfLife limit = some 1 := by
  unfold calculateMatMulAsertTarget64
  rw [asertTargetGuard_eq hA hle, if_pos hguard]

theorem calculateMatMulAsertTarget64_computed (hh : 0 ≤ h)
    (hhalf : 0 < halfLife) (hspacing : 0 < p.nPowTargetSpacing) :
    calculateMatMulAsertTarget64 p A t h halfLife limit =
      if h < int64Max then some (asertTargetAt A limit (asertExponent128 p t (h + 1) halfLife))
      else none := by
  unfold calculateMatMulAsertTarget64
  rw [asertTargetGuard_eq hA hle, if_neg (by omega)]
  dsimp only
  unfold checked int64Max
  split_ifs with hfits hfits'
  · rfl
  · omega
  · omega
  · rfl

theorem exists_calculateMatMulAsertTarget64 (hh : h < int64Max) :
    ∃ v, calculateMatMulAsertTarget64 p A t h halfLife limit = some v ∧ 1 ≤ v ∧ v ≤ limit := by
  by_cases hguard : h < 0 ∨ halfLife ≤ 0 ∨ p.nPowTargetSpacing ≤ 0
  · exact ⟨1, calculateMatMulAsertTarget64_guarded hA hle hguard, le_rfl, by omega⟩
  · rw [calculateMatMulAsertTarget64_computed hA hle (by omega) (by omega) (by omega), if_pos hh]
    refine ⟨_, rfl, ?_⟩
    rw [asertTargetAt_eq (by omega)]
    omega

end

/-- A difference of an `int64_t`. -/
def IsInt64 (x : ℤ) : Prop := int64Min ≤ x ∧ x ≤ int64Max

instance decidableIsInt64 (x : ℤ) : Decidable (IsInt64 x) := inferInstanceAs (Decidable (_ ∧ _))

/-- There is a target for all half-lives, times and heights from `lo` to `hi`, and it does not fall
with the time nor rise with the height. -/
def MonotoneOver (p : Params) (A limit : ℕ) (lo hi : ℤ) : Prop :=
  ∀ halfLife t t' h h', IsInt64 halfLife → IsInt64 t → IsInt64 t' → t ≤ t' →
    lo ≤ h → h ≤ h' → h' ≤ hi →
    ∃ v v', calculateMatMulAsertTarget64 p A t h' halfLife limit = some v ∧
      calculateMatMulAsertTarget64 p A t' h halfLife limit = some v' ∧ v ≤ v'

theorem monotoneOver_of_oneOrder (hA : A ≠ 0) (hle : A ≤ limit) (hmax : limit ≤ maxUint)
    (hspacing : p.nPowTargetSpacing < 2 ^ 48) (horder : OneOrder A) (hlo : 0 ≤ lo)
    (hhi : hi < int64Max) : MonotoneOver p A limit lo hi := by
  intro halfLife t t' h h' _ ht ht' htime hlow hheight hhigh
  by_cases hguard : halfLife ≤ 0 ∨ p.nPowTargetSpacing ≤ 0
  · exact ⟨1, 1, calculateMatMulAsertTarget64_guarded hA hle (.inr hguard),
      calculateMatMulAsertTarget64_guarded hA hle (.inr hguard), le_rfl⟩
  obtain ⟨hhalf, hpos⟩ := not_or.1 hguard
  have hrange : ∀ t h, IsInt64 t → 0 ≤ h → h < int64Max →
      -2 ^ 111 ≤ t - p.nPowTargetSpacing * (h + 1) ∧
        t - p.nPowTargetSpacing * (h + 1) < 2 ^ 111 := fun t h ht hh hh' => by
    have hideal : p.nPowTargetSpacing * (h + 1) ≤ (2 ^ 48 - 1) * (2 ^ 63 - 1) :=
      mul_le_mul (by omega) (by unfold int64Max at hh'; omega) (by omega) (by norm_num)
    have hideal' : 0 ≤ p.nPowTargetSpacing * (h + 1) := mul_nonneg (by omega) (by omega)
    unfold IsInt64 int64Min int64Max at ht
    omega
  have hrange₁ := hrange t h' ht (by omega) (by omega)
  have hrange₂ := hrange t' h ht' (by omega) (by omega)
  rw [calculateMatMulAsertTarget64_computed hA hle (by omega) (by omega) (by omega),
    calculateMatMulAsertTarget64_computed hA hle (by omega) (by omega) (by omega),
    if_pos (by omega), if_pos (by omega), asertExponent128_eq hrange₁.1 hrange₁.2,
    asertExponent128_eq hrange₂.1 hrange₂.2]
  exact ⟨_, _, rfl, rfl, asertTargetAt_mono (hle.trans hmax) (by omega) horder (by omega)
    (asertExponent_mono (by omega) (by omega) htime hheight)⟩

theorem asertExponent128_above
    (h : int64Max < Int.bmod ((t - p.nPowTargetSpacing * blocks) * 2 ^ 16) (2 ^ 128)) :
    asertExponent128 p t blocks 1 = int64Max := by
  unfold asertExponent128
  dsimp only
  rw [Int.tdiv_one]
  exact if_pos h

theorem asertExponent128_below
    (h : Int.bmod ((t - p.nPowTargetSpacing * blocks) * 2 ^ 16) (2 ^ 128) < int64Min) :
    asertExponent128 p t blocks 1 = int64Min := by
  have hrange : int64Min ≤ int64Max := by decide
  unfold asertExponent128
  dsimp only
  rw [Int.tdiv_one]
  rw [if_neg (by omega), if_pos h]

section

variable (hA : A ≠ 0) (hle : A ≤ limit) (hmax : limit ≤ maxUint) (hlimit : limit ≠ 1)

include hA hle hmax hlimit

theorem not_monotoneOver_of_wrap (hspacing : 2 ^ 48 ≤ p.nPowTargetSpacing)
    (hspacing' : p.nPowTargetSpacing ≤ int64Max) (hlo : lo ≤ 0) (hhi : int64Max - 1 ≤ hi) :
    ¬MonotoneOver p A limit lo hi := by
  intro hmono
  unfold int64Max at hspacing' hhi
  set top := (2 ^ 111 - 2 ^ 63) / p.nPowTargetSpacing with htop
  have hbelow : p.nPowTargetSpacing * top ≤ 2 ^ 111 - 2 ^ 63 := Int.mul_ediv_self_le (by omega)
  have habove : 2 ^ 111 - 2 ^ 63 < p.nPowTargetSpacing * (top + 1) := by
    rw [mul_add, mul_one]
    exact Int.lt_mul_ediv_self_add (by omega)
  have htop₁ : 1 ≤ top := (Int.le_ediv_iff_mul_le (by omega)).2 (by omega)
  have htop₂ : top ≤ 2 ^ 63 - 2 := by
    by_contra hover
    have hle := mul_le_mul hspacing (show 2 ^ 63 - 1 ≤ top by omega) (by norm_num) (by omega)
    omega
  obtain ⟨v, v', hv, hv', hvv'⟩ := hmono 1 int64Min int64Min (top - 1) top (by decide) (by decide)
    (by decide) le_rfl (by omega) (by omega) (by omega)
  have hnext :
      p.nPowTargetSpacing * (top + 1) = p.nPowTargetSpacing * top + p.nPowTargetSpacing := by
    ring
  have hwrapped : int64Max <
      Int.bmod ((int64Min - p.nPowTargetSpacing * (top + 1)) * 2 ^ 16) (2 ^ 128) := by
    rw [Int.bmod]
    unfold int64Max int64Min
    omega
  have hhardest : Int.bmod ((int64Min - p.nPowTargetSpacing * (top - 1 + 1)) * 2 ^ 16) (2 ^ 128) <
      int64Min := by
    rw [sub_add_cancel, Int.bmod]
    unfold int64Min
    have hpositive : 0 ≤ p.nPowTargetSpacing * top := mul_nonneg (by omega) (by omega)
    omega
  rw [calculateMatMulAsertTarget64_computed hA hle (by omega) (by norm_num) (by omega),
    if_pos (by unfold int64Max; omega), asertExponent128_above hwrapped,
    asertTargetAt_max (by omega) hmax] at hv
  rw [calculateMatMulAsertTarget64_computed hA hle (by omega) (by norm_num) (by omega),
    if_pos (by unfold int64Max; omega), asertExponent128_below hhardest,
    asertTargetAt_min (by omega)] at hv'
  cases hv
  cases hv'
  omega

theorem not_monotoneOver_of_negative (hspacing : 0 < p.nPowTargetSpacing)
    (hspacing' : p.nPowTargetSpacing < 2 ^ 48) (hlo : lo < 0) (hhi : int64Max - 1 ≤ hi) :
    ¬MonotoneOver p A limit lo hi := by
  intro hmono
  unfold int64Max at hhi
  obtain ⟨v, v', hv, hv', hvv'⟩ := hmono 1 int64Max int64Max lo 0 (by decide) (by decide)
    (by decide) le_rfl le_rfl (by omega) (by omega)
  have hlate : int64Max <
      Int.bmod ((int64Max - p.nPowTargetSpacing * (0 + 1)) * 2 ^ 16) (2 ^ 128) := by
    rw [Int.bmod]
    unfold int64Max
    omega
  rw [calculateMatMulAsertTarget64_computed hA hle le_rfl (by norm_num) hspacing,
    if_pos (by decide), asertExponent128_above hlate, asertTargetAt_max (by omega) hmax] at hv
  rw [calculateMatMulAsertTarget64_guarded hA hle (.inl hlo)] at hv'
  cases hv
  cases hv'
  omega

end

/-- Anchors at which both orders occur, with a half-life of `2 ^ 16` seconds and at the anchor's own
height: the exponent is then the time less one spacing. -/
theorem not_monotoneOver_of_band (hA : A ≠ 0) (hle : A ≤ limit) (hband : ¬OneOrder A)
    (hspacing : 0 < p.nPowTargetSpacing) (hspacing' : p.nPowTargetSpacing ≤ int64Max) (hlo : lo ≤ 0)
    (hhi : int64Max - 1 ≤ hi) : ¬MonotoneOver p A limit lo hi := by
  intro hmono
  unfold int64Max at hspacing' hhi
  have hexponent : ∀ e, -2 ^ 30 ≤ e → e < 0 →
      asertExponent128 p (e + p.nPowTargetSpacing) (0 + 1) (2 ^ 16) = e := fun e hlow hneg => by
    rw [asertExponent128_eq (by omega) (by omega)]
    unfold asertExponent
    rw [show e + p.nPowTargetSpacing - p.nPowTargetSpacing * (0 + 1) = e by ring,
      Int.mul_tdiv_cancel _ (by norm_num)]
    unfold int64Max int64Min
    dsimp only
    rw [if_neg (by omega), if_neg (by omega)]
  have hint : ∀ e, -2 ^ 30 ≤ e → e < 0 → IsInt64 (e + p.nPowTargetSpacing) := fun e hlow hneg => by
    unfold IsInt64 int64Max int64Min
    omega
  obtain ⟨v, v', hv, hv', hvv'⟩ := hmono (2 ^ 16) (-224 * 2 ^ 16 + p.nPowTargetSpacing)
    (-224 * 2 ^ 16 + 65535 + p.nPowTargetSpacing) 0 0 (by decide)
    (hint _ (by norm_num) (by norm_num)) (hint _ (by norm_num) (by norm_num)) (by omega) hlo le_rfl
    (by omega)
  rw [calculateMatMulAsertTarget64_computed hA hle le_rfl (by norm_num) hspacing,
    if_pos (by decide), hexponent _ (by norm_num) (by norm_num)] at hv
  rw [calculateMatMulAsertTarget64_computed hA hle le_rfl (by norm_num) hspacing,
    if_pos (by decide), hexponent _ (by norm_num) (by norm_num)] at hv'
  obtain ⟨hbefore, hafter⟩ := asertTargetAt_drops hle hband
  cases hv
  cases hv'
  omega

/-- **When the target is monotone** over all half-lives and times, and all heights from `lo ≤ 0` to
the top of the range or one below it: exactly if the anchor is 0 or the spacing not positive (the
target is constant), or the height stops short of the top and either the limit is 1 or no height is
negative (below 0 the source fails closed), the spacing is below `2 ^ 48` (the shift by 16 bits does
not wrap) and one order of shift and product serves all factors. -/
theorem monotoneOver_iff (hle : A ≤ limit) (hmax : limit ≤ maxUint)
    (hspacing : IsInt64 p.nPowTargetSpacing) (hlo : lo ≤ 0) (hhi : int64Max - 1 ≤ hi)
    (hhi' : hi ≤ int64Max) :
    MonotoneOver p A limit lo hi ↔
      A = 0 ∨ p.nPowTargetSpacing ≤ 0 ∨ (hi < int64Max ∧
        (limit = 1 ∨ (0 ≤ lo ∧ p.nPowTargetSpacing < 2 ^ 48 ∧ OneOrder A))) := by
  by_cases hzero : A = 0
  · refine iff_of_true (fun halfLife t t' h h' _ _ _ _ _ _ _ => ⟨limit, limit, ?_, ?_, le_rfl⟩)
      (.inl hzero)
    all_goals simp only [calculateMatMulAsertTarget64, asertTargetGuard, hzero, true_or, if_true]
  by_cases hpos : p.nPowTargetSpacing ≤ 0
  · refine iff_of_true (fun halfLife t t' h h' _ _ _ _ _ _ _ => ⟨1, 1, ?_, ?_, le_rfl⟩)
      (.inr (.inl hpos))
    all_goals exact calculateMatMulAsertTarget64_guarded hzero hle (.inr (.inr hpos))
  rw [or_iff_right hzero, or_iff_right hpos]
  constructor
  · intro hmono
    have htop : hi < int64Max := by
      by_contra hnot
      obtain ⟨v, -, hv, -, -⟩ := hmono 1 0 0 hi hi (by decide) (by decide) (by decide) le_rfl
        (by unfold int64Max at hhi; omega) le_rfl le_rfl
      rw [calculateMatMulAsertTarget64_computed hzero hle (by unfold int64Max at hhi; omega)
        (by norm_num) (by omega), if_neg hnot] at hv
      cases hv
    refine ⟨htop, or_iff_not_imp_left.2 fun hlimit => ?_⟩
    have hsmall : p.nPowTargetSpacing < 2 ^ 48 := by
      by_contra hlarge
      exact not_monotoneOver_of_wrap hzero hle hmax hlimit (not_lt.1 hlarge) hspacing.2 hlo hhi
        hmono
    refine ⟨?_, hsmall, ?_⟩
    · by_contra hnegative
      exact not_monotoneOver_of_negative hzero hle hmax hlimit (by omega) hsmall
        (not_le.1 hnegative)
        hhi hmono
    · by_contra hband
      exact not_monotoneOver_of_band hzero hle hband (by omega) hspacing.2 hlo hhi hmono
  · rintro ⟨htop, rfl | ⟨hlo', hsmall, horder⟩⟩
    · intro halfLife t t' h h' _ _ _ _ _ hheight hhigh
      obtain ⟨v, hv, -, hv1⟩ := exists_calculateMatMulAsertTarget64 (p := p) (t := t)
        hzero hle (show h' < int64Max by omega)
      obtain ⟨v', hv', hv1', -⟩ := exists_calculateMatMulAsertTarget64 (p := p) (t := t')
        hzero hle (show h < int64Max by omega)
      exact ⟨v, v', hv, hv', by omega⟩
    · exact monotoneOver_of_oneOrder hzero hle hmax hsmall horder hlo' htop

end Differences

/-- The main network, 10000 blocks above an anchor of `3 * 2 ^ 238`: an hour later, the target is
the hardest one. -/
theorem mainnet_target_drops :
    calculateMatMulAsertTarget64 mainnet (3 * 2 ^ 238) 93690 10000 3600 mainnet.powLimit.toNat =
        some 49152 ∧
      calculateMatMulAsertTarget64 mainnet (3 * 2 ^ 238) 97289 10000 3600
        mainnet.powLimit.toNat = some 1 := by
  decide +kernel

/-- The main network and an anchor of `2 ^ 200`, from the anchor's height on. -/
theorem monotoneOver_iff_mainnet :
    MonotoneOver mainnet (2 ^ 200) mainnet.powLimit.toNat 0 (int64Max - 1) :=
  (monotoneOver_iff (by decide +kernel) (by decide +kernel) (by decide +kernel) le_rfl le_rfl
    (by decide)).2 (.inr (.inr ⟨by decide, .inr ⟨le_rfl, by decide, .inl (by decide +kernel)⟩⟩))

end Btx.Pow
