/-
# Exact products on floating-point units

`ExactGemmViaFloatSlices` (`src/matmul/matmul_v4_exact_float.cpp`): 8-bit entries are cut into
balanced digits, and the slices multiplied in blocks short enough for the accumulator. The
accumulator is a parameter, of which `ExactUpTo` is all that is asked.
-/

import Btx.Util.Panels
import Btx.Matmul.ExactGemmRadix
import Mathlib.Data.Int.Interval

namespace Btx.Matmul.ExactFloat

open Util V4 List Option

/-! ## Formats and slices -/

/-- `FpFormat`. -/
inductive FpFormat
  | fp8E4M3
  | fp4E2M1
  deriving DecidableEq

/-- `SliceScheme`. -/
structure SliceScheme where
  significandBits : ℕ
  maxFinite : ℕ
  sliceBits : ℕ
  sliceCount : ℕ
  deriving DecidableEq

/-- `SchemeFor`. -/
def schemeFor : FpFormat → SliceScheme
  | .fp8E4M3 => ⟨4, 448, 4, 2⟩
  | .fp4E2M1 => ⟨2, 6, 3, 3⟩

/-- The loop of `IsExactInFormat`: halved while it is even, `fuel` times at most. -/
def oddPart : ℕ → ℕ → ℕ
  | 0, a => a
  | fuel + 1, a => if a % 2 = 0 then oddPart fuel (a / 2) else a

/-- `IsExactInFormat`. -/
def isExactInFormat (v : ℤ) (fmt : FpFormat) : Bool :=
  let s := schemeFor fmt
  v = 0 ∨ (v.natAbs ≤ s.maxFinite ∧ oddPart v.natAbs v.natAbs < 2 ^ s.significandBits)

/-- `MaxExactAccumBlock`. -/
def maxExactAccumBlock (fmt : FpFormat) (accumSignificandBits : ℕ) : ℕ :=
  let productBits := 2 * ((schemeFor fmt).sliceBits - 1)
  if accumSignificandBits < productBits then 0
  else
    let shift := accumSignificandBits - productBits
    if 31 ≤ shift then 2 ^ 31 else 2 ^ shift

/-- `static_cast<int8_t>`. -/
def toS8 (x : ℤ) : ℤ := Int.bmod x (2 ^ 8)

/-- `static_cast<int32_t>`. -/
def toS32 (x : ℤ) : ℤ := Int.bmod x (2 ^ 32)

/-- Half the base of the digits. -/
def half (fmt : FpFormat) : ℤ := 2 ^ ((schemeFor fmt).sliceBits - 1)

/-- So many digits of a number by `ExtractBalancedDigit`, and what they leave. -/
def slicesFrom (h : ℤ) : ℕ → ℤ → List ℤ
  | 0, x => [x]
  | digits + 1, x =>
    balancedDigit h x :: slicesFrom h digits ((x - balancedDigit h x) / (2 * h))

/-- The slices of an entry. -/
def slices (fmt : FpFormat) (x : ℤ) : List ℤ :=
  slicesFrom (half fmt) ((schemeFor fmt).sliceCount - 1) x

/-- `DecomposeSlicePlanes`: plane `sl`. -/
def decomposeSlicePlanes (vals : List Int8) (fmt : FpFormat) (sl : ℕ) : List ℤ :=
  vals.map fun x => toS8 ((slices fmt x.toInt).getD sl 0)

/-! ## The product -/

variable (mac : ℤ → ℤ → ℤ → Option ℤ)

/-- An entry of the product of two planes, block by block: the sum of a block in the
accumulator, the sum of the blocks in an `int32_t`. -/
def sliceDot (kprime inner : ℕ) (a b : ℕ → ℤ) : Option ℤ :=
  (panels kprime inner).foldlM (fun total p => do
    let block ← (List.range p.2).foldlM (fun block kk => mac block (a (p.1 + kk)) (b (p.1 + kk))) 0
    checked 32 (total + block)) 0

/-- The body of the loops over the planes: weighted, in an `int64_t`. -/
def sliceRound (A B : List Int8) (rows inner cols : ℕ)
    (fmt : FpFormat) (kprime si : ℕ) (acc : List ℤ) (tj : ℕ) : Option (List ℤ) :=
  let Ai := decomposeSlicePlanes A fmt si
  let Bj := decomposeSlicePlanes B fmt tj
  let weight := 2 ^ ((schemeFor fmt).sliceBits * (si + tj))
  (List.range (rows * cols)).mapM fun place => do
    let total ← sliceDot mac kprime inner (cell Ai inner (place / cols))
      (cell Bj cols · (place % cols))
    macInt 64 (acc.getD place 0) weight total

/-- `ExactGemmViaFloatSlices`, on any accumulator for the blocks. -/
def gemmViaSlices (A B : List Int8) (rows inner cols : ℕ)
    (fmt : FpFormat) (accumSignificandBits : ℕ) : Option (List ℤ) := do
  let kprime := maxExactAccumBlock fmt accumSignificandBits
  if kprime = 0 ∨ rows = 0 ∨ inner = 0 ∨ cols = 0 then return []
  let count := (schemeFor fmt).sliceCount
  let acc ← (List.range count).foldlM (fun acc si =>
    (List.range count).foldlM (sliceRound mac A B rows inner cols fmt kprime si) acc)
    (List.replicate (rows * cols) 0)
  return acc.map toS32

/-- `ExactGemmViaFloatSlices`. -/
def exactGemmViaFloatSlices (A B : List Int8) (rows inner cols : ℕ) (fmt : FpFormat)
    (accumSignificandBits : ℕ) : Option (List ℤ) :=
  gemmViaSlices (macInt 32) A B rows inner cols fmt accumSignificandBits

/-- An accumulator that is exact on integers up to `2 ^ t`: a floating-point unit with that many
bits, however it rounds beyond. -/
def ExactUpTo (t : ℕ) (mac : ℤ → ℤ → ℤ → Option ℤ) : Prop :=
  ∀ acc x y, |x * y| < 2 ^ 31 → |acc + x * y| < 2 ^ 31 → |acc + x * y| ≤ 2 ^ t →
    mac acc x y = some (acc + x * y)

/-- An accumulator that stops where a sum exceeds `2 ^ t`. -/
def macUpTo (t : ℕ) (acc x y : ℤ) : Option ℤ :=
  if |acc + x * y| ≤ 2 ^ t then some (acc + x * y) else none

theorem exactUpTo_macInt (t : ℕ) : ExactUpTo t (macInt 32) := fun acc x y hxy hsum _ => by
  rw [macInt, checked_eq hxy, bind_some, checked_eq hsum]

theorem exactUpTo_macUpTo (t : ℕ) : ExactUpTo t (macUpTo t) := fun _ _ _ _ _ hfits => if_pos hfits

/-! ## Numbers of a format -/

/-- An integer of the format: in its range, and a significand of its width times a power of 2. -/
def Representable (fmt : FpFormat) (v : ℤ) : Prop :=
  v.natAbs ≤ (schemeFor fmt).maxFinite ∧
    ∃ m e, m < 2 ^ (schemeFor fmt).significandBits ∧ v.natAbs = m * 2 ^ e

theorem oddPart_mul (fuel a : ℕ) : ∃ e, a = oddPart fuel a * 2 ^ e := by
  induction fuel generalizing a with
  | zero => exact ⟨0, by simp [oddPart]⟩
  | succ fuel ih =>
    unfold oddPart
    split_ifs with heven
    · obtain ⟨e, he⟩ := ih (a / 2)
      refine ⟨e + 1, ?_⟩
      rw [pow_succ, ← mul_assoc, ← he]
      omega
    · exact ⟨0, by simp⟩

theorem oddPart_odd {fuel a : ℕ} (ha : 0 < a) (hfuel : a ≤ fuel) : oddPart fuel a % 2 = 1 := by
  induction fuel generalizing a with
  | zero => omega
  | succ fuel ih =>
    unfold oddPart
    split_ifs with heven
    · exact ih (by omega) (by omega)
    · omega

/-- **`IsExactInFormat` tells the integers of the format.** -/
theorem isExactInFormat_iff (v : ℤ) (fmt : FpFormat) :
    isExactInFormat v fmt = true ↔ Representable fmt v := by
  simp only [isExactInFormat, decide_eq_true_eq]
  constructor
  · rintro (rfl | ⟨hrange, hodd⟩)
    · exact ⟨zero_le, 0, 0, Nat.two_pow_pos _, rfl⟩
    · obtain ⟨e, he⟩ := oddPart_mul v.natAbs v.natAbs
      exact ⟨hrange, _, e, hodd, he⟩
  · rintro ⟨hrange, m, e, hm, hv⟩
    refine (eq_or_ne v 0).imp id fun hzero => ⟨hrange, lt_of_le_of_lt ?_ hm⟩
    have hpos : 0 < v.natAbs := Int.natAbs_pos.2 hzero
    obtain ⟨e', he'⟩ := oddPart_mul v.natAbs v.natAbs
    have hodd := oddPart_odd hpos le_rfl
    -- The odd part divides `m * 2 ^ e` and has no factor 2.
    have hdvd : oddPart v.natAbs v.natAbs ∣ m * 2 ^ e := hv ▸ ⟨2 ^ e', he'⟩
    have hcoprime : Nat.Coprime (oddPart v.natAbs v.natAbs) (2 ^ e) :=
      Nat.Coprime.pow_right e (Nat.coprime_two_right.2 (Nat.odd_iff.2 hodd))
    refine Nat.le_of_dvd (Nat.pos_of_ne_zero fun hm0 => ?_) (hcoprime.dvd_of_dvd_mul_right hdvd)
    rw [hm0, zero_mul] at hv
    omega

/-! ## Slices -/

section Slices

variable {h x : ℤ} {fmt : FpFormat} {digits : ℕ}

theorem length_slicesFrom : (slicesFrom h digits x).length = digits + 1 := by
  induction digits generalizing x with
  | zero => rfl
  | succ digits ih => rw [slicesFrom, length_cons, ih]

theorem ofDigits_slicesFrom : ofDigits h (slicesFrom h digits x) = x := by
  induction digits generalizing x with
  | zero => simp [slicesFrom, ofDigits]
  | succ digits ih =>
    show balancedDigit h x + 2 * h * ofDigits h (slicesFrom h digits _) = x
    rw [ih, balancedDigit_add]

theorem abs_le_of_mem_slicesFrom (hh : 0 < h) (hx : |x| ≤ h * (2 * h) ^ digits) :
    ∀ v ∈ slicesFrom h digits x, |v| ≤ h := by
  induction digits generalizing x with
  | zero => simpa [slicesFrom] using hx
  | succ digits ih =>
    obtain ⟨hlow, hhigh⟩ := balancedDigit_bounds hh x
    have hrest := balancedDigit_add h x
    set d := balancedDigit h x with hd
    set y := (x - d) / (2 * h) with hy
    set r := h * (2 * h) ^ digits with hr
    have hx' : |x| ≤ 2 * h * r := by rw [hr]; rw [pow_succ] at hx; linarith
    have hy' : |y| ≤ r := by
      rw [abs_le] at hx' ⊢
      constructor <;> by_contra hlt
      · have hle := mul_le_mul_of_nonneg_left (show y ≤ -r - 1 by omega) (show 0 ≤ 2 * h by omega)
        rw [mul_sub, mul_neg, mul_one] at hle
        omega
      · have hle := mul_le_mul_of_nonneg_left (show r + 1 ≤ y by omega) (show 0 ≤ 2 * h by omega)
        rw [mul_add, mul_one] at hle
        omega
    rw [slicesFrom, ← hd, ← hy]
    intro v hv
    rcases mem_cons.1 hv with rfl | hv
    · rw [abs_le]
      omega
    · exact ih hy' v hv

/-- Slice `i` of an entry. -/
def slice (fmt : FpFormat) (i : ℕ) (x : ℤ) : ℤ := (slices fmt x).getD i 0

theorem slice_zero (fmt : FpFormat) (i : ℕ) : slice fmt i 0 = 0 := by
  have hzeros : slices fmt 0 = List.replicate (schemeFor fmt).sliceCount 0 := by
    cases fmt <;> decide
  rw [slice, hzeros, getD_eq_getElem?_getD, getElem?_replicate]
  split_ifs <;> rfl

theorem abs_toInt_le (x : Int8) : |x.toInt| ≤ 128 := by
  have hlow := x.le_toInt
  have hhigh := x.toInt_lt
  rw [abs_le]
  omega

theorem abs_le_half (hx : |x| ≤ 128) : ∀ v ∈ slices fmt x, |v| ≤ half fmt := by
  refine abs_le_of_mem_slicesFrom (by cases fmt <;> decide) (hx.trans ?_)
  cases fmt <;> decide

theorem abs_slice_le (hx : |x| ≤ 128) (i : ℕ) : |slice fmt i x| ≤ half fmt := by
  rw [slice, getD_eq_getElem?_getD]
  cases hi : (slices fmt x)[i]? with
  | none => cases fmt <;> decide
  | some v => exact abs_le_half hx v (mem_of_getElem? hi)

/-- **An entry is the sum of its slices**, with their weights. -/
theorem sum_slice (fmt : FpFormat) (x : ℤ) :
    ∑ i ∈ Finset.range (schemeFor fmt).sliceCount, (2 * half fmt) ^ i * slice fmt i x = x := by
  have hvalue := ofDigits_eq_sum (half fmt) (slices fmt x)
  have hlength : (slices fmt x).length = (schemeFor fmt).sliceCount := by
    rw [slices, length_slicesFrom]
    cases fmt <;> rfl
  rw [slices, ofDigits_slicesFrom, ← slices, hlength] at hvalue
  exact hvalue.symm

/-- **Every slice is a number of the format.** -/
theorem representable_of_mem_slices (hx : |x| ≤ 128) {v : ℤ} (hv : v ∈ slices fmt x) :
    Representable fmt v := by
  have hle := abs_le.1 (abs_le_half hx v hv)
  rw [← isExactInFormat_iff]
  have hsmall : ∀ w ∈ Finset.Icc (-half fmt) (half fmt), isExactInFormat w fmt = true := by
    cases fmt <;> decide
  exact hsmall v (Finset.mem_Icc.2 hle)

/-- The casts to `int8_t` change nothing. -/
theorem decomposeSlicePlanes_eq (vals : List Int8) (fmt : FpFormat) (sl : ℕ) :
    decomposeSlicePlanes vals fmt sl = (vals.map Int8.toInt).map (slice fmt sl) := by
  rw [decomposeSlicePlanes, List.map_map]
  refine map_congr_left fun x _ => ?_
  have hle : -half fmt ≤ slice fmt sl x.toInt ∧ slice fmt sl x.toInt ≤ half fmt :=
    abs_le.1 (abs_slice_le (abs_toInt_le x) sl)
  have hhalf : half fmt ≤ 8 := by cases fmt <;> decide
  exact Int.bmod_eq_of_le (show -(256 : ℤ) / 2 ≤ slice fmt sl x.toInt by omega)
    (show slice fmt sl x.toInt < (256 + 1) / 2 by omega)

end Slices

/-! ## The product of two planes -/

section Blocks

variable {mac : ℤ → ℤ → ℤ → Option ℤ} {fmt : FpFormat} {t inner : ℕ} {a b : ℕ → ℤ}

theorem maxExactAccumBlock_mul_le (hpos : 0 < maxExactAccumBlock fmt t) :
    (maxExactAccumBlock fmt t : ℤ) * (half fmt * half fmt) ≤ 2 ^ t := by
  have hproduct : half fmt * half fmt = 2 ^ (2 * ((schemeFor fmt).sliceBits - 1)) := by
    rw [half, ← pow_add, two_mul]
  have hle : ∀ shift, 2 * ((schemeFor fmt).sliceBits - 1) + shift ≤ t →
      (2 : ℤ) ^ shift * (half fmt * half fmt) ≤ 2 ^ t := fun shift hshift => by
    rw [hproduct, ← pow_add]
    exact pow_le_pow_right₀ (by norm_num) (by omega)
  unfold maxExactAccumBlock at hpos ⊢
  dsimp only at hpos ⊢
  by_cases hnarrow : t < 2 * ((schemeFor fmt).sliceBits - 1)
  · rw [if_pos hnarrow] at hpos
    exact absurd hpos (Nat.lt_irrefl 0)
  · rw [if_neg hnarrow, apply_ite (Nat.cast (R := ℤ)), Nat.cast_pow, Nat.cast_pow, Nat.cast_ofNat]
    split_ifs with hwide
    · exact hle 31 (by omega)
    · exact hle _ (by omega)

theorem abs_sum_slices_le (ha : ∀ k, |a k| ≤ half fmt) (hb : ∀ k, |b k| ≤ half fmt)
    (start count : ℕ) :
    |∑ k ∈ Finset.range count, a (start + k) * b (start + k)| ≤
      count * (half fmt * half fmt) :=
  abs_sum_range_le fun k _ => by
    rw [abs_mul]
    exact mul_le_mul (ha _) (hb _) (abs_nonneg _) ((abs_nonneg _).trans (ha 0))

theorem half_mul_nonneg (fmt : FpFormat) : 0 ≤ half fmt * half fmt := by
  cases fmt <;> decide

theorem mul_half_lt {count : ℕ} (hcount : count ≤ 65535) :
    (count : ℤ) * (half fmt * half fmt) < 2 ^ 31 := by
  have hhalf : half fmt * half fmt ≤ 64 := by cases fmt <;> decide
  have hcount' : (count : ℤ) ≤ 65535 := by exact_mod_cast hcount
  calc (count : ℤ) * (half fmt * half fmt) ≤ 65535 * 64 :=
        mul_le_mul hcount' hhalf (half_mul_nonneg fmt) (by norm_num)
    _ < 2 ^ 31 := by norm_num

/-- **A block does not round**: all its partial sums are within the accumulator. -/
theorem block_eq (hmac : ExactUpTo t mac) (ha : ∀ k, |a k| ≤ half fmt)
    (hb : ∀ k, |b k| ≤ half fmt) (start : ℕ) {count : ℕ}
    (hblock : count ≤ maxExactAccumBlock fmt t) (hcount : count ≤ 65535) :
    (List.range count).foldlM
        (fun block kk => mac block (a (start + kk)) (b (start + kk))) 0 =
      some (∑ k ∈ Finset.range count, a (start + k) * b (start + k)) := by
  have hloop : ∃ block, (List.range count).foldlM
      (fun block kk => mac block (a (start + kk)) (b (start + kk))) 0 = (pure block : Option ℤ) ∧
      block = ∑ k ∈ Finset.range count, a (start + k) * b (start + k) :=
    foldlM_range_invariant
      (I := fun n block => block = ∑ k ∈ Finset.range n, a (start + k) * b (start + k))
      (Finset.sum_range_zero _).symm fun n hn block hI => by
        have hsum : block + a (start + n) * b (start + n) =
            ∑ k ∈ Finset.range (n + 1), a (start + k) * b (start + k) := by
          rw [hI, Finset.sum_range_succ]
        have hpos : 0 < maxExactAccumBlock fmt t := by omega
        have hle := abs_sum_slices_le ha hb start (n + 1)
        have hone : |a (start + n) * b (start + n)| ≤ ((1 : ℕ) : ℤ) * (half fmt * half fmt) := by
          simpa using abs_sum_slices_le ha hb (start + n) 1
        refine ⟨_, hmac _ _ _ (hone.trans_lt (mul_half_lt (by norm_num))) ?_ ?_, hsum⟩
        · rw [hsum]
          exact hle.trans_lt (mul_half_lt (by omega))
        · rw [hsum]
          refine hle.trans (le_trans ?_ (maxExactAccumBlock_mul_le hpos))
          refine mul_le_mul_of_nonneg_right ?_ (half_mul_nonneg fmt)
          exact_mod_cast (show n + 1 ≤ maxExactAccumBlock fmt t by omega)
  obtain ⟨block, hrun, rfl⟩ := hloop
  exact hrun

/-- **An entry of the product of two planes.** -/
theorem sliceDot_eq (hmac : ExactUpTo t mac) (hpos : 0 < maxExactAccumBlock fmt t)
    (hinner : inner ≤ 65535) (ha : ∀ k, |a k| ≤ half fmt) (hb : ∀ k, |b k| ≤ half fmt) :
    sliceDot mac (maxExactAccumBlock fmt t) inner a b =
      some (∑ k ∈ Finset.range inner, a k * b k) := by
  have hpanels := panels_abut hpos inner
  have hloop : ∃ total, sliceDot mac (maxExactAccumBlock fmt t) inner a b =
      (pure total : Option ℤ) ∧ total = ∑ k ∈ Finset.range inner, a k * b k :=
    hpanels.foldlM_invariant (I := fun n total => total = ∑ k ∈ Finset.range n, a k * b k)
      (Finset.sum_range_zero _).symm fun p hp total hI => by
        have hend := (hpanels.le_of_mem hp).2
        have hsum : total + ∑ k ∈ Finset.range p.2, a (p.1 + k) * b (p.1 + k) =
            ∑ k ∈ Finset.range (p.1 + p.2), a k * b k := by
          rw [hI, Finset.sum_range_add]
        have hle := abs_sum_slices_le ha hb 0 (p.1 + p.2)
        simp only [zero_add] at hle
        refine ⟨_, ?_, hsum⟩
        rw [block_eq hmac ha hb p.1 (panels_length_le hp) (by omega), bind_eq_bind, bind_some]
        refine checked_eq ?_
        rw [hsum]
        exact hle.trans_lt (mul_half_lt (by omega))
  obtain ⟨total, hrun, rfl⟩ := hloop
  exact hrun

end Blocks

/-! ## The whole product -/

section Product

variable {mac : ℤ → ℤ → ℤ → Option ℤ} {fmt : FpFormat} {t rows inner cols : ℕ} {A B : List Int8}

/-- What one pair of planes contributes to an entry. -/
def sliceTerm (A B : List Int8) (inner cols : ℕ) (fmt : FpFormat) (si tj i j : ℕ) : ℤ :=
  (2 * half fmt) ^ si * (2 * half fmt) ^ tj *
    dotEntry ((A.map Int8.toInt).map (slice fmt si)) ((B.map Int8.toInt).map (slice fmt tj))
      inner cols i j

theorem within_slice (vals : List Int8) (fmt : FpFormat) (sl : ℕ) :
    Within ((vals.map Int8.toInt).map (slice fmt sl)) (half fmt) :=
  within_of_mem (by cases fmt <;> decide) fun v hv => by
    obtain ⟨y, hy, rfl⟩ := List.mem_map.1 hv
    obtain ⟨x, -, rfl⟩ := List.mem_map.1 hy
    exact abs_slice_le (abs_toInt_le x) sl

theorem weight_eq (fmt : FpFormat) (si tj : ℕ) : (2 : ℤ) ^ ((schemeFor fmt).sliceBits * (si + tj)) =
    (2 * half fmt) ^ si * (2 * half fmt) ^ tj := by
  have hbase : 2 * half fmt = 2 ^ (schemeFor fmt).sliceBits := by cases fmt <;> decide
  rw [hbase, ← pow_add, ← pow_mul]

theorem abs_dotEntry_slices_le (hinner : inner ≤ 65535) (si tj i j : ℕ) :
    |dotEntry ((A.map Int8.toInt).map (slice fmt si)) ((B.map Int8.toInt).map (slice fmt tj))
      inner cols i j| < 2 ^ 31 :=
  (abs_dotEntry_le (within_slice A fmt si) (within_slice B fmt tj) inner cols i j).trans_lt
    (mul_half_lt hinner)

/-- A contribution is far below the range of `int64_t`. -/
theorem abs_sliceTerm_le (hinner : inner ≤ 65535) {si tj : ℕ}
    (hsi : si < (schemeFor fmt).sliceCount) (htj : tj < (schemeFor fmt).sliceCount) (i j : ℕ) :
    |sliceTerm A B inner cols fmt si tj i j| ≤ 2 ^ 12 * 2 ^ 31 := by
  have hweight : (2 * half fmt) ^ si * (2 * half fmt) ^ tj ≤ 2 ^ 12 := by
    rw [← weight_eq]
    refine pow_le_pow_right₀ (by norm_num) ?_
    cases fmt <;> simp only [schemeFor] at hsi htj ⊢ <;> omega
  have hnonneg : 0 ≤ (2 * half fmt) ^ si * (2 * half fmt) ^ tj :=
    weight_eq fmt si tj ▸ pow_nonneg (by norm_num) _
  rw [sliceTerm, abs_mul, abs_of_nonneg hnonneg]
  exact mul_le_mul hweight (abs_dotEntry_slices_le hinner si tj i j).le (abs_nonneg _) (by norm_num)

/-- **One pair of planes** is added to every entry, if the sums stay in range. -/
theorem sliceRound_eq (hmac : ExactUpTo t mac) (hpos : 0 < maxExactAccumBlock fmt t)
    (hinner : inner ≤ 65535) {si tj : ℕ} (hsi : si < (schemeFor fmt).sliceCount)
    (htj : tj < (schemeFor fmt).sliceCount) {e : ℕ → ℕ → ℤ} (he : ∀ i j, |e i j| < 2 ^ 60) :
    sliceRound mac A B rows inner cols fmt (maxExactAccumBlock fmt t) si (table rows cols e) tj =
      some (table rows cols fun i j => e i j + sliceTerm A B inner cols fmt si tj i j) := by
  refine mapM_eq_some fun place hplace => ?_
  rw [mem_range] at hplace
  have hterm :
      |sliceTerm A B inner cols fmt si tj (place / cols) (place % cols)| ≤ 2 ^ 12 * 2 ^ 31 :=
    abs_sliceTerm_le hinner hsi htj ..
  have hentry : (table rows cols e).getD place 0 = e (place / cols) (place % cols) := by
    rw [table, getD_eq_getElem?_getD, getElem?_map, getElem?_range hplace]
    rfl
  have hsum : |e (place / cols) (place % cols) +
      sliceTerm A B inner cols fmt si tj (place / cols) (place % cols)| < 2 ^ 63 := by
    refine (abs_add_le _ _).trans_lt ?_
    linarith [he (place / cols) (place % cols)]
  rw [decomposeSlicePlanes_eq, decomposeSlicePlanes_eq,
    sliceDot_eq hmac hpos hinner (fun k => within_slice A fmt si inner (place / cols) k)
      (fun k => within_slice B fmt tj cols k (place % cols)),
    bind_eq_bind, bind_some, hentry, weight_eq, macInt]
  change ((checked 64 (sliceTerm A B inner cols fmt si tj (place / cols) (place % cols))).bind
    fun product => checked 64 (e (place / cols) (place % cols) + product)) = _
  rw [checked_eq (hterm.trans_lt (by norm_num)), bind_some]
  exact checked_eq hsum

/-- The entries after `si` rows of pairs, and `tj` pairs of the next. -/
def partialEntry (A B : List Int8) (inner cols : ℕ) (fmt : FpFormat) (si tj i j : ℕ) : ℤ :=
  ∑ si' ∈ Finset.range si, ∑ tj' ∈ Finset.range (schemeFor fmt).sliceCount,
      sliceTerm A B inner cols fmt si' tj' i j +
    ∑ tj' ∈ Finset.range tj, sliceTerm A B inner cols fmt si tj' i j

theorem abs_partialEntry_lt (hinner : inner ≤ 65535) {si tj : ℕ}
    (hsi : si < (schemeFor fmt).sliceCount) (htj : tj ≤ (schemeFor fmt).sliceCount) (i j : ℕ) :
    |partialEntry A B inner cols fmt si tj i j| < 2 ^ 60 := by
  have hcount : (schemeFor fmt).sliceCount ≤ 3 := by cases fmt <;> decide
  have hrow : ∀ si' < (schemeFor fmt).sliceCount, ∀ n ≤ (schemeFor fmt).sliceCount,
      |∑ tj' ∈ Finset.range n, sliceTerm A B inner cols fmt si' tj' i j| ≤ 3 * (2 ^ 12 * 2 ^ 31) :=
    fun si' hsi' n hn => by
      refine (abs_sum_range_le fun tj' htj' => abs_sliceTerm_le hinner hsi' (by omega) i j).trans ?_
      exact mul_le_mul_of_nonneg_right (by exact_mod_cast hn.trans hcount) (by norm_num)
  have hrows := abs_sum_range_le (k := si) fun si' hsi' => hrow si' (by omega) _ le_rfl
  have hlast := hrow si hsi tj htj
  have hsi' : (si : ℤ) ≤ 3 := by exact_mod_cast (by omega : si ≤ 3)
  refine (abs_add_le _ _).trans_lt ?_
  linarith

/-- **All pairs of planes** make up the product. -/
theorem sliceRounds_eq (hmac : ExactUpTo t mac) (hpos : 0 < maxExactAccumBlock fmt t)
    (hinner : inner ≤ 65535) :
    (List.range (schemeFor fmt).sliceCount).foldlM (fun acc si =>
        (List.range (schemeFor fmt).sliceCount).foldlM
          (sliceRound mac A B rows inner cols fmt (maxExactAccumBlock fmt t) si) acc)
        (List.replicate (rows * cols) 0) =
      some (table rows cols (dotEntry (A.map Int8.toInt) (B.map Int8.toInt) inner cols)) := by
  have hloop : ∃ acc, (List.range (schemeFor fmt).sliceCount).foldlM (fun acc si =>
        (List.range (schemeFor fmt).sliceCount).foldlM
          (sliceRound mac A B rows inner cols fmt (maxExactAccumBlock fmt t) si) acc)
        (List.replicate (rows * cols) 0) = (pure acc : Option (List ℤ)) ∧
      acc = table rows cols
        (partialEntry A B inner cols fmt (schemeFor fmt).sliceCount 0) :=
    foldlM_range_invariant
      (I := fun si acc => acc = table rows cols (partialEntry A B inner cols fmt si 0))
      (by simp [partialEntry, table]) fun si hsi acc hacc => by
        have hrow : ∃ acc', (List.range (schemeFor fmt).sliceCount).foldlM
              (sliceRound mac A B rows inner cols fmt (maxExactAccumBlock fmt t) si) acc =
            (pure acc' : Option (List ℤ)) ∧ acc' = table rows cols
              (partialEntry A B inner cols fmt si (schemeFor fmt).sliceCount) :=
          foldlM_range_invariant
            (I := fun tj acc => acc = table rows cols (partialEntry A B inner cols fmt si tj))
            hacc fun tj htj acc hacc => by
              refine ⟨table rows cols (partialEntry A B inner cols fmt si (tj + 1)), ?_, rfl⟩
              rw [hacc, sliceRound_eq hmac hpos hinner hsi htj
                fun i j => abs_partialEntry_lt hinner hsi htj.le i j]
              refine congrArg some (table_congr fun i _ j _ => ?_)
              rw [partialEntry, partialEntry, Finset.sum_range_succ _ tj, add_assoc]
        obtain ⟨acc', hrun, rfl⟩ := hrow
        refine ⟨_, hrun, table_congr fun i _ j _ => ?_⟩
        rw [partialEntry, partialEntry, Finset.sum_range_succ, Finset.sum_range_zero, add_zero]
  obtain ⟨acc, hrun, rfl⟩ := hloop
  refine hrun.trans (congrArg some (table_congr fun i _ j _ => ?_))
  rw [partialEntry, Finset.sum_range_zero, add_zero]
  exact sum_digit_products (slice_zero fmt) (slice_zero fmt) (fun x _ => sum_slice fmt x)
    (fun x _ => sum_slice fmt x) inner cols i j

/-- What is returned: the product, but nothing at all where the inner dimension is 0. -/
def productOrNothing (A B : List Int8) (rows inner cols : ℕ) : List ℤ :=
  if inner = 0 then []
  else table rows cols (dotEntry (A.map Int8.toInt) (B.map Int8.toInt) inner cols)

/-- **The product on any accumulator that is exact up to `2 ^ t`.** -/
theorem gemmViaSlices_eq (hmac : ExactUpTo t mac) (hpos : 0 < maxExactAccumBlock fmt t)
    (hinner : inner ≤ 65535) :
    gemmViaSlices mac A B rows inner cols fmt t =
      some (productOrNothing A B rows inner cols) := by
  unfold gemmViaSlices productOrNothing
  dsimp only
  by_cases hempty : maxExactAccumBlock fmt t = 0 ∨ rows = 0 ∨ inner = 0 ∨ cols = 0
  · rw [if_pos hempty]
    split_ifs with hzero
    · rfl
    · have hnone : rows * cols = 0 := by
        rcases hempty with h | h | h | h
        · omega
        · rw [h, Nat.zero_mul]
        · omega
        · rw [h, mul_zero]
      rw [table, hnone]
      rfl
  · rw [if_neg hempty, if_neg (show ¬inner = 0 by omega), sliceRounds_eq hmac hpos hinner,
      bind_eq_bind, bind_some, map_table]
    refine congrArg some (table_congr fun i _ j _ => ?_)
    have hwithin : ∀ vals : List Int8, Within (vals.map Int8.toInt) 128 := fun vals =>
      within_of_mem (by norm_num) fun v hv => by
        obtain ⟨x, -, rfl⟩ := List.mem_map.1 hv
        exact abs_toInt_le x
    have hentry := abs_le.1 (abs_dotEntry_le (hwithin A) (hwithin B) inner cols i j)
    have hcast : (inner : ℤ) ≤ 65535 := by exact_mod_cast hinner
    exact Int.bmod_eq_of_le (by omega) (by omega)

theorem representable_of_mem_planes (vals : List Int8) (fmt : FpFormat) (sl : ℕ) :
    ∀ v ∈ decomposeSlicePlanes vals fmt sl, Representable fmt v := by
  rw [decomposeSlicePlanes_eq]
  intro v hv
  obtain ⟨y, hy, rfl⟩ := List.mem_map.1 hv
  obtain ⟨x, -, rfl⟩ := List.mem_map.1 hy
  rw [slice, getD_eq_getElem?_getD]
  cases hsl : (slices fmt x.toInt)[sl]? with
  | none => exact ⟨zero_le, 0, 0, Nat.two_pow_pos _, rfl⟩
  | some v => exact representable_of_mem_slices (abs_toInt_le x) (mem_of_getElem? hsl)

/-- **Products by slices are exact.** For every format, every accumulator that can hold a product,
inner dimensions from 1 to 65535 and all 8-bit matrices: the result is the integer product, every
slice is a number of the format, and no partial sum exceeds `2 ^ t`, so any accumulator that is
exact up to there gives the same. For an inner dimension of 0 nothing is returned. -/
theorem exactGemmViaFloatSlices_exact (hpos : 0 < maxExactAccumBlock fmt t)
    (hinner : inner ≤ 65535) (A B : List Int8) (rows cols : ℕ) :
    exactGemmViaFloatSlices A B rows inner cols fmt t =
        some (productOrNothing A B rows inner cols) ∧
      (∀ sl, ∀ v ∈ decomposeSlicePlanes A fmt sl, Representable fmt v) ∧
      (∀ sl, ∀ v ∈ decomposeSlicePlanes B fmt sl, Representable fmt v) ∧
      gemmViaSlices (macUpTo t) A B rows inner cols fmt t =
        some (productOrNothing A B rows inner cols) ∧
      ∀ mac, ExactUpTo t mac → gemmViaSlices mac A B rows inner cols fmt t =
        some (productOrNothing A B rows inner cols) :=
  ⟨gemmViaSlices_eq (exactUpTo_macInt t) hpos hinner, representable_of_mem_planes A fmt,
    representable_of_mem_planes B fmt, gemmViaSlices_eq (exactUpTo_macUpTo t) hpos hinner,
    fun _ hmac => gemmViaSlices_eq hmac hpos hinner⟩

/-- The product of a column without entries and a row without entries has one entry, 0; what is
returned has none. -/
theorem exactGemmViaFloatSlices_no_inner :
    exactGemmViaFloatSlices [] [] 1 0 1 .fp8E4M3 14 = some [] ∧
      table 1 1 (dotEntry ([] : List ℤ) [] 0 1) = [0] := by
  decide

end Product

/-- Two entries in blocks of one, on an accumulator of four bits. -/
theorem exactGemmViaFloatSlices_exact_pair :
    gemmViaSlices (macUpTo 4) [-128, 127] [127, -128] 1 2 1 .fp4E2M1 4 =
      some (productOrNothing [-128, 127] [127, -128] 1 2 1) :=
  (exactGemmViaFloatSlices_exact (by decide) (by norm_num) _ _ 1 1).2.2.2.1

end Btx.Matmul.ExactFloat
