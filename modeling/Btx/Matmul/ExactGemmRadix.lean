/-
# A product of 32-bit by 8-bit entries from products of bytes

`ExactGemmS32S8ViaRadix256` (`src/matmul/exact_gemm_radix.h`): each `int32_t` is cut into a signed
top byte and three bytes less 128; the four products are added up on `uint32_t` and the offsets put
back. The multiplier of bytes is a parameter, with the number of the call, as it may keep a state.
Memory never runs out here.
-/

import Btx.Consensus.Amount
import Btx.Matmul.SketchAgreement
import Mathlib.Data.UInt

namespace Btx.Matmul.V4LT

open Util V4 List
open Option (bind_eq_bind bind_eq_some_iff some.injEq some.inj)

/-! ## The function -/

/-- `GemmS8S8`: left, right, rows, inner, columns. -/
abbrev GemmS8S8 := List Int8 → List Int8 → ℕ → ℕ → ℕ → Option (List Int32)

/-- `checked_product`. -/
def checkedProduct (a b : ℕ) : Option ℕ :=
  if a ≠ 0 ∧ sizeMax / a < b then none else some (a * b)

/-- `kMaxS32`. -/
def maxS32 : ℕ := 2 ^ 31 - 1

/-- The largest magnitude, as the two loops find it. -/
def maxMagnitude (values : List ℤ) : ℕ :=
  values.foldl (fun largest x => if largest < x.natAbs then x.natAbs else largest) 0

/-- The bound that is checked. -/
def withinBound (left : List Int32) (right : List Int8) (inner : ℕ) : Bool :=
  let maxLeft := maxMagnitude (left.map Int32.toInt)
  let maxRight := maxMagnitude (right.map Int8.toInt)
  !(maxLeft ≠ 0 ∧ maxRight ≠ 0 ∧
    (maxS32 / maxRight < maxLeft ∨ maxS32 / (maxLeft * maxRight) < inner))

/-- `right_column_sums`: the rows of the right matrix are added one after the other. -/
def rightColumnSums (right : List Int8) (inner cols : ℕ) : Option (List ℤ) :=
  rowLoop (fun acc (_ : ℤ) y => checked 64 (acc + y)) inner cols (fun _ => 1)
    (cell (right.map Int8.toInt) cols)

/-- An entry of plane `limb`: a byte, less 128 unless it is the top one. -/
def planeEntry (limb : ℕ) (x : Int32) : Int8 :=
  let byte := (x.toUInt32 >>> UInt32.ofNat (limb * 8)).toUInt8
  if limb = 3 then byte.toInt8 else Int8.ofInt (byte.toNat - 128)

/-- One round of the loop over the limbs. -/
def radixRound (gemmS8S8 : ℕ → GemmS8S8) (left : List Int32) (right : List Int8)
    (rows inner cols outElems : ℕ) (resultBits : List UInt32) (limb : ℕ) :
    Option (List UInt32) := do
  let planeProduct ← gemmS8S8 limb (left.map (planeEntry limb)) right rows inner cols
  guard (planeProduct.length = outElems)
  return List.zipWith (fun bits p => bits + p.toUInt32 * (1 <<< UInt32.ofNat (limb * 8)))
    resultBits planeProduct

/-- `kBias`. -/
def radixBias : ℤ := 128 * (1 + 256 + 65536)

/-- `ExactGemmS32S8ViaRadix256`: without a value where the source returns false. -/
def exactGemmS32S8ViaRadix256 (gemmS8S8 : ℕ → GemmS8S8) (left : List Int32) (right : List Int8)
    (rows inner cols : ℕ) : Option (List Int32) := do
  guard (rows ≠ 0 ∧ inner ≠ 0 ∧ cols ≠ 0)
  let leftElems ← checkedProduct rows inner
  let rightElems ← checkedProduct inner cols
  let outElems ← checkedProduct rows cols
  guard (left.length = leftElems ∧ right.length = rightElems)
  guard (withinBound left right inner)
  let sums ← rightColumnSums right inner cols
  let resultBits ← (List.range 4).foldlM
    (radixRound gemmS8S8 left right rows inner cols outElems) (List.replicate outElems 0)
  let corrections ← sums.mapM fun sum => checked 64 (radixBias * sum)
  return table rows cols fun row col =>
    (cell resultBits cols row col + UInt32.ofInt (corrections.getD col 0)).toInt32

/-- A multiplier of bytes that is right whenever it answers. -/
def ExactMultiplier (gemmS8S8 : GemmS8S8) : Prop :=
  ∀ left right rows inner cols out, gemmS8S8 left right rows inner cols = some out →
    out.length = rows * cols → out.map Int32.toInt =
      table rows cols (dotEntry (left.map Int8.toInt) (right.map Int8.toInt) inner cols)

/-! ## Bytes -/

theorem toNat_ofInt (v : ℤ) : ((UInt32.ofInt v).toNat : ℤ) = v % 2 ^ 32 := by
  have hlow := Int.emod_nonneg v (show (2 ^ 32 : ℤ) ≠ 0 by decide)
  have hhigh := Int.emod_lt_of_pos v (show (0 : ℤ) < 2 ^ 32 by decide)
  rw [UInt32.ofInt, UInt32.toNat_ofNat', Nat.mod_eq_of_lt (by omega), Int.toNat_of_nonneg hlow]

theorem toInt_toInt32 (u : UInt32) : u.toInt32.toInt = Int.bmod u.toNat (2 ^ 32) :=
  BitVec.toInt_eq_toNat_bmod u.toInt32.toBitVec

variable (x : Int32)

theorem toNat_toUInt32 : (x.toUInt32.toNat : ℤ) = x.toInt % 2 ^ 32 := by
  have hint : x.toInt = Int.bmod x.toUInt32.toNat (2 ^ 32) := toInt_toInt32 x.toUInt32
  have hlt := x.toUInt32.toNat_lt
  rw [Int.bmod] at hint
  omega

theorem toUInt32_eq_ofInt : x.toUInt32 = UInt32.ofInt x.toInt := by
  apply UInt32.toNat_inj.1
  have hbits := toNat_toUInt32 x
  have hresidue := toNat_ofInt x.toInt
  omega

theorem toInt_toInt32_ofInt {v : ℤ} (hlow : -2 ^ 31 ≤ v) (hhigh : v < 2 ^ 31) :
    (UInt32.ofInt v).toInt32.toInt = v := by
  have hresidue := toNat_ofInt v
  rw [toInt_toInt32, Int.bmod]
  omega

variable {limb a b : ℕ} {gemm : ℕ → GemmS8S8}

theorem toNat_byte (hlimb : limb < 4) :
    ((x.toUInt32 >>> UInt32.ofNat (limb * 8)).toUInt8.toNat : ℤ) =
      x.toInt % 2 ^ 32 / 2 ^ (limb * 8) % 256 := by
  have hshift : limb * 8 % 2 ^ 32 % 32 = limb * 8 := by omega
  rw [UInt32.toNat_toUInt8, UInt32.toNat_shiftRight, UInt32.toNat_ofNat', hshift,
    Nat.shiftRight_eq_div_pow, ← toNat_toUInt32]
  norm_num

theorem planeEntry_low (hlimb : limb < 3) :
    (planeEntry limb x).toInt = x.toInt % 2 ^ 32 / 2 ^ (limb * 8) % 256 - 128 := by
  have hbyte := toNat_byte x (show limb < 4 by omega)
  rw [planeEntry, if_neg (by omega), Int8.toInt_ofInt, hbyte, show Int8.size = 256 from rfl]
  exact Int.bmod_eq_of_le (by omega) (by omega)

theorem planeEntry_top : (planeEntry 3 x).toInt = Int.bmod (x.toInt % 2 ^ 32 / 2 ^ 24) 256 := by
  have hbyte := toNat_byte x (show 3 < 4 by omega)
  have htop : (planeEntry 3 x).toInt =
      Int.bmod (x.toUInt32 >>> UInt32.ofNat (3 * 8)).toUInt8.toNat (2 ^ 8) :=
    BitVec.toInt_eq_toNat_bmod (planeEntry 3 x).toBitVec
  rw [htop, hbyte]
  exact Int.emod_bmod _ 256

/-- **The four bytes of a number**, and what the three offsets took away. -/
theorem planeEntry_sum :
    ∑ limb ∈ Finset.range 4, 2 ^ (limb * 8) * (planeEntry limb x).toInt + radixBias = x.toInt := by
  have hlow := x.le_toInt
  have hhigh := x.toInt_lt
  simp only [Finset.sum_range_succ, Finset.sum_range_zero]
  rw [planeEntry_low x (by decide), planeEntry_low x (by decide), planeEntry_low x (by decide),
    planeEntry_top, Int.bmod, radixBias]
  omega

/-! ## The bound -/

variable {left : List Int32} {right : List Int8} {rows inner cols : ℕ}

theorem natAbs_le_maxMagnitude {values : List ℤ} {x : ℤ} (hx : x ∈ values) :
    x.natAbs ≤ maxMagnitude values := by
  -- The accumulator only grows, and after `x` it is at least `|x|`.
  have hmono : ∀ (values : List ℤ) (largest : ℕ), largest ≤
      values.foldl (fun largest x => if largest < x.natAbs then x.natAbs else largest) largest := by
    intro values
    induction values with
    | nil => exact fun _ => le_rfl
    | cons y values ih =>
      intro largest
      refine le_trans ?_ (ih _)
      dsimp only
      split_ifs <;> omega
  obtain ⟨before, after, rfl⟩ := append_of_mem hx
  rw [maxMagnitude, foldl_append, foldl_cons]
  refine le_trans ?_ (hmono after _)
  split_ifs <;> omega

theorem within_maxMagnitude (values : List ℤ) : Within values (maxMagnitude values) :=
  within_of_mem (Int.natCast_nonneg _) fun x hx => by
    rw [Int.abs_eq_natAbs]
    exact_mod_cast natAbs_le_maxMagnitude hx

/-- **The bound keeps every entry of the product in 32 bits.** -/
theorem abs_dotEntry_of_withinBound (h : withinBound left right inner = true) (i j : ℕ) :
    |dotEntry (left.map Int32.toInt) (right.map Int8.toInt) inner cols i j| ≤ maxS32 := by
  have hentry := abs_dotEntry_le (within_maxMagnitude (left.map Int32.toInt))
    (within_maxMagnitude (right.map Int8.toInt)) inner cols i j
  refine hentry.trans ?_
  simp only [withinBound, Bool.not_eq_true', decide_eq_false_iff_not] at h
  set maxLeft := maxMagnitude (left.map Int32.toInt)
  set maxRight := maxMagnitude (right.map Int8.toInt)
  rcases Nat.eq_zero_or_pos maxLeft with hleft | hleft
  · simp [hleft]
  rcases Nat.eq_zero_or_pos maxRight with hright | hright
  · simp [hright]
  have hinner : inner ≤ maxS32 / (maxLeft * maxRight) := by
    by_contra hover
    exact h ⟨hleft.ne', hright.ne', .inr (not_le.1 hover)⟩
  have hle := (Nat.le_div_iff_mul_le (Nat.mul_pos hleft hright)).1 hinner
  exact_mod_cast hle

/-! ## The product -/

section

variable (right : List Int8)

/-- The sum of a column. -/
def columnSum (inner cols j : ℕ) : ℤ :=
  ∑ k ∈ Finset.range inner, cell (right.map Int8.toInt) cols k j

theorem within_int8 : Within (right.map Int8.toInt) 128 :=
  within_of_mem (by decide) fun x hx => by
    obtain ⟨y, -, rfl⟩ := mem_map.1 hx
    have hlow := y.le_toInt
    have hhigh := y.toInt_lt
    rw [abs_le]
    omega

theorem abs_columnSum_le (inner cols j : ℕ) : |columnSum right inner cols j| ≤ inner * 128 :=
  abs_sum_range_le fun k _ => within_int8 right cols k j

theorem rightColumnSums_eq (hinner : inner < 2 ^ 32) (cols : ℕ) :
    rightColumnSums right inner cols =
      some ((List.range cols).map (columnSum right inner cols)) := by
  refine rowLoop_eq (e := fun k => columnSum right k cols) (fun j _ => Finset.sum_range_zero _)
    (fun k _ hone => absurd hone one_ne_zero) fun k hk _ j _ => ?_
  have hsum : columnSum right k cols j + cell (right.map Int8.toInt) cols k j =
      columnSum right (k + 1) cols j := (Finset.sum_range_succ _ _).symm
  rw [hsum]
  refine checked_eq ((abs_columnSum_le ..).trans_lt ?_)
  have hk' : ((k + 1 : ℕ) : ℤ) < 2 ^ 33 := by exact_mod_cast (by omega : k + 1 < 2 ^ 33)
  omega

theorem corrections_eq (hinner : inner < 2 ^ 32) (cols : ℕ) :
    ((List.range cols).map (columnSum right inner cols)).mapM
        (fun sum => checked 64 (radixBias * sum)) =
      some ((List.range cols).map fun j => radixBias * columnSum right inner cols j) := by
  rw [mapM_map]
  refine mapM_eq_some fun j _ => checked_eq ?_
  have hsum := abs_columnSum_le right inner cols j
  have hinner' : (inner : ℤ) < 2 ^ 32 := by exact_mod_cast hinner
  rw [abs_mul, show |radixBias| = 8421504 from rfl]
  omega
end

/-- The product of a plane. -/
def planeDot (left : List Int32) (right : List Int8) (inner cols limb i j : ℕ) : ℤ :=
  dotEntry ((left.map (planeEntry limb)).map Int8.toInt) (right.map Int8.toInt) inner cols i j

/-- **The planes make up the product.** -/
theorem sum_planeDot (hleft : left.length = rows * inner) {i : ℕ} (hi : i < rows) (j : ℕ) :
    ∑ limb ∈ Finset.range 4, 2 ^ (limb * 8) * planeDot left right inner cols limb i j +
        radixBias * columnSum right inner cols j =
      dotEntry (left.map Int32.toInt) (right.map Int8.toInt) inner cols i j := by
  have hcell : ∀ k < inner, cell (left.map Int32.toInt) inner i k =
      ∑ limb ∈ Finset.range 4,
        2 ^ (limb * 8) * cell ((left.map (planeEntry limb)).map Int8.toInt) inner i k +
        radixBias := fun k hk => by
    rw [cell_map_of_lt _ hleft hi hk, ← planeEntry_sum]
    congr 1
    refine Finset.sum_congr rfl fun limb _ => ?_
    rw [map_map, cell_map_of_lt _ hleft hi hk]
    rfl
  simp only [planeDot, dotEntry, columnSum, Finset.mul_sum]
  rw [Finset.sum_comm, ← Finset.sum_add_distrib]
  refine Finset.sum_congr rfl fun k hk => ?_
  rw [hcell k (Finset.mem_range.1 hk), add_mul, Finset.sum_mul]
  congr 1
  exact Finset.sum_congr rfl fun limb _ => (mul_assoc ..).symm

theorem weight_eq (hlimb : limb < 4) :
    (1 : UInt32) <<< UInt32.ofNat (limb * 8) = UInt32.ofInt (2 ^ (limb * 8)) := by
  decide +revert

theorem radixRound_eq_some (hgemm : ∀ call, ExactMultiplier (gemm call))
    (hlimb : limb < 4) {e : ℕ → ℕ → ℤ} {bits : List UInt32}
    (h : radixRound gemm left right rows inner cols (rows * cols)
      (table rows cols fun i j => UInt32.ofInt (e i j)) limb = some bits) :
    bits = table rows cols fun i j =>
      UInt32.ofInt (e i j + 2 ^ (limb * 8) * planeDot left right inner cols limb i j) := by
  simp only [radixRound, bind_eq_bind, bind_eq_some_iff, Option.pure_def,
    Option.guard_eq_some', some.injEq] at h
  obtain ⟨product, hproduct, -, hsize, rfl⟩ := h
  have hexact := hgemm limb _ _ _ _ _ _ hproduct hsize
  have hwords : List.zipWith (fun bits (p : Int32) =>
        bits + p.toUInt32 * (1 <<< UInt32.ofNat (limb * 8)))
      (table rows cols fun i j => UInt32.ofInt (e i j)) product =
      List.zipWith (fun bits z => bits + UInt32.ofInt z * UInt32.ofInt (2 ^ (limb * 8)))
        (table rows cols fun i j => UInt32.ofInt (e i j)) (product.map Int32.toInt) := by
    simp only [zipWith_map_right, toUInt32_eq_ofInt, weight_eq hlimb]
  rw [hwords, hexact, zipWith_table]
  refine table_congr fun i _ j _ => ?_
  rw [← UInt32.ofInt_mul, ← UInt32.ofInt_add, mul_comm]
  rfl

theorem radixRounds_eq_some (hgemm : ∀ call, ExactMultiplier (gemm call))
    {n : ℕ} (hn : n ≤ 4) {bits : List UInt32}
    (h : (List.range n).foldlM (radixRound gemm left right rows inner cols (rows * cols))
      (List.replicate (rows * cols) 0) = some bits) :
    bits = table rows cols fun i j => UInt32.ofInt (∑ limb ∈ Finset.range n,
      2 ^ (limb * 8) * planeDot left right inner cols limb i j) := by
  induction n generalizing bits with
  | zero =>
    simp only [range_zero, foldlM_nil, Option.pure_def, some.injEq] at h
    rw [← h, table]
    simp only [Finset.sum_range_zero, map_const', length_range]
    rfl
  | succ n ih =>
    rw [range_succ, foldlM_append, bind_eq_bind, bind_eq_some_iff] at h
    obtain ⟨before, hbefore, hround⟩ := h
    rw [ih (by omega) hbefore] at hround
    simp only [foldlM_cons, foldlM_nil, bind_pure] at hround
    rw [radixRound_eq_some hgemm (by omega) hround]
    exact table_congr fun i _ j _ => by rw [Finset.sum_range_succ]

theorem checkedProduct_eq_some {c : ℕ} (h : checkedProduct a b = some c) : c = a * b := by
  unfold checkedProduct at h
  split_ifs at h
  exact (some.inj h).symm

/-- **The product is exact.** The bound that is checked keeps every entry of the integer product in
32 bits; with a multiplier of bytes that is exact, whatever is returned is the integer product of
the 32-bit and the 8-bit matrix. `inner` is a `uint32_t`. -/
theorem exactGemmS32S8ViaRadix256_exact {gemm : ℕ → GemmS8S8}
    (hgemm : ∀ call, ExactMultiplier (gemm call)) (hinner : inner < 2 ^ 32) :
    (withinBound left right inner = true → ∀ i j,
      |dotEntry (left.map Int32.toInt) (right.map Int8.toInt) inner cols i j| ≤ maxS32) ∧
    ∀ out, exactGemmS32S8ViaRadix256 gemm left right rows inner cols = some out →
      out.map Int32.toInt =
        table rows cols (dotEntry (left.map Int32.toInt) (right.map Int8.toInt) inner cols) := by
  refine ⟨abs_dotEntry_of_withinBound, fun out h => ?_⟩
  simp only [exactGemmS32S8ViaRadix256, bind_eq_bind, bind_eq_some_iff,
    Option.pure_def, Option.guard_eq_some', some.injEq] at h
  obtain ⟨-, -, leftElems, hleftElems, rightElems, -, outElems, houtElems, -, hsizes, -, hbound,
    sums, hsums, bits, hbits, corrections, hcorrections, rfl⟩ := h
  rw [rightColumnSums_eq right hinner] at hsums
  cases hsums
  rw [corrections_eq right hinner] at hcorrections
  cases hcorrections
  rw [checkedProduct_eq_some houtElems] at hbits
  rw [radixRounds_eq_some hgemm le_rfl hbits, map_table]
  refine table_congr fun i hi j hj => ?_
  have hleft : left.length = rows * inner := hsizes.1.trans (checkedProduct_eq_some hleftElems)
  have hfits : |dotEntry (left.map Int32.toInt) (right.map Int8.toInt) inner cols i j| ≤ maxS32 :=
    abs_dotEntry_of_withinBound hbound i j
  rw [abs_le, maxS32] at hfits
  rw [cell_table hi hj, getD_eq_getElem?_getD, getElem?_map, getElem?_range hj,
    Option.map_some, Option.getD_some, ← UInt32.ofInt_add, sum_planeDot hleft hi j]
  exact toInt_toInt32_ofInt (by omega) (by omega)

/-- Products whose entries fit, as words. -/
def referenceGemm : GemmS8S8 := fun left right rows inner cols =>
  let product := table rows cols (dotEntry (left.map Int8.toInt) (right.map Int8.toInt) inner cols)
  if ∀ x ∈ product, -2 ^ 31 ≤ x ∧ x < 2 ^ 31 then some (product.map Int32.ofInt) else none

theorem referenceGemm_exact : ExactMultiplier referenceGemm := by
  intro left right rows inner cols out h _
  unfold referenceGemm at h
  dsimp only at h
  split_ifs at h with hfits
  cases h
  rw [map_map]
  refine (map_congr_left fun x hx => ?_).trans (map_id _)
  obtain ⟨hlow, hhigh⟩ := hfits x hx
  exact Int32.toInt_ofInt_of_le (by omega) (by omega)

/-- A product with entries of both signs. -/
theorem exactGemmS32S8ViaRadix256_exact_pair :
    ∃ out, exactGemmS32S8ViaRadix256 (fun _ => referenceGemm) [-8000000, 129] [-128, 77] 1 2 1 =
      some out ∧ out.map Int32.toInt = [1024009933] := by
  have hrun : exactGemmS32S8ViaRadix256 (fun _ => referenceGemm) [-8000000, 129] [-128, 77] 1 2 1 =
    some [1024009933] := by decide +kernel
  have hexact := (exactGemmS32S8ViaRadix256_exact (fun _ => referenceGemm_exact)
    (show 2 < 2 ^ 32 by norm_num)).2 _ hrun
  exact ⟨_, hrun, hexact.trans (by decide +kernel)⟩

end Btx.Matmul.V4LT
