/-
# All sketches agree

Each way to compute a sketch gives the residues of the integer matrix `(U * A) * (B * V)`
(`sketchOf`). With entries of at most 125 and a dimension that `ValidateDims` accepts, no `int32_t`
overflows and the projections have four digits in base 128.
-/

import Btx.Util.LoopInvariant
import Btx.Matmul.Sketch

namespace Btx.Matmul.V4

open Util Int8Field List Option
open Finset (mul_sum sum_congr sum_comm)

variable {n b m rows cols : ℕ} {U A B V M N P Q : List ℤ}

/-! ## Bounds -/

/-- An operand or projector: entries of at most 125. -/
structure Balanced (M : List ℤ) (rows cols : ℕ) : Prop where
  size : M.length = rows * cols
  entry : ∀ x ∈ M, |x| ≤ balancedBound

/-- Entries within a bound, wherever they are read. -/
def Within (M : List ℤ) (c : ℤ) : Prop := ∀ cols i j, |cell M cols i j| ≤ c

variable {c d x : ℤ} {f z : ℕ → ℕ → ℤ} {i j a L qCols idx : ℕ}

theorem within_of_mem (hc : 0 ≤ c) (h : ∀ x ∈ M, |x| ≤ c) : Within M c :=
  fun cols i j => by
    rcases cell_mem_or_zero M cols i j with hmem | hzero
    · exact h _ hmem
    · rwa [hzero, abs_zero]

theorem Balanced.within (h : Balanced M rows cols) : Within M balancedBound :=
  within_of_mem (by decide) h.entry

theorem validateDims_eq_some (h : validateDims n b = some m) :
    0 < n ∧ n ≤ maxHeaderDim ∧ n * elementSqBound ≤ limbMaxPositive := by
  unfold validateDims checkAccumulationBound checkCombineLimbBound at h
  split_ifs at h with hzero hmax hmod hacc hlimb
  simp only [decide_eq_true_eq] at hlimb
  exact ⟨by omega, by omega, hlimb⟩

/-- The entry of a product. -/
def dotEntry (M N : List ℤ) (inner cols i j : ℕ) : ℤ :=
  ∑ k ∈ Finset.range inner, cell M inner i k * cell N cols k j

theorem abs_dotEntry_le (hM : Within M c) (hN : Within N d) (inner cols i j : ℕ) :
    |dotEntry M N inner cols i j| ≤ inner * (c * d) :=
  abs_sum_range_le fun k _ => by
    rw [abs_mul]
    exact mul_le_mul (hM ..) (hN ..) (abs_nonneg _) ((abs_nonneg _).trans (hM cols i j))

/-- **Small entries do not overflow an accumulator.** -/
theorem productLoop_within {bits inner : ℕ} (hc : 0 ≤ c) (hd : 0 ≤ d) (hM : Within M c)
    (hN : Within N d) (hbits : inner * (c * d) < 2 ^ (bits - 1)) :
    productLoop (macInt bits) rows inner cols (cell M inner) (cell N cols) =
      some (table rows cols (dotEntry M N inner cols)) :=
  productLoop_int (mul_nonneg hc hd) hbits fun i _ k _ j _ => by
    rw [abs_mul]
    exact mul_le_mul (hM ..) (hN ..) (abs_nonneg _) hc

theorem product32_balanced {rows' cols' : ℕ} (rows cols : ℕ)
    (hn : n * elementSqBound ≤ limbMaxPositive) (hM : Balanced M rows' n)
    (hN : Balanced N n cols') :
    product32 rows n cols M N = some (table rows cols (dotEntry M N n cols)) ∧
      ∀ i j, |dotEntry M N n cols i j| ≤ limbMaxPositive := by
  have hle : (n : ℤ) * (balancedBound * balancedBound) ≤ limbMaxPositive := by
    unfold elementSqBound at hn
    exact_mod_cast hn
  refine ⟨productLoop_within (by decide) (by decide) hM.within hN.within
    (hle.trans_lt (by decide)), fun i j => ?_⟩
  exact (abs_dotEntry_le hM.within hN.within n cols i j).trans hle

theorem mem_table_le (h : ∀ i j, |f i j| ≤ c) (hx : x ∈ table rows cols f) : |x| ≤ c := by
  obtain ⟨k, -, rfl⟩ := List.mem_map.1 hx
  exact h _ _

/-! ## The sketch -/

/-- The entries of `(U * A) * (B * V)`. -/
def sketchEntry (U A B V : List ℤ) (n m a c : ℕ) : ℤ :=
  ∑ k ∈ Finset.range n, dotEntry U A n n a k * dotEntry B V n m k c

/-- The canonical vector of an integer matrix. -/
def canonical (rows cols : ℕ) (z : ℕ → ℕ → ℤ) : List Fq :=
  table rows cols fun a c => Fin.ofNat fieldPrime (z a c : ZMod fieldPrime).val

/-- **Residues determine the vector.** -/
theorem table_eq_canonical {e : ℕ → ℕ → Fq} (h : ∀ a < rows, ∀ c < cols, residue (e a c) = z a c) :
    table rows cols e = canonical rows cols z :=
  table_congr fun a ha c hc => residue_injective <| by
    rw [h a ha c hc, residue, Fin.val_ofNat, ZMod.natCast_mod, ZMod.natCast_val, ZMod.cast_id]

theorem canonical_congr {z' : ℕ → ℕ → ℤ} (h : ∀ a < rows, ∀ c < cols, z a c = z' a c) :
    canonical rows cols z = canonical rows cols z' :=
  table_congr fun a ha c hc => by rw [h a ha c hc]

/-- The sketch of a product. -/
def sketchOf (U A B V : List ℤ) (n m : ℕ) : List Fq := canonical m m (sketchEntry U A B V n m)

theorem sketchEntry_eq (U A B V : List ℤ) (n m a c : ℕ) : sketchEntry U A B V n m a c =
    ∑ j ∈ Finset.range n, (∑ i ∈ Finset.range n, cell U n a i * dotEntry A B n n i j) *
      cell V m j c := by
  simp only [sketchEntry, dotEntry, Finset.sum_mul, mul_sum]
  calc _ = ∑ k ∈ Finset.range n, ∑ i ∈ Finset.range n, ∑ j ∈ Finset.range n,
        cell U n a i * (cell A n i k * cell B n k j) * cell V m j c := by
        refine sum_congr rfl fun k _ => ?_
        rw [sum_comm]
        refine sum_congr rfl fun i _ => sum_congr rfl fun j _ => ?_
        ring
    _ = ∑ i ∈ Finset.range n, ∑ j ∈ Finset.range n, ∑ k ∈ Finset.range n,
        cell U n a i * (cell A n i k * cell B n k j) * cell V m j c := by
        rw [sum_comm]
        exact sum_congr rfl fun i _ => sum_comm
    _ = _ := sum_comm

/-! ## From the full product -/

theorem residue_cell_lift (h : Within M balancedBound) :
    residue (cell (liftS8ToFq M) cols i j) = ((cell M cols i j : ℤ) : ZMod fieldPrime) := by
  rw [liftS8ToFq, cell_map (by decide), residue_fqFromSigned ((h ..).trans (by decide))]

theorem productLoop_macFq (rows inner cols : ℕ) (x y : ℕ → ℕ → Fq) :
    ∃ e, productLoop macFq rows inner cols x y = some (table rows cols e) ∧
      ∀ i j, residue (e i j) = ∑ k ∈ Finset.range inner, residue (x i k) * residue (y k j) :=
  productLoop_total x y residue_zero residue_zero fun _ _ _ => by rw [residue_fqAdd, residue_fqMul]

theorem productLoop_macFqInt32 (rows inner cols : ℕ) (x : ℕ → ℕ → Fq) (y : ℕ → ℕ → ℤ) :
    ∃ e, productLoop macFqInt32 rows inner cols x y = some (table rows cols e) ∧
      ∀ i j, residue (e i j) =
        ∑ k ∈ Finset.range inner, residue (x i k) * residue (fqFromInt32 (y k j)) :=
  productLoop_total (χ := fun z => residue (fqFromInt32 z)) x y residue_zero residue_zero
    fun _ _ _ => by rw [residue_fqAdd, residue_fqMul]

/-- **`ComputeSketch` of the full product.** -/
theorem computeSketch_eq (hn : n * elementSqBound ≤ limbMaxPositive) (hU : Balanced U m n)
    (hA : Balanced A n n) (hB : Balanced B n n) (hV : Balanced V n m) :
    ∃ C, computeExactProduct A B n = some C ∧
      computeSketch U C V n m = some (sketchOf U A B V n m) := by
  obtain ⟨hC, hbound⟩ := product32_balanced n n hn hA hB
  refine ⟨_, hC, ?_⟩
  obtain ⟨t, hT, ht⟩ := productLoop_macFqInt32 m n n (cell (liftS8ToFq U) n)
    (cell (table n n (dotEntry A B n n)) n)
  obtain ⟨e, hE, he⟩ := productLoop_macFq m n m (cell (table m n t) n) (cell (liftS8ToFq V) m)
  have htResidue : ∀ a, ∀ j < n, residue (t a j) =
      ((∑ i ∈ Finset.range n, cell U n a i * dotEntry A B n n i j : ℤ) : ZMod fieldPrime) :=
    fun a j hj => by
      rw [ht, Int.cast_sum]
      refine sum_congr rfl fun i hi => ?_
      rw [residue_cell_lift hU.within, cell_table (Finset.mem_range.1 hi) hj, fqFromInt32,
        residue_fqFromSigned ((hbound i j).trans (by decide)), Int.cast_mul]
  have heResidue : ∀ a < m, ∀ c < m, residue (e a c) = sketchEntry U A B V n m a c :=
    fun a ha c _ => by
      rw [he, sketchEntry_eq, Int.cast_sum]
      refine sum_congr rfl fun j hj => ?_
      rw [Finset.mem_range] at hj
      rw [cell_table ha hj, htResidue a j hj, residue_cell_lift hV.within, Int.cast_mul]
  rw [computeSketch, hT]
  exact hE.trans (congrArg some (table_eq_canonical heResidue))

/-! ## From the projections -/

theorem residue_fqFromAccumulator {z : ℤ} (hz : |z| < 2 ^ 122) :
    residue (fqFromAccumulator z) = z := by
  rw [abs_lt] at hz
  unfold fqFromAccumulator
  split_ifs with h
  · rw [residue_fqReduce (by omega), ← Int.cast_natCast, Int.toNat_of_nonneg h]
  · rw [residue_fqNeg, residue_fqReduce (by omega), ← Int.cast_natCast,
      Int.toNat_of_nonneg (by omega), Int.cast_neg, neg_neg]

/-- **`ComputeCombineModQ`** of entries that have four digits. -/
theorem computeCombineModQ_eq (hn : n ≤ maxHeaderDim) (hP : Within P limbMaxPositive)
    (hQ : Within Q limbMaxPositive) :
    computeCombineModQ P Q n m = some (canonical m m (dotEntry P Q n m)) := by
  have hle : (n : ℤ) * (limbMaxPositive * limbMaxPositive) ≤ 2 ^ 80 := by
    have hn' : (n : ℤ) ≤ 65535 := by exact_mod_cast hn
    calc (n : ℤ) * (limbMaxPositive * limbMaxPositive)
        ≤ 65535 * (limbMaxPositive * limbMaxPositive) :=
          mul_le_mul_of_nonneg_right hn' (by decide)
      _ ≤ 2 ^ 80 := by decide
  rw [computeCombineModQ, productLoop_within (by decide) (by decide) hP hQ
    (hle.trans_lt (by decide))]
  refine congrArg some ((map_table fqFromAccumulator).trans (table_eq_canonical fun a _ c _ => ?_))
  exact residue_fqFromAccumulator
    (((abs_dotEntry_le hP hQ n m a c).trans hle).trans_lt (by decide))

theorem dotEntry_table {g : ℕ → ℕ → ℤ} {c : ℕ} (ha : a < m) (hc : c < cols) :
    dotEntry (table m n f) (table n cols g) n cols a c =
      ∑ k ∈ Finset.range n, f a k * g k c :=
  sum_congr rfl fun k hk => by
    rw [cell_table ha (Finset.mem_range.1 hk), cell_table (Finset.mem_range.1 hk) hc]

/-! ## From the limbs -/

/-- A digit of an entry. -/
def limb (l : ℕ) (x : ℤ) : ℤ := ((balancedDigits 64 combineLimbs x).getD []).getD l 0

theorem limb_zero (l : ℕ) : limb l 0 = 0 := by
  have hdigits : (balancedDigits 64 combineLimbs 0).getD [] = List.replicate 4 0 := by decide
  rw [limb, hdigits, getD_eq_getElem?_getD, getElem?_replicate]
  split_ifs <;> rfl

/-- **An entry in range has four digits**, and is their sum. -/
theorem limb_spec (hx : |x| ≤ limbMaxPositive) :
    (∃ ds, balancedDigits 64 combineLimbs x = some ds) ∧ (∀ l, |limb l x| ≤ 64) ∧
      ∑ l ∈ Finset.range combineLimbs, 128 ^ l * limb l x = x := by
  rw [abs_le] at hx
  have hunits : repunit 64 combineLimbs = 2113665 := by decide
  obtain ⟨ds, hds, hlength, hbounds, hvalue⟩ := balancedDigits_spec (h := 64) (l := combineLimbs)
    (x := x) (by decide) (by rw [hunits]; unfold limbMaxPositive at hx; omega)
    (by rw [hunits]; unfold limbMaxPositive at hx; omega)
  have hlimb : ∀ l, limb l x = ds.getD l 0 := fun l => by rw [limb, hds, getD_some]
  refine ⟨⟨ds, hds⟩, fun l => ?_, ?_⟩
  · rw [hlimb, getD_eq_getElem?_getD]
    cases hl : ds[l]? with
    | none => decide
    | some d =>
      have hd := hbounds d (mem_of_getElem? hl)
      rw [getD_some, abs_le]
      omega
  · rw [ofDigits_eq_sum, hlength] at hvalue
    simp only [hlimb]
    exact hvalue

theorem decomposeLimbPlanes_eq (h : ∀ x ∈ M, |x| ≤ limbMaxPositive) :
    decomposeLimbPlanes M = some fun l => M.map (limb l) := by
  have hdigits : M.mapM (balancedDigits 64 combineLimbs) =
      some (M.map fun x => (balancedDigits 64 combineLimbs x).getD []) :=
    mapM_eq_some fun x hx => by
      obtain ⟨ds, hds⟩ := (limb_spec (h x hx)).1
      rw [hds, getD_some]
  rw [decomposeLimbPlanes, hdigits]
  simp only [Option.pure_def, bind_eq_bind, bind_some, List.map_map]
  rfl

theorem residue_limbWeight : residue (limbWeight i j) = 128 ^ i * 128 ^ j := by
  rw [limbWeight, residue, Fin.val_ofNat, ZMod.natCast_mod, Nat.cast_pow, mul_add, pow_add,
    pow_mul, pow_mul]
  norm_num

theorem product32_planes (hn : n ≤ maxHeaderDim) (hP : ∀ x ∈ P, |x| ≤ limbMaxPositive)
    (hQ : ∀ x ∈ Q, |x| ≤ limbMaxPositive) (m qCols i j : ℕ) :
    product32 m n qCols (P.map (limb i)) (Q.map (limb j)) =
        some (table m qCols (dotEntry (P.map (limb i)) (Q.map (limb j)) n qCols)) ∧
      ∀ a c, |dotEntry (P.map (limb i)) (Q.map (limb j)) n qCols a c| ≤ 2 ^ 63 := by
  have hplane : ∀ {M : List ℤ}, (∀ x ∈ M, |x| ≤ limbMaxPositive) →
      ∀ l, Within (M.map (limb l)) 64 :=
    fun hM l => within_of_mem (by decide) fun x hx => by
      obtain ⟨y, hy, rfl⟩ := List.mem_map.1 hx
      exact (limb_spec (hM y hy)).2.1 l
  have hle : (n : ℤ) * (64 * 64) < 2 ^ 31 := by
    have hn' : (n : ℤ) ≤ 65535 := by exact_mod_cast hn
    omega
  refine ⟨productLoop_within (by decide) (by decide) (hplane hP i) (hplane hQ j) hle,
    fun a c => ?_⟩
  exact ((abs_dotEntry_le (hplane hP i) (hplane hQ j) n qCols a c).trans hle.le).trans (by decide)

theorem sum_digits_cell {u : ℕ → ℤ} {f : ℕ → ℤ → ℤ} (hf : ∀ i, f i 0 = 0)
    (hsum : ∀ x ∈ M, ∑ i ∈ Finset.range L, u i * f i x = x) (cols i j : ℕ) :
    ∑ l ∈ Finset.range L, u l * f l (cell M cols i j) = cell M cols i j := by
  rcases cell_mem_or_zero M cols i j with hmem | hzero
  · exact hsum _ hmem
  · rw [hzero]
    exact Finset.sum_eq_zero fun l _ => by rw [hf, mul_zero]

/-- **The digits of the factors give the product**, in any two systems of digits and weights. -/
theorem sum_digit_products {L' : ℕ} {u v : ℕ → ℤ} {f g : ℕ → ℤ → ℤ} (hf : ∀ i, f i 0 = 0)
    (hg : ∀ j, g j 0 = 0) (hP : ∀ x ∈ P, ∑ i ∈ Finset.range L, u i * f i x = x)
    (hQ : ∀ x ∈ Q, ∑ j ∈ Finset.range L', v j * g j x = x) (inner qCols a c : ℕ) :
    ∑ i ∈ Finset.range L, ∑ j ∈ Finset.range L',
        u i * v j * dotEntry (P.map (f i)) (Q.map (g j)) inner qCols a c =
      dotEntry P Q inner qCols a c := by
  simp only [dotEntry, cell_map (hf _), cell_map (hg _), mul_sum]
  calc _ = ∑ i ∈ Finset.range L, ∑ k ∈ Finset.range inner, ∑ j ∈ Finset.range L',
        (u i * f i (cell P inner a k)) * (v j * g j (cell Q qCols k c)) := by
        refine sum_congr rfl fun i _ => sum_comm.trans ?_
        refine sum_congr rfl fun k _ => sum_congr rfl fun j _ => ?_
        ring
    _ = ∑ k ∈ Finset.range inner, ∑ i ∈ Finset.range L, ∑ j ∈ Finset.range L',
        (u i * f i (cell P inner a k)) * (v j * g j (cell Q qCols k c)) := sum_comm
    _ = _ := by
        refine sum_congr rfl fun k _ => ?_
        rw [← Finset.sum_mul_sum, sum_digits_cell hf hP, sum_digits_cell hg hQ]

theorem sum_limbs {c : ℕ} (hP : ∀ x ∈ P, |x| ≤ limbMaxPositive)
    (hQ : ∀ x ∈ Q, |x| ≤ limbMaxPositive) :
    ∑ i ∈ Finset.range combineLimbs, ∑ j ∈ Finset.range combineLimbs,
        128 ^ i * 128 ^ j * dotEntry (P.map (limb i)) (Q.map (limb j)) n qCols a c =
      dotEntry P Q n qCols a c :=
  sum_digit_products limb_zero limb_zero (fun x hx => (limb_spec (hP x hx)).2.2)
    (fun x hx => (limb_spec (hQ x hx)).2.2) n qCols a c

/-- **The limb-tensor combine** of entries in range, for any number of columns. -/
theorem computeCombineLimbTensorStacked_eq (hn : n ≤ maxHeaderDim)
    (hP : ∀ x ∈ P, |x| ≤ limbMaxPositive) (hQ : ∀ x ∈ Q, |x| ≤ limbMaxPositive) :
    computeCombineLimbTensorStacked P Q n m qCols =
      some (canonical m qCols (dotEntry P Q n qCols)) := by
  let term := fun i j a c => 128 ^ i * 128 ^ j *
    (dotEntry (P.map (limb i)) (Q.map (limb j)) n qCols a c : ZMod fieldPrime)
  -- After `i` rows of weights and `j` more the entries are those partial sums.
  let I : ℕ → ℕ → List Fq → Prop := fun i j chat => ∃ e, chat = table m qCols e ∧
    ∀ a c, residue (e a c) = (∑ i' ∈ Finset.range i, ∑ j' ∈ Finset.range combineLimbs,
      term i' j' a c) + ∑ j' ∈ Finset.range j, term i j' a c
  have hround : ∀ i j chat, I i j chat → ∃ chat',
      limbRound (fun l => P.map (limb l)) (fun l => Q.map (limb l)) n m qCols i chat j =
        pure chat' ∧ I i (j + 1) chat' := fun i j chat hI => by
    obtain ⟨e, rfl, he⟩ := hI
    obtain ⟨hS, hbound⟩ := product32_planes hn hP hQ m qCols i j
    refine ⟨_, by rw [limbRound, hS]; rfl, _, zipWith_table _, fun a c => ?_⟩
    rw [residue_fqAdd, residue_fqMul, residue_limbWeight, residue_fqFromSigned (hbound a c), he,
      Finset.sum_range_succ, add_assoc]
  obtain ⟨chat, hrun, e, rfl, he⟩ := foldlM_range_invariant (I := fun i => I i 0)
    (s := List.replicate (m * qCols) (0 : Fq)) (n := combineLimbs)
    ⟨fun _ _ => 0, by simp [table], fun a c => by simp⟩ fun i _ chat hI => by
      obtain ⟨chat', hrow, e, rfl, he⟩ := foldlM_range_invariant (I := I i) (n := combineLimbs) hI
        fun j _ chat hI => hround i j chat hI
      refine ⟨_, hrow, e, rfl, fun a c => ?_⟩
      rw [he, Finset.sum_range_succ, Finset.sum_range_zero, add_zero]
  rw [computeCombineLimbTensorStacked, decomposeLimbPlanes_eq hP, decomposeLimbPlanes_eq hQ]
  refine hrun.trans (congrArg some (table_eq_canonical fun a _ c _ => ?_))
  rw [he, Finset.sum_range_zero, add_zero, ← sum_limbs hP hQ]
  push_cast
  rfl

/-! ## Side by side -/

theorem cell_stackColumns {Qs : List (List ℤ)} {k c : ℕ} (hQ : Qs[idx]? = some Q)
    (hk : k < n) (hc : c < m) :
    cell (stackColumns Qs n m) (Qs.length * m) k (idx * m + c) = cell Q m k c := by
  have hidx : idx < Qs.length := (List.getElem?_eq_some_iff.1 hQ).1
  rw [stackColumns, cell_table hk (place_lt hidx hc), place_div hc, place_mod hc,
    getD_eq_getElem?_getD, hQ, getD_some]

/-- **One block of the wide product is the product with that block.** -/
theorem sliceColumns_stacked (Qs : List (List ℤ)) (hn : n ≤ maxHeaderDim)
    (hP : ∀ x ∈ P, |x| ≤ limbMaxPositive) (hQs : ∀ Q ∈ Qs, Within Q limbMaxPositive)
    (hQ : Qs[idx]? = some Q) :
    ∃ wide, computeCombineLimbTensorStacked P (stackColumns Qs n m) n m (Qs.length * m) =
        some wide ∧
      sliceColumns wide (Qs.length * m) m idx = canonical m m (dotEntry P Q n m) := by
  have hidx : idx < Qs.length := (List.getElem?_eq_some_iff.1 hQ).1
  have hblock : ∀ t, Within (Qs.getD t []) limbMaxPositive := fun t => by
    rw [getD_eq_getElem?_getD]
    cases ht : Qs[t]? with
    | none => exact within_of_mem (by decide) fun x hx => absurd hx not_mem_nil
    | some Q' => exact hQs Q' (mem_of_getElem? ht)
  have hstack : ∀ x ∈ stackColumns Qs n m, |x| ≤ limbMaxPositive := fun x hx => by
    obtain ⟨k, -, rfl⟩ := List.mem_map.1 hx
    exact hblock _ _ _ _
  refine ⟨_, computeCombineLimbTensorStacked_eq hn hP hstack, table_congr fun a ha c hc => ?_⟩
  rw [canonical, cell_table ha (place_lt hidx hc)]
  congr 3
  refine sum_congr rfl fun k hk => ?_
  rw [cell_stackColumns hQ (Finset.mem_range.1 hk) hc]

/-! ## All of them -/

/-- **The sketches agree.** For all accepted dimensions and balanced operands and projectors no
computation overflows or fails an assertion, and the sketch of the full product, the factored sketch
and the limb-tensor combine are all `sketchOf U A B V n m`; so are the columns for `B` of the
combine when `B * V` stands among the projections of other operands. -/
theorem sketches_agree (hdims : validateDims n b = some m) (hU : Balanced U m n)
    (hA : Balanced A n n) (hB : Balanced B n n) (hV : Balanced V n m) :
    ∃ C P Q, computeExactProduct A B n = some C ∧
      computeProjectedLeft U A n m = some P ∧ computeProjectedRight B V n m = some Q ∧
      computeSketch U C V n m = some (sketchOf U A B V n m) ∧
      computeSketchOptimal U A B V n m = some (sketchOf U A B V n m) ∧
      computeCombineLimbTensor P Q n m = some (sketchOf U A B V n m) ∧
      ∀ Bs : List (List ℤ), (∀ B' ∈ Bs, Balanced B' n n) → ∀ idx, Bs[idx]? = some B →
        ∃ Qs wide, Bs.mapM (fun B' => computeProjectedRight B' V n m) = some Qs ∧
          computeCombineLimbTensorStacked P (stackColumns Qs n m) n m (Bs.length * m) =
            some wide ∧
          sliceColumns wide (Bs.length * m) m idx = sketchOf U A B V n m := by
  obtain ⟨-, hmax, hn⟩ := validateDims_eq_some hdims
  obtain ⟨C, hC, hsketch⟩ := computeSketch_eq hn hU hA hB hV
  obtain ⟨hleft, hPle⟩ := product32_balanced m n hn hU hA
  have hP : ∀ x ∈ table m n (dotEntry U A n n), |x| ≤ limbMaxPositive := fun x hx =>
    mem_table_le hPle hx
  have hright : ∀ B', Balanced B' n n →
      computeProjectedRight B' V n m = some (table n m (dotEntry B' V n m)) ∧
        ∀ x ∈ table n m (dotEntry B' V n m), |x| ≤ limbMaxPositive := fun B' hB' =>
    ⟨(product32_balanced n m hn hB' hV).1, fun x hx =>
      mem_table_le (product32_balanced n m hn hB' hV).2 hx⟩
  have hentries : canonical m m (dotEntry (table m n (dotEntry U A n n))
      (table n m (dotEntry B V n m)) n m) = sketchOf U A B V n m :=
    canonical_congr fun a ha c hc => dotEntry_table ha hc
  obtain ⟨hQ, hQle⟩ := hright B hB
  refine ⟨C, _, _, hC, hleft, hQ, hsketch, ?_, ?_, fun Bs hBs idx hidx => ?_⟩
  · rw [computeSketchOptimal, computeProjectedLeft, hleft, hQ, ← hentries]
    exact computeCombineModQ_eq hmax (within_of_mem (by decide) hP) (within_of_mem (by decide) hQle)
  · rw [computeCombineLimbTensor, computeCombineLimbTensorStacked_eq hmax hP hQle, hentries]
  · obtain ⟨wide, hwide, hslice⟩ := sliceColumns_stacked (m := m)
      (Bs.map fun B' => table n m (dotEntry B' V n m)) hmax hP (fun Q hQ => by
        obtain ⟨B', hB', rfl⟩ := List.mem_map.1 hQ
        exact within_of_mem (by decide) (hright B' (hBs B' hB')).2)
      (by rw [getElem?_map, hidx, map_some])
    rw [length_map] at hwide hslice
    exact ⟨_, wide, mapM_eq_some fun B' hB' => (hright B' (hBs B' hB')).1, hwide,
      hslice.trans hentries⟩

/-- Operands and projectors of size 2. -/
theorem sketches_agree_two :
    let U := [1, 0, -1, 2]; let A := [125, -3, 0, 7]; let B := [1, 2, -125, 4]
    let V := [5, 0, 0, -9]
    ∃ C P Q, computeExactProduct A B 2 = some C ∧ computeProjectedLeft U A 2 2 = some P ∧
      computeProjectedRight B V 2 2 = some Q ∧
      computeSketch U C V 2 2 = some (sketchOf U A B V 2 2) ∧
      computeSketchOptimal U A B V 2 2 = some (sketchOf U A B V 2 2) ∧
      computeCombineLimbTensor P Q 2 2 = some (sketchOf U A B V 2 2) ∧
      ∀ Bs : List (List ℤ), (∀ B' ∈ Bs, Balanced B' 2 2) → ∀ idx, Bs[idx]? = some B →
        ∃ Qs wide, Bs.mapM (fun B' => computeProjectedRight B' V 2 2) = some Qs ∧
          computeCombineLimbTensorStacked P (stackColumns Qs 2 2) 2 2 (Bs.length * 2) =
            some wide ∧
          sliceColumns wide (Bs.length * 2) 2 idx = sketchOf U A B V 2 2 :=
  sketches_agree (b := 1) (by decide) ⟨rfl, by decide⟩ ⟨rfl, by decide⟩ ⟨rfl, by decide⟩
    ⟨rfl, by decide⟩

end Btx.Matmul.V4
