/-
# Blocked products over the field of the transcript

The arithmetic of `field.cpp` modulo `2^31 - 1`, and `MultiplyBlocked` of `matrix.cpp`. A dot
product adds four products in 64 bits before it reduces. The blocked product is the row-by-column
product when its loops, on 32-bit counters, come by every index once, a condition on the sizes
(`updates_once_iff`).
-/

import Btx.Util.MersenneFold
import Btx.Util.RowMajor
import Btx.Util.Scatter
import Btx.Util.WhileLoop
import Mathlib.Algebra.BigOperators.Ring.Finset

namespace Btx.Matmul.BlockedProduct

open Util List

/-- `MODULUS`. -/
def modulus : ℕ := 0x7FFFFFFF

/-- `Element`: a `uint32_t` below the modulus. -/
abbrev Element := Fin modulus

instance neZeroModulus : NeZero modulus := ⟨by decide⟩

/-- The sum of the two folds of `reduce64`. -/
def fold64 (x : ℕ) : ℕ := fold 31 (fold 31 (x % 2 ^ 64))

theorem fold64_lt (x : ℕ) : fold64 x < 2 * modulus := by
  have := Nat.mod_lt x (show 0 < 2 ^ 64 by decide)
  unfold fold64 fold modulus
  omega

def reduce64 (x : ℕ) : Element := ⟨subtractOnce modulus (fold64 x), subtractOnce_lt (fold64_lt x)⟩

def add (a b : Element) : Element := addMod a b

def mul (a b : Element) : Element := reduce64 (a.val * b.val)

/-- `REDUCE_INTERVAL`. -/
def reduceInterval : ℕ := 4

/-- A round of `ScalarDot`: the accumulator, and the products since it was reduced. -/
def scalarDotStep (s : ℕ × ℕ) (ab : Element × Element) : ℕ × ℕ :=
  let acc := (s.1 + ab.1.val * ab.2.val) % 2 ^ 64
  if s.2 + 1 = reduceInterval then (reduce64 acc, 0) else (acc, s.2 + 1)

section

variable (ab : List (Element × Element))

/-- `ScalarDot`, over the pairs of entries. -/
def scalarDot : Element :=
  reduce64 (ab.foldl scalarDotStep (0, 0)).1

/-! ## Dot products -/

variable {a b : Element} {x : ℕ} {s : ℕ × ℕ}

theorem residue_reduce64 (hx : x < 2 ^ 64) : residue (reduce64 x) = x := by
  have hmod : fold64 x % modulus = x % modulus := by
    unfold fold64
    rw [show modulus = 2 ^ 31 - 1 from rfl, fold_mod, fold_mod, Nat.mod_eq_of_lt hx]
  rw [residue, reduce64, cast_subtractOnce (fold64_lt x), ← ZMod.natCast_mod, hmod,
    ZMod.natCast_mod]

/-- What the accumulator may hold after so many products. -/
def DotBound (s : ℕ × ℕ) : Prop :=
  s.2 < reduceInterval ∧ s.1 ≤ modulus + s.2 * ((modulus - 1) * (modulus - 1))

theorem DotBound.lt (h : DotBound s) (a b : Element) : s.1 + a.val * b.val < 2 ^ 64 ∧
    s.1 + a.val * b.val ≤ modulus + (s.2 + 1) * ((modulus - 1) * (modulus - 1)) := by
  have hproduct : a.val * b.val ≤ (modulus - 1) * (modulus - 1) :=
    Nat.mul_le_mul (Nat.le_sub_one_of_lt a.isLt) (Nat.le_sub_one_of_lt b.isLt)
  obtain ⟨hpending, hacc⟩ := h
  unfold modulus at *
  unfold reduceInterval at hpending
  omega

@[simp] theorem residue_mul : residue (mul a b) = residue a * residue b := by
  have hlt := (DotBound.lt (s := (0, 0)) ⟨by decide, by decide⟩ a b).1
  rw [zero_add] at hlt
  rw [mul, residue_reduce64 hlt, Nat.cast_mul, residue, residue]

/-- One product: the bound is kept, and the residue grows by the product. -/
theorem scalarDotStep_spec (h : DotBound s) (p : Element × Element) :
    DotBound (scalarDotStep s p) ∧
      ((scalarDotStep s p).1 : ZMod modulus) = s.1 + residue p.1 * residue p.2 := by
  obtain ⟨hlt, hle⟩ := h.lt p.1 p.2
  have hcast : ((s.1 + p.1.val * p.2.val : ℕ) : ZMod modulus) =
      s.1 + residue p.1 * residue p.2 := by
    rw [Nat.cast_add, Nat.cast_mul, residue, residue]
  unfold scalarDotStep
  rw [Nat.mod_eq_of_lt hlt]
  dsimp only
  split_ifs with hfull
  · exact ⟨⟨Nat.zero_lt_succ 3, by simp⟩, (residue_reduce64 hlt).trans hcast⟩
  · exact ⟨⟨by have := h.1; omega, hle⟩, hcast⟩

theorem scalarDot_foldl (h : DotBound s) (ab : List (Element × Element)) :
    DotBound (ab.foldl scalarDotStep s) ∧ ((ab.foldl scalarDotStep s).1 : ZMod modulus) =
      s.1 + (ab.map fun p => residue p.1 * residue p.2).sum := by
  induction ab generalizing s with
  | nil => simpa using h
  | cons p ab ih =>
    obtain ⟨hbound, hcast⟩ := scalarDotStep_spec h p
    obtain ⟨hbound', hcast'⟩ := ih hbound
    refine ⟨hbound', ?_⟩
    rw [foldl_cons, hcast', hcast, map_cons, sum_cons, add_assoc]

/-- The whole loop, by induction over the products from the end. -/
theorem scalarDot_run :
    DotBound (ab.foldl scalarDotStep (0, 0)) ∧
      ((ab.foldl scalarDotStep (0, 0)).1 : ZMod modulus) =
        (ab.map fun p => residue p.1 * residue p.2).sum := by
  simpa using scalarDot_foldl (s := (0, 0)) ⟨by decide, by decide⟩ ab

theorem residue_scalarDot :
    residue (scalarDot ab) = (ab.map fun p => residue p.1 * residue p.2).sum := by
  obtain ⟨hbound, hcast⟩ := scalarDot_run ab
  have hlt := (hbound.lt 0 0).1
  rw [scalarDot, residue_reduce64 (by simpa using hlt), hcast]

/-! ### The vector kernel -/

/-- A lane of `NeonDot`: one more product. -/
def addProduct (acc : ℕ) (ab : Element × Element) : ℕ := (acc + ab.1.val * ab.2.val) % 2 ^ 64

/-- A round of the vector loop of `NeonDot`: the index, a `uint32_t`, and the accumulator. -/
def neonRound (s : ℕ × ℕ) : ℕ × ℕ :=
  ((s.1 + 4) % 2 ^ 32, reduce64 (((ab.drop s.1).take 4).foldl addProduct s.2))

/-- `NeonDot`. -/
def neonDot (fuel : ℕ) : Option Element :=
  (whileLoop (fun s => decide ((s.1 + 4) % 2 ^ 32 ≤ ab.length)) (neonRound ab) fuel (0, 0)).map
    fun s => add (reduce64 s.2) (scalarDot (ab.drop s.1))

theorem foldl_addProduct {k acc : ℕ} {ab : List (Element × Element)}
    (hacc : acc ≤ modulus + k * ((modulus - 1) * (modulus - 1)))
    (hlen : k + ab.length ≤ reduceInterval) : ab.foldl addProduct acc < 2 ^ 64 ∧
      ((ab.foldl addProduct acc : ℕ) : ZMod modulus) =
        acc + (ab.map fun p => residue p.1 * residue p.2).sum := by
  induction ab generalizing k acc with
  | nil =>
    refine ⟨?_, by simp⟩
    unfold reduceInterval at hlen
    unfold modulus at hacc
    simp only [length_nil, foldl_nil] at hlen ⊢
    omega
  | cons p ab ih =>
    rw [length_cons] at hlen
    obtain ⟨hlt, hle⟩ := DotBound.lt (s := (acc, k)) ⟨by dsimp only; omega, hacc⟩ p.1 p.2
    rw [foldl_cons, addProduct, Nat.mod_eq_of_lt hlt]
    obtain ⟨hfold, hsum⟩ := ih hle (by omega)
    refine ⟨hfold, ?_⟩
    rw [hsum, Nat.cast_add, Nat.cast_mul, map_cons, sum_cons, add_assoc]
    rfl

/-- The accumulator is the reduced sum of the products before the index. -/
def NeonInv (s : ℕ × ℕ) : Prop :=
  s.1 ≤ ab.length ∧ s.2 < modulus ∧
    (s.2 : ZMod modulus) = ((ab.take s.1).map fun p => residue p.1 * residue p.2).sum
end

variable {ab : List (Element × Element)}

theorem NeonInv.round (h : NeonInv ab s) (hlen : ab.length + 4 < 2 ^ 32)
    (hcond : (s.1 + 4) % 2 ^ 32 ≤ ab.length) : NeonInv ab (neonRound ab s) := by
  obtain ⟨hi, hacc, hsum⟩ := h
  have hnext : (s.1 + 4) % 2 ^ 32 = s.1 + 4 := Nat.mod_eq_of_lt (by omega)
  rw [hnext] at hcond
  obtain ⟨hlt, hfold⟩ := @foldl_addProduct 0 s.2 ((ab.drop s.1).take 4) (by omega)
    (by simp [reduceInterval])
  rw [neonRound, hnext]
  refine ⟨hcond, (reduce64 _).isLt, ?_⟩
  change residue (reduce64 _) = _
  rw [residue_reduce64 hlt, hfold, hsum, take_add, map_append, sum_append]

/-- **The vector kernel is the scalar one**, for lengths at which its index does not wrap. -/
theorem neonDot_eq_scalarDot (ab : List (Element × Element)) (hlen : ab.length + 4 < 2 ^ 32) :
    neonDot ab ab.length = some (scalarDot ab) := by
  have hbody : ∀ s, NeonInv ab s → decide ((s.1 + 4) % 2 ^ 32 ≤ ab.length) = true →
      NeonInv ab (neonRound ab s) := fun s h hcond => h.round hlen (of_decide_eq_true hcond)
  have hstart : NeonInv ab (0, 0) := ⟨zero_le, by decide, by simp⟩
  obtain ⟨s, hs⟩ := exists_whileLoop (fun s => ab.length - s.1) hbody (fun s hs hcond => by
    have hcond := of_decide_eq_true hcond
    have hi := hs.1
    rw [neonRound]
    dsimp only
    omega) hstart (Nat.sub_le ab.length 0)
  obtain ⟨⟨-, hacc, hsum⟩, -⟩ := whileLoop_invariant hbody hstart hs
  rw [neonDot, hs, Option.map_some]
  refine congrArg some (residue_injective ?_)
  rw [add, residue_addMod, residue_reduce64 (hacc.trans (by decide)), hsum, residue_scalarDot,
    residue_scalarDot, ← sum_append, ← map_append, take_append_drop]

/-- A length that is not a multiple of four. -/
theorem neonDot_five : neonDot (replicate 5 (2, 3)) 5 = some 30 :=
  (neonDot_eq_scalarDot (replicate 5 (2, 3)) (by decide)).trans (by decide +kernel)

/-! ## Matrices -/

/-- `Matrix`: the entries, row by row. -/
@[ext] structure Matrix (rows cols : ℕ) where
  data : List Element
  size : data.length = rows * cols

namespace Matrix

variable {rows inner cols i j : ℕ}

/-- The matrix with the given entries. -/
def ofFn (f : ℕ → ℕ → Element) : Matrix rows cols := ⟨table rows cols f, length_table⟩

/-- The matrix of the constructor. -/
def zero : Matrix rows cols := ofFn fun _ _ => 0

/-- `Matrix::at`, which asserts the range; here it is 0 outside. -/
def get (M : Matrix rows cols) (i j : ℕ) : Element :=
  if i < rows ∧ j < cols then cell M.data cols i j else 0

/-- `Matrix::operator*`, with `ScalarDot` for the dot product. -/
def mul (A : Matrix rows inner) (B : Matrix inner cols) : Matrix rows cols :=
  ofFn fun i j => scalarDot ((range inner).map fun k => (A.get i k, B.get k j))

@[simp] theorem get_ofFn {f : ℕ → ℕ → Element} (hi : i < rows) (hj : j < cols) :
    (ofFn f : Matrix rows cols).get i j = f i j := by
  rw [get, if_pos ⟨hi, hj⟩]
  exact cell_table hi hj

theorem ext_get {M N : Matrix rows cols}
    (h : ∀ i < rows, ∀ j < cols, residue (M.get i j) = residue (N.get i j)) : M = N := by
  refine Matrix.ext (table_ext M.size N.size fun i hi j hj => residue_injective ?_)
  simpa [get, hi, hj] using h i hi j hj

theorem residue_get_mul (A : Matrix rows inner) (B : Matrix inner cols) (hi : i < rows)
    (hj : j < cols) : residue ((A.mul B).get i j) =
      ∑ k ∈ Finset.range inner, residue (A.get i k) * residue (B.get k j) := by
  rw [mul, get_ofFn hi hj, residue_scalarDot, map_map]
  rfl

end Matrix

/-! ## The loops -/

/-- The indices from `x` to `min(x + tile, n)`, in `uint32_t`. -/
def stripe (tile n x : ℕ) : List ℕ := range' x (min ((x + tile) % 2 ^ 32) n - x)

/-- A round of the loops over tiles: the counter, and the indices of the rounds so far. -/
def tileRound (n tile : ℕ) (s : ℕ × List (List ℕ)) : ℕ × List (List ℕ) :=
  ((s.1 + tile) % 2 ^ 32, s.2 ++ [stripe tile n s.1])

/-- `for (x = 0; x < n; x += tile)`. -/
def tileLoop (n tile fuel : ℕ) : Option (List (List ℕ)) :=
  (whileLoop (fun s => decide (s.1 < n)) (tileRound n tile) fuel (0, [])).map Prod.snd

/-- `(n + tile - 1) / tile` in `uint32_t`, as for `row_tiles`. -/
def tileCount (n tile : ℕ) : ℕ := (n + tile - 1) % 2 ^ 32 / tile

/-- The row tiles, worker by worker. The source leaves its loop at the first worker without a tile;
those after it have none either. -/
def workerTiles (tiles workers : ℕ) : List ℕ :=
  if workers ≤ 1 then range tiles
  else
    let perWorker := tileCount tiles workers
    (range workers).flatMap fun w => stripe perWorker tiles (w * perWorker)

/-- The indices `(i, k, j)` in the order in which the loops come by them. -/
def updates (rows inner cols tile workers fuel : ℕ) : Option (List (ℕ × ℕ × ℕ)) := do
  let is := (workerTiles (tileCount rows tile) workers).map fun t => stripe tile rows (t * tile)
  -- the loops inside a loop that makes no round are not reached
  if is = [] ∨ inner = 0 then some []
  else
    let ks ← tileLoop inner tile fuel
    let js ← tileLoop cols tile fuel
    some (is.flatMap fun i => ks.flatMap fun k => js.flatMap fun j => i ×ˢ k ×ˢ j)

section Product

variable {rows inner cols tile workers fuel : ℕ} {sched : Interleaving}

/-- The body of the loops. -/
def update (A : Matrix rows inner) (B : Matrix inner cols) (out : Matrix rows cols)
    (u : ℕ × ℕ × ℕ) : Matrix rows cols :=
  .ofFn fun i j =>
    if i = u.1 ∧ j = u.2.2 then add (out.get i j) (mul (A.get i u.2.1) (B.get u.2.1 j))
    else out.get i j

/-- `MultiplyBlocked`, with any number of workers, whose updates happen in any order. -/
def multiplyBlocked {shared : ℕ} (sched : Interleaving) (workers fuel tile : ℕ)
    (A : Matrix rows inner) (B : Matrix shared cols) : Option (Except String (Matrix rows cols)) :=
  if tile = 0 then some (.error "matrix multiply tile size must be non-zero")
  else if h : inner = shared then
    (updates rows inner cols tile workers fuel).map fun us =>
      .ok ((sched.order 0 us).foldl (update A (h ▸ B)) Matrix.zero)
  else some (.error "matrix multiply dimension mismatch")

/-- The loops come by every index once, or as good as once for the field. -/
def Once (rows inner cols : ℕ) (us : List (ℕ × ℕ × ℕ)) : Prop :=
  ∀ i < rows, ∀ k < inner, ∀ j < cols, (us.count (i, k, j) : ZMod modulus) = 1

variable {A : Matrix rows inner} {B : Matrix inner cols} {us : List (ℕ × ℕ × ℕ)} {i j n x : ℕ}

theorem sum_visit {R : Type*} [Semiring R] (u : ℕ × ℕ × ℕ) (i j : ℕ) {t : ℕ → R}
    (ht : ∀ k, n ≤ k → t k = 0) :
    ∑ k ∈ Finset.range n, ((if u == (i, k, j) then 1 else 0 : ℕ) : R) * t k =
      if i = u.1 ∧ j = u.2.2 then t u.2.1 else 0 := by
  obtain ⟨i', k', j'⟩ := u
  split_ifs with h
  · obtain ⟨rfl, rfl⟩ := h
    simpa using fun hle => (ht k' hle).symm
  · refine Finset.sum_eq_zero fun k _ => ?_
    have hne : ((i', k', j') == (i, k, j)) = false := by
      simp only [beq_eq_false_iff_ne, ne_eq, Prod.mk.injEq]
      exact fun heq => h ⟨heq.1.symm, heq.2.2.symm⟩
    simp [hne]

/-- **An entry gets a product as often as the loops come by it.** -/
theorem residue_foldl_update (hi : i < rows) (hj : j < cols)
    (out : Matrix rows cols) : residue ((us.foldl (update A B) out).get i j) =
      residue (out.get i j) + ∑ k ∈ Finset.range inner,
        (us.count (i, k, j) : ZMod modulus) * (residue (A.get i k) * residue (B.get k j)) := by
  induction us generalizing out with
  | nil => simp
  | cons u us ih =>
    have hout : ∀ k, inner ≤ k → residue (A.get i k) * residue (B.get k j) = 0 := fun k hk => by
      rw [Matrix.get, if_neg (by omega), residue_zero, zero_mul]
    rw [foldl_cons, ih, update, Matrix.get_ofFn hi hj]
    simp only [count_cons, Nat.cast_add, add_mul, Finset.sum_add_distrib, sum_visit u i j hout]
    split_ifs
    · rw [add, residue_addMod, residue_mul, add_assoc, add_comm (_ * _)]
    · rw [add_zero]

theorem residue_blocked (hi : i < rows) (hj : j < cols) :
    residue (((sched.order 0 us).foldl (update A B) .zero).get i j) =
      ∑ k ∈ Finset.range inner,
        (us.count (i, k, j) : ZMod modulus) * (residue (A.get i k) * residue (B.get k j)) := by
  rw [residue_foldl_update hi hj, Matrix.zero, Matrix.get_ofFn hi hj, residue_zero, zero_add]
  simp only [(sched.perm 0 us).count_eq]

/-- The matrix with one 1. -/
def unit (r c : ℕ) : Matrix rows cols := .ofFn fun i j => if i = r ∧ j = c then 1 else 0

theorem sum_unit {k : ℕ} (hi : i < rows) (hk : k < inner) (hj : j < cols) (c : ℕ → ZMod modulus) :
    ∑ x ∈ Finset.range inner, c x * (residue ((unit i k : Matrix rows inner).get i x) *
      residue ((unit k j : Matrix inner cols).get x j)) = c k := by
  have hone : residue (1 : Element) = 1 := Nat.cast_one
  rw [Finset.sum_eq_single k]
  · simp [unit, hi, hk, hj, hone]
  · intro x hx hne
    simp [unit, Matrix.get_ofFn hi (Finset.mem_range.1 hx), hne]
  · exact fun hout => absurd (Finset.mem_range.2 hk) hout

/-- **The blocked product is the row-by-column product** exactly when the loops end and come by
every index once. -/
theorem multiplyBlocked_eq_iff :
    (∀ (A : Matrix rows inner) (B : Matrix inner cols),
      multiplyBlocked sched workers fuel tile A B = some (.ok (A.mul B))) ↔
    tile ≠ 0 ∧ ∃ us, updates rows inner cols tile workers fuel = some us ∧
      Once rows inner cols us := by
  by_cases htile : tile = 0
  · refine iff_of_false (fun h => ?_) fun h => h.1 htile
    simpa [multiplyBlocked, htile] using h .zero .zero
  simp only [multiplyBlocked, htile, if_false, dif_pos, Option.map_eq_some_iff, Except.ok.injEq]
  constructor
  · intro h
    obtain ⟨us, hus, -⟩ := h .zero .zero
    refine ⟨htile, us, hus, fun i hi k hk j hj => ?_⟩
    obtain ⟨us', hus', hproduct⟩ := h (unit i k) (unit k j)
    obtain rfl := Option.some.inj (hus'.symm.trans hus)
    have hsum := sum_unit hi hk hj fun _ => 1
    simp only [one_mul] at hsum
    rw [← hsum, ← Matrix.residue_get_mul _ _ hi hj, ← hproduct, residue_blocked hi hj]
    exact (sum_unit hi hk hj fun k => (us'.count (i, k, j) : ZMod modulus)).symm
  · rintro ⟨-, us, hus, honce⟩ A B
    refine ⟨us, hus, Matrix.ext_get fun i hi j hj => ?_⟩
    rw [residue_blocked hi hj, Matrix.residue_get_mul _ _ hi hj]
    refine Finset.sum_congr rfl fun k hk => ?_
    rw [honce i hi k (Finset.mem_range.1 hk) j hj, one_mul]

/-! ## Tiles that do not wrap -/

theorem range_append_stripe (hx : x ≤ n) (h : x + tile < 2 ^ 32) :
    range x ++ stripe tile n x = range (min (x + tile) n) := by
  have happend := range'_append_1 (s := 0) (m := x) (n := min (x + tile) n - x)
  rw [stripe, Nat.mod_eq_of_lt h, range_eq_range', range_eq_range']
  rw [zero_add] at happend
  rw [happend]
  congr 1
  omega

theorem flatMap_stripe {m : ℕ} (h : m * tile < 2 ^ 32) :
    ((range m).flatMap fun x => stripe tile n (x * tile)) = range (min (m * tile) n) := by
  induction m with
  | zero => simp
  | succ m ih =>
    rw [Nat.succ_mul] at h ⊢
    rw [range_succ, flatMap_append, ih (by omega), flatMap_singleton]
    rcases le_total n (m * tile) with hn | hn
    · rw [stripe, Nat.sub_eq_zero_of_le ((min_le_right _ _).trans hn), min_eq_right hn,
        min_eq_right (by omega), range'_zero, append_nil]
    · rw [min_eq_left hn, range_append_stripe hn h]

theorem ceil_bounds (htile : tile ≠ 0) : n ≤ (n + tile - 1) / tile * tile ∧
    (n + tile - 1) / tile * tile < n + tile := by
  have hle := Nat.div_mul_le_self (n + tile - 1) tile
  have hlt := Nat.lt_div_mul_add (a := n + tile - 1) (Nat.pos_of_ne_zero htile)
  omega

theorem tileCount_eq (h : n + tile ≤ 2 ^ 32) : tileCount n tile = (n + tile - 1) / tile := by
  rw [tileCount, Nat.mod_eq_of_lt (by omega)]

theorem workerTiles_eq {tiles : ℕ} (h : tiles + workers ≤ 2 ^ 32) :
    workerTiles tiles workers = range tiles := by
  rw [workerTiles]
  split_ifs with hone
  · rfl
  · obtain ⟨hle, hlt⟩ := ceil_bounds (n := tiles) (show workers ≠ 0 by omega)
    rw [← tileCount_eq h, mul_comm] at hle hlt
    rw [flatMap_stripe (hlt.trans_le h), min_eq_right hle]

theorem count_product {α β : Type*} [BEq α] [LawfulBEq α] [BEq β] [LawfulBEq β] (a : α) (b : β)
    (l : List α) (l' : List β) : (l ×ˢ l').count (a, b) = l.count a * l'.count b := by
  induction l with
  | nil => simp
  | cons x l ih =>
    rw [product_cons, count_append, ih, count_cons, add_mul, add_comm]
    by_cases hx : x = a
    · subst hx
      simp [count_map_of_injective _ _ (Prod.mk_right_injective x)]
    · simp [hx, count_eq_zero]

/-! ## Tiles that wrap -/

/-- The counter of the loop over tiles passes the end before it wraps. -/
def Reaches (n tile : ℕ) : Prop := (n + tile - 1) / tile * tile < 2 ^ 32

/-- The rows are dealt out: neither `lhs_rows + tile_size - 1` nor
`row_tiles + worker_count - 1` wraps. -/
def RowsDealt (rows tile workers : ℕ) : Prop :=
  rows + tile ≤ 2 ^ 32 ∧ (rows + tile - 1) / tile + workers ≤ 2 ^ 32

/-- The tiles cover a product. Without columns the loop over the inner dimension only has to end. -/
def TilesCover (rows inner cols tile workers : ℕ) : Prop :=
  rows = 0 ∨ inner = 0 ∨
    if cols = 0 then RowsDealt rows tile workers → inner + tile.gcd (2 ^ 32) ≤ 2 ^ 32
    else RowsDealt rows tile workers ∧ Reaches inner tile ∧ Reaches cols tile

variable {m : ℕ} {ks : List (List ℕ)}

theorem iterate_tileRound (k : ℕ) : (tileRound n tile)^[k] (0, []) =
    (k * tile % 2 ^ 32, (range k).map fun x => stripe tile n (x * tile % 2 ^ 32)) := by
  induction k with
  | zero => simp
  | succ k ih =>
    rw [Function.iterate_succ_apply', ih, tileRound, range_succ, map_append, Nat.succ_mul,
      Nat.mod_add_mod]
    rfl

/-- **The loop over tiles**: it ends at the first multiple of the tile size that, in 32 bits, is
not below the end. -/
theorem tileLoop_eq_some_iff : tileLoop n tile fuel = some ks ↔
    ∃ m ≤ fuel, (∀ k < m, k * tile % 2 ^ 32 < n) ∧ n ≤ m * tile % 2 ^ 32 ∧
      ((range m).map fun x => stripe tile n (x * tile % 2 ^ 32)) = ks := by
  simp only [tileLoop, Option.map_eq_some_iff, whileLoop_eq_some_iff, iterate_tileRound,
    decide_eq_true_eq, decide_eq_false_iff_not, not_lt]
  constructor
  · rintro ⟨s, ⟨m, hm, hrun, hend, rfl⟩, rfl⟩
    exact ⟨m, hm, hrun, hend, rfl⟩
  · rintro ⟨m, hm, hrun, hend, rfl⟩
    exact ⟨_, ⟨m, hm, hrun, hend, rfl⟩, rfl⟩

theorem exists_tileLoop (h : n ≤ m * tile % 2 ^ 32) (hfuel : m ≤ fuel) :
    ∃ ks, tileLoop n tile fuel = some ks := by
  have hex : ∃ m, n ≤ m * tile % 2 ^ 32 := ⟨m, h⟩
  refine ⟨_, tileLoop_eq_some_iff.2 ⟨Nat.find hex, (Nat.find_min' hex h).trans hfuel, ?_,
    Nat.find_spec hex, rfl⟩⟩
  exact fun k hk => not_le.1 (Nat.find_min hex hk)

/-- **The loop ends** unless the end is above every multiple of the tile size. -/
theorem tileLoop_ends_iff :
    (∃ fuel ks, tileLoop n tile fuel = some ks) ↔ n + tile.gcd (2 ^ 32) ≤ 2 ^ 32 := by
  have hdvd := Nat.gcd_dvd_right tile (2 ^ 32)
  constructor
  · rintro ⟨fuel, ks, hks⟩
    obtain ⟨m, -, -, hend, -⟩ := tileLoop_eq_some_iff.1 hks
    have hlt := Nat.mod_lt (m * tile) (show 0 < 2 ^ 32 by decide)
    have hmod : tile.gcd (2 ^ 32) ∣ m * tile % 2 ^ 32 :=
      (Nat.dvd_mod_iff hdvd).2 (Dvd.dvd.mul_left (Nat.gcd_dvd_left _ _) m)
    have := Nat.le_of_dvd (Nat.sub_pos_of_lt hlt) (Nat.dvd_sub hdvd hmod)
    omega
  · intro h
    rcases (Nat.gcd_le_right tile (show 0 < 2 ^ 32 by decide)).eq_or_lt with hgcd | hgcd
    · exact ⟨0, exists_tileLoop (m := 0) (by omega) le_rfl⟩
    obtain ⟨m, -, hm⟩ := Nat.exists_mul_mod_eq_gcd hgcd
    -- the last multiple before the counter is 0 again
    refine ⟨_, exists_tileLoop (m := (2 ^ 32 / tile.gcd (2 ^ 32) - 1) * m) ?_ le_rfl⟩
    rw [mul_assoc, mul_comm m, ← Nat.mul_mod_mod, hm, Nat.sub_one_mul, Nat.div_mul_cancel hdvd,
      Nat.mod_eq_of_lt (Nat.sub_lt (by decide) (Nat.gcd_pos_of_pos_right _ (by decide)))]
    omega

theorem count_stripe (i : ℕ) : (stripe tile n x).count i =
    if x ≤ i ∧ i < (x + tile) % 2 ^ 32 ∧ i < n then 1 else 0 := by
  have hnodup : (stripe tile n x).Nodup := nodup_range'
  rw [hnodup.count, stripe]
  refine if_congr ?_ rfl rfl
  rw [mem_range'_1]
  omega

/-- How often the loop comes by an index. -/
theorem count_tiles (i : ℕ) :
    (((range m).map fun x => stripe tile n (x * tile % 2 ^ 32)).flatten.count i) =
      ((Finset.range m).filter fun k => k * tile % 2 ^ 32 ≤ i ∧
        i < (k * tile % 2 ^ 32 + tile) % 2 ^ 32 ∧ i < n).card := by
  rw [count_flatten, map_map, Finset.card_filter]
  exact congrArg List.sum (map_congr_left fun k _ => count_stripe i)

/-- The round at which the counter has wrapped for the first time. -/
theorem wrapped_start (hend : n ≤ m * tile % 2 ^ 32) (hn : n < 2 ^ 32) (htile : 0 < tile)
    (hlt : tile < 2 ^ 32) (hwrap : ¬Reaches n tile) :
    ∃ k < m, 0 < k ∧ k * tile % 2 ^ 32 < tile := by
  rw [Reaches, not_lt] at hwrap
  obtain ⟨-, hceil⟩ := ceil_bounds (n := n) htile.ne'
  generalize (n + tile - 1) / tile = k at hwrap hceil
  have hstart : k * tile % 2 ^ 32 = k * tile - 2 ^ 32 := by
    rw [Nat.mod_eq_sub_mod hwrap, Nat.mod_eq_of_lt (by omega)]
  refine ⟨k, ?_, Nat.pos_of_ne_zero fun h => by simp [h] at hwrap, by omega⟩
  by_contra hle
  rcases (not_lt.1 hle).eq_or_lt with rfl | hlt'
  · omega
  · have := Nat.mul_le_mul_right tile (Nat.succ_le_of_lt hlt')
    rw [Nat.succ_mul] at this
    have := Nat.mod_le (m * tile) (2 ^ 32)
    omega

section Rounds

variable (hrun : ∀ k < m, k * tile % 2 ^ 32 < n) (hend : n ≤ m * tile % 2 ^ 32)
include hrun hend

/-- No round starts where another did: the loop would have ended between them. -/
theorem start_inj {k k' : ℕ} (hk : k < m) (hk' : k' < m)
    (heq : k * tile % 2 ^ 32 = k' * tile % 2 ^ 32) : k = k' := by
  wlog hlt : k < k' generalizing k k'
  · exact (le_antisymm (not_lt.1 hlt) (not_lt.1 fun h => hlt (this hk' hk heq.symm h ▸ h))).symm
  have hmod : (m - k' + k) * tile ≡ m * tile [MOD 2 ^ 32] := by
    have := Nat.ModEq.add_left ((m - k') * tile) (show k * tile ≡ k' * tile [MOD 2 ^ 32] from heq)
    rwa [← add_mul, ← add_mul, Nat.sub_add_cancel hk'.le] at this
  have := hrun (m - k' + k) (by omega)
  rw [show (m - k' + k) * tile % 2 ^ 32 = m * tile % 2 ^ 32 from hmod] at this
  omega

theorem count_tiles_zero (hn : 0 < n) (htile : 0 < tile) (hlt : tile < 2 ^ 32) :
    ((range m).map fun x => stripe tile n (x * tile % 2 ^ 32)).flatten.count 0 = 1 := by
  have hm : 0 < m := Nat.pos_of_ne_zero fun h => by subst h; omega
  rw [count_tiles, Finset.card_eq_one]
  refine ⟨0, Finset.ext fun k => ?_⟩
  rw [Finset.mem_filter, Finset.mem_range, Finset.mem_singleton]
  constructor
  · rintro ⟨hk, hstart, -⟩
    exact start_inj hrun hend hk hm (by omega)
  · rintro rfl
    rw [zero_mul, Nat.zero_mod, zero_add, Nat.mod_eq_of_lt hlt]
    exact ⟨hm, le_rfl, htile, hn⟩

/-- **A wrapped loop comes by an index twice**: by the first one of the round that starts lowest
after the counter has wrapped. -/
theorem count_tiles_wrapped (hn : 0 < n) (hn' : n < 2 ^ 32) (htile : 0 < tile)
    (hlt : tile < 2 ^ 32) (hwrap : ¬Reaches n tile) : ∃ i < n,
      ((range m).map fun x => stripe tile n (x * tile % 2 ^ 32)).flatten.count i = 2 := by
  obtain ⟨c, hc, hc0, hctile⟩ := wrapped_start hend hn' htile hlt hwrap
  obtain ⟨k, hk, hmin⟩ := ((Finset.range m).filter fun k => 0 < k ∧ k * tile % 2 ^ 32 < tile)
    |>.exists_min_image (fun k => k * tile % 2 ^ 32) ⟨c, by simpa [hc, hc0] using hctile⟩
  simp only [Finset.mem_filter, Finset.mem_range] at hk hmin
  obtain ⟨hk, hk0, hktile⟩ := hk
  have hy := hrun k hk
  -- the round after this one does not start lower, so this one does not wrap
  have hnext : k * tile % 2 ^ 32 + tile < 2 ^ 32 := by
    by_contra hle
    have hstep : (k + 1) * tile % 2 ^ 32 = k * tile % 2 ^ 32 + tile - 2 ^ 32 := by
      rw [Nat.succ_mul, ← Nat.mod_add_mod, Nat.mod_eq_sub_mod (not_lt.1 hle),
        Nat.mod_eq_of_lt (by omega)]
    rcases (Nat.succ_le_of_lt hk).eq_or_lt with rfl | hk'
    · rw [Nat.succ_eq_add_one, hstep] at hend
      omega
    · have := hmin (k + 1) ⟨hk', by omega, by omega⟩
      omega
  refine ⟨_, hy, ?_⟩
  rw [count_tiles]
  refine (congrArg Finset.card (Finset.ext fun k' => ?_)).trans (Finset.card_pair hk0.ne)
  rw [Finset.mem_filter, Finset.mem_range, Finset.mem_insert, Finset.mem_singleton]
  constructor
  · rintro ⟨hk', hle, -⟩
    refine or_iff_not_imp_left.2 fun hne => start_inj hrun hend hk' hk (le_antisymm hle ?_)
    exact hmin k' ⟨hk', Nat.pos_of_ne_zero hne, by omega⟩
  · rintro (rfl | rfl)
    · rw [zero_mul, Nat.zero_mod, zero_add, Nat.mod_eq_of_lt hlt]
      exact ⟨by omega, Nat.zero_le _, hktile, hy⟩
    · rw [Nat.mod_eq_of_lt hnext]
      exact ⟨hk, le_rfl, by omega, hy⟩

/-- Without a wrap the loop comes by the indices in order. -/
theorem flatten_tiles (htile : 0 < tile) (hreach : Reaches n tile) :
    ((range m).map fun x => stripe tile n (x * tile % 2 ^ 32)).flatten = range n := by
  obtain ⟨hle, hceil⟩ := ceil_bounds (n := n) htile.ne'
  rw [Reaches] at hreach
  generalize (n + tile - 1) / tile = c at hle hceil hreach
  have hm : m * tile < 2 ^ 32 := by
    have hmc : m ≤ c := not_lt.1 fun h => by
      have := hrun c h
      rw [Nat.mod_eq_of_lt hreach] at this
      omega
    exact (Nat.mul_le_mul_right tile hmc).trans_lt hreach
  have hstarts : ((range m).map fun x => stripe tile n (x * tile % 2 ^ 32)) =
      (range m).map fun x => stripe tile n (x * tile) := map_congr_left fun x hx => by
    rw [Nat.mod_eq_of_lt ((Nat.mul_le_mul_right tile (mem_range.1 hx).le).trans_lt hm)]
  rw [Nat.mod_eq_of_lt hm] at hend
  rw [hstarts, ← flatMap_def, flatMap_stripe hm, min_eq_right hend]

end Rounds

theorem count_range (h : x < n) : (range n).count x = 1 :=
  count_eq_one_of_mem nodup_range (mem_range.2 h)

/-- **The loop over tiles comes by every index once exactly if its counter does not wrap.** -/
theorem tileLoop_once_iff (hn : n < 2 ^ 32) (htile : 0 < tile) (hlt : tile < 2 ^ 32)
    (hks : tileLoop n tile fuel = some ks) :
    (∀ i < n, (ks.flatten.count i : ZMod modulus) = 1) ↔ n = 0 ∨ Reaches n tile := by
  obtain ⟨m, -, hrun, hend, rfl⟩ := tileLoop_eq_some_iff.1 hks
  constructor
  · intro h
    rw [or_iff_not_imp_left]
    refine fun hpos => by_contra fun hwrap => ?_
    obtain ⟨i, hi, htwo⟩ :=
      count_tiles_wrapped hrun hend (Nat.pos_of_ne_zero hpos) hn htile hlt hwrap
    exact absurd (htwo ▸ h i hi) (by decide +kernel)
  · rintro (rfl | hreach) i hi
    · exact absurd hi (Nat.not_lt_zero i)
    · rw [flatten_tiles hrun hend htile hreach, count_range hi, Nat.cast_one]

theorem tileCount_wrapped (h : 2 ^ 32 < n + tile) (hn : n < 2 ^ 32) (hlt : tile < 2 ^ 32) :
    tileCount n tile = 0 := by
  rw [tileCount, Nat.mod_eq_sub_mod (by omega), Nat.mod_eq_of_lt (by omega)]
  exact Nat.div_eq_of_lt (by omega)

theorem workerTiles_wrapped {tiles : ℕ} (h : 2 ^ 32 < tiles + workers) (htiles : tiles < 2 ^ 32)
    (hworkers : workers < 2 ^ 32) : workerTiles tiles workers = [] := by
  rw [workerTiles, if_neg (by omega), tileCount_wrapped h htiles hworkers]
  simp [stripe]

/-- The indices of the row tiles: every row once, or none. -/
theorem rowStripes_spec (hrows : rows < 2 ^ 32) (htile : 0 < tile) (hlt : tile < 2 ^ 32)
    (hworkers : workers < 2 ^ 32) {is : List (List ℕ)}
    (his : ((workerTiles (tileCount rows tile) workers).map fun t =>
      stripe tile rows (t * tile)) = is) :
    (RowsDealt rows tile workers → is.flatten = range rows) ∧
      (rows = 0 ∨ ¬RowsDealt rows tile workers → is = []) := by
  subst his
  obtain ⟨hle, hceil⟩ := ceil_bounds (n := rows) htile.ne'
  constructor
  · rintro ⟨hdealt, htiles⟩
    rw [← tileCount_eq hdealt] at htiles hle hceil
    rw [workerTiles_eq htiles, ← flatMap_def, flatMap_stripe (hceil.trans_le hdealt),
      min_eq_right hle]
  · intro h
    rw [map_eq_nil_iff]
    by_cases hdealt : rows + tile ≤ 2 ^ 32
    · have hcount := tileCount_eq hdealt
      rcases h with rfl | h
      · rw [zero_add, Nat.div_eq_of_lt (by omega)] at hcount
        rw [hcount, workerTiles_eq (by omega), range_zero]
      · rw [RowsDealt, not_and, not_le, ← hcount] at h
        refine workerTiles_wrapped (h hdealt) ?_ hworkers
        rw [hcount]
        exact (Nat.div_le_self _ _).trans_lt (by omega)
    · rw [tileCount_wrapped (not_le.1 hdealt) hrows hlt, workerTiles_eq (by omega), range_zero]

theorem once_iff {is ks js : List (List ℕ)} (hrows : rows ≠ 0) (his : is.flatten = range rows) :
    Once rows inner cols (is.flatMap fun i => ks.flatMap fun k => js.flatMap fun j => i ×ˢ k ×ˢ j) ↔
      ∀ k < inner, ∀ j < cols,
        (ks.flatten.count k : ZMod modulus) * js.flatten.count j = 1 := by
  have hcount : ∀ {i}, i < rows → ∀ k j,
      (is.flatMap fun i => ks.flatMap fun k => js.flatMap fun j => i ×ˢ k ×ˢ j).count (i, k, j) =
        ks.flatten.count k * js.flatten.count j := fun hi k j => by
    simp only [count_flatMap, Function.comp_def, count_product, sum_map_mul_left,
      sum_map_mul_right, ← count_flatten, his, count_range hi, one_mul]
  constructor
  · intro h k hk j hj
    rw [← Nat.cast_mul, ← hcount (Nat.pos_of_ne_zero hrows)]
    exact h 0 (Nat.pos_of_ne_zero hrows) k hk j hj
  · intro h i hi k hk j hj
    rw [hcount hi, Nat.cast_mul]
    exact h k hk j hj

theorem count_zero_of_tileLoop (hn : 0 < n) (htile : 0 < tile) (hlt : tile < 2 ^ 32)
    (hks : tileLoop n tile fuel = some ks) : ks.flatten.count 0 = 1 := by
  obtain ⟨m, -, hrun, hend, rfl⟩ := tileLoop_eq_some_iff.1 hks
  exact count_tiles_zero hrun hend hn htile hlt

/-- **The loops inside a row tile** come by every pair once. -/
theorem inner_once_iff (hinner : inner < 2 ^ 32) (hcols : cols < 2 ^ 32) (htile : 0 < tile)
    (hlt : tile < 2 ^ 32) (hinner0 : inner ≠ 0) :
    (∃ fuel ks js, tileLoop inner tile fuel = some ks ∧ tileLoop cols tile fuel = some js ∧
      ∀ k < inner, ∀ j < cols, (ks.flatten.count k : ZMod modulus) * js.flatten.count j = 1) ↔
    if cols = 0 then inner + tile.gcd (2 ^ 32) ≤ 2 ^ 32
    else Reaches inner tile ∧ Reaches cols tile := by
  split_ifs with hcols0
  · subst hcols0
    rw [← tileLoop_ends_iff]
    constructor
    · rintro ⟨fuel, ks, -, hks, -⟩
      exact ⟨fuel, ks, hks⟩
    · rintro ⟨fuel, ks, hks⟩
      obtain ⟨js, hjs⟩ : ∃ js, tileLoop 0 tile fuel = some js :=
        exists_tileLoop (Nat.zero_le _) fuel.zero_le
      exact ⟨fuel, ks, js, hks, hjs, fun _ _ j hj => absurd hj j.not_lt_zero⟩
  constructor
  · rintro ⟨fuel, ks, js, hks, hjs, honce⟩
    -- index 0 is come by once in any case, so each dimension is judged along it
    have hk := count_zero_of_tileLoop (Nat.pos_of_ne_zero hinner0) htile hlt hks
    have hj := count_zero_of_tileLoop (Nat.pos_of_ne_zero hcols0) htile hlt hjs
    refine ⟨((tileLoop_once_iff hinner htile hlt hks).1 fun k hk => ?_).resolve_left hinner0,
      ((tileLoop_once_iff hcols htile hlt hjs).1 fun j hj => ?_).resolve_left hcols0⟩
    · simpa [hj] using honce k hk 0 (Nat.pos_of_ne_zero hcols0)
    · simpa [hk] using honce 0 (Nat.pos_of_ne_zero hinner0) j hj
  · rintro ⟨hreach, hreach'⟩
    have hend : ∀ {n}, Reaches n tile → n ≤ (n + tile - 1) / tile * tile % 2 ^ 32 := fun h => by
      rw [Nat.mod_eq_of_lt h]
      exact (ceil_bounds htile.ne').1
    obtain ⟨ks, hks⟩ := exists_tileLoop (hend hreach) (Nat.le_add_right _ _)
    obtain ⟨js, hjs⟩ := exists_tileLoop (hend hreach') (Nat.le_add_left _ _)
    refine ⟨_, ks, js, hks, hjs, fun k hk j hj => ?_⟩
    rw [(tileLoop_once_iff hinner htile hlt hks).2 (Or.inr hreach) k hk,
      (tileLoop_once_iff hcols htile hlt hjs).2 (Or.inr hreach') j hj, one_mul]

/-- **When the loops come by every index once.** -/
theorem updates_once_iff (htile : tile ≠ 0) (hrows : rows < 2 ^ 32) (hinner : inner < 2 ^ 32)
    (hcols : cols < 2 ^ 32) (hlt : tile < 2 ^ 32) (hworkers : workers < 2 ^ 32) :
    (∃ fuel us, updates rows inner cols tile workers fuel = some us ∧ Once rows inner cols us) ↔
      TilesCover rows inner cols tile workers := by
  have htile := Nat.pos_of_ne_zero htile
  obtain ⟨hdealt, hnone⟩ := rowStripes_spec hrows htile hlt hworkers rfl
  simp only [updates]
  generalize (workerTiles (tileCount rows tile) workers).map _ = is at hdealt hnone ⊢
  by_cases hinner0 : inner = 0
  · refine iff_of_true ⟨0, [], if_pos (Or.inr hinner0), ?_⟩ (Or.inr (Or.inl hinner0))
    exact fun i _ k hk => absurd hk (by omega)
  by_cases hnil : is = []
  · have hout : rows = 0 ∨ ¬RowsDealt rows tile workers := by
      refine or_iff_not_imp_right.2 fun h => ?_
      have hrange := hdealt (not_not.1 h)
      rwa [hnil, flatten_nil, eq_comm, range_eq_nil] at hrange
    simp only [if_pos (Or.inl hnil), Option.some.injEq, exists_eq_left', exists_const]
    rw [TilesCover]
    rcases eq_or_ne cols 0 with rfl | hcols0
    · refine iff_of_true (fun i _ k _ j hj => absurd hj j.not_lt_zero) ?_
      rw [if_pos rfl]
      exact hout.imp_right fun h => Or.inr fun hdealt => absurd hdealt h
    rw [if_neg hcols0]
    constructor
    · refine fun honce => Or.inl (by_contra fun hrows0 => ?_)
      have := honce 0 (Nat.pos_of_ne_zero hrows0) 0 (Nat.pos_of_ne_zero hinner0) 0
        (Nat.pos_of_ne_zero hcols0)
      exact absurd this (by decide +kernel)
    · intro hcover i hi
      rcases hcover with hrows0 | hinner0' | ⟨hdealt, -⟩
      · omega
      · exact absurd hinner0' hinner0
      · exact absurd (hout.resolve_right (not_not.2 hdealt)) (by omega)
  · obtain ⟨hrows0, hrowsDealt⟩ := not_or.1 (mt hnone hnil)
    have hrowsDealt := not_not.1 hrowsDealt
    have hcover : TilesCover rows inner cols tile workers ↔
        if cols = 0 then inner + tile.gcd (2 ^ 32) ≤ 2 ^ 32
        else Reaches inner tile ∧ Reaches cols tile := by
      simp [TilesCover, hrows0, hinner0, hrowsDealt]
    rw [hcover, ← inner_once_iff hinner hcols htile hlt hinner0]
    refine exists_congr fun fuel => ?_
    simp only [hnil, hinner0, or_self, if_false, Option.bind_eq_bind, Option.bind_eq_some_iff,
      Option.some.injEq]
    constructor
    · rintro ⟨us, ⟨ks, hks, js, hjs, rfl⟩, honce⟩
      exact ⟨ks, js, hks, hjs, (once_iff hrows0 (hdealt hrowsDealt)).1 honce⟩
    · rintro ⟨ks, js, hks, hjs, honce⟩
      exact ⟨_, ⟨ks, hks, js, hjs, rfl⟩, (once_iff hrows0 (hdealt hrowsDealt)).2 honce⟩

end Product

/-- **Dot products are exact, and so are blocked products whose tiles cover them**, and no others.
The accumulator never leaves 64 bits. -/
theorem products_exact (sched : Interleaving) (rows inner cols tile workers : ℕ) :
    (∀ (ab : List (Element × Element)) (a b : Element),
      (ab.foldl scalarDotStep (0, 0)).1 + a.val * b.val < 2 ^ 64) ∧
    (∀ ab, residue (scalarDot ab) = (ab.map fun p => residue p.1 * residue p.2).sum) ∧
    (∀ x < 2 ^ 64, residue (reduce64 x) = x) ∧
    (rows < 2 ^ 32 → inner < 2 ^ 32 → cols < 2 ^ 32 → tile < 2 ^ 32 → workers < 2 ^ 32 →
      ((∃ fuel, ∀ (A : Matrix rows inner) (B : Matrix inner cols),
        multiplyBlocked sched workers fuel tile A B = some (.ok (A.mul B))) ↔
      tile ≠ 0 ∧ TilesCover rows inner cols tile workers)) := by
  refine ⟨fun ab a b => ((scalarDot_run ab).1.lt a b).1, residue_scalarDot,
    fun x hx => residue_reduce64 hx, fun hrows hinner hcols hlt hworkers => ?_⟩
  simp only [multiplyBlocked_eq_iff, exists_and_left]
  exact and_congr_right fun htile => updates_once_iff htile hrows hinner hcols hlt hworkers

/-- The updates as the workers make them one after another. -/
def inOrder : Interleaving := ⟨fun _ us => us, fun _ us => .refl us⟩

/-- With two rows and the largest tile size, `lhs_rows + tile_size - 1` is 0: no tile is multiplied.
-/
theorem tile_size_wraps :
    ((multiplyBlocked inOrder 1 2 (2 ^ 32 - 1) (unit 0 0 : Matrix 2 1) (unit 0 0 : Matrix 1 1)).map
      fun r => r.toOption.map Matrix.data) = some (some [0, 0]) ∧
    ((unit 0 0 : Matrix 2 1).mul (unit 0 0 : Matrix 1 1)).data = [1, 0] := by
  decide +kernel

end Btx.Matmul.BlockedProduct
