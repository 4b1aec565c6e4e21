/-
# Sketches of a product

`src/matmul/matmul_v4.cpp`: the sketch `U * A * B * V` modulo `q = 2 ^ 61 - 1`, from the full
product, from the projections `U * A` and `B * V`, and from their digits in base 128. A function is
`none` when a signed accumulator overflows or an assertion fails.
-/

import Btx.Util.ProductLoop
import Btx.Util.BalancedDigits
import Btx.Matmul.Int8Field

namespace Btx.Matmul.V4

open Util Int8Field

/-- `kCombineLimbs`. -/
def combineLimbs : ℕ := 4

/-- `kLimbMaxPositive` of `CheckCombineLimbBound`. -/
def limbMaxPositive : ℕ := 133160895

/-- `CheckCombineLimbBound`. -/
def checkCombineLimbBound (n : ℕ) : Bool := n * elementSqBound ≤ limbMaxPositive

/-- `ValidateDims`: the size of the sketch. -/
def validateDims (n b : ℕ) : Option ℕ :=
  if n = 0 ∨ b = 0 then none
  else if maxHeaderDim < n then none
  else if n % b ≠ 0 then none
  else if ¬ checkAccumulationBound n then none
  else if ¬ checkCombineLimbBound n then none
  else some (n / b)

/-- `LiftS8ToFq`. -/
def liftS8ToFq (M : List ℤ) : List Fq := M.map fqFromSigned

/-! ## Integer products -/

/-- The loops that multiply two integer matrices into an `int32_t` matrix. -/
def product32 (rows inner cols : ℕ) (M N : List ℤ) : Option (List ℤ) :=
  productLoop (macInt 32) rows inner cols (cell M inner) (cell N cols)

/-- `ComputeExactProduct`. -/
def computeExactProduct (A B : List ℤ) (n : ℕ) : Option (List ℤ) := product32 n n n A B

/-- `ComputeProjectedLeft`. -/
def computeProjectedLeft (U A : List ℤ) (n m : ℕ) : Option (List ℤ) := product32 m n n U A

/-- `ComputeProjectedRight`. -/
def computeProjectedRight (B V : List ℤ) (n m : ℕ) : Option (List ℤ) := product32 n n m B V

/-! ## Sketches -/

/-- `FqAdd(acc, FqMul(x, y))`. -/
def macFq (acc x y : Fq) : Option Fq := some (fqAdd acc (fqMul x y))

/-- `FqAdd(acc, FqMul(x, FqFromInt32(y)))`. -/
def macFqInt32 (acc x : Fq) (y : ℤ) : Option Fq := some (fqAdd acc (fqMul x (fqFromInt32 y)))

/-- `ComputeSketch`. -/
def computeSketch (U C V : List ℤ) (n m : ℕ) : Option (List Fq) := do
  let Uq := liftS8ToFq U
  let Vq := liftS8ToFq V
  let T ← productLoop macFqInt32 m n n (cell Uq n) (cell C n)
  productLoop macFq m n m (cell T n) (cell Vq m)

/-- The last loop of `ComputeCombineModQ`: the residue of a signed accumulator. -/
def fqFromAccumulator (acc : ℤ) : Fq :=
  if 0 ≤ acc then fqReduce acc.toNat else fqNeg (fqReduce (-acc).toNat)

/-- `ComputeCombineModQ`: the accumulators are of type `__int128`. -/
def computeCombineModQ (P Q : List ℤ) (n m : ℕ) : Option (List Fq) := do
  let acc ← productLoop (macInt 128) m n m (cell P n) (cell Q m)
  return acc.map fqFromAccumulator

/-- `ComputeSketchOptimal`. -/
def computeSketchOptimal (U A B V : List ℤ) (n m : ℕ) : Option (List Fq) := do
  let P ← computeProjectedLeft U A n m
  let Q ← computeProjectedRight B V n m
  computeCombineModQ P Q n m

/-! ## Limbs -/

/-- `DecomposeLimbPlanes`: for each entry its digits, of which the planes are made. The
assertion says that nothing is left after the last digit. -/
def decomposeLimbPlanes (M : List ℤ) : Option (ℕ → List ℤ) := do
  let digits ← M.mapM (balancedDigits 64 combineLimbs)
  return fun l => digits.map (·.getD l 0)

/-- `weight[i][j]`. -/
def limbWeight (i j : ℕ) : Fq := Fin.ofNat fieldPrime (2 ^ (7 * (i + j)))

/-- The recombination after one product of limb planes. -/
def recombine (w : Fq) (chat : List Fq) (S : List ℤ) : List Fq :=
  List.zipWith (fun c s => fqAdd c (fqMul w (fqFromSigned s))) chat S

/-- The body of the loops of `ComputeCombineLimbTensorStacked`. -/
def limbRound (p q : ℕ → List ℤ) (n m qCols i : ℕ) (chat : List Fq) (j : ℕ) :
    Option (List Fq) := do
  let S ← product32 m n qCols (p i) (q j)
  return recombine (limbWeight i j) chat S

/-- `ComputeCombineLimbTensorStacked`. -/
def computeCombineLimbTensorStacked (P Qstack : List ℤ) (n m qCols : ℕ) : Option (List Fq) := do
  let p ← decomposeLimbPlanes P
  let q ← decomposeLimbPlanes Qstack
  (List.range combineLimbs).foldlM (fun chat i =>
    (List.range combineLimbs).foldlM (limbRound p q n m qCols i) chat)
    (List.replicate (m * qCols) 0)

/-- `ComputeCombineLimbTensor`. -/
def computeCombineLimbTensor (P Q : List ℤ) (n m : ℕ) : Option (List Fq) :=
  computeCombineLimbTensorStacked P Q n m m

/-- `[B_1 * V | … | B_Q * V]`, as the batched miner copies the right factors side by side. -/
def stackColumns (Qs : List (List ℤ)) (n m : ℕ) : List ℤ :=
  table n (Qs.length * m) fun k c => cell (Qs.getD (c / m) []) m k (c % m)

/-- The columns of one nonce, as the batched miner copies them out. -/
def sliceColumns (wide : List Fq) (qCols m idx : ℕ) : List Fq :=
  table m m fun a c => cell wide qCols a (idx * m + c)

end Btx.Matmul.V4
