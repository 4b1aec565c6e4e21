/-
# The ring of the confidential proofs

`src/shielded/smile2/params.h`, `poly.h` and `ntt.cpp`: polynomials of degree below 128 modulo `X¹²⁸
+ 1` over the integers modulo `q = 2³² − 959`. Coefficients are residues, as every operation of the
source first takes them. `NttMul` goes through the 32 slots modulo `X⁴ − r`, as in the source; it
makes the polynomials a commutative ring.
-/

import Btx.Primitives.Serialize
import Btx.Util.SlotTransform
import Mathlib.NumberTheory.LucasPrimality
import Mathlib.Tactic.NormNum.Prime
import Mathlib.Tactic.ReduceModChar

namespace Btx.Smile2

open Util Quartic

/-! ## Parameters -/

/-- `Q`. -/
abbrev Q : ℕ := 4294966337

/-- `MAX_CT_INPUTS`. -/
def maxCtInputs : ℕ := 16

/-- `MAX_CT_OUTPUTS`. -/
def maxCtOutputs : ℕ := 16

/-- `SLOT_ROOTS`. -/
def slotRootNat : Fin 32 → ℕ :=
  ![3463736836, 1624289040, 1783970969, 3137426997, 3896370500, 3624752522, 3464556344, 1669300415,
    1639633990, 2533428898, 2579408587, 3875052898, 2028732914, 1655305793, 655737010, 3259370049,
    831229501, 2670677297, 2510995368, 1157539340, 398595837, 670213815, 830409993, 2625665922,
    2655332347, 1761537439, 1715557750, 419913439, 2266233423, 2639660544, 3639229327, 1035596288]

/-! ## Residues modulo `q` -/

/-- The modulus is prime: 3 is a primitive root, and `q − 1 = 2⁶ · 3911 · 17159`. -/
theorem prime_Q : Nat.Prime Q := by
  refine lucas_primality _ 3 (by norm_num1; reduce_mod_char) ?_
  intro p hp hdvd
  have hfac : Q - 1 = 2 ^ 6 * (3911 * 17159) := by norm_num
  rw [hfac, hp.dvd_mul, hp.dvd_mul] at hdvd
  rcases hdvd with h | h | h
  · rw [(Nat.prime_dvd_prime_iff_eq hp Nat.prime_two).1 (hp.dvd_of_dvd_pow h)]
    norm_num1
    reduce_mod_char
    decide
  · rw [(Nat.prime_dvd_prime_iff_eq hp (by norm_num)).1 h]
    norm_num1
    reduce_mod_char
    decide
  · rw [(Nat.prime_dvd_prime_iff_eq hp (by norm_num)).1 h]
    norm_num1
    reduce_mod_char
    decide

instance : Fact (Nat.Prime Q) := ⟨prime_Q⟩

/-- A residue modulo `q`. -/
abbrev Zq := ZMod Q

/-- A residue taken to `(−q/2, q/2]`, as the norm checks do. -/
def centered (x : Zq) : ℤ := if Q / 2 < x.val then (x.val : ℤ) - Q else x.val

/-- A slot root as a residue. -/
def slotRoot (j : Fin 32) : Zq := slotRootNat j

/-- `INV_NUM_SLOTS`. -/
def invNumSlots : Zq := 4160748639

theorem slotRoot_pow (j : Fin 32) : slotRoot j ^ 32 = -1 := by
  have h : ∀ j : Fin 32, slotRootNat j ^ 32 % Q = (Q - 1) % Q := by decide +kernel
  have hcast : ((slotRootNat j ^ 32 : ℕ) : Zq) = ((Q - 1 : ℕ) : Zq) :=
    (ZMod.natCast_eq_natCast_iff' _ _ _).2 (h j)
  rw [slotRoot, ← Nat.cast_pow, hcast]
  decide

theorem slotRoot_injective : Function.Injective slotRoot := by
  have hlt : ∀ j : Fin 32, slotRootNat j % Q = slotRootNat j := by decide +kernel
  have hinj : ∀ i j : Fin 32, slotRootNat i = slotRootNat j → i = j := by decide +kernel
  intro i j h
  rw [slotRoot, slotRoot, ZMod.natCast_eq_natCast_iff', hlt, hlt] at h
  exact hinj i j h

theorem mul_invNumSlots : ((32 : ℕ) : Zq) * invNumSlots = 1 := by decide +kernel

/-! ## Polynomials and their slots -/

/-- `SmilePoly`. -/
def SmilePoly : Type := Fin 128 → Zq

/-- `NttForm`: for every slot root `r` a polynomial modulo `X⁴ − r`. -/
abbrev NttForm := ∀ j : Fin 32, Quartic (slotRoot j)

namespace SmilePoly

instance : AddCommGroup SmilePoly := inferInstanceAs (AddCommGroup (Fin 128 → Zq))
instance : Module Zq SmilePoly := inferInstanceAs (Module Zq (Fin 128 → Zq))
instance : DecidableEq SmilePoly := inferInstanceAs (DecidableEq (Fin 128 → Zq))

variable (p p' : SmilePoly)

@[simp] theorem zero_apply (i : Fin 128) : (0 : SmilePoly) i = 0 := rfl
@[simp] theorem add_apply (i : Fin 128) : (p + p') i = p i + p' i := rfl
@[simp] theorem smul_apply (s : Zq) (p : SmilePoly) (i : Fin 128) : (s • p) i = s * p i := rfl

@[ext] theorem ext {p p' : SmilePoly} (h : ∀ i, p i = p' i) : p = p' := funext h

/-- The coefficient of `X^(4k+c)`. -/
def coeffIndex (k : Fin 32) (c : Fin 4) : Fin 128 := ⟨4 * k + c, by omega⟩

/-- The factor `k` of `i = 4k + c`. -/
def blockOf (i : Fin 128) : Fin 32 := ⟨i / 4, by omega⟩

/-- The remainder `c` of `i = 4k + c`. -/
def offsetOf (i : Fin 128) : Fin 4 := ⟨i % 4, by omega⟩

@[simp] theorem blockOf_coeffIndex (k : Fin 32) (c : Fin 4) : blockOf (coeffIndex k c) = k :=
  Fin.ext (by simp only [blockOf, coeffIndex]; omega)

@[simp] theorem offsetOf_coeffIndex (k : Fin 32) (c : Fin 4) : offsetOf (coeffIndex k c) = c :=
  Fin.ext (by simp only [offsetOf, coeffIndex]; omega)

@[simp] theorem coeffIndex_blockOf (i : Fin 128) : coeffIndex (blockOf i) (offsetOf i) = i :=
  Fin.ext (by simp only [blockOf, offsetOf, coeffIndex]; omega)

/-- `NttForward`. -/
def nttForward (p : SmilePoly) : NttForm := fun j =>
  .ofCoeffs fun c => evalAt slotRoot (fun k => p (coeffIndex k c)) j

/-- `NttInverse`. The source inverts the matrix of powers of the slot roots by elimination; the
inverse is unique and is written out here. -/
def nttInverse (f : NttForm) : SmilePoly := fun i =>
  interpolate slotRoot invNumSlots (fun j => (f j).coeff (offsetOf i)) (blockOf i)

/-- `NttMul`. -/
def nttMul (p p' : SmilePoly) : SmilePoly := nttInverse (nttForward p * nttForward p')

theorem nttForward_nttInverse (f : NttForm) : nttForward (nttInverse f) = f := by
  funext j
  refine ext_coeff fun c => ?_
  rw [nttForward, coeff_ofCoeffs]
  simp only [nttInverse, blockOf_coeffIndex, offsetOf_coeffIndex]
  exact congrFun (eval_interpolate slotRoot_pow slotRoot_injective mul_invNumSlots
    fun j => (f j).coeff c) j

theorem nttInverse_nttForward (p : SmilePoly) : nttInverse (nttForward p) = p := by
  ext i
  simp only [nttInverse, nttForward, coeff_ofCoeffs]
  have h := interpolate_eval slotRoot_pow slotRoot_injective mul_invNumSlots
    fun k => p (coeffIndex k (offsetOf i))
  exact (congrFun h (blockOf i)).trans (by rw [coeffIndex_blockOf])

theorem nttForward_injective : Function.Injective nttForward :=
  Function.LeftInverse.injective nttInverse_nttForward

theorem nttForward_add : nttForward (p + p') = nttForward p + nttForward p' := by
  funext j
  refine ext_coeff fun c => ?_
  rw [Pi.add_apply, coeff_add]
  simp only [nttForward, coeff_ofCoeffs, add_apply, evalAt_add]

theorem nttForward_zero : nttForward 0 = 0 := by simpa using nttForward_add 0 0

theorem nttForward_nttMul :
    nttForward (nttMul p p') = nttForward p * nttForward p' := nttForward_nttInverse _

/-! ### Monomials -/

/-- `s·X^k`. -/
def monomial (k : Fin 128) (s : Zq) : SmilePoly := fun i => if i = k then s else 0

theorem nttForward_monomial (k : Fin 128) (s : Zq) (j : Fin 32) (c : Fin 4) :
    (nttForward (monomial k s) j).coeff c =
      if c = offsetOf k then s * slotRoot j ^ (blockOf k : ℕ) else 0 := by
  rw [nttForward, coeff_ofCoeffs]
  by_cases hc : c = offsetOf k
  · have hfun : (fun i => monomial k s (coeffIndex i c)) =
        fun i => if i = blockOf k then s else 0 := by
      funext i
      have hiff : coeffIndex i c = k ↔ i = blockOf k := by
        constructor
        · intro h
          rw [← h, blockOf_coeffIndex]
        · intro h
          rw [h, hc, coeffIndex_blockOf]
      simp only [monomial, hiff]
    rw [hfun, evalAt_single, if_pos hc]
  · have hfun : (fun i => monomial k s (coeffIndex i c)) = fun _ => 0 := by
      funext i
      refine if_neg fun h => hc ?_
      rw [← h, offsetOf_coeffIndex]
    rw [hfun, evalAt_zero, if_neg hc]

/-! ### The ring -/

instance : Mul SmilePoly := ⟨nttMul⟩
instance : One SmilePoly := ⟨monomial 0 1⟩

@[simp] theorem nttForward_mul :
    nttForward (p * p') = nttForward p * nttForward p' := nttForward_nttMul p p'

theorem nttForward_one : nttForward 1 = 1 := by
  funext j
  refine ext_coeff fun c => ?_
  have h := nttForward_monomial 0 1 j c
  refine h.trans ?_
  fin_cases c <;> simp [Quartic.coeff, offsetOf, blockOf]

/-- **`NttMul` makes the polynomials a commutative ring**: the transform carries it to the
pointwise product of the slots. -/
instance : CommRing SmilePoly :=
  { (inferInstance : AddCommGroup SmilePoly) with
    left_distrib := fun a b c => nttForward_injective (by
      rw [nttForward_mul, nttForward_add, nttForward_add, nttForward_mul, nttForward_mul, mul_add])
    right_distrib := fun a b c => nttForward_injective (by
      rw [nttForward_mul, nttForward_add, nttForward_add, nttForward_mul, nttForward_mul, add_mul])
    zero_mul := fun a => nttForward_injective (by
      rw [nttForward_mul, nttForward_zero, zero_mul])
    mul_zero := fun a => nttForward_injective (by
      rw [nttForward_mul, nttForward_zero, mul_zero])
    mul_assoc := fun a b c => nttForward_injective (by simp only [nttForward_mul, mul_assoc])
    one_mul := fun a => nttForward_injective (by rw [nttForward_mul, nttForward_one, one_mul])
    mul_one := fun a => nttForward_injective (by rw [nttForward_mul, nttForward_one, mul_one])
    mul_comm := fun a b => nttForward_injective (by rw [nttForward_mul, nttForward_mul, mul_comm]) }

end SmilePoly

end Btx.Smile2
