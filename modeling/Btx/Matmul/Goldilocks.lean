/-
# The Goldilocks field of the winner-only sumcheck

`matmul_v4_rc_gkr_field.h`: the field of `p = 2^64 - 2^32 + 1` elements on 64-bit words that need
not be canonical. `2^64 = ε` and `2^96 = -1` modulo `p`, so `Reduce128` repairs a borrow or a carry
by `ε`.
-/

import Mathlib.FieldTheory.Finite.Basic
import Mathlib.NumberTheory.LucasPrimality
import Mathlib.Tactic.NormNum.Prime
import Mathlib.Tactic.ReduceModChar

namespace Btx.Matmul.Goldilocks

open BitVec

abbrev Fp := BitVec 64

/-- The prime. -/
def p : ℕ := 2 ^ 64 - 2 ^ 32 + 1

def kP : Fp := 0xFFFFFFFF00000001

def kEpsilon : Fp := 0xFFFFFFFF

def canonical (x : Fp) : Fp := if kP ≤ x then x - kP else x

/-- A flag as a word. -/
def word (b : Bool) : Fp := if b then 1 else 0

/-- The wrapped sum, with `ε` for the carry. -/
def addRepaired (a b : Fp) : Fp := a + b + kEpsilon * word (uaddOverflow a b)

/-- `r -= kP * (r >= kP)`. -/
def subtractOnce (r : Fp) : Fp := r - kP * word (kP ≤ r)

namespace Reduce128

variable (x : BitVec 128)

def lo : Fp := x.setWidth 64

def hi : Fp := (x >>> 64).setWidth 64

def hh : Fp := hi x >>> 32

def hl : Fp := hi x &&& kEpsilon

def borrow : Fp := word (usubOverflow (lo x) (hh x))

def t0 : Fp := lo x - hh x - kEpsilon * borrow x

def t1 : Fp := hl x * kEpsilon

end Reduce128

open Reduce128

def reduce128 (x : BitVec 128) : Fp := subtractOnce (addRepaired (t0 x) (t1 x))

def add (a b : Fp) : Fp := subtractOnce (addRepaired (canonical a) (canonical b))

def sub (a b : Fp) : Fp :=
  let a := canonical a
  let b := canonical b
  if b ≤ a then a - b else kP - (b - a)

def neg (a : Fp) : Fp := if canonical a = 0 then 0 else kP - canonical a

def mul (a b : Fp) : Fp :=
  reduce128 ((canonical a).setWidth 128 * (canonical b).setWidth 128)

/-- The loop of `Inv`. -/
def invLoop (base result : Fp) (exp : ℕ) : Fp :=
  if exp = 0 then result
  else invLoop (mul base base) (if exp % 2 = 1 then mul result base else result) (exp / 2)
termination_by exp

def inv (a : Fp) : Fp := invLoop (canonical a) 1 (kP - 2).toNat

/-- The argument is an `int64_t`. -/
def fromSigned (x : BitVec 64) : Fp := if 0 ≤ x.toInt then x % kP else sub 0 (-x % kP)

/-! ## The words -/

variable (a b : Fp) (x : BitVec 128)

theorem toNat_canonical : (canonical a).toNat = a.toNat % p := by
  have ha := a.isLt
  rw [canonical, kP, p]
  split <;> bv_omega

theorem toNat_subtractOnce : (subtractOnce a).toNat = a.toNat % p := by
  have ha := a.isLt
  simp only [subtractOnce, word, kP, p, le_def, decide_eq_true_eq]
  split <;> bv_omega

theorem toNat_addRepaired (h : a.toNat + b.toNat + kEpsilon.toNat < 2 ^ 65) :
    (a + b).uaddOverflow (kEpsilon * word (uaddOverflow a b)) = false ∧
      (addRepaired a b).toNat % p = (a.toNat + b.toNat) % p := by
  have ha := a.isLt
  have hb := b.isLt
  simp only [addRepaired, word, uaddOverflow, kEpsilon, p, decide_eq_true_eq,
    decide_eq_false_iff_not] at *
  split <;> constructor <;> bv_omega

/-- The words of `Reduce128` as numbers: `t0` is `lo - hh`, with one `p` for a borrow. -/
theorem reduce128_words : umulOverflow (hl x) kEpsilon = false ∧
    (t1 x).toNat = x.toNat / 2 ^ 64 % 2 ^ 32 * kEpsilon.toNat ∧
    usubOverflow (lo x - hh x) (kEpsilon * borrow x) = false ∧
    (t0 x).toNat + x.toNat / 2 ^ 64 / 2 ^ 32 = x.toNat % 2 ^ 64 + p * (borrow x).toNat := by
  have hx := x.isLt
  have hlo : (lo x).toNat = x.toNat % 2 ^ 64 := by simp [lo]
  have hhi : (hi x).toNat = x.toNat / 2 ^ 64 := by
    simp only [hi, toNat_setWidth, toNat_ushiftRight, Nat.shiftRight_eq_div_pow]
    omega
  have hhh : (hh x).toNat = x.toNat / 2 ^ 64 / 2 ^ 32 := by
    rw [hh, toNat_ushiftRight, hhi, Nat.shiftRight_eq_div_pow]
  have hhl : (hl x).toNat = x.toNat / 2 ^ 64 % 2 ^ 32 := by
    rw [hl, toNat_and, hhi, show kEpsilon.toNat = 2 ^ 32 - 1 from rfl,
      Nat.and_two_pow_sub_one_eq_mod]
  have hproduct : umulOverflow (hl x) kEpsilon = false := by
    simp only [umulOverflow, hhl, kEpsilon, decide_eq_false_iff_not]
    bv_omega
  have ht1 : (t1 x).toNat = x.toNat / 2 ^ 64 % 2 ^ 32 * kEpsilon.toNat := by
    rw [t1, toNat_mul_of_not_umulOverflow (by simp [hproduct]), hhl]
  refine ⟨hproduct, ht1, ?_⟩
  simp only [t0, borrow, word, usubOverflow, hlo, hhh, kEpsilon, p, decide_eq_true_eq,
    decide_eq_false_iff_not]
  split <;> constructor <;> bv_omega

theorem t0_add_t1_lt : (t0 x).toNat + (t1 x).toNat + kEpsilon.toNat < 2 ^ 65 := by
  have ht1 := (reduce128_words x).2.1
  simp only [kEpsilon] at *
  bv_omega

theorem prime_p : Nat.Prime p := by
  change Nat.Prime 18446744069414584321
  refine lucas_primality _ 7 (by norm_num1; reduce_mod_char) ?_
  intro r hr hdvd
  have hfac : 18446744069414584321 - 1 = 2 ^ 32 * (3 * (5 * (17 * (257 * 65537)))) := by norm_num
  simp only [hfac, hr.dvd_mul] at hdvd
  have heq {q : ℕ} (hq : Nat.Prime q) : r ∣ q → r = q := (Nat.prime_dvd_prime_iff_eq hr hq).1
  rcases hdvd.imp_left hr.dvd_of_dvd_pow with h | h | h | h | h | h
  all_goals
    obtain rfl := heq (by norm_num) h
    norm_num1
    reduce_mod_char
    decide

/-! ## The operations -/

theorem toNat_reduce128 : (reduce128 x).toNat = x.toNat % p := by
  obtain ⟨-, ht1, -, ht0⟩ := reduce128_words x
  rw [reduce128, toNat_subtractOnce, (toNat_addRepaired _ _ (t0_add_t1_lt x)).2]
  -- `2^64 - ε = p` and `2^96 + 1 = (2^32 + 1) p`
  simp only [kEpsilon, p] at *
  bv_omega

theorem toNat_add : (add a b).toNat = (a.toNat + b.toNat) % p := by
  have ha := toNat_canonical a
  have hb := toNat_canonical b
  have hsum := (toNat_addRepaired (canonical a) (canonical b) (by
    simp only [kEpsilon, p] at *; bv_omega)).2
  rw [add, toNat_subtractOnce, hsum, ha, hb, ← Nat.add_mod]

theorem toNat_sub : ((sub a b).toNat : ℤ) = (a.toNat - b.toNat : ℤ) % p := by
  have ha := toNat_canonical a
  have hb := toNat_canonical b
  simp only [sub, kP, p] at *
  split <;> bv_omega

theorem toNat_neg : ((neg a).toNat : ℤ) = -(a.toNat : ℤ) % p := by
  have ha := toNat_canonical a
  simp only [neg, kP, p] at *
  split <;> bv_omega

theorem toNat_mul : (mul a b).toNat = a.toNat * b.toNat % p := by
  have hlt : a.toNat % p * (b.toNat % p) < 2 ^ 128 :=
    (Nat.mul_lt_mul'' (Nat.mod_lt _ prime_p.pos) (Nat.mod_lt _ prime_p.pos)).trans (by decide)
  rw [mul, toNat_reduce128, BitVec.toNat_mul, toNat_setWidth_of_le (by decide),
    toNat_setWidth_of_le (by decide), toNat_canonical, toNat_canonical, Nat.mod_eq_of_lt hlt,
    ← Nat.mul_mod]

theorem toNat_fromSigned : ((fromSigned a).toNat : ℤ) = a.toInt % p := by
  have ha := a.isLt
  have hkP : kP.toNat = p := rfl
  have hint := toInt_eq_toNat_cond a
  rw [fromSigned]
  split
  · rw [toNat_umod, hkP]
    simp only [p]
    split at hint <;> omega
  · rw [toNat_sub, toNat_umod, hkP]
    simp only [p]
    split at hint <;> bv_omega

theorem cast_mul : ((mul a b).toNat : ZMod p) = a.toNat * b.toNat := by
  rw [toNat_mul, ZMod.natCast_mod, Nat.cast_mul]

theorem cast_invLoop (base result : Fp) (exp : ℕ) :
    ((invLoop base result exp).toNat : ZMod p) = result.toNat * base.toNat ^ exp := by
  fun_induction invLoop with
  | case1 => rw [pow_zero, mul_one]
  | case2 base result exp hexp ih =>
    simp only [dite_eq_ite] at ih
    rw [ih, cast_mul]
    have hsplit := Nat.div_add_mod exp 2
    split
    case isTrue hodd =>
      rw [cast_mul, ← pow_two, ← pow_mul, mul_assoc, ← pow_succ', ← hodd, hsplit]
    case isFalse heven =>
      rw [← pow_two, ← pow_mul, show 2 * (exp / 2) = exp by omega]

theorem mul_inv (ha : ¬p ∣ a.toNat) : mul (inv a) a = 1 := by
  have : Fact (Nat.Prime p) := ⟨prime_p⟩
  have hne : (a.toNat : ZMod p) ≠ 0 := by rwa [ne_eq, ZMod.natCast_eq_zero_iff]
  have hcast : (((inv a).toNat * a.toNat : ℕ) : ZMod p) = (1 : ℕ) := by
    rw [Nat.cast_mul, inv, cast_invLoop, toNat_canonical, ZMod.natCast_mod, mul_assoc, ← pow_succ]
    exact (one_mul _).trans (ZMod.pow_card_sub_one_eq_one hne)
  rw [ZMod.natCast_eq_natCast_iff', ← toNat_mul] at hcast
  exact eq_of_toNat_eq hcast

/-- **The field operations are exact on all words,** canonical or not; the repairs of `Reduce128`
neither borrow nor carry themselves. -/
theorem goldilocks_exact :
    (∀ a b, (add a b).toNat = (a.toNat + b.toNat) % p ∧
      ((sub a b).toNat : ℤ) = (a.toNat - b.toNat : ℤ) % p ∧
      ((neg a).toNat : ℤ) = -(a.toNat : ℤ) % p ∧ (mul a b).toNat = a.toNat * b.toNat % p ∧
      ((fromSigned a).toNat : ℤ) = a.toInt % p) ∧
    (∀ x : BitVec 128, (reduce128 x).toNat = x.toNat % p ∧
      usubOverflow (lo x - hh x) (kEpsilon * borrow x) = false ∧
      umulOverflow (hl x) kEpsilon = false ∧
      uaddOverflow (t0 x + t1 x) (kEpsilon * word (uaddOverflow (t0 x) (t1 x))) = false) ∧
    ∀ a : Fp, ¬p ∣ a.toNat → mul (inv a) a = 1 := by
  refine ⟨fun a b => ⟨toNat_add a b, toNat_sub a b, toNat_neg a, toNat_mul a b,
    toNat_fromSigned a⟩, ?_, mul_inv⟩
  intro x
  obtain ⟨hproduct, -, hborrow, -⟩ := reduce128_words x
  exact ⟨toNat_reduce128 x, hborrow, hproduct, (toNat_addRepaired _ _ (t0_add_t1_lt x)).1⟩

end Btx.Matmul.Goldilocks
