/-
# The loop nest of a matrix product

The loop nest of `C += A * B` with the columns innermost. The multiply-and-add is a parameter that
may fail. With bounded operands in a signed machine type nothing overflows and the result is exact
(`productLoop_int`); with a total one the residues are those of the product (`productLoop_total`).
-/

import Btx.Util.LoopSum
import Btx.Util.RowMajor
import Mathlib.Algebra.Order.BigOperators.Group.Finset
import Mathlib.Algebra.Order.Ring.Int

namespace Btx.Util

open List Option

variable {α β γ : Type*} {rows inner cols : ℕ}

/-- The loop for one row of the result. -/
def rowLoop [Zero α] [Zero β] [DecidableEq β] (mac : α → β → γ → Option α) (inner cols : ℕ)
    (a : ℕ → β) (b : ℕ → ℕ → γ) : Option (List α) :=
  (List.range inner).foldlM (fun row k =>
    if a k = 0 then some row
    else (row.zip ((List.range cols).map (b k))).mapM fun p => mac p.1 (a k) p.2)
    (List.replicate cols 0)

/-- The loop nest, on zeroed rows. -/
def productLoop [Zero α] [Zero β] [DecidableEq β] (mac : α → β → γ → Option α)
    (rows inner cols : ℕ) (a : ℕ → ℕ → β) (b : ℕ → ℕ → γ) : Option (List α) :=
  ((List.range rows).mapM fun i => rowLoop mac inner cols (a i) b).map List.flatten

theorem mapM_eq_some {f : β → Option α} {g : β → α} {l : List β} (h : ∀ x ∈ l, f x = some (g x)) :
    l.mapM f = some (l.map g) := by
  induction l with
  | nil => rfl
  | cons x l ih =>
    rw [mapM_cons, h x mem_cons_self, ih fun y hy => h y (mem_cons_of_mem x hy)]
    rfl

section Spec

variable [Zero α] [Zero β] [DecidableEq β] {mac : α → β → γ → Option α} {b : ℕ → ℕ → γ}

theorem rowLoop_eq {a : ℕ → β} {e : ℕ → ℕ → α} (hzero : ∀ j < cols, e 0 j = 0)
    (hskip : ∀ k < inner, a k = 0 → ∀ j < cols, e (k + 1) j = e k j)
    (hmac : ∀ k < inner, a k ≠ 0 → ∀ j < cols, mac (e k j) (a k) (b k j) = some (e (k + 1) j)) :
    rowLoop mac inner cols a b = some ((List.range cols).map (e inner)) := by
  induction inner with
  | zero =>
    have hinit : List.replicate cols (0 : α) = (List.range cols).map (e 0) := by
      refine ext_getElem (by simp) fun j hj _ => ?_
      rw [getElem_replicate, getElem_map, getElem_range, hzero j (by simpa using hj)]
    rw [rowLoop, hinit]
    rfl
  | succ inner ih =>
    have hrow := ih (fun k hk => hskip k (Nat.lt_succ_of_lt hk))
      fun k hk => hmac k (Nat.lt_succ_of_lt hk)
    unfold rowLoop at hrow
    rw [rowLoop, range_succ, foldlM_append, hrow]
    simp only [foldlM_cons, foldlM_nil, bind_pure, bind_eq_bind, bind_some]
    split_ifs with ha
    · congr 1
      refine map_congr_left fun j hj => ?_
      exact (hskip inner inner.lt_succ_self ha j (mem_range.1 hj)).symm
    · rw [zip_map', mapM_map]
      exact mapM_eq_some fun j hj => hmac inner inner.lt_succ_self ha j (mem_range.1 hj)

/-- **What the loop nest computes.** -/
theorem productLoop_eq {a : ℕ → ℕ → β} {e : ℕ → ℕ → ℕ → α}
    (hzero : ∀ i < rows, ∀ j < cols, e i 0 j = 0)
    (hskip : ∀ i < rows, ∀ k < inner, a i k = 0 → ∀ j < cols, e i (k + 1) j = e i k j)
    (hmac : ∀ i < rows, ∀ k < inner, a i k ≠ 0 → ∀ j < cols,
      mac (e i k j) (a i k) (b k j) = some (e i (k + 1) j)) :
    productLoop mac rows inner cols a b = some (table rows cols fun i j => e i inner j) := by
  rw [productLoop, mapM_eq_some (g := fun i => (List.range cols).map (e i inner)) fun i hi =>
    rowLoop_eq (hzero i (mem_range.1 hi)) (hskip i (mem_range.1 hi))
      (hmac i (mem_range.1 hi)), ← flatMap_map_eq_table, flatMap_def]
  rfl

/-- **A total multiply-and-add**: the loops end with sums, read through `φ`. -/
theorem productLoop_total {M : Type*} [NonUnitalNonAssocSemiring M] {φ : α → M} {ψ : β → M}
    {χ : γ → M} {f : α → β → γ → α} (a : ℕ → ℕ → β) (b : ℕ → ℕ → γ) (hφ : φ 0 = 0)
    (hψ : ψ 0 = 0) (hf : ∀ c x y, φ (f c x y) = φ c + ψ x * χ y) :
    ∃ e : ℕ → ℕ → α, productLoop (fun c x y => some (f c x y)) rows inner cols a b =
        some (table rows cols e) ∧
      ∀ i j, φ (e i j) = ∑ k ∈ Finset.range inner, ψ (a i k) * χ (b k j) := by
  let step := fun i j c k => if a i k = 0 then c else f c (a i k) (b k j)
  let e := fun i k j => (List.range k).foldl (step i j) 0
  have hsucc : ∀ i k j, e i (k + 1) j = step i j (e i k j) k := fun i k j => by
    simp only [e, range_succ, foldl_append, foldl_cons, foldl_nil]
  refine ⟨fun i j => e i inner j, productLoop_eq (fun i _ j _ => rfl)
    (fun i _ k _ ha j _ => ?_) (fun i _ k _ ha j _ => ?_), fun i j => ?_⟩
  · rw [hsucc]
    exact if_pos ha
  · rw [hsucc]
    exact congrArg some (if_neg ha).symm
  · have hstep : ∀ c, ∀ k < inner, φ (step i j c k) = φ c + ψ (a i k) * χ (b k j) := fun c k _ => by
      by_cases ha : a i k = 0
      · simp [step, ha, hψ]
      · simp [step, ha, hf]
    have hsum := map_foldl_range 0 hstep
    rw [hφ, zero_add] at hsum
    exact hsum

end Spec

/-! ## Signed machine integers -/

/-- A value of a signed type of so many bits, or an overflow. -/
def checked (bits : ℕ) (x : ℤ) : Option ℤ :=
  if -2 ^ (bits - 1) ≤ x ∧ x < 2 ^ (bits - 1) then some x else none

/-- Multiply and add in a signed type. -/
def macInt (bits : ℕ) (acc x y : ℤ) : Option ℤ :=
  (checked bits (x * y)).bind fun product => checked bits (acc + product)

theorem checked_eq {bits : ℕ} {x : ℤ} (h : |x| < 2 ^ (bits - 1)) : checked bits x = some x := by
  rw [abs_lt] at h
  exact if_pos ⟨h.1.le, h.2⟩

theorem abs_sum_range_le {k : ℕ} {c : ℤ} {t : ℕ → ℤ} (h : ∀ l < k, |t l| ≤ c) :
    |∑ l ∈ Finset.range k, t l| ≤ k * c :=
  calc |∑ l ∈ Finset.range k, t l| ≤ ∑ l ∈ Finset.range k, |t l| := Finset.abs_sum_le_sum_abs _ _
    _ ≤ ∑ _l ∈ Finset.range k, c := Finset.sum_le_sum fun l hl => h l (Finset.mem_range.1 hl)
    _ = k * c := by rw [Finset.sum_const, Finset.card_range, nsmul_eq_mul]

/-- **Bounded operands do not overflow**, and the product is exact. -/
theorem productLoop_int {bits : ℕ} {c : ℤ} {a b : ℕ → ℕ → ℤ} (hc : 0 ≤ c)
    (hbits : inner * c < 2 ^ (bits - 1))
    (h : ∀ i < rows, ∀ k < inner, ∀ j < cols, |a i k * b k j| ≤ c) :
    productLoop (macInt bits) rows inner cols a b =
      some (table rows cols fun i j => ∑ k ∈ Finset.range inner, a i k * b k j) := by
  have hsums : ∀ i < rows, ∀ k ≤ inner, ∀ j < cols,
      |∑ l ∈ Finset.range k, a i l * b l j| < 2 ^ (bits - 1) := fun i hi k hk j hj =>
    calc |∑ l ∈ Finset.range k, a i l * b l j| ≤ k * c :=
          abs_sum_range_le fun l hl => h i hi l (lt_of_lt_of_le hl hk) j hj
      _ ≤ inner * c := mul_le_mul_of_nonneg_right (by exact_mod_cast hk) hc
      _ < 2 ^ (bits - 1) := hbits
  refine productLoop_eq (e := fun i k j => ∑ l ∈ Finset.range k, a i l * b l j)
    (fun i _ j _ => Finset.sum_range_zero _) (fun i _ k _ ha j _ => ?_) fun i hi k hk _ j hj => ?_
  · rw [Finset.sum_range_succ, ha, zero_mul, add_zero]
  · have hone : c ≤ inner * c := by
      refine le_mul_of_one_le_left hc ?_
      exact_mod_cast Nat.one_le_of_lt hk
    rw [macInt, checked_eq ((h i hi k hk j hj).trans_lt (hone.trans_lt hbits)), bind_some,
      ← Finset.sum_range_succ (fun l => a i l * b l j), checked_eq (hsums i hi (k + 1) hk j hj)]

end Btx.Util
