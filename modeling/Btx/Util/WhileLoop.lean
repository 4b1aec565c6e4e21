/-
# While loops

A loop that runs while a condition holds, for at most a given number of rounds: its invariant rule
(`whileLoop_invariant`), its variant rule (`exists_whileLoop`), and where it ends
(`whileLoop_eq_some_iff`).
-/

import Mathlib.Data.Nat.Basic
import Mathlib.Logic.Function.Iterate
import Mathlib.Tactic.Common

namespace Btx.Util

variable {σ : Type*} {cond : σ → Bool} {body : σ → σ} {I : σ → Prop}

/-- `while (cond) body`, with at most `fuel` rounds; `none` if they are not enough. -/
def whileLoop (cond : σ → Bool) (body : σ → σ) : ℕ → σ → Option σ
  | 0, s => if cond s then none else some s
  | fuel + 1, s => if cond s then whileLoop cond body fuel (body s) else some s

/-- **The invariant rule.** -/
theorem whileLoop_invariant (hbody : ∀ s, I s → cond s = true → I (body s)) {fuel : ℕ} {s s' : σ}
    (hs : I s) (h : whileLoop cond body fuel s = some s') : I s' ∧ cond s' = false := by
  induction fuel generalizing s with
  | zero =>
    rw [whileLoop] at h
    split_ifs at h with hcond
    rw [← Option.some.inj h]
    exact ⟨hs, Bool.eq_false_iff.2 hcond⟩
  | succ fuel ih =>
    rw [whileLoop] at h
    split_ifs at h with hcond
    · exact ih (hbody s hs hcond) h
    · rw [← Option.some.inj h]
      exact ⟨hs, Bool.eq_false_iff.2 hcond⟩

/-- **The loop ends** if every round lowers `m`. -/
theorem exists_whileLoop (m : σ → ℕ) (hbody : ∀ s, I s → cond s = true → I (body s))
    (hm : ∀ s, I s → cond s = true → m (body s) < m s) {fuel : ℕ} {s : σ} (hs : I s)
    (hfuel : m s ≤ fuel) : ∃ s', whileLoop cond body fuel s = some s' := by
  induction fuel generalizing s with
  | zero =>
    rw [whileLoop]
    split_ifs with hcond
    · exact absurd (hm s hs hcond) (by omega)
    · exact ⟨s, rfl⟩
  | succ fuel ih =>
    rw [whileLoop]
    split_ifs with hcond
    · exact ih (hbody s hs hcond) (by have := hm s hs hcond; omega)
    · exact ⟨s, rfl⟩

/-- **Where the loop ends**: after the first number of rounds at which the condition fails. -/
theorem whileLoop_eq_some_iff {fuel : ℕ} {s s' : σ} : whileLoop cond body fuel s = some s' ↔
    ∃ n ≤ fuel, (∀ k < n, cond (body^[k] s) = true) ∧ cond (body^[n] s) = false ∧
      body^[n] s = s' := by
  induction fuel generalizing s with
  | zero =>
    rw [whileLoop]
    cases hcond : cond s with
    | true => simp [hcond]
    | false => simp [hcond]
  | succ fuel ih =>
    rw [whileLoop]
    cases hcond : cond s with
    | true =>
      rw [if_pos rfl, ih]
      constructor
      · rintro ⟨n, hn, hrun, hend⟩
        refine ⟨n + 1, Nat.succ_le_succ hn, fun k hk => ?_, hend⟩
        cases k with
        | zero => exact hcond
        | succ k => exact hrun k (Nat.lt_of_succ_lt_succ hk)
      · rintro ⟨n, hn, hrun, hend⟩
        cases n with
        | zero => exact absurd hcond (by simp [show cond s = false from hend.1])
        | succ n =>
          exact ⟨n, Nat.le_of_succ_le_succ hn, fun k hk => hrun (k + 1) (Nat.succ_lt_succ hk), hend⟩
    | false =>
      refine ⟨fun h => ⟨0, Nat.zero_le _, by simp, hcond, by simpa using h⟩, ?_⟩
      rintro ⟨n, -, hrun, -, hend⟩
      cases n with
      | zero => exact congrArg some hend
      | succ n => exact absurd (hrun 0 n.succ_pos) (by simp [hcond])
end Btx.Util
