/-
# Invariants of loops that may fail

A loop over `0, …, n - 1` whose body may fail does not, when each round keeps an invariant
and succeeds under it.
-/

import Mathlib.Data.List.Basic

namespace Btx.Util

open List

universe u v

variable {σ : Type u} {m : Type u → Type v} [Monad m] [LawfulMonad m]

/-- **The invariant rule of a loop.** The invariant may speak of the number of rounds done. -/
theorem foldlM_range_invariant {n : ℕ} {body : σ → ℕ → m σ} {I : ℕ → σ → Prop} {s : σ}
    (hinit : I 0 s)
    (hbody : ∀ k < n, ∀ s, I k s → ∃ s', body s k = pure s' ∧ I (k + 1) s') :
    ∃ s', (List.range n).foldlM body s = pure s' ∧ I n s' := by
  induction n with
  | zero => exact ⟨s, rfl, hinit⟩
  | succ n ih =>
    obtain ⟨s₁, hrun, hs₁⟩ := ih fun k hk => hbody k (Nat.lt_succ_of_lt hk)
    obtain ⟨s₂, hlast, hs₂⟩ := hbody n n.lt_succ_self s₁ hs₁
    refine ⟨s₂, ?_, hs₂⟩
    rw [range_succ, foldlM_append, hrun, pure_bind, foldlM_cons, hlast, pure_bind, foldlM_nil]

end Btx.Util
