/-
# Work in panels

A range of `n` is worked through in panels of a fixed width; the last one may be
shorter. Panels abut, so a loop over them that goes on where the one before has
stopped covers the range (`Abut.foldlM_invariant`).
-/

import Btx.Util.Segments

namespace Btx.Util

open List

universe u v

/-- The panels `(start, length)` of `for (t = 0; t < n; t += width)`. -/
def panels (width n : ℕ) : List (ℕ × ℕ) :=
  (List.range ((n + width - 1) / width)).map fun c => (c * width, min width (n - c * width))

variable {a b width n : ℕ} {segments : List (ℕ × ℕ)} {s : ℕ × ℕ}

theorem abut_concat (h : Abut a segments s.1)
    (hb : s.1 + s.2 = b) : Abut a (segments ++ [s]) b := by
  induction segments generalizing a with
  | nil => exact ⟨Eq.symm h, by rw [show a = s.1 from h]; exact hb⟩
  | cons s' segments ih => exact ⟨h.1, ih h.2⟩

theorem panel_lt {c : ℕ} (hw : 0 < width) (hc : c < (n + width - 1) / width) : c * width < n := by
  have h : (c + 1) * width ≤ n + width - 1 := (Nat.le_div_iff_mul_le hw).1 hc
  rw [Nat.add_mul, one_mul] at h
  omega

/-- **Panels abut.** -/
theorem panels_abut (hw : 0 < width) (n : ℕ) : Abut 0 (panels width n) n := by
  have hstep : ∀ k ≤ (n + width - 1) / width, Abut 0
      ((List.range k).map fun c => (c * width, min width (n - c * width))) (min (k * width) n) := by
    intro k
    induction k with
    | zero => simp [Abut]
    | succ k ih =>
      intro hk
      have hlt := panel_lt hw hk
      rw [range_succ, map_append]
      refine abut_concat ?_ ?_
      · have h := ih (Nat.le_of_succ_le hk)
        rwa [min_eq_left hlt.le] at h
      · rw [Nat.add_mul, one_mul]
        show k * width + min width (n - k * width) = min (k * width + width) n
        omega
  have h := hstep _ le_rfl
  have hend : n ≤ (n + width - 1) / width * width := by
    have h := Nat.lt_div_mul_add hw (a := n + width - 1)
    omega
  rwa [min_eq_right hend] at h

theorem panels_length_le (hs : s ∈ panels width n) : s.2 ≤ width := by
  obtain ⟨c, -, rfl⟩ := mem_map.1 hs
  exact min_le_left _ _

theorem Abut.flatMap_range' (h : Abut a segments b) :
    segments.flatMap (fun s => List.range' s.1 s.2) = List.range' a (b - a) := by
  induction segments generalizing a with
  | nil => rw [show a = b from h, Nat.sub_self]; rfl
  | cons s segments ih =>
    obtain ⟨rfl, hrest⟩ := h
    have hle := hrest.le
    rw [flatMap_cons, ih hrest, range'_append_1]
    congr 1
    omega

/-- **The invariant rule of a loop over segments that abut.** The invariant speaks of how far
the loop has come. -/
theorem Abut.foldlM_invariant {σ : Type u} {m : Type u → Type v} [Monad m] [LawfulMonad m]
    {body : σ → ℕ × ℕ → m σ} {I : ℕ → σ → Prop} {s : σ} (h : Abut a segments b) (hinit : I a s)
    (hbody : ∀ p ∈ segments, ∀ s, I p.1 s → ∃ s', body s p = pure s' ∧ I (p.1 + p.2) s') :
    ∃ s', segments.foldlM body s = pure s' ∧ I b s' := by
  induction segments generalizing a s with
  | nil => exact ⟨s, rfl, h ▸ hinit⟩
  | cons p segments ih =>
    obtain ⟨rfl, hrest⟩ := h
    obtain ⟨s₁, hfirst, hs₁⟩ := hbody p mem_cons_self s hinit
    obtain ⟨s₂, hrun, hs₂⟩ := ih hrest hs₁ fun p' hp' => hbody p' (mem_cons_of_mem p hp')
    exact ⟨s₂, by rw [foldlM_cons, hfirst, pure_bind, hrun], hs₂⟩

end Btx.Util
