/-
# Checks that fail with a reason

A validation function is a sequence of checks in `Except ε α`. The lemmas here take a successful run
apart (`bind_eq_ok`, `require_eq_ok`) and carry an invariant through a loop (`foldlM_ok_invariant`).
-/

import Mathlib.Data.List.Nodup

namespace Btx.Util

open List Option

universe u

variable {ε : Type*} {α β γ σ : Type u}

/-- Continue when `p` holds, stop with `reason` otherwise. -/
def require (p : Prop) [Decidable p] (reason : ε) : Except ε Unit :=
  if p then .ok () else .error reason

variable {p : Prop} {x : Except ε α} {e : ε} {a : α} {l : List α} {s s' : σ} {f : α → Option β}
  {r : List β} {g : α → Option γ} {k : β → γ}

@[simp] theorem require_eq_ok [Decidable p] {reason : ε} {u : Unit} :
    require p reason = .ok u ↔ p := by
  unfold require
  split_ifs with h <;> simp [h]

@[simp] theorem bind_eq_ok {f : α → Except ε β} {r : β} :
    x >>= f = .ok r ↔ ∃ a, x = .ok a ∧ f a = .ok r := by
  cases x <;> simp [bind, Except.bind]

theorem bind_eq_error {f : α → Except ε β} :
    x >>= f = .error e ↔ x = .error e ∨ ∃ a, x = .ok a ∧ f a = .error e := by
  cases x <;> simp [bind, Except.bind]

@[simp] theorem ok_bind {f : α → Except ε β} : (Except.ok a >>= f) = f a := rfl

@[simp] theorem error_bind {f : α → Except ε β} :
    ((Except.error e : Except ε α) >>= f) = .error e := rfl

@[simp] theorem pure_eq_ok {b : α} : (pure a : Except ε α) = .ok b ↔ a = b := by
  simp [pure, Except.pure]

@[simp] theorem throw_eq_ok : (throw e : Except ε α) = .ok a ↔ False := by
  simp [throw, throwThe, MonadExceptOf.throw]

@[simp] theorem ite_throw_eq_ok [Decidable p] :
    (if p then throw e else x) = .ok a ↔ ¬p ∧ x = .ok a := by
  split_ifs with h <;> simp [h]

/-- **Invariant of a checked loop.** What one iteration preserves, the whole
loop preserves. -/
theorem foldlM_ok_invariant {f : σ → α → Except ε σ} {P : σ → Prop}
    (step : ∀ a ∈ l, ∀ t t', P t → f t a = .ok t' → P t') (hs : P s)
    (h : l.foldlM f s = .ok s') : P s' := by
  induction l generalizing s with
  | nil =>
    obtain rfl : s = s' := by simpa using h
    exact hs
  | cons a l ih =>
    obtain ⟨t, ht, hrest⟩ := bind_eq_ok.1 (by simpa using h)
    exact ih (fun b hb => step b (mem_cons_of_mem _ hb))
      (step a mem_cons_self s t hs ht) hrest

/-- **A loop that collects.** If every iteration extends the state by its element, through an
action `g` of lists on states, the whole loop extends it by the list. -/
theorem foldlM_ok_collect {f : σ → α → Except ε σ} {g : σ → List α → σ}
    (nil : ∀ s, g s [] = s) (append : ∀ s l l', g (g s l) l' = g s (l ++ l'))
    (step : ∀ s a s', f s a = .ok s' → s' = g s [a]) (h : l.foldlM f s = .ok s') : s' = g s l := by
  induction l generalizing s with
  | nil =>
    obtain rfl : s = s' := by simpa using h
    exact (nil s).symm
  | cons a l ih =>
    obtain ⟨t, ht, hrest⟩ := bind_eq_ok.1 (by simpa using h)
    rw [ih hrest, step s a t ht, append, singleton_append]

@[simp] theorem mapError_eq_ok {ε' : Type*} {f : ε → ε'} : x.mapError f = .ok a ↔ x = .ok a := by
  cases x <;> simp [Except.mapError]

theorem toOption_eq_some : x.toOption = some a ↔ x = .ok a := by
  cases x <;> simp [Except.toOption]

theorem forM_eq_ok {f : α → Except ε PUnit} : l.forM f = .ok () ↔ ∀ a ∈ l, f a = .ok () := by
  induction l with
  | nil => simp
  | cons a l ih =>
    change (f a >>= fun _ => l.forM f) = _ ↔ _
    rw [bind_eq_ok, forall_mem_cons, ← ih]
    exact ⟨fun ⟨_, ha, hl⟩ => ⟨ha, hl⟩, fun ⟨ha, hl⟩ => ⟨(), ha, hl⟩⟩

/-- The value of a run that succeeds. -/
def okValue (x : Except ε α) (h : x.toOption.isSome = true) : α := x.toOption.get h

theorem eq_ok_okValue (h : x.toOption.isSome = true) : x = .ok (okValue x h) :=
  toOption_eq_some.1 (some_get h).symm

/-- The reason of a run that fails. -/
def errorValue : (x : Except ε α) → x.toOption = none → ε
  | .error e, _ => e

theorem eq_error_errorValue (h : x.toOption = none) : x = .error (errorValue x h) := by
  cases x with
  | ok a => cases h
  | error e => rfl

/-! ## Traversals -/

theorem exists_mapM_eq_ok_iff {f : α → Except ε β} :
    (∃ r, l.mapM f = .ok r) ↔ ∀ a ∈ l, ∃ b, f a = .ok b := by
  induction l with
  | nil => exact iff_of_true ⟨[], rfl⟩ (by simp)
  | cons a l ih =>
    rw [forall_mem_cons, ← ih]
    simp only [mapM_cons, bind_eq_ok, pure_eq_ok]
    constructor
    · rintro ⟨_, b, hb, bs, hbs, -⟩
      exact ⟨⟨b, hb⟩, bs, hbs⟩
    · rintro ⟨⟨b, hb⟩, bs, hbs⟩
      exact ⟨_, b, hb, bs, hbs, rfl⟩

theorem flatten_of_mapM_eq_ok {f : α → Except ε (List β)} {r : List (List β)}
    (h : l.mapM f = .ok r) : r.flatten = l.flatMap fun a => (f a).toOption.getD [] := by
  induction l generalizing r with
  | nil =>
    obtain rfl : [] = r := by simpa using h
    rfl
  | cons a l ih =>
    simp only [mapM_cons, bind_eq_ok, pure_eq_ok] at h
    obtain ⟨b, hb, bs, hbs, rfl⟩ := h
    rw [flatten_cons, flatMap_cons, ih hbs, hb]
    rfl

theorem mapM_eq_some_iff : l.mapM f = some r ↔ List.Forall₂ (fun a b => f a = some b) l r := by
  induction l generalizing r with
  | nil => simp [eq_comm]
  | cons a l ih =>
    simp only [mapM_cons, Option.pure_def, bind_eq_bind, bind_eq_some_iff,
      some.injEq, ih, forall₂_cons_left_iff]
    constructor
    · rintro ⟨b, hb, bs, hbs, rfl⟩
      exact ⟨b, bs, hb, hbs, rfl⟩
    · rintro ⟨b, bs, hb, hbs, rfl⟩
      exact ⟨b, hb, bs, hbs, rfl⟩

theorem mapM_eq_some_length (h : l.mapM f = some r) : r.length = l.length :=
  (mapM_eq_some_iff.1 h).length_eq.symm

theorem mapM_eq_some_map (hfg : ∀ a b, f a = some b → g a = some (k b))
    (h : l.mapM f = some r) : l.mapM g = some (r.map k) := by
  rw [mapM_eq_some_iff, forall₂_map_right_iff]
  exact (mapM_eq_some_iff.1 h).imp hfg

theorem flatMap_of_mapM_eq_some {g : β → List γ} {g' : α → List γ}
    (hfg : ∀ a b, f a = some b → g b = g' a)
    (h : l.mapM f = some r) : r.flatMap g = l.flatMap g' := by
  rw [mapM_eq_some_iff] at h
  induction h with
  | nil => rfl
  | cons hab _ ih => rw [flatMap_cons, flatMap_cons, hfg _ _ hab, ih]

theorem mapM_eq_some_mem {b : β} (h : l.mapM f = some r) (hb : b ∈ r) : ∃ a ∈ l, f a = some b := by
  rw [mapM_eq_some_iff] at h
  induction h with
  | nil => cases hb
  | @cons a b' l r hab _ ih =>
    rcases mem_cons.1 hb with rfl | hb
    · exact ⟨a, mem_cons_self, hab⟩
    · obtain ⟨a', ha', hab'⟩ := ih hb
      exact ⟨a', mem_cons_of_mem _ ha', hab'⟩

theorem mapM_eq_map_mapM
    (h : ∀ a ∈ l, g a = (f a).map k) : l.mapM g = (l.mapM f).map (List.map k) := by
  induction l with
  | nil => rfl
  | cons a l ih =>
    rw [forall_mem_cons] at h
    rw [mapM_cons, mapM_cons, ih h.2, h.1]
    cases f a with
    | none => rfl
    | some b => cases l.mapM f <;> rfl

theorem mapM_find?_key [DecidableEq β] {key : α → β} (h : (l.map key).Nodup) :
    (l.map key).mapM (fun k => l.find? (key · = k)) = some l := by
  rw [mapM_eq_some_iff, forall₂_map_left_iff, forall₂_same]
  intro a ha
  obtain ⟨b, hb⟩ := isSome_iff_exists.1
    (find?_isSome.2 ⟨a, ha, by simp⟩ : (l.find? (key · = key a)).isSome)
  have hkey : key b = key a := by simpa using find?_some hb
  rw [hb, inj_on_of_nodup_map h (mem_of_find?_eq_some hb) ha hkey]

end Btx.Util
