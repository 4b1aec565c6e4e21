/-
# Caches in front of a stored set

A set on disk with two caches: the elements known to be there and those known not to be there. Each
has two generations; when the current one is full it becomes the previous one. Queries are right as
long as the caches are `Coherent` with the set.
-/

import Mathlib.Data.Finset.Card

namespace Btx.Util

open List

variable {α : Type*} [DecidableEq α]

/-! ## Two generations -/

/-- A cache of two generations. -/
structure Generations (α : Type*) where
  current : Finset α
  previous : Finset α
  deriving DecidableEq

namespace Generations

/-- The cache with nothing in it. -/
def empty : Generations α := ⟨∅, ∅⟩

variable (g : Generations α)

/-- Either generation holds `x`. -/
def contains (x : α) : Bool := decide (x ∈ g.current ∨ x ∈ g.previous)

/-- Start a new generation when `incoming` more elements would reach the limit. -/
def rotate (limit incoming : ℕ) (g : Generations α) : Generations α :=
  if limit ≤ g.current.card + incoming then ⟨∅, g.current⟩ else g

/-- Put `x` into the current generation. -/
def add (x : α) : Generations α := { g with current := insert x g.current }

/-- Take `x` out of both generations. -/
def erase (g : Generations α) (x : α) : Generations α := ⟨g.current.erase x, g.previous.erase x⟩

@[simp] theorem contains_empty (x : α) : (empty : Generations α).contains x = false := by
  simp [contains, empty]

theorem contains_of_rotate {limit incoming : ℕ} {g : Generations α} {x : α}
    (h : (g.rotate limit incoming).contains x = true) : g.contains x = true := by
  rw [rotate] at h
  split at h
  · simp only [contains, decide_eq_true_eq] at h ⊢
    exact .inl (h.resolve_left (Finset.notMem_empty x))
  · exact h

@[simp] theorem contains_add (x y : α) :
    (g.add x).contains y = (decide (y = x) || g.contains y) := by
  simp [contains, add, or_assoc]

@[simp] theorem contains_erase (x y : α) :
    (g.erase x).contains y = (decide (y ≠ x) && g.contains y) := by
  by_cases h : y = x <;> simp [contains, erase, h]

end Generations

/-! ## Known hits and known misses -/

/-- The two caches. -/
structure MembershipCache (α : Type*) where
  hits : Generations α
  misses : Generations α
  deriving DecidableEq

namespace MembershipCache

/-- Both caches empty. -/
def empty : MembershipCache α := ⟨.empty, .empty⟩

/-- The caches say nothing wrong about the stored set. -/
structure Coherent (c : MembershipCache α) (stored : α → Bool) : Prop where
  hits : ∀ x, c.hits.contains x = true → stored x = true
  misses : ∀ x, c.misses.contains x = true → stored x = false

theorem coherent_empty (stored : α → Bool) : Coherent (empty : MembershipCache α) stored :=
  ⟨fun x h => absurd h (by simp [empty]), fun x h => absurd h (by simp [empty])⟩

variable (limit : ℕ)

/-- Note that `x` is not stored, unless that is known already. -/
def rememberMiss (c : MembershipCache α) (x : α) : MembershipCache α :=
  if c.misses.contains x then c else { c with misses := (c.misses.rotate limit 1).add x }

/-- Answer from the caches, then from the set; note a miss. The caches are looked at again before
the miss is noted, since another thread may have run. -/
def query (stored : α → Bool) (c : MembershipCache α) (x : α) : Bool × MembershipCache α :=
  if c.hits.contains x then (true, c)
  else if c.misses.contains x then (false, c)
  else if stored x then (true, c)
  else if c.hits.contains x then (true, c)
  else (false, c.rememberMiss limit x)

/-- The update after `xs` were written. -/
def noteInserted (c : MembershipCache α) (xs : List α) : MembershipCache α :=
  xs.foldl (fun c x => ⟨c.hits.add x, c.misses.erase x⟩)
    { c with hits := c.hits.rotate limit xs.length }

/-- The update after `xs` were erased. -/
def noteRemoved (c : MembershipCache α) (xs : List α) : MembershipCache α :=
  xs.foldl (fun c x => rememberMiss limit { c with hits := c.hits.erase x } x) c

variable {limit} {c : MembershipCache α} {stored stored' : α → Bool}

@[simp] theorem rememberMiss_hits (x : α) : (c.rememberMiss limit x).hits = c.hits := by
  rw [rememberMiss]
  split <;> rfl

variable {x y : α} {xs : List α}

theorem misses_of_rememberMiss (h : (c.rememberMiss limit x).misses.contains y = true) :
    y = x ∨ c.misses.contains y = true := by
  rw [rememberMiss] at h
  split at h
  · exact .inr h
  · rw [Generations.contains_add, Bool.or_eq_true, decide_eq_true_eq] at h
    exact h.imp_right Generations.contains_of_rotate

theorem misses_rememberMiss_self (x : α) : (c.rememberMiss limit x).misses.contains x = true := by
  rw [rememberMiss]
  split
  case isTrue h => exact h
  case isFalse => simp

theorem Coherent.rememberMiss (h : Coherent c stored) (hx : stored x = false) :
    Coherent (c.rememberMiss limit x) stored := by
  refine ⟨fun y hy => h.hits y (by simpa using hy), fun y hy => ?_⟩
  obtain rfl | hy := misses_of_rememberMiss hy
  · exact hx
  · exact h.misses y hy

/-- **A query over coherent caches answers for the set.** -/
theorem Coherent.query_fst (h : Coherent c stored) (x : α) :
    (query limit stored c x).1 = stored x := by
  rw [query]
  split
  case isTrue hhit => exact (h.hits x hhit).symm
  case isFalse hhit =>
    split
    case isTrue hmiss => exact (h.misses x hmiss).symm
    case isFalse =>
      split
      case isTrue hstored => exact hstored.symm
      case isFalse hstored => simpa [hhit] using hstored

theorem Coherent.query_snd (h : Coherent c stored) (x : α) :
    Coherent (query limit stored c x).2 stored := by
  rw [query]
  split
  · exact h
  · split
    · exact h
    · split
      · exact h
      case isFalse hstored => exact h.rememberMiss (by simpa using hstored)

theorem query_hits (x : α) : (query limit stored c x).2.hits = c.hits := by
  rw [query]
  split
  · rfl
  · split
    · rfl
    · split
      · rfl
      · exact rememberMiss_hits x

/-! ## Updates after a write -/

theorem contains_foldl_add :
    ((xs.foldl (fun c x => (⟨c.hits.add x, c.misses.erase x⟩ : MembershipCache α))
        c).hits.contains y = true ↔ y ∈ xs ∨ c.hits.contains y = true) ∧
      ((xs.foldl (fun c x => (⟨c.hits.add x, c.misses.erase x⟩ : MembershipCache α))
        c).misses.contains y = true ↔ y ∉ xs ∧ c.misses.contains y = true) := by
  induction xs generalizing c with
  | nil => simp
  | cons x xs ih =>
    rw [foldl_cons, ih.1, ih.2, Generations.contains_add, Generations.contains_erase]
    simp only [Bool.or_eq_true, Bool.and_eq_true, decide_eq_true_eq, mem_cons, not_or]
    tauto

theorem hits_of_noteInserted (h : (c.noteInserted limit xs).hits.contains y = true) :
    y ∈ xs ∨ c.hits.contains y = true :=
  (contains_foldl_add.1.mp h).imp_right Generations.contains_of_rotate

theorem hits_of_noteRemoved
    (h : (c.noteRemoved limit xs).hits.contains y = true) : y ∉ xs ∧ c.hits.contains y = true := by
  induction xs generalizing c with
  | nil => exact ⟨not_mem_nil, h⟩
  | cons x xs ih =>
    obtain ⟨hmem, hold⟩ := ih h
    rw [rememberMiss_hits, Generations.contains_erase, Bool.and_eq_true, decide_eq_true_eq] at hold
    exact ⟨not_mem_cons_of_ne_of_not_mem hold.1 hmem, hold.2⟩

theorem misses_of_noteRemoved (h : (c.noteRemoved limit xs).misses.contains y = true) :
    y ∈ xs ∨ c.misses.contains y = true := by
  induction xs generalizing c with
  | nil => exact .inr h
  | cons x xs ih =>
    rcases ih h with hmem | hold
    · exact .inl (mem_cons_of_mem x hmem)
    · exact (misses_of_rememberMiss hold).imp_left fun heq => mem_cons.mpr (.inl heq)

/-- **Coherence after an insertion**: exactly `xs` became stored. -/
theorem Coherent.noteInserted (h : Coherent c stored)
    (hmem : ∀ x ∈ xs, stored' x = true) (hother : ∀ x, x ∉ xs → stored' x = stored x) :
    Coherent (c.noteInserted limit xs) stored' := by
  refine ⟨fun y hy => ?_, fun y hy => ?_⟩
  · by_cases hyx : y ∈ xs
    · exact hmem y hyx
    · rw [hother y hyx]
      exact h.hits y ((hits_of_noteInserted hy).resolve_left hyx)
  · obtain ⟨hyx, hold⟩ := contains_foldl_add.2.mp hy
    rw [hother y hyx]
    exact h.misses y hold

/-- **Coherence after a removal**: exactly `xs` are no longer stored. -/
theorem Coherent.noteRemoved (h : Coherent c stored)
    (hmem : ∀ x ∈ xs, stored' x = false) (hother : ∀ x, x ∉ xs → stored' x = stored x) :
    Coherent (c.noteRemoved limit xs) stored' := by
  refine ⟨fun y hy => ?_, fun y hy => ?_⟩
  · obtain ⟨hyx, hold⟩ := hits_of_noteRemoved hy
    rw [hother y hyx, h.hits y hold]
  · by_cases hyx : y ∈ xs
    · exact hmem y hyx
    · rw [hother y hyx, h.misses y ((misses_of_noteRemoved hy).resolve_left hyx)]

end MembershipCache
end Btx.Util
