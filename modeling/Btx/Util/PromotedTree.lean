/-
# Trees that promote the last node of an odd level

A list of leaves is combined level by level with a function `branch`; the last node of a level of
odd length goes up as it is. Where `branch` does not mind the order of its arguments, the siblings
lead from the leaf to the root (`foldl_siblings`), and every path that ends in the root began in a
leaf (`mem_of_foldl_eq_root`).
-/

import Btx.Util.DuplicateLast

namespace Btx.Util.PromotedTree

open List

open DuplicateLast (levelPairs siblingIndex siblingIndex_add_two mem_of_mem_levelPairs)

variable {α : Type*} (branch : α → α → α)

/-- The level above. -/
def nextLevel : List α → List α
  | a :: b :: rest => branch a b :: nextLevel rest
  | l => l

theorem length_nextLevel (l : List α) : (nextLevel branch l).length = (l.length + 1) / 2 := by
  fun_induction nextLevel branch l with
  | case1 a b rest ih =>
    simp only [length_cons, ih]
    omega
  | case2 l hl =>
    rcases l with _ | ⟨a, _ | ⟨b, rest⟩⟩
    · simp
    · simp
    · exact (hl a b rest rfl).elim

/-- The node that remains, or `e` if there is no leaf. -/
def root (e : α) (l : List α) : α :=
  if 1 < l.length then root e (nextLevel branch l) else l.headD e
termination_by l.length
decreasing_by rw [length_nextLevel]; omega

/-- The siblings on the way up from a position. -/
def siblings (l : List α) (i : ℕ) : List α :=
  if 1 < l.length then l[siblingIndex i]?.toList ++ siblings (nextLevel branch l) (i / 2) else []
termination_by l.length
decreasing_by rw [length_nextLevel]; omega

/-- Every pair that is combined on the way to the root. -/
def treePairs (l : List α) : List (α × α) :=
  if 1 < l.length then levelPairs l ++ treePairs (nextLevel branch l) else []
termination_by l.length
decreasing_by rw [length_nextLevel]; omega

/-- The pairs that a path combines, from a value. -/
def pathPairs : List α → α → List (α × α)
  | [], _ => []
  | s :: path, x => (x, s) :: pathPairs path (branch x s)

variable {branch} {l path : List α} {e x : α} {i : ℕ}

/-! ## One level -/

theorem nextLevel_getElem? (hcomm : ∀ a b, branch a b = branch b a) (hx : l[i]? = some x) :
    (nextLevel branch l)[i / 2]? = some ((l[siblingIndex i]?.toList).foldl branch x) := by
  fun_induction nextLevel branch l generalizing i with
  | case1 a b rest ih =>
    rcases i with _ | _ | i
    · obtain rfl : a = x := by simpa using hx
      rfl
    · obtain rfl : b = x := by simpa using hx
      exact congrArg some (hcomm a b)
    · rw [show (i + 2) / 2 = i / 2 + 1 by omega, siblingIndex_add_two]
      exact ih (by simpa using hx)
  | case2 l hl =>
    rcases l with _ | ⟨a, _ | ⟨b, rest⟩⟩
    · simp at hx
    · obtain rfl : i = 0 := by
        have := (List.getElem?_eq_some_iff.1 hx).1
        simpa using this
      simpa [siblingIndex] using hx
    · exact (hl a b rest rfl).elim

theorem mem_nextLevel (h : x ∈ nextLevel branch l) :
    x ∈ l ∨ ∃ p ∈ levelPairs l, branch p.1 p.2 = x := by
  fun_induction nextLevel branch l with
  | case1 a b rest ih =>
    rcases mem_cons.1 h with rfl | hrest
    · exact .inr ⟨(a, b), mem_cons_self, rfl⟩
    · rcases ih hrest with hmem | ⟨p, hp, heq⟩
      · exact .inl (mem_cons_of_mem _ (mem_cons_of_mem _ hmem))
      · exact .inr ⟨p, mem_cons_of_mem _ hp, heq⟩
  | case2 l hl => exact .inl h

/-! ## The siblings lead to the root -/

/-- **Completeness.** The siblings of a leaf lead from the leaf to the root. -/
theorem foldl_siblings (hcomm : ∀ a b, branch a b = branch b a) (hx : l[i]? = some x) :
    (siblings branch l i).foldl branch x = root branch e l := by
  fun_induction siblings branch l i generalizing x with
  | case1 l i hl ih =>
    rw [foldl_append, ih (nextLevel_getElem? hcomm hx), root.eq_1 branch e l, if_pos hl]
  | case2 l i hl =>
    obtain ⟨hi, rfl⟩ := List.getElem?_eq_some_iff.1 hx
    obtain ⟨y, rfl⟩ := length_eq_one_iff.1 (show l.length = 1 by omega)
    rw [root, if_neg hl]
    simp

theorem length_siblings_le {k : ℕ} (hl : l.length ≤ 2 ^ k) : (siblings branch l i).length ≤ k := by
  fun_induction siblings branch l i generalizing k with
  | case1 l i hlong ih =>
    have hhead : l[siblingIndex i]?.toList.length ≤ 1 := by
      cases l[siblingIndex i]? <;> simp
    obtain ⟨k, rfl⟩ : ∃ k', k = k' + 1 := Nat.exists_eq_succ_of_ne_zero (by
      rintro rfl
      omega)
    have htail := ih (k := k) (by rw [length_nextLevel]; rw [Nat.pow_succ] at hl; omega)
    rw [length_append]
    omega
  | case2 => exact zero_le

/-! ## Values of the tree -/

variable (branch) in
/-- The values of the tree: the leaves and the combined pairs. -/
def IsNode (l : List α) (x : α) : Prop := x ∈ l ∨ ∃ p ∈ treePairs branch l, branch p.1 p.2 = x

theorem isNode_of_nextLevel (hl : 1 < l.length) (h : IsNode branch (nextLevel branch l) x) :
    IsNode branch l x := by
  unfold IsNode
  rw [treePairs, if_pos hl]
  rcases h with hmem | ⟨p, hp, rfl⟩
  · rcases mem_nextLevel hmem with hmem | ⟨p, hp, rfl⟩
    · exact .inl hmem
    · exact .inr ⟨p, mem_append_left _ hp, rfl⟩
  · exact .inr ⟨p, mem_append_right _ hp, rfl⟩

theorem isNode_root (hne : l ≠ []) : IsNode branch l (root branch e l) := by
  fun_induction root branch e l with
  | case1 l hl ih =>
    refine isNode_of_nextLevel hl (ih ?_)
    rw [ne_eq, ← length_eq_zero_iff, length_nextLevel]
    omega
  | case2 l hl =>
    obtain ⟨x, rest, rfl⟩ := exists_cons_of_ne_nil hne
    exact .inl mem_cons_self

theorem isNode_of_mem_treePairs {p : α × α} (h : p ∈ treePairs branch l) :
    IsNode branch l p.1 ∧ IsNode branch l p.2 := by
  fun_induction treePairs branch l with
  | case1 l hl ih =>
    rcases mem_append.1 h with hlevel | habove
    · exact (mem_of_mem_levelPairs hlevel).imp .inl .inl
    · exact (ih habove).imp (isNode_of_nextLevel hl) (isNode_of_nextLevel hl)
  | case2 => cases h

theorem isNode_of_foldl (hpairs : ∀ p ∈ pathPairs branch path x, ∀ q ∈ treePairs branch l,
      branch p.1 p.2 = branch q.1 q.2 → p.1 = q.1 ∨ p.1 = q.2)
    (hleaf : ∀ p ∈ pathPairs branch path x, branch p.1 p.2 ∉ l)
    (h : IsNode branch l (path.foldl branch x)) : IsNode branch l x := by
  induction path generalizing x with
  | nil => exact h
  | cons s path ih =>
    -- the value above the first pair is a value of the tree, and not a leaf
    have hnode : IsNode branch l (branch x s) :=
      ih (fun p hp => hpairs p (mem_cons_of_mem _ hp))
        (fun p hp => hleaf p (mem_cons_of_mem _ hp)) h
    rcases hnode with hmem | ⟨q, hq, heq⟩
    · exact absurd hmem (hleaf (x, s) mem_cons_self)
    · rcases hpairs (x, s) mem_cons_self q hq heq.symm with rfl | rfl
      · exact (isNode_of_mem_treePairs hq).1
      · exact (isNode_of_mem_treePairs hq).2

/-- **Soundness.** Every path that ends in the root began in a leaf. -/
theorem mem_of_foldl_eq_root (hne : l ≠ []) (h : path.foldl branch x = root branch e l)
    (hpairs : ∀ p ∈ pathPairs branch path x, ∀ q ∈ treePairs branch l,
      branch p.1 p.2 = branch q.1 q.2 → p.1 = q.1 ∨ p.1 = q.2)
    (hleaf : ∀ p ∈ pathPairs branch path x, branch p.1 p.2 ∉ l)
    (hx : ∀ p ∈ treePairs branch l, branch p.1 p.2 ≠ x) : x ∈ l := by
  have hroot : IsNode branch l (path.foldl branch x) := h ▸ isNode_root hne
  rcases isNode_of_foldl hpairs hleaf hroot with hmem | ⟨p, hp, heq⟩
  · exact hmem
  · exact absurd heq (hx p hp)

end Btx.Util.PromotedTree
