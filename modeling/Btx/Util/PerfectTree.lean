/-
# Perfect binary trees over a row of leaves

A row of leaves and an operation `branch` on two neighbours define a value at every depth and index
(`node`). `spine` lists the left neighbours still waiting for their right half. The fold over the
`siblings` of a leaf arrives at the root (`foldPath_siblings`), and, if `branch` has no collision,
from no other leaf (`eq_of_foldPath_eq_node`).
-/

import Mathlib.Data.List.Basic
import Mathlib.Tactic.Linarith
import Mathlib.Tactic.Ring

namespace Btx.Util.PerfectTree

open List

variable {α : Type*} (branch : α → α → α)

/-! ## Nodes -/

/-- The value at a depth and an index over the leaves `f`. -/
def node (f : ℕ → α) : ℕ → ℕ → α
  | 0, i => f i
  | d + 1, i => branch (node f d (2 * i)) (node f d (2 * i + 1))

/-- The leaves of a list, continued with `e`. -/
def pad (e : α) (xs : List α) (i : ℕ) : α := xs.getD i e

/-- The value over `2 ^ d` leaves `e`. -/
def constNode (e : α) (d : ℕ) : α := (fun x => branch x x)^[d] e

variable {branch} {f g : ℕ → α}

@[simp] theorem node_zero (i : ℕ) : node branch f 0 i = f i := rfl

theorem node_succ (d i : ℕ) :
    node branch f (d + 1) i = branch (node branch f d (2 * i)) (node branch f d (2 * i + 1)) := rfl

theorem constNode_succ (e : α) (d : ℕ) :
    constNode branch e (d + 1) = branch (constNode branch e d) (constNode branch e d) :=
  Function.iterate_succ_apply' _ d e

variable {d i q : ℕ}

theorem node_congr (h : ∀ j, i * 2 ^ d ≤ j → j < (i + 1) * 2 ^ d → f j = g j) :
    node branch f d i = node branch g d i := by
  induction d generalizing i with
  | zero => exact h i (by simp) (by simp)
  | succ d ih =>
    rw [node_succ, node_succ, ih, ih]
    all_goals
      intro j hlo hhi
      exact h j (by rw [pow_succ]; linarith) (by rw [pow_succ]; linarith)

theorem node_of_forall_eq {e : α} (h : ∀ j, i * 2 ^ d ≤ j → j < (i + 1) * 2 ^ d → f j = e) :
    node branch f d i = constNode branch e d := by
  rw [node_congr (g := fun _ => e) h]
  clear h
  induction d generalizing i with
  | zero => rfl
  | succ d ih => rw [node_succ, ih, ih, constNode_succ]

theorem node_shift (b d i : ℕ) :
    node branch (fun j => f (b * 2 ^ d + j)) d i = node branch f d (b + i) := by
  induction d generalizing b i with
  | zero => simp
  | succ d ih =>
    have hb : (fun j => f (b * 2 ^ (d + 1) + j)) = fun j => f (2 * b * 2 ^ d + j) := by
      funext j
      rw [pow_succ]
      congr 1
      ring
    rw [node_succ, node_succ, hb, ih, ih]
    congr 2 <;> ring

/-! ## The waiting left neighbours -/

variable (branch) in
/-- From depth `d` upwards, at the node of index `q` and then at those above it: the left
neighbour if there is one, and nothing where the node is itself a left one. The list ends
with the highest left neighbour. -/
def spine (f : ℕ → α) (d q : ℕ) : List (Option α) :=
  if q = 0 then []
  else (if q % 2 = 1 then some (node branch f d (q - 1)) else none) :: spine f (d + 1) (q / 2)
termination_by q
decreasing_by omega

@[simp] theorem spine_zero (d : ℕ) : spine branch f d 0 = [] := by
  rw [spine, if_pos rfl]

theorem spine_even {m : ℕ} (hm : 0 < m) :
    spine branch f d (2 * m) = none :: spine branch f (d + 1) m := by
  rw [spine, if_neg (by omega), if_neg (by omega), Nat.mul_div_cancel_left m two_pos]

theorem spine_odd (d m : ℕ) : spine branch f d (2 * m + 1) =
      some (node branch f d (2 * m)) :: spine branch f (d + 1) m := by
  rw [spine, if_neg (by omega), if_pos (by omega), Nat.add_sub_cancel]
  congr 2
  omega

theorem spine_congr (h : ∀ j, j < q * 2 ^ d → f j = g j) :
    spine branch f d q = spine branch g d q := by
  induction q using Nat.strong_induction_on generalizing d with
  | _ q ih =>
    obtain ⟨m, rfl | rfl⟩ := Nat.even_or_odd' q
    · obtain rfl | hm := Nat.eq_zero_or_pos m
      · simp
      · rw [spine_even hm, spine_even hm, ih m (by omega)]
        intro j hj
        exact h j (by rw [pow_succ] at hj; linarith)
    · rw [spine_odd, spine_odd, ih m (by omega)]
      · rw [node_congr]
        intro j _ hj
        exact h j hj
      · intro j hj
        refine h j (hj.trans_le ?_)
        rw [pow_succ, add_mul, one_mul]
        exact le_add_right (by linarith)

theorem length_spine_le {n : ℕ} (h : q < 2 ^ n) : (spine branch f d q).length ≤ n := by
  induction n generalizing d q with
  | zero =>
    obtain rfl : q = 0 := by simpa using h
    simp
  | succ n ih =>
    obtain ⟨m, rfl | rfl⟩ := Nat.even_or_odd' q
    · obtain rfl | hm := Nat.eq_zero_or_pos m
      · simp
      · rw [spine_even hm, length_cons]
        exact Nat.succ_le_succ (ih (by rw [pow_succ] at h; omega))
    · rw [spine_odd, length_cons]
      exact Nat.succ_le_succ (ih (by rw [pow_succ] at h; omega))

/-! ## Paths -/

variable (branch) in
/-- Up a path: the bits of the position say on which side the sibling stands. -/
def foldPath : List α → ℕ → α → α
  | [], _, x => x
  | s :: path, q, x =>
      foldPath path (q / 2) (if q % 2 = 1 then branch s x else branch x s)

theorem foldPath_mod (path : List α) (q : ℕ) (x : α) :
    foldPath branch path (q % 2 ^ path.length) x = foldPath branch path q x := by
  induction path generalizing q x with
  | nil => rfl
  | cons s path ih =>
    have hbit : q % 2 ^ (path.length + 1) % 2 = q % 2 :=
      Nat.mod_mod_of_dvd q (dvd_pow_self 2 (Nat.succ_ne_zero _))
    have hrest : q % 2 ^ (path.length + 1) / 2 = q / 2 % 2 ^ path.length := by
      rw [pow_succ', Nat.mod_mul_right_div_self]
    rw [length_cons, foldPath, foldPath, hbit, hrest, ih]

variable (branch) in
/-- The siblings of the node of index `q` at depth `d` and of the `n - 1` nodes above it. -/
def siblings (f : ℕ → α) : ℕ → ℕ → ℕ → List α
  | 0, _, _ => []
  | n + 1, d, q =>
      node branch f d (if q % 2 = 1 then q - 1 else q + 1) :: siblings f n (d + 1) (q / 2)

theorem node_parent (d q : ℕ) : node branch f (d + 1) (q / 2) =
      if q % 2 = 1 then branch (node branch f d (q - 1)) (node branch f d q)
      else branch (node branch f d q) (node branch f d (q + 1)) := by
  obtain ⟨m, rfl | rfl⟩ := Nat.even_or_odd' q
  · rw [if_neg (by omega), Nat.mul_div_cancel_left m two_pos, node_succ]
  · rw [if_pos (by omega), Nat.add_sub_cancel, node_succ]
    congr 2 <;> omega

/-- **The siblings lead to the root.** -/
theorem foldPath_siblings (n d q : ℕ) :
    foldPath branch (siblings branch f n d q) q (node branch f d q) =
      node branch f (d + n) (q / 2 ^ n) := by
  induction n generalizing d q with
  | zero => simp [siblings, foldPath]
  | succ n ih =>
    have hstep : (if q % 2 = 1 then
          branch (node branch f d (if q % 2 = 1 then q - 1 else q + 1)) (node branch f d q)
        else branch (node branch f d q) (node branch f d (if q % 2 = 1 then q - 1 else q + 1))) =
        node branch f (d + 1) (q / 2) := by
      rw [node_parent]
      split <;> rfl
    rw [siblings, foldPath, hstep, ih, Nat.div_div_eq_div_mul, ← pow_succ', add_right_comm,
      add_assoc]

variable (branch) in
/-- The pairs that the fold over a path combines. -/
def pathPairs : List α → ℕ → α → List (α × α)
  | [], _, _ => []
  | s :: path, q, x =>
      let pair := if q % 2 = 1 then (s, x) else (x, s)
      pair :: pathPairs path (q / 2) (branch pair.1 pair.2)

variable (branch) in
/-- The pairs of neighbours that the tree combines on the way up from the node of index `q`. -/
def nodePairs (f : ℕ → α) : ℕ → ℕ → ℕ → List (α × α)
  | 0, _, _ => []
  | n + 1, d, q =>
      (node branch f d (2 * (q / 2)), node branch f d (2 * (q / 2) + 1)) ::
        nodePairs f n (d + 1) (q / 2)

theorem pathPairs_siblings (n d q : ℕ) :
    pathPairs branch (siblings branch f n d q) q (node branch f d q) =
      nodePairs branch f n d q := by
  induction n generalizing d q with
  | zero => rfl
  | succ n ih =>
    rw [siblings, pathPairs, nodePairs]
    obtain ⟨m, rfl | rfl⟩ := Nat.even_or_odd' q
    · simp only [show ¬2 * m % 2 = 1 by omega, if_false, Nat.mul_div_cancel_left m two_pos]
      rw [← ih, node_succ]
    · simp only [show (2 * m + 1) % 2 = 1 by omega, if_true, Nat.add_sub_cancel,
        show (2 * m + 1) / 2 = m by omega]
      rw [← ih, node_succ]

/-- `branch` is injective on the pairs of both lists. -/
def NoCollision (branch : α → α → α) (ps rs : List (α × α)) : Prop :=
  Set.InjOn (fun p => branch p.1 p.2) {p | p ∈ ps ∨ p ∈ rs}

theorem NoCollision.tail {p r : α × α} {ps rs : List (α × α)}
    (h : NoCollision branch (p :: ps) (r :: rs)) : NoCollision branch ps rs :=
  h.mono fun _ hx => hx.imp (mem_cons_of_mem p) (mem_cons_of_mem r)

/-- **No other leaf leads to the root.** If the fold over a path ends in the node above index `q`,
and `branch` has no collision among the pairs that path and tree combine, it began in the node of
index `q`. -/
theorem eq_of_foldPath_eq_node {path : List α} {x : α}
    (hpairs : NoCollision branch (nodePairs branch f path.length d q) (pathPairs branch path q x))
    (h : foldPath branch path q x = node branch f (d + path.length) (q / 2 ^ path.length)) :
    x = node branch f d q := by
  induction path generalizing d q x with
  | nil => simpa [foldPath] using h
  | cons s path ih =>
    rw [length_cons] at hpairs h
    have hparent : (if q % 2 = 1 then branch s x else branch x s) =
        node branch f (d + 1) (q / 2) := by
      refine ih ?_ ?_
      · have htail := hpairs.tail
        split <;> rename_i hq <;> simpa [hq] using htail
      · rw [foldPath] at h
        rw [h, Nat.div_div_eq_div_mul, ← pow_succ', add_right_comm, add_assoc]
    -- one step down: the pair on the path is the pair of neighbours in the tree
    have hpair : (node branch f d (2 * (q / 2)), node branch f d (2 * (q / 2) + 1)) =
        if q % 2 = 1 then (s, x) else (x, s) := by
      refine hpairs (.inl mem_cons_self) (.inr mem_cons_self) ?_
      rw [node_succ] at hparent
      split at hparent <;> rename_i hq <;> simp [hq, hparent]
    split at hpair
    case isTrue hq =>
      rw [← (Prod.mk.inj hpair).2]
      congr 1
      omega
    case isFalse hq =>
      rw [← (Prod.mk.inj hpair).1]
      congr 1
      omega

end Btx.Util.PerfectTree
