/-
# Trees that duplicate the last node of an odd level

A list of leaves is combined level by level with a function `branch`; a level of odd length first
gets its last node once more. The siblings of a leaf lead from it to the root (`foldPath_siblings`),
and a path that ends in the root has only values of the tree (`isNode_of_foldPath`).
-/

import Btx.Util.PerfectTree
import Mathlib.Data.List.Nodup

namespace Btx.Util.DuplicateLast

open PerfectTree List Option

variable {α : Type*}

/-- A level with its last node once more if its length is odd. -/
def padOdd (l : List α) : List α := if l.length % 2 = 1 then l ++ l.getLast?.toList else l

/-- The neighbours of a level of even length, as pairs. -/
def levelPairs : List α → List (α × α)
  | x :: y :: l => (x, y) :: levelPairs l
  | _ => []

/-- The position of the sibling. -/
def siblingIndex (i : ℕ) : ℕ := if i % 2 = 0 then i + 1 else i - 1

theorem siblingIndex_add_two (i : ℕ) : siblingIndex (i + 2) = siblingIndex i + 2 := by
  unfold siblingIndex
  split_ifs <;> omega

variable (branch : α → α → α)

/-- The level above. -/
def nextLevel (l : List α) : List α := (levelPairs (padOdd l)).map fun p => branch p.1 p.2

section Levels

variable {branch}

theorem length_padOdd (l : List α) : (padOdd l).length = l.length + l.length % 2 := by
  unfold padOdd
  split_ifs with hodd
  · have hne : l ≠ [] := by
      rintro rfl
      simp at hodd
    rw [getLast?_eq_some_getLast hne, toList_some, length_append, hodd, length_singleton]
  · omega

theorem length_levelPairs (l : List α) : (levelPairs l).length = l.length / 2 := by
  fun_induction levelPairs l with
  | case1 x y l ih =>
    simp only [length_cons, ih]
    omega
  | case2 l hl =>
    rcases l with _ | ⟨x, _ | ⟨y, l⟩⟩
    · simp
    · simp
    · exact (hl x y l rfl).elim

theorem length_nextLevel (l : List α) : (nextLevel branch l).length = (l.length + 1) / 2 := by
  rw [nextLevel, length_map, length_levelPairs, length_padOdd]
  omega

end Levels

/-- The node that remains, or `e` if there is no leaf. -/
def root (e : α) (l : List α) : α :=
  if 1 < l.length then root e (nextLevel branch l) else l.headD e
termination_by l.length
decreasing_by rw [length_nextLevel]; omega

/-- The siblings on the way up from a position. -/
def siblings (l : List α) (i : ℕ) : List α :=
  if 1 < l.length then
    (padOdd l)[siblingIndex i]?.toList ++ siblings (nextLevel branch l) (i / 2)
  else []
termination_by l.length
decreasing_by rw [length_nextLevel]; omega

/-- Every pair that is combined on the way to the root. -/
def treePairs (l : List α) : List (α × α) :=
  if 1 < l.length then levelPairs (padOdd l) ++ treePairs (nextLevel branch l) else []
termination_by l.length
decreasing_by rw [length_nextLevel]; omega

/-- The values of the tree: the leaves and the combined pairs. -/
def IsNode (l : List α) (x : α) : Prop := x ∈ l ∨ ∃ p ∈ treePairs branch l, branch p.1 p.2 = x

variable {branch}

/-! ## One level -/

variable {x e : α} {i : ℕ} {p : α × α} {l : List α}

theorem mem_padOdd : x ∈ padOdd l ↔ x ∈ l := by
  unfold padOdd
  split_ifs
  · rw [mem_append, mem_toList]
    exact ⟨fun h => h.elim id mem_of_getLast?, .inl⟩
  · rfl

theorem padOdd_getElem? (hi : i < l.length) : (padOdd l)[i]? = l[i]? := by
  unfold padOdd
  split_ifs
  · exact getElem?_append_left hi
  · rfl

theorem mem_of_mem_levelPairs (h : p ∈ levelPairs l) : p.1 ∈ l ∧ p.2 ∈ l := by
  fun_induction levelPairs l with
  | case1 x y l ih =>
    rcases mem_cons.1 h with rfl | hrest
    · simp
    · exact (ih hrest).imp (by simp +contextual) (by simp +contextual)
  | case2 => cases h

theorem levelPairs_getElem? (heven : l.length % 2 = 0) (hi : i < l.length) :
    ∃ x s, l[i]? = some x ∧ l[siblingIndex i]? = some s ∧
      (levelPairs l)[i / 2]? = some (if i % 2 = 1 then (s, x) else (x, s)) := by
  fun_induction levelPairs l generalizing i with
  | case1 x y l ih =>
    rcases i with _ | _ | i
    · exact ⟨x, y, rfl, rfl, rfl⟩
    · exact ⟨y, x, rfl, rfl, rfl⟩
    · simp only [length_cons] at heven hi
      obtain ⟨a, s, ha, hs, hpair⟩ := ih (i := i) (by omega) (by omega)
      refine ⟨a, s, by simpa using ha, ?_, ?_⟩
      · simpa [siblingIndex_add_two] using hs
      · rw [show (i + 2) / 2 = i / 2 + 1 by omega, getElem?_cons_succ, hpair,
          show (i + 2) % 2 = i % 2 by omega]
  | case2 l hl =>
    rcases l with _ | ⟨x, _ | ⟨y, l⟩⟩
    · exact absurd hi (Nat.not_lt_zero i)
    · simp at heven
    · exact (hl x y l rfl).elim

theorem nextLevel_getElem? (hx : l[i]? = some x) :
    ∃ s, (padOdd l)[siblingIndex i]? = some s ∧
      (nextLevel branch l)[i / 2]? = some (if i % 2 = 1 then branch s x else branch x s) := by
  have hi : i < l.length := (List.getElem?_eq_some_iff.1 hx).1
  have hlen := length_padOdd l
  obtain ⟨x', s, hx', hs, hpair⟩ := levelPairs_getElem? (l := padOdd l) (i := i) (by omega)
    (by omega)
  rw [padOdd_getElem? hi, hx] at hx'
  cases hx'
  refine ⟨s, hs, ?_⟩
  rw [nextLevel, getElem?_map, hpair]
  split_ifs <;> rfl

/-! ## The siblings lead to the root -/

/-- **Completeness.** The siblings of a leaf lead from the leaf to the root. -/
theorem foldPath_siblings (hx : l[i]? = some x) :
    foldPath branch (siblings branch l i) i x = root branch e l := by
  fun_induction siblings branch l i generalizing x with
  | case1 l i hl ih =>
    obtain ⟨s, hs, hparent⟩ := @nextLevel_getElem? _ branch _ _ _ hx
    have hroot : root branch e l = root branch e (nextLevel branch l) := by
      rw [root, if_pos hl]
    rw [hroot, hs, toList_some, singleton_append, foldPath, ih hparent]
  | case2 l i hl =>
    obtain ⟨hi, rfl⟩ := List.getElem?_eq_some_iff.1 hx
    obtain ⟨y, rfl⟩ := length_eq_one_iff.1 (show l.length = 1 by omega)
    rw [root, if_neg hl]
    simp [foldPath]

theorem length_siblings_le {k : ℕ} (hl : l.length ≤ 2 ^ k) : (siblings branch l i).length ≤ k := by
  fun_induction siblings branch l i generalizing k with
  | case1 l i hlong ih =>
    have hhead : (padOdd l)[siblingIndex i]?.toList.length ≤ 1 := by
      cases (padOdd l)[siblingIndex i]? <;> simp
    obtain ⟨k, rfl⟩ : ∃ k', k = k' + 1 := Nat.exists_eq_succ_of_ne_zero (by
      rintro rfl
      omega)
    have htail := ih (k := k) (by rw [length_nextLevel]; rw [pow_succ] at hl; omega)
    rw [length_append]
    omega
  | case2 => exact zero_le

/-! ## Values of the tree -/

/-- The pair that a step of a path combines. -/
def stepPair (s : α) (i : ℕ) (x : α) : α × α := if i % 2 = 1 then (s, x) else (x, s)

theorem foldPath_cons (s : α) (path : List α) (i : ℕ) (x : α) : foldPath branch (s :: path) i x =
      foldPath branch path (i / 2) (branch (stepPair s i x).1 (stepPair s i x).2) := by
  rw [foldPath, stepPair]
  split_ifs <;> rfl

theorem isNode_of_nextLevel (hl : 1 < l.length)
    (h : IsNode branch (nextLevel branch l) x) : IsNode branch l x := by
  right
  rw [treePairs, if_pos hl]
  rcases h with hmem | ⟨p, hp, rfl⟩
  · obtain ⟨p, hp, rfl⟩ := List.mem_map.1 hmem
    exact ⟨p, mem_append_left _ hp, rfl⟩
  · exact ⟨p, mem_append_right _ hp, rfl⟩

theorem isNode_root (hne : l ≠ []) : IsNode branch l (root branch e l) := by
  fun_induction root branch e l with
  | case1 l hl ih =>
    refine isNode_of_nextLevel hl (ih ?_)
    rw [ne_eq, ← length_eq_zero_iff, length_nextLevel]
    omega
  | case2 l hl =>
    obtain ⟨x, rest, rfl⟩ := exists_cons_of_ne_nil hne
    exact .inl mem_cons_self

theorem isNode_of_mem_siblings (h : x ∈ siblings branch l i) : IsNode branch l x := by
  fun_induction siblings branch l i with
  | case1 l i hl ih =>
    rcases mem_append.1 h with hhead | htail
    · have hmem : x ∈ padOdd l := mem_of_getElem? (mem_toList.1 hhead)
      exact .inl (mem_padOdd.1 hmem)
    · exact isNode_of_nextLevel hl (ih htail)
  | case2 => cases h

theorem isNode_of_mem_treePairs (h : p ∈ treePairs branch l) :
    IsNode branch l p.1 ∧ IsNode branch l p.2 := by
  fun_induction treePairs branch l with
  | case1 l hl ih =>
    rcases mem_append.1 h with hlevel | habove
    · exact (mem_of_mem_levelPairs hlevel).imp (fun hm => .inl (mem_padOdd.1 hm))
        fun hm => .inl (mem_padOdd.1 hm)
    · exact (ih habove).imp (isNode_of_nextLevel hl) (isNode_of_nextLevel hl)
  | case2 => cases h

theorem foldPath_eq_or_mem_pathPairs (path : List α) (i : ℕ) (x : α) :
    foldPath branch path i x = x ∨
      ∃ p ∈ pathPairs branch path i x, branch p.1 p.2 = foldPath branch path i x := by
  induction path generalizing i x with
  | nil => exact .inl rfl
  | cons s path ih =>
    right
    rw [foldPath_cons, pathPairs]
    rcases ih (i / 2) (branch (stepPair s i x).1 (stepPair s i x).2) with heq | ⟨p, hp, heq⟩
    · exact ⟨_, mem_cons_self, heq.symm⟩
    · exact ⟨p, mem_cons_of_mem _ hp, heq⟩

/-- **Soundness.** Whatever the path: if the fold over it ends in a value of the tree, it began in
one. The pairs that path and tree combine have no collision, and no pair of the path combines to a
leaf. -/
theorem isNode_of_foldPath {l path : List α}
    (hpairs : NoCollision branch (treePairs branch l) (pathPairs branch path i x))
    (hleaf : ∀ p ∈ pathPairs branch path i x, branch p.1 p.2 ∉ l)
    (h : IsNode branch l (foldPath branch path i x)) : IsNode branch l x := by
  induction path generalizing i x with
  | nil => exact h
  | cons s path ih =>
    -- the first pair of the path; its value is a node, by induction, and not a leaf
    set pair : α × α := stepPair s i x with hpair
    have hcons : pathPairs branch (s :: path) i x =
        pair :: pathPairs branch path (i / 2) (branch pair.1 pair.2) := rfl
    rw [hcons] at hpairs hleaf
    rw [foldPath_cons] at h
    have hnode : IsNode branch l (branch pair.1 pair.2) :=
      ih (hpairs.mono fun _ hq => hq.imp_right (mem_cons_of_mem pair))
        (fun q hq => hleaf q (mem_cons_of_mem pair hq)) h
    rcases hnode with hmem | ⟨q, hq, heq⟩
    · exact absurd hmem (hleaf pair mem_cons_self)
    · obtain rfl : q = pair := hpairs (.inl hq) (.inr mem_cons_self) heq
      have hparts := isNode_of_mem_treePairs hq
      rw [hpair, stepPair] at hparts
      split_ifs at hparts
      · exact hparts.2
      · exact hparts.1

/-! ## The root determines a list without repetitions -/

theorem padOdd_cons_cons (x y : α) (l : List α) : padOdd (x :: y :: l) = x :: y :: padOdd l := by
  have hlast : l.length % 2 = 1 → (x :: y :: l).getLast? = l.getLast? := by
    intro hodd
    obtain ⟨z, rest, rfl⟩ := exists_cons_of_length_pos (show 0 < l.length by omega)
    rw [getLast?_cons_cons, getLast?_cons_cons]
  unfold padOdd
  rw [show (x :: y :: l).length % 2 = l.length % 2 by simp only [length_cons]; omega]
  split_ifs with hodd
  · rw [hlast hodd]
    rfl
  · rfl

theorem flatMap_levelPairs (heven : l.length % 2 = 0) :
    (levelPairs l).flatMap (fun p => [p.1, p.2]) = l := by
  fun_induction levelPairs l with
  | case1 x y l ih =>
    simp only [length_cons] at heven
    rw [flatMap_cons, ih (by omega)]
    rfl
  | case2 l hl =>
    rcases l with _ | ⟨x, _ | ⟨y, l⟩⟩
    · rfl
    · simp at heven
    · exact (hl x y l rfl).elim

theorem map_fst_levelPairs_sublist (l : List α) :
    ((levelPairs (padOdd l)).map Prod.fst).Sublist l := by
  fun_induction levelPairs l with
  | case1 x y l ih =>
    rw [padOdd_cons_cons, levelPairs, map_cons]
    exact (ih.cons y).cons_cons x
  | case2 l hl =>
    rcases l with _ | ⟨x, _ | ⟨y, l⟩⟩
    · exact .refl _
    · exact .refl _
    · exact (hl x y l rfl).elim

theorem eq_of_padOdd_eq {l l' : List α} (hl : l.Nodup) (hl' : l'.Nodup)
    (h : padOdd l = padOdd l') : l = l' := by
  -- a padded level ends in a repetition
  have hpadded {k k' : List α} (hk' : k'.Nodup) (hodd : k.length % 2 = 1)
      (heven : ¬k'.length % 2 = 1) : padOdd k ≠ padOdd k' := by
    intro h
    obtain ⟨y, hy⟩ : ∃ y, k.getLast? = some y := by
      cases hlast : k.getLast? with
      | some y => exact ⟨y, rfl⟩
      | none =>
        rw [getLast?_eq_none_iff.1 hlast] at hodd
        simp at hodd
    rw [padOdd, if_pos hodd, padOdd, if_neg heven, hy, toList_some] at h
    rw [← h, nodup_append] at hk'
    exact hk'.2.2 y (mem_of_getLast? hy) y (mem_singleton_self y) rfl
  by_cases hodd : l.length % 2 = 1
  · by_cases hodd' : l'.length % 2 = 1
    · have hlen : l.length = l'.length := by
        have := congrArg List.length h
        rw [length_padOdd, length_padOdd] at this
        omega
      rw [padOdd, if_pos hodd, padOdd, if_pos hodd'] at h
      exact (append_inj h hlen).1
    · exact absurd h (hpadded hl' hodd hodd')
  · by_cases hodd' : l'.length % 2 = 1
    · exact absurd h.symm (hpadded hl hodd' hodd)
    · rwa [padOdd, if_neg hodd, padOdd, if_neg hodd'] at h

theorem nextLevel_ne_nil (hl : 1 < l.length) : nextLevel branch l ≠ [] := by
  rw [ne_eq, ← length_eq_zero_iff, length_nextLevel]
  omega

theorem treePairs_of_lt (hl : 1 < l.length) :
    treePairs branch l = levelPairs (padOdd l) ++ treePairs branch (nextLevel branch l) := by
  rw [treePairs, if_pos hl]

theorem mem_treePairs_of_mem_levelPairs (hl : 1 < l.length)
    (hp : p ∈ levelPairs (padOdd l)) : p ∈ treePairs branch l := by
  rw [treePairs_of_lt hl]
  exact mem_append_left _ hp

theorem exists_pair_of_isNode_nextLevel (hl : 1 < l.length)
    (h : IsNode branch (nextLevel branch l) x) : ∃ p ∈ treePairs branch l, branch p.1 p.2 = x := by
  rw [treePairs_of_lt hl]
  rcases h with hmem | ⟨p, hp, heq⟩
  · obtain ⟨p, hp, rfl⟩ := List.mem_map.1 hmem
    exact ⟨p, mem_append_left _ hp, rfl⟩
  · exact ⟨p, mem_append_right _ hp, heq⟩

theorem eq_of_map_eq {β γ : Type*} {f : β → γ} {k k' : List β}
    (hinj : ∀ x ∈ k, ∀ y ∈ k', f x = f y → x = y) (h : k.map f = k'.map f) : k = k' := by
  refine ext_getElem (by simpa using congrArg List.length h) fun i hi hi' => ?_
  refine hinj _ (getElem_mem hi) _ (getElem_mem hi') ?_
  rw [← getElem_map f (h := by simpa using hi), ← getElem_map f (h := by simpa using hi')]
  exact getElem_of_eq h _

/-- Two levels whose trees have no collision, and of which no member is a combined pair. -/
structure Separated (branch : α → α → α) (l l' : List α) : Prop where
  nodup : l.Nodup
  nodup' : l'.Nodup
  noCollision : NoCollision branch (treePairs branch l) (treePairs branch l')
  not_mem : ∀ p, p ∈ treePairs branch l ∨ p ∈ treePairs branch l' →
    branch p.1 p.2 ∉ l ∧ branch p.1 p.2 ∉ l'

namespace Separated

variable {l l' : List α}

section

variable (h : Separated branch l l')

include h

theorem symm : Separated branch l' l where
  nodup := h.nodup'
  nodup' := h.nodup
  noCollision := h.noCollision.mono fun _ hp => hp.symm
  not_mem p hp := (h.not_mem p hp.symm).symm

theorem nodup_nextLevel (hl : 1 < l.length) : (nextLevel branch l).Nodup := by
  have hpairs : (levelPairs (padOdd l)).Nodup :=
    Nodup.of_map _ (h.nodup.sublist (map_fst_levelPairs_sublist l))
  refine Nodup.map_on (fun p hp q hq heq => ?_) hpairs
  exact h.noCollision (.inl (mem_treePairs_of_mem_levelPairs hl hp))
    (.inl (mem_treePairs_of_mem_levelPairs hl hq)) heq

theorem nextLevel (hl : 1 < l.length) (hl' : 1 < l'.length) :
    Separated branch (nextLevel branch l) (nextLevel branch l') := by
  have hup {k : List α} (hk : 1 < k.length) {p : α × α}
      (hp : p ∈ treePairs branch (DuplicateLast.nextLevel branch k)) : p ∈ treePairs branch k := by
    rw [treePairs_of_lt hk]
    exact mem_append_right _ hp
  have hpart {p : α × α} (hp : p ∈ treePairs branch (DuplicateLast.nextLevel branch l) ∨
      p ∈ treePairs branch (DuplicateLast.nextLevel branch l')) : p.1 ∉ l ∧ p.1 ∉ l' := by
    rcases hp with hp | hp
    · obtain ⟨r, hr, heq⟩ := exists_pair_of_isNode_nextLevel hl (isNode_of_mem_treePairs hp).1
      exact heq ▸ h.not_mem r (.inl hr)
    · obtain ⟨r, hr, heq⟩ := exists_pair_of_isNode_nextLevel hl' (isNode_of_mem_treePairs hp).1
      exact heq ▸ h.not_mem r (.inr hr)
  refine ⟨h.nodup_nextLevel hl, h.symm.nodup_nextLevel hl',
    h.noCollision.mono fun _ hp => hp.imp (hup hl) (hup hl'), fun p hp => ⟨?_, ?_⟩⟩
  · intro hmem
    obtain ⟨q, hq, heq⟩ := List.mem_map.1 hmem
    obtain rfl : q = p := h.noCollision (.inl (mem_treePairs_of_mem_levelPairs hl hq))
      (hp.imp (hup hl) (hup hl')) heq
    exact (hpart hp).1 (mem_padOdd.1 (mem_of_mem_levelPairs hq).1)
  · intro hmem
    obtain ⟨q, hq, heq⟩ := List.mem_map.1 hmem
    obtain rfl : q = p := h.noCollision (.inr (mem_treePairs_of_mem_levelPairs hl' hq))
      (hp.imp (hup hl) (hup hl')) heq
    exact (hpart hp).2 (mem_padOdd.1 (mem_of_mem_levelPairs hq).1)

theorem eq_of_nextLevel_eq (hl : 1 < l.length) (hl' : 1 < l'.length)
    (heq : DuplicateLast.nextLevel branch l = DuplicateLast.nextLevel branch l') : l = l' := by
  have hpairs : levelPairs (padOdd l) = levelPairs (padOdd l') := by
    refine eq_of_map_eq (fun p hp q hq hpq => ?_) heq
    exact h.noCollision (.inl (mem_treePairs_of_mem_levelPairs hl hp))
      (.inr (mem_treePairs_of_mem_levelPairs hl' hq)) hpq
  have heven (k : List α) : (padOdd k).length % 2 = 0 := by
    rw [length_padOdd]
    omega
  refine eq_of_padOdd_eq h.nodup h.nodup' ?_
  rw [← flatMap_levelPairs (heven l), ← flatMap_levelPairs (heven l'), hpairs]

theorem root_ne (hne : l ≠ []) (hl : ¬1 < l.length)
    (hl' : 1 < l'.length) : root branch e l ≠ root branch e l' := by
  intro heq
  obtain ⟨x, rest, rfl⟩ := exists_cons_of_ne_nil hne
  rw [root, if_neg hl, headD_cons, root, if_pos hl'] at heq
  obtain ⟨p, hp, hx⟩ :=
    exists_pair_of_isNode_nextLevel hl' (heq ▸ isNode_root (nextLevel_ne_nil hl'))
  exact (h.not_mem p (.inr hp)).1 (hx ▸ mem_cons_self)

end

end Separated

/-- **The root determines the list**, if it has no repetitions: duplicated nodes are then told from
real ones, at every level and whatever the two lengths. -/
theorem eq_of_root_eq {l l' : List α} (h : Separated branch l l') (hne : l ≠ [])
    (hne' : l' ≠ []) (hroot : root branch e l = root branch e l') : l = l' := by
  fun_induction root branch e l generalizing l' with
  | case1 l hl ih =>
    by_cases hl' : 1 < l'.length
    · rw [root.eq_1 branch e l', if_pos hl'] at hroot
      exact h.eq_of_nextLevel_eq hl hl'
        (ih (h.nextLevel hl hl') (nextLevel_ne_nil hl) (nextLevel_ne_nil hl') hroot)
    · refine absurd ?_ (h.symm.root_ne (e := e) hne' hl' hl)
      rw [← hroot, root.eq_1 branch e l, if_pos hl]
  | case2 l hl =>
    by_cases hl' : 1 < l'.length
    · refine absurd ?_ (h.root_ne (e := e) hne hl hl')
      rw [← hroot, root, if_neg hl]
    · rw [root, if_neg hl'] at hroot
      have hpos := length_pos_iff.2 hne
      have hpos' := length_pos_iff.2 hne'
      obtain ⟨x, rfl⟩ := length_eq_one_iff.1 (show l.length = 1 by omega)
      obtain ⟨y, rfl⟩ := length_eq_one_iff.1 (show l'.length = 1 by omega)
      exact congrArg (fun z => [z]) hroot

end Btx.Util.DuplicateLast
