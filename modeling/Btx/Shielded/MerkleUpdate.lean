/-
# Keeping a witness up to date

`ShieldedMerkleWitness` of `src/shielded/merkle_tree.cpp` while leaves are appended. The right
neighbours on the way up come in order: those that are complete stand in `filled_`, and the one that
is being filled is the cursor (`Tracks`).
-/

import Btx.Shielded.MerkleRoot

namespace Btx.Shielded

open Util PerfectTree List Option

/-! ## The update -/

namespace ShieldedMerkleWitness

/-- The constructor: a witness for the last leaf of a tree. -/
def ofTree (t : MerkleFrontier) : Except AccessFault ShieldedMerkleWitness :=
  if t.size = 0 then throw .emptyTree
  else pure { tree := t, filled := [], cursor := none, cursorDepth := 0 }

/-- One slot of `NextDepth`: an absent one uses up a skip, or ends the search. -/
def skipSlot (slot : Option Uint256) (skip : ℕ) : Option ℕ :=
  match slot, skip with
  | some _, skip => some skip
  | none, 0 => none
  | none, skip + 1 => some skip

/-- The loop of `NextDepth` over the parents. -/
def nextDepthParents : List (Option Uint256) → ℕ → ℕ → ℕ
  | [], d, skip => d + skip
  | parent :: parents, d, skip =>
      match skipSlot parent skip with
      | none => d
      | some skip => nextDepthParents parents (d + 1) skip

/-- `NextDepth`. -/
def nextDepth (w : ShieldedMerkleWitness) (skip : ℕ) : ℕ :=
  match skipSlot w.tree.left skip with
  | none => 0
  | some skip =>
      match skipSlot w.tree.right skip with
      | none => 0
      | some skip => nextDepthParents w.tree.parents 1 skip

variable (H : MerkleHash)

/-- `cursor_->Append`, on a tree without an index. -/
def cursorAppend (cursor : MerkleFrontier) (leaf : Uint256) : Except AccessFault MerkleFrontier :=
  if merkleMaxLeaves ≤ cursor.size then throw .treeFull else pure (cursor.append H leaf)

/-- `IncrementalUpdate`. -/
def incrementalUpdate (w : ShieldedMerkleWitness) (leaf : Uint256) :
    Except AccessFault ShieldedMerkleWitness :=
  let depth := w.nextDepth w.filled.length
  match w.cursor with
  | some cursor => do
      let cursor ← cursorAppend H cursor leaf
      if cursor.size = 2 ^ w.cursorDepth then do
        let completed ← cursor.rootAt H w.cursorDepth []
        pure { w with filled := w.filled ++ [completed], cursor := none, cursorDepth := 0 }
      else pure { w with cursor := some cursor }
  | none =>
      if depth = 0 then pure { w with filled := w.filled ++ [leaf] }
      else do
        let cursor ← cursorAppend H .empty leaf
        pure { w with cursor := some cursor, cursorDepth := depth }

end ShieldedMerkleWitness

open ShieldedMerkleWitness

/-! ## Right neighbours that are complete -/

section Progress

variable {H : MerkleHash} {leaves leaves' : ℕ → Uint256}

variable (H) in
/-- With `n` leaves: the right neighbours that are complete, on `l` levels from depth `d` up. -/
def filledOf (leaves : ℕ → Uint256) (n : ℕ) : ℕ → ℕ → ℕ → List Uint256
  | 0, _, _ => []
  | l + 1, d, q =>
      if q % 2 = 1 then filledOf leaves n l (d + 1) (q / 2)
      else if (q + 2) * 2 ^ d ≤ n then
        nodeAt H leaves d (q + 1) :: filledOf leaves n l (d + 1) (q / 2)
      else []

/-- Depth and index of the first node on the way up whose right neighbour is not complete. -/
def openSlot (n : ℕ) : ℕ → ℕ → ℕ → Option (ℕ × ℕ)
  | 0, _, _ => none
  | l + 1, d, q =>
      if q % 2 = 1 then openSlot n l (d + 1) (q / 2)
      else if (q + 2) * 2 ^ d ≤ n then openSlot n l (d + 1) (q / 2)
      else some (d, q)

variable {d q n l d' q' : ℕ}

theorem end_of_odd (hq : q % 2 = 1) : (q / 2 + 1) * 2 ^ (d + 1) = (q + 1) * 2 ^ d := by
  obtain ⟨m, rfl⟩ : ∃ m, q = 2 * m + 1 := ⟨q / 2, by omega⟩
  rw [show (2 * m + 1) / 2 = m by omega]
  ring

theorem end_of_even (hq : ¬q % 2 = 1) : (q / 2 + 1) * 2 ^ (d + 1) = (q + 2) * 2 ^ d := by
  obtain ⟨m, rfl⟩ : ∃ m, q = 2 * m := ⟨q / 2, by omega⟩
  rw [show 2 * m / 2 = m by omega]
  ring

theorem openSlot_bounds (hn : (q + 1) * 2 ^ d ≤ n) (h : openSlot n l d q = some (d', q')) :
    (q' + 1) * 2 ^ d' ≤ n ∧ n < (q' + 2) * 2 ^ d' ∧ d' < d + l := by
  induction l generalizing d q with
  | zero => cases h
  | succ l ih =>
    rw [openSlot] at h
    split at h
    case isTrue hq =>
      obtain ⟨h1, h2, h3⟩ := ih (by rw [end_of_odd hq]; exact hn) h
      exact ⟨h1, h2, by omega⟩
    case isFalse hq =>
      split at h
      case isTrue hfull =>
        obtain ⟨h1, h2, h3⟩ := ih (by rw [end_of_even hq]; exact hfull) h
        exact ⟨h1, h2, by omega⟩
      case isFalse hfull =>
        cases h
        exact ⟨hn, by omega, by omega⟩

theorem le_of_openSlot_eq_none (hn : (q + 1) * 2 ^ d ≤ n)
    (h : openSlot n l d q = none) : (q / 2 ^ l + 1) * 2 ^ (d + l) ≤ n := by
  induction l generalizing d q with
  | zero => simpa using hn
  | succ l ih =>
    have hdiv : q / 2 ^ (l + 1) = q / 2 / 2 ^ l := by
      rw [Nat.div_div_eq_div_mul, ← pow_succ']
    rw [hdiv, show d + (l + 1) = d + 1 + l by omega]
    rw [openSlot] at h
    split at h
    case isTrue hq => exact ih (by rw [end_of_odd hq]; exact hn) h
    case isFalse hq =>
      split at h
      case isTrue hfull => exact ih (by rw [end_of_even hq]; exact hfull) h
      case isFalse => cases h

theorem filledOf_congr (h : ∀ j, j < n → leaves j = leaves' j) :
    filledOf H leaves n l d q = filledOf H leaves' n l d q := by
  induction l generalizing d q with
  | zero => rfl
  | succ l ih =>
    rw [filledOf, filledOf, ih]
    split
    · rfl
    · split
      case isTrue hfull =>
        rw [show nodeAt H leaves d (q + 1) = nodeAt H leaves' d (q + 1) from
          node_congr fun j _ hj => h j (hj.trans_le hfull)]
      case isFalse => rfl

theorem nextDepthParents_nil_succ (d skip : ℕ) :
    nextDepthParents [] d (skip + 1) =
      nextDepthParents [] (d + 1) skip := by
  simp only [nextDepthParents]
  omega

/-- `NextDepth` finds the open slot: it skips one absent slot for every entry of `filled_`. -/
theorem nextDepthParents_spine (h : openSlot n l d q = some (d', q')) :
    nextDepthParents (spine H.branchHash leaves d q) d
      (filledOf H leaves n l d q).length = d' := by
  induction l generalizing d q with
  | zero => cases h
  | succ l ih =>
    rw [openSlot] at h
    rw [filledOf]
    obtain ⟨m, rfl | rfl⟩ := Nat.even_or_odd' q
    · rw [if_neg (by omega)] at h ⊢
      rw [Nat.mul_div_cancel_left m two_pos] at h ⊢
      split at h
      case isTrue hfull =>
        rw [if_pos hfull, length_cons]
        obtain rfl | hm := Nat.eq_zero_or_pos m
        · rw [mul_zero, spine_zero, nextDepthParents_nil_succ]
          have := ih h
          rwa [spine_zero] at this
        · rw [spine_even hm]
          exact ih h
      case isFalse hfull =>
        cases h
        rw [if_neg hfull, length_nil]
        obtain rfl | hm := Nat.eq_zero_or_pos m
        · rw [mul_zero, spine_zero]
          rfl
        · rw [spine_even hm]
          rfl
    · rw [if_pos (by omega)] at h ⊢
      rw [show (2 * m + 1) / 2 = m by omega] at h ⊢
      rw [spine_odd]
      exact ih h

/-! ### One more leaf -/

theorem filledOf_of_end (hn : (q + 1) * 2 ^ d = n) : filledOf H leaves n l d q = [] ∧
      ∀ d' q', openSlot n l d q = some (d', q') → (q' + 1) * 2 ^ d' = n := by
  induction l generalizing d q with
  | zero => exact ⟨rfl, fun d' q' h => nomatch h⟩
  | succ l ih =>
    rw [filledOf, openSlot]
    split
    case isTrue hq => exact ih (by rw [end_of_odd hq]; exact hn)
    case isFalse hq =>
      have hopen : ¬(q + 2) * 2 ^ d ≤ n := by
        have : 0 < 2 ^ d := Nat.two_pow_pos d
        rw [← hn, not_le]
        exact Nat.mul_lt_mul_of_pos_right (Nat.lt_succ_self _) this
      rw [if_neg hopen, if_neg hopen]
      refine ⟨rfl, fun d' q' h => ?_⟩
      cases h
      exact hn

theorem filledOf_succ_of_lt (h : openSlot n l d q = some (d', q'))
    (hlt : n + 1 < (q' + 2) * 2 ^ d') :
    filledOf H leaves (n + 1) l d q = filledOf H leaves n l d q ∧
      openSlot (n + 1) l d q = some (d', q') := by
  induction l generalizing d q with
  | zero => cases h
  | succ l ih =>
    rw [openSlot] at h
    rw [filledOf, filledOf, openSlot]
    split at h
    case isTrue hq =>
      rw [if_pos hq, if_pos hq, if_pos hq]
      exact ih h
    case isFalse hq =>
      rw [if_neg hq, if_neg hq, if_neg hq]
      split at h
      case isTrue hfull =>
        rw [if_pos hfull, if_pos (by omega), if_pos (by omega), (ih h).1, (ih h).2]
        exact ⟨rfl, rfl⟩
      case isFalse hfull =>
        cases h
        rw [if_neg hfull, if_neg (by omega), if_neg (by omega)]
        exact ⟨rfl, rfl⟩

theorem filledOf_succ_of_eq (h : openSlot n l d q = some (d', q'))
    (heq : n + 1 = (q' + 2) * 2 ^ d') :
    filledOf H leaves (n + 1) l d q = filledOf H leaves n l d q ++ [nodeAt H leaves d' (q' + 1)] ∧
      ∀ d'' q'', openSlot (n + 1) l d q = some (d'', q'') → (q'' + 1) * 2 ^ d'' = n + 1 := by
  induction l generalizing d q with
  | zero => cases h
  | succ l ih =>
    rw [openSlot] at h
    rw [filledOf, filledOf, openSlot]
    split at h
    case isTrue hq =>
      rw [if_pos hq, if_pos hq, if_pos hq]
      exact ih h
    case isFalse hq =>
      rw [if_neg hq, if_neg hq, if_neg hq]
      split at h
      case isTrue hfull =>
        rw [if_pos hfull, if_pos (by omega), if_pos (by omega), (ih h).1]
        exact ⟨rfl, (ih h).2⟩
      case isFalse hfull =>
        obtain ⟨rfl, rfl⟩ := Prod.mk.inj (some.inj h)
        have hend : (q / 2 + 1) * 2 ^ (d + 1) = n + 1 := by rw [end_of_even hq, heq]
        obtain ⟨hnil, hnext⟩ :
            filledOf H leaves (n + 1) l (d + 1) (q / 2) = [] ∧ _ := filledOf_of_end hend
        rw [if_neg hfull, if_pos heq.ge, if_pos heq.ge, hnil]
        exact ⟨rfl, hnext⟩

/-! ### The filler of a witness -/

/-- The neighbour that is being filled, if it has a leaf. -/
def openUncle (H : MerkleHash) (leaves : ℕ → Uint256) (n : ℕ) : Option (ℕ × ℕ) → List Uint256
  | none => []
  | some (d, q) => if (q + 1) * 2 ^ d = n then [] else [nodeAt H leaves d (q + 1)]

theorem fills_filledOf (hempty : ∀ j, n ≤ j → leaves j = H.emptyLeafHash)
    (hn : (q + 1) * 2 ^ d ≤ n) :
    Fills H leaves l d q
      (filledOf H leaves n l d q ++ openUncle H leaves n (openSlot n l d q)) := by
  have hnpos : 0 < n := lt_of_lt_of_le (Nat.mul_pos (Nat.succ_pos q) (Nat.two_pow_pos d)) hn
  induction l generalizing d q with
  | zero => trivial
  | succ l ih =>
    rw [Fills, filledOf, openSlot]
    split
    case isTrue hq => exact ih (by rw [end_of_odd hq]; exact hn)
    case isFalse hq =>
      split
      case isTrue hfull => exact ⟨rfl, ih (by rw [end_of_even hq]; exact hfull)⟩
      case isFalse hfull =>
        -- above the open neighbour there are no leaves yet
        have habove : Fills H leaves l (d + 1) (q / 2) [] := by
          refine fills_nil (p := n - 1) l (fun j hj => hempty j (by omega)) ?_
          rw [end_of_even hq]
          omega
        rw [nil_append, openUncle]
        split
        case isTrue hbegin =>
          exact ⟨(nodeAt_of_empty fun j hj _ => hempty j (hbegin ▸ hj)).symm, habove⟩
        case isFalse => exact ⟨rfl, habove⟩

end Progress

/-! ## The witness of a leaf -/

section Tracks

variable {H : MerkleHash} {cs : List Uint256} {p : ℕ} {w : ShieldedMerkleWitness}

variable (H) in
/-- The cursor is the frontier of the leaves that the open neighbour has; there is none while it
has no leaf. -/
def CursorAt (cs : List Uint256) (cursor : Option MerkleFrontier) (cursorDepth : ℕ) :
    Option (ℕ × ℕ) → Prop
  | none => cursor = none
  | some (d, q) =>
      if (q + 1) * 2 ^ d = cs.length then cursor = none
      else cursor = some (frontierOf H (cs.drop ((q + 1) * 2 ^ d))) ∧ cursorDepth = d

variable (H) in
/-- The witness of the leaf at position `p`, at the tree with leaves `cs`. -/
structure Tracks (cs : List Uint256) (p : ℕ) (w : ShieldedMerkleWitness) : Prop where
  lt : p < cs.length
  tree : Represents H (paddedLeaves H cs) p w.tree
  filled : w.filled = filledOf H (paddedLeaves H cs) cs.length merkleDepth 0 p
  cursor : CursorAt H cs w.cursor w.cursorDepth (openSlot cs.length merkleDepth 0 p)

variable {j d q : ℕ} {x : Uint256}

theorem paddedLeaves_of_ge (hj : cs.length ≤ j) : paddedLeaves H cs j = H.emptyLeafHash := by
  simp [pad, getElem?_eq_none hj]

theorem paddedLeaves_append (x : Uint256) (hj : j < cs.length) :
    paddedLeaves H cs j = paddedLeaves H (cs ++ [x]) j := by
  simp [pad, getElem?_append_left hj]

theorem paddedLeaves_append_last (x : Uint256) : paddedLeaves H (cs ++ [x]) cs.length = x := by
  simp [pad]

theorem rootAt_drop {b : ℕ} (hd : 0 < d) (hdepth : d ≤ merkleDepth)
    (hlen : cs.length ≤ (b + 1) * 2 ^ d) :
    (frontierOf H (cs.drop (b * 2 ^ d))).rootAt H d [] =
      .ok (nodeAt H (paddedLeaves H cs) d b) := by
  have hshift : paddedLeaves H (cs.drop (b * 2 ^ d)) =
      fun j => paddedLeaves H cs (b * 2 ^ d + j) := by
    funext j
    simp [pad]
  have hcount : (cs.drop (b * 2 ^ d)).length ≤ 2 ^ d := by
    rw [add_mul, one_mul] at hlen
    rw [length_drop]
    exact Nat.sub_le_iff_le_add'.mpr hlen
  rw [rootAt_frontierOf _ hd hdepth hcount, hshift, nodeAt, node_shift, add_zero]

theorem Represents.nextDepth_eq {leaves : ℕ → Uint256} (h : Represents H leaves p w.tree)
    (skip : ℕ) :
    w.nextDepth skip =
      nextDepthParents (spine H.branchHash leaves 0 p) 0 skip := by
  rw [nextDepth, h.left, h.right, h.parents]
  obtain ⟨m, rfl | rfl⟩ := Nat.even_or_odd' p
  · rw [if_neg (by omega), Nat.mul_div_cancel_left m two_pos]
    obtain rfl | hm := Nat.eq_zero_or_pos m
    · rw [mul_zero, spine_zero, spine_zero]
      cases skip with
      | zero => rfl
      | succ skip => exact (nextDepthParents_nil_succ 0 skip).symm
    · rw [spine_even hm]
      rfl
  · rw [if_pos (by omega), spine_odd, show (2 * m + 1) / 2 = m by omega]
    rfl

variable (cs) in
/-- **A new witness** tracks the last leaf. -/
theorem tracks_ofTree (leaf : Uint256) :
    ∃ w, ofTree (frontierOf H (cs ++ [leaf])) = .ok w ∧
      Tracks H (cs ++ [leaf]) cs.length w := by
  have hsize : (frontierOf H (cs ++ [leaf])).size ≠ 0 := by simp
  have hend : (cs.length + 1) * 2 ^ 0 = (cs ++ [leaf]).length := by simp
  obtain ⟨hnil, hnext⟩ : filledOf H (paddedLeaves H (cs ++ [leaf])) (cs ++ [leaf]).length
      merkleDepth 0 cs.length = [] ∧ _ := filledOf_of_end hend
  refine ⟨_, by rw [ofTree, if_neg hsize]; rfl, ?_, ?_, hnil.symm, ?_⟩
  · simp
  · simpa using represents_frontierOf (H := H) (cs ++ [leaf]) (by simp)
  · cases hslot : openSlot (cs ++ [leaf]).length merkleDepth 0 cs.length with
    | none => rfl
    | some slot =>
      rw [CursorAt, if_pos (hnext slot.1 slot.2 hslot)]

section

variable (h : Tracks H cs p w)

include h

theorem Tracks.succ_le : (p + 1) * 2 ^ 0 ≤ cs.length := by
  rw [pow_zero, Nat.mul_one]
  exact h.lt

variable (hslot : openSlot cs.length merkleDepth 0 p = some (d, q))

include hslot in
theorem Tracks.nextDepth_eq : w.nextDepth w.filled.length = d := by
  rw [h.tree.nextDepth_eq, h.filled]
  exact nextDepthParents_spine hslot

theorem Tracks.represents_append (x : Uint256) :
    Represents H (paddedLeaves H (cs ++ [x])) p w.tree :=
  h.tree.congr fun _ hj => paddedLeaves_append x (hj.trans_lt h.lt)

include hslot in
theorem Tracks.of_lt (hlt : cs.length + 1 < (q + 2) * 2 ^ d) (hopen : (q + 1) * 2 ^ d ≤ cs.length) :
    Tracks H (cs ++ [x]) p { w with
      cursor := some (frontierOf H ((cs ++ [x]).drop ((q + 1) * 2 ^ d))), cursorDepth := d } := by
  have hlen : (cs ++ [x]).length = cs.length + 1 := by simp
  obtain ⟨hfilled, hslot'⟩ : filledOf H (paddedLeaves H (cs ++ [x])) (cs.length + 1) merkleDepth 0 p
      = filledOf H (paddedLeaves H (cs ++ [x])) cs.length merkleDepth 0 p ∧ _ :=
    filledOf_succ_of_lt hslot hlt
  refine ⟨by rw [hlen]; exact h.lt.trans (Nat.lt_succ_self _), h.represents_append x, ?_, ?_⟩
  · rw [hlen, hfilled, ← filledOf_congr fun j hj => paddedLeaves_append x hj]
    exact h.filled
  · rw [hlen, hslot', CursorAt, if_neg (by rw [hlen]; omega)]
    exact ⟨rfl, rfl⟩

include hslot in
theorem Tracks.of_eq {depth : ℕ} (heq : cs.length + 1 = (q + 2) * 2 ^ d) :
    Tracks H (cs ++ [x]) p { w with
      filled := w.filled ++ [nodeAt H (paddedLeaves H (cs ++ [x])) d (q + 1)]
      cursor := none, cursorDepth := depth } := by
  have hlen : (cs ++ [x]).length = cs.length + 1 := by simp
  obtain ⟨hfilled, hnext⟩ : filledOf H (paddedLeaves H (cs ++ [x])) (cs.length + 1) merkleDepth 0 p
      = filledOf H (paddedLeaves H (cs ++ [x])) cs.length merkleDepth 0 p ++
        [nodeAt H (paddedLeaves H (cs ++ [x])) d (q + 1)] ∧ _ :=
    filledOf_succ_of_eq hslot heq
  refine ⟨by rw [hlen]; exact h.lt.trans (Nat.lt_succ_self _), h.represents_append x, ?_, ?_⟩
  · rw [hlen, hfilled, ← filledOf_congr fun j hj => paddedLeaves_append x hj, h.filled]
  · rw [hlen]
    cases hslot' : openSlot (cs.length + 1) merkleDepth 0 p with
    | none => rfl
    | some slot =>
      rw [CursorAt, hlen, if_pos (hnext slot.1 slot.2 hslot')]

/-- **One `IncrementalUpdate`** takes the witness to the tree with one more leaf. -/
theorem Tracks.incrementalUpdate (x : Uint256) (hroom : cs.length < merkleMaxLeaves) :
    ∃ w', w.incrementalUpdate H x = .ok w' ∧ Tracks H (cs ++ [x]) p w' := by
  -- the tree is not full, so some right neighbour is open
  obtain ⟨⟨d, q⟩, hslot⟩ : ∃ slot, openSlot cs.length merkleDepth 0 p = some slot := by
    refine ne_none_iff_exists'.mp fun hnone => ?_
    have hp : p < 2 ^ merkleDepth := h.lt.trans hroom
    have hfull := le_of_openSlot_eq_none h.succ_le hnone
    rw [Nat.div_eq_of_lt hp, zero_add, zero_add, one_mul] at hfull
    exact absurd hroom (not_lt.mpr hfull)
  obtain ⟨hlo, hhi, hdepth⟩ := openSlot_bounds h.succ_le hslot
  have hstep : (q + 2) * 2 ^ d = (q + 1) * 2 ^ d + 2 ^ d := by ring
  have hcursor := h.cursor
  rw [hslot, CursorAt] at hcursor
  rw [ShieldedMerkleWitness.incrementalUpdate, h.nextDepth_eq hslot]
  split at hcursor
  case isTrue hstart =>
    rw [hcursor]
    obtain rfl | hd := Nat.eq_zero_or_pos d
    · -- the neighbour is the new leaf itself
      refine ⟨_, rfl, ?_⟩
      have hleaf : nodeAt H (paddedLeaves H (cs ++ [x])) 0 (q + 1) = x := by
        rw [nodeAt, node_zero, show q + 1 = cs.length by simpa using hstart]
        exact paddedLeaves_append_last x
      have htracks : Tracks H (cs ++ [x]) p { w with
          filled := w.filled ++ [nodeAt H (paddedLeaves H (cs ++ [x])) 0 (q + 1)]
          cursor := none } := h.of_eq hslot (by omega)
      rw [hleaf] at htracks
      exact htracks
    · -- the new leaf begins the neighbour
      have hone : 2 ^ 1 ≤ 2 ^ d := Nat.pow_le_pow_right two_pos hd
      have hdrop : frontierOf H ((cs ++ [x]).drop ((q + 1) * 2 ^ d)) =
          MerkleFrontier.empty.append H x := by
        rw [hstart, drop_left]
        rfl
      refine ⟨_, by
        simp only [Nat.pos_iff_ne_zero.mp hd, if_false]
        rfl, ?_⟩
      rw [← hdrop]
      exact h.of_lt hslot (by omega) hlo
  case isFalse hstart =>
    obtain ⟨hcur, rfl⟩ := hcursor
    have hd : 0 < w.cursorDepth := by
      refine Nat.pos_of_ne_zero fun hzero => ?_
      rw [hzero] at hlo hhi hstart
      omega
    have happend : (frontierOf H (cs.drop ((q + 1) * 2 ^ w.cursorDepth))).append H x =
        frontierOf H ((cs ++ [x]).drop ((q + 1) * 2 ^ w.cursorDepth)) := by
      rw [drop_append_of_le_length hlo, frontierOf_append]
      rfl
    have hsize : (frontierOf H ((cs ++ [x]).drop ((q + 1) * 2 ^ w.cursorDepth))).size =
        cs.length + 1 - (q + 1) * 2 ^ w.cursorDepth := by simp
    have hcursorAppend : cursorAppend H
        (frontierOf H (cs.drop ((q + 1) * 2 ^ w.cursorDepth))) x =
        .ok (frontierOf H ((cs ++ [x]).drop ((q + 1) * 2 ^ w.cursorDepth))) := by
      rw [cursorAppend, if_neg (by simp; omega), happend]
      rfl
    rw [hcur]
    simp only [hcursorAppend, ok_bind]
    by_cases hfull : cs.length + 1 = (q + 2) * 2 ^ w.cursorDepth
    · rw [if_pos (by rw [hsize]; omega), rootAt_drop hd (by omega) (by
        rw [length_append, length_singleton]
        exact hfull.le)]
      exact ⟨_, rfl, h.of_eq hslot hfull⟩
    · rw [if_neg (by rw [hsize]; omega)]
      exact ⟨_, rfl, h.of_lt hslot (by omega) hlo⟩

/-! ### What a tracking witness computes -/

theorem Tracks.partialPath_eq :
    w.partialPath H = .ok (filledOf H (paddedLeaves H cs) cs.length merkleDepth 0 p ++
      openUncle H (paddedLeaves H cs) cs.length (openSlot cs.length merkleDepth 0 p)) := by
  have hcursor := h.cursor
  rw [partialPath, h.filled]
  cases hslot : openSlot cs.length merkleDepth 0 p with
  | none =>
    rw [hslot, CursorAt] at hcursor
    rw [hcursor, openUncle, append_nil]
    rfl
  | some slot =>
    obtain ⟨d, q⟩ := slot
    obtain ⟨hlo, hhi, hdepth⟩ := openSlot_bounds h.succ_le hslot
    rw [hslot, CursorAt] at hcursor
    rw [openUncle]
    split at hcursor
    case isTrue hstart =>
      rw [hcursor, if_pos hstart, append_nil]
      rfl
    case isFalse hstart =>
      have hd : 0 < d := by
        refine Nat.pos_of_ne_zero fun hzero => ?_
        rw [hzero] at hlo hhi hstart
        omega
      rw [hcursor.1, hcursor.2, if_neg hstart]
      simp only [rootAt_drop (H := H) hd (by omega) hhi.le, ok_bind]
      rfl

theorem Tracks.fills : Fills H (paddedLeaves H cs) merkleDepth 0 p
      (filledOf H (paddedLeaves H cs) cs.length merkleDepth 0 p ++
        openUncle H (paddedLeaves H cs) cs.length (openSlot cs.length merkleDepth 0 p)) :=
  fills_filledOf (fun _ hj => paddedLeaves_of_ge hj) h.succ_le

theorem Tracks.root_eq (hlen : cs.length ≤ merkleMaxLeaves) : w.root H = .ok (paddedRoot H cs) := by
  rw [root, h.partialPath_eq, ok_bind]
  exact h.tree.rootAt_eq (by decide) le_rfl (h.lt.trans_le hlen) h.fills

theorem Tracks.position_eq : w.position = .ok p := by
  rw [position, h.tree.size, if_neg (Nat.succ_ne_zero p)]
  rfl

end

theorem foldPath_eq (path : List Uint256) (pos : ℕ) (current : Uint256) :
    foldPath H path pos current =
      PerfectTree.foldPath H.branchHash path pos current := by
  induction path generalizing pos current with
  | nil => rfl
  | cons s path ih => exact ih _ _

theorem Tracks.computePath_eq (h : Tracks H cs p w) (hlen : cs.length ≤ merkleMaxLeaves) :
    w.computePath H = .ok (siblings H.branchHash (paddedLeaves H cs) merkleDepth 0 p, p) := by
  rw [computePath, h.partialPath_eq, ok_bind, h.position_eq, ok_bind,
    h.tree.authPath_run (h.lt.trans_le hlen) h.fills]
  rfl

theorem verify_of_computePath (hp : p < 2 ^ merkleDepth) (hpath : w.computePath H =
      .ok (siblings H.branchHash (paddedLeaves H cs) merkleDepth 0 p, p)) :
    w.verify H (paddedLeaves H cs p) (paddedRoot H cs) = .ok true := by
  have hfold : PerfectTree.foldPath H.branchHash
      (siblings H.branchHash (paddedLeaves H cs) merkleDepth 0 p) p (paddedLeaves H cs p) =
      paddedRoot H cs := by
    refine (foldPath_siblings merkleDepth 0 p).trans ?_
    rw [zero_add, Nat.div_eq_of_lt hp]
    rfl
  rw [verify, hpath, ok_bind]
  simp only [foldPath_eq, hfold, decide_true]
  rfl

theorem Tracks.verify_eq (h : Tracks H cs p w) (hlen : cs.length ≤ merkleMaxLeaves) :
    w.verify H (paddedLeaves H cs p) (paddedRoot H cs) = .ok true :=
  verify_of_computePath (h.lt.trans_le hlen) (h.computePath_eq hlen)

end Tracks

/-! ## Along the tree -/

namespace ShieldedMerkleWitness

variable {H : MerkleHash}

/-- The updates for leaves appended one after the other. -/
def updateAll (H : MerkleHash) (w : ShieldedMerkleWitness) (leaves : List Uint256) :
    Except AccessFault ShieldedMerkleWitness :=
  leaves.foldlM (incrementalUpdate H) w

theorem tracks_updateAll {cs : List Uint256} {p : ℕ} {w : ShieldedMerkleWitness}
    (h : Tracks H cs p w) (ds : List Uint256) (hroom : cs.length + ds.length ≤ merkleMaxLeaves) :
    ∃ w', w.updateAll H ds = .ok w' ∧ Tracks H (cs ++ ds) p w' := by
  induction ds generalizing cs w with
  | nil => exact ⟨w, rfl, by rwa [append_nil]⟩
  | cons x ds ih =>
    rw [length_cons] at hroom
    obtain ⟨w₁, hupdate, h₁⟩ := h.incrementalUpdate x (by omega)
    obtain ⟨w', hrest, h'⟩ := ih h₁ (by simp; omega)
    refine ⟨w', ?_, by simpa using h'⟩
    rw [updateAll, foldlM_cons, hupdate]
    exact hrest

end ShieldedMerkleWitness

namespace ShieldedMerkleTree

variable {H : MerkleHash}

/-- Append the leaves one by one. -/
def appendAll (t : ShieldedMerkleTree H) (leaves : List Uint256) :
    Except String (ShieldedMerkleTree H) :=
  leaves.foldlM append t

variable {t t' : ShieldedMerkleTree H}

theorem appendAll_commitments {leaves : List Uint256}
    (h : t.appendAll leaves = .ok t') : t'.commitments = t.commitments ++ leaves := by
  induction leaves generalizing t with
  | nil =>
    obtain rfl : t = t' := by simpa [appendAll] using h
    rw [append_nil]
  | cons x leaves ih =>
    rw [appendAll, foldlM_cons, bind_eq_ok] at h
    obtain ⟨t₁, happend, hrest⟩ := h
    rw [ih hrest, append_commitments happend, append_assoc]
    rfl

theorem append_length {c : Uint256} (h : t.append c = .ok t') :
    t'.commitments.length ≤ merkleMaxLeaves := by
  have hcommitments := append_commitments h
  rw [append, ite_throw_eq_ok, size_eq] at h
  rw [hcommitments, length_append, length_singleton]
  omega

theorem appendAll_length {leaves : List Uint256}
    (ht : t.commitments.length ≤ merkleMaxLeaves) (h : t.appendAll leaves = .ok t') :
    t'.commitments.length ≤ merkleMaxLeaves := by
  induction leaves generalizing t with
  | nil =>
    obtain rfl : t = t' := by simpa [appendAll] using h
    exact ht
  | cons x leaves ih =>
    rw [appendAll, foldlM_cons, bind_eq_ok] at h
    obtain ⟨t₁, happend, hrest⟩ := h
    exact ih (append_length happend) hrest

/-- **A witness follows its tree.** The witness made right after a leaf was appended, updated with
every leaf since, has the tree's root as its own and the leaf's index as its position, and verifies
the leaf against that root. Nothing faults on the way. -/
theorem witness_follows_tree (t t₁ t₂ : ShieldedMerkleTree H) (leaf : Uint256)
    (leaves : List Uint256) (happend : t.append leaf = .ok t₁)
    (hleaves : t₁.appendAll leaves = .ok t₂) :
    ∃ w₁ w₂ root, ShieldedMerkleWitness.ofTree t₁.frontier = .ok w₁ ∧
      w₁.updateAll H leaves = .ok w₂ ∧ t₂.frontier.root H = .ok root ∧
      w₂.root H = .ok root ∧ w₂.position = .ok t.size ∧ w₂.verify H leaf root = .ok true := by
  have hcs₁ := append_commitments happend
  have hlen₁ := append_length happend
  have hcs₂ := appendAll_commitments hleaves
  have hlen₂ := appendAll_length hlen₁ hleaves
  obtain ⟨w₁, hw₁, htracks₁⟩ := tracks_ofTree (H := H) t.commitments leaf
  rw [← hcs₁] at hw₁ htracks₁
  have hroom : t₁.commitments.length + leaves.length ≤ merkleMaxLeaves := by
    rw [← length_append, ← hcs₂]
    exact hlen₂
  obtain ⟨w₂, hw₂, htracks₂⟩ := ShieldedMerkleWitness.tracks_updateAll htracks₁ leaves hroom
  rw [← hcs₂] at htracks₂
  have hleaf : paddedLeaves H t₂.commitments t.commitments.length = leaf := by
    simp [hcs₂, hcs₁, pad]
  refine ⟨w₁, w₂, paddedRoot H t₂.commitments, ?_, hw₂, ?_, htracks₂.root_eq hlen₂, ?_, ?_⟩
  · rw [t₁.built.frontier_eq]
    exact hw₁
  · rw [t₂.built.frontier_eq]
    exact root_frontierOf _ hlen₂
  · rw [t.size_eq]
    exact htracks₂.position_eq
  · have hverify := htracks₂.verify_eq hlen₂
    rwa [hleaf] at hverify

/-- The first leaf of a tree, after two more. -/
theorem witness_of_first_leaf :
    let t₁ := okValue ((empty : ShieldedMerkleTree sumHash).append 5) (by decide)
    let t₂ := okValue (t₁.appendAll [6, 7]) (by decide)
    ∃ w₁ w₂ root, ShieldedMerkleWitness.ofTree t₁.frontier = .ok w₁ ∧
      w₁.updateAll sumHash [6, 7] = .ok w₂ ∧ t₂.frontier.root sumHash = .ok root ∧
      w₂.root sumHash = .ok root ∧ w₂.position = .ok (empty : ShieldedMerkleTree sumHash).size ∧
      w₂.verify sumHash 5 root = .ok true :=
  witness_follows_tree empty _ _ 5 [6, 7] (eq_ok_okValue (by decide)) (eq_ok_okValue (by decide))

end ShieldedMerkleTree

end Btx.Shielded
