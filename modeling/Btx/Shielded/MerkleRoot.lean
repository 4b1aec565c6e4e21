/-
# What the frontier stands for

The frontier of `src/shielded/merkle_tree.cpp` against the perfect tree of depth 32 over the
appended leaves. A frontier with last leaf `p` holds the leaf pair of `p` and the waiting left
neighbours of the nodes over `p` (`Represents`); the carry of `Append` is that of a binary counter
(`carry_spine`). The missing right neighbours come from the filler of `Root` and `ComputePath`
(`Fills`).
-/

import Btx.Shielded.MerkleWitness
import Btx.Util.PerfectTree

namespace Btx.Shielded

open Util PerfectTree List

variable (H : MerkleHash)

/-- The node at a depth and index over a row of leaves. -/
abbrev nodeAt (leaves : ℕ → Uint256) (d i : ℕ) : Uint256 := node H.branchHash leaves d i

variable (commitments : List Uint256)

/-- The leaves of a tree, continued with the empty leaf. -/
abbrev paddedLeaves : ℕ → Uint256 := pad H.emptyLeafHash commitments

/-- The root of the binary tree of depth 32 over the padded leaves. -/
def paddedRoot : Uint256 :=
  nodeAt H (paddedLeaves H commitments) merkleDepth 0

variable {H} {leaves leaves' : ℕ → Uint256}

variable {d q n : ℕ} {parents : List (Option Uint256)}

theorem nodeAt_of_empty {i : ℕ}
    (h : ∀ j, i * 2 ^ d ≤ j → j < (i + 1) * 2 ^ d → leaves j = H.emptyLeafHash) :
    nodeAt H leaves d i = emptyRootTable H d :=
  node_of_forall_eq h

theorem nodeAt_parent (H : MerkleHash) (leaves : ℕ → Uint256) (d q : ℕ) :
    nodeAt H leaves (d + 1) (q / 2) =
      if q % 2 = 1 then H.branchHash (nodeAt H leaves d (q - 1)) (nodeAt H leaves d q)
      else H.branchHash (nodeAt H leaves d q) (nodeAt H leaves d (q + 1)) :=
  node_parent d q

/-! ## The frontier of a leaf -/

variable (H) in
/-- The frontier whose last leaf is at position `p`. -/
structure Represents (leaves : ℕ → Uint256) (p : ℕ) (t : MerkleFrontier) : Prop where
  size : t.size = p + 1
  left : t.left = some (leaves (p - p % 2))
  right : t.right = if p % 2 = 1 then some (leaves p) else none
  parents : t.parents = spine H.branchHash leaves 1 (p / 2)

theorem Represents.congr {p : ℕ} {t : MerkleFrontier} (ht : Represents H leaves p t)
    (h : ∀ j, j ≤ p → leaves j = leaves' j) : Represents H leaves' p t where
  size := ht.size
  left := by rw [ht.left, h _ (Nat.sub_le p _)]
  right := by rw [ht.right, h p le_rfl]
  parents := by
    rw [ht.parents]
    exact spine_congr fun j hj => h j (by omega)

/-- The carry of `Append` adds one to the position. -/
theorem carry_spine (leaves : ℕ → Uint256) (d q : ℕ) :
    carry H (spine H.branchHash leaves d q) (nodeAt H leaves d q) =
      spine H.branchHash leaves d (q + 1) := by
  induction q using Nat.strong_induction_on generalizing d with
  | _ q ih =>
    obtain ⟨m, rfl | rfl⟩ := Nat.even_or_odd' q
    · obtain rfl | hm := Nat.eq_zero_or_pos m
      · rw [mul_zero, zero_add, show 1 = 2 * 0 + 1 from rfl, spine_odd]
        simp [carry]
      · rw [spine_even hm, carry, spine_odd]
    · have hnode : H.branchHash (nodeAt H leaves d (2 * m)) (nodeAt H leaves d (2 * m + 1)) =
          nodeAt H leaves (d + 1) m := rfl
      rw [spine_odd, carry, hnode, ih m (by omega), show 2 * m + 1 + 1 = 2 * (m + 1) by ring,
        spine_even (Nat.succ_pos m)]

/-- **`Append` moves the frontier to the next leaf.** -/
theorem Represents.append {p : ℕ} {t : MerkleFrontier} (ht : Represents H leaves p t) :
    Represents H leaves (p + 1) (t.append H (leaves (p + 1))) := by
  have hsize : (t.append H (leaves (p + 1))).size = p + 1 + 1 := by
    rw [MerkleFrontier.append_size, ht.size]
  rw [MerkleFrontier.append, ht.left, ht.right] at hsize ⊢
  rcases Nat.mod_two_eq_zero_or_one p with hp | hp
  · -- the pair of `p` is completed
    simp only [hp, Nat.zero_ne_one, if_false] at hsize ⊢
    refine ⟨hsize, ?_, ?_, ?_⟩
    · rw [show p + 1 - (p + 1) % 2 = p by omega, Nat.sub_zero]
    · rw [if_pos (by omega)]
    · rw [ht.parents, show (p + 1) / 2 = p / 2 by omega]
  · -- the pair of `p` is carried upwards, and `p + 1` begins a new one
    simp only [hp, if_true] at hsize ⊢
    refine ⟨hsize, ?_, ?_, ?_⟩
    · rw [show p + 1 - (p + 1) % 2 = p + 1 by omega]
    · rw [if_neg (by omega)]
    · have hpair : H.branchHash (leaves (p - 1)) (leaves p) = nodeAt H leaves 1 (p / 2) := by
        rw [nodeAt_parent, if_pos hp]
        rfl
      rw [ht.parents, hpair, carry_spine, show (p + 1) / 2 = p / 2 + 1 by omega]

theorem represents_frontierOf (hne : commitments ≠ []) :
    Represents H (paddedLeaves H commitments) (commitments.length - 1)
      (frontierOf H commitments) := by
  induction commitments using List.reverseRecOn with
  | nil => exact absurd rfl hne
  | append_singleton cs c ih =>
    have hlast : paddedLeaves H (cs ++ [c]) cs.length = c := by simp [pad]
    rw [frontierOf_append, length_append, length_singleton, Nat.add_sub_cancel]
    obtain rfl | hcs := eq_or_ne cs []
    · refine ⟨rfl, rfl, rfl, ?_⟩
      rw [length_nil, Nat.zero_div, spine_zero]
      rfl
    · have hpos : 0 < cs.length := length_pos_iff.mpr hcs
      have hold : Represents H (paddedLeaves H (cs ++ [c])) (cs.length - 1)
          (frontierOf H cs) := by
        refine (ih hcs).congr fun j hj => ?_
        simp [pad, getElem?_append_left (show j < cs.length by omega)]
      have hnew := hold.append
      rw [Nat.sub_add_cancel hpos, hlast] at hnew
      exact hnew

/-! ## The walks over a frontier -/

variable (H) in
/-- The filler holds the right neighbours that the walk from the node of index `q` at depth `d`
asks for on the next `n` levels; past its end stand empty subtrees. -/
def Fills (leaves : ℕ → Uint256) : ℕ → ℕ → ℕ → List Uint256 → Prop
  | 0, _, _, _ => True
  | n + 1, d, q, queue =>
      if q % 2 = 1 then Fills leaves n (d + 1) (q / 2) queue
      else queue.headD (emptyRootTable H d) = nodeAt H leaves d (q + 1) ∧
        Fills leaves n (d + 1) (q / 2) queue.tail

theorem fills_nil {p : ℕ} (n : ℕ) (hempty : ∀ j, p < j → leaves j = H.emptyLeafHash)
    (hq : p < (q + 1) * 2 ^ d) : Fills H leaves n d q [] := by
  induction n generalizing d q with
  | zero => trivial
  | succ n ih =>
    have hup : p < (q / 2 + 1) * 2 ^ (d + 1) := by
      have hle : q + 1 ≤ (q / 2 + 1) * 2 := by omega
      calc p < (q + 1) * 2 ^ d := hq
        _ ≤ (q / 2 + 1) * 2 * 2 ^ d := Nat.mul_le_mul_right _ hle
        _ = (q / 2 + 1) * 2 ^ (d + 1) := by ring
    rw [Fills]
    split
    · exact ih hup
    · exact ⟨(nodeAt_of_empty fun j hlo _ => hempty j (hq.trans_le hlo)).symm, ih hup⟩

variable (H) in
theorem run_fillerNext_bind {β : Type} (hd : d ≤ merkleDepth) (queue : List Uint256)
    (k : Uint256 → Filling β) :
    (fillerNext H d >>= k).run queue = (k (queue.headD (emptyRootTable H d))).run queue.tail := by
  have hrun : (fillerNext H d).run queue =
      .ok (queue.headD (emptyRootTable H d), queue.tail) := by
    cases queue with
    | nil =>
      simp [fillerNext, emptyRoot, StateT.run, Nat.not_lt.2 hd, Except.map, pure, Except.pure]
    | cons h queue => rfl
  rw [StateT.run_bind, hrun]
  rfl

variable (H) in
/-- The two loops of `Root` as one, over `n` levels. -/
def climbLevels : ℕ → List (Option Uint256) → ℕ → Uint256 → Filling Uint256
  | 0, _, _, current => pure current
  | n + 1, some parent :: parents, d, current =>
      climbLevels n parents (d + 1) (H.branchHash parent current)
  | n + 1, none :: parents, d, current => do
      let sibling ← fillerNext H d
      climbLevels n parents (d + 1) (H.branchHash current sibling)
  | n + 1, [], d, current => do
      let sibling ← fillerNext H d
      climbLevels n [] (d + 1) (H.branchHash current sibling)

theorem climbEmpty_eq_climbLevels (n d : ℕ) (current : Uint256) :
    climbEmpty H n d current = climbLevels H n [] d current := by
  induction n generalizing d current with
  | zero => rfl
  | succ n ih =>
    rw [climbEmpty, climbLevels]
    simp only [ih]

theorem levels_above_parent {parent : Option Uint256}
    (hn : (parent :: parents).length ≤ n) (d : ℕ) :
    ∃ m, n = m + 1 ∧ parents.length ≤ m ∧
      m + 1 - (parent :: parents).length = m - parents.length ∧
      d + (parent :: parents).length = d + 1 + parents.length := by
  rw [length_cons] at hn ⊢
  exact ⟨n - 1, by omega, by omega, by omega, by omega⟩

theorem climbParents_bind_climbEmpty (hn : parents.length ≤ n) (d : ℕ) (current : Uint256) :
    (climbParents H parents d current >>=
        climbEmpty H (n - parents.length) (d + parents.length)) =
      climbLevels H n parents d current := by
  induction parents generalizing n d current with
  | nil =>
    rw [climbParents, pure_bind]
    exact climbEmpty_eq_climbLevels n d current
  | cons parent parents ih =>
    obtain ⟨n, rfl, hn', hlevels, hdepth⟩ := levels_above_parent hn d
    rw [hlevels, hdepth]
    cases parent with
    | some parent => exact ih hn' (d + 1) _
    | none =>
      rw [climbParents, climbLevels, bind_assoc]
      simp only [ih hn']

/-- **The climb arrives at the node above.** -/
theorem climbLevels_run {queue : List Uint256} (hd : d + n ≤ merkleDepth)
    (hfills : Fills H leaves n d q queue) :
    ∃ queue', (climbLevels H n (spine H.branchHash leaves d q) d (nodeAt H leaves d q)).run queue =
      .ok (nodeAt H leaves (d + n) (q / 2 ^ n), queue') := by
  induction n generalizing d q queue with
  | zero => exact ⟨queue, by simp [climbLevels]⟩
  | succ n ih =>
    have hgoal : nodeAt H leaves (d + (n + 1)) (q / 2 ^ (n + 1)) =
        nodeAt H leaves (d + 1 + n) (q / 2 / 2 ^ n) := by
      rw [Nat.div_div_eq_div_mul, ← pow_succ', add_right_comm, add_assoc]
    have hparent := nodeAt_parent H leaves d q
    rw [hgoal]
    rw [Fills] at hfills
    obtain ⟨m, rfl | rfl⟩ := Nat.even_or_odd' q
    · rw [if_neg (by omega)] at hfills hparent
      rw [Nat.mul_div_cancel_left m two_pos] at hfills hparent ⊢
      obtain ⟨hhead, hrest⟩ := hfills
      obtain ⟨queue', hrun⟩ := ih (by omega) hrest
      refine ⟨queue', ?_⟩
      rw [hparent, ← hhead] at hrun
      obtain rfl | hm := Nat.eq_zero_or_pos m
      · rw [spine_zero] at hrun
        rw [mul_zero, spine_zero, climbLevels, run_fillerNext_bind H (by omega)]
        exact hrun
      · rw [spine_even hm, climbLevels, run_fillerNext_bind H (by omega)]
        exact hrun
    · rw [if_pos (by omega)] at hfills hparent
      rw [show (2 * m + 1) / 2 = m by omega] at hfills hparent ⊢
      obtain ⟨queue', hrun⟩ := ih (by omega) hfills
      refine ⟨queue', ?_⟩
      rw [spine_odd, climbLevels]
      rw [hparent, Nat.add_sub_cancel] at hrun
      exact hrun

/-! ### `Root` -/

section Root

variable {p : ℕ} {t : MerkleFrontier}

variable {n depth : ℕ}

theorem Represents.length_parents_le (ht : Represents H leaves p t) (hp : p < 2 ^ (n + 1)) :
    t.parents.length ≤ n := by
  rw [ht.parents]
  exact length_spine_le (by rw [pow_succ] at hp; omega)

theorem Represents.climb_eq (ht : Represents H leaves p t) (hp : p < 2 ^ (n + 1)) :
    t.climb H (n + 1) =
      climbLevels H (n + 1) (spine H.branchHash leaves 0 p) 0 (nodeAt H leaves 0 p) := by
  have hlen := ht.length_parents_le hp
  have hloops : ∀ pair, (do
      let current ← climbParents H t.parents 1 pair
      climbEmpty H (n + 1 - (1 + t.parents.length)) (1 + t.parents.length) current) =
      climbLevels H n (spine H.branchHash leaves 1 (p / 2)) 1 pair := by
    intro pair
    rw [← ht.parents, ← climbParents_bind_climbEmpty hlen,
      show n + 1 - (1 + t.parents.length) = n - t.parents.length by omega]
  have hclimb : t.climb H (n + 1) =
      leafPair H (leaves (p - p % 2)) t.right >>=
        climbLevels H n (spine H.branchHash leaves 1 (p / 2)) 1 := by
    rw [MerkleFrontier.climb, ht.left]
    simp only [hloops]
    rfl
  rw [hclimb, ht.right]
  obtain ⟨m, rfl | rfl⟩ := Nat.even_or_odd' p
  · rw [if_neg (by omega), Nat.mul_div_cancel_left m two_pos, Nat.mul_mod_right, Nat.sub_zero]
    obtain rfl | hm := Nat.eq_zero_or_pos m
    · rw [mul_zero, spine_zero, spine_zero, climbLevels, leafPair, bind_assoc]
      simp only [pure_bind]
      rfl
    · rw [spine_even hm, climbLevels, leafPair, bind_assoc]
      simp only [pure_bind]
      rfl
  · rw [if_pos (by omega), show (2 * m + 1) / 2 = m by omega,
      show 2 * m + 1 - (2 * m + 1) % 2 = 2 * m by omega, spine_odd, climbLevels, leafPair,
        pure_bind]
    rfl

/-- **`Root` with a filler.** On a non-empty frontier it is the root over every row of leaves
whose right neighbours the filler holds. -/
theorem Represents.rootAt_eq {filler : List Uint256} (ht : Represents H leaves p t)
    (hpos : 0 < depth) (hdepth : depth ≤ merkleDepth) (hp : p < 2 ^ depth)
    (hfills : Fills H leaves depth 0 p filler) :
    t.rootAt H depth filler = .ok (nodeAt H leaves depth 0) := by
  obtain ⟨n, rfl⟩ : ∃ n, depth = n + 1 := ⟨depth - 1, by omega⟩
  obtain ⟨queue', hrun⟩ := climbLevels_run (by omega) hfills
  rw [MerkleFrontier.rootAt, if_neg (by rw [ht.size]; omega), ht.climb_eq hp, hrun,
    Nat.div_eq_of_lt hp, zero_add]
  rfl

variable (commitments : List Uint256)

/-- **`Root` of a frontier** is the root over the appended leaves and empty ones after them. -/
theorem rootAt_frontierOf (hpos : 0 < depth)
    (hdepth : depth ≤ merkleDepth) (hlen : commitments.length ≤ 2 ^ depth) :
    (frontierOf H commitments).rootAt H depth [] =
      .ok (nodeAt H (paddedLeaves H commitments) depth 0) := by
  obtain rfl | hne := eq_or_ne commitments []
  · have hempty : nodeAt H (paddedLeaves H []) depth 0 = emptyRootTable H depth :=
      nodeAt_of_empty fun j _ _ => rfl
    rw [hempty, MerkleFrontier.rootAt, if_pos (by simp), emptyRoot, if_neg (by omega)]
    rfl
  · have hcount : 0 < commitments.length := length_pos_iff.mpr hne
    refine (represents_frontierOf commitments hne).rootAt_eq hpos hdepth (by omega) ?_
    refine fills_nil (p := commitments.length - 1) depth (fun j hj => ?_) (by omega)
    simp [pad, getElem?_eq_none (show commitments.length ≤ j by omega)]

theorem root_frontierOf (hlen : commitments.length ≤ merkleMaxLeaves) :
    (frontierOf H commitments).root H = .ok (paddedRoot H commitments) :=
  rootAt_frontierOf commitments (by decide) le_rfl hlen

end Root

/-! ### `ComputePath` -/

section Path

variable (H) in
/-- The two loops of `ComputePath` as one, over `n` levels. -/
def recordLevels : ℕ → List (Option Uint256) → ℕ → List Uint256 → Filling (List Uint256)
  | 0, _, _, path => pure path
  | n + 1, some parent :: parents, d, path => do
      let path ← setAuthPath path d parent
      recordLevels n parents (d + 1) path
  | n + 1, none :: parents, d, path => do
      let sibling ← fillerNext H d
      let path ← setAuthPath path d sibling
      recordLevels n parents (d + 1) path
  | n + 1, [], d, path => do
      let sibling ← fillerNext H d
      let path ← setAuthPath path d sibling
      recordLevels n [] (d + 1) path

theorem recordEmpty_eq_recordLevels (n d : ℕ) (path : List Uint256) :
    recordEmpty H n d path = recordLevels H n [] d path := by
  induction n generalizing d path with
  | zero => rfl
  | succ n ih =>
    rw [recordEmpty, recordLevels]
    simp only [ih]

variable {n d : ℕ}

theorem recordParents_bind_recordEmpty (hn : parents.length ≤ n) (d : ℕ) (path : List Uint256) :
    (recordParents H parents d path >>=
        recordEmpty H (n - parents.length) (d + parents.length)) =
      recordLevels H n parents d path := by
  induction parents generalizing n d path with
  | nil =>
    rw [recordParents, pure_bind]
    exact recordEmpty_eq_recordLevels n d path
  | cons parent parents ih =>
    obtain ⟨n, rfl, hn', hlevels, hdepth⟩ := levels_above_parent hn d
    rw [hlevels, hdepth]
    cases parent with
    | some parent =>
      rw [recordParents, recordLevels, bind_assoc]
      simp only [ih hn']
    | none =>
      rw [recordParents, recordLevels, bind_assoc]
      simp only [bind_assoc, ih hn']

theorem run_setAuthPath_bind {β : Type} (hd : d < merkleDepth)
    (path queue : List Uint256) (value : Uint256) (k : List Uint256 → Filling β) :
    ((liftM (setAuthPath path d value) : Filling (List Uint256)) >>= k).run queue =
      (k (path.set d value)).run queue := by
  rw [setAuthPath, if_pos hd]
  rfl

theorem take_set_append {path rest : List Uint256} {value : Uint256} (hd : d < path.length) :
    (path.set d value).take (d + 1) ++ rest ++ (path.set d value).drop (d + 1 + n) =
      path.take d ++ value :: rest ++ path.drop (d + (n + 1)) := by
  have htake : (path.set d value).take (d + 1) = path.take d ++ [value] := by
    rw [take_add_one, take_set_of_le le_rfl]
    simp [hd]
  rw [htake, drop_set_of_lt (by omega)]
  simp [add_right_comm, add_assoc]

/-- **The path of `ComputePath` holds the siblings.** -/
theorem recordLevels_run {queue path : List Uint256} (hd : d + n ≤ merkleDepth)
    (hlen : path.length = merkleDepth) (hfills : Fills H leaves n d q queue) :
    ∃ queue', (recordLevels H n (spine H.branchHash leaves d q) d path).run queue =
      .ok (path.take d ++ siblings H.branchHash leaves n d q ++ path.drop (d + n), queue') := by
  induction n generalizing d q queue path with
  | zero => exact ⟨queue, by simp [recordLevels, siblings]⟩
  | succ n ih =>
    have hbound : d < merkleDepth := by omega
    have hlt : d < path.length := by omega
    rw [Fills] at hfills
    rw [siblings]
    obtain ⟨m, rfl | rfl⟩ := Nat.even_or_odd' q
    · rw [if_neg (by omega)] at hfills ⊢
      rw [Nat.mul_div_cancel_left m two_pos] at hfills ⊢
      obtain ⟨hhead, hrest⟩ := hfills
      have hset : (path.set d (nodeAt H leaves d (2 * m + 1))).length = merkleDepth := by
        rw [length_set, hlen]
      obtain ⟨queue', hrun⟩ := ih (by omega) hset hrest
      refine ⟨queue', ?_⟩
      rw [take_set_append hlt] at hrun
      obtain rfl | hm := Nat.eq_zero_or_pos m
      · rw [spine_zero] at hrun
        rw [mul_zero, spine_zero, recordLevels, run_fillerNext_bind H hbound.le,
          run_setAuthPath_bind hbound, hhead]
        exact hrun
      · rw [spine_even hm, recordLevels, run_fillerNext_bind H hbound.le,
          run_setAuthPath_bind hbound, hhead]
        exact hrun
    · rw [if_pos (by omega)] at hfills ⊢
      rw [show (2 * m + 1) / 2 = m by omega] at hfills ⊢
      have hset : (path.set d (nodeAt H leaves d (2 * m))).length = merkleDepth := by
        rw [length_set, hlen]
      obtain ⟨queue', hrun⟩ := ih (by omega) hset hfills
      refine ⟨queue', ?_⟩
      rw [take_set_append hlt] at hrun
      rw [spine_odd, recordLevels, run_setAuthPath_bind hbound]
      exact hrun

variable {p : ℕ} {t : MerkleFrontier}

theorem Represents.authPath_eq (ht : Represents H leaves p t) (hp : p < 2 ^ merkleDepth) :
    t.authPath H =
      recordLevels H merkleDepth (spine H.branchHash leaves 0 p) 0
        (List.replicate merkleDepth 0) := by
  have hlen : t.parents.length ≤ 31 := ht.length_parents_le hp
  have hloops : ∀ path, (do
      let path ← recordParents H t.parents 1 path
      recordEmpty H (merkleDepth - (1 + t.parents.length)) (1 + t.parents.length) path) =
      recordLevels H 31 (spine H.branchHash leaves 1 (p / 2)) 1 path := by
    intro path
    rw [← ht.parents, ← recordParents_bind_recordEmpty hlen,
      show merkleDepth - (1 + t.parents.length) = 31 - t.parents.length by
        rw [merkleDepth]; omega]
  have hpath : t.authPath H = leafSibling H t >>= fun sibling =>
      liftM (setAuthPath (List.replicate merkleDepth 0) 0 sibling) >>=
        recordLevels H 31 (spine H.branchHash leaves 1 (p / 2)) 1 := by
    rw [MerkleFrontier.authPath]
    simp only [hloops]
  rw [hpath, leafSibling, ht.left, ht.right]
  obtain ⟨m, rfl | rfl⟩ := Nat.even_or_odd' p
  · rw [if_neg (show ¬2 * m % 2 = 1 by omega), Nat.mul_div_cancel_left m two_pos]
    obtain rfl | hm := Nat.eq_zero_or_pos m
    · rw [mul_zero, spine_zero, spine_zero]
      rfl
    · rw [spine_even hm]
      rfl
  · rw [if_pos (show (2 * m + 1) % 2 = 1 by omega), show (2 * m + 1) / 2 = m by omega,
      show 2 * m + 1 - (2 * m + 1) % 2 = 2 * m by omega, spine_odd]
    rfl

/-- **`ComputePath` with a filler** gives the siblings of the leaf. -/
theorem Represents.authPath_run {filler : List Uint256} (ht : Represents H leaves p t)
    (hp : p < 2 ^ merkleDepth) (hfills : Fills H leaves merkleDepth 0 p filler) :
    (t.authPath H).run' filler = .ok (siblings H.branchHash leaves merkleDepth 0 p) := by
  obtain ⟨queue', hrun⟩ := recordLevels_run le_rfl (length_replicate ..) hfills
  rw [ht.authPath_eq hp]
  rw [take_zero, nil_append, drop_of_length_le (by simp), append_nil] at hrun
  change Prod.fst <$> StateT.run _ filler = _
  rw [hrun]
  rfl

end Path

end Btx.Shielded
