/-
# Witnesses for many leaves at once

`WitnessAt` of `src/shielded/merkle_tree.cpp` appends the leaves to a tree of its own; `WitnessesAt`
reads the authentication path off the leaves, with a cache of subtree roots (`FromAuthPath`). But
the tree that `WitnessAt` replays into keeps its index in memory, which takes ten million leaves; so
they agree below that and nowhere else (`witnessesAt_agrees_iff`).
-/

import Btx.Shielded.CommitmentIndex
import Btx.Shielded.MerkleUpdate
import Btx.Util.SortUnique

namespace Btx.Shielded

open Util PerfectTree List Option

/-! ## A witness from an authentication path -/

namespace ShieldedMerkleWitness

/-- The parents in the loop of `FromAuthPath`, `q` being `position >> depth`. -/
def authParents : List Uint256 → ℕ → List (Option Uint256)
  | [], _ => []
  | s :: path, q => (if q % 2 = 1 then some s else none) :: authParents path (q / 2)

/-- What the loop of `FromAuthPath` pushes onto `filled_`. -/
def authFilled : List Uint256 → ℕ → List Uint256
  | [], _ => []
  | s :: path, q => if q % 2 = 1 then authFilled path (q / 2) else s :: authFilled path (q / 2)

/-- `FromAuthPath`. -/
def fromAuthPath (leaf : Uint256) (position : ℕ) (authPath : List Uint256) :
    Except String ShieldedMerkleWitness :=
  if merkleMaxLeaves ≤ position then
    throw "ShieldedMerkleWitness::FromAuthPath: position overflow"
  else
    pure
      { tree :=
          { size := position + 1
            left := some (if position % 2 = 1 then authPath.headD 0 else leaf)
            right := if position % 2 = 1 then some leaf else none
            parents := authParents authPath.tail (position / 2) }
        filled := authFilled authPath position
        cursor := none
        cursorDepth := 0 }

end ShieldedMerkleWitness

open ShieldedMerkleWitness

namespace StoredMerkleTree

variable (H : MerkleHash) (world : StoreWorld) (t : StoredMerkleTree)

/-! ## One witness -/

/-- The first loop of `WitnessAt`: the leaves below `n`, appended to a tree with its index in
memory. An exception ends the call. -/
def replayLoop : ℕ → Option StoredMerkleTree
  | 0 => some (construct world .memoryOnly)
  | i + 1 => do
      let scratch ← replayLoop i
      let commitment ← t.commitmentAt world i
      let (_, scratch) ← (scratch.append H world commitment true).toOption
      pure scratch

/-- The second loop of `WitnessAt`. -/
def updateLoop (w : ShieldedMerkleWitness) (positions : List ℕ) : Option ShieldedMerkleWitness :=
  positions.foldlM (fun w i => do
    let commitment ← t.commitmentAt world i
    (w.incrementalUpdate H commitment).toOption) w

/-- `WitnessAt`. -/
def witnessAt (position : ℕ) : Option ShieldedMerkleWitness :=
  if t.frontier.size ≤ position ∨ t.hasCommitmentIndex world = false then none
  else do
    let scratch ← t.replayLoop H world (position + 1)
    let witness ← (ofTree scratch.frontier).toOption
    t.updateLoop H world witness (List.range' (position + 1) (t.frontier.size - (position + 1)))

/-! ## Many witnesses -/

/-- `subtree_cache`. -/
abbrev SubtreeCache := PartialMap ℕ Uint256

/-- `cache_key`. -/
def cacheKey (start depth : ℕ) : ℕ := start * 64 + depth

/-- `subtree_root`. -/
def subtreeRoot : ℕ → ℕ → SubtreeCache → Option Uint256 × SubtreeCache
  | depth, start, cache =>
      if merkleDepth < depth then (none, cache)
      else if t.frontier.size ≤ start then (some (emptyRootTable H depth), cache)
      else
        match cache (cacheKey start depth) with
        | some root => (some root, cache)
        | none =>
            match depth with
            | 0 =>
                match t.commitmentAt world start with
                | none => (none, cache)
                | some commitment => (some commitment, cache.insert (cacheKey start 0) commitment)
            | depth + 1 =>
                match subtreeRoot depth start cache with
                | (none, cache) => (none, cache)
                | (some left, cache) =>
                    match subtreeRoot depth (start + 2 ^ depth) cache with
                    | (none, cache) => (none, cache)
                    | (some right, cache) =>
                        let root := H.branchHash left right
                        (some root, cache.insert (cacheKey start (depth + 1)) root)

/-- `(position ^ width) & ~(width - 1)`. -/
def siblingStart (position depth : ℕ) : ℕ := ((position ^^^ 2 ^ depth) >>> depth) <<< depth

/-- The loop over the depths, `n` of them from `depth` on. -/
def authPathLoop (position : ℕ) : ℕ → ℕ → SubtreeCache → Option (List Uint256) × SubtreeCache
  | 0, _, cache => (some [], cache)
  | n + 1, depth, cache =>
      match t.subtreeRoot H world depth (siblingStart position depth) cache with
      | (none, cache) => (none, cache)
      | (some sibling, cache) =>
          match authPathLoop position n (depth + 1) cache with
          | (none, cache) => (none, cache)
          | (some path, cache) => (some (sibling :: path), cache)

/-- The body of the loop over the positions. -/
def batchStep (root : Uint256) (acc : PartialMap ℕ ShieldedMerkleWitness × SubtreeCache)
    (position : ℕ) : PartialMap ℕ ShieldedMerkleWitness × SubtreeCache :=
  match t.commitmentAt world position with
  | none => acc
  | some leaf =>
      match t.authPathLoop H world position merkleDepth 0 acc.2 with
      | (none, cache) => (acc.1, cache)
      | (some authPath, cache) =>
          match fromAuthPath leaf position authPath with
          | .error _ => (acc.1, cache)
          | .ok witness =>
              match witness.verify H leaf root with
              | .ok true => (acc.1.insert position witness, cache)
              | _ => (acc.1, cache)

/-- `WitnessesAt`. The result is empty as well if `Root` throws. -/
def witnessesAt (positions : List ℕ) : PartialMap ℕ ShieldedMerkleWitness :=
  if positions = [] ∨ t.hasCommitmentIndex world = false then PartialMap.empty
  else
    let unique := sortUnique (positions.filter (· < t.frontier.size))
    match t.frontier.root H with
    | .error _ => PartialMap.empty
    | .ok root => (unique.foldl (t.batchStep H world root) (PartialMap.empty, PartialMap.empty)).1

end StoredMerkleTree

/-! ## A witness from a path gives the path back -/

section Padding

variable {H : MerkleHash} {leaves : ℕ → Uint256}

/-- Absent parents at the end are as good as none, for the walk of `ComputePath`, -/
theorem recordLevels_pad (n k d : ℕ) (parents : List (Option Uint256)) (path : List Uint256) :
    recordLevels H n (parents ++ List.replicate k none) d path =
      recordLevels H n parents d path := by
  induction n generalizing parents k d path with
  | zero => cases parents <;> rfl
  | succ n ih =>
    rcases parents with _ | ⟨_ | parent, parents⟩
    · cases k with
      | zero => rfl
      | succ k =>
        rw [nil_append, replicate_succ, recordLevels, recordLevels]
        simp only [← ih k (d + 1) [], nil_append]
    · rw [cons_append, recordLevels, recordLevels]
      simp only [ih]
    · rw [cons_append, recordLevels, recordLevels]
      simp only [ih]

/-- and for that of `Root`. -/
theorem climbLevels_pad (n k d : ℕ) (parents : List (Option Uint256)) (current : Uint256) :
    climbLevels H n (parents ++ List.replicate k none) d current =
      climbLevels H n parents d current := by
  induction n generalizing parents k d current with
  | zero => cases parents <;> rfl
  | succ n ih =>
    rcases parents with _ | ⟨_ | parent, parents⟩
    · cases k with
      | zero => rfl
      | succ k =>
        rw [nil_append, replicate_succ, climbLevels, climbLevels]
        simp only [← ih k (d + 1) [], nil_append]
    · rw [cons_append, climbLevels, climbLevels]
      simp only [ih]
    · rw [cons_append, climbLevels, climbLevels, ih]

/-- A frontier with absent parents added above. -/
def MerkleFrontier.padParents (t : MerkleFrontier) (k : ℕ) : MerkleFrontier :=
  { t with parents := t.parents ++ List.replicate k none }

theorem MerkleFrontier.authPath_padParents {t : MerkleFrontier} {k : ℕ}
    (h : t.parents.length + k ≤ 31) : (t.padParents k).authPath H = t.authPath H := by
  have hloops (u : MerkleFrontier) (hu : u.parents.length ≤ 31) : u.authPath H =
      leafSibling H u >>= fun sibling =>
        liftM (setAuthPath (List.replicate merkleDepth 0) 0 sibling) >>=
          recordLevels H 31 u.parents 1 := by
    have hlevels (path : List Uint256) : (do
        let path ← recordParents H u.parents 1 path
        recordEmpty H (merkleDepth - (1 + u.parents.length)) (1 + u.parents.length) path) =
        recordLevels H 31 u.parents 1 path := by
      rw [← recordParents_bind_recordEmpty hu, show merkleDepth - (1 + u.parents.length) =
        31 - u.parents.length by rw [merkleDepth]; omega]
    rw [MerkleFrontier.authPath]
    simp only [hlevels]
  rw [hloops t (by omega), hloops (t.padParents k) (by simpa [padParents] using h)]
  have hrecord : recordLevels H 31 (t.padParents k).parents 1 = recordLevels H 31 t.parents 1 :=
    funext fun path => recordLevels_pad 31 k 1 t.parents path
  rw [hrecord]
  rfl

theorem MerkleFrontier.rootAt_padParents {t : MerkleFrontier} {k : ℕ} (filler : List Uint256)
    (h : t.parents.length + k ≤ 31) :
    (t.padParents k).rootAt H merkleDepth filler = t.rootAt H merkleDepth filler := by
  have hloops (u : MerkleFrontier) (hu : u.parents.length ≤ 31) : u.climb H merkleDepth =
      liftM (derefLeft u.left) >>= fun left =>
        leafPair H left u.right >>= climbLevels H 31 u.parents 1 := by
    have hlevels (pair : Uint256) : (do
        let current ← climbParents H u.parents 1 pair
        climbEmpty H (merkleDepth - (1 + u.parents.length)) (1 + u.parents.length) current) =
        climbLevels H 31 u.parents 1 pair := by
      rw [← climbParents_bind_climbEmpty hu, show merkleDepth - (1 + u.parents.length) =
        31 - u.parents.length by rw [merkleDepth]; omega]
    rw [MerkleFrontier.climb]
    simp only [hlevels]
  have hclimb : climbLevels H 31 (t.padParents k).parents 1 = climbLevels H 31 t.parents 1 :=
    funext fun current => climbLevels_pad 31 k 1 t.parents current
  rw [rootAt, rootAt, hloops t (by omega), hloops (t.padParents k) (by simpa [padParents] using h),
    hclimb]
  rfl

theorem authParents_siblings {n d q : ℕ} (hq : q < 2 ^ n) :
    authParents (siblings H.branchHash leaves n d q) q =
      spine H.branchHash leaves d q ++
        List.replicate (n - (spine H.branchHash leaves d q).length) none := by
  induction n generalizing d q with
  | zero =>
    obtain rfl : q = 0 := by simpa using hq
    simp [siblings, authParents]
  | succ n ih =>
    rw [siblings, authParents, ih (by rw [pow_succ] at hq; omega)]
    obtain ⟨m, rfl | rfl⟩ := Nat.even_or_odd' q
    · rw [if_neg (by omega), Nat.mul_div_cancel_left m two_pos]
      obtain rfl | hm := Nat.eq_zero_or_pos m
      · simp [replicate_succ]
      · rw [spine_even hm, cons_append, length_cons, Nat.succ_sub_succ]
    · rw [if_pos (by omega), if_pos (by omega), show (2 * m + 1) / 2 = m by omega, spine_odd,
        cons_append, length_cons, Nat.add_sub_cancel, Nat.add_sub_add_right]

theorem fills_authFilled (n d q : ℕ) : Fills H leaves n d q
      (authFilled (siblings H.branchHash leaves n d q) q) := by
  induction n generalizing d q with
  | zero => trivial
  | succ n ih =>
    rw [siblings, authFilled, Fills]
    split_ifs with hq
    · exact ih (d + 1) (q / 2)
    · exact ⟨rfl, ih (d + 1) (q / 2)⟩

end Padding

/-! ## What both kinds of witness compute -/

section Opens

variable {H : MerkleHash} {ls : LeafLog} {p : ℕ} {w w' : ShieldedMerkleWitness}

/-- The witness has the position, the siblings and the root of the leaf at `p`. -/
structure Opens (H : MerkleHash) (ls : LeafLog) (p : ℕ) (w : ShieldedMerkleWitness) : Prop where
  position : w.position = .ok p
  path : w.computePath H =
    .ok (siblings H.branchHash (paddedLeaves H ls) merkleDepth 0 p, p)
  root : w.root H = .ok (paddedRoot H ls)

theorem Tracks.opens (h : Tracks H ls p w) (hlen : ls.length ≤ merkleMaxLeaves) : Opens H ls p w :=
  ⟨h.position_eq, h.computePath_eq hlen, h.root_eq hlen⟩

theorem represents_of_leaf (H : MerkleHash) (leaves : ℕ → Uint256) (p : ℕ) :
    Represents H leaves p ⟨p + 1, some (leaves (p - p % 2)),
      if p % 2 = 1 then some (leaves p) else none, spine H.branchHash leaves 1 (p / 2)⟩ :=
  ⟨rfl, rfl, rfl, rfl⟩

/-- **`FromAuthPath` of the siblings** opens the leaf. -/
theorem opens_fromAuthPath (H : MerkleHash) (ls : LeafLog) (hp : p < merkleMaxLeaves) :
    ∃ w, fromAuthPath (paddedLeaves H ls p) p
        (siblings H.branchHash (paddedLeaves H ls) merkleDepth 0 p) = .ok w ∧ Opens H ls p w := by
  set leaves := paddedLeaves H ls
  have hrep := represents_of_leaf H leaves p
  set t : MerkleFrontier := ⟨p + 1, some (leaves (p - p % 2)),
    if p % 2 = 1 then some (leaves p) else none, spine H.branchHash leaves 1 (p / 2)⟩ with ht
  have hshort : t.parents.length ≤ 31 := hrep.length_parents_le hp
  have hpad : t.parents.length + (31 - t.parents.length) ≤ 31 := by omega
  have hfills : Fills H leaves merkleDepth 0 p
      (authFilled (siblings H.branchHash leaves merkleDepth 0 p) p) :=
    fills_authFilled merkleDepth 0 p
  -- the witness has the frontier of the leaf, with absent parents up to depth 32
  have htree : (⟨p + 1,
      some (if p % 2 = 1 then (siblings H.branchHash leaves merkleDepth 0 p).headD 0 else leaves p),
      if p % 2 = 1 then some (leaves p) else none,
      authParents (siblings H.branchHash leaves merkleDepth 0 p).tail
        (p / 2)⟩ : MerkleFrontier) = t.padParents (31 - t.parents.length) := by
    have htail : (siblings H.branchHash leaves merkleDepth 0 p).tail =
        siblings H.branchHash leaves 31 1 (p / 2) := rfl
    have hhead : (siblings H.branchHash leaves merkleDepth 0 p).headD 0 =
        leaves (if p % 2 = 1 then p - 1 else p + 1) := rfl
    have hhalf : p / 2 < 2 ^ 31 := by
      rw [merkleMaxLeaves] at hp
      omega
    rw [htail, authParents_siblings hhalf, hhead, ht, MerkleFrontier.padParents]
    congr 2
    split_ifs with hodd
    · rw [hodd]
    · rw [show p - p % 2 = p by omega]
  refine ⟨⟨t.padParents (31 - t.parents.length),
    authFilled (siblings H.branchHash leaves merkleDepth 0 p) p, none, 0⟩,
    ?_, ?_, ?_, ?_⟩
  · rw [fromAuthPath, if_neg (not_le.2 hp), htree]
    rfl
  · rfl
  · rw [computePath, partialPath]
    simp only [pure_bind, MerkleFrontier.authPath_padParents hpad, hrep.authPath_run hp hfills]
    rfl
  · rw [root, partialPath]
    simp only [pure_bind, MerkleFrontier.rootAt_padParents _ hpad]
    exact hrep.rootAt_eq (by decide) le_rfl hp hfills

end Opens

/-! ## The cache holds nodes of the tree -/

namespace StoredMerkleTree

section Cache

variable {H : MerkleHash} {world : StoreWorld} {t : StoredMerkleTree} {ls : LeafLog}
  {cache : SubtreeCache} {d i p : ℕ}

theorem siblingStart_eq (p d : ℕ) :
    siblingStart p d = (if p / 2 ^ d % 2 = 1 then p / 2 ^ d - 1 else p / 2 ^ d + 1) * 2 ^ d := by
  have hflip (q : ℕ) : q ^^^ 1 = if q % 2 = 1 then q - 1 else q + 1 := by
    have hhalf : (q ^^^ 1) / 2 = q / 2 := by
      have := Nat.xor_div_two (a := q) (b := 1)
      simpa using this
    have hbit : (q ^^^ 1) % 2 = 1 ↔ ¬(q % 2 = 1 ↔ 1 % 2 = 1) := Nat.xor_mod_two_eq_one
    split_ifs <;> omega
  have hone : 2 ^ d >>> d = 1 := by rw [Nat.shiftRight_eq_div_pow, Nat.div_self (Nat.two_pow_pos d)]
  rw [siblingStart, Nat.shiftRight_xor_distrib, hone, hflip, Nat.shiftLeft_eq,
    Nat.shiftRight_eq_div_pow]

/-- Every entry is the node that its key names. -/
def CacheRight (H : MerkleHash) (ls : LeafLog) (cache : SubtreeCache) : Prop :=
  ∀ d i v, d ≤ merkleDepth → cache (cacheKey (i * 2 ^ d) d) = some v →
    v = nodeAt H (paddedLeaves H ls) d i

theorem cacheRight_empty : CacheRight H ls PartialMap.empty := by
  intro _ _ _ _ h
  cases h

theorem cacheKey_inj {a a' d' : ℕ} (hd : d ≤ merkleDepth) (hd' : d' ≤ merkleDepth)
    (h : cacheKey a d = cacheKey a' d') : a = a' ∧ d = d' := by
  unfold merkleDepth at hd hd'
  unfold cacheKey at h
  omega

theorem CacheRight.insert (h : CacheRight H ls cache) (hd : d ≤ merkleDepth) : CacheRight H ls
      (cache.insert (cacheKey (i * 2 ^ d) d) (nodeAt H (paddedLeaves H ls) d i)) := by
  intro d' i' v hd' hv
  rw [PartialMap.insert_apply] at hv
  split_ifs at hv with hkey
  · obtain ⟨hstart, rfl⟩ := cacheKey_inj hd' hd hkey
    rw [Nat.eq_of_mul_eq_mul_right (Nat.two_pow_pos d') hstart]
    exact (some.inj hv).symm
  · exact h d' i' v hd' hv

/-- What the lookups of a tree with an index find. -/
structure Readable (H : MerkleHash) (world : StoreWorld) (t : StoredMerkleTree) (ls : LeafLog) :
    Prop where
  size : t.frontier.size = ls.length
  read : ∀ i, i < ls.length → t.commitmentAt world i = some (paddedLeaves H ls i)

/-- **`subtree_root` computes nodes of the tree**, with whatever nodes are in the cache. -/
theorem Readable.subtreeRoot_spec (ht : Readable H world t ls) (hd : d ≤ merkleDepth)
    (hcache : CacheRight H ls cache) :
    ∃ cache', t.subtreeRoot H world d (i * 2 ^ d) cache =
      (some (nodeAt H (paddedLeaves H ls) d i), cache') ∧ CacheRight H ls cache' := by
  induction d generalizing i cache with
  | zero =>
    rw [subtreeRoot, if_neg (by omega), ht.size]
    by_cases hsize : ls.length ≤ i * 2 ^ 0
    · rw [if_pos hsize]
      refine ⟨cache, ?_, hcache⟩
      rw [nodeAt_of_empty fun j hj _ => paddedLeaves_of_ge (hsize.trans hj)]
    · rw [if_neg hsize]
      cases hlookup : cache (cacheKey (i * 2 ^ 0) 0) with
      | some root => exact ⟨cache, by rw [hcache 0 i root hd hlookup], hcache⟩
      | none =>
        rw [ht.read _ (not_le.1 hsize), pow_zero, mul_one]
        exact ⟨_, rfl, by simpa using hcache.insert (i := i) hd⟩
  | succ d ih =>
    rw [subtreeRoot, if_neg (by omega), ht.size]
    by_cases hsize : ls.length ≤ i * 2 ^ (d + 1)
    · rw [if_pos hsize]
      refine ⟨cache, ?_, hcache⟩
      rw [nodeAt_of_empty fun j hj _ => paddedLeaves_of_ge (hsize.trans hj)]
    · rw [if_neg hsize]
      cases hlookup : cache (cacheKey (i * 2 ^ (d + 1)) (d + 1)) with
      | some root => exact ⟨cache, by rw [hcache _ i root hd hlookup], hcache⟩
      | none =>
        obtain ⟨cache₁, hleft, hcache₁⟩ := ih (i := 2 * i) (by omega) hcache
        obtain ⟨cache₂, hright, hcache₂⟩ := ih (i := 2 * i + 1) (by omega) hcache₁
        rw [show 2 * i * 2 ^ d = i * 2 ^ (d + 1) by ring] at hleft
        rw [show (2 * i + 1) * 2 ^ d = i * 2 ^ (d + 1) + 2 ^ d by ring] at hright
        simp only [hleft, hright]
        exact ⟨_, rfl, hcache₂.insert hd⟩

/-- The cached walk finds the siblings of the padded tree. -/
theorem Readable.authPathLoop_spec (ht : Readable H world t ls) {n : ℕ} (hd : d + n ≤ merkleDepth)
    (hcache : CacheRight H ls cache) :
    ∃ cache', t.authPathLoop H world p n d cache =
      (some (siblings H.branchHash (paddedLeaves H ls) n d (p / 2 ^ d)), cache') ∧
        CacheRight H ls cache' := by
  induction n generalizing d cache with
  | zero => exact ⟨cache, rfl, hcache⟩
  | succ n ih =>
    obtain ⟨cache₁, hroot, hcache₁⟩ := ht.subtreeRoot_spec (d := d)
      (i := if p / 2 ^ d % 2 = 1 then p / 2 ^ d - 1 else p / 2 ^ d + 1) (by omega) hcache
    obtain ⟨cache₂, hrest, hcache₂⟩ := ih (d := d + 1) (by omega) hcache₁
    refine ⟨cache₂, ?_, hcache₂⟩
    rw [authPathLoop, siblingStart_eq, hroot]
    simp only [hrest]
    rw [siblings, Nat.div_div_eq_div_mul, ← pow_succ]

end Cache

/-! ## The batch -/

section Batch

variable {H : MerkleHash} {world : StoreWorld} {t : StoredMerkleTree} {ls : LeafLog} {p : ℕ}

section

variable (ht : Readable H world t ls) (hlen : ls.length ≤ merkleMaxLeaves)

include ht hlen

/-- One position of a batch: a witness that opens it, and a cache that stays right. -/
theorem Readable.batchStep_spec
    (hp : p < ls.length) (out : PartialMap ℕ ShieldedMerkleWitness) {cache : SubtreeCache}
    (hcache : CacheRight H ls cache) :
    ∃ w cache', t.batchStep H world (paddedRoot H ls) (out, cache) p = (out.insert p w, cache') ∧
      Opens H ls p w ∧ CacheRight H ls cache' := by
  obtain ⟨cache', hpath, hcache'⟩ := ht.authPathLoop_spec (p := p) (d := 0) (n := merkleDepth)
    (by omega) hcache
  rw [pow_zero, Nat.div_one] at hpath
  obtain ⟨w, hw, hopens⟩ := opens_fromAuthPath H ls (hp.trans_le hlen)
  have hverify := verify_of_computePath (hp.trans_le hlen) hopens.path
  refine ⟨w, cache', ?_, hopens, hcache'⟩
  rw [batchStep, ht.read p hp]
  simp only [hpath, hw, hverify]

theorem Readable.foldl_batchStep
    (ps : List ℕ) (hps : ∀ p ∈ ps, p < ls.length) (out : PartialMap ℕ ShieldedMerkleWitness)
    (cache : SubtreeCache) (hcache : CacheRight H ls cache)
    (hout : ∀ q w, out q = some w → Opens H ls q w) :
    let result := (ps.foldl (t.batchStep H world (paddedRoot H ls)) (out, cache)).1
    (∀ q w, result q = some w → Opens H ls q w) ∧
      ∀ q, (result q).isSome ↔ (out q).isSome ∨ q ∈ ps := by
  induction ps generalizing out cache with
  | nil => exact ⟨hout, fun q => by simp⟩
  | cons p ps ih =>
    obtain ⟨w, cache', hstep, hopens, hcache'⟩ :=
      ht.batchStep_spec hlen (hps p mem_cons_self) out hcache
    have hinsert : ∀ q v, out.insert p w q = some v → Opens H ls q v := by
      intro q v hv
      rw [PartialMap.insert_apply] at hv
      split_ifs at hv with hq
      · rw [hq, ← some.inj hv]
        exact hopens
      · exact hout q v hv
    obtain ⟨hright, hsome⟩ := ih (fun q hq => hps q (mem_cons_of_mem _ hq)) (out.insert p w)
      cache' hcache' hinsert
    rw [foldl_cons, hstep]
    refine ⟨hright, fun q => ?_⟩
    rw [hsome, PartialMap.insert_apply, mem_cons]
    by_cases hq : q = p
    · simp [hq]
    · simp [hq]

/-- **`WitnessesAt`** opens the positions of the tree that were asked for, and no others. -/
theorem Readable.witnessesAt_spec
    (hindex : t.hasCommitmentIndex world = true) (hroot : t.frontier.root H = .ok (paddedRoot H ls))
    {positions : List ℕ} (hp : p ∈ positions) (hlt : p < ls.length) :
    ∃ w, t.witnessesAt H world positions p = some w ∧ Opens H ls p w := by
  have hne : ¬(positions = [] ∨ t.hasCommitmentIndex world = false) := by
    rw [not_or, hindex]
    exact ⟨ne_nil_of_mem hp, by decide⟩
  have hmem {q : ℕ} : q ∈ sortUnique (positions.filter (· < t.frontier.size)) ↔
      q ∈ positions ∧ q < ls.length := by
    rw [mem_sortUnique, List.mem_filter, ht.size, decide_eq_true_eq]
  obtain ⟨hright, hsome⟩ := ht.foldl_batchStep hlen _ (fun q hq => (hmem.1 hq).2) PartialMap.empty
    PartialMap.empty cacheRight_empty fun q w h => by cases h
  rw [witnessesAt, if_neg hne, hroot]
  obtain ⟨w, hw⟩ := isSome_iff_exists.1 ((hsome p).2 (.inr (hmem.2 ⟨hp, hlt⟩)))
  exact ⟨w, hw, hright p w hw⟩

end

/-! ## The replay -/

theorem holds_congr_world {scratch : StoredMerkleTree} {world' : StoreWorld}
    (h : Holds H world scratch ls) (hstore : scratch.store = none) :
    Holds H world' scratch ls :=
  { h with
    store_eq := by
      intro id hid
      rw [hstore] at hid
      cases hid }

theorem take_succ_eq {n : ℕ} (hn : n < ls.length) :
    ls.take (n + 1) = ls.take n ++ [paddedLeaves H ls n] := by
  rw [take_add_one, getElem?_eq_getElem hn]
  simp [pad, hn]

section

variable (ht : Readable H world t ls) (hlen : ls.length ≤ merkleMaxLeaves)

include ht hlen

/-- Replaying leaves builds the tree of these leaves in memory. -/
theorem Readable.replayLoop_spec {n : ℕ} (hn : n ≤ ls.length) (hcap : n ≤ memIndexHardCap) :
    ∃ scratch, t.replayLoop H world n = some scratch ∧ Holds H world scratch (ls.take n) ∧
      scratch.indexKind = .memory ∧ scratch.store = none := by
  induction n with
  | zero => exact ⟨_, rfl, construct_holds world .memoryOnly, rfl, rfl⟩
  | succ n ih =>
    obtain ⟨scratch, hloop, hholds, hkind, hstore⟩ := ih (by omega) (by omega)
    have htake : (ls.take n).length = n := by
      rw [length_take]
      omega
    have haccepts : LeafLog.accepts scratch.indexKind (ls.take n) true = true := by
      rw [hkind, LeafLog.accepts, htake, decide_eq_true_eq]
      omega
    obtain ⟨world', scratch', happend⟩ := hholds.exists_append (paddedLeaves H ls n)
      (by omega) haccepts
    obtain ⟨hholds', hstore', hkind', -⟩ := HoldsFrom.append hholds zero_le happend
    refine ⟨scratch', ?_, ?_, hkind'.trans hkind, hstore'.trans hstore⟩
    · rw [replayLoop, hloop, ht.read n (by omega)]
      simp only [bind_eq_bind, bind_some, happend]
      rfl
    · rw [take_succ_eq (H := H) (by omega)]
      exact holds_congr_world hholds' (hstore'.trans hstore)

theorem Readable.replayLoop_eq_none {n : ℕ} (hn : n ≤ ls.length) (hcap : memIndexHardCap < n) :
    t.replayLoop H world n = none := by
  induction n with
  | zero => omega
  | succ n ih =>
    rw [replayLoop]
    by_cases hmore : memIndexHardCap < n
    · rw [ih (by omega) hmore]
      rfl
    · obtain ⟨scratch, hloop, hholds, hkind, -⟩ :=
        ht.replayLoop_spec hlen (n := n) (by omega) (by omega)
      have htake : (ls.take n).length = n := by
        rw [length_take]
        omega
      have hfull : LeafLog.append scratch.indexKind (ls.take n) (paddedLeaves H ls n) true =
          .error "ShieldedMerkleTree: failed to persist commitment index" := by
        have haccepts : LeafLog.accepts .memory (ls.take n) true = false := by
          rw [LeafLog.accepts, htake, decide_eq_false_iff_not]
          omega
        rw [LeafLog.append, htake, if_neg (by omega), hkind, haccepts]
        rfl
      have happend := (Holds.append_eq hholds (paddedLeaves H ls n) true).1 _ hfull
      rw [hloop, ht.read n (by omega)]
      simp only [bind_eq_bind, bind_some, happend]
      rfl

/-- The witness follows the leaves after its own. -/
theorem Readable.updateLoop_spec {w : ShieldedMerkleWitness} {k m : ℕ} (hk : k + m = ls.length)
    (htracks : Tracks H (ls.take k) p w) :
    ∃ w', t.updateLoop H world w (List.range' k m) = some w' ∧ Tracks H ls p w' := by
  induction m generalizing k w with
  | zero =>
    rw [take_of_length_le (by omega)] at htracks
    exact ⟨w, rfl, htracks⟩
  | succ m ih =>
    have htake : (ls.take k).length = k := by
      rw [length_take]
      omega
    obtain ⟨w₁, hupdate, htracks₁⟩ := htracks.incrementalUpdate (paddedLeaves H ls k) (by omega)
    rw [← take_succ_eq (by omega)] at htracks₁
    obtain ⟨w', hrest, htracks'⟩ := ih (k := k + 1) (by omega) htracks₁
    refine ⟨w', ?_, htracks'⟩
    rw [updateLoop, range'_succ, foldlM_cons, ht.read k (by omega)]
    simp only [bind_eq_bind, bind_some, hupdate]
    exact hrest

end

/-! ## The two compared -/

theorem readable_of_holds (h : Holds H world t ls) (hindex : t.hasCommitmentIndex world = true)
    (hne : ls ≠ []) : Readable H world t ls := by
  have hlast : (LeafLog.commitmentAt t.indexKind ls (ls.length - 1)).isSome = true := by
    rw [hasCommitmentIndex, h.size_eq, if_neg (mt length_eq_zero_iff.1 hne),
      h.commitmentAt_eq] at hindex
    split at hindex
    · cases hindex
    · exact hindex
  refine ⟨h.size_eq, fun i hi => ?_⟩
  rw [h.commitmentAt_eq]
  cases hkind : t.indexKind with
  | disabled | absent => simp [hkind, LeafLog.commitmentAt] at hlast
  | memory | store => simp [LeafLog.commitmentAt, pad, hi]

section

variable (ht : Readable H world t ls) (hlen : ls.length ≤ merkleMaxLeaves)

include ht hlen

/-- **`WitnessAt` opens the positions below the cap.** -/
theorem Readable.witnessAt_spec
    (hindex : t.hasCommitmentIndex world = true) (hp : p < ls.length) (hcap : p < memIndexHardCap) :
    ∃ w, t.witnessAt H world p = some w ∧ Opens H ls p w := by
  obtain ⟨scratch, hloop, hholds, -⟩ := ht.replayLoop_spec hlen (n := p + 1) (by omega) (by omega)
  have htake : (ls.take p).length = p := by
    rw [length_take]
    omega
  obtain ⟨w₁, hw₁, htracks₁⟩ := tracks_ofTree (H := H) (ls.take p) (paddedLeaves H ls p)
  rw [← take_succ_eq hp] at hw₁ htracks₁
  rw [htake] at htracks₁
  rw [← hholds.frontier_eq] at hw₁
  obtain ⟨w, hw, htracks⟩ := ht.updateLoop_spec hlen (m := ls.length - (p + 1)) (by omega) htracks₁
  refine ⟨w, ?_, htracks.opens hlen⟩
  rw [witnessAt, ht.size, if_neg (by simp [hindex, hp]), hloop]
  simp only [bind_eq_bind, bind_some, hw₁]
  exact hw

/-- Beyond the cap `WitnessAt` returns nothing. -/
theorem Readable.witnessAt_eq_none
    (hp : p < ls.length) (hcap : memIndexHardCap ≤ p) : t.witnessAt H world p = none := by
  rw [witnessAt]
  split_ifs
  · rfl
  · rw [ht.replayLoop_eq_none hlen (by omega) (by omega)]
    rfl

end

end Batch

/-- The two calls return no witness, or witnesses with one position, path and root. -/
def SameWitness (H : MerkleHash) :
    Option ShieldedMerkleWitness → Option ShieldedMerkleWitness → Prop
  | some w, some w' =>
      w.position = w'.position ∧ w.computePath H = w'.computePath H ∧ w.root H = w'.root H
  | none, none => True
  | _, _ => False

theorem sameWitness_of_opens {H : MerkleHash} {ls : LeafLog} {p : ℕ} {w w' : ShieldedMerkleWitness}
    (h : Opens H ls p w) (h' : Opens H ls p w') : SameWitness H (some w) (some w') :=
  ⟨h.position.trans h'.position.symm, h.path.trans h'.path.symm, h.root.trans h'.root.symm⟩

/-- **`WitnessesAt` agrees with `WitnessAt`**, in whatever order and however often positions are
asked for, if and only if the tree has no index or the positions are below the ten million leaves
that an index in memory takes. -/
theorem witnessesAt_agrees_iff {H : MerkleHash} {world : StoreWorld} {t : StoredMerkleTree}
    {ls : LeafLog} (h : Holds H world t ls) (positions : List ℕ) :
    (∀ p ∈ positions, p < t.frontier.size →
      SameWitness H (t.witnessesAt H world positions p) (t.witnessAt H world p)) ↔
    (t.hasCommitmentIndex world = true →
      ∀ p ∈ positions, p < t.frontier.size → p < memIndexHardCap) := by
  rw [h.size_eq]
  constructor
  · intro hsame hindex p hmem hp
    have ht := readable_of_holds h hindex (ne_nil_of_length_pos (by omega))
    by_contra hcap
    obtain ⟨w, hw, -⟩ := ht.witnessesAt_spec h.length_le hindex h.root_eq hmem hp
    have hnone := ht.witnessAt_eq_none h.length_le hp (by omega)
    have hcontra := hsame p hmem hp
    rw [hw, hnone] at hcontra
    exact hcontra
  · intro hsmall p hmem hp
    cases hindex : t.hasCommitmentIndex world with
    | false =>
      rw [witnessesAt, witnessAt, if_pos (.inr hindex), if_pos (.inr hindex)]
      trivial
    | true =>
      have ht := readable_of_holds h hindex (ne_nil_of_length_pos (by omega))
      obtain ⟨w, hw, hopens⟩ := ht.witnessesAt_spec h.length_le hindex h.root_eq hmem hp
      obtain ⟨w', hw', hopens'⟩ :=
        ht.witnessAt_spec h.length_le hindex hp (hsmall hindex p hmem hp)
      rw [hw, hw']
      exact sameWitness_of_opens hopens hopens'

/-- Three leaves in memory, the positions out of order and repeated. -/
theorem witnessesAt_agrees_three :
    ∃ world t, Holds sumHash world t [5, 6, 7] ∧ ∀ p ∈ [2, 0, 1, 2], p < t.frontier.size →
      SameWitness sumHash (t.witnessesAt sumHash world [2, 0, 1, 2] p)
        (t.witnessAt sumHash world p) := by
  have hempty := construct_holds (H := sumHash) ⟨fun _ => .empty, none⟩ .memoryOnly
  obtain ⟨world, t, happend⟩ : ∃ world t,
      (construct ⟨fun _ => .empty, none⟩ .memoryOnly).appendAll sumHash (fun _ => true)
        ⟨fun _ => .empty, none⟩ [5, 6, 7] = .ok (world, t) := by
    refine hempty.exists_appendAll [5, 6, 7] (by decide) fun ls' hls' => ?_
    have hlen : ls'.length < 3 := hls'
    have hcap : 3 ≤ memIndexHardCap := by decide
    exact decide_eq_true (by omega)
  obtain ⟨hholds, -⟩ := hempty.appendAll happend
  refine ⟨world, t, hholds, (witnessesAt_agrees_iff hholds _).2 fun _ p _ hp => ?_⟩
  have hlen : p < 3 := by
    rw [hholds.size_eq] at hp
    exact hp
  have hcap : 3 ≤ memIndexHardCap := by decide
  omega

/-- A tree with its index in a store, one leaf over ten million: the batch has a witness for the
last leaf and `WitnessAt` has none. -/
theorem witnessAt_capped : ∃ world t,
      (construct ⟨fun _ => .empty, some 0⟩ .auto).appendAll sumHash (fun _ => true)
        ⟨fun _ => .empty, some 0⟩ (List.replicate (memIndexHardCap + 1) 5) = .ok (world, t) ∧
      memIndexHardCap < t.frontier.size ∧
      (t.witnessesAt sumHash world [memIndexHardCap] memIndexHardCap).isSome ∧
      t.witnessAt sumHash world memIndexHardCap = none := by
  have hempty := construct_holds (H := sumHash) ⟨fun _ => .empty, some 0⟩ .auto
  set leaves : List Uint256 := List.replicate (memIndexHardCap + 1) 5 with hleaves
  have hlength : leaves.length = memIndexHardCap + 1 := length_replicate
  have hroom : memIndexHardCap + 1 ≤ merkleMaxLeaves := by decide
  obtain ⟨world, t, happend⟩ : ∃ world t,
      (construct ⟨fun _ => .empty, some 0⟩ .auto).appendAll sumHash (fun _ => true)
        ⟨fun _ => .empty, some 0⟩ leaves = .ok (world, t) :=
    hempty.exists_appendAll leaves (by rw [hlength, length_nil]; omega) fun _ _ => rfl
  obtain ⟨hholds, hkind⟩ := Holds.appendAll hempty happend
  rw [nil_append] at hholds
  have hindex : t.hasCommitmentIndex world = true := by
    have henabled : t.enabled = true := by
      by_contra hoff
      rw [indexKind, if_pos (by simpa using hoff)] at hkind
      cases hkind
    rw [hasCommitmentIndex, henabled, hholds.size_eq, hlength, hholds.commitmentAt_eq, hkind]
    simp [LeafLog.commitmentAt, construct, indexKind, hlength]
  have ht := readable_of_holds hholds hindex (ne_nil_of_length_pos (by omega))
  obtain ⟨w, hw, -⟩ := ht.witnessesAt_spec (p := memIndexHardCap) hholds.length_le hindex
    hholds.root_eq mem_cons_self (by omega)
  refine ⟨world, t, happend, by rw [hholds.size_eq]; omega, by rw [hw]; rfl, ?_⟩
  exact ht.witnessAt_eq_none hholds.length_le (by omega) le_rfl

end StoredMerkleTree

end Btx.Shielded
