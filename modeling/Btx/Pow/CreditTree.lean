/-
# Stored time credits in a tree of blocks

The credits of `Btx.Pow.TimeCredit` are stored in the blocks of the index, which all chains share:
an evaluation leaves credits that later ones find on other forks, under a later anchor. A
`BlockTree` holds the blocks and their parents, a `CreditStore` the key and the credit of each
block.
-/

import Btx.Pow.TimeCredit

namespace Btx.Pow

open List

/-- The block index, as far as it is fixed: `pprev` goes down by one, to a block of height 0. -/
structure BlockTree (ι : Type*) where
  block : ι → BlockData
  pprev : ι → Option ι
  nonneg : ∀ i, 0 ≤ (block i).nHeight
  genesis : ∀ i, pprev i = none → (block i).nHeight = 0
  child : ∀ i j, pprev i = some j → (block i).nHeight = (block j).nHeight + 1

/-- The key and the credit stored in each block. -/
abbrev CreditStore (ι : Type*) := ι → UInt64 × ℤ

namespace BlockTree

variable {ι : Type*} (T : BlockTree ι)

/-- The ancestors of a block, as `pprev` leads to them. -/
def ancestorsFrom : ℕ → ι → List ι
  | 0, _ => []
  | n + 1, i =>
    match T.pprev i with
    | none => []
    | some j => j :: ancestorsFrom n j

def ancestors (i : ι) : List ι := T.ancestorsFrom (T.block i).nHeight.toNat i

/-- A block and its ancestors. -/
def chain (i : ι) : List ι := i :: T.ancestors i

/-- A block with what is stored in it. -/
def entry (store : CreditStore ι) (i : ι) : CBlockIndex where
  toBlockData := T.block i
  nMatMulClampedAsertCreditKey := (store i).1
  nMatMulClampedAsertCredit := (store i).2

/-- The blocks of a chain, without what is stored. -/
def blocks (i : ι) : List BlockData := (T.chain i).map T.block

/-- `MatMulAsert` on a tip. -/
def matMulAsert (p : Params) (store : CreditStore ι) (i : ι) : Work :=
  Pow.matMulAsert p (T.entry store i) ((T.ancestors i).map (T.entry store))

/-- The credit that `MatMulAsert` asks for on a tip, from its anchor. -/
def timeCredit (p : Params) (store : CreditStore ι) (i : ι) : ℤ :=
  (matMulAsertClampedTimeCredit p (T.entry store i) ((T.ancestors i).map (T.entry store))
    ((T.block i).nHeight -
      (resolveMatMulAsertHalfLifeInfo p (T.block i).nHeight).currentAnchorHeight).toNat).credit

section Run

variable [DecidableEq ι]

/-- The credits that an evaluation has left in the blocks of a chain. -/
def storeBack (store : CreditStore ι) (chain : List ι) (index : List CBlockIndex) :
    CreditStore ι := fun j =>
  match (chain.zip index).find? (·.1 = j) with
  | some (_, block) => (block.nMatMulClampedAsertCreditKey, block.nMatMulClampedAsertCredit)
  | none => store j

/-- One evaluation. -/
def evaluate (p : Params) (store : CreditStore ι) (i : ι) : CreditStore ι :=
  storeBack store (T.chain i) (T.matMulAsert p store i).index

/-- A sequence of evaluations on any tips, from an index without credits. -/
def run (p : Params) (tips : List ι) : CreditStore ι :=
  tips.foldl (T.evaluate p) fun _ => (0, 0)

end Run

/-- The credit from the anchor to the tip, without a store. -/
def uncachedCredit (p : Params) (i : ι) : ℤ :=
  if !p.isMatMulStallRecoveryActive (T.block i).nHeight ∨
    p.matMulAsertClampedMinIntervalSeconds ≤ 0 then 0
  else creditSpec p ((T.block i).nHeight -
    (resolveMatMulAsertHalfLifeInfo p (T.block i).nHeight).currentAnchorHeight).toNat (T.blocks i)

/-! ## Chains -/

variable {T} {p : Params} {store : CreditStore ι} {i j : ι} {k : ℕ}

theorem chain_induction {P : ι → Prop} (hstep : ∀ i, (∀ j, T.pprev i = some j → P j) → P i)
    (i : ι) : P i := by
  induction hn : (T.block i).nHeight.toNat using Nat.strong_induction_on generalizing i with
  | _ n ih =>
    refine hstep i fun j hj => ih _ ?_ j rfl
    have hheight := T.child i j hj
    have hnonneg := T.nonneg j
    omega

theorem ancestors_of_genesis (h : T.pprev i = none) : T.ancestors i = [] := by
  rw [ancestors, T.genesis i h]
  rfl

theorem ancestors_of_child (h : T.pprev i = some j) : T.ancestors i = T.chain j := by
  have hsucc : (T.block i).nHeight.toNat = (T.block j).nHeight.toNat + 1 := by
    have hheight := T.child i j h
    have hnonneg := T.nonneg j
    omega
  rw [ancestors, hsucc, ancestorsFrom, h]
  rfl

theorem drop_chain (h : (T.chain i)[k]? = some j) : (T.chain i).drop k = T.chain j := by
  induction i using chain_induction (T := T) generalizing k with
  | hstep i ih =>
    cases k with
    | zero =>
      obtain rfl : i = j := Option.some.inj h
      rfl
    | succ k =>
      rw [chain, getElem?_cons_succ] at h
      rw [chain, drop_succ_cons]
      cases hprev : T.pprev i with
      | none =>
        rw [ancestors_of_genesis hprev] at h
        cases h
      | some parent =>
        rw [ancestors_of_child hprev] at h ⊢
        exact ih parent hprev h

theorem linked_chain (store : CreditStore ι) (i : ι) :
    Linked ((T.chain i).map (T.entry store)) := by
  induction i using chain_induction (T := T) with
  | hstep i ih =>
    cases hprev : T.pprev i with
    | none =>
      rw [chain, ancestors_of_genesis hprev]
      exact T.genesis i hprev
    | some j =>
      have hlinked := ih j hprev
      rw [chain, ancestors_of_child hprev]
      exact ⟨T.child i j hprev, hlinked⟩

theorem map_entry_toBlockData (store : CreditStore ι) (l : List ι) :
    (l.map (T.entry store)).map CBlockIndex.toBlockData = l.map T.block := by
  rw [map_map]
  rfl

/-! ## Valid stores -/

/-- Every credit that would be read is that from the anchor of its block's own height. -/
def StoreValid (T : BlockTree ι) (p : Params) (store : CreditStore ι) : Prop :=
  ∀ i, IsCached (clampedAsertCreditCacheKey p) (T.entry store i) →
    (store i).2 = creditSpec p (anchorDepth p (T.block i).nHeight) (T.blocks i)

theorem storeValid_empty : StoreValid T p fun _ => (0, 0) := fun i hcached =>
  absurd hcached.symm (clampedAsertCreditCacheKey_ne_zero (T.block i))

theorem StoreValid.chain (h : StoreValid T p store) (i : ι) :
    CreditsValid p (clampedAsertCreditCacheKey p) ((T.chain i).map (T.entry store)) := by
  induction i using chain_induction (T := T) with
  | hstep i ih =>
    refine ⟨fun hcached => ?_, ?_⟩
    · rw [← map_cons, map_entry_toBlockData]
      exact h i hcached
    · cases hprev : T.pprev i with
      | none =>
        rw [ancestors_of_genesis hprev]
        trivial
      | some j =>
        rw [ancestors_of_child hprev]
        exact ih j hprev

variable {index : List CBlockIndex}

theorem creditsValid_drop {keyFor : BlockData → UInt64}
    (h : CreditsValid p keyFor index) (k : ℕ) : CreditsValid p keyFor (index.drop k) := by
  induction k generalizing index with
  | zero => exact h
  | succ k ih =>
    cases index with
    | nil => exact h
    | cons block index => exact ih h.2

theorem StoreValid.storeBack [DecidableEq ι] (h : StoreValid T p store)
    (hvalid : CreditsValid p (clampedAsertCreditCacheKey p) index)
    (hdata : index.map CBlockIndex.toBlockData = T.blocks i) :
    StoreValid T p (storeBack store (T.chain i) index) := by
  intro j hcached
  unfold BlockTree.storeBack at hcached ⊢
  cases hfind : ((T.chain i).zip index).find? (·.1 = j) with
  | none =>
    simp only [IsCached, entry, hfind] at hcached ⊢
    exact h j hcached
  | some found =>
    obtain ⟨j', block⟩ := found
    obtain rfl : j' = j := by simpa using find?_some hfind
    obtain ⟨k, hk⟩ := mem_iff_getElem?.1 (mem_of_find?_eq_some hfind)
    rw [getElem?_zip_eq_some] at hk
    -- The rest of the index from there on is the chain of `j'`.
    have hrest : (index.drop k).map CBlockIndex.toBlockData = T.blocks j' := by
      rw [map_drop, hdata, blocks, ← map_drop, drop_chain hk.1]
      rfl
    have hcons : index.drop k = block :: index.drop (k + 1) := by
      obtain ⟨hlt, hblock⟩ := List.getElem?_eq_some_iff.1 hk.2
      rw [drop_eq_getElem_cons hlt, hblock]
    have hentry := creditsValid_drop hvalid k
    rw [hcons] at hentry hrest
    have hblock : block.toBlockData = T.block j' := (List.cons.inj hrest).1
    simp only [IsCached, entry, hfind] at hcached ⊢
    have hcredit := hentry.1 (by rw [IsCached, hblock]; exact hcached)
    rwa [hrest, hblock] at hcredit

/-- **An evaluation keeps the store valid.** -/
theorem StoreValid.evaluate [DecidableEq ι] (h : StoreValid T p store) (i : ι) :
    StoreValid T p (T.evaluate p store i) := by
  obtain ⟨hvalid, hdata⟩ := matMulAsert_index (linked_chain store i) (h.chain i)
  refine h.storeBack hvalid (hdata.trans ?_)
  rw [← map_cons, map_entry_toBlockData]
  rfl

/-- **So does any sequence of them**, on whatever tips and forks. -/
theorem storeValid_run [DecidableEq ι] (tips : List ι) : StoreValid T p (T.run p tips) := by
  have hrun : ∀ (tips : List ι) (store : CreditStore ι), StoreValid T p store →
      StoreValid T p (tips.foldl (T.evaluate p) store) := by
    intro tips
    induction tips with
    | nil => exact fun _ h => h
    | cons i tips ih => exact fun store h => ih _ (h.evaluate i)
  exact hrun tips _ storeValid_empty

/-- The credit is asked for on a tip: the rules for one height do not fire, and there is an anchor
with a target in range. -/
def CreditReached (T : BlockTree ι) (p : Params) (i : ι) : Prop :=
  Pow.CreditReached p (T.entry (fun _ => (0, 0)) i) ((T.ancestors i).map (T.entry fun _ => (0, 0)))

theorem CreditReached.of_store (h : T.CreditReached p i) (store : CreditStore ι) :
    Pow.CreditReached p (T.entry store i) ((T.ancestors i).map (T.entry store)) := by
  obtain ⟨hasert, hnonneg, anchor, hget, hrange⟩ := h
  have hget₀ :
      getAncestor (T.entry (fun _ => (0, 0)) i) ((T.ancestors i).map (T.entry fun _ => (0, 0)))
    (anchorHeight p (T.block i).nHeight) = some anchor := hget
  have hsame : (getAncestor (T.entry store i) ((T.ancestors i).map (T.entry store))
      (anchorHeight p (T.block i).nHeight)).map CBlockIndex.toBlockData =
      (getAncestor (T.entry (fun _ => (0, 0)) i) ((T.ancestors i).map (T.entry fun _ => (0, 0)))
        (anchorHeight p (T.block i).nHeight)).map CBlockIndex.toBlockData :=
    getAncestor_congr (by simp only [← map_cons, map_entry_toBlockData]) _
  rw [hget₀, Option.map_some, Option.map_eq_some_iff] at hsame
  obtain ⟨anchor', hget', hdata⟩ := hsame
  exact ⟨hasert, hnonneg, anchor', hget', hdata ▸ hrange⟩

/-- **The credit does not depend on what is stored.** After every sequence of evaluations on any
tips and forks of any tree, the credit that `MatMulAsert` asks for on a tip is the one without a
store, and the work is that of an index without credits. No assumption on the keys is needed: a key
is only compared with the block's own. -/
theorem credit_uncached [DecidableEq ι] (T : BlockTree ι) (tips : List ι) (i : ι)
    (hreached : T.CreditReached p i) :
    T.timeCredit p (T.run p tips) i = T.uncachedCredit p i ∧
      (T.matMulAsert p (T.run p tips) i).bits = (T.matMulAsert p (fun _ => (0, 0)) i).bits := by
  have hvalid : StoreValid T p (T.run p tips) := storeValid_run tips
  have hreached' := hreached.of_store (T.run p tips)
  have hspec := (matMulAsertClampedTimeCredit_spec (linked_chain (T.run p tips) i)
    (hvalid.chain i) hreached').1
  refine ⟨?_, matMulAsert_congr (linked_chain _ i) ?_ (storeValid_empty.chain i) (hvalid.chain i)⟩
  · rw [← map_cons, map_entry_toBlockData] at hspec
    have hanchor : (resolveMatMulAsertHalfLifeInfo p (T.block i).nHeight).currentAnchorHeight =
        anchorHeight p (T.block i).nHeight := hreached'.currentAnchorHeight
    unfold timeCredit uncachedCredit
    rw [hanchor]
    exact hspec
  · simp only [← map_cons, map_entry_toBlockData]

end BlockTree

/-- The main network with ASERT from the genesis block on, stall recovery from block 1 on, and times
that advance by at most 10 seconds. -/
def earlyRecovery : Params :=
  { mainnet with
    nMatMulAsertHeight := 0
    nMatMulStallRecoveryHeight := 1
    nMatMulMaxBlockTimeAdvance := 10 }

/-- Two forks at height 3 of a chain whose times are all at the cap. -/
def forkedTree : BlockTree (Fin 5) where
  block i := ⟨min (i : ℕ) 3, UInt32.ofNat (1773878400 + 10 * min (i : ℕ) 3), 0x2000ffff⟩
  pprev i := [none, some 0, some 1, some 2, some 2].getD i none
  nonneg := by decide
  genesis := by decide
  child := by decide

/-- On the second fork, after an evaluation on the first and one below: two blocks above the anchor,
each 80 seconds short of the interval. -/
theorem credit_uncached_fork :
    forkedTree.timeCredit earlyRecovery (forkedTree.run earlyRecovery [3, 2]) 4 =
        forkedTree.uncachedCredit earlyRecovery 4 ∧
      forkedTree.uncachedCredit earlyRecovery 4 = 160 := by
  have hreached : forkedTree.CreditReached earlyRecovery 4 := by
    refine ⟨⟨by decide, by decide, by decide, by decide +kernel, by decide +kernel⟩,
      by decide +kernel, forkedTree.entry (fun _ => (0, 0)) 1, by decide +kernel, ?_⟩
    unfold AnchorInRange
    decide +kernel
  exact ⟨(BlockTree.credit_uncached forkedTree [3, 2] 4 hreached).1, by decide +kernel⟩

end Btx.Pow
