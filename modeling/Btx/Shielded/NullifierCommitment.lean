/-
# The commitment to a set of nullifiers

`ComputeNullifierSetCommitment` of `src/shielded/account_registry.cpp`: the root of a tree over the
tagged hashes of the sorted nullifiers that duplicates the last node of an odd level. No nullifiers
have a hash of their own, and a list with a null nullifier has the null commitment.
-/

import Btx.Node.Keys
import Btx.Smile2.VerifyCT
import Btx.Util.DuplicateLast
import Btx.Util.SortUnique

namespace Btx.Shielded

open Util Smile2 List
open scoped Node

/-- The nullifiers in increasing order, each once. -/
def sortedNullifiers (nullifiers : List Uint256) : List Uint256 := sortUnique nullifiers

/-- What stands for no nullifiers. -/
def emptySetMessage : List UInt8 :=
  Writer.counted (tagBytes "BTX_SMILE_ACCOUNT_NULLIFIER_SET_V1") ++ [0]

/-- What the hash of a leaf is taken of. -/
def nullifierLeafMessage (nullifier : Uint256) : List UInt8 :=
  Writer.counted (tagBytes "BTX_SMILE_ACCOUNT_NULLIFIER_LEAF_V1") ++ uint256Bytes nullifier

/-- What the hash of a node is taken of. -/
def nullifierNodeMessage (left right : Uint256) : List UInt8 :=
  Writer.counted (tagBytes "BTX_SMILE_ACCOUNT_NULLIFIER_NODE_V1") ++ uint256Bytes left ++
    uint256Bytes right

section Commitment

variable (sha : List UInt8 → Uint256)

/-- The leaves of the tree. -/
def nullifierLeaves (nullifiers : List Uint256) : List Uint256 :=
  (sortedNullifiers nullifiers).map fun n => sha (nullifierLeafMessage n)

/-- `HashTaggedPair` with the node tag. -/
def nullifierNode (left right : Uint256) : Uint256 := sha (nullifierNodeMessage left right)

/-- `ComputeNullifierSetCommitment`; `ComputeMerkleRoot` is never called without leaves. -/
def computeNullifierSetCommitment (nullifiers : List Uint256) : Uint256 :=
  if nullifiers = [] then sha emptySetMessage
  else if 0 ∈ nullifiers then 0
  else DuplicateLast.root (nullifierNode sha) 0 (nullifierLeaves sha nullifiers)

/-- Everything that is hashed for two lists of nullifiers. -/
def nullifierMessages (l l' : List Uint256) : List (List UInt8) :=
  emptySetMessage ::
    (sortedNullifiers l ++ sortedNullifiers l').map nullifierLeafMessage ++
    (DuplicateLast.treePairs (nullifierNode sha) (nullifierLeaves sha l) ++
      DuplicateLast.treePairs (nullifierNode sha) (nullifierLeaves sha l')).map
        fun p => nullifierNodeMessage p.1 p.2

/-- The hash has no collision among them. -/
def NullifierNoCollision (l l' : List Uint256) : Prop :=
  ∀ m ∈ nullifierMessages sha l l', ∀ m' ∈ nullifierMessages sha l l', sha m = sha m' → m = m'

instance decidableNullifierNoCollision (l l' : List Uint256) :
    Decidable (NullifierNoCollision sha l l') :=
  inferInstanceAs (Decidable (∀ m ∈ nullifierMessages sha l l',
    ∀ m' ∈ nullifierMessages sha l l', sha m = sha m' → m = m'))

end Commitment

theorem mem_sortedNullifiers {l : List Uint256} {x : Uint256} : x ∈ sortedNullifiers l ↔ x ∈ l :=
  mem_sortUnique

theorem nodup_sortedNullifiers (l : List Uint256) : (sortedNullifiers l).Nodup := nodup_sortUnique l

theorem sortedNullifiers_eq_iff {l l' : List Uint256} :
    sortedNullifiers l = sortedNullifiers l' ↔ ∀ x, x ∈ l ↔ x ∈ l' := sortUnique_eq_iff

/-! ## Messages -/

theorem nullifierLeafMessage_length (n : Uint256) : (nullifierLeafMessage n).length = 68 := by
  have htag : (Writer.counted (tagBytes "BTX_SMILE_ACCOUNT_NULLIFIER_LEAF_V1")).length = 36 := by
    decide +kernel
  rw [nullifierLeafMessage, length_append, htag, uint256Bytes_length]

theorem nullifierNodeMessage_length (a b : Uint256) : (nullifierNodeMessage a b).length = 100 := by
  have htag : (Writer.counted (tagBytes "BTX_SMILE_ACCOUNT_NULLIFIER_NODE_V1")).length = 36 := by
    decide +kernel
  rw [nullifierNodeMessage, length_append, length_append, htag, uint256Bytes_length,
    uint256Bytes_length]

theorem emptySetMessage_length : emptySetMessage.length = 36 := by decide +kernel

theorem nullifierLeafMessage_injective {n n' : Uint256}
    (h : nullifierLeafMessage n = nullifierLeafMessage n') : n = n' :=
  uint256Bytes_injective (append_cancel_left h)

theorem nullifierNodeMessage_injective {p q : Uint256 × Uint256}
    (h : nullifierNodeMessage p.1 p.2 = nullifierNodeMessage q.1 q.2) : p = q := by
  rw [nullifierNodeMessage, nullifierNodeMessage, append_assoc, append_assoc] at h
  obtain ⟨hleft, hright⟩ := append_inj (append_cancel_left h) (by simp)
  exact Prod.ext (uint256Bytes_injective hleft) (uint256Bytes_injective hright)

/-! ## The commitment -/

section Results

variable {sha : List UInt8 → Uint256} {l l' : List Uint256}

theorem computeNullifierSetCommitment_of_ne_nil (hne : l ≠ []) (hnull : 0 ∉ l) :
    computeNullifierSetCommitment sha l =
      DuplicateLast.root (nullifierNode sha) 0 (nullifierLeaves sha l) := by
  rw [computeNullifierSetCommitment, if_neg hne, if_neg hnull]

theorem nullifierLeaves_ne_nil (hne : l ≠ []) : nullifierLeaves sha l ≠ [] := by
  obtain ⟨x, hx⟩ := exists_mem_of_ne_nil l hne
  exact ne_nil_of_mem (mem_map.2 ⟨x, mem_sortedNullifiers.2 hx, rfl⟩)

theorem leafMessage_mem {n : Uint256} (hn : n ∈ sortedNullifiers l ++ sortedNullifiers l') :
    nullifierLeafMessage n ∈ nullifierMessages sha l l' :=
  mem_append_left _ (mem_cons_of_mem _ (mem_map.2 ⟨n, hn, rfl⟩))

theorem nodeMessage_mem {p : Uint256 × Uint256}
    (hp : p ∈ DuplicateLast.treePairs (nullifierNode sha) (nullifierLeaves sha l) ∨
      p ∈ DuplicateLast.treePairs (nullifierNode sha) (nullifierLeaves sha l')) :
    nullifierNodeMessage p.1 p.2 ∈ nullifierMessages sha l l' :=
  mem_append_right _ (mem_map.2 ⟨p, mem_append.2 hp, rfl⟩)

section

variable (h : NullifierNoCollision sha l l')

include h

theorem NullifierNoCollision.leaf_injective {n n' : Uint256}
    (hn : n ∈ sortedNullifiers l ++ sortedNullifiers l')
    (hn' : n' ∈ sortedNullifiers l ++ sortedNullifiers l')
    (heq : sha (nullifierLeafMessage n) = sha (nullifierLeafMessage n')) : n = n' :=
  nullifierLeafMessage_injective (h _ (leafMessage_mem hn) _ (leafMessage_mem hn') heq)

theorem NullifierNoCollision.separated :
    DuplicateLast.Separated (nullifierNode sha) (nullifierLeaves sha l)
      (nullifierLeaves sha l') := by
  -- a leaf and a node message have different lengths
  have hdisjoint {p n} (hp : p ∈ DuplicateLast.treePairs (nullifierNode sha) (nullifierLeaves sha l)
      ∨ p ∈ DuplicateLast.treePairs (nullifierNode sha) (nullifierLeaves sha l'))
      (hn : n ∈ sortedNullifiers l ++ sortedNullifiers l') :
      sha (nullifierLeafMessage n) ≠ nullifierNode sha p.1 p.2 := by
    intro heq
    have hlen := congrArg List.length (h _ (leafMessage_mem hn) _ (nodeMessage_mem hp) heq)
    rw [nullifierLeafMessage_length, nullifierNodeMessage_length] at hlen
    omega
  refine ⟨?_, ?_, ?_, fun p hp => ⟨fun hmem => ?_, fun hmem => ?_⟩⟩
  · exact (nodup_sortedNullifiers l).map_on fun n hn n' hn' =>
      h.leaf_injective (mem_append_left _ hn) (mem_append_left _ hn')
  · exact (nodup_sortedNullifiers l').map_on fun n hn n' hn' =>
      h.leaf_injective (mem_append_right _ hn) (mem_append_right _ hn')
  · intro p hp q hq heq
    exact nullifierNodeMessage_injective (h _ (nodeMessage_mem hp) _ (nodeMessage_mem hq) heq)
  · obtain ⟨n, hn, heq⟩ := mem_map.1 hmem
    exact hdisjoint hp (mem_append_left _ hn) heq
  · obtain ⟨n, hn, heq⟩ := mem_map.1 hmem
    exact hdisjoint hp (mem_append_right _ hn) heq

theorem NullifierNoCollision.root_ne_empty (hne : l ≠ []) :
    sha emptySetMessage ≠ DuplicateLast.root (nullifierNode sha) 0 (nullifierLeaves sha l) := by
  intro heq
  have hempty : emptySetMessage ∈ nullifierMessages sha l l' :=
    mem_append_left _ mem_cons_self
  rcases DuplicateLast.isNode_root (nullifierLeaves_ne_nil hne) with hmem | ⟨p, hp, hroot⟩
  · obtain ⟨n, hn, hleaf⟩ := mem_map.1 hmem
    have hlen := congrArg List.length
      (h _ hempty _ (leafMessage_mem (mem_append_left _ hn)) (heq.trans hleaf.symm))
    rw [emptySetMessage_length, nullifierLeafMessage_length] at hlen
    omega
  · have hlen := congrArg List.length
      (h _ hempty _ (nodeMessage_mem (.inl hp)) (heq.trans hroot.symm))
    rw [emptySetMessage_length, nullifierNodeMessage_length] at hlen
    omega

theorem NullifierNoCollision.symm : NullifierNoCollision sha l' l := by
  have hmem {m} (hm : m ∈ nullifierMessages sha l' l) : m ∈ nullifierMessages sha l l' := by
    simp only [nullifierMessages, mem_append, mem_cons, mem_map] at hm ⊢
    grind
  exact fun m hm m' hm' => h m (hmem hm) m' (hmem hm')

end

theorem computeNullifierSetCommitment_congr (h : ∀ x, x ∈ l ↔ x ∈ l') :
    computeNullifierSetCommitment sha l = computeNullifierSetCommitment sha l' := by
  have hnil : l = [] ↔ l' = [] := by
    simp only [eq_nil_iff_forall_not_mem, h]
  unfold computeNullifierSetCommitment nullifierLeaves
  rw [sortedNullifiers_eq_iff.2 h]
  simp only [hnil, h]

theorem mem_iff_of_commitment_eq (hnull : 0 ∉ l) (hnull' : 0 ∉ l')
    (hcr : NullifierNoCollision sha l l')
    (h : computeNullifierSetCommitment sha l = computeNullifierSetCommitment sha l') (x : Uint256) :
    x ∈ l ↔ x ∈ l' := by
  by_cases hl : l = []
  · by_cases hl' : l' = []
    · rw [hl, hl']
    · refine absurd ?_ (hcr.symm.root_ne_empty hl')
      rw [← computeNullifierSetCommitment_of_ne_nil hl' hnull', ← h, hl]
      rfl
  · by_cases hl' : l' = []
    · refine absurd ?_ (hcr.root_ne_empty hl)
      rw [← computeNullifierSetCommitment_of_ne_nil hl hnull, h, hl']
      rfl
    · rw [computeNullifierSetCommitment_of_ne_nil hl hnull,
        computeNullifierSetCommitment_of_ne_nil hl' hnull'] at h
      have hleaves := DuplicateLast.eq_of_root_eq hcr.separated (nullifierLeaves_ne_nil hl)
        (nullifierLeaves_ne_nil hl') h
      refine sortedNullifiers_eq_iff.1 ?_ x
      exact DuplicateLast.eq_of_map_eq (fun n hn n' hn' => hcr.leaf_injective
        (mem_append_left _ hn) (mem_append_right _ hn')) hleaves

end Results

/-- **The commitment is the set of nullifiers.** It does not depend on order and repetitions. A list
with a null nullifier has the null commitment. And proper nullifiers, of which no hash collides,
have the same commitment only if they are the same set. -/
theorem computeNullifierSetCommitment_iff (sha : List UInt8 → Uint256) (l l' : List Uint256) :
    ((∀ x, x ∈ l ↔ x ∈ l') →
      computeNullifierSetCommitment sha l = computeNullifierSetCommitment sha l') ∧
    (0 ∈ l → computeNullifierSetCommitment sha l = 0) ∧
    (0 ∉ l → 0 ∉ l' → NullifierNoCollision sha l l' →
      computeNullifierSetCommitment sha l = computeNullifierSetCommitment sha l' →
        ∀ x, x ∈ l ↔ x ∈ l') := by
  refine ⟨computeNullifierSetCommitment_congr, fun hnull => ?_, mem_iff_of_commitment_eq⟩
  rw [computeNullifierSetCommitment, if_neg (ne_nil_of_mem hnull), if_pos hnull]

/-- A hash that reads its input as a number. -/
def sampleNullifierHash (bytes : List UInt8) : Uint256 :=
  BitVec.ofNat 256 (bytes.foldl (fun n b => 263 * n + b.toNat + 1) 0)

/-- The three nullifiers 1, 2, 3 in another order and with a repetition have the same commitment,
and no nullifier can be added to the first two. -/
theorem computeNullifierSetCommitment_iff_sample :
    computeNullifierSetCommitment sampleNullifierHash [3, 1, 2, 3] =
        computeNullifierSetCommitment sampleNullifierHash [1, 2, 3] ∧
      computeNullifierSetCommitment sampleNullifierHash [1, 2] ≠
        computeNullifierSetCommitment sampleNullifierHash [1, 2, 3] := by
  refine ⟨(computeNullifierSetCommitment_iff sampleNullifierHash _ _).1 (by simp), fun h => ?_⟩
  have hsame := (computeNullifierSetCommitment_iff sampleNullifierHash [1, 2] [1, 2, 3]).2.2
    (by decide) (by decide) (by decide +kernel) h 3
  simp at hsame

/-- A null nullifier hides the others: two different sets have one commitment, though no hash
collides. -/
theorem null_nullifier_hides :
    ((1 : Uint256) ∉ [(0 : Uint256)] ∧ (1 : Uint256) ∈ [(0 : Uint256), 1]) ∧
      NullifierNoCollision sampleNullifierHash [0] [0, 1] ∧
      computeNullifierSetCommitment sampleNullifierHash [0] =
        computeNullifierSetCommitment sampleNullifierHash [0, 1] :=
  ⟨by decide, by decide +kernel, rfl⟩

end Btx.Shielded
