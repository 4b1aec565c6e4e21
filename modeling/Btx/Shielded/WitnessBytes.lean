/-
# Witnesses in bytes

`ShieldedMerkleWitness::Serialize` (`src/shielded/merkle_tree.h`), the format of a wallet's
witnesses and of the membership proof of a recovery exit. What is written is read back, but for a
depth without a cursor, which nothing reads.
-/

import Btx.Primitives.Serialize
import Btx.Shielded.MerkleUpdate

namespace Btx.Shielded

open Util PerfectTree Codec List

/-- `SerializeOptHash`. -/
def optHashBytes : Option Uint256 → List UInt8
  | none => [0]
  | some h => 1 :: uint256Bytes h

/-- `ShieldedMerkleTree::Serialize`. -/
def frontierBytes (t : MerkleFrontier) : List UInt8 :=
  Writer.littleEndian 8 t.size ++ optHashBytes t.left ++ optHashBytes t.right ++
    Writer.compactSize t.parents.length ++ t.parents.flatMap optHashBytes

/-- The cursor part of `ShieldedMerkleWitness::Serialize`. -/
def cursorBytes (cursorDepth : ℕ) : Option MerkleFrontier → List UInt8
  | none => [0]
  | some cursor => 1 :: (frontierBytes cursor ++ Writer.compactSize cursorDepth)

/-- `ShieldedMerkleWitness::Serialize`. -/
def witnessBytes (w : ShieldedMerkleWitness) : List UInt8 :=
  frontierBytes w.tree ++ Writer.compactSize w.filled.length ++ w.filled.flatMap uint256Bytes ++
    cursorBytes w.cursorDepth w.cursor

theorem reads_hash (h : Uint256) : Reads readHash (uint256Bytes h) h := by
  intro rest
  refine (Reader.run_bind (Reader.many_byte_of_length (uint256Bytes_length h) rest)).trans ?_
  exact congrArg (fun h => some (h, rest)) (uint256OfBytes_uint256Bytes h)

theorem reads_optHash (h : Option Uint256) : Reads readOptHash (optHashBytes h) h := by
  cases h with
  | none => exact (reads_byte 0).bind (reads_pure none)
  | some h => exact (reads_byte 1).bind ((reads_hash h).last (reads_pure (some h)))

/-- The bounds that the decoder checks. -/
structure MerkleFrontier.Fits (t : MerkleFrontier) : Prop where
  size : t.size ≤ merkleMaxLeaves
  parents : t.parents.length ≤ merkleDepth

theorem MerkleFrontier.Fits.reads {t : MerkleFrontier} (h : t.Fits) :
    Reads readFrontier (frontierBytes t) t := by
  rw [frontierBytes, append_assoc, append_assoc, append_assoc]
  refine Reads.bind (read_littleEndian (h.size.trans_lt (by decide))) (.ensure h.size ?_)
  refine (reads_optHash t.left).bind ((reads_optHash t.right).bind ?_)
  refine (reads_compactSize (h.parents.trans_lt (by decide))).bind (.ensure h.parents ?_)
  exact (Reads.many reads_optHash t.parents).last (reads_pure t)

/-- The witness that is read back: a depth without a cursor is not written. -/
def ShieldedMerkleWitness.stored (w : ShieldedMerkleWitness) : ShieldedMerkleWitness :=
  { w with cursorDepth := if w.cursor.isSome then w.cursorDepth else 0 }

theorem reads_witness {w : ShieldedMerkleWitness} (htree : w.tree.Fits)
    (hfilled : w.filled.length ≤ merkleDepth)
    (hcursor : ∀ c ∈ w.cursor, c.Fits ∧ w.cursorDepth ≤ merkleDepth) :
    Reads readWitness (witnessBytes w) w.stored := by
  obtain ⟨tree, filled, cursor, cursorDepth⟩ := w
  have hread : Reads readCursor (cursorBytes cursorDepth cursor)
      (cursor, if cursor.isSome then cursorDepth else 0) := by
    cases cursor with
    | none => exact (reads_byte 0).last (.ensure (by decide) (reads_pure _))
    | some c =>
      obtain ⟨hc, hdepth⟩ := hcursor c rfl
      refine (reads_byte 1).bind (.ensure (by decide) (hc.reads.bind ?_))
      exact (reads_compactSize (hdepth.trans_lt (by decide))).last (.ensure hdepth (reads_pure _))
  rw [witnessBytes, append_assoc, append_assoc]
  refine htree.reads.bind ?_
  refine (reads_compactSize (hfilled.trans_lt (by decide))).bind (.ensure hfilled ?_)
  exact (Reads.many reads_hash filled).bind (hread.last (reads_pure _))

section Stored

variable {H : MerkleHash} {cs : List Uint256} {p : ℕ} {w : ShieldedMerkleWitness}

theorem length_filledOf_le (leaves : ℕ → Uint256) (n l d q : ℕ) :
    (filledOf H leaves n l d q).length ≤ l := by
  induction l generalizing d q with
  | zero => rfl
  | succ l ih =>
    rw [filledOf]
    split_ifs
    · exact (ih _ _).trans (Nat.le_succ l)
    · exact Nat.succ_le_succ (ih _ _)
    · exact zero_le

theorem fits_of_represents {leaves : ℕ → Uint256} {t : MerkleFrontier}
    (ht : Represents H leaves p t) (hp : p < merkleMaxLeaves) : t.Fits where
  size := ht.size.trans_le hp
  parents := (ht.length_parents_le hp).trans (by decide)

theorem Tracks.cursor_fits (h : Tracks H cs p w) (hlen : cs.length ≤ merkleMaxLeaves) :
    ∀ c ∈ w.cursor, c.Fits ∧ w.cursorDepth ≤ merkleDepth := by
  intro c hc
  have hcursor := h.cursor
  rw [Option.mem_def.1 hc] at hcursor
  cases hslot : openSlot cs.length merkleDepth 0 p with
  | none =>
    rw [hslot] at hcursor
    cases hcursor
  | some slot =>
    obtain ⟨hstart, -, hdepth⟩ := openSlot_bounds h.succ_le hslot
    rw [hslot, CursorAt] at hcursor
    split_ifs at hcursor with hstarts
    obtain ⟨hc, hd⟩ := hcursor
    have hcount : 0 < (cs.drop ((slot.2 + 1) * 2 ^ slot.1)).length := by
      rw [length_drop]
      omega
    have hrep := represents_frontierOf (H := H) _ (length_pos_iff.1 hcount)
    rw [← Option.some.inj hc] at hrep
    refine ⟨fits_of_represents hrep ?_, by omega⟩
    rw [length_drop] at hcount ⊢
    omega

/-- A witness that is written and read back is at the same place of the tree. -/
theorem Tracks.read_back (h : Tracks H cs p w) (hlen : cs.length ≤ merkleMaxLeaves) :
    Tracks H cs p w.stored ∧ readWitness (witnessBytes w) = some (w.stored, []) := by
  constructor
  · refine ⟨h.lt, h.tree, h.filled, ?_⟩
    change CursorAt H cs w.cursor (if w.cursor.isSome then w.cursorDepth else 0) _
    have hcursor := h.cursor
    cases hw : w.cursor with
    | some c => rwa [hw] at hcursor
    | none =>
      -- no case of `CursorAt` without a cursor looks at the depth
      rw [hw] at hcursor
      cases hslot : openSlot cs.length merkleDepth 0 p with
      | none => rfl
      | some slot =>
        rw [hslot, CursorAt] at hcursor
        split_ifs at hcursor with hend
        · rw [CursorAt, if_pos hend]
        · cases hcursor.1
  · have hfilled : w.filled.length ≤ merkleDepth := by
      rw [h.filled]
      exact length_filledOf_le ..
    have hread := reads_witness (fits_of_represents h.tree (h.lt.trans_le hlen)) hfilled
      (h.cursor_fits hlen) []
    rwa [append_nil] at hread

end Stored

namespace ShieldedMerkleTree

variable {H : MerkleHash}

/-- **A stored witness goes on, and proves membership.** A leaf is appended and its witness follows
the tree; it is written, read back, and follows the tree further. Its bytes are then a membership
proof that `VerifyRecoveryExitMembership` accepts against the root of the tree. -/
theorem stored_witness_proves_membership {t t₁ t₂ t₃ : ShieldedMerkleTree H} {leaf : Uint256}
    {leaves more : List Uint256} (happend : t.append leaf = .ok t₁)
    (hleaves : t₁.appendAll leaves = .ok t₂) (hmore : t₂.appendAll more = .ok t₃) :
    ∃ w₁ w₂ w₂' w₃, ShieldedMerkleWitness.ofTree t₁.frontier = .ok w₁ ∧
      w₁.updateAll H leaves = .ok w₂ ∧ readWitness (witnessBytes w₂) = some (w₂', []) ∧
      w₂'.updateAll H more = .ok w₃ ∧ ∃ root, t₃.frontier.root H = .ok root ∧
        (¬root.IsNull →
          verifyRecoveryExitMembership H (witnessBytes w₃) leaf root = .ok (.ok ())) := by
  have hcs₁ := append_commitments happend
  have hlen₁ := append_length happend
  have hcs₂ := appendAll_commitments hleaves
  have hlen₂ := appendAll_length hlen₁ hleaves
  have hcs₃ := appendAll_commitments hmore
  have hlen₃ := appendAll_length hlen₂ hmore
  obtain ⟨w₁, hw₁, h₁⟩ := tracks_ofTree (H := H) t.commitments leaf
  rw [← hcs₁] at hw₁ h₁
  obtain ⟨w₂, hw₂, h₂⟩ := ShieldedMerkleWitness.tracks_updateAll h₁ leaves
    (by rwa [← length_append, ← hcs₂])
  rw [← hcs₂] at h₂
  obtain ⟨hstored, hread⟩ := h₂.read_back hlen₂
  obtain ⟨w₃, hw₃, h₃⟩ := ShieldedMerkleWitness.tracks_updateAll hstored more
    (by rwa [← length_append, ← hcs₃])
  rw [← hcs₃] at h₃
  refine ⟨w₁, w₂, _, w₃, t₁.built.frontier_eq ▸ hw₁, hw₂, hread, hw₃, paddedRoot H t₃.commitments,
    t₃.built.frontier_eq ▸ root_frontierOf _ hlen₃, fun hnull => ?_⟩
  obtain ⟨h₃', hread₃⟩ := h₃.read_back hlen₃
  have hleaf : paddedLeaves H t₃.commitments t.commitments.length = leaf := by
    simp [hcs₃, hcs₂, hcs₁, pad]
  have hverify := ShieldedMerkleWitness.verifyWord_of_verify
    ((readWitness_size hread₃).trans_lt (by decide)) (h₃'.verify_eq hlen₃)
  rw [hleaf] at hverify
  rw [verifyRecoveryExitMembership, if_neg hnull, hread₃]
  dsimp only
  rw [hverify]
  rfl

/-- The first leaf of a tree: its witness is stored after one more leaf, and used after another. -/
theorem stored_witness_of_first_leaf :
    let t₁ := okValue ((empty : ShieldedMerkleTree sumHash).append 5) (by decide)
    let t₂ := okValue (t₁.appendAll [6]) (by decide)
    let t₃ := okValue (t₂.appendAll [7]) (by decide)
    ∃ proof root, t₃.frontier.root sumHash = .ok root ∧
      verifyRecoveryExitMembership sumHash proof 5 root = .ok (.ok ()) := by
  intro t₁ t₂ t₃
  obtain ⟨_, _, _, w, -, -, -, -, root, hroot, hproof⟩ :=
    stored_witness_proves_membership (show empty.append 5 = .ok t₁ from eq_ok_okValue (by decide))
      (show t₁.appendAll [6] = .ok t₂ from eq_ok_okValue (by decide))
      (show t₂.appendAll [7] = .ok t₃ from eq_ok_okValue (by decide))
  refine ⟨witnessBytes w, root, hroot, hproof ?_⟩
  rintro rfl
  exact absurd hroot (by decide)

end ShieldedMerkleTree

end Btx.Shielded
