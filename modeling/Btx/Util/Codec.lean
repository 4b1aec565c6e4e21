/-
# Numbers and their bytes

The two halves of `serialize.h` against each other: reading the bytes of a number gives the
number back, writing the number read gives its bytes back, and a counted byte string tells
where it ends. Records are read back field by field (`Reads`).
-/

import Btx.Util.Reader
import Btx.Util.Writer

namespace Btx.Util.Codec

open List

/-! ## Numbers of a fixed width -/

theorem ofLittleEndian_littleEndian (width n : ℕ) :
    Reader.ofLittleEndian (Writer.littleEndian width n) = n % 256 ^ width := by
  induction width generalizing n with
  | zero => rw [pow_zero, Nat.mod_one]; rfl
  | succ width ih =>
    rw [Writer.littleEndian, Reader.ofLittleEndian, ih, pow_succ', Nat.mod_mul]
    simp

theorem read_littleEndian {n width : ℕ} (hn : n < 256 ^ width) (rest : List UInt8) :
    Reader.littleEndian width (Writer.littleEndian width n ++ rest) = some (n, rest) := by
  refine (Reader.run_bind
    (Reader.many_byte_of_length (Writer.littleEndian_length width n) rest)).trans ?_
  rw [ofLittleEndian_littleEndian, Nat.mod_eq_of_lt hn]
  rfl

theorem ofBigEndian_eq (bs : List UInt8) :
    Reader.ofBigEndian bs = Reader.ofLittleEndian bs.reverse := by
  have hrev (l : List UInt8) :
      Reader.ofLittleEndian l = l.foldr (fun b n => 256 * n + b.toNat) 0 := by
    induction l with
    | nil => rfl
    | cons b l ih => rw [Reader.ofLittleEndian, foldr_cons, ih, add_comm]
  rw [hrev, foldr_reverse]
  rfl

theorem ofBigEndian_bigEndian (width n : ℕ) :
    Reader.ofBigEndian (Writer.bigEndian width n) = n % 256 ^ width := by
  rw [ofBigEndian_eq, Writer.bigEndian, reverse_reverse, ofLittleEndian_littleEndian]

/-! ## Counted byte strings -/

theorem length_compactSize_eq {m n : ℕ} {s t : List UInt8}
    (h : Writer.compactSize m ++ s = Writer.compactSize n ++ t) :
    (Writer.compactSize m).length = (Writer.compactSize n).length := by
  have hsmall {k : ℕ} (hk : k < 253) (b : UInt8) (hb : 253 ≤ b.toNat) :
      UInt8.ofNat (k % 256) ≠ b := by
    rintro rfl
    simp at hb
    omega
  unfold Writer.compactSize at h ⊢
  split_ifs at h ⊢ <;> simp only [Writer.littleEndian, cons_append, List.cons.injEq] at h <;>
    first
      | rfl
      | exact absurd h.1 (hsmall ‹_› _ (by decide))
      | exact absurd h.1.symm (hsmall ‹_› _ (by decide))
      | exact absurd h.1 (by decide)

theorem counted_injective {a b : List UInt8} (h : Writer.counted a = Writer.counted b) : a = b :=
  (append_inj h (length_compactSize_eq h)).2

/-! ## Reading back what was written -/

variable {α β : Type}

/-- `r` reads `a` off `bytes`, whatever follows them. -/
def Reads (r : Reader α) (bytes : List UInt8) (a : α) : Prop :=
  ∀ rest, r (bytes ++ rest) = some (a, rest)

theorem reads_pure (a : α) : Reads (pure a) [] a := fun _ => rfl

theorem reads_byte (b : UInt8) : Reads Reader.byte [b] b := fun _ => rfl

theorem Reads.bind {x : Reader α} {f : α → Reader β} {s t : List UInt8} {a : α} {b : β}
    (hx : Reads x s a) (hf : Reads (f a) t b) : Reads (x >>= f) (s ++ t) b := by
  intro rest
  rw [append_assoc]
  exact (Reader.run_bind (hx _)).trans (hf rest)

/-- After the last value of a record nothing more is read. -/
theorem Reads.last {x : Reader α} {f : α → Reader β} {s : List UInt8} {a : α} {b : β}
    (hx : Reads x s a) (hf : Reads (f a) [] b) : Reads (x >>= f) s b :=
  fun rest => (Reader.run_bind (hx rest)).trans (hf rest)

/-- A check reads nothing. -/
theorem Reads.ensure {p : Prop} [Decidable p] {f : Unit → Reader β} {t : List UInt8} {b : β}
    (hp : p) (hf : Reads (f ()) t b) : Reads (Reader.ensure p >>= f) t b :=
  fun rest => (Reader.run_bind (if_pos hp)).trans (hf rest)

theorem Reads.many {r : Reader α} {bytes : α → List UInt8} (h : ∀ a, Reads r (bytes a) a)
    (as : List α) : Reads (Reader.many r as.length) (as.flatMap bytes) as := by
  induction as with
  | nil => exact reads_pure []
  | cons a as ih => exact (h a).bind (ih.last (reads_pure (a :: as)))

/-- Sizes of one byte. -/
theorem reads_compactSize {n : ℕ} (h : n < 253) :
    Reads Reader.compactSize (Writer.compactSize n) n := by
  have hbyte : (UInt8.ofNat (n % 256)).toNat = n := by
    rw [UInt8.toNat_ofNat', Nat.mod_mod, Nat.mod_eq_of_lt (by omega)]
  have hmax : n ≤ Reader.maxSize := by
    rw [Reader.maxSize]
    omega
  rw [Writer.compactSize, if_pos h]
  refine (reads_byte _).last ?_
  rw [hbyte, if_pos h]
  exact (reads_pure n).bind (.ensure hmax (reads_pure n))

end Btx.Util.Codec
