/-
# Reading values off a byte stream

A decoder consumes a prefix of the bytes and fails on a short or malformed
input. `Reader` is that monad, with the integer encodings of
`src/serialize.h`: fixed-width little-endian numbers and the variable-length
`CompactSize`, which must be minimal and at most `MAX_SIZE`.
-/

import Mathlib.Data.List.Basic

namespace Btx.Util

/-- A decoder: the value read and the bytes left, or nothing. -/
abbrev Reader (α : Type) := StateT (List UInt8) Option α

namespace Reader

variable {α β : Type}

variable {x : Reader α} {f : α → Reader β} {s t : List UInt8} {n : ℕ}

theorem bind_eq_some {b : β} :
    (x >>= f) s = some (b, t) ↔ ∃ a r, x s = some (a, r) ∧ f a r = some (b, t) := by
  change (x s).bind (fun p => f p.1 p.2) = some (b, t) ↔ _
  simp [Option.bind_eq_some_iff]

theorem pure_eq_some {a b : α} : (pure a : Reader α) s = some (b, t) ↔ a = b ∧ s = t := by
  change some (a, s) = some (b, t) ↔ _
  simp

/-- Go on only when `p` holds. -/
def ensure (p : Prop) [Decidable p] : Reader Unit := fun s => if p then some ((), s) else none

theorem ensure_eq_some {p : Prop} [Decidable p] {u : Unit} :
    ensure p s = some (u, t) ↔ p ∧ s = t := by
  unfold ensure
  split_ifs with h <;> simp [h]

/-- One byte. -/
def byte : Reader UInt8
  | [] => none
  | b :: bs => some (b, bs)

/-- `n` values in a row. -/
def many (r : Reader α) : ℕ → Reader (List α)
  | 0 => pure []
  | n + 1 => do
      let a ← r
      let as ← many r n
      pure (a :: as)

theorem many_length {r : Reader α} {as : List α}
    (h : many r n s = some (as, t)) : as.length = n := by
  induction n generalizing s t as with
  | zero =>
    obtain ⟨rfl, -⟩ := pure_eq_some.1 h
    rfl
  | succ n ih =>
    obtain ⟨a, s₁, -, h⟩ := bind_eq_some.1 h
    obtain ⟨as', s₂, has, h⟩ := bind_eq_some.1 h
    obtain ⟨rfl, -⟩ := pure_eq_some.1 h
    rw [List.length_cons, ih has]

theorem run_bind {a : α} {r : List UInt8} (h : x s = some (a, r)) : (x >>= f) s = f a r := by
  change (x s).bind (fun p => f p.1 p.2) = _
  rw [h, Option.bind_some]

theorem many_byte (bytes rest : List UInt8) :
    many byte bytes.length (bytes ++ rest) = some (bytes, rest) := by
  induction bytes with
  | nil => rfl
  | cons b bytes ih =>
    rw [List.length_cons, many]
    exact (run_bind rfl).trans ((run_bind ih).trans rfl)

theorem many_byte_of_length {bytes : List UInt8} (h : bytes.length = n) (rest : List UInt8) :
    many byte n (bytes ++ rest) = some (bytes, rest) := h ▸ many_byte bytes rest

theorem many_byte_eq_none {part : List UInt8} (h : part.length < n) : many byte n part = none := by
  induction n generalizing part with
  | zero => omega
  | succ n ih =>
    cases part with
    | nil => rfl
    | cons b part =>
      rw [List.length_cons] at h
      have hrest : many byte n part = none := ih (by omega)
      change (many byte n part).bind _ = none
      rw [hrest]
      rfl

/-- The number whose little-endian bytes these are. -/
def ofLittleEndian : List UInt8 → ℕ
  | [] => 0
  | b :: bs => b.toNat + 256 * ofLittleEndian bs

/-- The number whose big-endian bytes these are. -/
def ofBigEndian (bs : List UInt8) : ℕ := bs.foldl (fun n b => 256 * n + b.toNat) 0

/-- A little-endian number of `n` bytes. -/
def littleEndian (n : ℕ) : Reader ℕ := do
  let bs ← many byte n
  pure (ofLittleEndian bs)

/-- `MAX_SIZE` of `src/serialize.h`. -/
def maxSize : ℕ := 0x02000000

/-- `ReadCompactSize` with its range check: the encoding must be the shortest. -/
def compactSize : Reader ℕ := do
  let chSize ← byte
  let n ←
    if chSize.toNat < 253 then pure chSize.toNat
    else if chSize.toNat = 253 then do
      let n ← littleEndian 2
      ensure (253 ≤ n)
      pure n
    else if chSize.toNat = 254 then do
      let n ← littleEndian 4
      ensure (0x10000 ≤ n)
      pure n
    else do
      let n ← littleEndian 8
      ensure (0x100000000 ≤ n)
      pure n
  ensure (n ≤ maxSize)
  pure n

end Reader
end Btx.Util
