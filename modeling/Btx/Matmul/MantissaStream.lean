/-
# Expansions of the mantissa stream

`src/matmul/matmul_v4_bmx4.cpp` turns a keystream, a function from block numbers to 32 bytes, into
mantissas: every nibble, the low one first, is an FP4 (E2M1) code, and the first `count` codes of
integers are the output. They are written block by block, four or eight blocks at a time, after
collecting enough blocks, or in parallel after counting the values of each block.
-/

import Mathlib
import Btx.Util.Panels
import Btx.Util.Scatter
import Btx.Util.WhileLoop

namespace Btx.Matmul.BMX4

open Util

/-! ## Nibbles -/

/-- The value of a nibble, if its code is accepted (`MantissaTable`). -/
def mantissaTable (nib : ℕ) : Option Int8 :=
  let sign := nib / 8 % 2
  let exp := nib / 2 % 4
  let man := nib % 2
  let mag : Option Int8 := match exp with
    | 0 => if man = 0 then some 0 else none
    | 1 => if man = 0 then some 1 else none
    | 2 => some (if man = 0 then 2 else 3)
    | _ => some (if man = 0 then 4 else 6)
  match mag with
  | none => none
  | some mag => if sign = 1 ∧ mag = 0 then none else some (if sign = 1 then -mag else mag)

/-- Eleven of the sixteen codes are accepted. -/
example : ((List.range 16).filter fun nib => (mantissaTable nib).isNone) = [1, 3, 8, 9, 11] := by
  decide

/-- The accepted values of a byte, low nibble first (`MantissaByteTable`): `count` is their
number. -/
def mantissaByteTable (byte : UInt8) : List Int8 :=
  (mantissaTable (byte.toNat % 16)).toList ++ (mantissaTable (byte.toNat / 16)).toList

theorem length_mantissaByteTable_le (byte : UInt8) : (mantissaByteTable byte).length ≤ 2 := by
  have hle (o : Option Int8) : o.toList.length ≤ 1 := by cases o <;> simp
  rw [mantissaByteTable, List.length_append]
  have h₁ := hle (mantissaTable (byte.toNat % 16))
  have h₂ := hle (mantissaTable (byte.toNat / 16))
  omega

/-! ## The keystream -/

/-- What `XofBlock41` writes. -/
abbrev XofBlock := { bytes : List UInt8 // bytes.length = 32 }

/-- A keystream, by block number. -/
abbrev Keystream := UInt64 → XofBlock

variable (ks : Keystream)

/-- The bytes of a block; the number is that of a counter of 64 bits. -/
def xofBlock41 (block : ℕ) : List UInt8 := (ks (UInt64.ofNat block)).1

/-- The accepted values of a block. -/
def blockValues (block : ℕ) : List Int8 := (xofBlock41 ks block).flatMap mantissaByteTable

/-- The accepted values of the first `n` blocks, low nibble before high, byte after byte and block
after block. -/
def accepted (n : ℕ) : List Int8 := (List.range n).flatMap (blockValues ks)

/-! ## Writing in stream order -/

/-- The position in the output, and the output. -/
structure Filling where
  filled : ℕ
  out : List Int8

/-- The loop over the values of one byte, which stops when the output is full. -/
def putEntry (count : ℕ) : List Int8 → Filling → Filling
  | [], s => s
  | v :: values, s =>
    let s' : Filling := ⟨s.filled + 1, s.out.set s.filled v⟩
    if s'.filled = count then s' else putEntry count values s'

/-- The loop over the bytes of a block. -/
def putBlock (count : ℕ) : List UInt8 → Filling → Filling
  | [], s => s
  | byte :: bytes, s =>
    if s.filled < count then putBlock count bytes (putEntry count (mantissaByteTable byte) s) else s

/-- The loop over blocks. -/
def putBlocks (count : ℕ) : List (List UInt8) → Filling → Filling
  | [], s => s
  | block :: blocks, s =>
    if s.filled < count then putBlocks count blocks (putBlock count block s) else s

/-- The state of the loop of `ExpandMantissaStream`. -/
structure StreamState where
  block : ℕ
  filling : Filling

/-- How many blocks the machine hashes at once: one (`XofBlock41`), four (`XofBlock41x4Fast`) or
eight (`XofBlock41x8Fast`). -/
inductive XofLanes
  | one
  | four
  | eight
  deriving DecidableEq

def XofLanes.width : XofLanes → ℕ
  | one => 1
  | four => 4
  | eight => 8

/-- One round: consecutive blocks are hashed at once. -/
def streamRound (lanes : XofLanes) (count : ℕ) (s : StreamState) : StreamState :=
  { block := s.block + lanes.width
    filling := putBlocks count
      ((List.range lanes.width).map fun lane => xofBlock41 ks (s.block + lane)) s.filling }

/-- `ExpandMantissaStream`. -/
def expandMantissaStream (lanes : XofLanes) (count fuel : ℕ) (out : List Int8) :
    Option (List Int8) :=
  (whileLoop (fun s => s.filling.filled < count) (streamRound ks lanes count) fuel
    ⟨0, 0, out⟩).map fun s => s.filling.out

/-! ## Two passes -/

/-- The number of accepted values of a block. -/
def acceptCount (bytes : List UInt8) : ℕ :=
  (bytes.map fun byte => (mantissaByteTable byte).length).sum

/-- The state of the first pass. -/
structure PortableState where
  blocks : List (List UInt8)
  acceptedTotal : ℕ
  block : ℕ

def portableRound (s : PortableState) : PortableState :=
  let hash := xofBlock41 ks s.block
  { blocks := s.blocks ++ [hash]
    acceptedTotal := s.acceptedTotal + acceptCount hash
    block := s.block + 1 }

/-- `ExpandMantissaStreamPortable`. -/
def expandMantissaStreamPortable (count fuel : ℕ) (out : List Int8) : Option (List Int8) :=
  if count = 0 then some out
  else
    (whileLoop (fun s => s.acceptedTotal < count) (portableRound ks) fuel ⟨[], 0, 0⟩).map fun s =>
      (putBlocks count s.blocks ⟨0, out⟩).out

/-! ## Threads -/

/-- `ClampThreads`; the number of jobs is cut to 32 bits. -/
def clampThreads (threads jobs : ℕ) : ℕ :=
  if threads ≤ 1 ∨ jobs ≤ 1 then 1 else max 1 (min (min threads 64) (jobs % 2 ^ 32))

/-- Which jobs each thread of `ParallelForBlocks` has. -/
def blockWorkers (jobs threads : ℕ) : List (List ℕ) :=
  let threads := clampThreads threads jobs
  if threads ≤ 1 then [List.range jobs]
  else
    let chunk := (jobs + threads - 1) / threads
    (List.range threads).map fun t =>
      List.range' (t * chunk) (min jobs (t * chunk + chunk) - t * chunk)

/-- `ParallelForBlocks`: the output after its jobs, given what each job writes. -/
def parallelForBlocks {α : Type} (sched : Interleaving) (region jobs threads : ℕ)
    (writes : ℕ → List (ℕ × α)) (out : List α) : List α :=
  parallelFor sched region (blockWorkers jobs threads) writes out

/-- The same with `lanes` consecutive blocks in a job, the last job possibly smaller: a full job
hashes its blocks at once, the last one by one. -/
def parallelForLanes {α : Type} (sched : Interleaving) (region lanes jobs threads : ℕ)
    (writes : ℕ → List (ℕ × α)) (out : List α) : List α :=
  parallelForBlocks sched region ((jobs + lanes - 1) / lanes) threads
    (fun group => (List.range (min lanes (jobs - group * lanes))).flatMap fun lane =>
      writes (group * lanes + lane)) out

/-! ## Guesses -/

/-- `InitialMantissaBlockGuess`, with the product cut to 64 bits. -/
def initialMantissaBlockGuess (count : ℕ) : ℕ :=
  let expected := (count * 16 + (64 * 11 - 1)) % 2 ^ 64 / (64 * 11)
  expected + expected / 32 + 16

/-- `InitialParallelMantissaBlockGuess`: the environment may ask for half the guess. -/
def initialParallelMantissaBlockGuess (forceUndershoot : Bool) (count : ℕ) : ℕ :=
  let guess := initialMantissaBlockGuess count
  if forceUndershoot ∧ 1 < guess then max 1 (guess / 2) else guess

/-! ## In parallel -/

/-- The settings of a run: how many blocks the machine hashes at once, the two environment
variables, and the order in which the threads write. -/
structure ParallelSettings where
  lanes : XofLanes
  cacheHashes : Bool
  forceUndershoot : Bool
  sched : Interleaving

variable (settings : ParallelSettings)

/-- The blocks a job of the first pass hashes. Without the cache there is no job of eight. -/
def ParallelSettings.countLanes : ℕ :=
  if settings.cacheHashes ∨ settings.lanes = .four then settings.lanes.width else 1

/-- The blocks a job of the second pass writes. With the cache it is one. -/
def ParallelSettings.scatterLanes : ℕ :=
  if !settings.cacheHashes ∧ settings.lanes = .four then 4 else 1

/-- `resize` of a vector. -/
def resize {α : Type} (l : List α) (n : ℕ) (a : α) : List α :=
  l.take n ++ List.replicate (n - l.length) a

/-- The state of the first pass: the blocks kept so far (none if they are computed again), the
counts (`uint8_t`), their sum, the number of blocks wanted, and how many rounds there were. -/
structure ParallelState where
  hashes : List (List UInt8)
  acceptCounts : List ℕ
  acceptedTotal : ℕ
  wantBlocks : ℕ
  round : ℕ

/-- One round of the first pass: the new blocks are hashed and their values counted. -/
def parallelRound (threads count : ℕ) (s : ParallelState) : ParallelState :=
  let old := s.acceptCounts.length
  let jobs := s.wantBlocks - old
  let hashes := if settings.cacheHashes then
      parallelForLanes settings.sched (2 * s.round) settings.countLanes jobs threads
        (fun rel => [(old + rel, xofBlock41 ks (old + rel))]) (resize s.hashes s.wantBlocks [])
    else []
  let acceptCounts := parallelForLanes settings.sched (2 * s.round + 1) settings.countLanes jobs
    threads (fun rel => [(old + rel, acceptCount (xofBlock41 ks (old + rel)) % 2 ^ 8)])
    (resize s.acceptCounts s.wantBlocks 0)
  let acceptedTotal := acceptCounts.sum
  { hashes, acceptCounts, acceptedTotal
    wantBlocks := if acceptedTotal < count then
        s.wantBlocks + initialMantissaBlockGuess (count - acceptedTotal)
      else s.wantBlocks
    round := s.round + 1 }

/-- The sums of the counts before each. -/
def prefixSums : ℕ → List ℕ → List ℕ
  | _, [] => []
  | pos, c :: counts => pos :: prefixSums (pos + c) counts

/-- What the job of a block writes, from its position on. -/
def blockWrites (count : ℕ) : ℕ → List Int8 → List (ℕ × Int8)
  | _, [] => []
  | pos, v :: values => if count ≤ pos then [] else (pos, v) :: blockWrites count (pos + 1) values

/-- The second pass. -/
def scatterBlocks (threads count : ℕ) (s : ParallelState) (out : List Int8) : List Int8 :=
  let sums := prefixSums 0 s.acceptCounts
  let hash (b : ℕ) := if settings.cacheHashes then s.hashes.getD b [] else xofBlock41 ks b
  parallelForLanes settings.sched (2 * s.round) settings.scatterLanes s.acceptCounts.length threads
    (fun b => blockWrites count (sums.getD b 0) ((hash b).flatMap mantissaByteTable)) out

/-- `ExpandMantissaStreamParallel`. -/
def expandMantissaStreamParallel (threads count fuel : ℕ) (out : List Int8) : Option (List Int8) :=
  if count = 0 then some out
  else
    let threads := clampThreads threads (max 1 (count / 4096))
    if threads ≤ 1 ∨ count < 2 ^ 20 then expandMantissaStream ks settings.lanes count fuel out
    else
      (whileLoop (fun s => s.acceptedTotal < count) (parallelRound ks settings threads count) fuel
        ⟨[], [], 0, initialParallelMantissaBlockGuess settings.forceUndershoot count, 0⟩).map
          fun s =>
          scatterBlocks ks settings threads count s out

end Btx.Matmul.BMX4
