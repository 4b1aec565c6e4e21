/-
# The bounded attestation store

`AttestationStore` (`src/matmul/trusted_exact_replay_attestation.cpp`): a bucket for each block, a
vote for each signer. A bucket with `threshold` votes is a quorum. Incomplete buckets give way
first, quorums only to the vote that completes another one. Where quorums fill the store, one
incomplete bucket may be staged beyond the limits (`Staged`).
-/

import Btx.Node.Attestation
import Btx.Util.Result

namespace Btx.Node

open Util

/-- `StoreConfig`, with the local signer by its public key. -/
structure StoreConfig (σ : Type) where
  chainId : Uint256
  replayAuthorityContext : Uint256
  trustedSigners : List σ
  threshold : ℕ := 1
  maxBlocks : ℕ := 4096
  maxAttestations : ℕ := 16384
  ttlMilliseconds : ℤ := 86400000
  localSigner : Option σ := none

/-- `AddResult`. -/
inductive AddResult
  | accepted
  | duplicate
  | capacity
  | unsupportedVersion
  | wrongChain
  | wrongBlock
  | wrongHeight
  | wrongMatMulContext
  | wrongReplayAuthorityContext
  | invalidSigner
  | untrustedSigner
  | invalidSignature
  | noLocalSigner
  | heightOccupied
  deriving DecidableEq

/-- `AttestationStore::ToAddResult`. -/
def toAddResult : VerifyResult → AddResult
  | .valid => .accepted
  | .unsupportedVersion => .unsupportedVersion
  | .wrongChain => .wrongChain
  | .wrongBlock => .wrongBlock
  | .wrongHeight => .wrongHeight
  | .wrongMatMulContext => .wrongMatMulContext
  | .wrongReplayAuthorityContext => .wrongReplayAuthorityContext
  | .invalidSigner => .invalidSigner
  | .untrustedSigner => .untrustedSigner
  | .invalidSignature => .invalidSignature

/-- `AttestationStore::BlockKey`: height, hash. -/
abbrev BlockKey := ℤ ×ₗ Uint256

def blockKey (height : ℤ) (hash : Uint256) : BlockKey := toLex (height, hash)

theorem blockKey_inj {height height' : ℤ} {hash hash' : Uint256} :
    blockKey height hash = blockKey height' hash' ↔ height = height' ∧ hash = hash' := by
  unfold blockKey
  rw [toLex_inj, Prod.mk.injEq]

/-- `AttestationStore::Bucket`. -/
structure Bucket (σ : Type) [LinearOrder σ] where
  updated : ℤ
  attestations : OrderedMap σ (ExactReplayAttestation σ)
  deriving DecidableEq

/-- `AttestationStore`, without its statistics. -/
structure AttestationStore (σ : Type) [LinearOrder σ] where
  config : StoreConfig σ
  buckets : OrderedMap BlockKey (Bucket σ) := .empty
  attestationCount : ℕ := 0
  durableRetention : Bool := false

variable {σ : Type} [LinearOrder σ]

/-- The loop of the constructor over the signers. -/
def checkSigners (curve : Curve σ) (seen : List σ) : List σ → Except String Unit
  | [] => pure ()
  | signer :: signers => do
      require (curve.isCanonicalSigner signer = true)
        "trusted ExactReplay signers must be valid compressed keys"
      require (signer ∉ seen) "trusted ExactReplay signer set contains a duplicate"
      checkSigners curve (signer :: seen) signers

/-- The checks of the constructor. -/
def StoreConfig.check (curve : Curve σ) (c : StoreConfig σ) : Except String Unit := do
  require (¬c.chainId.IsNull) "trusted ExactReplay chain identifier must be non-null"
  require (¬c.replayAuthorityContext.IsNull)
    "trusted ExactReplay replay authority context must be non-null"
  require (c.trustedSigners ≠ []) "trusted ExactReplay signer set must not be empty"
  checkSigners curve [] c.trustedSigners
  require (c.threshold ≠ 0 ∧ c.threshold ≤ c.trustedSigners.length)
    "trusted ExactReplay threshold must be between one and N"
  require (c.maxBlocks ≠ 0 ∧ c.threshold ≤ c.maxAttestations)
    "trusted ExactReplay store capacity is below quorum capacity"
  require (c.maxBlocks ≠ sizeMax ∧ c.threshold - 1 ≤ sizeMax - c.maxAttestations)
    "trusted ExactReplay store staging capacity overflows"
  require (0 < c.ttlMilliseconds) "trusted ExactReplay store TTL must be positive"
  require (∀ s ∈ c.localSigner, s ∈ c.trustedSigners)
    "local ExactReplay signer must be a configured compressed key"

namespace AttestationStore

variable (s : AttestationStore σ)

/-- The votes in a bucket. -/
def votes (key : BlockKey) : ℕ :=
  ((s.buckets.find? key).map fun b => b.attestations.size).getD 0

/-- `EraseLocked`, at a key with a bucket. -/
def eraseLocked (key : BlockKey) : AttestationStore σ :=
  { s with
    attestationCount := s.attestationCount - s.votes key
    buckets := s.buckets.erase key }

/-- A bucket past its time to live. -/
def expired (now : ℤ) (b : Bucket σ) : Bool :=
  !decide (now - b.updated < s.config.ttlMilliseconds * 1000000)

/-- `PruneExpiredLocked`. -/
def pruneExpiredLocked (now : ℤ) : AttestationStore σ :=
  if s.durableRetention then s
  else s.buckets.entries.foldl
    (fun s' e => if s.expired now e.2 then s'.eraseLocked e.1 else s') s

variable (incoming : BlockKey)

/-- `would_exceed_base_capacity`. -/
def wouldExceed : Prop :=
  s.config.maxBlocks < s.buckets.size + (if s.buckets.contains incoming then 0 else 1) ∨
    s.config.maxAttestations < s.attestationCount + 1

instance instDecidableWouldExceed : Decidable (s.wouldExceed incoming) :=
  inferInstanceAs (Decidable (_ ∨ _))

/-- `oldest_partial`. -/
def oldestPartial : Option (BlockKey × Bucket σ) :=
  s.buckets.oldest (fun k b => k ≠ incoming ∧ b.attestations.size < s.config.threshold)
    Bucket.updated

/-- `oldest_quorum`. -/
def oldestQuorum : Option (BlockKey × Bucket σ) :=
  s.buckets.oldest (fun k b => k ≠ incoming ∧ s.config.threshold ≤ b.attestations.size)
    Bucket.updated

/-- The last part of the loop: whether the incoming bucket may be staged. -/
def mayStage : Bool :=
  let new := if s.buckets.contains incoming then 0 else 1
  let partialBlocks := s.buckets.total
    (fun _ b => if b.attestations.size < s.config.threshold then 1 else 0) + new
  partialBlocks = 1 ∧ s.votes incoming + 1 < s.config.threshold ∧
    s.buckets.size + new ≤ s.config.maxBlocks + 1 ∧
    s.attestationCount + 1 ≤ s.config.maxAttestations + s.config.threshold - 1

theorem size_eraseLocked {s : AttestationStore σ} {key : BlockKey} {b : Bucket σ}
    (h : s.buckets.find? key = some b) :
    (s.eraseLocked key).buckets.size < s.buckets.size := by
  show (s.buckets.erase key).size < s.buckets.size
  rw [OrderedMap.size_eq_total, OrderedMap.size_eq_total, OrderedMap.total_eq_add_erase h]
  omega

/-- `MakeRoomLocked`. -/
def makeRoomLocked (s : AttestationStore σ) (incoming : BlockKey) (incomingReachesQuorum : Bool) :
    Bool × AttestationStore σ :=
  if s.wouldExceed incoming then
    match h : s.oldestPartial incoming with
    | some victim =>
        have := size_eraseLocked (OrderedMap.oldest_eq_some h).1
        makeRoomLocked (s.eraseLocked victim.1) incoming incomingReachesQuorum
    | none =>
        if incomingReachesQuorum then
          match h : s.oldestQuorum incoming with
          | some victim =>
              have := size_eraseLocked (OrderedMap.oldest_eq_some h).1
              makeRoomLocked (s.eraseLocked victim.1) incoming incomingReachesQuorum
          | none => (false, s)
        else (s.mayStage incoming, s)
  else (true, s)
termination_by s.buckets.size

/-- The bucket with one more vote. -/
def insertVote (key : BlockKey) (attestation : ExactReplayAttestation σ)
    (now : ℤ) : AttestationStore σ :=
  let votes := ((s.buckets.find? key).map Bucket.attestations).getD .empty
  { s with
    buckets := s.buckets.insert key ⟨now, votes.insert attestation.signer attestation⟩
    attestationCount := s.attestationCount + 1 }

/-- The attestation is in its bucket already. -/
def hasVote (key : BlockKey) (signer : σ) : Bool :=
  (s.buckets.find? key).any fun b => b.attestations.contains signer

/-- `Add`. -/
def add (curve : Curve σ) (s : AttestationStore σ) (attestation : ExactReplayAttestation σ)
    (expectedHash : Uint256) (expectedHeight : ℤ) (now : ℤ) : AddResult × AttestationStore σ :=
  let verified := verifyAttestation curve attestation s.config.chainId
    s.config.replayAuthorityContext expectedHash expectedHeight s.config.trustedSigners
  if verified ≠ .valid then (toAddResult verified, s)
  else
    let key := blockKey expectedHeight expectedHash
    let s := s.pruneExpiredLocked now
    if s.hasVote key attestation.signer then (.duplicate, s)
    else
      let existing := s.votes key
      let reaches := existing < s.config.threshold ∧ s.config.threshold ≤ existing + 1
      let room := s.makeRoomLocked key reaches
      if !room.1 then (.capacity, room.2)
      else (.accepted, room.2.insertVote key attestation now)

/-- `Erase`. -/
def erase (hash : Uint256) (height : ℤ) : AttestationStore σ :=
  if s.buckets.contains (blockKey height hash) then s.eraseLocked (blockKey height hash) else s

/-- `HasQuorum`. -/
def hasQuorum (hash : Uint256) (height : ℤ) : Bool :=
  (s.buckets.find? (blockKey height hash)).any fun b => s.config.threshold ≤ b.attestations.size

/-- `SetDurableRetention`. -/
def setDurableRetention (durable : Bool) : AttestationStore σ :=
  { s with durableRetention := durable }

end AttestationStore

end Btx.Node
