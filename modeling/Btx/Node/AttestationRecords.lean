/-
# Attestations on disk

A database with one record for each block (`src/node/matmul_trusted_attestations.cpp`), into which
batches are merged by signer. A start verifies it, loads the newest records that fit, and imports
the write-ahead log. The order in which the database is walked is a parameter: the list of its
records.
-/

import Btx.Node.AttestationCapacity

namespace Btx.Node

open Util

/-- `VerifyResultName`. -/
def verifyResultName : VerifyResult → String
  | .valid => "valid"
  | .unsupportedVersion => "unsupported-version"
  | .wrongChain => "wrong-chain"
  | .wrongBlock => "wrong-block"
  | .wrongHeight => "wrong-height"
  | .wrongMatMulContext => "wrong-matmul-context"
  | .wrongReplayAuthorityContext => "wrong-replay-authority-context"
  | .invalidSigner => "invalid-signer"
  | .untrustedSigner => "untrusted-signer"
  | .invalidSignature => "invalid-signature"

/-- `AddResultName`. -/
def addResultName : AddResult → String
  | .accepted => "accepted"
  | .duplicate => "duplicate"
  | .capacity => "capacity"
  | .unsupportedVersion => "unsupported-version"
  | .wrongChain => "wrong-chain"
  | .wrongBlock => "wrong-block"
  | .wrongHeight => "wrong-height"
  | .wrongMatMulContext => "wrong-matmul-context"
  | .wrongReplayAuthorityContext => "wrong-replay-authority-context"
  | .invalidSigner => "invalid-signer"
  | .untrustedSigner => "untrusted-signer"
  | .invalidSignature => "invalid-signature"
  | .noLocalSigner => "no-local-signer"
  | .heightOccupied => "height-occupied"

variable {σ : Type} [LinearOrder σ]

local instance lawfulBEq_signer : LawfulBEq σ := inferInstance

/-- The block of an attestation. -/
def ExactReplayAttestation.key (a : ExactReplayAttestation σ) : BlockKey :=
  blockKey a.statement.blockHeight a.statement.blockHash

/-- The attestation verifies for its own block under a configuration. -/
def ExactReplayAttestation.Valid (curve : Curve σ) (config : StoreConfig σ)
    (a : ExactReplayAttestation σ) : Prop :=
  verifyAttestation curve a config.chainId config.replayAuthorityContext a.statement.blockHash
    a.statement.blockHeight config.trustedSigners = .valid

instance instDecidableValid (curve : Curve σ) (config : StoreConfig σ)
    (a : ExactReplayAttestation σ) :
    Decidable (a.Valid curve config) :=
  inferInstanceAs (Decidable (_ = _))

/-- The database: the attestations of each block. -/
abbrev AttestationDb (σ : Type) := OrderedMap BlockKey (List (ExactReplayAttestation σ))

/-! ## Writing -/

/-- A record with one more attestation, unless its signer is there. -/
def addVote (record : List (ExactReplayAttestation σ)) (a : ExactReplayAttestation σ) :
    List (ExactReplayAttestation σ) :=
  if a.signer ∈ record.map ExactReplayAttestation.signer then record else record ++ [a]

variable (db : AttestationDb σ)

def writeVote (a : ExactReplayAttestation σ) : AttestationDb σ :=
  db.insert a.key (addVote ((db.find? a.key).getD []) a)

/-- `PersistDurableAttestations`: what the one write makes of the database. The source groups the
batch by block first; within a block the order is that of the batch. -/
def persistDurableAttestations (batch : List (ExactReplayAttestation σ)) : AttestationDb σ :=
  batch.foldl writeVote db

/-- The database has an attestation of the block by the signer. -/
def HasVote (key : BlockKey) (signer : σ) : Prop :=
  ∃ record, db.find? key = some record ∧ signer ∈ record.map ExactReplayAttestation.signer

instance instDecidableHasVote (key : BlockKey) (signer : σ) : Decidable (HasVote db key signer) :=
  decidable_of_iff (∃ record ∈ db.find? key, signer ∈ record.map ExactReplayAttestation.signer) (by
    simp [HasVote])

/-- The database has the vote of an attestation. -/
def Present (a : ExactReplayAttestation σ) : Prop :=
  HasVote db a.key a.signer

instance instDecidablePresent (a : ExactReplayAttestation σ) : Decidable (Present db a) :=
  inferInstanceAs (Decidable (HasVote db a.key a.signer))

section Writing

variable {db : AttestationDb σ} {a b : ExactReplayAttestation σ} {key : BlockKey} {signer : σ}
  {batch record : List (ExactReplayAttestation σ)}

theorem signers_addVote : signer ∈ (addVote record a).map ExactReplayAttestation.signer ↔
    signer ∈ record.map ExactReplayAttestation.signer ∨ signer = a.signer := by
  unfold addVote
  split_ifs with hmem
  · constructor
    · exact .inl
    · rintro (h | rfl)
      · exact h
      · exact hmem
  · simp

theorem hasVote_writeVote : HasVote (writeVote db a) key signer ↔
    HasVote db key signer ∨ (key = a.key ∧ signer = a.signer) := by
  unfold HasVote writeVote
  rw [OrderedMap.find?_insert]
  by_cases hk : key = a.key
  · subst hk
    rw [if_pos rfl]
    constructor
    · rintro ⟨record, hrecord, hsigner⟩
      cases hrecord
      rcases signers_addVote.1 hsigner with hold | hnew
      · cases hdb : db.find? a.key with
        | none => simp [hdb] at hold
        | some record => exact .inl ⟨record, rfl, by simpa [hdb] using hold⟩
      · exact .inr ⟨rfl, hnew⟩
    · rintro (⟨record, hrecord, hsigner⟩ | ⟨-, hsigner⟩)
      · exact ⟨_, rfl, signers_addVote.2 (.inl (by rwa [hrecord]))⟩
      · exact ⟨_, rfl, signers_addVote.2 (.inr hsigner)⟩
  · rw [if_neg hk]
    simp [hk]

/-- **A write adds the votes of its batch.** -/
theorem hasVote_persist : HasVote (persistDurableAttestations db batch) key signer ↔
    HasVote db key signer ∨ ∃ a ∈ batch, key = a.key ∧ signer = a.signer := by
  unfold persistDurableAttestations
  induction batch generalizing db with
  | nil => simp
  | cons a batch ih =>
    rw [List.foldl_cons, ih, hasVote_writeVote]
    simp [or_assoc]

theorem present_persist_of_present (h : Present db b) :
    Present (persistDurableAttestations db batch) b :=
  hasVote_persist.2 (.inl h)

theorem present_persist_of_mem (h : b ∈ batch) : Present (persistDurableAttestations db batch) b :=
  hasVote_persist.2 (.inr ⟨b, h, rfl, rfl⟩)

end Writing

/-! ## Loading -/

/-- The checks of one attestation of a record. -/
def checkVotes (curve : Curve σ) (config : StoreConfig σ) (key : BlockKey) (seen : List σ) :
    List (ExactReplayAttestation σ) → Except String Unit
  | [] => pure ()
  | a :: rest => do
      require (a.key = key ∧ a.signer ∉ seen) "durable attestation database key/value mismatch"
      let verified := verifyAttestation curve a config.chainId config.replayAuthorityContext
        a.statement.blockHash a.statement.blockHeight config.trustedSigners
      require (verified = .valid)
        ("durable attestation database record rejected: " ++ verifyResultName verified)
      checkVotes curve config key (a.signer :: seen) rest

variable (curve : Curve σ)

/-- The checks of one record. -/
def checkRecord (config : StoreConfig σ)
    (record : BlockKey × List (ExactReplayAttestation σ)) : Except String Unit := do
  require (record.2 ≠ [] ∧ record.2.length ≤ config.trustedSigners.length)
    "durable attestation database contains a malformed record"
  checkVotes curve config record.1 [] record.2

/-- The number of attestations in a list of records. -/
def recordTotal (records : List (BlockKey × List (ExactReplayAttestation σ))) : ℕ :=
  (records.map fun r => r.2.length).sum

/-- The loop that keeps the newest records within the limits. -/
def trimTail (config : StoreConfig σ) :
    List (BlockKey × List (ExactReplayAttestation σ)) →
      List (BlockKey × List (ExactReplayAttestation σ))
  | [] => []
  | r :: rest =>
      if config.maxBlocks < (r :: rest).length ∨
          config.maxAttestations < recordTotal (r :: rest) then
        trimTail config rest
      else r :: rest

/-- `hot_tail`: the newest records that fit into the memory store. -/
def hotTail (config : StoreConfig σ) (records : List (BlockKey × List (ExactReplayAttestation σ))) :
    List (BlockKey × List (ExactReplayAttestation σ)) :=
  records.foldl (fun tail r => trimTail config (OrderedMap.insertEntry r.1 r.2 tail)) []

/-- What a node knows in memory beside its store: the hashes the local key signed, and the recent
attested hashes, by height. -/
structure AttestationHints where
  localSigned : OrderedMap ℤ Uint256 := .empty
  highest : ℤ := -1
  attestedByHeight : OrderedMap ℤ (List Uint256) := .empty

/-- `g_local_signed_hash_by_height.emplace`: the first hash of a height stays. -/
def emplaceSigned (signed : OrderedMap ℤ Uint256) (height : ℤ) (hash : Uint256) :
    OrderedMap ℤ Uint256 :=
  if signed.contains height then signed else signed.insert height hash

/-- The hashes that the local key signed, among attestations in the order they are read. -/
def collectSigned (localSigner : Option σ) (attestations : List (ExactReplayAttestation σ)) :
    OrderedMap ℤ Uint256 :=
  attestations.foldl (fun signed a =>
    if some a.signer = localSigner then
      emplaceSigned signed a.statement.blockHeight a.statement.blockHash
    else signed) .empty

/-- The loop that merges what was read into `g_local_signed_hash_by_height`. -/
def mergeSigned (signed read : OrderedMap ℤ Uint256) : OrderedMap ℤ Uint256 :=
  read.entries.foldl (fun signed e => emplaceSigned signed e.1 e.2) signed

/-- `ATTESTED_FRONTIER_HINT_WINDOW`. -/
def attestedFrontierHintWindow : ℤ := 512

/-- `NoteAcceptedAttestationHeight`. -/
def AttestationHints.noteAccepted (hints : AttestationHints) (height : ℤ) (hash : Uint256) :
    AttestationHints :=
  if height < 0 then hints
  else
    let highest := max hints.highest height
    if hash.IsNull then { hints with highest := highest }
    else
      let hashes := (hints.attestedByHeight.find? height).getD []
      { hints with
        highest := highest
        attestedByHeight := (hints.attestedByHeight.insert height
          (if hash ∈ hashes then hashes else hashes ++ [hash])).filter fun h _ =>
            !decide (h < highest - attestedFrontierHintWindow) }

/-- Adds the attestations of the newest records to the memory store. -/
def addTail (now : ℤ) (store : AttestationStore σ)
    (attestations : List (ExactReplayAttestation σ)) : Except String (AttestationStore σ) :=
  attestations.foldlM (fun store a => do
    let r := store.add curve a a.statement.blockHash a.statement.blockHeight now
    require (r.1 = .accepted ∨ r.1 = .duplicate)
      ("durable hot-cache import rejected: " ++ addResultName r.1)
    pure r.2) store

/-- `LoadDurableAttestations`, over the records in the order the database is walked. -/
def loadDurableAttestations (now : ℤ) (records : List (BlockKey × List (ExactReplayAttestation σ)))
    (store : AttestationStore σ) (hints : AttestationHints) :
    Except String (AttestationStore σ × AttestationHints) := do
  records.forM (checkRecord curve store.config)
  let tail := hotTail store.config records
  let store' ← addTail curve now store (tail.flatMap Prod.snd)
  let highest := (records.map fun r => (ofLex r.1).1).foldl max hints.highest
  let signed := mergeSigned hints.localSigned
    (collectSigned store.config.localSigner (records.flatMap Prod.snd))
  let hints' := tail.foldl (fun h r => h.noteAccepted (ofLex r.1).1 (ofLex r.1).2)
    { hints with localSigned := signed, highest := highest }
  pure (store', hints')

/-- Whether a record of the log belongs to an earlier authority, and is left out. -/
def isPriorAuthority (config : StoreConfig σ) (a : ExactReplayAttestation σ) : Bool :=
  let verified := verifyAttestation curve a config.chainId config.replayAuthorityContext
    a.statement.blockHash a.statement.blockHeight config.trustedSigners
  (verified = .wrongChain ∨ verified = .wrongReplayAuthorityContext ∨ verified = .untrustedSigner) ∧
    verifyAttestation curve a a.statement.chainId a.statement.replayAuthorityContext
      a.statement.blockHash a.statement.blockHeight [a.signer] = .valid

/-- The loop body of `ImportAttestations`, on the store and what goes into the database. -/
def importRecord (config : StoreConfig σ) (now : ℤ)
    (acc : AttestationStore σ × List (ExactReplayAttestation σ)) (a : ExactReplayAttestation σ) :
    Except String (AttestationStore σ × List (ExactReplayAttestation σ)) :=
  let verified := verifyAttestation curve a config.chainId config.replayAuthorityContext
    a.statement.blockHash a.statement.blockHeight config.trustedSigners
  if verified ≠ .valid ∧ isPriorAuthority curve config a then pure acc
  else do
    require (verified = .valid)
      ("attestation archive record was rejected: " ++ verifyResultName verified)
    let r := acc.1.add curve a a.statement.blockHash a.statement.blockHeight now
    require (r.1 = .accepted ∨ r.1 = .duplicate ∨ r.1 = .capacity)
      ("attestation archive record was rejected: " ++ addResultName r.1)
    pure (r.2, acc.2 ++ [a])

/-- The loop of `ImportAttestations` over the records of a log. -/
def importRecords (now : ℤ) (log : List (ExactReplayAttestation σ)) (store : AttestationStore σ) :
    Except String (AttestationStore σ × List (ExactReplayAttestation σ)) :=
  log.foldlM (importRecord curve store.config now) (store, [])

/-- `ImportAttestations`: the database it would write, and the store and hints after the write. -/
def importAttestations (now : ℤ) (log : List (ExactReplayAttestation σ))
    (db : AttestationDb σ) (store : AttestationStore σ) (hints : AttestationHints) :
    Except String (AttestationDb σ × AttestationStore σ × AttestationHints) := do
  let (store', imported) ← importRecords curve now log store
  let db' := persistDurableAttestations db imported
  require (∀ a ∈ imported, ((db'.find? a.key).getD []).length ≤ store.config.trustedSigners.length)
    "durable attestation record exceeds configured signer set"
  let highest := (imported.map fun a => a.statement.blockHeight).foldl max hints.highest
  let signed := mergeSigned hints.localSigned (collectSigned store.config.localSigner imported)
  pure (db', store', { hints with localSigned := signed, highest := highest })

end Btx.Node
