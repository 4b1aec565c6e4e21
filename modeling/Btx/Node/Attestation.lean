/-
# Attestations of exact replays

A signer attests that it replayed a block exactly
(`src/matmul/trusted_exact_replay_attestation.cpp`). `verifyAttestation` compares the statement with
what the node knows before it looks at the signature. Public keys are a type with an order; the
elliptic curve is a parameter.
-/

import Btx.Node.Keys
import Btx.Util.OrderedMap

namespace Btx.Node

open Util

/-- `ExactReplayStatement`. -/
structure ExactReplayStatement where
  version : UInt8 := 2
  chainId : Uint256
  blockHash : Uint256
  blockHeight : ℤ := -1
  matmulMajor : UInt8 := 4
  profile : UInt8 := 1
  replayAuthorityContext : Uint256
  deriving DecidableEq

/-- `ExactReplayAttestation`, by a signer of a type `σ` of public keys. -/
structure ExactReplayAttestation (σ : Type) where
  statement : ExactReplayStatement
  signer : σ
  signature : List UInt8
  deriving DecidableEq

/-- `VerifyResult`. -/
inductive VerifyResult
  | valid
  | unsupportedVersion
  | wrongChain
  | wrongBlock
  | wrongHeight
  | wrongMatMulContext
  | wrongReplayAuthorityContext
  | invalidSigner
  | untrustedSigner
  | invalidSignature
  deriving DecidableEq

/-- The elliptic curve: `IsCanonicalSigner`, `CPubKey::CheckLowS`, `CPubKey::Verify` of a
`StatementHash`. -/
structure Curve (σ : Type) where
  isCanonicalSigner : σ → Bool
  checkLowS : List UInt8 → Bool
  verify : σ → ExactReplayStatement → List UInt8 → Bool

/-- `CPubKey::SIGNATURE_SIZE`. -/
def maxSignatureSize : ℕ := 72

/-- `IsStrictDERSignature`. -/
def isStrictDERSignature (signature : List UInt8) : Bool :=
  let size := signature.length
  let byte (i : ℕ) : ℕ := (signature.getD i 0).toNat
  let lenR := byte 3
  let sTag := 4 + lenR
  let lenS := byte (sTag + 1)
  let sValue := sTag + 2
  if size < 8 ∨ maxSignatureSize < size then false
  else if byte 0 ≠ 0x30 ∨ byte 1 ≠ size - 2 ∨ byte 2 ≠ 0x02 then false
  else if lenR = 0 ∨ size ≤ 5 + lenR then false
  else if 0x80 ≤ byte 4 then false
  else if 1 < lenR ∧ byte 4 = 0 ∧ byte 5 < 0x80 then false
  else if byte sTag ≠ 0x02 then false
  else if lenS = 0 ∨ sValue + lenS ≠ size then false
  else if 0x80 ≤ byte sValue then false
  else if 1 < lenS ∧ byte sValue = 0 ∧ byte (sValue + 1) < 0x80 then false
  else lenR + lenS + 6 = size

section Verify

variable {σ : Type} [DecidableEq σ]

/-- `VerifyAttestation`. -/
def verifyAttestation (curve : Curve σ) (attestation : ExactReplayAttestation σ)
    (expectedChainId expectedReplayAuthorityContext expectedHash : Uint256) (expectedHeight : ℤ)
    (trustedSigners : List σ) : VerifyResult :=
  let statement := attestation.statement
  if statement.version ≠ 2 then .unsupportedVersion
  else if statement.chainId ≠ expectedChainId then .wrongChain
  else if statement.blockHash ≠ expectedHash then .wrongBlock
  else if statement.blockHeight < 0 ∨ statement.blockHeight ≠ expectedHeight then .wrongHeight
  else if statement.matmulMajor ≠ 4 ∨ statement.profile ≠ 1 then .wrongMatMulContext
  else if statement.replayAuthorityContext ≠ expectedReplayAuthorityContext then
    .wrongReplayAuthorityContext
  else if !curve.isCanonicalSigner attestation.signer then .invalidSigner
  else if attestation.signer ∉ trustedSigners then .untrustedSigner
  else if !isStrictDERSignature attestation.signature ∨ !curve.checkLowS attestation.signature ∨
      !curve.verify attestation.signer statement attestation.signature then .invalidSignature
  else .valid

/-- **A valid attestation is one for the block it was checked against, by a trusted signer.** -/
theorem verifyAttestation_valid {curve : Curve σ} {attestation : ExactReplayAttestation σ}
    {chainId context hash : Uint256} {height : ℤ} {trusted : List σ}
    (h : verifyAttestation curve attestation chainId context hash height trusted = .valid) :
    attestation.statement.blockHash = hash ∧ attestation.statement.blockHeight = height ∧
      0 ≤ height ∧ attestation.signer ∈ trusted := by
  unfold verifyAttestation at h
  dsimp only at h
  split_ifs at h with hversion hchain hhash hheight hmatmul hcontext hcanonical htrusted hsignature
  push Not at hhash hheight
  exact ⟨hhash, hheight.2, hheight.2 ▸ hheight.1, htrusted⟩

end Verify

end Btx.Node
