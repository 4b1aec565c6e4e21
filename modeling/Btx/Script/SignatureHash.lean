/-
# The signature hash of a P2MR input and the shielded bundle

`SignatureHashSchnorr` of `src/script/interpreter.cpp` is a function of the transparent part alone,
so a P2MR signature holds in every transaction with the same transparent part, whatever its bundle.
SHA-256, the bytes of a bundle and the verification of post-quantum signatures are parameters. An
`error` is a failed `assert`, which stops the node.
-/

import Btx.Shielded.Structure
import Btx.Primitives.Transaction
import Btx.Primitives.Serialize

namespace Btx.Script

open Util Shielded

/-! ## Serialisation -/

/-- `COutPoint`. -/
def outPointBytes (o : COutPoint) : List UInt8 := uint256Bytes o.hash ++ uint32Bytes o.n

/-- `CTxOut`. -/
def txOutBytes (o : CTxOut) : List UInt8 := amountBytes o.nValue ++ Writer.counted o.scriptPubKey

/-! ## The precomputed hashes -/

/-- `PQAlgorithm`. -/
inductive PQAlgorithm where
  | mlDsa44 | slhDsa128s
  deriving DecidableEq, Repr

/-- SHA-256, the bytes that `ComputeShieldedBundleCtvHash` writes for a bundle, and
`CPQPubKey::Verify`. -/
structure ScriptCrypto where
  sha256 : List UInt8 → Uint256
  bundleCtvBytes : CShieldedBundle → List UInt8
  /-- public key, message, signature, FIPS 205 flag -/
  pqVerify : PQAlgorithm → List UInt8 → Uint256 → List UInt8 → Bool → Bool

/-- `PrecomputedTransactionData`, without the BIP143 hashes, which only other signature versions
read. -/
structure PrecomputedTransactionData where
  spentOutputs : List CTxOut
  spentOutputsReady : Bool
  prevoutsSingleHash : Uint256
  sequencesSingleHash : Uint256
  outputsSingleHash : Uint256
  spentAmountsSingleHash : Uint256
  spentScriptsSingleHash : Uint256
  bip143SegwitReady : Bool
  bip341TaprootReady : Bool
  ctvScriptsigsHash : Uint256
  ctvHasScriptsigs : Bool
  ctvHasShieldedBundle : Bool
  ctvShieldedBundleHash : Uint256
  deriving DecidableEq, Repr

section Hashes

variable (C : ScriptCrypto)

variable (tx : CTransaction)

/-- `GetPrevoutsSHA256`. -/
def getPrevoutsSHA256 : Uint256 :=
  C.sha256 (tx.vin.flatMap fun txin => outPointBytes txin.prevout)

/-- `GetSequencesSHA256`. -/
def getSequencesSHA256 : Uint256 :=
  C.sha256 (tx.vin.flatMap fun txin => uint32Bytes txin.nSequence)

/-- `GetOutputsSHA256`. -/
def getOutputsSHA256 : Uint256 := C.sha256 (tx.vout.flatMap txOutBytes)

/-- `GetSpentAmountsSHA256`. -/
def getSpentAmountsSHA256 (outputs : List CTxOut) : Uint256 :=
  C.sha256 (outputs.flatMap fun o => amountBytes o.nValue)

/-- `GetSpentScriptsSHA256`. -/
def getSpentScriptsSHA256 (outputs : List CTxOut) : Uint256 :=
  C.sha256 (outputs.flatMap fun o => Writer.counted o.scriptPubKey)

/-- `ComputeShieldedBundleCtvHash`, over bytes that are a parameter: no signature hash reads it. -/
def computeShieldedBundleCtvHash (b : CShieldedBundle) : Uint256 := C.sha256 (C.bundleCtvBytes b)

/-- The script test of `Init`: 34 bytes that start with `OP_1` (Taproot) or `OP_2` (P2MR). -/
def isBip341Script (script : List UInt8) : Bool :=
  decide (script.length = 34 ∧ (script.head? = some 0x51 ∨ script.head? = some 0x52))

/-- `PrecomputedTransactionData::Init`. The loop of the source stops once both flags are set,
which does not change them. -/
def PrecomputedTransactionData.init (spentOutputs : List CTxOut)
    (force : Bool) : Except String PrecomputedTransactionData := do
  require (spentOutputs = [] ∨ spentOutputs.length = tx.vin.length) "m_spent_outputs.size()"
  let ready := !spentOutputs.isEmpty
  let witnessed := (tx.vin.zipIdx).filter fun p => !p.1.scriptWitness.isEmpty
  let bip341 (p : CTxIn × ℕ) : Bool :=
    ready && ((spentOutputs[p.2]?).any fun o => isBip341Script o.scriptPubKey)
  let usesBip341 := force || witnessed.any bip341
  let usesBip143 := force || witnessed.any fun p => !bip341 p
  let shared := usesBip143 || usesBip341
  let taproot := usesBip341 && ready
  pure
    { spentOutputs := spentOutputs
      spentOutputsReady := ready
      prevoutsSingleHash := if shared then getPrevoutsSHA256 C tx else 0
      sequencesSingleHash := if shared then getSequencesSHA256 C tx else 0
      outputsSingleHash := if shared then getOutputsSHA256 C tx else 0
      spentAmountsSingleHash := if taproot then getSpentAmountsSHA256 C spentOutputs else 0
      spentScriptsSingleHash := if taproot then getSpentScriptsSHA256 C spentOutputs else 0
      bip143SegwitReady := usesBip143
      bip341TaprootReady := taproot
      ctvScriptsigsHash := C.sha256 (tx.vin.flatMap fun txin => Writer.counted txin.scriptSig)
      ctvHasScriptsigs := tx.vin.any fun txin => !txin.scriptSig.isEmpty
      ctvHasShieldedBundle := tx.hasShieldedBundle
      ctvShieldedBundleHash :=
        if tx.hasShieldedBundle then computeShieldedBundleCtvHash C tx.shieldedBundle else 0 }

/-! ## The signature hash -/

/-- `SigVersion`. -/
inductive SigVersion where
  | base | witnessV0 | taproot | tapscript | p2mr
  deriving DecidableEq, Repr

/-- `MissingDataBehavior`. -/
inductive MissingDataBehavior where
  | assertFail | fail
  deriving DecidableEq, Repr

/-- `ScriptExecutionData`; an option is a value with its `_init` flag. -/
structure ScriptExecutionData where
  /-- present or not, once initialised -/
  annex : Option (Option Uint256)
  tapleafHash : Option Uint256
  codeseparatorPos : Option ℕ
  outputHash : Option Uint256
  validationWeightLeft : Option ℤ
  deriving DecidableEq, Repr

def sighashDefault : UInt8 := 0
def sighashAll : UInt8 := 1
def sighashSingle : UInt8 := 3
def sighashAnyoneCanPay : UInt8 := 0x80
def sighashOutputMask : UInt8 := 3
def sighashInputMask : UInt8 := 0x80

/-- `HandleMissingData`. -/
def handleMissingData {α : Type} (mdb : MissingDataBehavior) : Except String (Option α) :=
  match mdb with
  | .assertFail => throw "Missing data"
  | .fail => pure none

/-- The value of an initialised field; an uninitialised one fails an `assert`. -/
def assertInit {α : Type} (reason : String) : Option α → Except String α
  | some a => pure a
  | none => throw reason

/-- `ext_flag`; the other signature versions fail an `assert`. -/
def extFlag : SigVersion → Except String ℕ
  | .taproot => pure 0
  | .tapscript | .p2mr => pure 1
  | .base | .witnessV0 => throw "assert(false)"

/-- `HASHER_TAPSIGHASH`: `TaggedHash` has written the hash of the tag twice. -/
def tapSighashMidstate (tag : List UInt8) : List UInt8 :=
  uint256Bytes (C.sha256 tag) ++ uint256Bytes (C.sha256 tag)

/-- `"TapSighash"`. -/
def tapSighashTag : List UInt8 := [84, 97, 112, 83, 105, 103, 104, 97, 115, 104]

/-- The part about the whole transaction. -/
def sighashTransactionData (hashType : UInt8) (cache : PrecomputedTransactionData) : List UInt8 :=
  let outputType :=
    if hashType = sighashDefault then sighashAll else hashType &&& sighashOutputMask
  let inputType := hashType &&& sighashInputMask
  uint32Bytes tx.version ++ uint32Bytes tx.nLockTime ++
    (if inputType ≠ sighashAnyoneCanPay then
      uint256Bytes cache.prevoutsSingleHash ++ uint256Bytes cache.spentAmountsSingleHash ++
        uint256Bytes cache.spentScriptsSingleHash ++ uint256Bytes cache.sequencesSingleHash
    else []) ++
    (if outputType = sighashAll then uint256Bytes cache.outputsSingleHash else [])

/-- The part about the input: its outpoint, coin and sequence, or its index. -/
def sighashInputData (txin : CTxIn) (inPos : ℕ) (hashType : UInt8) (ext : ℕ)
    (annex : Option Uint256) (cache : PrecomputedTransactionData) : List UInt8 :=
  [UInt8.ofNat (2 * ext + (if annex.isSome then 1 else 0))] ++
    (if hashType &&& sighashInputMask = sighashAnyoneCanPay then
      outPointBytes txin.prevout ++ ((cache.spentOutputs[inPos]?).elim [] txOutBytes) ++
        uint32Bytes txin.nSequence
    else uint32Bytes inPos) ++
    annex.elim [] uint256Bytes

/-- `SignatureHashSchnorr`: `none` where the source returns false, and the execution data with
the output hash it caches. -/
def signatureHashSchnorr (execdata : ScriptExecutionData) (tx : CTransaction) (inPos : ℕ)
    (hashType : UInt8) (sigversion : SigVersion) (cache : PrecomputedTransactionData)
    (mdb : MissingDataBehavior) : Except String (Option (Uint256 × ScriptExecutionData)) := do
  let ext ← extFlag sigversion
  let txin ← assertInit "in_pos < tx_to.vin.size()" tx.vin[inPos]?
  if !(cache.bip341TaprootReady && cache.spentOutputsReady) then handleMissingData mdb
  else if ¬(hashType ≤ 3 ∨ (0x81 ≤ hashType ∧ hashType ≤ 0x83)) then pure none
  else do
    let annex ← assertInit "execdata.m_annex_init" execdata.annex
    let epoch : UInt8 := if sigversion = .p2mr then 2 else 0
    let single := hashType &&& sighashOutputMask = sighashSingle
    if single ∧ tx.vout.length ≤ inPos then pure none
    else do
      let outputHash := execdata.outputHash.getD
        (C.sha256 ((tx.vout[inPos]?).elim [] txOutBytes))
      let script ←
        if sigversion = .taproot then pure []
        else do
          let tapleafHash ← assertInit "execdata.m_tapleaf_hash_init" execdata.tapleafHash
          let pos ← assertInit "execdata.m_codeseparator_pos_init" execdata.codeseparatorPos
          pure (uint256Bytes tapleafHash ++ [0] ++ uint32Bytes pos)
      pure (some
        (C.sha256 (tapSighashMidstate C tapSighashTag ++ [epoch, hashType] ++
          sighashTransactionData tx hashType cache ++
          sighashInputData txin inPos hashType ext annex cache ++
          (if single then uint256Bytes outputHash else []) ++ script),
        if single then { execdata with outputHash := some outputHash } else execdata))

/-! ## The checks of a script -/

/-- `GenericTransactionSignatureChecker`. -/
structure SignatureChecker where
  txTo : CTransaction
  nIn : ℕ
  /-- absent when the checker was made without precomputed data -/
  txdata : Option PrecomputedTransactionData
  mdb : MissingDataBehavior
  requireSighashAll : Bool

/-- The signature hash that a checker computes from its own data. -/
def SignatureChecker.sighash (checker : SignatureChecker) (hashType : UInt8)
    (sigversion : SigVersion) (execdata : ScriptExecutionData) :
    Except String (Option (Uint256 × ScriptExecutionData)) :=
  match checker.txdata with
  | none => handleMissingData checker.mdb
  | some txdata =>
      signatureHashSchnorr C execdata checker.txTo checker.nIn hashType sigversion txdata
        checker.mdb

/-- `CheckPQSignature`, with the execution data it leaves. -/
def checkPQSignature (checker : SignatureChecker) (sig pubkey : List UInt8) (algo : PQAlgorithm)
    (hashType : UInt8) (sigversion : SigVersion) (execdata : ScriptExecutionData)
    (slhdsaFips205 : Bool) : Except String (Bool × ScriptExecutionData) := do
  require (sigversion = .p2mr) "sigversion == SigVersion::P2MR"
  if checker.requireSighashAll ∧ hashType ≠ sighashAll ∧ hashType ≠ sighashDefault then
    pure (false, execdata)
  else do
    let sighash ← checker.sighash C hashType sigversion execdata
    match sighash with
    | none => pure (false, execdata)
    | some (sighash, execdata) =>
        pure (C.pqVerify algo pubkey sighash sig slhdsaFips205, execdata)

/-- A P2MR signature of input `nIn`, checked as `CheckInputScripts` does: with the hashes
precomputed from the transaction and the outputs it spends. -/
def checkInputSignature (spentOutputs : List CTxOut) (nIn : ℕ)
    (sig pubkey : List UInt8) (algo : PQAlgorithm) (hashType : UInt8)
    (execdata : ScriptExecutionData) (slhdsaFips205 : Bool) :
    Except String (Bool × ScriptExecutionData) := do
  let txdata ← PrecomputedTransactionData.init C tx spentOutputs false
  checkPQSignature C ⟨tx, nIn, some txdata, .assertFail, false⟩ sig pubkey algo hashType .p2mr
    execdata slhdsaFips205

end Hashes

/-! ## What the signature hash commits to -/

/-- The two transactions differ in nothing but the shielded bundle (and so the transaction
hash). -/
structure SameTransparentPart (tx tx' : CTransaction) : Prop where
  version : tx'.version = tx.version
  vin : tx'.vin = tx.vin
  vout : tx'.vout = tx.vout
  nLockTime : tx'.nLockTime = tx.nLockTime

section Commit

variable {C : ScriptCrypto} {tx tx' : CTransaction} {spentOutputs : List CTxOut} {force : Bool}
  {txdata txdata' : PrecomputedTransactionData}

/-- The data with the bundle fields of `tx'`. -/
def PrecomputedTransactionData.withBundleOf (C : ScriptCrypto) (tx' : CTransaction)
    (txdata : PrecomputedTransactionData) : PrecomputedTransactionData :=
  { txdata with
    ctvHasShieldedBundle := tx'.hasShieldedBundle
    ctvShieldedBundleHash :=
      if tx'.hasShieldedBundle then computeShieldedBundleCtvHash C tx'.shieldedBundle else 0 }

theorem init_sameTransparentPart (h : SameTransparentPart tx tx') :
    PrecomputedTransactionData.init C tx' spentOutputs force =
      (PrecomputedTransactionData.init C tx spentOutputs force).map
        (PrecomputedTransactionData.withBundleOf C tx') := by
  unfold PrecomputedTransactionData.init
  simp only [h.vin, h.vout, getPrevoutsSHA256, getSequencesSHA256, getOutputsSHA256]
  by_cases hsize : spentOutputs = [] ∨ spentOutputs.length = tx.vin.length
  · simp [require, hsize, Except.map, bind, Except.bind, pure, Except.pure,
      PrecomputedTransactionData.withBundleOf]
  · simp [require, hsize, Except.map, bind, Except.bind]

theorem signatureHashSchnorr_sameTransparentPart (h : SameTransparentPart tx tx')
    (execdata : ScriptExecutionData) (inPos : ℕ) (hashType : UInt8) (sigversion : SigVersion)
    (mdb : MissingDataBehavior) :
    signatureHashSchnorr C execdata tx' inPos hashType sigversion (txdata.withBundleOf C tx') mdb =
      signatureHashSchnorr C execdata tx inPos hashType sigversion txdata mdb := by
  unfold signatureHashSchnorr sighashTransactionData sighashInputData
    PrecomputedTransactionData.withBundleOf
  simp only [h.version, h.vin, h.vout, h.nLockTime]

theorem checkPQSignature_congr {checker checker' : SignatureChecker} {sig pubkey : List UInt8}
    {algo : PQAlgorithm} {hashType : UInt8} {sigversion : SigVersion}
    {execdata : ScriptExecutionData} {fips : Bool}
    (hall : checker'.requireSighashAll = checker.requireSighashAll)
    (hsighash : checker'.sighash C hashType sigversion execdata =
      checker.sighash C hashType sigversion execdata) :
    checkPQSignature C checker' sig pubkey algo hashType sigversion execdata fips =
      checkPQSignature C checker sig pubkey algo hashType sigversion execdata fips := by
  unfold checkPQSignature
  rw [hall, hsighash]

/-- **A P2MR signature does not commit to the bundle.** For two transactions that differ only in the
shielded bundle, every input and every hash type (`DEFAULT` and `ALL` included), a signature check
gives the same result. So every signature of the first verifies in the second. -/
theorem checkInputSignature_ignores_bundle (h : SameTransparentPart tx tx')
    (spentOutputs : List CTxOut) (nIn : ℕ) (sig pubkey : List UInt8) (algo : PQAlgorithm)
    (hashType : UInt8) (execdata : ScriptExecutionData) (slhdsaFips205 : Bool) :
    checkInputSignature C tx' spentOutputs nIn sig pubkey algo hashType execdata slhdsaFips205 =
      checkInputSignature C tx spentOutputs nIn sig pubkey algo hashType execdata
        slhdsaFips205 := by
  unfold checkInputSignature
  rw [init_sameTransparentPart h]
  cases PrecomputedTransactionData.init C tx spentOutputs false with
  | error e => rw [Except.map, error_bind, error_bind]
  | ok txdata =>
    rw [Except.map, ok_bind, ok_bind]
    refine checkPQSignature_congr rfl ?_
    exact signatureHashSchnorr_sameTransparentPart h execdata nIn hashType .p2mr .assertFail

end Commit

/-! ## Redirecting a shielding transaction -/

/-- A signature scheme in which the only signature of a message is the message itself, over any
hash function. -/
def messageItself (sha256 : List UInt8 → Uint256) : ScriptCrypto where
  sha256 := sha256
  bundleCtvBytes b := b.proof
  pqVerify _ _ message sig _ := decide (sig = uint256Bytes message)

/-- A P2MR output of ten. -/
def p2mrOutput : CTxOut where
  nValue := 10
  scriptPubKey := 0x52 :: 0x20 :: List.replicate 32 0

/-- A transaction that spends it into a shielded note. -/
def shieldingTx (noteCommitment : Uint256) : CTransaction where
  hash := noteCommitment
  vin := [{ prevout := ⟨1, 0⟩, scriptWitness := [[1], [2], [3]] }]
  shieldedBundle :=
    { v2Bundle := some
        { payload := .send
            { outputs := [{ noteCommitment := noteCommitment }], valueBalance := -10 } } }

/-- The execution data at a signature opcode of a P2MR leaf. -/
def p2mrExecdata : ScriptExecutionData where
  annex := some none
  tapleafHash := some 1
  codeseparatorPos := some 0xffffffff
  outputHash := none
  validationWeightLeft := some 1000

theorem shieldingTx_sameTransparentPart (note note' : Uint256) :
    SameTransparentPart (shieldingTx note) (shieldingTx note') :=
  ⟨rfl, rfl, rfl, rfl⟩

theorem signatureHashSchnorr_default {C : ScriptCrypto} {execdata : ScriptExecutionData}
    {tx : CTransaction} {inPos : ℕ} {cache : PrecomputedTransactionData} {txin : CTxIn}
    {annex : Option Uint256} {leaf : Uint256} {pos : ℕ} (mdb : MissingDataBehavior)
    (hready : cache.bip341TaprootReady = true ∧ cache.spentOutputsReady = true)
    (hin : tx.vin[inPos]? = some txin) (hannex : execdata.annex = some annex)
    (hleaf : execdata.tapleafHash = some leaf) (hpos : execdata.codeseparatorPos = some pos) :
    signatureHashSchnorr C execdata tx inPos sighashDefault .p2mr cache mdb =
      .ok (some (C.sha256 (tapSighashMidstate C tapSighashTag ++ [2, sighashDefault] ++
        sighashTransactionData tx sighashDefault cache ++
        sighashInputData txin inPos sighashDefault 1 annex cache ++ [] ++
        (uint256Bytes leaf ++ [0] ++ uint32Bytes pos)), execdata)) := by
  have htype : sighashDefault ≤ 3 := by decide
  have hsingle : ¬sighashDefault &&& sighashOutputMask = sighashSingle := by decide
  unfold signatureHashSchnorr
  simp only [extFlag, assertInit, hin, hready.1, hready.2, hannex, hleaf, hpos, htype, hsingle,
    bind, Except.bind, pure, Except.pure, Bool.and_self, Bool.not_true, Bool.false_eq_true,
    if_false, true_or, not_true_eq_false, false_and, reduceCtorEq, if_true]

theorem checkInputSignature_eq {C : ScriptCrypto} {tx : CTransaction}
    {spentOutputs : List CTxOut} {txdata : PrecomputedTransactionData} {nIn : ℕ}
    {sig pubkey : List UInt8} {algo : PQAlgorithm} {hashType : UInt8}
    {execdata execdata' : ScriptExecutionData} {fips : Bool} {message : Uint256}
    (hinit : PrecomputedTransactionData.init C tx spentOutputs false = .ok txdata)
    (hmessage : signatureHashSchnorr C execdata tx nIn hashType .p2mr txdata .assertFail =
      .ok (some (message, execdata'))) :
    checkInputSignature C tx spentOutputs nIn sig pubkey algo hashType execdata fips =
      .ok (C.pqVerify algo pubkey message sig fips, execdata') := by
  simp only [checkInputSignature, hinit, checkPQSignature, require, SignatureChecker.sighash,
    hmessage, bind, Except.bind, pure, Except.pure, if_true, Bool.false_eq_true, false_and,
      if_false]

theorem exists_signature_for_every_note (sha256 : List UInt8 → Uint256) :
    ∃ sig, ∀ note, checkInputSignature (messageItself sha256) (shieldingTx note) [p2mrOutput] 0 sig
      [] .mlDsa44 sighashDefault p2mrExecdata false = .ok (true, p2mrExecdata) := by
  obtain ⟨txdata, hinit, hready⟩ : ∃ txdata, PrecomputedTransactionData.init (messageItself sha256)
      (shieldingTx 0) [p2mrOutput] false = .ok txdata ∧
        (txdata.bip341TaprootReady = true ∧ txdata.spentOutputsReady = true) :=
    ⟨_, rfl, rfl, rfl⟩
  obtain ⟨message, hmessage⟩ : ∃ message, signatureHashSchnorr (messageItself sha256) p2mrExecdata
      (shieldingTx 0) 0 sighashDefault .p2mr txdata .assertFail =
        .ok (some (message, p2mrExecdata)) :=
    ⟨_, signatureHashSchnorr_default .assertFail hready rfl rfl rfl rfl⟩
  refine ⟨uint256Bytes message, fun note => ?_⟩
  have hsame := shieldingTx_sameTransparentPart 0 note
  have hinit' : PrecomputedTransactionData.init (messageItself sha256) (shieldingTx note)
      [p2mrOutput] false =
        .ok (txdata.withBundleOf (messageItself sha256) (shieldingTx note)) := by
    rw [init_sameTransparentPart hsame, hinit, Except.map]
  rw [← signatureHashSchnorr_sameTransparentPart hsame] at hmessage
  rw [checkInputSignature_eq hinit' hmessage]
  exact congrArg (fun b => Except.ok (b, p2mrExecdata)) (decide_eq_true rfl)

/-- The two shielding transactions agree outside their bundles, and the check of one is the check
of the other. -/
theorem checkInputSignature_shieldingTx : SameTransparentPart (shieldingTx 5) (shieldingTx 6) ∧
      ∀ sig, checkInputSignature (messageItself fun _ => 1) (shieldingTx 6) [p2mrOutput] 0 sig []
          .mlDsa44 sighashDefault p2mrExecdata false =
        checkInputSignature (messageItself fun _ => 1) (shieldingTx 5) [p2mrOutput] 0 sig []
          .mlDsa44 sighashDefault p2mrExecdata false := by
  have hsame := shieldingTx_sameTransparentPart 5 6
  refine ⟨hsame, fun sig => ?_⟩
  exact checkInputSignature_ignores_bundle hsame [p2mrOutput] 0 sig [] .mlDsa44 sighashDefault
    p2mrExecdata false

/-- **Redirected to another note.** The shielding transactions to notes 5 and 6 differ only in their
bundles, both structurally valid. For every hash function, and though a signature holds for one
message only, some `DEFAULT` signature of the first verifies in the second. -/
theorem shieldingTx_redirected : (shieldingTx 5).shieldedBundle ≠ (shieldingTx 6).shieldedBundle ∧
      SameTransparentPart (shieldingTx 5) (shieldingTx 6) ∧
      (shieldingTx 5).shieldedBundle.checkStructure (fun _ => true) = true ∧
      (shieldingTx 6).shieldedBundle.checkStructure (fun _ => true) = true ∧
      ∀ sha256, ∃ sig,
        checkInputSignature (messageItself sha256) (shieldingTx 5) [p2mrOutput] 0 sig [] .mlDsa44
            sighashDefault p2mrExecdata false = .ok (true, p2mrExecdata) ∧
          checkInputSignature (messageItself sha256) (shieldingTx 6) [p2mrOutput] 0 sig [] .mlDsa44
            sighashDefault p2mrExecdata false = .ok (true, p2mrExecdata) := by
  refine ⟨by decide, shieldingTx_sameTransparentPart 5 6, by decide, by decide, fun sha256 => ?_⟩
  obtain ⟨sig, hsig⟩ := exists_signature_for_every_note sha256
  exact ⟨sig, hsig 5, hsig 6⟩

end Btx.Script
