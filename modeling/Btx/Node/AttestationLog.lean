/-
# The write-ahead log in bytes

`AppendWal` and `LoadWal` (`src/node/matmul_trusted_attestations.cpp`): a magic number and then
records, each with its size in front. A record that is cut short makes `LoadWal` fail, and with it
`OpenPersistence` (`openPersistence_ok_iff`). The bytes of public keys are a parameter.
-/

import Btx.Node.AttestationProgress
import Btx.Node.AttestationDurability
import Btx.Node.AttestationHistory
import Btx.Primitives.Serialize

namespace Btx.Node

open Util Reader List Option

/-- `CPubKey` in bytes: `vch`, and the key that `Unserialize` makes of bytes. -/
structure KeyCodec (σ : Type) where
  bytes : σ → List UInt8
  ofBytes : List UInt8 → σ
  ofBytes_bytes : ∀ key, ofBytes (bytes key) = key
  length_bytes : ∀ key, (bytes key).length ≤ 65

variable {σ : Type}

/-! ## Records -/

/-- `ExactReplayStatement`. -/
def statementBytes (statement : ExactReplayStatement) : List UInt8 :=
  [statement.version] ++ uint256Bytes statement.chainId ++ uint256Bytes statement.blockHash ++
    Writer.signedLittleEndian 4 statement.blockHeight ++
    [statement.matmulMajor, statement.profile] ++
    if 2 ≤ statement.version then uint256Bytes statement.replayAuthorityContext else []

/-- `ExactReplayAttestation`. -/
def attestationBytes (keys : KeyCodec σ) (a : ExactReplayAttestation σ) : List UInt8 :=
  statementBytes a.statement ++ Writer.counted (keys.bytes a.signer) ++ Writer.counted a.signature

/-- `uint256`, read. -/
def readUint256 : Reader Uint256 := do
  let bytes ← Reader.many Reader.byte 32
  pure (uint256OfBytes bytes)

/-- `int32_t`, read. -/
def readInt32 : Reader ℤ := do
  let n ← Reader.littleEndian 4
  pure (if n < 2 ^ 31 then n else n - 2 ^ 32)

def readContext (version : UInt8) : Reader Uint256 :=
  if 2 ≤ version then readUint256 else pure 0

/-- `ExactReplayStatement`, read. -/
def readStatement : Reader ExactReplayStatement := do
  let version ← Reader.byte
  let chainId ← readUint256
  let blockHash ← readUint256
  let blockHeight ← readInt32
  let matmulMajor ← Reader.byte
  let profile ← Reader.byte
  let context ← readContext version
  pure ⟨version, chainId, blockHash, blockHeight, matmulMajor, profile, context⟩

/-- A byte vector, read. -/
def readCounted : Reader (List UInt8) := do
  let size ← Reader.compactSize
  Reader.many Reader.byte size

/-- `CPubKey::Unserialize`: too many bytes are skipped, and the key is invalid. -/
def readKey (keys : KeyCodec σ) : Reader σ := do
  let bytes ← readCounted
  pure (keys.ofBytes (if bytes.length ≤ 65 then bytes else []))

/-- `ExactReplayAttestation`, read. -/
def readAttestation (keys : KeyCodec σ) : Reader (ExactReplayAttestation σ) := do
  let statement ← readStatement
  let signer ← readKey keys
  let signature ← readCounted
  pure ⟨statement, signer, signature⟩

section Records

theorem readUint256_bytes (x : Uint256) (rest : List UInt8) :
    readUint256 (uint256Bytes x ++ rest) = some (x, rest) := by
  refine (run_bind (many_byte_of_length (uint256Bytes_length x) rest)).trans ?_
  rw [uint256OfBytes_uint256Bytes]
  rfl

theorem readInt32_bytes {n : ℤ} (h0 : 0 ≤ n) (hn : n < 2 ^ 31) (rest : List UInt8) :
    readInt32 (Writer.signedLittleEndian 4 n ++ rest) = some (n, rest) := by
  have hmod : (n % 256 ^ 4).toNat = n.toNat := by
    rw [Int.emod_eq_of_lt h0 (by omega)]
  rw [Writer.signedLittleEndian, hmod]
  refine (run_bind (Codec.read_littleEndian (by omega) rest)).trans ?_
  rw [if_pos (by omega), Int.toNat_of_nonneg h0]
  rfl

theorem readCounted_bytes {bytes : List UInt8} (h : bytes.length < 253) (rest : List UInt8) :
    readCounted (Writer.counted bytes ++ rest) = some (bytes, rest) := by
  have hsize : Reader.compactSize (Writer.compactSize bytes.length ++ (bytes ++ rest)) =
      some (bytes.length, bytes ++ rest) := by
    rw [Writer.compactSize, if_pos h, Writer.littleEndian, Writer.littleEndian]
    have hbyte : (UInt8.ofNat (bytes.length % 256)).toNat = bytes.length := by
      rw [UInt8.toNat_ofNat', Nat.mod_mod, Nat.mod_eq_of_lt (by omega)]
    unfold Reader.compactSize
    refine (run_bind rfl).trans ?_
    rw [hbyte, if_pos h]
    have hensure : Reader.ensure (bytes.length ≤ Reader.maxSize) (bytes ++ rest) =
        some ((), bytes ++ rest) :=
      if_pos (by unfold Reader.maxSize; omega)
    exact (run_bind rfl).trans ((run_bind hensure).trans rfl)
  rw [Writer.counted, append_assoc]
  exact (run_bind hsize).trans (many_byte bytes rest)

variable {a : ExactReplayAttestation σ}

theorem version_and_size [DecidableEq σ] {curve : Curve σ} {chainId context hash : Uint256}
    {height : ℤ} {trusted : List σ}
    (h : verifyAttestation curve a chainId context hash height trusted = .valid) :
    a.statement.version = 2 ∧ a.signature.length ≤ 72 := by
  unfold verifyAttestation at h
  dsimp only at h
  split_ifs at h with hversion hchain hhash hheight hmatmul hcontext hcanonical htrusted hsignature
  push Not at hversion hsignature
  refine ⟨hversion, ?_⟩
  by_contra hlong
  have hder : isStrictDERSignature a.signature = false := by
    unfold isStrictDERSignature maxSignatureSize
    rw [if_pos (.inr (by omega))]
  simp [hder] at hsignature

/-- **A valid attestation is read back from its bytes.** -/
theorem readAttestation_bytes (keys : KeyCodec σ) (hversion : a.statement.version = 2)
    (hsize : a.signature.length ≤ 72) (h0 : 0 ≤ a.statement.blockHeight)
    (hheight : a.statement.blockHeight < 2 ^ 31) :
    readAttestation keys (attestationBytes keys a) = some (a, []) := by
  obtain ⟨⟨version, chainId, blockHash, blockHeight, matmulMajor, profile, context⟩, signer,
    signature⟩ := a
  dsimp only at hversion hsize h0 hheight
  subst hversion
  have hstatement (rest : List UInt8) :
      readStatement (statementBytes ⟨2, chainId, blockHash, blockHeight, matmulMajor, profile,
        context⟩ ++ rest) =
        some (⟨2, chainId, blockHash, blockHeight, matmulMajor, profile, context⟩, rest) := by
    unfold statementBytes readStatement
    simp only [append_assoc, cons_append, nil_append]
    refine (run_bind rfl).trans ((run_bind (readUint256_bytes _ _)).trans
      ((run_bind (readUint256_bytes _ _)).trans ((run_bind (readInt32_bytes h0 hheight _)).trans
      ((run_bind rfl).trans ((run_bind rfl).trans ?_)))))
    exact (run_bind (readUint256_bytes context rest)).trans rfl
  have hkey (rest : List UInt8) :
      readKey keys (Writer.counted (keys.bytes signer) ++ rest) = some (signer, rest) := by
    have hlength := keys.length_bytes signer
    refine (run_bind (readCounted_bytes (by omega) rest)).trans ?_
    rw [if_pos hlength, keys.ofBytes_bytes]
    rfl
  unfold attestationBytes readAttestation
  rw [append_assoc]
  refine (run_bind (hstatement _)).trans ((run_bind (hkey _)).trans ?_)
  have hlast := readCounted_bytes (by omega : signature.length < 253) []
  rw [append_nil] at hlast
  exact (run_bind hlast).trans rfl

theorem length_attestationBytes (keys : KeyCodec σ) (hsize : a.signature.length ≤ 72) :
    0 < (attestationBytes keys a).length ∧ (attestationBytes keys a).length ≤ 256 := by
  have hkey := keys.length_bytes a.signer
  have hcount {l : List UInt8} (h : l.length < 253) : (Writer.counted l).length = 1 + l.length := by
    rw [Writer.counted, length_append, Writer.compactSize, if_pos h, Writer.littleEndian_length]
  have hstatement : 0 < (statementBytes a.statement).length ∧
      (statementBytes a.statement).length ≤ 103 := by
    unfold statementBytes
    simp only [length_append, uint256Bytes_length, Writer.signedLittleEndian,
      Writer.littleEndian_length, length_cons, length_nil]
    split_ifs
    · rw [uint256Bytes_length]
      omega
    · rw [length_nil]
      omega
  rw [attestationBytes, length_append, length_append, hcount (by omega), hcount (by omega)]
  omega

/-- The bytes of the attestation are those of one record of the log. -/
structure Readable (keys : KeyCodec σ) (a : ExactReplayAttestation σ) : Prop where
  read : readAttestation keys (attestationBytes keys a) = some (a, [])
  nonempty : 0 < (attestationBytes keys a).length
  short : (attestationBytes keys a).length ≤ 256

end Records

/-! ## The log -/

/-- `PERSIST_WAL_MAGIC`: `BTX_MMAT_WAL_V1`, with its terminator. -/
def walMagic : List UInt8 :=
  [0x42, 0x54, 0x58, 0x5f, 0x4d, 0x4d, 0x41, 0x54, 0x5f, 0x57, 0x41, 0x4c, 0x5f, 0x56, 0x31, 0]

/-- `PERSIST_MAX_BYTES`. -/
def persistMaxBytes : ℕ := 32 * 1024 * 1024

variable (keys : KeyCodec σ)

/-- A record of the log, with its size in front. -/
def walRecord (a : ExactReplayAttestation σ) : List UInt8 :=
  Writer.littleEndian 4 (attestationBytes keys a).length ++ attestationBytes keys a

def walRecords (log : List (ExactReplayAttestation σ)) : List UInt8 :=
  log.flatMap (walRecord keys)

/-- The file of a log. -/
def walBytes (log : List (ExactReplayAttestation σ)) : List UInt8 :=
  walMagic ++ walRecords keys log

/-- `AppendWal`: the bytes that it writes behind those of the file. -/
def appendWal (file : Option (List UInt8))
    (batch : List (ExactReplayAttestation σ)) : Except String (List UInt8) := do
  let priorSize := (file.map List.length).getD 0
  require (priorSize < persistMaxBytes) "attestation WAL exceeds size bound"
  batch.forM fun a =>
    require (attestationBytes keys a ≠ [] ∧ (attestationBytes keys a).length ≤ 2 ^ 20)
      "attestation WAL record exceeds size bound"
  let magic := if file.isNone then walMagic else []
  require ((walRecords keys batch).length ≤
      persistMaxBytes - min priorSize persistMaxBytes - magic.length)
    "attestation WAL batch exceeds size bound"
  pure (magic ++ walRecords keys batch)

/-- A read past the end throws, and `LoadWal` catches. -/
def decoded {α : Type} (read : Option α) : Except String α :=
  read.elim (.error "attestation WAL decode failed") .ok

/-- The loop of `LoadWal`, after some records. -/
def readRecords (keys : KeyCodec σ) :
    ℕ → ℕ → List UInt8 → Except String (List (ExactReplayAttestation σ))
  | _, _, [] => pure []
  | 0, _, _ => throw "attestation WAL decode failed" -- each round takes a byte at least
  | fuel + 1, loaded, bytes => do
      let (size, encoded) ← decoded (Reader.littleEndian 4 bytes)
      require (size ≠ 0 ∧ size ≤ 2 ^ 20 ∧ size ≤ encoded.length)
        "attestation WAL record is truncated or oversized"
      let (a, item) ← decoded (readAttestation keys (encoded.take size))
      require (item = []) "attestation WAL record has trailing data"
      require (loaded + 1 ≤ 16384) "attestation WAL count exceeds bound"
      let rest ← readRecords keys fuel (loaded + 1) (encoded.drop size)
      pure (a :: rest)

/-- `LoadWal`, up to its import. -/
def loadWal : Option (List UInt8) → Except String (List (ExactReplayAttestation σ))
  | none => pure []
  | some bytes => do
      require (walMagic.length ≤ bytes.length ∧ bytes.length < persistMaxBytes)
        "failed to read bounded attestation WAL"
      require (bytes.take walMagic.length = walMagic) "attestation WAL magic mismatch"
      readRecords keys bytes.length 0 (bytes.drop walMagic.length)

section Log

variable {keys : KeyCodec σ} {a : ExactReplayAttestation σ} {log : List (ExactReplayAttestation σ)}
  {part rest : List UInt8} {fuel loaded : ℕ}

theorem length_walRecord (keys : KeyCodec σ) (a : ExactReplayAttestation σ) :
    (walRecord keys a).length = 4 + (attestationBytes keys a).length := by
  rw [walRecord, length_append, Writer.littleEndian_length]

theorem Readable.readRecords_cons (h : Readable keys a) (hcount : loaded + 1 ≤ 16384) :
    readRecords keys (fuel + 1) loaded (walRecord keys a ++ rest) =
      readRecords keys fuel (loaded + 1) rest >>= fun log => pure (a :: log) := by
  have hsize : Reader.littleEndian 4 (walRecord keys a ++ rest) =
      some ((attestationBytes keys a).length, attestationBytes keys a ++ rest) := by
    rw [walRecord, append_assoc]
    exact Codec.read_littleEndian (by have := h.short; omega) _
  have hne : walRecord keys a ++ rest ≠ [] := by
    intro hnil
    have := congrArg List.length hnil
    rw [length_append, length_walRecord, length_nil] at this
    omega
  obtain ⟨b, bytes, hbytes⟩ := exists_cons_of_ne_nil hne
  have hbound : (attestationBytes keys a).length ≠ 0 ∧ (attestationBytes keys a).length ≤ 2 ^ 20 ∧
      (attestationBytes keys a).length ≤ (attestationBytes keys a ++ rest).length := by
    have := h.nonempty
    have := h.short
    rw [length_append]
    omega
  rw [hbytes, readRecords, ← hbytes, hsize]
  simp only [decoded, elim_some, ok_bind, require, if_pos hbound, take_left, h.read,
    drop_left, if_true, if_pos hcount]
  simp

theorem Readable.readRecords_torn (h : Readable keys a) (hpart : part <+: walRecord keys a)
    (hne : part ≠ []) (hshort : part.length < (walRecord keys a).length) :
    ∃ e, readRecords keys (fuel + 1) loaded part = .error e := by
  obtain ⟨b, bytes, hbytes⟩ := exists_cons_of_ne_nil hne
  rw [hbytes, readRecords.eq_3 _ _ _ _ (by simp), ← hbytes]
  by_cases hsize : part.length < 4
  · refine ⟨"attestation WAL decode failed", ?_⟩
    have hread : Reader.littleEndian 4 part = none := by
      change (Reader.many Reader.byte 4 part).bind _ = none
      rw [many_byte_eq_none hsize]
      rfl
    rw [hread]
    rfl
  · refine ⟨"attestation WAL record is truncated or oversized", ?_⟩
    -- the size is whole, and fewer bytes than it says follow
    have hprefix : Writer.littleEndian 4 (attestationBytes keys a).length <+: part :=
      prefix_of_prefix_length_le (prefix_append ..) hpart
        (by rw [Writer.littleEndian_length]; omega)
    obtain ⟨encoded, rfl⟩ := hprefix
    have hread : Reader.littleEndian 4
        (Writer.littleEndian 4 (attestationBytes keys a).length ++ encoded) =
        some ((attestationBytes keys a).length, encoded) :=
      Codec.read_littleEndian (by have := h.short; omega) _
    rw [length_walRecord, length_append, Writer.littleEndian_length] at hshort
    rw [hread]
    simp only [decoded, elim_some, ok_bind, require]
    rw [if_neg (by omega)]
    rfl

section

variable (hlog : ∀ a ∈ log, Readable keys a)

include hlog

/-- **A part of a log is read back if it ends where a record ends, and refused otherwise.** -/
theorem readRecords_part (hcount : loaded + log.length ≤ 16384)
    (hpart : part <+: walRecords keys log) (hfuel : part.length ≤ fuel) :
    (∃ whole, whole <+: log ∧ part = walRecords keys whole ∧
      readRecords keys fuel loaded part = .ok whole) ∨
    ((¬∃ whole, whole <+: log ∧ part = walRecords keys whole) ∧
      ∃ e, readRecords keys fuel loaded part = .error e) := by
  induction log generalizing part fuel loaded with
  | nil =>
    obtain rfl := prefix_nil.1 hpart
    exact .inl ⟨[], prefix_rfl, rfl, by cases fuel <;> rfl⟩
  | cons a log ih =>
    have ha := hlog a mem_cons_self
    by_cases hne : part = []
    · subst hne
      exact .inl ⟨[], nil_prefix, rfl, by cases fuel <;> rfl⟩
    obtain ⟨fuel, rfl⟩ : ∃ n, fuel = n + 1 :=
      ⟨fuel - 1, by have := length_pos_of_ne_nil hne; omega⟩
    -- what a whole log that is not empty starts with
    have hwhole : ∀ whole, whole <+: a :: log → part = walRecords keys whole →
        ∃ whole', whole' <+: log ∧ whole = a :: whole' := by
      intro whole hwhole heq
      cases whole with
      | nil => exact absurd heq hne
      | cons a' whole =>
        obtain ⟨rfl, hrest⟩ := cons_prefix_cons.1 hwhole
        exact ⟨whole, hrest, rfl⟩
    by_cases hshort : part.length < (walRecord keys a).length
    · have hrecord : part <+: walRecord keys a :=
        prefix_of_prefix_length_le hpart (prefix_append _ _) hshort.le
      refine .inr ⟨?_, ha.readRecords_torn hrecord hne hshort⟩
      rintro ⟨whole, hprefix, heq⟩
      obtain ⟨whole, -, rfl⟩ := hwhole whole hprefix heq
      rw [heq, walRecords, flatMap_cons, length_append] at hshort
      omega
    · obtain ⟨rest, rfl⟩ := prefix_of_prefix_length_le (prefix_append _ _) hpart
        (by rw [not_lt] at hshort; exact hshort)
      have hrest : rest <+: walRecords keys log := (prefix_append_right_inj _).1 hpart
      rw [length_cons] at hcount
      rw [length_append, length_walRecord] at hfuel
      rw [ha.readRecords_cons (by omega)]
      have hlog' : ∀ b ∈ log, Readable keys b := fun b hb => hlog b (mem_cons_of_mem _ hb)
      have hcount' : loaded + 1 + log.length ≤ 16384 := by omega
      have hfuel' : rest.length ≤ fuel := by omega
      rcases ih hlog' hcount' hrest hfuel' with ⟨whole, hprefix, rfl, hread⟩ | ⟨hnone, e, hread⟩
      · refine .inl ⟨a :: whole, cons_prefix_cons.2 ⟨rfl, hprefix⟩, rfl, ?_⟩
        rw [hread]
        rfl
      · refine .inr ⟨?_, e, by rw [hread]; rfl⟩
        rintro ⟨whole, hprefix, heq⟩
        obtain ⟨whole, hwhole, rfl⟩ := hwhole whole hprefix heq
        exact hnone ⟨whole, hwhole, append_cancel_left heq⟩

theorem length_walRecords : (walRecords keys log).length ≤ 260 * log.length := by
  induction log with
  | nil => exact le_rfl
  | cons a log ih =>
    have ha := (hlog a mem_cons_self).short
    have hrest := ih fun b hb => hlog b (mem_cons_of_mem _ hb)
    rw [walRecords, flatMap_cons, length_append, length_walRecord, length_cons]
    rw [walRecords] at hrest
    omega

/-- **`LoadWal` reads a part of a log back if it ends where a record ends, and fails otherwise.** -/
theorem loadWal_part (hcount : log.length ≤ 16384) (hpart : part <+: walRecords keys log) :
    (∃ whole, whole <+: log ∧ walMagic ++ part = walBytes keys whole ∧
      loadWal keys (some (walMagic ++ part)) = .ok whole) ∨
    ((¬∃ whole, whole <+: log ∧ walMagic ++ part = walBytes keys whole) ∧
      ∃ e, loadWal keys (some (walMagic ++ part)) = .error e) := by
  have hlength := hpart.length_le.trans (length_walRecords hlog)
  have hmagic : walMagic.length = 16 := rfl
  have hload : loadWal keys (some (walMagic ++ part)) =
      readRecords keys (walMagic ++ part).length 0 part := by
    simp only [loadWal]
    rw [take_left, drop_left]
    simp only [require, ok_bind, if_true]
    rw [if_pos (by unfold persistMaxBytes; rw [length_append]; omega)]
    rfl
  rw [hload]
  simp only [walBytes, append_cancel_left_eq]
  exact readRecords_part hlog (by omega) hpart (by rw [length_append]; omega)

end

end Log

/-! ## Imports -/

section Imports

variable [LinearOrder σ] {curve : Curve σ} {now : ℤ} {store : AttestationStore σ}
  {a : ExactReplayAttestation σ} {log : List (ExactReplayAttestation σ)} {db : AttestationDb σ}

theorem add_of_valid (now : ℤ) (hvalid : a.Valid curve store.config) :
    (store.add curve a a.statement.blockHash a.statement.blockHeight now).1 = .accepted ∨
      (store.add curve a a.statement.blockHash a.statement.blockHeight now).1 = .duplicate ∨
      (store.add curve a a.statement.blockHash a.statement.blockHeight now).1 = .capacity := by
  unfold ExactReplayAttestation.Valid at hvalid
  cases hvote : (store.pruneExpiredLocked now).hasVote
      (blockKey a.statement.blockHeight a.statement.blockHash) a.signer with
  | true => simp [AttestationStore.add_eq_duplicate hvalid hvote]
  | false =>
    obtain ⟨reaches, -, hadd⟩ := AttestationStore.add_eq hvalid hvote
    rw [hadd]
    split_ifs
    · exact .inl rfl
    · exact .inr (.inr rfl)

theorem importRecords_ok (now : ℤ) (hvalid : ∀ a ∈ log, a.Valid curve store.config) :
    ∃ store', importRecords curve now log store = .ok (store', log) := by
  have hloop : ∀ (l : List (ExactReplayAttestation σ))
      (acc : AttestationStore σ × List (ExactReplayAttestation σ)), (∀ a ∈ l, a ∈ log) →
      acc.1.config = store.config →
      ∃ store', l.foldlM (importRecord curve store.config now) acc = .ok (store', acc.2 ++ l) := by
    intro l
    induction l with
    | nil => exact fun acc _ _ => ⟨acc.1, by simp [pure, Except.pure]⟩
    | cons a l ih =>
      intro acc hl hconfig
      have hverify := hvalid a (hl a mem_cons_self)
      have hadd : _ ∨ _ ∨ _ :=
        add_of_valid now (show a.Valid curve acc.1.config from hconfig.symm ▸ hverify)
      unfold ExactReplayAttestation.Valid at hverify
      obtain ⟨store', hrest⟩ := ih
        ((acc.1.add curve a a.statement.blockHash a.statement.blockHeight now).2, acc.2 ++ [a])
        (fun b hb => hl b (mem_cons_of_mem _ hb)) (AttestationStore.config_add.trans hconfig)
      refine ⟨store', ?_⟩
      rw [foldlM_cons, bind_eq_ok]
      refine ⟨_, ?_, by rwa [append_assoc, singleton_append] at hrest⟩
      simp only [importRecord, hverify, bind_eq_ok, require_eq_ok, pure_eq_ok, ne_eq,
        not_true_eq_false, false_and, if_false]
      exact ⟨(), trivial, (), hadd, trivial⟩
  exact hloop log (store, []) (fun _ ha => ha) rfl

/-- **A log of valid attestations is imported.** -/
theorem importAttestations_ok (now : ℤ) (hints : AttestationHints)
    (hvalid : ∀ a ∈ log, a.Valid curve store.config)
    (hdb : AttestationDb.VotesIn (fun a => a.Valid curve store.config) db) :
    ∃ r, importAttestations curve now log db store hints = .ok r ∧
      r.1 = persistDurableAttestations db log := by
  obtain ⟨store', himport⟩ := importRecords_ok now hvalid
  have hpersist := hdb.persist hvalid
  simp only [importAttestations, bind_eq_ok, require_eq_ok, pure_eq_ok]
  refine ⟨_, ⟨(store', log), himport, (), fun a _ => ?_, rfl⟩, rfl⟩
  cases hfind : (persistDurableAttestations db log).find? a.key with
  | none => simp
  | some record =>
    obtain ⟨-, hnodup, hvotes⟩ := hpersist _ record hfind
    exact AttestationNode.length_record_le hnodup fun b hb => (hvotes b hb).2

end Imports

/-! ## Crashes -/

namespace AttestationNode

variable [LinearOrder σ]

/-- A step of the node, or a crash in the middle of an append that leaves some of its records. -/
inductive LogStep (env : AttestationEnv σ) (s : AttestationNode σ) : AttestationNode σ → Prop
  | act {s' : AttestationNode σ} (act : Action σ) : s.step env act = some s' → LogStep env s s'
  | cut {batch part : List (ExactReplayAttestation σ)} :
      s.worker = .took batch → part <+: batch →
        LogStep env s { s.crashed env with wal := s.wal ++ part }

/-- The states of all runs, whatever fails and whenever the node crashes. -/
def Reaches (env : AttestationEnv σ) : AttestationNode σ → AttestationNode σ → Prop :=
  Relation.ReflTransGen (LogStep env)

/-- The worker has written the batch to the database at some time. -/
def Completed (env : AttestationEnv σ) (s : AttestationNode σ)
    (batch : List (ExactReplayAttestation σ)) : Prop :=
  ∃ t t', Reaches env (new env) t ∧ t.worker = .appended batch ∧
    t.step env (.sync true) = some t' ∧ Reaches env t' s

/-- The log file that a crash leaves: none before the first open, the log of the last step, or that
and a part of the bytes of the append that is under way. -/
inductive CrashFile (keys : KeyCodec σ) (s : AttestationNode σ) : Option (List UInt8) → Prop
  | absent : s.booting = true → s.wal = [] → CrashFile keys s none
  | whole : CrashFile keys s (some (walBytes keys s.wal))
  | cut {batch : List (ExactReplayAttestation σ)} {bytes part : List UInt8} :
      s.worker = .took batch → appendWal keys (some (walBytes keys s.wal)) batch = .ok bytes →
        part <+: bytes → CrashFile keys s (some (walBytes keys s.wal ++ part))

/-- The file ends where a record of the log or of the append ends. -/
def EndsAtRecord (keys : KeyCodec σ) (s : AttestationNode σ) (file : Option (List UInt8)) : Prop :=
  ∀ bytes, file = some bytes →
    ∃ log, log <+: s.wal ++ s.worker.batch ∧ bytes = walBytes keys log

/-- `OpenPersistence` of a new process: the database and the log go into a new store, and the log
into the database. The two times are those of the load and of the import. -/
def openPersistence (env : AttestationEnv σ) (keys : KeyCodec σ) (now later : ℤ)
    (file : Option (List UInt8)) (db : AttestationDb σ) :
    Except String (AttestationDb σ × AttestationStore σ × AttestationHints) := do
  let (store, hints) ← loadDurableAttestations env.curve now (env.cursor db)
    (AttestationStore.setDurableRetention { config := env.config } true) {}
  let log ← loadWal keys file
  importAttestations env.curve later log db store hints

/-- The log is empty when the worker starts an append. -/
def WorkerPhase.isClear : WorkerPhase σ → Bool
  | .idle | .took _ | .finished _ true => true
  | _ => false

/-- The log never has more than a batch. -/
structure LogShort (s : AttestationNode σ) : Prop where
  batch : s.worker.batch.length ≤ persistBatchMax
  wal : s.wal.length ≤ persistBatchMax
  clear : WorkerPhase.isClear s.worker = true → s.wal = []

/-- What a step does to the disk: votes of the database stay, and the log stays short. -/
structure DiskStep (s s' : AttestationNode σ) : Prop where
  present : ∀ a, Present s.db a → Present s'.db a
  short : s.LogShort → s'.LogShort

section Crashes

variable {env : AttestationEnv σ} {keys : KeyCodec σ} {s s' : AttestationNode σ} {act : Action σ}
  {i : ℕ} {now : ℤ} {ok : Bool} {c : CallerPhase σ} {file : Option (List UInt8)}
  {batch : List (ExactReplayAttestation σ)}

theorem LogShort.of_wal (h : s.LogShort) (hworker : s'.worker = s.worker)
    (hwal : s'.wal = s.wal ∨ s'.wal = []) : s'.LogShort := by
  refine ⟨hworker ▸ h.batch, ?_, fun hclear => ?_⟩
  · rcases hwal with hwal | hwal <;> rw [hwal]
    · exact h.wal
    · exact zero_le
  · exact hwal.elim (fun hsame => hsame.trans (h.clear (hworker ▸ hclear))) id

theorem DiskStep.of_wal (hdb : s'.db = s.db) (hworker : s'.worker = s.worker)
    (hwal : s'.wal = s.wal ∨ s'.wal = []) : DiskStep s s' :=
  ⟨fun _ ha => hdb ▸ ha, fun h => h.of_wal hworker hwal⟩

theorem setCaller_disk (s : AttestationNode σ) (i : ℕ) (next : Option (CallerPhase σ)) :
    (s.setCaller i next).db = s.db ∧ (s.setCaller i next).worker = s.worker ∧
      (s.setCaller i next).wal = s.wal := by
  cases next <;> exact ⟨rfl, rfl, rfl⟩

theorem diskStep_advance (hs : s.advance env i now ok c = some s') : DiskStep s s' := by
  cases hclient : c.isClient with
  | true =>
    have hframe := diskFrame_advance hclient hs
    exact .of_wal hframe.db hframe.worker (.inl hframe.wal)
  | false =>
    have hset (t : AttestationNode σ) (next : Option (CallerPhase σ)) (hdb : t.db = s.db)
        (hworker : t.worker = s.worker) (hwal : t.wal = s.wal ∨ t.wal = []) :
        DiskStep s (t.setCaller i next) := by
      obtain ⟨hdb', hworker', hwal'⟩ := setCaller_disk t i next
      exact .of_wal (hdb'.trans hdb) (hworker'.trans hworker) (hwal' ▸ hwal)
    have hreset : (if ok then [] else s.wal) = s.wal ∨ (if ok then [] else s.wal) = [] := by
      cases ok
      · exact .inl rfl
      · exact .inr rfl
    cases c with
    | flushWaiting target | closeWaiting target =>
      simp only [AttestationNode.advance] at hs
      split_ifs at hs
      all_goals exact some.inj hs ▸ hset s _ rfl rfl (.inl rfl)
    | flushChecked =>
      obtain ⟨-, rfl⟩ := advance_flushChecked hs
      exact hset _ _ rfl rfl hreset
    | closeChecked =>
      obtain ⟨-, rfl⟩ := advance_closeChecked hs
      exact hset _ _ rfl rfl hreset
    | closeStopping =>
      simp only [AttestationNode.advance] at hs
      split_ifs at hs
      · exact some.inj hs ▸ hset _ _ rfl rfl (.inl rfl)
      · exact some.inj hs ▸ DiskStep.of_wal rfl rfl (.inl rfl)
    | addStored _ _ | addNoted _ | signChecked _ _ | signCleared _ _ | signStored _ _
    | signNoted _ _ | signMarked _ => exact absurd hclient (by simp [CallerPhase.isClient])

/-- **No step removes a vote from the database, and the log stays short.** -/
theorem diskStep (hwf : s.WellFormed env) (hs : s.step env act = some s') : DiskStep s s' := by
  cases act with
  | add a hash height now =>
    obtain ⟨-, ⟨-, rfl⟩ | ⟨-, rfl⟩⟩ := step_add hs
    all_goals exact .of_wal rfl rfl (.inl rfl)
  | signStart hash height =>
    obtain ⟨-, ⟨-, rfl⟩ | ⟨-, rfl⟩⟩ := step_signStart hs
    all_goals exact .of_wal rfl rfl (.inl rfl)
  | flushStart =>
    rcases step_flushStart hs with ⟨-, rfl⟩ | rfl
    all_goals exact .of_wal rfl rfl (.inl rfl)
  | closeStart =>
    obtain ⟨-, rfl⟩ := step_closeStart hs
    exact .of_wal rfl rfl (.inl rfl)
  | advance i now ok =>
    obtain ⟨c, -, hs⟩ := step_advance hs
    exact diskStep_advance hs
  | erase hash height | expire now =>
    cases hs
    exact .of_wal rfl rfl (.inl rfl)
  | take =>
    obtain ⟨hworker, -, rfl⟩ := step_take hs
    refine ⟨fun _ ha => ha, fun h => ⟨length_take_le _ _, h.wal, fun _ => h.clear ?_⟩⟩
    rw [hworker]
    rfl
  | append ok =>
    obtain ⟨batch, hworker, -, ⟨-, rfl⟩ | ⟨-, rfl⟩⟩ := step_append hs
    · refine ⟨fun _ ha => ha, fun h => ?_⟩
      have hbatch := h.batch
      have hwal := h.clear (by rw [hworker]; rfl)
      rw [hworker] at hbatch
      exact ⟨hbatch, by rw [hwal]; exact hbatch, by simp [WorkerPhase.isClear]⟩
    · exact ⟨fun _ ha => ha, fun h => ⟨zero_le, h.wal, by simp [WorkerPhase.isClear]⟩⟩
  | sync ok =>
    obtain ⟨batch, hworker, ⟨-, rfl⟩ | ⟨-, rfl⟩⟩ := step_sync hs
    all_goals refine ⟨fun _ ha => ?_, fun h => ⟨zero_le, h.wal, by simp [WorkerPhase.isClear]⟩⟩
    · exact present_persist_of_present ha
    · exact ha
  | reset ok =>
    obtain ⟨batch, hworker, rfl⟩ := step_reset hs
    refine ⟨fun _ ha => ha, fun h => ⟨zero_le, ?_, ?_⟩⟩
    · cases ok
      · exact h.wal
      · exact zero_le
    · cases ok <;> simp [WorkerPhase.isClear]
  | report =>
    obtain ⟨size, ok, hworker, rfl⟩ := step_report hs
    refine ⟨fun _ ha => ha, fun h => ⟨by cases ok <;> exact zero_le, h.wal, ?_⟩⟩
    cases ok
    · simp [WorkerPhase.isClear]
    · exact fun _ => h.clear (by rw [hworker]; rfl)
  | exit =>
    obtain ⟨-, -, -, rfl⟩ := step_exit hs
    exact ⟨fun _ ha => ha, fun h => ⟨zero_le, h.wal, by simp [WorkerPhase.isClear]⟩⟩
  | load now =>
    obtain ⟨-, -, store, hints, -, rfl⟩ := step_load hs
    exact .of_wal rfl rfl (.inl rfl)
  | importLog now ok =>
    obtain ⟨-, db, store, hints, himport, ⟨-, rfl⟩ | ⟨-, rfl⟩⟩ := step_importLog hs
    · obtain ⟨rfl, -⟩ := hwf.import_spec himport
      exact ⟨fun _ ha => present_persist_of_present ha, fun h => h.of_wal rfl (.inl rfl)⟩
    · exact .of_wal rfl rfl (.inl rfl)
  | openReset ok =>
    obtain ⟨-, ⟨-, rfl⟩ | ⟨-, rfl⟩⟩ := step_openReset hs
    · exact ⟨fun _ ha => ha, fun _ => ⟨zero_le, zero_le, fun _ => rfl⟩⟩
    · exact .of_wal rfl rfl (.inl rfl)
  | crash =>
    cases hs
    exact ⟨fun _ ha => ha, fun h => ⟨zero_le, h.wal, by simp [crashed, new, WorkerPhase.isClear]⟩⟩

theorem LogStep.disk (hwf : s.WellFormed env) (h : LogStep env s s') :
    s'.WellFormed env ∧ DiskStep s s' := by
  cases h with
  | act act hs => exact ⟨hwf.step hs, diskStep hwf hs⟩
  | @cut batch part hworker hpart =>
    have hcrash : s.step env .crash = some (s.crashed env) := rfl
    refine ⟨{ hwf.step hcrash with wal := fun a ha => ?_ }, fun _ ha => ha, fun h => ?_⟩
    · rcases mem_append.1 ha with ha | ha
      · exact hwf.wal a ha
      · exact hwf.batch a (by rw [hworker]; exact hpart.subset ha)
    · have hbatch := h.batch
      have hwal := h.clear (by rw [hworker]; rfl)
      rw [hworker] at hbatch
      refine ⟨zero_le, ?_, by simp [crashed, new, WorkerPhase.isClear]⟩
      rw [hwal, nil_append]
      exact hpart.length_le.trans hbatch

/-- **Along every run the votes of the database stay.** -/
theorem Reaches.disk (hwf : s.WellFormed env) (h : Reaches env s s') :
    s'.WellFormed env ∧ DiskStep s s' := by
  induction h with
  | refl => exact ⟨hwf, fun _ ha => ha, id⟩
  | tail _ hstep ih =>
    obtain ⟨hwf', hnext⟩ := hstep.disk ih.1
    exact ⟨hwf', fun a ha => hnext.present a (ih.2.present a ha),
      fun hshort => hnext.short (ih.2.short hshort)⟩

theorem wellFormed_new (env : AttestationEnv σ) : (new env).WellFormed env :=
  (Run.start (P := fun _ _ => True)).wellFormed

theorem Completed.present (h : Completed env s batch) : ∀ a ∈ batch, Present s.db a := by
  intro a ha
  obtain ⟨t, t', ht, hworker, hsync, hs⟩ := h
  have hwf := (ht.disk (wellFormed_new env)).1
  refine (hs.disk (hwf.step hsync)).2.present a ?_
  obtain ⟨batch', hworker', ⟨-, rfl⟩ | ⟨hok, -⟩⟩ := step_sync hsync
  · obtain rfl : batch = batch' := by rw [hworker] at hworker'; injection hworker'
    exact present_persist_of_mem ha
  · cases hok

theorem WellFormed.readable (h : s.WellFormed env) (keys : KeyCodec σ)
    {a : ExactReplayAttestation σ}
    (ha : a ∈ s.accepted) (hheight : a.statement.blockHeight < 2 ^ 31) : Readable keys a := by
  have hvalid := h.accepted a ha
  obtain ⟨hversion, hsize⟩ := version_and_size hvalid
  obtain ⟨-, -, h0, -⟩ := verifyAttestation_valid hvalid
  obtain ⟨hnonempty, hshort⟩ := length_attestationBytes keys hsize
  exact ⟨readAttestation_bytes keys hversion hsize h0 hheight, hnonempty, hshort⟩

theorem CrashFile.part (h : CrashFile keys s file) :
    file = none ∨ ∃ part, part <+: walRecords keys (s.wal ++ s.worker.batch) ∧
      file = some (walMagic ++ part) := by
  have happend : walRecords keys (s.wal ++ s.worker.batch) =
      walRecords keys s.wal ++ walRecords keys s.worker.batch := flatMap_append
  cases h with
  | absent hbooting hwal => exact .inl rfl
  | whole => exact .inr ⟨_, by rw [happend]; exact prefix_append _ _, rfl⟩
  | @cut batch bytes part hworker hbytes hpart =>
    refine .inr ⟨walRecords keys s.wal ++ part, ?_, by rw [walBytes, append_assoc]⟩
    simp only [appendWal, bind_eq_ok, pure_eq_ok] at hbytes
    obtain ⟨-, -, -, -, -, -, rfl⟩ := hbytes
    rw [happend, hworker]
    exact (prefix_append_right_inj _).2 hpart

theorem WellFormed.open_ok (h : s.WellFormed env) (now later : ℤ)
    {log : List (ExactReplayAttestation σ)} (hlog : ∀ a ∈ log, a ∈ s.accepted)
    (hload : loadWal keys file = .ok log) :
    ∃ r, openPersistence env keys now later file s.db = .ok r ∧
      ∀ a, Present s.db a → Present r.1 a := by
  obtain ⟨⟨store, hints⟩, hstore⟩ := h.load_ok now {}
  obtain ⟨-, hconfig, -⟩ := loadDurableAttestations_spec (P := fun _ => True) hstore
    (by simp [AttestationStore.VotesIn, AttestationStore.setDurableRetention]) (by simp)
  have hconfig : store.config = env.config := hconfig
  have hvalid : ∀ a, a ∈ s.accepted → a.Valid env.curve store.config :=
    fun a ha => hconfig ▸ h.accepted a ha
  obtain ⟨r, himport, hdb⟩ := importAttestations_ok later hints (fun a ha => hvalid a (hlog a ha))
    (h.db.mono hvalid)
  refine ⟨r, ?_, fun a ha => hdb ▸ present_persist_of_present ha⟩
  simp only [openPersistence, bind_eq_ok]
  exact ⟨(store, hints), hstore, log, hload, himport⟩

end Crashes

/-! ## A cut record -/

def logKeys : KeyCodec (Fin 256) where
  bytes key := [UInt8.ofNat key]
  ofBytes bytes := Fin.ofNat 256 (bytes.headD 0).toNat
  ofBytes_bytes key := by
    ext
    simp
  length_bytes _ := by simp

def logEnv : AttestationEnv (Fin 256) where
  curve := ⟨fun _ => true, fun _ => true, fun _ _ _ => true⟩
  config :=
    { chainId := 1, replayAuthorityContext := 1, trustedSigners := [6], threshold := 1
      maxBlocks := 4, maxAttestations := 4, localSigner := none }
  sign _ := none
  cursor db := db.entries
  cursor_perm _ := List.Perm.refl _

def logVote (hash : Uint256) (height : ℤ) : ExactReplayAttestation (Fin 256) :=
  { statement :=
      { chainId := 1, blockHash := hash, blockHeight := height, replayAuthorityContext := 1 }
    signer := 6
    signature := [0x30, 6, 2, 1, 1, 2, 1, 1] }

/-- A vote is written and the next one accepted; the worker has taken it and is about to append. -/
def logActs : List (Action (Fin 256)) :=
  [.load 0, .importLog 0 true, .openReset true, .add (logVote 7 0) 7 0 0, .advance 0 0 true,
    .advance 0 0 true, .take, .append true, .sync true, .reset true, .report,
    .add (logVote 8 1) 8 1 0, .advance 0 0 true, .advance 0 0 true, .take]

theorem reaches_of_foldlM {s s' : AttestationNode σ} {env : AttestationEnv σ}
    {acts : List (Action σ)}
    (h : acts.foldlM (step env) s = some s') : Reaches env s s' := by
  induction acts generalizing s with
  | nil => exact some.inj h ▸ Relation.ReflTransGen.refl
  | cons act acts ih =>
    rw [foldlM_cons, bind_eq_bind, bind_eq_some_iff] at h
    obtain ⟨t, ht, hrest⟩ := h
    exact Relation.ReflTransGen.head (LogStep.act act ht) (ih hrest)

/-- Twenty bytes of the record that the worker is about to append. -/
def logPart : List UInt8 := (walRecords logKeys [logVote 8 1]).take 20

theorem logActs_reach : ∃ s, Reaches logEnv (new logEnv) s ∧ Completed logEnv s [logVote 7 0] ∧
      s.worker = .took [logVote 8 1] ∧ s.wal = [] ∧
        (∀ a ∈ s.accepted, a.statement.blockHeight < 2 ^ 31) ∧
      (openPersistence logEnv logKeys 0 0 (some (walMagic ++ logPart)) s.db).isOk = false := by
  have hrun : ((logActs.take 8).foldlM (step logEnv) (new logEnv)).any (fun t =>
      decide (t.worker = .appended [logVote 7 0]) && (t.step logEnv (.sync true)).any fun t' =>
        ((logActs.drop 9).foldlM (step logEnv) t').any fun s =>
          decide (s.worker = .took [logVote 8 1] ∧ s.wal = [] ∧
            (∀ a ∈ s.accepted, a.statement.blockHeight < 2 ^ 31) ∧
            (openPersistence logEnv logKeys 0 0 (some (walMagic ++ logPart)) s.db).isOk = false)) =
        true := by
    decide +kernel
  obtain ⟨t, ht, hrun⟩ := (Option.any_eq_true _ _).1 hrun
  obtain ⟨hworker, hrun⟩ := Bool.and_eq_true_iff.1 hrun
  obtain ⟨t', hsync, hrun⟩ := (Option.any_eq_true _ _).1 hrun
  obtain ⟨s, hs, hfacts⟩ := (Option.any_eq_true _ _).1 hrun
  have hreach := reaches_of_foldlM ht
  have hrest := reaches_of_foldlM hs
  exact ⟨s, hreach.trans (hrest.head (LogStep.act _ hsync)),
    ⟨t, t', hreach, of_decide_eq_true hworker, hsync, hrest⟩, of_decide_eq_true hfacts⟩

end AttestationNode
end Btx.Node
