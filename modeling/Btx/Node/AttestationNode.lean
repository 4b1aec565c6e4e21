/-
# The attestation node

Callers, the persistence worker and the disk as one system
(`src/node/matmul_trusted_attestations.cpp`). A step is what one actor does under one lock, and says
which write fails; the log and the database are written in one piece or not at all. The worker and
an open hold the disk lock over their steps; a flush takes it for its own reset only. A crash leaves
the log and the database.
-/

import Btx.Node.AttestationRecords

namespace Btx.Node

open Util Option

variable {σ : Type}

/-- What a node is given: the curve, the configuration, the signature of the local key, and the
order in which the database is walked. -/
structure AttestationEnv (σ : Type) [LinearOrder σ] where
  curve : Curve σ
  config : StoreConfig σ
  sign : ExactReplayStatement → Option (List UInt8)
  cursor : AttestationDb σ → List (BlockKey × List (ExactReplayAttestation σ))
  cursor_perm : ∀ db, (cursor db).Perm db.entries

/-- Where the worker is: what it holds, and the result it has not reported yet. -/
inductive WorkerPhase (σ : Type)
  | stopped
  | idle
  | took (batch : List (ExactReplayAttestation σ))
  | appended (batch : List (ExactReplayAttestation σ))
  | synced (batch : List (ExactReplayAttestation σ))
  | finished (size : ℕ) (ok : Bool)
  deriving DecidableEq

/-- The worker is between its append and its database write. -/
def WorkerPhase.isAppended : WorkerPhase σ → Bool
  | .appended _ => true
  | _ => false

/-- Where a caller is. A flag says whether the store accepted the attestation, or had it. -/
inductive CallerPhase (σ : Type)
  | addStored (a : ExactReplayAttestation σ) (accepted : Bool)
  | addNoted (a : ExactReplayAttestation σ)
  | signChecked (hash : Uint256) (height : ℤ)
  | signCleared (hash : Uint256) (height : ℤ)
  | signStored (a : ExactReplayAttestation σ) (accepted : Bool)
  | signNoted (a : ExactReplayAttestation σ) (accepted : Bool)
  | signMarked (a : ExactReplayAttestation σ)
  | flushWaiting (target : ℕ)
  | flushChecked
  | closeWaiting (target : ℕ)
  | closeChecked
  | closeStopping
  deriving DecidableEq

/-- A flush or a close that has made its check and not reset the log yet. -/
def CallerPhase.isChecked : CallerPhase σ → Bool
  | .flushChecked | .closeChecked => true
  | _ => false

/-- A flush or a close that waits for the worker. -/
def CallerPhase.isWaiting : CallerPhase σ → Bool
  | .flushWaiting _ | .closeWaiting _ => true
  | _ => false

/-- A call of `ClosePersistence`. -/
def CallerPhase.isCloser : CallerPhase σ → Bool
  | .closeWaiting _ | .closeChecked | .closeStopping => true
  | _ => false

/-- A call of `Add` or `SignAuthoritative`. -/
def CallerPhase.isClient : CallerPhase σ → Bool
  | .flushWaiting _ | .flushChecked | .closeWaiting _ | .closeChecked | .closeStopping => false
  | _ => true

/-- The attestation that a caller has still to hand to the queue. -/
def CallerPhase.vote : CallerPhase σ → Option (ExactReplayAttestation σ)
  | .addStored a true | .addNoted a | .signStored a true | .signNoted a true | .signMarked a =>
    some a
  | _ => none

@[simp]
theorem CallerPhase.vote_addStored (a : ExactReplayAttestation σ) (accepted : Bool) :
    (CallerPhase.addStored a accepted).vote = if accepted then some a else none := by
  cases accepted <;> rfl

@[simp]
theorem CallerPhase.vote_signStored (a : ExactReplayAttestation σ) (accepted : Bool) :
    (CallerPhase.signStored a accepted).vote = if accepted then some a else none := by
  cases accepted <;> rfl

/-- The block that a call of `SignAuthoritative` is about, until the height map has it. -/
def CallerPhase.target : CallerPhase σ → Option (ℤ × Uint256)
  | .signChecked hash height | .signCleared hash height => some (height, hash)
  | .signStored a _ | .signNoted a _ => some (a.statement.blockHeight, a.statement.blockHash)
  | _ => none

/-- The block whose signature a call has handed out and not put into the height map. -/
def CallerPhase.signed : CallerPhase σ → Option (ℤ × Uint256)
  | .signStored a _ | .signNoted a _ => some (a.statement.blockHeight, a.statement.blockHash)
  | _ => none

/-- What the worker has taken and not written to the database. -/
def WorkerPhase.batch : WorkerPhase σ → List (ExactReplayAttestation σ)
  | .took batch | .appended batch => batch
  | _ => []

/-- The worker has failed and has not reported it. -/
def WorkerPhase.hasFailed : WorkerPhase σ → Bool
  | .finished _ ok => !ok
  | _ => false

/-- What the worker has in the log and not in the database. -/
def WorkerPhase.unwritten : WorkerPhase σ → List (ExactReplayAttestation σ)
  | .appended batch => batch
  | _ => []

/-- What the worker has put into the log and not reset. -/
def WorkerPhase.logged : WorkerPhase σ → List (ExactReplayAttestation σ)
  | .appended batch | .synced batch => batch
  | _ => []

/-- The number of attestations that the worker has taken and not reported. -/
def WorkerPhase.held : WorkerPhase σ → ℕ
  | .took batch | .appended batch | .synced batch => batch.length
  | .finished size _ => size
  | _ => 0

/-- How far persistence is open. -/
inductive OpenPhase
  | closed
  | loaded
  | imported
  | opened
  deriving DecidableEq

/-- The state of a node. The last four fields are history: what the store accepted, what the worker
committed, the blocks that the local key signed, and whether a batch in the log has missed its
database write. -/
structure AttestationNode (σ : Type) [LinearOrder σ] where
  wal : List (ExactReplayAttestation σ) := []
  db : AttestationDb σ := .empty
  store : AttestationStore σ
  hints : AttestationHints := {}
  phase : OpenPhase := .closed
  booting : Bool := true
  enabled : Bool := false
  pending : List (ExactReplayAttestation σ) := []
  queued : ℕ := 0
  completed : ℕ := 0
  error : Bool := false
  stop : Bool := false
  worker : WorkerPhase σ := .stopped
  callers : List (CallerPhase σ) := []
  accepted : List (ExactReplayAttestation σ) := []
  committed : List (ExactReplayAttestation σ) := []
  handedOut : List (ℤ × Uint256) := []
  syncMissed : Bool := false

variable [LinearOrder σ]

namespace AttestationNode

variable (env : AttestationEnv σ)

/-- A node before its first start. -/
def new : AttestationNode σ := { store := { config := env.config } }

/-- `PERSIST_BATCH_MAX`. -/
def persistBatchMax : ℕ := 256

variable (s : AttestationNode σ)

/-- Whether `g_persist_io_mutex` is held, by the worker or by an open. -/
def ioHeld : Bool :=
  match s.worker, s.phase with
  | .appended _, _ | .synced _, _ | _, .loaded | _, .imported => true
  | _, _ => false

/-- `HasQuorumInMemory`. -/
def hasQuorumInMemory (hash : Uint256) (height : ℤ) : Bool :=
  s.store.hasQuorum hash height

/-- `HasCompetingQuorum`. -/
def hasCompetingQuorum (hash : Uint256) (height : ℤ) : Bool :=
  !decide (height < 0) && !decide hash.IsNull &&
    ((s.hints.attestedByHeight.find? height).getD []).any fun other =>
      decide (other ≠ hash) && !decide other.IsNull && s.hasQuorumInMemory other height

/-- `HasLocalSignatureAtHeight`. -/
def hasLocalSignatureAtHeight (hash : Uint256) (height : ℤ) : Bool :=
  !decide (height < 0) && !decide hash.IsNull &&
    (s.hints.localSigned.find? height).any fun other =>
      !decide other.IsNull && decide (other ≠ hash)

/-- The check of `SignLocal`: another block of the height has the local signature, or a quorum. -/
def heightTaken (localSigner : σ) (hash : Uint256) (height : ℤ) : Bool :=
  s.store.buckets.entries.any fun e =>
    decide ((ofLex e.1).1 = height) && decide ((ofLex e.1).2 ≠ hash) &&
      (e.2.attestations.contains localSigner ||
        decide (s.store.config.threshold ≤ e.2.attestations.size))

/-- `HasQuorum`: from memory, or else from the record on disk. -/
def hasQuorum (s : AttestationNode σ) (hash : Uint256) (height : ℤ) : Bool :=
  s.hasQuorumInMemory hash height ||
    (decide (s.phase = .opened) &&
      decide (env.config.threshold ≤ ((((s.db.find? (blockKey height hash)).getD []).filter fun a =>
        verifyAttestation env.curve a env.config.chainId env.config.replayAuthorityContext hash
          height
          env.config.trustedSigners = .valid).map ExactReplayAttestation.signer).dedup.length))

/-- The statement that the local key signs. -/
def statementFor (hash : Uint256) (height : ℤ) : ExactReplayStatement :=
  { chainId := env.config.chainId, blockHash := hash, blockHeight := height
    replayAuthorityContext := env.config.replayAuthorityContext }

/-- `PersistAfterMutation`. -/
def persistAfterMutation (a : ExactReplayAttestation σ) : AttestationNode σ :=
  if s.enabled then { s with pending := s.pending ++ [a], queued := s.queued + 1 } else s

/-- The attestations the store accepts are recorded. -/
def addToStore (s : AttestationNode σ) (a : ExactReplayAttestation σ)
    (hash : Uint256) (height now : ℤ) : AddResult × AttestationNode σ :=
  let r := s.store.add env.curve a hash height now
  (r.1, { s with
    store := r.2
    accepted := if r.1 = .accepted then s.accepted ++ [a] else s.accepted })

/-- Replaces the phase of a caller, or ends the call. -/
def setCaller (i : ℕ) (next : Option (CallerPhase σ)) : AttestationNode σ :=
  match next with
  | some phase => { s with callers := s.callers.set i phase }
  | none => { s with callers := s.callers.eraseIdx i }

/-! ## Steps -/

/-- What the actors do. -/
inductive Action (σ : Type)
  | add (a : ExactReplayAttestation σ) (hash : Uint256) (height now : ℤ)
  | signStart (hash : Uint256) (height : ℤ)
  | flushStart
  | closeStart
  | advance (i : ℕ) (now : ℤ) (ok : Bool)
  | erase (hash : Uint256) (height : ℤ)
  | expire (now : ℤ)
  | take
  | append (ok : Bool)
  | sync (ok : Bool)
  | reset (ok : Bool)
  | report
  | exit
  | load (now : ℤ)
  | importLog (now : ℤ) (ok : Bool)
  | openReset (ok : Bool)
  | crash

/-- The next step of the caller in place `i`. -/
def advance (s : AttestationNode σ) (i : ℕ) (now : ℤ) (ok : Bool) :
    CallerPhase σ → Option (AttestationNode σ)
  | .addStored a accepted => some <|
      ({ s with
          hints := s.hints.noteAccepted a.statement.blockHeight a.statement.blockHash }).setCaller i
        (if accepted then some (.addNoted a) else none)
  | .addNoted a => some ((s.persistAfterMutation a).setCaller i none)
  | .signChecked hash height =>
      -- the check of `SignLocal`, under the lock of the store
      match env.config.localSigner with
      | none => some (s.setCaller i none)
      | some localSigner =>
          if s.heightTaken localSigner hash height then some (s.setCaller i none)
          else some (s.setCaller i (some (.signCleared hash height)))
  | .signCleared hash height =>
      -- the signature, and `Add` under the lock of the store again
      match env.config.localSigner, env.sign (statementFor env hash height) with
      | some localSigner, some signature =>
          let a : ExactReplayAttestation σ := ⟨statementFor env hash height, localSigner, signature⟩
          let r := s.addToStore env a hash height now
          if r.1 = .accepted ∨ r.1 = .duplicate then
            some (({ r.2 with handedOut := r.2.handedOut ++ [(height, hash)] }).setCaller i
              (some (.signStored a (decide (r.1 = AddResult.accepted)))))
          else some (r.2.setCaller i none)
      | _, _ => some (s.setCaller i none)
  | .signStored a accepted => some <|
      ({ s with
          hints := s.hints.noteAccepted a.statement.blockHeight a.statement.blockHash }).setCaller i
        (some (.signNoted a accepted))
  | .signNoted a accepted => some <|
      let signed := if 0 ≤ a.statement.blockHeight ∧ ¬a.statement.blockHash.IsNull then
          emplaceSigned s.hints.localSigned a.statement.blockHeight a.statement.blockHash
        else s.hints.localSigned
      ({ s with hints := { s.hints with localSigned := signed } }).setCaller i
        (if accepted then some (.signMarked a) else none)
  | .signMarked a => some ((s.persistAfterMutation a).setCaller i none)
  | .flushWaiting target =>
      if s.error then some (s.setCaller i none)
      else if target ≤ s.completed then some (s.setCaller i (some .flushChecked))
      else none
  | .flushChecked =>
      if s.ioHeld then none
      else some (({ s with wal := if ok then [] else s.wal }).setCaller i none)
  | .closeWaiting target =>
      if s.error then some (s.setCaller i (some .closeStopping))
      else if target ≤ s.completed then some (s.setCaller i (some .closeChecked))
      else none
  | .closeChecked =>
      if s.ioHeld then none
      else some (({ s with wal := if ok then [] else s.wal }).setCaller i (some .closeStopping))
  | .closeStopping =>
      -- `StopPersistenceWorker` joins, and the database is closed under the disk lock
      if s.worker = .stopped ∧ s.ioHeld = false then
        some (({ s with stop := true, phase := .closed }).setCaller i none)
      else some { s with stop := true }

/-- What a crash leaves: the disk. -/
def crashed (s : AttestationNode σ) : AttestationNode σ :=
  { new env with
    wal := s.wal, db := s.db, accepted := s.accepted, committed := s.committed
    handedOut := s.handedOut
    syncMissed := s.syncMissed || s.worker.isAppended }

/-- One step, where it can be taken. -/
def step (s : AttestationNode σ) : Action σ → Option (AttestationNode σ)
  | .add a hash height now =>
      if s.booting then none
      else
        let r := s.addToStore env a hash height now
        if r.1 = .accepted ∨ r.1 = .duplicate then
          some { r.2 with callers := r.2.callers ++ [.addStored a (decide (r.1 = .accepted))] }
        else some r.2
  | .signStart hash height =>
      if s.booting then none
      else if s.hasCompetingQuorum hash height ∨ s.hasLocalSignatureAtHeight hash height then some s
      else some { s with callers := s.callers ++ [.signChecked hash height] }
  | .flushStart =>
      if s.enabled then some { s with callers := s.callers ++ [.flushWaiting s.queued] } else some s
  | .closeStart =>
      if s.booting then none
      else some { s with
        enabled := false
        callers := s.callers ++ [if s.enabled then .closeWaiting s.queued else .closeStopping] }
  | .advance i now ok =>
      match s.callers[i]? with
      | none => none
      | some caller => s.advance env i now ok caller
  | .erase hash height => some { s with store := s.store.erase hash height }
  | .expire now => some { s with store := s.store.pruneExpiredLocked now }
  | .take =>
      if s.worker = .idle ∧ s.pending ≠ [] then
        some { s with
          worker := .took (s.pending.take persistBatchMax)
          pending := s.pending.drop persistBatchMax }
      else none
  | .append ok =>
      match s.worker with
      | .took batch =>
          if s.ioHeld then none
          else if ok then
            some { s with
              wal := s.wal ++ batch, worker := .appended batch, committed := s.committed ++ batch }
          else some { s with worker := .finished batch.length false }
      | _ => none
  | .sync ok =>
      match s.worker with
      | .appended batch =>
          if ok then
            some { s with db := persistDurableAttestations s.db batch, worker := .synced batch }
          else some { s with worker := .finished batch.length false, syncMissed := true }
      | _ => none
  | .reset ok =>
      match s.worker with
      | .synced batch =>
          some { s with
            wal := if ok then [] else s.wal, worker := .finished batch.length ok }
      | _ => none
  | .report =>
      match s.worker with
      | .finished size ok =>
          some { s with
            completed := s.completed + size
            error := s.error || !ok
            worker := if ok then .idle else .stopped }
      | _ => none
  | .exit =>
      if s.worker = .idle ∧ s.pending = [] ∧ s.stop then some { s with worker := .stopped }
      else none
  | .load now =>
      -- `SetDurableRetention(true)` and `LoadDurableAttestations`
      if s.phase = .closed ∧ s.worker = .stopped then
        match loadDurableAttestations env.curve now (env.cursor s.db)
            (s.store.setDurableRetention true) s.hints with
        | .ok r => some { s with store := r.1, hints := r.2, phase := .loaded }
        | .error _ => none
      else none
  | .importLog now ok =>
      if s.phase = .loaded then
        match importAttestations env.curve now s.wal s.db s.store s.hints with
        | .ok r =>
            if ok then
              some { s with
                db := r.1, store := r.2.1, hints := r.2.2, phase := .imported, syncMissed := false }
            else some { s with store := r.2.1, phase := .closed }
        | .error _ => none
      else none
  | .openReset ok =>
      if s.phase = .imported then
        if ok then
          some { s with
            wal := [], phase := .opened, booting := false, enabled := true, pending := []
            queued := 0, completed := 0, stop := false, error := false, worker := .idle }
        else some { s with phase := .closed }
      else none
  | .crash => some (s.crashed env)

/-! ## What a step needs and does -/

section Inversion

variable {env : AttestationEnv σ} {s s' : AttestationNode σ} {i : ℕ} {now : ℤ} {ok : Bool}

variable {hash : Uint256} {height : ℤ}

theorem step_add {a : ExactReplayAttestation σ}
    (h : s.step env (.add a hash height now) = some s') :
    s.booting = false ∧
      ((((s.addToStore env a hash height now).1 = .accepted ∨
          (s.addToStore env a hash height now).1 = .duplicate) ∧
        s' = { (s.addToStore env a hash height now).2 with
          callers := s.callers ++
            [.addStored a (decide ((s.addToStore env a hash height now).1 = .accepted))] }) ∨
      (¬((s.addToStore env a hash height now).1 = .accepted ∨
          (s.addToStore env a hash height now).1 = .duplicate) ∧
        s' = (s.addToStore env a hash height now).2)) := by
  simp only [step] at h
  split_ifs at h with hbooting hresult
  · exact ⟨by simpa using hbooting, .inl ⟨hresult, (some.inj h).symm⟩⟩
  · exact ⟨by simpa using hbooting, .inr ⟨hresult, (some.inj h).symm⟩⟩

theorem step_signStart (h : s.step env (.signStart hash height) = some s') :
    s.booting = false ∧
      ((s.hasCompetingQuorum hash height ∨ s.hasLocalSignatureAtHeight hash height) ∧ s' = s ∨
        s.hasLocalSignatureAtHeight hash height = false ∧
          s' = { s with callers := s.callers ++ [.signChecked hash height] }) := by
  simp only [step] at h
  split_ifs at h with hbooting hrefused
  · exact ⟨by simpa using hbooting, .inl ⟨hrefused, (some.inj h).symm⟩⟩
  · push Not at hrefused
    exact ⟨by simpa using hbooting, .inr ⟨by simpa using hrefused.2, (some.inj h).symm⟩⟩

theorem step_flushStart (h : s.step env .flushStart = some s') :
    s.enabled = true ∧ s' = { s with callers := s.callers ++ [.flushWaiting s.queued] } ∨
      s' = s := by
  simp only [step] at h
  split_ifs at h with henabled
  · exact .inl ⟨henabled, (some.inj h).symm⟩
  · exact .inr (some.inj h).symm

theorem step_closeStart (h : s.step env .closeStart = some s') : s.booting = false ∧ s' = { s with
      enabled := false
      callers := s.callers ++ [if s.enabled then .closeWaiting s.queued else .closeStopping] } := by
  simp only [step] at h
  by_cases hb : s.booting = true
  · simp [hb] at h
  · rw [if_neg hb] at h
    exact ⟨by simpa using hb, (some.inj h).symm⟩

theorem step_advance (h : s.step env (.advance i now ok) = some s') :
    ∃ c, s.callers[i]? = some c ∧ s.advance env i now ok c = some s' := by
  simp only [step] at h
  split at h
  · cases h
  · next c hc => exact ⟨c, hc, h⟩

theorem advance_flushChecked (h : s.advance env i now ok .flushChecked = some s') :
    s.ioHeld = false ∧ s' = ({ s with wal := if ok then [] else s.wal }).setCaller i none := by
  simp only [advance] at h
  by_cases hio : s.ioHeld = true
  · simp [hio] at h
  · rw [if_neg hio] at h
    exact ⟨by simpa using hio, (some.inj h).symm⟩

theorem advance_closeChecked (h : s.advance env i now ok .closeChecked = some s') :
    s.ioHeld = false ∧
      s' = ({ s with wal := if ok then [] else s.wal }).setCaller i (some .closeStopping) := by
  simp only [advance] at h
  by_cases hio : s.ioHeld = true
  · simp [hio] at h
  · rw [if_neg hio] at h
    exact ⟨by simpa using hio, (some.inj h).symm⟩

theorem step_take (h : s.step env .take = some s') :
    s.worker = .idle ∧ s.pending ≠ [] ∧ s' = { s with
      worker := .took (s.pending.take persistBatchMax)
      pending := s.pending.drop persistBatchMax } := by
  simp only [step] at h
  split_ifs at h with hc
  exact ⟨hc.1, hc.2, (some.inj h).symm⟩

theorem step_append (h : s.step env (.append ok) = some s') :
    ∃ batch, s.worker = .took batch ∧ s.ioHeld = false ∧
      (ok = true ∧ s' = { s with
          wal := s.wal ++ batch, worker := .appended batch, committed := s.committed ++ batch } ∨
        ok = false ∧ s' = { s with worker := .finished batch.length false }) := by
  simp only [step] at h
  split at h
  · next batch hw =>
    split_ifs at h with hio hok
    · exact ⟨batch, hw, by simpa using hio, .inl ⟨hok, (some.inj h).symm⟩⟩
    · exact ⟨batch, hw, by simpa using hio, .inr ⟨by simpa using hok, (some.inj h).symm⟩⟩
  · cases h

theorem step_sync (h : s.step env (.sync ok) = some s') : ∃ batch, s.worker = .appended batch ∧
      (ok = true ∧ s' = { s with
          db := persistDurableAttestations s.db batch, worker := .synced batch } ∨
        ok = false ∧
          s' = { s with worker := .finished batch.length false, syncMissed := true }) := by
  simp only [step] at h
  split at h
  · next batch hw =>
    split_ifs at h with hok
    · exact ⟨batch, hw, .inl ⟨hok, (some.inj h).symm⟩⟩
    · exact ⟨batch, hw, .inr ⟨by simpa using hok, (some.inj h).symm⟩⟩
  · cases h

theorem step_reset (h : s.step env (.reset ok) = some s') :
    ∃ batch, s.worker = .synced batch ∧ s' = { s with
      wal := if ok then [] else s.wal, worker := .finished batch.length ok } := by
  simp only [step] at h
  split at h
  · next batch hw => exact ⟨batch, hw, (some.inj h).symm⟩
  · cases h

theorem step_report (h : s.step env .report = some s') :
    ∃ size ok, s.worker = .finished size ok ∧ s' = { s with
      completed := s.completed + size
      error := s.error || !ok
      worker := if ok then .idle else .stopped } := by
  simp only [step] at h
  split at h
  · next size ok hw => exact ⟨size, ok, hw, (some.inj h).symm⟩
  · cases h

theorem step_exit (h : s.step env .exit = some s') :
    s.worker = .idle ∧ s.pending = [] ∧ s.stop = true ∧ s' = { s with worker := .stopped } := by
  simp only [step] at h
  split_ifs at h with hc
  exact ⟨hc.1, hc.2.1, hc.2.2, (some.inj h).symm⟩

theorem step_load (h : s.step env (.load now) = some s') : s.phase = .closed ∧ s.worker = .stopped ∧
      ∃ store hints, loadDurableAttestations env.curve now (env.cursor s.db)
          (s.store.setDurableRetention true) s.hints = .ok (store, hints) ∧
        s' = { s with store := store, hints := hints, phase := .loaded } := by
  simp only [step] at h
  split_ifs at h with hc
  split at h
  · next r hr => exact ⟨hc.1, hc.2, r.1, r.2, hr, (some.inj h).symm⟩
  · cases h

theorem step_importLog (h : s.step env (.importLog now ok) = some s') :
    s.phase = .loaded ∧ ∃ db store hints,
      importAttestations env.curve now s.wal s.db s.store s.hints = .ok (db, store, hints) ∧
        (ok = true ∧ s' = { s with
            db := db, store := store, hints := hints, phase := .imported, syncMissed := false } ∨
          ok = false ∧ s' = { s with store := store, phase := .closed }) := by
  simp only [step] at h
  by_cases hc : s.phase = .loaded
  · rw [if_pos hc] at h
    cases himport : importAttestations env.curve now s.wal s.db s.store s.hints with
    | error e => simp [himport] at h
    | ok r =>
      rw [himport] at h
      refine ⟨hc, r.1, r.2.1, r.2.2, rfl, ?_⟩
      cases ok with
      | true => exact .inl ⟨rfl, (some.inj h).symm⟩
      | false => exact .inr ⟨rfl, (some.inj h).symm⟩
  · simp [hc] at h

theorem step_openReset (h : s.step env (.openReset ok) = some s') : s.phase = .imported ∧
      (ok = true ∧ s' = { s with
          wal := [], phase := .opened, booting := false, enabled := true, pending := []
          queued := 0, completed := 0, stop := false, error := false, worker := .idle } ∨
        ok = false ∧ s' = { s with phase := .closed }) := by
  simp only [step] at h
  split_ifs at h with hc hok
  · exact ⟨hc, .inl ⟨hok, (some.inj h).symm⟩⟩
  · exact ⟨hc, .inr ⟨by simpa using hok, (some.inj h).symm⟩⟩

end Inversion

end AttestationNode

end Btx.Node
