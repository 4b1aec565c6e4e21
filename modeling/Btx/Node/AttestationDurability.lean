/-
# What survives on disk

The worker and an open reset the log under the disk lock. A flush or a close resets it after it has
let go of the worker's lock: the worker can append a later batch and fail to write it to the
database before the reset, which then removes the only copy (`flush_removes_only_copy`).
-/

import Btx.Node.AttestationOrigin

namespace Btx.Node.AttestationNode

open Util CallerPhase List Option WorkerPhase

variable {σ : Type} [LinearOrder σ] {env : AttestationEnv σ}

/-- The order of steps under which nothing is lost. -/
def inOrder (s : AttestationNode σ) : Action σ → Bool
  | .sync false => s.callers.all fun c => !c.isChecked
  | .advance i _ _ => !((s.callers[i]?).any CallerPhase.isWaiting && s.worker.hasFailed)
  | _ => true

/-- What is committed is on disk, and a log that misses a database write is known to. -/
structure Durable (s : AttestationNode σ) : Prop where
  kept : ∀ a ∈ s.committed, Present s.db a ∨ a ∈ s.wal
  covered : s.syncMissed = false → ∀ a ∈ s.wal, Present s.db a ∨ a ∈ s.worker.unwritten
  checked : ∀ c ∈ s.callers, c.isChecked = true → s.syncMissed = false
  missed : s.syncMissed = true →
    (s.worker = .stopped ∧ (s.error = true ∨ s.booting = true)) ∨
      ∃ size, s.worker = .finished size false
  imported : s.phase = .imported → s.syncMissed = false

/-- A step that leaves the disk and the worker alone, and makes no check. -/
structure DiskFrame (s s' : AttestationNode σ) : Prop where
  wal : s'.wal = s.wal
  db : s'.db = s.db
  committed : s'.committed = s.committed
  syncMissed : s'.syncMissed = s.syncMissed
  worker : s'.worker = s.worker
  phase : s'.phase = s.phase
  error : s'.error = s.error
  booting : s'.booting = s.booting
  checked : ∀ c ∈ s'.callers, c.isChecked = true → c ∈ s.callers

section Steps

variable {s s' t : AttestationNode σ} {act : Action σ} {i : ℕ} {now : ℤ} {ok : Bool}
  {c : CallerPhase σ} {next : Option (CallerPhase σ)}

theorem Durable.frame (h : s.Durable) (hf : DiskFrame s s') : s'.Durable where
  kept := by rw [hf.committed, hf.db, hf.wal]; exact h.kept
  covered := by rw [hf.syncMissed, hf.db, hf.wal, hf.worker]; exact h.covered
  checked c hc hchecked := hf.syncMissed ▸ h.checked c (hf.checked c hc hchecked) hchecked
  missed := by rw [hf.syncMissed, hf.worker, hf.error, hf.booting]; exact h.missed
  imported := by rw [hf.phase, hf.syncMissed]; exact h.imported

theorem DiskFrame.refl (s : AttestationNode σ) : DiskFrame s s :=
  ⟨rfl, rfl, rfl, rfl, rfl, rfl, rfl, rfl, fun _ hc _ => hc⟩

theorem DiskFrame.setCaller (h : DiskFrame s t)
    (hnext : ∀ c, next = some c → c.isChecked = false) : DiskFrame s (t.setCaller i next) := by
  have hchecked : ∀ c ∈ (t.setCaller i next).callers, c.isChecked = true → c ∈ s.callers := by
    intro c hc hcheck
    rcases mem_setCaller hc with hc | hc
    · exact h.checked c hc hcheck
    · exact absurd hcheck (by simp [hnext c hc])
  cases next with
  | some phase | none => exact { h with checked := hchecked }

theorem DiskFrame.addCaller (h : DiskFrame s t) (hc : c.isChecked = false) :
    DiskFrame s { t with callers := t.callers ++ [c] } := by
  refine { h with checked := fun c' hc' hcheck => ?_ }
  rcases mem_append.1 hc' with hc' | hc'
  · exact h.checked c' hc' hcheck
  · rw [mem_singleton.1 hc', hc] at hcheck
    cases hcheck

theorem diskFrame_persistAfterMutation (s : AttestationNode σ) (a : ExactReplayAttestation σ) :
    DiskFrame s (s.persistAfterMutation a) := by
  unfold persistAfterMutation
  split_ifs
  · exact { DiskFrame.refl s with }
  · exact .refl s

/-- `Add` and `SignAuthoritative` leave the disk alone. -/
theorem diskFrame_advance (hc : c.isClient = true) (hs : s.advance env i now ok c = some s') :
    DiskFrame s s' := by
  have hrefl := DiskFrame.refl s
  cases c with
  | addStored a accepted | signNoted a accepted =>
    cases hs
    refine DiskFrame.setCaller { hrefl with } ?_
    cases accepted <;> simp [isChecked]
  | addNoted a | signMarked a =>
    cases hs
    exact (diskFrame_persistAfterMutation s a).setCaller (by simp)
  | signChecked hash height =>
    simp only [advance] at hs
    split at hs
    · exact some.inj hs ▸ hrefl.setCaller (by simp)
    · split_ifs at hs
      · exact some.inj hs ▸ hrefl.setCaller (by simp)
      · exact some.inj hs ▸ hrefl.setCaller (by simp [isChecked])
  | signCleared hash height =>
    simp only [advance] at hs
    split at hs
    · split_ifs at hs
      · exact some.inj hs ▸ DiskFrame.setCaller { hrefl with } (by simp [isChecked])
      · exact some.inj hs ▸ DiskFrame.setCaller { hrefl with } (by simp)
    · exact some.inj hs ▸ hrefl.setCaller (by simp)
  | signStored a accepted =>
    cases hs
    exact DiskFrame.setCaller { hrefl with } (by simp [isChecked])
  | flushWaiting _ | flushChecked | closeWaiting _ | closeChecked | closeStopping =>
    exact absurd hc (by simp [isClient])

theorem Durable.not_missed (h : s.Durable) (hstopped : s.worker = .stopped → s.error = false ∧
    s.booting = false) (hfinished : ∀ size, s.worker ≠ .finished size false) :
    s.syncMissed = false := by
  by_contra hmissed
  rcases h.missed (by simpa using hmissed) with ⟨hw, herror | hbooting⟩ | ⟨size, hw⟩
  · simp [(hstopped hw).1] at herror
  · simp [(hstopped hw).2] at hbooting
  · exact hfinished size hw

theorem worker_of_inOrder (hordered : s.inOrder (.advance i now ok) = true)
    (hc : s.callers[i]? = some c) (hwaiting : c.isWaiting = true) (size : ℕ) :
    s.worker ≠ .finished size false := by
  intro hworker
  simp [inOrder, hc, hwaiting, hworker, hasFailed] at hordered

theorem unwritten_of_not_ioHeld (h : s.ioHeld = false) : s.worker.unwritten = [] := by
  unfold ioHeld at h
  cases hw : s.worker <;> simp_all [unwritten]

/-- **A log whose records are all in the database can be reset.** -/
theorem Durable.resetWal (h : s.Durable) (hmissed : s.syncMissed = false)
    (hunwritten : s.worker.unwritten = []) (ok : Bool) :
    ({ s with wal := if ok then [] else s.wal } : AttestationNode σ).Durable := by
  cases ok with
  | false => exact h
  | true =>
    refine { h with kept := fun a ha => ?_, covered := by simp }
    rcases h.kept a ha with hpresent | hwal
    · exact .inl hpresent
    · exact .inl ((h.covered hmissed a hwal).resolve_right (by simp [hunwritten]))

omit [LinearOrder σ] in
theorem unwritten_of_not_isAppended {w : WorkerPhase σ} (h : w.isAppended = false) :
    w.unwritten = [] := by
  cases w <;> simp_all [isAppended, unwritten]

theorem Durable.setWorker (h : s.Durable) (hmissed : s.syncMissed = false)
    (hunwritten : s.worker.unwritten = []) (w : WorkerPhase σ) :
    ({ s with worker := w } : AttestationNode σ).Durable :=
  { h with
    covered := fun hm a ha => .inl ((h.covered hm a ha).resolve_right (by simp [hunwritten]))
    missed := fun hm => absurd (hmissed.symm.trans hm) Bool.false_ne_true }

theorem Durable.setCaller (h : s.Durable)
    (hnext : ∀ c, next = some c → c.isChecked = true → s.syncMissed = false) :
    (s.setCaller i next).Durable := by
  have hchecked : ∀ c ∈ (s.setCaller i next).callers, c.isChecked = true →
      s.syncMissed = false := by
    intro c hc hcheck
    rcases mem_setCaller hc with hc | hc
    · exact h.checked c hc hcheck
    · exact hnext c hc hcheck
  cases next with
  | some phase | none => exact { h with checked := hchecked }

/-- **Every step of a caller keeps the disk complete, a flush and a close included.** -/
theorem Durable.advance (h : s.Durable) (hwf : s.WellFormed env)
    (hordered : s.inOrder (.advance i now ok) = true) (hc : s.callers[i]? = some c)
    (hs : s.advance env i now ok c = some s') : s'.Durable := by
  have hchecked := h.checked c (mem_of_getElem? hc)
  have hbooting := hwf.not_booting hc
  cases hclient : c.isClient with
  | true => exact h.frame (diskFrame_advance hclient hs)
  | false =>
    cases c with
    | flushWaiting target =>
      simp only [AttestationNode.advance] at hs
      split_ifs at hs with herror htarget
      · exact some.inj hs ▸ h.setCaller (by simp)
      · have hmissed := h.not_missed (fun _ => ⟨by simpa using herror, hbooting⟩)
          (worker_of_inOrder hordered hc rfl)
        exact some.inj hs ▸ h.setCaller fun _ _ _ => hmissed
    | flushChecked =>
      obtain ⟨hio, rfl⟩ := advance_flushChecked hs
      have hreset := h.resetWal (hchecked rfl) (unwritten_of_not_ioHeld hio) ok
      exact hreset.setCaller (by simp)
    | closeWaiting target =>
      simp only [AttestationNode.advance] at hs
      split_ifs at hs with herror htarget
      · exact some.inj hs ▸ h.setCaller (by simp [isChecked])
      · have hmissed := h.not_missed (fun _ => ⟨by simpa using herror, hbooting⟩)
          (worker_of_inOrder hordered hc rfl)
        exact some.inj hs ▸ h.setCaller fun _ _ _ => hmissed
    | closeChecked =>
      obtain ⟨hio, rfl⟩ := advance_closeChecked hs
      have hreset := h.resetWal (hchecked rfl) (unwritten_of_not_ioHeld hio) ok
      exact hreset.setCaller (by simp [isChecked])
    | closeStopping =>
      simp only [AttestationNode.advance] at hs
      split_ifs at hs
      · exact some.inj hs ▸ Durable.setCaller { h with imported := by simp } (by simp)
      · exact some.inj hs ▸ { h with }
    | addStored _ _ | addNoted _ | signChecked _ _ | signCleared _ _ | signStored _ _
    | signNoted _ _ | signMarked _ => exact absurd hclient (by simp [isClient])

/-- **Every step in order keeps the disk complete.** -/
theorem Durable.step (h : s.Durable) (hwf : s.WellFormed env) (hordered : s.inOrder act = true)
    (hs : s.step env act = some s') : s'.Durable := by
  have hrefl := DiskFrame.refl s
  cases act with
  | add a hash height now =>
    obtain ⟨-, ⟨-, rfl⟩ | ⟨-, rfl⟩⟩ := step_add hs
    · have hadd : DiskFrame s (s.addToStore env a hash height now).2 := { hrefl with }
      exact h.frame (hadd.addCaller rfl)
    · exact h.frame { hrefl with }
  | signStart hash height =>
    obtain ⟨-, ⟨-, rfl⟩ | ⟨-, rfl⟩⟩ := step_signStart hs
    · exact h
    · exact h.frame (hrefl.addCaller rfl)
  | flushStart =>
    rcases step_flushStart hs with ⟨-, rfl⟩ | rfl
    · exact h.frame (hrefl.addCaller rfl)
    · exact h
  | closeStart =>
    obtain ⟨-, rfl⟩ := step_closeStart hs
    have hdisabled : DiskFrame s { s with enabled := false } := { hrefl with }
    exact h.frame (hdisabled.addCaller (by split_ifs <;> rfl))
  | advance i now ok =>
    obtain ⟨c, hc, hs⟩ := step_advance hs
    exact h.advance hwf hordered hc hs
  | erase hash height | expire now =>
    cases hs
    exact h.frame { hrefl with }
  | take =>
    obtain ⟨hworker, -, rfl⟩ := step_take hs
    have hmissed := h.not_missed (by simp [hworker]) (by simp [hworker])
    exact { h.setWorker hmissed (by simp [hworker, unwritten]) _ with }
  | append ok =>
    obtain ⟨batch, hworker, -, ⟨-, rfl⟩ | ⟨-, rfl⟩⟩ := step_append hs
    all_goals have hmissed := h.not_missed (by simp [hworker]) (by simp [hworker])
    all_goals have hunwritten : s.worker.unwritten = [] := by simp [hworker, unwritten]
    · refine { h.setWorker hmissed hunwritten (.appended batch) with
        kept := fun a ha => ?_, covered := fun _ a ha => ?_ }
      · rcases mem_append.1 ha with ha | ha
        · exact (h.kept a ha).imp_right (mem_append_left _)
        · exact .inr (mem_append_right _ ha)
      · rcases mem_append.1 ha with ha | ha
        · exact .inl ((h.covered hmissed a ha).resolve_right (by simp [hunwritten]))
        · exact .inr ha
    · exact h.setWorker hmissed hunwritten _
  | sync ok =>
    obtain ⟨batch, hworker, ⟨-, rfl⟩ | ⟨rfl, rfl⟩⟩ := step_sync hs
    all_goals have hmissed := h.not_missed (by simp [hworker]) (by simp [hworker])
    · have hpresent : ∀ a ∈ s.wal, Present (persistDurableAttestations s.db batch) a := by
        intro a ha
        rcases h.covered hmissed a ha with hdb | hbatch
        · exact present_persist_of_present hdb
        · rw [hworker] at hbatch
          exact present_persist_of_mem hbatch
      exact
        { h with
          kept := fun a ha => (h.kept a ha).imp_left present_persist_of_present
          covered := fun _ a ha => .inl (hpresent a ha)
          missed := fun hm => absurd (hmissed.symm.trans hm) Bool.false_ne_true }
    · exact
        { h with
          covered := by simp
          checked := fun c hc hcheck => absurd hcheck (by simpa using all_eq_true.1 hordered c hc)
          missed := fun _ => .inr ⟨_, rfl⟩
          imported := fun hp => absurd (hwf.opening (.inr hp)) (by simp [hworker]) }
  | reset ok =>
    obtain ⟨batch, hworker, rfl⟩ := step_reset hs
    have hmissed := h.not_missed (by simp [hworker]) (by simp [hworker])
    have hunwritten : s.worker.unwritten = [] := by simp [hworker, unwritten]
    exact (h.resetWal hmissed hunwritten ok).setWorker hmissed hunwritten _
  | report =>
    obtain ⟨size, ok, hworker, rfl⟩ := step_report hs
    cases ok with
    | true =>
      have hmissed := h.not_missed (by simp [hworker]) (by simp [hworker])
      have hunwritten : s.worker.unwritten = [] := by simp [hworker, unwritten]
      exact { h.setWorker hmissed hunwritten .idle with
        missed := fun hm => absurd (hmissed.symm.trans hm) Bool.false_ne_true }
    | false =>
      refine { h with covered := fun hm a ha => ?_, missed := fun _ => .inl ⟨rfl, .inl (by simp)⟩ }
      simpa [hworker, unwritten] using h.covered hm a ha
  | exit =>
    obtain ⟨hworker, -, -, rfl⟩ := step_exit hs
    have hmissed := h.not_missed (by simp [hworker]) (by simp [hworker])
    exact h.setWorker hmissed (by simp [hworker, unwritten]) _
  | load now =>
    obtain ⟨-, -, store, hints, -, rfl⟩ := step_load hs
    exact { h with imported := by simp }
  | importLog now ok =>
    obtain ⟨-, db, store, hints, himport, ⟨-, rfl⟩ | ⟨-, rfl⟩⟩ := step_importLog hs
    · obtain ⟨rfl, -⟩ := hwf.import_spec himport
      exact
        { kept := fun a ha => (h.kept a ha).imp_left present_persist_of_present
          covered := fun _ a ha => .inl (present_persist_of_mem ha)
          checked := fun _ _ _ => rfl
          missed := by simp
          imported := fun _ => rfl }
    · exact { h with imported := by simp }
  | openReset ok =>
    obtain ⟨hphase, ⟨-, rfl⟩ | ⟨-, rfl⟩⟩ := step_openReset hs
    · have hmissed := h.imported hphase
      have hunwritten : s.worker.unwritten = [] := by
        simp [hwf.opening (.inr hphase), unwritten]
      exact { (h.resetWal hmissed hunwritten true).setWorker hmissed hunwritten .idle with
        missed := fun hm => absurd (hmissed.symm.trans hm) Bool.false_ne_true
        imported := by simp }
    · exact { h with imported := by simp }
  | crash =>
    cases hs
    refine
      { kept := h.kept
        covered := fun hm a ha => ?_
        checked := by simp [crashed, new]
        missed := fun _ => .inl ⟨rfl, .inr rfl⟩
        imported := by simp [crashed, new] }
    obtain ⟨hmissed, happended⟩ := Bool.or_eq_false_iff.1 hm
    refine .inl ((h.covered hmissed a ha).resolve_right ?_)
    rw [unwritten_of_not_isAppended happended]
    simp

end Steps

/-- **What the worker has committed is on disk in every state, and in the database after every
open**, as long as no database write fails while a flush or a close is between its check and its
reset, and none of them makes its check while a failure of the worker is not reported yet. -/
theorem committed_attestations_survive (env : AttestationEnv σ) {s : AttestationNode σ}
    (h : Run env (fun s act => s.inOrder act = true) s) :
    (∀ a ∈ s.committed, Present s.db a ∨ a ∈ s.wal) ∧
      ∀ s', s.step env (.openReset true) = some s' →
        s'.phase = .opened ∧ ∀ a ∈ s'.committed, Present s'.db a := by
  have hdurable : ∀ {t : AttestationNode σ}, Run env (fun s act => s.inOrder act = true) t →
      t.Durable := fun ht => ht.invariant
    { kept := by simp [new]
      covered := by simp [new]
      checked := by simp [new]
      missed := by simp [new]
      imported := by simp [new] }
    fun _ _ _ hrun hd hordered hs => hd.step hrun.wellFormed hordered hs
  refine ⟨(hdurable h).kept, fun s' hs => ?_⟩
  have hkept := (hdurable (h.next _ rfl hs)).kept
  obtain ⟨-, ⟨-, rfl⟩ | ⟨hfalse, -⟩⟩ := step_openReset hs
  · exact ⟨rfl, fun a ha => (hkept a ha).resolve_right (by simp)⟩
  · cases hfalse

/-! ## A run -/

/-- An `Add`, in the place `i` of the callers, whose attestation the worker appends to the log and
fails to write to the database. -/
def failedBatch (i : ℕ) : List (Action ℕ) :=
  [.add (AttestationStore.sampleAttestation 7 0 6) 7 0 0, .advance i 0 true, .advance i 0 true,
    .take, .append true, .sync false]

/-- A database write fails, the node crashes, and the record comes back from the log. -/
theorem committed_attestations_survive_sample : ∃ s s', runWhere sampleEnv inOrder
        (openActs ++ failedBatch 0 ++ [.report, .crash, .load 0, .importLog 0 true]) = some s ∧
      s.step sampleEnv (.openReset true) = some s' ∧
      AttestationStore.sampleAttestation 7 0 6 ∈ s'.committed ∧
      Present s'.db (AttestationStore.sampleAttestation 7 0 6) := by
  have hrun : (runWhere sampleEnv inOrder
      (openActs ++ failedBatch 0 ++ [.report, .crash, .load 0, .importLog 0 true])).any (fun s =>
        (s.step sampleEnv (.openReset true)).any fun s' =>
          decide (AttestationStore.sampleAttestation 7 0 6 ∈ s'.committed)) = true := by
    decide +kernel
  obtain ⟨s, hs, hopen⟩ := (Option.any_eq_true _ _).1 hrun
  obtain ⟨s', hs', hmem⟩ := (Option.any_eq_true _ _).1 hopen
  have hsurvive := (committed_attestations_survive sampleEnv (Run.of_runWhere hs)).2 s' hs'
  exact ⟨s, s', hs, hs', of_decide_eq_true hmem, hsurvive.2 _ (of_decide_eq_true hmem)⟩

/-- **A flush removes the only copy.** The database write fails between the check of a flush and its
reset of the log: the record is in neither, and it is not there after the next open. -/
theorem flush_removes_only_copy : ∃ s, runWhere sampleEnv (fun _ _ => true)
        (openActs ++ [.flushStart, .advance 0 0 true] ++ failedBatch 1 ++
          [.advance 0 0 true, .crash] ++
          openActs) = some s ∧
      s.phase = .opened ∧ AttestationStore.sampleAttestation 7 0 6 ∈ s.committed ∧
      ¬Present s.db (AttestationStore.sampleAttestation 7 0 6) := by
  have hrun : (runWhere sampleEnv (fun _ _ => true)
      (openActs ++ [.flushStart, .advance 0 0 true] ++ failedBatch 1 ++
        [.advance 0 0 true, .crash] ++
        openActs)).any (fun s => decide (s.phase = .opened ∧
          AttestationStore.sampleAttestation 7 0 6 ∈ s.committed ∧
          ¬Present s.db (AttestationStore.sampleAttestation 7 0 6))) = true := by
    decide +kernel
  obtain ⟨s, hs, hlost⟩ := (Option.any_eq_true _ _).1 hrun
  exact ⟨s, hs, of_decide_eq_true hlost⟩

end Btx.Node.AttestationNode
