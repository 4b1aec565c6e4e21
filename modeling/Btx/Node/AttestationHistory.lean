/-
# The quorum of the whole history

The memory store evicts; the database keeps a record for each block. A drained node without failed
writes answers for everything that was accepted. The steps are those of a node whose writes succeed,
with `Add` and `SignAuthoritative` called while persistence is enabled, closed while no other call
is under way, and restarted after its queue is drained.
-/

import Btx.Node.AttestationOrigin

namespace Btx.Node.AttestationNode

open Util CallerPhase OrderedMap List
open Option (some.inj)

variable {σ : Type} [LinearOrder σ] {env : AttestationEnv σ}

variable (s : AttestationNode σ)

/-- A flush would return at once: no caller carries an attestation and the worker is done. -/
def drained : Bool :=
  s.callers.all (fun c => c.vote.isNone) && decide (s.completed = s.queued)

/-- The steps of a node that loses nothing. -/
def cleanStep : Action σ → Bool
  | .append ok | .sync ok | .reset ok | .importLog _ ok | .openReset ok | .advance _ _ ok => ok
  | .add _ _ _ _ | .signStart _ _ => s.enabled
  | .closeStart => s.enabled && s.callers.isEmpty
  | .load _ => s.callers.isEmpty
  | .crash => s.drained
  | _ => true

/-- The signers of a block whose attestations were accepted. -/
def acceptedSigners (hash : Uint256) (height : ℤ) : List σ :=
  ((s.accepted.filter fun a => a.key = blockKey height hash).map
    ExactReplayAttestation.signer).dedup

/-- The vote is in the database, or in the hands of the worker. -/
def Secured (a : ExactReplayAttestation σ) : Prop :=
  Present s.db a ∨ a ∈ s.pending ∨ a ∈ s.worker.batch

/-- What was accepted is in the database or on its way to it. -/
structure Complete (s : AttestationNode σ) : Prop where
  counted : s.queued = s.completed + s.pending.length + s.worker.held
  logged : s.wal = s.worker.logged
  stored : ∀ a ∈ s.accepted, s.Secured a ∨ ∃ c ∈ s.callers, a ∈ c.vote
  running : s.enabled = true →
    s.stop = false ∧ s.worker ≠ .stopped ∧ s.phase = .opened ∧ ∀ c ∈ s.callers, c.isCloser = false
  closing : s.enabled = false → ∀ c ∈ s.callers, c.isClient = false
  opening : s.phase = .loaded ∨ s.phase = .imported → s.callers = []
  stopped : s.worker = .stopped → s.pending = []
  healthy : s.worker.hasFailed = false

section Steps

variable {s s' t : AttestationNode σ} {act : Action σ} {i : ℕ} {now : ℤ} {ok : Bool}
  {a : ExactReplayAttestation σ} {c c' : CallerPhase σ} {next : Option (CallerPhase σ)}

section

variable (h : s.Complete)

include h

/-- A caller may move on once its vote is secured or still carried. -/
theorem Complete.setCaller (hc : s.callers[i]? = some c)
    (hvote : ∀ a ∈ c.vote, s.Secured a ∨ ∃ c', next = some c' ∧ a ∈ c'.vote)
    (hkind : ∀ c', next = some c' → c'.isClient = c.isClient ∧ c'.isCloser = c.isCloser) :
    (s.setCaller i next).Complete := by
  have hmem := mem_of_getElem? hc
  have hstored : ∀ a ∈ s.accepted, s.Secured a ∨ ∃ c ∈ (s.setCaller i next).callers,
      a ∈ c.vote := by
    intro a ha
    rcases h.stored a ha with hsecured | ⟨c', hc', hcv⟩
    · exact .inl hsecured
    · rcases mem_setCaller_of_mem hc' hc next with hstay | rfl
      · exact .inr ⟨c', hstay, hcv⟩
      · exact (hvote a hcv).imp_right fun ⟨c'', hnext, hcv'⟩ =>
          ⟨c'', next_mem_setCaller hc hnext, hcv'⟩
  have hrunning : s.enabled = true → s.stop = false ∧ s.worker ≠ .stopped ∧ s.phase = .opened ∧
      ∀ c' ∈ (s.setCaller i next).callers, c'.isCloser = false := by
    intro he
    obtain ⟨hstop, hworker, hphase, hclosers⟩ := h.running he
    refine ⟨hstop, hworker, hphase, fun c' hc' => ?_⟩
    rcases mem_setCaller hc' with hold | hnext
    · exact hclosers c' hold
    · exact (hkind c' hnext).2.trans (hclosers c hmem)
  have hclosing : s.enabled = false → ∀ c' ∈ (s.setCaller i next).callers, c'.isClient = false := by
    intro he c' hc'
    rcases mem_setCaller hc' with hold | hnext
    · exact h.closing he c' hold
    · exact (hkind c' hnext).1.trans (h.closing he c hmem)
  have hopening : s.phase = .loaded ∨ s.phase = .imported → (s.setCaller i next).callers = [] := by
    intro hp
    rw [h.opening hp] at hmem
    cases hmem
  cases next with
  | some phase | none =>
    exact { h with
      stored := hstored, running := hrunning, closing := hclosing, opening := hopening }

theorem Complete.addCaller (henabled : s.enabled = true) (hc : c.isCloser = false) :
    ({ s with callers := s.callers ++ [c] } : AttestationNode σ).Complete := by
  obtain ⟨hstop, hworker, hphase, hclosers⟩ := h.running henabled
  refine
    { h with
      stored := fun a ha => (h.stored a ha).imp_right
        fun ⟨c', hc', hcv⟩ => ⟨c', mem_append_left _ hc', hcv⟩
      running := fun _ => ⟨hstop, hworker, hphase, fun c' hc' => ?_⟩
      closing := fun he => absurd (henabled.symm.trans he) Bool.noConfusion
      opening := fun hp => absurd hp (by change ¬(s.phase = _ ∨ s.phase = _); simp [hphase]) }
  rcases mem_append.1 hc' with hc' | hc'
  · exact hclosers c' hc'
  · exact mem_singleton.1 hc' ▸ hc

theorem Complete.accept (store : AttestationStore σ)
    (accepted : List (ExactReplayAttestation σ)) (handedOut : List (ℤ × Uint256))
    (haccepted : ∀ a ∈ accepted, a ∈ s.accepted ∨ ∃ c ∈ s.callers, a ∈ c.vote) :
    ({ s with store := store, accepted := accepted, handedOut := handedOut } :
      AttestationNode σ).Complete :=
  { h with stored := fun a ha => (haccepted a ha).elim (h.stored a) .inr }

theorem Complete.setHints (hints : AttestationHints) :
    ({ s with hints := hints } : AttestationNode σ).Complete :=
  { h with }

theorem Complete.persistAfterMutation (henabled : s.enabled = true) :
    (s.persistAfterMutation a).Complete ∧ a ∈ (s.persistAfterMutation a).pending ∧
      (s.persistAfterMutation a).callers = s.callers := by
  unfold AttestationNode.persistAfterMutation
  rw [if_pos henabled]
  refine ⟨{ h with counted := ?_, stored := fun b hb => ?_, stopped := fun hw => ?_ },
    mem_append_right _ (mem_singleton.2 rfl), rfl⟩
  · have := h.counted
    simp only [length_append, length_singleton]
    omega
  · rcases h.stored b hb with (hdb | hpending | hbatch) | hcaller
    · exact .inl (.inl hdb)
    · exact .inl (.inr (.inl (mem_append_left _ hpending)))
    · exact .inl (.inr (.inr hbatch))
    · exact .inr hcaller
  · exact absurd hw (h.running henabled).2.1

end

section

variable (h : s.Complete)

include h

theorem Complete.resetWal (hio : s.ioHeld = false) :
    ({ s with wal := [] } : AttestationNode σ).Complete := by
  refine { h with logged := ?_ }
  unfold ioHeld at hio
  cases hw : s.worker <;> simp_all [WorkerPhase.logged]

/-- **Every step of a caller keeps what was accepted.** -/
theorem Complete.advance (hc : s.callers[i]? = some c)
    (hs : s.advance env i now true c = some s') : s'.Complete := by
  have hmem := mem_of_getElem? hc
  have henabled : c.isClient = true → s.enabled = true := by
    intro hclient
    by_contra he
    exact absurd (h.closing (by simpa using he) c hmem) (by simp [hclient])
  cases c with
  | addStored a accepted =>
    cases hs
    cases accepted with
    | true =>
      exact (h.setHints _).setCaller hc (fun b hb => .inr ⟨_, rfl, hb⟩)
        (by rintro _ ⟨⟩; exact ⟨rfl, rfl⟩)
    | false => exact (h.setHints _).setCaller hc (by simp) (by simp)
  | addNoted a | signMarked a =>
    cases hs
    obtain ⟨hp, hpending, hcallers⟩ := h.persistAfterMutation (a := a) (henabled rfl)
    refine hp.setCaller (hcallers ▸ hc) (fun b hb => .inl (.inr (.inl ?_))) (by simp)
    exact some.inj hb ▸ hpending
  | signChecked hash height =>
    simp only [AttestationNode.advance] at hs
    split at hs
    on_goal 2 => split_ifs at hs
    all_goals
      exact some.inj hs ▸ h.setCaller hc (by simp [vote])
        (by rintro _ ⟨⟩ <;> exact ⟨rfl, rfl⟩)
  | signCleared hash height =>
    simp only [AttestationNode.advance] at hs
    split at hs
    · next localSigner signature _ _ =>
      generalize
        (⟨statementFor env hash height, localSigner, signature⟩ : ExactReplayAttestation σ) = a
        at hs
      split_ifs at hs with hresult
      · cases hs
        have hset : (s.setCaller i (some (.signStored a
            (decide ((s.addToStore env a hash height now).1 = .accepted))))).Complete :=
          h.setCaller hc (by simp [vote]) (by rintro _ ⟨⟩; exact ⟨rfl, rfl⟩)
        refine hset.accept _ _ _ fun b hb => ?_
        rcases mem_accepted_addToStore hb with hb | ⟨rfl, hacc⟩
        · exact .inl hb
        · exact .inr ⟨_, next_mem_setCaller hc rfl, by simp [hacc]⟩
      · cases hs
        have hset : (s.setCaller i none).Complete :=
          h.setCaller hc (by simp [vote]) (by simp)
        refine hset.accept _ _ _ fun b hb => ?_
        rcases mem_accepted_addToStore hb with hb | ⟨rfl, hacc⟩
        · exact .inl hb
        · exact absurd (.inl hacc) hresult
    · exact some.inj hs ▸ h.setCaller hc (by simp [vote]) (by simp)
  | signStored a accepted =>
    cases hs
    refine (h.setHints _).setCaller hc (fun b hb => .inr ⟨_, rfl, ?_⟩)
      (by rintro _ ⟨⟩; exact ⟨rfl, rfl⟩)
    cases accepted with
    | true => exact hb
    | false => cases hb
  | signNoted a accepted =>
    cases hs
    cases accepted with
    | true =>
      exact (h.setHints _).setCaller hc (fun b hb => .inr ⟨_, rfl, hb⟩)
        (by rintro _ ⟨⟩; exact ⟨rfl, rfl⟩)
    | false => exact (h.setHints _).setCaller hc (by simp [vote]) (by simp)
  | flushWaiting target | closeWaiting target =>
    simp only [AttestationNode.advance] at hs
    split_ifs at hs
    all_goals
      exact some.inj hs ▸ h.setCaller hc (by simp [vote])
        (by rintro _ ⟨⟩ <;> exact ⟨rfl, rfl⟩)
  | flushChecked | closeChecked =>
    simp only [AttestationNode.advance] at hs
    split_ifs at hs with hio
    have hreset := h.resetWal (by simpa using hio)
    exact some.inj hs ▸ hreset.setCaller hc (by simp [vote])
      (by rintro _ ⟨⟩ <;> exact ⟨rfl, rfl⟩)
  | closeStopping =>
    have hdisabled : s.enabled = true → False := fun he =>
      absurd ((h.running he).2.2.2 _ hmem) (by simp [isCloser])
    simp only [AttestationNode.advance] at hs
    split_ifs at hs
    · cases hs
      have hclosed : ({ s with stop := true, phase := .closed } : AttestationNode σ).Complete :=
        { h with running := fun he => (hdisabled he).elim, opening := by simp }
      exact hclosed.setCaller hc (by simp [vote]) (by simp)
    · exact some.inj hs ▸ { h with running := fun he => (hdisabled he).elim }

theorem Complete.of_drained (hdrained : s.drained = true) :
    (∀ a ∈ s.accepted, Present s.db a) ∧ s.wal = [] := by
  simp only [drained, Bool.and_eq_true, all_eq_true, decide_eq_true_eq] at hdrained
  obtain ⟨hcallers, hcount⟩ := hdrained
  have hcounted := h.counted
  have hpending : s.pending = [] := eq_nil_of_length_eq_zero (by omega)
  have hheld : s.worker.held = 0 := by omega
  constructor
  · intro a ha
    rcases h.stored a ha with (hdb | hp | hbatch) | ⟨c, hc, hcv⟩
    · exact hdb
    · simp [hpending] at hp
    · cases hw : s.worker <;> simp_all [WorkerPhase.batch, WorkerPhase.held]
    · have hnone := hcallers c hc
      rw [Option.mem_def.1 hcv] at hnone
      cases hnone
  · rw [h.logged]
    cases hw : s.worker <;> simp_all [WorkerPhase.logged, WorkerPhase.held]

theorem Complete.setWorker {w : WorkerPhase σ} {wal : List (ExactReplayAttestation σ)}
    {db : AttestationDb σ} {pending : List (ExactReplayAttestation σ)} {completed : ℕ}
    (hcounted : s.queued = completed + pending.length + w.held) (hlogged : wal = w.logged)
    (hsecured : ∀ a, s.Secured a → Present db a ∨ a ∈ pending ∨ a ∈ w.batch)
    (hw : w ≠ .stopped) (hhealthy : w.hasFailed = false) :
    ({ s with worker := w, wal := wal, db := db, pending := pending, completed := completed } :
      AttestationNode σ).Complete :=
  { h with
    counted := hcounted
    logged := hlogged
    stored := fun a ha => (h.stored a ha).imp_left (hsecured a)
    running := fun he => ⟨(h.running he).1, hw, (h.running he).2.2⟩
    stopped := fun hstopped => absurd hstopped hw
    healthy := hhealthy }

/-- **Every clean step keeps what was accepted.** -/
theorem Complete.step (hwf : s.WellFormed env) (hclean : s.cleanStep act = true)
    (hs : s.step env act = some s') : s'.Complete := by
  cases act with
  | add a hash height now =>
    have hadd : ∀ b ∈ (s.addToStore env a hash height now).2.accepted, b ∈ s.accepted ∨
        (b = a ∧ (s.addToStore env a hash height now).1 = .accepted) :=
      fun b hb => mem_accepted_addToStore hb
    obtain ⟨-, ⟨-, rfl⟩ | ⟨hresult, rfl⟩⟩ := step_add hs
    · have hcaller := h.addCaller (c := .addStored a
        (decide ((s.addToStore env a hash height now).1 = .accepted))) hclean rfl
      refine hcaller.accept _ _ _ fun b hb => ?_
      rcases hadd b hb with hb | ⟨rfl, hacc⟩
      · exact .inl hb
      · exact .inr ⟨_, mem_append_right _ (mem_singleton.2 rfl), by simp [hacc]⟩
    · refine h.accept _ _ _ fun b hb => ?_
      rcases hadd b hb with hb | ⟨rfl, hacc⟩
      · exact .inl hb
      · exact absurd (.inl hacc) hresult
  | signStart hash height =>
    obtain ⟨-, ⟨-, rfl⟩ | ⟨-, rfl⟩⟩ := step_signStart hs
    · exact h
    · exact h.addCaller hclean rfl
  | flushStart =>
    rcases step_flushStart hs with ⟨henabled, rfl⟩ | rfl
    · exact h.addCaller henabled rfl
    · exact h
  | closeStart =>
    simp only [cleanStep, Bool.and_eq_true, List.isEmpty_iff] at hclean
    obtain ⟨-, rfl⟩ := step_closeStart hs
    obtain ⟨-, -, hphase, -⟩ := h.running hclean.1
    rw [hclean.1, hclean.2, if_pos rfl]
    refine
      { h with
        stored := fun a ha => (h.stored a ha).imp_right fun ⟨c, hc, _⟩ => ?_
        running := by simp
        closing := by simp [isClient]
        opening := fun hp => absurd hp (by change ¬(s.phase = _ ∨ s.phase = _); simp [hphase]) }
    rw [hclean.2] at hc
    cases hc
  | advance i now ok =>
    obtain rfl : ok = true := hclean
    obtain ⟨c, hc, hs⟩ := step_advance hs
    exact h.advance hc hs
  | erase hash height | expire now =>
    cases hs
    exact { h with }
  | take =>
    obtain ⟨hworker, -, rfl⟩ := step_take hs
    have hcounted := h.counted
    refine h.setWorker ?_ (by rw [h.logged, hworker]; rfl) (fun a ha => ?_) (by simp) rfl
    · simp only [hworker, WorkerPhase.held, length_take, length_drop] at hcounted ⊢
      omega
    · rcases ha with hdb | hpending | hbatch
      · exact .inl hdb
      · rw [← take_append_drop persistBatchMax s.pending, mem_append] at hpending
        exact .inr hpending.symm
      · simp [hworker, WorkerPhase.batch] at hbatch
  | append ok =>
    obtain ⟨batch, hworker, -, ⟨-, rfl⟩ | ⟨rfl, -⟩⟩ := step_append hs
    · have hcounted := h.counted
      have hlogged := h.logged
      rw [hworker] at hcounted hlogged
      have hnext : ({ s with worker := .appended batch, wal := s.wal ++ batch } :
          AttestationNode σ).Complete :=
        h.setWorker hcounted (by rw [hlogged]; rfl) (fun a ha => by rwa [Secured, hworker] at ha)
          (by simp) rfl
      exact { hnext with }
    · exact absurd hclean (by simp [cleanStep])
  | sync ok =>
    obtain ⟨batch, hworker, ⟨-, rfl⟩ | ⟨rfl, -⟩⟩ := step_sync hs
    · have hcounted := h.counted
      have hlogged := h.logged
      rw [hworker] at hcounted hlogged
      refine h.setWorker hcounted hlogged (fun a ha => ?_) (by simp) rfl
      rcases ha with hdb | hpending | hbatch
      · exact .inl (present_persist_of_present hdb)
      · exact .inr (.inl hpending)
      · rw [hworker] at hbatch
        exact .inl (present_persist_of_mem hbatch)
    · exact absurd hclean (by simp [cleanStep])
  | reset ok =>
    obtain rfl : ok = true := hclean
    obtain ⟨batch, hworker, rfl⟩ := step_reset hs
    have hcounted := h.counted
    rw [hworker] at hcounted
    exact h.setWorker hcounted rfl (fun a ha => by rwa [Secured, hworker] at ha) (by simp) rfl
  | report =>
    obtain ⟨size, ok, hworker, rfl⟩ := step_report hs
    have hhealthy := h.healthy
    have hcounted := h.counted
    rw [hworker] at hhealthy hcounted
    obtain rfl : ok = true := by simpa [WorkerPhase.hasFailed] using hhealthy
    have hnext : ({ s with worker := .idle, completed := s.completed + size } :
        AttestationNode σ).Complete :=
      h.setWorker (by simp only [WorkerPhase.held] at hcounted ⊢; omega)
        (by rw [h.logged, hworker]; rfl) (fun a ha => by rwa [Secured, hworker] at ha) (by simp) rfl
    exact { hnext with }
  | exit =>
    obtain ⟨hworker, hpending, hstop, rfl⟩ := step_exit hs
    have hcounted := h.counted
    have hlogged := h.logged
    have hstored := h.stored
    simp only [Secured, hworker] at hcounted hlogged hstored
    exact
      { h with
        counted := hcounted
        logged := hlogged
        stored := hstored
        running := fun he => absurd hstop (by simp [(h.running he).1])
        stopped := fun _ => hpending
        healthy := rfl }
  | load now =>
    obtain ⟨hphase, -, store, hints, -, rfl⟩ := step_load hs
    exact
      { h with
        running := fun he => absurd (h.running he).2.2.1 (by simp [hphase])
        opening := fun _ => List.isEmpty_iff.1 hclean }
  | importLog now ok =>
    obtain ⟨hphase, db, store, hints, himport, ⟨-, rfl⟩ | ⟨rfl, -⟩⟩ := step_importLog hs
    · obtain ⟨rfl, -⟩ := hwf.import_spec himport
      exact
        { h with
          stored := fun a ha => (h.stored a ha).imp_left (Or.imp_left present_persist_of_present)
          running := fun he => absurd (h.running he).2.2.1 (by simp [hphase])
          opening := fun _ => h.opening (.inl hphase) }
    · exact absurd hclean (by simp [cleanStep])
  | openReset ok =>
    obtain ⟨hphase, ⟨-, rfl⟩ | ⟨rfl, -⟩⟩ := step_openReset hs
    · have hworker := hwf.opening (.inr hphase)
      have hpending := h.stopped hworker
      have hcallers := h.opening (.inr hphase)
      refine
        { counted := rfl
          logged := rfl
          stored := fun a ha => ?_
          running := fun _ => ⟨rfl, by simp, rfl, by simp [hcallers]⟩
          closing := by simp
          opening := by simp
          stopped := by simp
          healthy := rfl }
      rcases h.stored a ha with (hdb | hp | hbatch) | ⟨c, hc, -⟩
      · exact .inl (.inl hdb)
      · simp [hpending] at hp
      · simp [hworker, WorkerPhase.batch] at hbatch
      · simp [hcallers] at hc
    · exact absurd hclean (by simp [cleanStep])
  | crash =>
    cases hs
    obtain ⟨hpresent, hwal⟩ := h.of_drained hclean
    exact
      { counted := rfl
        logged := hwal
        stored := fun a ha => .inl (.inl (hpresent a ha))
        running := by simp [crashed, new]
        closing := by simp [crashed, new]
        opening := by simp [crashed, new]
        stopped := fun _ => rfl
        healthy := rfl }

end

/-- **In every clean run what was accepted is in the database or on its way to it.** -/
theorem Run.complete (h : Run env (fun s act => s.cleanStep act = true) s) : s.Complete :=
  h.invariant
    { counted := rfl
      logged := rfl
      stored := by simp [new]
      running := by simp [new]
      closing := by simp [new]
      opening := by simp [new]
      stopped := fun _ => rfl
      healthy := rfl }
    fun _ _ _ hrun hd hclean hs => hd.step hrun.wellFormed hclean hs

end Steps

/-! ## The quorum -/

section Quorum

variable {s : AttestationNode σ} {a : ExactReplayAttestation σ} {hash : Uint256} {height : ℤ}
  {signer : σ}

theorem mem_acceptedSigners : signer ∈ s.acceptedSigners hash height ↔
    ∃ a ∈ s.accepted, a.key = blockKey height hash ∧ a.signer = signer := by
  simp [acceptedSigners, and_assoc]

theorem WellFormed.size_le_acceptedSigners (h : s.WellFormed env) {b : Bucket σ}
    (hb : s.store.buckets.find? (blockKey height hash) = some b) :
    b.attestations.size ≤ (s.acceptedSigners hash height).length := by
  have hsub : b.attestations.entries.map Prod.fst ⊆ s.acceptedSigners hash height := by
    intro signer hsigner
    obtain ⟨e, he, rfl⟩ := mem_map.1 hsigner
    obtain ⟨hsigned, hkey, hmem⟩ := h.store _ b hb e he
    exact mem_acceptedSigners.2 ⟨e.2, hmem, hkey, hsigned⟩
  calc b.attestations.size = (b.attestations.entries.map Prod.fst).length := (length_map _).symm
    _ ≤ _ := (b.attestations.nodup_keys.subperm hsub).length_le

theorem WellFormed.verified (h : s.WellFormed env) (ha : a ∈ s.accepted)
    (hkey : a.key = blockKey height hash) :
    verifyAttestation env.curve a env.config.chainId env.config.replayAuthorityContext hash height
      env.config.trustedSigners = .valid := by
  obtain ⟨hheight, hhash⟩ := blockKey_inj.1 hkey
  exact hhash ▸ hheight ▸ h.accepted a ha

/-- **A complete database counts for each block the signers that were accepted.** -/
theorem WellFormed.length_recordSigners (h : s.WellFormed env) (hash : Uint256) (height : ℤ)
    (hpresent : ∀ a ∈ s.accepted, Present s.db a) :
    ((((s.db.find? (blockKey height hash)).getD []).filter fun a =>
        verifyAttestation env.curve a env.config.chainId env.config.replayAuthorityContext hash
          height
          env.config.trustedSigners = .valid).map ExactReplayAttestation.signer).dedup.length =
      (s.acceptedSigners hash height).length := by
  refine ((perm_ext_iff_of_nodup (nodup_dedup _) (nodup_dedup _)).2 fun signer => ?_).length_eq
  rw [mem_dedup, mem_map]
  constructor
  · rintro ⟨a, ha, rfl⟩
    have hrecord := (List.mem_filter.1 ha).1
    cases hfind : s.db.find? (blockKey height hash) with
    | none => simp [hfind] at hrecord
    | some record =>
      obtain ⟨hkey, hmem⟩ := (h.db _ record hfind).2.2 a (by simpa [hfind] using hrecord)
      exact mem_acceptedSigners.2 ⟨a, hmem, hkey, rfl⟩
  · intro hsigner
    obtain ⟨a, ha, hkey, rfl⟩ := mem_acceptedSigners.1 hsigner
    obtain ⟨record, hfind, hsigner⟩ := hpresent a ha
    obtain ⟨a', ha', hsame⟩ := mem_map.1 hsigner
    rw [hkey] at hfind
    obtain ⟨hkey', hmem'⟩ := (h.db _ record hfind).2.2 a' ha'
    refine ⟨a', List.mem_filter.2 ⟨by rwa [hfind], ?_⟩, hsame⟩
    exact decide_eq_true (h.verified hmem' hkey')

end Quorum

/-! ## Restarts -/

section Restart

variable {s : AttestationNode σ} {store : AttestationStore σ} {curve : Curve σ}
  {config : StoreConfig σ}
  {a : ExactReplayAttestation σ} {now : ℤ} {key : BlockKey} {signer : σ} {seen : List σ}
  {keys : List BlockKey} {record attestations : List (ExactReplayAttestation σ)}

theorem hasVote_insertVote : (store.insertVote a.key a now).hasVote key signer = true ↔
    store.hasVote key signer = true ∨ (key = a.key ∧ signer = a.signer) := by
  unfold AttestationStore.hasVote
  change ((store.buckets.insert a.key _).find? key).any _ = true ↔ _
  rw [find?_insert]
  by_cases hk : key = a.key
  · subst hk
    rw [if_pos rfl, Option.any_some, OrderedMap.contains, find?_insert]
    by_cases hsigner : signer = a.signer
    · simp [hsigner]
    · rw [if_neg hsigner]
      cases hfind : store.buckets.find? a.key with
      | none => simp [hsigner]
      | some b => simp [hsigner, OrderedMap.contains]
  · simp [hk]

theorem size_add_le (hkeys : ∀ key b, store.buckets.find? key = some b → key ∈ keys)
    (hkey : key ∈ keys) :
    store.buckets.size + (if store.buckets.contains key then 0 else 1) ≤ keys.length := by
  have hsub : store.buckets.entries.map Prod.fst ⊆ keys := by
    intro key' hkey'
    obtain ⟨e, he, rfl⟩ := mem_map.1 hkey'
    exact hkeys e.1 e.2 (find?_eq_some_iff.2 he)
  have hsize : store.buckets.size = (store.buckets.entries.map Prod.fst).length :=
    (length_map _).symm
  rw [hsize]
  split_ifs with hcontains
  · exact (store.buckets.nodup_keys.subperm hsub).length_le
  · have hnew : key ∉ store.buckets.entries.map Prod.fst := by
      intro hmem
      obtain ⟨e, he, rfl⟩ := mem_map.1 hmem
      exact hcontains (contains_iff.2 ⟨e.2, find?_eq_some_iff.2 he⟩)
    have hnodup := nodup_cons.2 ⟨hnew, store.buckets.nodup_keys⟩
    exact (hnodup.subperm (cons_subset.2 ⟨hkey, hsub⟩)).length_le

theorem add_of_room (now : ℤ) (hvalid : a.Valid curve store.config)
    (hretention : store.durableRetention = true)
    (hvote : store.hasVote a.key a.signer = false) (hroom : ¬store.wouldExceed a.key) :
    store.add curve a a.statement.blockHash a.statement.blockHeight now =
      (.accepted, store.insertVote a.key a now) := by
  unfold ExactReplayAttestation.Valid at hvalid
  have hprune : store.pruneExpiredLocked now = store := by
    unfold AttestationStore.pruneExpiredLocked
    rw [if_pos hretention]
  have hmake : ∀ reaches, store.makeRoomLocked a.key reaches = (true, store) := by
    intro reaches
    unfold AttestationStore.makeRoomLocked
    rw [if_neg hroom]
  have hkey : blockKey a.statement.blockHeight a.statement.blockHash = a.key := rfl
  simp only [AttestationStore.add, hvalid, hprune, hkey, hvote, hmake]
  simp

/-- **Votes within the limits all go into the store.** -/
theorem addTail_ok (keys : List BlockKey) (hvalid : ∀ a ∈ attestations, a.Valid curve store.config)
    (hretention : store.durableRetention = true) (hblocks : keys.length ≤ store.config.maxBlocks)
    (hcount : store.attestationCount + attestations.length ≤ store.config.maxAttestations)
    (hkeys : ∀ key b, store.buckets.find? key = some b → key ∈ keys)
    (hmem : ∀ a ∈ attestations, a.key ∈ keys)
    (hnew : ∀ a ∈ attestations, store.hasVote a.key a.signer = false)
    (hdistinct : attestations.Pairwise fun a b => ¬(b.key = a.key ∧ b.signer = a.signer)) :
    ∃ store', addTail curve now store attestations = .ok store' := by
  induction attestations generalizing store with
  | nil => exact ⟨store, rfl⟩
  | cons a rest ih =>
    rw [pairwise_cons] at hdistinct
    have hroom : ¬store.wouldExceed a.key := by
      have hsize := size_add_le hkeys (hmem a mem_cons_self)
      rw [length_cons] at hcount
      unfold AttestationStore.wouldExceed
      omega
    have hadd := add_of_room now (hvalid a mem_cons_self) hretention
      (hnew a mem_cons_self) hroom
    have hrest : ∀ b ∈ rest, (store.insertVote a.key a now).hasVote b.key b.signer = false := by
      intro b hb
      rw [← Bool.not_eq_true, hasVote_insertVote]
      rintro (hold | hsame)
      · simp [hnew b (mem_cons_of_mem _ hb)] at hold
      · exact hdistinct.1 b hb hsame
    have hbuckets : ∀ key b, (store.insertVote a.key a now).buckets.find? key = some b →
        key ∈ keys := by
      intro key b hb
      change (store.buckets.insert a.key _).find? key = some b at hb
      rw [find?_insert] at hb
      split_ifs at hb with hk
      · exact hk ▸ hmem a mem_cons_self
      · exact hkeys key b hb
    rw [length_cons] at hcount
    have hnext : ∃ store', addTail curve now (store.insertVote a.key a now) rest = .ok store' :=
      ih (fun b hb => hvalid b (mem_cons_of_mem _ hb)) hretention hblocks
        (by change store.attestationCount + 1 + rest.length ≤ store.config.maxAttestations; omega)
        hbuckets (fun b hb => hmem b (mem_cons_of_mem _ hb)) hrest hdistinct.2
    obtain ⟨store', hstore'⟩ := hnext
    refine ⟨store', ?_⟩
    unfold addTail at hstore' ⊢
    rw [foldlM_cons, hadd]
    simpa using hstore'

theorem checkVotes_ok (hvotes : ∀ a ∈ record, a.key = key ∧ a.Valid curve config)
    (hnodup : (record.map ExactReplayAttestation.signer).Nodup)
    (hseen : ∀ a ∈ record, a.signer ∉ seen) :
    checkVotes curve config key seen record = .ok () := by
  induction record generalizing seen with
  | nil => rfl
  | cons a rest ih =>
    rw [map_cons, nodup_cons] at hnodup
    obtain ⟨hkey, hvalid⟩ := hvotes a mem_cons_self
    unfold ExactReplayAttestation.Valid at hvalid
    have hrest : checkVotes curve config key (a.signer :: seen) rest = .ok () :=
      ih (fun b hb => hvotes b (mem_cons_of_mem _ hb)) hnodup.2 fun b hb => by
        rw [mem_cons, not_or]
        refine ⟨fun heq => hnodup.1 ?_, hseen b (mem_cons_of_mem _ hb)⟩
        exact heq ▸ mem_map_of_mem hb
    simp only [checkVotes, hvalid, bind_eq_ok, require_eq_ok]
    exact ⟨(), ⟨hkey, hseen a mem_cons_self⟩, (), trivial, hrest⟩

theorem length_record_le (hnodup : (record.map ExactReplayAttestation.signer).Nodup)
    (hvalid : ∀ a ∈ record, a.Valid curve config) :
    record.length ≤ config.trustedSigners.length := by
  rw [← length_map ExactReplayAttestation.signer]
  refine (hnodup.subperm fun signer hsigner => ?_).length_le
  obtain ⟨a, ha, rfl⟩ := mem_map.1 hsigner
  exact (verifyAttestation_valid (hvalid a ha)).2.2.2

theorem WellFormed.checkRecord_ok (h : s.WellFormed env) (hrecord : s.db.find? key = some record) :
    checkRecord env.curve env.config (key, record) = .ok () := by
  obtain ⟨hne, hnodup, hvotes⟩ := h.db key record hrecord
  have hvalid : ∀ a ∈ record, a.Valid env.curve env.config :=
    fun a ha => h.accepted a (hvotes a ha).2
  simp only [checkRecord, bind_eq_ok, require_eq_ok]
  exact ⟨(), ⟨hne, length_record_le hnodup hvalid⟩,
    checkVotes_ok (fun a ha => ⟨(hvotes a ha).1, hvalid a ha⟩) hnodup (by simp)⟩

theorem WellFormed.tail_distinct (h : s.WellFormed env)
    {records : List (BlockKey × List (ExactReplayAttestation σ))}
    (hsorted : records.Pairwise fun r r' => r.1 < r'.1)
    (hrecords : ∀ r ∈ records, s.db.find? r.1 = some r.2) :
    (records.flatMap Prod.snd).Pairwise fun a b => ¬(b.key = a.key ∧ b.signer = a.signer) := by
  rw [pairwise_flatMap]
  constructor
  · intro r hr
    obtain ⟨-, hnodup, -⟩ := h.db _ _ (hrecords r hr)
    exact (pairwise_map.1 hnodup).imp fun hne hsame => hne hsame.2.symm
  · refine hsorted.imp_of_mem fun {r r'} hr hr' hlt a ha b hb hsame => ?_
    have hkey := ((h.db _ _ (hrecords r hr)).2.2 a ha).1
    have hkey' := ((h.db _ _ (hrecords r' hr')).2.2 b hb).1
    exact hlt.ne (by rw [← hkey, ← hkey', hsame.1])

/-- **An empty store loads every database that a node has written.** -/
theorem WellFormed.load_ok (h : s.WellFormed env) (now : ℤ) (hints : AttestationHints) :
    ∃ r, loadDurableAttestations env.curve now (env.cursor s.db)
      (AttestationStore.setDurableRetention { config := env.config } true) hints = .ok r := by
  have hfind : ∀ r ∈ env.cursor s.db, s.db.find? r.1 = some r.2 := fun r hr =>
    find?_eq_some_iff.2 ((env.cursor_perm s.db).mem_iff.1 hr)
  obtain ⟨hsorted, hmem, hblocks, htotal⟩ := hotTail_spec env.config (env.cursor s.db)
  have htail : ∀ r ∈ hotTail env.config (env.cursor s.db), s.db.find? r.1 = some r.2 :=
    fun r hr => hfind r (hmem r hr)
  have hvotes : ∀ a ∈ (hotTail env.config (env.cursor s.db)).flatMap Prod.snd,
      a.Valid env.curve env.config ∧
        a.key ∈ (hotTail env.config (env.cursor s.db)).map Prod.fst := by
    intro a ha
    obtain ⟨r, hr, har⟩ := mem_flatMap.1 ha
    obtain ⟨hkey, hacc⟩ := (h.db _ _ (htail r hr)).2.2 a har
    exact ⟨h.accepted a hacc, mem_map.2 ⟨r, hr, hkey.symm⟩⟩
  have hadd : ∃ store', addTail env.curve now
      (AttestationStore.setDurableRetention { config := env.config } true)
      ((hotTail env.config (env.cursor s.db)).flatMap Prod.snd) = .ok store' := by
    refine addTail_ok ((hotTail env.config (env.cursor s.db)).map Prod.fst)
      (fun a ha => (hvotes a ha).1) rfl (by rwa [length_map]) ?_ (by
        simp [AttestationStore.setDurableRetention]) (fun a ha => (hvotes a ha).2) (fun a ha => rfl)
      (h.tail_distinct hsorted htail)
    rw [length_flatMap]
    change 0 + _ ≤ env.config.maxAttestations
    rw [zero_add]
    exact htotal
  obtain ⟨store', hstore'⟩ := hadd
  have hcheck : (env.cursor s.db).forM (checkRecord env.curve env.config) = .ok () :=
    forM_eq_ok.2 fun r hr => h.checkRecord_ok (hfind r hr)
  unfold loadDurableAttestations
  simp only [bind_eq_ok, pure_eq_ok]
  exact ⟨_, (), hcheck, store', hstore', rfl⟩

theorem step_load_eq {hints : AttestationHints} (hphase : s.phase = .closed)
    (hworker : s.worker = .stopped)
    (hload : loadDurableAttestations env.curve now (env.cursor s.db)
      (s.store.setDurableRetention true) s.hints = .ok (store, hints)) :
    s.step env (.load now) = some { s with store := store, hints := hints, phase := .loaded } := by
  simp only [step]
  rw [if_pos ⟨hphase, hworker⟩, hload]

theorem step_importLog_of_nil (env : AttestationEnv σ) (hphase : s.phase = .loaded)
    (hwal : s.wal = []) (now : ℤ) :
    ∃ hints, s.step env (.importLog now true) =
      some { s with hints := hints, phase := .imported, syncMissed := false } := by
  obtain ⟨hints, himport⟩ : ∃ hints,
      importAttestations env.curve now [] s.db s.store s.hints = .ok (s.db, s.store, hints) := by
    simp only [importAttestations, bind_eq_ok, require_eq_ok, pure_eq_ok]
    exact ⟨_, (s.store, []), rfl, (), by simp, rfl⟩
  refine ⟨hints, ?_⟩
  simp only [step]
  rw [if_pos hphase, hwal, himport]
  rfl

/-- **A drained node can be stopped and started again.** -/
theorem Run.restart (h : Run env (fun s act => s.cleanStep act = true) s)
    (hdrained : s.drained = true)
    (now : ℤ) :
    ∃ s', [Action.crash, .load now, .importLog now true, .openReset true].foldlM (step env) s =
      some s' ∧
      Run env (fun s act => s.cleanStep act = true) s' ∧ s'.phase = .opened ∧ s'.drained = true ∧
      s'.accepted = s.accepted := by
  obtain ⟨-, hwal⟩ := h.complete.of_drained hdrained
  have hcrash := h.next .crash hdrained rfl
  obtain ⟨⟨store, hints⟩, hload⟩ := hcrash.wellFormed.load_ok now {}
  have hload' := step_load_eq (s := s.crashed env) rfl rfl hload
  have hloaded := hcrash.next _ rfl hload'
  obtain ⟨hints', himport⟩ := step_importLog_of_nil env (s := { s.crashed env with
    store := store, hints := hints, phase := .loaded }) rfl hwal now
  have himported := hloaded.next _ rfl himport
  have hopened := himported.next (.openReset true) rfl rfl
  refine ⟨_, ?_, hopened, rfl, rfl, rfl⟩
  simp only [foldlM_cons, foldlM_nil]
  rw [show s.step env .crash = some (s.crashed env) from rfl]
  change (step env (s.crashed env) (.load now) >>= _) = _
  rw [hload']
  change (step env _ (.importLog now true) >>= _) = _
  rw [himport]
  rfl

end Restart

/-- **`HasQuorum` answers for the whole history.** In every run without write failures, whatever was
evicted and restarted, a drained node finds a quorum exactly where enough different trusted signers
have had an attestation of the block accepted; and it can be restarted. -/
theorem hasQuorum_iff_accepted (env : AttestationEnv σ) {s : AttestationNode σ}
    (h : Run env (fun s act => s.cleanStep act = true) s) (hdrained : s.drained = true) :
    (s.phase = .opened → ∀ hash height, s.hasQuorum env hash height = true ↔
      env.config.threshold ≤ (s.acceptedSigners hash height).length) ∧
    (∀ hash height, ∀ signer ∈ s.acceptedSigners hash height, signer ∈ env.config.trustedSigners) ∧
    ∀ now, ∃ s',
      [Action.crash, .load now, .importLog now true, .openReset true].foldlM (step env) s =
        some s' ∧
      Run env (fun s act => s.cleanStep act = true) s' ∧ s'.phase = .opened ∧ s'.drained = true ∧
      s'.accepted = s.accepted := by
  have hwf := h.wellFormed
  refine ⟨fun hphase hash height => ?_, fun hash height signer hsigner => ?_, h.restart hdrained⟩
  · have hrecord := hwf.length_recordSigners hash height (h.complete.of_drained hdrained).1
    simp only [hasQuorum, hphase, Bool.or_eq_true, Bool.and_eq_true, decide_eq_true_eq, true_and]
    rw [hrecord]
    refine or_iff_right_of_imp fun hmemory => ?_
    unfold hasQuorumInMemory AttestationStore.hasQuorum at hmemory
    obtain ⟨b, hb, hquorum⟩ := (Option.any_eq_true _ _).1 hmemory
    rw [hwf.config] at hquorum
    exact (of_decide_eq_true hquorum).trans (hwf.size_le_acceptedSigners hb)
  · obtain ⟨a, ha, -, rfl⟩ := mem_acceptedSigners.1 hsigner
    exact (verifyAttestation_valid (hwf.accepted a ha)).2.2.2

/-- The worker writes a batch. -/
def workerActs : List (Action ℕ) := [.take, .append true, .sync true, .reset true, .report]

/-- A block gets its two votes, the second from the local key; a vote for the next block is staged
beside it; then the node is restarted, and the first block does not fit into memory again. -/
def historyActs : List (Action ℕ) :=
  openActs ++
    [.add (AttestationStore.sampleAttestation 7 0 6) 7 0 0, .advance 0 0 true, .advance 0 0 true,
      .signStart 7 0] ++ List.replicate 5 (.advance 0 0 true) ++ workerActs ++
    [.add (AttestationStore.sampleAttestation 8 1 6) 8 1 0, .advance 0 0 true, .advance 0 0 true] ++
    workerActs ++ [.crash] ++ openActs

/-- After the restart the first block has its quorum, and the second has not. -/
theorem hasQuorum_iff_accepted_sample : ∃ s, runWhere sampleEnv cleanStep historyActs = some s ∧
      s.hasQuorum sampleEnv 7 0 = true ∧ s.hasQuorum sampleEnv 8 1 = false := by
  have hrun : (runWhere sampleEnv cleanStep historyActs).any (fun s =>
      decide (s.drained = true ∧ s.phase = .opened ∧ s.acceptedSigners 7 0 = [6, 5] ∧
        s.acceptedSigners 8 1 = [6])) = true := by
    decide +kernel
  obtain ⟨s, hs, hfacts⟩ := (Option.any_eq_true _ _).1 hrun
  obtain ⟨hdrained, hphase, hfirst, hsecond⟩ := of_decide_eq_true hfacts
  have hquorum := (hasQuorum_iff_accepted sampleEnv (Run.of_runWhere hs) hdrained).1 hphase
  refine ⟨s, hs, (hquorum 7 0).2 (by rw [hfirst]; decide), ?_⟩
  rw [← Bool.not_eq_true, hquorum 8 1, hsecond]
  decide

/-- **A quorum is never made up.** In every interleaving of callers, worker and disk, with failed
writes, crashes and restarts, a block with a quorum has had attestations by enough different signers
accepted; each is trusted and has one that verifies for the block. -/
theorem quorum_genuine (env : AttestationEnv σ) {P : AttestationNode σ → Action σ → Prop}
    {s : AttestationNode σ} (h : Run env P s) {hash : Uint256} {height : ℤ}
    (hquorum : s.hasQuorum env hash height = true) :
    env.config.threshold ≤ (s.acceptedSigners hash height).length ∧
    ∀ signer ∈ s.acceptedSigners hash height, signer ∈ env.config.trustedSigners ∧
      ∃ a ∈ s.accepted, a.signer = signer ∧ verifyAttestation env.curve a env.config.chainId
        env.config.replayAuthorityContext hash height env.config.trustedSigners = .valid := by
  have hwf := h.wellFormed
  constructor
  · simp only [hasQuorum, Bool.or_eq_true, Bool.and_eq_true, decide_eq_true_eq] at hquorum
    rcases hquorum with hmemory | ⟨-, hdurable⟩
    · unfold hasQuorumInMemory AttestationStore.hasQuorum at hmemory
      obtain ⟨b, hb, hsize⟩ := (Option.any_eq_true _ _).1 hmemory
      rw [hwf.config] at hsize
      exact (of_decide_eq_true hsize).trans (hwf.size_le_acceptedSigners hb)
    · refine hdurable.trans ((nodup_dedup _).subperm fun signer hsigner => ?_).length_le
      obtain ⟨a, ha, rfl⟩ := mem_map.1 (mem_dedup.1 hsigner)
      have hrecord := (List.mem_filter.1 ha).1
      cases hfind : s.db.find? (blockKey height hash) with
      | none => simp [hfind] at hrecord
      | some record =>
        obtain ⟨hkey, hmem⟩ := (hwf.db _ record hfind).2.2 a (by simpa [hfind] using hrecord)
        exact mem_acceptedSigners.2 ⟨a, hmem, hkey, rfl⟩
  · rintro signer hsigner
    obtain ⟨a, ha, hkey, rfl⟩ := mem_acceptedSigners.1 hsigner
    have hvalid := hwf.verified ha hkey
    exact ⟨(verifyAttestation_valid hvalid).2.2.2, a, ha, rfl, hvalid⟩

/-- After the restart of the sample the block with the quorum has two signers, and the attestation
of the second verifies. -/
theorem quorum_genuine_sample : ∃ s, runWhere sampleEnv (fun _ _ => true) historyActs = some s ∧
    s.hasQuorum sampleEnv 7 0 = true ∧ 2 ≤ (s.acceptedSigners 7 0).length ∧
    ∃ a ∈ s.accepted, a.signer = 5 ∧ verifyAttestation sampleEnv.curve a sampleEnv.config.chainId
      sampleEnv.config.replayAuthorityContext 7 0 sampleEnv.config.trustedSigners = .valid := by
  have hrun : (runWhere sampleEnv (fun _ _ => true) historyActs).any (fun s =>
      decide (s.hasQuorum sampleEnv 7 0 = true ∧ 5 ∈ s.acceptedSigners 7 0)) = true := by
    decide +kernel
  obtain ⟨s, hs, hfacts⟩ := (Option.any_eq_true _ _).1 hrun
  obtain ⟨hquorum, hlocal⟩ := of_decide_eq_true hfacts
  have hgenuine := quorum_genuine sampleEnv (Run.of_runWhere hs) hquorum
  exact ⟨s, hs, hquorum, hgenuine.1, (hgenuine.2 5 hlocal).2⟩

end Btx.Node.AttestationNode
