/-
# What a rejected block leaves behind

`ConnectBlock` writes the stores before it compares the block with the unshield velocity cap, where
"a violation rejects the block cleanly" according to its comment; nothing takes the writes out. The
extraction of the manifests, the other check after a write, cannot fail for a block that got so far
(`blockNettingManifestStates_isOk`).
-/

import Btx.Validation.BridgeStores

namespace Btx.Validation

open Util Shielded List

/-- The reasons of `state.Error` in `ConnectBlock`: the node stops and the block is not judged. -/
def systemErrors : List String :=
  [missingAnchorMetadata, "shielded-nullifier-db-write-failed",
    "shielded-recovery-exit-db-write-failed", "shielded-settlement-anchor-db-write-failed",
    "shielded-netting-manifest-db-write-failed"]

/-- The block was rejected as invalid. -/
def Rejection.IsInvalid {H : MerkleHash} (r : Rejection H) : Prop := r.reason ∉ systemErrors

instance {H : MerkleHash} (r : Rejection H) : Decidable r.IsInvalid :=
  inferInstanceAs (Decidable (¬_))

/-- The four stores, the velocity log and the pool are the same. -/
structure SameStores {H : MerkleHash} (s r : ShieldedState H) : Prop where
  nullifiers : r.nullifiers = s.nullifiers
  recoveryExitCommitments : r.recoveryExitCommitments = s.recoveryExitCommitments
  settlementAnchors : r.settlementAnchors = s.settlementAnchors
  nettingManifests : r.nettingManifests = s.nettingManifests
  velocity : r.velocity = s.velocity
  pool : r.pool = s.pool

theorem SameStores.refl {H : MerkleHash} (s : ShieldedState H) : SameStores s s :=
  ⟨rfl, rfl, rfl, rfl, rfl, rfl⟩

/-- The reject reason of the velocity cap. -/
def velocityExceeded : String := "shielded-unshield-velocity-exceeded"

/-- The block passes everything else and exceeds the velocity cap. -/
def FailsOnlyVelocityCap (env : Env) (ctx : BlockContext) (st : ChainState env.merkle)
    (block : CBlock) : Prop :=
  ∃ loop registry, validateBlock env ctx st block = .ok loop ∧
    projectRegistry env ctx st.shielded loop.acc = .ok registry ∧
    nextVelocity env ctx st.shielded loop.acc.pool = .error velocityExceeded

/-- The block has no effect on the four stores: it retires no nullifier, consumes exactly the
anchors it creates, and creates no manifest. -/
def WritesNothing (env : Env) (height : ℕ) (block : CBlock) : Prop :=
  blockNullifiers env block = [] ∧
    (∀ a, a ∈ blockCreatedAnchors env height block ↔ a ∈ blockConsumedAnchors env height block) ∧
    blockManifests env block = []

section Frame

variable {env : Env} {ctx : BlockContext} {block : CBlock} {s s' : ShieldedState env.merkle}
  {acc acc' : BlockAcc env.merkle} {st : ChainState env.merkle} {r : Rejection env.merkle}

/-! ## The points of rejection -/

variable {H : MerkleHash} {pool : ShieldedPoolBalance} {tx : CTransaction}
  {loop loop' : LoopState env.merkle}

theorem rejectWith_eq_error {α : Type} {s : ShieldedState H} {x : Except String α}
    {r : Rejection H} : rejectWith s x = .error r ↔ x = .error r.reason ∧ r.state = s := by
  unfold rejectWith
  cases x with
  | ok a => simp [Except.mapError]
  | error e =>
    simp only [Except.mapError, Except.error.injEq]
    constructor
    · rintro rfl
      exact ⟨rfl, rfl⟩
    · rintro ⟨rfl, rfl⟩
      rfl

theorem writeOr_eq_error {reason : String}
    {write : ShieldedState H → Option (ShieldedState H)} {s : ShieldedState H} {r : Rejection H}
    (h : writeOr reason write s = .error r) : r.reason = reason := by
  unfold writeOr at h
  split at h
  · cases h
    rfl
  · cases h

theorem nextVelocity_eq_error {e : String}
    (h : nextVelocity env ctx s pool = .error e) : e = velocityExceeded := by
  unfold nextVelocity at h
  dsimp only at h
  split_ifs at h <;> cases h <;> rfl

theorem nextVelocity_congr (hpool : s'.pool = s.pool) (hvelocity : s'.velocity = s.velocity) :
    nextVelocity env ctx s' pool = nextVelocity env ctx s pool := by
  simp only [nextVelocity, hpool, hvelocity]

theorem manifest_isValid_of_checkTransaction {manifest : NettingManifest}
    (hcheck : checkTransaction env.wellFormed env.limits tx = .ok ())
    (h : nettingManifestOf tx = some manifest) : manifest.isValid = true := by
  have hb : tx.hasShieldedBundle = true := by
    by_contra hb
    rw [nettingManifestOf_eq_none (by simpa using hb)] at h
    cases h
  have hstructure := (checkTransaction_ok hcheck).2.2 hb
  unfold nettingManifestOf CShieldedBundle.payload at h
  cases hv2 : tx.shieldedBundle.v2Bundle with
  | none => simp [hv2] at h
  | some v2 =>
    cases hp : v2.payload with
    | rebalance p =>
      simp only [hv2, Option.map_some, hp] at h
      simp only [CShieldedBundle.checkStructure, hv2, TransactionBundle.isValid, hp,
        RebalancePayload.isValid, h, Bool.and_eq_true] at hstructure
      exact hstructure.2.2.2.2.1
    | _ => simp [hv2, hp] at h

theorem manifests_of_not_hasShieldedBundle (hb : tx.hasShieldedBundle = false) :
    ∃ ids, extractCreatedShieldedNettingManifests env tx = .ok ids := by
  refine ⟨[], ?_⟩
  rw [extractCreatedShieldedNettingManifests, nettingManifestOf_eq_none hb]
  rfl

theorem familyTx_manifests (h : familyTx env ctx s acc tx = .ok acc') :
    ∃ ids, extractCreatedShieldedNettingManifests env tx = .ok ids := by
  obtain ⟨_, manifests, _, -, hmanifests, -⟩ := familyTx_ok h
  exact ⟨manifests, hmanifests⟩

theorem connectTxs_manifests {vtx : List CTransaction}
    (h : vtx.foldlM (connectTx env ctx s) loop = .ok loop') :
    ∀ tx ∈ vtx, ∃ ids, extractCreatedShieldedNettingManifests env tx = .ok ids := by
  induction vtx generalizing loop with
  | nil => simp
  | cons tx vtx ih =>
    obtain ⟨mid, hmid, hrest⟩ := bind_eq_ok.1 (by simpa using h)
    refine forall_mem_cons.2 ⟨?_, ih hrest⟩
    obtain ⟨⟨hb, -⟩ | ⟨-, hacc⟩, -⟩ := connectTx_ok hmid
    · exact manifests_of_not_hasShieldedBundle hb
    · obtain ⟨_, _, _, _, _, _, -, -, -, -, -, -, hfam⟩ := shieldedTx_ok hacc
      exact familyTx_manifests hfam

/-- **The manifests can be extracted.** The extraction after the first writes does not fail for a
block that passed the checks before them. -/
theorem blockNettingManifestStates_isOk (hcheck : checkBlock env ctx block = .ok ())
    (hids : ∀ tx ∈ block.vtx, ∃ ids, extractCreatedShieldedNettingManifests env tx = .ok ids) :
    ∃ manifests, blockNettingManifestStates env ctx block = .ok manifests := by
  simp only [checkBlock, bind_eq_ok] at hcheck
  obtain ⟨_, -, _, -, _, -, _, -, hforM⟩ := hcheck
  have hwell := forM_eq_ok.1 hforM
  have hitem : ∀ tx ∈ block.vtx, ∃ states,
      extractCreatedShieldedNettingManifestStates env tx ctx.height = .ok states := by
    intro tx htx
    obtain ⟨ids, hids⟩ := hids tx htx
    unfold extractCreatedShieldedNettingManifests at hids
    unfold extractCreatedShieldedNettingManifestStates
    cases hm : nettingManifestOf tx with
    | none => exact ⟨[], rfl⟩
    | some manifest =>
      have hvalid := manifest_isValid_of_checkTransaction (hwell tx htx) hm
      simp only [hm, ite_throw_eq_ok] at hids
      refine ⟨[⟨env.nettingManifestId manifest, ctx.height, manifest.settlementWindow⟩], ?_⟩
      simp [hids.1, hvalid, pure, Except.pure]
  obtain ⟨states, hstates⟩ := exists_mapM_eq_ok_iff.2 hitem
  exact ⟨states.flatten, by rw [blockNettingManifestStates, hstates, ok_bind]; rfl⟩

theorem validateBlock_manifests (h : validateBlock env ctx st block = .ok loop) :
    ∃ manifests, blockNettingManifestStates env ctx block = .ok manifests := by
  obtain ⟨hcheck, hloop, -⟩ := validateBlock_ok h
  exact blockNettingManifestStates_isOk hcheck (connectTxs_manifests hloop)

theorem writeStores_eq_error
    (hmanifests : ∃ manifests, blockNettingManifestStates env ctx block = .ok manifests)
    (h : writeStores env ctx block acc s = .error r) : ¬r.IsInvalid := by
  obtain ⟨manifests, hmanifests⟩ := hmanifests
  have hsystem : r.reason ∈ systemErrors := by
    simp only [writeStores, bind_eq_error, hmanifests, rejectWith_eq_error] at h
    rcases h with h | ⟨_, -, h | ⟨_, -, h | ⟨_, -, h | ⟨_, -, ⟨h, -⟩ | ⟨_, -, h⟩⟩⟩⟩⟩
    on_goal 5 => cases h
    all_goals simp [systemErrors, writeOr_eq_error h]
  exact fun hinvalid => hinvalid hsystem

/-- A commit that fails with a verdict fails before the first write, or at the velocity cap. -/
theorem commitShielded_eq_error
    (hmanifests : ∃ manifests, blockNettingManifestStates env ctx block = .ok manifests)
    (h : commitShielded env ctx block acc s = .error r) (hr : r.IsInvalid) :
    (projectRegistry env ctx s acc = .error r.reason ∧ r.state = s) ∨
      ∃ registry, projectRegistry env ctx s acc = .ok registry ∧
        writeStores env ctx block acc s = .ok r.state ∧
        nextVelocity env ctx r.state acc.pool = .error r.reason := by
  rcases bind_eq_error.1 h with h | ⟨registry, hregistry, h⟩
  · exact .inl (rejectWith_eq_error.1 h)
  · rcases bind_eq_error.1 h with h | ⟨s₅, hwrites, h⟩
    · exact absurd hr (writeStores_eq_error hmanifests h)
    · rcases bind_eq_error.1 h with h | ⟨_, -, h⟩
      · obtain ⟨hvelocity, rfl⟩ := rejectWith_eq_error.1 h
        exact .inr ⟨registry, rejectWith_eq_ok.1 hregistry, hwrites, hvelocity⟩
      · cases h

/-- **The two kinds of verdicts.** A block rejected as invalid fails before the first write, and
the state is as it was, or it fails the velocity cap after the last one. -/
theorem connectBlock_eq_error (h : connectBlock env ctx st block = .error r) (hr : r.IsInvalid) :
    (¬FailsOnlyVelocityCap env ctx st block ∧ r.state = st.shielded) ∨
      (FailsOnlyVelocityCap env ctx st block ∧
        StoresWritten env ctx.height block st.shielded r.state ∧
        r.state.pool = st.shielded.pool ∧ r.state.velocity = st.shielded.velocity) := by
  rcases bind_eq_error.1 h with h | ⟨loop, hloop, h⟩
  · obtain ⟨hvalid, hstate⟩ := rejectWith_eq_error.1 h
    refine .inl ⟨?_, hstate⟩
    rintro ⟨loop, _, hloop, -, -⟩
    rw [hvalid] at hloop
    cases hloop
  · have hvalid := rejectWith_eq_ok.1 hloop
    obtain ⟨ds, hds, hext, hinv⟩ := validateBlock_loop hvalid
    split_ifs at h with he
    · rcases bind_eq_error.1 h with h | ⟨_, -, h⟩
      · rcases commitShielded_eq_error (validateBlock_manifests hvalid) h hr with
          ⟨hproject, hstate⟩ | ⟨registry, hregistry, hwrites, hvelocity⟩
        · refine .inl ⟨?_, hstate⟩
          rintro ⟨loop', registry, hloop', hregistry, -⟩
          obtain rfl : loop = loop' := by simpa [hvalid] using hloop'
          rw [hproject] at hregistry
          cases hregistry
        · obtain ⟨hwritten, hpool, hvel⟩ := writeStores_ok hds hext hinv hwrites
          rw [nextVelocity_congr hpool hvel] at hvelocity
          exact .inr ⟨⟨loop, registry, hvalid, hregistry,
            nextVelocity_eq_error hvelocity ▸ hvelocity⟩, hwritten, hpool, hvel⟩
      · cases h
    · cases h

/-! ## The stores after a rejection -/

/-- The stores stay as they are exactly if the block writes nothing. -/
theorem StoresWritten.sameStores_iff (h : StoresWritten env ctx.height block s s')
    (hpool : s'.pool = s.pool) (hvelocity : s'.velocity = s.velocity) :
    SameStores s s' ↔ WritesNothing env ctx.height block := by
  constructor
  · intro hsame
    refine ⟨eq_nil_iff_forall_not_mem.2 fun nf hnf => ?_, fun a => ⟨fun ha => ?_, fun ha => ?_⟩,
      eq_nil_iff_forall_not_mem.2 fun id hid => ?_⟩
    · have hmem : nf ∈ s'.nullifiers := by
        rw [h.nullifiers]
        exact Finset.mem_union_right _ (mem_toFinset.2 hnf)
      exact (h.nullifiers_new nf hnf).2 (hsame.nullifiers ▸ hmem)
    · by_contra hnot
      have hget := h.settlementAnchors a
      rw [if_neg hnot, if_pos ha, hsame.settlementAnchors, (h.created_new a ha).2] at hget
      cases hget
    · obtain ⟨-, hcreated | ⟨height, -, hstored⟩⟩ := h.consumed_known a ha
      · exact hcreated
      · have hget := h.settlementAnchors a
        rw [if_pos ha, hsame.settlementAnchors, hstored] at hget
        cases hget
    · have hkey : id ∈ ((blockManifestStates env ctx.height block).map fun m =>
          (m.manifestId, m.createdHeight, m.settlementWindow)).map Prod.fst := by
        rw [map_map]
        exact h.manifests_ids ▸ hid
      have hget : (s'.nettingManifests id).isSome := by
        rw [h.nettingManifests]
        exact PartialMap.insertAll_isSome hkey
      rw [hsame.nettingManifests, (h.manifests_new id hid).2] at hget
      cases hget
  · rintro ⟨hnfs, hanchors, hmanifests⟩
    have hstates : blockManifestStates env ctx.height block = [] := by
      rw [← map_eq_nil_iff (f := (·.manifestId)), h.manifests_ids, hmanifests]
    refine ⟨?_, ?_, funext fun a => ?_, ?_, hvelocity, hpool⟩
    · rw [h.nullifiers, hnfs, toFinset_nil, Finset.union_empty]
    · rw [h.recoveryExits, blockRecoveryExits_eq_nil hnfs, toFinset_nil, Finset.union_empty]
    · rw [h.settlementAnchors a]
      split_ifs with hconsumed hcreated
      · exact (h.created_new a ((hanchors a).2 hconsumed)).2.symm
      · exact absurd ((hanchors a).1 hcreated) hconsumed
      · rfl
    · rw [h.nettingManifests, hstates]
      rfl

theorem sameStores_iff_of_eq_error (h : connectBlock env ctx st block = .error r)
    (hr : r.IsInvalid) : SameStores st.shielded r.state ↔
      ¬FailsOnlyVelocityCap env ctx st block ∨ WritesNothing env ctx.height block := by
  obtain ⟨hbefore, hstate⟩ | ⟨hcap, hwritten, hpool, hvelocity⟩ := connectBlock_eq_error h hr
  · rw [hstate]
    exact iff_of_true (.refl _) (.inl hbefore)
  · rw [hwritten.sameStores_iff hpool hvelocity]
    exact ⟨.inr, fun hor => hor.resolve_left (not_not.2 hcap)⟩

end Frame

end Btx.Validation
