/-
# Votes that are refused, and votes that are not

The votes of `threshold` signers make a quorum however full the store is (`addVotes_reach_quorum`).
Only a surplus vote is refused for capacity (`add_capacity_iff`); by then `makeRoomLocked` has
erased the incomplete buckets of other blocks (`capacity_keeps_iff`).
-/

import Btx.Node.AttestationOrigin

namespace Btx.Node.AttestationStore

open Util OrderedMap List Option

variable {σ : Type} [LinearOrder σ]

/-- `GetAttestations`. -/
def getAttestations (s : AttestationStore σ) (key : BlockKey) : List (ExactReplayAttestation σ) :=
  ((s.buckets.find? key).map fun b => b.attestations.entries.map Prod.snd).getD []

/-- The attestations in complete buckets. -/
def storedQuorums (s : AttestationStore σ) : ℕ :=
  s.buckets.total fun _ b =>
    if s.config.threshold ≤ b.attestations.size then b.attestations.size else 0

/-- The other buckets are complete. -/
def OthersComplete (s : AttestationStore σ) (key : BlockKey) : Prop :=
  ∀ k b, s.buckets.find? k = some b → k ≠ key → s.config.threshold ≤ b.attestations.size

/-- The vote is valid and new, its block is a quorum without it, and the quorums alone fill the
store, all of this among the buckets that have not expired. -/
def Surplus (curve : Curve σ) (s : AttestationStore σ) (attestation : ExactReplayAttestation σ)
    (hash : Uint256) (height now : ℤ) : Prop :=
  verifyAttestation curve attestation s.config.chainId s.config.replayAuthorityContext hash height
    s.config.trustedSigners = .valid ∧
  (s.pruneExpiredLocked now).hasVote (blockKey height hash) attestation.signer = false ∧
  s.config.threshold ≤ (s.pruneExpiredLocked now).votes (blockKey height hash) ∧
  s.config.maxAttestations ≤ (s.pruneExpiredLocked now).storedQuorums

/-! ## Making room -/

section Room

variable {s : AttestationStore σ} {key incoming victim : BlockKey} {b : Bucket σ} {reaches : Bool}

theorem size_add_new (s : AttestationStore σ) (incoming : BlockKey) :
    s.buckets.size + (if s.buckets.contains incoming then 0 else 1) =
      (s.buckets.erase incoming).size + 1 := by
  rw [← size_insert (s := s) ⟨0, .empty⟩, size_eq_total, total_insert, ← size_eq_total, add_comm]

theorem mayStage_of_pending (h : s.Inv) (hvotes : s.votes incoming + 1 < s.config.threshold)
    (hothers : s.OthersComplete incoming) : s.mayStage incoming = true := by
  have hfits : Fits s.config (s.buckets.erase incoming) := h.staged.fits_erase hothers
  have hsize := size_add_new s incoming
  have hcount := h.counted
  have hstored := stored_eq_votes_add s incoming
  have hrest : (s.buckets.erase incoming).total
      (fun _ b => if b.attestations.size < s.config.threshold then 1 else 0) = 0 := by
    by_contra hne
    obtain ⟨k, b, hmem, hpos⟩ := exists_of_total_pos (Nat.pos_of_ne_zero hne)
    obtain ⟨hmem, hk⟩ := mem_erase.1 hmem
    have := hothers k b (find?_eq_some_iff.2 hmem) hk
    rw [if_neg (not_lt.2 this)] at hpos
    omega
  have hpending : s.buckets.total
      (fun _ b => if b.attestations.size < s.config.threshold then 1 else 0) +
      (if s.buckets.contains incoming then 0 else 1) = 1 := by
    cases hk : s.buckets.find? incoming with
    | none =>
      rw [not_contains_iff.2 hk, ← erase_of_find?_none hk, hrest]
      rfl
    | some b =>
      rw [votes_of_find? hk] at hvotes
      rw [contains_iff.2 ⟨b, hk⟩, total_eq_add_erase hk, hrest, if_pos (by omega)]
      rfl
  unfold Fits at hfits
  simp only [mayStage, decide_eq_true_eq]
  refine ⟨hpending, hvotes, by omega, by omega⟩

/-- **A vote that leaves its block pending finds room.** -/
theorem makeRoomLocked_pending (incoming : BlockKey) (h : s.Inv)
    (hvotes : s.votes incoming + 1 < s.config.threshold) (hr : reaches = false) :
    (s.makeRoomLocked incoming reaches).1 = true := by
  fun_induction makeRoomLocked s incoming reaches with
  | case1 s hfull victim hv _ ih =>
    obtain ⟨hfind, hne, hlt⟩ := oldestPartial_eq_some hv
    refine ih (h.eraseLocked victim.1) ?_
    rwa [votes, (evicts_eraseLocked reaches hfind hne fun _ => hlt).incoming]
  | case2 s hfull hv hreaches | case3 s hfull hv hreaches => exact absurd hreaches (by simp [hr])
  | case4 s hfull hv hreaches =>
    exact mayStage_of_pending h hvotes fun k b hk hne => oldestPartial_eq_none hv hk hne
  | case5 s hroom => rfl

theorem storedQuorums_le (s : AttestationStore σ) : s.storedQuorums ≤ stored s.buckets := by
  refine total_le_total fun _ b _ => ?_
  split_ifs
  · exact le_rfl
  · exact zero_le

theorem storedQuorums_eraseLocked (hfind : s.buckets.find? victim = some b)
    (hlt : b.attestations.size < s.config.threshold) :
    (s.eraseLocked victim).storedQuorums = s.storedQuorums := by
  unfold storedQuorums
  rw [total_eq_add_erase hfind, if_neg (not_le.2 hlt), zero_add]
  rfl

/-- **A surplus vote finds room exactly if the quorums leave it some**; if not, the search has
erased every incomplete bucket. -/
theorem makeRoomLocked_surplus (incoming : BlockKey) (h : s.Inv) (ht : 1 ≤ s.config.threshold)
    (hvotes : s.config.threshold ≤ s.votes incoming) (hr : reaches = false) :
    ((s.makeRoomLocked incoming reaches).1 = true ↔
      s.storedQuorums < s.config.maxAttestations) ∧
    ((s.makeRoomLocked incoming reaches).1 = false →
      (s.makeRoomLocked incoming reaches).2.OthersComplete incoming) := by
  fun_induction makeRoomLocked s incoming reaches with
  | case1 s hfull victim hv _ ih =>
    obtain ⟨hfind, hne, hlt⟩ := oldestPartial_eq_some hv
    rw [← storedQuorums_eraseLocked hfind hlt]
    refine ih (h.eraseLocked victim.1) ht ?_
    rwa [votes, (evicts_eraseLocked reaches hfind hne fun _ => hlt).incoming]
  | case2 s hfull hv hreaches | case3 s hfull hv hreaches => exact absurd hreaches (by simp [hr])
  | case4 s hfull hv hreaches =>
    have hothers : s.OthersComplete incoming := fun k b hk hne => oldestPartial_eq_none hv hk hne
    have hall : ∀ k b, s.buckets.find? k = some b → s.config.threshold ≤ b.attestations.size := by
      intro k b hk
      by_cases hne : k = incoming
      · rw [hne] at hk
        rwa [votes_of_find? hk] at hvotes
      · exact hothers k b hk hne
    have hfits : Fits s.config s.buckets := by
      rcases h.staged with hfits | ⟨k, b, hstaged⟩
      · exact hfits
      · exact absurd (hall k b hstaged.find) (not_le.2 hstaged.incomplete)
    have hquorums : s.storedQuorums = stored s.buckets :=
      total_congr fun k b hmem => if_pos (hall k b (find?_eq_some_iff.2 hmem))
    obtain ⟨b, hb⟩ : ∃ b, s.buckets.find? incoming = some b := by
      by_contra hnone
      rw [votes_of_none (eq_none_iff_forall_ne_some.2 (not_exists.1 hnone))] at hvotes
      omega
    have hcount := h.counted
    have hstage : s.mayStage incoming = false := by
      simp only [mayStage, decide_eq_false_iff_not]
      omega
    refine ⟨?_, fun _ => hothers⟩
    unfold wouldExceed at hfull
    rw [contains_iff.2 ⟨b, hb⟩] at hfull
    unfold Fits at hfits
    simp only [hstage, hquorums]
    simp only [if_true] at hfull
    simp
    omega
  | case5 s hroom =>
    have := storedQuorums_le s
    have hcount := h.counted
    unfold wouldExceed at hroom
    simp only [Bool.true_eq_false, false_implies, and_true, true_iff]
    omega

theorem makeRoomLocked_othersComplete (h : s.OthersComplete incoming) (hr : reaches = false) :
    (s.makeRoomLocked incoming reaches).2 = s := by
  fun_induction makeRoomLocked s incoming reaches with
  | case1 s hfull victim hv _ ih =>
    obtain ⟨hfind, hne, hlt⟩ := oldestPartial_eq_some hv
    exact absurd (h _ _ hfind hne) (not_le.2 hlt)
  | case2 s hfull hv hreaches | case3 s hfull hv hreaches => exact absurd hreaches (by simp [hr])
  | case4 s hfull hv hreaches => rfl
  | case5 s hroom => rfl

end Room

/-! ## One vote -/

section Vote

variable {curve : Curve σ} {s : AttestationStore σ} {attestation : ExactReplayAttestation σ}
  {hash : Uint256} {height now : ℤ}

section

variable
  (hvalid : verifyAttestation curve attestation s.config.chainId s.config.replayAuthorityContext
    hash height s.config.trustedSigners = .valid)

include hvalid

theorem add_eq
    (hvote : (s.pruneExpiredLocked now).hasVote (blockKey height hash) attestation.signer = false) :
    ∃ reaches : Bool,
      (reaches = true ↔
        (s.pruneExpiredLocked now).votes (blockKey height hash) + 1 = s.config.threshold) ∧
      s.add curve attestation hash height now =
        if ((s.pruneExpiredLocked now).makeRoomLocked (blockKey height hash) reaches).1 = true then
          (.accepted, ((s.pruneExpiredLocked now).makeRoomLocked (blockKey height hash)
            reaches).2.insertVote (blockKey height hash) attestation now)
        else (.capacity,
          ((s.pruneExpiredLocked now).makeRoomLocked (blockKey height hash) reaches).2) := by
  refine ⟨decide ((s.pruneExpiredLocked now).votes (blockKey height hash) <
      (s.pruneExpiredLocked now).config.threshold ∧
    (s.pruneExpiredLocked now).config.threshold ≤
      (s.pruneExpiredLocked now).votes (blockKey height hash) + 1), ?_, ?_⟩
  · rw [decide_eq_true_eq, config_pruneExpiredLocked]
    omega
  · unfold add
    dsimp only
    rw [if_neg (by simp [hvalid]), if_neg (by simp [hvote])]
    split_ifs with hroom hok hok <;> simp_all

theorem add_eq_duplicate
    (hvote : (s.pruneExpiredLocked now).hasVote (blockKey height hash) attestation.signer = true) :
    s.add curve attestation hash height now = (.duplicate, s.pruneExpiredLocked now) := by
  unfold add
  dsimp only
  rw [if_neg (by simp [hvalid]), if_pos hvote]

end

section

variable (h : s.Inv) (hconfig : s.config.check curve = .ok ())

include h hconfig

/-- **A vote for a block without a quorum is accepted.** -/
theorem add_accepted_of_pending (hvalid : verifyAttestation curve attestation s.config.chainId
      s.config.replayAuthorityContext hash height s.config.trustedSigners = .valid)
    (hvote : (s.pruneExpiredLocked now).hasVote (blockKey height hash) attestation.signer = false)
    (hpending : (s.pruneExpiredLocked now).votes (blockKey height hash) < s.config.threshold) :
    (s.add curve attestation hash height now).1 = .accepted := by
  by_cases hlast : (s.pruneExpiredLocked now).votes (blockKey height hash) + 1 = s.config.threshold
  · exact (add_completing h hconfig ⟨hvalid, hvote, hlast⟩).1
  · obtain ⟨reaches, hreaches, heq⟩ := add_eq hvalid hvote
    obtain ⟨hprune, hpconfig⟩ := pruneExpiredLocked_inv h now
    have hok := makeRoomLocked_pending (blockKey height hash) hprune
      (by rw [hpconfig]; omega) (Bool.eq_false_iff.2 (hreaches.not.2 hlast))
    rw [heq, if_pos hok]

/-- **Which votes are refused for capacity.** -/
theorem add_capacity_iff :
    (s.add curve attestation hash height now).1 = .capacity ↔
      s.Surplus curve attestation hash height now := by
  obtain ⟨hthreshold, -, -⟩ := check_limits hconfig
  obtain ⟨hprune, hpconfig⟩ := pruneExpiredLocked_inv h now
  by_cases hvalid : verifyAttestation curve attestation s.config.chainId
      s.config.replayAuthorityContext hash height s.config.trustedSigners = .valid
  · cases hvote : (s.pruneExpiredLocked now).hasVote (blockKey height hash) attestation.signer with
    | true =>
      rw [add_eq_duplicate hvalid hvote]
      simp [Surplus, hvote]
    | false =>
      by_cases hpending :
          (s.pruneExpiredLocked now).votes (blockKey height hash) < s.config.threshold
      · rw [add_accepted_of_pending h hconfig hvalid hvote hpending]
        simp [Surplus, hpending]
      · obtain ⟨reaches, hreaches, heq⟩ := add_eq hvalid hvote
        have hroom := (makeRoomLocked_surplus (blockKey height hash) hprune
          (hpconfig ▸ hthreshold) (by rw [hpconfig]; omega)
          (Bool.eq_false_iff.2 (hreaches.not.2 (by omega)))).1
        rw [hpconfig] at hroom
        rw [heq, Surplus]
        split_ifs with hok
        · simp [hvalid, hvote, hroom.1 hok]
        · simp only [hvalid, hvote, true_and, true_iff]
          exact ⟨not_lt.1 hpending, not_lt.1 (hroom.not.1 hok)⟩
  · refine ⟨fun hcap => ?_, fun hsurplus => absurd hsurplus.1 hvalid⟩
    unfold add at hcap
    dsimp only at hcap
    rw [if_pos hvalid] at hcap
    cases hv : verifyAttestation curve attestation s.config.chainId s.config.replayAuthorityContext
        hash height s.config.trustedSigners <;> simp [hv, toAddResult] at hcap

theorem add_of_surplus (hsurplus : s.Surplus curve attestation hash height now) :
    (s.add curve attestation hash height now).2 =
        ((s.pruneExpiredLocked now).makeRoomLocked (blockKey height hash) false).2 ∧
      (s.add curve attestation hash height now).2.OthersComplete (blockKey height hash) := by
  obtain ⟨hthreshold, -, -⟩ := check_limits hconfig
  obtain ⟨hprune, hpconfig⟩ := pruneExpiredLocked_inv h now
  obtain ⟨hvalid, hvote, hquorum, hfull⟩ := hsurplus
  obtain ⟨reaches, hreaches, heq⟩ := add_eq hvalid hvote
  obtain rfl : reaches = false := Bool.eq_false_iff.2 (hreaches.not.2 (by omega))
  obtain ⟨hroom, hothers⟩ := makeRoomLocked_surplus (blockKey height hash) hprune
    (hpconfig ▸ hthreshold) (hpconfig ▸ hquorum) rfl
  have hno :
      ¬((s.pruneExpiredLocked now).makeRoomLocked (blockKey height hash) false).1 = true := by
    rw [hroom, hpconfig, not_lt]
    exact hfull
  rw [heq, if_neg hno]
  exact ⟨rfl, hothers (Bool.eq_false_iff.2 hno)⟩

end

end Vote

/-! ## A refusal -/

/-- No bucket is empty. -/
def Filled (s : AttestationStore σ) : Prop :=
  ∀ k b, s.buckets.find? k = some b → 0 < b.attestations.size

section Refusal

variable {curve : Curve σ} {s s' : AttestationStore σ} {key : BlockKey}

theorem Filled.of_find? (h : s.Filled)
    (hsub : ∀ k b, s'.buckets.find? k = some b → s.buckets.find? k = some b) : s'.Filled :=
  fun k b hk => h k b (hsub k b hk)

theorem Filled.insertVote {attestation : ExactReplayAttestation σ} {now : ℤ} (h : s.Filled)
    (hvote : s.hasVote key attestation.signer = false) :
    (s.insertVote key attestation now).Filled := by
  obtain ⟨b', hbuckets, hsize, -⟩ := find?_insertVote now hvote
  intro k b hk
  rw [hbuckets, find?_insert] at hk
  split_ifs at hk
  · cases hk
    omega
  · exact h k b hk

/-- One call leaves no bucket empty. -/
theorem Filled.apply (h : s.Filled) (hinv : s.Inv) (op : Op σ) : (s.apply curve op).Filled := by
  have hprune (now : ℤ) : (s.pruneExpiredLocked now).Filled :=
    h.of_find? fun _ _ => find?_of_pruneExpiredLocked
  cases op with
  | add attestation hash height now =>
    have hroom (reaches : Bool) :
        ((s.pruneExpiredLocked now).makeRoomLocked (blockKey height hash) reaches).2.Filled :=
      (hprune now).of_find? fun _ _ => find?_of_makeRoomLocked _ _ _
    rcases add_cases curve s attestation hash height now with
      heq | heq | ⟨reaches, hvote, -, -, ⟨-, heq⟩ | ⟨-, heq⟩⟩
    · exact (congrArg Filled heq).mpr h
    · exact (congrArg Filled heq).mpr (hprune now)
    · exact (congrArg (fun r => Filled r.2) heq).mpr (hroom reaches)
    · refine (congrArg (fun r => Filled r.2) heq).mpr ((hroom reaches).insertVote ?_)
      exact (hasVote_of_evicts
        (makeRoomLocked_spec (pruneExpiredLocked_inv hinv now).1 _ _).2.1).trans
        hvote
  | erase hash height => exact h.of_find? fun _ _ => find?_of_erase
  | pruneExpired now => exact hprune now
  | setDurableRetention durable => exact h

theorem filled_run (curve : Curve σ) (config : StoreConfig σ) (ops : List (Op σ)) :
    (ops.foldl (apply curve) { config := config }).Filled := by
  induction ops using List.reverseRecOn with
  | nil =>
    intro k b hk
    cases hk
  | append_singleton ops op ih =>
    rw [foldl_append]
    exact ih.apply (inv_run curve config ops).1 op

theorem find?_of_getAttestations_eq {b : Bucket σ}
    (h : s'.getAttestations key = s.getAttestations key)
    (hb : s.buckets.find? key = some b) (hpos : 0 < b.attestations.size) :
    ∃ b', s'.buckets.find? key = some b' ∧ b'.attestations.size = b.attestations.size := by
  have hlength := congrArg List.length h
  cases hb' : s'.buckets.find? key with
  | none =>
    simp only [getAttestations, hb, hb', map_some, getD_some, length_map] at hlength
    exact absurd hlength (Nat.ne_of_lt hpos)
  | some b' =>
    simp only [getAttestations, hb, hb', map_some, getD_some, length_map] at hlength
    exact ⟨b', rfl, hlength⟩

end Refusal

/-- **When a refused vote changes nothing.** If a vote is refused for capacity every block keeps its
attestations, apart from those that expired, exactly if a surplus vote that the quorums leave no
room for meets no pending votes of another block. -/
theorem capacity_keeps_iff (curve : Curve σ) (config : StoreConfig σ)
    (hconfig : config.check curve = .ok ()) (ops : List (Op σ)) (s : AttestationStore σ)
    (hs : s = ops.foldl (apply curve) { config := config })
    (attestation : ExactReplayAttestation σ) (hash : Uint256) (height now : ℤ) :
    ((s.add curve attestation hash height now).1 = .capacity →
      ∀ key, (s.add curve attestation hash height now).2.getAttestations key =
        (s.pruneExpiredLocked now).getAttestations key) ↔
    (s.Surplus curve attestation hash height now →
      (s.pruneExpiredLocked now).OthersComplete (blockKey height hash)) := by
  obtain ⟨hinv, heq⟩ := inv_run curve config ops
  have hfilled := filled_run curve config ops
  rw [← hs] at hinv heq hfilled
  rw [add_capacity_iff hinv (heq ▸ hconfig)]
  refine forall_congr' fun hsurplus => ?_
  obtain ⟨hafter, hcomplete⟩ := add_of_surplus hinv (heq ▸ hconfig) hsurplus
  constructor
  · intro hkept k b hk hne
    obtain ⟨b', hb', hsize⟩ :=
      find?_of_getAttestations_eq (hkept k) hk (hfilled k b (find?_of_pruneExpiredLocked hk))
    have := hcomplete k b' hb' hne
    rwa [hsize, config_add, ← config_pruneExpiredLocked s now] at this
  · intro hothers key
    rw [hafter, makeRoomLocked_othersComplete hothers rfl]

/-- Three signers, two of which make a quorum, and room for one quorum. -/
def fullConfig : StoreConfig ℕ :=
  { chainId := 1, replayAuthorityContext := 1, trustedSigners := [5, 6, 7], threshold := 2
    maxBlocks := 1, maxAttestations := 2 }

/-- A quorum for block 8 that fills the store. -/
def fullStore : AttestationStore ℕ :=
  [.add (sampleAttestation 8 0 5) 8 0 0, .add (sampleAttestation 8 0 6) 8 0 0].foldl
    (apply sampleCurve) { config := fullConfig }

/-- And a vote for block 9, staged beside it. -/
def stagedStore : AttestationStore ℕ :=
  fullStore.apply sampleCurve (.add (sampleAttestation 9 1 5) 9 1 0)

theorem capacity_keeps_iff_fullStore :
    (fullStore.add sampleCurve (sampleAttestation 8 0 7) 8 0 1).1 = .capacity ∧
    ∀ key, (fullStore.add sampleCurve (sampleAttestation 8 0 7) 8 0 1).2.getAttestations key =
      (fullStore.pruneExpiredLocked 1).getAttestations key := by
  have hcap : (fullStore.add sampleCurve (sampleAttestation 8 0 7) 8 0 1).1 = .capacity := by
    decide +kernel
  refine ⟨hcap, (capacity_keeps_iff sampleCurve fullConfig (by decide +kernel) _ fullStore rfl
    (sampleAttestation 8 0 7) 8 0 1).2 (fun _ k b hk hne => ?_) hcap⟩
  have hall : ∀ e ∈ (fullStore.pruneExpiredLocked 1).buckets.entries, e.1 = blockKey 0 8 := by
    decide +kernel
  exact absurd (hall _ (find?_eq_some_iff.1 hk)) hne

/-- The surplus vote for block 8 is refused, and the pending vote for block 9 is gone. -/
theorem refused_surplus_drops_pending :
    (stagedStore.pruneExpiredLocked 1).getAttestations (blockKey 1 9) = [sampleAttestation 9 1 5] ∧
    (stagedStore.add sampleCurve (sampleAttestation 8 0 7) 8 0 1).1 = .capacity ∧
    (stagedStore.add sampleCurve (sampleAttestation 8 0 7) 8 0 1).2.getAttestations (blockKey 1 9) =
      [] := by
  decide +kernel

/-! ## The votes for one block -/

/-- Votes for one block, each with the time of its arrival. -/
def addVotes (curve : Curve σ) (hash : Uint256) (height : ℤ) (s : AttestationStore σ)
    (votes : List (ExactReplayAttestation σ × ℤ)) : AttestationStore σ :=
  votes.foldl (fun s v => (s.add curve v.1 hash height v.2).2) s

/-- The bucket of the block does not expire while the votes arrive. -/
def Unexpired (curve : Curve σ) (hash : Uint256) (height : ℤ) :
    AttestationStore σ → List (ExactReplayAttestation σ × ℤ) → Prop
  | _, [] => True
  | s, v :: votes =>
      (∀ b ∈ s.buckets.find? (blockKey height hash), s.durableRetention = false →
        s.expired v.2 b = false) ∧
      Unexpired curve hash height (s.add curve v.1 hash height v.2).2 votes

section Votes

variable {curve : Curve σ} {s : AttestationStore σ} {hash : Uint256} {height now : ℤ}
  {attestation : ExactReplayAttestation σ} {votes : List (ExactReplayAttestation σ × ℤ)}

theorem find?_pruneExpiredLocked {key : BlockKey}
    (h : ∀ b ∈ s.buckets.find? key, s.durableRetention = false → s.expired now b = false) :
    (s.pruneExpiredLocked now).buckets.find? key = s.buckets.find? key := by
  rw [buckets_pruneExpiredLocked]
  split_ifs with hdurable
  · rfl
  · rw [OrderedMap.find?_filter]
    cases hb : s.buckets.find? key with
    | none => rfl
    | some b => simp [h b hb (by simpa using hdurable)]

theorem hasQuorum_iff (ht : 1 ≤ s.config.threshold) :
    s.hasQuorum hash height = true ↔ s.config.threshold ≤ s.votes (blockKey height hash) := by
  unfold hasQuorum votes
  cases s.buckets.find? (blockKey height hash) with
  | none => simp; omega
  | some b => simp

theorem hasVote_insertVote {key : BlockKey} (signer : σ) :
    (s.insertVote key attestation now).hasVote key signer =
      (decide (signer = attestation.signer) || s.hasVote key signer) := by
  unfold hasVote insertVote
  dsimp only
  rw [find?_insert_self, any_some, OrderedMap.contains, find?_insert]
  cases s.buckets.find? key with
  | none => by_cases hs : signer = attestation.signer <;> simp [hs, find?_empty]
  | some b => by_cases hs : signer = attestation.signer <;> simp [hs, OrderedMap.contains]

theorem votes_insertVote {key : BlockKey} (hvote : s.hasVote key attestation.signer = false) :
    (s.insertVote key attestation now).votes key = s.votes key + 1 := by
  obtain ⟨b', hbuckets, hsize, -⟩ := find?_insertVote now hvote
  rw [votes, hbuckets, find?_insert_self, ← hsize]
  rfl

/-- **One more vote for the block.** It is accepted, or was there, or is refused because the block
is a quorum without it; the votes that were there stay. -/
theorem add_step (h : s.Inv) (hconfig : s.config.check curve = .ok ())
    (hvalid : verifyAttestation curve attestation s.config.chainId s.config.replayAuthorityContext
      hash height s.config.trustedSigners = .valid)
    (hkeep : (s.pruneExpiredLocked now).buckets.find? (blockKey height hash) =
      s.buckets.find? (blockKey height hash)) :
    (((s.add curve attestation hash height now).1 = .accepted ∨
        (s.add curve attestation hash height now).1 = .duplicate) ∧
      (s.add curve attestation hash height now).2.hasVote (blockKey height hash)
        attestation.signer ∨
      (s.add curve attestation hash height now).1 = .capacity ∧
        s.config.threshold ≤ s.votes (blockKey height hash)) ∧
    (∀ signer, s.hasVote (blockKey height hash) signer →
      (s.add curve attestation hash height now).2.hasVote (blockKey height hash) signer) ∧
    s.votes (blockKey height hash) ≤
      (s.add curve attestation hash height now).2.votes (blockKey height hash) := by
  obtain ⟨hprune, hpconfig⟩ := pruneExpiredLocked_inv h now
  have hvotes : (s.pruneExpiredLocked now).votes (blockKey height hash) =
      s.votes (blockKey height hash) := by rw [votes, hkeep, votes]
  have hhas (signer : σ) : (s.pruneExpiredLocked now).hasVote (blockKey height hash) signer =
      s.hasVote (blockKey height hash) signer := by rw [hasVote, hkeep, hasVote]
  cases hvote : (s.pruneExpiredLocked now).hasVote (blockKey height hash) attestation.signer with
  | true =>
    rw [add_eq_duplicate hvalid hvote]
    exact ⟨.inl ⟨.inr rfl, hvote⟩, fun signer hsigner => (hhas signer).trans hsigner, hvotes.ge⟩
  | false =>
    obtain ⟨reaches, -, heq⟩ := add_eq hvalid hvote
    obtain ⟨-, hevicts, -⟩ := makeRoomLocked_spec hprune (blockKey height hash) reaches
    have hroomVotes : ((s.pruneExpiredLocked now).makeRoomLocked (blockKey height hash)
        reaches).2.votes (blockKey height hash) = s.votes (blockKey height hash) := by
      rw [votes, hevicts.incoming, ← hvotes, votes]
    have hroomHas (signer : σ) : ((s.pruneExpiredLocked now).makeRoomLocked (blockKey height hash)
        reaches).2.hasVote (blockKey height hash) signer =
        s.hasVote (blockKey height hash) signer := by
      rw [hasVote_of_evicts hevicts, hhas]
    by_cases hok :
      ((s.pruneExpiredLocked now).makeRoomLocked (blockKey height hash) reaches).1 = true
    · rw [heq, if_pos hok]
      refine ⟨.inl ⟨.inl rfl, ?_⟩, fun signer hsigner => ?_, ?_⟩
      · rw [hasVote_insertVote]
        simp
      · rw [hasVote_insertVote, hroomHas, hsigner, Bool.or_true]
      · rw [votes_insertVote ((hroomHas _).trans ((hhas _).symm.trans hvote)), hroomVotes]
        exact Nat.le_succ _
    · have hcap : (s.add curve attestation hash height now).1 = .capacity := by rw [heq, if_neg hok]
      refine ⟨.inr ⟨hcap, ?_⟩, ?_⟩
      · exact hvotes ▸ ((add_capacity_iff h hconfig).1 hcap).2.2.1
      · rw [heq, if_neg hok]
        exact ⟨fun signer hsigner => (hroomHas signer).trans hsigner, hroomVotes.ge⟩

theorem length_le_votes {key : BlockKey} {signers : List σ} (hnodup : signers.Nodup)
    (h : ∀ x ∈ signers, s.hasVote key x) : signers.length ≤ s.votes key := by
  cases hb : s.buckets.find? key with
  | none =>
    have hnil : signers = [] :=
      eq_nil_iff_forall_not_mem.2 fun x hx => by simpa [hasVote, hb] using h x hx
    rw [hnil]
    exact zero_le
  | some b =>
    have hsub : signers ⊆ b.attestations.entries.map Prod.fst := by
      intro x hx
      have hcontains := h x hx
      rw [hasVote, hb, any_some, OrderedMap.contains_iff] at hcontains
      obtain ⟨a, ha⟩ := hcontains
      exact List.mem_map_of_mem (find?_eq_some_iff.1 ha)
    calc signers.length ≤ (b.attestations.entries.map Prod.fst).length :=
          (subperm_of_subset hnodup hsub).length_le
      _ = s.votes key := by rw [length_map, votes_of_find? hb, OrderedMap.size]

/-- A row of valid votes: each is accepted, known, or refused because its block has a quorum
already; none is lost on the way. -/
theorem addVotes_spec (h : s.Inv) (hconfig : s.config.check curve = .ok ())
    (hvalid : ∀ v ∈ votes, verifyAttestation curve v.1 s.config.chainId
      s.config.replayAuthorityContext hash height s.config.trustedSigners = .valid)
    (hunexpired : Unexpired curve hash height s votes) :
    (s.addVotes curve hash height votes).config = s.config ∧
    (s.config.threshold ≤ (s.addVotes curve hash height votes).votes (blockKey height hash) ∨
      ∀ v ∈ votes, (s.addVotes curve hash height votes).hasVote (blockKey height hash) v.1.signer) ∧
    (∀ signer, s.hasVote (blockKey height hash) signer →
      (s.addVotes curve hash height votes).hasVote (blockKey height hash) signer) ∧
    s.votes (blockKey height hash) ≤
      (s.addVotes curve hash height votes).votes (blockKey height hash) ∧
    ∀ before v after, votes = before ++ v :: after →
      ((s.addVotes curve hash height before).add curve v.1 hash height v.2).1 = .accepted ∨
      ((s.addVotes curve hash height before).add curve v.1 hash height v.2).1 = .duplicate ∨
      ((s.addVotes curve hash height before).add curve v.1 hash height v.2).1 = .capacity ∧
        (s.addVotes curve hash height before).hasQuorum hash height := by
  induction votes generalizing s with
  | nil => exact ⟨rfl, .inr (by simp), fun _ h => h, le_rfl, by simp⟩
  | cons v votes ih =>
    obtain ⟨hb, hrest⟩ := hunexpired
    obtain ⟨hresult, hhas, hle⟩ := add_step h hconfig (hvalid v mem_cons_self)
      (find?_pruneExpiredLocked hb)
    obtain ⟨hinv, hc⟩ : (s.add curve v.1 hash height v.2).2.Inv ∧
        (s.add curve v.1 hash height v.2).2.config = s.config := h.add
    obtain ⟨hconf, hall, hhas', hle', heach⟩ := ih hinv (hc ▸ hconfig)
      (fun w hw => hc ▸ hvalid w (mem_cons_of_mem _ hw)) hrest
    rw [hc] at hconf hall
    refine ⟨hconf, ?_, fun x hx => hhas' x (hhas x hx), hle.trans hle', ?_⟩
    · rcases hresult with ⟨-, hv⟩ | ⟨-, hquorum⟩
      · refine hall.imp_right fun hall w hw => ?_
        rcases mem_cons.1 hw with rfl | hw
        · exact hhas' _ hv
        · exact hall w hw
      · exact .inl (hquorum.trans (hle.trans hle'))
    · intro before w after heq
      cases before with
      | nil =>
        obtain ⟨rfl, -⟩ := cons.inj heq
        rcases hresult with ⟨hacc | hdup, -⟩ | ⟨hcap, hquorum⟩
        · exact .inl hacc
        · exact .inr (.inl hdup)
        · exact .inr (.inr ⟨hcap, (hasQuorum_iff (check_limits hconfig).1).2 hquorum⟩)
      | cons x before =>
        obtain ⟨rfl, htail⟩ := cons.inj heq
        exact heach before w after htail

end Votes

/-- **Enough signers make a quorum, however full the store is.** Where valid votes for one block by
`threshold` different signers arrive and the block does not expire meanwhile, each vote is accepted
or a duplicate, or is refused for capacity because the block has a quorum already; and after the
last one the block has a quorum. -/
theorem addVotes_reach_quorum (curve : Curve σ) (config : StoreConfig σ)
    (hconfig : config.check curve = .ok ()) (ops : List (Op σ)) (s : AttestationStore σ)
    (hs : s = ops.foldl (apply curve) { config := config }) (hash : Uint256) (height : ℤ)
    (votes : List (ExactReplayAttestation σ × ℤ))
    (hvalid : ∀ v ∈ votes, verifyAttestation curve v.1 config.chainId
      config.replayAuthorityContext hash height config.trustedSigners = .valid)
    (hdistinct : (votes.map fun v => v.1.signer).Nodup) (hcount : config.threshold ≤ votes.length)
    (hunexpired : Unexpired curve hash height s votes) :
    (∀ before v after, votes = before ++ v :: after →
      ((s.addVotes curve hash height before).add curve v.1 hash height v.2).1 = .accepted ∨
      ((s.addVotes curve hash height before).add curve v.1 hash height v.2).1 = .duplicate ∨
      ((s.addVotes curve hash height before).add curve v.1 hash height v.2).1 = .capacity ∧
        (s.addVotes curve hash height before).hasQuorum hash height) ∧
    (s.addVotes curve hash height votes).hasQuorum hash height := by
  obtain ⟨hinv, heq⟩ := inv_run curve config ops
  rw [← hs] at hinv heq
  have hthreshold := (check_limits hconfig).1
  obtain ⟨hconf, hall, -, -, heach⟩ := addVotes_spec hinv (heq ▸ hconfig) (heq ▸ hvalid) hunexpired
  refine ⟨heach, (hasQuorum_iff (by rw [hconf, heq]; exact hthreshold)).2 ?_⟩
  rw [hconf, heq]
  rcases hall with hquorum | hall
  · exact heq ▸ hquorum
  · refine hcount.trans ?_
    refine (length_map fun v : ExactReplayAttestation σ × ℤ => v.1.signer).ge.trans
      (length_le_votes hdistinct fun x hx => ?_)
    obtain ⟨v, hv, rfl⟩ := List.mem_map.1 hx
    exact hall v hv

/-- Two votes for block 9 make it a quorum in the store that block 8 fills. -/
theorem addVotes_reach_quorum_fullStore : (fullStore.addVotes sampleCurve 9 1
      [(sampleAttestation 9 1 5, 1), (sampleAttestation 9 1 6, 2)]).hasQuorum 9 1 :=
  (addVotes_reach_quorum sampleCurve fullConfig (by decide +kernel) _ fullStore rfl 9 1
    [(sampleAttestation 9 1 5, 1), (sampleAttestation 9 1 6, 2)] (by decide +kernel)
    (by decide +kernel) (by decide +kernel)
    ⟨by decide +kernel, by decide +kernel, trivial⟩).2

/-- Signers 5 and 7 vote for block 8, which has the votes of 5 and 6: the vote of 7 is refused. -/
theorem surplus_vote_refused :
    (fullStore.add sampleCurve (sampleAttestation 8 0 5) 8 0 1).1 = .duplicate ∧
    ((fullStore.addVotes sampleCurve 8 0 [(sampleAttestation 8 0 5, 1)]).add sampleCurve
      (sampleAttestation 8 0 7) 8 0 1).1 = .capacity := by
  decide +kernel

end Btx.Node.AttestationStore
