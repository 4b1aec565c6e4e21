/-
# What the attestation store keeps

Over every sequence of votes, erasures and expiries the store is within its limits, or would be
without the one bucket that is incomplete (`attestationStore_bounds`). A vote that completes a
quorum is always accepted; any other leaves every quorum in place.
-/

import Btx.Node.AttestationStore

namespace Btx.Node.AttestationStore

open Util OrderedMap

variable {σ : Type} [LinearOrder σ]

/-! ## Limits -/

/-- The number of attestations in a map of buckets. -/
def stored (buckets : OrderedMap BlockKey (Bucket σ)) : ℕ :=
  buckets.total fun _ b => b.attestations.size

/-- Buckets within the base limits. -/
def Fits (c : StoreConfig σ) (buckets : OrderedMap BlockKey (Bucket σ)) : Prop :=
  buckets.size ≤ c.maxBlocks ∧ stored buckets ≤ c.maxAttestations

/-- One incomplete bucket, and without it the base limits. -/
structure StagedAt (c : StoreConfig σ) (buckets : OrderedMap BlockKey (Bucket σ)) (key : BlockKey)
    (b : Bucket σ) : Prop where
  find : buckets.find? key = some b
  incomplete : b.attestations.size < c.threshold
  others : ∀ k' b', buckets.find? k' = some b' → k' ≠ key → c.threshold ≤ b'.attestations.size
  fits : Fits c (buckets.erase key)

/-- Buckets within the base limits, or within them but for one incomplete bucket. -/
def Staged (c : StoreConfig σ) (buckets : OrderedMap BlockKey (Bucket σ)) : Prop :=
  Fits c buckets ∨ ∃ key b, StagedAt c buckets key b

section Limits

variable {c : StoreConfig σ} {m m' : OrderedMap BlockKey (Bucket σ)} {key : BlockKey} {b : Bucket σ}

theorem Fits.of_subset (h : Fits c m) (hsub : m'.entries ⊆ m.entries) : Fits c m' := by
  refine ⟨?_, (total_le_of_subset hsub).trans h.2⟩
  rw [size_eq_total]
  exact (total_le_of_subset hsub).trans (size_eq_total (m := m) ▸ h.1)

theorem erase_subset : (m.erase key).entries ⊆ m.entries :=
  fun _ he => (mem_erase.1 he).1

theorem Staged.erase (h : Staged c m) (k : BlockKey) : Staged c (m.erase k) := by
  rcases h with h | ⟨key, b, h⟩
  · exact .inl (h.of_subset erase_subset)
  · by_cases hk : k = key
    · exact .inl (hk ▸ h.fits)
    · refine .inr ⟨key, b, ?_, h.incomplete, fun k' b' hk' => h.others k' b' ?_, ?_⟩
      · rw [find?_erase_of_ne (Ne.symm hk), h.find]
      · rw [find?_erase] at hk'
        split_ifs at hk'
        exact hk'
      · refine h.fits.of_subset fun e he => ?_
        rw [mem_erase, mem_erase] at he
        exact mem_erase.2 ⟨he.1.1, he.2⟩

theorem Staged.bounds (h : Staged c m) (ht : 1 ≤ c.threshold) :
    m.size ≤ c.maxBlocks + 1 ∧ stored m ≤ c.maxAttestations + c.threshold - 1 := by
  rcases h with h | ⟨key, b, h⟩
  · have := h.1
    have := h.2
    omega
  · have hsize := total_eq_add_erase (w := fun _ _ => 1) h.find
    have hstored := total_eq_add_erase (w := fun _ b => b.attestations.size) h.find
    have hfits := h.fits
    have hincomplete := h.incomplete
    unfold Fits at hfits
    rw [size_eq_total] at hfits ⊢
    unfold stored at hfits ⊢
    omega

end Limits

/-! ## The invariant -/

/-- The counter is exact, and the store is within its limits but for one incomplete bucket. -/
structure Inv (s : AttestationStore σ) : Prop where
  counted : s.attestationCount = stored s.buckets
  staged : Staged s.config s.buckets

section Invariant

variable {s s' : AttestationStore σ} {key incoming : BlockKey} {b : Bucket σ} {now : ℤ}
  {reaches : Bool} {attestation : ExactReplayAttestation σ}

theorem votes_of_find? (h : s.buckets.find? key = some b) : s.votes key = b.attestations.size := by
  simp [votes, h]

theorem votes_of_none (h : s.buckets.find? key = none) : s.votes key = 0 := by
  simp [votes, h]

variable (s) in
theorem stored_eq_votes_add (key : BlockKey) :
    stored s.buckets = s.votes key + stored (s.buckets.erase key) := by
  cases hk : s.buckets.find? key with
  | none => rw [votes_of_none hk, erase_of_find?_none hk, zero_add]
  | some b => rw [votes_of_find? hk, stored, total_eq_add_erase hk, stored]

theorem Inv.eraseLocked (h : s.Inv) (key : BlockKey) : (s.eraseLocked key).Inv := by
  refine ⟨?_, h.staged.erase key⟩
  show s.attestationCount - s.votes key = stored (s.buckets.erase key)
  rw [h.counted, stored_eq_votes_add s key, Nat.add_sub_cancel_left]

variable (s) in
theorem buckets_pruneExpiredLocked (now : ℤ) :
    (s.pruneExpiredLocked now).buckets =
      if s.durableRetention then s.buckets else s.buckets.filter fun _ b => !s.expired now b := by
  unfold pruneExpiredLocked
  split_ifs
  · rfl
  · exact foldl_remove buckets AttestationStore.eraseLocked
      (fun _ b => s.expired now b) (fun _ _ => rfl) s

theorem pruneExpiredLocked_inv (h : s.Inv) (now : ℤ) :
    (s.pruneExpiredLocked now).Inv ∧ (s.pruneExpiredLocked now).config = s.config := by
  unfold pruneExpiredLocked
  split_ifs
  · exact ⟨h, rfl⟩
  · refine List.foldlRecOn s.buckets.entries _
      (motive := fun s' : AttestationStore σ => s'.Inv ∧ s'.config = s.config) ⟨h, rfl⟩ ?_
    intro s' hs' e _
    split_ifs
    · exact ⟨hs'.1.eraseLocked e.1, hs'.2⟩
    · exact hs'

/-! ## Making room -/

/-- What eviction for a vote leaves: the bucket of the vote, and, unless the vote completes it,
every quorum. -/
structure Evicts (incoming : BlockKey) (reaches : Bool) (s s' : AttestationStore σ) : Prop where
  config : s'.config = s.config
  incoming : s'.buckets.find? incoming = s.buckets.find? incoming
  quorums : reaches = false → ∀ k b, s.buckets.find? k = some b →
    s.config.threshold ≤ b.attestations.size → s'.buckets.find? k = some b

/-- There is room for the vote: within the base limits, or for a vote that does not complete the one
incomplete bucket. -/
def Room (incoming : BlockKey) (reaches : Bool) (s : AttestationStore σ) : Prop :=
  ¬s.wouldExceed incoming ∨
    (reaches = false ∧ s.votes incoming + 1 < s.config.threshold ∧
      (∀ k b, s.buckets.find? k = some b → k ≠ incoming →
        s.config.threshold ≤ b.attestations.size) ∧
      Fits s.config (s.buckets.erase incoming))

variable (s) in
theorem Evicts.refl : Evicts incoming reaches s s :=
  ⟨rfl, rfl, fun _ _ _ h _ => h⟩

theorem Evicts.trans {s'' : AttestationStore σ} (h' : Evicts incoming reaches s' s'')
    (h : Evicts incoming reaches s s') : Evicts incoming reaches s s'' := by
  refine ⟨h'.config.trans h.config, h'.incoming.trans h.incoming, fun hr k b hk hb => ?_⟩
  exact h'.quorums hr k b (h.quorums hr k b hk hb) (h.config ▸ hb)

theorem evicts_eraseLocked {victim : BlockKey} (reaches : Bool)
    (hfind : s.buckets.find? victim = some b)
    (hne : victim ≠ incoming)
    (hvictim : reaches = false → b.attestations.size < s.config.threshold) :
    Evicts incoming reaches s (s.eraseLocked victim) := by
  refine ⟨rfl, find?_erase_of_ne (Ne.symm hne), fun hr k b' hk hb' => ?_⟩
  have hk' : k ≠ victim := by
    rintro rfl
    obtain rfl : b = b' := Option.some.inj (hfind.symm.trans hk)
    exact absurd (hvictim hr) (not_lt.2 hb')
  exact (find?_erase_of_ne hk').trans hk

variable {victim : BlockKey × Bucket σ}

theorem oldestPartial_eq_some (h : s.oldestPartial incoming = some victim) :
    s.buckets.find? victim.1 = some victim.2 ∧ victim.1 ≠ incoming ∧
      victim.2.attestations.size < s.config.threshold := by
  obtain ⟨hfind, hp⟩ := oldest_eq_some h
  exact ⟨hfind, by simpa using hp⟩

theorem oldestPartial_eq_none (h : s.oldestPartial incoming = none)
    (hk : s.buckets.find? key = some b)
    (hne : key ≠ incoming) : s.config.threshold ≤ b.attestations.size := by
  simpa [hne] using oldest_eq_none h hk

theorem oldestQuorum_eq_some (h : s.oldestQuorum incoming = some victim) :
    s.buckets.find? victim.1 = some victim.2 ∧ victim.1 ≠ incoming := by
  obtain ⟨hfind, hp⟩ := oldest_eq_some h
  exact ⟨hfind, by simpa using And.left (by simpa using hp)⟩

theorem oldestQuorum_eq_none (h : s.oldestQuorum incoming = none)
    (hk : s.buckets.find? key = some b)
    (hne : key ≠ incoming) : b.attestations.size < s.config.threshold := by
  simpa [hne] using oldest_eq_none h hk

theorem Staged.fits_erase (h : Staged s.config s.buckets)
    (hothers : ∀ k b, s.buckets.find? k = some b → k ≠ incoming →
      s.config.threshold ≤ b.attestations.size) :
    Fits s.config (s.buckets.erase incoming) := by
  rcases h with h | ⟨key, b, h⟩
  · exact h.of_subset erase_subset
  · have hkey : key = incoming := by
      by_contra hne
      exact absurd h.incomplete (not_lt.2 (hothers key b h.find hne))
    exact hkey ▸ h.fits

/-- **Making room.** -/
theorem makeRoomLocked_spec (h : s.Inv) (incoming : BlockKey) (reaches : Bool) :
    (s.makeRoomLocked incoming reaches).2.Inv ∧
      Evicts incoming reaches s (s.makeRoomLocked incoming reaches).2 ∧
      ((s.makeRoomLocked incoming reaches).1 = true →
        Room incoming reaches (s.makeRoomLocked incoming reaches).2) := by
  fun_induction makeRoomLocked s incoming reaches with
  | case1 s hfull victim hv _ ih =>
    obtain ⟨hfind, hne, hlt⟩ := oldestPartial_eq_some hv
    obtain ⟨hinv, hevicts, hroom⟩ := ih (h.eraseLocked victim.1)
    exact ⟨hinv, hevicts.trans (evicts_eraseLocked _ hfind hne fun _ => hlt), hroom⟩
  | case2 s hfull hv hreaches victim hq _ ih =>
    obtain ⟨hfind, hne⟩ := oldestQuorum_eq_some hq
    obtain ⟨hinv, hevicts, hroom⟩ := ih (h.eraseLocked victim.1)
    refine ⟨hinv, hevicts.trans (evicts_eraseLocked _ hfind hne fun hr => ?_), hroom⟩
    simp [hr] at hreaches
  | case3 s hfull hv hreaches hq => exact ⟨h, .refl s, by simp⟩
  | case4 s hfull hv hreaches =>
    refine ⟨h, .refl s, fun hstage => .inr ?_⟩
    have hothers : ∀ k b, s.buckets.find? k = some b → k ≠ incoming →
        s.config.threshold ≤ b.attestations.size :=
      fun k b hk hne => oldestPartial_eq_none hv hk hne
    have hvotes : s.votes incoming + 1 < s.config.threshold := by
      simp only [mayStage, decide_eq_true_eq] at hstage
      exact hstage.2.1
    exact ⟨by simpa using hreaches, hvotes, hothers, h.staged.fits_erase hothers⟩
  | case5 s hroom => exact ⟨h, .refl s, fun _ => .inl hroom⟩

theorem alone (h : ∀ k b, s.buckets.find? k = some b → k = incoming) :
    s.buckets.size + (if s.buckets.contains incoming then 0 else 1) = 1 ∧
      stored s.buckets = s.votes incoming := by
  have hempty : (s.buckets.erase incoming).entries = [] := by
    rw [List.eq_nil_iff_forall_not_mem]
    intro e he
    have he' := mem_erase.1 he
    exact he'.2 (h e.1 e.2 (find?_eq_some_iff.2 he'.1))
  have hzero : ∀ w : BlockKey → Bucket σ → ℕ, (s.buckets.erase incoming).total w = 0 := by
    intro w
    rw [OrderedMap.total, hempty]
    rfl
  refine ⟨?_, by rw [stored_eq_votes_add s incoming, stored, hzero, add_zero]⟩
  rw [size_eq_total]
  cases hk : s.buckets.find? incoming with
  | none =>
    rw [not_contains_iff.2 hk, ← erase_of_find?_none hk, hzero]
    rfl
  | some b =>
    rw [contains_iff.2 ⟨b, hk⟩, total_eq_add_erase hk, hzero]
    rfl

/-- **The vote that completes a quorum finds room.** -/
theorem makeRoomLocked_completing (incoming : BlockKey) (h : s.Inv)
    (hblocks : 1 ≤ s.config.maxBlocks)
    (hvotes : s.votes incoming + 1 ≤ s.config.maxAttestations) (hr : reaches = true) :
    (s.makeRoomLocked incoming reaches).1 = true := by
  fun_induction makeRoomLocked s incoming reaches with
  | case1 s hfull victim hv _ ih =>
    obtain ⟨hfind, hne, hlt⟩ := oldestPartial_eq_some hv
    refine ih (h.eraseLocked victim.1) hblocks ?_
    rwa [votes, (evicts_eraseLocked reaches hfind hne fun _ => hlt).incoming]
  | case2 s hfull hv hreaches victim hq _ ih =>
    obtain ⟨hfind, hne⟩ := oldestQuorum_eq_some hq
    refine ih (h.eraseLocked victim.1) hblocks ?_
    rwa [votes, (evicts_eraseLocked reaches hfind hne (by simp [hr])).incoming]
  | case3 s hfull hv hreaches hq =>
    -- with no other bucket the limits are not reached
    exfalso
    have halone : ∀ k b, s.buckets.find? k = some b → k = incoming := by
      intro k b hk
      by_contra hne
      have := oldestPartial_eq_none hv hk hne
      have := oldestQuorum_eq_none hq hk hne
      omega
    obtain ⟨hsize, hstored⟩ := alone halone
    have hcount := h.counted
    rcases hfull with hfull | hfull
    · omega
    · omega
  | case4 s hfull hv hreaches => exact absurd hr hreaches
  | case5 s hroom => rfl

/-! ## One vote -/

theorem hasVote_eq_false {signer : σ} (h : s.hasVote key signer = false) :
    (((s.buckets.find? key).map Bucket.attestations).getD .empty).find? signer = none := by
  cases hk : s.buckets.find? key with
  | none => rfl
  | some b =>
    simp only [hasVote, hk, Option.any_some] at h
    exact not_contains_iff.1 h

theorem size_attestations :
    (((s.buckets.find? key).map Bucket.attestations).getD .empty).size = s.votes key := by
  cases hk : s.buckets.find? key with
  | none => rw [votes_of_none hk]; rfl
  | some b => rw [votes_of_find? hk]; rfl

theorem find?_insertVote (now : ℤ) (hvote : s.hasVote key attestation.signer = false) :
    ∃ b', (s.insertVote key attestation now).buckets = s.buckets.insert key b' ∧
      b'.attestations.size = s.votes key + 1 ∧
      ∀ b, s.buckets.find? key = some b → b.attestations.entries ⊆ b'.attestations.entries := by
  refine ⟨_, rfl, ?_, fun b hb => ?_⟩
  · rw [size_eq_total, total_insert_of_none (hasVote_eq_false hvote),
      ← size_eq_total, size_attestations, add_comm]
  · intro e he
    have hnone := hasVote_eq_false hvote
    rw [hb] at hnone ⊢
    refine mem_insert.2 (.inr ⟨he, ?_⟩)
    intro hkey
    exact find?_eq_none_iff.1 hnone e.2 (hkey ▸ he)

theorem size_insert (b' : Bucket σ) : (s.buckets.insert key b').size =
    s.buckets.size + if s.buckets.contains key then 0 else 1 := by
  rw [size_eq_total, size_eq_total, total_insert]
  cases hk : s.buckets.find? key with
  | none =>
    rw [not_contains_iff.2 hk, erase_of_find?_none hk, add_comm]
    rfl
  | some b =>
    rw [contains_iff.2 ⟨b, hk⟩, total_eq_add_erase hk]
    rfl

theorem stored_insert {b' : Bucket σ} (hb' : b'.attestations.size = s.votes key + 1) :
    stored (s.buckets.insert key b') = stored s.buckets + 1 := by
  rw [stored, total_insert, hb', stored_eq_votes_add s key, stored]
  omega

theorem fits_insertVote (h : s.Inv) (hroom : ¬s.wouldExceed key)
    (hvote : s.hasVote key attestation.signer = false) :
    Fits s.config (s.insertVote key attestation now).buckets := by
  obtain ⟨b', hbuckets, hsize, -⟩ := find?_insertVote now hvote
  have hcount := h.counted
  unfold wouldExceed at hroom
  rw [hbuckets, Fits, size_insert, stored_insert hsize]
  omega

theorem Inv.insertVote (h : s.Inv) (hroom : Room key reaches s)
    (hvote : s.hasVote key attestation.signer = false) :
    (s.insertVote key attestation now).Inv := by
  obtain ⟨b', hbuckets, hsize, -⟩ := find?_insertVote now hvote
  constructor
  · rw [hbuckets, stored_insert hsize, ← h.counted]
    rfl
  · rcases hroom with hroom | ⟨-, hlt, hothers, hfits⟩
    · exact .inl (fits_insertVote h hroom hvote)
    · refine .inr ⟨key, b', ?_⟩
      rw [hbuckets]
      refine ⟨find?_insert_self, by rw [hsize]; exact hlt, fun k' b'' hk' hne => ?_, ?_⟩
      · rw [find?_insert_of_ne hne] at hk'
        exact hothers k' b'' hk' hne
      · rw [erase_insert_self]
        exact hfits

end Invariant

/-! ## Runs -/

/-- The steps of a store. -/
inductive Op (σ : Type)
  | add (attestation : ExactReplayAttestation σ) (hash : Uint256) (height now : ℤ)
  | erase (hash : Uint256) (height : ℤ)
  | pruneExpired (now : ℤ)
  | setDurableRetention (durable : Bool)

def apply (curve : Curve σ) (s : AttestationStore σ) : Op σ → AttestationStore σ
  | .add attestation hash height now => (s.add curve attestation hash height now).2
  | .erase hash height => s.erase hash height
  | .pruneExpired now => s.pruneExpiredLocked now
  | .setDurableRetention durable => s.setDurableRetention durable

/-- The vote is valid, new, and the last one its bucket needs, among the buckets that have not
expired. -/
def Completes (curve : Curve σ) (s : AttestationStore σ) (attestation : ExactReplayAttestation σ)
    (hash : Uint256) (height now : ℤ) : Prop :=
  verifyAttestation curve attestation s.config.chainId s.config.replayAuthorityContext hash height
    s.config.trustedSigners = .valid ∧
  (s.pruneExpiredLocked now).hasVote (blockKey height hash) attestation.signer = false ∧
  (s.pruneExpiredLocked now).votes (blockKey height hash) + 1 = s.config.threshold

section Runs

variable {curve : Curve σ} {config : StoreConfig σ} {s : AttestationStore σ}
  {attestation : ExactReplayAttestation σ} {hash : Uint256} {height now : ℤ}

/-- What `Add` leaves: nothing changed, a pruned store, or an answer of `makeRoomLocked`. -/
theorem add_cases (curve : Curve σ) (s : AttestationStore σ)
    (attestation : ExactReplayAttestation σ) (hash : Uint256) (height now : ℤ) :
    (s.add curve attestation hash height now).2 = s ∨
    (s.add curve attestation hash height now).2 = s.pruneExpiredLocked now ∨
    ∃ reaches : Bool,
      (s.pruneExpiredLocked now).hasVote (blockKey height hash) attestation.signer = false ∧
      (reaches = true ↔
        (s.pruneExpiredLocked now).votes (blockKey height hash) + 1 =
          (s.pruneExpiredLocked now).config.threshold) ∧
      verifyAttestation curve attestation s.config.chainId s.config.replayAuthorityContext hash
        height s.config.trustedSigners = .valid ∧
      (((s.pruneExpiredLocked now).makeRoomLocked (blockKey height hash) reaches).1 = false ∧
          s.add curve attestation hash height now = (.capacity,
            ((s.pruneExpiredLocked now).makeRoomLocked (blockKey height hash) reaches).2) ∨
        ((s.pruneExpiredLocked now).makeRoomLocked (blockKey height hash) reaches).1 = true ∧
          s.add curve attestation hash height now = (.accepted,
            ((s.pruneExpiredLocked now).makeRoomLocked (blockKey height hash) reaches).2.insertVote
              (blockKey height hash) attestation now)) := by
  unfold add
  dsimp only
  split_ifs with hvalid hvote hroom
  · exact .inl rfl
  · exact .inr (.inl rfl)
  · refine .inr (.inr ⟨_, by simpa using hvote, ?_, by simpa using hvalid, .inl ⟨?_, rfl⟩⟩)
    · rw [decide_eq_true_eq]
      omega
    · simpa using hroom
  · refine .inr (.inr ⟨_, by simpa using hvote, ?_, by simpa using hvalid, .inr ⟨?_, rfl⟩⟩)
    · rw [decide_eq_true_eq]
      omega
    · simpa using hroom

theorem hasVote_of_evicts {incoming : BlockKey} {reaches : Bool} {s' : AttestationStore σ}
    {signer : σ}
    (h : Evicts incoming reaches s s') :
    s'.hasVote incoming signer = s.hasVote incoming signer := by
  rw [hasVote, h.incoming, hasVote]

/-- One vote keeps the invariant, whatever its result. -/
theorem Inv.add (h : s.Inv) : (s.add curve attestation hash height now).2.Inv ∧
    (s.add curve attestation hash height now).2.config = s.config := by
  obtain ⟨hprune, hconfig⟩ := pruneExpiredLocked_inv h now
  rcases add_cases curve s attestation hash height now with
    heq | heq | ⟨reaches, hvote, -, -, hcases⟩
  · rw [heq]
    exact ⟨h, rfl⟩
  · rw [heq]
    exact ⟨hprune, hconfig⟩
  · obtain ⟨hinv, hevicts, hroom⟩ := makeRoomLocked_spec hprune (blockKey height hash) reaches
    rcases hcases with ⟨-, heq⟩ | ⟨hok, heq⟩
    · rw [heq]
      exact ⟨hinv, hevicts.config.trans hconfig⟩
    · rw [heq]
      exact ⟨hinv.insertVote (hroom hok) ((hasVote_of_evicts hevicts).trans hvote),
        hevicts.config.trans hconfig⟩

/-- One call keeps it. -/
theorem Inv.apply (h : s.Inv) (curve : Curve σ) (op : Op σ) :
    (s.apply curve op).Inv ∧ (s.apply curve op).config = s.config := by
  cases op with
  | add attestation hash height now => exact h.add
  | erase hash height =>
    unfold AttestationStore.apply AttestationStore.erase
    dsimp only
    split_ifs
    · exact ⟨h.eraseLocked _, rfl⟩
    · exact ⟨h, rfl⟩
  | pruneExpired now => exact pruneExpiredLocked_inv h now
  | setDurableRetention durable => exact ⟨⟨h.counted, h.staged⟩, rfl⟩

/-- Every run keeps it. -/
theorem inv_run (curve : Curve σ) (config : StoreConfig σ) (ops : List (Op σ)) :
    (ops.foldl (apply curve) { config := config }).Inv ∧
      (ops.foldl (apply curve) { config := config }).config = config := by
  have hnew : ({ config := config } : AttestationStore σ).Inv :=
    ⟨rfl, .inl ⟨zero_le, zero_le⟩⟩
  refine List.foldlRecOn ops _ (motive := fun s : AttestationStore σ => s.Inv ∧ s.config = config)
    ⟨hnew, rfl⟩ ?_
  intro s hs op _
  obtain ⟨hinv, hconfig⟩ := hs.1.apply curve op
  exact ⟨hinv, hconfig.trans hs.2⟩

variable (s) in
theorem config_makeRoomLocked (incoming : BlockKey) (reaches : Bool) :
    (s.makeRoomLocked incoming reaches).2.config = s.config := by
  fun_induction makeRoomLocked s incoming reaches with
  | case1 s _ _ _ _ ih => exact ih
  | case2 s _ _ _ _ _ _ ih => exact ih
  | case3 => rfl
  | case4 => rfl
  | case5 => rfl

variable (s) in
theorem config_pruneExpiredLocked (now : ℤ) : (s.pruneExpiredLocked now).config = s.config := by
  unfold pruneExpiredLocked
  split_ifs
  · rfl
  · refine List.foldlRecOn s.buckets.entries _
      (motive := fun s' : AttestationStore σ => s'.config = s.config) rfl ?_
    intro s' hs' e _
    split_ifs
    · exact hs'
    · exact hs'

theorem config_add : (s.add curve attestation hash height now).2.config = s.config := by
  rcases add_cases curve s attestation hash height now with
    heq | heq | ⟨reaches, -, -, -, ⟨-, heq⟩ | ⟨-, heq⟩⟩
  · rw [heq]
  · rw [heq, config_pruneExpiredLocked]
  · rw [heq, config_makeRoomLocked, config_pruneExpiredLocked]
  · rw [heq]
    exact (config_makeRoomLocked _ _ _).trans (config_pruneExpiredLocked s now)

theorem valid_of_add (h : (s.add curve attestation hash height now).1 = .accepted ∨
    (s.add curve attestation hash height now).1 = .duplicate) :
    verifyAttestation curve attestation s.config.chainId s.config.replayAuthorityContext hash height
      s.config.trustedSigners = .valid := by
  by_contra hinvalid
  unfold add at h
  dsimp only at h
  rw [if_pos hinvalid] at h
  cases hv : verifyAttestation curve attestation s.config.chainId s.config.replayAuthorityContext
      hash height s.config.trustedSigners with
  | valid => exact hinvalid hv
  | _ => simp [hv, toAddResult] at h

theorem check_limits (h : config.check curve = .ok ()) :
    1 ≤ config.threshold ∧ 1 ≤ config.maxBlocks ∧ config.threshold ≤ config.maxAttestations := by
  simp only [StoreConfig.check, bind_eq_ok, require_eq_ok] at h
  obtain ⟨-, -, -, -, -, -, -, -, -, hthreshold, -, hcapacity, -⟩ := h
  omega

/-- **A vote that completes a quorum is accepted**, and the store is within its base limits. -/
theorem add_completing (h : s.Inv) (hconfig : s.config.check curve = .ok ())
    (hcompletes : s.Completes curve attestation hash height now) :
    (s.add curve attestation hash height now).1 = .accepted ∧
      Fits s.config (s.add curve attestation hash height now).2.buckets := by
  obtain ⟨hvalid, hvote, hlast⟩ := hcompletes
  obtain ⟨hthreshold, hblocks, hattestations⟩ := check_limits hconfig
  obtain ⟨hprune, hpconfig⟩ := pruneExpiredLocked_inv h now
  unfold add
  dsimp only
  rw [if_neg (by simp [hvalid]), if_neg (by simp [hvote]), ← hpconfig]
  generalize s.pruneExpiredLocked now = s' at *
  have hreaches : decide (s'.votes (blockKey height hash) < s'.config.threshold ∧
      s'.config.threshold ≤ s'.votes (blockKey height hash) + 1) = true := by
    rw [hpconfig, decide_eq_true_eq]
    omega
  rw [hreaches]
  obtain ⟨hinv, hevicts, hroom⟩ := makeRoomLocked_spec hprune (blockKey height hash) true
  have hok := makeRoomLocked_completing (blockKey height hash) hprune
    (hpconfig ▸ hblocks) (by rw [hpconfig]; omega) rfl
  rw [if_neg (by simp [hok])]
  refine ⟨rfl, ?_⟩
  rcases hroom hok with hroom | ⟨hfalse, -⟩
  · rw [← hevicts.config]
    exact fits_insertVote hinv hroom ((hasVote_of_evicts hevicts).trans hvote)
  · simp at hfalse

theorem find?_of_pruneExpiredLocked {k : BlockKey} {b : Bucket σ}
    (h : (s.pruneExpiredLocked now).buckets.find? k = some b) : s.buckets.find? k = some b := by
  rw [buckets_pruneExpiredLocked] at h
  split_ifs at h
  · exact h
  · rw [find?_filter, Option.filter_eq_some_iff] at h
    exact h.1

/-- **A vote that does not complete a quorum removes none.** -/
theorem add_not_completing (h : s.Inv) (hcompletes : ¬s.Completes curve attestation hash height now)
    {k : BlockKey} {b : Bucket σ} (hk : (s.pruneExpiredLocked now).buckets.find? k = some b)
    (hb : s.config.threshold ≤ b.attestations.size) :
    ∃ b', (s.add curve attestation hash height now).2.buckets.find? k = some b' ∧
      b.attestations.entries ⊆ b'.attestations.entries := by
  obtain ⟨hprune, hconfig⟩ := pruneExpiredLocked_inv h now
  rcases add_cases curve s attestation hash height now with
    heq | heq | ⟨reaches, hvote, hreaches, hvalid, hcases⟩
  · exact ⟨b, by rw [heq, find?_of_pruneExpiredLocked hk], .refl _⟩
  · exact ⟨b, by rw [heq, hk], .refl _⟩
  · obtain ⟨-, hevicts, -⟩ := makeRoomLocked_spec hprune (blockKey height hash) reaches
    have hfalse : reaches = false := by
      rw [Bool.eq_false_iff, Ne, hreaches, hconfig]
      exact fun hlast => hcompletes ⟨hvalid, hvote, hlast⟩
    have hkept := hevicts.quorums hfalse k b hk (hconfig ▸ hb)
    rcases hcases with ⟨-, heq⟩ | ⟨-, heq⟩
    · exact ⟨b, by rw [heq, hkept], .refl _⟩
    · rw [heq]
      obtain ⟨b', hbuckets, -, hsub⟩ :=
        find?_insertVote now ((hasVote_of_evicts hevicts).trans hvote)
      dsimp only
      rw [hbuckets, find?_insert]
      split_ifs with hkey
      · exact ⟨b', rfl, hsub b (hkey ▸ hkept)⟩
      · exact ⟨b, hkept, .refl _⟩

end Runs

/-- **The bounds of the attestation store**, over every sequence of votes, erasures and expiries:
the counter is the number of attestations; there are at most `maxBlocks + 1` buckets and
`maxAttestations + threshold - 1` attestations, and without one incomplete bucket at most
`maxBlocks` and `maxAttestations`; a vote that completes a quorum is accepted and leaves the store
within these; after any other vote every quorum that had not expired is still there, complete. -/
theorem attestationStore_bounds (curve : Curve σ) (config : StoreConfig σ)
    (hconfig : config.check curve = .ok ()) (ops : List (Op σ)) (s : AttestationStore σ)
    (hs : s = ops.foldl (apply curve) { config := config }) :
    s.attestationCount = stored s.buckets ∧
    (s.buckets.size ≤ config.maxBlocks + 1 ∧
      stored s.buckets ≤ config.maxAttestations + config.threshold - 1 ∧
      (Fits config s.buckets ∨ ∃ key b, StagedAt config s.buckets key b)) ∧
    (∀ attestation hash height now, s.Completes curve attestation hash height now →
      (s.add curve attestation hash height now).1 = .accepted ∧
        Fits config (s.add curve attestation hash height now).2.buckets) ∧
    (∀ attestation hash height now, ¬s.Completes curve attestation hash height now →
      ∀ k b, (s.pruneExpiredLocked now).buckets.find? k = some b →
        config.threshold ≤ b.attestations.size →
        ∃ b', (s.add curve attestation hash height now).2.buckets.find? k = some b' ∧
          b.attestations.entries ⊆ b'.attestations.entries) := by
  obtain ⟨hinv, heq⟩ := inv_run curve config ops
  rw [← hs] at hinv heq
  have hstaged := hinv.staged
  rw [heq] at hstaged
  obtain ⟨hsize, hstored⟩ := hstaged.bounds (check_limits hconfig).1
  refine ⟨hinv.counted, ⟨hsize, hstored, hstaged⟩, ?_, ?_⟩
  · intro attestation hash height now hcompletes
    rw [← heq]
    exact add_completing hinv (heq ▸ hconfig) hcompletes
  · intro attestation hash height now hcompletes k b hk hb
    exact add_not_completing hinv hcompletes hk (heq ▸ hb)

/-- A curve on which every well-formed signature verifies. -/
def sampleCurve : Curve ℕ := ⟨fun _ => true, fun _ => true, fun _ _ _ => true⟩

def sampleConfig : StoreConfig ℕ :=
  { chainId := 1, replayAuthorityContext := 1, trustedSigners := [5, 6], threshold := 2
    maxBlocks := 1, maxAttestations := 2, localSigner := some 5 }

def sampleAttestation (hash : Uint256) (height : ℤ) (signer : ℕ) : ExactReplayAttestation ℕ :=
  { statement := { chainId := 1, blockHash := hash, blockHeight := height
                   replayAuthorityContext := 1 }
    signer := signer
    signature := [0x30, 6, 2, 1, 1, 2, 1, 1] }

/-- A quorum that fills the store, and a vote for another block staged beside it. -/
def sampleStore : AttestationStore ℕ :=
  [.add (sampleAttestation 7 0 5) 7 0 0, .add (sampleAttestation 7 0 6) 7 0 0,
    .add (sampleAttestation 8 0 5) 8 0 0].foldl (apply sampleCurve) { config := sampleConfig }

/-- The vote that completes the staged block brings the store back to its limits. -/
theorem attestationStore_bounds_sampleStore :
    (sampleStore.buckets.size = 2 ∧ sampleStore.attestationCount = 3) ∧
    sampleStore.attestationCount = stored sampleStore.buckets ∧
    Fits sampleConfig
      (sampleStore.add sampleCurve (sampleAttestation 8 0 6) 8 0 1).2.buckets := by
  have h := attestationStore_bounds sampleCurve sampleConfig (by decide +kernel) _ sampleStore rfl
  exact ⟨by decide +kernel, h.1,
    (h.2.2.1 _ _ _ _ ⟨by decide +kernel, by decide +kernel, by decide +kernel⟩).2⟩

end Btx.Node.AttestationStore
