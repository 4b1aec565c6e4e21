/-
# One signature at a height

`SignAuthoritative` checks, signs, stores and queues in separate steps under separate locks. So two
calls for two blocks of one height can both pass the checks, and a signature that was handed out is
forgotten if the node crashes before it is written (`two_blocks_signed`). Where neither happens, and
no attestation of the local key arrives that was not handed out before, the key signs one block at a
height.
-/

import Btx.Node.AttestationOrigin

namespace Btx.Node

open Util CallerPhase List
open Option (getD_some some.inj)

/-! ## The height map -/

section HeightMap

variable {signed read : OrderedMap ℤ Uint256} {height height' : ℤ} {hash hash' : Uint256}
  {l : List (ℤ × Uint256)}

theorem find?_emplaceSigned : (emplaceSigned signed height hash).find? height' =
    if height' = height then some ((signed.find? height).getD hash) else signed.find? height' := by
  unfold emplaceSigned
  cases hfind : signed.find? height with
  | none =>
    rw [if_neg (by simp [OrderedMap.contains, hfind]), OrderedMap.find?_insert, Option.getD_none]
  | some z =>
    rw [if_pos (by simp [OrderedMap.contains, hfind]), getD_some]
    split_ifs with hh
    · rw [hh, hfind]
    · rfl

/-- **Entries put into a height map, the first of a height staying.** -/
theorem foldl_emplaceSigned (l : List (ℤ × Uint256)) (signed : OrderedMap ℤ Uint256) :
    (∀ h z, (l.foldl (fun m e => emplaceSigned m e.1 e.2) signed).find? h = some z →
      signed.find? h = some z ∨ (h, z) ∈ l) ∧
    (∀ h z, signed.find? h = some z →
      (l.foldl (fun m e => emplaceSigned m e.1 e.2) signed).find? h = some z) ∧
    ∀ e ∈ l, ∃ z, (l.foldl (fun m e => emplaceSigned m e.1 e.2) signed).find? e.1 = some z := by
  induction l generalizing signed with
  | nil => simp
  | cons e l ih =>
    obtain ⟨hfrom, hkeep, hall⟩ := ih (emplaceSigned signed e.1 e.2)
    rw [foldl_cons]
    refine ⟨fun h z hz => ?_, fun h z hz => hkeep h z ?_, fun e' he' => ?_⟩
    · rcases hfrom h z hz with hold | hmem
      · rw [find?_emplaceSigned] at hold
        split_ifs at hold with hh
        · subst hh
          cases hfind : signed.find? e.1 with
          | none =>
            rw [hfind] at hold
            obtain rfl : e.2 = z := some.inj hold
            exact .inr mem_cons_self
          | some w => exact .inl (by rw [hfind] at hold; exact hold)
        · exact .inl hold
      · exact .inr (mem_cons_of_mem _ hmem)
    · rw [find?_emplaceSigned]
      split_ifs with hh
      · subst hh
        rw [hz, getD_some]
      · exact hz
    · rcases mem_cons.1 he' with rfl | he'
      · exact ⟨_, hkeep _ _ (by rw [find?_emplaceSigned, if_pos rfl])⟩
      · exact hall e' he'

/-- The merged map has the old entries, new ones only from local signatures, and one for each of
these. -/
theorem mergeSigned_spec {σ : Type} [LinearOrder σ] (localSigner : Option σ)
    (attestations : List (ExactReplayAttestation σ)) (signed : OrderedMap ℤ Uint256) :
    (∀ h z, (mergeSigned signed (collectSigned localSigner attestations)).find? h = some z →
      signed.find? h = some z ∨ ∃ a ∈ attestations, some a.signer = localSigner ∧
        (a.statement.blockHeight, a.statement.blockHash) = (h, z)) ∧
    (∀ h z, signed.find? h = some z →
      (mergeSigned signed (collectSigned localSigner attestations)).find? h = some z) ∧
    ∀ a ∈ attestations, some a.signer = localSigner →
      ∃ z, (mergeSigned signed (collectSigned localSigner attestations)).find?
        a.statement.blockHeight = some z := by
  have hcollect : collectSigned localSigner attestations =
      ((attestations.filter fun a => some a.signer = localSigner).map fun a =>
        (a.statement.blockHeight, a.statement.blockHash)).foldl
          (fun m e => emplaceSigned m e.1 e.2) .empty := by
    rw [foldl_map, foldl_filter]
    simp [collectSigned]
  obtain ⟨hfrom, -, hall⟩ := foldl_emplaceSigned ((attestations.filter fun a =>
    some a.signer = localSigner).map fun a =>
      (a.statement.blockHeight, a.statement.blockHash)) .empty
  rw [← hcollect] at hfrom hall
  obtain ⟨hfrom', hkeep', hall'⟩ :=
    foldl_emplaceSigned (collectSigned localSigner attestations).entries signed
  refine ⟨fun h z hz => (hfrom' h z hz).imp_right fun hread => ?_, hkeep', fun a ha hlocal => ?_⟩
  · rcases hfrom h z (OrderedMap.find?_eq_some_iff.2 hread) with hempty | hmem
    · simp at hempty
    · obtain ⟨a, ha, heq⟩ := mem_map.1 hmem
      exact ⟨a, (List.mem_filter.1 ha).1, of_decide_eq_true (List.mem_filter.1 ha).2, heq⟩
  · obtain ⟨z, hz⟩ := hall _ (mem_map_of_mem (List.mem_filter.2 ⟨ha, decide_eq_true hlocal⟩))
    exact hall' _ (OrderedMap.find?_eq_some_iff.1 hz)

end HeightMap

namespace AttestationNode

variable {σ : Type} [LinearOrder σ] {env : AttestationEnv σ}

/-- The disk has a local signature of a block. -/
def signedOnDisk (env : AttestationEnv σ) (s : AttestationNode σ) (block : ℤ × Uint256) : Bool :=
  env.config.localSigner.any fun localSigner =>
    decide (HasVote s.db (blockKey block.1 block.2) localSigner) ||
      s.wal.any fun a => decide (a.key = blockKey block.1 block.2 ∧ a.signer = localSigner)

/-- The order of steps under which the local key signs one block at a height; an attestation of the
local key that arrives was handed out before. -/
def signsInTurn (env : AttestationEnv σ) (s : AttestationNode σ) : Action σ → Bool
  | .add a _ _ _ => decide (some a.signer = env.config.localSigner →
      (a.statement.blockHeight, a.statement.blockHash) ∈ s.handedOut)
  | .signStart hash height => !decide hash.IsNull &&
      s.callers.all fun c => c.target.all fun block => decide (block.1 = height → block.2 = hash)
  | .crash => s.handedOut.all (s.signedOnDisk env)
  | _ => true

/-- At every height the local key has signed one block at most, and the node knows which. -/
structure SignedOnce (env : AttestationEnv σ) (s : AttestationNode σ) : Prop where
  unique : ∀ h x y, (h, x) ∈ s.handedOut → (h, y) ∈ s.handedOut → x = y
  proper : ∀ h x, (h, x) ∈ s.handedOut → 0 ≤ h ∧ ¬x.IsNull
  mapped : ∀ h z, s.hints.localSigned.find? h = some z → (h, z) ∈ s.handedOut
  known : s.booting = false → ∀ h x, (h, x) ∈ s.handedOut →
    s.hints.localSigned.find? h = some x ∨ ∃ c ∈ s.callers, c.signed = some (h, x)
  onDisk : s.booting = true → ∀ block ∈ s.handedOut, s.signedOnDisk env block = true
  loaded : s.phase = .loaded → ∀ h x, (h, x) ∈ s.handedOut → ∀ localSigner ∈ env.config.localSigner,
    HasVote s.db (blockKey h x) localSigner → s.hints.localSigned.find? h = some x
  imported : s.booting = true → s.phase = .imported → ∀ h x, (h, x) ∈ s.handedOut →
    s.hints.localSigned.find? h = some x
  agreed : ∀ c ∈ s.callers, ∀ c' ∈ s.callers, ∀ h x y,
    c.target = some (h, x) → c'.target = some (h, y) → x = y
  clear : ∀ c ∈ s.callers, ∀ h x, c.target = some (h, x) →
    ¬x.IsNull ∧ ∀ y, (h, y) ∈ s.handedOut → y = x
  out : ∀ c ∈ s.callers, ∀ block, c.signed = some block → block ∈ s.handedOut
  genuine : ∀ a ∈ s.accepted, some a.signer = env.config.localSigner →
    (a.statement.blockHeight, a.statement.blockHash) ∈ s.handedOut

section Steps

variable {s s' : AttestationNode σ} {act : Action σ} {i : ℕ} {now : ℤ} {ok : Bool}
  {a : ExactReplayAttestation σ} {c c' : CallerPhase σ} {next : Option (CallerPhase σ)}
  {height : ℤ} {hash hash' : Uint256}

section

variable (h : s.SignedOnce env)

include h

/-- A caller may move on if its signed block stays carried or remembered. -/
theorem SignedOnce.setCaller (hc : s.callers[i]? = some c) (hbooting : s.booting = false)
    (hnext : ∀ c', next = some c' → (∀ block, c'.target = some block → c.target = some block) ∧
      ∀ block, c'.signed = some block → block ∈ s.handedOut)
    (hknown : ∀ h x, c.signed = some (h, x) → s.hints.localSigned.find? h = some x ∨
      ∃ c', next = some c' ∧ c'.signed = some (h, x)) :
    (s.setCaller i next).SignedOnce env := by
  have hmem := mem_of_getElem? hc
  -- a caller of the next state has the target of one that was there
  have htarget : ∀ c' ∈ (s.setCaller i next).callers, ∀ block, c'.target = some block →
      ∃ c'' ∈ s.callers, c''.target = some block := by
    intro c' hc' block hblock
    rcases mem_setCaller hc' with hold | hnew
    · exact ⟨c', hold, hblock⟩
    · exact ⟨c, hmem, (hnext c' hnew).1 block hblock⟩
  have hknown' : ∀ h x, (h, x) ∈ s.handedOut → s.hints.localSigned.find? h = some x ∨
      ∃ c ∈ (s.setCaller i next).callers, c.signed = some (h, x) := by
    intro height hash hout
    rcases h.known hbooting height hash hout with hmap | ⟨c', hc', hsigned⟩
    · exact .inl hmap
    · rcases mem_setCaller_of_mem hc' hc next with hstay | rfl
      · exact .inr ⟨c', hstay, hsigned⟩
      · exact (hknown height hash hsigned).imp_right fun ⟨c'', hnew, hsigned'⟩ =>
          ⟨c'', next_mem_setCaller hc hnew, hsigned'⟩
  have hagreed : ∀ c ∈ (s.setCaller i next).callers, ∀ c' ∈ (s.setCaller i next).callers, ∀ h x y,
      c.target = some (h, x) → c'.target = some (h, y) → x = y := by
    intro c₁ hc₁ c₂ hc₂ height x y h₁ h₂
    obtain ⟨d₁, hd₁, ht₁⟩ := htarget c₁ hc₁ _ h₁
    obtain ⟨d₂, hd₂, ht₂⟩ := htarget c₂ hc₂ _ h₂
    exact h.agreed d₁ hd₁ d₂ hd₂ height x y ht₁ ht₂
  have hclear : ∀ c ∈ (s.setCaller i next).callers, ∀ h x, c.target = some (h, x) →
      ¬x.IsNull ∧ ∀ y, (h, y) ∈ s.handedOut → y = x := by
    intro c₁ hc₁ height x h₁
    obtain ⟨d₁, hd₁, ht₁⟩ := htarget c₁ hc₁ _ h₁
    exact h.clear d₁ hd₁ height x ht₁
  have hout : ∀ c ∈ (s.setCaller i next).callers, ∀ block, c.signed = some block →
      block ∈ s.handedOut := by
    intro c' hc' block hblock
    rcases mem_setCaller hc' with hold | hnew
    · exact h.out c' hold block hblock
    · exact (hnext c' hnew).2 block hblock
  cases next with
  | some phase | none =>
    exact { h with
      known := fun _ => hknown', agreed := hagreed, clear := hclear, out := hout }

theorem SignedOnce.addCaller (hsigned : c.signed = none)
    (htarget : ∀ height x, c.target = some (height, x) → ¬x.IsNull ∧
      (∀ c' ∈ s.callers, ∀ y, c'.target = some (height, y) → y = x) ∧
      ∀ y, (height, y) ∈ s.handedOut → y = x) :
    ({ s with callers := s.callers ++ [c] } : AttestationNode σ).SignedOnce env := by
  refine
    { h with
      known := fun hb height x hx => (h.known hb height x hx).imp_right
        fun ⟨c', hc', hs⟩ => ⟨c', mem_append_left _ hc', hs⟩
      agreed := fun c₁ hc₁ c₂ hc₂ height x y h₁ h₂ => ?_
      clear := fun c' hc' height x ht => ?_
      out := fun c' hc' block hs => ?_ }
  · rw [mem_append, mem_singleton] at hc₁ hc₂
    rcases hc₁ with hc₁ | rfl <;> rcases hc₂ with hc₂ | rfl
    · exact h.agreed c₁ hc₁ c₂ hc₂ height x y h₁ h₂
    · exact (htarget height y h₂).2.1 c₁ hc₁ x h₁
    · exact ((htarget height x h₁).2.1 c₂ hc₂ y h₂).symm
    · exact congrArg Prod.snd (some.inj (h₁.symm.trans h₂))
  · rcases mem_append.1 hc' with hc' | hc'
    · exact h.clear c' hc' height x ht
    · rw [mem_singleton.1 hc'] at ht
      exact ⟨(htarget height x ht).1, (htarget height x ht).2.2⟩
  · rcases mem_append.1 hc' with hc' | hc'
    · exact h.out c' hc' block hs
    · rw [mem_singleton.1 hc', hsigned] at hs
      cases hs

theorem SignedOnce.disk (hbooting : s.booting = false) (hphase : s.phase ≠ .loaded)
    (wal : List (ExactReplayAttestation σ)) (db : AttestationDb σ) :
    ({ s with wal := wal, db := db } : AttestationNode σ).SignedOnce env :=
  { h with
    onDisk := fun hb => absurd (hbooting.symm.trans hb) Bool.false_ne_true
    loaded := fun hp => absurd hp hphase }

theorem SignedOnce.work (hwf : s.WellFormed env) (hworker : s.worker ≠ .stopped)
    (wal : List (ExactReplayAttestation σ)) (db : AttestationDb σ) :
    ({ s with wal := wal, db := db } : AttestationNode σ).SignedOnce env := by
  refine h.disk ?_ (fun hp => hworker (hwf.opening (.inl hp))) wal db
  by_contra hb
  exact hworker (hwf.booting (by simpa using hb)).2.2

end

theorem SignedOnce.handedOut_of_hasVote (h : s.SignedOnce env) (hwf : s.WellFormed env)
    {localSigner : σ} (hlocal : localSigner ∈ env.config.localSigner)
    (hvote : HasVote s.db (blockKey height hash) localSigner) : (height, hash) ∈ s.handedOut := by
  obtain ⟨record, hrecord, hsigner⟩ := hvote
  obtain ⟨a, ha, rfl⟩ := mem_map.1 hsigner
  obtain ⟨hkey, hmem⟩ := (hwf.db _ record hrecord).2.2 a ha
  obtain ⟨rfl, rfl⟩ := blockKey_inj.1 hkey
  exact h.genuine a hmem hlocal.symm

/-- **A signature is handed out once at a height.** -/
theorem SignedOnce.handOut (h : s.SignedOnce env) (hwf : s.WellFormed env)
    (a : ExactReplayAttestation σ) (accepted : Bool)
    (hc : s.callers[i]? = some (.signCleared hash height)) (hheight : 0 ≤ height)
    (ha : (a.statement.blockHeight, a.statement.blockHash) = (height, hash)) :
    (({ s with handedOut := s.handedOut ++ [(height, hash)] } : AttestationNode σ).setCaller i
      (some (.signStored a accepted))).SignedOnce env := by
  have hbooting := hwf.not_booting hc
  have hmem := mem_of_getElem? hc
  obtain ⟨hnull, hclear⟩ := h.clear _ hmem height hash rfl
  have hout : ∀ k x, (k, x) ∈ s.handedOut ++ [(height, hash)] →
      (k, x) ∈ s.handedOut ∨ (k = height ∧ x = hash) := by
    intro k x hx
    rw [mem_append, mem_singleton, Prod.mk.injEq] at hx
    exact hx
  have hmem' : ∀ c ∈ s.callers.set i (.signStored a accepted), ∀ block, c.target = some block →
      ∃ c' ∈ s.callers, c'.target = some block := by
    intro c hc block hblock
    rcases mem_or_eq_of_mem_set hc with hold | rfl
    · exact ⟨c, hold, hblock⟩
    · exact ⟨_, hmem, by rw [← hblock]; exact congrArg some ha.symm⟩
  have hnew : signStored a accepted ∈ s.callers.set i (.signStored a accepted) :=
    mem_set (List.getElem?_eq_some_iff.1 hc).1 _
  refine
    { unique := fun k x y hx hy => ?_
      proper := fun k x hx => ?_
      mapped := fun k z hz => mem_append_left _ (h.mapped k z hz)
      known := fun _ k x hx => ?_
      onDisk := fun hb => absurd (hbooting.symm.trans hb) Bool.false_ne_true
      loaded := fun hp k x _ l hl hvote =>
        h.loaded hp k x (h.handedOut_of_hasVote hwf hl hvote) l hl hvote
      imported := fun hb => absurd (hbooting.symm.trans hb) Bool.false_ne_true
      agreed := fun c₁ hc₁ c₂ hc₂ k x y h₁ h₂ => ?_
      clear := fun c hc k x ht => ?_
      out := fun c hc block hsigned => ?_
      genuine := fun a ha hlocal => mem_append_left _ (h.genuine a ha hlocal) }
  · rcases hout k x hx with hold | ⟨rfl, rfl⟩ <;> rcases hout _ y hy with hold' | ⟨hk, rfl⟩
    · exact h.unique k x y hold hold'
    · exact hclear x (hk ▸ hold)
    · exact (hclear y hold').symm
    · rfl
  · rcases hout k x hx with hx | ⟨rfl, rfl⟩
    · exact h.proper k x hx
    · exact ⟨hheight, hnull⟩
  · rcases hout k x hx with hx | ⟨rfl, rfl⟩
    · rcases h.known hbooting k x hx with hmap | ⟨c', hc', hsigned⟩
      · exact .inl hmap
      · rcases mem_setCaller_of_mem hc' hc (some (.signStored a accepted)) with hstay | rfl
        · exact .inr ⟨c', hstay, hsigned⟩
        · exact absurd hsigned (by simp [signed])
    · exact .inr ⟨_, hnew, congrArg some ha⟩
  · obtain ⟨d₁, hd₁, ht₁⟩ := hmem' c₁ hc₁ _ h₁
    obtain ⟨d₂, hd₂, ht₂⟩ := hmem' c₂ hc₂ _ h₂
    exact h.agreed d₁ hd₁ d₂ hd₂ k x y ht₁ ht₂
  · obtain ⟨d, hd, htd⟩ := hmem' c hc _ ht
    refine ⟨(h.clear d hd k x htd).1, fun y hy => ?_⟩
    rcases hout k y hy with hy | ⟨rfl, rfl⟩
    · exact (h.clear d hd k x htd).2 y hy
    · exact h.agreed _ hmem d hd k y x rfl htd
  · rcases mem_or_eq_of_mem_set hc with hold | rfl
    · exact mem_append_left _ (h.out c hold block hsigned)
    · rw [← some.inj hsigned, ha]
      exact mem_append_right _ (mem_singleton.2 rfl)

theorem SignedOnce.addToStore (h : s.SignedOnce env)
    (hlocal : (s.addToStore env a hash height now).1 = .accepted →
      some a.signer = env.config.localSigner →
        (a.statement.blockHeight, a.statement.blockHash) ∈ s.handedOut) :
    (s.addToStore env a hash height now).2.SignedOnce env := by
  refine { h with genuine := fun b hb hsigner => ?_ }
  rcases mem_accepted_addToStore hb with hb | ⟨rfl, hacc⟩
  · exact h.genuine b hb hsigner
  · exact hlocal hacc hsigner

theorem SignedOnce.setHints (h : s.SignedOnce env) (hints : AttestationHints)
    (hsigned : hints.localSigned = s.hints.localSigned) :
    ({ s with hints := hints } : AttestationNode σ).SignedOnce env :=
  { h with
    mapped := by rw [hsigned]; exact h.mapped
    known := by rw [hsigned]; exact h.known
    loaded := by rw [hsigned]; exact h.loaded
    imported := by rw [hsigned]; exact h.imported }

theorem booting_persistAfterMutation : (s.persistAfterMutation a).booting = s.booting := by
  unfold persistAfterMutation
  split_ifs <;> rfl

theorem SignedOnce.persistAfterMutation (h : s.SignedOnce env) :
    (s.persistAfterMutation a).SignedOnce env ∧
      (s.persistAfterMutation a).callers = s.callers := by
  unfold AttestationNode.persistAfterMutation
  split_ifs
  · exact ⟨{ h with }, rfl⟩
  · exact ⟨h, rfl⟩

theorem SignedOnce.emplace (h : s.SignedOnce env) (hout : (height, hash) ∈ s.handedOut) :
    ({ s with hints := { s.hints with
        localSigned := emplaceSigned s.hints.localSigned height hash } } :
      AttestationNode σ).SignedOnce env ∧
    (emplaceSigned s.hints.localSigned height hash).find? height = some hash := by
  have hvalue : (s.hints.localSigned.find? height).getD hash = hash := by
    cases hfind : s.hints.localSigned.find? height with
    | none => rfl
    | some z => exact h.unique height z hash (h.mapped height z hfind) hout
  have hfind : ∀ k, (emplaceSigned s.hints.localSigned height hash).find? k =
      if k = height then some hash else s.hints.localSigned.find? k := by
    intro k
    rw [find?_emplaceSigned, hvalue]
  -- what the map has it keeps
  have hkeep : ∀ k x, (k, x) ∈ s.handedOut → s.hints.localSigned.find? k = some x →
      (emplaceSigned s.hints.localSigned height hash).find? k = some x := by
    intro k x hx hmap
    rw [hfind]
    split_ifs with hk
    · subst hk
      exact congrArg some (h.unique k hash x hout hx)
    · exact hmap
  refine ⟨{ h with
    mapped := fun k z hz => ?_
    known := fun hb k x hx => (h.known hb k x hx).imp_left (hkeep k x hx)
    loaded := fun hp k x hx l hl hvote => hkeep k x hx (h.loaded hp k x hx l hl hvote)
    imported := fun hb hp k x hx => hkeep k x hx (h.imported hb hp k x hx) }, ?_⟩
  · change (emplaceSigned s.hints.localSigned height hash).find? k = some z at hz
    rw [hfind] at hz
    split_ifs at hz with hk
    · subst hk
      exact some.inj hz ▸ hout
    · exact h.mapped k z hz
  · rw [hfind, if_pos rfl]

theorem phase_of_not_ioHeld (h : s.ioHeld = false) : s.phase ≠ .loaded := by
  intro hphase
  unfold ioHeld at h
  cases hw : s.worker <;> simp_all

section

variable (h : s.SignedOnce env)

include h

/-- **Every step of a caller keeps to one signature at a height.** -/
theorem SignedOnce.advance (hwf : s.WellFormed env)
    (hc : s.callers[i]? = some c) (hs : s.advance env i now ok c = some s') :
    s'.SignedOnce env := by
  have hbooting := hwf.not_booting hc
  have hmem := mem_of_getElem? hc
  cases c with
  | addStored a accepted =>
    cases hs
    refine SignedOnce.setCaller (h.setHints _ (localSigned_noteAccepted ..)) hc hbooting ?_
      (by simp [signed])
    cases accepted <;> simp [target, signed]
  | addNoted a | signMarked a =>
    cases hs
    obtain ⟨hp, hcallers⟩ := h.persistAfterMutation (a := a)
    exact hp.setCaller (hcallers ▸ hc) (booting_persistAfterMutation.trans hbooting) (by simp)
      (by simp [signed])
  | signChecked hash height =>
    simp only [AttestationNode.advance] at hs
    split at hs
    on_goal 2 => split_ifs at hs
    all_goals
      exact some.inj hs ▸ h.setCaller hc hbooting
        (by rintro _ ⟨⟩ <;> exact ⟨fun _ ht => ht, by simp [signed]⟩)
        (by simp [signed])
  | signCleared hash height =>
    simp only [AttestationNode.advance] at hs
    split at hs
    · next localSigner signature _ _ =>
      split_ifs at hs with hresult
      · cases hs
        obtain ⟨-, -, -, hheight⟩ := valid_of_addToStore hwf.config hresult
        have hout := h.handOut hwf ⟨statementFor env hash height, localSigner, signature⟩
          (decide ((s.addToStore env ⟨statementFor env hash height, localSigner, signature⟩ hash
            height
            now).1 = .accepted)) hc hheight rfl
        refine { hout with genuine := fun b hb hlocal => ?_ }
        rcases mem_accepted_addToStore hb with hb | ⟨rfl, -⟩
        · exact mem_append_left _ (h.genuine b hb hlocal)
        · exact mem_append_right _ (mem_singleton.2 rfl)
      · cases hs
        exact (h.addToStore fun hacc => absurd (.inl hacc) hresult).setCaller hc hbooting (by simp)
          (by simp [signed])
    · exact some.inj hs ▸ h.setCaller hc hbooting (by simp) (by simp [signed])
  | signStored a accepted =>
    cases hs
    refine SignedOnce.setCaller (h.setHints _ (localSigned_noteAccepted ..)) hc hbooting ?_
      fun _ _ hsigned => .inr ⟨_, rfl, hsigned⟩
    rintro _ ⟨⟩
    exact ⟨fun _ ht => ht, fun block hsigned => h.out _ hmem block hsigned⟩
  | signNoted a accepted =>
    cases hs
    have hout := h.out _ hmem _ rfl
    obtain ⟨hemplace, hfind⟩ := h.emplace hout
    rw [if_pos (h.proper _ _ hout)]
    refine hemplace.setCaller hc hbooting ?_ fun k x hsigned => .inl ?_
    · cases accepted <;> simp [target, signed]
    · cases hsigned
      exact hfind
  | flushChecked =>
    obtain ⟨hio, rfl⟩ := advance_flushChecked hs
    have hdisk := h.disk hbooting (phase_of_not_ioHeld hio) (if ok then [] else s.wal) s.db
    exact hdisk.setCaller hc hbooting (by simp) (by simp [signed])
  | flushWaiting size | closeWaiting size =>
    simp only [AttestationNode.advance] at hs
    split_ifs at hs
    all_goals
      exact some.inj hs ▸ h.setCaller hc hbooting
        (by rintro _ ⟨⟩ <;> simp [target, signed]) (by simp [signed])
  | closeChecked =>
    obtain ⟨hio, rfl⟩ := advance_closeChecked hs
    have hdisk := h.disk hbooting (phase_of_not_ioHeld hio) (if ok then [] else s.wal) s.db
    exact hdisk.setCaller hc hbooting
      (by rintro _ ⟨⟩; simp [target, signed]) (by simp [signed])
  | closeStopping =>
    simp only [AttestationNode.advance] at hs
    split_ifs at hs
    · cases hs
      have hclosed :
          ({ s with stop := true, phase := .closed } : AttestationNode σ).SignedOnce env :=
        { h with loaded := by simp, imported := by simp }
      exact hclosed.setCaller hc hbooting (by simp) (by simp [signed])
    · exact some.inj hs ▸ { h with }

/-- Merging accepted attestations: the map has blocks that were handed out, the old ones among
them, and the block of every local signature that was. -/
theorem SignedOnce.merged {attestations : List (ExactReplayAttestation σ)}
    {signed : OrderedMap ℤ Uint256} (hsigned : signed = mergeSigned s.hints.localSigned
      (collectSigned env.config.localSigner attestations))
    (haccepted : ∀ a ∈ attestations, a ∈ s.accepted) :
    (∀ k z, signed.find? k = some z → (k, z) ∈ s.handedOut) ∧
      (∀ k z, s.hints.localSigned.find? k = some z → signed.find? k = some z) ∧
      ∀ a ∈ attestations, some a.signer = env.config.localSigner → ∀ z,
        (a.statement.blockHeight, z) ∈ s.handedOut →
          signed.find? a.statement.blockHeight = some z := by
  obtain ⟨hfrom, hkeep, hall⟩ :=
    mergeSigned_spec env.config.localSigner attestations s.hints.localSigned
  rw [← hsigned] at hfrom hkeep hall
  have hmapped : ∀ k z, signed.find? k = some z → (k, z) ∈ s.handedOut := by
    intro k z hz
    rcases hfrom k z hz with hold | ⟨a, ha, hlocal, heq⟩
    · exact h.mapped k z hold
    · exact heq ▸ h.genuine a (haccepted a ha) hlocal
  refine ⟨hmapped, hkeep, fun a ha hlocal z hout => ?_⟩
  obtain ⟨x, hx⟩ := hall a ha hlocal
  rw [hx, h.unique _ x z (hmapped _ x hx) hout]

/-- Loading the database reads back only what was handed out. -/
theorem SignedOnce.load (hwf : s.WellFormed env)
    (hs : s.step env (.load now) = some s') : s'.SignedOnce env := by
  obtain ⟨-, -, store, hints, hload, rfl⟩ := step_load hs
  have hrecords : ∀ r ∈ env.cursor s.db, s.db.find? r.1 = some r.2 := fun r hr =>
    OrderedMap.find?_eq_some_iff.2 ((env.cursor_perm s.db).mem_iff.1 hr)
  obtain ⟨-, -, hsigned⟩ := loadDurableAttestations_spec (P := (· ∈ s.accepted)) hload hwf.store
    fun r hr a ha => ((hwf.db _ _ (hrecords r hr)).2.2 a ha).2
  change _ = mergeSigned _ (collectSigned s.store.config.localSigner _) at hsigned
  rw [hwf.config] at hsigned
  obtain ⟨hmapped, hkeep, hall⟩ := h.merged hsigned fun a ha => by
    obtain ⟨r, hr, har⟩ := mem_flatMap.1 ha
    exact ((hwf.db _ _ (hrecords r hr)).2.2 a har).2
  refine
    { h with
      mapped := hmapped
      known := fun hb k x hx => (h.known hb k x hx).imp_left (hkeep k x)
      loaded := fun _ k x hx l hl hvote => ?_
      imported := by simp }
  obtain ⟨record, hrecord, hsigner⟩ := hvote
  obtain ⟨a, ha, rfl⟩ := mem_map.1 hsigner
  obtain ⟨rfl, rfl⟩ := blockKey_inj.1 ((hwf.db _ record hrecord).2.2 a ha).1
  have hmem := (env.cursor_perm s.db).mem_iff.2 (OrderedMap.find?_eq_some_iff.1 hrecord)
  exact hall a (mem_flatMap.2 ⟨_, hmem, ha⟩) hl.symm _ hx

theorem SignedOnce.importLog (hwf : s.WellFormed env)
    (hs : s.step env (.importLog now ok) = some s') : s'.SignedOnce env := by
  obtain ⟨hphase, db, store, hints, himport, ⟨-, rfl⟩ | ⟨-, rfl⟩⟩ := step_importLog hs
  swap
  · exact { h with loaded := by simp, imported := by simp }
  obtain ⟨rfl, -, -, hsigned⟩ := hwf.import_spec himport
  obtain ⟨hmapped, hkeep, hall⟩ := h.merged hsigned fun a ha => hwf.wal a ha
  refine
    { h with
      mapped := hmapped
      known := fun hb k x hx => (h.known hb k x hx).imp_left (hkeep k x)
      onDisk := fun hb block hblock => ?_
      loaded := by simp
      imported := fun hb _ k x hx => ?_ }
  · obtain ⟨l, hl, hdisk⟩ := (Option.any_eq_true _ _).1 (h.onDisk hb block hblock)
    refine (Option.any_eq_true _ _).2 ⟨l, hl, ?_⟩
    rw [Bool.or_eq_true, decide_eq_true_eq] at hdisk ⊢
    exact hdisk.imp_left fun hvote => hasVote_persist.2 (.inl hvote)
  · obtain ⟨l, hl, hdisk⟩ := (Option.any_eq_true _ _).1 (h.onDisk hb _ hx)
    rw [Bool.or_eq_true, decide_eq_true_eq] at hdisk
    rcases hdisk with hvote | hwal
    · exact hkeep k x (h.loaded hphase k x hx l hl hvote)
    · obtain ⟨a, ha, hsame⟩ := any_eq_true.1 hwal
      obtain ⟨hkey, rfl⟩ := of_decide_eq_true hsame
      obtain ⟨rfl, rfl⟩ := blockKey_inj.1 hkey
      exact hall a ha hl.symm _ hx

end

omit [LinearOrder σ] in
theorem CallerPhase.target_of_signed {block : ℤ × Uint256} (h : c.signed = some block) :
    c.target = some block := by
  cases c <;> simp_all [signed, target]

theorem SignedOnce.clear_of_start (h : s.SignedOnce env) (hbooting : s.booting = false)
    (hnull : ¬hash.IsNull)
    (hcallers : ∀ c ∈ s.callers, ∀ y, c.target = some (height, y) → y = hash)
    (hmap : s.hasLocalSignatureAtHeight hash height = false)
    (hout : (height, hash') ∈ s.handedOut) :
    hash' = hash := by
  obtain ⟨hheight, hnull'⟩ := h.proper height hash' hout
  rcases h.known hbooting height hash' hout with hfind | ⟨c, hc, hsigned⟩
  · by_contra hne
    simp [hasLocalSignatureAtHeight, hfind, hnull, hnull', hne] at hmap
    omega
  · exact hcallers c hc hash' (CallerPhase.target_of_signed hsigned)

/-- **Every step in turn keeps to one signature at a height.** -/
theorem SignedOnce.step (h : s.SignedOnce env) (hwf : s.WellFormed env)
    (hturn : s.signsInTurn env act = true) (hs : s.step env act = some s') : s'.SignedOnce env := by
  cases act with
  | add a hash height now =>
    have hadd : (s.addToStore env a hash height now).2.SignedOnce env :=
      h.addToStore fun _ => of_decide_eq_true hturn
    obtain ⟨-, ⟨-, rfl⟩ | ⟨-, rfl⟩⟩ := step_add hs
    · exact hadd.addCaller rfl (by simp [target])
    · exact hadd
  | signStart hash height =>
    obtain ⟨hbooting, ⟨-, rfl⟩ | ⟨hmap, rfl⟩⟩ := step_signStart hs
    · exact h
    simp only [signsInTurn, Bool.and_eq_true, Bool.not_eq_true', decide_eq_false_iff_not,
      all_eq_true] at hturn
    have hcallers : ∀ c ∈ s.callers, ∀ y, c.target = some (height, y) → y = hash := by
      intro c hc y ht
      have hall := hturn.2 c hc
      rw [ht] at hall
      exact of_decide_eq_true hall rfl
    refine h.addCaller rfl ?_
    rintro _ _ ⟨⟩
    exact ⟨hturn.1, hcallers, fun y hy => h.clear_of_start hbooting hturn.1 hcallers hmap hy⟩
  | flushStart =>
    rcases step_flushStart hs with ⟨-, rfl⟩ | rfl
    · exact h.addCaller rfl (by simp [target])
    · exact h
  | closeStart =>
    obtain ⟨-, rfl⟩ := step_closeStart hs
    have hdisabled : ({ s with enabled := false } : AttestationNode σ).SignedOnce env := { h with }
    refine hdisabled.addCaller ?_ ?_
    · split_ifs <;> rfl
    · split_ifs <;> simp [target]
  | advance i now ok =>
    obtain ⟨c, hc, hs⟩ := step_advance hs
    exact h.advance hwf hc hs
  | erase hash height | expire now =>
    cases hs
    exact { h with }
  | take =>
    obtain ⟨-, -, rfl⟩ := step_take hs
    exact { h with }
  | append ok =>
    obtain ⟨batch, hworker, -, ⟨-, rfl⟩ | ⟨-, rfl⟩⟩ := step_append hs
    · exact { h.work hwf (by simp [hworker]) (s.wal ++ batch) s.db with }
    · exact { h with }
  | sync ok =>
    obtain ⟨batch, hworker, ⟨-, rfl⟩ | ⟨-, rfl⟩⟩ := step_sync hs
    · exact { h.work hwf (by simp [hworker]) s.wal (persistDurableAttestations s.db batch) with }
    · exact { h with }
  | reset ok =>
    obtain ⟨batch, hworker, rfl⟩ := step_reset hs
    exact { h.work hwf (by simp [hworker]) (if ok then [] else s.wal) s.db with }
  | report =>
    obtain ⟨size, ok, -, rfl⟩ := step_report hs
    exact { h with }
  | exit =>
    obtain ⟨-, -, -, rfl⟩ := step_exit hs
    exact { h with }
  | load now => exact h.load hwf hs
  | importLog now ok => exact h.importLog hwf hs
  | openReset ok =>
    obtain ⟨hphase, ⟨-, rfl⟩ | ⟨-, rfl⟩⟩ := step_openReset hs
    · refine
        { h with
          known := fun _ k x hx => ?_
          onDisk := by simp
          loaded := by simp
          imported := by simp }
      cases hb : s.booting with
      | true => exact .inl (h.imported hb hphase k x hx)
      | false => exact h.known hb k x hx
    · exact { h with loaded := by simp, imported := by simp }
  | crash =>
    cases hs
    exact
      { unique := h.unique
        proper := h.proper
        mapped := by simp [crashed, new]
        known := by simp [crashed, new]
        onDisk := fun _ block hblock => all_eq_true.1 hturn block hblock
        loaded := by simp [crashed, new]
        imported := by simp [crashed, new]
        agreed := by simp [crashed, new]
        clear := by simp [crashed, new]
        out := by simp [crashed, new]
        genuine := h.genuine }

end Steps

/-- **The local key signs one block at a height.** In every run in which a call of
`SignAuthoritative` starts only while no call for another block of its height is under way, a crash
comes only when every signature handed out is on disk, and an arriving attestation of the local key
was handed out before. -/
theorem local_signature_unique (env : AttestationEnv σ) {s : AttestationNode σ}
    (h : Run env (fun s act => s.signsInTurn env act = true) s) {height : ℤ} {hash hash' : Uint256}
    (hout : (height, hash) ∈ s.handedOut) (hout' : (height, hash') ∈ s.handedOut) :
    hash = hash' := by
  have honce : s.SignedOnce env := h.invariant
    { unique := by simp [new]
      proper := by simp [new]
      mapped := by simp [new]
      known := by simp [new]
      onDisk := by simp [new]
      loaded := by simp [new]
      imported := by simp [new]
      agreed := by simp [new]
      clear := by simp [new]
      out := by simp [new]
      genuine := by simp [new] }
    fun _ _ _ hrun ho hturn hs => ho.step hrun.wellFormed hturn hs
  exact honce.unique height hash hash' hout hout'

/-! ## Runs -/

/-- The rest of a call of `SignAuthoritative` in the place `i`. -/
def signActs (i : ℕ) : List (Action ℕ) := List.replicate 5 (.advance i 0 true)

/-- The local key signs a block, the worker writes the attestation, the node is restarted and asked
for another block of the height: it refuses. -/
theorem local_signature_unique_sample :
    ∃ s, runWhere sampleEnv (signsInTurn sampleEnv) (openActs ++ [.signStart 7 0] ++ signActs 0 ++
        [.take, .append true, .crash] ++ openActs ++ [.signStart 8 0]) = some s ∧
      (0, 7) ∈ s.handedOut ∧ (0, 8) ∉ s.handedOut := by
  have hrun :
      (runWhere sampleEnv (signsInTurn sampleEnv) (openActs ++ [.signStart 7 0] ++ signActs 0 ++
      [.take, .append true, .crash] ++ openActs ++ [.signStart 8 0])).any (fun s =>
        decide ((0, 7) ∈ s.handedOut)) = true := by
    decide +kernel
  obtain ⟨s, hs, hsigned⟩ := (Option.any_eq_true _ _).1 hrun
  refine ⟨s, hs, of_decide_eq_true hsigned, fun hother => ?_⟩
  have heq :=
    local_signature_unique sampleEnv (Run.of_runWhere hs) (of_decide_eq_true hsigned) hother
  exact absurd heq (by decide)

/-- **Two blocks of one height signed.** Two calls pass the checks before either has stored its
signature; or the node crashes before the worker has written the first one. -/
theorem two_blocks_signed :
    (∃ s, runWhere sampleEnv (fun _ _ => true) (openActs ++ [.signStart 7 0, .signStart 8 0,
        .advance 0 0 true, .advance 1 0 true, .advance 0 0 true, .advance 1 0 true]) = some s ∧
      (0, 7) ∈ s.handedOut ∧ (0, 8) ∈ s.handedOut) ∧
    ∃ s, runWhere sampleEnv (fun _ _ => true)
      (openActs ++ [.signStart 7 0] ++ signActs 0 ++ [.crash] ++
        openActs ++ [.signStart 8 0] ++ signActs 0) = some s ∧
      (0, 7) ∈ s.handedOut ∧ (0, 8) ∈ s.handedOut := by
  have hrace : (runWhere sampleEnv (fun _ _ => true) (openActs ++ [.signStart 7 0, .signStart 8 0,
      .advance 0 0 true, .advance 1 0 true, .advance 0 0 true, .advance 1 0 true])).any (fun s =>
        decide ((0, 7) ∈ s.handedOut ∧ (0, 8) ∈ s.handedOut)) = true := by
    decide +kernel
  have hcrash : (runWhere sampleEnv (fun _ _ => true) (openActs ++ [.signStart 7 0] ++ signActs 0 ++
      [.crash] ++ openActs ++ [.signStart 8 0] ++ signActs 0)).any (fun s =>
        decide ((0, 7) ∈ s.handedOut ∧ (0, 8) ∈ s.handedOut)) = true := by
    decide +kernel
  obtain ⟨s, hs, hboth⟩ := (Option.any_eq_true _ _).1 hrace
  obtain ⟨s', hs', hboth'⟩ := (Option.any_eq_true _ _).1 hcrash
  exact ⟨⟨s, hs, of_decide_eq_true hboth⟩, s', hs', of_decide_eq_true hboth'⟩

end AttestationNode

end Btx.Node
