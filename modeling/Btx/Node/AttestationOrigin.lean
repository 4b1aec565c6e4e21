/-
# Where attestations come from

Every attestation that a node holds, in memory, in flight or on disk, was accepted by its store at
some time, and so has verified: in every run, whatever fails and whenever the node crashes.
-/

import Btx.Node.AttestationNode

namespace Btx.Node

open Util OrderedMap AttestationStore CallerPhase List Option

variable {σ : Type} [LinearOrder σ]

/-! ## Votes in memory and on disk -/

/-- Every vote of the store stands under its signer and its block, and is in a class. -/
def AttestationStore.VotesIn (P : ExactReplayAttestation σ → Prop) (s : AttestationStore σ) :
    Prop :=
  ∀ key b, s.buckets.find? key = some b → ∀ e ∈ b.attestations.entries,
    e.2.signer = e.1 ∧ e.2.key = key ∧ P e.2

/-- Every record of the database has votes, by different signers, for its block and in a class. -/
def AttestationDb.VotesIn (P : ExactReplayAttestation σ → Prop) (db : AttestationDb σ) : Prop :=
  ∀ key record, db.find? key = some record →
    record ≠ [] ∧ (record.map ExactReplayAttestation.signer).Nodup ∧
      ∀ a ∈ record, a.key = key ∧ P a

namespace AttestationStore

variable {s s' : AttestationStore σ} {P Q : ExactReplayAttestation σ → Prop} {curve : Curve σ}
  {a : ExactReplayAttestation σ} {hash : Uint256} {height now : ℤ} {key : BlockKey} {b : Bucket σ}

theorem VotesIn.mono (h : s.VotesIn P) (hPQ : ∀ a, P a → Q a) : s.VotesIn Q := fun key b hb e he =>
  ⟨(h key b hb e he).1, (h key b hb e he).2.1, hPQ _ (h key b hb e he).2.2⟩

theorem VotesIn.of_find? (h : s.VotesIn P)
    (hsub : ∀ key b, s'.buckets.find? key = some b → s.buckets.find? key = some b) : s'.VotesIn P :=
  fun key b hb => h key b (hsub key b hb)

theorem find?_of_eraseLocked {victim : BlockKey}
    (h : (s.eraseLocked victim).buckets.find? key = some b) : s.buckets.find? key = some b := by
  change (s.buckets.erase victim).find? key = some b at h
  rw [find?_erase] at h
  split_ifs at h
  exact h

variable (s) in
theorem find?_of_makeRoomLocked (incoming : BlockKey) (reaches : Bool)
    (h : (s.makeRoomLocked incoming reaches).2.buckets.find? key = some b) :
    s.buckets.find? key = some b := by
  fun_induction makeRoomLocked s incoming reaches with
  | case1 s _ _ _ _ ih | case2 s _ _ _ _ _ _ ih => exact find?_of_eraseLocked (ih h)
  | case3 s => exact h
  | case4 s => exact h
  | case5 s => exact h

theorem find?_of_erase (h : (s.erase hash height).buckets.find? key = some b) :
    s.buckets.find? key = some b := by
  unfold AttestationStore.erase at h
  split_ifs at h
  · exact find?_of_eraseLocked h
  · exact h

theorem config_erase : (s.erase hash height).config = s.config := by
  unfold AttestationStore.erase
  split_ifs <;> rfl

theorem VotesIn.insertVote (h : s.VotesIn P) (hkey : a.key = key) (ha : P a) :
    (s.insertVote key a now).VotesIn P := by
  intro key' b hb e he
  change (s.buckets.insert key _).find? key' = some b at hb
  rw [find?_insert] at hb
  split_ifs at hb with hk
  · cases hb
    subst hk
    rcases mem_insert.1 he with rfl | ⟨he, -⟩
    · exact ⟨rfl, hkey, ha⟩
    · cases hold : s.buckets.find? key' with
      | none => simp [hold, OrderedMap.empty] at he
      | some b => exact h key' b hold e (by simpa [hold] using he)
  · exact h key' b hb e he

/-- **What an `Add` puts into the store is the attestation it accepts.** -/
theorem VotesIn.add (h : s.VotesIn P) (ha : (s.add curve a hash height now).1 = .accepted → P a) :
    (s.add curve a hash height now).2.VotesIn P := by
  rcases add_cases curve s a hash height now with
    heq | heq | ⟨reaches, -, -, hvalid, ⟨-, heq⟩ | ⟨hacc, heq⟩⟩
  · rwa [heq]
  · rw [heq]
    exact h.of_find? fun _ _ => find?_of_pruneExpiredLocked
  · rw [heq]
    exact h.of_find? fun _ _ hb => find?_of_pruneExpiredLocked (find?_of_makeRoomLocked _ _ _ hb)
  · rw [heq] at ha ⊢
    obtain ⟨hhash, hheight, -, -⟩ := verifyAttestation_valid hvalid
    refine VotesIn.insertVote (h.of_find? fun _ _ hb => ?_) ?_ (ha rfl)
    · exact find?_of_pruneExpiredLocked (find?_of_makeRoomLocked _ _ _ hb)
    · rw [ExactReplayAttestation.key, hhash, hheight]

end AttestationStore

namespace AttestationDb

variable {db : AttestationDb σ} {P Q : ExactReplayAttestation σ → Prop}
  {a : ExactReplayAttestation σ} {batch : List (ExactReplayAttestation σ)}

omit [LinearOrder σ] in
theorem VotesIn.mono (h : VotesIn P db) (hPQ : ∀ a, P a → Q a) : VotesIn Q db :=
  fun key record hrecord => by
    obtain ⟨hne, hnodup, hvotes⟩ := h key record hrecord
    exact ⟨hne, hnodup, fun a ha => ⟨(hvotes a ha).1, hPQ a (hvotes a ha).2⟩⟩

theorem VotesIn.writeVote (h : VotesIn P db) (ha : P a) : VotesIn P (writeVote db a) := by
  intro key record hrecord
  unfold Node.writeVote at hrecord
  rw [find?_insert] at hrecord
  split_ifs at hrecord with hk
  swap
  · exact h key record hrecord
  cases hrecord
  subst hk
  have hold : ((((db.find? a.key).getD []).map ExactReplayAttestation.signer).Nodup) ∧
      ∀ b ∈ (db.find? a.key).getD [], b.key = a.key ∧ P b := by
    cases hfind : db.find? a.key with
    | none => simp
    | some record => exact (h _ record hfind).2
  unfold addVote
  split_ifs with hmem
  · refine ⟨?_, hold⟩
    rintro hnil
    simp [hnil] at hmem
  · refine ⟨by simp, ?_, fun b hb => ?_⟩
    · rw [map_append, nodup_append]
      refine ⟨hold.1, nodup_singleton _, fun signer hsigner signer' hsigner' heq => hmem ?_⟩
      rwa [← mem_singleton.1 hsigner', ← heq]
    · rcases mem_append.1 hb with hb | hb
      · exact hold.2 b hb
      · obtain rfl := mem_singleton.1 hb
        exact ⟨rfl, ha⟩

theorem VotesIn.persist (h : VotesIn P db) (hbatch : ∀ a ∈ batch, P a) :
    VotesIn P (persistDurableAttestations db batch) := by
  unfold persistDurableAttestations
  induction batch generalizing db with
  | nil => exact h
  | cons a batch ih =>
    exact ih (h.writeVote (hbatch a mem_cons_self))
      fun b hb => hbatch b (mem_cons_of_mem _ hb)

end AttestationDb

/-! ## Loading and importing -/

section Loading

variable {curve : Curve σ} {now : ℤ} {store store' : AttestationStore σ}
  {hints hints' : AttestationHints}
  {db db' : AttestationDb σ} {P : ExactReplayAttestation σ → Prop}
  {log imported attestations : List (ExactReplayAttestation σ)}
  {records : List (BlockKey × List (ExactReplayAttestation σ))}

theorem addTail_spec (h : addTail curve now store attestations = .ok store')
    (hvotes : store.VotesIn P) (hP : ∀ a ∈ attestations, P a) :
    store'.VotesIn P ∧ store'.config = store.config := by
  refine foldlM_ok_invariant
    (P := fun s : AttestationStore σ => s.VotesIn P ∧ s.config = store.config)
    (fun a ha s s' hs hstep => ?_) ⟨hvotes, rfl⟩ h
  simp only [bind_eq_ok, require_eq_ok, pure_eq_ok] at hstep
  obtain ⟨-, -, rfl⟩ := hstep
  exact ⟨hs.1.add fun _ => hP a ha, config_add.trans hs.2⟩

variable (config : StoreConfig σ)

section

variable (records : List (BlockKey × List (ExactReplayAttestation σ)))

omit [LinearOrder σ] in
theorem trimTail_suffix : trimTail config records <:+ records := by
  induction records with
  | nil => exact suffix_rfl
  | cons r rest ih =>
    unfold trimTail
    split_ifs
    · exact ih.trans (suffix_cons r rest)
    · exact suffix_rfl

omit [LinearOrder σ] in
theorem trimTail_fits :
    (trimTail config records).length ≤ config.maxBlocks ∧
      recordTotal (trimTail config records) ≤ config.maxAttestations := by
  induction records with
  | nil => exact ⟨zero_le, zero_le⟩
  | cons r rest ih =>
    unfold trimTail
    split_ifs with hfull
    · exact ih
    · push Not at hfull
      exact hfull

variable (hints) in
theorem localSigned_noteAccepted (height : ℤ) (hash : Uint256) :
    (hints.noteAccepted height hash).localSigned = hints.localSigned := by
  unfold AttestationHints.noteAccepted
  dsimp only
  split_ifs <;> rfl

omit [LinearOrder σ] in
/-- **The hot tail has records of the database only, in the order of their keys, within the
limits.** -/
theorem hotTail_spec :
    (hotTail config records).Pairwise (fun r r' => r.1 < r'.1) ∧
      (∀ r ∈ hotTail config records, r ∈ records) ∧
      (hotTail config records).length ≤ config.maxBlocks ∧
      recordTotal (hotTail config records) ≤ config.maxAttestations := by
  unfold hotTail
  refine foldlRecOn records _
    (motive := fun tail : List (BlockKey × List (ExactReplayAttestation σ)) =>
      tail.Pairwise (fun r r' => r.1 < r'.1) ∧ (∀ r ∈ tail, r ∈ records) ∧
        tail.length ≤ config.maxBlocks ∧ recordTotal tail ≤ config.maxAttestations)
    ⟨List.Pairwise.nil, by simp, zero_le, zero_le⟩ ?_
  rintro tail ⟨hsorted, hmem, -⟩ r hr
  have hsuffix := trimTail_suffix config (OrderedMap.insertEntry r.1 r.2 tail)
  refine ⟨(insertEntry_sorted hsorted).sublist hsuffix.sublist, fun r' hr' => ?_,
    trimTail_fits config _⟩
  rcases (mem_insertEntry hsorted).1 (hsuffix.subset hr') with rfl | ⟨hr', -⟩
  · exact hr
  · exact hmem r' hr'
end

/-- **A load leaves the votes of the database in the store.** -/
theorem loadDurableAttestations_spec
    (h : loadDurableAttestations curve now records store hints = .ok (store', hints'))
    (hvotes : store.VotesIn P) (hP : ∀ r ∈ records, ∀ a ∈ r.2, P a) :
    store'.VotesIn P ∧ store'.config = store.config ∧
      hints'.localSigned = mergeSigned hints.localSigned
        (collectSigned store.config.localSigner (records.flatMap Prod.snd)) := by
  simp only [loadDurableAttestations, bind_eq_ok, pure_eq_ok, Prod.mk.injEq] at h
  obtain ⟨-, -, store'', htail, rfl, rfl⟩ := h
  have hspec := addTail_spec htail hvotes fun a ha => by
    obtain ⟨r, hr, har⟩ := mem_flatMap.1 ha
    exact hP r ((hotTail_spec store.config records).2.1 r hr) a har
  refine ⟨hspec.1, hspec.2, ?_⟩
  exact foldlRecOn (hotTail store.config records) _
    (motive := fun h' : AttestationHints => h'.localSigned = mergeSigned hints.localSigned
      (collectSigned store.config.localSigner (records.flatMap Prod.snd))) rfl
    fun h' hh' r _ => (localSigned_noteAccepted ..).trans hh'

/-- A valid record is added and counted. -/
theorem importRecord_spec {config : StoreConfig σ} {a : ExactReplayAttestation σ}
    {acc acc' : AttestationStore σ × List (ExactReplayAttestation σ)}
    (h : importRecord curve config now acc a = .ok acc') (hvalid : a.Valid curve config) :
    acc' = ((acc.1.add curve a a.statement.blockHash a.statement.blockHeight now).2,
      acc.2 ++ [a]) := by
  unfold ExactReplayAttestation.Valid at hvalid
  simp only [importRecord, hvalid, bind_eq_ok, require_eq_ok, pure_eq_ok, ne_eq, not_true_eq_false,
    false_and, if_false] at h
  obtain ⟨-, -, -, -, rfl⟩ := h
  rfl

/-- A log of valid records is imported whole, and only its votes are added. -/
theorem importRecords_spec (h : importRecords curve now log store = .ok (store', imported))
    (hvotes : store.VotesIn P) (hP : ∀ a ∈ log, P a)
    (hvalid : ∀ a ∈ log, a.Valid curve store.config) :
    store'.VotesIn P ∧ store'.config = store.config ∧ imported = log := by
  -- generalised over the store and the records that the loop has collected
  have hloop : ∀ (l : List (ExactReplayAttestation σ))
      (acc : AttestationStore σ × List (ExactReplayAttestation σ)), (∀ a ∈ l, a ∈ log) →
      acc.1.VotesIn P → acc.1.config = store.config →
      l.foldlM (importRecord curve store.config now) acc = .ok (store', imported) →
      store'.VotesIn P ∧ store'.config = store.config ∧ imported = acc.2 ++ l := by
    intro l
    induction l with
    | nil =>
      intro acc _ hacc hconfig h
      obtain rfl : acc = (store', imported) := by simpa using h
      exact ⟨hacc, hconfig, by simp⟩
    | cons a l ih =>
      intro acc hl hacc hconfig h
      rw [foldlM_cons, bind_eq_ok] at h
      obtain ⟨acc', hstep, hrest⟩ := h
      have ha := hl a mem_cons_self
      obtain rfl := importRecord_spec hstep (hvalid a ha)
      have hnext := ih _ (fun b hb => hl b (mem_cons_of_mem _ hb))
        (hacc.add fun _ => hP a ha) (config_add.trans hconfig) hrest
      exact ⟨hnext.1, hnext.2.1, by rw [hnext.2.2, append_assoc, singleton_append]⟩
  exact hloop log (store, []) (fun _ ha => ha) hvotes rfl h

/-- **An import writes the records of the log to the database.** -/
theorem importAttestations_spec
    (h : importAttestations curve now log db store hints = .ok (db', store', hints'))
    (hvotes : store.VotesIn P) (hP : ∀ a ∈ log, P a)
    (hvalid : ∀ a ∈ log, a.Valid curve store.config) :
    db' = persistDurableAttestations db log ∧ store'.VotesIn P ∧ store'.config = store.config ∧
      hints'.localSigned = mergeSigned hints.localSigned
        (collectSigned store.config.localSigner log) := by
  simp only [importAttestations, bind_eq_ok, require_eq_ok, pure_eq_ok, Prod.mk.injEq] at h
  obtain ⟨⟨store'', imported⟩, himport, -, -, rfl, rfl, rfl⟩ := h
  obtain ⟨hstore, hconfig, rfl⟩ := importRecords_spec himport hvotes hP hvalid
  exact ⟨rfl, hstore, hconfig, rfl⟩

end Loading

/-! ## The node -/

namespace AttestationNode

/-- The states that a node can reach by steps in a class. -/
inductive Run (env : AttestationEnv σ) (P : AttestationNode σ → Action σ → Prop) :
    AttestationNode σ → Prop
  | start : Run env P (new env)
  | next {s s' : AttestationNode σ} (act : Action σ) :
      Run env P s → P s act → s.step env act = some s' → Run env P s'

/-- **Invariant of a run.** What the first state has and every step of the class keeps. -/
theorem Run.invariant {env : AttestationEnv σ} {P : AttestationNode σ → Action σ → Prop}
    {I : AttestationNode σ → Prop} (hnew : I (new env))
    (hstep : ∀ s s' act, Run env P s → I s → P s act → s.step env act = some s' → I s')
    {s : AttestationNode σ} (h : Run env P s) : I s := by
  induction h with
  | start => exact hnew
  | next act hrun hP hs ih => exact hstep _ _ act hrun ih hP hs

/-- Steps one after the other, each in a class. -/
def runWhere (env : AttestationEnv σ) (p : AttestationNode σ → Action σ → Bool)
    (acts : List (Action σ)) : Option (AttestationNode σ) :=
  acts.foldlM (fun s act => if p s act then s.step env act else none) (new env)

theorem Run.of_runWhere {env : AttestationEnv σ} {p : AttestationNode σ → Action σ → Bool}
    {acts : List (Action σ)} {s : AttestationNode σ} (h : runWhere env p acts = some s) :
    Run env (fun s act => p s act = true) s := by
  have hloop : ∀ (l : List (Action σ)) (t : AttestationNode σ),
      Run env (fun s act => p s act = true) t →
      l.foldlM (fun s act => if p s act then s.step env act else none) t = some s →
      Run env (fun s act => p s act = true) s := by
    intro l
    induction l with
    | nil =>
      intro t ht hs
      obtain rfl : t = s := by simpa using hs
      exact ht
    | cons act l ih =>
      intro t ht hs
      rw [foldlM_cons, bind_eq_bind, bind_eq_some_iff] at hs
      obtain ⟨t', hstep, hrest⟩ := hs
      split_ifs at hstep with hp
      exact ih t' (ht.next act hp hstep) hrest
  exact hloop acts (new env) Run.start h

/-- What a node holds was accepted, and its phases go together. -/
structure WellFormed (env : AttestationEnv σ) (s : AttestationNode σ) : Prop where
  config : s.store.config = env.config
  booting : s.booting = true → s.callers = [] ∧ s.enabled = false ∧ s.worker = .stopped
  opening : s.phase = .loaded ∨ s.phase = .imported → s.worker = .stopped
  accepted : ∀ a ∈ s.accepted, a.Valid env.curve env.config
  callers : ∀ c ∈ s.callers, ∀ a ∈ c.vote, a ∈ s.accepted
  pending : ∀ a ∈ s.pending, a ∈ s.accepted
  batch : ∀ a ∈ s.worker.batch, a ∈ s.accepted
  wal : ∀ a ∈ s.wal, a ∈ s.accepted
  db : AttestationDb.VotesIn (· ∈ s.accepted) s.db
  store : s.store.VotesIn (· ∈ s.accepted)

section Steps

variable {env : AttestationEnv σ} {s s' : AttestationNode σ} {a : ExactReplayAttestation σ}
  {hash : Uint256} {height now : ℤ} {i : ℕ} {ok : Bool} {act : Action σ}
  {next : Option (CallerPhase σ)} {c c' : CallerPhase σ}

theorem mem_setCaller (h : c ∈ (s.setCaller i next).callers) : c ∈ s.callers ∨ next = some c := by
  cases next with
  | some phase =>
    rcases mem_or_eq_of_mem_set h with h | rfl
    · exact .inl h
    · exact .inr rfl
  | none => exact .inl (mem_of_mem_eraseIdx h)

theorem mem_setCaller_of_mem (hc' : c' ∈ s.callers) (hc : s.callers[i]? = some c)
    (next : Option (CallerPhase σ)) :
    c' ∈ (s.setCaller i next).callers ∨ c' = c := by
  obtain ⟨j, hj⟩ := mem_iff_getElem?.1 hc'
  by_cases hij : j = i
  · subst hij
    exact .inr (some.inj (hj.symm.trans hc))
  · refine .inl ?_
    cases next with
    | some phase =>
      refine mem_iff_getElem?.2 ⟨j, ?_⟩
      rw [← hj]
      exact getElem?_set_ne (Ne.symm hij)
    | none => exact mem_eraseIdx_iff_getElem?.2 ⟨j, hij, hj⟩

theorem next_mem_setCaller (hc : s.callers[i]? = some c) (hnext : next = some c') :
    c' ∈ (s.setCaller i next).callers := by
  subst hnext
  exact mem_set (List.getElem?_eq_some_iff.1 hc).1 c'

theorem valid_of_addToStore (hconfig : s.store.config = env.config)
    (h : (s.addToStore env a hash height now).1 = .accepted ∨
      (s.addToStore env a hash height now).1 = .duplicate) :
    a.Valid env.curve env.config ∧ a.statement.blockHash = hash ∧
      a.statement.blockHeight = height ∧ 0 ≤ height := by
  have hvalid := valid_of_add h
  rw [hconfig] at hvalid
  obtain ⟨hhash, hheight, hpos, -⟩ := verifyAttestation_valid hvalid
  exact ⟨by rwa [ExactReplayAttestation.Valid, hhash, hheight], hhash, hheight, hpos⟩

theorem mem_accepted_of_addToStore (h : (s.addToStore env a hash height now).1 = .accepted) :
    a ∈ (s.addToStore env a hash height now).2.accepted := by
  change a ∈ if (s.addToStore env a hash height now).1 = .accepted then s.accepted ++ [a]
    else s.accepted
  simp [h]

theorem mem_accepted_of_flag {b : ExactReplayAttestation σ}
    (h : b ∈ if decide ((s.addToStore env a hash height now).1 = .accepted) then some a else none) :
    b ∈ (s.addToStore env a hash height now).2.accepted := by
  split_ifs at h with hflag
  · exact some.inj h ▸ mem_accepted_of_addToStore (of_decide_eq_true hflag)
  · cases h

theorem mem_accepted_addToStore {b : ExactReplayAttestation σ}
    (hb : b ∈ (s.addToStore env a hash height now).2.accepted) :
    b ∈ s.accepted ∨ (b = a ∧ (s.addToStore env a hash height now).1 = .accepted) := by
  change b ∈ if (s.addToStore env a hash height now).1 = .accepted then s.accepted ++ [a]
    else s.accepted at hb
  split_ifs at hb with hacc
  · rcases mem_append.1 hb with hb | hb
    · exact .inl hb
    · exact .inr ⟨mem_singleton.1 hb, hacc⟩
  · exact .inl hb

variable (env) in
theorem accepted_addToStore (s : AttestationNode σ)
    (a : ExactReplayAttestation σ) (hash : Uint256) (height now : ℤ) :
    s.accepted ⊆ (s.addToStore env a hash height now).2.accepted := by
  intro b hb
  change b ∈ if (s.addToStore env a hash height now).1 = .accepted then s.accepted ++ [a]
    else s.accepted
  split_ifs
  · exact mem_append_left _ hb
  · exact hb

section

variable (h : s.WellFormed env)

include h

variable (a) in
theorem WellFormed.addToStore (hash : Uint256) (height now : ℤ) :
    (s.addToStore env a hash height now).2.WellFormed env := by
  have hsub := accepted_addToStore env s a hash height now
  refine
    { config := config_add.trans h.config
      booting := h.booting
      opening := h.opening
      accepted := ?_
      callers := fun c hc b hb => hsub (h.callers c hc b hb)
      pending := fun b hb => hsub (h.pending b hb)
      batch := fun b hb => hsub (h.batch b hb)
      wal := fun b hb => hsub (h.wal b hb)
      db := h.db.mono fun b hb => hsub hb
      store := (h.store.mono fun b hb => hsub hb).add mem_accepted_of_addToStore }
  intro b hb
  rcases mem_accepted_addToStore hb with hb | ⟨rfl, hacc⟩
  · exact h.accepted b hb
  · exact (valid_of_addToStore h.config (.inl hacc)).1

theorem WellFormed.setCaller (hbooting : s.booting = false)
    (hnext : ∀ c, next = some c → ∀ a ∈ c.vote, a ∈ s.accepted) :
    (s.setCaller i next).WellFormed env := by
  have hcallers : ∀ c ∈ (s.setCaller i next).callers, ∀ a ∈ c.vote, a ∈ s.accepted := by
    intro c hc
    rcases mem_setCaller hc with hc | hc
    · exact h.callers c hc
    · exact hnext c hc
  cases next with
  | some phase | none =>
    exact
      { h with
        callers := hcallers
        booting := fun hb => absurd (hbooting.symm.trans hb) Bool.false_ne_true }

theorem WellFormed.persistAfterMutation (ha : a ∈ s.accepted) :
    (s.persistAfterMutation a).WellFormed env := by
  unfold AttestationNode.persistAfterMutation
  split_ifs
  · refine { h with pending := fun b hb => ?_ }
    rcases mem_append.1 hb with hb | hb
    · exact h.pending b hb
    · exact mem_singleton.1 hb ▸ ha
  · exact h

theorem WellFormed.resetWal : ({ s with wal := [] } : AttestationNode σ).WellFormed env :=
  { h with wal := by simp }

theorem WellFormed.not_booting (hc : s.callers[i]? = some c) : s.booting = false := by
  by_contra hb
  rw [(h.booting (by simpa using hb)).1] at hc
  simp at hc

/-- **Every step of a caller keeps what the node holds accepted.** -/
theorem WellFormed.advance (hc : s.callers[i]? = some c)
    (hs : s.advance env i now ok c = some s') : s'.WellFormed env := by
  have hvote := h.callers c (mem_of_getElem? hc)
  have hbooting := h.not_booting hc
  cases c with
  | addStored a accepted | signNoted a accepted =>
    cases hs
    refine WellFormed.setCaller { h with } hbooting fun c hc => ?_
    cases accepted with
    | true => exact some.inj hc ▸ hvote
    | false => cases hc
  | addNoted a | signMarked a =>
    cases hs
    have hp := h.persistAfterMutation (hvote a rfl)
    exact hp.setCaller
      (by unfold AttestationNode.persistAfterMutation; split_ifs <;> exact hbooting)
      (by simp)
  | signChecked hash height =>
    simp only [AttestationNode.advance] at hs
    split at hs
    on_goal 2 => split_ifs at hs
    all_goals exact some.inj hs ▸ h.setCaller hbooting (by rintro _ ⟨⟩ <;> simp [vote])
  | signCleared hash height =>
    simp only [AttestationNode.advance] at hs
    split at hs
    · next localSigner signature _ _ =>
      split_ifs at hs with hresult
      · cases hs
        have hadd := h.addToStore ⟨statementFor env hash height, localSigner, signature⟩ hash height
          now
        refine WellFormed.setCaller { hadd with } hbooting ?_
        rintro _ ⟨⟩ a ha
        rw [vote_signStored] at ha
        exact mem_accepted_of_flag ha
      · cases hs
        exact (h.addToStore _ _ _ _).setCaller hbooting (by simp)
    · exact some.inj hs ▸ h.setCaller hbooting (by simp)
  | signStored a accepted =>
    cases hs
    refine WellFormed.setCaller { h with } hbooting fun c hc => ?_
    cases accepted with
    | true => exact some.inj hc ▸ hvote
    | false => exact some.inj hc ▸ (by simp [vote])
  | flushWaiting target | closeWaiting target =>
    simp only [AttestationNode.advance] at hs
    split_ifs at hs
    all_goals exact some.inj hs ▸ h.setCaller hbooting (by rintro _ ⟨⟩ <;> simp [vote])
  | flushChecked | closeChecked =>
    simp only [AttestationNode.advance] at hs
    split_ifs at hs
    · exact some.inj hs ▸ h.resetWal.setCaller hbooting
        (by rintro _ ⟨⟩ <;> simp [vote])
    · exact some.inj hs ▸ h.setCaller hbooting (by rintro _ ⟨⟩ <;> simp [vote])
  | closeStopping =>
    simp only [AttestationNode.advance] at hs
    split_ifs at hs
    · exact some.inj hs ▸ WellFormed.setCaller { h with opening := by simp } hbooting (by simp)
    · exact some.inj hs ▸ { h with }

theorem WellFormed.addCaller (hbooting : s.booting = false) (hvote : ∀ a ∈ c.vote, a ∈ s.accepted) :
    ({ s with callers := s.callers ++ [c] } : AttestationNode σ).WellFormed env := by
  refine
    { h with
      booting := fun hb => absurd (hbooting.symm.trans hb) Bool.false_ne_true
      callers := fun c' hc' => ?_ }
  rcases mem_append.1 hc' with hc' | hc'
  · exact h.callers c' hc'
  · exact mem_singleton.1 hc' ▸ hvote

theorem WellFormed.load (hs : s.step env (.load now) = some s') : s'.WellFormed env := by
  obtain ⟨-, hworker, store, hints, hload, rfl⟩ := step_load hs
  have hspec := loadDurableAttestations_spec (P := (· ∈ s.accepted)) hload h.store
    fun r hr a ha => by
      have hmem := find?_eq_some_iff.2 ((env.cursor_perm s.db).mem_iff.1 hr)
      exact ((h.db r.1 r.2 hmem).2.2 a ha).2
  exact
    { h with
      config := hspec.2.1.trans h.config
      opening := fun _ => hworker
      store := hspec.1 }

/-- What the import leaves in the database, the store and the hints. -/
theorem WellFormed.import_spec {db : AttestationDb σ}
    {store : AttestationStore σ} {hints : AttestationHints}
    (himport : importAttestations env.curve now s.wal s.db s.store s.hints =
      .ok (db, store, hints)) :
    db = persistDurableAttestations s.db s.wal ∧ store.VotesIn (· ∈ s.accepted) ∧
      store.config = env.config ∧
      hints.localSigned = mergeSigned s.hints.localSigned
        (collectSigned env.config.localSigner s.wal) := by
  obtain ⟨hdb, hstore, hconfig, hsigned⟩ := importAttestations_spec himport h.store h.wal
    fun a ha => h.config ▸ h.accepted a (h.wal a ha)
  exact ⟨hdb, hstore, hconfig.trans h.config, h.config ▸ hsigned⟩

theorem WellFormed.importLog (hs : s.step env (.importLog now ok) = some s') :
    s'.WellFormed env := by
  obtain ⟨hphase, db, store, hints, himport, ⟨-, rfl⟩ | ⟨-, rfl⟩⟩ := step_importLog hs
  · obtain ⟨rfl, hstore, hconfig, -⟩ := h.import_spec himport
    exact
      { h with
        config := hconfig
        opening := fun _ => h.opening (.inl hphase)
        db := h.db.persist h.wal
        store := hstore }
  · obtain ⟨-, hstore, hconfig, -⟩ := h.import_spec himport
    exact { h with config := hconfig, opening := by simp, store := hstore }

theorem WellFormed.setWorker (hworker : s.worker ≠ .stopped)
    (w : WorkerPhase σ) (hw : ∀ a ∈ w.batch, a ∈ s.accepted) :
    ({ s with worker := w } : AttestationNode σ).WellFormed env :=
  { h with
    booting := fun hb => absurd (h.booting hb).2.2 hworker
    opening := fun ho => absurd (h.opening ho) hworker
    batch := hw }

/-- **Every step keeps what the node holds accepted.** -/
theorem WellFormed.step (hs : s.step env act = some s') : s'.WellFormed env := by
  cases act with
  | add a hash height now =>
    obtain ⟨hbooting, ⟨-, rfl⟩ | ⟨-, rfl⟩⟩ := step_add hs
    all_goals have hadd := h.addToStore a hash height now
    · refine WellFormed.addCaller hadd hbooting fun b hb => ?_
      rw [vote_addStored] at hb
      exact mem_accepted_of_flag hb
    · exact hadd
  | signStart hash height =>
    obtain ⟨hbooting, ⟨-, rfl⟩ | ⟨-, rfl⟩⟩ := step_signStart hs
    · exact h
    · exact h.addCaller hbooting (by simp [vote])
  | flushStart =>
    rcases step_flushStart hs with ⟨henabled, rfl⟩ | rfl
    · have hbooting : s.booting = false := by
        by_contra hb
        simp [(h.booting (by simpa using hb)).2.1] at henabled
      exact h.addCaller hbooting (by simp [vote])
    · exact h
  | closeStart =>
    obtain ⟨hbooting, rfl⟩ := step_closeStart hs
    have hdisabled : ({ s with enabled := false } : AttestationNode σ).WellFormed env :=
      { h with booting := fun hb => absurd (hbooting.symm.trans hb) Bool.false_ne_true }
    refine hdisabled.addCaller hbooting ?_
    split_ifs <;> simp [vote]
  | advance i now ok =>
    obtain ⟨c, hc, hs⟩ := step_advance hs
    exact h.advance hc hs
  | erase hash height =>
    cases hs
    exact
      { h with
        config := config_erase.trans h.config
        store := h.store.of_find? fun _ _ => find?_of_erase }
  | expire now =>
    cases hs
    exact
      { h with
        config := (config_pruneExpiredLocked _ _).trans h.config
        store := h.store.of_find? fun _ _ => find?_of_pruneExpiredLocked }
  | take =>
    obtain ⟨hworker, -, rfl⟩ := step_take hs
    have hw := h.setWorker (by simp [hworker]) (.took (s.pending.take persistBatchMax))
      fun a ha => h.pending a (mem_of_mem_take ha)
    exact { hw with pending := fun a ha => h.pending a (mem_of_mem_drop ha) }
  | append ok =>
    obtain ⟨batch, hworker, -, ⟨-, rfl⟩ | ⟨-, rfl⟩⟩ := step_append hs
    · have hbatch : ∀ a ∈ batch, a ∈ s.accepted := fun a ha => h.batch a (by rwa [hworker])
      have hw := h.setWorker (by simp [hworker]) (.appended batch) hbatch
      refine { hw with wal := fun a ha => ?_ }
      exact (mem_append.1 ha).elim (h.wal a) (hbatch a)
    · exact h.setWorker (by simp [hworker]) _ (by simp [WorkerPhase.batch])
  | sync ok =>
    obtain ⟨batch, hworker, ⟨-, rfl⟩ | ⟨-, rfl⟩⟩ := step_sync hs
    · have hw := h.setWorker (by simp [hworker]) (.synced batch) (by simp [WorkerPhase.batch])
      exact { hw with db := h.db.persist fun a ha => h.batch a (by rwa [hworker]) }
    · have hw := h.setWorker (by simp [hworker]) (.finished batch.length false)
        (by simp [WorkerPhase.batch])
      exact { hw with }
  | reset ok =>
    obtain ⟨batch, hworker, rfl⟩ := step_reset hs
    have hw := h.setWorker (by simp [hworker]) (.finished batch.length ok)
      (by simp [WorkerPhase.batch])
    cases ok with
    | true => exact { hw with wal := by simp }
    | false => exact hw
  | report =>
    obtain ⟨size, ok, hworker, rfl⟩ := step_report hs
    have hw := h.setWorker (by simp [hworker]) (if ok then .idle else .stopped)
      (by cases ok <;> simp [WorkerPhase.batch])
    exact { hw with }
  | exit =>
    obtain ⟨hworker, -, -, rfl⟩ := step_exit hs
    exact h.setWorker (by simp [hworker]) _ (by simp [WorkerPhase.batch])
  | load now => exact h.load hs
  | importLog now ok => exact h.importLog hs
  | openReset ok =>
    obtain ⟨hphase, ⟨-, rfl⟩ | ⟨-, rfl⟩⟩ := step_openReset hs
    · exact
        { h with
          booting := by simp
          opening := by simp
          pending := by simp
          batch := by simp [WorkerPhase.batch]
          wal := by simp }
    · exact { h with opening := by simp }
  | crash =>
    cases hs
    exact
      { h with
        config := rfl
        booting := fun _ => ⟨rfl, rfl, rfl⟩
        opening := fun _ => rfl
        callers := by simp [crashed, new]
        pending := by simp [crashed, new]
        batch := by simp [crashed, new, WorkerPhase.batch]
        store := by simp [crashed, new, AttestationStore.VotesIn] }

end

/-- **In every run, whatever a node holds was accepted by its store.** -/
theorem Run.wellFormed {P : AttestationNode σ → Action σ → Prop} (h : Run env P s) :
    s.WellFormed env := by
  refine h.invariant ?_ fun _ _ _ _ hs _ hstep => hs.step hstep
  exact
    { config := rfl
      booting := fun _ => ⟨rfl, rfl, rfl⟩
      opening := fun _ => rfl
      accepted := by simp [new]
      callers := by simp [new]
      pending := by simp [new]
      batch := by simp [new, WorkerPhase.batch]
      wal := by simp [new]
      db := by simp [new, AttestationDb.VotesIn]
      store := by simp [new, AttestationStore.VotesIn] }

end Steps

/-! ## A sample -/

def sampleEnv : AttestationEnv ℕ where
  curve := AttestationStore.sampleCurve
  config := AttestationStore.sampleConfig
  sign _ := some [0x30, 6, 2, 1, 1, 2, 1, 1]
  cursor db := db.entries
  cursor_perm _ := List.Perm.refl _

/-- The steps of `OpenPersistence`. -/
def openActs : List (Action ℕ) := [.load 0, .importLog 0 true, .openReset true]

end AttestationNode

end Btx.Node
