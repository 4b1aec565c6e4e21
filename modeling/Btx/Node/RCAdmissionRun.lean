/-
# Runs of the admission store

What every run at non-decreasing times keeps (`admission_invariants`). A ticket is meant to be
single-use, and the store does not see to that: `consume` remembers nothing, and a ticket that waits
validated can be put into quarantine as well (`spent_at_most_once`).
-/

import Btx.Node.RCAdmission

namespace Btx.Node

open Util Net OrderedMap Tier Option List

namespace RCAdmissionStore

variable {β : Type} {env : AdmissionEnv β}

/-! ## Calls -/

/-- The calls of a store. -/
inductive Call (β : Type)
  | remember (ticket : RCAdmissionTicket) (netgroup : ℕ)
  | rememberKnown (ticket : RCAdmissionTicket) (header : CBlockHeader β) (netgroup powLimit : ℕ)
  | consume (header : CBlockHeader β) (netgroup powLimit : ℕ)
  | restoreConsumed (ticket : RCAdmissionTicket) (header : CBlockHeader β) (netgroup powLimit : ℕ)
  | erase (hash : Uint256)
  | prune
  | clear

/-- What a call returns. -/
inductive Reply
  | remembered (result : RememberResult)
  | consumed (ticket : Option RCAdmissionTicket)
  | restored (ok : Bool)
  | done
  deriving DecidableEq

/-- One call at a time. -/
def step (env : AdmissionEnv β) (s : RCAdmissionStore) (now : ℤ) : Call β → Reply × RCAdmissionStore
  | .remember ticket g => (s.remember ticket g now).map .remembered id
  | .rememberKnown ticket header g powLimit =>
      (s.rememberKnown env ticket header g powLimit now).map .remembered id
  | .consume header g powLimit => (s.consume env header g powLimit now).map .consumed id
  | .restoreConsumed ticket header g powLimit =>
      (s.restoreConsumed env ticket header g powLimit now).map .restored id
  | .erase hash => (.done, s.erase hash)
  | .prune => (.done, s.prune now)
  | .clear => (.done, s.clear)

/-- A run of calls in a class, at times that do not decrease, from a store and a time to a store
and the time of the last call. -/
inductive Run (env : AdmissionEnv β) (P : Call β → Prop) (s : RCAdmissionStore) (t : ℤ) :
    RCAdmissionStore → ℤ → Prop
  | refl : Run env P s t s t
  | call {s' : RCAdmissionStore} {t' : ℤ} (now : ℤ) (c : Call β) :
      Run env P s t s' t' → t' ≤ now → P c → Run env P s t (s'.step env now c).2 now

/-- The stores that a run of any calls reaches. -/
def Reachable (env : AdmissionEnv β) (config : AdmissionConfig) (s : RCAdmissionStore)
    (t : ℤ) : Prop :=
  ∃ t₀, Run env (fun _ => True) (new config) t₀ s t

/-! ## The invariant -/

/-- Exact counters, and everything within its limits. -/
structure Valid (config : AdmissionConfig) (s : RCAdmissionStore) : Prop where
  config_eq : s.config = config.atLeastOne
  validated_exact : s.validated.Exact
  unknown_exact : s.unknown.Exact
  validated_within : s.validated.Within config.atLeastOne.validatedLimits
  unknown_within : s.unknown.Within config.atLeastOne.unknownLimits
  history : ∀ g times, s.unknownSubmissionHistory.find? g = some times →
    times.length ≤ config.atLeastOne.maxUnknownSubmissionsPerNetgroup

section Invariant

variable {config : AdmissionConfig} {s s' : RCAdmissionStore} {now : ℤ}
  {ticket : RCAdmissionTicket} {header : CBlockHeader β} {g powLimit : ℕ}

theorem exact_empty : ({} : Tier).Exact := ⟨fun _ => rfl, fun _ => rfl⟩

theorem within_empty (l : Tier.Limits) : ({} : Tier).Within l :=
  ⟨zero_le, fun _ => zero_le, fun _ => zero_le⟩

variable (config) in
theorem valid_new : Valid config (new config) :=
  ⟨rfl, exact_empty, exact_empty, within_empty _, within_empty _, by simp [new]⟩

section

variable (h : Valid config s)

include h

theorem Valid.of_shrinks (hconfig : s'.config = s.config)
    (hvalidated : s'.validated.Shrinks s.validated) (hunknown : s'.unknown.Shrinks s.unknown)
    (hhistory : ∀ g times, s'.unknownSubmissionHistory.find? g = some times →
      times.length ≤ config.atLeastOne.maxUnknownSubmissionsPerNetgroup) : Valid config s' where
  config_eq := hconfig.trans h.config_eq
  validated_exact := hvalidated.exact h.validated_exact
  unknown_exact := hunknown.exact h.unknown_exact
  validated_within := h.validated_within.of_shrinks hvalidated
  unknown_within := h.unknown_within.of_shrinks hunknown
  history := hhistory

theorem Valid.pruneSubmissionHistory {times : List ℤ}
    (ht : (s.pruneSubmissionHistory now).find? g = some times) :
    times.length ≤ config.atLeastOne.maxUnknownSubmissionsPerNetgroup := by
  unfold RCAdmissionStore.pruneSubmissionHistory at ht
  revert g times
  refine foldlRecOn s.unknownSubmissionHistory.entries _ (motive := fun history =>
    ∀ {g : ℕ} {times : List ℤ}, OrderedMap.find? history g = some times →
      times.length ≤ config.atLeastOne.maxUnknownSubmissionsPerNetgroup) (h.history _ _) ?_
  intro history hhistory e he g times ht
  dsimp only at ht
  split_ifs at ht
  · rw [find?_erase] at ht
    split_ifs at ht
    exact hhistory ht
  · rw [find?_insert] at ht
    split_ifs at ht with hg
    · cases ht
      exact (length_filter_le _ _).trans (h.history _ _ (find?_eq_some_iff.2 he))
    · exact hhistory ht

theorem Valid.prune (now : ℤ) : Valid config (s.prune now) :=
  h.of_shrinks rfl (shrinks_eraseWhere s.validated fun _ e => s.expired now e)
    (shrinks_eraseWhere s.unknown fun _ e => s.expired now e)
    fun _ _ ht => h.pruneSubmissionHistory ht

theorem Valid.insertHistory (g : ℕ) (times : List ℤ)
    (htimes : times.length ≤ config.atLeastOne.maxUnknownSubmissionsPerNetgroup) :
    Valid config { s with
      unknownSubmissionHistory := s.unknownSubmissionHistory.insert g times } := by
  refine h.of_shrinks rfl (.refl _) (.refl _) fun g' times' ht => ?_
  dsimp only at ht
  rw [find?_insert] at ht
  split_ifs at ht
  · cases ht
    exact htimes
  · exact h.history _ _ ht

theorem Valid.submissions_length :
    ((s.unknownSubmissionHistory.find? g).getD []).length ≤
      config.atLeastOne.maxUnknownSubmissionsPerNetgroup := by
  cases ht : s.unknownSubmissionHistory.find? g with
  | none => exact zero_le
  | some times => exact h.history g times ht

theorem Valid.remember : Valid config (s.remember ticket g now).2 := by
  have hs := h.prune now
  unfold RCAdmissionStore.remember
  generalize s.prune now = s at hs ⊢
  dsimp only
  split_ifs with hglobal hhash hrate hdup hnetgroup
  · exact hs
  · exact hs
  · exact hs.insertHistory _ _ hs.submissions_length
  · exact hs.insertHistory _ _ (by rw [hs.config_eq] at hrate; simp; omega)
  · exact hs.insertHistory _ _ (by rw [hs.config_eq] at hrate; simp; omega)
  · have hcharged : Valid config _ :=
      hs.insertHistory g ((s.unknownSubmissionHistory.find? g).getD [] ++ [now])
        (by rw [hs.config_eq] at hrate; simp; omega)
    rw [hs.config_eq] at hglobal hhash hnetgroup
    have hkey := not_contains_iff.1 (Bool.eq_false_of_not_eq_true hdup)
    have hroom : s.unknown.hashCounts.countOf ticket.blockHash <
        config.atLeastOne.maxUnknownCandidatesPerHash := by
      rw [← not_le]
      exact fun hle => hhash ⟨hle, Bool.eq_false_of_not_eq_true hdup⟩
    exact { hcharged with
      unknown_exact := hs.unknown_exact.emplace hkey
      unknown_within := hs.unknown_within.emplace hs.unknown_exact hkey (not_le.1 hglobal)
        (not_le.1 hnetgroup) hroom }

theorem Valid.rememberKnown :
    Valid config (s.rememberKnown env ticket header g powLimit now).2 := by
  have hs := h.prune now
  unfold RCAdmissionStore.rememberKnown
  generalize s.prune now = s at hs ⊢
  dsimp only
  split_ifs with hinvalid hdup hhash hglobal hnetgroup
  · exact hs
  · exact hs
  · exact hs
  · exact hs
  · exact hs
  · rw [hs.config_eq] at hhash hglobal hnetgroup
    have hkey := not_contains_iff.1 (Bool.eq_false_of_not_eq_true hdup)
    have herase := shrinks_eraseIterator s.unknown (entryKey (env.getHash header) g)
    exact { hs with
      unknown_exact := herase.exact hs.unknown_exact
      unknown_within := hs.unknown_within.of_shrinks herase
      validated_exact := hs.validated_exact.emplace hkey
      validated_within := hs.validated_within.emplace hs.validated_exact hkey (not_le.1 hglobal)
        (not_le.1 hnetgroup) (not_le.1 hhash) }

theorem Valid.consume : Valid config (s.consume env header g powLimit now).2 := by
  have hs := h.prune now
  unfold RCAdmissionStore.consume
  generalize s.prune now = s at hs ⊢
  dsimp only
  split
  · exact hs.of_shrinks rfl (shrinks_eraseIterator _ _) (.refl _) hs.history
  · split
    · exact hs
    · exact hs.of_shrinks rfl (.refl _) (shrinks_eraseIterator _ _) hs.history

/-- The three evictions succeed in turn and leave room at each limit. -/
theorem Valid.rooms (hash : Uint256) (g : ℕ) :
    ∃ byHash byNetgroup byAge : Tier,
      s.validated.makeRoom (fun t => t.hashCounts.countOf hash)
        s.config.maxValidatedCandidatesPerHash (fun k => k.hash = hash) = (true, byHash) ∧
      byHash.makeRoom (fun t => t.netgroupCounts.countOf g)
        s.config.maxEntriesPerNetgroup (fun k => k.netgroup = g) = (true, byNetgroup) ∧
      byNetgroup.makeRoom (fun t => t.entries.size) s.config.maxEntries (fun _ => true) =
        (true, byAge) ∧
      byAge.Shrinks s.validated ∧ byAge.entries.size < s.config.maxEntries ∧
      byAge.netgroupCounts.countOf g < s.config.maxEntriesPerNetgroup ∧
      byAge.hashCounts.countOf hash < s.config.maxValidatedCandidatesPerHash := by
  have hexact := h.validated_exact
  have hlimits : 1 ≤ s.config.maxValidatedCandidatesPerHash ∧ 1 ≤ s.config.maxEntriesPerNetgroup ∧
      1 ≤ s.config.maxEntries := by
    rw [h.config_eq]
    exact ⟨le_max_left _ _, le_max_left _ _, le_max_left _ _⟩
  obtain ⟨byHash, hroom₁, hsub₁, hlt₁⟩ := makeRoom_succeeds
    (fun t => t.hashCounts.countOf hash) _ (fun k => k.hash = hash)
    (fun t ht => by simp [ht.hash, Tier.ofHash]) hlimits.1 hexact
  obtain ⟨byNetgroup, hroom₂, hsub₂, hlt₂⟩ := makeRoom_succeeds
    (fun t => t.netgroupCounts.countOf g) _ (fun k => k.netgroup = g)
    (fun t ht => by simp [ht.netgroup, Tier.ofNetgroup]) hlimits.2.1 (hsub₁.exact hexact)
  have hexact₂ := (hsub₂.trans hsub₁).exact hexact
  obtain ⟨byAge, hroom₃, hsub₃, hlt₃⟩ := makeRoom_succeeds (fun t => t.entries.size) _
    (fun _ => true) (fun t _ => by simp [size_eq_total]) hlimits.2.2 hexact₂
  -- a later loop only lowers what an earlier one has brought below its limit
  exact ⟨byHash, byNetgroup, byAge, hroom₁, hroom₂, hroom₃, hsub₃.trans (hsub₂.trans hsub₁), hlt₃,
    (hsub₃.countOf_netgroup_le hexact₂ g).trans_lt hlt₂,
    ((hsub₃.trans hsub₂).countOf_hash_le (hsub₁.exact hexact) hash).trans_lt hlt₁⟩

end

theorem blockHash_of_check (hcheck : checkRCAdmissionTicket env ticket header powLimit) :
    ticket.blockHash = env.getHash header := by
  by_contra hne
  simp [checkRCAdmissionTicket, hne] at hcheck

/-- **A rollback of a checked ticket succeeds.** Either the netgroup has an entry for the hash, and
nothing changes, or there is none and room is made for one. -/
theorem Valid.restoreConsumed_eq (h : Valid config s) (g : ℕ) (now : ℤ)
    (hcheck : checkRCAdmissionTicket env ticket header powLimit) :
    ((∃ e, (s.prune now).validated.entries.find? (entryKey (env.getHash header) g) = some e) ∧
        s.restoreConsumed env ticket header g powLimit now = (true, s.prune now) ∨
      ∃ t : Tier, t.Shrinks (s.prune now).validated ∧
        (s.prune now).validated.entries.find? (entryKey (env.getHash header) g) = none ∧
        t.entries.find? (entryKey (env.getHash header) g) = none ∧
        t.entries.size < s.config.maxEntries ∧
        t.netgroupCounts.countOf g < s.config.maxEntriesPerNetgroup ∧
        t.hashCounts.countOf (env.getHash header) < s.config.maxValidatedCandidatesPerHash ∧
        s.restoreConsumed env ticket header g powLimit now = (true, { s.prune now with
          validated := t.emplace (entryKey (env.getHash header) g) ⟨ticket, now⟩ })) := by
  have hhash := blockHash_of_check hcheck
  obtain ⟨byHash, byNetgroup, byAge, hroom₁, hroom₂, hroom₃, hsub, hsize, hnetgroup, hcount⟩ :=
    (h.prune now).rooms (env.getHash header) g
  unfold restoreConsumed
  dsimp only
  rw [if_neg (by simp [hhash, hcheck])]
  split_ifs with hdup hf₁ hf₂ hf₃
  · exact .inl ⟨contains_iff.1 hdup, rfl⟩
  · simp [hroom₁] at hf₁
  · simp [hroom₁, hroom₂] at hf₂
  · simp [hroom₁, hroom₂, hroom₃] at hf₃
  · have hkey := not_contains_iff.1 (Bool.eq_false_of_not_eq_true hdup)
    refine .inr ⟨byAge, hsub, hkey, ?_, hsize, hnetgroup, hcount, by rw [hroom₁, hroom₂, hroom₃]⟩
    rw [find?_eq_none_iff]
    exact fun e he => find?_eq_none_iff.1 hkey e (hsub.subset he)

/-- **What a rollback leaves** for the netgroup: the entry that waits, else the ticket. -/
theorem Valid.restoreConsumed_find? (h : Valid config s) (g : ℕ) (now : ℤ)
    (hcheck : checkRCAdmissionTicket env ticket header powLimit) :
    (s.restoreConsumed env ticket header g powLimit now).2.validated.entries.find?
        (entryKey (env.getHash header) g) =
      some (((s.prune now).validated.entries.find? (entryKey (env.getHash header) g)).getD
        ⟨ticket, now⟩) := by
  rcases h.restoreConsumed_eq g now hcheck with ⟨⟨e, hk⟩, heq⟩ | ⟨t, -, hk, -, -, -, -, heq⟩
  · rw [heq, hk, Option.getD_some]
  · rw [heq, hk, Option.getD_none]
    exact find?_insert_self

theorem Valid.restoreConsumed (h : Valid config s) :
    Valid config (s.restoreConsumed env ticket header g powLimit now).2 := by
  have hs := h.prune now
  cases hcheck : checkRCAdmissionTicket env ticket header powLimit with
  | false =>
    unfold RCAdmissionStore.restoreConsumed
    dsimp only
    rwa [if_pos (by simp [hcheck])]
  | true =>
    rcases h.restoreConsumed_eq g now hcheck with
      ⟨-, heq⟩ | ⟨t, hsub, -, hkey, hsize, hnetgroup, hcount, heq⟩
    · rwa [heq]
    · rw [heq]
      rw [h.config_eq] at hsize hnetgroup hcount
      exact { hs with
        validated_exact := (hsub.exact hs.validated_exact).emplace hkey
        validated_within := (hs.validated_within.of_shrinks hsub).emplace
          (hsub.exact hs.validated_exact) hkey hsize hnetgroup hcount }

/-- One call keeps the store within its limits. -/
theorem Valid.step (h : Valid config s) (c : Call β) : Valid config (s.step env now c).2 := by
  cases c with
  | remember ticket g => exact h.remember
  | rememberKnown ticket header g powLimit => exact h.rememberKnown
  | consume header g powLimit => exact h.consume
  | restoreConsumed ticket header g powLimit => exact h.restoreConsumed
  | erase hash =>
    exact h.of_shrinks rfl (shrinks_eraseWhere s.validated fun k _ => k.hash = hash)
      (shrinks_eraseWhere s.unknown fun k _ => k.hash = hash) h.history
  | prune => exact h.prune now
  | clear =>
    exact ⟨h.config_eq, exact_empty, exact_empty, within_empty _, within_empty _,
      by simp [RCAdmissionStore.step, RCAdmissionStore.clear]⟩

theorem Reachable.valid {t : ℤ} (h : Reachable env config s t) : Valid config s := by
  obtain ⟨t₀, hrun⟩ := h
  induction hrun with
  | refl => exact valid_new config
  | call now c _ _ _ ih => exact ih.step c

end Invariant

/-! ## Isolation of netgroups -/

/-- `Remember`, `RememberKnown` and `Consume` by another netgroup. -/
def Call.ByOther (g : ℕ) : Call β → Prop
  | .remember _ g' => g' ≠ g
  | .rememberKnown _ _ g' _ => g' ≠ g
  | .consume _ g' _ => g' ≠ g
  | _ => False

section Isolation

variable {s : RCAdmissionStore} {now : ℤ} {ticket : RCAdmissionTicket} {header : CBlockHeader β}
  {g g' powLimit : ℕ} {hash : Uint256} {k : EntryKey} {e : Entry} {c : Call β}

theorem find?_prune_validated : (s.prune now).validated.entries.find? k =
    (s.validated.entries.find? k).filter fun e => !s.expired now e :=
  find?_eraseWhere s.validated (fun _ e => s.expired now e) k

theorem find?_prune_of_fresh (hk : s.validated.entries.find? k = some e)
    (hfresh : now - e.received ≤ seconds s.config.ttl) :
    (s.prune now).validated.entries.find? k = some e := by
  rw [find?_prune_validated, hk, filter_some, expired, decide_eq_true hfresh]
  rfl

theorem remember_validated : (s.remember ticket g now).2.validated = (s.prune now).validated := by
  unfold remember
  dsimp only
  split_ifs <;> rfl

theorem rememberKnown_find?_of_ne (hg : g' ≠ g) :
    (s.rememberKnown env ticket header g' powLimit now).2.validated.entries.find?
      (entryKey hash g) = (s.prune now).validated.entries.find? (entryKey hash g) := by
  unfold rememberKnown
  dsimp only
  split_ifs
  case neg => exact find?_insert_of_ne fun h => hg (entryKey_inj.1 h).2.symm
  all_goals rfl

theorem consume_find?_of_ne (hg : g' ≠ g) :
    (s.consume env header g' powLimit now).2.validated.entries.find? (entryKey hash g) =
      (s.prune now).validated.entries.find? (entryKey hash g) := by
  unfold consume
  dsimp only
  split
  · rw [entries_eraseIterator]
    exact find?_erase_of_ne fun h => hg (entryKey_inj.1 h).2.symm
  · split <;> rfl

/-- **A call by another netgroup does to a validated entry what pruning does.** -/
theorem step_find?_of_byOther (hc : c.ByOther g) :
    (s.step env now c).2.validated.entries.find? (entryKey hash g) =
      (s.prune now).validated.entries.find? (entryKey hash g) := by
  cases c with
  | remember ticket g' =>
    exact congrArg (fun t : Tier => t.entries.find? (entryKey hash g)) remember_validated
  | rememberKnown ticket header g' powLimit => exact rememberKnown_find?_of_ne hc
  | consume header g' powLimit => exact consume_find?_of_ne hc
  | restoreConsumed | erase | prune | clear => exact hc.elim

theorem Run.find?_of_byOther {s' : RCAdmissionStore} {t t' : ℤ} {config : AdmissionConfig}
    (hrun : Run env (Call.ByOther g) s t s' t') (hs : Valid config s)
    (hk : s.validated.entries.find? (entryKey hash g) = some e)
    (hfresh : t' - e.received ≤ seconds config.ttl) :
    Valid config s' ∧ s'.validated.entries.find? (entryKey hash g) = some e := by
  induction hrun with
  | refl => exact ⟨hs, hk⟩
  | call now c _ hle hc ih =>
    obtain ⟨hs', hk'⟩ := ih (by omega)
    refine ⟨hs'.step c, ?_⟩
    rw [step_find?_of_byOther hc]
    refine find?_prune_of_fresh hk' ?_
    rw [hs'.config_eq]
    exact hfresh

theorem consume_validated
    (hk : s.validated.entries.find? (entryKey (env.getHash header) g) = some e)
    (hfresh : now - e.received ≤ seconds s.config.ttl) :
    (s.consume env header g powLimit now).1 = some e.ticket := by
  unfold consume
  dsimp only
  rw [find?_prune_of_fresh hk hfresh]

end Isolation

/-- **Counters, limits, rollback and isolation.** In every run at non-decreasing times: the counters
are the numbers of entries; tiers and submission times are within the limits, of which zero counts
as one; a rollback of a ticket that passes the check succeeds, and the netgroup's next `Consume`
within the time to live hands out that ticket or the one that waited in its place; and what a
`Consume` hands out, once validated and stored, is not changed by calls of other netgroups within
its time to live. -/
theorem admission_invariants (env : AdmissionEnv β) (config : AdmissionConfig)
    (s : RCAdmissionStore) (t : ℤ) (h : Reachable env config s t) :
    (s.validated.Exact ∧ s.unknown.Exact) ∧
    (s.validated.Within config.atLeastOne.validatedLimits ∧
      s.unknown.Within config.atLeastOne.unknownLimits ∧
      ∀ g times, s.unknownSubmissionHistory.find? g = some times →
        times.length ≤ config.atLeastOne.maxUnknownSubmissionsPerNetgroup) ∧
    (∀ ticket header g powLimit now, t ≤ now → checkRCAdmissionTicket env ticket header powLimit →
      (s.restoreConsumed env ticket header g powLimit now).1 = true ∧
      ∀ e, ((s.prune now).validated.entries.find? (entryKey (env.getHash header) g)).getD
          ⟨ticket, now⟩ = e → ∀ limit later, later - e.received ≤ seconds config.ttl →
        ((s.restoreConsumed env ticket header g powLimit now).2.consume env header g limit
          later).1 =
          some e.ticket) ∧
    (∀ header g e, s.validated.entries.find? (entryKey (env.getHash header) g) = some e →
      ∀ s' t', Run env (Call.ByOther g) s t s' t' →
      ∀ powLimit now, t' ≤ now → now - e.received ≤ seconds config.ttl →
        (s.consume env header g powLimit now).1 = some e.ticket ∧
        (s'.consume env header g powLimit now).1 = some e.ticket) := by
  have hs := h.valid
  refine ⟨⟨hs.validated_exact, hs.unknown_exact⟩,
    ⟨hs.validated_within, hs.unknown_within, hs.history⟩, ?_, ?_⟩
  · intro ticket header g powLimit now _ hcheck
    refine ⟨?_, ?_⟩
    · rcases hs.restoreConsumed_eq g now hcheck with ⟨-, heq⟩ | ⟨_, _, _, _, _, _, _, heq⟩ <;>
        rw [heq]
    · rintro e rfl limit later hfresh
      refine consume_validated (hs.restoreConsumed_find? g now hcheck) ?_
      rwa [hs.restoreConsumed.config_eq]
  · intro header g e hk s' t' hrun powLimit now hle hfresh
    obtain ⟨hs', hk'⟩ := hrun.find?_of_byOther hs hk (by omega)
    refine ⟨consume_validated hk ?_, consume_validated hk' ?_⟩
    · rwa [hs.config_eq]
    · rwa [hs'.config_eq]

/-- A header, with a hash that every ticket meets. -/
def sampleEnv : AdmissionEnv Unit := ⟨fun _ => 7, fun _ => 0⟩

def sampleHeader : CBlockHeader Unit :=
  { nTime := 0, nBits := 0x207fffff, body := (), hashPrevBlock := 0 }

def sampleTicket : RCAdmissionTicket := ⟨7, 1⟩

def sampleLimit : ℕ := 2 ^ 255 - 1

/-- The store after one validated ticket. -/
def sampleStore : RCAdmissionStore :=
  ((new {}).step sampleEnv 0 (.rememberKnown sampleTicket sampleHeader 3 sampleLimit)).2

/-- The store with one validated ticket: its counters, and what another netgroup consumes after a
rollback of the same ticket. -/
theorem admission_invariants_sampleStore : (sampleStore.validated.entries.size = 1 ∧
      checkRCAdmissionTicket sampleEnv sampleTicket sampleHeader sampleLimit) ∧
    sampleStore.validated.netgroupCounts.countOf 3 = sampleStore.validated.ofNetgroup 3 ∧
    ((sampleStore.restoreConsumed sampleEnv sampleTicket sampleHeader 4 sampleLimit 1).2.consume
      sampleEnv sampleHeader 4 sampleLimit 2).1 = some sampleTicket := by
  have hcheck : checkRCAdmissionTicket sampleEnv sampleTicket sampleHeader sampleLimit := by
    decide +kernel
  have h := admission_invariants sampleEnv {} sampleStore 0 ⟨0, .call 0 _ .refl le_rfl trivial⟩
  exact ⟨⟨by decide +kernel, hcheck⟩, h.1.1.netgroup 3,
    (h.2.2.1 sampleTicket sampleHeader 4 sampleLimit 1 (by decide) hcheck).2 ⟨sampleTicket, 1⟩
      (by decide +kernel) sampleLimit 2 (by decide)⟩

/-! ## How often a ticket is spent -/

/-- A `Consume` of the netgroup that returns true for the ticket. -/
def Call.spends (ticket : RCAdmissionTicket) (g : ℕ) : Call β → Reply → Bool
  | .consume _ g' _, .consumed (some spent) => g' = g ∧ spent = ticket
  | _, _ => false

/-- How often a run of calls spends the ticket. -/
def spendCount (env : AdmissionEnv β) (ticket : RCAdmissionTicket) (g : ℕ) :
    RCAdmissionStore → List (ℤ × Call β) → ℕ
  | _, [] => 0
  | s, (now, c) :: calls =>
      (if c.spends ticket g (s.step env now c).1 then 1 else 0) +
        spendCount env ticket g (s.step env now c).2 calls

/-- A rollback of the ticket for the netgroup. -/
def Call.Restores (ticket : RCAdmissionTicket) (g : ℕ) : Call β → Prop
  | .restoreConsumed ticket' _ g' _ => ticket' = ticket ∧ g' = g
  | _ => False

/-- The condition on one call, with the number of times the ticket has been spent before: it is
remembered only before it is spent, and not quarantined while it waits validated. -/
def Call.RemembersOnce (ticket : RCAdmissionTicket) (g : ℕ) (s : RCAdmissionStore) (now : ℤ)
    (spent : ℕ) : Call β → Prop
  | .remember ticket' g' => ticket' = ticket → g' = g → spent = 0 ∧
      ∀ e, s.validated.entries.find? (entryKey ticket.blockHash g) = some e → e.ticket = ticket →
        s.expired now e
  | .rememberKnown ticket' _ g' _ => ticket' = ticket → g' = g → spent = 0
  | _ => True

/-- Every call of a run meets the condition. -/
def RemembersOnce (env : AdmissionEnv β) (ticket : RCAdmissionTicket) (g : ℕ) :
    RCAdmissionStore → ℕ → List (ℤ × Call β) → Prop
  | _, _, [] => True
  | s, spent, (now, c) :: calls =>
      c.RemembersOnce ticket g s now spent ∧
        RemembersOnce env ticket g (s.step env now c).2
          (spent + if c.spends ticket g (s.step env now c).1 then 1 else 0) calls

/-- The ticket waits in a tier, under its hash and the netgroup. -/
def holds (t : Tier) (ticket : RCAdmissionTicket) (g : ℕ) : Prop :=
  ∃ e, t.entries.find? (entryKey ticket.blockHash g) = some e ∧ e.ticket = ticket

/-- The invariant: what waits validated is filed under its own hash; the ticket waits in one tier
at most, and in none once it is spent. -/
structure Single (ticket : RCAdmissionTicket) (g : ℕ) (s : RCAdmissionStore) (spent : ℕ) :
    Prop where
  filed : ∀ k e, s.validated.entries.find? k = some e → e.ticket.blockHash = k.hash
  one : ¬(holds s.validated ticket g ∧ holds s.unknown ticket g)
  spent_le : spent ≤ 1
  gone : spent = 1 → ¬holds s.validated ticket g ∧ ¬holds s.unknown ticket g

section Spending

variable {s s' : RCAdmissionStore} {now : ℤ} {ticket ticket' : RCAdmissionTicket}
  {header : CBlockHeader β} {g g' powLimit spent : ℕ} {t t' : Tier} {k : EntryKey} {e : Entry}
  {config : AdmissionConfig}

theorem find?_of_shrinks (h : t'.Shrinks t) (hk : t'.entries.find? k = some e) :
    t.entries.find? k = some e :=
  find?_eq_some_iff.2 (h.subset (find?_eq_some_iff.1 hk))

theorem holds_of_shrinks (h : t'.Shrinks t) (hold : holds t' ticket g) : holds t ticket g := by
  obtain ⟨e, hk, he⟩ := hold
  exact ⟨e, find?_of_shrinks h hk, he⟩

theorem holds_emplace
    (hold : holds (t.emplace (entryKey ticket'.blockHash g') ⟨ticket', now⟩) ticket g) :
    (ticket' = ticket ∧ g' = g) ∨ holds t ticket g := by
  obtain ⟨e, hk, he⟩ := hold
  rw [Tier.emplace, find?_insert] at hk
  split_ifs at hk with hkey
  · cases hk
    exact .inl ⟨he, (entryKey_inj.1 hkey).2.symm⟩
  · exact .inr ⟨e, hk, he⟩

theorem Single.of_shrinks (h : Single ticket g s spent)
    (hvalidated : s'.validated.Shrinks s.validated)
    (hunknown : s'.unknown.Shrinks s.unknown) : Single ticket g s' spent where
  filed k e hk := h.filed k e (find?_of_shrinks hvalidated hk)
  one hboth := h.one ⟨holds_of_shrinks hvalidated hboth.1, holds_of_shrinks hunknown hboth.2⟩
  spent_le := h.spent_le
  gone hspent := ⟨fun hold => (h.gone hspent).1 (holds_of_shrinks hvalidated hold),
    fun hold => (h.gone hspent).2 (holds_of_shrinks hunknown hold)⟩

theorem Single.prune (h : Single ticket g s spent) (now : ℤ) :
    Single ticket g (s.prune now) spent :=
  h.of_shrinks (shrinks_eraseWhere s.validated fun _ e => s.expired now e)
    (shrinks_eraseWhere s.unknown fun _ e => s.expired now e)

theorem not_holds_erase : ¬holds (t.eraseIterator (entryKey ticket.blockHash g)) ticket g := by
  rintro ⟨e, hk, -⟩
  rw [entries_eraseIterator, find?_erase_self] at hk
  simp at hk

theorem Single.spent_eq_zero (h : Single ticket g s spent)
    (hold : holds s.validated ticket g ∨ holds s.unknown ticket g) : spent = 0 := by
  have := h.spent_le
  by_contra hne
  have hgone := h.gone (by omega)
  rcases hold with hold | hold
  · exact hgone.1 hold
  · exact hgone.2 hold

theorem Single.spendValidated (h : Single ticket g s spent) (hold : holds s.validated ticket g) :
    Single ticket g { s with
      validated := s.validated.eraseIterator (entryKey ticket.blockHash g) } (spent + 1) where
  filed k e hk := h.filed k e (find?_of_shrinks (shrinks_eraseIterator _ _) hk)
  one hboth := not_holds_erase hboth.1
  spent_le := by rw [h.spent_eq_zero (Or.inl hold)]
  gone _ := ⟨not_holds_erase, fun hunknown => h.one ⟨hold, hunknown⟩⟩

theorem Single.spendUnknown (h : Single ticket g s spent) (hold : holds s.unknown ticket g) :
    Single ticket g { s with
      unknown := s.unknown.eraseIterator (entryKey ticket.blockHash g) } (spent + 1) where
  filed := h.filed
  one hboth := not_holds_erase hboth.2
  spent_le := by rw [h.spent_eq_zero (Or.inr hold)]
  gone _ := ⟨fun hvalidated => h.one ⟨hvalidated, hold⟩, not_holds_erase⟩

variable (s) in
theorem remember_tiers (ticket : RCAdmissionTicket) (g : ℕ) (now : ℤ) :
    (s.remember ticket g now).2.validated = (s.prune now).validated ∧
      ((s.remember ticket g now).2.unknown = (s.prune now).unknown ∨
        (s.remember ticket g now).2.unknown =
          (s.prune now).unknown.emplace (entryKey ticket.blockHash g) ⟨ticket, now⟩) := by
  refine ⟨remember_validated, ?_⟩
  unfold remember
  dsimp only
  split_ifs
  case neg => exact .inr rfl
  all_goals exact .inl rfl

theorem Single.remember (h : Single ticket g s spent)
    (hcond : (Call.remember ticket' g' : Call β).RemembersOnce ticket g s now spent) :
    Single ticket g (s.remember ticket' g' now).2 spent := by
  have hs := h.prune now
  obtain ⟨hvalidated, hunknown | hunknown⟩ := remember_tiers s ticket' g' now
  · exact hs.of_shrinks (hvalidated ▸ Tier.Shrinks.refl _) (hunknown ▸ Tier.Shrinks.refl _)
  · refine ⟨by rw [hvalidated]; exact hs.filed, ?_, h.spent_le, ?_⟩
    · rw [hvalidated, hunknown]
      rintro ⟨hv, hu⟩
      rcases holds_emplace hu with ⟨rfl, rfl⟩ | hu
      · obtain ⟨e, hk, he⟩ := hv
        rw [find?_prune_validated, filter_eq_some_iff] at hk
        have hexpired := (hcond rfl rfl).2 e hk.1 he
        simp [hexpired] at hk
      · exact hs.one ⟨hv, hu⟩
    · intro hspent
      rw [hvalidated, hunknown]
      refine ⟨(hs.gone hspent).1, fun hu => ?_⟩
      rcases holds_emplace hu with ⟨rfl, rfl⟩ | hu
      · have := (hcond rfl rfl).1
        omega
      · exact (hs.gone hspent).2 hu

variable (env) in
theorem rememberKnown_tiers (s : RCAdmissionStore)
    (ticket : RCAdmissionTicket) (header : CBlockHeader β) (g powLimit : ℕ) (now : ℤ) :
    (s.rememberKnown env ticket header g powLimit now).2 = s.prune now ∨
      (ticket.blockHash = env.getHash header ∧
        (s.rememberKnown env ticket header g powLimit now).2 = { s.prune now with
          unknown := (s.prune now).unknown.eraseIterator (entryKey ticket.blockHash g)
          validated := (s.prune now).validated.emplace (entryKey ticket.blockHash g)
            ⟨ticket, now⟩ }) := by
  unfold rememberKnown
  dsimp only
  split_ifs with hinvalid
  case neg =>
    have hhash : ticket.blockHash = env.getHash header := by
      by_contra hne
      exact hinvalid (.inl hne)
    exact .inr ⟨hhash, by rw [hhash]⟩
  all_goals exact .inl rfl

theorem filed_emplace (hfiled : ∀ k e, t.entries.find? k = some e → e.ticket.blockHash = k.hash) :
    ∀ k e, (t.emplace (entryKey ticket.blockHash g) ⟨ticket, now⟩).entries.find? k = some e →
      e.ticket.blockHash = k.hash := by
  intro k e hk
  rw [Tier.emplace, find?_insert] at hk
  split_ifs at hk with hkey
  · cases hk
    rw [hkey, entryKey_hash]
  · exact hfiled k e hk

theorem Single.rememberKnown (h : Single ticket g s spent)
    (hcond : (Call.rememberKnown ticket' header g' powLimit).RemembersOnce ticket g s now spent) :
    Single ticket g (s.rememberKnown env ticket' header g' powLimit now).2 spent := by
  have hs := h.prune now
  have herase := shrinks_eraseIterator (s.prune now).unknown (entryKey ticket'.blockHash g')
  rcases rememberKnown_tiers env s ticket' header g' powLimit now with heq | ⟨-, heq⟩
  · rwa [heq]
  · rw [heq]
    refine ⟨filed_emplace hs.filed, ?_, h.spent_le, ?_⟩
    · rintro ⟨hv, hu⟩
      rcases holds_emplace hv with ⟨rfl, rfl⟩ | hv
      · exact not_holds_erase hu
      · exact hs.one ⟨hv, holds_of_shrinks herase hu⟩
    · refine fun hspent => ⟨fun hv => ?_, fun hu => ?_⟩
      · rcases holds_emplace hv with ⟨rfl, rfl⟩ | hv
        · have : spent = 0 := hcond rfl rfl
          omega
        · exact (hs.gone hspent).1 hv
      · exact (hs.gone hspent).2 (holds_of_shrinks herase hu)

variable (env) in
theorem consume_cases (s : RCAdmissionStore) (header : CBlockHeader β) (g powLimit : ℕ) (now : ℤ) :
    (∃ e, (s.prune now).validated.entries.find? (entryKey (env.getHash header) g) = some e ∧
      s.consume env header g powLimit now = (some e.ticket, { s.prune now with
        validated := (s.prune now).validated.eraseIterator (entryKey (env.getHash header) g) })) ∨
    (∃ e, (s.prune now).unknown.entries.find? (entryKey (env.getHash header) g) = some e ∧
      s.consume env header g powLimit now =
        (if checkRCAdmissionTicket env e.ticket header powLimit then some e.ticket else none,
        { s.prune now with
          unknown := (s.prune now).unknown.eraseIterator (entryKey (env.getHash header) g) })) ∨
    s.consume env header g powLimit now = (none, s.prune now) := by
  unfold consume
  dsimp only
  cases hv : (s.prune now).validated.entries.find? (entryKey (env.getHash header) g) with
  | some e => exact .inl ⟨e, rfl, rfl⟩
  | none =>
    cases hu : (s.prune now).unknown.entries.find? (entryKey (env.getHash header) g) with
    | some e => exact .inr (.inl ⟨e, rfl, rfl⟩)
    | none => exact .inr (.inr rfl)

theorem spends_consumed {spentTicket : RCAdmissionTicket} :
    (Call.consume header g' powLimit).spends ticket g (.consumed (some spentTicket)) ↔
      g' = g ∧ spentTicket = ticket := by
  simp [Call.spends]

theorem Single.consume (h : Single ticket g s spent) :
    Single ticket g (s.consume env header g' powLimit now).2
      (spent + if (Call.consume header g' powLimit).spends ticket g
        (.consumed (s.consume env header g' powLimit now).1) then 1 else 0) := by
  have hs := h.prune now
  have hv := shrinks_eraseIterator (s.prune now).validated (entryKey (env.getHash header) g')
  have hu := shrinks_eraseIterator (s.prune now).unknown (entryKey (env.getHash header) g')
  rcases consume_cases env s header g' powLimit now with ⟨e, he, heq⟩ | ⟨e, he, heq⟩ | heq
  · rw [heq]
    split_ifs with hspends
    · obtain ⟨rfl, rfl⟩ := spends_consumed.1 hspends
      have hhash : e.ticket.blockHash = env.getHash header := hs.filed _ e he
      rw [← hhash] at he ⊢
      exact hs.spendValidated ⟨e, he, rfl⟩
    · exact hs.of_shrinks hv (.refl _)
  · rw [heq]
    split_ifs with hcheck hspends hspends
    · obtain ⟨rfl, rfl⟩ := spends_consumed.1 hspends
      rw [← blockHash_of_check hcheck] at he ⊢
      exact hs.spendUnknown ⟨e, he, rfl⟩
    · exact hs.of_shrinks (.refl _) hu
    · simp [Call.spends] at hspends
    · exact hs.of_shrinks (.refl _) hu
  · rw [heq]
    exact hs

theorem Single.restoreConsumed (h : Single ticket g s spent)
    (hs : Valid config s) (hrestore : ¬(ticket' = ticket ∧ g' = g)) :
    Single ticket g (s.restoreConsumed env ticket' header g' powLimit now).2 spent := by
  have hp := h.prune now
  cases hcheck : checkRCAdmissionTicket env ticket' header powLimit with
  | false =>
    unfold RCAdmissionStore.restoreConsumed
    dsimp only
    rwa [if_pos (by simp [hcheck])]
  | true =>
    rcases hs.restoreConsumed_eq g' now hcheck with ⟨-, heq⟩ | ⟨t, hsub, -, -, -, -, -, heq⟩
    · rwa [heq]
    · have hback : ∀ hv : holds (t.emplace (entryKey ticket'.blockHash g') ⟨ticket', now⟩) ticket g,
          holds (s.prune now).validated ticket g := by
        intro hv
        rcases holds_emplace hv with hsame | hv
        · exact absurd hsame hrestore
        · exact holds_of_shrinks hsub hv
      rw [heq, ← blockHash_of_check hcheck]
      exact ⟨filed_emplace fun k e hk => hp.filed k e (find?_of_shrinks hsub hk),
        fun hboth => hp.one ⟨hback hboth.1, hboth.2⟩, h.spent_le,
        fun hspent => ⟨fun hv => (hp.gone hspent).1 (hback hv), (hp.gone hspent).2⟩⟩

/-- **One call.** -/
theorem Single.step {c : Call β} (h : Single ticket g s spent)
    (hs : Valid config s) (hrestore : ¬c.Restores ticket g)
    (hcond : c.RemembersOnce ticket g s now spent) :
    Single ticket g (s.step env now c).2
      (spent + if c.spends ticket g (s.step env now c).1 then 1 else 0) := by
  have hempty : ∀ t : Tier, ({} : Tier).Shrinks t :=
    fun t => ⟨fun _ => exact_empty, nil_subset _⟩
  cases c with
  | remember ticket' g' => exact h.remember hcond
  | rememberKnown ticket' header g' powLimit => exact h.rememberKnown hcond
  | consume header g' powLimit => exact h.consume
  | restoreConsumed ticket' header g' powLimit => exact h.restoreConsumed hs hrestore
  | erase hash =>
    exact h.of_shrinks (shrinks_eraseWhere s.validated fun k _ => k.hash = hash)
      (shrinks_eraseWhere s.unknown fun k _ => k.hash = hash)
  | prune => exact h.prune now
  | clear => exact h.of_shrinks (hempty _) (hempty _)

theorem spendCount_le {calls : List (ℤ × Call β)}
    (hs : Valid config s) (h : Single ticket g s spent)
    (hrestore : ∀ c ∈ calls, ¬c.2.Restores ticket g)
    (hcond : RemembersOnce env ticket g s spent calls) :
    spent + spendCount env ticket g s calls ≤ 1 := by
  induction calls generalizing s spent with
  | nil => exact h.spent_le
  | cons call calls ih =>
    obtain ⟨now, c⟩ := call
    have hrest := forall_mem_cons.1 hrestore
    rw [spendCount, ← add_assoc]
    exact ih (hs.step c) (h.step hs hrest.1 hcond.1) hrest.2 hcond.2

end Spending

/-- **A ticket is spent once, if it is not remembered again.** In every run without a rollback of
the ticket, in which it is remembered only while no `Consume` has returned it, and not put into
quarantine while it waits validated, `Consume` returns true for it at most once. -/
theorem spent_at_most_once (env : AdmissionEnv β) (config : AdmissionConfig)
    (ticket : RCAdmissionTicket) (g : ℕ) (calls : List (ℤ × Call β))
    (hrestore : ∀ c ∈ calls, ¬c.2.Restores ticket g)
    (hcond : RemembersOnce env ticket g (new config) 0 calls) :
    spendCount env ticket g (new config) calls ≤ 1 := by
  have hnew : Single ticket g (new config) 0 :=
    ⟨by simp [new], fun h => by simpa [holds, new] using h.1, zero_le, by simp⟩
  have := spendCount_le (valid_new config) hnew hrestore hcond
  omega

/-- A ticket that is quarantined, validated and spent. -/
theorem spent_at_most_once_sample :
    spendCount sampleEnv sampleTicket 3 (new {}) [(0, .remember sampleTicket 3),
      (1, .rememberKnown sampleTicket sampleHeader 3 sampleLimit),
      (2, .consume sampleHeader 3 sampleLimit), (3, .consume sampleHeader 3 sampleLimit)] = 1 ∧
    spendCount sampleEnv sampleTicket 3 (new {}) [(0, .remember sampleTicket 3),
      (1, .rememberKnown sampleTicket sampleHeader 3 sampleLimit),
      (2, .consume sampleHeader 3 sampleLimit), (3, .consume sampleHeader 3 sampleLimit)] ≤ 1 := by
  refine ⟨by decide +kernel, spent_at_most_once _ _ _ _ _ (by simp [Call.Restores]) ?_⟩
  refine ⟨fun _ _ => ⟨rfl, by simp [new]⟩, fun _ _ => by decide +kernel, trivial, trivial, trivial⟩

/-- **The same ticket is spent twice**, at one time and so within its time to live: it is stored
again after it was spent; and it is put into quarantine while it waits validated, and both copies
are spent. -/
theorem ticket_spent_twice : spendCount sampleEnv sampleTicket 3 (new {})
      [(0, .rememberKnown sampleTicket sampleHeader 3 sampleLimit),
        (0, .consume sampleHeader 3 sampleLimit),
        (0, .rememberKnown sampleTicket sampleHeader 3 sampleLimit),
        (0, .consume sampleHeader 3 sampleLimit)] = 2 ∧
    spendCount sampleEnv sampleTicket 3 (new {})
      [(0, .rememberKnown sampleTicket sampleHeader 3 sampleLimit), (0, .remember sampleTicket 3),
        (0, .consume sampleHeader 3 sampleLimit), (0, .consume sampleHeader 3 sampleLimit)] =
          2 := by
  decide +kernel

end RCAdmissionStore

end Btx.Node
