/-
# Admission tickets

`RCAdmissionStore` (`src/node/matmul_rc_admission.cpp`) keeps the sidecar tickets that buy a block
its expensive check: unverified ones in a small quarantine, checked ones beside it. A tier is a map
of entries and two maps of counters, maintained by hand (`Tier.Exact`). A ticket that finds no room
is refused, except by `restoreConsumed`. The hashes of tickets and headers are parameters.
-/

import Btx.Node.Keys
import Btx.Util.OrderedMap
import Btx.Pow.Asert
import Btx.Primitives.Transaction

namespace Btx

/-! ## Headers -/

namespace Net

/-- `CompressedHeader`. `body` is what only the hash and the spam gate read: version, Merkle root,
nonces and the MatMul fields. -/
structure CompressedHeader (β : Type) where
  nTime : UInt32
  nBits : UInt32
  body : β

/-- `CBlockHeader`. -/
structure CBlockHeader (β : Type) extends CompressedHeader β where
  hashPrevBlock : Uint256

end Net

namespace Node

open Util Net Btx.Pow OrderedMap

/-! ## Tickets -/

/-- `RCAdmissionTicket`. -/
structure RCAdmissionTicket where
  blockHash : Uint256
  nonce : UInt64
  deriving DecidableEq

/-- `ADMISSION_NBITS_DISCOUNT`. -/
def admissionNBitsDiscount : ℕ := 48

/-- `ADMISSION_MIN_WORK_BITS`. -/
def admissionMinWorkBits : ℕ := 12

/-- `ADMISSION_MAX_WORK_BITS`. -/
def admissionMaxWorkBits : ℕ := 20

/-- `TargetForWorkBits`. -/
def targetForWorkBits (bits : ℕ) : ℕ := 1 <<< (256 - bits) - 1

/-- `std::clamp`. -/
def clampTarget (v lo hi : ℕ) : ℕ := if v < lo then lo else if hi < v then hi else v

/-- `DeriveRCAdmissionTarget`. -/
def deriveRCAdmissionTarget (nBits : UInt32) (powLimit : ℕ) : Option ℕ :=
  (deriveTarget nBits.toNat powLimit).map fun raw =>
    let raw := if raw >>> (256 - admissionNBitsDiscount) ≠ 0 then powLimit
      else raw <<< admissionNBitsDiscount
    clampTarget raw (targetForWorkBits admissionMaxWorkBits)
      (targetForWorkBits admissionMinWorkBits)

/-- What the store is given: the hash of a header, and `UintToArith256(RCAdmissionTicketHash(..))`.
-/
structure AdmissionEnv (β : Type) where
  getHash : CBlockHeader β → Uint256
  ticketHash : RCAdmissionTicket → ℕ

/-- `CheckRCAdmissionTicket`. -/
def checkRCAdmissionTicket {β : Type} (env : AdmissionEnv β) (ticket : RCAdmissionTicket)
    (header : CBlockHeader β) (powLimit : ℕ) : Bool :=
  if ticket.blockHash ≠ env.getHash header then false
  else
    match deriveRCAdmissionTarget header.nBits powLimit with
    | none => false
    | some target => env.ticketHash ticket ≤ target

/-! ## One tier -/

/-- `RCAdmissionStore::EntryKey`: block hash, keyed netgroup. -/
abbrev EntryKey := Uint256 ×ₗ ℕ

/-- The key of a hash and a netgroup. -/
def entryKey (hash : Uint256) (netgroup : ℕ) : EntryKey := toLex (hash, netgroup)

def EntryKey.hash (k : EntryKey) : Uint256 := (ofLex k).1

def EntryKey.netgroup (k : EntryKey) : ℕ := (ofLex k).2

@[simp]
theorem entryKey_hash (hash : Uint256) (g : ℕ) : (entryKey hash g).hash = hash := rfl

theorem entryKey_inj {hash hash' : Uint256} {g g' : ℕ} :
    entryKey hash g = entryKey hash' g' ↔ hash = hash' ∧ g = g' := by
  unfold entryKey
  rw [toLex_inj, Prod.mk.injEq]

/-- `RCAdmissionStore::Entry`. -/
structure Entry where
  ticket : RCAdmissionTicket
  received : ℤ
  deriving DecidableEq

/-- The entries of a tier and its counters. -/
structure Tier where
  entries : OrderedMap EntryKey Entry := .empty
  netgroupCounts : OrderedMap ℕ ℕ := .empty
  hashCounts : OrderedMap Uint256 ℕ := .empty
  deriving DecidableEq

namespace Tier

/-- `emplace` with the two counters, for a key that is not there. -/
def emplace (t : Tier) (k : EntryKey) (e : Entry) : Tier :=
  { entries := t.entries.insert k e
    netgroupCounts := t.netgroupCounts.increment k.netgroup
    hashCounts := t.hashCounts.increment k.hash }

/-- `EraseValidatedIterator` and `EraseUnknownIterator`. An iterator points to an entry; at a key
without one there is nothing to erase. -/
def eraseIterator (t : Tier) (k : EntryKey) : Tier :=
  if t.entries.contains k then
    { entries := t.entries.erase k
      netgroupCounts := t.netgroupCounts.decrement k.netgroup
      hashCounts := t.hashCounts.decrement k.hash }
  else t

/-- A walk over the entries that erases those in a class. -/
def eraseWhere (t : Tier) (p : EntryKey → Entry → Bool) : Tier :=
  t.entries.entries.foldl (fun t e => if p e.1 e.2 then t.eraseIterator e.1 else t) t

/-- `erase_oldest_matching`: of equally old ones the least key. The flag is whether there was
one. -/
def eraseOldestMatching (t : Tier) (p : EntryKey → Bool) : Bool × Tier :=
  match t.entries.oldest (fun k _ => p k) Entry.received with
  | none => (false, t)
  | some e => (true, t.eraseIterator e.1)

/-- The number of entries of a netgroup. -/
def ofNetgroup (t : Tier) (g : ℕ) : ℕ := t.entries.total fun k _ => if k.netgroup = g then 1 else 0

/-- The number of entries for a hash. -/
def ofHash (t : Tier) (hash : Uint256) : ℕ :=
  t.entries.total fun k _ => if k.hash = hash then 1 else 0

/-- The counters are the true numbers. -/
structure Exact (t : Tier) : Prop where
  netgroup : ∀ g, t.netgroupCounts.countOf g = t.ofNetgroup g
  hash : ∀ hash, t.hashCounts.countOf hash = t.ofHash hash

section Counts

variable {t : Tier} {k : EntryKey} {e : Entry} {g : ℕ} {hash : Uint256}

section

variable (hk : t.entries.find? k = none)

include hk

theorem ofNetgroup_emplace :
    (t.emplace k e).ofNetgroup g = t.ofNetgroup g + if k.netgroup = g then 1 else 0 := by
  rw [ofNetgroup, emplace, total_insert_of_none hk, add_comm, ofNetgroup]

theorem ofHash_emplace :
    (t.emplace k e).ofHash hash = t.ofHash hash + if k.hash = hash then 1 else 0 := by
  rw [ofHash, emplace, total_insert_of_none hk, add_comm, ofHash]

theorem size_emplace : (t.emplace k e).entries.size = t.entries.size + 1 := by
  rw [size_eq_total, emplace, total_insert_of_none hk, add_comm, size_eq_total]

end

theorem Exact.emplace (h : t.Exact) (hk : t.entries.find? k = none) : (t.emplace k e).Exact := by
  refine ⟨fun g => ?_, fun hash => ?_⟩
  · rw [ofNetgroup_emplace hk, Tier.emplace, countOf_increment, h.netgroup]
  · rw [ofHash_emplace hk, Tier.emplace, countOf_increment, h.hash]

theorem eraseIterator_of_find? (hk : t.entries.find? k = some e) :
    t.eraseIterator k = ⟨t.entries.erase k, t.netgroupCounts.decrement k.netgroup,
      t.hashCounts.decrement k.hash⟩ := by
  rw [eraseIterator, if_pos (contains_iff.2 ⟨e, hk⟩)]

theorem eraseIterator_of_none (hk : t.entries.find? k = none) : t.eraseIterator k = t := by
  rw [eraseIterator, not_contains_iff.2 hk]
  rfl

theorem entries_eraseIterator : (t.eraseIterator k).entries = t.entries.erase k := by
  cases hk : t.entries.find? k with
  | none => rw [eraseIterator_of_none hk, erase_of_find?_none hk]
  | some e => rw [eraseIterator_of_find? hk]

theorem Exact.eraseIterator (h : t.Exact) : (t.eraseIterator k).Exact := by
  cases hk : t.entries.find? k with
  | none => rwa [eraseIterator_of_none hk]
  | some e =>
    have hg := fun g => total_eq_add_erase
      (w := fun k (_ : Entry) => if k.netgroup = g then 1 else 0) hk
    have hh := fun hash => total_eq_add_erase
      (w := fun k (_ : Entry) => if k.hash = hash then 1 else 0) hk
    rw [eraseIterator_of_find? hk]
    refine ⟨fun g => ?_, fun hash => ?_⟩
    · rw [countOf_decrement, h.netgroup, ofNetgroup, hg g, Nat.add_sub_cancel_left]
      rfl
    · rw [countOf_decrement, h.hash, ofHash, hh hash, Nat.add_sub_cancel_left]
      rfl

end Counts

/-! ## Erasing -/

/-- What erasing leaves: the counters stay exact, and every entry was there before. -/
structure Shrinks (t' t : Tier) : Prop where
  exact : t.Exact → t'.Exact
  subset : t'.entries.entries ⊆ t.entries.entries

section Erasing

variable {t t' t'' : Tier} {k : EntryKey} {p : EntryKey → Entry → Bool}

theorem Shrinks.refl (t : Tier) : Shrinks t t := ⟨id, .refl _⟩

theorem Shrinks.trans (h' : Shrinks t'' t') (h : Shrinks t' t) : Shrinks t'' t :=
  ⟨fun ht => h'.exact (h.exact ht), List.Subset.trans h'.subset h.subset⟩

theorem Shrinks.total_le {w : EntryKey → Entry → ℕ} (h : Shrinks t' t) :
    t'.entries.total w ≤ t.entries.total w :=
  total_le_of_subset h.subset

theorem Shrinks.countOf_netgroup_le (h : Shrinks t' t) (ht : t.Exact) (g : ℕ) :
    t'.netgroupCounts.countOf g ≤ t.netgroupCounts.countOf g := by
  rw [ht.netgroup, (h.exact ht).netgroup]
  exact h.total_le

theorem Shrinks.countOf_hash_le (h : Shrinks t' t) (ht : t.Exact) (hash : Uint256) :
    t'.hashCounts.countOf hash ≤ t.hashCounts.countOf hash := by
  rw [ht.hash, (h.exact ht).hash]
  exact h.total_le

theorem shrinks_eraseIterator (t : Tier) (k : EntryKey) : Shrinks (t.eraseIterator k) t := by
  refine ⟨Exact.eraseIterator, fun e he => ?_⟩
  rw [entries_eraseIterator] at he
  exact (mem_erase.1 he).1

theorem shrinks_eraseWhere (t : Tier) (p : EntryKey → Entry → Bool) :
    Shrinks (t.eraseWhere p) t := by
  unfold eraseWhere
  refine List.foldlRecOn t.entries.entries _ (motive := fun t' => Shrinks t' t) (.refl t) ?_
  intro t' ht' e _
  split_ifs
  · exact (shrinks_eraseIterator t' e.1).trans ht'
  · exact ht'

theorem find?_eraseWhere (t : Tier) (p : EntryKey → Entry → Bool) (k : EntryKey) :
    (t.eraseWhere p).entries.find? k = (t.entries.find? k).filter fun e => !p k e := by
  rw [eraseWhere, foldl_remove entries eraseIterator p (fun _ _ => entries_eraseIterator),
    find?_filter]

end Erasing

/-! ## Making room -/

section Room

variable {t t' : Tier} {p : EntryKey → Bool}

theorem eraseOldestMatching_true (h : t.eraseOldestMatching p = (true, t')) :
    ∃ k e, t.entries.find? k = some e ∧ t' = t.eraseIterator k := by
  unfold eraseOldestMatching at h
  split at h
  · simp at h
  · next e he =>
    exact ⟨e.1, e.2, (oldest_eq_some he).1, (Prod.mk.inj h).2.symm⟩

theorem eraseOldestMatching_false (h : t.eraseOldestMatching p = (false, t')) :
    t.entries.total (fun k _ => if p k then 1 else 0) = 0 := by
  unfold eraseOldestMatching at h
  split at h
  · next hnone =>
    by_contra hpos
    obtain ⟨k, e, hmem, hw⟩ := exists_of_total_pos (Nat.pos_of_ne_zero hpos)
    have hp := oldest_eq_none hnone (find?_eq_some_iff.2 hmem)
    simp [hp] at hw
  · simp at h

theorem size_eraseOldestMatching (h : t.eraseOldestMatching p = (true, t')) :
    t'.entries.size < t.entries.size := by
  obtain ⟨k, e, hk, rfl⟩ := eraseOldestMatching_true h
  rw [entries_eraseIterator, size_eq_total, size_eq_total, total_eq_add_erase hk]
  omega

/-- `while (measure >= limit) if (!erase_oldest_matching(p)) return false;`. -/
def makeRoom (measure : Tier → ℕ) (limit : ℕ) (p : EntryKey → Bool) (t : Tier) : Bool × Tier :=
  if limit ≤ measure t then
    match h : t.eraseOldestMatching p with
    | (false, t') => (false, t')
    | (true, t') =>
        have := size_eraseOldestMatching h
        makeRoom measure limit p t'
  else (true, t)
termination_by t.entries.size

/-- **Making room succeeds** where the measure is the number of entries in the class that is
evicted and at least one may stay. -/
theorem makeRoom_succeeds (measure : Tier → ℕ) (limit : ℕ) (p : EntryKey → Bool)
    (hmeasure : ∀ t : Tier, t.Exact → measure t = t.entries.total fun k _ => if p k then 1 else 0)
    (hlimit : 1 ≤ limit) (ht : t.Exact) :
    ∃ t', t.makeRoom measure limit p = (true, t') ∧ t'.Shrinks t ∧ measure t' < limit := by
  fun_induction makeRoom measure limit p t with
  | case1 t hfull t' h =>
    rw [hmeasure t ht, eraseOldestMatching_false h] at hfull
    omega
  | case2 t hfull t' h _ ih =>
    obtain ⟨k, e, -, rfl⟩ := eraseOldestMatching_true h
    obtain ⟨t', hroom, hshrinks, hlt⟩ := ih ht.eraseIterator
    exact ⟨t', hroom, hshrinks.trans (shrinks_eraseIterator t k), hlt⟩
  | case3 t hroom => exact ⟨t, rfl, .refl t, Nat.lt_of_not_le hroom⟩

end Room

/-! ## Limits -/

/-- The three limits of a tier. -/
structure Limits where
  maxEntries : ℕ
  maxPerNetgroup : ℕ
  maxPerHash : ℕ

/-- A tier within its limits. -/
structure Within (t : Tier) (l : Limits) : Prop where
  entries : t.entries.size ≤ l.maxEntries
  netgroup : ∀ g, t.ofNetgroup g ≤ l.maxPerNetgroup
  hash : ∀ hash, t.ofHash hash ≤ l.maxPerHash

section Limits

variable {t t' : Tier} {l : Limits} {k : EntryKey} {e : Entry}

theorem Within.of_shrinks (h : t.Within l) (ht : Shrinks t' t) : t'.Within l := by
  refine ⟨?_, fun g => ht.total_le.trans (h.netgroup g),
    fun hash => ht.total_le.trans (h.hash hash)⟩
  rw [size_eq_total]
  exact ht.total_le.trans (size_eq_total (m := t.entries) ▸ h.entries)

theorem Within.emplace (h : t.Within l) (ht : t.Exact) (hk : t.entries.find? k = none)
    (hentries : t.entries.size < l.maxEntries)
    (hnetgroup : t.netgroupCounts.countOf k.netgroup < l.maxPerNetgroup)
    (hhash : t.hashCounts.countOf k.hash < l.maxPerHash) : (t.emplace k e).Within l := by
  rw [ht.netgroup] at hnetgroup
  rw [ht.hash] at hhash
  refine ⟨?_, fun g => ?_, fun hash => ?_⟩
  · rw [size_emplace hk]
    exact hentries
  · rw [ofNetgroup_emplace hk]
    split_ifs with hg
    · exact hg ▸ hnetgroup
    · exact h.netgroup g
  · rw [ofHash_emplace hk]
    split_ifs with hg
    · exact hg ▸ hhash
    · exact h.hash hash

end Limits

end Tier

/-! ## The store -/

/-- `RCAdmissionStore::Config`. -/
structure AdmissionConfig where
  maxEntries : ℕ := 256
  maxEntriesPerNetgroup : ℕ := 4
  maxValidatedCandidatesPerHash : ℕ := 2
  maxUnknownEntries : ℕ := 32
  maxUnknownEntriesPerNetgroup : ℕ := 2
  maxUnknownCandidatesPerHash : ℕ := 2
  maxUnknownSubmissionsPerNetgroup : ℕ := 8
  unknownSubmissionWindow : ℤ := 60
  ttl : ℤ := 180
  deriving DecidableEq

/-- What the constructor makes of a configuration: every limit is at least one. -/
def AdmissionConfig.atLeastOne (c : AdmissionConfig) : AdmissionConfig :=
  { c with
    maxEntries := max 1 c.maxEntries
    maxEntriesPerNetgroup := max 1 c.maxEntriesPerNetgroup
    maxValidatedCandidatesPerHash := max 1 c.maxValidatedCandidatesPerHash
    maxUnknownEntries := max 1 c.maxUnknownEntries
    maxUnknownEntriesPerNetgroup := max 1 c.maxUnknownEntriesPerNetgroup
    maxUnknownCandidatesPerHash := max 1 c.maxUnknownCandidatesPerHash
    maxUnknownSubmissionsPerNetgroup := max 1 c.maxUnknownSubmissionsPerNetgroup }

/-- The limits of the validated tier. -/
def AdmissionConfig.validatedLimits (c : AdmissionConfig) : Tier.Limits :=
  ⟨c.maxEntries, c.maxEntriesPerNetgroup, c.maxValidatedCandidatesPerHash⟩

/-- The limits of the quarantine. -/
def AdmissionConfig.unknownLimits (c : AdmissionConfig) : Tier.Limits :=
  ⟨c.maxUnknownEntries, c.maxUnknownEntriesPerNetgroup, c.maxUnknownCandidatesPerHash⟩

/-- `RCAdmissionStore::RememberResult`. -/
inductive RememberResult
  | stored
  | duplicate
  | invalid
  | globalQuota
  | netgroupQuota
  | hashQuota
  | rateLimited
  deriving DecidableEq

/-- `RCAdmissionStore`. -/
structure RCAdmissionStore where
  config : AdmissionConfig
  validated : Tier := {}
  unknown : Tier := {}
  unknownSubmissionHistory : OrderedMap ℕ (List ℤ) := .empty
  deriving DecidableEq

namespace RCAdmissionStore

/-- The constructor. -/
def new (config : AdmissionConfig) : RCAdmissionStore := { config := config.atLeastOne }

variable (s : RCAdmissionStore)

/-- An entry past its time to live. -/
def expired (now : ℤ) (e : Entry) : Bool :=
  !decide (now - e.received ≤ seconds s.config.ttl)

/-- `PruneSubmissionHistory`. -/
def pruneSubmissionHistory (now : ℤ) : OrderedMap ℕ (List ℤ) :=
  s.unknownSubmissionHistory.entries.foldl (fun history e =>
    let times := e.2.filter fun submitted =>
      !decide (seconds s.config.unknownSubmissionWindow < now - submitted)
    if times.isEmpty then history.erase e.1 else history.insert e.1 times)
    s.unknownSubmissionHistory

/-- `Prune`. -/
def prune (now : ℤ) : RCAdmissionStore :=
  { s with
    validated := s.validated.eraseWhere fun _ e => s.expired now e
    unknown := s.unknown.eraseWhere fun _ e => s.expired now e
    unknownSubmissionHistory := s.pruneSubmissionHistory now }

/-- `Remember`. The rate is charged before a duplicate is looked for. -/
def remember (ticket : RCAdmissionTicket) (netgroup : ℕ) (now : ℤ) :
    RememberResult × RCAdmissionStore :=
  let s := s.prune now
  let key := entryKey ticket.blockHash netgroup
  if s.config.maxUnknownEntries ≤ s.unknown.entries.size then (.globalQuota, s)
  else if s.config.maxUnknownCandidatesPerHash ≤ s.unknown.hashCounts.countOf ticket.blockHash ∧
      s.unknown.entries.contains key = false then (.hashQuota, s)
  else
    let submissions := (s.unknownSubmissionHistory.find? netgroup).getD []
    if s.config.maxUnknownSubmissionsPerNetgroup ≤ submissions.length then
      (.rateLimited, { s with
        unknownSubmissionHistory := s.unknownSubmissionHistory.insert netgroup submissions })
    else
      let s := { s with unknownSubmissionHistory :=
        s.unknownSubmissionHistory.insert netgroup (submissions ++ [now]) }
      if s.unknown.entries.contains key then (.duplicate, s)
      else if s.config.maxUnknownEntriesPerNetgroup ≤ s.unknown.netgroupCounts.countOf netgroup then
        (.netgroupQuota, s)
      else (.stored, { s with unknown := s.unknown.emplace key ⟨ticket, now⟩ })

variable {β : Type} (env : AdmissionEnv β)

/-- `RememberKnown`. -/
def rememberKnown (ticket : RCAdmissionTicket) (header : CBlockHeader β)
    (netgroup : ℕ) (powLimit : ℕ) (now : ℤ) : RememberResult × RCAdmissionStore :=
  let s := s.prune now
  let key := entryKey (env.getHash header) netgroup
  if ticket.blockHash ≠ env.getHash header ∨ !checkRCAdmissionTicket env ticket header powLimit then
    (.invalid, s)
  else if s.validated.entries.contains key then (.duplicate, s)
  else if s.config.maxValidatedCandidatesPerHash ≤
      s.validated.hashCounts.countOf (env.getHash header) then (.hashQuota, s)
  else if s.config.maxEntries ≤ s.validated.entries.size then (.globalQuota, s)
  else if s.config.maxEntriesPerNetgroup ≤ s.validated.netgroupCounts.countOf netgroup then
    (.netgroupQuota, s)
  else
    (.stored, { s with
      unknown := s.unknown.eraseIterator key
      validated := s.validated.emplace key ⟨ticket, now⟩ })

/-- `Consume`, with the ticket that it hands out where it returns true. -/
def consume (header : CBlockHeader β) (netgroup : ℕ) (powLimit : ℕ)
    (now : ℤ) : Option RCAdmissionTicket × RCAdmissionStore :=
  let s := s.prune now
  let key := entryKey (env.getHash header) netgroup
  match s.validated.entries.find? key with
  | some validated =>
      (some validated.ticket, { s with validated := s.validated.eraseIterator key })
  | none =>
      match s.unknown.entries.find? key with
      | none => (none, s)
      | some unknown =>
          (if checkRCAdmissionTicket env unknown.ticket header powLimit then some unknown.ticket
            else none,
            { s with unknown := s.unknown.eraseIterator key })

/-- `RestoreConsumed`: a loop for each dimension, in which the first failure returns. -/
def restoreConsumed (ticket : RCAdmissionTicket) (header : CBlockHeader β)
    (netgroup : ℕ) (powLimit : ℕ) (now : ℤ) : Bool × RCAdmissionStore :=
  let s := s.prune now
  let hash := env.getHash header
  let key := entryKey hash netgroup
  if ticket.blockHash ≠ hash ∨ !checkRCAdmissionTicket env ticket header powLimit then (false, s)
  else if s.validated.entries.contains key then (true, s)
  else
    let byHash := s.validated.makeRoom (fun t => t.hashCounts.countOf hash)
      s.config.maxValidatedCandidatesPerHash fun k => k.hash = hash
    if !byHash.1 then (false, { s with validated := byHash.2 })
    else
      let byNetgroup := byHash.2.makeRoom (fun t => t.netgroupCounts.countOf netgroup)
        s.config.maxEntriesPerNetgroup fun k => k.netgroup = netgroup
      if !byNetgroup.1 then (false, { s with validated := byNetgroup.2 })
      else
        let byAge :=
          byNetgroup.2.makeRoom (fun t => t.entries.size) s.config.maxEntries fun _ => true
        if !byAge.1 then (false, { s with validated := byAge.2 })
        else (true, { s with validated := byAge.2.emplace key ⟨ticket, now⟩ })

/-- `Erase`: the keys of a hash follow each other in the map. -/
def erase (hash : Uint256) : RCAdmissionStore :=
  { s with
    validated := s.validated.eraseWhere fun k _ => k.hash = hash
    unknown := s.unknown.eraseWhere fun k _ => k.hash = hash }

/-- `Clear`. -/
def clear : RCAdmissionStore := { config := s.config }

end RCAdmissionStore

end Node
end Btx
