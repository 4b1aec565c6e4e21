/-
# Settlement anchors, netting manifests and recovery exits on disk

The three further tables of `NullifierSet` (`src/shielded/nullifier.cpp`), each with the caches of
`Btx.Util.MembershipCache` and the same code up to names (`CachedTable`). An older version stored
netting manifests as a marker of one byte. Their lookup does not accept it, and notes the id as a
*miss*: from then on the membership query denies a manifest that the database holds
(`run_queries_agree`).
-/

import Btx.Shielded.NullifierSet
import Btx.Validation.State

namespace Btx.Validation

open Util Shielded MembershipCache PartialMap Option

/-! ## One table -/

/-- A table of the database with its caches. -/
structure CachedTable (ν : Type*) where
  disk : PartialMap Uint256 ν
  caches : MembershipCache Uint256

namespace CachedTable

variable {ν : Type*}

/-- The table as the constructor leaves it. -/
def construct (disk : PartialMap Uint256 ν) : CachedTable ν := ⟨disk, .empty⟩

variable (t : CachedTable ν)

/-- `…ExistsInDB`. -/
def existsInDB (key : Uint256) : Bool := (t.disk key).isSome

/-- `Contains…`. -/
def contains (key : Uint256) : Bool × CachedTable ν :=
  if key.IsNull then (false, t)
  else
    let answer := t.caches.query nullifierCacheMaxEntries t.existsInDB key
    (answer.1, { t with caches := answer.2 })

/-- The batch of `Insert…`, and the caches after it. -/
def write (records : List (Uint256 × ν)) (written : Bool) : CachedTable ν × Bool :=
  if !written then (t, false)
  else
    ({ disk := t.disk.insertAll records
       caches := t.caches.noteInserted nullifierCacheMaxEntries (records.map Prod.fst) }, true)

/-- `Remove…`. -/
def remove (keys : List Uint256) (written : Bool) : CachedTable ν × Bool :=
  if ∃ key ∈ keys, key.IsNull then (t, false)
  else if !written then (t, false)
  else
    ({ disk := t.disk.eraseAll keys
       caches := t.caches.noteRemoved nullifierCacheMaxEntries keys }, true)

/-- The caches are right about the disk. -/
abbrev Coherent : Prop := t.caches.Coherent t.existsInDB

variable {t : CachedTable ν}

theorem construct_coherent (disk : PartialMap Uint256 ν) : Coherent (construct disk) :=
  coherent_empty _

theorem Coherent.contains_iff (h : Coherent t) (key : Uint256) :
    (t.contains key).1 = true ↔ ¬key.IsNull ∧ (t.disk key).isSome := by
  rw [CachedTable.contains]
  split
  case isTrue hnull => simp [hnull]
  case isFalse hnull =>
    simp only [h.query_fst, existsInDB]
    exact ⟨fun hsome => ⟨hnull, hsome⟩, And.right⟩

theorem Coherent.contains (h : Coherent t) (key : Uint256) : Coherent (t.contains key).2 := by
  rw [CachedTable.contains]
  split
  · exact h
  · exact h.query_snd key

theorem Coherent.write (h : Coherent t) (records : List (Uint256 × ν)) (written : Bool) :
    Coherent (t.write records written).1 := by
  cases written with
  | false => exact h
  | true =>
    refine MembershipCache.Coherent.noteInserted h (fun key hkey => ?_) fun key hkey => ?_
    · exact insertAll_isSome hkey
    · exact congrArg Option.isSome (insertAll_of_notMem hkey)

theorem Coherent.remove (h : Coherent t) (keys : List Uint256) (written : Bool) :
    Coherent (t.remove keys written).1 := by
  rw [CachedTable.remove]
  split
  · exact h
  · cases written with
    | false => exact h
    | true =>
      refine MembershipCache.Coherent.noteRemoved h (fun key hkey => ?_) fun key hkey => ?_
      · exact congrArg Option.isSome ((eraseAll_apply _ _ _).trans (if_pos hkey))
      · exact congrArg Option.isSome ((eraseAll_apply _ _ _).trans (if_neg hkey))

end CachedTable

/-! ## The three tables -/

/-- The value under a key: a record of this version, the one-byte marker of an older one, or
bytes that are neither. -/
inductive StoredRecord (α : Type*) where
  | state (a : α)
  | legacyMarker
  | unreadable
  deriving DecidableEq

/-- The part of `NullifierSet` besides the nullifiers. -/
structure ConfirmedStore where
  settlementAnchors : CachedTable (StoredRecord ConfirmedSettlementAnchorState)
  nettingManifests : CachedTable (StoredRecord ConfirmedNettingManifestState)
  /-- only the keys matter: the value is always the same byte -/
  recoveryExitCommitments : CachedTable Unit

namespace ConfirmedStore

/-! ### Settlement anchors -/

variable (s : ConfirmedStore)

/-- `ContainsSettlementAnchor`. -/
def containsSettlementAnchor (anchor : Uint256) : Bool × ConfirmedStore :=
  let answer := s.settlementAnchors.contains anchor
  (answer.1, { s with settlementAnchors := answer.2 })

/-- `InsertSettlementAnchors` of anchors without their state. -/
def insertSettlementAnchorMarkers (anchors : List Uint256) (written : Bool) :
    ConfirmedStore × Bool :=
  if ∃ anchor ∈ anchors, anchor.IsNull then (s, false)
  else
    let result := s.settlementAnchors.write (anchors.map fun a => (a, .legacyMarker)) written
    ({ s with settlementAnchors := result.1 }, result.2)

/-- `InsertSettlementAnchors`. -/
def insertSettlementAnchors (anchors : List ConfirmedSettlementAnchorState)
    (written : Bool) : ConfirmedStore × Bool :=
  if ∃ a ∈ anchors, ¬a.IsValid then (s, false)
  else
    let result := s.settlementAnchors.write (anchors.map fun a => (a.anchor, .state a)) written
    ({ s with settlementAnchors := result.1 }, result.2)

/-- `RemoveSettlementAnchors`. -/
def removeSettlementAnchors (anchors : List Uint256) (written : Bool) : ConfirmedStore × Bool :=
  let result := s.settlementAnchors.remove anchors written
  ({ s with settlementAnchors := result.1 }, result.2)

/-! ### Netting manifests -/

/-- `ContainsNettingManifest`. -/
def containsNettingManifest (id : Uint256) : Bool × ConfirmedStore :=
  let answer := s.nettingManifests.contains id
  (answer.1, { s with nettingManifests := answer.2 })

/-- What `GetNettingManifestState` makes of the value under a key: nothing if it is no record, or
the record of another manifest, or invalid. -/
def readNettingManifest (id : Uint256) :
    StoredRecord ConfirmedNettingManifestState → Option ConfirmedNettingManifestState
  | .state m =>
      let m := if m.manifestId.IsNull then { m with manifestId := id } else m
      if m.manifestId ≠ id ∨ ¬m.IsValid then none else some m
  | .legacyMarker | .unreadable => none

/-- `GetNettingManifestState`. Whatever it cannot return it notes as a miss. -/
def getNettingManifestState (id : Uint256) :
    Option ConfirmedNettingManifestState × ConfirmedStore :=
  if id.IsNull then (none, s)
  else if s.nettingManifests.caches.misses.contains id then (none, s)
  else
    match (s.nettingManifests.disk id).bind (readNettingManifest id) with
    | some m => (some m, s)
    | none =>
        let caches := s.nettingManifests.caches.rememberMiss nullifierCacheMaxEntries id
        (none, { s with nettingManifests := { s.nettingManifests with caches } })

/-- `InsertNettingManifests`. -/
def insertNettingManifests (manifests : List ConfirmedNettingManifestState)
    (written : Bool) : ConfirmedStore × Bool :=
  if ∃ m ∈ manifests, ¬m.IsValid then (s, false)
  else
    let result := s.nettingManifests.write (manifests.map fun m => (m.manifestId, .state m)) written
    ({ s with nettingManifests := result.1 }, result.2)

/-- `RemoveNettingManifests`. -/
def removeNettingManifests (ids : List Uint256) (written : Bool) : ConfirmedStore × Bool :=
  let result := s.nettingManifests.remove ids written
  ({ s with nettingManifests := result.1 }, result.2)

/-! ### Recovery exits -/

/-- `ContainsRecoveryExitCommitment`. -/
def containsRecoveryExitCommitment (cm : Uint256) : Bool × ConfirmedStore :=
  let answer := s.recoveryExitCommitments.contains cm
  (answer.1, { s with recoveryExitCommitments := answer.2 })

/-- `InsertRecoveryExitCommitments`, the one insertion that refuses an empty list. -/
def insertRecoveryExitCommitments (cms : List Uint256) (written : Bool) : ConfirmedStore × Bool :=
  if cms = [] then (s, false)
  else if ∃ cm ∈ cms, cm.IsNull then (s, false)
  else
    let result := s.recoveryExitCommitments.write (cms.map fun cm => (cm, ())) written
    ({ s with recoveryExitCommitments := result.1 }, result.2)

/-- `RemoveRecoveryExitCommitments`. -/
def removeRecoveryExitCommitments (cms : List Uint256) (written : Bool) : ConfirmedStore × Bool :=
  let result := s.recoveryExitCommitments.remove cms written
  ({ s with recoveryExitCommitments := result.1 }, result.2)

/-! ## Histories -/

/-- A call, with the outcome of its write. -/
inductive Call where
  | containsSettlementAnchor (anchor : Uint256)
  | getSettlementAnchorState (anchor : Uint256)
  | insertSettlementAnchorMarkers (anchors : List Uint256) (written : Bool)
  | insertSettlementAnchors (anchors : List ConfirmedSettlementAnchorState) (written : Bool)
  | removeSettlementAnchors (anchors : List Uint256) (written : Bool)
  | containsNettingManifest (id : Uint256)
  | getNettingManifestState (id : Uint256)
  | insertNettingManifests (manifests : List ConfirmedNettingManifestState) (written : Bool)
  | removeNettingManifests (ids : List Uint256) (written : Bool)
  | containsRecoveryExitCommitment (cm : Uint256)
  | insertRecoveryExitCommitments (cms : List Uint256) (written : Bool)
  | removeRecoveryExitCommitments (cms : List Uint256) (written : Bool)

/-- The store after a call. -/
def after : Call → ConfirmedStore
  | .containsSettlementAnchor anchor => (s.containsSettlementAnchor anchor).2
  | .getSettlementAnchorState _ => s
  | .insertSettlementAnchorMarkers anchors written =>
      (s.insertSettlementAnchorMarkers anchors written).1
  | .insertSettlementAnchors anchors written => (s.insertSettlementAnchors anchors written).1
  | .removeSettlementAnchors anchors written => (s.removeSettlementAnchors anchors written).1
  | .containsNettingManifest id => (s.containsNettingManifest id).2
  | .getNettingManifestState id => (s.getNettingManifestState id).2
  | .insertNettingManifests manifests written => (s.insertNettingManifests manifests written).1
  | .removeNettingManifests ids written => (s.removeNettingManifests ids written).1
  | .containsRecoveryExitCommitment cm => (s.containsRecoveryExitCommitment cm).2
  | .insertRecoveryExitCommitments cms written => (s.insertRecoveryExitCommitments cms written).1
  | .removeRecoveryExitCommitments cms written => (s.removeRecoveryExitCommitments cms written).1

/-- The store after a history of calls. -/
def run (calls : List Call) : ConfirmedStore := calls.foldl after s

/-- The store opened on three tables. -/
def construct (anchors : PartialMap Uint256 (StoredRecord ConfirmedSettlementAnchorState))
    (manifests : PartialMap Uint256 (StoredRecord ConfirmedNettingManifestState))
    (exits : PartialMap Uint256 Unit) : ConfirmedStore where
  settlementAnchors := .construct anchors
  nettingManifests := .construct manifests
  recoveryExitCommitments := .construct exits

/-! ## Membership and disk -/

variable {s : ConfirmedStore}

/-- What the queries should answer: membership is presence on disk, and a manifest that the lookup
returns is a member. -/
structure Agrees (s : ConfirmedStore) : Prop where
  settlementAnchors : ∀ anchor, (s.containsSettlementAnchor anchor).1 = true ↔
    ¬anchor.IsNull ∧ (s.settlementAnchors.disk anchor).isSome
  nettingManifests : ∀ id, (s.containsNettingManifest id).1 = true ↔
    ¬id.IsNull ∧ (s.nettingManifests.disk id).isSome
  recoveryExitCommitments : ∀ cm, (s.containsRecoveryExitCommitment cm).1 = true ↔
    ¬cm.IsNull ∧ (s.recoveryExitCommitments.disk cm).isSome
  lookup : ∀ id, (s.getNettingManifestState id).1.isSome →
    (s.containsNettingManifest id).1 = true

/-- The value under `id` is there and the lookup accepts it. -/
def Readable (s : ConfirmedStore) (id : Uint256) : Prop :=
  ((s.nettingManifests.disk id).bind (readNettingManifest id)).isSome

/-- The invariant behind the answers: the caches are right, and the manifests among the known hits
are readable, since only an insertion puts them there. -/
structure Coherent (s : ConfirmedStore) : Prop where
  settlementAnchors : s.settlementAnchors.Coherent
  nettingManifests : s.nettingManifests.Coherent
  recoveryExitCommitments : s.recoveryExitCommitments.Coherent
  readable : ∀ id, s.nettingManifests.caches.hits.contains id = true → s.Readable id

/-- The calls that keep the answers right: every call but the lookup of a manifest that is on disk
and that the lookup does not accept. -/
def Call.Keeps (s : ConfirmedStore) : Call → Prop
  | .getNettingManifestState id =>
      id.IsNull ∨ s.nettingManifests.disk id = none ∨ s.Readable id
  | _ => True

theorem Readable.isSome {id : Uint256} (h : s.Readable id) :
    (s.nettingManifests.disk id).isSome := by
  rw [Readable, isSome_iff_exists] at h
  obtain ⟨m, hm⟩ := h
  obtain ⟨r, hr, -⟩ := bind_eq_some_iff.mp hm
  rw [hr]
  rfl

theorem readNettingManifest_of_isValid {m : ConfirmedNettingManifestState} (h : m.IsValid) :
    readNettingManifest m.manifestId (.state m) = some m := by
  simp [readNettingManifest, h.1, h]

section

variable (h : Coherent s)

include h

theorem Coherent.agrees : Agrees s where
  settlementAnchors := h.settlementAnchors.contains_iff
  nettingManifests := h.nettingManifests.contains_iff
  recoveryExitCommitments := h.recoveryExitCommitments.contains_iff
  lookup := by
    intro id hlookup
    refine (h.nettingManifests.contains_iff id).mpr ?_
    rw [getNettingManifestState] at hlookup
    split at hlookup
    case isTrue => cases hlookup
    case isFalse hnull =>
      split at hlookup
      case isTrue => cases hlookup
      case isFalse =>
        split at hlookup
        case h_1 m hm =>
          have hreadable : s.Readable id := by
            rw [Readable, hm]
            rfl
          exact ⟨hnull, hreadable.isSome⟩
        case h_2 => cases hlookup

/-! ### One call -/

theorem Coherent.insertNettingManifests
    (manifests : List ConfirmedNettingManifestState) (written : Bool) :
    Coherent (s.insertNettingManifests manifests written).1 := by
  rw [ConfirmedStore.insertNettingManifests]
  split
  case isTrue => exact h
  case isFalse hnone =>
    have hvalid : ∀ m ∈ manifests, m.IsValid := fun m hm =>
      by_contra fun hinvalid => hnone ⟨m, hm, hinvalid⟩
    refine ⟨h.settlementAnchors, h.nettingManifests.write _ _, h.recoveryExitCommitments,
      fun id hid => ?_⟩
    cases written with
    | false => exact h.readable id hid
    | true =>
      let records := manifests.map fun m => (m.manifestId, StoredRecord.state m)
      by_cases hmem : id ∈ records.map Prod.fst
      · obtain ⟨r, hr, hget⟩ := insertAll_of_mem (m := s.nettingManifests.disk) hmem
        obtain ⟨m, hm, heq⟩ := List.mem_map.mp hr
        cases heq
        change ((s.nettingManifests.disk.insertAll records m.manifestId).bind _).isSome
        rw [hget, bind_some, readNettingManifest_of_isValid (hvalid m hm)]
        rfl
      · have hold := (hits_of_noteInserted hid).resolve_left hmem
        change ((s.nettingManifests.disk.insertAll records id).bind _).isSome
        rw [insertAll_of_notMem hmem]
        exact h.readable id hold

theorem Coherent.removeNettingManifests (ids : List Uint256) (written : Bool) :
    Coherent (s.removeNettingManifests ids written).1 := by
  refine ⟨h.settlementAnchors, h.nettingManifests.remove ids written, h.recoveryExitCommitments, ?_⟩
  rw [ConfirmedStore.removeNettingManifests, CachedTable.remove]
  split
  case isTrue => exact h.readable
  case isFalse =>
    cases written with
    | false => exact h.readable
    | true =>
      intro id hid
      obtain ⟨hmem, hold⟩ := hits_of_noteRemoved hid
      change ((s.nettingManifests.disk.eraseAll ids id).bind _).isSome
      rw [eraseAll_apply, if_neg hmem]
      exact h.readable id hold

theorem Coherent.containsNettingManifest (id : Uint256) :
    Coherent (s.containsNettingManifest id).2 := by
  refine ⟨h.settlementAnchors, h.nettingManifests.contains id, h.recoveryExitCommitments, ?_⟩
  rw [ConfirmedStore.containsNettingManifest, CachedTable.contains]
  split
  · exact h.readable
  · intro id' hid'
    refine h.readable id' ?_
    rw [← hid']
    exact congrArg (Generations.contains · id') (query_hits id).symm

theorem Coherent.getNettingManifestState {id : Uint256}
    (hkeeps : Call.Keeps s (.getNettingManifestState id)) :
    Coherent (s.getNettingManifestState id).2 := by
  rw [ConfirmedStore.getNettingManifestState]
  split
  case isTrue => exact h
  case isFalse hnull =>
    split
    case isTrue => exact h
    case isFalse =>
      split
      case h_1 => exact h
      case h_2 hread =>
        have hmissing : s.nettingManifests.disk id = none := by
          refine (hkeeps.resolve_left hnull).resolve_right fun hreadable => ?_
          rw [Readable, hread] at hreadable
          cases hreadable
        have hstored : s.nettingManifests.existsInDB id = false := by
          rw [CachedTable.existsInDB, hmissing]
          rfl
        refine ⟨h.settlementAnchors, h.nettingManifests.rememberMiss hstored,
          h.recoveryExitCommitments, fun id' hid' => h.readable id' ?_⟩
        rw [← hid']
        exact congrArg (Generations.contains · id') (rememberMiss_hits id).symm

theorem Coherent.denied_after_lookup {id : Uint256} (hnull : ¬id.IsNull)
    (hdisk : s.nettingManifests.disk id ≠ none) (hread : ¬s.Readable id) :
    (((s.getNettingManifestState id).2).containsNettingManifest id).1 = false := by
  have hstored : s.nettingManifests.existsInDB id = true := isSome_iff_ne_none.mpr hdisk
  have hmiss : ¬s.nettingManifests.caches.misses.contains id = true := fun hmiss => by
    have := h.nettingManifests.misses id hmiss
    rw [hstored] at this
    cases this
  have hhit : ¬s.nettingManifests.caches.hits.contains id = true := fun hhit =>
    hread (h.readable id hhit)
  have hnone : (s.nettingManifests.disk id).bind (readNettingManifest id) = none := by
    simpa [Readable] using hread
  rw [ConfirmedStore.getNettingManifestState, if_neg hnull, if_neg hmiss, hnone]
  simp only [ConfirmedStore.containsNettingManifest, CachedTable.contains, if_neg hnull]
  rw [MembershipCache.query, rememberMiss_hits, if_neg hhit, if_pos]
  exact misses_rememberMiss_self id

theorem Coherent.withSettlementAnchors
    {t : CachedTable (StoredRecord ConfirmedSettlementAnchorState)} (ht : t.Coherent) :
    Coherent { s with settlementAnchors := t } :=
  ⟨ht, h.nettingManifests, h.recoveryExitCommitments, h.readable⟩

theorem Coherent.withRecoveryExitCommitments {t : CachedTable Unit}
    (ht : t.Coherent) : Coherent { s with recoveryExitCommitments := t } :=
  ⟨h.settlementAnchors, h.nettingManifests, ht, h.readable⟩

/-- One call keeps the caches right, unless it looks up a manifest that is there and not readable.
-/
theorem Coherent.after {call : Call} (hkeeps : call.Keeps s) : Coherent (s.after call) := by
  cases call with
  | containsSettlementAnchor anchor =>
    exact h.withSettlementAnchors (h.settlementAnchors.contains anchor)
  | getSettlementAnchorState anchor => exact h
  | insertSettlementAnchorMarkers anchors written =>
    rw [ConfirmedStore.after, insertSettlementAnchorMarkers]
    split
    · exact h
    · exact h.withSettlementAnchors (h.settlementAnchors.write _ written)
  | insertSettlementAnchors anchors written =>
    rw [ConfirmedStore.after, insertSettlementAnchors]
    split
    · exact h
    · exact h.withSettlementAnchors (h.settlementAnchors.write _ written)
  | removeSettlementAnchors anchors written =>
    exact h.withSettlementAnchors (h.settlementAnchors.remove anchors written)
  | containsNettingManifest id => exact h.containsNettingManifest id
  | getNettingManifestState id => exact h.getNettingManifestState hkeeps
  | insertNettingManifests manifests written => exact h.insertNettingManifests manifests written
  | removeNettingManifests ids written => exact h.removeNettingManifests ids written
  | containsRecoveryExitCommitment cm =>
    exact h.withRecoveryExitCommitments (h.recoveryExitCommitments.contains cm)
  | insertRecoveryExitCommitments cms written =>
    rw [ConfirmedStore.after, insertRecoveryExitCommitments]
    split
    · exact h
    · split
      · exact h
      · exact h.withRecoveryExitCommitments (h.recoveryExitCommitments.write _ written)
  | removeRecoveryExitCommitments cms written =>
    exact h.withRecoveryExitCommitments (h.recoveryExitCommitments.remove cms written)

end

theorem getNettingManifestState_disk (id : Uint256) :
    (s.getNettingManifestState id).2.nettingManifests.disk = s.nettingManifests.disk := by
  rw [getNettingManifestState]
  split
  · rfl
  · split
    · rfl
    · split <;> rfl

/-- **One call**: the answers are right afterwards exactly when it is not the lookup of a manifest
on disk that the lookup does not accept. -/
theorem Coherent.agrees_after_iff (h : Coherent s) (call : Call) :
    Agrees (s.after call) ↔ call.Keeps s := by
  refine ⟨fun hagrees => ?_, fun hkeeps => (h.after hkeeps).agrees⟩
  cases call with
  | getNettingManifestState id =>
    rw [Call.Keeps, or_iff_not_imp_left]
    intro hnull
    rw [or_iff_not_imp_left]
    intro hdisk
    by_contra hread
    have hdenied := h.denied_after_lookup hnull hdisk hread
    have hmember := (hagrees.nettingManifests id).mpr
    rw [ConfirmedStore.after, getNettingManifestState_disk, hdenied] at hmember
    exact Bool.false_ne_true (hmember ⟨hnull, isSome_iff_ne_none.mpr hdisk⟩)
  | _ => trivial

/-! ### Whole histories -/

/-- Every call of a history keeps the answers right. -/
def KeepsAll (s : ConfirmedStore) : List Call → Prop
  | [] => True
  | call :: calls => call.Keeps s ∧ KeepsAll (s.after call) calls

theorem Coherent.run (h : Coherent s) {calls : List Call} (hkeeps : KeepsAll s calls) :
    Coherent (s.run calls) := by
  induction calls generalizing s with
  | nil => exact h
  | cons call calls ih => exact ih (h.after hkeeps.1) hkeeps.2

theorem construct_coherent
    (anchors : PartialMap Uint256 (StoredRecord ConfirmedSettlementAnchorState))
    (manifests : PartialMap Uint256 (StoredRecord ConfirmedNettingManifestState))
    (exits : PartialMap Uint256 Unit) : Coherent (construct anchors manifests exits) where
  settlementAnchors := CachedTable.construct_coherent anchors
  nettingManifests := CachedTable.construct_coherent manifests
  recoveryExitCommitments := CachedTable.construct_coherent exits
  readable := fun id hid => absurd hid (by simp [construct, CachedTable.construct,
    MembershipCache.empty])

/-- **Membership is presence on disk**, for all three kinds and in every history, as long as no
manifest is looked up whose value on disk the lookup does not accept. The condition cannot be
weakened: after the next call the answers are right exactly when it meets the condition itself. -/
theorem run_queries_agree
    (anchors : PartialMap Uint256 (StoredRecord ConfirmedSettlementAnchorState))
    (manifests : PartialMap Uint256 (StoredRecord ConfirmedNettingManifestState))
    (exits : PartialMap Uint256 Unit) (calls : List Call)
    (hkeeps : KeepsAll (construct anchors manifests exits) calls) :
    let s := (construct anchors manifests exits).run calls
    Agrees s ∧ ∀ call : Call, Agrees (s.after call) ↔ call.Keeps s := by
  intro s
  have h : Coherent s := (construct_coherent anchors manifests exits).run hkeeps
  exact ⟨h.agrees, h.agrees_after_iff⟩

/-- A manifest is inserted, looked up, removed and looked up again. -/
theorem agrees_insert_remove : let calls : List Call :=
      [.insertNettingManifests [⟨7, 100, 10⟩] true, .getNettingManifestState 7,
        .removeNettingManifests [7] true, .getNettingManifestState 7]
    KeepsAll (construct .empty .empty .empty) calls ∧
      Agrees ((construct .empty .empty .empty).run calls) := by
  intro calls
  have hkeeps : KeepsAll (construct .empty .empty .empty) calls :=
    ⟨trivial, .inr (.inr (by unfold Readable; decide)), trivial, .inr (.inl (by decide)),
      trivial⟩
  exact ⟨hkeeps, (run_queries_agree .empty .empty .empty calls hkeeps).1⟩

/-- The disk holds the marker of an older version for the manifest 7. The membership query says so;
after one lookup it denies it. -/
theorem legacyMarker_denied_after_lookup :
    let s := construct .empty (PartialMap.empty.insert 7 .legacyMarker) .empty
    (s.containsNettingManifest 7).1 = true ∧
      (s.nettingManifests.disk 7).isSome ∧
      ((s.after (.getNettingManifestState 7)).containsNettingManifest 7).1 = false ∧
      ¬Agrees (s.after (.getNettingManifestState 7)) := by
  intro s
  have hdenied : ((s.after (.getNettingManifestState 7)).containsNettingManifest 7).1 = false := by
    decide
  refine ⟨by decide, by decide, hdenied, fun hagrees => ?_⟩
  have hmember := (hagrees.nettingManifests 7).mpr ⟨by decide, by decide⟩
  rw [hdenied] at hmember
  cases hmember

end ConfirmedStore
end Btx.Validation
