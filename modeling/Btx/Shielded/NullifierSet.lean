/-
# The set of spent nullifiers

`NullifierSet` of `src/shielded/nullifier.cpp`, the part about nullifiers: the set on disk, two
caches (`Btx.Util.MembershipCache`), a counter in memory and one on disk, and a MuHash accumulator
that is built from the disk at the first use. An argument of each call says whether its write
happens. The counters are natural numbers; those of the source do not wrap below `2⁶⁴`
(`run_counts_cover_disk`).

The caches are right after every history (`run_queries_correct`). The counters and the accumulator
are not: `Insert` counts a nullifier that occurs twice in its argument twice, and both `Insert` and
`Remove` change the accumulator before the write that may fail (`run_counts_describe`).
-/

import Btx.Shielded.Bundle
import Btx.Util.MembershipCache
import Mathlib.Algebra.BigOperators.Group.Finset.Basic

namespace Btx.Shielded

open Util List Option

/-- `NULLIFIER_CACHE_MAX_ENTRIES`. -/
def nullifierCacheMaxEntries : ℕ := 2000000

/-! ## MuHash -/

/-- `MuHash3072`, over the group of the residues it multiplies. -/
structure MuHash3072 (G : Type*) where
  numerator : G
  denominator : G
  deriving DecidableEq

namespace MuHash3072

variable {G : Type*} [CommGroup G]

/-- The hash of the empty set. -/
def one : MuHash3072 G := ⟨1, 1⟩

variable (acc : MuHash3072 G)

/-- `Insert`. -/
def insert (x : G) : MuHash3072 G :=
  { acc with numerator := acc.numerator * x }

/-- `Remove`. -/
def remove (x : G) : MuHash3072 G :=
  { acc with denominator := acc.denominator * x }

/-- What `Finalize` hashes. -/
def value : G := acc.numerator / acc.denominator

theorem value_foldl_insert (xs : List G) : (xs.foldl insert acc).value = acc.value * xs.prod := by
  induction xs generalizing acc with
  | nil => rw [foldl_nil, prod_nil, mul_one]
  | cons x xs ih =>
    rw [foldl_cons, ih, prod_cons, value, value, insert, mul_div_right_comm, mul_assoc]

theorem value_foldl_remove (xs : List G) : (xs.foldl remove acc).value = acc.value / xs.prod := by
  induction xs generalizing acc with
  | nil => rw [foldl_nil, prod_nil, div_one]
  | cons x xs ih =>
    rw [foldl_cons, ih, prod_cons, value, value, remove, div_mul_eq_div_div, div_mul_eq_div_div]

end MuHash3072

/-! ## The set -/

/-- `NullifierSet`. -/
structure NullifierSet (G : Type*) where
  /-- the keys under `DB_NULLIFIER` -/
  disk : Finset Nullifier
  /-- the value under `DB_NULLIFIER_COUNT` -/
  persistedCount : ℕ
  /-- `m_cache_*` and `m_miss_cache_*` -/
  caches : MembershipCache Nullifier
  /-- `m_count` -/
  count : ℕ
  accumulator : MuHash3072 G
  accumulatorLoaded : Bool

namespace NullifierSet

variable {G : Type*} [CommGroup G] (element : Nullifier → G)

variable (s : NullifierSet G)

/-- `ExistsInDB`. -/
def existsInDB (nf : Nullifier) : Bool := decide (nf ∈ s.disk)

/-- The constructor, on a disk with or without a count. -/
def construct (disk : Finset Nullifier) (persistedCount : Option ℕ) : NullifierSet G where
  disk := disk
  persistedCount := persistedCount.getD disk.card
  caches := .empty
  count := persistedCount.getD disk.card
  accumulator := .one
  accumulatorLoaded := false

/-- `EnsureNullifierAccumulatorLoaded`: the scan multiplies the elements of all keys, in an order
that makes no difference. -/
def ensureNullifierAccumulatorLoaded : NullifierSet G :=
  if s.accumulatorLoaded then s
  else { s with accumulator := ⟨∏ nf ∈ s.disk, element nf, 1⟩, accumulatorLoaded := true }

/-- The nullifiers that `Insert` takes for new: neither cached nor on disk. -/
def newNullifiers (nfs : List Nullifier) : List Nullifier :=
  nfs.filter fun nf => !s.caches.hits.contains nf && !s.existsInDB nf

/-- `Insert`, with the outcome of the batch write; the second component is what it reports. -/
def insert (s : NullifierSet G) (nfs : List Nullifier) (written : Bool) : NullifierSet G × Bool :=
  if ∃ nf ∈ nfs, nf.IsNull then (s, false)
  else
    let s := s.ensureNullifierAccumulatorLoaded element
    let new := s.newNullifiers nfs
    -- one count for every occurrence, one factor for every element
    let actuallyNew := new.length
    let s := { s with accumulator := (new.dedup.map element).foldl .insert s.accumulator }
    if !written then (s, false)
    else
      ({ s with
          disk := s.disk ∪ nfs.toFinset
          persistedCount := s.count + actuallyNew
          caches := s.caches.noteInserted nullifierCacheMaxEntries nfs
          count := s.count + actuallyNew }, true)

/-- The nullifiers that `Remove` takes for present, each once. -/
def presentNullifiers (nfs : List Nullifier) : List Nullifier :=
  nfs.dedup.filter fun nf => s.caches.hits.contains nf || s.existsInDB nf

/-- `Remove`. -/
def remove (s : NullifierSet G) (nfs : List Nullifier) (written : Bool) : NullifierSet G × Bool :=
  if ∃ nf ∈ nfs, nf.IsNull then (s, false)
  else
    let s := s.ensureNullifierAccumulatorLoaded element
    let present := s.presentNullifiers nfs
    let actuallyRemoved := present.length
    let s := { s with accumulator := (present.map element).foldl .remove s.accumulator }
    if !written then (s, false)
    else
      ({ s with
          disk := s.disk \ nfs.toFinset
          persistedCount := if s.count < actuallyRemoved then 0 else s.count - actuallyRemoved
          caches := s.caches.noteRemoved nullifierCacheMaxEntries nfs
          count := s.count - actuallyRemoved }, true)

/-- `Contains`. -/
def contains (nf : Nullifier) : Bool × NullifierSet G :=
  if nf.IsNull then (false, s)
  else
    let answer := s.caches.query nullifierCacheMaxEntries s.existsInDB nf
    (answer.1, { s with caches := answer.2 })

/-- The first loop of `AnyExist`: nothing when it answers true, otherwise the nullifiers that no
cache knows. -/
def unknownNullifiers (c : MembershipCache Nullifier) : List Nullifier → Option (List Nullifier)
  | [] => some []
  | nf :: nfs =>
      if nf.IsNull then none
      else if c.hits.contains nf then none
      else (unknownNullifiers c nfs).map fun rest =>
        if c.misses.contains nf then rest else nf :: rest

/-- The last loop of `AnyExist`, which notes the misses. -/
def noteMisses : List Nullifier → MembershipCache Nullifier → Bool × MembershipCache Nullifier
  | [], c => (false, c)
  | nf :: nfs, c =>
      if c.hits.contains nf then (true, c)
      else noteMisses nfs (c.rememberMiss nullifierCacheMaxEntries nf)

/-- `AnyExist`. -/
def anyExist (nfs : List Nullifier) : Bool × NullifierSet G :=
  match unknownNullifiers s.caches nfs with
  | none => (true, s)
  | some unknown =>
      if unknown.any s.existsInDB then (true, s)
      else
        let answer := noteMisses nfs s.caches
        (answer.1, { s with caches := answer.2 })

/-! ## Histories -/

/-- A call, with the outcome of its write. -/
inductive Call where
  | insert (nfs : List Nullifier) (written : Bool)
  | remove (nfs : List Nullifier) (written : Bool)
  | contains (nf : Nullifier)
  | anyExist (nfs : List Nullifier)
  deriving DecidableEq

/-- The set after a call. -/
def after : Call → NullifierSet G
  | .insert nfs written => (s.insert element nfs written).1
  | .remove nfs written => (s.remove element nfs written).1
  | .contains nf => (s.contains nf).2
  | .anyExist nfs => (s.anyExist nfs).2

/-- The set after a history of calls. -/
def run (calls : List Call) : NullifierSet G := calls.foldl (after element) s

/-! ## The caches -/

section Caches

variable {element} {s : NullifierSet G}

/-- The caches are right about the disk. -/
abbrev CachesCoherent (s : NullifierSet G) : Prop := s.caches.Coherent s.existsInDB

theorem ensureLoaded_disk : (s.ensureNullifierAccumulatorLoaded element).disk = s.disk := by
  rw [ensureNullifierAccumulatorLoaded]
  split <;> rfl

theorem ensureLoaded_caches : (s.ensureNullifierAccumulatorLoaded element).caches = s.caches := by
  rw [ensureNullifierAccumulatorLoaded]
  split <;> rfl

theorem ensureLoaded_count : (s.ensureNullifierAccumulatorLoaded element).count = s.count := by
  rw [ensureNullifierAccumulatorLoaded]
  split <;> rfl

theorem ensureLoaded_persistedCount :
    (s.ensureNullifierAccumulatorLoaded element).persistedCount = s.persistedCount := by
  rw [ensureNullifierAccumulatorLoaded]
  split <;> rfl

variable {c : MembershipCache Nullifier}

section

omit [CommGroup G]

theorem unknownNullifiers_eq_none {nfs : List Nullifier} (h : unknownNullifiers c nfs = none) :
    ∃ nf ∈ nfs, nf.IsNull ∨ c.hits.contains nf = true := by
  induction nfs with
  | nil => cases h
  | cons nf nfs ih =>
    rw [unknownNullifiers] at h
    split at h
    case isTrue hnull => exact ⟨nf, mem_cons_self, .inl hnull⟩
    case isFalse =>
      split at h
      case isTrue hhit => exact ⟨nf, mem_cons_self, .inr hhit⟩
      case isFalse =>
        obtain ⟨nf', hmem, hcase⟩ := ih (map_eq_none_iff.mp h)
        exact ⟨nf', mem_cons_of_mem nf hmem, hcase⟩

theorem unknownNullifiers_eq_some {nfs unknown : List Nullifier}
    (h : unknownNullifiers c nfs = some unknown) :
    (∀ nf ∈ nfs, ¬nf.IsNull ∧ c.hits.contains nf = false ∧
      (c.misses.contains nf = true ∨ nf ∈ unknown)) ∧ ∀ nf ∈ unknown, nf ∈ nfs := by
  induction nfs generalizing unknown with
  | nil =>
    obtain rfl : [] = unknown := some.inj h
    simp
  | cons nf nfs ih =>
    rw [unknownNullifiers] at h
    split at h
    case isTrue => cases h
    case isFalse hnull =>
      split at h
      case isTrue => cases h
      case isFalse hhit =>
        obtain ⟨rest, hrest, rfl⟩ := map_eq_some_iff.mp h
        obtain ⟨hall, hsub⟩ := ih hrest
        by_cases hmiss : c.misses.contains nf = true
        · simp only [hmiss, if_true]
          refine ⟨forall_mem_cons.mpr ⟨⟨hnull, by simpa using hhit, .inl hmiss⟩, hall⟩,
            fun nf' hmem => mem_cons_of_mem nf (hsub nf' hmem)⟩
        · simp only [hmiss, Bool.false_eq_true, if_false]
          refine ⟨forall_mem_cons.mpr ⟨⟨hnull, by simpa using hhit,
            .inr mem_cons_self⟩, fun nf' hmem => ?_⟩, fun nf' hmem => ?_⟩
          · obtain ⟨h1, h2, h3⟩ := hall nf' hmem
            exact ⟨h1, h2, h3.imp_right (mem_cons_of_mem nf)⟩
          · rcases mem_cons.mp hmem with rfl | hmem
            · exact mem_cons_self
            · exact mem_cons_of_mem nf (hsub nf' hmem)

theorem noteMisses_of_coherent {stored : Nullifier → Bool} {nfs : List Nullifier}
    (h : c.Coherent stored) (hnfs : ∀ nf ∈ nfs, stored nf = false) :
    (noteMisses nfs c).1 = false ∧ (noteMisses nfs c).2.Coherent stored := by
  induction nfs generalizing c with
  | nil => exact ⟨rfl, h⟩
  | cons nf nfs ih =>
    obtain ⟨hnf, hrest⟩ := forall_mem_cons.mp hnfs
    have hhit : ¬c.hits.contains nf = true := fun hhit => by simp [h.hits nf hhit] at hnf
    rw [noteMisses, if_neg hhit]
    exact ih (h.rememberMiss hnf) hrest

theorem CachesCoherent.not_stored (h : CachesCoherent s) {nfs unknown : List Nullifier}
    (hunknown : unknownNullifiers s.caches nfs = some unknown)
    (hany : ¬unknown.any s.existsInDB = true) :
    ∀ nf ∈ nfs, ¬nf.IsNull ∧ s.existsInDB nf = false := by
  intro nf hmem
  obtain ⟨hnull, -, hmiss | hmem'⟩ := (unknownNullifiers_eq_some hunknown).1 nf hmem
  · exact ⟨hnull, h.misses nf hmiss⟩
  · refine ⟨hnull, ?_⟩
    simpa using fun hstored => hany (any_eq_true.mpr ⟨nf, hmem', hstored⟩)

theorem CachesCoherent.contains_iff (h : CachesCoherent s) (nf : Nullifier) :
    (s.contains nf).1 = true ↔ ¬nf.IsNull ∧ nf ∈ s.disk := by
  rw [contains]
  split
  case isTrue hnull => simp [hnull]
  case isFalse hnull =>
    simp only [h.query_fst, existsInDB, decide_eq_true_eq]
    exact ⟨fun hmem => ⟨hnull, hmem⟩, fun hmem => hmem.2⟩

theorem CachesCoherent.anyExist_iff (h : CachesCoherent s) (nfs : List Nullifier) :
    (s.anyExist nfs).1 = true ↔ ∃ nf ∈ nfs, nf.IsNull ∨ nf ∈ s.disk := by
  rw [anyExist]
  split
  case h_1 hnone =>
    obtain ⟨nf, hmem, hcase⟩ := unknownNullifiers_eq_none hnone
    have hdisk : s.caches.hits.contains nf = true → nf ∈ s.disk := fun hhit => by
      simpa [existsInDB] using h.hits nf hhit
    exact ⟨fun _ => ⟨nf, hmem, hcase.imp_right hdisk⟩, fun _ => rfl⟩
  case h_2 unknown hunknown =>
    split
    case isTrue hany =>
      obtain ⟨nf, hmem, hstored⟩ := any_eq_true.mp hany
      exact ⟨fun _ => ⟨nf, (unknownNullifiers_eq_some hunknown).2 nf hmem,
        .inr (by simpa [existsInDB] using hstored)⟩, fun _ => rfl⟩
    case isFalse hany =>
      have hnot := h.not_stored hunknown hany
      rw [(noteMisses_of_coherent h fun nf hmem => (hnot nf hmem).2).1]
      refine ⟨fun hfalse => absurd hfalse Bool.false_ne_true, ?_⟩
      rintro ⟨nf, hmem, hnull | hdisk⟩
      · exact absurd hnull (hnot nf hmem).1
      · exact absurd hdisk (by simpa [existsInDB] using (hnot nf hmem).2)

end

/-- **One call keeps the caches right**, with or without a write, with or without a rotation. -/
theorem CachesCoherent.after (h : CachesCoherent s) (call : Call) :
    CachesCoherent (s.after element call) := by
  cases call with
  | insert nfs written =>
    rw [NullifierSet.after, NullifierSet.insert]
    split
    · exact h
    · simp only [ensureLoaded_disk, ensureLoaded_caches]
      cases written with
      | false => exact h
      | true =>
        refine MembershipCache.Coherent.noteInserted h (fun nf hnf => ?_) fun nf hnf => ?_
        · exact decide_eq_true (Finset.mem_union_right _ (mem_toFinset.mpr hnf))
        · simp [existsInDB, hnf]
  | remove nfs written =>
    rw [NullifierSet.after, NullifierSet.remove]
    split
    · exact h
    · simp only [ensureLoaded_disk, ensureLoaded_caches]
      cases written with
      | false => exact h
      | true =>
        refine MembershipCache.Coherent.noteRemoved h (fun nf hnf => ?_) fun nf hnf => ?_
        · simp [existsInDB, hnf]
        · simp [existsInDB, hnf]
  | contains nf =>
    rw [NullifierSet.after, NullifierSet.contains]
    split
    · exact h
    · exact h.query_snd nf
  | anyExist nfs =>
    rw [NullifierSet.after, NullifierSet.anyExist]
    split
    · exact h
    case h_2 unknown hunknown =>
      split
      case isTrue => exact h
      case isFalse hany =>
        exact (noteMisses_of_coherent h fun nf hmem => (h.not_stored hunknown hany nf hmem).2).2

theorem CachesCoherent.run (h : CachesCoherent s) (calls : List Call) :
    CachesCoherent (s.run element calls) := by
  induction calls generalizing s with
  | nil => exact h
  | cons call calls ih => exact ih (h.after call)

theorem construct_coherent (disk : Finset Nullifier) (persistedCount : Option ℕ) :
    CachesCoherent (construct disk persistedCount : NullifierSet G) :=
  MembershipCache.coherent_empty _

/-- **Queries answer for the disk.** After every history, with any rotations and failed writes:
* a nullifier is contained exactly when it is not null and on disk;
* one of several exists exactly when one of them is null or on disk;
* the cached nullifiers are on disk, and the cached misses are not. -/
theorem run_queries_correct (element : Nullifier → G) (disk : Finset Nullifier)
    (persistedCount : Option ℕ) (calls : List Call) :
    let s := (construct disk persistedCount).run element calls
    (∀ nf, (s.contains nf).1 = true ↔ ¬nf.IsNull ∧ nf ∈ s.disk) ∧
      (∀ nfs, (s.anyExist nfs).1 = true ↔ ∃ nf ∈ nfs, nf.IsNull ∨ nf ∈ s.disk) ∧
      (∀ nf, s.caches.hits.contains nf = true → nf ∈ s.disk) ∧
      ∀ nf, s.caches.misses.contains nf = true → nf ∉ s.disk := by
  intro s
  have h : CachesCoherent s := (construct_coherent disk persistedCount).run calls
  refine ⟨h.contains_iff, h.anyExist_iff, fun nf hhit => ?_, fun nf hmiss => ?_⟩
  · simpa [existsInDB] using h.hits nf hhit
  · simpa [existsInDB] using h.misses nf hmiss

end Caches

/-! ## The counters and the accumulator -/

section Describes

/-- What `NullifierAccumulatorDigest` hashes. -/
def accumulatorValue (s : NullifierSet G) : G :=
  (s.ensureNullifierAccumulatorLoaded element).accumulator.value

/-- Counters and accumulator describe the nullifiers on disk. -/
structure Describes (s : NullifierSet G) : Prop where
  count : s.count = s.disk.card
  persistedCount : s.persistedCount = s.disk.card
  accumulator : s.accumulatorValue element = ∏ nf ∈ s.disk, element nf

/-- Nothing that the counters and the accumulator are about has changed. -/
structure SameContents (s s' : NullifierSet G) : Prop where
  disk : s'.disk = s.disk
  count : s'.count = s.count
  persistedCount : s'.persistedCount = s.persistedCount
  accumulator : s'.accumulatorValue element = s.accumulatorValue element

/-- What a call reports; a query does not fail. -/
def reported (s : NullifierSet G) : Call → Bool
  | .insert nfs written => (s.insert element nfs written).2
  | .remove nfs written => (s.remove element nfs written).2
  | .contains _ | .anyExist _ => true

/-- The calls that keep counters and accumulator in step with the disk. A written insertion must not
hold a new nullifier twice; a call that is not written must have nothing to insert or to remove. -/
def Call.Keeps (s : NullifierSet G) : Call → Prop
  | .insert nfs true => (∃ nf ∈ nfs, nf.IsNull) ∨ (nfs.filter (· ∉ s.disk)).Nodup
  | .insert nfs false =>
      (∃ nf ∈ nfs, nf.IsNull) ∨ ∏ nf ∈ nfs.toFinset \ s.disk, element nf = 1
  | .remove _ true => True
  | .remove nfs false =>
      (∃ nf ∈ nfs, nf.IsNull) ∨ ∏ nf ∈ nfs.toFinset ∩ s.disk, element nf = 1
  | .contains _ | .anyExist _ => True

variable {element} {s : NullifierSet G} (disk : Finset Nullifier)

section

omit [CommGroup G]

theorem CachesCoherent.hit_or_exists (h : CachesCoherent s) (nf : Nullifier) :
    (s.caches.hits.contains nf || s.existsInDB nf) = decide (nf ∈ s.disk) := by
  have hstored : s.existsInDB nf = decide (nf ∈ s.disk) := rfl
  cases hhit : s.caches.hits.contains nf with
  | false => rw [Bool.false_or, hstored]
  | true => rw [Bool.true_or, ← hstored, h.hits nf hhit]

theorem CachesCoherent.newNullifiers_eq (h : CachesCoherent s) (nfs : List Nullifier) :
    s.newNullifiers nfs = nfs.filter (· ∉ s.disk) := by
  refine filter_congr fun nf _ => ?_
  rw [← Bool.not_or, h.hit_or_exists, decide_not]

theorem CachesCoherent.presentNullifiers_eq (h : CachesCoherent s) (nfs : List Nullifier) :
    s.presentNullifiers nfs = nfs.dedup.filter (· ∈ s.disk) :=
  filter_congr fun nf _ => h.hit_or_exists nf

variable (nfs : List Nullifier)

theorem toFinset_present : (nfs.dedup.filter (· ∈ disk)).toFinset = nfs.toFinset ∩ disk := by
  ext nf
  simp

theorem length_present : (nfs.dedup.filter (· ∈ disk)).length = (nfs.toFinset ∩ disk).card := by
  rw [← toFinset_present, toFinset_card_of_nodup ((nodup_dedup nfs).filter _)]

theorem toFinset_new : (nfs.filter (· ∉ disk)).toFinset = nfs.toFinset \ disk := by
  ext nf
  simp

theorem length_new_eq_iff :
    (nfs.filter (· ∉ disk)).length = (nfs.toFinset \ disk).card ↔
      (nfs.filter (· ∉ disk)).Nodup := by
  rw [← toFinset_new, List.card_toFinset]
  constructor
  · intro hlen
    exact dedup_eq_self.mp ((dedup_sublist _).eq_of_length hlen.symm)
  · intro hnodup
    rw [hnodup.dedup]

end

section

variable (h : CachesCoherent s)

include h

theorem CachesCoherent.ensureLoaded :
    CachesCoherent (s.ensureNullifierAccumulatorLoaded element) := by
  have hstored : (s.ensureNullifierAccumulatorLoaded element).existsInDB = s.existsInDB := by
    funext nf
    rw [existsInDB, existsInDB, ensureLoaded_disk]
  rw [CachesCoherent, hstored, ensureLoaded_caches]
  exact h

theorem CachesCoherent.loaded_newNullifiers_eq (element : Nullifier → G) (nfs : List Nullifier) :
    (s.ensureNullifierAccumulatorLoaded element).newNullifiers nfs = nfs.filter (· ∉ s.disk) := by
  rw [h.ensureLoaded.newNullifiers_eq, ensureLoaded_disk]

theorem CachesCoherent.loaded_presentNullifiers_eq
    (element : Nullifier → G) (nfs : List Nullifier) :
    (s.ensureNullifierAccumulatorLoaded element).presentNullifiers nfs =
      nfs.dedup.filter (· ∈ s.disk) := by
  rw [h.ensureLoaded.presentNullifiers_eq, ensureLoaded_disk]

end

theorem accumulatorValue_of_loaded (h : s.accumulatorLoaded = true) :
    s.accumulatorValue element = s.accumulator.value := by
  rw [accumulatorValue, ensureNullifierAccumulatorLoaded, if_pos h]

theorem ensureLoaded_loaded :
    (s.ensureNullifierAccumulatorLoaded element).accumulatorLoaded = true := by
  rw [ensureNullifierAccumulatorLoaded]
  split
  case isTrue h => exact h
  case isFalse => rfl

theorem prod_new (nfs : List Nullifier) :
    ((nfs.filter (· ∉ disk)).dedup.map element).prod = ∏ nf ∈ nfs.toFinset \ disk, element nf := by
  have hset : (nfs.filter (· ∉ disk)).dedup.toFinset = nfs.toFinset \ disk := by
    ext nf
    simp
  rw [← hset, prod_toFinset _ (nodup_dedup _)]

theorem prod_present (nfs : List Nullifier) :
    ((nfs.dedup.filter (· ∈ disk)).map element).prod = ∏ nf ∈ nfs.toFinset ∩ disk, element nf := by
  rw [← toFinset_present, prod_toFinset _ ((nodup_dedup nfs).filter _)]

/-! ### What a call does, field by field -/

theorem insert_of_null {nfs : List Nullifier} {written : Bool} (hnull : ∃ nf ∈ nfs, nf.IsNull) :
    s.insert element nfs written = (s, false) := by
  rw [insert, if_pos hnull]

theorem remove_of_null {nfs : List Nullifier} {written : Bool} (hnull : ∃ nf ∈ nfs, nf.IsNull) :
    s.remove element nfs written = (s, false) := by
  rw [remove, if_pos hnull]

section Fields

variable (element) {nfs : List Nullifier} (written : Bool) (hc : CachesCoherent s)
  (hnull : ¬∃ nf ∈ nfs, nf.IsNull)

include hc hnull

theorem insert_accumulator :
    let s' := (s.insert element nfs written).1
    s'.accumulatorLoaded = true ∧
      s'.accumulator = ((nfs.filter (· ∉ s.disk)).dedup.map element).foldl .insert
        (s.ensureNullifierAccumulatorLoaded element).accumulator := by
  have hnew := hc.loaded_newNullifiers_eq element nfs
  rw [insert, if_neg hnull]
  simp only [hnew]
  cases written <;> exact ⟨ensureLoaded_loaded, rfl⟩

theorem remove_accumulator :
    let s' := (s.remove element nfs written).1
    s'.accumulatorLoaded = true ∧
      s'.accumulator = ((nfs.dedup.filter (· ∈ s.disk)).map element).foldl .remove
        (s.ensureNullifierAccumulatorLoaded element).accumulator := by
  have hpresent := hc.loaded_presentNullifiers_eq element nfs
  rw [remove, if_neg hnull]
  simp only [hpresent]
  cases written <;> exact ⟨ensureLoaded_loaded, rfl⟩

theorem insert_accumulatorValue : (s.insert element nfs written).1.accumulatorValue element =
      s.accumulatorValue element * ∏ nf ∈ nfs.toFinset \ s.disk, element nf := by
  obtain ⟨hloaded, haccumulator⟩ := insert_accumulator element written hc hnull
  rw [accumulatorValue_of_loaded hloaded, haccumulator, MuHash3072.value_foldl_insert, prod_new]
  rfl

theorem remove_accumulatorValue : (s.remove element nfs written).1.accumulatorValue element =
      s.accumulatorValue element / ∏ nf ∈ nfs.toFinset ∩ s.disk, element nf := by
  obtain ⟨hloaded, haccumulator⟩ := remove_accumulator element written hc hnull
  rw [accumulatorValue_of_loaded hloaded, haccumulator, MuHash3072.value_foldl_remove, prod_present]
  rfl

theorem insert_written :
    let s' := (s.insert element nfs true).1
    s'.disk = s.disk ∪ nfs.toFinset ∧ s'.persistedCount = s'.count ∧
      s'.count = s.count + (nfs.filter (· ∉ s.disk)).length := by
  have hnew := hc.loaded_newNullifiers_eq element nfs
  rw [insert, if_neg hnull]
  simp only [hnew, ensureLoaded_disk, ensureLoaded_count, Bool.not_true, Bool.false_eq_true,
    if_false]
  exact ⟨trivial, trivial, trivial⟩

theorem remove_written :
    let s' := (s.remove element nfs true).1
    s'.disk = s.disk \ nfs.toFinset ∧ s'.persistedCount = s'.count ∧
      s'.count = s.count - (nfs.toFinset ∩ s.disk).card := by
  have hpresent := hc.loaded_presentNullifiers_eq element nfs
  rw [remove, if_neg hnull]
  simp only [hpresent, ensureLoaded_disk, ensureLoaded_count, Bool.not_true, Bool.false_eq_true,
    if_false, length_present]
  refine ⟨trivial, ?_, trivial⟩
  split <;> omega

end Fields

theorem insert_not_written (element : Nullifier → G) (s : NullifierSet G) (nfs : List Nullifier) :
    let s' := (s.insert element nfs false).1
    s'.disk = s.disk ∧ s'.persistedCount = s.persistedCount ∧ s'.count = s.count := by
  rw [insert]
  split
  · exact ⟨rfl, rfl, rfl⟩
  · exact ⟨ensureLoaded_disk, ensureLoaded_persistedCount, ensureLoaded_count⟩

theorem remove_not_written (element : Nullifier → G) (s : NullifierSet G) (nfs : List Nullifier) :
    let s' := (s.remove element nfs false).1
    s'.disk = s.disk ∧ s'.persistedCount = s.persistedCount ∧ s'.count = s.count := by
  rw [remove]
  split
  · exact ⟨rfl, rfl, rfl⟩
  · exact ⟨ensureLoaded_disk, ensureLoaded_persistedCount, ensureLoaded_count⟩

/-! ### What keeps the three in step -/

theorem accumulatorValue_eq : s.accumulatorValue element =
    if s.accumulatorLoaded then s.accumulator.value else ∏ nf ∈ s.disk, element nf := by
  rw [accumulatorValue, ensureNullifierAccumulatorLoaded]
  split
  · rfl
  · exact div_one _

theorem SameContents.refl (s : NullifierSet G) : SameContents element s s := ⟨rfl, rfl, rfl, rfl⟩

theorem SameContents.caches (c : MembershipCache Nullifier) :
    SameContents element s { s with caches := c } :=
  ⟨rfl, rfl, rfl, by rw [accumulatorValue_eq, accumulatorValue_eq]⟩

theorem contains_sameContents (nf : Nullifier) : SameContents element s (s.contains nf).2 := by
  rw [contains]
  split
  · exact .refl s
  · exact .caches _

theorem anyExist_sameContents (nfs : List Nullifier) :
    SameContents element s (s.anyExist nfs).2 := by
  rw [anyExist]
  split
  · exact .refl s
  · split
    · exact .refl s
    · exact .caches _

variable {s' : NullifierSet G}

theorem SameContents.describes (h : SameContents element s s')
    (hs : Describes element s) : Describes element s' where
  count := by rw [h.count, h.disk, hs.count]
  persistedCount := by rw [h.persistedCount, h.disk, hs.persistedCount]
  accumulator := by rw [h.accumulator, h.disk, hs.accumulator]

/-- A call is sound: afterwards the counters and the accumulator describe the disk, and if it
reports failure it has changed nothing. -/
def Sound (element : Nullifier → G) (s : NullifierSet G) (call : Call) : Prop :=
  Describes element (s.after element call) ∧
    (s.reported element call = false → SameContents element s (s.after element call))

theorem SameContents.sound {call : Call} (h : SameContents element s (s.after element call))
    (hs : Describes element s) : Sound element s call :=
  ⟨h.describes hs, fun _ => h⟩

section Step

variable (hc : CachesCoherent s) (hs : Describes element s) {nfs : List Nullifier}
  (hnull : ¬∃ nf ∈ nfs, nf.IsNull)

include hc hs hnull

theorem sound_insert_written_iff :
    Sound element s (.insert nfs true) ↔ (nfs.filter (· ∉ s.disk)).Nodup := by
  obtain ⟨hdisk, hpersisted, hcount⟩ := insert_written element hc hnull
  have hreported : s.reported element (.insert nfs true) = true := by
    rw [reported, insert, if_neg hnull]
    rfl
  have hcard : (s.disk ∪ nfs.toFinset).card = s.disk.card + (nfs.toFinset \ s.disk).card := by
    rw [← Finset.union_sdiff_self_eq_union, Finset.card_union_of_disjoint Finset.disjoint_sdiff]
  rw [← length_new_eq_iff]
  constructor
  · rintro ⟨hdescribes, -⟩
    have hcard' := hdescribes.count
    rw [after, hcount, hdisk, hs.count, hcard] at hcard'
    omega
  · intro hlen
    have hcount' : (s.insert element nfs true).1.count =
        (s.insert element nfs true).1.disk.card := by
      rw [hcount, hdisk, hs.count, hcard, hlen]
    refine ⟨⟨hcount', hpersisted.trans hcount', ?_⟩, fun hfalse => ?_⟩
    · rw [after, insert_accumulatorValue element true hc hnull, hs.accumulator, hdisk,
        ← Finset.union_sdiff_self_eq_union, Finset.prod_union Finset.disjoint_sdiff]
    · rw [hreported] at hfalse
      cases hfalse

theorem sound_insert_not_written_iff :
    Sound element s (.insert nfs false) ↔ ∏ nf ∈ nfs.toFinset \ s.disk, element nf = 1 := by
  obtain ⟨hdisk, hpersisted, hcount⟩ := insert_not_written element s nfs
  have haccumulator := insert_accumulatorValue element false hc hnull
  constructor
  · rintro ⟨hdescribes, -⟩
    have hprod := hdescribes.accumulator
    rw [after, haccumulator, hdisk, hs.accumulator] at hprod
    exact mul_eq_left.mp hprod
  · intro hone
    rw [hone, mul_one] at haccumulator
    exact SameContents.sound ⟨hdisk, hcount, hpersisted, haccumulator⟩ hs

theorem sound_remove_written : Sound element s (.remove nfs true) := by
  obtain ⟨hdisk, hpersisted, hcount⟩ := remove_written element hc hnull
  have hsplit : s.disk \ nfs.toFinset = s.disk \ (nfs.toFinset ∩ s.disk) := by
    rw [Finset.sdiff_inter_self_right]
  have hcount' : (s.remove element nfs true).1.count =
      (s.remove element nfs true).1.disk.card := by
    rw [hcount, hdisk, hs.count, hsplit, Finset.card_sdiff_of_subset Finset.inter_subset_right]
  refine ⟨⟨hcount', hpersisted.trans hcount', ?_⟩, fun hfalse => ?_⟩
  · rw [after, remove_accumulatorValue element true hc hnull, hs.accumulator, hdisk,
      hsplit, div_eq_iff_eq_mul, Finset.prod_sdiff Finset.inter_subset_right]
  · rw [reported, remove, if_neg hnull] at hfalse
    cases hfalse

theorem sound_remove_not_written_iff :
    Sound element s (.remove nfs false) ↔ ∏ nf ∈ nfs.toFinset ∩ s.disk, element nf = 1 := by
  obtain ⟨hdisk, hpersisted, hcount⟩ := remove_not_written element s nfs
  have haccumulator := remove_accumulatorValue element false hc hnull
  constructor
  · rintro ⟨hdescribes, -⟩
    have hprod := hdescribes.accumulator
    rw [after, haccumulator, hdisk, hs.accumulator] at hprod
    exact div_eq_self.mp hprod
  · intro hone
    rw [hone, div_one] at haccumulator
    exact SameContents.sound ⟨hdisk, hcount, hpersisted, haccumulator⟩ hs

end Step

/-- **One call**: it is sound exactly when it keeps the three in step. -/
theorem sound_iff (hc : CachesCoherent s) (hs : Describes element s) (call : Call) :
    Sound element s call ↔ call.Keeps element s := by
  cases call with
  | insert nfs written =>
    by_cases hnull : ∃ nf ∈ nfs, nf.IsNull
    · have hsame : SameContents element s (s.after element (.insert nfs written)) := by
        rw [after, insert_of_null hnull]
        exact .refl s
      cases written <;> exact iff_of_true (hsame.sound hs) (.inl hnull)
    · cases written with
      | false => exact (sound_insert_not_written_iff hc hs hnull).trans (or_iff_right hnull).symm
      | true => exact (sound_insert_written_iff hc hs hnull).trans (or_iff_right hnull).symm
  | remove nfs written =>
    by_cases hnull : ∃ nf ∈ nfs, nf.IsNull
    · have hsame : SameContents element s (s.after element (.remove nfs written)) := by
        rw [after, remove_of_null hnull]
        exact .refl s
      cases written with
      | false => exact iff_of_true (hsame.sound hs) (.inl hnull)
      | true => exact iff_of_true (hsame.sound hs) trivial
    · cases written with
      | false => exact (sound_remove_not_written_iff hc hs hnull).trans (or_iff_right hnull).symm
      | true => exact iff_of_true (sound_remove_written hc hs hnull) trivial
  | contains nf => exact iff_of_true ((contains_sameContents nf).sound hs) trivial
  | anyExist nfs => exact iff_of_true ((anyExist_sameContents nfs).sound hs) trivial

/-- Every call of a history keeps the three in step. -/
def KeepsAll (element : Nullifier → G) (s : NullifierSet G) : List Call → Prop
  | [] => True
  | call :: calls => call.Keeps element s ∧ KeepsAll element (s.after element call) calls

/-- Calls that keep the description, one after another. -/
theorem Describes.run {calls : List Call} (hs : Describes element s) (hc : CachesCoherent s)
    (hkeeps : KeepsAll element s calls) : Describes element (s.run element calls) := by
  induction calls generalizing s with
  | nil => exact hs
  | cons call calls ih =>
    obtain ⟨hcall, hcalls⟩ := hkeeps
    exact ih ((sound_iff hc hs call).mpr hcall).1 (hc.after call) hcalls

theorem construct_describes {disk : Finset Nullifier} {persistedCount : Option ℕ}
    (hcount : persistedCount.getD disk.card = disk.card) :
    Describes element (construct disk persistedCount : NullifierSet G) where
  count := hcount
  persistedCount := hcount
  accumulator := by
    rw [accumulatorValue_eq]
    rfl

/-- **Counters and accumulator describe the disk**, in every history from a set opened with its own
count, as long as every call keeps them in step. The condition cannot be weakened: the next call
leaves the three describing the disk, and changes nothing when it fails, exactly when it keeps them
in step itself. -/
theorem run_counts_describe (element : Nullifier → G) (disk : Finset Nullifier)
    (persistedCount : Option ℕ) (hcount : persistedCount.getD disk.card = disk.card)
    (calls : List Call) (hkeeps : KeepsAll element (construct disk persistedCount) calls) :
    let s := (construct disk persistedCount).run element calls
    Describes element s ∧ ∀ call : Call, Sound element s call ↔ call.Keeps element s := by
  intro s
  have hc : CachesCoherent (construct disk persistedCount : NullifierSet G) :=
    construct_coherent disk persistedCount
  have hs : Describes element s := (construct_describes hcount).run hc hkeeps
  exact ⟨hs, sound_iff (hc.run calls) hs⟩

/-- The nullifier as an integer, for examples. -/
def intElement (nf : Nullifier) : Multiplicative ℤ := .ofAdd nf.toNat

/-- Two insertions and a removal from an empty disk: one nullifier is left. -/
theorem describes_insert_insert_remove :
    let calls : List Call := [.insert [7, 8] true, .insert [8, 9] true, .remove [7, 9, 7] true]
    (construct ∅ none : NullifierSet (Multiplicative ℤ)).KeepsAll intElement calls ∧
      ((construct ∅ none).run intElement calls).count = 1 ∧
      Describes intElement ((construct ∅ none).run intElement calls) := by
  intro calls
  have hkeeps : (construct ∅ none : NullifierSet (Multiplicative ℤ)).KeepsAll intElement calls :=
    ⟨.inr (by decide), .inr (by decide), trivial, trivial⟩
  exact ⟨hkeeps, by decide, (run_counts_describe intElement ∅ none rfl calls hkeeps).1⟩

/-- A nullifier that occurs twice in one insertion is counted twice; and an insertion whose write
fails has changed the accumulator. -/
theorem insert_repeated_or_failed :
    let s : NullifierSet (Multiplicative ℤ) := construct ∅ none
    ((s.after intElement (.insert [7, 7] true)).count = 2 ∧
      (s.after intElement (.insert [7, 7] true)).disk.card = 1) ∧
    (s.reported intElement (.insert [7] false) = false ∧
      (s.after intElement (.insert [7] false)).disk = ∅ ∧
      (s.after intElement (.insert [7] false)).accumulatorValue intElement ≠
        s.accumulatorValue intElement) := by
  decide

/-! ### What holds in every history -/

omit [CommGroup G] in
theorem card_le_length_new (nfs : List Nullifier) :
    (nfs.toFinset \ disk).card ≤ (nfs.filter (· ∉ disk)).length := by
  rw [← toFinset_new]
  exact toFinset_card_le _

/-- How many nullifiers a call can add to the counters. -/
def Call.inserted : Call → ℕ
  | .insert nfs true => nfs.length
  | _ => 0

/-- **What a call does to disk and counters**: nothing, or what its write does. -/
theorem counters_after (element : Nullifier → G) (hc : CachesCoherent s) (call : Call) :
    let s' := s.after element call
    s'.disk = s.disk ∧ s'.persistedCount = s.persistedCount ∧ s'.count = s.count ∨
    (∃ nfs, call = .insert nfs true ∧ s'.disk = s.disk ∪ nfs.toFinset ∧
      s'.persistedCount = s'.count ∧ s'.count = s.count + (nfs.filter (· ∉ s.disk)).length) ∨
    ∃ nfs, call = .remove nfs true ∧ s'.disk = s.disk \ nfs.toFinset ∧
      s'.persistedCount = s'.count ∧ s'.count = s.count - (nfs.toFinset ∩ s.disk).card := by
  cases call with
  | insert nfs written =>
    by_cases hnull : ∃ nf ∈ nfs, nf.IsNull
    · rw [after, insert_of_null hnull]
      exact .inl ⟨rfl, rfl, rfl⟩
    · cases written with
      | false => exact .inl (insert_not_written element s nfs)
      | true => exact .inr (.inl ⟨nfs, rfl, insert_written element hc hnull⟩)
  | remove nfs written =>
    by_cases hnull : ∃ nf ∈ nfs, nf.IsNull
    · rw [after, remove_of_null hnull]
      exact .inl ⟨rfl, rfl, rfl⟩
    · cases written with
      | false => exact .inl (remove_not_written element s nfs)
      | true => exact .inr (.inr ⟨nfs, rfl, remove_written element hc hnull⟩)
  | contains nf =>
    have hsame : SameContents element s (s.contains nf).2 := contains_sameContents nf
    exact .inl ⟨hsame.disk, hsame.persistedCount, hsame.count⟩
  | anyExist nfs =>
    have hsame : SameContents element s (s.anyExist nfs).2 := anyExist_sameContents nfs
    exact .inl ⟨hsame.disk, hsame.persistedCount, hsame.count⟩

/-- The counters agree with each other, are never below the number of nullifiers on disk, and at
most `most`. -/
structure Counted (s : NullifierSet G) (most : ℕ) : Prop where
  persisted : s.persistedCount = s.count
  card_le : s.disk.card ≤ s.count
  le_most : s.count ≤ most

/-- **No removal takes the counters below zero**: what it takes off was counted. -/
theorem Counted.after {most : ℕ} (h : Counted s most) (hc : CachesCoherent s) (call : Call) :
    Counted (s.after element call) (most + call.inserted) := by
  obtain ⟨hpersisted, hcard, hmost⟩ := h
  rcases counters_after element hc call with ⟨hdisk, hp, hcount⟩ | ⟨nfs, rfl, hdisk, hp, hcount⟩ |
    ⟨nfs, rfl, hdisk, hp, hcount⟩
  · exact ⟨by rw [hp, hcount, hpersisted], by rwa [hdisk, hcount], by omega⟩
  · have hnew : (nfs.filter (· ∉ s.disk)).length ≤ nfs.length := length_filter_le _ _
    refine ⟨hp, ?_, by rw [hcount, Call.inserted]; omega⟩
    rw [hdisk, hcount, ← Finset.union_sdiff_self_eq_union,
      Finset.card_union_of_disjoint Finset.disjoint_sdiff]
    exact Nat.add_le_add hcard (card_le_length_new s.disk nfs)
  · refine ⟨hp, ?_, by omega⟩
    rw [hdisk, hcount, ← Finset.sdiff_inter_self_right,
      Finset.card_sdiff_of_subset Finset.inter_subset_right]
    exact Nat.sub_le_sub_right hcard _

theorem Counted.run {most : ℕ} (h : Counted s most) (hc : CachesCoherent s) (calls : List Call) :
    Counted (s.run element calls) (most + (calls.map Call.inserted).sum) := by
  induction calls generalizing s most with
  | nil => exact h
  | cons call calls ih =>
    rw [map_cons, sum_cons, ← Nat.add_assoc]
    exact ih (h.after hc call) (hc.after call)

/-- **The counters never fall below the disk**, in every history from a count that is not too small,
with nullifiers repeated within a call, failed writes, and removals of what is not there. The count
in memory and the one on disk agree. Where the first count and the nullifiers inserted are together
below `2⁶⁴`, the counters of 64 bits do not wrap. -/
theorem run_counts_cover_disk (element : Nullifier → G) (disk : Finset Nullifier)
    (persistedCount : Option ℕ) (hcount : disk.card ≤ persistedCount.getD disk.card)
    (calls : List Call)
    (hfits : persistedCount.getD disk.card + (calls.map Call.inserted).sum < 2 ^ 64) :
    let s := (construct disk persistedCount).run element calls
    s.persistedCount = s.count ∧ s.disk.card ≤ s.count ∧ s.count < 2 ^ 64 := by
  intro s
  have hs : Counted s _ :=
    Counted.run ⟨rfl, hcount, le_rfl⟩ (construct_coherent disk persistedCount) calls
  exact ⟨hs.persisted, hs.card_le, hs.le_most.trans_lt hfits⟩

/-- A repeated insertion, a removal and a failed insertion, on a disk with one nullifier. -/
theorem counts_cover_repeated :
    let s := (construct {5} none).run intElement
      [.insert [7, 7] true, .remove [7, 9] true, .insert [8] false]
    s.disk.card ≤ s.count ∧ s.disk.card < s.count := by
  intro s
  exact ⟨(run_counts_cover_disk intElement {5} none le_rfl _ (by decide)).2.1, by decide⟩

end Describes

end NullifierSet
end Btx.Shielded
