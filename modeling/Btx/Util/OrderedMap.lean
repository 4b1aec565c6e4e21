/-
# Maps kept in key order

A container that is walked in the order of its keys: a list of entries whose keys increase. Lookup,
assignment and removal are determined by which entries a map has (`mem_insert`, `mem_erase`). `total
w` adds a weight over the entries; counters beside a map are totals in a second map. `oldest p age`
is the first of the least entries of a class, the usual choice of a victim.
-/

import Mathlib.Data.List.Nodup
import Mathlib.Algebra.Order.BigOperators.Group.List
import Mathlib.Algebra.Order.Group.Nat
import Mathlib.Algebra.GroupWithZero.Nat

namespace Btx.Util

open List Option

/-- A finite map as the list of its entries, keys increasing. -/
structure OrderedMap (κ ν : Type) [LinearOrder κ] where
  entries : List (κ × ν)
  sorted : entries.Pairwise fun a b => a.1 < b.1
  deriving DecidableEq

namespace OrderedMap

variable {κ ν : Type} [LinearOrder κ]

@[ext]
theorem ext_entries {m m' : OrderedMap κ ν} (h : m.entries = m'.entries) : m = m' := by
  cases m; cases m'; simp_all

/-! ## Operations -/

def empty : OrderedMap κ ν := ⟨[], List.Pairwise.nil⟩

variable (m : OrderedMap κ ν)

/-- The value of a key. -/
def find? (k : κ) : Option ν :=
  (m.entries.find? fun e => e.1 = k).map Prod.snd

def contains (k : κ) : Bool := (m.find? k).isSome

def size : ℕ := m.entries.length

/-- The entries that satisfy `p`. -/
def filter (p : κ → ν → Bool) (m : OrderedMap κ ν) : OrderedMap κ ν :=
  ⟨m.entries.filter fun e => p e.1 e.2, m.sorted.filter _⟩

def erase (k : κ) : OrderedMap κ ν := m.filter fun k' _ => k' ≠ k

/-- One pass to the place of the key; an entry there is replaced. -/
def insertEntry (k : κ) (v : ν) : List (κ × ν) → List (κ × ν)
  | [] => [(k, v)]
  | (k', v') :: rest =>
      if k < k' then (k, v) :: (k', v') :: rest
      else if k = k' then (k, v) :: rest
      else (k', v') :: insertEntry k v rest

variable {l : List (κ × ν)}

theorem mem_insertEntry {k : κ} {v : ν} {e : κ × ν} (hl : l.Pairwise fun a b => a.1 < b.1) :
    e ∈ insertEntry k v l ↔ e = (k, v) ∨ (e ∈ l ∧ e.1 ≠ k) := by
  induction l with
  | nil => simp [insertEntry]
  | cons e' rest ih =>
    obtain ⟨k', v'⟩ := e'
    rw [pairwise_cons] at hl
    have hafter : ∀ a ∈ rest, k' < a.1 := hl.1
    rw [insertEntry]
    split_ifs with hlt heq
    · -- everything behind the new entry has a larger key
      have hne : ∀ a ∈ (k', v') :: rest, a.1 ≠ k := by
        intro a ha
        rcases mem_cons.1 ha with rfl | ha
        · exact hlt.ne'
        · exact (hlt.trans (hafter a ha)).ne'
      rw [mem_cons]
      exact or_congr_right ⟨fun h => ⟨h, hne e h⟩, fun h => h.1⟩
    · subst heq
      rw [mem_cons, mem_cons]
      refine or_congr_right ⟨fun h => ⟨.inr h, (hafter e h).ne'⟩, ?_⟩
      rintro ⟨rfl | h, hne⟩
      · exact absurd rfl hne
      · exact h
    · rw [mem_cons, ih hl.2, mem_cons]
      have hk : k' ≠ k := Ne.symm heq
      constructor
      · rintro (rfl | h | ⟨h, hne⟩)
        · exact .inr ⟨.inl rfl, hk⟩
        · exact .inl h
        · exact .inr ⟨.inr h, hne⟩
      · rintro (h | ⟨rfl | h, hne⟩)
        · exact .inr (.inl h)
        · exact .inl rfl
        · exact .inr (.inr ⟨h, hne⟩)

theorem insertEntry_sorted {k : κ} {v : ν} (hl : l.Pairwise fun a b => a.1 < b.1) :
    (insertEntry k v l).Pairwise fun a b => a.1 < b.1 := by
  induction l with
  | nil => simp [insertEntry]
  | cons e' rest ih =>
    obtain ⟨k', v'⟩ := e'
    have hrest := (pairwise_cons.1 hl).2
    have hafter : ∀ a ∈ rest, k' < a.1 := (pairwise_cons.1 hl).1
    rw [insertEntry]
    split_ifs with hlt heq
    · refine pairwise_cons.2 ⟨fun a ha => ?_, hl⟩
      rcases mem_cons.1 ha with rfl | ha
      · exact hlt
      · exact hlt.trans (hafter a ha)
    · exact pairwise_cons.2 ⟨fun a ha => heq ▸ hafter a ha, hrest⟩
    · refine pairwise_cons.2 ⟨fun a ha => ?_, ih hrest⟩
      rcases (mem_insertEntry hrest).1 ha with rfl | ⟨ha, -⟩
      · exact lt_of_le_of_ne (not_lt.1 hlt) (Ne.symm heq)
      · exact hafter a ha

/-- Assignment, to a fresh key or over the old value. -/
def insert (k : κ) (v : ν) : OrderedMap κ ν :=
  ⟨insertEntry k v m.entries, insertEntry_sorted m.sorted⟩

/-! ## Which entries a map has -/

section Entries

variable {m : OrderedMap κ ν} {k k' : κ} {v : ν} {e : κ × ν} {p : κ → ν → Bool}

theorem mem_insert : e ∈ (m.insert k v).entries ↔ e = (k, v) ∨ (e ∈ m.entries ∧ e.1 ≠ k) :=
  mem_insertEntry m.sorted

theorem mem_filter : e ∈ (m.filter p).entries ↔ e ∈ m.entries ∧ p e.1 e.2 := by
  simp [filter]

theorem mem_erase : e ∈ (m.erase k).entries ↔ e ∈ m.entries ∧ e.1 ≠ k := by
  simp [erase, mem_filter]

variable (m) in
theorem nodup_entries : m.entries.Nodup :=
  m.sorted.imp fun hlt heq => absurd (heq ▸ hlt) (lt_irrefl _)

variable (m) in
theorem nodup_keys : (m.entries.map Prod.fst).Nodup :=
  pairwise_map.2 (m.sorted.imp fun hlt => hlt.ne)

theorem value_unique {v' : ν} (h : (k, v) ∈ m.entries) (h' : (k, v') ∈ m.entries) : v = v' :=
  congrArg Prod.snd (inj_on_of_nodup_map m.nodup_keys h h' rfl)

@[simp]
theorem find?_empty : (empty : OrderedMap κ ν).find? k = none := rfl

theorem find?_eq_some_iff : m.find? k = some v ↔ (k, v) ∈ m.entries := by
  unfold find?
  constructor
  · intro h
    obtain ⟨e, he, rfl⟩ := map_eq_some_iff.1 h
    have hkey : e.1 = k := by simpa using find?_some he
    rw [← hkey]
    exact mem_of_find?_eq_some he
  · intro h
    cases hfind : m.entries.find? fun e => e.1 = k with
    | none => exact absurd (find?_eq_none.1 hfind _ h) (by simp)
    | some e =>
      have hkey : e.1 = k := by simpa using find?_some hfind
      have hmem : (k, e.2) ∈ m.entries := hkey ▸ mem_of_find?_eq_some hfind
      rw [map_some, value_unique hmem h]

theorem find?_eq_none_iff : m.find? k = none ↔ ∀ v, (k, v) ∉ m.entries := by
  rw [eq_none_iff_forall_ne_some]
  exact forall_congr' fun v => not_congr find?_eq_some_iff

theorem contains_iff : m.contains k ↔ ∃ v, m.find? k = some v := by
  rw [contains, isSome_iff_exists]

theorem not_contains_iff : m.contains k = false ↔ m.find? k = none := by
  rw [contains, isSome_eq_false_iff, isNone_iff_eq_none]

theorem find?_insert : (m.insert k v).find? k' = if k' = k then some v else m.find? k' := by
  ext v'
  rw [find?_eq_some_iff, mem_insert]
  split_ifs with hk
  · simp [hk, eq_comm]
  · simp [hk, find?_eq_some_iff]

@[simp]
theorem find?_insert_self : (m.insert k v).find? k = some v := by
  rw [find?_insert, if_pos rfl]

theorem find?_insert_of_ne (hk : k' ≠ k) : (m.insert k v).find? k' = m.find? k' := by
  rw [find?_insert, if_neg hk]

theorem find?_filter : (m.filter p).find? k = (m.find? k).filter (p k) := by
  ext v'
  rw [find?_eq_some_iff, mem_filter, filter_eq_some_iff, find?_eq_some_iff]

theorem find?_erase : (m.erase k).find? k' = if k' = k then none else m.find? k' := by
  ext v'
  rw [find?_eq_some_iff, mem_erase]
  split_ifs with hk
  · simp [hk]
  · simp [hk, find?_eq_some_iff]

@[simp]
theorem find?_erase_self : (m.erase k).find? k = none := by
  rw [find?_erase, if_pos rfl]

theorem find?_erase_of_ne (hk : k' ≠ k) : (m.erase k).find? k' = m.find? k' := by
  rw [find?_erase, if_neg hk]

theorem erase_of_find?_none (h : m.find? k = none) : m.erase k = m := by
  apply ext_entries
  refine filter_eq_self.2 fun e he => decide_eq_true ?_
  rintro rfl
  exact find?_eq_none_iff.1 h e.2 he

/-- **A map is the values of its keys.** -/
theorem ext_find? {m m' : OrderedMap κ ν} (h : ∀ k, m.find? k = m'.find? k) : m = m' := by
  have hmem : ∀ e, e ∈ m.entries ↔ e ∈ m'.entries := by
    rintro ⟨k, v⟩
    rw [← find?_eq_some_iff, ← find?_eq_some_iff, h]
  have hperm := (perm_ext_iff_of_nodup m.nodup_entries m'.nodup_entries).2 hmem
  exact ext_entries (hperm.eq_of_pairwise
    (fun a b _ _ hab hba => absurd hba (lt_asymm hab)) m.sorted m'.sorted)

theorem erase_insert_self : (m.insert k v).erase k = m.erase k := by
  refine ext_find? fun k' => ?_
  rw [find?_erase, find?_erase]
  split_ifs with hk
  · rfl
  · exact find?_insert_of_ne hk

end Entries

/-! ## Erasing on a walk -/

section Walk

variable {σ : Type} {get : σ → OrderedMap κ ν} {remove : σ → κ → σ} {p : κ → ν → Bool} {k : κ}

theorem find?_foldl_remove (hremove : ∀ s k, get (remove s k) = (get s).erase k)
    (l : List (κ × ν)) (s : σ) :
    (get (l.foldl (fun s e => if p e.1 e.2 then remove s e.1 else s) s)).find? k =
      if l.any fun e => e.1 = k && p e.1 e.2 then none else (get s).find? k := by
  induction l generalizing s with
  | nil => rfl
  | cons a l ih =>
    rw [foldl_cons, ih, any_cons]
    by_cases hp : p a.1 a.2
    · rw [if_pos hp, hremove, find?_erase]
      by_cases hk : a.1 = k
      · rw [if_pos hk.symm, ite_self, decide_eq_true hk, hp, Bool.true_and, Bool.true_or,
          if_pos rfl]
      · rw [if_neg (Ne.symm hk), decide_eq_false hk, Bool.false_and, Bool.false_or]
    · rw [if_neg hp, Bool.eq_false_of_not_eq_true hp, Bool.and_false, Bool.false_or]

variable (get) in
/-- **A walk over the entries of a map that removes those in a class leaves the others.** The map
is a part of the state the walk goes through. -/
theorem foldl_remove (remove : σ → κ → σ) (p : κ → ν → Bool)
    (hremove : ∀ s k, get (remove s k) = (get s).erase k) (s : σ) :
    get ((get s).entries.foldl (fun s e => if p e.1 e.2 then remove s e.1 else s) s) =
      (get s).filter fun k v => !p k v := by
  refine ext_find? fun k => ?_
  rw [find?_foldl_remove hremove, find?_filter]
  cases hk : (get s).find? k with
  | none => simp
  | some v =>
    have hmem := find?_eq_some_iff.1 hk
    have hany : ((get s).entries.any fun e => e.1 = k && p e.1 e.2) = p k v := by
      rw [Bool.eq_iff_iff, List.any_eq_true]
      constructor
      · rintro ⟨a, ha, hpa⟩
        obtain ⟨rfl, hp⟩ : a.1 = k ∧ p a.1 a.2 = true := by simpa using hpa
        rwa [value_unique hmem ha]
      · intro hp
        exact ⟨(k, v), hmem, by simpa using hp⟩
    rw [hany, filter_some]
    cases p k v <;> rfl

end Walk

/-! ## Totals -/

/-- The sum of a weight over the entries. -/
def total (w : κ → ν → ℕ) (m : OrderedMap κ ν) : ℕ := (m.entries.map fun e => w e.1 e.2).sum

section Total

variable {m : OrderedMap κ ν} {k : κ} {v : ν} {w : κ → ν → ℕ}

variable {m' : OrderedMap κ ν} {w' : κ → ν → ℕ}

theorem total_eq_of_mem_iff {l : List (κ × ν)} (hl : l.Nodup)
    (h : ∀ e, e ∈ m'.entries ↔ e ∈ l) : m'.total w = (l.map fun e => w e.1 e.2).sum :=
  (((perm_ext_iff_of_nodup m'.nodup_entries hl).2 h).map _).sum_eq

theorem nodup_cons_erase : ((k, v) :: (m.erase k).entries).Nodup :=
  nodup_cons.2 ⟨fun h => (mem_erase.1 h).2 rfl, nodup_entries _⟩

/-- **An assignment adds its weight to what is left without the key.** -/
theorem total_insert : (m.insert k v).total w = w k v + (m.erase k).total w := by
  refine total_eq_of_mem_iff nodup_cons_erase fun e => ?_
  rw [mem_insert, mem_cons, mem_erase]

/-- **A key that is present accounts for its own weight.** -/
theorem total_eq_add_erase (h : m.find? k = some v) : m.total w = w k v + (m.erase k).total w := by
  refine total_eq_of_mem_iff nodup_cons_erase fun e => ?_
  rw [mem_cons, mem_erase]
  constructor
  · intro he
    by_cases hk : e.1 = k
    · have hmem : (k, e.2) ∈ m.entries := hk ▸ he
      exact .inl (Prod.ext hk (value_unique hmem (find?_eq_some_iff.1 h)))
    · exact .inr ⟨he, hk⟩
  · rintro (rfl | ⟨he, -⟩)
    · exact find?_eq_some_iff.1 h
    · exact he

theorem total_insert_of_none (h : m.find? k = none) :
    (m.insert k v).total w = w k v + m.total w := by
  rw [total_insert, erase_of_find?_none h]

theorem total_insert_add :
    (m.insert k v).total w + ((m.find? k).map (w k)).getD 0 = m.total w + w k v := by
  rw [total_insert]
  cases hk : m.find? k with
  | none =>
    rw [erase_of_find?_none hk, map_none, getD_none]
    omega
  | some v' =>
    rw [total_eq_add_erase hk, map_some, getD_some]
    omega

theorem le_total (h : m.find? k = some v) : w k v ≤ m.total w := by
  rw [total_eq_add_erase h]
  exact Nat.le_add_right _ _

theorem size_eq_total : m.size = m.total fun _ _ => 1 := by
  simp [size, total]

theorem total_congr (h : ∀ k v, (k, v) ∈ m.entries → w k v = w' k v) : m.total w = m.total w' := by
  unfold total
  rw [map_congr_left fun e he => h e.1 e.2 he]

theorem exists_of_total_pos (h : 0 < m.total w) : ∃ k v, (k, v) ∈ m.entries ∧ 0 < w k v := by
  by_contra hnone
  push Not at hnone
  have hzero : m.total w = 0 := by
    refine sum_eq_zero fun x hx => ?_
    obtain ⟨e, he, rfl⟩ := List.mem_map.1 hx
    exact Nat.le_zero.1 (hnone e.1 e.2 he)
  omega

theorem total_le_total (h : ∀ k v, (k, v) ∈ m.entries → w k v ≤ w' k v) : m.total w ≤ m.total w' :=
  sum_le_sum fun e he => h e.1 e.2 he

theorem total_le_of_subset (h : m'.entries ⊆ m.entries) : m'.total w ≤ m.total w := by
  obtain ⟨l, hperm, hsub⟩ := subperm_of_subset m'.nodup_entries h
  calc m'.total w = (l.map fun e => w e.1 e.2).sum := (hperm.map _).sum_eq.symm
    _ ≤ m.total w := (hsub.map _).sum_le_sum fun _ _ => Nat.zero_le _

theorem total_erase_le : (m.erase k).total w ≤ m.total w :=
  total_le_of_subset fun _ he => (mem_erase.1 he).1

end Total

/-! ## Counters -/

variable (counts : OrderedMap κ ℕ)

/-- The count of a key: an absent one has none. -/
def countOf (k : κ) : ℕ := (counts.find? k).getD 0

/-- `++counts[k]`. -/
def increment (k : κ) : OrderedMap κ ℕ :=
  counts.insert k (counts.countOf k + 1)

/-- `--counts[k]`; a count that reaches zero is removed. -/
def decrement (k : κ) : OrderedMap κ ℕ :=
  match counts.find? k with
  | none => counts
  | some c => if c ≤ 1 then counts.erase k else counts.insert k (c - 1)

section Counters

variable {counts : OrderedMap κ ℕ} {k k' : κ}

theorem countOf_increment :
    (counts.increment k).countOf k' = counts.countOf k' + if k = k' then 1 else 0 := by
  unfold countOf increment
  rw [find?_insert]
  by_cases hk : k' = k
  · simp [hk, countOf]
  · rw [if_neg hk, if_neg (Ne.symm hk), add_zero]

theorem countOf_decrement :
    (counts.decrement k).countOf k' = counts.countOf k' - if k = k' then 1 else 0 := by
  unfold countOf decrement
  by_cases hk : k = k'
  · subst hk
    rw [if_pos rfl]
    cases hc : counts.find? k with
    | none => simp [hc]
    | some c =>
      dsimp only
      split_ifs with hle
      · simp only [find?_erase_self, getD_none, getD_some]
        omega
      · simp
  · rw [if_neg hk, Nat.sub_zero]
    cases hc : counts.find? k with
    | none => rfl
    | some c =>
      dsimp only
      split_ifs
      · rw [find?_erase_of_ne (Ne.symm hk)]
      · rw [find?_insert_of_ne (Ne.symm hk)]

end Counters

/-! ## The oldest entry of a class -/

/-- One entry of the walk for the oldest: a strictly older one takes its place. -/
def olderOf (p : κ → ν → Bool) (age : ν → ℤ) (best : Option (κ × ν)) (e : κ × ν) : Option (κ × ν) :=
  if p e.1 e.2 then
    match best with
    | none => some e
    | some b => if age e.2 < age b.2 then some e else some b
  else best

/-- The entry of least `age` among those that satisfy `p`, the first of them in key order. -/
def oldest (p : κ → ν → Bool) (age : ν → ℤ) (m : OrderedMap κ ν) : Option (κ × ν) :=
  m.entries.foldl (olderOf p age) none

section Oldest

variable {p : κ → ν → Bool} {age : ν → ℤ} {m : OrderedMap κ ν} {e : κ × ν}

variable {best : Option (κ × ν)} {a : κ × ν} {l : List (κ × ν)}

omit [LinearOrder κ] in
theorem olderOf_eq_some (h : olderOf p age best a = some e) :
    best = some e ∨ (e = a ∧ p a.1 a.2) := by
  unfold olderOf at h
  split_ifs at h with hp
  · cases best with
    | none => exact .inr ⟨(some.inj h).symm, hp⟩
    | some b =>
      dsimp only at h
      split_ifs at h
      · exact .inr ⟨(some.inj h).symm, hp⟩
      · exact .inl h
  · exact .inl h

omit [LinearOrder κ] in
theorem olderOf_eq_none (h : olderOf p age best a = none) : best = none ∧ p a.1 a.2 = false := by
  unfold olderOf at h
  split_ifs at h with hp
  · cases best with
    | none => simp at h
    | some b =>
      dsimp only at h
      split_ifs at h
  · exact ⟨h, by simpa using hp⟩

omit [LinearOrder κ] in
theorem foldl_olderOf_eq_some
    (h : l.foldl (olderOf p age) best = some e) : best = some e ∨ (e ∈ l ∧ p e.1 e.2) := by
  induction l generalizing best with
  | nil => exact .inl h
  | cons a l ih =>
    rcases ih h with hbest | ⟨hmem, hp⟩
    · rcases olderOf_eq_some hbest with hold | ⟨rfl, hp⟩
      · exact .inl hold
      · exact .inr ⟨mem_cons_self, hp⟩
    · exact .inr ⟨mem_cons_of_mem _ hmem, hp⟩

omit [LinearOrder κ] in
theorem foldl_olderOf_eq_none
    (h : l.foldl (olderOf p age) best = none) : best = none ∧ ∀ a ∈ l, p a.1 a.2 = false := by
  induction l generalizing best with
  | nil => exact ⟨h, by simp⟩
  | cons a l ih =>
    obtain ⟨hbest, hl⟩ := ih h
    obtain ⟨hnone, ha⟩ := olderOf_eq_none hbest
    exact ⟨hnone, forall_mem_cons.2 ⟨ha, hl⟩⟩

theorem oldest_eq_some (h : m.oldest p age = some e) : m.find? e.1 = some e.2 ∧ p e.1 e.2 := by
  rcases foldl_olderOf_eq_some h with hnone | ⟨hmem, hp⟩
  · simp at hnone
  · exact ⟨find?_eq_some_iff.2 hmem, hp⟩

theorem oldest_eq_none (h : m.oldest p age = none) {k : κ} {v : ν} (hk : m.find? k = some v) :
    p k v = false :=
  (foldl_olderOf_eq_none h).2 (k, v) (find?_eq_some_iff.1 hk)

end Oldest

end OrderedMap
end Btx.Util
