/-
# Excluded positions in a ring

Each search avoids the positions that a wallet excludes, and takes one where its range has nothing
else. A region falls back to the whole tree before that, but the bin of one of the first four decoys
does not (`excluded_avoided_iff`).
-/

import Btx.Shielded.RingSelection

namespace Btx.RingCT

open Util Choices RingRequest List

namespace RingRequest

section Exclusion

variable {q : RingRequest} {P : List ℕ → Prop} {real b : ℕ}

theorem always_selectPositions_of (hreal : ∀ pos ∈ q.reals, pos ∉ q.excludedPositions)
    (hperm : ∀ l l', l'.Perm l → P l → P l') (h : Always (q.addDecoys q.decoyCount q.reals) P) :
    Always q.selectPositions P := by
  refine h.bind fun ring hring => ?_
  have hwindow : q.realInExcludedWindow = false := by
    rw [realInExcludedWindow, any_eq_false]
    exact fun pos hpos => by simpa using hreal pos hpos
  have hsame : q.addExcludedDecoy ring = pure ring := if_neg (by simp [hwindow])
  rw [hsame]
  refine (always_pure (P := fun l => l = ring) rfl).bind fun l hl => ?_
  subst hl
  refine (always_shuffle ?_).mono fun l' hl' => hperm _ _ hl' hring
  cases l with
  | nil => exact .inl rfl
  | cons pos l => exact .inr (by simp)

theorem Growing.unique {positions : List ℕ} (h : q.Growing positions)
    (hle : q.ringSize ≤ q.treeSize)
    (hlength : positions.length < q.ringSize) :
    true = decide (positions.toFinset.card < min q.ringSize q.treeSize) :=
  (decide_eq_true ((h.new_iff hlength).2 (by omega))).symm

/-- **With a free position in every bin, and enough of them in the tree, nothing excluded is
taken.** -/
theorem always_addDecoys_avoid (hproper : q.Proper) (hreals : q.reals = [real])
    (hroom : q.ringSize ≤ ((Finset.range q.treeSize).filter (· ∉ q.excluded)).card)
    (hbins : ∀ b < q.ageSpreadQuota, ∃ pos, (q.bin b).Has pos ∧ pos ∉ q.excluded ∧ pos ≠ real) :
    Always (q.addDecoys q.decoyCount q.reals) fun ring => ∀ pos ∈ ring, pos ∉ q.excluded := by
  have hlarge : q.ringSize ≤ q.treeSize := by
    have := Finset.card_filter_le (Finset.range q.treeSize) (· ∉ q.excluded)
    rw [Finset.card_range] at this
    omega
  -- what the first bins gave lies before the next bin
  let I (positions : List ℕ) : Prop := q.Growing positions ∧ (∀ pos ∈ positions, pos ∉ q.excluded) ∧
    (positions.length ≤ q.ageSpreadQuota →
      ∀ pos ∈ positions, pos = real ∨ pos < q.treeSize * (positions.length - 1) / 4)
  have hfits : q.reals.length + q.decoyCount = q.ringSize := by
    have := hproper.fits
    unfold decoyCount
    omega
  refine (always_addDecoys (I := I) ?_ ⟨hproper.growing, ?_, ?_⟩ hfits).mono
    fun ring hring => hring.1.2.1
  · rintro positions ⟨hg, hfree, hbefore⟩ hlength
    have hunique := hg.unique hlarge hlength
    have hsize : positions.length - q.reals.length = positions.length - 1 := by rw [hreals]; rfl
    have hpos : 0 < positions.length := by
      have := hg.reals.length_le
      rw [hreals] at this
      exact this
    refine (always_pickDecoy hunique (hunique ▸ exists_new _ hproper.tree)).mono fun pos hspec => ?_
    obtain ⟨hnew, hbin, helsewhere⟩ := hspec
    rw [hsize] at hbin helsewhere
    have hgrow := hg.append hlength (hunique ▸ hnew)
    have hlast : (positions ++ [pos]).length - 1 = positions.length - 1 + 1 := by
      rw [length_append, length_singleton]
      omega
    have hmem {p : ℕ} (hp : p ∈ positions ++ [pos]) : p ∈ positions ∨ p = pos := by simpa using hp
    by_cases hquota : positions.length - 1 < q.ageSpreadQuota
    · obtain ⟨free, hhas, hnot, hne⟩ := hbins _ hquota
      have hfreenew : q.IsNew positions true free := by
        refine ⟨?_, fun _ hmem => ?_⟩
        · have := (getAgeSpreadBinRange_eq hquota).2.2
          have : free ≤ q.treeSize * (positions.length - 1 + 1) / 4 - 1 := hhas.2
          have := hproper.tree
          omega
        · rcases hbefore (by omega) free hmem with heq | hlt
          · exact hne heq
          · exact absurd hhas.1 (not_le.2 hlt)
      obtain ⟨hposbin, hexcluded⟩ := hbin hquota ⟨free, hhas, hfreenew⟩
      have hposfree : pos ∉ q.excluded := fun hmem => hnot (hexcluded hmem free hhas hfreenew)
      obtain ⟨-, hstart, -⟩ := getAgeSpreadBinRange_eq hquota
      change q.treeSize * (positions.length - 1) / 4 + 16 ≤ _ at hstart
      refine ⟨hgrow, fun p hp => ?_, fun _ p hp => ?_⟩
      · rcases hmem hp with hp | rfl
        · exact hfree p hp
        · exact hposfree
      · rw [hlast]
        rcases hmem hp with hp | rfl
        · refine (hbefore (by omega) p hp).imp_right fun hlt => ?_
          omega
        · have : p ≤ q.treeSize * (positions.length - 1 + 1) / 4 - 1 := hposbin.2
          exact .inr (by omega)
    · refine ⟨hgrow, fun p hp => ?_, fun hle => ?_⟩
      · rcases hmem hp with hp | rfl
        · exact hfree p hp
        · intro hexcluded
          have hcard : positions.toFinset.card <
              ((Finset.range q.treeSize).filter (· ∉ q.excluded)).card := by
            have := toFinset_card_le positions
            omega
          obtain ⟨free, hmemfree, hnot⟩ := Finset.exists_mem_notMem_of_card_lt_card hcard
          obtain ⟨hrange, hfreeex⟩ := Finset.mem_filter.1 hmemfree
          refine hfreeex
            (helsewhere (by omega) hexcluded free ⟨Finset.mem_range.1 hrange, fun _ hmem => ?_⟩)
          exact hnot (mem_toFinset.2 hmem)
      · rw [length_append, length_singleton] at hle
        omega
  · intro pos hpos hexcluded
    exact (mem_excluded.1 hexcluded).2.2 hpos
  · intro _ pos hpos
    rw [hreals] at hpos
    exact .inl (mem_singleton.1 hpos)

/-- **From a bin in which everything is excluded, an excluded position is taken.** -/
theorem always_addDecoys_excluded (hproper : q.Proper) (hreals : q.reals = [real])
    (hlarge : q.ringSize ≤ q.treeSize) (hquota : b < q.ageSpreadQuota)
    (hbin : ∀ pos, (q.bin b).Has pos → pos ≠ real → pos ∈ q.excluded) :
    Always (q.addDecoys q.decoyCount q.reals) fun ring => ∃ pos ∈ ring, pos ∈ q.excluded := by
  have hring : b < 4 ∧ b + 1 < q.ringSize := by
    have hlong : 4 ≤ q.decoyCount ∧ b < 4 := by
      unfold ageSpreadQuota at hquota
      split_ifs at hquota with h
      · exact ⟨h.2, hquota⟩
      · omega
    rw [decoyCount, hreals, length_singleton] at hlong
    omega
  have hfits : q.reals.length + q.decoyCount = q.ringSize := by
    have := hproper.fits
    unfold decoyCount
    omega
  refine (always_addDecoys
    (I := fun positions => q.Growing positions ∧
      (b + 1 < positions.length → ∃ pos ∈ positions, pos ∈ q.excluded)) ?_
    ⟨hproper.growing, fun h => ?_⟩ hfits).mono fun ring hring' => hring'.1.2 (by omega)
  · rintro positions ⟨hg, hafter⟩ hlength
    have hunique := hg.unique hlarge hlength
    refine (always_pickDecoy hunique (hunique ▸ exists_new _ hproper.tree)).mono fun pos hspec => ?_
    obtain ⟨hnew, hpick, -⟩ := hspec
    refine ⟨hg.append hlength (hunique ▸ hnew), fun hlong => ?_⟩
    rw [length_append, length_singleton] at hlong
    by_cases hnow : positions.length = b + 1
    · have hindex : positions.length - q.reals.length = b := by
        rw [hreals, length_singleton]
        omega
      rw [hindex] at hpick
      obtain ⟨-, hsize, -⟩ := getAgeSpreadBinRange_eq hquota
      -- sixteen positions, and less than five are taken
      have hcard : positions.toFinset.card < (Finset.Icc (q.bin b).first (q.bin b).last).card := by
        have := toFinset_card_le positions
        rw [Nat.card_Icc]
        change _ < q.treeSize * (b + 1) / 4 - 1 + 1 - _
        omega
      obtain ⟨new, hnewbin, hnot⟩ := Finset.exists_mem_notMem_of_card_lt_card hcard
      have hhas : (q.bin b).Has new := Finset.mem_Icc.1 hnewbin
      have hlast : new ≤ q.treeSize * (b + 1) / 4 - 1 := hhas.2
      have htree := (getAgeSpreadBinRange_eq hquota).2.2
      have hisnew : q.IsNew positions true new :=
        ⟨by have := hproper.tree; omega, fun _ hmem => hnot (mem_toFinset.2 hmem)⟩
      obtain ⟨hposbin, -⟩ := hpick hquota ⟨new, hhas, hisnew⟩
      refine ⟨pos, mem_append_right _ (mem_singleton.2 rfl), hbin pos hposbin fun heq => ?_⟩
      refine hnew.2 rfl (hg.reals.subset ?_)
      rw [hreals, heq]
      exact mem_singleton.2 rfl
    · obtain ⟨p, hp, hexcluded⟩ := hafter (by omega)
      exact ⟨p, mem_append_left _ hp, hexcluded⟩
  · rw [hreals, length_singleton] at h
    omega

end Exclusion

end RingRequest

theorem always_selectRing (realPosition : ℕ) {treeSize ringSize : ℕ} {excludedPositions : List ℕ}
    {P : List ℕ → Prop} (hring : 0 < ringSize) (htree : 0 < treeSize)
    (h : Always (RingRequest.selectPositions
      ⟨[min realPosition (treeSize - 1)], treeSize, ringSize, excludedPositions⟩) P) :
    Always (selectRingPositionsWithExclusions realPosition treeSize ringSize excludedPositions)
      fun selection => P selection.positions := by
  unfold selectRingPositionsWithExclusions
  rw [if_neg (by omega), if_neg (by omega)]
  refine h.bind fun positions hpositions => ?_
  dsimp only
  split_ifs
  · exact always_pure hpositions
  · exact (always_pick _).bind fun _ _ => always_pure hpositions

/-- **Excluded positions are avoided exactly if every bin has another one.** The real position is
not excluded, and the tree has as many positions that are not as the ring is long. Where bins are
used, each needs a position that is not excluded, beside the real one. -/
theorem excluded_avoided_iff (realPosition treeSize ringSize : ℕ) (excludedPositions : List ℕ)
    (hreal : min realPosition (treeSize - 1) ∉ excludedPositions)
    (hroom : ringSize ≤ ((Finset.range treeSize).filter (· ∉ excludedPositions)).card) :
    Always (selectRingPositionsWithExclusions realPosition treeSize ringSize excludedPositions)
        (fun selection => ∀ pos ∈ selection.positions, pos ∉ excludedPositions) ↔
      (64 ≤ treeSize → 5 ≤ ringSize → ∀ b < 4, ∃ pos, treeSize * b / 4 ≤ pos ∧
        pos < treeSize * (b + 1) / 4 ∧ pos ∉ excludedPositions ∧
        pos ≠ min realPosition (treeSize - 1)) := by
  have hle : ringSize ≤ treeSize := by
    have := Finset.card_filter_le (Finset.range treeSize) (· ∉ excludedPositions)
    rw [Finset.card_range] at this
    omega
  rcases Nat.eq_zero_or_pos ringSize with rfl | hring
  · refine ⟨fun _ _ h => by omega, fun _ => ?_⟩
    unfold selectRingPositionsWithExclusions
    rw [if_pos rfl]
    exact always_pure (by simp)
  have htree : 0 < treeSize := by omega
  set real := min realPosition (treeSize - 1)
  let q : RingRequest := ⟨[real], treeSize, ringSize, excludedPositions⟩
  have hproper : q.Proper := by
    refine ⟨htree, fun pos hpos => ?_, nodup_singleton _, hring⟩
    rw [mem_singleton.1 hpos]
    change real < treeSize
    omega
  have hexcluded {pos : ℕ} (hpos : pos < treeSize) :
      pos ∈ q.excluded ↔ pos ∈ excludedPositions := by
    rw [mem_excluded]
    refine ⟨And.left, fun hmem => ⟨hmem, hpos, fun hsame => hreal ?_⟩⟩
    exact mem_singleton.1 hsame ▸ hmem
  have hquota : q.ageSpreadQuota = if 64 ≤ treeSize ∧ 5 ≤ ringSize then 4 else 0 := by
    change (if 64 ≤ treeSize ∧ 4 ≤ ringSize - 1 then 4 else 0) = _
    refine if_congr ?_ rfl rfl
    omega
  have hinside :
      Always (selectRingPositionsWithExclusions realPosition treeSize ringSize excludedPositions)
      fun selection => ∀ pos ∈ selection.positions, pos < treeSize :=
    always_selectRing realPosition hring htree
      (hproper.always_selectPositions.mono fun _ hgood => hgood.inside)
  have hreals : ∀ pos ∈ q.reals, pos ∉ q.excludedPositions := fun pos hpos =>
    mem_singleton.1 hpos ▸ hreal
  constructor
  · intro havoid hlarge hlong b hb
    by_contra hnone
    push Not at hnone
    have hbin : ∀ pos, (q.bin b).Has pos → pos ≠ real → pos ∈ q.excluded := by
      intro pos hhas hne
      have hb4 : b < q.ageSpreadQuota := by rw [hquota, if_pos ⟨hlarge, hlong⟩]; exact hb
      have hsize : treeSize * b / 4 + 16 ≤ treeSize * (b + 1) / 4 ∧
          treeSize * (b + 1) / 4 ≤ treeSize :=
        (getAgeSpreadBinRange_eq hb4).2
      have hfirst : treeSize * b / 4 ≤ pos := hhas.1
      have hlast : pos ≤ treeSize * (b + 1) / 4 - 1 := hhas.2
      rw [hexcluded (by omega)]
      by_contra hmem
      exact hne (hnone pos hfirst (by omega) hmem)
    have htaken := always_selectRing realPosition hring htree
      (always_selectPositions_of (q := q) hreals
        (P := fun ring => ∃ pos ∈ ring, pos ∈ q.excluded)
        (fun l l' hperm ⟨pos, hpos, hmem⟩ => ⟨pos, hperm.mem_iff.2 hpos, hmem⟩)
        (always_addDecoys_excluded hproper rfl hle
          (by rw [hquota, if_pos ⟨hlarge, hlong⟩]; exact hb) hbin))
    obtain ⟨pos, hpos, hmem⟩ := htaken fun _ => 0
    exact havoid (fun _ => 0) pos hpos (mem_excluded.1 hmem).1
  · intro hbins
    have havoid := always_selectRing realPosition hring htree
      (always_selectPositions_of (q := q) hreals
        (P := fun ring => ∀ pos ∈ ring, pos ∉ q.excluded)
        (fun l l' hperm h pos hpos => h pos (hperm.mem_iff.1 hpos))
        (always_addDecoys_avoid hproper rfl ?_ fun b hb => ?_))
    · intro draws pos hpos hmem
      exact havoid draws pos hpos ((hexcluded (hinside draws pos hpos)).2 hmem)
    · refine hroom.trans (Finset.card_le_card fun pos hpos => ?_)
      obtain ⟨hrange, hnot⟩ := Finset.mem_filter.1 hpos
      exact Finset.mem_filter.2 ⟨hrange, fun hmem => hnot (mem_excluded.1 hmem).1⟩
    · rw [hquota] at hb
      split_ifs at hb with hlarge
      · obtain ⟨pos, hfirst, hlast, hnot, hne⟩ := hbins hlarge.1 hlarge.2 b hb
        refine ⟨pos, ⟨hfirst, ?_⟩, fun hmem => hnot (mem_excluded.1 hmem).1, hne⟩
        change pos ≤ treeSize * (b + 1) / 4 - 1
        omega
      · omega

/-- One excluded position in the last quarter is not drawn. -/
theorem excluded_avoided_iff_sample :
    Always (selectRingPositionsWithExclusions 0 64 5 [63]) fun selection =>
      63 ∉ selection.positions := by
  have havoid :=
    (excluded_avoided_iff 0 64 5 [63] (by decide) (by decide +kernel)).2 fun _ _ b hb =>
    ⟨16 * b + 1, by omega, by omega, by simp; omega, by simp⟩
  exact havoid.mono fun selection h hmem => h 63 hmem (by decide)

/-- **An excluded position in a ring, with free ones left.** The last sixteen of 64 leaves are
excluded and the real one is the first: the decoy of the last quarter is excluded. -/
theorem excluded_quarter_drawn :
    (0 ∉ List.range' 48 16 ∧ 5 ≤ ((Finset.range 64).filter (· ∉ List.range' 48 16)).card) ∧
      ∃ pos ∈ (selectRingPositionsWithExclusions 0 64 5 (List.range' 48 16) fun _ => 0).1.positions,
        pos ∈ List.range' 48 16 := by
  decide +kernel

end Btx.RingCT
