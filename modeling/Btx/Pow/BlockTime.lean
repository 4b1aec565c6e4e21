/-
# Block times

The bounds on the time of a block (`ContextualCheckBlockHeader` in `src/validation.cpp`), and those
that the miner computes (`src/node/miner.cpp`). They leave a time because the median time of the
last eleven blocks is never above the parent's own time (`medianTimePast_le_tip`) and never falls
(`medianTimePast_mono`).
-/

import Btx.Pow.LinkedIndex
import Btx.Util.OrderStatistic

namespace Btx.Pow

open List Option

/-! ## The rules -/

namespace Params

variable (p : Params)

/-- `IsMatMulTimewarpReconcileActive`. -/
def isMatMulTimewarpReconcileActive (height : ℤ) : Bool :=
  p.fMatMulPOW ∧ 0 ≤ height ∧ ¬IsDisabledHeight p.nMatMulTimewarpReconcileHeight ∧
    p.nMatMulTimewarpReconcileHeight ≤ height

end Params

/-- `MAX_TIMEWARP`. -/
def maxTimewarp : ℤ := 600

/-- `EnforceTimewarpProtectionAtHeight`. -/
def enforceTimewarpProtectionAtHeight (p : Params) (blockHeight : ℤ) : Bool :=
  if !p.enforce_BIP94 ∨ blockHeight ≤ 0 then false
  else if !p.fPowNoRetargeting ∧ (p.fMatMulPOW ∨ (p.fKAWPOW ∧ p.nKAWPOWHeight ≤ blockHeight)) then
    true
  else blockHeight.tmod p.difficultyAdjustmentInterval = 0

/-- The reasons for which `ContextualCheckBlockHeader` refuses a time, but for the local clock. -/
inductive TimeError
  | timeTooOld
  | timeTimewarpAttack
  | timeParentTooNew
  | timeMtpTooNew
  deriving DecidableEq

section

variable (p : Params) (prev : BlockData) (earlier : List BlockData)

/-- A cap that the reconciliation has lifted to the BIP94 bound. -/
def reconciledMaxTime (height maxTime : ℤ) : ℤ :=
  if p.isMatMulTimewarpReconcileActive height ∧ enforceTimewarpProtectionAtHeight p height then
    max maxTime (prev.blockTime - maxTimewarp)
  else maxTime

/-- Which of the two caps a time is above. -/
def futureTimeError (height medianTime time : ℤ) : TimeError :=
  match p.maxMatMulParentTimeAdvance height prev.blockTime,
      p.maxMatMulFutureBlockTime height medianTime with
  | some parentCap, some mtpCap =>
    if parentCap < time ∧ parentCap ≤ mtpCap then .timeParentTooNew else .timeMtpTooNew
  | some parentCap, none => if parentCap < time then .timeParentTooNew else .timeMtpTooNew
  | none, _ => .timeMtpTooNew

/-- The checks of `ContextualCheckBlockHeader` on the time of a block, apart from the local
clock. -/
def checkBlockTime (height time : ℤ) : Except TimeError Unit := do
  let medianTime := medianTimePast (prev :: earlier)
  if time ≤ medianTime then throw .timeTooOld
  if enforceTimewarpProtectionAtHeight p height ∧ time < prev.blockTime - maxTimewarp then
    throw .timeTimewarpAttack
  match p.maxMatMulAllowedBlockTime height prev.blockTime medianTime with
  | none => pure ()
  | some maxTime =>
    if reconciledMaxTime p prev height maxTime < time then
      throw (futureTimeError p prev height medianTime time)

/-! ## The miner -/

/-- `TryGetNextBlockHeight`. -/
def tryGetNextBlockHeight (height : ℤ) : Option ℤ :=
  if height = int32Max then none else some (height + 1)

/-- `GetMinimumTime`. -/
def getMinimumTime : ℤ :=
  let minTime := medianTimePast (prev :: earlier) + 1
  match tryGetNextBlockHeight prev.nHeight with
  | none => minTime
  | some height =>
    if enforceTimewarpProtectionAtHeight p height then max minTime (prev.blockTime - maxTimewarp)
    else minTime

/-- `GetMaximumTime`. -/
def getMaximumTime : Option ℤ :=
  let medianTime := medianTimePast (prev :: earlier)
  match tryGetNextBlockHeight prev.nHeight with
  | none => p.matMulFutureBlockTimeLimit medianTime
  | some height =>
    let maxTime :=
      if p.isMatMulStallRecoveryActive height then
        p.maxMatMulAllowedBlockTime height prev.blockTime medianTime
      else p.matMulFutureBlockTimeLimit medianTime
    maxTime.map (reconciledMaxTime p prev height)

end

/-- A template as `UpdateTime` leaves it, and the number it returns. -/
structure UpdatedTime where
  nTime : UInt32
  nBits : ℕ
  delta : ℤ
  deriving DecidableEq

/-- The time `UpdateTime` aims at. -/
def newTemplateTime (minTime : ℤ) (maxTime : Option ℤ) (now : ℤ) : ℤ :=
  let newTime := max minTime now
  match maxTime with
  | none => newTime
  | some maxTime => if maxTime < newTime then max minTime maxTime else newTime

/-- `UpdateTime`, at a local clock. -/
def updateTime (p : Params) (tip : CBlockIndex) (ancestors : List CBlockIndex) (now : ℤ)
    (nTime : UInt32) (nBits : ℕ) : UpdatedTime :=
  let earlier := ancestors.map CBlockIndex.toBlockData
  let oldTime : ℤ := (nTime : ℕ)
  let minTime := getMinimumTime p tip.toBlockData earlier
  let maxTime := getMaximumTime p tip.toBlockData earlier
  let newTime := newTemplateTime minTime maxTime now
  let nTime :=
    if oldTime < newTime ∨ ∃ cap ∈ maxTime, cap < oldTime then UInt32.ofInt newTime else nTime
  { nTime := nTime
    nBits :=
      if p.fPowAllowMinDifficultyBlocks then
        (getNextWorkRequired p tip ancestors (nTime : ℕ)).elim nBits (·.nBits)
      else nBits
    delta := newTime - oldTime }

/-! ## The median -/

variable {p : Params} {block prev : BlockData} {earlier : List BlockData} {height time cap : ℤ}

/-- The times of which the median is taken. -/
def timeWindow (blocks : List BlockData) : List ℤ :=
  (blocks.take nMedianTimeSpan).map BlockData.blockTime

theorem medianTimePast_le_iff (x : ℤ) : medianTimePast (prev :: earlier) ≤ x ↔
    (timeWindow (prev :: earlier)).length / 2 < (timeWindow (prev :: earlier)).countP (· ≤ x) := by
  have hpos : 0 < (timeWindow (prev :: earlier)).length := by
    simp [timeWindow, nMedianTimeSpan]
  have hlength := length_insertionSort (· ≤ ·) (timeWindow (prev :: earlier))
  rw [medianTimePast, ← timeWindow, hlength, getD_eq_getElem?_getD,
    getElem?_eq_getElem (by omega), getD_some]
  exact Util.insertionSort_getElem_le_iff _

/-- **The median is not above the tip**, once the tip has been accepted above the median before
it. -/
theorem medianTimePast_le_tip (h : medianTimePast (prev :: earlier) < block.blockTime) :
    medianTimePast (block :: prev :: earlier) ≤ block.blockTime := by
  have hmedian := (medianTimePast_le_iff (medianTimePast (prev :: earlier))).1 le_rfl
  rw [medianTimePast_le_iff]
  -- the new window is the tip and the old one, without its oldest time if that was full
  have hwindow : timeWindow (block :: prev :: earlier) =
      block.blockTime :: (timeWindow (prev :: earlier)).take 10 := by
    simp [timeWindow, nMedianTimeSpan, map_take, take_take]
  rw [hwindow, countP_cons_of_pos (by simp), length_cons, length_take]
  have hold : (timeWindow (prev :: earlier)).length ≤ 11 := by
    simp [timeWindow, nMedianTimeSpan]
  have hcount : (timeWindow (prev :: earlier)).countP
      (fun t => t ≤ medianTimePast (prev :: earlier)) ≤
      ((timeWindow (prev :: earlier)).take 10).countP (fun t => t ≤ block.blockTime) +
        ((timeWindow (prev :: earlier)).drop 10).length := by
    nth_rewrite 1 [← take_append_drop 10 (timeWindow (prev :: earlier))]
    rw [countP_append]
    refine Nat.add_le_add (countP_mono_left fun t _ ht => ?_) countP_le_length
    simp only [decide_eq_true_eq] at ht ⊢
    omega
  rw [length_drop] at hcount
  omega

/-! ## Chains that obey the rules -/

theorem checkBlockTime_ok_iff : checkBlockTime p prev earlier height time = .ok () ↔
    medianTimePast (prev :: earlier) < time ∧
      (enforceTimewarpProtectionAtHeight p height = true → prev.blockTime - maxTimewarp ≤ time) ∧
      ∀ cap ∈ p.maxMatMulAllowedBlockTime height prev.blockTime (medianTimePast (prev :: earlier)),
        time ≤ reconciledMaxTime p prev height cap := by
  unfold checkBlockTime
  dsimp only
  by_cases hold : time ≤ medianTimePast (prev :: earlier)
  · rw [if_pos hold]
    exact iff_of_false (fun h => by cases h) (fun h => absurd h.1 (not_lt.2 hold))
  rw [if_neg hold]
  by_cases hwarp : enforceTimewarpProtectionAtHeight p height = true ∧
      time < prev.blockTime - maxTimewarp
  · rw [if_pos hwarp]
    exact iff_of_false (fun h => by cases h) (fun h => absurd (h.2.1 hwarp.1) (not_le.2 hwarp.2))
  rw [if_neg hwarp]
  have hwarp' : enforceTimewarpProtectionAtHeight p height = true →
      prev.blockTime - maxTimewarp ≤ time := fun h => not_lt.1 fun hlt => hwarp ⟨h, hlt⟩
  cases p.maxMatMulAllowedBlockTime height prev.blockTime (medianTimePast (prev :: earlier)) with
  | none => exact iff_of_true rfl ⟨not_le.1 hold, hwarp', fun c hc => by cases hc⟩
  | some cap =>
    dsimp only
    split_ifs with hcap
    · refine iff_of_false (fun h => by cases h) fun h => ?_
      exact absurd (h.2.2 cap rfl) (not_le.2 hcap)
    · refine iff_of_true rfl ⟨not_le.1 hold, hwarp', fun c hc => ?_⟩
      rw [← mem_some.1 hc]
      exact not_lt.1 hcap

/-- A chain, newest block first, of which every block has passed the checks on its time. -/
def ObeysTimeRules (p : Params) : List BlockData → Prop
  | [] => False
  | [_] => True
  | block :: prev :: earlier => block.nHeight = prev.nHeight + 1 ∧
    checkBlockTime p prev earlier block.nHeight block.blockTime = .ok () ∧
      ObeysTimeRules p (prev :: earlier)

theorem ObeysTimeRules.median_le (h : ObeysTimeRules p (prev :: earlier)) :
    medianTimePast (prev :: earlier) ≤ prev.blockTime := by
  cases earlier with
  | nil =>
    show medianTimePast [prev] ≤ prev.blockTime
    simp [medianTimePast, nMedianTimeSpan]
  | cons grandparent earlier => exact medianTimePast_le_tip (checkBlockTime_ok_iff.1 h.2.1).1

theorem blockTime_bounds (block : BlockData) : 0 ≤ block.blockTime ∧ block.blockTime < 2 ^ 32 := by
  have := block.nTime.toNat_lt
  unfold BlockData.blockTime
  omega

/-! ## The caps -/

theorem lt_saturatingAdd {a b : ℤ} (ha : a < int64Max) (hb : 0 < b) : a < saturatingAdd a b := by
  unfold saturatingAdd
  split_ifs <;> omega

theorem lt_futureBlockTimeLimit {median : ℤ} (hmedian : median < int64Max)
    (hcap : p.matMulFutureBlockTimeLimit median = some cap) : median < cap := by
  unfold Params.matMulFutureBlockTimeLimit at hcap
  split_ifs at hcap with hoff
  rw [← some.inj hcap]
  exact lt_saturatingAdd hmedian (by omega)

/-- **No cap is at or below the median.** -/
theorem lt_maxMatMulAllowedBlockTime {parent median : ℤ} (hmedian : median ≤ parent)
    (hparent : parent < int64Max)
    (hcap : p.maxMatMulAllowedBlockTime height parent median = some cap) : median < cap := by
  have hmtp : ∀ c, p.maxMatMulFutureBlockTime height median = some c → median < c := by
    intro c hc
    unfold Params.maxMatMulFutureBlockTime at hc
    split_ifs at hc
    exact lt_futureBlockTimeLimit (by omega) hc
  have hadvance : ∀ c, p.maxMatMulParentTimeAdvance height parent = some c → median < c := by
    intro c hc
    unfold Params.maxMatMulParentTimeAdvance at hc
    split_ifs at hc with hoff
    rw [← some.inj hc]
    exact hmedian.trans_lt (lt_saturatingAdd hparent (by omega))
  unfold Params.maxMatMulAllowedBlockTime at hcap
  split at hcap
  · exact hadvance cap hcap
  · exact hmtp cap hcap
  · next hmtpCap hparentCap =>
    rw [← some.inj hcap]
    split_ifs
    · exact hmtp _ hmtpCap
    · exact hadvance _ hparentCap

theorem getMaximumTime_of_cap (hheight : prev.nHeight ≠ int32Max)
    (hcap : p.maxMatMulAllowedBlockTime (prev.nHeight + 1) prev.blockTime
      (medianTimePast (prev :: earlier)) = some cap) :
    getMaximumTime p prev earlier = some (reconciledMaxTime p prev (prev.nHeight + 1) cap) := by
  unfold getMaximumTime
  simp only [tryGetNextBlockHeight, if_neg hheight]
  split_ifs with hrecovery
  · rw [hcap]
    rfl
  · have hparent : p.maxMatMulParentTimeAdvance (prev.nHeight + 1) prev.blockTime = none := by
      simp [Params.maxMatMulParentTimeAdvance, hrecovery]
    rw [Params.maxMatMulAllowedBlockTime, hparent] at hcap
    have hmtp : p.maxMatMulFutureBlockTime (prev.nHeight + 1)
        (medianTimePast (prev :: earlier)) = some cap := by
      split at hcap
      · cases hcap
      · exact hcap
      · next h => cases h
    unfold Params.maxMatMulFutureBlockTime at hmtp
    split_ifs at hmtp
    rw [hmtp]
    rfl

theorem getMinimumTime_le (hchain : ObeysTimeRules p (prev :: earlier))
    (hactive : p.isMatMulTimewarpReconcileActive (prev.nHeight + 1) = true)
    (hheight : prev.nHeight ≠ int32Max) (hcap : getMaximumTime p prev earlier = some cap) :
    getMinimumTime p prev earlier ≤ cap := by
  have hmedian := hchain.median_le
  have hbounds := blockTime_bounds prev
  have hparent : prev.blockTime < int64Max := by
    unfold int64Max
    omega
  unfold getMaximumTime at hcap
  simp only [tryGetNextBlockHeight, if_neg hheight, map_eq_some_iff] at hcap
  obtain ⟨raw, hraw, rfl⟩ := hcap
  have hlow : medianTimePast (prev :: earlier) < raw := by
    split_ifs at hraw
    · exact lt_maxMatMulAllowedBlockTime hmedian hparent hraw
    · exact lt_futureBlockTimeLimit (by omega) hraw
  simp only [getMinimumTime, tryGetNextBlockHeight, if_neg hheight, reconciledMaxTime, hactive,
    true_and]
  split_ifs <;> omega

/-! ## The template -/

theorem newTemplateTime_bounds {minTime : ℤ} {maxTime : Option ℤ} (now : ℤ)
    (h : ∀ cap ∈ maxTime, minTime ≤ cap) : minTime ≤ newTemplateTime minTime maxTime now ∧
      (∀ cap ∈ maxTime, newTemplateTime minTime maxTime now ≤ cap) ∧
      newTemplateTime minTime maxTime now ≤ max minTime now := by
  cases maxTime with
  | none => exact ⟨le_max_left _ _, by simp, le_rfl⟩
  | some maxTime =>
    have hle := h maxTime rfl
    simp only [newTemplateTime, mem_some_iff, forall_eq']
    split_ifs <;> omega

theorem toNat_ofInt {x : ℤ} (hpos : 0 ≤ x) (hlt : x < 2 ^ 32) : ((UInt32.ofInt x : ℕ) : ℤ) = x := by
  unfold UInt32.ofInt
  rw [UInt32.toNat_ofNat_of_lt' (by unfold UInt32.size; omega), Int.emod_eq_of_lt hpos hlt]
  exact Int.toNat_of_nonneg hpos

theorem checkBlockTime_of_bounds (hheight : prev.nHeight ≠ int32Max)
    (hmin : getMinimumTime p prev earlier ≤ time)
    (hmax : ∀ cap ∈ getMaximumTime p prev earlier, time ≤ cap) :
    checkBlockTime p prev earlier (prev.nHeight + 1) time = .ok () := by
  simp only [getMinimumTime, tryGetNextBlockHeight, if_neg hheight] at hmin
  refine checkBlockTime_ok_iff.2 ⟨?_, fun henforce => ?_, fun cap hcap => ?_⟩
  · split_ifs at hmin <;> omega
  · rw [if_pos henforce] at hmin
    omega
  · exact hmax _ (getMaximumTime_of_cap hheight hcap)

theorem getMinimumTime_lt (htime : medianTimePast (prev :: earlier) + 1 < 2 ^ 32) :
    getMinimumTime p prev earlier < 2 ^ 32 := by
  have hbounds := blockTime_bounds prev
  unfold getMinimumTime maxTimewarp
  dsimp only
  split
  · exact htime
  · split_ifs <;> omega

theorem getMinimumTime_pos : 0 < getMinimumTime p prev earlier := by
  have hmedian : 0 ≤ medianTimePast (prev :: earlier) := by
    by_contra hneg
    have hcount := (medianTimePast_le_iff (-1)).1 (by omega : medianTimePast (prev :: earlier) ≤ -1)
    obtain ⟨t, ht, hle⟩ := countP_pos_iff.1 (Nat.zero_lt_of_lt hcount)
    obtain ⟨block, -, rfl⟩ := List.mem_map.1 ht
    have := (blockTime_bounds block).1
    simp only [decide_eq_true_eq] at hle
    omega
  unfold getMinimumTime
  dsimp only
  split
  · omega
  · split_ifs <;> omega

/-- **With the reconciliation there is always a time for the next block, and `UpdateTime` finds
one**, for every clock and every time a template had. Times are below `2 ^ 32`: the median leaves
one, and the clock is. -/
theorem updateTime_within_rules {tip : CBlockIndex} {ancestors : List CBlockIndex}
    (hchain : ObeysTimeRules p ((tip :: ancestors).map CBlockIndex.toBlockData))
    (hactive : p.isMatMulTimewarpReconcileActive (tip.nHeight + 1) = true)
    (hheight : tip.nHeight + 1 ≤ int32Max)
    (htime : medianTimePast ((tip :: ancestors).map CBlockIndex.toBlockData) + 1 < 2 ^ 32) :
    (∃ nTime : UInt32, checkBlockTime p tip.toBlockData (ancestors.map CBlockIndex.toBlockData)
      (tip.nHeight + 1) (nTime : ℕ) = .ok ()) ∧
    ∀ (now : ℤ) (nTime : UInt32) (nBits : ℕ), now < 2 ^ 32 →
      checkBlockTime p tip.toBlockData (ancestors.map CBlockIndex.toBlockData) (tip.nHeight + 1)
        ((updateTime p tip ancestors now nTime nBits).nTime : ℕ) = .ok () := by
  rw [map_cons] at hchain htime
  set prev := tip.toBlockData
  set earlier := ancestors.map CBlockIndex.toBlockData
  have hne : prev.nHeight ≠ int32Max := by omega
  have hpos : 0 < getMinimumTime p prev earlier := getMinimumTime_pos
  have hlt := getMinimumTime_lt (p := p) htime
  have hmin : ∀ cap ∈ getMaximumTime p prev earlier, getMinimumTime p prev earlier ≤ cap :=
    fun cap hcap => getMinimumTime_le hchain hactive hne hcap
  constructor
  · refine ⟨UInt32.ofInt (getMinimumTime p prev earlier), ?_⟩
    rw [toNat_ofInt hpos.le hlt]
    exact checkBlockTime_of_bounds hne le_rfl hmin
  · intro now nTime nBits hnow
    obtain ⟨hlow, hcap, hhigh⟩ := newTemplateTime_bounds now hmin
    simp only [updateTime]
    split_ifs with hset
    · rw [toNat_ofInt (hpos.le.trans hlow) (hhigh.trans_lt (max_lt hlt hnow))]
      exact checkBlockTime_of_bounds hne hlow hcap
    · -- the old time was late enough, and not above the cap
      rw [not_or, not_lt] at hset
      refine checkBlockTime_of_bounds hne (hlow.trans hset.1) fun cap hmem => ?_
      exact not_lt.1 fun h => hset.2 ⟨cap, hmem, h⟩

/-- The main network with the drift cap and the reconciliation from the first block on. -/
def reconciledStart : Params :=
  { mainnet with nMatMulMaxFutureMtpDriftHeight := 1, nMatMulTimewarpReconcileHeight := 1 }

/-- Above the genesis block, one block as late as the cap allows and one a second later. -/
def lateTip : CBlockIndex := ⟨⟨2, 1773882001, 0x20147ae1⟩, 0, 0⟩

def lateAncestors : List CBlockIndex :=
  [⟨⟨1, 1773882000, 0x20147ae1⟩, 0, 0⟩, ⟨⟨0, 1773878400, 0x20147ae1⟩, 0, 0⟩]

/-- The next block, for a clock that is far behind and one that is far ahead. -/
theorem reconciledStart_template :
    checkBlockTime reconciledStart lateTip.toBlockData (lateAncestors.map CBlockIndex.toBlockData) 3
      ((updateTime reconciledStart lateTip lateAncestors 0 0 0).nTime : ℕ) = .ok () ∧
    checkBlockTime reconciledStart lateTip.toBlockData (lateAncestors.map CBlockIndex.toBlockData) 3
      ((updateTime reconciledStart lateTip lateAncestors 1873878400 0 0).nTime : ℕ) = .ok () := by
  have hchain : ObeysTimeRules reconciledStart
      ((lateTip :: lateAncestors).map CBlockIndex.toBlockData) :=
    ⟨rfl, by decide +kernel, rfl, by decide +kernel, trivial⟩
  have h := (updateTime_within_rules hchain (by decide +kernel) (by decide) (by decide +kernel)).2
  exact ⟨h 0 0 0 (by decide), h 1873878400 0 0 (by decide)⟩

/-! ## The median along a chain -/

theorem medianTimePast_le_next (h : medianTimePast (prev :: earlier) < block.blockTime) :
    medianTimePast (prev :: earlier) ≤ medianTimePast (block :: prev :: earlier) := by
  by_contra! hless
  -- too few times lie below the old median, and that of the new block is not one of them
  have hfew : ¬medianTimePast (prev :: earlier) ≤ medianTimePast (prev :: earlier) - 1 := by omega
  have hmany := Int.le_sub_one_of_lt hless
  rw [medianTimePast_le_iff] at hfew hmany
  have hwindow : timeWindow (block :: prev :: earlier) =
      block.blockTime :: (timeWindow (prev :: earlier)).take 10 := by
    simp [timeWindow, nMedianTimeSpan, map_take, take_take]
  have hold : (timeWindow (prev :: earlier)).length ≤ 11 := by
    simp [timeWindow, nMedianTimeSpan]
  rw [hwindow, countP_cons_of_neg (by simp; omega), length_cons, length_take] at hmany
  have hcount := (take_sublist 10 (timeWindow (prev :: earlier))).countP_le
    (p := (· ≤ medianTimePast (prev :: earlier) - 1))
  omega

/-- **The median time past never falls** along a chain that obeys the rules: what a lock time has
been compared with at some block is a lower bound at every later one. -/
theorem medianTimePast_mono (later : List BlockData)
    (h : ObeysTimeRules p (later ++ prev :: earlier)) :
    medianTimePast (prev :: earlier) ≤ medianTimePast (later ++ prev :: earlier) := by
  induction later with
  | nil => exact le_rfl
  | cons block later ih =>
    obtain ⟨next, rest, hrest⟩ : ∃ next rest, later ++ prev :: earlier = next :: rest :=
      exists_cons_of_ne_nil (by simp)
    rw [cons_append, hrest] at h ⊢
    rw [hrest] at ih
    exact (ih h.2.2).trans (medianTimePast_le_next (checkBlockTime_ok_iff.1 h.2.1).1)

/-- Two blocks after the genesis block, 90 seconds apart. -/
theorem medianTimePast_mono_two :
    medianTimePast [⟨0, 1773878400, 0⟩] ≤
      medianTimePast [⟨2, 1773878580, 0⟩, ⟨1, 1773878490, 0⟩, ⟨0, 1773878400, 0⟩] :=
  medianTimePast_mono (p := reconciledStart) [⟨2, 1773878580, 0⟩, ⟨1, 1773878490, 0⟩]
    ⟨rfl, by decide +kernel, rfl, by decide +kernel, trivial⟩

end Btx.Pow
