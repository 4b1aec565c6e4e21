/-
# Ring selection

The decoys of a ring (`src/shielded/ringct/ring_selection.cpp`). The first four come from the four
quarters of the tree, if tree and ring are large enough; the others prefer the older half, up to a
quota. Each search draws 64 times and then walks over its range, and takes an excluded position only
if nothing else is left there. A real position among the excluded ones calls for a decoy among them.

A tree has at most `2 ^ MERKLE_DEPTH` leaves, so positions are natural numbers here. The sampler of
ages may give any age of its range.
-/

import Btx.Util.Choices
import Mathlib.Order.Interval.Finset.Nat

namespace Btx.RingCT

open Util Choices List

/-! ## Ranges -/

/-- `DecoyRegion`. -/
inductive DecoyRegion
  | historical
  | recent
  | any
  deriving DecidableEq

/-- `PositionRange`, with both ends. -/
structure PositionRange where
  first : ℕ
  last : ℕ

namespace PositionRange

variable (range : PositionRange)

def IsValid : Prop := range.first ≤ range.last

instance instDecidableIsValid : Decidable range.IsValid :=
  inferInstanceAs (Decidable (range.first ≤ range.last))

def size : ℕ := if range.IsValid then range.last - range.first + 1 else 0

/-- The position is in the range. -/
def Has (pos : ℕ) : Prop := range.first ≤ pos ∧ pos ≤ range.last

end PositionRange

variable (treeSize : ℕ)

/-- `GetRegionRange`. -/
def getRegionRange (region : DecoyRegion) : PositionRange :=
  if treeSize = 0 then ⟨1, 0⟩
  else
    let newest := treeSize - 1
    if region = .any ∨ treeSize = 1 then ⟨0, newest⟩
    else if region = .historical then ⟨0, newest / 2⟩
    else if newest < newest / 2 + 1 then ⟨0, newest⟩
    else ⟨newest / 2 + 1, newest⟩

/-- `HISTORICAL_DECOY_TARGET`. -/
def historicalDecoyTarget : ℕ := 7

/-- `AGE_SPREAD_BIN_COUNT`. -/
def ageSpreadBinCount : ℕ := 4

/-- `MIN_TREE_SIZE_FOR_AGE_SPREAD`. -/
def minTreeSizeForAgeSpread : ℕ := 64

/-- `HistoricalDecoyQuota`. -/
def historicalDecoyQuota (decoyCount : ℕ) : ℕ :=
  if decoyCount = 0 then 0 else min historicalDecoyTarget ((decoyCount - 1) / 2)

/-- `PreferredDecoyRegion`. -/
def preferredDecoyRegion (decoyIndex decoyCount : ℕ) : DecoyRegion :=
  if decoyIndex < historicalDecoyQuota decoyCount then .historical else .any

/-- `GetAgeSpreadBinRange`. -/
def getAgeSpreadBinRange (treeSize binIndex binCount : ℕ) : Option PositionRange :=
  if treeSize = 0 ∨ binCount = 0 ∨ binCount ≤ binIndex then none
  else
    let first := treeSize * binIndex / binCount
    let next := treeSize * (binIndex + 1) / binCount
    if next = 0 ∨ next ≤ first then none else some ⟨first, next - 1⟩

/-- `PreferNewestWithinRange`. -/
def preferNewestWithinRange (range : PositionRange) : Bool :=
  !(decide ¬range.IsValid || decide (treeSize ≤ 1)) && decide ((treeSize - 1) / 2 + 1 ≤ range.first)

/-- `PositionToAge`. -/
def positionToAge (treeSize position : ℕ) : ℕ := if treeSize = 0 then 0 else treeSize - 1 - position

/-- `AgeToPosition`. -/
def ageToPosition (treeSize age : ℕ) : ℕ :=
  if treeSize = 0 then 0 else treeSize - 1 - min age (treeSize - 1)

/-! ## Searches -/

/-- `SampleShiftedParetoAge`: some age of the range. -/
def sampleShiftedParetoAge (minAge maxAge : ℕ) : Choices ℕ :=
  if maxAge ≤ minAge then pure minAge else between minAge maxAge

/-- An age of the positions of a range, as a position. -/
def sampleByAge (range : PositionRange) : Choices ℕ := do
  let age ← sampleShiftedParetoAge (positionToAge treeSize range.last)
    (positionToAge treeSize range.first)
  pure (ageToPosition treeSize age)

/-- `SampleDecoyPosition`. -/
def sampleDecoyPosition (region : DecoyRegion) : Choices ℕ :=
  let range := getRegionRange treeSize region
  if ¬range.IsValid then pure 0
  else if range.first = range.last then pure range.first
  else sampleByAge treeSize range

/-- The loop of 64 draws: the candidate, and whether it is valid. -/
def attempts (sample : Choices ℕ) (valid : ℕ → Bool) : ℕ → ℕ → Choices (ℕ × Bool)
  | 0, candidate => pure (candidate, false)
  | n + 1, candidate =>
      if valid candidate then pure (candidate, true)
      else do
        let candidate ← sample
        attempts sample valid n candidate

/-- The walk over the range, from the last candidate on and around. -/
def walk (range : PositionRange) (valid : ℕ → Bool) (candidate : ℕ) : Option ℕ :=
  ((List.range range.size).map fun delta =>
    range.first + (candidate - range.first + delta) % range.size).find? valid

/-- The draws and the walk of both searches. -/
def findCandidate (range : PositionRange) (sample : Choices ℕ) (valid : ℕ → Bool) :
    Choices (Option ℕ) := do
  if ¬range.IsValid then pure none
  else
    let candidate ← sample
    let (candidate, found) ← attempts sample valid 64 candidate
    pure (if found then some candidate else walk range valid candidate)

/-- `FindCandidateInRegion`. -/
def findCandidateInRegion (region : DecoyRegion) (valid : ℕ → Bool) : Choices (Option ℕ) :=
  findCandidate (getRegionRange treeSize region) (sampleDecoyPosition treeSize region) valid

/-- `FindCandidateInRange`. -/
def findCandidateInRange (range : PositionRange) (treeSize : ℕ) (preferNewest : Bool)
    (valid : ℕ → Bool) : Choices (Option ℕ) :=
  let sample :=
    if range.first = range.last then pure range.first
    else if !preferNewest then between range.first range.last
    else sampleByAge treeSize range
  findCandidate range sample valid

section Searches

variable {range : PositionRange} {treeSize pos candidate n : ℕ} {region : DecoyRegion}
  {sample : Choices ℕ} {valid : ℕ → Bool}

/-- A region lies in the tree, and the region of all positions is the tree. -/
theorem getRegionRange_spec (htree : 0 < treeSize) (region : DecoyRegion) :
    (getRegionRange treeSize region).IsValid ∧ (getRegionRange treeSize region).last < treeSize ∧
      (region = .any → ∀ pos < treeSize, (getRegionRange treeSize region).Has pos) := by
  unfold getRegionRange PositionRange.IsValid PositionRange.Has
  rw [if_neg (by omega)]
  dsimp only
  split_ifs with hany hhistorical hone
  · exact ⟨Nat.zero_le _, by change treeSize - 1 < treeSize; omega, fun _ pos hpos =>
      ⟨Nat.zero_le _, by change pos ≤ treeSize - 1; omega⟩⟩
  all_goals refine ⟨?_, ?_, fun h => absurd (.inl h) hany⟩
  all_goals dsimp only
  all_goals omega

theorem always_sampleByAge (hvalid : range.IsValid) (hlast : range.last < treeSize) :
    Always (sampleByAge treeSize range) range.Has := by
  have hfirst : range.first ≤ range.last := hvalid
  have hage (p : ℕ) : positionToAge treeSize p = treeSize - 1 - p := if_neg (by omega)
  have hsample : Always (sampleShiftedParetoAge (positionToAge treeSize range.last)
      (positionToAge treeSize range.first)) fun age =>
      treeSize - 1 - range.last ≤ age ∧ age ≤ treeSize - 1 - range.first := by
    rw [hage, hage]
    unfold sampleShiftedParetoAge
    split_ifs with hsame
    · exact always_pure ⟨le_rfl, by omega⟩
    · exact always_between (by omega)
  refine hsample.bind fun age hrange => always_pure ?_
  unfold ageToPosition PositionRange.Has
  rw [if_neg (by omega)]
  omega

theorem always_attempts (hsample : Always sample range.Has) (hcandidate : range.Has candidate) :
    Always (attempts sample valid n candidate) fun r =>
      range.Has r.1 ∧ (r.2 = true → valid r.1 = true) := by
  induction n generalizing candidate with
  | zero => exact always_pure ⟨hcandidate, by simp⟩
  | succ n ih =>
    unfold attempts
    split_ifs with hvalid
    · exact always_pure ⟨hcandidate, fun _ => hvalid⟩
    · exact hsample.bind fun _ hnext => ih hnext

/-- The walk finds a valid position wherever the range has one. -/
theorem walk_spec (hrange : range.IsValid) (hcandidate : range.Has candidate) :
    (∀ pos, walk range valid candidate = some pos → valid pos = true ∧ range.Has pos) ∧
      (walk range valid candidate = none → ∀ pos, range.Has pos → valid pos = false) := by
  have hfirst : range.first ≤ range.last := hrange
  have hsize : range.size = range.last - range.first + 1 := if_pos hrange
  unfold PositionRange.Has at hcandidate ⊢
  constructor
  · intro pos hpos
    refine ⟨find?_some hpos, ?_⟩
    obtain ⟨delta, -, rfl⟩ := mem_map.1 (mem_of_find?_eq_some hpos)
    have hmod : (candidate - range.first + delta) % range.size < range.size :=
      Nat.mod_lt _ (by omega)
    omega
  · intro hnone pos hpos
    rw [walk, find?_eq_none] at hnone
    -- as far behind the candidate as the position is, around the end of the range
    by_cases hbehind : candidate ≤ pos
    · refine Bool.eq_false_iff.2 (hnone pos (mem_map.2 ⟨pos - candidate, ?_, ?_⟩))
      · rw [mem_range]
        omega
      · rw [show candidate - range.first + (pos - candidate) = pos - range.first from by omega,
          Nat.mod_eq_of_lt (by omega)]
        omega
    · refine Bool.eq_false_iff.2 (hnone pos (mem_map.2 ⟨pos + range.size - candidate, ?_, ?_⟩))
      · rw [mem_range]
        omega
      · rw [show candidate - range.first + (pos + range.size - candidate) =
            pos - range.first + range.size from by omega, Nat.add_mod_right,
              Nat.mod_eq_of_lt (by omega)]
        omega

/-- What a search may give: a valid position of its range, or nothing where there is none. -/
def Finds (range : PositionRange) (valid : ℕ → Bool) (r : Option ℕ) : Prop :=
  (∀ pos, r = some pos → valid pos = true ∧ range.Has pos) ∧
    (r = none → ∀ pos, range.Has pos → valid pos = false)

/-- **A search finds a valid position of its range exactly if there is one.** -/
theorem always_findCandidate (hrange : range.IsValid) (hsample : Always sample range.Has) :
    Always (findCandidate range sample valid) (Finds range valid) := by
  unfold findCandidate
  rw [if_neg (not_not.2 hrange)]
  refine hsample.bind fun candidate hcandidate =>
    (always_attempts hsample hcandidate).bind fun r hr => always_pure ?_
  obtain ⟨candidate, found⟩ := r
  cases found with
  | true =>
    refine ⟨fun pos hpos => ?_, by simp⟩
    obtain rfl : candidate = pos := Option.some.inj hpos
    exact ⟨hr.2 rfl, hr.1⟩
  | false => exact walk_spec hrange hr.1

theorem always_findCandidateInRegion (htree : 0 < treeSize) (region : DecoyRegion)
    (valid : ℕ → Bool) :
    Always (findCandidateInRegion treeSize region valid)
      (Finds (getRegionRange treeSize region) valid) := by
  obtain ⟨hvalid, hlast, -⟩ := getRegionRange_spec htree region
  refine always_findCandidate hvalid ?_
  unfold sampleDecoyPosition
  rw [if_neg (not_not.2 hvalid)]
  split_ifs with hone
  · exact always_pure ⟨le_rfl, hone.le⟩
  · exact always_sampleByAge hvalid hlast

theorem always_findCandidateInRange (hrange : range.IsValid) (hlast : range.last < treeSize)
    (preferNewest : Bool) (valid : ℕ → Bool) :
    Always (findCandidateInRange range treeSize preferNewest valid) (Finds range valid) := by
  refine always_findCandidate hrange ?_
  split_ifs with hone
  · exact always_pure ⟨le_rfl, hone.le⟩
  · exact always_between hrange
  · exact always_sampleByAge hrange hlast

end Searches

/-! ## Rings -/

/-- What both selectors are given. -/
structure RingRequest where
  reals : List ℕ
  treeSize : ℕ
  ringSize : ℕ
  excludedPositions : List ℕ

namespace RingRequest

variable (q : RingRequest)

/-- `excluded`: the excluded positions of the tree that are not real. -/
def excluded : List ℕ :=
  q.excludedPositions.filter fun pos => decide (pos < q.treeSize ∧ pos ∉ q.reals)

/-- `real_in_excluded_window`, `any_real_in_excluded_window`. -/
def realInExcludedWindow : Bool :=
  q.reals.any fun pos => decide (pos ∈ q.excludedPositions)

def decoyCount : ℕ := q.ringSize - q.reals.length

def ageSpreadQuota : ℕ :=
  if minTreeSizeForAgeSpread ≤ q.treeSize ∧ ageSpreadBinCount ≤ q.decoyCount then
    ageSpreadBinCount
  else 0

variable (selected : List ℕ)

/-- `is_valid`, after some positions are selected. -/
def isValid (requireNewUnique avoidExcluded : Bool) (pos : ℕ) : Bool :=
  decide (pos < q.treeSize) && !(requireNewUnique && decide (pos ∈ selected)) &&
    !(avoidExcluded && decide (pos ∈ q.excluded))

/-- `pick_candidate`. -/
def pickCandidate (requireNewUnique : Bool) (preferredRegion : DecoyRegion) : Choices ℕ :=
  let find (region : DecoyRegion) (avoidExcluded : Bool) : Choices (Option ℕ) :=
    findCandidateInRegion q.treeSize region (q.isValid selected requireNewUnique avoidExcluded)
  let findElsewhere (avoidExcluded : Bool) : Choices (Option ℕ) :=
    if preferredRegion ≠ .any then find .any avoidExcluded else pure none
  orElse (find preferredRegion true) <| orElse (findElsewhere true) <|
    orElse (find preferredRegion false) <| orElse (findElsewhere false) <| pure (q.reals.headD 0)

/-- `pick_age_spread_candidate`. -/
def pickAgeSpreadCandidate (requireNewUnique : Bool) (binIndex : ℕ) : Choices (Option ℕ) :=
  match getAgeSpreadBinRange q.treeSize binIndex q.ageSpreadQuota with
  | none => pure none
  | some range =>
      let find (avoidExcluded : Bool) : Choices (Option ℕ) :=
        findCandidateInRange range q.treeSize (preferNewestWithinRange q.treeSize range)
          (q.isValid selected requireNewUnique avoidExcluded)
      orElse (do return (← find true).map some) (find false)

/-- The next decoy, after some positions are selected. -/
def pickDecoy (positions : List ℕ) : Choices ℕ :=
  let canBeUnique := decide (positions.toFinset.card < min q.ringSize q.treeSize)
  let decoyIndex := positions.length - q.reals.length
  let elsewhere :=
    q.pickCandidate positions canBeUnique (preferredDecoyRegion decoyIndex q.decoyCount)
  if decoyIndex < q.ageSpreadQuota then
    orElse (q.pickAgeSpreadCandidate positions canBeUnique decoyIndex) elsewhere
  else elsewhere

/-- The loop over the decoys. -/
def addDecoys (q : RingRequest) : ℕ → List ℕ → Choices (List ℕ)
  | 0, positions => pure positions
  | n + 1, positions => do
      let candidate ← q.pickDecoy positions
      addDecoys q n (positions ++ [candidate])

/-- `PickExcludedDecoy`. -/
def pickExcludedDecoy : Choices (Option ℕ) :=
  orElse (do return (← pick (q.excluded.filter fun pos => decide (pos ∉ selected))).map some)
    (pick (q.excluded.filter fun pos => decide (pos ∈ selected)))

/-- A real position among the excluded ones gets company: the last decoy is replaced if no excluded
position is in the ring. Real positions are never in `excluded`, so both selectors ask the same. -/
def addExcludedDecoy (positions : List ℕ) : Choices (List ℕ) :=
  if q.realInExcludedWindow = true ∧ q.reals.length < positions.length ∧
      ∀ pos ∈ positions, pos ∉ q.excluded then do
    let excludedDecoy ← q.pickExcludedDecoy positions
    pure (excludedDecoy.elim positions fun pos => positions.dropLast ++ [pos])
  else pure positions

end RingRequest

def swap (l : List ℕ) (i j : ℕ) : List ℕ := (l.set i (l.getD j 0)).set j (l.getD i 0)

/-- The loop that shuffles the ring, from a place down. -/
def shuffle : ℕ → List ℕ → Choices (List ℕ)
  | 0, positions => pure positions
  | i + 1, positions => do
      let j ← between 0 (i + 1)
      shuffle i (swap positions (i + 1) j)

/-- The ring: decoys behind the real positions, shuffled. -/
def RingRequest.selectPositions (q : RingRequest) : Choices (List ℕ) := do
  let positions ← q.addDecoys q.decoyCount q.reals
  let positions ← q.addExcludedDecoy positions
  shuffle (positions.length - 1) positions

/-- `RingSelection`. -/
structure RingSelection where
  positions : List ℕ
  realIndex : ℕ

/-- `SelectRingPositionsWithExclusions`. -/
def selectRingPositionsWithExclusions (realPosition treeSize ringSize : ℕ)
    (excludedPositions : List ℕ) : Choices RingSelection :=
  if ringSize = 0 then pure ⟨[], 0⟩
  else if treeSize = 0 then pure ⟨List.replicate ringSize 0, 0⟩
  else do
    let realPos := min realPosition (treeSize - 1)
    let positions ← RingRequest.selectPositions ⟨[realPos], treeSize, ringSize, excludedPositions⟩
    let realOccurrences :=
      (List.range positions.length).filter fun i => positions[i]? = some realPos
    if realOccurrences.length ≤ 1 then pure ⟨positions, realOccurrences.headD 0⟩
    else
      let realIndex ← pick realOccurrences
      pure ⟨positions, realIndex.getD 0⟩

/-- `SharedRingSelection`. -/
structure SharedRingSelection where
  positions : List ℕ
  realIndices : List ℕ

/-- `SelectSharedRingPositionsWithExclusions`. -/
def selectSharedRingPositionsWithExclusions (realPositions : List ℕ) (treeSize ringSize : ℕ)
    (excludedPositions : List ℕ) : Choices SharedRingSelection :=
  if realPositions = [] ∨ ringSize = 0 ∨ treeSize = 0 then pure ⟨[], []⟩
  else if (∃ pos ∈ realPositions, treeSize ≤ pos) ∨ ¬realPositions.Nodup then pure ⟨[], []⟩
  else if ringSize < realPositions.length then pure ⟨[], []⟩
  else do
    let positions ←
      RingRequest.selectPositions ⟨realPositions, treeSize, ringSize, excludedPositions⟩
    if ∃ pos ∈ realPositions, pos ∉ positions then pure ⟨[], []⟩
    else pure ⟨positions, realPositions.map fun pos => positions.idxOf pos⟩

namespace RingRequest

/-- A position that may come next. -/
def IsNew (q : RingRequest) (selected : List ℕ) (unique : Bool) (pos : ℕ) : Prop :=
  pos < q.treeSize ∧ (unique = true → pos ∉ selected)

section Picks

variable {q : RingRequest} {selected : List ℕ} {unique avoid : Bool} {pos b : ℕ}
  {range : PositionRange}

theorem isValid_iff : q.isValid selected unique avoid pos = true ↔
    q.IsNew selected unique pos ∧ (avoid = true → pos ∉ q.excluded) := by
  cases unique <;> cases avoid <;> simp [isValid, IsNew]

theorem isValid_false_iff : q.isValid selected unique avoid pos = false ↔
    (q.IsNew selected unique pos → avoid = true ∧ pos ∈ q.excluded) := by
  rw [← Bool.not_eq_true, isValid_iff]
  tauto

/-- **A candidate is new, if anything is, and excluded only if all that is new is excluded.** -/
theorem always_pickCandidate (hnew : ∃ pos, q.IsNew selected unique pos) (region : DecoyRegion) :
    Always (q.pickCandidate selected unique region) fun pos =>
      q.IsNew selected unique pos ∧
        (pos ∈ q.excluded → ∀ free, q.IsNew selected unique free → free ∈ q.excluded) := by
  obtain ⟨new, hnew⟩ := hnew
  have htree : 0 < q.treeSize := Nat.zero_lt_of_lt hnew.1
  have hfind (avoid : Bool) :=
    always_findCandidateInRegion htree region (q.isValid selected unique avoid)
  -- the search in the whole tree, where it is not the first one
  have helsewhere (avoid : Bool) (hfailed : ∀ pos, (getRegionRange q.treeSize region).Has pos →
      q.isValid selected unique avoid pos = false) :
      Always (if region ≠ .any then
          findCandidateInRegion q.treeSize .any (q.isValid selected unique avoid) else pure none)
            fun r =>
        (∀ pos, r = some pos → q.isValid selected unique avoid pos = true) ∧
          (r = none → ∀ pos, q.IsNew selected unique pos → avoid = true ∧ pos ∈ q.excluded) := by
    obtain ⟨-, -, hany⟩ := getRegionRange_spec htree .any
    split_ifs with hregion
    · refine (always_findCandidateInRegion htree .any _).mono fun r hr =>
        ⟨fun p hp => (hr.1 p hp).1, ?_⟩
      exact fun hnone p hp => isValid_false_iff.1 (hr.2 hnone p (hany rfl p hp.1)) hp
    · rw [not_not] at hregion
      subst hregion
      exact always_pure ⟨by simp, fun _ p hp =>
        isValid_false_iff.1 (hfailed p (hany rfl p hp.1)) hp⟩
  have htrue {p : ℕ} (hp : q.isValid selected unique true p = true) : q.IsNew selected unique p ∧
      (p ∈ q.excluded → ∀ free, q.IsNew selected unique free → free ∈ q.excluded) :=
    ⟨(isValid_iff.1 hp).1, fun hmem => absurd hmem ((isValid_iff.1 hp).2 rfl)⟩
  refine ((hfind true).mono fun r hr => ⟨fun p hp => htrue (hr.1 p hp).1, hr.2⟩).orElse
    fun hfailed => ?_
  refine ((helsewhere true hfailed).mono fun r hr => ⟨fun p hp => htrue (hr.1 p hp), hr.2⟩).orElse
    fun hexcluded => ?_
  have hfalse {p : ℕ} (hp : q.isValid selected unique false p = true) : q.IsNew selected unique p ∧
      (p ∈ q.excluded → ∀ free, q.IsNew selected unique free → free ∈ q.excluded) :=
    ⟨(isValid_iff.1 hp).1, fun _ free hfree => (hexcluded free hfree).2⟩
  refine ((hfind false).mono fun r hr => ⟨fun p hp => hfalse (hr.1 p hp).1, hr.2⟩).orElse
    fun hfailed => ?_
  refine ((helsewhere false hfailed).mono fun r hr => ⟨fun p hp => hfalse (hr.1 p hp), hr.2⟩).orElse
    fun hnone => ?_
  exact absurd (hnone new hnew).1 Bool.false_ne_true

theorem always_map_some {m : Choices (Option ℕ)} {P : Option ℕ → Prop} (h : Always m P) :
    Always (do return (← m).map some) fun r => (∀ o, r = some o → P o ∧ o ≠ none) ∧
      (r = none → P none) := by
  refine h.bind fun o ho => always_pure ?_
  cases o with
  | none => exact ⟨by simp, fun _ => ho⟩
  | some a => exact ⟨fun o' ho' => by cases ho'; exact ⟨ho, by simp⟩, by simp⟩

/-- **A candidate of a bin is excluded only if all that is new in the bin is excluded.** -/
theorem always_pickAgeSpreadCandidate
    (hbin : getAgeSpreadBinRange q.treeSize b q.ageSpreadQuota = some range)
    (hrange : range.IsValid)
    (hlast : range.last < q.treeSize) :
    Always (q.pickAgeSpreadCandidate selected unique b) fun r =>
      (∀ pos, r = some pos → q.IsNew selected unique pos ∧ range.Has pos ∧
        (pos ∈ q.excluded → ∀ free, range.Has free → q.IsNew selected unique free →
          free ∈ q.excluded)) ∧
      (r = none → ∀ pos, range.Has pos → ¬q.IsNew selected unique pos) := by
  unfold pickAgeSpreadCandidate
  rw [hbin]
  have hfind (avoid : Bool) := always_findCandidateInRange hrange hlast
    (preferNewestWithinRange q.treeSize range) (q.isValid selected unique avoid)
  refine ((always_map_some (hfind true)).mono fun r hr =>
    ⟨fun o ho => ?_, fun hnone => (hr.2 hnone).2 rfl⟩).orElse
    fun hfailed => (hfind false).mono fun r hr =>
      ⟨fun pos hpos => ?_, fun hnone pos hpos hnew => ?_⟩
  · obtain ⟨hvalid, hhas⟩ := hr.1 pos hpos
    exact ⟨(isValid_iff.1 hvalid).1, hhas, fun _ free hfree hnew =>
      (isValid_false_iff.1 (hfailed free hfree) hnew).2⟩
  · exact absurd (isValid_false_iff.1 (hr.2 hnone pos hpos) hnew).1 Bool.false_ne_true
  · obtain ⟨⟨hsome, -⟩, hne⟩ := hr.1 o ho
    refine ⟨fun pos hpos => ?_, fun hnone => absurd hnone hne⟩
    obtain ⟨hvalid, hhas⟩ := hsome pos hpos
    obtain ⟨hnew, hexcluded⟩ := isValid_iff.1 hvalid
    exact ⟨hnew, hhas, fun hmem => absurd hmem (hexcluded rfl)⟩

/-- A quarter of the tree. -/
def bin (q : RingRequest) (b : ℕ) : PositionRange :=
  ⟨q.treeSize * b / 4, q.treeSize * (b + 1) / 4 - 1⟩

theorem getAgeSpreadBinRange_eq (hquota : b < q.ageSpreadQuota) :
    getAgeSpreadBinRange q.treeSize b q.ageSpreadQuota = some (q.bin b) ∧
      (q.bin b).first + 16 ≤ q.treeSize * (b + 1) / 4 ∧ q.treeSize * (b + 1) / 4 ≤ q.treeSize := by
  unfold ageSpreadQuota minTreeSizeForAgeSpread ageSpreadBinCount at *
  split_ifs at hquota ⊢ with hlarge
  · have hstep : q.treeSize * (b + 1) = q.treeSize * b + q.treeSize := Nat.mul_succ _ _
    have hbound : q.treeSize * (b + 1) ≤ q.treeSize * 4 := Nat.mul_le_mul_left _ hquota
    unfold getAgeSpreadBinRange bin
    rw [if_neg (by omega)]
    dsimp only
    rw [if_neg (by omega)]
    refine ⟨rfl, ?_, ?_⟩ <;> omega
  · omega

/-- **The next decoy is new, if anything is.** It is excluded only if all that is new is excluded,
in the bin it is taken from or else in the tree. -/
theorem always_pickDecoy {positions : List ℕ} {unique : Bool}
    (hunique : unique = decide (positions.toFinset.card < min q.ringSize q.treeSize))
    (hnew : ∃ pos, q.IsNew positions unique pos) :
    Always (q.pickDecoy positions) fun pos => q.IsNew positions unique pos ∧
      (positions.length - q.reals.length < q.ageSpreadQuota →
        (∃ new, (q.bin (positions.length - q.reals.length)).Has new ∧
          q.IsNew positions unique new) →
        (q.bin (positions.length - q.reals.length)).Has pos ∧ (pos ∈ q.excluded →
          ∀ free, (q.bin (positions.length - q.reals.length)).Has free →
            q.IsNew positions unique free → free ∈ q.excluded)) ∧
      (q.ageSpreadQuota ≤ positions.length - q.reals.length → pos ∈ q.excluded →
        ∀ free, q.IsNew positions unique free → free ∈ q.excluded) := by
  unfold pickDecoy
  rw [← hunique]
  generalize positions.length - q.reals.length = b
  dsimp only
  split_ifs with hquota
  · obtain ⟨hbin, hsize, hlast⟩ := getAgeSpreadBinRange_eq hquota
    have hrange : (q.bin b).IsValid ∧ (q.bin b).last < q.treeSize := by
      change (q.bin b).first ≤ q.treeSize * (b + 1) / 4 - 1 ∧
        q.treeSize * (b + 1) / 4 - 1 < q.treeSize
      omega
    refine ((always_pickAgeSpreadCandidate hbin hrange.1 hrange.2).mono fun r hr =>
      ⟨fun pos hpos => ?_, hr.2⟩).orElse fun hnone =>
        (always_pickCandidate hnew _).mono fun pos hpos => ?_
    · exact ⟨hpos.1, fun _ ⟨new, hhas, hnew⟩ => absurd hnew (hnone new hhas), by omega⟩
    · obtain ⟨hposnew, hhas, hexcluded⟩ := hr.1 pos hpos
      exact ⟨hposnew, fun _ _ => ⟨hhas, hexcluded⟩, by omega⟩
  · exact (always_pickCandidate hnew _).mono fun pos hpos => ⟨hpos.1, by omega, fun _ => hpos.2⟩

end Picks

/-! ## The loop over the decoys -/

section Loop

variable {q : RingRequest} {positions : List ℕ} {n : ℕ} {I : List ℕ → Prop}

/-- **Invariant of the loop over the decoys.** -/
theorem always_addDecoys (hstep : ∀ positions, I positions → positions.length < q.ringSize →
      Always (q.pickDecoy positions) fun pos => I (positions ++ [pos]))
    (h : I positions) (hlength : positions.length + n = q.ringSize) :
    Always (q.addDecoys n positions) fun ring => I ring ∧ ring.length = q.ringSize := by
  induction n generalizing positions with
  | zero => exact always_pure ⟨h, hlength⟩
  | succ n ih =>
    refine (hstep positions h (by omega)).bind fun pos hpos => ih hpos ?_
    rw [length_append, length_singleton]
    omega

/-- The ring so far: real positions first, all in the tree, and as many different ones as can be. -/
structure Growing (q : RingRequest) (positions : List ℕ) : Prop where
  reals : q.reals <+: positions
  inside : ∀ pos ∈ positions, pos < q.treeSize
  distinct : positions.toFinset.card = min positions.length q.treeSize

theorem Growing.subset (h : q.Growing positions) : positions.toFinset ⊆ Finset.range q.treeSize :=
  fun pos hpos => Finset.mem_range.2 (h.inside pos (mem_toFinset.1 hpos))

theorem Growing.new_iff (h : q.Growing positions) (hlength : positions.length < q.ringSize) :
    positions.toFinset.card < min q.ringSize q.treeSize ↔ positions.length < q.treeSize := by
  have hcard := h.distinct
  omega

theorem exists_new (positions : List ℕ) (htree : 0 < q.treeSize) :
    ∃ pos, q.IsNew positions (decide (positions.toFinset.card < min q.ringSize q.treeSize))
      pos := by
  by_cases hnew : positions.toFinset.card < min q.ringSize q.treeSize
  · have hcard : positions.toFinset.card < (Finset.range q.treeSize).card := by
      rw [Finset.card_range]
      omega
    obtain ⟨pos, hpos, hnot⟩ := Finset.exists_mem_notMem_of_card_lt_card hcard
    exact ⟨pos, Finset.mem_range.1 hpos, fun _ => fun hmem => hnot (mem_toFinset.2 hmem)⟩
  · exact ⟨0, htree, fun h => absurd (of_decide_eq_true h) hnew⟩

/-- One more position keeps the ring growing. -/
theorem Growing.append (h : q.Growing positions) (hlength : positions.length < q.ringSize) {pos : ℕ}
    (hpos : q.IsNew positions (decide (positions.toFinset.card < min q.ringSize q.treeSize)) pos) :
    q.Growing (positions ++ [pos]) := by
  have hinside : ∀ p ∈ positions ++ [pos], p < q.treeSize := by
    intro p hp
    rcases mem_append.1 hp with hp | hp
    · exact h.inside p hp
    · exact mem_singleton.1 hp ▸ hpos.1
  refine ⟨h.reals.trans (prefix_append _ _), hinside, ?_⟩
  have hcard := h.distinct
  have hinsert : (positions ++ [pos]).toFinset = insert pos positions.toFinset := by
    ext p
    simp
  rw [hinsert, length_append, length_singleton]
  by_cases hsmall : positions.length < q.treeSize
  · have hnot : pos ∉ positions :=
      hpos.2 (decide_eq_true ((h.new_iff hlength).2 hsmall))
    rw [Finset.card_insert_of_notMem (by rwa [mem_toFinset])]
    omega
  · -- the whole tree is in the ring already
    have hall : positions.toFinset = Finset.range q.treeSize :=
      Finset.eq_of_subset_of_card_le h.subset (by rw [Finset.card_range]; omega)
    rw [Finset.insert_eq_of_mem (by rw [hall]; exact Finset.mem_range.2 hpos.1)]
    omega

/-- A request with different real positions of the tree, not more than the ring has. -/
structure Proper (q : RingRequest) : Prop where
  tree : 0 < q.treeSize
  inside : ∀ pos ∈ q.reals, pos < q.treeSize
  nodup : q.reals.Nodup
  fits : q.reals.length ≤ q.ringSize

theorem Proper.growing (h : q.Proper) : q.Growing q.reals := by
  refine ⟨prefix_rfl, h.inside, ?_⟩
  have hcard : q.reals.toFinset.card = q.reals.length := toFinset_card_of_nodup h.nodup
  have hle : q.reals.toFinset.card ≤ q.treeSize := by
    rw [← Finset.card_range q.treeSize]
    exact Finset.card_le_card fun pos hpos =>
      Finset.mem_range.2 (h.inside pos (mem_toFinset.1 hpos))
  omega

/-- **The loop fills the ring with different positions, or with the whole tree.** -/
theorem Proper.always_addDecoys (h : q.Proper) :
    Always (q.addDecoys q.decoyCount q.reals) fun ring => q.Growing ring ∧
      ring.length = q.ringSize :=
  RingRequest.always_addDecoys
    (fun _ hg hlength => (always_pickDecoy rfl (exists_new _ h.tree)).mono fun _ hpos =>
      hg.append hlength hpos.1)
    h.growing (by have := h.fits; unfold decoyCount; omega)

end Loop

/-! ## The finished ring -/

/-- What a ring should be. -/
structure GoodRing (q : RingRequest) (ring : List ℕ) : Prop where
  length : ring.length = q.ringSize
  inside : ∀ pos ∈ ring, pos < q.treeSize
  reals : ∀ pos ∈ q.reals, pos ∈ ring
  nodup : q.ringSize ≤ q.treeSize → ring.Nodup
  covers : q.treeSize < q.ringSize → ∀ pos < q.treeSize, pos ∈ ring
  company : q.reals.length < q.ringSize → (∃ pos ∈ q.reals, pos ∈ q.excludedPositions) →
    (∃ pos ∈ q.excludedPositions, pos < q.treeSize ∧ pos ∉ q.reals) →
    ∃ pos ∈ ring, pos ∈ q.excludedPositions ∧ pos ∉ q.reals

section Finish

variable {q : RingRequest} {ring : List ℕ} {pos i j : ℕ}

theorem mem_excluded : pos ∈ q.excluded ↔ pos ∈ q.excludedPositions ∧ pos < q.treeSize ∧
    pos ∉ q.reals := by
  simp [excluded]

theorem GoodRing.perm {ring' : List ℕ} (h : q.GoodRing ring) (hperm : ring'.Perm ring) :
    q.GoodRing ring' where
  length := hperm.length_eq.trans h.length
  inside pos hpos := h.inside pos (hperm.mem_iff.1 hpos)
  reals pos hpos := hperm.mem_iff.2 (h.reals pos hpos)
  nodup hle := hperm.nodup_iff.2 (h.nodup hle)
  covers hlt pos hpos := hperm.mem_iff.2 (h.covers hlt pos hpos)
  company hroom hreal hother := by
    obtain ⟨pos, hpos, hexcluded⟩ := h.company hroom hreal hother
    exact ⟨pos, hperm.mem_iff.2 hpos, hexcluded⟩

theorem Growing.nodup (h : q.Growing ring) (hle : ring.length ≤ q.treeSize) : ring.Nodup := by
  have hcard := h.distinct
  rw [card_toFinset, Nat.min_eq_left hle] at hcard
  exact (dedup_sublist ring).eq_of_length hcard ▸ ring.nodup_dedup

theorem Growing.mem (h : q.Growing ring) (hle : q.treeSize ≤ ring.length)
    (hpos : pos < q.treeSize) :
    pos ∈ ring := by
  have hall : ring.toFinset = Finset.range q.treeSize :=
    Finset.eq_of_subset_of_card_le h.subset (by rw [Finset.card_range, h.distinct]; omega)
  exact mem_toFinset.1 (hall ▸ Finset.mem_range.2 hpos)

theorem always_pickExcludedDecoy (q : RingRequest) (selected : List ℕ) :
    Always (q.pickExcludedDecoy selected) fun r =>
      (∀ pos, r = some pos → pos ∈ q.excluded) ∧ (r = none → q.excluded = []) := by
  refine ((always_map_some (always_pick _)).mono fun r hr =>
    ⟨fun o ho => ?_, fun h => (hr.2 h).2 rfl⟩).orElse
    fun hnone => (always_pick _).mono fun r hr =>
      ⟨fun p hp => (List.mem_filter.1 (hr.1 p hp)).1, fun h => ?_⟩
  · refine eq_nil_iff_forall_not_mem.2 fun p hp => ?_
    have hsome := filter_eq_nil_iff.1 (hr.2 h) p hp
    have hothers := filter_eq_nil_iff.1 hnone p hp
    simp_all
  · obtain ⟨⟨hmem, -⟩, hne⟩ := hr.1 o ho
    exact ⟨fun p hp => (List.mem_filter.1 (hmem p hp)).1, fun h => absurd h hne⟩

/-- **The replacement of the last decoy keeps the ring, and gives an excluded real position
company.** -/
theorem Growing.always_addExcludedDecoy (h : q.Growing ring) (hlength : ring.length = q.ringSize) :
    Always (q.addExcludedDecoy ring) q.GoodRing := by
  have hgood (hcompany : q.reals.length < q.ringSize →
      (∃ pos ∈ q.reals, pos ∈ q.excludedPositions) →
      (∃ pos ∈ q.excludedPositions, pos < q.treeSize ∧ pos ∉ q.reals) →
        ∃ pos ∈ ring, pos ∈ q.excluded) :
      q.GoodRing ring :=
    { length := hlength
      inside := h.inside
      reals := fun pos hpos => h.reals.subset hpos
      nodup := fun hle => h.nodup (by omega)
      covers := fun hlt pos hpos => h.mem (by omega) hpos
      company := fun hroom hreal hother => by
        obtain ⟨pos, hpos, hexcluded⟩ := hcompany hroom hreal hother
        obtain ⟨hmem, -, hnot⟩ := mem_excluded.1 hexcluded
        exact ⟨pos, hpos, hmem, hnot⟩ }
  unfold addExcludedDecoy
  split_ifs with hneeded
  · obtain ⟨-, hroom, hlonely⟩ := hneeded
    refine (always_pickExcludedDecoy q ring).bind fun r hr => always_pure ?_
    cases r with
    | none =>
      refine hgood fun _ _ hother => ?_
      obtain ⟨pos, hpos⟩ := hother
      exact absurd (mem_excluded.2 hpos) (by simp [hr.2 rfl])
    | some pos =>
      have hpos := hr.1 pos rfl
      obtain ⟨hmem, hlt, hreal⟩ := mem_excluded.1 hpos
      have hnot : pos ∉ ring := fun hring => hlonely pos hring hpos
      have htree : ring.length < q.treeSize := by
        by_contra hle
        exact hnot (h.mem (by omega) hlt)
      have hdrop : ring.dropLast.length = q.ringSize - 1 := by rw [length_dropLast, hlength]
      have hstart : ring.dropLast <+: ring := dropLast_prefix ring
      have hkept : q.reals <+: ring.dropLast :=
        prefix_of_prefix_length_le h.reals hstart (by omega)
      exact
        { length := by
            change (ring.dropLast ++ [pos]).length = _
            rw [length_append, hdrop, length_singleton]
            omega
          inside := fun p hp => by
            rcases mem_append.1 hp with hp | hp
            · exact h.inside p (mem_of_mem_dropLast hp)
            · exact mem_singleton.1 hp ▸ hlt
          reals := fun p hp => mem_append_left _ (hkept.subset hp)
          nodup := fun _ => by
            refine nodup_append.2 ⟨(h.nodup htree.le).sublist (dropLast_sublist _),
              nodup_singleton _, fun p hp p' hp' heq => hnot ?_⟩
            rw [← mem_singleton.1 hp', ← heq]
            exact mem_of_mem_dropLast hp
          covers := fun hlt => by omega
          company := fun _ _ _ => ⟨pos, mem_append_right _ (mem_singleton.2 rfl), hmem, hreal⟩ }
  · refine always_pure (hgood fun hroom hreal _ => ?_)
    by_contra hlonely
    push Not at hlonely
    refine hneeded ⟨?_, by omega, hlonely⟩
    obtain ⟨pos, hpos, hmem⟩ := hreal
    exact any_eq_true.2 ⟨pos, hpos, decide_eq_true hmem⟩

end Finish

end RingRequest

theorem swap_perm {l : List ℕ} {i j : ℕ} (hi : i < l.length) (hj : j < l.length) :
    (swap l i j).Perm l := by
  rw [swap, getD_eq_getElem?_getD, getD_eq_getElem?_getD, getElem?_eq_getElem hi,
    getElem?_eq_getElem hj, Option.getD_some, Option.getD_some]
  exact set_set_perm hi hj

theorem always_shuffle {n : ℕ} {l : List ℕ} (h : l = [] ∨ n < l.length) :
    Always (shuffle n l) fun l' => l'.Perm l := by
  induction n generalizing l with
  | zero => exact always_pure (List.Perm.refl _)
  | succ n ih =>
    refine (always_between (Nat.zero_le _)).bind fun j hj => ?_
    rcases h with rfl | h
    · exact (ih (.inl rfl)).mono fun l' hl' => hl'
    · have hperm := swap_perm h (show j < l.length by omega)
      refine (ih (.inr ?_)).mono fun l' hl' => hl'.trans hperm
      rw [hperm.length_eq]
      omega

/-- **Every ring that is drawn is a good one.** -/
theorem RingRequest.Proper.always_selectPositions {q : RingRequest} (h : q.Proper) :
    Always q.selectPositions q.GoodRing := by
  refine h.always_addDecoys.bind fun ring hring =>
    (hring.1.always_addExcludedDecoy hring.2).bind fun ring' hgood =>
      (always_shuffle ?_).mono fun _ hperm => hgood.perm hperm
  cases ring' with
  | nil => exact .inl rfl
  | cons pos ring' => exact .inr (by simp)

/-- **Both selectors draw good rings, and point at the real positions.** The tree and the ring are
not empty, and the shared ring has room for its real positions, which are different ones of the
tree. An excluded real position gets company where the ring has a decoy. -/
theorem select_good (treeSize ringSize : ℕ) (excludedPositions : List ℕ) (htree : 0 < treeSize)
    (hring : 0 < ringSize) :
    (∀ realPosition, Always (selectRingPositionsWithExclusions realPosition treeSize ringSize
        excludedPositions) fun selection =>
      RingRequest.GoodRing ⟨[min realPosition (treeSize - 1)], treeSize, ringSize,
        excludedPositions⟩
        selection.positions ∧
      selection.positions[selection.realIndex]? = some (min realPosition (treeSize - 1))) ∧
    ∀ realPositions, realPositions ≠ [] → realPositions.Nodup →
      (∀ pos ∈ realPositions, pos < treeSize) →
      realPositions.length ≤ ringSize →
      Always (selectSharedRingPositionsWithExclusions realPositions treeSize ringSize
        excludedPositions)
        fun selection =>
          RingRequest.GoodRing ⟨realPositions, treeSize, ringSize, excludedPositions⟩
            selection.positions ∧
          selection.realIndices.map (selection.positions[·]?) = realPositions.map some := by
  constructor
  · intro realPosition
    unfold selectRingPositionsWithExclusions
    rw [if_neg (by omega), if_neg (by omega)]
    have hproper : RingRequest.Proper ⟨[min realPosition (treeSize - 1)], treeSize, ringSize,
        excludedPositions⟩ := by
      refine ⟨htree, ?_, nodup_singleton _, hring⟩
      intro pos hpos
      rw [mem_singleton.1 hpos]
      change _ < treeSize
      omega
    refine hproper.always_selectPositions.bind fun positions hgood => ?_
    obtain ⟨i, hi, hreal⟩ := getElem_of_mem (hgood.reals _ (mem_singleton.2 rfl))
    generalize hocc : ((List.range positions.length).filter fun i =>
      decide (positions[i]? = some (min realPosition (treeSize - 1)))) = occurrences
    have hmem : ∀ j ∈ occurrences, positions[j]? = some (min realPosition (treeSize - 1)) := by
      intro j hj
      rw [← hocc] at hj
      exact of_decide_eq_true (List.mem_filter.1 hj).2
    have hfound : i ∈ occurrences := by
      rw [← hocc]
      exact List.mem_filter.2 ⟨mem_range.2 hi,
        decide_eq_true (by rw [getElem?_eq_getElem hi, hreal])⟩
    dsimp only
    split_ifs
    · cases occurrences with
      | nil => cases hfound
      | cons j occurrences => exact always_pure ⟨hgood, hmem j mem_cons_self⟩
    · refine (always_pick occurrences).bind fun r hr => always_pure ⟨hgood, ?_⟩
      cases r with
      | none => exact absurd hfound (by simp [hr.2 rfl])
      | some j => exact hmem j (hr.1 j rfl)
  · intro realPositions hne hnodup hinside hfits
    unfold selectSharedRingPositionsWithExclusions
    rw [if_neg (by simp [hne]; omega), if_neg (by push Not; exact ⟨hinside, hnodup⟩),
      if_neg (by omega)]
    have hproper : RingRequest.Proper ⟨realPositions, treeSize, ringSize, excludedPositions⟩ :=
      ⟨htree, hinside, hnodup, hfits⟩
    refine hproper.always_selectPositions.bind fun positions hgood => ?_
    rw [if_neg (by push Not; exact hgood.reals)]
    refine always_pure ⟨hgood, ?_⟩
    rw [map_map]
    refine map_congr_left fun pos hpos => ?_
    exact getElem?_idxOf (hgood.reals pos hpos)

/-- Two of three leaves are excluded, the real one among them, and a ring of two has both. -/
theorem select_good_sample :
    Always (selectRingPositionsWithExclusions 0 3 2 [0, 1]) fun selection =>
      selection.positions.length = 2 ∧ selection.positions.Nodup ∧
        ∃ pos ∈ selection.positions, pos ∈ [0, 1] ∧ pos ∉ [0] := by
  refine ((select_good 3 2 [0, 1] (by decide) (by decide)).1 0).mono fun selection hselection => ?_
  obtain ⟨hgood, -⟩ := hselection
  exact ⟨hgood.length, hgood.nodup (by decide),
    hgood.company (by decide) ⟨0, by decide, by decide⟩ ⟨1, by decide, by decide, by decide⟩⟩

/-- A ring of one has no place for a decoy: an excluded real position stands alone, although another
position of the tree is excluded. -/
theorem ring_of_one_alone :
    (selectRingPositionsWithExclusions 0 2 1 [0, 1] fun _ => 0).1.positions = [0] ∧
      0 ∈ [0, 1] ∧ 1 < 2 ∧ 1 ∈ [0, 1] := by
  decide

end Btx.RingCT
