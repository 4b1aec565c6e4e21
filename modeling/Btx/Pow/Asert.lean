/-
# The difficulty of the next block

`GetNextWorkRequired` and the functions it calls (`src/pow.cpp`), on the list of a block and its
ancestors, newest first; the skip pointers are left out. Below the ASERT height the target is that
of the genesis block, scaled; at the heights of `OneShot` the parent's, scaled; everywhere else that
of the latest such block, the anchor, moved exponentially by the time since, corrected by a credit
for blocks at their time cap. `Branch` names every way through the function. The credits are stored
in the index, so a call returns an index as well.
-/

import Btx.Pow.AsertParams

namespace Btx.Pow

/-! ## The block index -/

/-- What difficulty is computed from, of a block. -/
structure BlockData where
  nHeight : ℤ
  nTime : UInt32
  nBits : ℕ
  deriving DecidableEq

/-- `CBlockIndex`, with the two fields that store a time credit. Key 0 is invalid. -/
structure CBlockIndex extends BlockData where
  nMatMulClampedAsertCreditKey : UInt64 := 0
  nMatMulClampedAsertCredit : ℤ := 0
  deriving DecidableEq

/-- `GetBlockTime`. -/
def BlockData.blockTime (block : BlockData) : ℤ := (block.nTime : ℕ)

/-- `CBlockIndex::GetAncestor`. -/
def getAncestor (tip : CBlockIndex) (ancestors : List CBlockIndex) (height : ℤ) :
    Option CBlockIndex :=
  if tip.nHeight < height ∨ height < 0 then none
  else (tip :: ancestors)[(tip.nHeight - height).toNat]?

/-- `CBlockIndex::nMedianTimeSpan`. -/
def nMedianTimeSpan : ℕ := 11

/-- `CBlockIndex::GetMedianTimePast`. -/
def medianTimePast (blocks : List BlockData) : ℤ :=
  let times := ((blocks.take nMedianTimeSpan).map BlockData.blockTime).insertionSort (· ≤ ·)
  times.getD (times.length / 2) 0

/-- The loop of `FindGenesisBlockIndex`: every hop goes down, and there are at most `remaining`. -/
def findGenesisFrom (remaining : ℤ) (cursor : CBlockIndex) : List CBlockIndex → Option CBlockIndex
  | [] => if cursor.nHeight = 0 then some cursor else none
  | prev :: rest =>
    if 0 < cursor.nHeight then
      if cursor.nHeight ≤ prev.nHeight then none
      else if remaining - 1 < 0 then none
      else findGenesisFrom (remaining - 1) prev rest
    else none

/-- `FindGenesisBlockIndex`. -/
def findGenesisBlockIndex (tip : CBlockIndex) (ancestors : List CBlockIndex) : Option CBlockIndex :=
  if tip.nHeight < 0 then none else findGenesisFrom tip.nHeight tip ancestors

/-! ## Limit and anchor -/

variable (p : Params)

/-- `MatMulAsertPowLimitForNextHeight`. -/
def matMulAsertPowLimitForNextHeight (nextHeight : ℤ) : ℕ :=
  let historical := p.powLimit.toNat
  if nextHeight < 0 ∨ IsDisabledHeight p.nMatMulPowLimitUpgradeHeight ∨
      nextHeight < p.nMatMulPowLimitUpgradeHeight then historical
  else
    let upgraded := p.powLimitUpgrade.toNat
    if upgraded = 0 ∨ historical ≤ upgraded then historical else upgraded

/-- The heights above the retunes that `LatestMatMulAsertPreUpgradeAnchorHeight` tries, in its
order. -/
def reanchorHeights : List ℤ :=
  ([OneShot.v4, .bmx4c, .drlt, .rc, .rcCoupled, .powLimitUpgrade, .stallRecovery].filter
    fun s => s.Enabled p).map fun s => s.height p

/-- `LatestMatMulAsertPreUpgradeAnchorHeight`. -/
def latestMatMulAsertPreUpgradeAnchorHeight (tipHeight : ℤ) : ℤ :=
  let base :=
    if OneShot.bootstrap.height p ≤ OneShot.retune2.height p ∧
        OneShot.retune2.height p ≤ tipHeight then OneShot.retune2.height p
    else if OneShot.bootstrap.height p ≤ OneShot.retune.height p ∧
        OneShot.retune.height p ≤ tipHeight then OneShot.retune.height p
    else OneShot.bootstrap.height p
  Util.latest base (reanchorHeights p) tipHeight

/-- `MatMulAsertHalfLifeInfo`, the part in force. -/
structure HalfLifeInfo where
  currentHalfLife : ℤ
  currentAnchorHeight : ℤ
  deriving DecidableEq

/-- `ResolveMatMulAsertHalfLifeInfo`. -/
def resolveMatMulAsertHalfLifeInfo (tipHeight : ℤ) : HalfLifeInfo :=
  let anchor := latestMatMulAsertPreUpgradeAnchorHeight p tipHeight
  if OneShot.halfLifeUpgrade.Enabled p ∧ OneShot.halfLifeUpgrade.height p ≤ tipHeight then
    ⟨p.nMatMulAsertHalfLifeUpgrade, max anchor (OneShot.halfLifeUpgrade.height p)⟩
  else ⟨p.nMatMulAsertHalfLife, anchor⟩

/-! ## The time credit -/

/-- `ClampedAsertCreditCacheKey`. -/
def clampedAsertCreditCacheKey (block : BlockData) : UInt64 :=
  let phi : UInt64 := 0x9e3779b97f4a7c15
  let mix := fun (key v : UInt64) => key ^^^ (v + phi + (key <<< 6) + (key >>> 2))
  let key : UInt64 := [p.nMatMulStallRecoveryHeight.toUInt32.toUInt64,
    UInt64.ofInt p.nMatMulMaxBlockTimeAdvance,
    UInt64.ofInt p.matMulAsertClampedMinIntervalSeconds,
    block.nTime.toUInt64, (UInt32.ofInt block.nHeight).toUInt64].foldl mix phi
  if key = 0 then 1 else key

/-- The credit of one block over its parent: what it lacks of the least interval, where its time is
at the cap. -/
def addBlockCredit (credit : ℤ) (block : BlockData) (prev : BlockData)
    (earlier : List BlockData) : ℤ :=
  let minInterval := p.matMulAsertClampedMinIntervalSeconds
  match p.maxMatMulAllowedBlockTime block.nHeight prev.blockTime
      (medianTimePast (prev :: earlier)) with
  | none => credit
  | some maxTime =>
    if block.blockTime < maxTime then credit
    else
      let actual := max (block.blockTime - prev.blockTime) 0
      if actual < minInterval then saturatingAdd credit (minInterval - actual) else credit

/-- What the credit loops leave: the credit, the index with the credits stored, and whether the
second loop has been left early. -/
structure CreditWalk where
  credit : ℤ
  index : List CBlockIndex
  stopped : Bool
  deriving DecidableEq

/-- The two loops of `MatMulAsertClampedTimeCredit`, back to the anchor `hops` blocks away or to a
stored credit, and forward again from there. `keyFor` is the key a block's credit is stored
under. -/
def creditWalk (p : Params) (keyFor : BlockData → UInt64) : ℕ → List CBlockIndex → CreditWalk
  | 0, index => ⟨0, index, false⟩
  | _ + 1, [] => ⟨0, [], false⟩
  | hops + 1, block :: ancestors =>
    let key := keyFor block.toBlockData
    if block.nHeight < p.nMatMulStallRecoveryHeight then ⟨0, block :: ancestors, false⟩
    else if block.nMatMulClampedAsertCreditKey = key then
      ⟨block.nMatMulClampedAsertCredit, block :: ancestors, false⟩
    else
      let walk := creditWalk p keyFor hops ancestors
      if walk.stopped then ⟨walk.credit, block :: walk.index, true⟩
      else
        match ancestors with
        | [] => ⟨walk.credit, [block], true⟩
        | prev :: earlier =>
          let credit := addBlockCredit p walk.credit block.toBlockData prev.toBlockData
            (earlier.map CBlockIndex.toBlockData)
          ⟨credit, { block with
              nMatMulClampedAsertCreditKey := key
              nMatMulClampedAsertCredit := credit } :: walk.index, credit = int64Max⟩

/-- `MatMulAsertClampedTimeCredit`, for the anchor `hops` blocks below the tip. -/
def matMulAsertClampedTimeCredit (tip : CBlockIndex) (ancestors : List CBlockIndex)
    (hops : ℕ) : CreditWalk :=
  if !p.isMatMulStallRecoveryActive tip.nHeight ∨ p.matMulAsertClampedMinIntervalSeconds ≤ 0 then
    ⟨0, tip :: ancestors, false⟩
  else creditWalk p (clampedAsertCreditCacheKey p) hops (tip :: ancestors)

/-! ## The target -/

/-- The guards of `CalculateMatMulAsertTarget`, with the target each of them gives. -/
def asertTargetGuard (anchorTarget : ℕ) (heightDiff halfLife : ℤ) (powLimit : ℕ) : Option ℕ :=
  if anchorTarget = 0 ∨ powLimit < anchorTarget then some powLimit
  else if heightDiff < 0 then some 1
  else if halfLife ≤ 0 ∨ p.nPowTargetSpacing ≤ 0 then some 1
  else none

/-- The exponent of aserti3-2d with 16 binary places, cut to an `int64_t`. -/
def asertExponent (timeDiff heightDiff halfLife : ℤ) : ℤ :=
  let exponent := ((timeDiff - p.nPowTargetSpacing * (heightDiff + 1)) * 2 ^ 16).tdiv halfLife
  if int64Max < exponent then int64Max else if exponent < int64Min then int64Min else exponent

/-- The power of two of the fractional part, with 16 binary places, by a cubic polynomial. -/
def asertFactor (frac : ℕ) : ℕ :=
  2 ^ 16 + (195766423245049 * frac + 971821376 * frac * frac + 5127 * frac * frac * frac + 2 ^ 47) /
    2 ^ 48

/-- The target times the factor, shifted. Where the product would not fit, a shift to the right
comes first. -/
def asertShift (anchorTarget factor : ℕ) (netShift : ℤ) : ℕ :=
  if netShift ≤ -256 then 0
  else if netShift < 0 then
    let rightShift := (-netShift).toNat
    if maxUint / factor < anchorTarget then
      saturatingMultiplyByUint32 (anchorTarget / 2 ^ rightShift) factor
    else saturatingMultiplyByUint32 anchorTarget factor / 2 ^ rightShift
  else if 256 ≤ netShift then maxUint
  else saturatingLeftShift256 (saturatingMultiplyByUint32 anchorTarget factor) netShift.toNat

/-- `CalculateMatMulAsertTarget`. -/
def calculateMatMulAsertTarget (anchorTarget : ℕ) (timeDiff heightDiff halfLife : ℤ)
    (powLimit : ℕ) : ℕ :=
  match asertTargetGuard p anchorTarget heightDiff halfLife powLimit with
  | some target => target
  | none =>
    let exponent := asertExponent p timeDiff heightDiff halfLife
    let factor := asertFactor (exponent % 2 ^ 16).toNat
    let nextTarget := asertShift anchorTarget factor (exponent / 2 ^ 16 - 16)
    clampRetargetResult (if nextTarget = 0 then 1 else nextTarget) powLimit

/-- `FastMineBootstrapBits`. -/
def fastMineBootstrapBits (genesis : CBlockIndex) : ℕ :=
  let powLimit := p.powLimit.toNat
  let target := (setCompact genesis.nBits).value
  let scale := max (p.nFastMineDifficultyScale : ℕ) 1
  let target :=
    if 1 < scale then if powLimit / scale < target then powLimit else target * scale else target
  getCompact (clampRetargetResult target powLimit)

/-! ## The cascade -/

namespace OneShot

variable (p : Params)

/-- The condition of the rule's branch in `MatMulAsert`. At a shared height the newest profile
takes the rule of the older ones over. -/
def Fires (nextHeight : ℤ) : OneShot → Prop
  | v4 => nextHeight = v4.height p ∧ nextHeight ≠ bmx4c.height p ∧ nextHeight ≠ rc.height p
  | bmx4c => nextHeight = bmx4c.height p ∧ nextHeight ≠ rc.height p
  | drlt => nextHeight = drlt.height p ∧ nextHeight ≠ bmx4c.height p ∧ nextHeight ≠ rc.height p
  | rcCoupled => nextHeight = rcCoupled.height p ∧ nextHeight ≠ rc.height p
  | powLimitUpgrade => powLimitUpgrade.Enabled p ∧ nextHeight = powLimitUpgrade.height p
  | stallRecovery => stallRecovery.Enabled p ∧ nextHeight = stallRecovery.height p
  | s => nextHeight = s.height p

instance (nextHeight : ℤ) : ∀ s : OneShot, Decidable (s.Fires p nextHeight)
  | v4 | drlt => inferInstanceAs (Decidable (_ ∧ _ ∧ _))
  | bmx4c | rcCoupled | powLimitUpgrade | stallRecovery => inferInstanceAs (Decidable (_ ∧ _))
  | bootstrap | retune | retune2 | rc | halfLifeUpgrade => inferInstanceAs (Decidable (_ = _))

/-- The rules in the order of the source. -/
def cascade : List OneShot :=
  [bootstrap, retune, retune2, v4, bmx4c, drlt, rc, rcCoupled, powLimitUpgrade, halfLifeUpgrade,
    stallRecovery]

/-- The first rule of the cascade whose condition holds. -/
def firing (nextHeight : ℤ) : Option OneShot := cascade.find? fun s => s.Fires p nextHeight

/-- A target scaled by a ratio that has been reduced, for the rules that reduce theirs. -/
def scaleReduced (s : OneShot) (parentTarget : ℕ) : Option ℕ := do
  let (num, den) ← reduceRescaleRatioToU32 (s.num p) (s.den p)
  return scaleTargetByTimespan parentTarget num den

/-- The target of the rule before it is cut to the limit, from the parent's. No target where the
ratio is refused. -/
def target (nextHeight : ℤ) (powLimit parentTarget : ℕ) : OneShot → Option ℕ
  | bootstrap =>
    let factor : ℕ := p.nMatMulAsertBootstrapFactor
    some (if 1 < factor then saturatingMultiplyByUint32 parentTarget factor else parentTarget)
  | retune =>
    let factor : ℕ := p.nMatMulAsertRetuneHardeningFactor
    some (if 1 < factor then parentTarget / factor else parentTarget)
  | retune2 => some (scaleTargetByTimespan parentTarget (retune2.num p) (retune2.den p))
  | v4 => v4.scaleReduced p parentTarget
  | bmx4c => bmx4c.scaleReduced p parentTarget
  | drlt => drlt.scaleReduced p parentTarget
  | rc =>
    if p.isMatMulV47EpochAActivationTuple then do
      let (num, den) ← reduceRescaleRatioToU64 (rc.num p) (rc.den p)
      deriveMatMulEpochATransitionTarget parentTarget
        (p.matMulPreHashEpsilonBitsForHeight (nextHeight - 1)) num den powLimit
    else rc.scaleReduced p parentTarget
  | rcCoupled => rcCoupled.scaleReduced p parentTarget
  | powLimitUpgrade => some parentTarget
  | halfLifeUpgrade => some parentTarget
  | stallRecovery => stallRecovery.scaleReduced p parentTarget

end OneShot

/-- The ways through `MatMulAsert`, in the order of the source. -/
inductive Branch
  | heightOutOfRange
  | noGenesis
  | fastMine
  | invalidParams
  | oneShot (s : OneShot)
  | ratioRefused (s : OneShot)
  | anchorOutOfRange
  | anchorMissing
  | anchorTargetInvalid
  | targetGuard
  | asert (anchorHeight : ℤ)
  deriving DecidableEq

/-- The fallbacks, to the limit or to the hardest target. -/
def Branch.IsFallback : Branch → Prop
  | fastMine | oneShot _ | asert _ => False
  | _ => True

/-- What a call returns, and the index it leaves. -/
structure Work where
  branch : Branch
  bits : ℕ
  index : List CBlockIndex
  deriving DecidableEq

variable (p : Params)

/-- The last part of `MatMulAsert`: the target moved from that of the anchor. -/
def asertFromAnchor (powLimit : ℕ) (tip : CBlockIndex) (ancestors : List CBlockIndex) : Work :=
  let info := resolveMatMulAsertHalfLifeInfo p tip.nHeight
  if info.currentAnchorHeight < 0 ∨ tip.nHeight < info.currentAnchorHeight then
    ⟨.anchorOutOfRange, getCompact powLimit, tip :: ancestors⟩
  else
    match getAncestor tip ancestors info.currentAnchorHeight with
    | none => ⟨.anchorMissing, matMulAsertFailClosedBits, tip :: ancestors⟩
    | some anchor =>
      let anchorTarget := (setCompact anchor.nBits).value
      if anchorTarget = 0 ∨ powLimit < anchorTarget then
        ⟨.anchorTargetInvalid, matMulAsertFailClosedBits, tip :: ancestors⟩
      else
        let timeDiff := tip.blockTime - anchor.blockTime
        let walk := matMulAsertClampedTimeCredit p tip ancestors
          (tip.nHeight - info.currentAnchorHeight).toNat
        let timeDiff := if 0 < walk.credit then saturatingAdd timeDiff walk.credit else timeDiff
        let heightDiff := tip.nHeight - anchor.nHeight
        let guarded :=
          (asertTargetGuard p anchorTarget heightDiff info.currentHalfLife powLimit).isSome
        ⟨if guarded then .targetGuard else .asert anchor.nHeight,
          getCompact (calculateMatMulAsertTarget p anchorTarget timeDiff heightDiff
            info.currentHalfLife powLimit), walk.index⟩

variable (tip : CBlockIndex)

variable (ancestors : List CBlockIndex)

/-- `MatMulAsert`. -/
def matMulAsert : Work :=
  let nextHeight := tip.nHeight + 1
  if nextHeight < 0 ∨ int32Max < nextHeight then
    ⟨.heightOutOfRange, getCompact p.powLimit.toNat, tip :: ancestors⟩
  else
    let powLimit := matMulAsertPowLimitForNextHeight p nextHeight
    if nextHeight < p.nMatMulAsertHeight then
      match findGenesisBlockIndex tip ancestors with
      | none => ⟨.noGenesis, getCompact powLimit, tip :: ancestors⟩
      | some genesis => ⟨.fastMine, fastMineBootstrapBits p genesis, tip :: ancestors⟩
    else if ¬ValidateMatMulAsertParams p then
      ⟨.invalidParams, matMulAsertFailClosedBits, tip :: ancestors⟩
    else
      match OneShot.firing p nextHeight with
      | some s =>
        match s.target p nextHeight powLimit (setCompact tip.nBits).value with
        | none => ⟨.ratioRefused s, matMulAsertFailClosedBits, tip :: ancestors⟩
        | some target =>
          ⟨.oneShot s, getCompact (clampRetargetResult target powLimit), tip :: ancestors⟩
      | none => asertFromAnchor p powLimit tip ancestors

/-! ## The other networks -/

/-- `DGW_PAST_BLOCKS`. -/
def dgwPastBlocks : ℕ := 180

/-- The running average of `DarkGravityWaveLegacy` over the targets, newest first. -/
def pastTargetAvg : List ℕ → ℕ
  | [] => 0
  | first :: targets => (targets.foldl (fun (avg, count) target =>
      ((avg * count % 2 ^ 256 + target) % 2 ^ 256 / (count + 1), count + 1)) (first, 2)).1

/-- A time span, kept between two others. -/
def limitTimespan (least most timespan : ℤ) : ℤ :=
  let timespan := if timespan < least then least else timespan
  if most < timespan then most else timespan

/-- `DarkGravityWaveLegacy`. -/
def darkGravityWaveLegacy : ℕ :=
  let bnPowLimit := p.powLimit.toNat
  let past := (tip :: ancestors).take dgwPastBlocks
  if tip.nHeight < dgwPastBlocks then getCompact bnPowLimit
  else if past.length < dgwPastBlocks then getCompact bnPowLimit
  else
    let average := pastTargetAvg (past.map fun block => (setCompact block.nBits).value)
    let oldest := past.getLastD tip
    let targetTimespan := dgwPastBlocks * p.nPowTargetSpacing
    if targetTimespan ≤ 0 then getCompact bnPowLimit
    else
      let actualTimespan := limitTimespan (targetTimespan / 3) (targetTimespan * 3)
        (tip.blockTime - oldest.blockTime)
      getCompact (clampRetargetResult
        (scaleTargetByTimespan average actualTimespan targetTimespan) bnPowLimit)

/-- `CalculateNextWorkRequired`. The product is one with the low 32 bits of the time span. -/
def calculateNextWorkRequired (nFirstBlockTime : ℤ) : ℕ :=
  if p.fPowNoRetargeting then tip.nBits
  else
    let actualTimespan := limitTimespan (p.nPowTargetTimespan.tdiv 4) (p.nPowTargetTimespan * 4)
      (tip.blockTime - nFirstBlockTime)
    let first := getAncestor tip ancestors (tip.nHeight - (p.difficultyAdjustmentInterval - 1))
    let base := if p.enforce_BIP94 then first.getD tip else tip
    let bnNew := (setCompact base.nBits).value * (actualTimespan % 2 ^ 32).toNat % 2 ^ 256 /
      p.nPowTargetTimespan.toNat
    getCompact (clampRetargetResult bnNew p.powLimit.toNat)

/-- The last block back that was not mined under the rule for late blocks. -/
def lastRegularBits (p : Params) (nProofOfWorkLimit : ℕ) (block : CBlockIndex) :
    List CBlockIndex → ℕ
  | [] => block.nBits
  | prev :: earlier =>
    if block.nHeight.tmod p.difficultyAdjustmentInterval ≠ 0 ∧ block.nBits = nProofOfWorkLimit then
      lastRegularBits p nProofOfWorkLimit prev earlier
    else block.nBits

/-- The retargeting of the networks without MatMul. No result where an assertion fails. -/
def legacyWorkRequired (blockTime : ℤ) : Option ℕ :=
  let nProofOfWorkLimit := getCompact p.powLimit.toNat
  let nextHeight := tip.nHeight + 1
  if p.fKAWPOW ∧ p.nKAWPOWHeight ≤ nextHeight then some (darkGravityWaveLegacy p tip ancestors)
  else if nextHeight.tmod p.difficultyAdjustmentInterval ≠ 0 then
    if p.fPowAllowMinDifficultyBlocks then
      if tip.blockTime + p.nPowTargetSpacing * 2 < blockTime then some nProofOfWorkLimit
      else some (lastRegularBits p nProofOfWorkLimit tip ancestors)
    else some tip.nBits
  else do
    let first ← getAncestor tip ancestors (tip.nHeight - (p.difficultyAdjustmentInterval - 1))
    return calculateNextWorkRequired p tip ancestors first.blockTime

/-- What `GetNextWorkRequired` requires, and the index it leaves. -/
structure Requirement where
  nBits : ℕ
  index : List CBlockIndex
  deriving DecidableEq

/-- `GetNextWorkRequired`, for a block of the given time. -/
def getNextWorkRequired (blockTime : ℤ) : Option Requirement :=
  let nextHeight := tip.nHeight + 1
  if nextHeight < 0 ∨ int32Max < nextHeight then
    some ⟨getCompact p.powLimit.toNat, tip :: ancestors⟩
  else if p.fPowNoRetargeting then some ⟨tip.nBits, tip :: ancestors⟩
  else if p.fMatMulPOW then
    let work := matMulAsert p tip ancestors
    some ⟨work.bits, work.index⟩
  else (legacyWorkRequired p tip ancestors blockTime).map fun nBits => ⟨nBits, tip :: ancestors⟩

end Btx.Pow
