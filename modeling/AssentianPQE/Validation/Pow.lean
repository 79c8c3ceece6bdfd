import AssentianPQE.Consensus

/-!
# `AssentianPQE.Validation.Pow`: the required difficulty

`GetNextWorkRequired` and `CalculateNextWorkRequired` (`pow.cpp`) with the moving average of
`PoUWv2::CalcNextTargetEMA` (`pouw_v2.h`) and the compact encoding of its result. The work of a
header (`GetBlockProof`, `chain.cpp`) and the changes of difficulty that are permitted before the
chain is known (`PermittedDifficultyTransition`).

A chain of headers is a list with the newest header first, so the height of the newest one
is the length of the rest. Times and spacings are `int64_t` in the source and integers here;
division rounds towards zero.
-/

set_option autoImplicit false

namespace AssentianPQE

open Lib

/-- `arith_uint256::GetCompact`. -/
def getCompact (n : Nat) : UInt32 :=
  let bits := if n = 0 then 0 else n.log2 + 1
  let nSize := (bits + 7) / 8
  let nCompact := if nSize ≤ 3 then n * 2 ^ (8 * (3 - nSize)) else n / 2 ^ (8 * (nSize - 3))
  -- The mantissa is signed, so its highest bit moves to the exponent.
  if nCompact / 2 ^ 23 % 2 = 1 then UInt32.ofNat (nCompact / 256 + (nSize + 1) * 2 ^ 24)
  else UInt32.ofNat (nCompact + nSize * 2 ^ 24)

/-- `PoUWv2::CalcNextTargetEMA`. The multiplication takes a 32-bit factor and drops what does
not fit in 256 bits. -/
def calcNextTargetEMA (oldTarget : Nat) (actualSpacing targetSpacing : Int) (powLimit : Nat)
    (minTargetShift : Nat) : Nat :=
  let low := if actualSpacing < targetSpacing.tdiv 4 then targetSpacing.tdiv 4 else actualSpacing
  let actual := if targetSpacing * 20 < low then targetSpacing * 20 else low
  let numerator := 900 * targetSpacing + 100 * actual
  let denominator := 1000 * targetSpacing
  let newTarget := oldTarget / denominator.toNat * (numerator.toNat % 2 ^ 32) % 2 ^ 256
  let capped := if powLimit < newTarget then powLimit else newTarget
  if capped < powLimit / 2 ^ minTargetShift then powLimit / 2 ^ minTargetShift else capped

/-- `CBlockHeader::GetBlockTime`. -/
def BlockHeader.blockTime (h : BlockHeader) : Int :=
  h.nTime.toNat

/-- `CalculateNextWorkRequired`, for the block after `last` at height `nHeight`. -/
def calculateNextWorkRequired (params : Params) (nHeight : Nat) (last : BlockHeader)
    (nFirstBlockTime : Int) : UInt32 :=
  if params.fPowNoRetargeting then last.nBits
  else
    let shift := if params.nPoUWDifficultyCeilingRaiseHeight ≤ nHeight then
      params.nPoUWDifficultyCeilingShift else 10
    getCompact (calcNextTargetEMA (setCompact last.nBits).target (last.blockTime - nFirstBlockTime)
      params.nPowTargetSpacing params.powLimit.toNat shift)

/-- The number of gaps in a row, from the newest one and at most `max`, that are longer than
ten target spacings. -/
def stuckGaps (params : Params) : Nat → List BlockHeader → Nat
  | max + 1, h :: prev :: rest =>
    if h.blockTime - prev.blockTime ≤ params.nPowTargetSpacing * 10 then 0
    else stuckGaps params max (prev :: rest) + 1
  | _, _ => 0

/-- `stuck_confirmed`: how much of the idle time the confirmed history bears out. -/
def stuckConfirmed (params : Params) (chain : List BlockHeader) : Nat :=
  if (chain.length : Int) < params.nPoUWStuckRecoveryHardenHeight then 2
  else if params.nPoUWTieredStuckRecoveryHeight ≤ chain.length then stuckGaps params 2 chain
  else if stuckGaps params 2 chain = 2 then 2
  else 0

/-- The time that the average of the last three spacings counts from. -/
def averagedFirstBlockTime : List BlockHeader → Int
  | h :: _ :: _ :: h3 :: _ => h.blockTime - (h.blockTime - h3.blockTime).tdiv 3
  | [h, _, h2] => h.blockTime - (h.blockTime - h2.blockTime).tdiv 2
  | [_, h1] => h1.blockTime
  | _ => 0

/-- `GetNextWorkRequired`, for a block with time `blockTime` after the chain `chain`. -/
def getNextWorkRequired (params : Params) (chain : List BlockHeader) (blockTime : Int) : UInt32 :=
  let limit := getCompact params.powLimit.toNat
  match chain with
  | last :: _ :: _ =>
    let elapsed := blockTime - last.blockTime
    let next := calculateNextWorkRequired params chain.length last
    if params.fPowNoRetargeting then last.nBits
    else if params.fPowAllowMinDifficultyBlocks ∧ params.nPowTargetSpacing * 2 < elapsed then limit
    else if params.nPowTargetSpacing * 10 < elapsed ∧ stuckConfirmed params chain = 2 then
      next (last.blockTime - params.nPowTargetSpacing * 20)
    else if params.nPowTargetSpacing * 10 < elapsed ∧ stuckConfirmed params chain = 1 then
      next (last.blockTime - params.nPowTargetSpacing * 4)
    else next (averagedFirstBlockTime chain)
  | _ => limit

/-- `PermittedDifficultyTransition`. The height is not read. -/
def permittedDifficultyTransition (params : Params) (oldNbits newNbits : UInt32) : Bool :=
  if params.fPowNoRetargeting then oldNbits = newNbits
  else
    let powLimit := params.powLimit.toNat
    let observedNewTarget := (setCompact newNbits).target
    let oldTarget := (setCompact oldNbits).target
    let maxTarget := min (oldTarget * 20 % 2 ^ 256) powLimit
    let minTarget := if oldTarget / 4 = 0 then 1 else oldTarget / 4
    observedNewTarget ≤ powLimit ∧ observedNewTarget ≤ maxTarget ∧ minTarget ≤ observedNewTarget

/-- `GetBlockProof`: the expected number of hashes for a target. -/
def getBlockProof (nBits : UInt32) : Nat :=
  let t := setCompact nBits
  if t.fNegative ∨ t.fOverflow ∨ t.target = 0 then 0 else 2 ^ 256 / (t.target + 1)

end AssentianPQE
