import AssentianPQE.Networks
import AssentianPQE.Proofs.Compact
import AssentianPQE.Sample

/-!
# `AssentianPQE.Proofs.Retarget`: the required target of the next block

`CalcNextTargetEMA` multiplies the old target by a factor between 0.925 and 2.9 that depends on a
spacing, and keeps the result between a floor and `powLimit`. All networks have the same target
spacing, so the factor is a number of seconds over 60000 (`emaProduct`), and `calcNextTargetEMA_sixty`
is the function in these terms. The product may not fit in 256 bits on the test network
(`calcNextTargetEMA_exact_iff`).

`getNextWorkRequired_eq` says once which spacing `GetNextWorkRequired` takes. From it follow what the
time of the candidate block can do (`getNextWorkRequired_of_same_side`, `waiting_iff`) and what steady
mining does (`steady_iff`).
-/

set_option autoImplicit false

namespace AssentianPQE

open Lib List Nat

variable {params : Params} {last : BlockHeader} {rest : List BlockHeader}

/-! ### The networks -/

/-- The proof-of-work limits. -/
def powLimitOf : ChainType → Nat
  | .main => 0x01a41a * 256 ^ 29
  | .testnet => 2 ^ 255 - 1
  | .signet => 0x377ae * 256 ^ 27
  | .regtest => 2 ^ 255 - 1

section Networks
variable (hash : Uint256) (options : ChainOptions) (net : ChainType)

theorem toNat_powLimit : (chainParams hash options net).powLimit.toNat = powLimitOf net := by
  cases net
  · show (Blob.ofNat 32 (0x01a41a * 256 ^ 29)).toNat = 0x01a41a * 256 ^ 29
    decide +kernel
  · show (Blob.ofNat 32 (2 ^ 255 - 1)).toNat = 2 ^ 255 - 1
    decide +kernel
  · show (Blob.ofNat 32 (0x377ae * 256 ^ 27)).toNat = 0x377ae * 256 ^ 27
    decide +kernel
  · show (Blob.ofNat 32 (2 ^ 255 - 1)).toNat = 2 ^ 255 - 1
    decide +kernel

theorem chainParams_spacing : (chainParams hash options net).nPowTargetSpacing = 60 := by
  cases net <;> rfl

theorem powLimitOf_le : powLimitOf net ≤ 2 ^ 255 - 1 := by
  cases net <;> decide

end Networks

/-- `min_target_shift` in `CalculateNextWorkRequired`. -/
def minTargetShift (params : Params) (nHeight : Nat) : Nat :=
  if params.nPoUWDifficultyCeilingRaiseHeight ≤ nHeight then params.nPoUWDifficultyCeilingShift
  else 10

/-- The shift is 10 or 40. -/
theorem minTargetShift_eq (hash : Uint256) (options : ChainOptions) (net : ChainType)
    (nHeight : Nat) :
    minTargetShift (chainParams hash options net) nHeight = 10 ∨
      minTargetShift (chainParams hash options net) nHeight = 40 := by
  unfold minTargetShift
  split
  · cases net
    · exact .inr rfl
    · exact .inr rfl
    · exact .inl rfl
    · exact .inr rfl
  · exact .inl rfl

/-! ### The moving average -/

/-- A spacing in the range that the moving average takes, for a target spacing of 60 seconds. -/
def clampedSpacing (actual : Int) : Nat :=
  (min 1200 (max 15 actual)).toNat

/-- The old target times the factor for a spacing, without bounds. -/
def emaProduct (oldTarget spacing : Nat) : Nat :=
  oldTarget / 60000 * (54000 + 100 * spacing)

section Average
variable {oldTarget a b : Nat}

theorem clampedSpacing_bounds (actual : Int) :
    15 ≤ clampedSpacing actual ∧ clampedSpacing actual ≤ 1200 := by
  unfold clampedSpacing
  omega

theorem clampedSpacing_mono {actual actual' : Int} (h : actual ≤ actual') :
    clampedSpacing actual ≤ clampedSpacing actual' := by
  unfold clampedSpacing
  omega

theorem emaProduct_mono (h : a ≤ b) : emaProduct oldTarget a ≤ emaProduct oldTarget b :=
  mul_le_mul_left _ (by omega)

/-- The factor is at most 2.9. -/
theorem emaProduct_le (h : a ≤ 1200) : emaProduct oldTarget a * 10 ≤ oldTarget * 29 := by
  have hmax : emaProduct oldTarget a ≤ oldTarget / 60000 * 174000 :=
    mul_le_mul_left _ (by omega)
  omega

/-- The factor is at least 0.925, up to the rounding of the division. -/
theorem le_emaProduct (h : 15 ≤ a) : oldTarget * 37 ≤ emaProduct oldTarget a * 40 + 2220000 := by
  have hmin : oldTarget / 60000 * 55500 ≤ emaProduct oldTarget a :=
    mul_le_mul_left _ (by omega)
  omega

/-- `CalcNextTargetEMA` for a target spacing of 60 seconds. -/
theorem calcNextTargetEMA_sixty (oldTarget : Nat) (actual : Int) (powLimit shift : Nat) :
    calcNextTargetEMA oldTarget actual 60 powLimit shift =
      max (powLimit / 2 ^ shift)
        (min powLimit (emaProduct oldTarget (clampedSpacing actual) % 2 ^ 256)) := by
  have hlow : (60 : Int).tdiv 4 = 15 := by decide
  have hspacing : (if (60 : Int) * 20 < (if actual < 15 then 15 else actual) then (60 : Int) * 20
      else if actual < 15 then 15 else actual) = clampedSpacing actual := by
    unfold clampedSpacing
    split <;> split <;> omega
  have hnumerator : ((900 : Int) * 60 + 100 * (clampedSpacing actual : Int)).toNat % 2 ^ 32 =
      54000 + 100 * clampedSpacing actual := by
    have hmax := (clampedSpacing_bounds actual).2
    omega
  have hdenominator : ((1000 : Int) * 60).toNat = 60000 := rfl
  unfold calcNextTargetEMA
  simp only [hlow, hspacing, hnumerator, hdenominator]
  have hproduct : oldTarget / 60000 * (54000 + 100 * clampedSpacing actual) =
      emaProduct oldTarget (clampedSpacing actual) := rfl
  rw [hproduct]
  -- What is left are the two bounds.
  generalize emaProduct oldTarget (clampedSpacing actual) % 2 ^ 256 = target
  generalize powLimit / 2 ^ shift = floor
  split <;> split <;> omega

end Average

/-! ### The average over unbounded integers -/

/-- The formula of `CalcNextTargetEMA` over unbounded integers. -/
def emaFormula (oldTarget : Nat) (actual targetSpacing : Int) (powLimit shift : Nat) : Nat :=
  let spacing := min (20 * targetSpacing) (max (targetSpacing.tdiv 4) actual)
  max (powLimit / 2 ^ shift) (min powLimit (oldTarget / (1000 * targetSpacing).toNat *
    (900 * targetSpacing + 100 * spacing).toNat))

theorem emaFormula_sixty (oldTarget : Nat) (actual : Int) (powLimit shift : Nat) :
    emaFormula oldTarget actual 60 powLimit shift =
      max (powLimit / 2 ^ shift) (min powLimit (emaProduct oldTarget (clampedSpacing actual))) := by
  have hlow : (60 : Int).tdiv 4 = 15 := by decide
  have hspacing : ((900 : Int) * 60 + 100 * min (20 * 60) (max 15 actual)).toNat =
      54000 + 100 * clampedSpacing actual := by
    unfold clampedSpacing
    omega
  unfold emaFormula emaProduct
  simp only [hlow, hspacing]
  rfl

/-- Only the limit of the test network is so high that the product may not fit. -/
theorem emaProduct_lt {net : ChainType} (hnet : net = .main ∨ net = .signet) {oldTarget a : Nat}
    (hle : oldTarget ≤ powLimitOf net) (ha : a ≤ 1200) : emaProduct oldTarget a < 2 ^ 256 := by
  have hfactor : emaProduct oldTarget a * 10 ≤ oldTarget * 29 := emaProduct_le ha
  have hlimit : powLimitOf net * 29 < 2 ^ 256 * 10 := by
    rcases hnet with rfl | rfl <;> decide
  omega

/-- **The moving average is computed exactly** if and only if the product fits in 256 bits, which
it does on every network but the test network. -/
theorem calcNextTargetEMA_exact_iff (hash : Uint256) (options : ChainOptions) {net : ChainType}
    (hretarget : (chainParams hash options net).fPowNoRetargeting = false) {oldTarget : Nat}
    (hle : oldTarget ≤ (chainParams hash options net).powLimit.toNat) (actual : Int)
    (nHeight : Nat) :
    calcNextTargetEMA oldTarget actual (chainParams hash options net).nPowTargetSpacing
        (chainParams hash options net).powLimit.toNat
        (minTargetShift (chainParams hash options net) nHeight) =
      emaFormula oldTarget actual (chainParams hash options net).nPowTargetSpacing
        (chainParams hash options net).powLimit.toNat
        (minTargetShift (chainParams hash options net) nHeight) ↔
      (net = .testnet → emaProduct oldTarget (clampedSpacing actual) < 2 ^ 256) := by
  have hshift := minTargetShift_eq hash options net nHeight
  rw [toNat_powLimit] at hle
  rw [toNat_powLimit, chainParams_spacing, calcNextTargetEMA_sixty, emaFormula_sixty]
  generalize minTargetShift (chainParams hash options net) nHeight = shift at hshift
  have hmax := (clampedSpacing_bounds actual).2
  have hfactor : emaProduct oldTarget (clampedSpacing actual) * 10 ≤ oldTarget * 29 :=
    emaProduct_le hmax
  -- Without a carry there is nothing to drop.
  have hexact : emaProduct oldTarget (clampedSpacing actual) < 2 ^ 256 →
      max (powLimitOf net / 2 ^ shift)
          (min (powLimitOf net) (emaProduct oldTarget (clampedSpacing actual) % 2 ^ 256)) =
        max (powLimitOf net / 2 ^ shift)
          (min (powLimitOf net) (emaProduct oldTarget (clampedSpacing actual))) := by
    intro hlt
    rw [mod_eq_of_lt hlt]
  cases net with
  | main => exact ⟨fun _ => nofun, fun _ => hexact (emaProduct_lt (.inl rfl) hle hmax)⟩
  | signet => exact ⟨fun _ => nofun, fun _ => hexact (emaProduct_lt (.inr rfl) hle hmax)⟩
  | regtest => cases hretarget
  | testnet =>
    refine ⟨fun heq _ => ?_, fun h => hexact (h rfl)⟩
    -- With a carry the formula gives the limit, and the code less.
    by_contra hcarry
    generalize emaProduct oldTarget (clampedSpacing actual) = product at *
    have hlimit : powLimitOf .testnet = 2 ^ 255 - 1 := rfl
    have hfloor : powLimitOf .testnet / 2 ^ shift < 2 ^ 254 := by
      rcases hshift with rfl | rfl <;> decide
    rw [hlimit] at heq hle hfloor
    omega

/-- The test network at its limit: the target falls after slow blocks instead of staying there. -/
theorem calcNextTargetEMA_wraps :
    (chainParams nullHash {} .testnet).fPowNoRetargeting = false ∧
      calcNextTargetEMA (chainParams nullHash {} .testnet).powLimit.toNat 1200
          (chainParams nullHash {} .testnet).nPowTargetSpacing
          (chainParams nullHash {} .testnet).powLimit.toNat
          (minTargetShift (chainParams nullHash {} .testnet) 1) <
        emaFormula (chainParams nullHash {} .testnet).powLimit.toNat 1200
          (chainParams nullHash {} .testnet).nPowTargetSpacing
          (chainParams nullHash {} .testnet).powLimit.toNat
          (minTargetShift (chainParams nullHash {} .testnet) 1) := by
  decide +kernel

/-- The limit of the main network. -/
theorem calcNextTargetEMA_exact_iff_main :
    calcNextTargetEMA (chainParams nullHash {} .main).powLimit.toNat 1200
        (chainParams nullHash {} .main).nPowTargetSpacing
        (chainParams nullHash {} .main).powLimit.toNat
        (minTargetShift (chainParams nullHash {} .main) 1) =
      emaFormula (chainParams nullHash {} .main).powLimit.toNat 1200
        (chainParams nullHash {} .main).nPowTargetSpacing
        (chainParams nullHash {} .main).powLimit.toNat
        (minTargetShift (chainParams nullHash {} .main) 1) :=
  (calcNextTargetEMA_exact_iff nullHash {} rfl le_rfl 1200 1).mpr nofun

/-! ### The spacing that is used -/

/-- The average of the last spacings. -/
def averageSpacing : List BlockHeader → Int
  | [] => 0
  | last :: rest => last.blockTime - averagedFirstBlockTime (last :: rest)

/-- The spacing that `GetNextWorkRequired` hands to the moving average for a block with time
`blockTime`. -/
def spacingUsed (params : Params) (chain : List BlockHeader) (blockTime : Int) : Int :=
  match chain with
  | [] => 0
  | last :: _ =>
    if params.nPowTargetSpacing * 10 < blockTime - last.blockTime ∧ stuckConfirmed params chain = 2 then
      params.nPowTargetSpacing * 20
    else if params.nPowTargetSpacing * 10 < blockTime - last.blockTime ∧
        stuckConfirmed params chain = 1 then
      params.nPowTargetSpacing * 4
    else averageSpacing chain

section Required
variable {params : Params} {last prev : BlockHeader} {rest : List BlockHeader} {blockTime : Int}

/-- `GetNextWorkRequired` after at least one block, unless the minimum is allowed. -/
theorem getNextWorkRequired_eq (hretarget : params.fPowNoRetargeting = false)
    (hmin : ¬ (params.fPowAllowMinDifficultyBlocks = true ∧
      params.nPowTargetSpacing * 2 < blockTime - last.blockTime)) :
    getNextWorkRequired params (last :: prev :: rest) blockTime =
      getCompact (calcNextTargetEMA (setCompact last.nBits).target
        (spacingUsed params (last :: prev :: rest) blockTime) params.nPowTargetSpacing
        params.powLimit.toNat (minTargetShift params (last :: prev :: rest).length)) := by
  have hnext (first : Int) :
      calculateNextWorkRequired params (last :: prev :: rest).length last first =
        getCompact (calcNextTargetEMA (setCompact last.nBits).target (last.blockTime - first)
          params.nPowTargetSpacing params.powLimit.toNat
          (minTargetShift params (last :: prev :: rest).length)) := by
    unfold calculateNextWorkRequired minTargetShift
    rw [hretarget, if_neg Bool.false_ne_true]
  unfold getNextWorkRequired spacingUsed
  dsimp only
  rw [hretarget, if_neg Bool.false_ne_true, if_neg hmin]
  split
  · rw [hnext, Int.sub_sub_self]
  split
  · rw [hnext, Int.sub_sub_self]
  · exact hnext _

/-- The minimum difficulty. -/
theorem getNextWorkRequired_min (hretarget : params.fPowNoRetargeting = false)
    (hmin : params.fPowAllowMinDifficultyBlocks = true ∧
      params.nPowTargetSpacing * 2 < blockTime - last.blockTime) :
    getNextWorkRequired params (last :: prev :: rest) blockTime =
      getCompact params.powLimit.toNat := by
  unfold getNextWorkRequired
  dsimp only
  rw [hretarget, if_neg Bool.false_ne_true, if_pos hmin]

end Required

/-- The target that the moving average gives on a network, before it is rounded. -/
def averagedTarget (net : ChainType) (shift oldTarget : Nat) (spacing : Int) : Nat :=
  max (powLimitOf net / 2 ^ shift)
    (min (powLimitOf net) (emaProduct oldTarget (clampedSpacing spacing) % 2 ^ 256))

section Networks
variable (hash : Uint256) (options : ChainOptions) (net : ChainType)

theorem averagedTarget_le (shift oldTarget : Nat) (spacing : Int) :
    averagedTarget net shift oldTarget spacing ≤ powLimitOf net := by
  have hfloor : powLimitOf net / 2 ^ shift ≤ powLimitOf net := div_le_self _ _
  unfold averagedTarget
  omega

theorem le_averagedTarget (shift oldTarget : Nat) (spacing : Int) :
    powLimitOf net / 2 ^ shift ≤ averagedTarget net shift oldTarget spacing :=
  le_max_left _ _

variable {last prev : BlockHeader} {rest : List BlockHeader} {blockTime : Int}

/-- `GetNextWorkRequired` on a network with retargeting. -/
theorem getNextWorkRequired_network
    (hretarget : (chainParams hash options net).fPowNoRetargeting = false)
    (hmin : ¬ ((chainParams hash options net).fPowAllowMinDifficultyBlocks = true ∧
      120 < blockTime - last.blockTime)) :
    getNextWorkRequired (chainParams hash options net) (last :: prev :: rest) blockTime =
      getCompact (averagedTarget net
        (minTargetShift (chainParams hash options net) (last :: prev :: rest).length)
        (setCompact last.nBits).target
        (spacingUsed (chainParams hash options net) (last :: prev :: rest) blockTime)) := by
  have hspacing := chainParams_spacing hash options net
  rw [getNextWorkRequired_eq hretarget (by rw [hspacing]; exact hmin), hspacing,
    calcNextTargetEMA_sixty, toNat_powLimit]
  rfl

/-- Reading a required target back. -/
theorem setCompact_of_le {n : Nat} (h : n ≤ powLimitOf net) :
    setCompact (getCompact n) = ⟨compactTrunc n, false, false⟩ := by
  have hlimit := powLimitOf_le net
  exact setCompact_getCompact (by omega)

end Networks

/-! ### The time of the candidate -/

/-- With the tiered rule only confirmed gaps count. -/
theorem stuckConfirmed_tiered {chain : List BlockHeader}
    (horder : params.nPoUWStuckRecoveryHardenHeight ≤ params.nPoUWTieredStuckRecoveryHeight)
    (htiered : params.nPoUWTieredStuckRecoveryHeight ≤ chain.length) :
    stuckConfirmed params chain = stuckGaps params 2 chain := by
  unfold stuckConfirmed
  rw [if_neg (by omega), if_pos htiered]

/-- One confirmed gap counts under the tiered rule only. -/
theorem stuckConfirmed_eq_one {chain : List BlockHeader} (h : stuckConfirmed params chain = 1) :
    params.nPoUWTieredStuckRecoveryHeight ≤ chain.length ∧ stuckGaps params 2 chain = 1 := by
  unfold stuckConfirmed at h
  split at h
  · omega
  split at h
  next htiered => exact ⟨htiered, h⟩
  next => split at h <;> omega

/-- The spacing depends on the candidate only through the side of the ten-minute mark that it is
on. -/
theorem spacingUsed_congr {t₁ t₂ : Int} (h : params.nPowTargetSpacing * 10 < t₁ - last.blockTime ↔
      params.nPowTargetSpacing * 10 < t₂ - last.blockTime) :
    spacingUsed params (last :: rest) t₁ = spacingUsed params (last :: rest) t₂ := by
  unfold spacingUsed
  simp only [h]

/-- Before the mark the average is used. -/
theorem spacingUsed_early {t : Int} (h : t - last.blockTime ≤ params.nPowTargetSpacing * 10) :
    spacingUsed params (last :: rest) t = averageSpacing (last :: rest) := by
  unfold spacingUsed
  dsimp only
  rw [if_neg (by omega), if_neg (by omega)]

/-- After it the confirmed gaps decide. -/
theorem spacingUsed_late {t : Int} (h : params.nPowTargetSpacing * 10 < t - last.blockTime) :
    spacingUsed params (last :: rest) t =
      if stuckConfirmed params (last :: rest) = 2 then params.nPowTargetSpacing * 20
      else if stuckConfirmed params (last :: rest) = 1 then params.nPowTargetSpacing * 4
      else averageSpacing (last :: rest) := by
  unfold spacingUsed
  simp only [h, true_and]

/-- **Timestamps cannot buy difficulty.** On the main network and under the tiered rule, the required
target after a short gap does not depend on the candidate, and after a long one it depends only on
whether the candidate claims a long gap too. -/
theorem getNextWorkRequired_of_same_side (hash : Uint256) (options : ChainOptions)
    {last prev : BlockHeader} {rest : List BlockHeader}
    (hheight : (chainParams hash options .main).nPoUWTieredStuckRecoveryHeight - 1 ≤
      ((prev :: rest).length : Int)) (c₁ c₂ : BlockHeader) :
    (last.blockTime - prev.blockTime ≤ 10 * (chainParams hash options .main).nPowTargetSpacing →
      getNextWorkRequired (chainParams hash options .main) (last :: prev :: rest) c₁.blockTime =
        getNextWorkRequired (chainParams hash options .main) (last :: prev :: rest) c₂.blockTime) ∧
    (10 * (chainParams hash options .main).nPowTargetSpacing < last.blockTime - prev.blockTime →
      (10 * (chainParams hash options .main).nPowTargetSpacing < c₁.blockTime - last.blockTime ↔
        10 * (chainParams hash options .main).nPowTargetSpacing < c₂.blockTime - last.blockTime) →
      getNextWorkRequired (chainParams hash options .main) (last :: prev :: rest) c₁.blockTime =
        getNextWorkRequired (chainParams hash options .main) (last :: prev :: rest) c₂.blockTime) := by
  have hsame (h : spacingUsed (chainParams hash options .main) (last :: prev :: rest) c₁.blockTime =
      spacingUsed (chainParams hash options .main) (last :: prev :: rest) c₂.blockTime) :
      getNextWorkRequired (chainParams hash options .main) (last :: prev :: rest) c₁.blockTime =
        getNextWorkRequired (chainParams hash options .main) (last :: prev :: rest) c₂.blockTime := by
    rw [getNextWorkRequired_network hash options .main rfl (fun h => Bool.false_ne_true h.1),
      getNextWorkRequired_network hash options .main rfl (fun h => Bool.false_ne_true h.1), h]
  have hspacing := chainParams_spacing hash options .main
  refine ⟨fun hgap => hsame ?_, fun _ hside => hsame (spacingUsed_congr ?_)⟩
  · -- No gap is confirmed, so the average is used on both sides of the mark.
    have horder : (chainParams hash options .main).nPoUWStuckRecoveryHardenHeight ≤
        (chainParams hash options .main).nPoUWTieredStuckRecoveryHeight :=
      show (4400 : Int) ≤ 49500 by decide
    have hzero : stuckConfirmed (chainParams hash options .main) (last :: prev :: rest) = 0 := by
      rw [stuckConfirmed_tiered horder (by rw [length_cons]; push_cast; omega)]
      unfold stuckGaps
      rw [if_pos (by omega)]
    unfold spacingUsed
    dsimp only
    rw [hzero]
    simp
  · rw [Int.mul_comm]
    exact hside

/-- A chain of the required height with blocks at one time, and candidates that claim an hour and
nothing. -/
theorem getNextWorkRequired_of_same_side_idle :
    getNextWorkRequired (chainParams nullHash {} .main)
        (sampleGenesis :: sampleGenesis :: List.replicate 49498 sampleGenesis)
        ({ sampleGenesis with nTime := 3600 } : BlockHeader).blockTime =
      getNextWorkRequired (chainParams nullHash {} .main)
        (sampleGenesis :: sampleGenesis :: List.replicate 49498 sampleGenesis)
        sampleGenesis.blockTime := by
  have hheight : (chainParams nullHash {} .main).nPoUWTieredStuckRecoveryHeight - 1 ≤
      ((sampleGenesis :: List.replicate 49498 sampleGenesis).length : Int) := by
    rw [length_cons, length_replicate]
    decide
  exact (getNextWorkRequired_of_same_side nullHash {} hheight _ _).1 (by decide)

/-! ### Waiting -/

/-- How waiting makes mining harder: one gap is confirmed, the candidate passes the ten-minute mark
between `t₁` and `t₂`, and the average would have given more than the moderate relief. The last two
fields say that the bounds do not hide it: the relief does not reach the limit, and the average is
above the floor. -/
structure Relapse (params : Params) (last : BlockHeader) (rest : List BlockHeader) (t₁ t₂ : Int) :
    Prop where
  retarget : params.fPowNoRetargeting = false
  no_min : params.fPowAllowMinDifficultyBlocks = false
  tiered : params.nPoUWTieredStuckRecoveryHeight ≤ (last :: rest).length
  one_gap : stuckGaps params 2 (last :: rest) = 1
  early : t₁ - last.blockTime ≤ params.nPowTargetSpacing * 10
  late : params.nPowTargetSpacing * 10 < t₂ - last.blockTime
  average : params.nPowTargetSpacing * 4 < averageSpacing (last :: rest)
  below_limit : emaProduct (setCompact last.nBits).target 240 < params.powLimit.toNat
  above_floor :
    compactTrunc (params.powLimit.toNat / 2 ^ minTargetShift params (last :: rest).length) <
      compactTrunc (min params.powLimit.toNat (emaProduct (setCompact last.nBits).target
        (clampedSpacing (averageSpacing (last :: rest)))))

/-- The target for a spacing between the bounds, when the product fits. -/
def boundedTarget (powLimit floor oldTarget a : Nat) : Nat :=
  compactTrunc (max floor (min powLimit (emaProduct oldTarget a)))

section Bounded
variable {powLimit floor oldTarget a b : Nat}

theorem boundedTarget_mono (h : a ≤ b) :
    boundedTarget powLimit floor oldTarget a ≤ boundedTarget powLimit floor oldTarget b := by
  have hproduct : emaProduct oldTarget a ≤ emaProduct oldTarget b := emaProduct_mono h
  exact compactTrunc_mono (by omega)

/-- A second of spacing changes the target by more than the compact form loses. -/
theorem emaProduct_lt_compactTrunc (hpos : 60000 ≤ oldTarget) (ha : 240 < a) :
    emaProduct oldTarget 240 < compactTrunc (emaProduct oldTarget a) := by
  have hloss := le_compactTrunc (emaProduct oldTarget a)
  have hmore : oldTarget / 60000 * 78100 ≤ emaProduct oldTarget a :=
    mul_le_mul_left _ (by omega)
  have hless : emaProduct oldTarget 240 = oldTarget / 60000 * 78000 := rfl
  omega

/-- The target after the average is above the one after the moderate relief. -/
theorem relief_lt_average_iff (hlimit : compactTrunc powLimit = powLimit) (ha : 240 < a) :
    boundedTarget powLimit floor oldTarget 240 < boundedTarget powLimit floor oldTarget a ↔
      emaProduct oldTarget 240 < powLimit ∧
        compactTrunc floor < compactTrunc (min powLimit (emaProduct oldTarget a)) := by
  have hmono : emaProduct oldTarget 240 ≤ emaProduct oldTarget a := emaProduct_mono ha.le
  rw [boundedTarget, boundedTarget, compactTrunc_max, compactTrunc_max]
  by_cases hbelow : emaProduct oldTarget 240 < powLimit
  · rw [min_eq_right hbelow.le]
    refine ⟨fun hlt => ⟨hbelow, by omega⟩, fun h => ?_⟩
    have hstrict : compactTrunc (emaProduct oldTarget 240) <
        compactTrunc (min powLimit (emaProduct oldTarget a)) := by
      by_cases hsmall : oldTarget < 60000
      · -- The product is zero for both spacings.
        have hzero : emaProduct oldTarget a = 0 := by
          rw [emaProduct, div_eq_of_lt hsmall, zero_mul]
        have hnone := h.2
        have htrunc : compactTrunc 0 = 0 := roundDown_zero 8 2
        rw [hzero, min_zero] at hnone
        omega
      · have hle := compactTrunc_le (emaProduct oldTarget 240)
        have hproduct : emaProduct oldTarget 240 < compactTrunc (emaProduct oldTarget a) :=
          emaProduct_lt_compactTrunc (by omega) ha
        rcases le_total powLimit (emaProduct oldTarget a) with hcase | hcase
        · rw [min_eq_left hcase, hlimit]
          omega
        · rw [min_eq_right hcase]
          omega
    omega
  · -- Both reach the limit.
    rw [min_eq_left (by omega), min_eq_left (by omega)]
    omega

end Bounded

section Waiting
variable {hash : Uint256} {options : ChainOptions} {net : ChainType} {last prev : BlockHeader}
  {rest : List BlockHeader} {t₁ t₂ : Int}

/-- What the networks with the rules on stuck chains have in common. -/
theorem stuck_rules_params (hash : Uint256) (options : ChainOptions)
    (hnet : net = .main ∨ net = .signet) :
    (chainParams hash options net).fPowNoRetargeting = false ∧
      (chainParams hash options net).fPowAllowMinDifficultyBlocks = false ∧
      (chainParams hash options net).nPoUWStuckRecoveryHardenHeight ≤
        (chainParams hash options net).nPoUWTieredStuckRecoveryHeight ∧
      compactTrunc (powLimitOf net) = powLimitOf net := by
  rcases hnet with rfl | rfl
  · exact ⟨rfl, rfl, show (4400 : Int) ≤ 49500 by decide, by decide +kernel⟩
  · exact ⟨rfl, rfl, show (2147483647 : Int) ≤ 2147483647 by decide, by decide +kernel⟩

/-- The required target on these networks: the product always fits. -/
theorem target_of_stuck_rules (hnet : net = .main ∨ net = .signet)
    (hrange : (setCompact last.nBits).target ≤ powLimitOf net) (t : Int) :
    (setCompact (getNextWorkRequired (chainParams hash options net) (last :: prev :: rest) t)).target =
      boundedTarget (powLimitOf net)
        (powLimitOf net / 2 ^ minTargetShift (chainParams hash options net) (last :: prev :: rest).length)
        (setCompact last.nBits).target
        (clampedSpacing (spacingUsed (chainParams hash options net) (last :: prev :: rest) t)) := by
  obtain ⟨hretarget, hno_min, -, -⟩ := stuck_rules_params hash options hnet
  have hmin : ¬ ((chainParams hash options net).fPowAllowMinDifficultyBlocks = true ∧
      120 < t - last.blockTime) := by
    rw [hno_min]
    exact fun hc => Bool.false_ne_true hc.1
  have hfits := emaProduct_lt hnet hrange (clampedSpacing_bounds
    (spacingUsed (chainParams hash options net) (last :: prev :: rest) t)).2
  rw [getNextWorkRequired_network hash options net hretarget hmin,
    setCompact_of_le net (averagedTarget_le net _ _ _), averagedTarget, mod_eq_of_lt hfits]
  rfl

/-- Waiting past the mark, on these networks. -/
theorem waiting_iff_of_mark (hnet : net = .main ∨ net = .signet)
    (hrange : (setCompact last.nBits).target ≤ powLimitOf net) (hearly : t₁ - last.blockTime ≤ 600)
    (hlate : 600 < t₂ - last.blockTime) :
    (setCompact (getNextWorkRequired (chainParams hash options net) (last :: prev :: rest) t₁)).target ≤
        (setCompact (getNextWorkRequired (chainParams hash options net) (last :: prev :: rest)
          t₂)).target ↔
      ¬ Relapse (chainParams hash options net) last (prev :: rest) t₁ t₂ := by
  obtain ⟨hretarget, hno_min, horder, hlimit⟩ := stuck_rules_params hash options hnet
  have hspacing := chainParams_spacing hash options net
  have hone (hrelapse : Relapse (chainParams hash options net) last (prev :: rest) t₁ t₂) :
      stuckConfirmed (chainParams hash options net) (last :: prev :: rest) = 1 := by
    rw [stuckConfirmed_tiered horder hrelapse.tiered, hrelapse.one_gap]
  rw [target_of_stuck_rules hnet hrange, target_of_stuck_rules hnet hrange,
    spacingUsed_early (by rw [hspacing]; exact hearly),
    spacingUsed_late (by rw [hspacing]; exact hlate), hspacing]
  by_cases htwo : stuckConfirmed (chainParams hash options net) (last :: prev :: rest) = 2
  · -- The full relief is the longest spacing.
    rw [if_pos htwo]
    refine ⟨fun _ hrelapse => ?_, fun _ => boundedTarget_mono (clampedSpacing_bounds _).2⟩
    rw [hone hrelapse] at htwo
    cases htwo
  rw [if_neg htwo]
  by_cases hgap : stuckConfirmed (chainParams hash options net) (last :: prev :: rest) = 1
  · rw [if_pos hgap]
    have hrelief : clampedSpacing (60 * 4) = 240 := rfl
    by_cases haverage : averageSpacing (last :: prev :: rest) ≤ 60 * 4
    · refine ⟨fun _ hrelapse => ?_, fun _ => boundedTarget_mono (clampedSpacing_mono haverage)⟩
      have hmore := hrelapse.average
      rw [hspacing] at hmore
      omega
    · have ha : 240 < clampedSpacing (averageSpacing (last :: prev :: rest)) := by
        unfold clampedSpacing
        omega
      obtain ⟨htiered, hstuck⟩ := stuckConfirmed_eq_one hgap
      rw [hrelief, ← not_lt, relief_lt_average_iff hlimit ha, not_iff_not,
        ← toNat_powLimit hash options net]
      constructor
      · intro hbounds
        exact ⟨hretarget, hno_min, htiered, hstuck, by rw [hspacing]; exact hearly,
          by rw [hspacing]; exact hlate, by rw [hspacing]; omega, hbounds.1, hbounds.2⟩
      · intro hrelapse
        exact ⟨hrelapse.below_limit, hrelapse.above_floor⟩
  · -- Nothing is confirmed, so the average is used after the mark too.
    rw [if_neg hgap]
    exact ⟨fun _ hrelapse => hgap (hone hrelapse), fun _ => le_rfl⟩

theorem waiting_iff_of_stuck_rules (hnet : net = .main ∨ net = .signet)
    (hrange : (setCompact last.nBits).target ≤ powLimitOf net) (h : t₁ ≤ t₂) :
    (setCompact (getNextWorkRequired (chainParams hash options net) (last :: prev :: rest) t₁)).target ≤
        (setCompact (getNextWorkRequired (chainParams hash options net) (last :: prev :: rest)
          t₂)).target ↔
      ¬ Relapse (chainParams hash options net) last (prev :: rest) t₁ t₂ := by
  have hspacing := chainParams_spacing hash options net
  by_cases hmark : t₁ - last.blockTime ≤ 600 ∧ 600 < t₂ - last.blockTime
  · exact waiting_iff_of_mark hnet hrange hmark.1 hmark.2
  -- Both candidates are on the same side of the mark.
  have hsame : spacingUsed (chainParams hash options net) (last :: prev :: rest) t₁ =
      spacingUsed (chainParams hash options net) (last :: prev :: rest) t₂ := by
    refine spacingUsed_congr ?_
    rw [hspacing]
    omega
  rw [target_of_stuck_rules hnet hrange, target_of_stuck_rules hnet hrange, hsame]
  refine ⟨fun _ hrelapse => hmark ?_, fun _ => le_rfl⟩
  have hearly := hrelapse.early
  have hlate := hrelapse.late
  rw [hspacing] at hearly hlate
  exact ⟨hearly, hlate⟩

/-- With the minimum difficulty waiting helps: the limit is the highest target. -/
theorem waiting_of_testnet (h : t₁ ≤ t₂) :
    (setCompact (getNextWorkRequired (chainParams hash options .testnet) (last :: prev :: rest)
        t₁)).target ≤
      (setCompact (getNextWorkRequired (chainParams hash options .testnet) (last :: prev :: rest)
        t₂)).target := by
  have hspacing := chainParams_spacing hash options .testnet
  have hlimit (t : Int) (ht : 120 < t - last.blockTime) :
      (setCompact (getNextWorkRequired (chainParams hash options .testnet) (last :: prev :: rest)
        t)).target = compactTrunc (powLimitOf .testnet) := by
    rw [getNextWorkRequired_min rfl ⟨rfl, by rw [hspacing]; omega⟩, toNat_powLimit,
      setCompact_of_le .testnet le_rfl]
  by_cases hslow : 120 < t₂ - last.blockTime
  · rw [hlimit t₂ hslow]
    by_cases hslow' : 120 < t₁ - last.blockTime
    · rw [hlimit t₁ hslow']
    · rw [getNextWorkRequired_network hash options .testnet rfl (fun hc => hslow' hc.2),
        setCompact_of_le .testnet (averagedTarget_le _ _ _ _)]
      exact compactTrunc_mono (averagedTarget_le _ _ _ _)
  · -- Neither candidate is near the ten-minute mark.
    have hsame : spacingUsed (chainParams hash options .testnet) (last :: prev :: rest) t₁ =
        spacingUsed (chainParams hash options .testnet) (last :: prev :: rest) t₂ := by
      refine spacingUsed_congr ?_
      rw [hspacing]
      omega
    rw [getNextWorkRequired_network hash options .testnet rfl (fun hc => by omega),
      getNextWorkRequired_network hash options .testnet rfl (fun hc => hslow hc.2), hsame]

/-- **Waiting makes mining harder** exactly after one confirmed gap, when the average of the last
spacings would have given more than the moderate relief. -/
theorem waiting_iff (hash : Uint256) (options : ChainOptions) (net : ChainType)
    (hrange : (setCompact last.nBits).target ≤ (chainParams hash options net).powLimit.toNat)
    (h : t₁ ≤ t₂) :
    (setCompact (getNextWorkRequired (chainParams hash options net) (last :: rest) t₁)).target ≤
        (setCompact (getNextWorkRequired (chainParams hash options net) (last :: rest) t₂)).target ↔
      ¬ Relapse (chainParams hash options net) last rest t₁ t₂ := by
  rw [toNat_powLimit] at hrange
  cases rest with
  | nil =>
    -- The block after the genesis block has the limit.
    exact ⟨fun _ hrelapse => zero_ne_one hrelapse.one_gap, fun _ => le_rfl⟩
  | cons prev rest =>
    cases net with
    | main => exact waiting_iff_of_stuck_rules (.inl rfl) hrange h
    | signet => exact waiting_iff_of_stuck_rules (.inr rfl) hrange h
    | testnet =>
      exact ⟨fun _ hrelapse => Bool.false_ne_true hrelapse.no_min.symm, fun _ => waiting_of_testnet h⟩
    | regtest =>
      exact ⟨fun _ hrelapse => Bool.false_ne_true hrelapse.retarget.symm, fun _ => le_rfl⟩

end Waiting

/-- Early blocks of the main network: waiting an hour helps. -/
theorem waiting_iff_early :
    (setCompact (getNextWorkRequired (chainParams nullHash {} .main)
        [{ sampleGenesis with nBits := 0x2000d20d }, sampleGenesis] 60)).target ≤
      (setCompact (getNextWorkRequired (chainParams nullHash {} .main)
        [{ sampleGenesis with nBits := 0x2000d20d }, sampleGenesis] 3600)).target := by
  have hrange : (setCompact 0x2000d20d).target ≤ (chainParams nullHash {} .main).powLimit.toNat := by
    decide +kernel
  refine (waiting_iff nullHash {} .main hrange (by decide)).mpr fun hrelapse => ?_
  have htiered : (49500 : Int) ≤ 2 := hrelapse.tiered
  omega

/-- A tip after a gap of an hour. -/
def gapTip : BlockHeader :=
  { sampleGenesis with nTime := 3600, nBits := 0x2000d20d }

/-- The chain before it, without gaps. -/
def gapRest : List BlockHeader :=
  sampleGenesis :: sampleGenesis :: List.replicate 49500 sampleGenesis

/-- The candidate passes the ten-minute mark after one confirmed gap. Its target is 1.3 times the
old one instead of 2.9 times. -/
theorem waiting_harder :
    (setCompact gapTip.nBits).target ≤ (chainParams nullHash {} .main).powLimit.toNat ∧
      (setCompact (getNextWorkRequired (chainParams nullHash {} .main)
          (gapTip :: sampleGenesis :: gapRest) 4201)).target <
        (setCompact (getNextWorkRequired (chainParams nullHash {} .main)
          (gapTip :: sampleGenesis :: gapRest) 4200)).target := by
  have hrange : (setCompact gapTip.nBits).target ≤ powLimitOf .main := by
    decide +kernel
  have hlength : (gapTip :: sampleGenesis :: gapRest).length = 49504 := by
    simp only [gapRest, length_cons, length_replicate]
  have haverage : averageSpacing (gapTip :: sampleGenesis :: gapRest) = 1200 := rfl
  have hshift : minTargetShift (chainParams nullHash {} .main) 49504 = 10 := by
    decide +kernel
  have hfloor : compactTrunc ((chainParams nullHash {} .main).powLimit.toNat / 2 ^ 10) <
      compactTrunc (min (chainParams nullHash {} .main).powLimit.toNat
        (emaProduct (setCompact gapTip.nBits).target (clampedSpacing 1200))) := by
    decide +kernel
  have hrelapse : Relapse (chainParams nullHash {} .main) gapTip (sampleGenesis :: gapRest) 4200
      4201 := {
    retarget := rfl
    no_min := rfl
    tiered := by
      rw [hlength]
      exact show (49500 : Int) ≤ 49504 by decide
    one_gap := rfl
    early := by decide
    late := by decide
    average := by
      rw [haverage]
      decide
    below_limit := by decide +kernel
    above_floor := by
      rw [hlength, haverage, hshift]
      exact hfloor }
  refine ⟨by rw [toNat_powLimit]; exact hrange, not_le.mp fun hle => ?_⟩
  have hiff := @waiting_iff_of_mark nullHash {} .main gapTip sampleGenesis gapRest 4200 4201
    (.inl rfl) hrange (by decide) (by decide)
  exact hiff.mp hle hrelapse

/-! ### Steady mining -/

/-- What `GetNextWorkRequired` can return on a network with retargeting. -/
theorem getNextWorkRequired_range (hash : Uint256) (options : ChainOptions) {net : ChainType}
    (hretarget : (chainParams hash options net).fPowNoRetargeting = false)
    (chain : List BlockHeader) (t : Int) :
    ∃ n, powLimitOf net / 2 ^ minTargetShift (chainParams hash options net) chain.length ≤ n ∧
      n ≤ powLimitOf net ∧
      getNextWorkRequired (chainParams hash options net) chain t = getCompact n := by
  have hfloor : powLimitOf net / 2 ^ minTargetShift (chainParams hash options net) chain.length ≤
      powLimitOf net := div_le_self _ _
  have hlimit : getCompact (chainParams hash options net).powLimit.toNat =
      getCompact (powLimitOf net) := by
    rw [toNat_powLimit]
  match chain with
  | [] => exact ⟨powLimitOf net, hfloor, le_rfl, hlimit⟩
  | [last] => exact ⟨powLimitOf net, hfloor, le_rfl, hlimit⟩
  | last :: prev :: rest =>
    by_cases hmin : (chainParams hash options net).fPowAllowMinDifficultyBlocks = true ∧
        120 < t - last.blockTime
    · refine ⟨powLimitOf net, hfloor, le_rfl, ?_⟩
      rw [getNextWorkRequired_min hretarget (by rw [chainParams_spacing]; exact hmin), hlimit]
    · exact ⟨_, le_averagedTarget net _ _ _, averagedTarget_le net _ _ _,
        getNextWorkRequired_network hash options net hretarget hmin⟩

/-- The target is rounded to a multiple of 60000 and then to the compact form. It stays only if
nothing is lost, or if the floor catches it. -/
theorem boundedTarget_sixty_eq_iff {powLimit floor oldTarget : Nat} (hle : oldTarget ≤ powLimit)
    (hold : compactTrunc oldTarget = oldTarget) (hfloor : compactTrunc floor = floor) :
    boundedTarget powLimit floor oldTarget 60 = oldTarget ↔
      floor ≤ oldTarget ∧ (60000 ∣ oldTarget ∨ oldTarget = floor) := by
  have hproduct : emaProduct oldTarget 60 = oldTarget / 60000 * 60000 := rfl
  have hmin : min powLimit (emaProduct oldTarget 60) = oldTarget / 60000 * 60000 := by omega
  have htrunc := compactTrunc_le (oldTarget / 60000 * 60000)
  rw [boundedTarget, hmin]
  rcases lt_or_ge (oldTarget / 60000 * 60000) floor with hcase | hcase
  · rw [max_eq_left hcase.le, hfloor]
    omega
  · rw [max_eq_right hcase]
    refine ⟨fun heq => by omega, fun h => ?_⟩
    have hexact : oldTarget / 60000 * 60000 = oldTarget := by omega
    rw [hexact, hold]

/-- **Steady mining leaves the target unchanged** if and only if the target is a multiple of 60000,
or the floor. -/
theorem steady_iff (hash : Uint256) (options : ChainOptions) {h₀ h₁ h₂ h₃ : BlockHeader}
    {rest : List BlockHeader}
    (h01 : h₀.blockTime - h₁.blockTime = (chainParams hash options .main).nPowTargetSpacing)
    (h12 : h₁.blockTime - h₂.blockTime = (chainParams hash options .main).nPowTargetSpacing)
    (h23 : h₂.blockTime - h₃.blockTime = (chainParams hash options .main).nPowTargetSpacing)
    (hbits : ∃ chain t, h₀.nBits = getNextWorkRequired (chainParams hash options .main) chain t)
    {candidate : BlockHeader}
    (hcandidate : candidate.blockTime - h₀.blockTime =
      (chainParams hash options .main).nPowTargetSpacing) :
    getNextWorkRequired (chainParams hash options .main) (h₀ :: h₁ :: h₂ :: h₃ :: rest)
        candidate.blockTime = h₀.nBits ↔
      (chainParams hash options .main).powLimit.toNat /
          2 ^ minTargetShift (chainParams hash options .main) (h₀ :: h₁ :: h₂ :: h₃ :: rest).length ≤
        (setCompact h₀.nBits).target ∧
      (60000 ∣ (setCompact h₀.nBits).target ∨ (setCompact h₀.nBits).target =
        (chainParams hash options .main).powLimit.toNat /
          2 ^ minTargetShift (chainParams hash options .main)
            (h₀ :: h₁ :: h₂ :: h₃ :: rest).length) := by
  have hshift := minTargetShift_eq hash options .main (h₀ :: h₁ :: h₂ :: h₃ :: rest).length
  have hspacing := chainParams_spacing hash options .main
  rw [hspacing] at h01 h12 h23 hcandidate
  -- The tip has a compact form of a target in range.
  obtain ⟨chain, t, hbits⟩ := hbits
  obtain ⟨n, -, hn, hrequired⟩ := @getNextWorkRequired_range hash options .main rfl chain t
  have hcompact : h₀.nBits = getCompact n := hbits.trans hrequired
  have htarget : (setCompact h₀.nBits).target = compactTrunc n := by
    rw [hcompact, setCompact_of_le .main hn]
  have hle : compactTrunc n ≤ powLimitOf .main := (compactTrunc_le n).trans hn
  -- The average of the last three spacings is the target spacing.
  have haverage : spacingUsed (chainParams hash options .main) (h₀ :: h₁ :: h₂ :: h₃ :: rest)
      candidate.blockTime = 60 := by
    rw [spacingUsed_early (by rw [hspacing]; omega)]
    show h₀.blockTime - (h₀.blockTime - (h₀.blockTime - h₃.blockTime).tdiv 3) = 60
    have hsum : h₀.blockTime - h₃.blockTime = 180 := by omega
    have hdiv : (180 : Int).tdiv 3 = 60 := by decide
    rw [hsum, hdiv]
    omega
  have hrange : (setCompact h₀.nBits).target ≤ powLimitOf .main := htarget.le.trans hle
  have hnext : (setCompact (getNextWorkRequired (chainParams hash options .main)
      (h₀ :: h₁ :: h₂ :: h₃ :: rest) candidate.blockTime)).target = _ :=
    target_of_stuck_rules (.inl rfl) hrange candidate.blockTime
  obtain ⟨next, -, hnext_le, hnew⟩ := @getNextWorkRequired_range hash options .main rfl
    (h₀ :: h₁ :: h₂ :: h₃ :: rest) candidate.blockTime
  rw [haverage, hnew, setCompact_of_le .main hnext_le, htarget] at hnext
  have hlimit := powLimitOf_le .main
  rw [hnew, htarget, hcompact, getCompact_eq_iff (by omega) (by omega), toNat_powLimit]
  -- The floors are their own compact forms.
  have hfloor : compactTrunc (powLimitOf .main / 2 ^ minTargetShift (chainParams hash options .main)
      (h₀ :: h₁ :: h₂ :: h₃ :: rest).length) = powLimitOf .main /
        2 ^ minTargetShift (chainParams hash options .main) (h₀ :: h₁ :: h₂ :: h₃ :: rest).length := by
    rcases hshift with hten | hforty
    · rw [hten]
      decide +kernel
    · rw [hforty]
      decide +kernel
  rw [show compactTrunc next = _ from hnext]
  exact boundedTarget_sixty_eq_iff hle (compactTrunc_compactTrunc n) hfloor

/-- A header at a time, in seconds, with the given bits. -/
def headerAt (time nBits : UInt32) : BlockHeader :=
  { sampleGenesis with nTime := time, nBits := nBits }

/-- A chain of steady blocks whose tip has the given bits. -/
def steadyChain (nBits : UInt32) : List BlockHeader :=
  [headerAt 180 nBits, headerAt 120 nBits, headerAt 60 nBits, headerAt 0 nBits]

/-- The mantissa 106875 is a multiple of 1875, so nothing is lost. -/
theorem steady_iff_multiple :
    getNextWorkRequired (chainParams nullHash {} .main) (steadyChain 0x2001a17b) 240 =
      0x2001a17b := by
  have hbits : ∃ chain t, (headerAt 180 0x2001a17b).nBits =
      getNextWorkRequired (chainParams nullHash {} .main) chain t :=
    ⟨steadyChain 0x2001a17b, 240, by decide +kernel⟩
  exact (@steady_iff nullHash {} (headerAt 180 0x2001a17b) (headerAt 120 0x2001a17b)
    (headerAt 60 0x2001a17b) (headerAt 0 0x2001a17b) [] rfl rfl rfl hbits (headerAt 240 0) rfl).mpr
    (by decide +kernel)

/-- The target falls from the limit, although the blocks come at the target rate. -/
theorem steady_drifts :
    (headerAt 180 0x2001a41a).nBits =
        getNextWorkRequired (chainParams nullHash {} .main) [headerAt 0 0x2001a41a] 60 ∧
      getNextWorkRequired (chainParams nullHash {} .main) (steadyChain 0x2001a41a) 240 =
        0x2001a419 := by
  decide +kernel

end AssentianPQE
