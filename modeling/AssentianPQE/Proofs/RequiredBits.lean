import AssentianPQE.Proofs.Retarget

/-!
# `AssentianPQE.Proofs.RequiredBits`: chains with the required bits

A chain that starts at the genesis block of a network and whose later blocks have the bits that
`GetNextWorkRequired` gives (`RequiredChain`). By induction along the chain, all bits are compact
forms of targets between a floor and the limit (`required_range`), so `CheckProofOfWork` never rejects
them for their range (`required_bits_in_range`).

`permitted_iff_of_required` compares the next bits with `PermittedDifficultyTransition`, which header
synchronisation uses before the chain is known. `slow_chain_recovers` follows a chain on which every
block is late: `stuckTarget_grows` is one step, and `target_of_slowRun` the run.
-/

set_option autoImplicit false

namespace AssentianPQE

open Lib List

/-- A chain from the genesis block of a network, the newest header first, with the bits that are
required. -/
inductive RequiredChain (net : ChainType) (params : Params) : List BlockHeader → Prop where
  | genesis {h : BlockHeader} : h.nBits = genesisBits net → RequiredChain net params [h]
  | next {h : BlockHeader} {chain : List BlockHeader} : RequiredChain net params chain →
      h.nBits = getNextWorkRequired params chain h.blockTime → RequiredChain net params (h :: chain)

/-- The lowest target that the moving average gives for the block at a height. -/
def floorAt (hash : Uint256) (options : ChainOptions) (net : ChainType) (nHeight : Nat) : Nat :=
  powLimitOf net / 2 ^ minTargetShift (chainParams hash options net) nHeight

section Range
variable {hash : Uint256} {options : ChainOptions} {net : ChainType}

theorem floorAt_le (nHeight : Nat) : floorAt hash options net nHeight ≤ powLimitOf net :=
  Nat.div_le_self _ _

/-- The floor is lowered once, and never raised. -/
theorem floorAt_antitone {m n : Nat} (h : m ≤ n) :
    floorAt hash options net n ≤ floorAt hash options net m := by
  have hshift : minTargetShift (chainParams hash options net) m ≤
      minTargetShift (chainParams hash options net) n := by
    have hten := minTargetShift_eq hash options net n
    by_cases hraised : (chainParams hash options net).nPoUWDifficultyCeilingRaiseHeight ≤ m
    · unfold minTargetShift
      rw [if_pos hraised, if_pos (by omega)]
    · have hold : minTargetShift (chainParams hash options net) m = 10 := if_neg hraised
      omega
  exact Nat.div_le_div_left (Nat.pow_le_pow_right (by decide) hshift) (Nat.two_pow_pos _)

/-- The floor is a large number. -/
theorem floorAt_large (nHeight : Nat) : 2 ^ 100 ≤ floorAt hash options net nHeight := by
  unfold floorAt
  rcases minTargetShift_eq hash options net nHeight with hten | hforty
  · rw [hten]
    cases net <;> decide +kernel
  · rw [hforty]
    cases net <;> decide +kernel

/-- The genesis blocks have the limit. -/
theorem genesisBits_eq (net : ChainType) : genesisBits net = getCompact (powLimitOf net) := by
  cases net <;> decide +kernel

/-- All bits on the chain, and the next ones, are compact forms of targets in range. -/
theorem required_range {chain : List BlockHeader}
    (h : RequiredChain net (chainParams hash options net) chain) :
    (∀ last rest, chain = last :: rest → ∃ n, floorAt hash options net rest.length ≤ n ∧
      n ≤ powLimitOf net ∧ last.nBits = getCompact n) ∧
    ∀ t, ∃ n, floorAt hash options net chain.length ≤ n ∧ n ≤ powLimitOf net ∧
      getNextWorkRequired (chainParams hash options net) chain t = getCompact n := by
  induction h with
  | genesis hbits =>
    refine ⟨fun last rest heq => ?_, fun t => ?_⟩
    · cases heq
      exact ⟨powLimitOf net, floorAt_le _, le_rfl, hbits.trans (genesisBits_eq net)⟩
    · exact ⟨powLimitOf net, floorAt_le _, le_rfl, congrArg getCompact (toNat_powLimit hash options net)⟩
  | @next last chain hchain hbits ih =>
    obtain ⟨n, hfloor, hn, hnext⟩ := ih.2 last.blockTime
    refine ⟨fun last' rest heq => ?_, fun t => ?_⟩
    · cases heq
      exact ⟨n, hfloor, hn, hbits.trans hnext⟩
    cases hretarget : (chainParams hash options net).fPowNoRetargeting with
    | false => exact getNextWorkRequired_range hash options hretarget (last :: chain) t
    | true =>
      -- Without retargeting the bits are those of the tip.
      have hsame : getNextWorkRequired (chainParams hash options net) (last :: chain) t =
          last.nBits := by
        cases hchain with
        | genesis => exact if_pos hretarget
        | next => exact if_pos hretarget
      refine ⟨n, (floorAt_antitone (Nat.le_succ _)).trans hfloor, hn, ?_⟩
      rw [hsame, hbits, hnext]

end Range

/-- `PermittedDifficultyTransition` on a network with retargeting. -/
theorem permitted_iff {hash : Uint256} {options : ChainOptions} {net : ChainType}
    (hretarget : (chainParams hash options net).fPowNoRetargeting = false) (oldNbits newNbits : UInt32) :
    permittedDifficultyTransition (chainParams hash options net) oldNbits newNbits = true ↔
      (setCompact newNbits).target ≤ powLimitOf net ∧
      (setCompact newNbits).target ≤ (setCompact oldNbits).target * 20 % 2 ^ 256 ∧
      max 1 ((setCompact oldNbits).target / 4) ≤ (setCompact newNbits).target := by
  unfold permittedDifficultyTransition
  rw [hretarget, if_neg Bool.false_ne_true, toNat_powLimit]
  dsimp only
  rw [decide_eq_true_iff]
  split <;> omega

/-- A step of the average is permitted if twenty times the old target fits in 256 bits. -/
theorem boundedTarget_permitted {powLimit floor oldTarget a : Nat} (hle : oldTarget ≤ powLimit)
    (hfloor : compactTrunc floor ≤ oldTarget) (hlimit : floor ≤ powLimit)
    (hlarge : 1000000 ≤ oldTarget) (hlow : 15 ≤ a) (hhigh : a ≤ 1200) :
    boundedTarget powLimit floor oldTarget a ≤ powLimit ∧
      boundedTarget powLimit floor oldTarget a ≤ oldTarget * 20 ∧
      max 1 (oldTarget / 4) ≤ boundedTarget powLimit floor oldTarget a := by
  have hmax : emaProduct oldTarget a * 10 ≤ oldTarget * 29 := emaProduct_le hhigh
  have hmin : oldTarget * 37 ≤ emaProduct oldTarget a * 40 + 2220000 := le_emaProduct hlow
  have hfloor' := le_compactTrunc floor
  have hloss := le_compactTrunc (max floor (min powLimit (emaProduct oldTarget a)))
  have htrunc := compactTrunc_le (max floor (min powLimit (emaProduct oldTarget a)))
  unfold boundedTarget
  omega

/-- When a step of the test network is permitted. The minimum difficulty must be at most twenty times
the old target, as it is computed in 256 bits. A step of the average is permitted if twenty times the
old target fits, and otherwise it must be between the bounds as they are computed. -/
def TestnetStep (last : BlockHeader) (rest : List BlockHeader) (t : Int) : Prop :=
  if rest = [] then True
  else if 120 < t - last.blockTime then
    compactTrunc (powLimitOf .testnet) ≤ (setCompact last.nBits).target * 20 % 2 ^ 256
  else
    (setCompact last.nBits).target * 20 < 2 ^ 256 ∨
      ((setCompact last.nBits).target / 4 ≤ compactTrunc (min (powLimitOf .testnet)
          (emaProduct (setCompact last.nBits).target
            (clampedSpacing (averageSpacing (last :: rest))) % 2 ^ 256)) ∧
        compactTrunc (min (powLimitOf .testnet) (emaProduct (setCompact last.nBits).target
          (clampedSpacing (averageSpacing (last :: rest))) % 2 ^ 256)) ≤
            (setCompact last.nBits).target * 20 % 2 ^ 256)

section Permitted
variable {hash : Uint256} {options : ChainOptions} {net : ChainType} {last : BlockHeader}
  {rest : List BlockHeader}

/-- The target of the tip. -/
theorem target_of_required (h : RequiredChain net (chainParams hash options net) (last :: rest)) :
    (setCompact last.nBits).target ≤ powLimitOf net ∧
      compactTrunc (floorAt hash options net (last :: rest).length) ≤ (setCompact last.nBits).target ∧
      1000000 ≤ (setCompact last.nBits).target := by
  obtain ⟨n, hfloor, hn, hbits⟩ := (required_range h).1 last rest rfl
  have hnext : floorAt hash options net (last :: rest).length ≤ n :=
    (floorAt_antitone (Nat.le_succ _)).trans hfloor
  have hlarge : 2 ^ 100 ≤ floorAt hash options net (last :: rest).length := floorAt_large _
  have hloss := le_compactTrunc n
  have hbig : 1000000 ≤ compactTrunc n := by omega
  rw [hbits, setCompact_of_le net hn]
  exact ⟨(compactTrunc_le n).trans hn, compactTrunc_mono hnext, hbig⟩

/-- The main network and signet. -/
theorem permitted_of_stuck_rules (hnet : net = .main ∨ net = .signet)
    (h : RequiredChain net (chainParams hash options net) (last :: rest)) (t : Int) :
    permittedDifficultyTransition (chainParams hash options net) last.nBits
      (getNextWorkRequired (chainParams hash options net) (last :: rest) t) = true := by
  obtain ⟨hretarget, -, -, htrunc⟩ := stuck_rules_params hash options hnet
  obtain ⟨hle, hfloor, hlarge⟩ := target_of_required h
  have htwenty : powLimitOf net * 20 < 2 ^ 256 := by
    rcases hnet with rfl | rfl <;> decide
  rw [permitted_iff hretarget, Nat.mod_eq_of_lt (by omega)]
  cases rest with
  | nil =>
    -- The genesis block has the limit, and so has the next block.
    have hbits : last.nBits = getCompact (powLimitOf net) := by
      cases h with
      | genesis hbits => exact hbits.trans (genesisBits_eq net)
      | next hnil => cases hnil
    have hnext : getNextWorkRequired (chainParams hash options net) [last] t =
        getCompact (powLimitOf net) := congrArg getCompact (toNat_powLimit hash options net)
    rw [hnext, hbits, setCompact_of_le net le_rfl, htrunc]
    dsimp only
    omega
  | cons prev rest =>
    rw [target_of_stuck_rules hnet hle]
    obtain ⟨hlow, hhigh⟩ := clampedSpacing_bounds
      (spacingUsed (chainParams hash options net) (last :: prev :: rest) t)
    exact boundedTarget_permitted hle hfloor (floorAt_le _) hlarge hlow hhigh

/-- The test network. -/
theorem permitted_iff_of_testnet
    (h : RequiredChain .testnet (chainParams hash options .testnet) (last :: rest)) (t : Int) :
    permittedDifficultyTransition (chainParams hash options .testnet) last.nBits
        (getNextWorkRequired (chainParams hash options .testnet) (last :: rest) t) = true ↔
      TestnetStep last rest t := by
  obtain ⟨hle, hfloor, hlarge⟩ := target_of_required h
  have hspacing := chainParams_spacing hash options .testnet
  have hlimit : powLimitOf .testnet = 2 ^ 255 - 1 := rfl
  have htop := compactTrunc_le (powLimitOf .testnet)
  have htop' := le_compactTrunc (powLimitOf .testnet)
  rw [permitted_iff rfl]
  unfold TestnetStep
  cases rest with
  | nil =>
    have hbits : last.nBits = getCompact (powLimitOf .testnet) := by
      cases h with
      | genesis hbits => exact hbits.trans (genesisBits_eq .testnet)
      | next hnil => cases hnil
    have hnext : getNextWorkRequired (chainParams hash options .testnet) [last] t =
        getCompact (powLimitOf .testnet) := congrArg getCompact (toNat_powLimit hash options .testnet)
    rw [if_pos rfl, hnext, hbits, setCompact_of_le .testnet le_rfl]
    exact iff_of_true (by decide +kernel) trivial
  | cons prev rest =>
    rw [if_neg (cons_ne_nil _ _)]
    by_cases hslow : 120 < t - last.blockTime
    · rw [if_pos hslow, getNextWorkRequired_min rfl ⟨rfl, by rw [hspacing]; omega⟩, toNat_powLimit,
        setCompact_of_le .testnet le_rfl]
      dsimp only
      omega
    · have hspacingUsed : spacingUsed (chainParams hash options .testnet) (last :: prev :: rest) t =
          averageSpacing (last :: prev :: rest) := spacingUsed_early (by rw [hspacing]; omega)
      rw [if_neg hslow, getNextWorkRequired_network hash options .testnet rfl (fun hc => hslow hc.2),
        setCompact_of_le .testnet (averagedTarget_le _ _ _ _), hspacingUsed, averagedTarget]
      obtain ⟨hlow, hhigh⟩ := clampedSpacing_bounds (averageSpacing (last :: prev :: rest))
      generalize clampedSpacing (averageSpacing (last :: prev :: rest)) = a at hlow hhigh ⊢
      by_cases hfits : (setCompact last.nBits).target * 20 < 2 ^ 256
      · -- Neither product is too large.
        have hproduct : emaProduct (setCompact last.nBits).target a * 10 ≤
          (setCompact last.nBits).target * 29 := emaProduct_le hhigh
        rw [Nat.mod_eq_of_lt hfits, Nat.mod_eq_of_lt (by omega)]
        exact iff_of_true (boundedTarget_permitted hle hfloor (floorAt_le _) hlarge hlow hhigh)
          (.inl hfits)
      · -- The floor is far below a quarter of the old target.
        have hten : powLimitOf .testnet / 2 ^ minTargetShift (chainParams hash options .testnet)
            (last :: prev :: rest).length ≤ powLimitOf .testnet / 2 ^ 10 := by
          rcases minTargetShift_eq hash options .testnet (last :: prev :: rest).length with
            hshift | hshift
          · rw [hshift]
          · rw [hshift]
            decide +kernel
        have htrunc := compactTrunc_le (powLimitOf .testnet /
          2 ^ minTargetShift (chainParams hash options .testnet) (last :: prev :: rest).length)
        have hnew := compactTrunc_le (min (powLimitOf .testnet)
          (emaProduct (setCompact last.nBits).target a % 2 ^ 256))
        rw [compactTrunc_max]
        dsimp only
        generalize compactTrunc (powLimitOf .testnet / 2 ^ _) = floor at htrunc ⊢
        omega

end Permitted

/-- `n` blocks after a chain, each of them more than ten target spacings after its parent and with the
required bits. -/
inductive SlowRun (params : Params) (start : List BlockHeader) : Nat → List BlockHeader → Prop where
  | start : SlowRun params start 0 start
  | step {n : Nat} {h last : BlockHeader} {rest : List BlockHeader} :
      SlowRun params start n (last :: rest) →
      10 * params.nPowTargetSpacing < h.blockTime - last.blockTime →
      h.nBits = getNextWorkRequired params (last :: rest) h.blockTime →
      SlowRun params start (n + 1) (h :: last :: rest)

/-- The last two gaps are longer than ten minutes, and the ceiling is raised for the next block. -/
def Stuck : List BlockHeader → Prop
  | h₀ :: h₁ :: h₂ :: rest => 600 < h₀.blockTime - h₁.blockTime ∧ 600 < h₁.blockTime - h₂.blockTime ∧
      186000 ≤ (h₀ :: h₁ :: h₂ :: rest).length
  | _ => False

section Stuck
variable {hash : Uint256} {options : ChainOptions}

/-- A slow run keeps the chain stuck. -/
theorem stuck_of_slowRun {start chain : List BlockHeader} (hstart : Stuck start) {n : Nat}
    (hrun : SlowRun (chainParams hash options .main) start n chain) : Stuck chain := by
  induction hrun with
  | start => exact hstart
  | @step n h last rest hrun hlate hbits ih =>
    rw [chainParams_spacing] at hlate
    match rest, ih with
    | h₁ :: h₂ :: rest, ih =>
      exact ⟨by omega, ih.1, ih.2.2.trans (Nat.le_succ _)⟩

/-- The required target after a stuck chain, for a late candidate. -/
theorem target_of_stuck {last : BlockHeader} {rest : List BlockHeader} (h : Stuck (last :: rest))
    {t : Int} (hlate : 600 < t - last.blockTime) :
    (setCompact (getNextWorkRequired (chainParams hash options .main) (last :: rest) t)).target =
      compactTrunc (averagedTarget .main 40 (setCompact last.nBits).target 1200) := by
  match rest, h with
  | h₁ :: h₂ :: rest, ⟨hgap₀, hgap₁, hheight⟩ =>
    have hspacing := chainParams_spacing hash options .main
    have hshift : minTargetShift (chainParams hash options .main) (last :: h₁ :: h₂ :: rest).length =
        40 := by
      refine if_pos ?_
      show (186000 : Int) ≤ ((last :: h₁ :: h₂ :: rest).length : Int)
      exact_mod_cast hheight
    -- Both gaps count under the tiered rule.
    have hconfirmed : stuckConfirmed (chainParams hash options .main) (last :: h₁ :: h₂ :: rest) =
        2 := by
      have htiered : (chainParams hash options .main).nPoUWTieredStuckRecoveryHeight ≤
          ((last :: h₁ :: h₂ :: rest).length : Int) := by
        show (49500 : Int) ≤ _
        omega
      rw [stuckConfirmed_tiered (stuck_rules_params hash options (.inl rfl)).2.2.1 htiered]
      unfold stuckGaps
      rw [if_neg (by rw [hspacing]; omega)]
      unfold stuckGaps
      rw [if_neg (by rw [hspacing]; omega)]
      rfl
    have hused : spacingUsed (chainParams hash options .main) (last :: h₁ :: h₂ :: rest) t = 1200 := by
      rw [spacingUsed_late (by rw [hspacing]; omega), if_pos hconfirmed, hspacing]
      rfl
    rw [getNextWorkRequired_network hash options .main rfl (fun hc => Bool.false_ne_true hc.1),
      setCompact_of_le .main (averagedTarget_le _ _ _ _), hshift, hused]

/-- The required target of a stuck chain, as a function of the target of its tip. -/
def stuckTarget (oldTarget : Nat) : Nat :=
  compactTrunc (averagedTarget .main 40 oldTarget 1200)

/-- The target is between the floor and the limit whatever the tip has. -/
theorem stuckTarget_bounds (oldTarget : Nat) :
    powLimitOf .main / 2 ^ 40 ≤ stuckTarget oldTarget ∧ stuckTarget oldTarget ≤ powLimitOf .main := by
  have hfloor : compactTrunc (powLimitOf .main / 2 ^ 40) = powLimitOf .main / 2 ^ 40 := by
    decide +kernel
  refine ⟨?_, (compactTrunc_le _).trans (averagedTarget_le _ _ _ _)⟩
  rw [← hfloor]
  exact compactTrunc_mono (le_averagedTarget _ _ _ _)

/-- A step multiplies the target by more than 2.8, up to the limit. The factor is 2.9, and the two
roundings cost little. -/
theorem stuckTarget_grows {oldTarget : Nat} (hlow : powLimitOf .main / 2 ^ 40 ≤ oldTarget)
    (hle : oldTarget ≤ powLimitOf .main) :
    min (powLimitOf .main * 5) (oldTarget * 14) ≤ stuckTarget oldTarget * 5 := by
  have hlarge : 10000000 ≤ powLimitOf .main / 2 ^ 40 := by
    decide +kernel
  have hlimit : compactTrunc (powLimitOf .main) = powLimitOf .main := by
    decide +kernel
  have hproduct : emaProduct oldTarget 1200 = oldTarget / 60000 * 174000 := rfl
  have hfits : emaProduct oldTarget 1200 < 2 ^ 256 := emaProduct_lt (.inl rfl) hle le_rfl
  have hloss := le_compactTrunc (emaProduct oldTarget 1200)
  have hbound : compactTrunc (min (powLimitOf .main) (emaProduct oldTarget 1200)) ≤
      stuckTarget oldTarget := by
    refine compactTrunc_mono ?_
    unfold averagedTarget
    have hspacing : clampedSpacing 1200 = 1200 := rfl
    rw [hspacing, Nat.mod_eq_of_lt hfits]
    exact le_max_right _ _
  rcases Nat.le_total (powLimitOf .main) (emaProduct oldTarget 1200) with hcase | hcase
  · rw [Nat.min_eq_left hcase, hlimit] at hbound
    omega
  · rw [Nat.min_eq_right hcase] at hbound
    omega

/-- The target grows until it is the limit. -/
theorem lt_stuckTarget {oldTarget : Nat} (hle : oldTarget ≤ powLimitOf .main) :
    oldTarget < stuckTarget oldTarget ∨ stuckTarget oldTarget = powLimitOf .main := by
  obtain ⟨hfloor, hlimit⟩ := stuckTarget_bounds oldTarget
  have hlarge : 1000000 ≤ powLimitOf .main / 2 ^ 40 := by
    decide +kernel
  by_cases hlow : powLimitOf .main / 2 ^ 40 ≤ oldTarget
  · have hgrows := stuckTarget_grows hlow hle
    omega
  · omega

/-- Growth by a factor up to a bound, from one step to the next. -/
theorem capped_growth_step {a b cap low t t' k : Nat} (hab : b ≤ a)
    (h : min (cap * b ^ k) (low * a ^ k) ≤ t * b ^ k) (hstep : min (cap * b) (t * a) ≤ t' * b) :
    min (cap * b ^ (k + 1)) (low * a ^ (k + 1)) ≤ t' * b ^ (k + 1) := by
  have hnext : min (cap * b) (t * a) * b ^ k ≤ t' * b * b ^ k := Nat.mul_le_mul_right _ hstep
  rcases Nat.le_total (cap * b) (t * a) with hcase | hcase
  · rw [Nat.min_eq_left hcase] at hnext
    refine (Nat.min_le_left _ _).trans ?_
    calc cap * b ^ (k + 1) = cap * b * b ^ k := by ring
      _ ≤ t' * b * b ^ k := hnext
      _ = t' * b ^ (k + 1) := by ring
  · rw [Nat.min_eq_right hcase] at hnext
    have hscaled : min (cap * b ^ k) (low * a ^ k) * a ≤ t * b ^ k * a := Nat.mul_le_mul_right _ h
    calc min (cap * b ^ (k + 1)) (low * a ^ (k + 1))
        ≤ min (cap * b ^ k) (low * a ^ k) * a := by
          rw [← Nat.mul_min_mul_right]
          refine min_le_min ?_ ?_
          · calc cap * b ^ (k + 1) = cap * b ^ k * b := by ring
              _ ≤ cap * b ^ k * a := Nat.mul_le_mul_left _ hab
          · exact le_of_eq (by ring)
      _ ≤ t * b ^ k * a := hscaled
      _ = t * a * b ^ k := by ring
      _ ≤ t' * b * b ^ k := hnext
      _ = t' * b ^ (k + 1) := by ring

/-- The target of the tip after some slow blocks. -/
theorem target_of_slowRun {start : List BlockHeader} (hstart : Stuck start) {n : Nat}
    {chain : List BlockHeader} (hrun : SlowRun (chainParams hash options .main) start n chain) :
    ∀ last rest k, chain = last :: rest → n = k + 1 →
      powLimitOf .main / 2 ^ 40 ≤ (setCompact last.nBits).target ∧
      (setCompact last.nBits).target ≤ powLimitOf .main ∧
      min (powLimitOf .main * 5 ^ k) (powLimitOf .main / 2 ^ 40 * 14 ^ k) ≤
        (setCompact last.nBits).target * 5 ^ k := by
  induction hrun with
  | start => exact fun _ _ _ _ hk => nomatch hk
  | @step n h last rest hrun hlate hbits ih =>
    intro h' rest' k heq hk
    cases heq
    obtain rfl : n = k := by omega
    rw [chainParams_spacing] at hlate
    have htarget : (setCompact h.nBits).target = stuckTarget (setCompact last.nBits).target := by
      rw [hbits]
      exact target_of_stuck (stuck_of_slowRun hstart hrun) (by omega)
    rw [htarget]
    obtain ⟨hfloor, hlimit⟩ := stuckTarget_bounds (setCompact last.nBits).target
    refine ⟨hfloor, hlimit, ?_⟩
    cases n with
    | zero =>
      rw [Nat.pow_zero, Nat.pow_zero]
      omega
    | succ n =>
      obtain ⟨hlow, hle, hgrowth⟩ := ih last rest n rfl rfl
      exact capped_growth_step (by decide) hgrowth (stuckTarget_grows hlow hle)

/-- **A stuck chain recovers.** After two long gaps and with the raised ceiling, every late block has
a greater target than its parent until the target is the limit, and the thirtieth block has the
limit. -/
theorem slow_chain_recovers (hash : Uint256) (options : ChainOptions) {h₀ h₁ h₂ : BlockHeader}
    {rest : List BlockHeader}
    (hheight : (chainParams hash options .main).nPoUWDifficultyCeilingRaiseHeight ≤
      ((h₀ :: h₁ :: h₂ :: rest).length : Int))
    (hgap₀ : 10 * (chainParams hash options .main).nPowTargetSpacing < h₀.blockTime - h₁.blockTime)
    (hgap₁ : 10 * (chainParams hash options .main).nPowTargetSpacing < h₁.blockTime - h₂.blockTime)
    {n : Nat} {last : BlockHeader} {rest' : List BlockHeader}
    (hrun : SlowRun (chainParams hash options .main) (h₀ :: h₁ :: h₂ :: rest) n (last :: rest'))
    {candidate : BlockHeader}
    (hlate : 10 * (chainParams hash options .main).nPowTargetSpacing <
      candidate.blockTime - last.blockTime) :
    let limit := (chainParams hash options .main).powLimit.toNat
    let next := (setCompact (getNextWorkRequired (chainParams hash options .main) (last :: rest')
      candidate.blockTime)).target
    ((setCompact last.nBits).target ≤ limit →
      (setCompact last.nBits).target < next ∨ next = limit) ∧
    (0 < n → (setCompact last.nBits).target ≤ limit) ∧ (29 ≤ n → next = limit) := by
  intro limit next
  have hspacing := chainParams_spacing hash options .main
  rw [hspacing] at hgap₀ hgap₁ hlate
  have hlimit : limit = powLimitOf .main := toNat_powLimit hash options .main
  have hstart : Stuck (h₀ :: h₁ :: h₂ :: rest) := by
    have hraised : (186000 : Int) ≤ ((h₀ :: h₁ :: h₂ :: rest).length : Int) := hheight
    exact ⟨by omega, by omega, by exact_mod_cast hraised⟩
  have hnext : next = stuckTarget (setCompact last.nBits).target :=
    target_of_stuck (stuck_of_slowRun hstart hrun) (by omega)
  rw [hnext, hlimit]
  refine ⟨lt_stuckTarget, fun hn => ?_, fun hn => ?_⟩
  · obtain ⟨k, rfl⟩ : ∃ k, n = k + 1 := ⟨n - 1, by omega⟩
    exact (target_of_slowRun hstart hrun last rest' k rfl rfl).2.1
  -- After 27 steps from the floor the factor is more than `2 ^ 40`.
  obtain ⟨k, rfl⟩ : ∃ k, n = k + 27 + 1 := ⟨n - 28, by omega⟩
  obtain ⟨hlow, hle, hgrowth⟩ := target_of_slowRun hstart hrun last rest' (k + 27) rfl rfl
  have hfactor : powLimitOf .main * 5 ^ 27 ≤ powLimitOf .main / 2 ^ 40 * 14 ^ 27 := by
    decide +kernel
  have hreached : powLimitOf .main * 5 ^ (k + 27) ≤ (setCompact last.nBits).target * 5 ^ (k + 27) := by
    refine le_trans (le_min le_rfl ?_) hgrowth
    calc powLimitOf .main * 5 ^ (k + 27) = powLimitOf .main * 5 ^ 27 * 5 ^ k := by ring
      _ ≤ powLimitOf .main / 2 ^ 40 * 14 ^ 27 * 14 ^ k :=
        Nat.mul_le_mul hfactor (Nat.pow_le_pow_left (by decide) k)
      _ = powLimitOf .main / 2 ^ 40 * 14 ^ (k + 27) := by ring
  have htop : powLimitOf .main ≤ (setCompact last.nBits).target :=
    Nat.le_of_mul_le_mul_right hreached (Nat.pow_pos (by decide))
  have hstep := @lt_stuckTarget (setCompact last.nBits).target hle
  have hbound := (stuckTarget_bounds (setCompact last.nBits).target).2
  omega

end Stuck

/-- A chain up to the raise of the ceiling. -/
def idleRest : List BlockHeader :=
  List.replicate 186000 sampleGenesis

/-- The first late block after a chain with two long gaps, at the lowest target. -/
theorem slow_chain_recovers_first :
    let chain := headerAt 1202 0x1b01a41a :: headerAt 601 0x1b01a41a :: headerAt 0 0x1b01a41a ::
      idleRest
    let next := (setCompact (getNextWorkRequired (chainParams nullHash {} .main) chain
      (headerAt 1803 0).blockTime)).target
    (setCompact 0x1b01a41a).target < next ∨ next = (chainParams nullHash {} .main).powLimit.toNat := by
  have hlength : idleRest.length = 186000 := length_replicate
  have hheight : (chainParams nullHash {} .main).nPoUWDifficultyCeilingRaiseHeight ≤
      ((headerAt 1202 0x1b01a41a :: headerAt 601 0x1b01a41a :: headerAt 0 0x1b01a41a ::
        idleRest).length : Int) := by
    show (186000 : Int) ≤ _
    rw [length_cons, length_cons, length_cons, hlength]
    omega
  have hrange : (setCompact 0x1b01a41a).target ≤ (chainParams nullHash {} .main).powLimit.toNat := by
    decide +kernel
  have hlate : 10 * (chainParams nullHash {} .main).nPowTargetSpacing <
      (headerAt 1803 0).blockTime - (headerAt 1202 0x1b01a41a).blockTime := by
    decide
  exact (slow_chain_recovers nullHash {} hheight (by decide) (by decide) .start hlate).1 hrange

end AssentianPQE
