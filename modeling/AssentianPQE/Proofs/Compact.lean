import AssentianPQE.Lib.RoundDown
import AssentianPQE.Validation.Pow

/-!
# `AssentianPQE.Proofs.Compact`: the compact form of a target

`GetCompact` keeps three bytes of a number, of which the highest bit is a sign, and `SetCompact`
reads them back. `getCompact_eq` gives the parts of a compact form, `setCompact_getCompact` says that
reading one back rounds down and sets no flag, and `getCompact_compactTrunc` that a rounded number
has the compact form it was read from.
-/

set_option autoImplicit false

namespace AssentianPQE

open Lib

/-- The number that the compact form of `n` stands for. -/
def compactTrunc (n : Nat) : Nat :=
  roundDown 8 2 n

section Trunc
variable {m n : Nat}

theorem compactTrunc_le (n : Nat) : compactTrunc n ≤ n :=
  roundDown_le 8 2 n

theorem compactTrunc_mono (h : m ≤ n) : compactTrunc m ≤ compactTrunc n :=
  roundDown_mono (by decide) (by decide) h

theorem compactTrunc_max (m n : Nat) :
    compactTrunc (max m n) = max (compactTrunc m) (compactTrunc n) :=
  Monotone.map_max fun _ _ h => compactTrunc_mono h

theorem compactTrunc_compactTrunc (n : Nat) : compactTrunc (compactTrunc n) = compactTrunc n :=
  roundDown_roundDown (by decide) (by decide) n

theorem compactTrunc_pos (h : 0 < n) : 0 < compactTrunc n :=
  lt_of_lt_of_le (Nat.two_pow_pos _)
    (two_pow_log2_le_roundDown (by decide) (by decide) (Nat.pos_iff_ne_zero.mp h))

/-- A compact form loses at most one part in `2 ^ 15`. -/
theorem le_compactTrunc (n : Nat) : n * 2 ^ 15 ≤ compactTrunc n * 2 ^ 15 + n :=
  @mul_le_roundDown_mul_add 8 2 (by decide) (by decide) n

end Trunc

/-! ### The parts of a compact form -/

/-- The number of bytes, with room for the sign. -/
def compactBytes (n : Nat) : Nat :=
  (n.log2 + 1) / 8 + 1

/-- The three bytes that are kept. -/
def compactMantissa (n : Nat) : Nat :=
  if compactBytes n ≤ 3 then n * 2 ^ (8 * (3 - compactBytes n)) else n / 2 ^ (8 * (compactBytes n - 3))

/-- The sign bit of a mantissa is not set. -/
theorem compactMantissa_lt (n : Nat) : compactMantissa n < 2 ^ 23 := by
  have hlt : n < 2 ^ (n.log2 + 1) := Nat.lt_log2_self
  have hbits : n.log2 + 1 < 8 * compactBytes n := by
    unfold compactBytes
    omega
  unfold compactMantissa
  split
  next hsmall =>
    calc n * 2 ^ (8 * (3 - compactBytes n))
        < 2 ^ (n.log2 + 1) * 2 ^ (8 * (3 - compactBytes n)) :=
          Nat.mul_lt_mul_of_pos_right hlt (Nat.two_pow_pos _)
      _ = 2 ^ (n.log2 + 1 + 8 * (3 - compactBytes n)) := (Nat.pow_add _ _ _).symm
      _ ≤ 2 ^ 23 := Nat.pow_le_pow_right (by decide) (by omega)
  next hlarge =>
    rw [Nat.div_lt_iff_lt_mul (Nat.two_pow_pos _), ← Nat.pow_add]
    exact lt_of_lt_of_le hlt (Nat.pow_le_pow_right (by decide) (by omega))

/-- The mantissa before the sign bit is freed. -/
theorem mantissa_of_aligned {n s : Nat} (hn : n ≠ 0) (hlog : n.log2 + 1 = 8 * s) :
    let nCompact := if s ≤ 3 then n * 2 ^ (8 * (3 - s)) else n / 2 ^ (8 * (s - 3))
    nCompact / 2 ^ 23 % 2 = 1 ∧ nCompact / 256 = compactMantissa n := by
  have hlow : 2 ^ n.log2 ≤ n := Nat.log2_self_le hn
  have hhigh : n < 2 ^ (n.log2 + 1) := Nat.lt_log2_self
  have hbytes : compactBytes n = s + 1 := by
    unfold compactBytes
    omega
  unfold compactMantissa
  rw [hbytes]
  intro nCompact
  have hpos : 1 ≤ s := by omega
  have hrange : 2 ^ 23 ≤ nCompact ∧ nCompact < 2 ^ 24 := by
    show 2 ^ 23 ≤ (if s ≤ 3 then _ else _) ∧ (if s ≤ 3 then _ else _) < 2 ^ 24
    split
    next hsmall =>
      have hexp : n.log2 + 8 * (3 - s) = 23 := by omega
      rw [← hexp]
      have hexp' : 24 = n.log2 + 1 + 8 * (3 - s) := by omega
      rw [hexp', Nat.pow_add, Nat.pow_add]
      exact ⟨Nat.mul_le_mul_right _ hlow, Nat.mul_lt_mul_of_pos_right hhigh (Nat.two_pow_pos _)⟩
    next hlarge =>
      rw [Nat.le_div_iff_mul_le (Nat.two_pow_pos _), Nat.div_lt_iff_lt_mul (Nat.two_pow_pos _),
        ← Nat.pow_add, ← Nat.pow_add]
      have hexp : 23 + 8 * (s - 3) = n.log2 := by omega
      have hexp' : 24 + 8 * (s - 3) = n.log2 + 1 := by omega
      rw [hexp, hexp']
      exact ⟨hlow, hhigh⟩
  refine ⟨by omega, ?_⟩
  show (if s ≤ 3 then _ else _) / 256 = _
  split
  next hsmall =>
    split
    next hroom =>
      -- There is room for one more byte.
      have hexp : 8 * (3 - s) = 8 * (3 - (s + 1)) + 8 := by omega
      rw [hexp, Nat.pow_add, ← Nat.mul_assoc]
      exact Nat.mul_div_cancel _ (by decide)
    next hfull =>
      have hs : s = 3 := by omega
      rw [hs]
      norm_num
  next hlarge =>
    rw [if_neg (by omega), Nat.div_div_eq_div_mul]
    have hexp : 8 * (s + 1 - 3) = 8 * (s - 3) + 8 := by omega
    rw [hexp, Nat.pow_add]

/-- `GetCompact` of a number that is not zero. -/
theorem getCompact_eq {n : Nat} (hn : n ≠ 0) :
    getCompact n = UInt32.ofNat (compactMantissa n + compactBytes n * 2 ^ 24) := by
  unfold getCompact
  rw [if_neg hn]
  dsimp only
  by_cases haligned : (n.log2 + 1) % 8 = 0
  · -- The highest bit of the first byte is set.
    have hlog : n.log2 + 1 = 8 * ((n.log2 + 1) / 8) := by omega
    have hsize : (n.log2 + 1 + 7) / 8 = (n.log2 + 1) / 8 := by omega
    obtain ⟨hsign, hmantissa⟩ := mantissa_of_aligned hn hlog
    rw [hsize, if_pos hsign, hmantissa]
    rfl
  · have hsize : (n.log2 + 1 + 7) / 8 = compactBytes n := by
      unfold compactBytes
      omega
    rw [hsize]
    have hlt := compactMantissa_lt n
    have hzero : compactMantissa n / 2 ^ 23 % 2 ≠ 1 := by omega
    exact if_neg hzero

/-! ### Reading a compact form -/

theorem compactBytes_le {n : Nat} (h : n < 2 ^ 256) : compactBytes n ≤ 33 := by
  by_cases hn : n = 0
  · rw [hn]
    decide
  have hlog : n.log2 < 256 := (Nat.log2_lt hn).mpr h
  unfold compactBytes
  omega

/-- The parts of a compact form as bits. -/
theorem toNat_getCompact {n : Nat} (hn : n ≠ 0) (h : n < 2 ^ 256) :
    (getCompact n).toNat = compactMantissa n + compactBytes n * 2 ^ 24 := by
  have hmantissa := compactMantissa_lt n
  have hbytes := compactBytes_le h
  rw [getCompact_eq hn, UInt32.toNat_ofNat_of_lt']
  show _ < 2 ^ 32
  omega

/-- The mantissa at its place is the number rounded down. -/
theorem compactMantissa_scaled (n : Nat) :
    (if compactBytes n ≤ 3 then compactMantissa n / 2 ^ (8 * (3 - compactBytes n))
      else compactMantissa n * 2 ^ (8 * (compactBytes n - 3))) = compactTrunc n := by
  have hulp : ulp 8 2 n = 2 ^ (8 * (compactBytes n - 3)) := by
    unfold ulp compactBytes
    congr 2
  rw [compactTrunc, roundDown, hulp]
  unfold compactMantissa
  split
  next hsmall =>
    rw [Nat.mul_div_cancel _ (Nat.two_pow_pos _), Nat.sub_eq_zero_of_le hsmall]
    simp
  next => rfl

/-- Reading a compact form back rounds down and sets no flag. -/
theorem setCompact_getCompact {n : Nat} (h : n < 2 ^ 256) :
    setCompact (getCompact n) = ⟨compactTrunc n, false, false⟩ := by
  by_cases hn : n = 0
  · rw [hn]
    decide
  have hmantissa := compactMantissa_lt n
  have hbytes := compactBytes_le h
  have hscaled := compactMantissa_scaled n
  have htrunc : compactTrunc n < 2 ^ 256 := lt_of_le_of_lt (compactTrunc_le n) h
  have hsize : (compactMantissa n + compactBytes n * 2 ^ 24) / 2 ^ 24 = compactBytes n := by omega
  have hword : (compactMantissa n + compactBytes n * 2 ^ 24) % 2 ^ 23 = compactMantissa n := by omega
  have hsign : (compactMantissa n + compactBytes n * 2 ^ 24) / 2 ^ 23 % 2 ≠ 1 := by omega
  -- A number of 33 bytes has two bytes in its mantissa.
  have hwide : 32 < compactBytes n → compactMantissa n ≤ 0xffff := by
    intro hwide
    have hthree : compactBytes n = 33 := by omega
    rw [if_neg (by omega), hthree] at hscaled
    by_contra hgt
    have hge : 2 ^ 16 * 2 ^ 240 ≤ compactTrunc n := by
      rw [← hscaled]
      exact Nat.mul_le_mul_right _ (by omega)
    omega
  unfold setCompact
  rw [toNat_getCompact hn h, hsize, hword]
  dsimp only
  congr 1
  · by_cases hsmall : compactBytes n ≤ 3
    · rw [if_pos hsmall] at hscaled
      rw [if_pos hsmall, if_pos hsmall, hscaled]
    · rw [if_neg hsmall] at hscaled
      rw [if_neg hsmall, if_neg hsmall, hscaled, Nat.mod_eq_of_lt htrunc]
  · exact decide_eq_false fun hneg => hsign hneg.2
  · refine decide_eq_false fun hover => ?_
    by_cases hsmall : compactBytes n ≤ 3
    · omega
    · rw [if_neg hsmall] at hover
      omega

/-- A rounded number has the compact form that it was read from. -/
theorem getCompact_compactTrunc (n : Nat) : getCompact (compactTrunc n) = getCompact n := by
  by_cases hn : n = 0
  · rw [hn]
    rfl
  have hlog : (compactTrunc n).log2 = n.log2 := log2_roundDown (by decide) (by decide) n
  have hpos : compactTrunc n ≠ 0 :=
    Nat.pos_iff_ne_zero.mp (compactTrunc_pos (Nat.pos_iff_ne_zero.mpr hn))
  have hbytes : compactBytes (compactTrunc n) = compactBytes n := by
    rw [compactBytes, hlog, compactBytes]
  have hscaled := compactMantissa_scaled n
  have hmantissa : compactMantissa (compactTrunc n) = compactMantissa n := by
    rw [compactMantissa, hbytes, ← hscaled]
    unfold compactMantissa
    split
    next => rw [Nat.mul_div_cancel _ (Nat.two_pow_pos _)]
    next => rw [Nat.mul_div_cancel _ (Nat.two_pow_pos _)]
  rw [getCompact_eq hpos, getCompact_eq hn, hbytes, hmantissa]

/-- Two numbers have the same compact form if and only if they round to the same number. -/
theorem getCompact_eq_iff {m n : Nat} (hm : m < 2 ^ 256) (hn : n < 2 ^ 256) :
    getCompact m = getCompact n ↔ compactTrunc m = compactTrunc n := by
  refine ⟨fun h => ?_, fun h => ?_⟩
  · have htarget := congrArg (fun bits => (setCompact bits).target) h
    simpa only [setCompact_getCompact hm, setCompact_getCompact hn] using htarget
  · rw [← getCompact_compactTrunc m, h, getCompact_compactTrunc]

end AssentianPQE
