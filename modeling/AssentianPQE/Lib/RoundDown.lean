import Mathlib.Algebra.Group.Nat.Defs
import Mathlib.Data.Nat.Log
import Mathlib.Data.Nat.Size

/-!
# `AssentianPQE.Lib.RoundDown`: numbers with a short mantissa

A floating-point format without fractions keeps the leading digits of a number and drops the rest.
Digits have `w` bits here, and a mantissa has its leading digit and `p` more. The highest bit of the
leading digit is a sign, so a number that needs this bit gets one digit more.

`ulp w p n` is the unit of the last digit that is kept of `n`, and `roundDown w p n` is what is kept.
Rounding is monotone (`roundDown_mono`), keeps the number of bits (`log2_roundDown`), and changes
nothing that it has rounded (`roundDown_roundDown`). What is dropped is small:
`mul_le_roundDown_mul_add`.
-/

set_option autoImplicit false

namespace AssentianPQE.Lib

/-- The unit of the last digit of the mantissa of `n`. -/
def ulp (w p n : Nat) : Nat :=
  2 ^ (w * ((n.log2 + 1) / w - p))

/-- The number that the mantissa of `n` stands for. -/
def roundDown (w p n : Nat) : Nat :=
  n / ulp w p n * ulp w p n

section Rounding
variable (w p : Nat) {m n : Nat}

theorem ulp_pos (n : Nat) : 0 < ulp w p n :=
  Nat.two_pow_pos _

theorem roundDown_zero : roundDown w p 0 = 0 := by
  simp [roundDown]

theorem roundDown_le (n : Nat) : roundDown w p n ≤ n :=
  Nat.div_mul_le_self n _

theorem lt_roundDown_add_ulp (n : Nat) : n < roundDown w p n + ulp w p n :=
  Nat.lt_div_mul_add (ulp_pos w p n)

/-- Only numbers that end in zeros are kept as they are. -/
theorem roundDown_eq_self_iff : roundDown w p n = n ↔ ulp w p n ∣ n :=
  (Nat.dvd_iff_div_mul_eq n (ulp w p n)).symm

variable {w p}

/-- A mantissa has more bits than the unit leaves out, and one to spare. -/
theorem ulp_exponent_le (hw : 0 < w) (hp : 0 < p) (n : Nat) :
    w * ((n.log2 + 1) / w - p) ≤ n.log2 := by
  have hdiv : w * ((n.log2 + 1) / w) ≤ n.log2 + 1 := Nat.mul_div_le _ _
  have hdigit : w ≤ w * p := Nat.le_mul_of_pos_right w hp
  rw [Nat.mul_sub]
  omega

/-- The highest bit is kept. -/
theorem two_pow_log2_le_roundDown (hw : 0 < w) (hp : 0 < p) (hn : n ≠ 0) :
    2 ^ n.log2 ≤ roundDown w p n := by
  have hdvd : ulp w p n ∣ 2 ^ n.log2 := Nat.pow_dvd_pow 2 (ulp_exponent_le hw hp n)
  calc 2 ^ n.log2 = 2 ^ n.log2 / ulp w p n * ulp w p n := (Nat.div_mul_cancel hdvd).symm
    _ ≤ n / ulp w p n * ulp w p n :=
      Nat.mul_le_mul_right _ (Nat.div_le_div_right (Nat.log2_self_le hn))

theorem log2_roundDown (hw : 0 < w) (hp : 0 < p) (n : Nat) :
    (roundDown w p n).log2 = n.log2 := by
  by_cases hn : n = 0
  · rw [hn, roundDown_zero]
  have hlow := two_pow_log2_le_roundDown hw hp hn
  have hpos : 0 < 2 ^ n.log2 := Nat.two_pow_pos _
  have hhigh : roundDown w p n < 2 ^ (n.log2 + 1) :=
    lt_of_le_of_lt (roundDown_le w p n) Nat.lt_log2_self
  exact (Nat.log2_eq_iff (by omega)).mpr ⟨hlow, hhigh⟩

theorem ulp_roundDown (hw : 0 < w) (hp : 0 < p) (n : Nat) :
    ulp w p (roundDown w p n) = ulp w p n := by
  rw [ulp, log2_roundDown hw hp]
  rfl

theorem roundDown_roundDown (hw : 0 < w) (hp : 0 < p) (n : Nat) :
    roundDown w p (roundDown w p n) = roundDown w p n := by
  rw [roundDown_eq_self_iff, ulp_roundDown hw hp]
  exact Nat.dvd_mul_left _ _

theorem roundDown_mono (hw : 0 < w) (hp : 0 < p) (h : m ≤ n) :
    roundDown w p m ≤ roundDown w p n := by
  by_cases hm : m = 0
  · rw [hm, roundDown_zero]
    exact Nat.zero_le _
  have hn : n ≠ 0 := by omega
  by_cases hlog : m.log2 = n.log2
  · -- The same unit is used for both.
    have hulp : ulp w p m = ulp w p n := by rw [ulp, ulp, hlog]
    rw [roundDown, roundDown, hulp]
    exact Nat.mul_le_mul_right _ (Nat.div_le_div_right h)
  · -- The greater number has a bit more, and keeps it.
    have hlt : m.log2 < n.log2 := by
      refine Nat.lt_of_le_of_ne ?_ hlog
      rw [Nat.log2_eq_log_two, Nat.log2_eq_log_two]
      exact Nat.log_mono_right h
    calc roundDown w p m ≤ m := roundDown_le w p m
      _ ≤ 2 ^ (m.log2 + 1) := Nat.lt_log2_self.le
      _ ≤ 2 ^ n.log2 := Nat.pow_le_pow_right (by decide) hlt
      _ ≤ roundDown w p n := two_pow_log2_le_roundDown hw hp hn

/-- What is dropped is at most one part in `2 ^ (w * p - 1)`. -/
theorem mul_le_roundDown_mul_add (hw : 0 < w) (hp : 0 < p) (n : Nat) :
    n * 2 ^ (w * p - 1) ≤ roundDown w p n * 2 ^ (w * p - 1) + n := by
  by_cases hsmall : (n.log2 + 1) / w ≤ p
  · -- Nothing is dropped.
    have hulp : ulp w p n = 1 := by
      rw [ulp, Nat.sub_eq_zero_of_le hsmall]
      rfl
    rw [roundDown, hulp, Nat.div_one, Nat.mul_one]
    exact Nat.le_add_right _ _
  · have hn : n ≠ 0 := by
      rintro rfl
      refine hsmall ?_
      calc (Nat.log2 0 + 1) / w ≤ Nat.log2 0 + 1 := Nat.div_le_self _ _
        _ ≤ p := by
          rw [Nat.log2_zero]
          omega
    have hunit : ulp w p n * 2 ^ (w * p - 1) ≤ n := by
      have hexp : w * ((n.log2 + 1) / w - p) + (w * p - 1) ≤ n.log2 := by
        have hdiv : w * ((n.log2 + 1) / w) ≤ n.log2 + 1 := Nat.mul_div_le _ _
        have hwp : 0 < w * p := Nat.mul_pos hw hp
        have hle : w * p ≤ w * ((n.log2 + 1) / w) := Nat.mul_le_mul_left w (by omega)
        rw [Nat.mul_sub]
        omega
      calc ulp w p n * 2 ^ (w * p - 1)
          = 2 ^ (w * ((n.log2 + 1) / w - p) + (w * p - 1)) := (Nat.pow_add _ _ _).symm
        _ ≤ 2 ^ n.log2 := Nat.pow_le_pow_right (by decide) hexp
        _ ≤ n := Nat.log2_self_le hn
    have hlt := (lt_roundDown_add_ulp w p n).le
    calc n * 2 ^ (w * p - 1)
        ≤ (roundDown w p n + ulp w p n) * 2 ^ (w * p - 1) := Nat.mul_le_mul_right _ hlt
      _ = roundDown w p n * 2 ^ (w * p - 1) + ulp w p n * 2 ^ (w * p - 1) := Nat.add_mul _ _ _
      _ ≤ roundDown w p n * 2 ^ (w * p - 1) + n := Nat.add_le_add_left hunit _

end Rounding

end AssentianPQE.Lib
