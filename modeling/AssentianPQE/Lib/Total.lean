import Mathlib.Algebra.BigOperators.Finprod

/-!
# `AssentianPQE.Lib.Total`: totals of accounts and of a halving series

The total of a function that is zero almost everywhere, and how it changes when one value is
replaced (`total_update`). An account book is such a function.

A series that pays `a 0` for `k` turns, then `a 1` for `k` turns and so on, where each amount is
at most half of the one before, never pays more than `2 * k * a 0` (`sum_halving_le`).
-/

set_option autoImplicit false

namespace AssentianPQE.Lib

section Total

variable {ι : Type}

/-- The sum of all values. -/
noncomputable def total (f : ι → Int) : Int :=
  ∑ᶠ i, f i

theorem total_zero : total (fun _ : ι => 0) = 0 :=
  finsum_zero

/-- Replacing one value changes the total by the difference. -/
theorem total_update [DecidableEq ι] {f : ι → Int} (hf : f.support.Finite) (i : ι) (v : Int) :
    total (Function.update f i v) = total f - f i + v := by
  -- one finite set serves for both sums
  let s : Finset ι := insert i hf.toFinset
  have hi : i ∈ s := Finset.mem_insert_self i _
  have hsum : total f = ∑ x ∈ s, f x := by
    refine finsum_eq_sum_of_support_subset f fun x hx => ?_
    exact Finset.mem_coe.mpr (Finset.mem_insert_of_mem (hf.mem_toFinset.mpr hx))
  have hsum' : total (Function.update f i v) = ∑ x ∈ s, Function.update f i v x := by
    refine finsum_eq_sum_of_support_subset _ fun x hx => ?_
    by_cases hxi : x = i
    · rw [hxi]
      exact hi
    · rw [Function.mem_support, Function.update_of_ne hxi] at hx
      exact Finset.mem_coe.mpr (Finset.mem_insert_of_mem (hf.mem_toFinset.mpr hx))
  rw [hsum, hsum', Finset.sum_update_of_mem hi, ← Finset.sum_sdiff (Finset.singleton_subset_iff.mpr hi),
    Finset.sum_singleton]
  omega

end Total

section Halving

variable {a : Nat → Nat} {k : Nat}

/-- What the series has paid, together with the rest of the current amount and twice the next
one, is bounded by twice the first amount. -/
theorem sum_halving_add_le (ha : ∀ j, 2 * a (j + 1) ≤ a j) (hk : 0 < k) (n : Nat) :
    ∑ h ∈ Finset.range n, a (h / k) + (k - n % k) * a (n / k) + 2 * k * a (n / k + 1) ≤
      2 * k * a 0 := by
  induction n with
  | zero =>
    have h := Nat.mul_le_mul_left k (ha 0)
    simp only [Finset.range_zero, Finset.sum_empty, Nat.zero_mod, Nat.zero_div, Nat.sub_zero]
    have : k * (2 * a (0 + 1)) = 2 * k * a (0 + 1) := by ring
    have : 2 * k * a 0 = k * a 0 + k * a 0 := by ring
    omega
  | succ n ih =>
    have hmod := Nat.mod_lt n hk
    have hn := Nat.mod_add_div n k
    rw [Finset.sum_range_succ]
    by_cases hwrap : n % k + 1 = k
    · -- the amount changes: the last turn at the old amount has been paid
      obtain ⟨hdiv, hzero⟩ : (n + 1) / k = n / k + 1 ∧ (n + 1) % k = 0 :=
        (Nat.div_mod_unique hk).mpr ⟨by rw [Nat.mul_add]; omega, hk⟩
      have hone : k - n % k = 1 := by omega
      have hnext := Nat.mul_le_mul_left k (ha (n / k + 1))
      rw [hone] at ih
      rw [hdiv, hzero, Nat.sub_zero]
      have : k * (2 * a (n / k + 1 + 1)) = 2 * k * a (n / k + 1 + 1) := by ring
      have : 2 * k * a (n / k + 1) = k * a (n / k + 1) + k * a (n / k + 1) := by ring
      omega
    · obtain ⟨hdiv, hmod'⟩ : (n + 1) / k = n / k ∧ (n + 1) % k = n % k + 1 :=
        (Nat.div_mod_unique hk).mpr ⟨by omega, by omega⟩
      have hsplit : (k - n % k) * a (n / k) = (k - (n % k + 1)) * a (n / k) + a (n / k) := by
        have : k - n % k = (k - (n % k + 1)) + 1 := by omega
        rw [this, Nat.add_mul, Nat.one_mul]
      rw [hdiv, hmod']
      omega

/-- The series never pays more than `2 * k * a 0`. -/
theorem sum_halving_le (ha : ∀ j, 2 * a (j + 1) ≤ a j) (hk : 0 < k) (n : Nat) :
    ∑ h ∈ Finset.range n, a (h / k) ≤ 2 * k * a 0 := by
  have h := sum_halving_add_le ha hk n
  omega

end Halving

end AssentianPQE.Lib
