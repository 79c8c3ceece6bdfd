import Mathlib.Data.Nat.Digits.Lemmas
import Mathlib.Tactic.Ring

/-!
# `AssentianPQE.Lib.Radix`: regrouping the bits of a string of digits

A string of digits is read with the most significant digit first. Digits of one width are
regrouped to digits of another width through an accumulator that holds the bits not yet written
(`regroup`). The bits are kept: the value read so far is the value written so far, followed by
the bits in the accumulator (`regroup_value`). When the widths divide the number of bits, nothing
is left and the two strings have one value, so regrouping back gives the digits again
(`regroup_regroup`).
-/

set_option autoImplicit false

namespace AssentianPQE.Lib

/-! ### Values of digits -/

/-- The value of a string of digits in base `b`, most significant digit first. -/
def valueBE (b : Nat) (ds : List Nat) : Nat :=
  Nat.ofDigits b ds.reverse

@[simp] theorem valueBE_nil (b : Nat) : valueBE b [] = 0 := rfl

theorem valueBE_cons (b d : Nat) (ds : List Nat) :
    valueBE b (d :: ds) = d * b ^ ds.length + valueBE b ds := by
  simp only [valueBE, List.reverse_cons, Nat.ofDigits_append, Nat.ofDigits_singleton,
    List.length_reverse]
  ring

theorem valueBE_append (b : Nat) (ds es : List Nat) :
    valueBE b (ds ++ es) = valueBE b ds * b ^ es.length + valueBE b es := by
  simp only [valueBE, List.reverse_append, Nat.ofDigits_append, List.length_reverse]
  ring

/-- Equally many digits with one value are equal. -/
theorem valueBE_inj {b : Nat} (hb : 1 < b) {ds es : List Nat} (hlen : ds.length = es.length)
    (hds : ∀ d ∈ ds, d < b) (hes : ∀ d ∈ es, d < b) (h : valueBE b ds = valueBE b es) :
    ds = es := by
  have hrev := Nat.ofDigits_inj_of_len_eq hb (by simpa using hlen) (by simpa using hds)
    (by simpa using hes) h
  simpa using hrev

/-! ### Regrouping -/

/-- Write the top bits of the accumulator, of which `bits` are held, as digits of width `w`. -/
def drain (w acc : Nat) : Nat → Nat → List Nat × Nat
  | 0, bits => ([], bits)
  | fuel + 1, bits =>
    if w ≤ bits then
      let r := drain w acc fuel (bits - w)
      ((acc >>> (bits - w)) % 2 ^ w :: r.1, r.2)
    else ([], bits)

/-- Read digits of width `v` and write digits of width `w`. The result has the digits, the
accumulator and the number of bits that it holds. -/
def regroup (v w : Nat) : List Nat → Nat → Nat → List Nat × Nat × Nat
  | [], acc, bits => ([], acc, bits)
  | d :: ds, acc, bits =>
    let acc := ((acc <<< v) ||| d) % 2 ^ (v + w - 1)
    let out := drain w acc (bits + v) (bits + v)
    let r := regroup v w ds acc out.2
    (out.1 ++ r.1, r.2)

variable {v w : Nat}

/-- Draining keeps the bits. -/
theorem drain_spec (hw : 0 < w) (acc : Nat) : ∀ {fuel bits : Nat}, bits ≤ fuel →
    (drain w acc fuel bits).2 < w ∧
    (drain w acc fuel bits).2 + w * (drain w acc fuel bits).1.length = bits ∧
    (∀ d ∈ (drain w acc fuel bits).1, d < 2 ^ w) ∧
    acc % 2 ^ bits = valueBE (2 ^ w) (drain w acc fuel bits).1 * 2 ^ (drain w acc fuel bits).2 +
      acc % 2 ^ (drain w acc fuel bits).2 := by
  intro fuel
  induction fuel with
  | zero =>
    intro bits hbits
    obtain rfl : bits = 0 := by omega
    simp [drain, hw]
  | succ fuel ih =>
    intro bits hbits
    by_cases hle : w ≤ bits
    · obtain ⟨hlt, hcount, hdigits, hvalue⟩ := ih (show bits - w ≤ fuel by omega)
      unfold drain
      simp only [if_pos hle]
      refine ⟨hlt, ?_, ?_, ?_⟩
      · rw [List.length_cons, Nat.mul_add]
        omega
      · intro d hd
        cases List.mem_cons.mp hd with
        | inl h => rw [h]; exact Nat.mod_lt _ (Nat.two_pow_pos w)
        | inr h => exact hdigits d h
      · -- the digit written is the top of the bits, the rest is what `ih` says
        have hsplit : acc % 2 ^ bits =
            (acc >>> (bits - w)) % 2 ^ w * 2 ^ (bits - w) + acc % 2 ^ (bits - w) := by
          have hpow : 2 ^ bits = 2 ^ (bits - w) * 2 ^ w := by rw [← Nat.pow_add]; congr 1; omega
          rw [hpow, Nat.mod_mul, Nat.shiftRight_eq_div_pow]
          ring
        have hlen : 2 ^ (bits - w) = (2 ^ w) ^ (drain w acc fuel (bits - w)).1.length *
            2 ^ (drain w acc fuel (bits - w)).2 := by
          rw [← Nat.pow_mul, ← Nat.pow_add]
          congr 1
          omega
        rw [hsplit, hvalue, valueBE_cons, hlen]
        ring
    · unfold drain
      simp only [if_neg hle]
      exact ⟨by omega, by simp, by simp, by simp⟩

/-- Regrouping keeps the bits. -/
theorem regroup_spec (hw : 0 < w) {ds : List Nat} :
    ∀ (acc : Nat) {bits : Nat}, (∀ d ∈ ds, d < 2 ^ v) → bits < w →
    (regroup v w ds acc bits).2.2 < w ∧
    (regroup v w ds acc bits).2.2 + w * (regroup v w ds acc bits).1.length = bits + v * ds.length ∧
    (∀ d ∈ (regroup v w ds acc bits).1, d < 2 ^ w) ∧
    acc % 2 ^ bits * 2 ^ (v * ds.length) + valueBE (2 ^ v) ds =
      valueBE (2 ^ w) (regroup v w ds acc bits).1 * 2 ^ (regroup v w ds acc bits).2.2 +
        (regroup v w ds acc bits).2.1 % 2 ^ (regroup v w ds acc bits).2.2 := by
  induction ds with
  | nil =>
    intro acc bits _ hbits
    simp [regroup, hbits]
  | cons d ds ih =>
    intro acc bits hds hbits
    have hd : d < 2 ^ v := hds d List.mem_cons_self
    obtain ⟨acc', hacc⟩ : ∃ a, a = ((acc <<< v) ||| d) % 2 ^ (v + w - 1) := ⟨_, rfl⟩
    obtain ⟨out, hout⟩ : ∃ o, o = drain w acc' (bits + v) (bits + v) := ⟨_, rfl⟩
    obtain ⟨r, hr⟩ : ∃ r, r = regroup v w ds acc' out.2 := ⟨_, rfl⟩
    have hstep : regroup v w (d :: ds) acc bits = (out.1 ++ r.1, r.2) := by
      rw [hr, hout, hacc]
      rfl
    obtain ⟨hlt, hcount, hdigits, hvalue⟩ :=
      drain_spec hw acc' (show bits + v ≤ bits + v from Nat.le_refl _)
    rw [← hout] at hlt hcount hdigits hvalue
    obtain ⟨hlt', hcount', hdigits', hvalue'⟩ :=
      ih acc' (fun e he => hds e (List.mem_cons_of_mem _ he)) hlt
    rw [← hr] at hlt' hcount' hdigits' hvalue'
    -- the accumulator holds the old bits and the new digit
    have hbitsum : acc' % 2 ^ (bits + v) = acc % 2 ^ bits * 2 ^ v + d := by
      have hor : (acc <<< v) ||| d = acc * 2 ^ v + d := by
        rw [← Nat.shiftLeft_add_eq_or_of_lt hd, Nat.shiftLeft_eq]
      rw [hacc, hor, Nat.mod_mod_of_dvd _ (Nat.pow_dvd_pow 2 (by omega)), Nat.add_comm bits v,
        Nat.pow_add, Nat.mod_mul, Nat.mul_comm acc, Nat.mul_add_mod, Nat.mod_eq_of_lt hd,
        Nat.mul_add_div (Nat.two_pow_pos v), Nat.div_eq_of_lt hd, Nat.add_zero]
      ring
    rw [hstep]
    refine ⟨hlt', ?_, ?_, ?_⟩
    · simp only [List.length_append, List.length_cons, Nat.mul_add]
      omega
    · intro e he
      cases List.mem_append.mp he with
      | inl h => exact hdigits e h
      | inr h => exact hdigits' e h
    · have hlen : 2 ^ out.2 * 2 ^ (v * ds.length) = (2 ^ w) ^ r.1.length * 2 ^ r.2.2 := by
        rw [← Nat.pow_mul, ← Nat.pow_add, ← Nat.pow_add]
        congr 1
        omega
      have hpow : 2 ^ (v * (d :: ds).length) = 2 ^ v * 2 ^ (v * ds.length) := by
        rw [List.length_cons, Nat.mul_add, Nat.mul_one, Nat.pow_add]
        ring
      show acc % 2 ^ bits * 2 ^ (v * (d :: ds).length) + valueBE (2 ^ v) (d :: ds) =
        valueBE (2 ^ w) (out.1 ++ r.1) * 2 ^ r.2.2 + r.2.1 % 2 ^ r.2.2
      calc acc % 2 ^ bits * 2 ^ (v * (d :: ds).length) + valueBE (2 ^ v) (d :: ds)
          = (acc % 2 ^ bits * 2 ^ v + d) * 2 ^ (v * ds.length) + valueBE (2 ^ v) ds := by
            rw [hpow, valueBE_cons, ← Nat.pow_mul]
            ring
        _ = valueBE (2 ^ w) out.1 * (2 ^ out.2 * 2 ^ (v * ds.length)) +
              (acc' % 2 ^ out.2 * 2 ^ (v * ds.length) + valueBE (2 ^ v) ds) := by
            rw [← hbitsum, hvalue]
            ring
        _ = valueBE (2 ^ w) (out.1 ++ r.1) * 2 ^ r.2.2 + r.2.1 % 2 ^ r.2.2 := by
            rw [hvalue', hlen, valueBE_append]
            ring

/-- When no bit is left, the strings have one value. -/
theorem regroup_value (hw : 0 < w) {ds : List Nat} (hds : ∀ d ∈ ds, d < 2 ^ v)
    (hnone : (regroup v w ds 0 0).2.2 = 0) :
    valueBE (2 ^ v) ds = valueBE (2 ^ w) (regroup v w ds 0 0).1 := by
  obtain ⟨-, -, -, hvalue⟩ := regroup_spec hw 0 hds hw
  rw [hnone] at hvalue
  simpa [Nat.mod_one] using hvalue

/-- Regrouping back gives the digits again when neither direction leaves a bit. -/
theorem regroup_regroup (hv : 0 < v) (hw : 0 < w) {ds : List Nat} (hds : ∀ d ∈ ds, d < 2 ^ v)
    (hnone : (regroup v w ds 0 0).2.2 = 0) :
    regroup w v (regroup v w ds 0 0).1 0 0 = (ds, (regroup w v (regroup v w ds 0 0).1 0 0).2) ∧
      (regroup w v (regroup v w ds 0 0).1 0 0).2.2 = 0 := by
  obtain ⟨-, hcount, hdigits, -⟩ := regroup_spec hw 0 hds hw
  rw [hnone] at hcount
  obtain ⟨hlt', hcount', hdigits', -⟩ := regroup_spec hv 0 hdigits hv
  -- both directions have the same number of bits, and fewer than a digit cannot be left
  have hbits : (regroup w v (regroup v w ds 0 0).1 0 0).2.2 +
      v * (regroup w v (regroup v w ds 0 0).1 0 0).1.length = v * ds.length := by
    omega
  have hlen : (regroup w v (regroup v w ds 0 0).1 0 0).1.length = ds.length := by
    have h1 := congrArg (· / v) hbits
    simp only [Nat.add_mul_div_left _ _ hv, Nat.div_eq_of_lt hlt', Nat.zero_add,
      Nat.mul_div_cancel_left _ hv] at h1
    exact h1
  have hzero : (regroup w v (regroup v w ds 0 0).1 0 0).2.2 = 0 := by
    rw [hlen] at hbits
    omega
  have hvalue := (regroup_value hw hds hnone).trans (regroup_value hv hdigits hzero)
  have hpow : 1 < 2 ^ v := Nat.one_lt_two_pow hv.ne'
  have heq := valueBE_inj hpow hlen.symm hds hdigits' hvalue
  exact ⟨Prod.ext heq.symm rfl, hzero⟩

end AssentianPQE.Lib
