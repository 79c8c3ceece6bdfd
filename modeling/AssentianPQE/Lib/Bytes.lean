import Mathlib.Data.List.Basic
import Mathlib.Tactic.Ring

/-!
# `AssentianPQE.Lib.Bytes`: byte strings and fixed-width integers

A byte string is a list of `UInt8`. An integer is written in a fixed number of bytes, the
least significant byte first (`leBytes`) or last (`beBytes`), and read back with `readLE`
and `readBE`. A `Blob n` is a byte string of exactly `n` bytes: the length is a field, so
a digest of another size cannot be built.

* `readLE_leBytes`, `readBE_beBytes`: reading returns the written value modulo `256 ^ w`.
* `leBytes_readLE`, `beBytes_readBE`: writing a read value returns the bytes.
* `leBytes_inj`: two values below `256 ^ w` with the same bytes are equal.
* `takeN_eq_some`: what a successful fixed-length read says about its input.
-/

set_option autoImplicit false

namespace AssentianPQE.Lib

/-- A byte string. -/
abbrev Bytes := List UInt8

instance : LawfulBEq Bytes := inferInstance

/-! ### Fixed-width integers -/

/-- The value `v` modulo `256 ^ w` in `w` bytes, least significant byte first. -/
def leBytes : Nat → Nat → Bytes
  | 0, _ => []
  | w + 1, v => UInt8.ofNat v :: leBytes w (v / 256)

/-- The value of a byte string, least significant byte first. -/
def readLE : Bytes → Nat
  | [] => 0
  | b :: bs => b.toNat + 256 * readLE bs

/-- The value `v` modulo `256 ^ w` in `w` bytes, most significant byte first. -/
def beBytes (w v : Nat) : Bytes :=
  (leBytes w v).reverse

/-- The value of a byte string, most significant byte first. -/
def readBE (bs : Bytes) : Nat :=
  readLE bs.reverse

variable (w v : Nat)

@[simp] theorem length_leBytes : (leBytes w v).length = w := by
  induction w generalizing v with
  | zero => rfl
  | succ w ih => simp [leBytes, ih]

@[simp] theorem length_beBytes : (beBytes w v).length = w := by
  simp [beBytes]

variable (bs : Bytes)

theorem readLE_lt : readLE bs < 256 ^ bs.length := by
  induction bs with
  | nil => simp [readLE]
  | cons b bs ih =>
    have hb : b.toNat < 256 := b.toNat_lt
    simp only [readLE, List.length_cons, Nat.pow_succ]
    omega

theorem readBE_lt : readBE bs < 256 ^ bs.length := by
  simpa [readBE] using readLE_lt bs.reverse

/-- Reading what `leBytes` wrote returns the value modulo `256 ^ w`. -/
theorem readLE_leBytes : readLE (leBytes w v) = v % 256 ^ w := by
  induction w generalizing v with
  | zero => simp [leBytes, readLE, Nat.mod_one]
  | succ w ih =>
    have hb : (UInt8.ofNat v).toNat = v % 256 := by simp
    rw [leBytes, readLE, ih, hb, Nat.pow_succ, Nat.mul_comm (256 ^ w) 256, Nat.mod_mul]

theorem readBE_beBytes : readBE (beBytes w v) = v % 256 ^ w := by
  simp [readBE, beBytes, readLE_leBytes]

/-- Writing the value of a byte string returns the byte string. -/
theorem leBytes_readLE : leBytes bs.length (readLE bs) = bs := by
  induction bs with
  | nil => rfl
  | cons b bs ih =>
    have hb : b.toNat < 256 := b.toNat_lt
    have hdiv : (b.toNat + 256 * readLE bs) / 256 = readLE bs := by omega
    have hmod : UInt8.ofNat (b.toNat + 256 * readLE bs) = b := by
      apply UInt8.toNat.inj
      simp only [UInt8.toNat_ofNat']
      omega
    simp only [readLE, List.length_cons, leBytes, hdiv, hmod, ih]

theorem beBytes_readBE : beBytes bs.length (readBE bs) = bs := by
  have h := leBytes_readLE bs.reverse
  rw [List.length_reverse] at h
  rw [beBytes, readBE, h, List.reverse_reverse]

/-- Two values below `256 ^ w` with the same bytes are equal. -/
theorem leBytes_inj {w v v' : Nat} (hv : v < 256 ^ w) (hv' : v' < 256 ^ w)
    (h : leBytes w v = leBytes w v') : v = v' := by
  have hr := congrArg readLE h
  rwa [readLE_leBytes, readLE_leBytes, Nat.mod_eq_of_lt hv, Nat.mod_eq_of_lt hv'] at hr

/-! ### Fixed-length reads -/

/-- The first `n` bytes and the rest, when there are that many. -/
def takeN (n : Nat) (bs : Bytes) : Option (Bytes × Bytes) :=
  if n ≤ bs.length then some (bs.take n, bs.drop n) else none

theorem takeN_eq_some {n : Nat} {bs x rest : Bytes} (h : takeN n bs = some (x, rest)) :
    x.length = n ∧ bs = x ++ rest := by
  unfold takeN at h
  split at h
  · simp only [Option.some.injEq, Prod.mk.injEq] at h
    obtain ⟨rfl, rfl⟩ := h
    exact ⟨by simpa using ‹n ≤ bs.length›, (List.take_append_drop n bs).symm⟩
  · cases h

@[simp] theorem takeN_append (x rest : Bytes) : takeN x.length (x ++ rest) = some (x, rest) := by
  simp [takeN]

theorem takeN_append_of_length {n : Nat} {x : Bytes} (h : x.length = n) (rest : Bytes) :
    takeN n (x ++ rest) = some (x, rest) := by
  subst h
  exact takeN_append x rest

/-! ### Byte strings of a fixed length -/

/-- A byte string of exactly `n` bytes. -/
structure Blob (n : Nat) where
  data : Bytes
  size_eq : data.length = n

namespace Blob

variable {n : Nat}

@[ext] theorem ext {a b : Blob n} (h : a.data = b.data) : a = b := by
  cases a
  cases b
  cases h
  rfl

instance : DecidableEq (Blob n) := fun a b =>
  decidable_of_iff (a.data = b.data) ⟨Blob.ext, fun h => h ▸ rfl⟩

/-- All bytes zero. -/
def zero (n : Nat) : Blob n :=
  ⟨List.replicate n 0, by simp⟩

/-- The value in `n` bytes, least significant byte first. -/
def ofNat (n v : Nat) : Blob n :=
  ⟨leBytes n v, by simp⟩

/-- The number a blob stands for, least significant byte first. -/
def toNat (a : Blob n) : Nat :=
  readLE a.data

/-- The `n` bytes at offset `off`. -/
def slice (n : Nat) (bs : Bytes) (off : Nat) (h : off + n ≤ bs.length) : Blob n :=
  ⟨(bs.drop off).take n, by rw [List.length_take, List.length_drop]; omega⟩

/-- A byte string of the right length as a blob. -/
def ofBytes? (n : Nat) (bs : Bytes) : Option (Blob n) :=
  if h : bs.length = n then some ⟨bs, h⟩ else none

@[simp] theorem length_data (a : Blob n) : a.data.length = n := a.size_eq

end Blob

end AssentianPQE.Lib
