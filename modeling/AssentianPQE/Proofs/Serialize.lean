import AssentianPQE.Lib.Encoding
import AssentianPQE.Primitives

/-!
# `AssentianPQE.Proofs.Serialize`: what a serialized transaction determines

The serialization without witness data determines the transaction up to its witnesses
(`serializeNoWitness_inj`), as long as no count in it reaches `2 ^ 64`. Every transaction
that `CheckTransaction` accepts is far below that.
-/

set_option autoImplicit false

namespace AssentianPQE

open Lib List Transaction UInt8 TxIn Nat

/-! ### Fields -/

theorem serU32_inj {x y : UInt32} (h : serU32 x = serU32 y) : x = y :=
  UInt32.toNat_inj.mp (leBytes_inj (by simpa using x.toNat_lt) (by simpa using y.toNat_lt) h)

theorem serI32_inj {x y : Int32} (h : serI32 x = serI32 y) : x = y :=
  Int32.toBitVec_inj.mp (BitVec.toNat_inj.mp
    (leBytes_inj (by simpa using x.toBitVec.isLt) (by simpa using y.toBitVec.isLt) h))

theorem serI64_inj {x y : Int64} (h : serI64 x = serI64 y) : x = y :=
  Int64.toBitVec_inj.mp (BitVec.toNat_inj.mp
    (leBytes_inj (by simpa using x.toBitVec.isLt) (by simpa using y.toBitVec.isLt) h))

theorem serU32_determines : Determines (fun _ => True) serU32 id :=
  .of_length 4 (fun _ _ => length_leBytes _ _) fun _ _ _ _ => serU32_inj

theorem serI32_determines : Determines (fun _ => True) serI32 id :=
  .of_length 4 (fun _ _ => length_leBytes _ _) fun _ _ _ _ => serI32_inj

theorem serI64_determines : Determines (fun _ => True) serI64 id :=
  .of_length 8 (fun _ _ => length_leBytes _ _) fun _ _ _ _ => serI64_inj

theorem blob_determines (n : Nat) : Determines (fun _ => True) (Blob.data : Blob n → Bytes) id :=
  .of_length n (fun a _ => a.length_data) fun _ _ _ _ => Blob.ext

/-- The number of bytes after the first byte of a compact size. -/
def compactWidth (b : Nat) : Nat :=
  if b < 253 then 0 else if b = 253 then 2 else if b = 254 then 4 else 8

/-- A compact size is its first byte and then the value in as many bytes as that byte says. A
value below 253 is the first byte itself. -/
theorem writeCompactSize_eq {n : Nat} (hn : n < 2 ^ 64) :
    ∃ b : UInt8, writeCompactSize n = b :: leBytes (compactWidth b.toNat) n ∧
      (b.toNat < 253 → n = b.toNat) ∧ (253 ≤ b.toNat → n < 256 ^ compactWidth b.toNat) := by
  unfold writeCompactSize
  split
  · rename_i h
    have hb : (ofNat n).toNat = n := by
      rw [toNat_ofNat']
      exact mod_eq_of_lt (by omega)
    refine ⟨ofNat n, ?_, fun _ => hb.symm, fun hge => by omega⟩
    rw [hb, compactWidth, if_pos h]
    rfl
  · split
    · exact ⟨253, rfl, nofun, fun _ => by simp [compactWidth]; omega⟩
    · split
      · exact ⟨254, rfl, nofun, fun _ => by simp [compactWidth]; omega⟩
      · exact ⟨255, rfl, nofun, fun _ => by simp [compactWidth]; omega⟩

/-- A compact size marks its own end. -/
theorem writeCompactSize_determines : Determines (· < 2 ^ 64) writeCompactSize id := by
  intro n m hn hm r s he
  obtain ⟨b, hb, hsmall, hwide⟩ := writeCompactSize_eq hn
  obtain ⟨b', hb', hsmall', hwide'⟩ := writeCompactSize_eq hm
  rw [hb, hb', cons_append, cons_append, List.cons.injEq] at he
  obtain ⟨rfl, he⟩ := he
  obtain ⟨hvalue, hrs⟩ := append_inj he (by simp)
  refine ⟨?_, hrs⟩
  by_cases hlt : b.toNat < 253
  · exact (hsmall hlt).trans (hsmall' hlt).symm
  · exact leBytes_inj (hwide (not_lt.mp hlt)) (hwide' (not_lt.mp hlt)) hvalue

theorem serBytes_determines : Determines (fun bs : Bytes => bs.length < 2 ^ 64) serBytes id := by
  intro a b ha hb r s he
  simp only [serBytes, append_assoc] at he
  obtain ⟨hlen, hrest⟩ := writeCompactSize_determines _ _ ha hb _ _ he
  exact append_inj hrest hlen

/-! ### Transactions -/

/-- The counts of a transaction fit in 64 bits. -/
structure Transaction.Sized (tx : Transaction) : Prop where
  vin : tx.vin.length < 2 ^ 64 ∧ ∀ i ∈ tx.vin, i.scriptSig.length < 2 ^ 64
  vout : tx.vout.length < 2 ^ 64 ∧ ∀ o ∈ tx.vout, o.scriptPubKey.length < 2 ^ 64

/-- The input without its witness. -/
def TxIn.stripped (i : TxIn) : TxIn :=
  { i with scriptWitness := [] }

/-- The transaction without its witnesses. -/
def Transaction.stripped (tx : Transaction) : Transaction :=
  { tx with vin := tx.vin.map TxIn.stripped }

theorem TxIn.serialize_determines :
    Determines (fun i : TxIn => i.scriptSig.length < 2 ^ 64) serialize stripped := by
  have hout : Determines (fun _ => True) OutPoint.serialize id := by
    refine (((blob_determines 32).comp OutPoint.hash).append (serU32_determines.comp
      OutPoint.n)).map fun a b h => ?_
    obtain ⟨h1, h2⟩ := Prod.mk.inj h
    cases a
    cases b
    exact congrArg₂ OutPoint.mk h1 h2
  refine (((hout.comp prevout).mono fun _ _ => trivial).append
    ((serBytes_determines.comp scriptSig).append
      ((serU32_determines.comp nSequence).mono fun _ _ => trivial))).map fun a b h => ?_
  obtain ⟨h1, h2⟩ := Prod.mk.inj h
  obtain ⟨h2, h3⟩ := Prod.mk.inj h2
  simp only [id] at h1 h2 h3
  simp only [stripped, h1, h2, h3]

theorem TxOut.serialize_determines :
    Determines (fun o : TxOut => o.scriptPubKey.length < 2 ^ 64) TxOut.serialize id := by
  refine (((serI64_determines.comp TxOut.nValue).mono fun _ _ => trivial).append
    (serBytes_determines.comp TxOut.scriptPubKey)).map fun a b h => ?_
  obtain ⟨h1, h2⟩ := Prod.mk.inj h
  cases a
  cases b
  exact congrArg₂ TxOut.mk h1 h2

theorem Transaction.serializeNoWitness_determines :
    Determines Transaction.Sized serializeNoWitness stripped := by
  refine (((serI32_determines.comp nVersion).mono fun _ _ => trivial).append
    ((((writeCompactSize_determines.counted serialize_determines).comp
        vin).mono fun _ h => h.vin).append
      ((((writeCompactSize_determines.counted TxOut.serialize_determines).comp
          vout).mono fun _ h => h.vout).append
        ((serU32_determines.comp nLockTime).mono fun _ _ => trivial)))).map
    fun a b h => ?_
  obtain ⟨h1, h2⟩ := Prod.mk.inj h
  obtain ⟨h2, h3⟩ := Prod.mk.inj h2
  obtain ⟨h3, h4⟩ := Prod.mk.inj h3
  simp only [id, map_id] at h1 h2 h3 h4
  simp only [stripped, h1, h2, h3, h4]

/-- Two transactions with one serialization differ only in their witnesses. -/
theorem serializeNoWitness_inj {tx tx' : Transaction} (hs : tx.Sized) (hs' : tx'.Sized)
    (h : tx.serializeNoWitness = tx'.serializeNoWitness) : tx.stripped = tx'.stripped :=
  serializeNoWitness_determines.eq hs hs' h

/-! ### Lengths -/

theorem le_length_serBytes (bs : Bytes) : bs.length ≤ (serBytes bs).length := by
  rw [serBytes, length_append]
  exact le_add_left _ _

/-- An element of a vector is no longer than the vector. -/
theorem length_le_serVector {α : Type} (ser : α → Bytes) {xs : List α} {x : α} (hx : x ∈ xs) :
    (ser x).length ≤ (serVector ser xs).length := by
  have hsub : List.Sublist (ser x) (xs.map ser).flatten :=
    sublist_flatten_of_mem (mem_map_of_mem hx)
  rw [serVector, length_append]
  exact le_trans hsub.length_le (le_add_left _ _)

/-- A vector has at least a byte for each element. -/
theorem length_le_serVector_of_pos {α : Type} (ser : α → Bytes) (hpos : ∀ x, 0 < (ser x).length)
    (xs : List α) : xs.length ≤ (serVector ser xs).length := by
  have hflat : xs.length ≤ (xs.map ser).flatten.length := by
    induction xs with
    | nil => simp
    | cons x xs ih =>
      have := hpos x
      simp only [map_cons, flatten_cons, length_append, length_cons]
      omega
  rw [serVector, length_append]
  exact le_trans hflat (le_add_left _ _)

theorem TxIn.le_length_serialize (i : TxIn) : i.scriptSig.length < i.serialize.length := by
  have := le_length_serBytes i.scriptSig
  simp only [serialize, OutPoint.serialize, serU32, length_append, length_leBytes,
    Blob.length_data]
  omega

theorem TxOut.le_length_serialize (o : TxOut) : o.scriptPubKey.length < o.serialize.length := by
  have := le_length_serBytes o.scriptPubKey
  simp only [TxOut.serialize, serI64, length_append, length_leBytes]
  omega

/-- An output script is shorter than the transaction. -/
theorem Transaction.length_scriptPubKey_lt {tx : Transaction} {o : TxOut} (ho : o ∈ tx.vout) :
    o.scriptPubKey.length < tx.serializeNoWitness.length := by
  have h1 := o.le_length_serialize
  have h2 := length_le_serVector TxOut.serialize ho
  simp only [serializeNoWitness, length_append]
  omega

/-- A transaction of less than `2 ^ 64` bytes has counts below that. -/
theorem Transaction.sized_of_length {tx : Transaction}
    (h : tx.serializeNoWitness.length < 2 ^ 64) : tx.Sized := by
  have hvin := length_le_serVector_of_pos serialize
    (fun i => zero_lt_of_lt i.le_length_serialize) tx.vin
  have hvout := length_le_serVector_of_pos TxOut.serialize
    (fun o => zero_lt_of_lt o.le_length_serialize) tx.vout
  have hlen := h
  simp only [serializeNoWitness, length_append] at hlen
  refine ⟨⟨by omega, fun i hi => ?_⟩, ⟨by omega, fun o ho => ?_⟩⟩
  · have h1 := i.le_length_serialize
    have h2 := length_le_serVector serialize hi
    omega
  · exact lt_trans (length_scriptPubKey_lt ho) h

end AssentianPQE
