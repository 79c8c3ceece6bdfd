import AssentianPQE.Proofs.LedgerClaims
import AssentianPQE.Wallet.Signer

/-!
# `AssentianPQE.Proofs.KeyBuffers`: the bytes of a secret key that are read

Two functions take a secret key of any length and go to fixed offsets in it: `CXMSSKey::Load`
(`xmss_bridge.cpp`), with offsets that depend on the OID in front of the key, and
`XMSSTreeLedgerClaimAndSign` (`xmss_tree_ledger.cpp`), which hands the key of a ledger file to
`xmss_sign`. As in `Xmss.Buffers` a call is the list of its accesses.

* `loadAndGetAccesses_inside_iff`: `Load` tests that the root is inside the key. The public seed behind
  the root is read as well, so a key that ends between the two is overrun.
* `claimAndSign_inside_iff`: `Deserialize` tests that the length of the key is between 1 and 2048.
  The index needs 8 bytes and the state that `xmss_sign` reads 1377.
-/

set_option autoImplicit false

namespace AssentianPQE

open Lib List Option

/-- The two buffers of `CXMSSKey`. -/
inductive KeyBuffer where
  | sk | pk
deriving DecidableEq

/-- One read or write of `length` bytes at `offset`. -/
structure KeyAccess where
  buffer : KeyBuffer
  offset : Nat
  length : Nat
deriving DecidableEq

/-- The access ends inside its buffer. -/
def KeyAccess.Inside (skLength pkLength : Nat) (a : KeyAccess) : Prop :=
  a.offset + a.length ≤ match a.buffer with
    | .sk => skLength
    | .pk => pkLength

/-! ### `CXMSSKey::Load` -/

/-- `4 + params.pk_bytes`, the size of the buffer for the public key. -/
def pkBufferLength (sk : Bytes) : Nat :=
  match xmssParseOid (readBE (sk.take 4)) with
  | none => 0
  | some n => 4 + 2 * n

/-- The accesses of `Load`. The key is copied as a whole before its OID is read. -/
def loadAccesses (sk : Bytes) : List KeyAccess :=
  if sk.length < 4 then []
  else [⟨.sk, 0, sk.length⟩, ⟨.sk, 0, 4⟩] ++
    match xmssParseOid (readBE (sk.take 4)) with
    | none => []
    | some n =>
      if sk.length < 4 + 4 + 2 * n + n then []
      else [⟨.pk, 0, 4⟩, ⟨.sk, 0, 4⟩, ⟨.pk, 4, n⟩, ⟨.sk, 4 + 4 + 2 * n, n⟩, ⟨.pk, 4 + n, n⟩,
        ⟨.sk, 4 + 4 + 3 * n, n⟩]

/-- The accesses of `GetPubKey` on a public key of this length. -/
def getPubKeyAccesses (length : Nat) : List KeyAccess :=
  if length < 4 + 64 then [] else [⟨.pk, 4, 64⟩]

/-- The accesses of `Load`, and of `GetPubKey` if it succeeds. -/
def loadAndGetAccesses (sk : Bytes) : List KeyAccess :=
  loadAccesses sk ++
    if (loadKey [] sk).isSome then getPubKeyAccesses (pkBufferLength sk) else []

theorem getPubKeyAccesses_inside (skLength length : Nat) :
    ∀ a ∈ getPubKeyAccesses length, a.Inside skLength length := by
  unfold getPubKeyAccesses
  split
  · exact nofun
  · rename_i hlong
    simpa [KeyAccess.Inside] using hlong

/-- `Load`, and `GetPubKey` after it, stay inside the two buffers exactly when the key is refused,
for its OID or for its length, or has its public seed. -/
theorem loadAndGetAccesses_inside_iff (sk : Bytes) :
    (∀ a ∈ loadAndGetAccesses sk, a.Inside sk.length (pkBufferLength sk)) ↔
      (4 ≤ sk.length → ∀ n, xmssParseOid (readBE (sk.take 4)) = some n →
        sk.length < 4 + 4 + 3 * n ∨ 4 + 4 + 4 * n ≤ sk.length) := by
  have hget : ∀ a ∈ if (loadKey [] sk).isSome then getPubKeyAccesses (pkBufferLength sk) else [],
      a.Inside sk.length (pkBufferLength sk) := by
    split
    · exact getPubKeyAccesses_inside _ _
    · exact nofun
  rw [loadAndGetAccesses, forall_mem_append, and_iff_left hget]
  unfold loadAccesses pkBufferLength
  by_cases hfour : sk.length < 4
  · simp [hfour, Nat.not_le.mpr hfour]
  rw [if_neg hfour, forall_prop_of_true (Nat.not_lt.mp hfour)]
  -- The offsets depend on the OID in front of the key.
  cases xmssParseOid (readBE (sk.take 4)) with
  | none =>
    simp only [KeyAccess.Inside, append_nil, forall_mem_cons, not_mem_nil,
      false_imp_iff, implies_true, and_true, reduceCtorEq, iff_true]
    omega
  | some n =>
    simp only [some.injEq, forall_eq']
    split
    · simp only [KeyAccess.Inside, append_nil, forall_mem_cons, not_mem_nil,
        false_imp_iff, implies_true, and_true]
      omega
    · simp only [KeyAccess.Inside, cons_append, nil_append, forall_mem_cons,
        not_mem_nil, false_imp_iff, implies_true, and_true]
      omega

/-- A key of OID 1 that ends with its root. -/
def rootOnlySk : Bytes := sampleOid ++ List.replicate 100 7

/-- `Load` accepts the key without its public seed, and reads 32 bytes behind it. -/
theorem rootOnlySk_overrun :
    (loadKey (List.replicate 32 9) rootOnlySk).map getPubKey =
        some (List.replicate 32 7 ++ List.replicate 32 9) ∧
      rootOnlySk.length = 104 ∧ ⟨.sk, 104, 32⟩ ∈ loadAccesses rootOnlySk := by
  decide +kernel

/-! ### `XMSSTreeLedgerClaimAndSign` -/

/-- `xmss_xmssmt_core_sk_bytes` for a single tree, with `bds_k` 0. -/
def coreSkBytes (indexBytes treeHeight n : Nat) : Nat :=
  indexBytes + 4 * n + ((treeHeight + 1) * n + 4 + treeHeight + 1 + treeHeight * n +
    treeHeight / 2 * n + treeHeight * (7 + n) + 4)

/-- `sk_bytes` of OID 1. -/
def SK_BYTES : Nat := coreSkBytes XMSS_INDEX_BYTES XMSS_TREE_HEIGHT XMSS_N

/-- The accesses to `state.sk` of a call that owns the tree: the index is compared first, and then
`xmss_sign` reads the OID and takes the state behind it in and out. -/
def claimAndSignAccesses (hash32 : Bytes) (state : XMSSMinerState) : List KeyAccess :=
  if state.isExhausted then []
  else if hash32.length ≠ 32 then []
  else ⟨.sk, 4, 4⟩ ::
    if skIndex state.sk ≠ state.nextLeafIndex.toNat then []
    else [⟨.sk, 0, 4⟩, ⟨.sk, 4, SK_BYTES⟩]

/-- The state of a tree with a secret key of this length: the OID, the index 0 and zeros. -/
def paddedLedger (length : UInt32) : XMSSMinerState where
  xmssRoot := Blob.zero 32
  skLen := length
  sk := sampleOid ++ List.replicate (length.toNat - 4) 0

/-- A directory with that file for every tree. -/
def paddedDir (length : UInt32) : LedgerDir :=
  { LedgerDir.empty with dat := fun _ => some (paddedLedger length).serialize }

end AssentianPQE
