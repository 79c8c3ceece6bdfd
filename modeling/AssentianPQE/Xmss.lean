import AssentianPQE.Primitives

/-!
# `AssentianPQE.Xmss`: XMSS verification and leaf keys

What the node asks of the vendored XMSS code, for the one parameter set it uses
(XMSS-SHA2_10_256, OID 1): `xmss_sign_open` on a signed message, the bridge
`CXMSSKey::Verify` (`xmss_bridge.cpp`) and the key under which a leaf is recorded
(`xmss_leaf_key.cpp`).

The hash chains and trees of the scheme are a parameter, `Crypto.xmssRootMatches`.
-/

set_option autoImplicit false

namespace AssentianPQE

open Lib List

/-! ### The parameter set -/

def XMSS_OID : Nat := 1
def XMSS_TREE_HEIGHT : Nat := 10
/-- Hash bytes. -/
def XMSS_N : Nat := 32
def XMSS_INDEX_BYTES : Nat := 4
def XMSS_PADDING_LEN : Nat := 32
def WOTS_SIG_BYTES : Nat := 2144
def AUTH_PATH_BYTES : Nat := 320
def PK_BYTES : Nat := 64
/-- Index, randomness, WOTS signature and authentication path. -/
def XMSS_SIG_BYTES : Nat :=
  XMSS_INDEX_BYTES + XMSS_N + WOTS_SIG_BYTES + AUTH_PATH_BYTES

/-! ### Verification -/

/-- `xmss_sign_open`: the message of a signed message that verifies under `pk`. What the
function does on a signed message of the wrong length is a question about its buffers; here
such a message does not verify. -/
def xmssSignOpen (c : Crypto) (sm pk : Bytes) : Option Bytes :=
  if sm.length < XMSS_SIG_BYTES then none
  else if c.xmssRootMatches pk (sm.take XMSS_SIG_BYTES) (sm.drop XMSS_SIG_BYTES) then
    some (sm.drop XMSS_SIG_BYTES)
  else none

/-- `CXMSSKey::Verify`. -/
def xmssVerify (c : Crypto) (hash sig pubkey : Bytes) : Bool :=
  !hash.isEmpty && !sig.isEmpty && decide (xmssSignOpen c (sig ++ hash) pubkey = some hash)

/-- Verification is the root test on a signature of the right length. -/
theorem xmssVerify_iff (c : Crypto) {hash sig pubkey : Bytes} (hhash : hash ≠ []) :
    xmssVerify c hash sig pubkey = true ↔
      sig.length = XMSS_SIG_BYTES ∧ c.xmssRootMatches pubkey sig hash = true := by
  have hpos : 0 < hash.length := length_pos_iff.mpr hhash
  simp only [xmssVerify, Bool.and_eq_true, Bool.not_eq_true', isEmpty_eq_false_iff,
    decide_eq_true_eq]
  unfold xmssSignOpen
  constructor
  · rintro ⟨⟨-, -⟩, h⟩
    split at h
    · cases h
    split at h
    · rename_i hlen hroot
      -- The opened message is the hash, so the signature is all that was dropped.
      have hdrop : (sig ++ hash).drop XMSS_SIG_BYTES = hash := Option.some.inj h
      have hl := congrArg List.length hdrop
      simp only [length_drop, length_append] at hl hlen
      have hsig : sig.length = XMSS_SIG_BYTES := by omega
      rw [← hsig, take_left, drop_left] at hroot
      exact ⟨hsig, hroot⟩
    · cases h
  · rintro ⟨hsig, hroot⟩
    have hne : sig ≠ [] := by
      intro he
      rw [he] at hsig
      exact absurd hsig (by decide)
    refine ⟨⟨hhash, hne⟩, ?_⟩
    rw [if_neg (by rw [length_append]; omega), ← hsig, take_left, drop_left,
      if_pos hroot]

/-! ### Leaf keys -/

/-- `MakePoUWLeafKey`: the database key of a leaf of a tree. -/
def makePoUWLeafKey (c : Crypto) (pubkey64 : Bytes) (leafIdx : Nat) : Uint256 :=
  c.hash256 (pubkey64 ++ beBytes 4 leafIdx)

/-- The leaf index that the first four bytes of a signature carry. -/
def leafIndexOf (sig : Bytes) : Nat :=
  readBE (sig.take 4)

end AssentianPQE
