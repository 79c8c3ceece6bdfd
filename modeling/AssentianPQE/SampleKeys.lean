import AssentianPQE.Xmss.Ledger
import AssentianPQE.Sample

/-!
# `AssentianPQE.SampleKeys`: a signing scheme that can be evaluated

Key generation and signing that match the verification of `sampleCrypto`: a signature has the
index of its leaf and then the message it is for. A key is made of 96 random bytes, of which the
first 32 are its root and the last 32 its public seed.
-/

set_option autoImplicit false

namespace AssentianPQE

open Lib List

/-- The OID of the parameter set. -/
def sampleOid : Bytes := [0, 0, 0, 1]

/-- A signed message. -/
def sampleSm (index : Nat) (msg : Bytes) : Bytes :=
  beBytes 4 index ++ (msg.take 32 ++ (List.replicate (2496 - (msg.take 32).length) 0 ++ msg))

/-- Signing as long as there is a leaf. -/
def sampleKeys : XmssKeys where
  keypair seed :=
    if seed.length = 96 then
      some (sampleOid ++ (seed.take 32 ++ seed.drop 64),
        sampleOid ++ (beBytes 4 0 ++ (seed.take 64 ++ (seed.take 32 ++ seed.drop 64))))
    else none
  sign sk msg :=
    if 8 ≤ sk.length ∧ skIndex sk < 1023 then
      some (sampleSm (skIndex sk) msg, sk.take 4 ++ (beBytes 4 (skIndex sk + 1) ++ sk.drop 8))
    else none

theorem sampleKeys_keypair {seed pk sk : Bytes} (h : sampleKeys.keypair seed = some (pk, sk)) :
    seed.length = 96 ∧
      sk = sampleOid ++ (beBytes 4 0 ++ (seed.take 64 ++ (seed.take 32 ++ seed.drop 64))) := by
  have h' : (if seed.length = 96 then
      some (sampleOid ++ (seed.take 32 ++ seed.drop 64),
        sampleOid ++ (beBytes 4 0 ++ (seed.take 64 ++ (seed.take 32 ++ seed.drop 64))))
    else none) = some (pk, sk) := h
  split at h'
  next hlen =>
    cases h'
    exact ⟨hlen, rfl⟩
  next => cases h'

theorem sampleKeys_sign {sk msg sm sk' : Bytes} (h : sampleKeys.sign sk msg = some (sm, sk')) :
    8 ≤ sk.length ∧ skIndex sk < 1023 ∧ sm = sampleSm (skIndex sk) msg ∧
      sk' = sk.take 4 ++ (beBytes 4 (skIndex sk + 1) ++ sk.drop 8) := by
  have h' : (if 8 ≤ sk.length ∧ skIndex sk < 1023 then
      some (sampleSm (skIndex sk) msg, sk.take 4 ++ (beBytes 4 (skIndex sk + 1) ++ sk.drop 8))
    else none) = some (sm, sk') := h
  split at h'
  · rename_i hc
    simp only [Option.some.injEq, Prod.mk.injEq] at h'
    exact ⟨hc.1, hc.2, h'.1.symm, h'.2.symm⟩
  · cases h'

theorem signSpec_sampleKeys : SignSpec sampleKeys := by
  constructor
  · intro sk msg sm sk' h
    obtain ⟨-, hlt, rfl, -⟩ := sampleKeys_sign h
    constructor
    · have hsig : XMSS_SIG_BYTES = 2500 := rfl
      have hle : (msg.take 32).length ≤ 32 := length_take_le 32 msg
      simp only [sampleSm, length_append, length_beBytes, length_replicate]
      omega
    · have htake : (sampleSm (skIndex sk) msg).take 4 = beBytes 4 (skIndex sk) :=
        take_left' (length_beBytes 4 _)
      rw [leafIndexOf, htake, readBE_beBytes]
      omega
  · intro sk msg sm sk' h
    obtain ⟨hlen, hlt, -, rfl⟩ := sampleKeys_sign h
    have hfour : (sk.take 4).length = 4 := by
      rw [length_take]
      omega
    constructor
    · simp only [length_append, length_beBytes, length_drop, hfour]
      omega
    · rw [skIndex, drop_left' hfour, take_left' (length_beBytes 4 _), readBE_beBytes]
      omega

/-- The random bytes of a sample key. -/
def sampleSeed : Bytes :=
  List.replicate 96 7

/-- The public and the secret key. -/
def samplePubkey : Bytes :=
  List.replicate 64 7

@[inherit_doc samplePubkey]
def sampleSk : Bytes :=
  sampleOid ++ (beBytes 4 0 ++ List.replicate 128 7)

/-- The root of the sample key. -/
def sampleRoot : Uint256 :=
  ⟨List.replicate 32 7, by simp⟩

/-- The state of a new tree for the sample key. -/
def sampleState : XMSSMinerState where
  xmssRoot := sampleRoot
  skLen := 136
  sk := sampleSk

/-- An environment in which nothing fails. -/
def sampleIo : Io where
  freshId := ⟨List.replicate 16 1, by simp [OWNER_STAMP_BYTES]⟩

/-- A directory with the ledger of the sample key. -/
def sampleLedger : LedgerDir :=
  ((xmssTreeLedgerInit sampleIo sampleState).run LedgerDir.empty 100).1

end AssentianPQE
