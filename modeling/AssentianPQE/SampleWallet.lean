import AssentianPQE.Proofs.WalletRecord

/-!
# `AssentianPQE.SampleWallet`: a wallet that can be evaluated

The signing scheme of `SampleKeys` with an encryption that puts the key before the text, and
environments in which nothing fails.
-/

set_option autoImplicit false

namespace AssentianPQE

open Lib List

/-- Encryption that only tests the key. -/
def sampleCrypter : Crypter where
  encryptSecret key text _ := some (key ++ text)
  decryptSecret key ciphertext _ :=
    if ciphertext.take key.length = key then some (ciphertext.drop key.length) else none

theorem crypterSpec_sampleCrypter : CrypterSpec sampleCrypter := by
  intro key text iv ciphertext h
  obtain rfl : key ++ text = ciphertext := Option.some.inj h
  show (if (key ++ text).take key.length = key then some ((key ++ text).drop key.length)
    else none) = some text
  rw [take_left, drop_left, if_pos rfl]

theorem keypairLoads_sampleKeys : KeypairLoads sampleKeys := by
  have hoid : sampleOid.length = 4 := rfl
  have hlength : ∀ seed pk sk, sampleKeys.keypair seed = some (pk, sk) → sk.length = 136 := by
    intro seed pk sk h
    obtain ⟨hlen, rfl⟩ := sampleKeys_keypair h
    simp only [length_append, length_beBytes, length_take, length_drop, hlen, hoid]
    decide
  constructor
  · intro seed pk sk h
    rw [hlength seed pk sk h]
    decide
  · intro seed pk sk h
    have hlen := hlength seed pk sk h
    obtain ⟨-, rfl⟩ := sampleKeys_keypair h
    -- The OID is that of a known parameter set.
    have hparse : xmssParseOid (readBE sampleOid) = some 32 := by decide
    unfold loadKey
    rw [hlen, take_left' hoid, hparse]
    rfl

/-- A wallet whose primitives can be evaluated. -/
def sampleWallet : WalletPrims :=
  ⟨sampleCrypto, sampleKeys, sampleCrypter⟩

/-- Environments in which nothing fails. -/
def samplePersist : PersistEnv :=
  { iv := Blob.ofNat 32 9 }

@[inherit_doc samplePersist]
def sampleLoad : LoadEnv :=
  { io := fun _ => sampleIo }

@[inherit_doc samplePersist]
def sampleKeyEnv (seed : Bytes) : KeyEnv :=
  ⟨seed, sampleIo, samplePersist⟩

@[inherit_doc samplePersist]
def sampleEncrypt : CWallet.EncryptEnv where
  masterKey := [1, 2, 3]
  persist := samplePersist
  load := sampleLoad

/-- A call for the sample key. -/
def sampleCall : SignerCall :=
  ⟨sampleIo, sampleIo, Blob.ofNat 32 5, samplePubkey⟩

/-- A wallet is created, with a key from these random bytes. -/
def createOp (seed : Bytes) : WalletOp :=
  .create sampleLoad (sampleKeyEnv seed) 100

end AssentianPQE
