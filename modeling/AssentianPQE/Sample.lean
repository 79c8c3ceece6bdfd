import AssentianPQE.PoUW.Check

/-!
# `AssentianPQE.Sample`: concrete primitives and parameters

A small instance of `Crypto` and of `Params`, on which the model can be evaluated. A digest
is a checksum, and a signature verifies for the one message that its randomness field
repeats. The proof-of-work rules are active from height 1 on.
-/

set_option autoImplicit false

namespace AssentianPQE

open Lib

/-- A polynomial checksum. -/
def checksum (bs : Bytes) : Nat :=
  bs.foldl (fun acc b => (acc * 257 + b.toNat + 1) % 2 ^ 256) 0

/-- Primitives that can be evaluated. The digest of a 32-byte string is the string, so a
double hash is a single one. -/
def sampleCrypto : Crypto where
  sha256 bs := if h : bs.length = 32 then ⟨bs, h⟩ else Blob.ofNat 32 (checksum bs)
  sha1 bs := Blob.ofNat 20 (checksum bs)
  ripemd160 bs := Blob.ofNat 20 (checksum bs)
  xmssRootMatches _ sig msg := (sig.drop 4).take 32 = msg
  computeRootFromSeed _ := none
  ecdsaVerify _ _ _ := false
  ecdsaCheckLowS _ := true
  schnorrVerify _ _ _ := false
  checkTapTweak _ _ _ _ := false

/-- Parameters with every rule on proofs active from height 1 on. -/
def sampleParams : Params where
  hashGenesisBlock := nullHash
  nSubsidyHalvingInterval := 150
  BIP34Height := 1
  BIP34Hash := nullHash
  BIP65Height := 1
  BIP66Height := 1
  CSVHeight := 1
  SegwitHeight := 0
  powLimit := Blob.ofNat 32 (2 ^ 255 - 1)
  fPowAllowMinDifficultyBlocks := true
  fPowNoRetargeting := true
  nPowTargetSpacing := 60
  fPoUW := true
  nPoUWStartHeight := 1
  nPoUWv3StartHeight := 1
  nPoUWLeafReuseActivation := 1
  nXMSSSpendLeafReuseActivation := 1
  nPoUWFSLSeedVerifyHeight := 1

/-- The compact form of the proof-of-work limit. -/
def sampleBits : UInt32 := 0x207fffff

/-- A proof with key `pk` for a block whose preimage has the digest `r`. -/
def sampleProof (pk : Blob 64) (r : Blob 32) : PoUWv2Proof where
  xmss_pk := pk
  auth_path := Blob.zero 320
  wots_sig := Blob.zero 2144
  r := r

/-- A coinbase for height `height` with these outputs. -/
def sampleCoinbase (height : UInt8) (vout : List TxOut) : Transaction where
  nVersion := 2
  vin := [{ prevout := OutPoint.null, scriptSig := [0x50 + height, 0x00],
            nSequence := TxIn.sequenceFinal }]
  vout := vout
  nLockTime := 0

/-- The output that carries a proof. -/
def proofOutput (proof : PoUWv2Proof) : TxOut where
  nValue := 0
  scriptPubKey := OP_RETURN :: pushBytes proof.serialize

theorem root_le_key (pk : Blob 64) : 0 + 32 ≤ pk.data.length := by
  rw [pk.length_data]
  omega

/-- A block as a miner builds it: the proof signs the preimage of the block without it, and
is then appended to the coinbase outputs. -/
def sampleBlock (height : UInt8) (hashPrevBlock : Uint256) (nTime nLeafIndex : UInt32)
    (pk : Blob 64) (vout : List TxOut) (txs : List Transaction) : Block :=
  let base : Block :=
    { nVersion := 4
      hashPrevBlock := hashPrevBlock
      hashMerkleRoot := nullHash
      nTime := nTime
      nBits := sampleBits
      nNonce := 0
      xmssRoot := Blob.slice 32 pk.data 0 (root_le_key pk)
      nLeafIndex := nLeafIndex
      commitmentsRoot := nullHash
      vtx := sampleCoinbase height vout :: txs }
  let r := sampleCrypto.hash256 (pouwPreimage sampleCrypto sampleParams base height.toNat)
  let full := { base with
    vtx := sampleCoinbase height (vout ++ [proofOutput (sampleProof pk r)]) :: txs }
  { full with hashMerkleRoot := (blockMerkleRoot sampleCrypto full).1 }

/-- The proof that `sampleBlock` puts into the coinbase. -/
def sampleBlockProof (block : Block) (height : UInt8) (pk : Blob 64) : PoUWv2Proof :=
  sampleProof pk (sampleCrypto.hash256 (pouwPreimage sampleCrypto sampleParams block height.toNat))

/-- A header for the genesis block. -/
def sampleGenesis : BlockHeader where
  nVersion := 4
  hashPrevBlock := nullHash
  hashMerkleRoot := nullHash
  nTime := 0
  nBits := sampleBits
  nNonce := 0
  xmssRoot := nullHash
  nLeafIndex := 0
  commitmentsRoot := nullHash

/-- A genesis block. -/
def sampleGenesisBlock : Block :=
  { sampleGenesis with vtx := [] }

/-- The parameters of a network that starts with that block. -/
def sampleNetwork : Params :=
  { sampleParams with hashGenesisBlock := sampleGenesisBlock.getHash sampleCrypto }

/-- A key, by the value of its bytes. -/
def sampleKey (b : UInt8) : Blob 64 :=
  ⟨List.replicate 64 b, by simp⟩

/-- A block of height 1 with leaf 5 of a key. -/
def firstLeafBlock : Block :=
  sampleBlock 1 (sampleGenesisBlock.getHash sampleCrypto) 60 5 (sampleKey 3) [⟨0, [OP_1]⟩] []

/-- Its child, with the same leaf. -/
def secondLeafBlock : Block :=
  sampleBlock 2 (firstLeafBlock.getHash sampleCrypto) 120 5 (sampleKey 3) [⟨0, [OP_1]⟩] []

/-- A signature of the sample scheme verifies for one message. -/
theorem sampleCrypto_one_message {pk sig m m' : Bytes}
    (h : sampleCrypto.xmssRootMatches pk sig m = true)
    (h' : sampleCrypto.xmssRootMatches pk sig m' = true) : m = m' := by
  simp only [sampleCrypto, decide_eq_true_eq] at h h'
  rw [← h, ← h']

end AssentianPQE
