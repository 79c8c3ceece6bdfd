import AssentianPQE.Sample
import AssentianPQE.Validation.Node

/-!
# `AssentianPQE.SampleSpend`: a block that spends an XMSS output

A signature of the sample scheme for one input, the script that pushes it in chunks as
`SignStep` does, and a block of height 1 with one such spend.
-/

set_option autoImplicit false

namespace AssentianPQE

open Lib

/-- The P2XMSS script of a key. -/
def xmssScript (pk : Blob 64) : Script :=
  pushBytes pk.data ++ [OP_XMSS_CHECKSIG]

/-- The P2SH script of a redeem script. -/
def scriptHashScript (redeemScript : Script) : Script :=
  [OP_HASH160, 20] ++ ((sampleCrypto.hash160 redeemScript).data ++ [OP_EQUAL])

/-- The outpoint that the sample transaction spends. -/
def samplePrevout : OutPoint := ⟨Blob.ofNat 32 7, 0⟩

/-- A transaction with one input, before it is signed. -/
def unsignedSpend : Transaction where
  nVersion := 2
  vin := [{ prevout := samplePrevout, scriptSig := [], nSequence := TxIn.sequenceFinal }]
  vout := [⟨900, [OP_1]⟩]
  nLockTime := 0

/-- The input context of a transaction with one input. -/
def spendContext (tx : Transaction) (out : TxOut) : TxContext where
  tx := tx
  nIn := 0
  input := tx.vin.headD { prevout := samplePrevout, scriptSig := [], nSequence := 0 }
  amount := out.nValue
  spentOutputs := [out]
  xmssChainId := sampleParams.nXMSSChainId

/-- A signature with a leaf on the sample transaction, for a script code. -/
def sampleSignature (leaf : Nat) (out : TxOut) (scriptCode : Script) : Bytes :=
  let index := beBytes 4 leaf
  let digest := xmssSighash sampleCrypto (spendContext unsignedSpend out) index scriptCode .base
  index ++ (digest.data ++ List.replicate 2464 0)

/-- The pushes of a 2500-byte signature in chunks of 500 bytes. -/
def chunkPushes (sig : Bytes) : Script :=
  (List.range 5).flatMap fun i => pushBytes ((sig.drop (500 * i)).take 500)

/-- The sample transaction, signed with a leaf: `rest` is pushed after the signature. -/
def sampleSpend (leaf : Nat) (out : TxOut) (scriptCode rest : Script) : Transaction :=
  { unsignedSpend with
    vin := [{ prevout := samplePrevout
              scriptSig := chunkPushes (sampleSignature leaf out scriptCode) ++ rest
              nSequence := TxIn.sequenceFinal }] }

/-- A view with one coin. -/
def sampleView (out : TxOut) : CoinsView :=
  fun o => if o = samplePrevout then some ⟨out, 1, false⟩ else none

/-- A block of height 1 with one transaction besides its coinbase. -/
def spendBlock (tx : Transaction) : Block :=
  let base : Block :=
    { sampleGenesis with
      hashPrevBlock := sampleGenesis.getHash sampleCrypto
      nTime := 60
      vtx := [sampleCoinbase 1 [⟨0, [OP_1]⟩], tx] }
  { base with hashMerkleRoot := (blockMerkleRoot sampleCrypto base).1 }

/-- A node at genesis that has received such a block, with one coin and some tables. -/
def spendNode (out : TxOut) (block : Block) (db : LeafDB) : Node where
  index := fun h =>
    if h = block.getHash sampleCrypto then
      some { chain := [block.header, sampleGenesis], data := some block }
    else none
  chain := [sampleGenesisBlock]
  view := sampleView out
  db := db

/-- An output of the key that repeats the byte 3. -/
def leafSpendOut : TxOut := ⟨1000, xmssScript (sampleKey 3)⟩

/-- A block that spends it with leaf 5. -/
def leafSpendBlock : Block :=
  spendBlock (sampleSpend 5 leafSpendOut leafSpendOut.scriptPubKey [])

end AssentianPQE
