import AssentianPQE.Lib.Bytes

/-!
# `AssentianPQE.Primitives`: transactions, blocks and their serialization

The data types of `primitives/transaction.h` and `primitives/block.h`, the byte layouts
that `SERIALIZE_METHODS` and `SerializeTransaction` give them, and the hashes of those
layouts.

The hash functions and the signature schemes are a parameter, `Crypto`. Nothing here
computes a real digest; a statement that needs a digest to be collision free says so about
the strings it hashes.

The memory-only flags of `CBlock` (`fChecked`, `m_checked_merkle_root`,
`m_checked_witness_commitment`) are left out: each one only remembers that a check of the
same block has already succeeded.
-/

set_option autoImplicit false

namespace AssentianPQE

open Lib

/-- `uint256`: 32 bytes, read as a number with the least significant byte first. -/
abbrev Uint256 := Blob 32

instance : LawfulBEq Uint256 := inferInstance

/-- `uint160`: 20 bytes. -/
abbrev Uint160 := Blob 20

/-- The null hash. -/
abbrev nullHash : Uint256 := Blob.zero 32

/-- A script: the raw bytes of a `CScript`. -/
abbrev Script := Bytes

/-- The cryptographic primitives the node calls. -/
structure Crypto where
  sha256 : Bytes → Uint256
  sha1 : Bytes → Uint160
  ripemd160 : Bytes → Uint160
  /-- The root test of `xmss_sign_open` for OID 1: the root computed from a 2500-byte
  signature and a message is the root of the 64-byte key. -/
  xmssRootMatches : Bytes → Bytes → Bytes → Bool
  /-- `ComputeRootFromSeed`: the tree root of a 96-byte seed. -/
  computeRootFromSeed : Bytes → Option Uint256
  /-- `CPubKey::Verify` on a key, a signature without its hash type byte and a hash. -/
  ecdsaVerify : Bytes → Bytes → Uint256 → Bool
  /-- `CPubKey::CheckLowS`. -/
  ecdsaCheckLowS : Bytes → Bool
  /-- `XOnlyPubKey::VerifySchnorr` on a 32-byte key, a 64-byte signature and a hash. -/
  schnorrVerify : Bytes → Bytes → Uint256 → Bool
  /-- `XOnlyPubKey::CheckTapTweak` on the output key, the internal key, the Merkle root and
  the parity bit. -/
  checkTapTweak : Bytes → Bytes → Uint256 → Bool → Bool

namespace Crypto

/-- `Hash`, `HashWriter::GetHash`: SHA256 applied twice. -/
def hash256 (c : Crypto) (bs : Bytes) : Uint256 :=
  c.sha256 (c.sha256 bs).data

/-- `Hash160`: RIPEMD160 of SHA256. -/
def hash160 (c : Crypto) (bs : Bytes) : Uint160 :=
  c.ripemd160 (c.sha256 bs).data

end Crypto

/-! ### Serialization -/

/-- `ser_writedata32` of an unsigned field. -/
def serU32 (x : UInt32) : Bytes :=
  leBytes 4 x.toNat

/-- `ser_writedata32` of a signed field. -/
def serI32 (x : Int32) : Bytes :=
  leBytes 4 x.toBitVec.toNat

/-- `ser_writedata64` of a signed field. -/
def serI64 (x : Int64) : Bytes :=
  leBytes 8 x.toBitVec.toNat

/-- `WriteCompactSize`. -/
def writeCompactSize (n : Nat) : Bytes :=
  if n < 253 then [UInt8.ofNat n]
  else if n ≤ 0xffff then 253 :: leBytes 2 n
  else if n ≤ 0xffffffff then 254 :: leBytes 4 n
  else 255 :: leBytes 8 n

/-- A byte vector or script: its length, then its bytes. -/
def serBytes (bs : Bytes) : Bytes :=
  writeCompactSize bs.length ++ bs

/-- A vector: its length, then its elements. -/
def serVector {α : Type} (ser : α → Bytes) (xs : List α) : Bytes :=
  writeCompactSize xs.length ++ (xs.map ser).flatten

/-! ### Transactions -/

/-- `COutPoint`: an output of a transaction. -/
structure OutPoint where
  hash : Uint256
  n : UInt32
deriving DecidableEq

/-- `CTxIn`. The witness stack is kept with the input, as in the source. -/
structure TxIn where
  prevout : OutPoint
  scriptSig : Script
  nSequence : UInt32
  scriptWitness : List Bytes := []
deriving DecidableEq

/-- `CTxOut`. `CAmount` is a signed 64-bit integer. -/
structure TxOut where
  nValue : Int64
  scriptPubKey : Script
deriving DecidableEq

/-- `CTransaction`. -/
structure Transaction where
  nVersion : Int32
  vin : List TxIn
  vout : List TxOut
  nLockTime : UInt32
deriving DecidableEq

namespace OutPoint

/-- `COutPoint::NULL_INDEX`. -/
def nullIndex : UInt32 := 0xffffffff

/-- The null outpoint, the previous output of a coinbase input. -/
def null : OutPoint := ⟨nullHash, nullIndex⟩

/-- `COutPoint::IsNull`. -/
def isNull (o : OutPoint) : Bool :=
  o.hash = nullHash ∧ o.n = nullIndex

def serialize (o : OutPoint) : Bytes :=
  o.hash.data ++ serU32 o.n

end OutPoint

namespace TxIn

/-- `CTxIn::SEQUENCE_FINAL`. -/
def sequenceFinal : UInt32 := 0xffffffff

def serialize (i : TxIn) : Bytes :=
  i.prevout.serialize ++ (serBytes i.scriptSig ++ serU32 i.nSequence)

end TxIn

namespace TxOut

def serialize (o : TxOut) : Bytes :=
  serI64 o.nValue ++ serBytes o.scriptPubKey

end TxOut

namespace Transaction

/-- `CTransaction::IsCoinBase`. -/
def isCoinBase (tx : Transaction) : Bool :=
  match tx.vin with
  | [i] => i.prevout.isNull
  | _ => false

/-- `CTransaction::HasWitness`. -/
def hasWitness (tx : Transaction) : Bool :=
  tx.vin.any fun i => !i.scriptWitness.isEmpty

/-- `SerializeTransaction` with `TX_NO_WITNESS`. -/
def serializeNoWitness (tx : Transaction) : Bytes :=
  serI32 tx.nVersion ++ (serVector TxIn.serialize tx.vin ++
    (serVector TxOut.serialize tx.vout ++ serU32 tx.nLockTime))

/-- `SerializeTransaction` with `TX_WITH_WITNESS`: the extended format when some input has
a witness. -/
def serializeWithWitness (tx : Transaction) : Bytes :=
  if tx.hasWitness then
    serI32 tx.nVersion ++ ([0, 1] ++ (serVector TxIn.serialize tx.vin ++
      (serVector TxOut.serialize tx.vout ++
        ((tx.vin.map fun i => serVector serBytes i.scriptWitness).flatten ++
          serU32 tx.nLockTime))))
  else tx.serializeNoWitness

/-- `CTransaction::GetHash`. -/
def getHash (c : Crypto) (tx : Transaction) : Uint256 :=
  c.hash256 tx.serializeNoWitness

/-- `CTransaction::GetWitnessHash`. -/
def getWitnessHash (c : Crypto) (tx : Transaction) : Uint256 :=
  if tx.hasWitness then c.hash256 tx.serializeWithWitness else tx.getHash c

end Transaction

/-! ### Blocks -/

/-- `CBlockHeader`, in the order of its serialization. -/
@[ext]
structure BlockHeader where
  nVersion : Int32
  hashPrevBlock : Uint256
  hashMerkleRoot : Uint256
  nTime : UInt32
  nBits : UInt32
  nNonce : UInt32
  xmssRoot : Uint256
  nLeafIndex : UInt32
  commitmentsRoot : Uint256
deriving DecidableEq

namespace BlockHeader

def serialize (h : BlockHeader) : Bytes :=
  serI32 h.nVersion ++ (h.hashPrevBlock.data ++ (h.hashMerkleRoot.data ++ (serU32 h.nTime ++
    (serU32 h.nBits ++ (serU32 h.nNonce ++ (h.xmssRoot.data ++ (serU32 h.nLeafIndex ++
      h.commitmentsRoot.data)))))))

/-- `CBlockHeader::GetHash`. -/
def getHash (c : Crypto) (h : BlockHeader) : Uint256 :=
  c.hash256 h.serialize

end BlockHeader

/-- `CBlock`: a header and its transactions. -/
structure Block extends BlockHeader where
  vtx : List Transaction
deriving DecidableEq

namespace Block

/-- `CBlock::GetBlockHeader`. -/
abbrev header (b : Block) : BlockHeader :=
  b.toBlockHeader

/-- The block hash is the hash of the header. -/
def getHash (c : Crypto) (b : Block) : Uint256 :=
  b.header.getHash c

/-- The block without witness data. -/
def serializeNoWitness (b : Block) : Bytes :=
  b.header.serialize ++ serVector Transaction.serializeNoWitness b.vtx

/-- The block with witness data. -/
def serializeWithWitness (b : Block) : Bytes :=
  b.header.serialize ++ serVector Transaction.serializeWithWitness b.vtx

end Block

end AssentianPQE
