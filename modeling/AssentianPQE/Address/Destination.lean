import AssentianPQE.Address.Bech32
import AssentianPQE.Networks
import AssentianPQE.Script.Solver

/-!
# `AssentianPQE.Address.Destination`: destinations, their scripts and their addresses

`CTxDestination` (`addresstype.h`) with `ExtractDestination` and `GetScriptForDestination`
(`addresstype.cpp`), and `EncodeDestination` (`key_io.cpp`) with `EncodeBase58Check`
(`base58.cpp`). Reading an address back is modelled for XMSS addresses only (`XMSSAddr.decode`).
-/

set_option autoImplicit false

namespace AssentianPQE

open Lib

/-! ### Base58 -/

/-- `pszBase58`: `123456789ABCDEFGHJKLMNPQRSTUVWXYZabcdefghijkmnopqrstuvwxyz`. -/
def pszBase58 : Bytes :=
  [0x31, 0x32, 0x33, 0x34, 0x35, 0x36, 0x37, 0x38, 0x39, 0x41, 0x42, 0x43, 0x44, 0x45, 0x46, 0x47,
    0x48, 0x4a, 0x4b, 0x4c, 0x4d, 0x4e, 0x50, 0x51, 0x52, 0x53, 0x54, 0x55, 0x56, 0x57, 0x58, 0x59,
    0x5a, 0x61, 0x62, 0x63, 0x64, 0x65, 0x66, 0x67, 0x68, 0x69, 0x6a, 0x6b, 0x6d, 0x6e, 0x6f, 0x70,
    0x71, 0x72, 0x73, 0x74, 0x75, 0x76, 0x77, 0x78, 0x79, 0x7a]

/-- `b58 = b58 * 256 + ch`, with the digits of `b58` least significant first. The loop of the
source stops early where the digits and the carry are zero. -/
def base58MulAdd : Nat → List Nat → List Nat
  | _, [] => []
  | carry, d :: b58 => (carry + 256 * d) % 58 :: base58MulAdd ((carry + 256 * d) / 58) b58

/-- `EncodeBase58`. -/
def encodeBase58 (input : Bytes) : Bytes :=
  let zeroes := (input.takeWhile (· = 0)).length
  let rest := input.drop zeroes
  let size := rest.length * 138 / 100 + 1
  let b58 := rest.foldl (fun b58 (ch : UInt8) => base58MulAdd ch.toNat b58) (List.replicate size 0)
  List.replicate zeroes 0x31 ++ (b58.reverse.dropWhile (· = 0)).map fun d => pszBase58.getD d 0

/-- `EncodeBase58Check`. -/
def encodeBase58Check (c : Crypto) (input : Bytes) : Bytes :=
  encodeBase58 (input ++ (c.hash256 input).data.take 4)

/-! ### Networks -/

/-- `Base58Prefix(PUBKEY_ADDRESS)`. -/
def ChainType.pubkeyAddress : ChainType → Bytes
  | .main => [81]
  | .testnet | .signet | .regtest => [111]

/-- `Base58Prefix(SCRIPT_ADDRESS)`. -/
def ChainType.scriptAddress : ChainType → Bytes
  | .main => [86]
  | .testnet | .signet | .regtest => [196]

/-- `Bech32HRP`: `snti`, `tsnti` and `sntirt`. -/
def ChainType.bech32HRP : ChainType → Bytes
  | .main => [0x73, 0x6e, 0x74, 0x69]
  | .testnet | .signet => [0x74, 0x73, 0x6e, 0x74, 0x69]
  | .regtest => [0x73, 0x6e, 0x74, 0x69, 0x72, 0x74]

/-! ### Destinations -/

/-- `XMSSHash`: a key or only its hash. -/
structure XMSSHash where
  m_pubkey : Blob 64 := Blob.zero 64
  m_hash : Uint160
  m_has_pubkey : Bool := false
deriving DecidableEq

namespace XMSSHash

/-- The constructor from a key. -/
def ofPubKey (c : Crypto) (pubkey : Blob 64) : XMSSHash where
  m_pubkey := pubkey
  m_hash := c.hash160 pubkey.data
  m_has_pubkey := true

/-- The constructor from a hash. -/
def ofHash (hash : Uint160) : XMSSHash where
  m_hash := hash

end XMSSHash

/-- `CTxDestination`. -/
inductive CTxDestination where
  | noDestination (script : Script)
  | pubKeyDestination (pubkey : Bytes)
  | pkHash (hash : Uint160)
  | scriptHash (hash : Uint160)
  | witnessV0ScriptHash (hash : Uint256)
  | witnessV0KeyHash (hash : Uint160)
  | witnessV1Taproot (key : Blob 32)
  | witnessUnknown (version : Nat) (program : Bytes)
  | xmssHash (xmss : XMSSHash)
deriving DecidableEq

/-- A solution of `Solver` as a hash or a key. `Solver` gives them in the right size. -/
def solution (n : Nat) (bs : Bytes) : Blob n :=
  (Blob.ofBytes? n bs).getD (Blob.zero n)

/-- `ExtractDestination`: the destination, and whether it has an address. -/
def extractDestination (c : Crypto) (scriptPubKey : Script) : CTxDestination × Bool :=
  match solver scriptPubKey with
  | (.pubkey, key :: _) =>
    (if validSize key then .pubKeyDestination key else .noDestination scriptPubKey, false)
  | (.pubkeyHash, hash :: _) => (.pkHash (solution 20 hash), true)
  | (.scriptHash, hash :: _) => (.scriptHash (solution 20 hash), true)
  | (.witnessV0KeyHash, program :: _) => (.witnessV0KeyHash (solution 20 program), true)
  | (.witnessV0ScriptHash, program :: _) => (.witnessV0ScriptHash (solution 32 program), true)
  | (.witnessV1Taproot, program :: _) => (.witnessV1Taproot (solution 32 program), true)
  | (.witnessUnknown, version :: program :: _) =>
    (.witnessUnknown (readLE (version.take 1)) program, true)
  | (.p2xmss, key :: _) => (.xmssHash (.ofPubKey c (solution 64 key)), true)
  | (.p2xmssHash, hash :: _) => (.xmssHash (.ofHash (solution 20 hash)), true)
  | _ => (.noDestination scriptPubKey, false)

/-- `CScript::EncodeOP_N`. -/
def encodeOpN (n : Nat) : UInt8 :=
  if n = 0 then OP_0 else OP_1 + UInt8.ofNat (n - 1)

/-- `GetScriptForDestination`. -/
def getScriptForDestination : CTxDestination → Script
  | .noDestination script => script
  | .pubKeyDestination pubkey => pushBytes pubkey ++ [OP_CHECKSIG]
  | .pkHash hash => [OP_DUP, OP_HASH160] ++ (pushBytes hash.data ++ [OP_EQUALVERIFY, OP_CHECKSIG])
  | .scriptHash hash => [OP_HASH160] ++ (pushBytes hash.data ++ [OP_EQUAL])
  | .witnessV0ScriptHash hash => [OP_0] ++ pushBytes hash.data
  | .witnessV0KeyHash hash => [OP_0] ++ pushBytes hash.data
  | .witnessV1Taproot key => [OP_1] ++ pushBytes key.data
  | .witnessUnknown version program => [encodeOpN version] ++ pushBytes program
  | .xmssHash xmss =>
    if xmss.m_has_pubkey then pushBytes xmss.m_pubkey.data ++ [OP_XMSS_CHECKSIG]
    else [OP_DUP, OP_HASH160] ++
      (pushBytes xmss.m_hash.data ++ [OP_EQUALVERIFY, OP_XMSS_CHECKSIG])

/-- A witness program as a Bech32 string. -/
def encodeProgram (encoding : Bech32.Encoding) (net : ChainType) (version : Nat) (program : Bytes) :
    Bytes :=
  Bech32.encode encoding net.bech32HRP
    (UInt8.ofNat version :: (convertBits 8 5 true program).getD [])

/-- `EncodeDestination`. -/
def encodeDestination (c : Crypto) (net : ChainType) : CTxDestination → Bytes
  | .noDestination _ => []
  | .pubKeyDestination _ => []
  | .pkHash hash => encodeBase58Check c (net.pubkeyAddress ++ hash.data)
  | .scriptHash hash => encodeBase58Check c (net.scriptAddress ++ hash.data)
  | .witnessV0KeyHash hash => encodeProgram .bech32 net 0 hash.data
  | .witnessV0ScriptHash hash => encodeProgram .bech32 net 0 hash.data
  | .witnessV1Taproot key => encodeProgram .bech32m net 1 key.data
  | .witnessUnknown version program =>
    if version < 1 ∨ 16 < version ∨ program.length < 2 ∨ 40 < program.length then []
    else encodeProgram .bech32m net version program
  | .xmssHash xmss =>
    let h := if xmss.m_has_pubkey then c.hash160 xmss.m_pubkey.data else xmss.m_hash
    XMSSAddr.encodeHash h net.bech32HRP

/-- `IsValidDestination`. -/
def isValidDestination : CTxDestination → Bool
  | .noDestination _ => false
  | .pubKeyDestination _ => false
  | _ => true

end AssentianPQE
