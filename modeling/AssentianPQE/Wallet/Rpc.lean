import AssentianPQE.Address.Destination
import AssentianPQE.Wallet.Wallet

/-!
# `AssentianPQE.Wallet.Rpc`: the calls that pay XMSS addresses and export their keys

From `wallet/rpc/xmss.cpp`: `sendtoxmssaddress` and `sendfromxmssaddress` up to the recipient of
the transaction, and `exportxmsskey`. The calls that only change keys (`getnewxmssaddress`,
`importxmsskey`) are in `AssentianPQE.Wallet.Wallet`.

`Create` makes a signer for every wallet, so the tests for a missing one are left out. Amounts
are those that `AmountFromValue` has read.
-/

set_option autoImplicit false

namespace AssentianPQE

open Lib

/-- The error codes of these calls. -/
inductive RPCErrorCode where
  | RPC_TYPE_ERROR
  | RPC_INVALID_ADDRESS_OR_KEY
  | RPC_WALLET_ERROR
  | RPC_WALLET_INSUFFICIENT_FUNDS
  | RPC_WALLET_UNLOCK_NEEDED
deriving DecidableEq

/-- `JSONRPCError`. -/
structure JSONRPCError where
  code : RPCErrorCode
  message : String
deriving DecidableEq

/-- `CRecipient`. -/
structure CRecipient where
  dest : CTxDestination
  nAmount : Int
  fSubtractFeeFromAmount : Bool
deriving DecidableEq

/-- What a call reads of the node: the network, the addresses whose keys are in a failed seed list
(`isKnownBurnedPoUWAddress`), and `DecodeDestination` for addresses of other kinds. -/
structure RpcEnv where
  net : ChainType
  isKnownBurnedPoUWAddress : Uint160 → Bool
  decodeDestination : Bytes → CTxDestination

/-- The key that the wallet knows for an address, if it has the right size. -/
def CXMSSSigner.knownKey (hash : Uint160) (s : CXMSSSigner) : Option (Blob 64) :=
  Blob.ofBytes? 64 (s.getPubKeyForHash hash)

section Recipients
variable (c : Crypto) (env : RpcEnv) (s : CXMSSSigner)

/-! ### `sendtoxmssaddress` -/

/-- The recipient of `sendtoxmssaddress`. Without the key the output commits to the hash. -/
def sendtoRecipient (addr_str : Bytes) (nAmount : Int) (fSubtractFeeFromAmount : Bool) :
    Except JSONRPCError CRecipient :=
  match XMSSAddr.decode addr_str env.net.bech32HRP with
  | none => .error ⟨.RPC_INVALID_ADDRESS_OR_KEY, "Invalid XMSS address"⟩
  | some hash =>
    if env.isKnownBurnedPoUWAddress hash then
      .error ⟨.RPC_INVALID_ADDRESS_OR_KEY, "This address's private key was published on-chain " ++
        "(PoUW v2 failed-seed list) and is known to anyone who has scanned the blockchain. " ++
        "Funds sent here are not safe."⟩
    else if nAmount ≤ 0 then .error ⟨.RPC_TYPE_ERROR, "Invalid amount"⟩
    else
      match s.knownKey hash with
      | some pubkey => .ok ⟨.xmssHash (.ofPubKey c pubkey), nAmount, fSubtractFeeFromAmount⟩
      | none => .ok ⟨.xmssHash (.ofHash hash), nAmount, fSubtractFeeFromAmount⟩

/-! ### `sendfromxmssaddress` -/

/-- The destination of `sendfromxmssaddress`. Without the key it is a P2PKH destination. -/
def sendfromDestination (to_addr_str : Bytes) : Except JSONRPCError CTxDestination :=
  match XMSSAddr.decode to_addr_str env.net.bech32HRP with
  | some to_hash =>
    if env.isKnownBurnedPoUWAddress to_hash then
      .error ⟨.RPC_INVALID_ADDRESS_OR_KEY, "This destination address's private key was published " ++
        "on-chain (PoUW v2 failed-seed list) and is known to anyone who has scanned the " ++
        "blockchain. Funds sent here are not safe."⟩
    else
      match s.knownKey to_hash with
      | some pubkey => .ok (.xmssHash (.ofPubKey c pubkey))
      | none => .ok (.pkHash to_hash)
  | none =>
    let dest := env.decodeDestination to_addr_str
    if isValidDestination dest then .ok dest
    else .error ⟨.RPC_INVALID_ADDRESS_OR_KEY, "Invalid destination address"⟩

/-- The hash of the source and the recipient of `sendfromxmssaddress`. -/
def sendfromRecipient (from_addr_str to_addr_str : Bytes) (nAmount : Int)
    (fSubtractFeeFromAmount : Bool) : Except JSONRPCError (Uint160 × CRecipient) :=
  if nAmount ≤ 0 then .error ⟨.RPC_TYPE_ERROR, "Invalid amount"⟩
  else
    match XMSSAddr.decode from_addr_str env.net.bech32HRP with
    | none => .error ⟨.RPC_INVALID_ADDRESS_OR_KEY, "Invalid source XMSS address"⟩
    | some from_hash =>
      match sendfromDestination c env s to_addr_str with
      | .error e => .error e
      | .ok dest => .ok (from_hash, ⟨dest, nAmount, fSubtractFeeFromAmount⟩)

end Recipients

/-! ### `exportxmsskey` -/

/-- The result of `exportxmsskey`. -/
structure ExportedKey where
  pubkey : Bytes
  seckey : Bytes
  address : Bytes
  leaf_index : UInt32
  remaining : Nat
deriving DecidableEq

/-- `exportxmsskey`. -/
def CWallet.exportxmsskey (net : ChainType) (io : Io) (addr_str : Bytes) (w : CWallet)
    (d : LedgerDir) : Except JSONRPCError ExportedKey :=
  match XMSSAddr.decode addr_str net.bech32HRP with
  | none => .error ⟨.RPC_INVALID_ADDRESS_OR_KEY, "Invalid XMSS address"⟩
  | some hash =>
    let pubkey := w.signer.getPubKeyForHash hash
    if pubkey = [] ∨ pubkey.length ≠ 64 then
      .error ⟨.RPC_WALLET_ERROR, "XMSS key not found for this address"⟩
    else
      let seckey := w.signer.getSecKeyForPubkey pubkey
      if seckey = [] then
        .error ⟨.RPC_WALLET_ERROR, "Secret key not available (watch-only wallet?)"⟩
      else
        let leaf_index := w.signer.getXMSSLeafIndex io pubkey d
        .ok ⟨pubkey, seckey, addr_str, leaf_index,
          if leaf_index < 1024 then 1024 - leaf_index.toNat else 0⟩

end AssentianPQE
