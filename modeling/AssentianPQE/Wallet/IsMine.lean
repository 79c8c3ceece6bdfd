import AssentianPQE.Script.Solver
import AssentianPQE.Wallet.Signer

/-!
# `AssentianPQE.Wallet.IsMine`: which outputs the wallet counts as its own

`CWallet::IsMine` (`wallet/wallet.cpp`) for an output script. It asks `Solver` for the type of
the script first. What the script managers of the wallet answer for the rest is `managers`.
-/

set_option autoImplicit false

namespace AssentianPQE

open Lib

/-- `isminetype`, the values that `IsMine` returns. -/
inductive IsMineType where
  | no | watchOnly | spendable
deriving DecidableEq

/-- Whether there is a signer with a key for an address. -/
def holdsKeyForHash (signer : Option CXMSSSigner) (addrHash : Blob 20) : Bool :=
  signer.any fun s => (s.getPubKeyForHash addrHash).length = 64

/-- The P2XMSS branch of `IsMine`: the key of the script is looked up by its address. -/
def isMineP2xmss (c : Crypto) (signer : Option CXMSSSigner) (script : Script) : Bool :=
  match solver script with
  | (.p2xmss, [key]) => key.length = 64 && holdsKeyForHash signer (c.hash160 key)
  | _ => false

/-- The P2XMSSHASH branch of `IsMine`: the script has the address itself. -/
def isMineP2xmssHash (signer : Option CXMSSSigner) (script : Script) : Bool :=
  match solver script with
  | (.p2xmssHash, [hash]) =>
    if h : hash.length = 20 then holdsKeyForHash signer ⟨hash, h⟩ else false
  | _ => false

/-- `CWallet::IsMine`. -/
def isMine (c : Crypto) (signer : Option CXMSSSigner) (managers : Script → IsMineType)
    (script : Script) : IsMineType :=
  if isMineP2xmss c signer script || isMineP2xmssHash signer script then .spendable
  else managers script

end AssentianPQE
