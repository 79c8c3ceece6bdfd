import AssentianPQE.Wallet.SignTx
import AssentianPQE.Wallet.Wallet

/-!
# `AssentianPQE.Wallet.SignWallet`: `CWallet::SignTransaction`

`SignTransaction` of `wallet/wallet.cpp` for a transaction: every `ScriptPubKeyMan` calls
`::SignTransaction` on it, and then the XMSS signer does, unless one of them has completed it.
All of them work on the same transaction, so each one sees what those before it have left.

The provider of a `ScriptPubKeyMan` has the XMSS functions of `signingprovider.h`: it has no XMSS
key, and its chain id is 1.
-/

set_option autoImplicit false

namespace AssentianPQE

open Lib

/-- The arguments of `CWallet::SignTransaction` and its environment. What a provider finds in an
input, and what it makes without XMSS keys, is by transaction: `managers` for each
`ScriptPubKeyMan`, and `data` for the XMSS signer. -/
structure WalletSign where
  tx : Transaction
  coins : OutPoint → Option TxOut
  nHashType : Nat
  chainId : UInt32
  env : Nat → SignEnv
  managers : List (Transaction → Nat → InputData) := []
  data : Transaction → Nat → InputData := fun _ _ => {}
  keys : CWallet.SignTxEnv

namespace WalletSign

/-- The call of `::SignTransaction` with the XMSS signer. -/
def call (a : WalletSign) (tx : Transaction) : SignCall where
  tx := tx
  coins := a.coins
  nHashType := a.nHashType
  chainId := a.chainId
  env := a.env
  data := a.data tx

/-- The call of a `ScriptPubKeyMan`. -/
def managerCall (a : WalletSign) (data : Transaction → Nat → InputData) (tx : Transaction) :
    SignCall :=
  { a.call tx with
    chainId := 1
    env := fun n => { a.env n with others := fun _ => pure () }
    data := data tx }

/-- The loop over the `ScriptPubKeyMan`s: whether one of them has completed the transaction, and
the transaction as they leave it. -/
def signWithManagers (a : WalletSign) (c : Crypto) (x : XmssKeys) :
    List (Transaction → Nat → InputData) → Transaction → Durable LedgerDir (Bool × Transaction)
  | [], tx => pure (false, tx)
  | data :: managers, tx => do
    let ((tx, errors), _) ← (a.managerCall data tx).signTransaction c x CXMSSSigner.empty
    if errors = [] then pure (true, tx) else a.signWithManagers c x managers tx

variable (k : WalletPrims)

/-- `::SignTransaction` with the signer of the wallet: the transaction, if no input has an
error. -/
def signInputs (a : WalletSign) (tx : Transaction) (s : CXMSSSigner) :
    Durable WalletDir (Option Transaction × CXMSSSigner) :=
  WalletDir.onLedger do
    let ((tx, errors), s) ← (a.call tx).signTransaction k.crypto k.keys s
    pure (if errors = [] then some tx else none, s)

/-- `CWallet::SignTransaction`: the transaction, if it returns true. -/
def sign (a : WalletSign) (w : CWallet) : Durable WalletDir (Option Transaction × CWallet) := do
  let (done, tx) ← WalletDir.onLedger (a.signWithManagers k.crypto k.keys a.managers a.tx)
  w.signTransaction k a.keys (if done then some tx else none) (a.signInputs k tx)

end WalletSign

end AssentianPQE
