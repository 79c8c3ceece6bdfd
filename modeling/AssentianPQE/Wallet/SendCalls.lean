import AssentianPQE.Wallet.Rpc
import AssentianPQE.Wallet.Spend

/-!
# `AssentianPQE.Wallet.SendCalls`: the keys of `sendtoxmssaddress` and `sendfromxmssaddress`

Both calls of `wallet/rpc/xmss.cpp` as programs on the wallet and its database: the wallet has to
be unlocked, the change gets a new key, which is written at once, and the transaction is created
and committed. `sendtoxmssaddress` makes the key before it chooses the inputs,
`sendfromxmssaddress` after it.

The choice of the inputs changes nothing. It is a parameter (`SendXmssEnv.selected`), like what
`CreateTransaction` builds for the change key.
-/

set_option autoImplicit false

namespace AssentianPQE

open Lib

/-- The environment of a call. -/
structure SendXmssEnv where
  /-- `m_mine_trusted`, which `sendfromxmssaddress` tests. -/
  nBalance : Int
  /-- What the choice of the inputs ends with. -/
  selected : Except JSONRPCError Unit
  /-- The random bytes of the change key, and the write after it. -/
  change : KeyEnv
  /-- What `CreateTransaction` builds for a change key. -/
  attempt : Bytes → Attempt
  fBroadcastTransactions : Bool := true
  commit : PersistEnv

/-- What a call returns: the transaction, and the key that its change goes to. -/
structure SentXmss where
  tx : Transaction
  change_pubkey : Bytes

namespace CWallet

variable (k : WalletPrims)

/-- The error of `EnsureWalletIsUnlocked`. -/
def unlockNeeded : JSONRPCError :=
  ⟨.RPC_WALLET_UNLOCK_NEEDED,
    "Error: Please enter the wallet passphrase with walletpassphrase first."⟩

/-- The key of the change. -/
def newChangeKey (env : KeyEnv) (w : CWallet) :
    Durable WalletDir (Except JSONRPCError Bytes × CWallet) := do
  let (change_pubkey, w) ← w.generateKey k env.io env.seed
  if change_pubkey.length ≠ 64 then
    pure (.error ⟨.RPC_WALLET_ERROR, "Error: failed to generate XMSS change address"⟩, w)
  else do
    w.persistXMSSState k env.persist
    pure (.ok change_pubkey, w)

/-- The end of both calls: `CreateTransaction`, which makes one attempt, and `CommitTransaction`. -/
def createAndCommit (cfg : SpendConfig) (env : SendXmssEnv) (r : CRecipient)
    (change_pubkey : Bytes) (w : CWallet) :
    Durable WalletDir (Except JSONRPCError SentXmss × CWallet) := do
  let a := env.attempt change_pubkey
  let call : CreateCall :=
    { amounts := [r.nAmount], m_avoid_partial_spends := true, first := a, second := a }
  match ← call.createTransaction k cfg w with
  | (.error error, w) => pure (.error ⟨.RPC_WALLET_INSUFFICIENT_FUNDS, error⟩, w)
  | (.ok res, w) => do
    let w ← w.commitTransaction k env.fBroadcastTransactions env.commit
    pure (.ok ⟨res.tx, change_pubkey⟩, w)

/-- `sendtoxmssaddress`. -/
def sendtoxmssaddress (rpc : RpcEnv) (cfg : SpendConfig) (env : SendXmssEnv) (addr_str : Bytes)
    (nAmount : Int) (fSubtractFeeFromAmount : Bool) (w : CWallet) :
    Durable WalletDir (Except JSONRPCError SentXmss × CWallet) :=
  match sendtoRecipient k.crypto rpc w.signer addr_str nAmount fSubtractFeeFromAmount with
  | .error e => pure (.error e, w)
  | .ok r =>
    if w.isLocked then pure (.error unlockNeeded, w)
    else do
      match ← w.newChangeKey k env.change with
      | (.error e, w) => pure (.error e, w)
      | (.ok change_pubkey, w) =>
        match env.selected with
        | .error e => pure (.error e, w)
        | .ok () => w.createAndCommit k cfg env r change_pubkey

/-- `sendfromxmssaddress`. -/
def sendfromxmssaddress (rpc : RpcEnv) (cfg : SpendConfig) (env : SendXmssEnv)
    (from_addr_str to_addr_str : Bytes) (nAmount : Int) (fSubtractFeeFromAmount : Bool)
    (w : CWallet) : Durable WalletDir (Except JSONRPCError SentXmss × CWallet) :=
  match sendfromRecipient k.crypto rpc w.signer from_addr_str to_addr_str nAmount
      fSubtractFeeFromAmount with
  | .error e => pure (.error e, w)
  | .ok (_, r) =>
    if env.nBalance < nAmount then
      pure (.error ⟨.RPC_WALLET_INSUFFICIENT_FUNDS, "Insufficient funds"⟩, w)
    else if w.isLocked then pure (.error unlockNeeded, w)
    else
      match env.selected with
      | .error e => pure (.error e, w)
      | .ok () => do
        match ← w.newChangeKey k env.change with
        | (.error e, w) => pure (.error e, w)
        | (.ok change_pubkey, w) => w.createAndCommit k cfg env r change_pubkey

end CWallet

end AssentianPQE
