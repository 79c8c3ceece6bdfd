import AssentianPQE.Policy
import AssentianPQE.Wallet.SignTx
import AssentianPQE.Wallet.Wallet

/-!
# `AssentianPQE.Wallet.Spend`: `CreateTransaction`

`CreateTransaction` and the end of `CreateTransactionInternal` of `wallet/spend.cpp`: the built
transaction is signed, and then its weight, its fee and the limits of the mempool are tested. If
all goes well, a second transaction is made that avoids partial spends, and one of the two is
returned.

What comes before the signing (coin selection, fees, the change output) is a parameter: a
transaction that is not signed, or an error (`Attempt.built`). It changes no XMSS key. So are the
signatures of the other keys of the wallet and the answer of the mempool.
-/

set_option autoImplicit false

namespace AssentianPQE

open Lib

def SIGHASH_DEFAULT : Nat := 0

/-- What `CreateTransaction` reads of a wallet besides its keys: the outputs of the transactions
in `mapWallet`, the chain id of the signer, and the settings. -/
structure SpendConfig where
  mapWallet : OutPoint → Option TxOut
  chainId : UInt32
  m_default_max_tx_fee : Int
  m_max_aps_fee : Int
  walletrejectlongchains : Bool

/-- The coins that `SignTransaction` is given. A null output counts as spent. -/
def SpendConfig.coins (cfg : SpendConfig) (o : OutPoint) : Option TxOut :=
  (cfg.mapWallet o).filter fun out => out.nValue ≠ -1

/-- A transaction that is not signed, with `current_fee` and the estimate of its weight. -/
structure BuiltTransaction where
  tx : Transaction
  current_fee : Int
  weight : Nat

/-- `CreatedTransactionResult`. -/
structure CreatedTransactionResult where
  tx : Transaction
  fee : Int
deriving DecidableEq

/-- The environment of one call of `CreateTransactionInternal`. -/
structure Attempt where
  built : Except String BuiltTransaction
  /-- The script and the witness of an input after the other keys of the wallet have signed, and
  whether they have completed the transaction. -/
  managers : Nat → TxIn → Script × List Bytes := fun _ txin => (txin.scriptSig, txin.scriptWitness)
  managersComplete : Bool := false
  keys : CWallet.SignTxEnv
  /-- What the environment answers to the calls of the ledger, by input. -/
  status : Nat → Io
  init : Nat → Io
  claim : Nat → Io
  data : Nat → InputData := fun _ => {}
  checkChainLimits : Transaction → Option String := fun _ => none

namespace Attempt

/-- The transaction that the other keys leave. -/
def managed (a : Attempt) (tx : Transaction) : Transaction :=
  { tx with
    vin := tx.vin.mapIdx fun n txin =>
      { txin with scriptSig := (a.managers n txin).1, scriptWitness := (a.managers n txin).2 } }

/-- The call of `::SignTransaction` for a transaction. No other thread uses the ledger. -/
def signCall (a : Attempt) (cfg : SpendConfig) (tx : Transaction) : SignCall where
  tx := a.managed tx
  coins := cfg.coins
  nHashType := SIGHASH_DEFAULT
  chainId := cfg.chainId
  env n := { status := a.status n, init := a.init n, claim := a.claim n }
  data := a.data

variable (k : WalletPrims)

/-- `::SignTransaction` with the signer of the wallet: the transaction, if no input has an
error. -/
def signInputs (a : Attempt) (cfg : SpendConfig) (tx : Transaction) (s : CXMSSSigner) :
    Durable WalletDir (Option Transaction × CXMSSSigner) :=
  WalletDir.onLedger do
    let ((tx, errors), s) ← (a.signCall cfg tx).signTransaction k.crypto k.keys s
    pure (if errors = [] then some tx else none, s)

/-- `SignTransaction` for a transaction whose coins are those of the wallet. -/
def sign (a : Attempt) (cfg : SpendConfig) (tx : Transaction) (w : CWallet) :
    Durable WalletDir (Option Transaction × CWallet) :=
  if tx.vin.all fun txin => (cfg.mapWallet txin.prevout).isSome then
    w.signTransaction k a.keys (if a.managersComplete then some (a.managed tx) else none)
      (a.signInputs k cfg tx)
  else pure (none, w)

/-- The tests after the signing. -/
def finish (a : Attempt) (cfg : SpendConfig) (sign : Bool) (b : BuiltTransaction)
    (tx : Transaction) : Except String CreatedTransactionResult :=
  if MAX_STANDARD_TX_WEIGHT < (if sign then getTransactionWeight tx else b.weight) then
    .error "Transaction too large"
  else if cfg.m_default_max_tx_fee < b.current_fee then
    .error "Fee exceeds maximum configured by user (e.g. -maxtxfee, maxfeerate)"
  else
    match (if cfg.walletrejectlongchains then a.checkChainLimits tx else none) with
    | some error => .error error
    | none => .ok ⟨tx, b.current_fee⟩

/-- `CreateTransactionInternal`. -/
def createTransactionInternal (a : Attempt) (cfg : SpendConfig) (sign : Bool) (w : CWallet) :
    Durable WalletDir (Except String CreatedTransactionResult × CWallet) :=
  match a.built with
  | .error error => pure (.error error, w)
  | .ok b =>
    if sign then do
      match ← a.sign k cfg b.tx w with
      | (none, w) => pure (.error "Signing transaction failed", w)
      | (some tx, w) => pure (a.finish cfg sign b tx, w)
    else pure (a.finish cfg sign b b.tx, w)

end Attempt

/-- The arguments of `CreateTransaction`: the amounts of `vecSend`, the flag of the coin control,
and the environments of the two attempts. -/
structure CreateCall where
  amounts : List Int
  m_avoid_partial_spends : Bool
  sign : Bool := true
  first : Attempt
  second : Attempt

namespace CreateCall

variable (k : WalletPrims)

/-- A second transaction is tried after one with this fee. -/
def triesAgain (a : CreateCall) (cfg : SpendConfig) (fee : Int) : Bool :=
  0 < fee ∧ -1 < cfg.m_max_aps_fee ∧ !a.m_avoid_partial_spends

/-- The second attempt of `CreateTransaction`. -/
def tryGrouped (a : CreateCall) (cfg : SpendConfig) (ungrouped : CreatedTransactionResult)
    (w : CWallet) : Durable WalletDir (Except String CreatedTransactionResult × CWallet) := do
  match ← a.second.createTransactionInternal k cfg a.sign w with
  | (.error _, w) => pure (.ok ungrouped, w)
  | (.ok grouped, w) =>
    pure (.ok (if grouped.fee ≤ ungrouped.fee + cfg.m_max_aps_fee then grouped else ungrouped), w)

/-- `CreateTransaction`. -/
def createTransaction (a : CreateCall) (cfg : SpendConfig) (w : CWallet) :
    Durable WalletDir (Except String CreatedTransactionResult × CWallet) :=
  if a.amounts = [] then pure (.error "Transaction must have at least one recipient", w)
  else if a.amounts.any (· < 0) then pure (.error "Transaction amounts must not be negative", w)
  else do
    match ← a.first.createTransactionInternal k cfg a.sign w with
    | (.error error, w) => pure (.error error, w)
    | (.ok ungrouped, w) =>
      if a.triesAgain cfg ungrouped.fee then a.tryGrouped k cfg ungrouped w
      else pure (.ok ungrouped, w)

end CreateCall

end AssentianPQE
