import AssentianPQE.Wallet.Rpc
import Mathlib.Data.List.Sort

/-!
# `AssentianPQE.Wallet.SendFrom`: `sendfromxmssaddress`

The whole of `sendfromxmssaddress` (`wallet/rpc/xmss.cpp`) as a step on the unspent outputs of the
node's wallet: the choice of one output at the source, the new key for the change, and the amounts
that `CreateTransactionInternal` (`wallet/spend.cpp`) gives to the outputs of a transaction with
one chosen input.

Fees and thresholds that come from fee rates and sizes are data of the call (`SendEnv`), and so is
the outcome of what follows once the amounts are fixed: the signature, and the limits on size, fee
and chains of transactions.
-/

set_option autoImplicit false

namespace AssentianPQE

open Lib

/-- An output, with its amount as a number: the wallet deals in amounts of money that exist, which
are far from the limits of `CAmount`. -/
structure WalletOut where
  nValue : Int
  scriptPubKey : Script
deriving DecidableEq

/-- An unspent output of a transaction in `mapWallet`, with `GetTxDepthInMainChain`. -/
structure WalletCoin where
  outpoint : OutPoint
  out : WalletOut
  depth : Int
deriving DecidableEq

/-- The node's wallet. -/
structure NodeWallet where
  coins : List WalletCoin
  signer : CXMSSSigner
  locked : Bool := false

/-- The data of one call. -/
structure SendEnv where
  /-- `m_mine_trusted`. -/
  nBalance : Int
  /-- The public and the secret key that `GenerateKey` makes for the change. -/
  changeKey : Option (Blob 64 × Bytes)
  /-- The fee for 2600 bytes. -/
  fee_estimate : Int := 0
  /-- The fee of all but the inputs, without the change output. -/
  not_input_fees : Int := 0
  /-- The fee of the input. -/
  input_fee : Int := 0
  change_fee : Int := 0
  min_viable_change : Int := 1
  /-- The fee of the transaction, with or without a change output. -/
  fee_needed : Bool → Int := fun _ => 0
  /-- `GetDustThreshold` of the output to the recipient. -/
  dustThreshold : Nat := 0
  /-- The change output is the first one. -/
  changeFirst : Bool := false
  /-- An error after the amounts are fixed. -/
  fails : Option String := none
  /-- The hash of the signed transaction. -/
  txid : Uint256 := nullHash

/-! ### The input -/

/-- An output pays the key with this hash. -/
def paysHash (c : Crypto) (from_hash : Uint160) (script : Script) : Bool :=
  match solver script with
  | (.p2xmss, [key]) => key.length = 64 ∧ c.hash160 key = from_hash
  | (.p2xmssHash, [hash]) => hash.length = 20 ∧ hash = from_hash.data
  | _ => false

/-- The confirmed outputs of the source. -/
def xmssUtxos (c : Crypto) (from_hash : Uint160) (coins : List WalletCoin) : List WalletCoin :=
  coins.filter fun coin => !(coin.depth < 1) && paysHash c from_hash coin.out.scriptPubKey

/-- The smallest output that covers the amount and the estimate of the fee, or else the largest
one. -/
def chooseUtxo (needed : Int) (utxos : List WalletCoin) : Option WalletCoin :=
  let sorted := utxos.insertionSort fun a b => a.out.nValue ≤ b.out.nValue
  (sorted.find? fun u => needed ≤ u.out.nValue).or sorted.getLast?

/-! ### The amounts -/

/-- `GetChange` of a selection with one input of value `v`. -/
def getChange (env : SendEnv) (v target : Int) (fSubtractFeeFromAmount : Bool) : Int :=
  let change :=
    if fSubtractFeeFromAmount then v - target else v - env.input_fee - target - env.change_fee
  if change < env.min_viable_change then 0 else change

/-- The amounts of `CreateTransactionInternal` for one input of value `v` that is chosen by the
caller: what the recipient gets, and the change if there is some. -/
def buildAmounts (env : SendEnv) (v : Int) (r : CRecipient) : Except String (Int × Option Int) :=
  if r.nAmount < env.dustThreshold then .error "Transaction amount too small"
  else
    let target := r.nAmount + (if r.fSubtractFeeFromAmount then 0 else env.not_input_fees)
    if (if r.fSubtractFeeFromAmount then v else v - env.input_fee) < target then
      .error ("The preselected coins total amount does not cover the transaction target. " ++
        "Please allow other inputs to be automatically selected or include more coins manually")
    else
      let change_amount := getChange env v target r.fSubtractFeeFromAmount
      let fee_needed := env.fee_needed (0 < change_amount)
      let current_fee := v - (r.nAmount + change_amount)
      if current_fee < 0 then .error "Fee paid < 0"
      else
        -- Fees that are not needed are added to the change.
        let change :=
          if 0 < change_amount ∧ fee_needed < current_fee then
            change_amount + (current_fee - fee_needed)
          else change_amount
        let current_fee := v - (r.nAmount + change)
        let paid :=
          if r.fSubtractFeeFromAmount then r.nAmount - (fee_needed - current_fee) else r.nAmount
        if r.fSubtractFeeFromAmount ∧ paid < env.dustThreshold then
          .error (if paid < 0 then "The transaction amount is too small to pay the fee"
            else "The transaction amount is too small to send after the fee has been deducted")
        else if v - (paid + change) < fee_needed then .error "Fee needed > fee paid"
        else .ok (paid, if 0 < change_amount then some change else none)

/-! ### The call -/

/-- The transaction that a call has created: the output that it spends, the output to the
recipient and the change. -/
structure SentTransaction where
  spent : WalletCoin
  paid : WalletOut
  change : Option WalletOut
deriving DecidableEq

/-- The fee of a transaction. -/
def SentTransaction.fee (t : SentTransaction) : Int :=
  t.spent.out.nValue - (t.paid.nValue + (t.change.map WalletOut.nValue).getD 0)

/-- The outputs of a transaction in their order. -/
def SentTransaction.outputs (env : SendEnv) (t : SentTransaction) : List WalletOut :=
  if env.changeFirst then t.change.toList ++ [t.paid] else t.paid :: t.change.toList

/-- The unspent outputs after `CommitTransaction`. -/
def NodeWallet.commit (env : SendEnv) (t : SentTransaction) (node : NodeWallet) : NodeWallet :=
  { node with
    coins := node.coins.erase t.spent ++
      (t.outputs env).mapIdx fun n out => ⟨⟨env.txid, UInt32.ofNat n⟩, out, 0⟩ }

/-- `CreateTransaction` with the chosen output and the change key. -/
def createFrom (c : Crypto) (env : SendEnv) (r : CRecipient) (chosen : WalletCoin)
    (changeKey : Blob 64) : Except String SentTransaction :=
  match buildAmounts env chosen.out.nValue r with
  | .error e => .error e
  | .ok (paid, change) =>
    match env.fails with
    | some e => .error e
    | none => .ok
      { spent := chosen
        paid := ⟨paid, getScriptForDestination r.dest⟩
        change := change.map fun value =>
          ⟨value, getScriptForDestination (.xmssHash (.ofPubKey c changeKey))⟩ }

/-- `sendfromxmssaddress`: the wallet after it, and the transaction. -/
def sendfromxmssaddress (c : Crypto) (rpc : RpcEnv) (env : SendEnv)
    (from_addr_str to_addr_str : Bytes) (nAmount : Int) (fSubtractFeeFromAmount : Bool)
    (node : NodeWallet) : NodeWallet × Except JSONRPCError SentTransaction :=
  match sendfromRecipient c rpc node.signer from_addr_str to_addr_str nAmount
      fSubtractFeeFromAmount with
  | .error e => (node, .error e)
  | .ok (from_hash, r) =>
    if env.nBalance < nAmount then
      (node, .error ⟨.RPC_WALLET_INSUFFICIENT_FUNDS, "Insufficient funds"⟩)
    else if node.locked then
      (node, .error ⟨.RPC_WALLET_UNLOCK_NEEDED,
        "Error: Please enter the wallet passphrase with walletpassphrase first."⟩)
    else
      match chooseUtxo (nAmount + env.fee_estimate) (xmssUtxos c from_hash node.coins) with
      | none =>
        (node, .error ⟨.RPC_WALLET_INSUFFICIENT_FUNDS, "No spendable funds found at this XMSS address"⟩)
      | some chosen =>
        match env.changeKey with
        | none => (node, .error ⟨.RPC_WALLET_ERROR, "Error: failed to generate XMSS change address"⟩)
        | some (pubkey, sk) =>
          let node := { node with signer := node.signer.insert c pubkey.data { sk := sk } }
          match createFrom c env r chosen pubkey with
          | .error e => (node, .error ⟨.RPC_WALLET_INSUFFICIENT_FUNDS, e⟩)
          | .ok t => (node.commit env t, .ok t)

end AssentianPQE
