import AssentianPQE.Wallet.SendFrom

/-!
# `AssentianPQE.Explorer.WalletSend`: payments from a custodial account

`wallet_send` of `explorer/server.py`, with the node behind it. All users share the wallet of the
node. The explorer only keeps, for every user, the list of the addresses that were made for this
user, and drains them one after the other.

Amounts are in units of the eighth decimal, without the rounding of floating-point numbers. What
`getxmssaddressinfo` and `listunspent` answer is a parameter that can depend on the wallet in any
way. A call of the node that runs into the timeout of `rpc_call` counts as an error although the
node has done it.
-/

set_option autoImplicit false

namespace AssentianPQE

open Lib

/-- What the tables `users` and `mining_addresses` have for a user, the oldest address first. Every
address is one that the node has returned, and the current one is in the list since `init_db` and
`wallet_register` put it there. -/
structure UserRow (net : ChainType) where
  xmss_address : Bytes
  mining_addresses : List Bytes
  canonical : ∀ a ∈ mining_addresses, ∃ h, a = XMSSAddr.encodeHash h net.bech32HRP
  recorded : xmss_address ≠ [] → xmss_address ∈ mining_addresses

/-- `_get_user_addresses`. -/
def UserRow.getUserAddresses {net : ChainType} (user : UserRow net) : List Bytes :=
  user.mining_addresses ++
    if user.xmss_address ≠ [] ∧ user.xmss_address ∉ user.mining_addresses then [user.xmss_address]
    else []

/-- The amount of a request. -/
inductive RequestAmount where
  | missing
  | invalid
  | value (amount : Int)

/-- The body of a request, with the destination stripped of blanks. -/
structure SendRequest where
  to_address : Bytes
  amount : RequestAmount

/-- The node as the explorer sees it during one call. -/
structure ExplorerEnv where
  /-- The `retired` of `getxmssaddressinfo`. -/
  retired : NodeWallet → Bytes → Bool
  /-- The amounts of `listunspent`, unless it fails. -/
  listunspent : NodeWallet → Bytes → Option (List Int)
  /-- The data of the calls of `sendfromxmssaddress`. -/
  send : Nat → SendEnv
  /-- The answer to a call is lost. -/
  lost : Nat → Bool := fun _ => false
  /-- The public and the secret key that `getnewxmssaddress` makes at the end. -/
  newKey : Option (Blob 64 × Bytes) := none

/-- The variables of the loop, with a log of the transactions that the node has created. -/
structure SendLoop where
  node : NodeWallet
  remaining : Int
  sent_total : Int := 0
  txids : List (Bytes × Int) := []
  skipped : List Bytes := []
  created : List SentTransaction := []

/-- The response: an error with its status, or what was sent. -/
inductive SendResponse where
  | error (status : Nat) (error : String)
  | sent (details : List (Bytes × Int)) (amount_requested amount_sent : Int) (fully_covered : Bool)
      (new_address : Option Bytes)

section Send
variable (c : Crypto) (rpc : RpcEnv) (env : ExplorerEnv)

/-- The call of `sendfromxmssaddress` for an address from which at most `cap` can be sent. -/
def SendLoop.pay (to_address : Bytes) (i : Nat) (addr : Bytes) (cap : Int) (st : SendLoop) :
    SendLoop :=
  let subtract_fee := decide (cap ≤ st.remaining)
  let send_amt := if subtract_fee then cap else st.remaining
  match sendfromxmssaddress c rpc (env.send i) addr to_address send_amt subtract_fee st.node with
  | (node, .error _) => { st with node := node, skipped := st.skipped ++ [addr] }
  | (node, .ok t) =>
    if env.lost i then
      { st with node := node, skipped := st.skipped ++ [addr], created := st.created ++ [t] }
    else
      { st with
        node := node
        remaining := st.remaining - send_amt
        sent_total := st.sent_total + send_amt
        txids := st.txids ++ [(addr, send_amt)]
        created := st.created ++ [t] }

/-- The body of the loop. -/
def SendLoop.visit (to_address : Bytes) (i : Nat) (addr : Bytes) (st : SendLoop) : SendLoop :=
  if env.retired st.node addr then st
  else
    match (env.listunspent st.node addr).bind List.max? with
    | none => st
    | some cap => if cap ≤ 0 then st else st.pay c rpc env to_address i addr cap

/-- The loop over the addresses of the user. -/
def sendLoop (to_address : Bytes) : Nat → List Bytes → SendLoop → SendLoop
  | _, [], st => st
  | i, addr :: addresses, st =>
    if st.remaining ≤ 0 then st
    else sendLoop to_address (i + 1) addresses (st.visit c rpc env to_address i addr)

/-- A new address that is recorded for the user. -/
def UserRow.record (pubkey : Blob 64) (user : UserRow rpc.net) : UserRow rpc.net :=
  let address := XMSSAddr.encodeHash (c.hash160 pubkey.data) rpc.net.bech32HRP
  { xmss_address := address
    mining_addresses :=
      if address ∈ user.mining_addresses then user.mining_addresses
      else user.mining_addresses ++ [address]
    canonical := by
      intro a ha
      split at ha
      · exact user.canonical a ha
      · cases List.mem_append.mp ha with
        | inl h => exact user.canonical a h
        | inr h => exact ⟨_, List.mem_singleton.mp h⟩
    recorded := by
      intro _
      split
      · assumption
      · exact List.mem_append.mpr (.inr (List.mem_singleton.mpr rfl)) }

/-- What a call of `wallet_send` leaves. -/
structure SendOutcome (net : ChainType) where
  user : UserRow net
  node : NodeWallet
  created : List SentTransaction
  response : SendResponse

/-- The end of `wallet_send`: if the current address is used up, the user gets a new one. -/
def rotateAddress (amount : Int) (user : UserRow rpc.net) (st : SendLoop) : SendOutcome rpc.net :=
  let response := SendResponse.sent st.txids amount st.sent_total (decide (st.remaining ≤ 1))
  if env.retired st.node user.xmss_address then
    match env.newKey with
    | none => ⟨user, st.node, st.created, response none⟩
    | some (pubkey, sk) =>
      let user := user.record c rpc pubkey
      ⟨user, { st.node with signer := st.node.signer.insert c pubkey.data { sk := sk } }, st.created,
        response (some user.xmss_address)⟩
  else ⟨user, st.node, st.created, response none⟩

/-- `wallet_send` for a user with an address. -/
def walletSend (request : SendRequest) (user : UserRow rpc.net) (node : NodeWallet) :
    SendOutcome rpc.net :=
  let failed (status : Nat) (error : String) : SendOutcome rpc.net :=
    ⟨user, node, [], .error status error⟩
  if request.to_address = [] then failed 400 "to and amount required"
  else
    match request.amount with
    | .missing => failed 400 "to and amount required"
    | .invalid => failed 400 "invalid amount"
    | .value amount =>
      if amount = 0 then failed 400 "to and amount required"
      else if amount ≤ 0 then failed 400 "invalid amount"
      else if user.xmss_address = [] then failed 404 "user not found"
      else
        let st := sendLoop c rpc env request.to_address 0 user.getUserAddresses
          { node := node, remaining := amount }
        if st.txids = [] then
          ⟨user, st.node, st.created,
            .error 409 "No spendable funds found across any of your addresses"⟩
        else rotateAddress c rpc env amount user st

end Send

end AssentianPQE
