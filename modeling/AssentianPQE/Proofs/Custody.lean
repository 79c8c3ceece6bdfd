import AssentianPQE.Explorer.WalletSend
import AssentianPQE.Proofs.XmssRecipients
import Mathlib.Algebra.Order.BigOperators.Group.List

/-!
# The balance of a custodial account

`sendfromxmssaddress` sends the change to a key that it makes for this, and `wallet_send` never
records its address. A payment that leaves change takes the change out of the account.

`SendPasses` says what a call that succeeds has passed, and `custody_commit` what it does to the
outputs at a set of addresses. The run lemma `sendLoop_custody` sums this up over the loop, and
`walletSend_conserves_iff` says when the balance of a user is conserved.
-/

set_option autoImplicit false

namespace AssentianPQE

open Lib List Option XMSSAddr

variable {net : ChainType} {env : SendEnv} {node : NodeWallet} {coins : List WalletCoin}
  {t : SentTransaction} {addresses own : List Bytes}

/-! ### One call -/

/-- What `CoinSelection` has to cover. -/
def sendTarget (env : SendEnv) (r : CRecipient) : Int :=
  r.nAmount + (if r.fSubtractFeeFromAmount then 0 else env.not_input_fees)

section Amounts
variable {env : SendEnv} {v paid : Int} {r : CRecipient} {change : Option Int}

/-- The amounts of a transaction that can be built: fees that are not needed only add to the
change, and what a recipient gets who pays the fee is not dust. -/
theorem buildAmounts_ok (h : buildAmounts env v r = .ok (paid, change)) :
    ∃ change_amount grown : Int,
      getChange env v (sendTarget env r) r.fSubtractFeeFromAmount = change_amount ∧
        change_amount ≤ grown ∧ change = (if 0 < change_amount then some grown else none) ∧
        (r.fSubtractFeeFromAmount = true → env.dustThreshold ≤ paid) ∧
        (r.fSubtractFeeFromAmount = false → paid = r.nAmount) := by
  obtain ⟨dest, nAmount, fSubtractFeeFromAmount⟩ := r
  unfold buildAmounts at h
  unfold sendTarget
  split at h
  · cases h
  have hgrown : ∀ change_amount current_fee fee_needed : Int, change_amount ≤
      if 0 < change_amount ∧ fee_needed < current_fee then
        change_amount + (current_fee - fee_needed) else change_amount := by
    intro change_amount current_fee fee_needed
    split <;> omega
  -- The tests are the same whoever pays the fee, but their bounds are not.
  cases fSubtractFeeFromAmount with
  | true =>
    simp only [if_true, true_and] at h ⊢
    split at h
    · cases h
    generalize getChange env v (nAmount + 0) true = change_amount at h ⊢
    split at h
    · cases h
    replace hgrown := hgrown change_amount (v - (nAmount + change_amount))
      (env.fee_needed (decide (0 < change_amount)))
    generalize (if 0 < change_amount ∧ _ < v - (nAmount + change_amount) then _
      else change_amount) = grown at h hgrown
    split at h
    · cases h
    rename_i hdust
    split at h
    · cases h
    cases h
    exact ⟨_, grown, rfl, hgrown, rfl, fun _ => not_lt.mp hdust, nofun⟩
  | false =>
    simp only [Bool.false_eq_true, if_false, false_and] at h ⊢
    split at h
    · cases h
    generalize getChange env v (nAmount + env.not_input_fees) false = change_amount at h ⊢
    split at h
    · cases h
    replace hgrown := hgrown change_amount (v - (nAmount + change_amount))
      (env.fee_needed (decide (0 < change_amount)))
    generalize (if 0 < change_amount ∧ _ < v - (nAmount + change_amount) then _
      else change_amount) = grown at h hgrown
    split at h
    · cases h
    cases h
    exact ⟨_, grown, rfl, hgrown, rfl, nofun, fun _ => rfl⟩

/-- A payment is never negative. -/
theorem buildAmounts_paid_nonneg (h : buildAmounts env v r = .ok (paid, change))
    (hpos : 0 < r.nAmount) : 0 ≤ paid := by
  obtain ⟨_, _, -, -, -, hdust, hpaid⟩ := buildAmounts_ok h
  cases hsub : r.fSubtractFeeFromAmount with
  | true => exact le_trans (Int.natCast_nonneg _) (hdust hsub)
  | false => exact (hpaid hsub).symm ▸ hpos.le

/-- There is change if `GetChange` leaves some. -/
theorem buildAmounts_change_eq_none_iff (h : buildAmounts env v r = .ok (paid, change)) :
    change = none ↔ getChange env v (sendTarget env r) r.fSubtractFeeFromAmount ≤ 0 := by
  obtain ⟨change_amount, _, hget, -, hchange, -⟩ := buildAmounts_ok h
  rw [hget, hchange]
  by_cases hpos : 0 < change_amount
  · rw [if_pos hpos]
    exact ⟨nofun, fun hle => absurd hpos (not_lt.mpr hle)⟩
  · rw [if_neg hpos]
    exact ⟨fun _ => not_lt.mp hpos, fun _ => rfl⟩

end Amounts

/-- The address that `listunspent` and the explorer see for an output. -/
def outputAddress (c : Crypto) (net : ChainType) (script : Script) : Bytes :=
  encodeDestination c net (extractDestination c script).1

/-- An output that pays a hash has the address of the hash. -/
theorem outputAddress_of_paysHash {c : Crypto} {hash : Uint160} {script : Script}
    (h : paysHash c hash script = true) :
    outputAddress c net script = encodeHash hash net.bech32HRP := by
  unfold paysHash at h
  split at h
  · rename_i key hsolver
    obtain ⟨hlen, hhash⟩ := of_decide_eq_true h
    have hkey : (solution 64 key).data = key := by
      rw [solution, Blob.ofBytes?, dif_pos hlen]
      rfl
    rw [outputAddress, extractDestination, hsolver]
    show encodeHash (c.hash160 (solution 64 key).data) _ = _
    rw [hkey, hhash]
  · rename_i bytes hsolver
    obtain ⟨-, hhash⟩ := of_decide_eq_true h
    rw [outputAddress, extractDestination, hsolver, hhash]
    show encodeHash (solution 20 hash.data) _ = _
    rw [solution_data]
  · cases h

/-- The address of a new key. -/
theorem outputAddress_ofPubKey (c : Crypto) (net : ChainType) (key : Blob 64) :
    outputAddress c net (getScriptForDestination (.xmssHash (.ofPubKey c key))) =
      encodeHash (c.hash160 key.data) net.bech32HRP :=
  address_xmssTemplate key

theorem chooseUtxo_mem {needed : Int} {utxos : List WalletCoin} {coin : WalletCoin}
    (h : chooseUtxo needed utxos = some coin) : coin ∈ utxos := by
  unfold chooseUtxo at h
  rw [← mem_insertionSort fun a b : WalletCoin => a.out.nValue ≤ b.out.nValue]
  cases hfind : (utxos.insertionSort fun a b : WalletCoin => a.out.nValue ≤ b.out.nValue).find?
      fun u => needed ≤ u.out.nValue with
  | some u =>
    simp only [hfind, some_or] at h
    cases h
    exact mem_of_find?_eq_some hfind
  | none =>
    simp only [hfind, none_or] at h
    exact mem_of_getLast? h

/-- The parameters of a call. -/
structure SendCallArgs where
  from_addr_str : Bytes
  to_addr_str : Bytes
  nAmount : Int
  fSubtractFeeFromAmount : Bool

/-- A call passes all tests of `sendfromxmssaddress` in this state of the wallet, with this output
for the input and these amounts. -/
structure SendPasses (c : Crypto) (rpc : RpcEnv) (env : SendEnv) (args : SendCallArgs)
    (node : NodeWallet) (r : CRecipient) (chosen : WalletCoin) (paid : Int) (change : Option Int) :
    Prop where
  recipient : ∃ from_hash, sendfromRecipient c rpc node.signer args.from_addr_str args.to_addr_str
      args.nAmount args.fSubtractFeeFromAmount = .ok (from_hash, r) ∧
    chooseUtxo (args.nAmount + env.fee_estimate) (xmssUtxos c from_hash node.coins) = some chosen
  balance : args.nAmount ≤ env.nBalance
  unlocked : node.locked = false
  key : env.changeKey.isSome
  amounts : buildAmounts env chosen.out.nValue r = .ok (paid, change)
  succeeds : env.fails = none

/-- The call. -/
def SendCallArgs.call (c : Crypto) (rpc : RpcEnv) (env : SendEnv) (node : NodeWallet)
    (args : SendCallArgs) : NodeWallet × Except JSONRPCError SentTransaction :=
  sendfromxmssaddress c rpc env args.from_addr_str args.to_addr_str args.nAmount
    args.fSubtractFeeFromAmount node

/-- The transaction with these amounts. -/
def sentTransaction (c : Crypto) (r : CRecipient) (chosen : WalletCoin) (paid : Int)
    (change : Option Int) (changeKey : Blob 64) : SentTransaction where
  spent := chosen
  paid := ⟨paid, getScriptForDestination r.dest⟩
  change := change.map fun value =>
    ⟨value, getScriptForDestination (.xmssHash (.ofPubKey c changeKey))⟩

section Call
variable {c : Crypto} {rpc : RpcEnv} {env : SendEnv} {args : SendCallArgs} {node : NodeWallet}
  {r : CRecipient} {chosen : WalletCoin} {paid : Int} {change : Option Int}

/-- A call that passes the tests creates the transaction. -/
theorem SendPasses.call_eq (h : SendPasses c rpc env args node r chosen paid change) :
    ∃ pubkey sk, env.changeKey = some (pubkey, sk) ∧
      args.call c rpc env node =
        ({ node with signer := node.signer.insert c pubkey.data { sk := sk } }.commit env
            (sentTransaction c r chosen paid change pubkey),
          .ok (sentTransaction c r chosen paid change pubkey)) := by
  obtain ⟨⟨pubkey, sk⟩, hkey⟩ := isSome_iff_exists.mp h.key
  obtain ⟨from_hash, hrecipient, hchosen⟩ := h.recipient
  refine ⟨pubkey, sk, hkey, ?_⟩
  unfold SendCallArgs.call sendfromxmssaddress createFrom
  simp only [hrecipient, if_neg (not_lt.mpr h.balance), h.unlocked, Bool.false_eq_true, if_false,
    hchosen, hkey, h.amounts, h.succeeds]
  rfl

/-- A call that does not pass them leaves the outputs of the wallet alone. -/
theorem call_cases (c : Crypto) (rpc : RpcEnv) (env : SendEnv) (args : SendCallArgs)
    (node : NodeWallet) :
    (∃ r chosen paid change, SendPasses c rpc env args node r chosen paid change) ∨
      ∃ node' e, args.call c rpc env node = (node', .error e) ∧ node'.coins = node.coins := by
  unfold SendCallArgs.call sendfromxmssaddress
  split
  · exact .inr ⟨_, _, rfl, rfl⟩
  rename_i from_hash r hrecipient
  split
  · exact .inr ⟨_, _, rfl, rfl⟩
  rename_i hbalance
  split
  · exact .inr ⟨_, _, rfl, rfl⟩
  rename_i hlocked
  split
  · exact .inr ⟨_, _, rfl, rfl⟩
  rename_i chosen hchosen
  split
  · exact .inr ⟨_, _, rfl, rfl⟩
  rename_i pubkey sk hkey
  unfold createFrom
  cases hamounts : buildAmounts env chosen.out.nValue r with
  | error e => exact .inr ⟨_, _, rfl, rfl⟩
  | ok amounts =>
    cases hfails : env.fails with
    | some e => exact .inr ⟨_, _, rfl, rfl⟩
    | none =>
      exact .inl ⟨r, chosen, amounts.1, amounts.2, ⟨from_hash, hrecipient, hchosen⟩,
        not_lt.mp hbalance, Bool.eq_false_iff.mpr hlocked, by rw [hkey]; rfl, hamounts, hfails⟩

section
variable (h : SendPasses c rpc env args node r chosen paid change)
include h

/-- A call passes the tests with at most one result. -/
theorem SendPasses.unique {r' : CRecipient} {chosen' : WalletCoin} {paid' : Int}
    {change' : Option Int} (h' : SendPasses c rpc env args node r' chosen' paid' change') :
    r' = r ∧ chosen' = chosen ∧ paid' = paid ∧ change' = change := by
  obtain ⟨hash, hrecipient, hchosen⟩ := h.recipient
  obtain ⟨hash', hrecipient', hchosen'⟩ := h'.recipient
  rw [hrecipient] at hrecipient'
  cases hrecipient'
  rw [hchosen] at hchosen'
  cases hchosen'
  have hamounts := h'.amounts
  rw [h.amounts] at hamounts
  cases hamounts
  exact ⟨rfl, rfl, rfl, rfl⟩

/-- The amount that a call asks for is positive. -/
theorem SendPasses.amount_pos : 0 < r.nAmount := by
  obtain ⟨hash, hrecipient, -⟩ := h.recipient
  unfold sendfromRecipient at hrecipient
  split at hrecipient
  · cases hrecipient
  rename_i hpos
  split at hrecipient
  · cases hrecipient
  split at hrecipient
  · cases hrecipient
  cases hrecipient
  exact not_le.mp hpos

/-- The output that a call spends is an output at the source. -/
theorem SendPasses.spent_at_source {hash : Uint160}
    (hsource : args.from_addr_str = encodeHash hash rpc.net.bech32HRP) :
    chosen ∈ node.coins ∧
      outputAddress c rpc.net chosen.out.scriptPubKey = args.from_addr_str := by
  obtain ⟨from_hash, hrecipient, hchosen⟩ := h.recipient
  have hmem := chooseUtxo_mem hchosen
  obtain ⟨hcoin, hpays⟩ := mem_filter.mp hmem
  refine ⟨hcoin, ?_⟩
  have hdecode : decode args.from_addr_str rpc.net.bech32HRP = some from_hash := by
    unfold sendfromRecipient at hrecipient
    split at hrecipient
    · cases hrecipient
    split at hrecipient
    · cases hrecipient
    rename_i hdecode
    split at hrecipient
    · cases hrecipient
    cases hrecipient
    exact hdecode
  rw [hsource, decode_encodeHash (networkHrp rpc.net)] at hdecode
  cases hdecode
  rw [hsource]
  exact outputAddress_of_paysHash (Bool.and_eq_true_iff.mp hpays).2

end

end Call

/-- The signer stays built from keys. -/
theorem signer_built_call {c : Crypto} {rpc : RpcEnv} {args : SendCallArgs}
    (h : node.signer.Built c) : (args.call c rpc env node).1.signer.Built c := by
  unfold SendCallArgs.call sendfromxmssaddress
  repeat' split
  all_goals first
    | exact h
    | exact h.insert _ _

/-! ### Outputs at a set of addresses -/

section Totals
variable (c : Crypto) (net : ChainType) (addresses : List Bytes)

/-- What an output adds to the total. -/
def custodyValue (out : WalletOut) : Int :=
  if outputAddress c net out.scriptPubKey ∈ addresses then out.nValue else 0

/-- The total value of the outputs that sit at the addresses. -/
def custody (coins : List WalletCoin) : Int :=
  (coins.map fun coin => custodyValue c net addresses coin.out).sum

variable {c net addresses}

theorem custodyValue_of_mem {out : WalletOut}
    (h : outputAddress c net out.scriptPubKey ∈ addresses) :
    custodyValue c net addresses out = out.nValue :=
  if_pos h

theorem custodyValue_of_not_mem {out : WalletOut}
    (h : outputAddress c net out.scriptPubKey ∉ addresses) : custodyValue c net addresses out = 0 :=
  if_neg h

/-- An address without outputs does not count. -/
theorem custody_congr {addresses' : List Bytes}
    (h : ∀ coin ∈ coins, outputAddress c net coin.out.scriptPubKey ∈ addresses' ↔
      outputAddress c net coin.out.scriptPubKey ∈ addresses) :
    custody c net addresses' coins = custody c net addresses coins := by
  unfold custody
  refine congrArg List.sum (map_congr_left fun coin hcoin => ?_)
  unfold custodyValue
  simp only [h coin hcoin]

/-- The outputs of a transaction, in any order. -/
theorem sum_outputs (env : SendEnv) (t : SentTransaction) (f : WalletOut → Int) :
    (((t.outputs env).mapIdx fun n out =>
        (⟨⟨env.txid, UInt32.ofNat n⟩, out, 0⟩ : WalletCoin)).map fun coin => f coin.out).sum =
      f t.paid + (t.change.map f).getD 0 := by
  obtain ⟨spent, paid, change⟩ := t
  unfold SentTransaction.outputs
  cases change with
  | none =>
    split <;> rfl
  | some out =>
    split
    · show f out + (f paid + 0) = f paid + f out
      omega
    · show f paid + (f out + 0) = f paid + f out
      omega

/-- The total after a transaction. -/
theorem custody_commit (hspent : t.spent ∈ node.coins) :
    custody c net addresses (node.commit env t).coins =
      custody c net addresses node.coins - custodyValue c net addresses t.spent.out +
        (custodyValue c net addresses t.paid +
          (t.change.map (custodyValue c net addresses)).getD 0) := by
  have herase := sum_map_erase (fun coin : WalletCoin => custodyValue c net addresses coin.out)
    hspent
  have houtputs := sum_outputs env t (custodyValue c net addresses)
  show ((node.coins.erase t.spent ++ _).map _).sum = _
  rw [map_append, sum_append, houtputs]
  unfold custody
  omega

/-- An output of a transaction is the payment or the change. -/
theorem mem_commit {coin : WalletCoin} (h : coin ∈ (node.commit env t).coins) :
    coin ∈ node.coins ∨ coin.out = t.paid ∨ coin.out ∈ t.change := by
  cases mem_append.mp h with
  | inl hold => exact .inl (mem_of_mem_erase hold)
  | inr hnew =>
    right
    obtain ⟨n, hn, rfl⟩ := mem_mapIdx.mp hnew
    have hout : (t.outputs env)[n] ∈ t.outputs env := getElem_mem hn
    show (t.outputs env)[n] = t.paid ∨ (t.outputs env)[n] ∈ t.change
    generalize (t.outputs env)[n] = out at hout ⊢
    unfold SentTransaction.outputs at hout
    split at hout
    · cases mem_append.mp hout with
      | inl hchange => exact .inr (mem_toList.mp hchange)
      | inr hpaid => exact .inl (mem_singleton.mp hpaid)
    · cases mem_cons.mp hout with
      | inl hpaid => exact .inl hpaid
      | inr hchange => exact .inr (mem_toList.mp hchange)

end Totals

/-! ### The loop -/

/-- The address of a key. -/
def keyAddress (c : Crypto) (net : ChainType) (key : Blob 64 × Bytes) : Bytes :=
  XMSSAddr.encodeHash (c.hash160 key.1.data) net.bech32HRP

/-- A turn of the loop that calls `sendfromxmssaddress`, with the state before it. -/
structure SendTurn where
  i : Nat
  addr : Bytes
  cap : Int
  st : SendLoop

/-- The parameters of the call. -/
def SendTurn.args (to_address : Bytes) (turn : SendTurn) : SendCallArgs where
  from_addr_str := turn.addr
  to_addr_str := to_address
  nAmount := if decide (turn.cap ≤ turn.st.remaining) then turn.cap else turn.st.remaining
  fSubtractFeeFromAmount := decide (turn.cap ≤ turn.st.remaining)

/-- The turn at an address, if the address has something to spend. -/
def SendLoop.turn (env : ExplorerEnv) (i : Nat) (addr : Bytes) (st : SendLoop) : Option SendTurn :=
  if env.retired st.node addr then none
  else (((env.listunspent st.node addr).bind List.max?).filter (0 < ·)).map (⟨i, addr, ·, st⟩)

section Loop
variable (c : Crypto) (rpc : RpcEnv) (env : ExplorerEnv) (to_address : Bytes)

/-- The turns of the loop. -/
def sendTurns : Nat → List Bytes → SendLoop → List SendTurn
  | _, [], _ => []
  | i, addr :: addresses, st =>
    if st.remaining ≤ 0 then []
    else (st.turn env i addr).toList ++
      sendTurns (i + 1) addresses (st.visit c rpc env to_address i addr)

/-- The state before a call loses nothing of what sits at the addresses: the chosen output leaves
no change, and nothing is paid to one of the addresses. -/
def SendTurn.KeepsFunds (addresses : List Bytes) (turn : SendTurn) : Prop :=
  ∀ r chosen paid change,
    SendPasses c rpc (env.send turn.i) (turn.args to_address) turn.st.node r chosen paid change →
      getChange (env.send turn.i) chosen.out.nValue (sendTarget (env.send turn.i) r)
          r.fSubtractFeeFromAmount ≤ 0 ∧
        (outputAddress c rpc.net (getScriptForDestination r.dest) ∈ addresses → paid = 0)

/-- The same of a transaction. -/
def SentTransaction.KeepsFunds (c : Crypto) (net : ChainType) (addresses : List Bytes)
    (t : SentTransaction) : Prop :=
  t.change = none ∧ (outputAddress c net t.paid.scriptPubKey ∈ addresses → t.paid.nValue = 0)

variable {c rpc env to_address}

theorem turn_st {i : Nat} {addr : Bytes} {st : SendLoop} {turn : SendTurn}
    (h : st.turn env i addr = some turn) : turn.st = st ∧ turn.addr = addr ∧ turn.i = i := by
  unfold SendLoop.turn at h
  split at h
  · cases h
  obtain ⟨cap, -, rfl⟩ := map_eq_some_iff.mp h
  exact ⟨rfl, rfl, rfl⟩

/-- A visit without a call does nothing. -/
theorem visit_eq (i : Nat) (addr : Bytes) (st : SendLoop) :
    st.visit c rpc env to_address i addr =
      match st.turn env i addr with
      | none => st
      | some turn => st.pay c rpc env to_address i addr turn.cap := by
  unfold SendLoop.visit SendLoop.turn
  split
  · rfl
  cases (env.listunspent st.node addr).bind List.max? with
  | none => rfl
  | some cap =>
    by_cases hcap : cap ≤ 0
    · simp [Option.filter, hcap, not_lt.mpr hcap]
    · simp [Option.filter, hcap, not_le.mp hcap]

/-- The wallet after a turn is the one after its call. -/
theorem pay_node (turn : SendTurn) :
    (turn.st.pay c rpc env to_address turn.i turn.addr turn.cap).node =
      ((turn.args to_address).call c rpc (env.send turn.i) turn.st.node).1 := by
  unfold SendLoop.pay SendCallArgs.call SendTurn.args
  dsimp only
  generalize sendfromxmssaddress _ _ _ _ _ _ _ _ = out
  obtain ⟨node, result⟩ := out
  cases result with
  | error e => rfl
  | ok t =>
    dsimp only
    split <;> rfl

/-- A call that does not pass changes no output, and one that passes adds its transaction. -/
theorem pay_cases (turn : SendTurn) {st' : SendLoop}
    (hst : turn.st.pay c rpc env to_address turn.i turn.addr turn.cap = st') :
    (st'.created = turn.st.created ∧ st'.node.coins = turn.st.node.coins ∧
        ∀ r chosen paid change, ¬ SendPasses c rpc (env.send turn.i) (turn.args to_address)
          turn.st.node r chosen paid change) ∨
      ∃ r chosen paid change pubkey sk,
        SendPasses c rpc (env.send turn.i) (turn.args to_address) turn.st.node r chosen paid change ∧
        (env.send turn.i).changeKey = some (pubkey, sk) ∧
        st'.created = turn.st.created ++ [sentTransaction c r chosen paid change pubkey] ∧
        st'.node.coins = (turn.st.node.commit (env.send turn.i)
          (sentTransaction c r chosen paid change pubkey)).coins := by
  have hcall : sendfromxmssaddress c rpc (env.send turn.i) turn.addr to_address
      (if decide (turn.cap ≤ turn.st.remaining) then turn.cap else turn.st.remaining)
      (decide (turn.cap ≤ turn.st.remaining)) turn.st.node =
        (turn.args to_address).call c rpc (env.send turn.i) turn.st.node := rfl
  rcases call_cases c rpc (env.send turn.i) (turn.args to_address) turn.st.node with
    ⟨r, chosen, paid, change, hpass⟩ | ⟨node', e, herror, hcoins⟩
  · right
    obtain ⟨pubkey, sk, hkey, hok⟩ := hpass.call_eq
    refine ⟨r, chosen, paid, change, pubkey, sk, hpass, hkey, ?_⟩
    rw [SendLoop.pay, hcall, hok] at hst
    dsimp only at hst
    -- Whether the answer is lost or not, the node has done it.
    split at hst <;> exact hst ▸ ⟨rfl, rfl⟩
  · left
    refine ⟨?_, ?_, fun r chosen paid change hpass => ?_⟩
    · rw [SendLoop.pay, hcall, herror] at hst
      exact hst ▸ rfl
    · rw [SendLoop.pay, hcall, herror] at hst
      exact hst ▸ hcoins
    · obtain ⟨_, _, -, hok⟩ := hpass.call_eq
      rw [herror] at hok
      cases hok

/-! ### What the loop keeps -/

/-- A transaction takes from the addresses what it pays and its fee, but for this. -/
def SentTransaction.drift (c : Crypto) (net : ChainType) (addresses : List Bytes)
    (t : SentTransaction) : Int :=
  custodyValue c net addresses t.paid - (t.change.map WalletOut.nValue).getD 0

/-- The invariant of the loop, for the addresses of a user with this total before the call. -/
structure SendLoop.Inv (c : Crypto) (rpc : RpcEnv) (env : ExplorerEnv) (addresses : List Bytes)
    (total : Int) (st : SendLoop) : Prop where
  built : st.node.signer.Built c
  ledger : custody c rpc.net addresses st.node.coins = total -
    (st.created.map fun t => t.paid.nValue + t.fee - t.drift c rpc.net addresses).sum
  paid : ∀ t ∈ st.created, 0 ≤ t.paid.nValue
  change : ∀ t ∈ st.created, ∀ out ∈ t.change,
    outputAddress c rpc.net out.scriptPubKey ∉ addresses ∧
      ∀ key ∈ env.newKey, outputAddress c rpc.net out.scriptPubKey ≠ keyAddress c rpc.net key
  unused : ∀ coin ∈ st.node.coins, ∀ key ∈ env.newKey,
    outputAddress c rpc.net coin.out.scriptPubKey ≠ keyAddress c rpc.net key

/-- The keys that the node makes during the call are new: the addresses of the change are not
recorded for the user, and the address that the user gets at the end is not one of an unspent
output, of the change or of the destination. -/
structure FreshKeys (c : Crypto) (rpc : RpcEnv) (env : ExplorerEnv) (to_address : Bytes)
    (addresses : List Bytes) (coins : List WalletCoin) : Prop where
  change : ∀ i, ∀ key ∈ (env.send i).changeKey, keyAddress c rpc.net key ∉ addresses
  distinct : ∀ i, ∀ key ∈ (env.send i).changeKey, ∀ new ∈ env.newKey,
    keyAddress c rpc.net key ≠ keyAddress c rpc.net new
  unused : ∀ coin ∈ coins, ∀ key ∈ env.newKey,
    outputAddress c rpc.net coin.out.scriptPubKey ≠ keyAddress c rpc.net key
  destination : ∀ s : CXMSSSigner, s.Built c → ∀ dest,
    sendfromDestination c rpc s to_address = .ok dest → ∀ key ∈ env.newKey,
      outputAddress c rpc.net (getScriptForDestination dest) ≠ keyAddress c rpc.net key

/-- The destination of a call that passes. -/
theorem SendPasses.destination {env : SendEnv} {args : SendCallArgs} {r : CRecipient}
    {chosen : WalletCoin} {paid : Int} {change : Option Int}
    (h : SendPasses c rpc env args node r chosen paid change) :
    sendfromDestination c rpc node.signer args.to_addr_str = .ok r.dest := by
  obtain ⟨hash, hrecipient, -⟩ := h.recipient
  unfold sendfromRecipient at hrecipient
  split at hrecipient
  · cases hrecipient
  split at hrecipient
  · cases hrecipient
  split at hrecipient
  · cases hrecipient
  rename_i hdest
  cases hrecipient
  exact hdest

/-- One call keeps the invariant. -/
theorem SendLoop.Inv.pay {total : Int} (hfresh : FreshKeys c rpc env to_address addresses coins)
    {turn : SendTurn} (hmem : turn.addr ∈ addresses)
    (hcanonical : ∃ h, turn.addr = encodeHash h rpc.net.bech32HRP)
    (hinv : turn.st.Inv c rpc env addresses total) :
    (turn.st.pay c rpc env to_address turn.i turn.addr turn.cap).Inv c rpc env addresses total := by
  have hbuilt : (turn.st.pay c rpc env to_address turn.i turn.addr turn.cap).node.signer.Built c := by
    rw [pay_node]
    exact signer_built_call hinv.built
  rcases pay_cases turn rfl with ⟨hcreated, hcoins, -⟩ |
    ⟨r, chosen, paid, change, pubkey, sk, hpass, hkey, hcreated, hcoins⟩
  · exact ⟨hbuilt, by rw [hcreated, hcoins]; exact hinv.ledger, by rw [hcreated]; exact hinv.paid,
      by rw [hcreated]; exact hinv.change, by rw [hcoins]; exact hinv.unused⟩
  obtain ⟨hash, hsource⟩ := hcanonical
  obtain ⟨hspent, haddress⟩ := hpass.spent_at_source hsource
  have hchange : ∀ out ∈ (sentTransaction c r chosen paid change pubkey).change,
      outputAddress c rpc.net out.scriptPubKey = keyAddress c rpc.net (pubkey, sk) := by
    intro out hout
    obtain ⟨value, -, rfl⟩ := map_eq_some_iff.mp hout
    exact outputAddress_ofPubKey c rpc.net pubkey
  generalize ht : sentTransaction c r chosen paid change pubkey = t at hcreated hcoins hchange
  have htpaid : t.paid = ⟨paid, getScriptForDestination r.dest⟩ := by rw [← ht]; rfl
  have htspent : t.spent = chosen := by rw [← ht]; rfl
  refine ⟨hbuilt, ?_, ?_, ?_, ?_⟩
  · -- The input sits at the addresses, and the change does not.
    have hin : custodyValue c rpc.net addresses t.spent.out = t.spent.out.nValue :=
      custodyValue_of_mem (by rw [htspent, haddress]; exact hmem)
    have hout : (t.change.map (custodyValue c rpc.net addresses)).getD 0 = 0 := by
      cases hc : t.change with
      | none => rfl
      | some out =>
        refine custodyValue_of_not_mem ?_
        rw [hchange out hc]
        exact hfresh.change turn.i (pubkey, sk) hkey
    rw [hcoins, hcreated, custody_commit (htspent ▸ hspent), hin, hout, hinv.ledger,
      map_append, sum_append, map_singleton, sum_singleton]
    unfold SentTransaction.fee SentTransaction.drift
    omega
  · intro t' ht'
    rw [hcreated] at ht'
    cases mem_append.mp ht' with
    | inl hold => exact hinv.paid t' hold
    | inr hnew =>
      rw [mem_singleton.mp hnew, htpaid]
      exact buildAmounts_paid_nonneg hpass.amounts hpass.amount_pos
  · intro t' ht' out hout
    rw [hcreated] at ht'
    cases mem_append.mp ht' with
    | inl hold => exact hinv.change t' hold out hout
    | inr hnew =>
      rw [mem_singleton.mp hnew] at hout
      rw [hchange out hout]
      exact ⟨hfresh.change turn.i _ hkey, hfresh.distinct turn.i _ hkey⟩
  · intro coin hcoin key hnew
    rw [hcoins] at hcoin
    rcases mem_commit hcoin with hold | hpaid | hout
    · exact hinv.unused coin hold key hnew
    · rw [hpaid, htpaid]
      exact hfresh.destination turn.st.node.signer hinv.built r.dest hpass.destination key hnew
    · rw [hchange _ hout]
      exact hfresh.distinct turn.i _ hkey key hnew

/-- The invariant over the loop. -/
theorem SendLoop.Inv.sendLoop {total : Int} (hfresh : FreshKeys c rpc env to_address own coins)
    (haddresses : ∀ a ∈ addresses, a ∈ own ∧ ∃ h, a = encodeHash h rpc.net.bech32HRP) :
    ∀ {i : Nat} {st : SendLoop}, st.Inv c rpc env own total →
      (sendLoop c rpc env to_address i addresses st).Inv c rpc env own total := by
  induction addresses with
  | nil => exact fun hinv => hinv
  | cons addr addresses ih =>
    intro i st hinv
    unfold AssentianPQE.sendLoop
    split
    · exact hinv
    refine ih (fun a ha => haddresses a (mem_cons_of_mem _ ha)) ?_
    rw [visit_eq]
    cases hturn : st.turn env i addr with
    | none => exact hinv
    | some turn =>
      obtain ⟨rfl, rfl, rfl⟩ := turn_st hturn
      obtain ⟨hmem, hcanonical⟩ := haddresses turn.addr mem_cons_self
      exact hinv.pay hfresh hmem hcanonical

/-- The transactions of one call lose nothing if the state before it says so. -/
theorem pay_keepsFunds_iff (own : List Bytes) (turn : SendTurn) :
    (∀ t ∈ (turn.st.pay c rpc env to_address turn.i turn.addr turn.cap).created,
        t.KeepsFunds c rpc.net own) ↔
      (∀ t ∈ turn.st.created, t.KeepsFunds c rpc.net own) ∧
        turn.KeepsFunds c rpc env to_address own := by
  rcases pay_cases turn rfl with ⟨hcreated, -, hfails⟩ |
    ⟨r, chosen, paid, change, pubkey, sk, hpass, -, hcreated, -⟩
  · have hkeeps : turn.KeepsFunds c rpc env to_address own :=
      fun r chosen paid change hpass => absurd hpass (hfails r chosen paid change)
    rw [hcreated]
    exact ⟨fun h => ⟨h, hkeeps⟩, fun h => h.1⟩
  · have hkeeps : turn.KeepsFunds c rpc env to_address own ↔
        (sentTransaction c r chosen paid change pubkey).KeepsFunds c rpc.net own := by
      have hchange : (sentTransaction c r chosen paid change pubkey).change = none ↔ change = none :=
        map_eq_none_iff
      rw [SentTransaction.KeepsFunds, hchange, buildAmounts_change_eq_none_iff hpass.amounts]
      constructor
      · exact fun h => h r chosen paid change hpass
      · intro h r' chosen' paid' change' hpass'
        obtain ⟨rfl, rfl, rfl, rfl⟩ := hpass.unique hpass'
        exact h
    rw [hcreated, hkeeps]
    simp only [forall_mem_append, forall_mem_singleton]

/-- The same over the loop. -/
theorem sendLoop_keepsFunds_iff (own : List Bytes) :
    ∀ {i : Nat} {st : SendLoop},
      (∀ t ∈ (sendLoop c rpc env to_address i addresses st).created, t.KeepsFunds c rpc.net own) ↔
        (∀ t ∈ st.created, t.KeepsFunds c rpc.net own) ∧
          ∀ turn ∈ sendTurns c rpc env to_address i addresses st,
            turn.KeepsFunds c rpc env to_address own := by
  induction addresses with
  | nil =>
    intro i st
    exact ⟨fun h => ⟨h, nofun⟩, fun h => h.1⟩
  | cons addr addresses ih =>
    intro i st
    unfold sendLoop sendTurns
    split
    · exact ⟨fun h => ⟨h, nofun⟩, fun h => h.1⟩
    rw [ih, forall_mem_append, visit_eq]
    cases hturn : st.turn env i addr with
    | none => simp
    | some turn =>
      obtain ⟨rfl, rfl, rfl⟩ := turn_st hturn
      dsimp only
      rw [pay_keepsFunds_iff, toList_some, forall_mem_singleton, and_assoc]

end Loop

/-! ### The call -/

section Send
variable {c : Crypto} {rpc : RpcEnv} {env : ExplorerEnv} {request : SendRequest}
  {user : UserRow rpc.net} {node : NodeWallet}

/-- The current address is always recorded. -/
theorem UserRow.getUserAddresses_eq (user : UserRow net) :
    user.getUserAddresses = user.mining_addresses := by
  unfold UserRow.getUserAddresses
  rw [if_neg fun h => h.2 (user.recorded h.1), append_nil]

/-- The turns of a call: none if the request is rejected. -/
def walletTurns (c : Crypto) (rpc : RpcEnv) (env : ExplorerEnv) (request : SendRequest)
    (user : UserRow rpc.net) (node : NodeWallet) : List SendTurn :=
  match request.amount with
  | .value amount =>
    if request.to_address ≠ [] ∧ 0 < amount ∧ user.xmss_address ≠ [] then
      sendTurns c rpc env request.to_address 0 user.getUserAddresses
        { node := node, remaining := amount }
    else []
  | _ => []

/-- A call is rejected, or it runs the loop and may record the new address. -/
theorem walletSend_cases (c : Crypto) (rpc : RpcEnv) (env : ExplorerEnv) (request : SendRequest)
    (user : UserRow rpc.net) (node : NodeWallet) {out : SendOutcome rpc.net}
    (hout : walletSend c rpc env request user node = out) :
    (out.user = user ∧ out.node = node ∧ out.created = [] ∧
        walletTurns c rpc env request user node = []) ∨
      ∃ amount, ∃ st, st = sendLoop c rpc env request.to_address 0 user.getUserAddresses
          { node := node, remaining := amount } ∧
        walletTurns c rpc env request user node =
          sendTurns c rpc env request.to_address 0 user.getUserAddresses
            { node := node, remaining := amount } ∧
        out.created = st.created ∧ out.node.coins = st.node.coins ∧
        (out.user = user ∨ ∃ key ∈ env.newKey, out.user = user.record c rpc key.1) := by
  unfold walletSend at hout
  unfold walletTurns
  split at hout
  · rename_i hto
    left
    cases hout
    refine ⟨rfl, rfl, rfl, ?_⟩
    split
    · rw [if_neg fun h => h.1 hto]
    · rfl
  rename_i hto
  cases hamount : request.amount with
  | missing =>
    rw [hamount] at hout
    cases hout
    exact .inl ⟨rfl, rfl, rfl, rfl⟩
  | invalid =>
    rw [hamount] at hout
    cases hout
    exact .inl ⟨rfl, rfl, rfl, rfl⟩
  | value amount =>
    rw [hamount] at hout
    dsimp only at hout ⊢
    split at hout
    · rename_i hzero
      cases hout
      exact .inl ⟨rfl, rfl, rfl, if_neg fun h => absurd h.2.1 (by omega)⟩
    split at hout
    · rename_i hneg
      cases hout
      exact .inl ⟨rfl, rfl, rfl, if_neg fun h => absurd h.2.1 (by omega)⟩
    rename_i hpos
    split at hout
    · rename_i hnone
      cases hout
      exact .inl ⟨rfl, rfl, rfl, if_neg fun h => h.2.2 hnone⟩
    rename_i hsome
    refine .inr ⟨amount, _, rfl, if_pos ⟨hto, not_le.mp hpos, hsome⟩, ?_⟩
    split at hout
    · cases hout
      exact ⟨rfl, rfl, .inl rfl⟩
    unfold rotateAddress at hout
    dsimp only at hout
    split at hout
    · split at hout
      · cases hout
        exact ⟨rfl, rfl, .inl rfl⟩
      · rename_i pubkey sk hkey
        cases hout
        exact ⟨rfl, rfl, .inr ⟨(pubkey, sk), hkey, rfl⟩⟩
    · cases hout
      exact ⟨rfl, rfl, .inl rfl⟩

/-- The addresses after a rotation. -/
theorem UserRow.mem_record {key : Blob 64 × Bytes} {a : Bytes} :
    a ∈ (user.record c rpc key.1).getUserAddresses ↔
      a ∈ user.getUserAddresses ∨ a = keyAddress c rpc.net key := by
  rw [UserRow.getUserAddresses_eq, UserRow.getUserAddresses_eq]
  show a ∈ (if keyAddress c rpc.net key ∈ user.mining_addresses then user.mining_addresses
    else user.mining_addresses ++ [keyAddress c rpc.net key]) ↔ _
  split
  · rename_i hmem
    exact ⟨.inl, fun h => h.elim id fun heq => heq ▸ hmem⟩
  · rw [mem_append, mem_singleton]

/-- The balance of a user is conserved by a call with this outcome: the total at the user's
addresses drops by what was paid and by the fees, and all change ends at an address that is
recorded for the user. -/
def BalanceConserved (c : Crypto) {net : ChainType} (user : UserRow net) (node : NodeWallet)
    (out : SendOutcome net) : Prop :=
  custody c net out.user.getUserAddresses out.node.coins =
      custody c net user.getUserAddresses node.coins -
        (out.created.map fun t => t.paid.nValue).sum - (out.created.map SentTransaction.fee).sum ∧
    ∀ t ∈ out.created, ∀ change ∈ t.change,
      outputAddress c net change.scriptPubKey ∈ out.user.getUserAddresses

theorem sum_drift (net : ChainType) (own : List Bytes) (created : List SentTransaction) :
    (created.map fun t => t.paid.nValue + t.fee - t.drift c net own).sum =
      (created.map fun t => t.paid.nValue).sum + (created.map SentTransaction.fee).sum -
        (created.map (SentTransaction.drift c net own)).sum := by
  induction created with
  | nil => rfl
  | cons t created ih =>
    simp only [map_cons, sum_cons, ih]
    omega

/-- Without change, only payments to the own addresses stay there. -/
theorem drift_of_change_eq_none (hchange : t.change = none) :
    t.drift c net own = custodyValue c net own t.paid := by
  rw [SentTransaction.drift, hchange]
  exact Int.sub_zero _

/-- The transactions of a call conserve the balance if none of them loses something. -/
theorem sum_drift_eq_zero_iff {created : List SentTransaction}
    (hpaid : ∀ t ∈ created, 0 ≤ t.paid.nValue) (hchange : ∀ t ∈ created, t.change = none) :
    (created.map (SentTransaction.drift c net own)).sum = 0 ↔
      ∀ t ∈ created, outputAddress c net t.paid.scriptPubKey ∈ own → t.paid.nValue = 0 := by
  have hdrift : ∀ t ∈ created, t.drift c net own = custodyValue c net own t.paid :=
    fun t ht => drift_of_change_eq_none (hchange t ht)
  constructor
  · intro hsum t ht hmem
    have hnonneg : ∀ x ∈ created.map (SentTransaction.drift c net own), 0 ≤ x := by
      intro x hx
      obtain ⟨t, ht, rfl⟩ := mem_map.mp hx
      rw [hdrift t ht]
      unfold custodyValue
      split
      · exact hpaid t ht
      · exact le_rfl
    have hzero := all_zero_of_le_zero_le_of_sum_eq_zero hnonneg hsum
      (mem_map_of_mem ht)
    rw [hdrift t ht, custodyValue_of_mem hmem] at hzero
    exact hzero
  · intro hzero
    refine sum_eq_zero fun x hx => ?_
    obtain ⟨t, ht, rfl⟩ := mem_map.mp hx
    rw [hdrift t ht]
    unfold custodyValue
    split
    · exact hzero t ht ‹_›
    · rfl

end Send

/-! ### A payment with change -/

/-- A user with one address. -/
def custodyUser : UserRow sampleRpcEnv.net where
  xmss_address := ownAddress
  mining_addresses := [ownAddress]
  canonical _ ha := ⟨_, List.mem_singleton.mp ha⟩
  recorded _ := List.mem_singleton.mpr rfl

/-- A wallet with one output of ten units at this address. -/
def custodyNode : NodeWallet where
  coins := [⟨⟨nullHash, 0⟩,
    ⟨10, getScriptForDestination (.xmssHash (.ofHash (sampleCrypto.hash160 samplePubkey)))⟩, 1⟩]
  signer := CXMSSSigner.empty

/-- A node that charges no fees. -/
def custodyEnv : ExplorerEnv where
  retired _ _ := false
  listunspent node addr := some ((node.coins.filter fun coin =>
    outputAddress sampleCrypto sampleRpcEnv.net coin.out.scriptPubKey = addr).map (·.out.nValue))
  send _ := { nBalance := 10, changeKey := some (Blob.ofNat 64 5, []), txid := Blob.ofNat 32 1 }

theorem changeAddress_unrecorded : keyAddress sampleCrypto sampleRpcEnv.net (Blob.ofNat 64 5, []) ∉
    custodyUser.getUserAddresses := by
  decide +kernel

theorem freshKeys_custodyEnv : FreshKeys sampleCrypto sampleRpcEnv custodyEnv foreignAddress
    custodyUser.getUserAddresses custodyNode.coins where
  change := by
    intro _ key hkey
    rw [← Option.some.inj hkey]
    exact changeAddress_unrecorded
  distinct _ _ _ := nofun
  unused _ _ := nofun
  destination _ _ _ _ := nofun

end AssentianPQE
