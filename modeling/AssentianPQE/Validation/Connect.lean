import AssentianPQE.Script.Solver
import AssentianPQE.Validation.Block

/-!
# `AssentianPQE.Validation.Connect`: connecting and disconnecting a block

`ConnectBlock` and `DisconnectBlock` (`validation.cpp`): the coins that a block spends and
adds, the undo data, and the tables of the block tree database that record which XMSS leaves
the blocks of the active chain have used.

`ConnectBlock` is split where it starts to read those tables. `connectCoins` is everything
before: it reads only the block, its ancestors and the coins. `checkSpendLeaves` is the test
against the table, and `markLeaves` are the writes.

The view's best block is not modelled: every caller passes the view of the parent. The
outcome of the `-assumevalid` tests is the argument `fScriptChecks`.
-/

set_option autoImplicit false

namespace AssentianPQE

open Lib

/-! ### The tables -/

/-- The tables that this node adds to the block tree database: `DB_POUW_LEAF`,
`DB_POUW_LEAF_LIST` and `DB_POUW_BURNED_ADDR`. -/
structure LeafDB where
  leaf : LeafTable
  leafList : Uint256 → Option (List Uint256)
  burned : Uint160 → Bool

namespace LeafDB

/-- The tables of a new database. -/
def empty : LeafDB :=
  ⟨fun _ => none, fun _ => none, fun _ => false⟩

/-- Record a leaf as used by a block. -/
def mark (db : LeafDB) (key bh : Uint256) : LeafDB :=
  { db with leaf := Function.update db.leaf key (some bh) }

/-- Erase the record of a leaf. -/
def unmark (db : LeafDB) (key : Uint256) : LeafDB :=
  { db with leaf := Function.update db.leaf key none }

end LeafDB

/-- Why `ConnectBlock` returns `false`: the block is invalid, or the node cannot go on (a
`FatalError`, a failed assertion or an exception). -/
inductive ConnectFailure where
  | invalid (why : BlockInvalid)
  | fatal
deriving DecidableEq

/-! ### Rules by height -/

/-- `GetBlockSubsidy`. -/
def getBlockSubsidy (params : Params) (nHeight : Nat) : Int :=
  let halvings := (nHeight : Int).tdiv params.nSubsidyHalvingInterval
  if 64 ≤ halvings then 0 else 50 * COIN / 2 ^ halvings.toNat

/-- `GetBlockScriptFlags`. -/
def getBlockScriptFlags (params : Params) (hash : Uint256) (nHeight : Nat) : ScriptFlags :=
  let flags := (params.scriptFlagExceptions hash).getD
    { p2sh := true, witness := true, taproot := true }
  { flags with
    derSig := flags.derSig || deploymentActive params.BIP66Height nHeight
    checkLockTimeVerify := flags.checkLockTimeVerify || deploymentActive params.BIP65Height nHeight
    checkSequenceVerify := flags.checkSequenceVerify || deploymentActive params.CSVHeight nHeight
    nullDummy := flags.nullDummy || deploymentActive params.SegwitHeight nHeight }

/-- The flags without `STANDARD_NOT_MANDATORY_VERIFY_FLAGS`. -/
def ScriptFlags.mandatory (flags : ScriptFlags) : ScriptFlags where
  p2sh := flags.p2sh
  derSig := flags.derSig
  nullDummy := flags.nullDummy
  sigPushOnly := flags.sigPushOnly
  checkLockTimeVerify := flags.checkLockTimeVerify
  checkSequenceVerify := flags.checkSequenceVerify
  witness := flags.witness
  taproot := flags.taproot

/-- `IsBIP30Repeat`. -/
def isBIP30Repeat (nHeight : Nat) (hash : Uint256) : Bool :=
  (nHeight = 91842 ∧ hash.toNat =
    0x00000000000a4d0a398161ffc163c503763b1f4360639393e0e4c8e300e0caec) ∨
  (nHeight = 91880 ∧ hash.toNat =
    0x00000000000743f190a18c5577a3c2d2a1f610ae9601ac046a38084ccb7cd721)

/-- The blocks whose coinbase `DisconnectBlock` may fail to find (`IsBIP30Unspendable`). -/
def isBIP30Unspendable (nHeight : Nat) (hash : Uint256) : Bool :=
  (nHeight = 91722 ∧ hash.toNat =
    0x00000000000271a2dc26e7667f8419f2e15416dc6955e5a6c6cdf3f2574dd08e) ∨
  (nHeight = 91812 ∧ hash.toNat =
    0x00000000000af0aed4792b1acee3d966af36cf5def14935db8de83d6f9306f2f)

def BIP34_IMPLIES_BIP30_LIMIT : Nat := 1983702

/-- `GetAncestor` on a chain of headers, the newest first. -/
def getAncestor (chain : List BlockHeader) (height : Int) : Option BlockHeader :=
  if height < 0 then none else chain.reverse[height.toNat]?

/-- Whether the overwriting of unspent outputs is tested. `prev` are the ancestors. -/
def enforceBIP30 (c : Crypto) (params : Params) (prev : List BlockHeader) (hash : Uint256) :
    Bool :=
  (!isBIP30Repeat prev.length hash &&
    !((getAncestor prev params.BIP34Height).any fun h => h.getHash c = params.BIP34Hash)) ||
  decide (BIP34_IMPLIES_BIP30_LIMIT ≤ prev.length)

/-- The BIP 30 test: no output of the block is already unspent in the view. -/
def overwrites (c : Crypto) (view : CoinsView) (block : Block) (nHeight : Nat) : Bool :=
  block.vtx.any fun tx => (newCoins c tx nHeight).any fun p => (view p.1).isSome

/-! ### Scripts of a transaction -/

/-- What `ConnectBlock` is called with, apart from the state: the primitives, the parameters,
its flags, and the block index as the chain of headers from the block down to genesis. -/
structure ConnectContext where
  crypto : Crypto
  params : Params
  fScriptChecks : Bool
  /-- `parallel_script_checks`: the check queue has threads. -/
  parallel : Bool
  fJustCheck : Bool
  prev : List BlockHeader
  block : Block

namespace ConnectContext

def nHeight (ctx : ConnectContext) : Nat :=
  ctx.prev.length

def hash (ctx : ConnectContext) : Uint256 :=
  ctx.block.getHash ctx.crypto

def flags (ctx : ConnectContext) : ScriptFlags :=
  getBlockScriptFlags ctx.params ctx.hash ctx.nHeight

/-- `fCheckSpendLeafReuse`. -/
def checkSpendLeafReuse (ctx : ConnectContext) : Bool :=
  ctx.params.nXMSSSpendLeafReuseActivation ≤ ctx.nHeight

end ConnectContext

/-- The `CScriptCheck` of each input of a transaction, run with the given flags. -/
def scriptChecks (c : Crypto) (params : Params) (flags : ScriptFlags) (view : CoinsView)
    (tx : Transaction) : List (Captured Unit) :=
  let spent := spentCoins view tx
  (tx.vin.zip spent).mapIdx fun j p =>
    let t : TxContext :=
      { tx := tx, nIn := j, input := p.1, amount := p.2.out.nValue
        spentOutputs := spent.map Coin.out, xmssChainId := params.nXMSSChainId }
    verifyScript c flags (t.checker c) p.1.scriptSig p.2.out.scriptPubKey p.1.scriptWitness

/-- The reject reason of `CheckInputScripts` for a check that failed with `e`. `again` is the
same check without the flags that are not mandatory. -/
def scriptRejectReason (flags : ScriptFlags) (again : Option (Captured Unit)) (e : ScriptError) :
    String :=
  if flags ≠ flags.mandatory ∧ again.any Captured.isOk then
    "non-mandatory-script-verify-flag (" ++ scriptErrorString e ++ ")"
  else "mandatory-script-verify-flag-failed (" ++ scriptErrorString e ++ ")"

/-- For each script check of a transaction the reject reason, if it fails. -/
def scriptFailures (c : Crypto) (params : Params) (flags : ScriptFlags) (view : CoinsView)
    (tx : Transaction) : List (Option String) :=
  let again := scriptChecks c params flags.mandatory view tx
  (scriptChecks c params flags view tx).mapIdx fun j check =>
    match check.result with
    | .ok () => none
    | .error e => some (scriptRejectReason flags again[j]? e)

/-- `CheckInputScripts` with the checks run inline: the reason of the first one that fails. -/
def checkInputScripts (c : Crypto) (params : Params) (flags : ScriptFlags) (view : CoinsView)
    (tx : Transaction) : Except String Unit :=
  match (scriptFailures c params flags view tx).findSome? id with
  | some reason => .error reason
  | none => .ok ()

/-- The slots of `xmss_leaf_capture` for one transaction, in order: what its scripts verified,
or, if they are not run, what the scripts look like they use. -/
def txLeafUses (ctx : ConnectContext) (view : CoinsView) (tx : Transaction) : XMSSLeafUses :=
  if !ctx.checkSpendLeafReuse ∨ tx.isCoinBase then []
  else if ctx.fScriptChecks then
    ((scriptChecks ctx.crypto ctx.params ctx.flags view tx).map Captured.uses).flatten
  else
    tx.vin.filterMap fun i =>
      (view i.prevout).bind fun coin => extractXMSSLeafUse coin.out.scriptPubKey i.scriptSig

/-! ### The loop over the transactions -/

/-- What the loop of `ConnectBlock` carries. `vtxundo` has one entry for each transaction so
far, the first one for the coinbase. -/
structure ConnectState where
  view : CoinsView
  nFees : Int := 0
  nSigOpsCost : Nat := 0
  vtxundo : List (List Coin) := []
  uses : XMSSLeafUses := []
  /-- No script check in the queue has failed. -/
  queueOk : Bool := true

/-- The tests on the inputs of a transaction that is no coinbase: the fees so far. -/
def checkSpend (ctx : ConnectContext) (st : ConnectState) (tx : Transaction) :
    Except String Int :=
  match checkTxInputs tx st.view ctx.nHeight with
  | .error reason => .error reason
  | .ok txfee =>
    let prevheights := (spentCoins st.view tx).map Coin.nHeight
    if !moneyRange (st.nFees + txfee) then .error "bad-txns-accumulated-fee-outofrange"
    else if !sequenceLocks (deploymentActive ctx.params.CSVHeight ctx.nHeight) tx prevheights
        (ctx.block.header :: ctx.prev) then
      .error "bad-txns-nonfinal"
    else .ok (st.nFees + txfee)

/-- The scripts of a transaction: with threads a failure is only found at the end. -/
def checkScripts (ctx : ConnectContext) (view : CoinsView) (tx : Transaction) :
    Except String Bool :=
  if tx.isCoinBase ∨ !ctx.fScriptChecks then .ok true
  else if ctx.parallel then
    .ok ((scriptChecks ctx.crypto ctx.params ctx.flags view tx).all Captured.isOk)
  else (checkInputScripts ctx.crypto ctx.params ctx.flags view tx).map fun _ => true

/-- The tests of the loop on one transaction: the fees, the signature operations and the
verdict on the queued scripts after it. -/
def checkTx (ctx : ConnectContext) (st : ConnectState) (tx : Transaction) :
    Except String (Int × Nat × Bool) :=
  match (if tx.isCoinBase then .ok st.nFees else checkSpend ctx st tx) with
  | .error reason => .error reason
  | .ok nFees =>
    let nSigOpsCost := st.nSigOpsCost + getTransactionSigOpCost tx st.view ctx.flags
    if MAX_BLOCK_SIGOPS_COST < nSigOpsCost then .error "bad-blk-sigops"
    else
      match checkScripts ctx st.view tx with
      | .error reason => .error reason
      | .ok ok => .ok (nFees, nSigOpsCost, st.queueOk && ok)

/-- The body of the loop. -/
def connectTx (ctx : ConnectContext) (st : ConnectState) (tx : Transaction) :
    Except ConnectFailure ConnectState :=
  match checkTx ctx st tx with
  | .error reason => .error (.invalid (consensusError reason))
  | .ok (nFees, nSigOpsCost, queueOk) =>
    match updateCoins ctx.crypto st.view tx ctx.nHeight with
    | none => .error .fatal
    | some view => .ok
      { view := view, nFees := nFees, nSigOpsCost := nSigOpsCost
        vtxundo := st.vtxundo ++ [if tx.isCoinBase then [] else spentCoins st.view tx]
        uses := st.uses ++ txLeafUses ctx st.view tx
        queueOk := queueOk }

/-- The loop. -/
def connectTxs (ctx : ConnectContext) : List Transaction → ConnectState →
    Except ConnectFailure ConnectState
  | [], st => .ok st
  | tx :: rest, st =>
    match connectTx ctx st tx with
    | .error e => .error e
    | .ok st' => connectTxs ctx rest st'

/-- The effect of a block on the coins: the new view, `CBlockUndo::vtxundo` and
`vSpendLeafUses`. -/
structure Connected where
  view : CoinsView
  vtxundo : List (List Coin)
  uses : XMSSLeafUses

/-- `ConnectBlock` from the BIP 30 test up to `control.Wait()`. -/
def connectCoins (ctx : ConnectContext) (view : CoinsView) : Except ConnectFailure Connected :=
  if enforceBIP30 ctx.crypto ctx.params ctx.prev ctx.hash ∧
      overwrites ctx.crypto view ctx.block ctx.nHeight then
    .error (.invalid (consensusError "bad-txns-BIP30"))
  else
    match connectTxs ctx ctx.block.vtx { view := view } with
    | .error e => .error e
    | .ok st =>
      let blockReward := st.nFees + getBlockSubsidy ctx.params ctx.nHeight
      if blockReward < (ctx.block.vtx.head?.map getValueOut).getD 0 then
        .error (.invalid (consensusError "bad-cb-amount"))
      else if !st.queueOk then .error (.invalid (consensusError "block-validation-failed"))
      else .ok ⟨st.view, st.vtxundo.drop 1, st.uses⟩

/-! ### Leaves -/

/-- The key of the leaf that `ParseCoinbasePoUWLeaf` finds in a block, on a chain with
proofs. -/
def coinbaseLeafKey (c : Crypto) (params : Params) (block : Block) : Option Uint256 :=
  if params.fPoUW then
    (block.vtx.head?.bind fun cb => parseCoinbasePoUWLeaf cb block.nLeafIndex).map fun use =>
      makePoUWLeafKey c use.1 use.2
  else none

/-- The keys of leaf uses. -/
def leafKeys (c : Crypto) (uses : XMSSLeafUses) : List Uint256 :=
  uses.map fun use => makePoUWLeafKey c use.1 use.2

/-- The loop of the reuse test: a key is new in this block and not in the table. -/
def checkLeafKeys (leafDB : LeafTable) : List Uint256 → List Uint256 → Except BlockInvalid Unit
  | _, [] => .ok ()
  | seen, key :: rest =>
    if key ∈ seen then .error (consensusError "xmss-spend-leaf-reuse")
    else if (leafDB key).isSome then .error (consensusError "xmss-spend-leaf-reuse")
    else checkLeafKeys leafDB (key :: seen) rest

/-- The reuse test of `ConnectBlock` on `vSpendLeafUses`. -/
def checkSpendLeaves (c : Crypto) (params : Params) (leafDB : LeafTable) (block : Block)
    (uses : XMSSLeafUses) : Except BlockInvalid Unit :=
  checkLeafKeys leafDB (coinbaseLeafKey c params block).toList (leafKeys c uses)

/-- The addresses of the failed seeds that a coinbase publishes. -/
def burnedAddresses (c : Crypto) (params : Params) (block : Block) : List Uint160 :=
  if !params.fPoUW then []
  else
    let lists := ((block.vtx.head?.map Transaction.vout).getD []).filterMap fun out =>
      (opReturnPush out.scriptPubKey).filter fun d => d.take 4 = SEEDS_MAGIC
    match lists with
    | [] => []
    | d :: _ => ((fslDeserialize c d).getD []).map fun entry =>
      c.hash160 (entry.xmss_root.data ++ (entry.sk_seed.data.drop 64).take 32)

/-- The writes at the end of `ConnectBlock`: the leaf of the coinbase, the burned addresses,
the leaves of the spends and their list. -/
def markLeaves (c : Crypto) (params : Params) (db : LeafDB) (block : Block)
    (uses : XMSSLeafUses) : LeafDB :=
  let bh := block.getHash c
  let db := (coinbaseLeafKey c params block).elim db fun key => db.mark key bh
  let db := { db with burned := fun a => db.burned a || (burnedAddresses c params block).contains a }
  let db := (leafKeys c uses).foldl (fun db key => db.mark key bh) db
  if uses = [] then db
  else { db with leafList := Function.update db.leafList bh (some (leafKeys c uses)) }

/-! ### `ConnectBlock` -/

/-- `ConnectBlock`: the effect on the coins and the tables after it. The genesis block and a
block that is only checked leave the tables as they are. -/
def connectBlock (ctx : ConnectContext) (db : LeafDB) (view : CoinsView) :
    Except ConnectFailure (Connected × LeafDB) :=
  match checkBlock ctx.crypto ctx.params ctx.block (!ctx.fJustCheck) (!ctx.fJustCheck) with
  | .error e => .error (if e.result = .mutated then .fatal else .invalid e)
  | .ok () =>
    if ctx.hash = ctx.params.hashGenesisBlock then .ok (⟨view, [], []⟩, db)
    else if ctx.prev = [] then .error .fatal
    else
      match connectCoins ctx view with
      | .error e => .error e
      | .ok r =>
        match checkSpendLeaves ctx.crypto ctx.params db.leaf ctx.block r.uses with
        | .error e => .error (.invalid e)
        | .ok () =>
          if ctx.fJustCheck then .ok (r, db)
          else .ok (r, markLeaves ctx.crypto ctx.params db ctx.block r.uses)

end AssentianPQE
