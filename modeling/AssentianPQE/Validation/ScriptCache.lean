import AssentianPQE.Validation.Connect
import AssentianPQE.Wallet.SignTx

/-!
# `AssentianPQE.Validation.ScriptCache`: script checks of the mempool and of blocks

`CheckInputScripts` (`validation.cpp`) with the script execution cache, and its callers:
`PolicyScriptChecks` and `ConsensusScriptChecks` in `AcceptSingleTransaction` and in
`AcceptMultipleTransactions` with `SubmitPackage`, and the loop of `ConnectBlock`. The chain id
that the scripts are judged under is a field of `PrecomputedTransactionData`, which is 1 until a
caller sets it.

What comes before the scripts (`PreChecks`, the limits of packages) has been passed. The views of
the callers are arguments. The cache can lose entries at any time.
-/

set_option autoImplicit false

namespace AssentianPQE

open Lib

/-! ### The cache -/

/-- The value of the flags as `unsigned int`. -/
def ScriptFlags.bits (f : ScriptFlags) : Nat :=
  ([f.p2sh, f.strictEnc, f.derSig, f.lowS, f.nullDummy, f.sigPushOnly, f.minimalData,
    f.discourageUpgradableNops, f.cleanStack, f.checkLockTimeVerify, f.checkSequenceVerify,
    f.witness, f.discourageUpgradableWitnessProgram, f.minimalIf, f.nullFail, f.witnessPubkeyType,
    f.constScriptCode, f.taproot, f.discourageUpgradableTaprootVersion, f.discourageOpSuccess,
    f.discourageUpgradablePubkeyType].zipIdx.map fun p => if p.1 then 2 ^ p.2 else 0).sum

/-- `hashCacheEntry`. The salt of `g_scriptExecutionCacheHasher` comes first, twice. -/
def hashCacheEntry (c : Crypto) (nonce : Uint256) (tx : Transaction) (flags : ScriptFlags) :
    Uint256 :=
  c.sha256 (nonce.data ++ (nonce.data ++ ((tx.getWitnessHash c).data ++ leBytes 4 flags.bits)))

/-- `g_scriptExecutionCache`. -/
abbrev ScriptCache := List Uint256

/-- The arguments of a call of `CheckInputScripts`. -/
structure CheckCall where
  tx : Transaction
  view : CoinsView
  flags : ScriptFlags
  /-- `txdata.xmss_chain_id`. -/
  xmssChainId : UInt32 := 1
  cacheFullScriptStore : Bool
  /-- The checks go to a queue (`pvChecks`). -/
  queued : Bool := false
  /-- The used leaves are asked for (`pxmss_leaf_uses_per_input`). -/
  capture : Bool := false

/-- A transaction with the view of its inputs. -/
structure Workspace where
  tx : Transaction
  view : CoinsView

/-- How `ConnectBlock` checks scripts. -/
structure BlockChecks where
  fJustCheck : Bool
  parallel : Bool
  fCheckSpendLeafReuse : Bool
  flags : ScriptFlags

/-- What a node has for its script checks, apart from the cache. -/
structure Checker where
  crypto : Crypto
  params : Params
  /-- The salt of the cache. -/
  nonce : Uint256

namespace Checker

/-- The entry of a call. -/
def entry (k : Checker) (a : CheckCall) : Uint256 :=
  hashCacheEntry k.crypto k.nonce a.tx a.flags

/-- Every script of the transaction succeeds under a chain id. -/
def scriptsOk (k : Checker) (xmssChainId : UInt32) (flags : ScriptFlags) (view : CoinsView)
    (tx : Transaction) : Bool :=
  (scriptChecks k.crypto { k.params with nXMSSChainId := xmssChainId } flags view tx).all
    Captured.isOk

/-- The call returns from the cache. -/
def hits (k : Checker) (a : CheckCall) (cache : ScriptCache) : Bool :=
  !a.tx.isCoinBase && !a.capture && cache.contains (k.entry a)

/-- `CheckInputScripts`: the reject reason, or whether the queued checks succeed. -/
def checkInputScripts (k : Checker) (a : CheckCall) (cache : ScriptCache) :
    Except String Bool × ScriptCache :=
  if a.tx.isCoinBase then (.ok true, cache)
  else if k.hits a cache then (.ok true, cache)
  else if a.queued then (.ok (k.scriptsOk a.xmssChainId a.flags a.view a.tx), cache)
  else
    match AssentianPQE.checkInputScripts k.crypto { k.params with nXMSSChainId := a.xmssChainId }
      a.flags a.view a.tx with
    | .error reason => (.error reason, cache)
    | .ok () =>
      (.ok true, if a.cacheFullScriptStore && !a.capture then k.entry a :: cache else cache)

/-- The scripts are accepted. -/
def accepts (k : Checker) (a : CheckCall) (cache : ScriptCache) : Bool :=
  match (k.checkInputScripts a cache).1 with
  | .ok b => b
  | .error _ => false

/-! ### The mempool -/

/-- The call of `PolicyScriptChecks` with some flags. -/
def policyCall (xmssChainId : UInt32) (tx : Transaction) (view : CoinsView) (flags : ScriptFlags) :
    CheckCall where
  tx := tx
  view := view
  flags := flags
  xmssChainId := xmssChainId
  cacheFullScriptStore := false

/-- Why `PolicyScriptChecks` fails. -/
structure PolicyFailure where
  reason : String
  /-- `TX_WITNESS_STRIPPED`. -/
  witnessStripped : Bool
deriving DecidableEq

/-- `PolicyScriptChecks`. None of its calls stores in the cache. -/
def policyScriptChecks (k : Checker) (xmssChainId : UInt32) (tx : Transaction) (view : CoinsView)
    (cache : ScriptCache) : Except PolicyFailure Unit :=
  let call := policyCall xmssChainId tx view
  let flags := standardScriptVerifyFlags
  match (k.checkInputScripts (call flags) cache).1 with
  | .ok _ => .ok ()
  | .error reason =>
    let stripped := !tx.hasWitness &&
      k.accepts (call { flags with witness := false, cleanStack := false }) cache &&
      !k.accepts (call { flags with cleanStack := false }) cache
    .error ⟨reason, stripped⟩

/-- The call of `ConsensusScriptChecks`, with the flags of the tip. -/
def consensusCall (xmssChainId : UInt32) (tx : Transaction) (view : CoinsView)
    (tipFlags : ScriptFlags) : CheckCall where
  tx := tx
  view := view
  flags := tipFlags
  xmssChainId := xmssChainId
  cacheFullScriptStore := true

/-- The script checks of `AcceptSingleTransaction`: whether they pass. -/
def acceptSingleTransaction (k : Checker) (tipFlags : ScriptFlags) (ws : Workspace)
    (cache : ScriptCache) : Bool × ScriptCache :=
  let xmssChainId := k.params.nXMSSChainId
  match k.policyScriptChecks xmssChainId ws.tx ws.view cache with
  | .error _ => (false, cache)
  | .ok () =>
    match k.checkInputScripts (consensusCall xmssChainId ws.tx ws.view tipFlags) cache with
    | (.error _, cache) => (false, cache)
    | (.ok b, cache) => (b, cache)

/-- The loop of `AcceptMultipleTransactions`. No chain id is set in a workspace of a package. -/
def packagePolicyChecks (k : Checker) (cache : ScriptCache) : List Workspace → Bool
  | [] => true
  | ws :: rest =>
    match k.policyScriptChecks 1 ws.tx ws.view cache with
    | .error _ => false
    | .ok () => k.packagePolicyChecks cache rest

/-- The loop of `SubmitPackage`. It goes on after a failure. -/
def submitPackage (k : Checker) (tipFlags : ScriptFlags) :
    List Workspace → ScriptCache → Bool × ScriptCache
  | [], cache => (true, cache)
  | ws :: rest, cache =>
    let (verdict, cache) := k.checkInputScripts (consensusCall 1 ws.tx ws.view tipFlags) cache
    let (restOk, cache) := k.submitPackage tipFlags rest cache
    (verdict = .ok true && restOk, cache)

/-- The script checks of `AcceptMultipleTransactions`. -/
def acceptMultipleTransactions (k : Checker) (testAccept : Bool) (tipFlags : ScriptFlags)
    (workspaces : List Workspace) (cache : ScriptCache) : Bool × ScriptCache :=
  if !k.packagePolicyChecks cache workspaces then (false, cache)
  else if testAccept then (true, cache)
  else k.submitPackage tipFlags workspaces cache

/-! ### Blocks -/

/-- The call of `ConnectBlock` for a transaction. -/
def blockCall (k : Checker) (b : BlockChecks) (ws : Workspace) : CheckCall where
  tx := ws.tx
  view := ws.view
  flags := b.flags
  xmssChainId := k.params.nXMSSChainId
  cacheFullScriptStore := b.fJustCheck
  queued := b.parallel
  capture := b.fCheckSpendLeafReuse

/-- The calls of `ConnectBlock` for the transactions of a block, up to the first that fails. -/
def connectScripts (k : Checker) (b : BlockChecks) : List Workspace → ScriptCache →
    Bool × ScriptCache
  | [], cache => (true, cache)
  | ws :: rest, cache =>
    match k.checkInputScripts (k.blockCall b ws) cache with
    | (.error _, cache) => (false, cache)
    | (.ok queueOk, cache) =>
      let (restOk, cache) := k.connectScripts b rest cache
      (queueOk && restOk, cache)

end Checker

/-! ### Runs -/

/-- What uses the cache of a node, and the loss of entries. -/
inductive CacheOp where
  | single (tipFlags : ScriptFlags) (ws : Workspace)
  | multiple (testAccept : Bool) (tipFlags : ScriptFlags) (workspaces : List Workspace)
  | connect (b : BlockChecks) (workspaces : List Workspace)
  | evict (keep : Uint256 → Bool)

/-- The cache after an operation. -/
def Checker.step (k : Checker) (cache : ScriptCache) : CacheOp → ScriptCache
  | .single tipFlags ws => (k.acceptSingleTransaction tipFlags ws cache).2
  | .multiple testAccept tipFlags workspaces =>
    (k.acceptMultipleTransactions testAccept tipFlags workspaces cache).2
  | .connect b workspaces => (k.connectScripts b workspaces cache).2
  | .evict keep => cache.filter keep

/-- The cache after a run. -/
def Checker.run (k : Checker) (ops : List CacheOp) : ScriptCache :=
  ops.foldl k.step []

end AssentianPQE
