import AssentianPQE.Validation.Connect
import AssentianPQE.Wallet.SignTx

/-!
# `AssentianPQE.Validation.Mempool`: transactions that wait for a block

`AcceptToMemoryPool` (`validation.cpp`) for a single transaction: `PreChecks`, the script checks
of `PolicyScriptChecks` and `ConsensusScriptChecks`, and `Finalize`. A mempool is the list of its
entries in the order in which they were added, so the parents of a transaction come before it.

Rules of policy that no consensus rule depends on are a parameter (`MempoolPolicy`): standard
scripts, fee rates, the limits on chains of transactions, replacement, and what is evicted when
the mempool is full. The script cache is left out. Scripts are run again where the source finds
them in the cache.
-/

set_option autoImplicit false

namespace AssentianPQE

open Lib

def MEMPOOL_HEIGHT : Nat := 0x7fffffff
def MAX_STANDARD_TX_SIGOPS_COST : Nat := MAX_BLOCK_SIGOPS_COST / 5
def MIN_STANDARD_TX_NONWITNESS_SIZE : Nat := 65

/-- `CTxMemPoolEntry`. -/
structure MempoolEntry where
  tx : Transaction
  nFee : Int
  sigOpCost : Nat
deriving DecidableEq

/-- The entries, the oldest first. -/
abbrev Mempool := List MempoolEntry

/-- What a node reads of its active chain: the headers, the newest first, the coins, and the
tables of used leaves. -/
structure Tip where
  chain : List BlockHeader
  coins : CoinsView
  db : LeafDB

/-- The height of the next block. -/
def Tip.nextHeight (tip : Tip) : Nat :=
  tip.chain.length

/-- Rules of policy: the reject reason, if any. -/
structure MempoolPolicy where
  /-- `IsStandardTx`. -/
  standardTx : Transaction → Option String := fun _ => none
  /-- `AreInputsStandard` and `IsWitnessStandard`. -/
  standardInputs : Transaction → CoinsView → Option String := fun _ _ => none
  /-- An entry may be replaced. -/
  replaceable : MempoolEntry → Bool := fun _ => false
  /-- Fee rates and the limits on ancestors and descendants. -/
  limits : Mempool → MempoolEntry → Option String := fun _ _ => none
  /-- `ReplacementChecks`. -/
  replacement : Mempool → MempoolEntry → Option String := fun _ _ => none
  /-- The entries that `LimitMempoolSize` removes, with their descendants. -/
  evicted : Mempool → MempoolEntry → Bool := fun _ _ => false

section Pool
variable (c : Crypto)

/-- The view of the coins of the tip and of the outputs of the mempool (`CCoinsViewMemPool`). -/
def poolView (tip : Tip) (pool : Mempool) : CoinsView := fun o =>
  match pool.find? fun e => e.tx.getHash c = o.hash with
  | some e => e.tx.vout[o.n.toNat]?.map fun out => ⟨out, MEMPOOL_HEIGHT, false⟩
  | none => tip.coins o

/-- The walk from a transaction to its ancestors, the newest entry first. -/
def ancestorsFrom : List Uint256 → List MempoolEntry → List MempoolEntry
  | _, [] => []
  | wanted, e :: rest =>
    if e.tx.getHash c ∈ wanted then
      e :: ancestorsFrom (wanted ++ e.tx.vin.map fun i => i.prevout.hash) rest
    else ancestorsFrom wanted rest

/-- `CalculateMemPoolAncestors`, the oldest first. -/
def Mempool.ancestors (pool : Mempool) (tx : Transaction) : List MempoolEntry :=
  (ancestorsFrom c (tx.vin.map fun i => i.prevout.hash) pool.reverse).reverse

/-- The entries that spend an output that a transaction spends. -/
def Mempool.conflicts (pool : Mempool) (tx : Transaction) : List MempoolEntry :=
  pool.filter fun e => e.tx.vin.any fun i => tx.vin.any fun j => i.prevout = j.prevout

/-- The entries without those that are `gone` and without their descendants. -/
def removeRecursive (gone : List Uint256) : List MempoolEntry → List MempoolEntry
  | [] => []
  | e :: rest =>
    if e.tx.getHash c ∈ gone ∨ (e.tx.vin.any fun i => decide (i.prevout.hash ∈ gone)) then
      removeRecursive (e.tx.getHash c :: gone) rest
    else e :: removeRecursive gone rest

/-- `CheckSequenceLocksAtTip`. An output of the mempool counts as one of the next block. The first
header of the chain stands for that block, which has no header yet. -/
def checkSequenceLocksAtTip (tip : Tip) (view : CoinsView) (tx : Transaction) : Bool :=
  let prevHeights := (spentCoins view tx).map fun coin =>
    if coin.nHeight = MEMPOOL_HEIGHT then tip.nextHeight else coin.nHeight
  sequenceLocks true tx prevHeights (tip.chain.take 1 ++ tip.chain)

/-- `PreChecks`: the reject reason, or the new entry. -/
def preChecks (policy : MempoolPolicy) (tip : Tip) (pool : Mempool) (tx : Transaction) :
    Except String MempoolEntry :=
  let view := poolView c tip pool
  match checkTransaction tx with
  | .error reason => .error reason
  | .ok () =>
    if tx.isCoinBase then .error "coinbase"
    else
      match policy.standardTx tx with
      | some reason => .error reason
      | none =>
        if tx.serializeNoWitness.length < MIN_STANDARD_TX_NONWITNESS_SIZE then
          .error "tx-size-small"
        else if !isFinalTx tx tip.nextHeight (medianTimePast tip.chain) then .error "non-final"
        else if pool.any fun e => e.tx.getWitnessHash c = tx.getWitnessHash c then
          .error "txn-already-in-mempool"
        else if pool.any fun e => e.tx.getHash c = tx.getHash c then
          .error "txn-same-nonwitness-data-in-mempool"
        else if (pool.conflicts tx).any fun e => !policy.replaceable e then
          .error "txn-mempool-conflict"
        else if tx.vin.any fun i => (view i.prevout).isNone then
          .error "bad-txns-inputs-missingorspent"
        else if !checkSequenceLocksAtTip tip view tx then .error "non-BIP68-final"
        else
          match checkTxInputs tx view tip.nextHeight with
          | .error reason => .error reason
          | .ok fees =>
            match policy.standardInputs tx view with
            | some reason => .error reason
            | none =>
              let nSigOpsCost := getTransactionSigOpCost tx view standardScriptVerifyFlags
              let entry : MempoolEntry := ⟨tx, fees, nSigOpsCost⟩
              if MAX_STANDARD_TX_SIGOPS_COST < nSigOpsCost then .error "bad-txns-too-many-sigops"
              else
                match policy.limits pool entry with
                | some reason => .error reason
                | none =>
                  if (pool.ancestors c tx).any fun e => decide (e ∈ pool.conflicts tx) then
                    .error "bad-txns-spends-conflicting-tx"
                  else .ok entry

/-- `Finalize`: what the entry replaces is removed, and so is what no longer fits. -/
def finalize (policy : MempoolPolicy) (pool : Mempool) (entry : MempoolEntry) :
    Except String Mempool :=
  let kept := removeRecursive c ((pool.conflicts entry.tx).map fun e => e.tx.getHash c) pool
  let added := kept ++ [entry]
  let limited := removeRecursive c
    ((added.filter (policy.evicted added)).map fun e => e.tx.getHash c) added
  if entry ∈ limited then .ok limited else .error "mempool full"

/-- `AcceptToMemoryPool` for a single transaction: the mempool after it, or the reject reason. -/
def acceptToMemoryPool (params : Params) (policy : MempoolPolicy) (tip : Tip) (pool : Mempool)
    (tx : Transaction) : Except String Mempool :=
  let view := poolView c tip pool
  let tipHash := (tip.chain.head?.map fun h => h.getHash c).getD nullHash
  match preChecks c policy tip pool tx with
  | .error reason => .error reason
  | .ok entry =>
    match (if pool.conflicts tx = [] then none else policy.replacement pool entry) with
    | some reason => .error reason
    | none =>
      match checkInputScripts c params standardScriptVerifyFlags view tx with
      | .error reason => .error reason
      | .ok () =>
        -- `ConsensusScriptChecks` runs the scripts with the flags of the tip, and does not look
        -- at the leaves that they use.
        match checkInputScripts c params
            (getBlockScriptFlags params tipHash (tip.chain.length - 1)) view tx with
        | .error reason => .error reason
        | .ok () => finalize c policy pool entry

/-- The mempools that successful calls build on a tip. -/
inductive BuiltPool (params : Params) (policy : MempoolPolicy) (tip : Tip) : Mempool → Prop where
  | empty : BuiltPool params policy tip []
  | accept {pool pool' : Mempool} {tx : Transaction} (h : BuiltPool params policy tip pool)
      (haccept : acceptToMemoryPool c params policy tip pool tx = .ok pool') :
      BuiltPool params policy tip pool'

end Pool

end AssentianPQE
