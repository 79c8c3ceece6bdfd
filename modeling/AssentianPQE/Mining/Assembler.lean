import AssentianPQE.Validation.Mempool

/-!
# `AssentianPQE.Mining.Assembler`: block templates

`BlockAssembler::CreateNewBlock` (`node/miner.cpp`) with the coinbase commitment of
`GenerateCoinbaseCommitment` and the test of the template by `TestBlockValidity`
(`validation.cpp`).

`addPackageTxs` looks at the entries of the mempool by the fee rate of their packages. Which
entries it looks at, in which order and where it stops is data (`AssemblerEnv.order`). What it does
with an entry is modelled: the package of the entry and its ancestors that are not in the block is
added if it fits and is final. The sums over packages that the source caches are computed.
-/

set_option autoImplicit false

namespace AssentianPQE

open Lib

def DEFAULT_BLOCK_MAX_WEIGHT : Nat := MAX_BLOCK_WEIGHT - 16000
def DEFAULT_BYTES_PER_SIGOP : Nat := 20

/-- The settings of a miner. -/
structure AssemblerOptions where
  /-- `-blockmaxweight`. -/
  blockmaxweight : Option Int := none
  nBytesPerSigOp : Nat := DEFAULT_BYTES_PER_SIGOP
  test_block_validity : Bool := true

/-- `nBlockMaxWeight` after `ClampOptions`. The setting is converted to `size_t`. -/
def AssemblerOptions.nBlockMaxWeight (o : AssemblerOptions) : Nat :=
  let requested := match o.blockmaxweight with
    | none => DEFAULT_BLOCK_MAX_WEIGHT
    | some n => (n % 2 ^ 64).toNat
  max 4000 (min requested DEFAULT_BLOCK_MAX_WEIGHT)

/-- The data of one call. -/
structure AssemblerEnv where
  /-- `ComputeBlockVersion`, or `-blockversion` on regtest. -/
  nVersion : Int32
  now : Nat
  /-- The entries that `addPackageTxs` looks at. -/
  order : List MempoolEntry
  /-- The height of the last checkpoint, if there is one. -/
  checkpoint : Option Nat := none
  /-- The check queue has threads. -/
  parallel : Bool := false

/-! ### The transactions -/

/-- `CTxMemPoolEntry::GetTxSize`. -/
def MempoolEntry.txSize (o : AssemblerOptions) (e : MempoolEntry) : Nat :=
  (max (getTransactionWeight e.tx) (e.sigOpCost * o.nBytesPerSigOp) + WITNESS_SCALE_FACTOR - 1) /
    WITNESS_SCALE_FACTOR

/-- The counters of `BlockAssembler` after `resetBlock`, and the entries in the block. -/
structure Assembly where
  inBlock : List MempoolEntry := []
  nBlockWeight : Nat := 4000
  nBlockSigOpsCost : Nat := 400
  nFees : Int := 0

/-- `AddToBlock`. -/
def Assembly.addToBlock (b : Assembly) (e : MempoolEntry) : Assembly where
  inBlock := b.inBlock ++ [e]
  nBlockWeight := b.nBlockWeight + getTransactionWeight e.tx
  nBlockSigOpsCost := b.nBlockSigOpsCost + e.sigOpCost
  nFees := b.nFees + e.nFee

section Assemble
variable (c : Crypto) (params : Params) (o : AssemblerOptions)

/-- The transaction is in the block. -/
def Assembly.contains (b : Assembly) (e : MempoolEntry) : Bool :=
  b.inBlock.any fun e' => e'.tx.getHash c = e.tx.getHash c

/-- An entry with its ancestors that are not in the block. -/
def Assembly.package (pool : Mempool) (b : Assembly) (e : MempoolEntry) : List MempoolEntry :=
  ((pool.ancestors c e.tx).filter fun a => !b.contains c a) ++ [e]

/-- `TestPackage`. -/
def Assembly.testPackage (b : Assembly) (packageSize packageSigOpsCost : Nat) : Bool :=
  b.nBlockWeight + WITNESS_SCALE_FACTOR * packageSize < o.nBlockMaxWeight &&
    b.nBlockSigOpsCost + packageSigOpsCost < MAX_BLOCK_SIGOPS_COST

/-- `CompareTxIterByAncestorCount`: by the number of ancestors, then by the hash. -/
def compareByAncestorCount (pool : Mempool) (a b : MempoolEntry) : Bool :=
  let counts := ((pool.ancestors c a.tx).length, (pool.ancestors c b.tx).length)
  counts.1 < counts.2 ∨ (counts.1 = counts.2 ∧ (a.tx.getHash c).toNat ≤ (b.tx.getHash c).toNat)

/-- The body of the loop of `addPackageTxs` for one entry. -/
def Assembly.addPackage (tip : Tip) (pool : Mempool) (b : Assembly) (e : MempoolEntry) :
    Assembly :=
  if b.contains c e then b
  else
    let package := b.package c pool e
    if !b.testPackage o (package.map (MempoolEntry.txSize o)).sum
        (package.map MempoolEntry.sigOpCost).sum then b
    else if package.any fun e => !isFinalTx e.tx tip.nextHeight (medianTimePast tip.chain) then b
    else
      (package.insertionSort fun a b => compareByAncestorCount c pool a b).foldl
        Assembly.addToBlock b

/-- `addPackageTxs`. -/
def addPackageTxs (tip : Tip) (pool : Mempool) (order : List MempoolEntry) : Assembly :=
  (order.filter (· ∈ pool)).foldl (Assembly.addPackage c o tip pool) {}

/-! ### The coinbase -/

/-- The coinbase of `CreateNewBlock`. -/
def newCoinbase (tip : Tip) (scriptPubKeyIn : Script) (nFees : Int) : Transaction where
  nVersion := 2
  vin := [{ prevout := OutPoint.null, scriptSig := pushHeight tip.nextHeight ++ [OP_0]
            nSequence := TxIn.sequenceFinal }]
  vout := [⟨Int64.ofInt (nFees + getBlockSubsidy params tip.nextHeight), scriptPubKeyIn⟩]
  nLockTime := 0

/-- The output with the witness commitment. -/
def witnessCommitment (block : Block) : TxOut where
  nValue := 0
  scriptPubKey := [OP_RETURN, 0x24, 0xaa, 0x21, 0xa9, 0xed] ++
    (c.hash256 ((blockWitnessMerkleRoot c block).1.data ++ List.replicate 32 0)).data

/-- A change of the coinbase of a block. -/
def Block.mapCoinbase (f : Transaction → Transaction) (block : Block) : Block :=
  match block.vtx with
  | [] => block
  | cb :: txs => { block with vtx := f cb :: txs }

/-- `UpdateUncommittedBlockStructures`. -/
def updateUncommittedBlockStructures (tip : Tip) (block : Block) : Block :=
  if (getWitnessCommitmentIndex block).isSome ∧
      deploymentActive params.SegwitHeight tip.nextHeight ∧
      !(block.vtx.head?.any Transaction.hasWitness) then
    block.mapCoinbase fun cb => { cb with
      vin := cb.vin.modifyHead fun i => { i with scriptWitness := [List.replicate 32 0] } }
  else block

/-- `GenerateCoinbaseCommitment`. -/
def generateCoinbaseCommitment (tip : Tip) (block : Block) : Block :=
  updateUncommittedBlockStructures params tip
    (if (getWitnessCommitmentIndex block).isNone then
      block.mapCoinbase fun cb => { cb with vout := cb.vout ++ [witnessCommitment c block] }
    else block)

/-! ### The template -/

/-- `TestBlockValidity` with `fCheckPOW` and `fCheckMerkleRoot` off, at time `now`. -/
def testBlockValidity (env : AssemblerEnv) (tip : Tip) (block : Block) :
    Except ConnectFailure Unit :=
  match contextualCheckBlockHeader params env.checkpoint env.now tip.chain block.header with
  | .error e => .error (.invalid e)
  | .ok () =>
    match checkBlock c params block false false with
    | .error e => .error (.invalid e)
    | .ok () =>
      match contextualCheckTxs c params tip.chain block with
      | .error e => .error (.invalid e)
      | .ok () =>
        match connectBlock ⟨c, params, true, env.parallel, true, tip.chain, block⟩ tip.db
            tip.coins with
        | .error e => .error e
        | .ok _ => .ok ()

/-- The block that `CreateNewBlock` fills. -/
def newBlock (env : AssemblerEnv) (tip : Tip) (pool : Mempool) (scriptPubKeyIn : Script) : Block :=
  let b := addPackageTxs c o tip pool env.order
  let nTime := UInt32.ofNat (max (medianTimePast tip.chain + 1) env.now)
  generateCoinbaseCommitment c params tip
    { nVersion := env.nVersion
      hashPrevBlock := (tip.chain.head?.map fun h => h.getHash c).getD nullHash
      hashMerkleRoot := nullHash
      nTime := nTime
      nBits := getNextWorkRequired params tip.chain nTime.toNat
      nNonce := 0
      xmssRoot := nullHash
      nLeafIndex := 0
      commitmentsRoot := nullHash
      vtx := newCoinbase params tip scriptPubKeyIn b.nFees :: b.inBlock.map MempoolEntry.tx }

/-- `CreateNewBlock`. An invalid template is thrown. -/
def createNewBlock (env : AssemblerEnv) (tip : Tip) (pool : Mempool) (scriptPubKeyIn : Script) :
    Except ConnectFailure Block :=
  let block := newBlock c params o env tip pool scriptPubKeyIn
  if !o.test_block_validity then .ok block
  else
    match testBlockValidity c params env tip block with
    | .error e => .error e
    | .ok () => .ok block

end Assemble

end AssentianPQE
