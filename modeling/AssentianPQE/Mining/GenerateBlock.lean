import AssentianPQE.PoUW.Check
import AssentianPQE.Wallet.Signer

/-!
# `AssentianPQE.Mining.GenerateBlock`: the mining loop

`GenerateBlock` (`rpc/mining.cpp`), with the file in which it keeps its tree
(`XMSSMinerStateManager` and `BuildNewTree`, `xmss_miner_state.h`). A tree is used as long as its
root is not above the target. A tree that is above it is replaced, and its seed goes to the list of
failed seeds that is published with the block.

A call is a sequence of turns of its loop, and wallet code can use the tree ledger of the datadir
between them. `MinerDir` is the datadir. Its last three fields are logs that no function of the
source reads: the trees that were built, the trees that have signed and the published entries.

Of a random draw only the bytes matter (`XmssKeys.keypair`). The tip of the chain and the template
are arguments of a call.
-/

set_option autoImplicit false

namespace AssentianPQE

open Lib

/-! ### The datadir -/

/-- The tree ledger, the files `xmss_miner_state.dat` and `xmss_miner_state.dat.tmp`, and the
logs. -/
structure MinerDir where
  ledger : LedgerDir
  minerState : Option Bytes
  minerTmp : Option Bytes
  trees : List Uint256
  signed : List Uint256
  published : List FslEntry

/-- A datadir without files. -/
def MinerDir.empty : MinerDir :=
  ⟨LedgerDir.empty, none, none, [], [], []⟩

/-- A call of the tree ledger. -/
def onLedger {α : Type} (x : Durable LedgerDir α) : Durable MinerDir α :=
  x.on MinerDir.ledger fun l d => { d with ledger := l }

/-- `XMSSTreeLedgerClaimAndSign`. A tree that returns a signature is logged. -/
def claimLogged (x : XmssKeys) (io : Io) (root : Uint256) (hash32 : Bytes) :
    Durable MinerDir (Option (Bytes × UInt32)) := do
  match ← onLedger (xmssTreeLedgerClaimAndSign x io root hash32) with
  | none => pure none
  | some out => do
    Durable.write fun d => { d with signed := root :: d.signed }
    pure (some out)

/-- `XMSSMinerStateManager::Load`. -/
def minerLoad (io : Io) (d : MinerDir) : Option XMSSMinerState :=
  d.minerState.bind fun data =>
    if io.datOpens then
      (XMSSMinerState.deserialize data).filter fun state => !state.isExhausted
    else none

/-- How `XMSSMinerStateManager::Save` ends. `fs::rename` throws when it fails. -/
inductive SaveResult where
  | saved | failed | thrown
deriving DecidableEq

/-- `XMSSMinerStateManager::Save`. -/
def minerSave (io : Io) (state : XMSSMinerState) : Durable MinerDir SaveResult :=
  let data := state.serialize
  if !io.tmpOpens then pure .failed
  else do
    Durable.write fun d => { d with minerTmp := some [] }
    match io.shortWrite with
    | some written => do
      Durable.write fun d => { d with minerTmp := some (data.take written) }
      pure .failed
    | none => do
      Durable.write fun d => { d with minerTmp := some data }
      if !io.fsyncOk then pure .failed
      else if !io.renameOk then pure .thrown
      else do
        Durable.write fun d => { d with minerState := some data, minerTmp := none }
        pure .saved

/-- The root in a public key with its OID. -/
def treeRoot (pk : Bytes) : Uint256 :=
  rootOf (pk.drop 4)

/-- `BuildNewTree` for the random bytes drawn. The owner stamp of the state is left as it is. -/
def buildNewTree (x : XmssKeys) (seed : Bytes) (ownerStamp : Blob OWNER_STAMP_BYTES) :
    Option XMSSMinerState :=
  (x.keypair seed).map fun p =>
    { xmssRoot := treeRoot p.1, nextLeafIndex := 0, skLen := UInt32.ofNat p.2.length, sk := p.2
      ownerStamp := ownerStamp }

/-! ### Failed seeds -/

/-- The seed in a secret key: `SK_SEED` and `SK_PRF`, and after the root `PUB_SEED`. -/
def skSeed (sk : Bytes) : Bytes :=
  (sk.drop 8).take 64 ++ (sk.drop 104).take 32

/-- The seed as bytes of the list. A secret key has them all. -/
def fslSeed (sk : Bytes) : Blob 96 :=
  (Blob.ofBytes? 96 (skSeed sk)).getD (Blob.zero 96)

/-- `AddFailedSeed`. -/
def addFailedSeed (c : Crypto) (height : UInt32) (state : XMSSMinerState)
    (failed : List FslEntry) : List FslEntry :=
  if MAX_FAILED_SEEDS ≤ failed.length then failed
  else
    let seed := fslSeed state.sk
    failed ++ [{ sk_seed := seed, xmss_root := state.xmssRoot
                 commitment := c.hash256 (state.xmssRoot.data ++ (seed.data ++
                   beBytes 4 height.toNat)) }]

/-- `FailedSeedList::Serialize`. -/
def fslSerialize (height : UInt32) (entries : List FslEntry) : Bytes :=
  SEEDS_MAGIC ++ (beBytes 1 entries.length ++ (beBytes 4 height.toNat ++
    (entries.map fun e => e.sk_seed.data ++ e.xmss_root.data).flatten))

/-! ### The block -/

/-- `n` bytes at an offset of a byte string that has them. -/
def sliceD (n : Nat) (bs : Bytes) (off : Nat) : Blob n :=
  (Blob.ofBytes? n ((bs.drop off).take n)).getD (Blob.zero n)

/-- The proof in a signature of a tree. -/
def minedProof (state : XMSSMinerState) (sig : Bytes) : PoUWv2Proof where
  xmss_pk := sliceD 64 (state.xmssRoot.data ++ (state.sk.drop 104).take 32) 0
  auth_path := sliceD 320 sig 2180
  wots_sig := sliceD 2144 sig 36
  r := sliceD 32 sig 4

/-- A coinbase with one more output, the first transaction of a block. -/
def addOutput (data : Bytes) : List Transaction → List Transaction
  | [] => []
  | cb :: txs => { cb with vout := cb.vout ++ [⟨0, OP_RETURN :: pushBytes data⟩] } :: txs

/-- The block with one more output in its coinbase, and its Merkle root. -/
def addOpReturn (c : Crypto) (data : Bytes) (block : Block) : Block :=
  let block := { block with vtx := addOutput data block.vtx }
  { block with hashMerkleRoot := (blockMerkleRoot c block).1 }

/-- The block that `GenerateBlock` makes of its template. -/
def minedBlock (c : Crypto) (template : Block) (state : XMSSMinerState) (leafUsed : UInt32)
    (sig : Bytes) (height : UInt32) (failed : List FslEntry) : Block :=
  let block := addOpReturn c (minedProof state sig).serialize
    { template with xmssRoot := state.xmssRoot, nLeafIndex := leafUsed, nNonce := 0 }
  if MIN_FAILED_SEEDS ≤ failed.length then
    addOpReturn c (fslSerialize height failed)
      { block with commitmentsRoot := fslMerkleRoot c failed }
  else block

/-- The entries that the block publishes. -/
def publishedEntries (failed : List FslEntry) : List FslEntry :=
  if MIN_FAILED_SEEDS ≤ failed.length then failed else []

/-! ### The loop -/

def POUW_MAX_TREES_PER_CALL : Nat := 20

/-- The local variables of a call. -/
structure MinerCall where
  block : Block
  maxTries : Nat
  preimageHash : Uint256
  /-- `failed_seeds.block_height`. -/
  height : UInt32
  state : XMSSMinerState
  failed : List FslEntry := []
  treesThisCall : Nat := 0

/-- The target of the template. -/
def MinerCall.target (call : MinerCall) : Nat :=
  (setCompact call.block.nBits).target

/-- What a miner is, apart from its datadir. -/
structure Mining where
  crypto : Crypto
  params : Params
  keys : XmssKeys

/-- The environment of the part of a call before its loop. -/
structure StartEnv where
  load : Io
  seed : Bytes
  save : Io
  ledger : Io

/-- The template of a call and the heights that it gets from the chain. -/
structure Template where
  block : Block
  maxTries : Nat
  height : UInt32
  nextHeight : Nat

/-- The environment of a turn. -/
structure TurnEnv where
  interrupted : Bool := false
  ledger : Io
  claim : Io
  seed : Bytes
  save : Io
  saveClaimed : Io

/-- How a turn ends. -/
inductive Turn where
  | more (call : MinerCall)
  | done (blockOut : Option Block)

/-- The call that goes on after a turn. -/
def Turn.call : Turn → Option MinerCall
  | .more call => some call
  | .done _ => none

namespace Mining

/-- The locals of a call with a tree. -/
def call (k : Mining) (t : Template) (state : XMSSMinerState) : MinerCall where
  block := { t.block with hashMerkleRoot := (blockMerkleRoot k.crypto t.block).1 }
  maxTries := t.maxTries
  preimageHash := k.crypto.hash256 (pouwPreimage k.crypto k.params t.block t.nextHeight)
  height := t.height
  state := state

/-- The stamp that a file leaves in `state` when `Load` fails because its tree is exhausted. -/
def leftStamp (io : Io) (d : MinerDir) : Blob OWNER_STAMP_BYTES :=
  ((d.minerState.bind fun data =>
    if io.datOpens then XMSSMinerState.deserialize data else none).map
      XMSSMinerState.ownerStamp).getD (Blob.zero OWNER_STAMP_BYTES)

/-- A new tree, if one can be built. -/
def build (k : Mining) (seed : Bytes) (ownerStamp : Blob OWNER_STAMP_BYTES) :
    Durable MinerDir (Option XMSSMinerState) :=
  match buildNewTree k.keys seed ownerStamp with
  | none => pure none
  | some state => do
    Durable.write fun d => { d with trees := state.xmssRoot :: d.trees }
    pure (some state)

/-- A new tree that is saved, if both can be done. -/
def buildAndSave (k : Mining) (seed : Bytes) (io : Io) (ownerStamp : Blob OWNER_STAMP_BYTES) :
    Durable MinerDir (Option XMSSMinerState) := do
  match ← k.build seed ownerStamp with
  | none => pure none
  | some state => do
    match ← minerSave io state with
    | .saved => pure (some state)
    | .failed => pure none
    | .thrown => pure none

/-- `GenerateBlock` up to its loop. -/
def start (k : Mining) (env : StartEnv) (t : Template) : Durable MinerDir (Option MinerCall) := do
  match ← Durable.read (minerLoad env.load) with
  | none => do
    let stamp ← Durable.read (leftStamp env.load)
    match ← k.buildAndSave env.seed env.save stamp with
    | none => pure none
    | some state => do
      if ← onLedger (xmssTreeLedgerInit env.ledger state) then pure (some (k.call t state))
      else pure none
  | some state => do
    if ← Durable.read fun d => xmssTreeLedgerExists state.xmssRoot d.ledger then
      pure (some (k.call t state))
    else do
      let _ ← onLedger (xmssTreeLedgerSeedFromActive env.ledger state)
      pure (some (k.call t state))

/-- A tree that cannot sign is replaced. This does not count as a try. -/
def rotate (k : Mining) (env : TurnEnv) (a : MinerCall) : Durable MinerDir Turn := do
  match ← k.buildAndSave env.seed env.save a.state.ownerStamp with
  | none => pure (.done none)
  | some state => pure (.more { a with state := state })

/-- The block is found: the leaf counter is saved, and the failed seeds are published. -/
def finish (k : Mining) (env : TurnEnv) (a : MinerCall) (sig : Bytes) (leafUsed : UInt32) :
    Durable MinerDir Turn := do
  let state := { a.state with nextLeafIndex := leafUsed + 1 }
  match ← minerSave env.saveClaimed state with
  | .thrown => pure (.done none)
  -- A counter that cannot be saved is ignored.
  | _ => do
    Durable.write fun d => { d with published := publishedEntries a.failed ++ d.published }
    pure (.done (some (minedBlock k.crypto a.block state leafUsed sig a.height a.failed)))

/-- The branch for a tree that is not above the target. -/
def sign (k : Mining) (env : TurnEnv) (a : MinerCall) : Durable MinerDir Turn := do
  if ← onLedger (xmssTreeLedgerInit env.ledger a.state) then
    if a.state.isExhausted then k.rotate env a
    else do
      match ← claimLogged k.keys env.claim a.state.xmssRoot a.preimageHash.data with
      | none => k.rotate env a
      | some (sig, leafUsed) => k.finish env a sig leafUsed
  else pure (.done none)

/-- The branch for a tree that is above the target. -/
def search (k : Mining) (env : TurnEnv) (a : MinerCall) : Durable MinerDir Turn :=
  if POUW_MAX_TREES_PER_CALL ≤ a.treesThisCall then pure (.done none)
  else do
    match ← k.buildAndSave env.seed env.save a.state.ownerStamp with
    | none => pure (.done none)
    | some state => pure (.more { a with
        state := state
        failed := addFailedSeed k.crypto a.height a.state a.failed
        maxTries := a.maxTries - 1
        treesThisCall := a.treesThisCall + 1 })

/-- A turn of the loop. -/
def turn (k : Mining) (env : TurnEnv) (a : MinerCall) : Durable MinerDir Turn :=
  if a.maxTries = 0 ∨ env.interrupted then pure (.done none)
  else if a.state.xmssRoot.toNat ≤ a.target then k.sign env a
  else k.search env a

end Mining

/-! ### Runs -/

/-- The datadir, and the call that is running. -/
structure Miner where
  disk : MinerDir
  call : Option MinerCall := none

/-- A call of `GenerateBlock`, a turn of the running call, what wallet code and the operator do to
the ledger, and a restart. Every step on files comes with the number of writes after which the
process dies. -/
inductive MinerOp where
  | generate (env : StartEnv) (t : Template) (crash : Nat)
  | turn (env : TurnEnv) (crash : Nat)
  | walletInit (io : Io) (fresh : XMSSMinerState) (crash : Nat)
  | walletClaim (io : Io) (root : Uint256) (hash32 : Bytes) (crash : Nat)
  | forceclaim (root : Uint256)
  | restart

namespace Miner

/-- A process that dies loses its call. -/
def after {α : Type} (call : α → Option MinerCall) (r : MinerDir × Option α) : Miner :=
  ⟨r.1, r.2.bind call⟩

/-- The effect of a step. There is one call at a time. -/
def step (k : Mining) : MinerOp → Miner → Option Miner
  | .generate env t crash, s =>
    match s.call with
    | some _ => none
    | none => some (after id ((k.start env t).run s.disk crash))
  | .turn env crash, s =>
    s.call.map fun a => after Turn.call ((k.turn env a).run s.disk crash)
  | .walletInit io fresh crash, s =>
    some (after (fun _ => s.call) ((onLedger (xmssTreeLedgerInit io fresh)).run s.disk crash))
  | .walletClaim io root hash32 crash, s =>
    some (after (fun _ => s.call) ((claimLogged k.keys io root hash32).run s.disk crash))
  | .forceclaim root, s =>
    some { s with disk := { s.disk with ledger := { s.disk.ledger with
      forceclaim := Function.update s.disk.ledger.forceclaim root true } } }
  | .restart, s => some { s with call := none }

end Miner

end AssentianPQE
