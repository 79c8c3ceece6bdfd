import AssentianPQE.Lib.Run
import AssentianPQE.Validation.Disconnect

/-!
# `AssentianPQE.Validation.Node`: the block index and the active chain

The state of a node and the calls that change it (`validation.cpp`): `AcceptBlockHeader`,
`AcceptBlock`, `ConnectTip` and `DisconnectTip`.

Which block `ActivateBestChain` connects or disconnects next is not modelled: a run may take
any of these steps that is possible. Blocks that `FindMostWorkChain` never offers are those
that are marked as failed, that have no data, or whose parent is not the tip.

`BLOCK_FAILED_CHILD` is left out. It remembers that an ancestor is in `m_failed_blocks`, and
`acceptBlockHeader` looks at the ancestors instead. Pruning is left out too.
-/

set_option autoImplicit false

namespace AssentianPQE

open Lib

/-! ### State -/

/-- `CBlockIndex`, with the block and undo data that it points to. -/
structure IndexEntry where
  /-- The headers from the block down to genesis. -/
  chain : List BlockHeader
  /-- The block, once `BLOCK_HAVE_DATA` is set. -/
  data : Option Block := none
  /-- The undo data, once written. -/
  undo : Option (List (List Coin)) := none
  /-- `BLOCK_FAILED_VALID`. -/
  failedValid : Bool := false
  /-- Membership in `m_failed_blocks`. -/
  inFailedBlocks : Bool := false
deriving DecidableEq

/-- The state of a node: the block index, the active chain with the tip first, the coins of
the tip, and the leaf tables. -/
structure Node where
  index : Uint256 → Option IndexEntry
  chain : List Block
  view : CoinsView
  db : LeafDB

/-- Where and when a header or a block arrives: the clock, the height of the last checkpoint
that is in the index, and what the caller says about it. -/
structure Arrival where
  now : Int
  checkpoint : Option Nat := none
  min_pow_checked : Bool := true
  fRequested : Bool := true

namespace Node

/-- A node with only its genesis block. -/
def init (c : Crypto) (genesis : Block) : Node where
  index := Function.update (fun _ => none) (genesis.getHash c)
    (some { chain := [genesis.header], data := some genesis })
  chain := [genesis]
  view := fun _ => none
  db := LeafDB.empty

/-- Write an entry of the block index. -/
def setEntry (n : Node) (hash : Uint256) (e : IndexEntry) : Node :=
  { n with index := Function.update n.index hash (some e) }

/-- The headers of the active chain. -/
def headers (n : Node) : List BlockHeader :=
  n.chain.map Block.header

end Node

/-! ### Accepting headers and blocks -/

/-- The tests of `AcceptBlockHeader` on a header that is not in the index: its new entry. -/
def newHeaderEntry (c : Crypto) (params : Params) (arrival : Arrival) (n : Node)
    (header : BlockHeader) : Except BlockInvalid IndexEntry :=
  match checkBlockHeader params header true, n.index header.hashPrevBlock with
  | .error e, _ => .error e
  | .ok (), none => .error ⟨.missingPrev, "prev-blk-not-found"⟩
  | .ok (), some prev =>
    if prev.failedValid then .error ⟨.invalidPrev, "bad-prevblk"⟩
    else
      match contextualCheckBlockHeader params arrival.checkpoint arrival.now prev.chain header with
      | .error e => .error e
      | .ok () =>
        if prev.chain.any fun h => (n.index (h.getHash c)).any IndexEntry.inFailedBlocks then
          .error ⟨.invalidPrev, "bad-prevblk"⟩
        else .ok { chain := header :: prev.chain }

/-- `AcceptBlockHeader`: the entry of the header. The genesis block is not tested. -/
def headerEntry (c : Crypto) (params : Params) (arrival : Arrival) (n : Node)
    (header : BlockHeader) : Except BlockInvalid IndexEntry :=
  let hash := header.getHash c
  let lowWork : Except BlockInvalid IndexEntry := .error ⟨.headerLowWork, "too-little-chainwork"⟩
  if hash = params.hashGenesisBlock then
    if arrival.min_pow_checked then .ok ((n.index hash).getD { chain := [header] }) else lowWork
  else
    match n.index hash with
    | some e => if e.failedValid then .error ⟨.cachedInvalid, "duplicate"⟩ else .ok e
    | none =>
      match newHeaderEntry c params arrival n header with
      | .error e => .error e
      | .ok e => if arrival.min_pow_checked then .ok e else lowWork

/-- `AcceptBlockHeader`. -/
def acceptBlockHeader (c : Crypto) (params : Params) (arrival : Arrival) (n : Node)
    (header : BlockHeader) : Node :=
  match headerEntry c params arrival n header with
  | .error _ => n
  | .ok e => n.setEntry (header.getHash c) e

/-- `nChainWork`. -/
def chainWork (chain : List BlockHeader) : Nat :=
  (chain.map fun h => getBlockProof h.nBits).sum

def MIN_BLOCKS_TO_KEEP : Nat := 288

/-- Whether `AcceptBlock` ignores a block that was not requested. -/
def ignoresUnrequested (params : Params) (n : Node) (e : IndexEntry) : Bool :=
  chainWork e.chain < chainWork n.headers ∨
    n.chain.length + MIN_BLOCKS_TO_KEEP < e.chain.length ∨
    chainWork e.chain < params.nMinimumChainWork

/-- The checks of `AcceptBlock` on a body: `CheckBlock`, then `ContextualCheckBlock`. -/
def checkBody (c : Crypto) (params : Params) (leafDB : LeafTable) (prev : List BlockHeader)
    (block : Block) : Except BlockInvalid PoUWVerdict :=
  match checkBlock c params block true true with
  | .error e => .error e
  | .ok () => contextualCheckBlock c params leafDB prev block

/-- `AcceptBlock` after the header was accepted with entry `e`. A body that fails the checks
marks the entry for good, unless it may be a corrupted copy. -/
def acceptBody (c : Crypto) (params : Params) (arrival : Arrival) (n : Node) (e : IndexEntry)
    (block : Block) : IndexEntry :=
  if e.data.isSome then e
  else if !arrival.fRequested ∧ ignoresUnrequested params n e then e
  else
    match checkBody c params n.db.leaf e.chain.tail block with
    | .error why => if why.result = .mutated then e else { e with failedValid := true }
    | .ok _ => { e with data := some block }

/-- `AcceptBlock`. -/
def acceptBlock (c : Crypto) (params : Params) (arrival : Arrival) (n : Node) (block : Block) :
    Node :=
  match headerEntry c params arrival n block.header with
  | .error _ => n
  | .ok e => n.setEntry (block.getHash c) (acceptBody c params arrival n e block)

/-! ### Moving the tip -/

/-- How `ConnectTip` calls `ConnectBlock` on a child of the tip. -/
def tipContext (c : Crypto) (params : Params) (fScriptChecks parallel : Bool) (n : Node)
    (block : Block) : ConnectContext where
  crypto := c
  params := params
  fScriptChecks := fScriptChecks
  parallel := parallel
  fJustCheck := false
  prev := n.headers
  block := block

/-- `ConnectTip` on a block of the index, without the tests of `FindMostWorkChain`. `none`
stands for a fatal error. -/
def connectEntry (c : Crypto) (params : Params) (fScriptChecks parallel : Bool) (n : Node)
    (hash : Uint256) (e : IndexEntry) (block : Block) : Option Node :=
  match connectBlock (tipContext c params fScriptChecks parallel n block) n.db n.view with
  | .error .fatal => none
  | .error (.invalid why) =>
    some (if why.result = .mutated then n
      else n.setEntry hash { e with failedValid := true, inFailedBlocks := true })
  | .ok (r, db) =>
    -- The undo data of an earlier connection is kept.
    some { n.setEntry hash { e with undo := some (e.undo.getD r.vtxundo) } with
      chain := block :: n.chain
      view := r.view
      db := db }

/-- `ConnectTip` on a block that `FindMostWorkChain` may offer next. -/
def connectTip (c : Crypto) (params : Params) (fScriptChecks parallel : Bool) (n : Node)
    (hash : Uint256) : Option Node :=
  match n.index hash with
  | none => none
  | some e =>
    match e.data with
    | none => none
    | some block =>
      if e.failedValid ∨ e.chain.tail ≠ n.headers then none
      else connectEntry c params fScriptChecks parallel n hash e block

/-- `DisconnectTip`. `none` stands for a fatal error. -/
def disconnectTip (c : Crypto) (params : Params) (n : Node) : Option Node :=
  match n.chain with
  | block :: parent :: rest =>
    let undo := (n.index (block.getHash c)).bind IndexEntry.undo
    match disconnectBlock c params n.db (rest.length + 1) undo block n.view with
    | (.ok, view, db) => some { n with chain := parent :: rest, view := view, db := db }
    | _ => none
  | _ => none

/-! ### Runs -/

/-- One call that changes a node. -/
inductive NodeOp where
  | header (arrival : Arrival) (header : BlockHeader)
  | body (arrival : Arrival) (block : Block)
  | connect (fScriptChecks parallel : Bool) (hash : Uint256)
  | disconnect

/-- The effect of a call. -/
def Node.step (c : Crypto) (params : Params) : NodeOp → Node → Option Node
  | .header arrival header, n => some (acceptBlockHeader c params arrival n header)
  | .body arrival block, n => some (acceptBlock c params arrival n block)
  | .connect fScriptChecks parallel hash, n => connectTip c params fScriptChecks parallel n hash
  | .disconnect, n => disconnectTip c params n

end AssentianPQE
