import AssentianPQE.Validation.Node

/-!
# `AssentianPQE.Validation.Startup`: `VerifyDB` and `ReplayBlocks`

The two procedures of `validation.cpp` that run when a node starts. Both disconnect blocks on
a view of the coins that is made for the purpose, and `DisconnectBlock` writes the leaf tables
of the node whatever the view is.

`Chainstate` is a node with its last flush of the coins, and with a record of the leaves that
`ConnectBlock` captured for every block of the active chain. No modelled function of the
source reads that record; it is what the tables are compared with.

Blocks and undo data are read as they were written, and `VerifyDB` is not interrupted.
-/

set_option autoImplicit false

namespace AssentianPQE

open Lib

/-! ### `VerifyDB` -/

/-- `VerifyDBResult`. -/
inductive VerifyDBResult where
  | success | corruptedBlockDb | skippedL3Checks
deriving DecidableEq

/-- The arguments of `VerifyDB`, and what it finds in its surroundings: `fits` blocks can be
disconnected before the caches are full, and `fScriptChecks` says at which heights
`ConnectBlock` checks scripts. -/
structure VerifyOptions where
  nCheckLevel : Int
  nCheckDepth : Int
  fits : Nat
  fScriptChecks : Nat → Bool := fun _ => true
  parallel : Bool := false

namespace VerifyOptions

/-- The level that is used. -/
def level (o : VerifyOptions) : Int := max 0 (min 4 o.nCheckLevel)

/-- The number of blocks that are checked on a chain of a height. -/
def depth (o : VerifyOptions) (height : Nat) : Nat :=
  if o.nCheckDepth ≤ 0 ∨ (height : Int) < o.nCheckDepth then height else o.nCheckDepth.toNat

end VerifyOptions

/-- The variables of `VerifyDB`: `coins`, the tables, whether `pindexFailure` is set, and
`skipped_l3_checks`. -/
structure VerifyState where
  coins : CoinsView
  db : LeafDB
  failure : Bool := false
  skipped_l3_checks : Bool := false

/-- The checks of `VerifyDB` on one block. After an error the tables stay as they are. -/
def verifyBlock (c : Crypto) (params : Params) (nCheckLevel : Int) (fits : Bool)
    (undo : Option (List (List Coin))) (nHeight : Nat) (block : Block) (st : VerifyState) :
    Except LeafDB VerifyState :=
  if 1 ≤ nCheckLevel ∧ checkBlock c params block true true ≠ .ok () then .error st.db
  else if 3 ≤ nCheckLevel then
    if fits then
      match disconnectBlock c params st.db nHeight undo block st.coins with
      | (.failed, _, db) => .error db
      | (.unclean, coins, db) => .ok { st with coins := coins, db := db, failure := true }
      | (.ok, coins, db) => .ok { st with coins := coins, db := db }
    else .ok { st with skipped_l3_checks := true }
  else .ok st

/-- The first loop of `VerifyDB`: a number of blocks from the tip down, without genesis. -/
def verifyDown (c : Crypto) (params : Params) (n : Node) (nCheckLevel : Int) :
    Nat → Nat → List Block → VerifyState → Except LeafDB VerifyState
  | depth + 1, fits, block :: parent :: rest, st =>
    let undo := (n.index (block.getHash c)).bind IndexEntry.undo
    match verifyBlock c params nCheckLevel (0 < fits) undo (rest.length + 1) block st with
    | .error db => .error db
    | .ok st => verifyDown c params n nCheckLevel depth (fits - 1) (parent :: rest) st
  | _, _, _, st => .ok st

/-- The second loop of `VerifyDB`: the blocks are connected again, the lowest first. -/
def verifyUp (c : Crypto) (params : Params) (o : VerifyOptions) :
    List Block → List Block → CoinsView → LeafDB → Except LeafDB LeafDB
  | [], _, _, db => .ok db
  | block :: rest, below, coins, db =>
    let ctx : ConnectContext :=
      { crypto := c, params := params, fScriptChecks := o.fScriptChecks below.length,
        parallel := o.parallel, fJustCheck := false, prev := below.map Block.header,
        block := block }
    match connectBlock ctx db coins with
    | .error _ => .error db
    | .ok (r, db) => verifyUp c params o rest (block :: below) r.view db

/-- `VerifyDB`: the result and the leaf tables. Its coins are thrown away. -/
def verifyDB (c : Crypto) (params : Params) (o : VerifyOptions) (n : Node) :
    VerifyDBResult × LeafDB :=
  if n.chain.length ≤ 1 then (.success, n.db)
  else
    let depth := o.depth (n.chain.length - 1)
    match verifyDown c params n o.level depth o.fits n.chain { coins := n.view, db := n.db } with
    | .error db => (.corruptedBlockDb, db)
    | .ok st =>
      if st.failure then (.corruptedBlockDb, st.db)
      else if st.skipped_l3_checks then (.skippedL3Checks, st.db)
      else if 4 ≤ o.level then
        match verifyUp c params o (n.chain.take depth).reverse (n.chain.drop depth) st.coins st.db with
        | .error db => (.corruptedBlockDb, db)
        | .ok db => (.success, db)
      else (.success, st.db)

/-! ### `ReplayBlocks` -/

/-- The blocks of the old tip that the new one does not have, the tip first. -/
def oldBranch (c : Crypto) (old new : List Block) : List Block :=
  old.takeWhile fun b => !(new.map fun a => a.getHash c).contains (b.getHash c)

/-- Roll back along the old branch. `none` stands for `DISCONNECT_FAILED`. -/
def rollBack (c : Crypto) (params : Params) (n : Node) :
    List Block → Nat → CoinsView → LeafDB → Option (CoinsView × LeafDB)
  | [], _, cache, db => some (cache, db)
  | block :: rest, nHeight, cache, db =>
    let undo := (n.index (block.getHash c)).bind IndexEntry.undo
    match disconnectBlock c params db nHeight undo block cache with
    | (.failed, _, _) => none
    | (_, cache, db) => rollBack c params n rest (nHeight - 1) cache db

/-- Roll forward, the lowest block first. -/
def rollForward (c : Crypto) : List Block → Nat → CoinsView → CoinsView
  | [], _, cache => cache
  | block :: rest, nHeight, cache =>
    rollForward c rest (nHeight + 1) (rollforwardBlock c nHeight block cache)

/-- `ReplayBlocks`: the flush of the coins of the active chain was interrupted and left
`cache` in the database. `old` is the chain of the flush before. -/
def replayBlocks (c : Crypto) (params : Params) (n : Node) (old : List Block)
    (cache : CoinsView) : Option Node :=
  let branch := oldBranch c old n.chain
  match rollBack c params n branch (old.length - 1) cache n.db with
  | none => none
  | some (cache, db) =>
    let nForkHeight := old.length - branch.length - 1
    let new := n.chain.reverse.drop (nForkHeight + 1)
    some { n with view := rollForward c new (nForkHeight + 1) cache, db := db }

/-! ### Runs -/

/-- A node, the chain of its last flush, and the active chain with the captured leaves. -/
structure Chainstate where
  node : Node
  flushed : List Block
  active : List (Block × XMSSLeafUses)

/-- A new node. Its coins were never flushed, or only those of genesis. -/
def Chainstate.init (c : Crypto) (genesis : Block) : Chainstate where
  node := Node.init c genesis
  flushed := [genesis]
  active := [(genesis, [])]

inductive ChainstateOp where
  | node (op : NodeOp)
  | flush
  | replayBlocks (cache : CoinsView)
  | verifyDB (o : VerifyOptions)

/-- The leaves that `ConnectBlock` captures. -/
def capturedUses (ctx : ConnectContext) (n : Node) : XMSSLeafUses :=
  match connectBlock ctx n.db n.view with
  | .error _ => []
  | .ok (r, _) => r.uses

/-- The active chain with its captured leaves, after a call that led to `n`. -/
def Chainstate.record (c : Crypto) (params : Params) (op : NodeOp) (s : Chainstate) (n : Node) :
    List (Block × XMSSLeafUses) :=
  match op, n.chain with
  | .connect fScriptChecks parallel _, block :: rest =>
    if rest.length = s.node.chain.length then
      (block, capturedUses (tipContext c params fScriptChecks parallel s.node block) s.node) ::
        s.active
    else s.active
  | .disconnect, _ => s.active.tail
  | _, _ => s.active

/-- The effect of an operation. -/
def Chainstate.step (c : Crypto) (params : Params) : ChainstateOp → Chainstate → Option Chainstate
  | .node op, s =>
    (Node.step c params op s.node).map fun n =>
      { s with node := n, active := s.record c params op n }
  | .flush, s => some { s with flushed := s.node.chain }
  | .replayBlocks cache, s =>
    (replayBlocks c params s.node s.flushed cache).map fun n =>
      { s with node := n, flushed := n.chain }
  | .verifyDB o, s => some { s with node := { s.node with db := (verifyDB c params o s.node).2 } }

end AssentianPQE
