import AssentianPQE.Validation.Connect

/-!
# `AssentianPQE.Validation.Disconnect`: disconnecting a block

`DisconnectBlock` and `RollforwardBlock` (`validation.cpp`). The leaf tables are changed
before the coins are looked at, so they change even when the coins turn out to be wrong.
-/

set_option autoImplicit false

namespace AssentianPQE

open Lib

/-- `DisconnectResult`. -/
inductive DisconnectResult where
  | ok | unclean | failed
deriving DecidableEq

/-! ### Coins -/

/-- A view, and whether every coin was found as expected so far (`fClean`). -/
structure Undone where
  view : CoinsView
  fClean : Bool

/-- `MAX_OUTPUTS_PER_BLOCK`: an output has at least 9 bytes. -/
def MAX_OUTPUTS_PER_BLOCK : Nat := MAX_BLOCK_WEIGHT / (WITNESS_SCALE_FACTOR * 9)

/-- `AccessByTxid`: the first unspent output of a transaction. -/
def accessByTxid (view : CoinsView) (txid : Uint256) : Option Coin :=
  (List.range MAX_OUTPUTS_PER_BLOCK).findSome? fun n => view ⟨txid, UInt32.ofNat n⟩

/-- `ApplyTxInUndo`: `none` stands for `DISCONNECT_FAILED`. -/
def applyTxInUndo (st : Undone) (out : OutPoint) (undo : Coin) : Option Undone :=
  let undo := if undo.nHeight = 0 then
      -- Metadata that old undo data lacks is taken from another output.
      (accessByTxid st.view out.hash).map fun alternate =>
        { undo with nHeight := alternate.nHeight, fCoinBase := alternate.fCoinBase }
    else some undo
  undo.map fun coin =>
    { view := if isUnspendable coin.out.scriptPubKey then st.view else st.view.set out (some coin)
      fClean := st.fClean && (st.view out).isNone }

/-- Remove the outputs of a transaction. `lenient` is set for the coinbase of a block that
BIP 30 exempts. -/
def removeOutputs (lenient : Bool) (st : Undone) (coins : List (OutPoint × Coin)) : Undone :=
  coins.foldl (fun st p =>
    if isUnspendable p.2.out.scriptPubKey then st
    else
      { view := st.view.set p.1 none
        fClean := st.fClean && (decide (st.view p.1 = some p.2) || lenient) }) st

/-- Restore inputs, the last one first. -/
def restoreInputs : List (OutPoint × Coin) → Undone → Option Undone
  | [], st => some st
  | (out, undo) :: rest, st => (restoreInputs rest st).bind fun st => applyTxInUndo st out undo

/-- Undo one transaction. `vprevout` is `none` for the first transaction of the block. -/
def undoTx (c : Crypto) (nHeight : Nat) (lenient : Bool) (st : Undone) (tx : Transaction)
    (vprevout : Option (List Coin)) : Option Undone :=
  let st := removeOutputs (tx.isCoinBase && lenient) st (newCoins c tx nHeight)
  match vprevout with
  | none => some st
  | some coins =>
    if coins.length ≠ tx.vin.length then none
    else restoreInputs ((tx.vin.map TxIn.prevout).zip coins) st

/-- Undo transactions, the last one first. -/
def undoTxs (c : Crypto) (nHeight : Nat) (lenient : Bool) :
    List (Transaction × Option (List Coin)) → Undone → Option Undone
  | [], st => some st
  | (tx, vprevout) :: rest, st =>
    (undoTxs c nHeight lenient rest st).bind fun st => undoTx c nHeight lenient st tx vprevout

/-! ### `DisconnectBlock` -/

/-- The erasures at the start of `DisconnectBlock`: the leaf of the coinbase, and the leaves
that the block has listed when it was connected. -/
def unmarkLeaves (c : Crypto) (params : Params) (db : LeafDB) (block : Block) : LeafDB :=
  let bh := block.getHash c
  let db := (coinbaseLeafKey c params block).elim db db.unmark
  match db.leafList bh with
  | none => db
  | some keys =>
    let db := keys.foldl LeafDB.unmark db
    { db with leafList := Function.update db.leafList bh none }

/-- `DisconnectBlock` at a height, with the undo data of the block if it can be read. The view
is indeterminate after a failure. -/
def disconnectBlock (c : Crypto) (params : Params) (db : LeafDB) (nHeight : Nat)
    (blockUndo : Option (List (List Coin))) (block : Block) (view : CoinsView) :
    DisconnectResult × CoinsView × LeafDB :=
  match blockUndo with
  | none => (.failed, view, db)
  | some vtxundo =>
    if vtxundo.length + 1 ≠ block.vtx.length then (.failed, view, db)
    else
      let db := unmarkLeaves c params db block
      let lenient := isBIP30Unspendable nHeight (block.getHash c)
      match undoTxs c nHeight lenient (block.vtx.zip (none :: vtxundo.map some)) ⟨view, true⟩ with
      | none => (.failed, view, db)
      | some st => (if st.fClean then .ok else .unclean, st.view, db)

/-! ### `RollforwardBlock` -/

/-- `AddCoins` with `check = true`: every addition may be an overwrite. -/
def overwriteCoins (view : CoinsView) (coins : List (OutPoint × Coin)) : CoinsView :=
  coins.foldl (fun v p =>
    if isUnspendable p.2.out.scriptPubKey then v else v.set p.1 (some p.2)) view

/-- `RollforwardBlock`. It does not touch the leaf tables. -/
def rollforwardBlock (c : Crypto) (nHeight : Nat) (block : Block) (view : CoinsView) :
    CoinsView :=
  block.vtx.foldl (fun v tx =>
    overwriteCoins (if tx.isCoinBase then v else spendInputs v tx.vin) (newCoins c tx nHeight)) view

end AssentianPQE
