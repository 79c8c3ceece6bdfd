import Mathlib.Data.List.Sort
import AssentianPQE.Consensus
import AssentianPQE.Script.Verify

/-!
# `AssentianPQE.Validation.Tx`: checks on single transactions

`consensus/tx_check.cpp`, `consensus/tx_verify.cpp` and the coins of `coins.cpp`:
`CheckTransaction`, `IsFinalTx`, `CheckTxInputs`, the sequence locks of BIP 68, signature
operation costs, and the coins that a transaction spends and adds.

Amounts are summed as integers. The running total of every sum is checked against
`MAX_MONEY`, so no sum leaves the range of `CAmount`.
-/

set_option autoImplicit false

namespace AssentianPQE

open Lib

def COIN : Int := 100000000
def MAX_MONEY : Int := 210000000 * COIN
def MAX_BLOCK_WEIGHT : Nat := 16000000
def MAX_BLOCK_SIGOPS_COST : Nat := 80000
def COINBASE_MATURITY : Int := 100
def WITNESS_SCALE_FACTOR : Nat := 4

/-- `MoneyRange`. -/
def moneyRange (n : Int) : Bool :=
  0 ≤ n ∧ n ≤ MAX_MONEY

/-! ### `CheckTransaction` -/

/-- The test of the output values: each one in range, and every partial sum. -/
def checkOutputValues : List TxOut → Int → Except String Unit
  | [], _ => .ok ()
  | out :: rest, nValueOut =>
    let nValue := out.nValue.toInt
    if nValue < 0 then .error "bad-txns-vout-negative"
    else if MAX_MONEY < nValue then .error "bad-txns-vout-toolarge"
    else if !moneyRange (nValueOut + nValue) then .error "bad-txns-txouttotal-toolarge"
    else checkOutputValues rest (nValueOut + nValue)

/-- `CheckTransaction`: the reject reason, if any. -/
def checkTransaction (tx : Transaction) : Except String Unit :=
  if tx.vin = [] then .error "bad-txns-vin-empty"
  else if tx.vout = [] then .error "bad-txns-vout-empty"
  else if MAX_BLOCK_WEIGHT < tx.serializeNoWitness.length * WITNESS_SCALE_FACTOR then
    .error "bad-txns-oversize"
  else
    match checkOutputValues tx.vout 0 with
    | .error e => .error e
    | .ok () =>
      if ¬ (tx.vin.map TxIn.prevout).Nodup then .error "bad-txns-inputs-duplicate"
      else if tx.isCoinBase then
        let length := ((tx.vin.head?.map TxIn.scriptSig).getD []).length
        if length < 2 ∨ 100 < length then .error "bad-cb-length" else .ok ()
      else if tx.vin.any fun i => i.prevout.isNull then .error "bad-txns-prevout-null"
      else .ok ()

/-- `IsFinalTx`. -/
def isFinalTx (tx : Transaction) (nBlockHeight nBlockTime : Int) : Bool :=
  let nLockTime : Int := tx.nLockTime.toNat
  tx.nLockTime = 0 ∨
    nLockTime < (if nLockTime < LOCKTIME_THRESHOLD then nBlockHeight else nBlockTime) ∨
    tx.vin.all fun i => i.nSequence = TxIn.sequenceFinal

/-- `GetLegacySigOpCount`. -/
def getLegacySigOpCount (tx : Transaction) : Nat :=
  (tx.vin.map fun i => getSigOpCount i.scriptSig false).sum +
    (tx.vout.map fun o => getSigOpCount o.scriptPubKey false).sum

/-- `GetTransactionWeight`. -/
def getTransactionWeight (tx : Transaction) : Nat :=
  tx.serializeNoWitness.length * (WITNESS_SCALE_FACTOR - 1) + tx.serializeWithWitness.length

/-- `CTransaction::GetValueOut`. -/
def getValueOut (tx : Transaction) : Int :=
  (tx.vout.map fun o => o.nValue.toInt).sum

/-! ### Coins -/

/-- `Coin`: an unspent output, with the height of its block and whether it is from a
coinbase. -/
structure Coin where
  out : TxOut
  nHeight : Nat
  fCoinBase : Bool
deriving DecidableEq

/-- A view of the unspent outputs (`CCoinsViewCache`). The levels of caches over the database
are one map here. -/
abbrev CoinsView := OutPoint → Option Coin

/-- Set one entry of a view. -/
def CoinsView.set (view : CoinsView) (o : OutPoint) (coin : Option Coin) : CoinsView :=
  Function.update view o coin

/-- `HaveInputs`. -/
def haveInputs (view : CoinsView) (tx : Transaction) : Bool :=
  tx.isCoinBase || tx.vin.all fun i => (view i.prevout).isSome

/-- The coins that the inputs of a transaction spend, in order. A missing coin is skipped. -/
def spentCoins (view : CoinsView) (tx : Transaction) : List Coin :=
  tx.vin.filterMap fun i => view i.prevout

/-- The outpoints of the outputs of a transaction with their coins. -/
def newCoins (c : Crypto) (tx : Transaction) (nHeight : Nat) : List (OutPoint × Coin) :=
  tx.vout.mapIdx fun i out =>
    (⟨tx.getHash c, UInt32.ofNat i⟩, ⟨out, nHeight, tx.isCoinBase⟩)

/-- `AddCoins`: outputs that cannot be spent are left out. With `check = false` an output that
is already there may be overwritten only by a coinbase; otherwise `AddCoin` throws, and the
result is `none`. -/
def addCoins (view : CoinsView) : List (OutPoint × Coin) → Option CoinsView
  | [] => some view
  | (o, coin) :: rest =>
    if isUnspendable coin.out.scriptPubKey then addCoins view rest
    else if !coin.fCoinBase ∧ (view o).isSome then none
    else addCoins (view.set o (some coin)) rest

/-- The view without the coins that a transaction spends. -/
def spendInputs (view : CoinsView) (vin : List TxIn) : CoinsView :=
  vin.foldl (fun v i => v.set i.prevout none) view

/-- `UpdateCoins`: the new view, or `none` where `AddCoin` throws. -/
def updateCoins (c : Crypto) (view : CoinsView) (tx : Transaction) (nHeight : Nat) :
    Option CoinsView :=
  addCoins (if tx.isCoinBase then view else spendInputs view tx.vin) (newCoins c tx nHeight)

/-! ### `CheckTxInputs` -/

/-- The loop of `CheckTxInputs`: the value of the inputs. -/
def sumInputs (nSpendHeight : Nat) : List Coin → Int → Except String Int
  | [], nValueIn => .ok nValueIn
  | coin :: rest, nValueIn =>
    let nValueIn' := nValueIn + coin.out.nValue.toInt
    if coin.fCoinBase ∧ (nSpendHeight : Int) - coin.nHeight < COINBASE_MATURITY then
      .error "bad-txns-premature-spend-of-coinbase"
    else if !moneyRange coin.out.nValue.toInt ∨ !moneyRange nValueIn' then
      .error "bad-txns-inputvalues-outofrange"
    else sumInputs nSpendHeight rest nValueIn'

/-- `Consensus::CheckTxInputs`: the fee. -/
def checkTxInputs (tx : Transaction) (view : CoinsView) (nSpendHeight : Nat) :
    Except String Int :=
  if !haveInputs view tx then .error "bad-txns-inputs-missingorspent"
  else
    match sumInputs nSpendHeight (spentCoins view tx) 0 with
    | .error e => .error e
    | .ok nValueIn =>
      if nValueIn < getValueOut tx then .error "bad-txns-in-belowout"
      else if !moneyRange (nValueIn - getValueOut tx) then .error "bad-txns-fee-outofrange"
      else .ok (nValueIn - getValueOut tx)

/-- `GetTransactionSigOpCost`. -/
def getTransactionSigOpCost (tx : Transaction) (view : CoinsView) (flags : ScriptFlags) : Nat :=
  let legacy := getLegacySigOpCount tx * WITNESS_SCALE_FACTOR
  if tx.isCoinBase then legacy
  else
    let p2sh := (tx.vin.map fun i =>
      match view i.prevout with
      | some coin =>
        if isPayToScriptHash coin.out.scriptPubKey then
          getP2SHSigOps coin.out.scriptPubKey i.scriptSig
        else 0
      | none => 0).sum
    let witness := (tx.vin.map fun i =>
      match view i.prevout with
      | some coin => countWitnessSigOps i.scriptSig coin.out.scriptPubKey i.scriptWitness flags
      | none => 0).sum
    legacy + (if flags.p2sh then p2sh * WITNESS_SCALE_FACTOR else 0) + witness

/-! ### Sequence locks -/

/-- `GetMedianTimePast` of the first header of a chain, the newest first. -/
def medianTimePast (chain : List BlockHeader) : Nat :=
  let times := ((chain.take 11).map fun h => h.nTime.toNat).insertionSort (· ≤ ·)
  times.getD (times.length / 2) 0

/-- `CalculateSequenceLocks` with `LOCKTIME_VERIFY_SEQUENCE`: the last height and the last time
at which the transaction is not valid. `chain` ends with the block itself, the newest first. -/
def calculateSequenceLocks (tx : Transaction) (prevHeights : List Nat)
    (chain : List BlockHeader) : Int × Int :=
  if tx.nVersion.toBitVec.toNat < 2 then (-1, -1)
  else
    (tx.vin.zip prevHeights).foldl (fun acc p =>
      let nSequence := p.1.nSequence.toNat
      let nCoinHeight := p.2
      if 2 ^ 31 ≤ nSequence then acc
      else if nSequence / 2 ^ 22 % 2 = 1 then
        -- The ancestor at height `max (nCoinHeight - 1) 0`.
        let nCoinTime := medianTimePast (chain.drop (chain.length - 1 - (nCoinHeight - 1)))
        (acc.1, max acc.2 ((nCoinTime : Int) + (nSequence % 2 ^ 16) * 2 ^ 9 - 1))
      else (max acc.1 ((nCoinHeight : Int) + (nSequence % 2 ^ 16) - 1), acc.2)) (-1, -1)

/-- `SequenceLocks`. Without the CSV deployment no lock applies. -/
def sequenceLocks (csvActive : Bool) (tx : Transaction) (prevHeights : List Nat)
    (chain : List BlockHeader) : Bool :=
  let lockPair := if csvActive then calculateSequenceLocks tx prevHeights chain else (-1, -1)
  lockPair.1 < chain.length - 1 ∧ lockPair.2 < medianTimePast (chain.drop 1)

end AssentianPQE
