import AssentianPQE.Validation.Tx
import AssentianPQE.Script.Solver

/-!
# `AssentianPQE.Policy`: fee rates and standard transactions

`CFeeRate::GetFee` (`policy/feerate.cpp`), and from `policy/policy.cpp` the dust threshold,
`IsStandardTx` and `AreInputsStandard`. `CalculateMaximumSignedInputSize` (`wallet/spend.cpp`)
gives the size that the wallet expects of a signed input; what `InferDescriptor` says of scripts
without an XMSS template is `descriptorSize`.
-/

set_option autoImplicit false

namespace AssentianPQE

open Lib

/-! ### Fees and dust -/

/-- `CFeeRate`: satoshis for a thousand bytes. -/
structure CFeeRate where
  nSatoshisPerK : Int

/-- `CFeeRate::GetFee`, rounded up. A fee that is rounded to zero becomes one unit. -/
def CFeeRate.getFee (rate : CFeeRate) (num_bytes : UInt32) : Int :=
  let nSize : Int := num_bytes.toNat
  let nFee := -(-(rate.nSatoshisPerK * nSize) / 1000)
  if nFee = 0 ∧ nSize ≠ 0 then
    if 0 < rate.nSatoshisPerK then 1 else if rate.nSatoshisPerK < 0 then -1 else 0
  else nFee

/-- `GetDustThreshold`. -/
def getDustThreshold (txout : TxOut) (dustRelayFeeIn : CFeeRate) : Int :=
  if isUnspendable txout.scriptPubKey then 0
  else
    let nSize := txout.serialize.length
    dustRelayFeeIn.getFee (UInt32.ofNat
      (if (isWitnessProgram txout.scriptPubKey).isSome then
        nSize + (32 + 4 + 1 + 107 / WITNESS_SCALE_FACTOR + 4)
      else nSize + (32 + 4 + 1 + 107 + 4)))

/-- `IsDust`. -/
def isDust (txout : TxOut) (dustRelayFeeIn : CFeeRate) : Bool :=
  txout.nValue.toInt < getDustThreshold txout dustRelayFeeIn

/-- The pushes of the five chunks of a signature. -/
def XMSS_SCRIPTSIG_BYTES : Nat := 5 * (3 + 500)

/-- `CalculateMaximumSignedInputSize`. No size is `-1` in the source. -/
def calculateMaximumSignedInputSize (descriptorSize : Script → Option Nat) (txout : TxOut) :
    Option Nat :=
  match (solver txout.scriptPubKey).1 with
  | .p2xmss => some (32 + 4 + 4 + 3 + XMSS_SCRIPTSIG_BYTES)
  | .p2xmssHash => some (32 + 4 + 4 + 3 + (XMSS_SCRIPTSIG_BYTES + 65))
  | _ => descriptorSize txout.scriptPubKey

/-! ### Standard transactions -/

def TX_MAX_STANDARD_VERSION : Int32 := 2
def MAX_STANDARD_TX_WEIGHT : Nat := 400000
def MAX_STANDARD_SCRIPTSIG_SIZE : Nat := 1650
def MAX_STANDARD_SCRIPTSIG_SIZE_XMSS : Nat := 3000
def MAX_P2SH_SIGOPS : Nat := 15

/-- `IsStandard`. -/
def isStandard (scriptPubKey : Script) (max_datacarrier_bytes : Option Nat) : Bool :=
  match (solver scriptPubKey).1 with
  | .nonstandard | .pubkey | .pubkeyHash | .multisig | .witnessV0KeyHash | .witnessV0ScriptHash =>
    false
  | .nullData => max_datacarrier_bytes.any fun most => scriptPubKey.length ≤ most
  | _ => true

/-- The options of the node that `IsStandardTx` is given. -/
structure StandardOptions where
  max_datacarrier_bytes : Option Nat
  permit_bare_multisig : Bool
  dust_relay_fee : CFeeRate

/-- The tests of `IsStandardTx` on an input. -/
def standardInput (txin : TxIn) : Except String Unit :=
  if MAX_STANDARD_SCRIPTSIG_SIZE_XMSS < txin.scriptSig.length then .error "scriptsig-size"
  else if !isPushOnly txin.scriptSig then .error "scriptsig-not-pushonly"
  else .ok ()

/-- The tests of `IsStandardTx` on an output. -/
def standardOutput (o : StandardOptions) (txout : TxOut) : Except String Unit :=
  let whichType := (solver txout.scriptPubKey).1
  if !isStandard txout.scriptPubKey o.max_datacarrier_bytes then .error "scriptpubkey"
  else if whichType = .nullData then .ok ()
  else if whichType = .multisig ∧ !o.permit_bare_multisig then .error "bare-multisig"
  else if isDust txout o.dust_relay_fee then .error "dust"
  else .ok ()

/-- `IsStandardTx`: the reason, if it is not. -/
def isStandardTx (o : StandardOptions) (tx : Transaction) : Except String Unit :=
  if tx.isCoinBase then .ok ()
  else if TX_MAX_STANDARD_VERSION < tx.nVersion ∨ tx.nVersion < 1 then .error "version"
  else if MAX_STANDARD_TX_WEIGHT < getTransactionWeight tx then .error "tx-size"
  else do
    tx.vin.forM standardInput
    tx.vout.forM (standardOutput o)
    if 1 < tx.vout.countP fun out => (solver out.scriptPubKey).1 = .nullData then
      .error "multi-op-return"
    else .ok ()

/-- `BaseSignatureChecker` itself: it refuses everything. -/
def baseSignatureChecker : SignatureChecker where
  checkECDSASignature _ _ _ _ := false
  checkSchnorrSignature _ _ _ _ := some .unknownError
  checkXMSSSignature _ _ _ _ := false
  checkLockTime _ := false
  checkSequence _ := false

/-- The script that an input spends, empty if the coin is not there (`AccessCoin`). -/
def spentScript (mapInputs : CoinsView) (txin : TxIn) : Script :=
  ((mapInputs txin.prevout).map fun coin => coin.out.scriptPubKey).getD []

/-- The tests of `AreInputsStandard` on an input. -/
def isInputStandard (c : Crypto) (mapInputs : CoinsView) (txin : TxIn) : Bool :=
  match (solver (spentScript mapInputs txin)).1 with
  | .nonstandard | .witnessUnknown => false
  | .scriptHash =>
    match (evalScript ⟨c, {}, baseSignatureChecker, .base⟩ [] txin.scriptSig {}).result with
    | .ok (subscript :: _) => getSigOpCount subscript true ≤ MAX_P2SH_SIGOPS
    | _ => false
  | .p2xmss | .p2xmssHash => txin.scriptSig.length ≤ MAX_STANDARD_SCRIPTSIG_SIZE_XMSS
  | _ => txin.scriptSig.length ≤ MAX_STANDARD_SCRIPTSIG_SIZE

/-- `AreInputsStandard`. -/
def areInputsStandard (c : Crypto) (tx : Transaction) (mapInputs : CoinsView) : Bool :=
  tx.isCoinBase || tx.vin.all (isInputStandard c mapInputs)

end AssentianPQE
