import AssentianPQE.Script.Solver
import AssentianPQE.Validation.Tx
import AssentianPQE.Wallet.Signer

/-!
# `AssentianPQE.Wallet.SignTx`: signing a transaction with the XMSS signer

`CreateXMSSSig`, the XMSS part of `SignStep` and of `ProduceSignature`, and `SignTransaction`
of `script/sign.cpp`, with a `CXMSSSigner` as the provider. The signer has no ECDSA keys and no
scripts: for a script without an XMSS template the solution is made from what is in the input
already, and is a parameter (`InputData.classical`). So are the redeem script and the witness
script that `DataFromTransaction` finds in the input.
-/

set_option autoImplicit false

namespace AssentianPQE

open Lib

/-- `STANDARD_SCRIPT_VERIFY_FLAGS`. -/
def standardScriptVerifyFlags : ScriptFlags where
  p2sh := true
  derSig := true
  nullDummy := true
  checkLockTimeVerify := true
  checkSequenceVerify := true
  witness := true
  taproot := true
  strictEnc := true
  minimalData := true
  discourageUpgradableNops := true
  cleanStack := true
  minimalIf := true
  nullFail := true
  lowS := true
  discourageUpgradableWitnessProgram := true
  witnessPubkeyType := true
  constScriptCode := true
  discourageUpgradableTaprootVersion := true
  discourageOpSuccess := true
  discourageUpgradablePubkeyType := true

/-! ### One signature -/

/-- The digest that `CreateXMSSSig` signs: the legacy digest with a leaf and the chain id. -/
def sighashV2 (c : Crypto) (sighash : Uint256) (leafIndex chainId : UInt32) : Uint256 :=
  c.sha256 (sighash.data ++ (beBytes 4 leafIndex.toNat ++ beBytes 4 chainId.toNat))

/-- `SignatureData::xmss_signatures`. -/
abbrev XmssSignatures := Std.ExtTreeMap Bytes Bytes

/-- `CreateXMSSSig`. The leaf is read in one call to the ledger and claimed in another. -/
def createXMSSSig (c : Crypto) (x : XmssKeys) (env : SignEnv) (chainId : UInt32) (t : TxContext)
    (pubkey : Bytes) (scriptCode : Script) (sigversion : SigVersion) (sigdata : XmssSignatures)
    (s : CXMSSSigner) : Durable LedgerDir (Option Bytes × XmssSignatures × CXMSSSigner) :=
  match sigdata[pubkey]? with
  | some sig => pure (some sig, sigdata, s)
  | none => do
    let leafIndex ← Durable.read (s.getXMSSLeafIndex env.status pubkey)
    env.others 0
    let sighash := signatureHash c t scriptCode SIGHASH_ALL sigversion
    match ← s.signXMSS x env (sighashV2 c sighash leafIndex chainId) pubkey with
    | (none, s) => pure (none, sigdata, s)
    | (some (sig, _), s) => pure (some sig, sigdata.insert pubkey sig, s)

/-- The chunks of a signature. The last one may be shorter. -/
def sigChunks (sig : Bytes) : List Bytes :=
  (List.range ((sig.length + XMSS_SIG_CHUNK_SIZE - 1) / XMSS_SIG_CHUNK_SIZE)).map fun i =>
    (sig.drop (XMSS_SIG_CHUNK_SIZE * i)).take XMSS_SIG_CHUNK_SIZE

/-- The key that an XMSS template names, or has the hash of. -/
def xmssPubkey (s : CXMSSSigner) (script : Script) : Option Bytes :=
  match solver script with
  | (.p2xmss, [key]) => some key
  | (.p2xmssHash, [hash]) =>
    some (((takeBlob 20 hash).map fun p => s.getPubKeyForHash p.1).getD [])
  | _ => none

/-- `SignStep` for a script with an XMSS template: the items of the solution. -/
def signStep (c : Crypto) (x : XmssKeys) (env : SignEnv) (chainId : UInt32) (t : TxContext)
    (pubkey : Bytes) (script : Script) (sigversion : SigVersion) (s : CXMSSSigner) :
    Durable LedgerDir (Option (List Bytes) × CXMSSSigner) :=
  if pubkey.length ≠ 64 then pure (none, s)
  else do
    match ← createXMSSSig c x env chainId t pubkey script sigversion ∅ s with
    | (none, _, s) => pure (none, s)
    | (some sig, _, s) =>
      if sig = [] then pure (none, s)
      else pure (some (sigChunks sig ++
        if (solver script).1 = .p2xmssHash then [pubkey] else []), s)

/-! ### One input -/

/-- `PushAll`. -/
def pushAll (values : List Bytes) : Script :=
  values.flatMap fun v =>
    match v with
    | [] => [OP_0]
    | [b] => if 1 ≤ b ∧ b ≤ 16 then [OP_1 + (b - 1)] else if b = 0x81 then [OP_1NEGATE] else pushBytes v
    | _ => pushBytes v

/-- What is in an input besides its signatures: the scripts that it reveals, and the solution
that is made without XMSS keys. -/
structure InputData where
  redeemScript : Script := []
  witnessScript : Script := []
  classical : Script × List Bytes := ([], [])

/-- `GetCScript`: the signer has no scripts of its own. -/
def getCScript (c : Crypto) (i : InputData) (scriptid : Bytes) : Option Script :=
  if (c.hash160 i.redeemScript).data = scriptid then some i.redeemScript
  else if (c.hash160 i.witnessScript).data = scriptid then some i.witnessScript
  else none

/-- The script that is solved in the end, and the scripts that lead to it. -/
structure SignPath where
  script : Script
  sigversion : SigVersion := .base
  redeemScript : Option Script := none
  witnessScript : Option Script := none

/-- The witness script of a program, if the input has it. -/
def witnessPath (c : Crypto) (i : InputData) (script : Script) (redeemScript : Option Script) :
    SignPath :=
  match solver script with
  | (.witnessV0ScriptHash, [program]) =>
    match getCScript c i (c.ripemd160 program).data with
    | some witnessScript => ⟨witnessScript, .witnessV0, redeemScript, some witnessScript⟩
    | none => ⟨script, .base, redeemScript, none⟩
  | _ => ⟨script, .base, redeemScript, none⟩

/-- The scripts that `ProduceSignature` passes to `SignStep`. -/
def signPath (c : Crypto) (i : InputData) (fromPubKey : Script) : SignPath :=
  match solver fromPubKey with
  | (.scriptHash, [hash]) =>
    match getCScript c i hash with
    | some redeemScript => witnessPath c i redeemScript (some redeemScript)
    | none => ⟨fromPubKey, .base, none, none⟩
  | _ => witnessPath c i fromPubKey none

/-- The script and the witness of an input for a solution. -/
def SignPath.wrap (p : SignPath) (items : List Bytes) : Script × List Bytes :=
  match p.witnessScript with
  | some witnessScript => (pushAll p.redeemScript.toList, items ++ [witnessScript])
  | none => (pushAll (items ++ p.redeemScript.toList), [])

/-- `ProduceSignature`: the script and the witness of the input. -/
def produceSignature (c : Crypto) (x : XmssKeys) (env : SignEnv) (chainId : UInt32)
    (t : TxContext) (i : InputData) (fromPubKey : Script) (s : CXMSSSigner) :
    Durable LedgerDir ((Script × List Bytes) × CXMSSSigner) :=
  let path := signPath c i fromPubKey
  match xmssPubkey s path.script with
  | none => pure (i.classical, s)
  | some pubkey => do
    let (items, s) ← signStep c x env chainId t pubkey path.script path.sigversion s
    pure (path.wrap (items.getD []), s)

/-! ### `SignTransaction` -/

/-- An entry of `input_errors`. -/
inductive InputError where
  | notFound | missingAmount | script (e : ScriptError)
deriving DecidableEq

/-- The text of an error. -/
def InputError.text : InputError → String
  | .notFound => "Input not found or already spent"
  | .missingAmount => "Missing amount"
  | .script .invalidStackOperation =>
    "Unable to sign input, invalid stack size (possibly missing key)"
  | .script .sigNullFail =>
    "CHECK(MULTI)SIG failing with non-zero signature (possibly need more signatures)"
  | .script e => scriptErrorString e

/-- A checker without the spent outputs: `SignatureHashSchnorr` fails. -/
def SignatureChecker.withoutSpentOutputs (checker : SignatureChecker) : SignatureChecker :=
  { checker with
    checkSchnorrSignature := fun sig _ _ _ =>
      if sig.length ≠ 64 ∧ sig.length ≠ 65 then some .schnorrSigSize
      else some .schnorrSigHashType }

/-- `SignatureExtractorChecker`: a `DeferringSignatureChecker` does not pass `CheckXMSSSignature`
on, and the one of `BaseSignatureChecker` refuses every signature. -/
def SignatureChecker.withoutXmss (checker : SignatureChecker) : SignatureChecker :=
  { checker with checkXMSSSignature := fun _ _ _ _ => false }

/-- The arguments of `SignTransaction` besides the provider. `env` and `data` are by input. -/
structure SignCall where
  tx : Transaction
  coins : OutPoint → Option TxOut
  nHashType : Nat
  chainId : UInt32
  env : Nat → SignEnv
  data : Nat → InputData := fun _ => {}

namespace SignCall

/-- The spent outputs of `txdata`, if all of them are known. -/
def spentOutputs (a : SignCall) : Option (List TxOut) :=
  a.tx.vin.mapM fun txin => a.coins txin.prevout

/-- The context of an input for a chain id. -/
def context (a : SignCall) (n : Nat) (txin : TxIn) (out : TxOut) (chainId : UInt32) : TxContext where
  tx := a.tx
  nIn := n
  input := txin
  amount := out.nValue
  spentOutputs := a.spentOutputs.getD []
  xmssChainId := chainId

/-- The checker of the last test on an input. -/
def checker (a : SignCall) (c : Crypto) (n : Nat) (txin : TxIn) (out : TxOut) : SignatureChecker :=
  let checker := (a.context n txin out a.chainId).checker c
  if a.spentOutputs.isSome then checker else checker.withoutSpentOutputs

/-- `DataFromTransaction`: whether the input is signed already. Its checker has no `txdata`, and it
refuses every XMSS signature. -/
def complete (a : SignCall) (c : Crypto) (n : Nat) (txin : TxIn) (out : TxOut) : Bool :=
  (verifyScript c standardScriptVerifyFlags
    ((a.context n txin out 1).checker c).withoutSpentOutputs.withoutXmss
    txin.scriptSig out.scriptPubKey txin.scriptWitness).isOk

/-- `SIGHASH_SINGLE` needs an output at the position of the input. -/
def signs (a : SignCall) (n : Nat) : Bool :=
  !(a.nHashType = SIGHASH_SINGLE ∨ a.nHashType = 0x80 + SIGHASH_SINGLE) || n < a.tx.vout.length

/-- One pass of the loop of `SignTransaction`, for an input with a coin. -/
def solveInput (a : SignCall) (c : Crypto) (x : XmssKeys) (n : Nat) (txin : TxIn) (out : TxOut)
    (s : CXMSSSigner) : Durable LedgerDir ((Script × List Bytes) × CXMSSSigner) :=
  if a.complete c n txin out || !a.signs n then pure ((txin.scriptSig, txin.scriptWitness), s)
  else produceSignature c x (a.env n) a.chainId (a.context n txin out a.chainId) (a.data n)
    out.scriptPubKey s

/-- The tests on an input after it was signed. -/
def checkInput (a : SignCall) (c : Crypto) (n : Nat) (txin : TxIn) (out : TxOut) :
    Option InputError :=
  if out.nValue.toInt = MAX_MONEY ∧ txin.scriptWitness ≠ [] then some .missingAmount
  else
    match (verifyScript c standardScriptVerifyFlags (a.checker c n txin out) txin.scriptSig
      out.scriptPubKey txin.scriptWitness).result with
    | .ok () => none
    | .error e => some (.script e)

/-- The loop of `SignTransaction`: the inputs from position `n` on, and their errors. -/
def signInputs (a : SignCall) (c : Crypto) (x : XmssKeys) :
    Nat → List TxIn → CXMSSSigner →
      Durable LedgerDir ((List TxIn × List (Nat × InputError)) × CXMSSSigner)
  | _, [], s => pure (([], []), s)
  | n, txin :: rest, s =>
    match a.coins txin.prevout with
    | none => do
      let ((vin, errors), s) ← signInputs a c x (n + 1) rest s
      pure ((txin :: vin, (n, .notFound) :: errors), s)
    | some out => do
      let ((scriptSig, witness), s) ← a.solveInput c x n txin out s
      let signed := { txin with scriptSig := scriptSig, scriptWitness := witness }
      let ((vin, errors), s) ← signInputs a c x (n + 1) rest s
      pure ((signed :: vin, ((a.checkInput c n signed out).map (n, ·)).toList ++ errors), s)

/-- `SignTransaction`: the transaction and the errors of its inputs. It succeeds if there are
none. -/
def signTransaction (a : SignCall) (c : Crypto) (x : XmssKeys) (s : CXMSSSigner) :
    Durable LedgerDir ((Transaction × List (Nat × InputError)) × CXMSSSigner) := do
  let ((vin, errors), s) ← a.signInputs c x 0 a.tx.vin s
  pure (({ a.tx with vin := vin }, errors), s)

end SignCall

end AssentianPQE
