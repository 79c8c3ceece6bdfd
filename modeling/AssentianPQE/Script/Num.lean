import AssentianPQE.Script.Script

/-!
# `AssentianPQE.Script.Num`: booleans, numbers and signature encodings

The small functions of `script/interpreter.cpp` and `script/script.h` that the interpreter
applies to single stack items: `CastToBool`, `CScriptNum`, the encoding tests on ECDSA
signatures and keys, and `FindAndDelete`.
-/

set_option autoImplicit false

namespace AssentianPQE

open Lib

/-- `ScriptError`, the values that the modelled functions set. -/
inductive ScriptError where
  | unknownError | evalFalse | opReturn | scriptSize | pushSize | opCount | stackSize
  | sigCount | pubkeyCount | verify | equalVerify | checkMultiSigVerify | checkSigVerify
  | numEqualVerify | badOpcode | disabledOpcode | invalidStackOperation
  | invalidAltStackOperation | unbalancedConditional | negativeLockTime | unsatisfiedLockTime
  | sigHashType | sigDer | minimalData | sigPushOnly | sigHighS | sigNullDummy | pubkeyType
  | cleanStack | minimalIf | sigNullFail | discourageUpgradableNops
  | discourageUpgradableWitnessProgram | discourageUpgradableTaprootVersion
  | discourageOpSuccess | discourageUpgradablePubkeyType | witnessProgramWrongLength
  | witnessProgramWitnessEmpty | witnessProgramMismatch | witnessMalleated
  | witnessMalleatedP2SH | witnessUnexpected | witnessPubkeyType | schnorrSigSize
  | schnorrSigHashType | schnorrSig | taprootWrongControlSize | tapscriptValidationWeight
  | tapscriptCheckMultiSig | tapscriptMinimalIf | opCodeSeparator | sigFindAndDelete
  | xmssCheckSigVerify
deriving DecidableEq

/-- `ScriptErrorString`. The errors of the XMSS opcodes have no text of their own. -/
def scriptErrorString : ScriptError → String
  | .evalFalse =>
    "Script evaluated without error but finished with a false/empty top stack element"
  | .verify => "Script failed an OP_VERIFY operation"
  | .equalVerify => "Script failed an OP_EQUALVERIFY operation"
  | .checkMultiSigVerify => "Script failed an OP_CHECKMULTISIGVERIFY operation"
  | .checkSigVerify => "Script failed an OP_CHECKSIGVERIFY operation"
  | .numEqualVerify => "Script failed an OP_NUMEQUALVERIFY operation"
  | .scriptSize => "Script is too big"
  | .pushSize => "Push value size limit exceeded"
  | .opCount => "Operation limit exceeded"
  | .stackSize => "Stack size limit exceeded"
  | .sigCount => "Signature count negative or greater than pubkey count"
  | .pubkeyCount => "Pubkey count negative or limit exceeded"
  | .badOpcode => "Opcode missing or not understood"
  | .disabledOpcode => "Attempted to use a disabled opcode"
  | .invalidStackOperation => "Operation not valid with the current stack size"
  | .invalidAltStackOperation => "Operation not valid with the current altstack size"
  | .opReturn => "OP_RETURN was encountered"
  | .unbalancedConditional => "Invalid OP_IF construction"
  | .negativeLockTime => "Negative locktime"
  | .unsatisfiedLockTime => "Locktime requirement not satisfied"
  | .sigHashType => "Signature hash type missing or not understood"
  | .sigDer => "Non-canonical DER signature"
  | .minimalData => "Data push larger than necessary"
  | .sigPushOnly => "Only push operators allowed in signatures"
  | .sigHighS => "Non-canonical signature: S value is unnecessarily high"
  | .sigNullDummy => "Dummy CHECKMULTISIG argument must be zero"
  | .minimalIf => "OP_IF/NOTIF argument must be minimal"
  | .sigNullFail => "Signature must be zero for failed CHECK(MULTI)SIG operation"
  | .discourageUpgradableNops => "NOPx reserved for soft-fork upgrades"
  | .discourageUpgradableWitnessProgram => "Witness version reserved for soft-fork upgrades"
  | .discourageUpgradableTaprootVersion => "Taproot version reserved for soft-fork upgrades"
  | .discourageOpSuccess => "OP_SUCCESSx reserved for soft-fork upgrades"
  | .discourageUpgradablePubkeyType => "Public key version reserved for soft-fork upgrades"
  | .pubkeyType => "Public key is neither compressed or uncompressed"
  | .cleanStack => "Stack size must be exactly one after execution"
  | .witnessProgramWrongLength => "Witness program has incorrect length"
  | .witnessProgramWitnessEmpty => "Witness program was passed an empty witness"
  | .witnessProgramMismatch => "Witness program hash mismatch"
  | .witnessMalleated => "Witness requires empty scriptSig"
  | .witnessMalleatedP2SH => "Witness requires only-redeemscript scriptSig"
  | .witnessUnexpected => "Witness provided for non-witness script"
  | .witnessPubkeyType => "Using non-compressed keys in segwit"
  | .schnorrSigSize => "Invalid Schnorr signature size"
  | .schnorrSigHashType => "Invalid Schnorr signature hash type"
  | .schnorrSig => "Invalid Schnorr signature"
  | .taprootWrongControlSize => "Invalid Taproot control block size"
  | .tapscriptValidationWeight => "Too much signature validation relative to witness weight"
  | .tapscriptCheckMultiSig => "OP_CHECKMULTISIG(VERIFY) is not available in tapscript"
  | .tapscriptMinimalIf => "OP_IF/NOTIF argument must be minimal in tapscript"
  | .opCodeSeparator => "Using OP_CODESEPARATOR in non-witness script"
  | .sigFindAndDelete => "Signature is found in scriptCode"
  | .unknownError | .xmssCheckSigVerify => "unknown error"

/-- `SigVersion`. -/
inductive SigVersion where
  | base | witnessV0 | taproot | tapscript
deriving DecidableEq

/-- `CastToBool`: some byte is not zero, where a last byte `0x80` is a negative zero. -/
def castToBool : Bytes → Bool
  | [] => false
  | [b] => b ≠ 0 ∧ b ≠ 0x80
  | b :: bs => b ≠ 0 || castToBool bs

def vchFalse : Bytes := []
def vchTrue : Bytes := [1]

/-- `vchTrue` or `vchFalse`. -/
def boolBytes (b : Bool) : Bytes :=
  if b then vchTrue else vchFalse

/-! ### `CScriptNum` -/

/-- `CScriptNum::set_vch`. -/
def setVch (vch : Bytes) : Int :=
  match vch.getLast? with
  | none => 0
  | some b =>
    if 0x80 ≤ b then -((readLE vch - 0x80 * 256 ^ (vch.length - 1) : Nat) : Int)
    else (readLE vch : Int)

/-- Whether a number is encoded in as few bytes as possible. -/
def isMinimalNum (vch : Bytes) : Bool :=
  match vch.getLast? with
  | none => true
  | some b =>
    b.toNat % 128 ≠ 0 ∨ (1 < vch.length ∧ 128 ≤ (vch.getD (vch.length - 2) 0).toNat)

/-- The constructor of `CScriptNum` from bytes. `none` stands for the exception. -/
def scriptNum (vch : Bytes) (fRequireMinimal : Bool) (nMaxNumSize : Nat) : Option Int :=
  if nMaxNumSize < vch.length then none
  else if fRequireMinimal && !isMinimalNum vch then none
  else some (setVch vch)

/-- `CScriptNum::serialize`. -/
def serializeNum (v : Int) : Bytes :=
  if v = 0 then []
  else
    let absvalue := v.natAbs
    let result := leBytes (absvalue.log2 / 8 + 1) absvalue
    let last := result.getLastD 0
    if 0x80 ≤ last then result ++ [if v < 0 then 0x80 else 0]
    else if v < 0 then result.dropLast ++ [last ||| 0x80]
    else result

/-- `CScriptNum::getint`: clamped to 32 bits. -/
def getInt (v : Int) : Int :=
  max (-2147483648) (min v 2147483647)

/-! ### Encodings of ECDSA signatures and keys -/

/-- `IsCompressedOrUncompressedPubKey`. -/
def isCompressedOrUncompressedPubKey (vchPubKey : Bytes) : Bool :=
  match vchPubKey with
  | 0x04 :: _ => vchPubKey.length = 65
  | 0x02 :: _ => vchPubKey.length = 33
  | 0x03 :: _ => vchPubKey.length = 33
  | _ => false

/-- `IsCompressedPubKey`. -/
def isCompressedPubKey (vchPubKey : Bytes) : Bool :=
  vchPubKey.length = 33 ∧ (vchPubKey.headD 0 = 0x02 ∨ vchPubKey.headD 0 = 0x03)

/-- `IsValidSignatureEncoding`: the strict DER form with a hash type byte. -/
def isValidSignatureEncoding (sig : Bytes) : Bool :=
  let byte (i : Nat) : Nat := (sig.getD i 0).toNat
  let lenR := byte 3
  let lenS := byte (5 + lenR)
  9 ≤ sig.length ∧ sig.length ≤ 73 ∧ byte 0 = 0x30 ∧ byte 1 = sig.length - 3 ∧
    5 + lenR < sig.length ∧ lenR + lenS + 7 = sig.length ∧
    byte 2 = 0x02 ∧ lenR ≠ 0 ∧ byte 4 < 0x80 ∧ ¬ (1 < lenR ∧ byte 4 = 0 ∧ byte 5 < 0x80) ∧
    byte (lenR + 4) = 0x02 ∧ lenS ≠ 0 ∧ byte (lenR + 6) < 0x80 ∧
    ¬ (1 < lenS ∧ byte (lenR + 6) = 0 ∧ byte (lenR + 7) < 0x80)

/-- `IsDefinedHashtypeSignature`. -/
def isDefinedHashtypeSignature (sig : Bytes) : Bool :=
  match sig.getLast? with
  | none => false
  | some b => 1 ≤ b.toNat % 128 ∧ b.toNat % 128 ≤ 3

/-- `CheckSignatureEncoding`: the error it sets, if any. -/
def checkSignatureEncoding (c : Crypto) (flags : ScriptFlags) (sig : Bytes) :
    Option ScriptError :=
  if sig = [] then none
  else if (flags.derSig || flags.lowS || flags.strictEnc) && !isValidSignatureEncoding sig then
    some .sigDer
  else if flags.lowS && !c.ecdsaCheckLowS sig.dropLast then some .sigHighS
  else if flags.strictEnc && !isDefinedHashtypeSignature sig then some .sigHashType
  else none

/-- `CheckPubKeyEncoding`: the error it sets, if any. -/
def checkPubKeyEncoding (flags : ScriptFlags) (sigversion : SigVersion) (vchPubKey : Bytes) :
    Option ScriptError :=
  if flags.strictEnc && !isCompressedOrUncompressedPubKey vchPubKey then some .pubkeyType
  else if flags.witnessPubkeyType && sigversion == .witnessV0 && !isCompressedPubKey vchPubKey then
    some .witnessPubkeyType
  else none

/-! ### `FindAndDelete` -/

/-- The inner loop: skip copies of `b`, and count them. -/
def skipCopies (b : Script) : Nat → Script → Script × Nat
  | 0, pc => (pc, 0)
  | n + 1, pc =>
    if b.isPrefixOf pc then
      let r := skipCopies b n (pc.drop b.length)
      (r.1, r.2 + 1)
    else (pc, 0)

/-- The outer loop, one operation at a time: what is kept, and how many copies were
dropped. -/
def findAndDeleteLoop (b : Script) : Nat → Script → Script × Nat
  | 0, pc => (pc, 0)
  | n + 1, pc =>
    let skipped := skipCopies b pc.length pc
    match getScriptOp skipped.1 with
    | none => skipped
    | some op =>
      let r := findAndDeleteLoop b n op.rest
      (skipped.1.take (skipped.1.length - op.rest.length) ++ r.1, skipped.2 + r.2)

/-- `FindAndDelete`: the script without the copies of `b` at operation boundaries, and
their number. -/
def findAndDelete (script b : Script) : Script × Nat :=
  if b = [] then (script, 0) else findAndDeleteLoop b (script.length + 1) script

end AssentianPQE
