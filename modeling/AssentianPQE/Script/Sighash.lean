import AssentianPQE.Script.Interpreter

/-!
# `AssentianPQE.Script.Sighash`: what a signature signs

`SignatureHash` in its legacy and witness v0 forms, `SignatureHashSchnorr`, and
`GenericTransactionSignatureChecker`, whose `CheckXMSSSignature` adds the leaf index and the
chain id to the legacy hash.

`PrecomputedTransactionData` only caches hashes, so the model computes them where they are
used; its `xmss_chain_id` and the spent outputs are fields of `TxContext`.
-/

set_option autoImplicit false

namespace AssentianPQE

open Lib

def SIGHASH_ALL : Nat := 1
def SIGHASH_NONE : Nat := 2
def SIGHASH_SINGLE : Nat := 3

/-- `nHashType & SIGHASH_ANYONECANPAY`. -/
def anyoneCanPay (nHashType : Nat) : Bool :=
  128 ≤ nHashType % 256

/-- The transaction, the input and the output whose script is run. -/
structure TxContext where
  tx : Transaction
  nIn : Nat
  input : TxIn
  amount : Int64
  spentOutputs : List TxOut
  xmssChainId : UInt32

/-! ### Legacy scripts -/

/-- The bytes that a failing `GetOp` has passed when it stops. -/
def failedReadLength : Script → Nat
  | [] => 0
  | opcode :: pc =>
    let lengthBytes := if opcode = OP_PUSHDATA1 then 1 else if opcode = OP_PUSHDATA2 then 2
      else if opcode = OP_PUSHDATA4 then 4 else 0
    if lengthBytes ≤ pc.length then 1 + lengthBytes else 1

/-- The script code without its code separators. -/
def withoutSeparators : List ScriptOp → Script → Bytes
  | [], s => s.take (failedReadLength s)
  | op :: ops, s =>
    (if op.opcode = OP_CODESEPARATOR then [] else s.take (s.length - op.rest.length)) ++
      withoutSeparators ops op.rest

/-- `CTransactionSignatureSerializer::SerializeScriptCode`. -/
def serializeScriptCode (scriptCode : Script) : Bytes :=
  let nCodeSeparators := (ops scriptCode).countP fun op => op.opcode = OP_CODESEPARATOR
  writeCompactSize (scriptCode.length - nCodeSeparators) ++
    withoutSeparators (ops scriptCode) scriptCode

/-- `CTransactionSignatureSerializer::SerializeInput`, for the input at position `n`. -/
def serializeInput (t : TxContext) (scriptCode : Script) (nHashType n : Nat) (i : TxIn) :
    Bytes :=
  let signed : Bool := n = t.nIn
  let fHashSingle : Bool := nHashType % 32 = SIGHASH_SINGLE
  let fHashNone : Bool := nHashType % 32 = SIGHASH_NONE
  i.prevout.serialize ++
    ((if signed then serializeScriptCode scriptCode else serBytes []) ++
      (if !signed && (fHashSingle || fHashNone) then serU32 0 else serU32 i.nSequence))

/-- `CTransactionSignatureSerializer::Serialize`. `CTxOut()` has value -1 and no script. -/
def serializeForSignature (t : TxContext) (scriptCode : Script) (nHashType : Nat) : Bytes :=
  let inputs :=
    if anyoneCanPay nHashType then [serializeInput t scriptCode nHashType t.nIn t.input]
    else t.tx.vin.mapIdx (serializeInput t scriptCode nHashType)
  let outputs :=
    if nHashType % 32 = SIGHASH_NONE then []
    else if nHashType % 32 = SIGHASH_SINGLE then
      List.replicate t.nIn (TxOut.serialize ⟨-1, []⟩) ++
        ((t.tx.vout.drop t.nIn).take 1).map TxOut.serialize
    else t.tx.vout.map TxOut.serialize
  serI32 t.tx.nVersion ++ (serVector id inputs ++ (serVector id outputs ++ serU32 t.tx.nLockTime))

/-! ### Witness v0 -/

/-- The string that a witness v0 signature signs. -/
def witnessV0Preimage (c : Crypto) (t : TxContext) (scriptCode : Script) (nHashType : Nat) :
    Bytes :=
  let base := nHashType % 32
  let hashPrevouts := if anyoneCanPay nHashType then nullHash
    else c.hash256 (t.tx.vin.map fun i => i.prevout.serialize).flatten
  let hashSequence :=
    if anyoneCanPay nHashType ∨ base = SIGHASH_SINGLE ∨ base = SIGHASH_NONE then nullHash
    else c.hash256 (t.tx.vin.map fun i => serU32 i.nSequence).flatten
  let hashOutputs :=
    if base ≠ SIGHASH_SINGLE ∧ base ≠ SIGHASH_NONE then
      c.hash256 (t.tx.vout.map TxOut.serialize).flatten
    else if base = SIGHASH_SINGLE then
      match t.tx.vout[t.nIn]? with
      | some out => c.hash256 out.serialize
      | none => nullHash
    else nullHash
  serI32 t.tx.nVersion ++ (hashPrevouts.data ++ (hashSequence.data ++
    (t.input.prevout.serialize ++ (serBytes scriptCode ++ (serI64 t.amount ++
      (serU32 t.input.nSequence ++ (hashOutputs.data ++ (serU32 t.tx.nLockTime ++
        leBytes 4 nHashType))))))))

/-- `SignatureHash`. -/
def signatureHash (c : Crypto) (t : TxContext) (scriptCode : Script) (nHashType : Nat)
    (sigversion : SigVersion) : Uint256 :=
  if sigversion = .witnessV0 then c.hash256 (witnessV0Preimage c t scriptCode nHashType)
  else if nHashType % 32 = SIGHASH_SINGLE ∧ t.tx.vout.length ≤ t.nIn then Blob.ofNat 32 1
  else c.hash256 (serializeForSignature t scriptCode nHashType ++ leBytes 4 nHashType)

/-! ### Taproot -/

/-- `TaggedHash(tag)` followed by `GetSHA256`. -/
def taggedHash (c : Crypto) (tag : String) (bs : Bytes) : Uint256 :=
  let prefixHash := (c.sha256 (tag.toList.map fun ch => UInt8.ofNat ch.toNat)).data
  c.sha256 (prefixHash ++ (prefixHash ++ bs))

/-- `SignatureHashSchnorr`, or `none` on a hash type that it rejects. -/
def signatureHashSchnorr (c : Crypto) (t : TxContext) (exec : ExecData) (hashType : Nat)
    (sigversion : SigVersion) : Option Uint256 :=
  let outputType := if hashType = 0 then SIGHASH_ALL else hashType % 4
  let single (bss : List Bytes) : Bytes := (c.sha256 bss.flatten).data
  let extFlag := if sigversion = .tapscript then 1 else 0
  if ¬ (hashType ≤ 3 ∨ (0x81 ≤ hashType ∧ hashType ≤ 0x83)) then none
  else if outputType = SIGHASH_SINGLE ∧ t.tx.vout.length ≤ t.nIn then none
  else
    some (taggedHash c "TapSighash" (
      leBytes 1 0 ++ (leBytes 1 hashType ++ (serI32 t.tx.nVersion ++ (serU32 t.tx.nLockTime ++
      ((if anyoneCanPay hashType then []
        else single (t.tx.vin.map fun i => i.prevout.serialize) ++
          (single (t.spentOutputs.map fun o => serI64 o.nValue) ++
          (single (t.spentOutputs.map fun o => serBytes o.scriptPubKey) ++
            single (t.tx.vin.map fun i => serU32 i.nSequence)))) ++
      ((if outputType = SIGHASH_ALL then single (t.tx.vout.map TxOut.serialize) else []) ++
      (leBytes 1 (2 * extFlag + if exec.annexHash.isSome then 1 else 0) ++
      ((if anyoneCanPay hashType then
          t.input.prevout.serialize ++ (((t.spentOutputs.drop t.nIn).take 1).flatMap TxOut.serialize ++
            serU32 t.input.nSequence)
        else leBytes 4 t.nIn) ++
      ((exec.annexHash.map Blob.data).getD [] ++
      ((if outputType = SIGHASH_SINGLE then
          single (((t.tx.vout.drop t.nIn).take 1).map TxOut.serialize)
        else []) ++
      (if sigversion = .tapscript then
          exec.tapleafHash.data ++ (leBytes 1 0 ++ serU32 exec.codeseparatorPos)
        else []))))))))))))

/-! ### The checker -/

/-- The digest that an XMSS spend signs (sighash-v2): the leaf index of the signature and
the chain id are hashed with the legacy digest. -/
def xmssSighash (c : Crypto) (t : TxContext) (sig : Bytes) (scriptCode : Script)
    (sigversion : SigVersion) : Uint256 :=
  let sighash := signatureHash c
    (if sigversion = .base ∨ sigversion = .witnessV0 then t else { t with amount := 0 })
    scriptCode SIGHASH_ALL sigversion
  if 4 ≤ sig.length then
    c.sha256 (sighash.data ++ (beBytes 4 (leafIndexOf sig) ++ beBytes 4 t.xmssChainId.toNat))
  else sighash

/-- `CheckXMSSSignature`. -/
def checkXMSSSignature (c : Crypto) (t : TxContext) (sig pubkey : Bytes) (scriptCode : Script)
    (sigversion : SigVersion) : Bool :=
  if pubkey.length ≠ 64 then false
  else if sig = [] then false
  else xmssVerify c (xmssSighash c t sig scriptCode sigversion).data sig pubkey

/-- `CheckECDSASignature`. The hash type is the last byte of the signature. -/
def checkECDSASignature (c : Crypto) (t : TxContext) (sig pubkey : Bytes) (scriptCode : Script)
    (sigversion : SigVersion) : Bool :=
  match sig.getLast? with
  | none => false
  | some hashType =>
    if sigversion = .witnessV0 ∧ t.amount < 0 then false
    else c.ecdsaVerify pubkey sig.dropLast
      (signatureHash c t scriptCode hashType.toNat sigversion)

/-- `CheckSchnorrSignature`: the error it sets, if any. -/
def checkSchnorrSignature (c : Crypto) (t : TxContext) (sig pubkey : Bytes)
    (sigversion : SigVersion) (exec : ExecData) : Option ScriptError :=
  if sig.length ≠ 64 ∧ sig.length ≠ 65 then some .schnorrSigSize
  else
    let hashType := if sig.length = 65 then (sig.getLastD 0).toNat else 0
    if sig.length = 65 ∧ hashType = 0 then some .schnorrSigHashType
    else
      match signatureHashSchnorr c t exec hashType sigversion with
      | none => some .schnorrSigHashType
      | some sighash =>
        if c.schnorrVerify pubkey (sig.take 64) sighash then none else some .schnorrSig

/-- `CheckLockTime`. -/
def checkLockTime (t : TxContext) (nLockTime : Int) : Bool :=
  let txLockTime := t.tx.nLockTime.toNat
  ((txLockTime < LOCKTIME_THRESHOLD ∧ nLockTime < LOCKTIME_THRESHOLD) ∨
      (LOCKTIME_THRESHOLD ≤ txLockTime ∧ (LOCKTIME_THRESHOLD : Int) ≤ nLockTime)) ∧
    nLockTime ≤ txLockTime ∧ t.input.nSequence ≠ TxIn.sequenceFinal

/-- The bits of a sequence number that a relative lock time uses: the type flag and the low
16 bits. -/
def sequenceMasked (n : Nat) : Nat :=
  n / 2 ^ 22 % 2 * 2 ^ 22 + n % 2 ^ 16

/-- `CheckSequence`. -/
def checkSequence (t : TxContext) (nSequence : Int) : Bool :=
  let txToSequence := t.input.nSequence.toNat
  let txToSequenceMasked := sequenceMasked txToSequence
  let nSequenceMasked := sequenceMasked nSequence.toNat
  2 ≤ t.tx.nVersion.toBitVec.toNat ∧ txToSequence < 2 ^ 31 ∧
    (txToSequenceMasked < 2 ^ 22 ↔ nSequenceMasked < 2 ^ 22) ∧
    nSequenceMasked ≤ txToSequenceMasked

/-- `GenericTransactionSignatureChecker`. -/
def TxContext.checker (c : Crypto) (t : TxContext) : SignatureChecker where
  checkECDSASignature := AssentianPQE.checkECDSASignature c t
  checkSchnorrSignature := AssentianPQE.checkSchnorrSignature c t
  checkXMSSSignature := AssentianPQE.checkXMSSSignature c t
  checkLockTime := AssentianPQE.checkLockTime t
  checkSequence := AssentianPQE.checkSequence t

end AssentianPQE
