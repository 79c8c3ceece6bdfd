import AssentianPQE.Script.Sighash

/-!
# `AssentianPQE.Script.Verify`: `VerifyScriptXMSSCapture`

The evaluation of a spend in `script/interpreter.cpp`: the two scripts, the redeem script of
P2SH and the witness program, with the leaves that each of them records. `CountWitnessSigOps`
is here too.
-/

set_option autoImplicit false

namespace AssentianPQE

open Lib

def WITNESS_V0_SCRIPTHASH_SIZE : Nat := 32
def WITNESS_V0_KEYHASH_SIZE : Nat := 20
def WITNESS_V1_TAPROOT_SIZE : Nat := 32
def TAPROOT_CONTROL_BASE_SIZE : Nat := 33
def TAPROOT_CONTROL_NODE_SIZE : Nat := 32
def TAPROOT_CONTROL_MAX_SIZE : Nat := TAPROOT_CONTROL_BASE_SIZE + TAPROOT_CONTROL_NODE_SIZE * 128
def TAPROOT_LEAF_TAPSCRIPT : Nat := 0xc0

/-! ### Witness programs -/

/-- What `ExecuteWitnessScript` finds when it looks for `OP_SUCCESS` opcodes: one of them, a
truncated push, or neither. -/
inductive OpSuccessScan where
  | found | badOpcode | clean
deriving DecidableEq

/-- The scan of a tapscript for `OP_SUCCESS` opcodes. A truncated push after one of them does
not matter. -/
def scanOpSuccess (script : Script) : OpSuccessScan :=
  if (ops script).any fun op => isOpSuccess op.opcode then .found
  else if parses script then .clean
  else .badOpcode

/-- `ExecuteWitnessScript` after the test for `OP_SUCCESS`. The stack has its top first. -/
def runWitnessScript (ctx : EvalContext) (stack : List Bytes) (execScript : Script)
    (exec : ExecData) : Captured Unit :=
  if stack.any fun elem => MAX_SCRIPT_ELEMENT_SIZE < elem.length then .fail .pushSize
  else do
    let stack ← evalScript ctx stack execScript exec
    match stack with
    | [top] => if castToBool top then pure () else .fail .evalFalse
    | _ => .fail .cleanStack

/-- `ExecuteWitnessScript`. -/
def executeWitnessScript (ctx : EvalContext) (stack : List Bytes) (execScript : Script)
    (exec : ExecData) : Captured Unit :=
  if ctx.sigversion ≠ .tapscript then runWitnessScript ctx stack execScript exec
  else
    match scanOpSuccess execScript with
    | .badOpcode => .fail .badOpcode
    | .found => if ctx.flags.discourageOpSuccess then .fail .discourageOpSuccess else pure ()
    | .clean =>
      if MAX_STACK_SIZE < stack.length then .fail .stackSize
      else runWitnessScript ctx stack execScript exec

/-- `ComputeTapleafHash`. -/
def computeTapleafHash (c : Crypto) (leafVersion : Nat) (script : Bytes) : Uint256 :=
  taggedHash c "TapLeaf" (leBytes 1 leafVersion ++ serBytes script)

/-- `ComputeTapbranchHash`: the smaller string first. -/
def computeTapbranchHash (c : Crypto) (a b : Bytes) : Uint256 :=
  taggedHash c "TapBranch" (if a < b then a ++ b else b ++ a)

/-- `ComputeTaprootMerkleRoot`: the loop over the nodes of the control block. -/
def computeTaprootMerkleRoot (c : Crypto) : Nat → Bytes → Uint256 → Uint256
  | 0, _, k => k
  | n + 1, path, k =>
    computeTaprootMerkleRoot c n (path.drop TAPROOT_CONTROL_NODE_SIZE)
      (computeTapbranchHash c k.data (path.take TAPROOT_CONTROL_NODE_SIZE))

/-- `VerifyTaprootCommitment`. -/
def verifyTaprootCommitment (c : Crypto) (control program : Bytes) (tapleafHash : Uint256) :
    Bool :=
  let pathLen := (control.length - TAPROOT_CONTROL_BASE_SIZE) / TAPROOT_CONTROL_NODE_SIZE
  c.checkTapTweak program ((control.drop 1).take 32)
    (computeTaprootMerkleRoot c pathLen (control.drop TAPROOT_CONTROL_BASE_SIZE) tapleafHash)
    ((control.headD 0).toNat % 2 = 1)

/-- The implied script of a P2WPKH program. -/
def witnessKeyHashScript (program : Bytes) : Script :=
  [OP_DUP, OP_HASH160] ++ (pushBytes program ++ [OP_EQUALVERIFY, OP_CHECKSIG])

/-- Taproot spends. `witness` is the whole witness, `stack` what is left of it, both with the
last item first. -/
def verifyTaproot (c : Crypto) (flags : ScriptFlags) (checker : SignatureChecker)
    (witness : List Bytes) (program : Bytes) : Captured Unit :=
  if !flags.taproot then pure ()
  else
    match witness with
    | [] => .fail .witnessProgramWitnessEmpty
    | last :: rest =>
      let hasAnnex : Bool := rest ≠ [] ∧ last.head? = some ANNEX_TAG
      let stack := if hasAnnex then rest else witness
      let exec : ExecData :=
        { annexHash := if hasAnnex then some (c.sha256 (serBytes last)) else none }
      match stack with
      | control :: script :: stack =>
        if control.length < TAPROOT_CONTROL_BASE_SIZE ∨ TAPROOT_CONTROL_MAX_SIZE < control.length ∨
            (control.length - TAPROOT_CONTROL_BASE_SIZE) % TAPROOT_CONTROL_NODE_SIZE ≠ 0 then
          .fail .taprootWrongControlSize
        else
          let leafVersion := (control.headD 0).toNat / 2 * 2
          let tapleafHash := computeTapleafHash c leafVersion script
          if !verifyTaprootCommitment c control program tapleafHash then
            .fail .witnessProgramMismatch
          else if leafVersion = TAPROOT_LEAF_TAPSCRIPT then
            executeWitnessScript ⟨c, flags, checker, .tapscript⟩ stack script
              { exec with
                tapleafHash := tapleafHash
                validationWeightLeft :=
                  (serVector serBytes witness.reverse).length + VALIDATION_WEIGHT_OFFSET }
          else if flags.discourageUpgradableTaprootVersion then
            .fail .discourageUpgradableTaprootVersion
          else pure ()
      | sig =>
        -- One item: a key path spend.
        match checker.checkSchnorrSignature sig.flatten program .taproot exec with
        | some e => .fail e
        | none => pure ()

/-- `VerifyWitnessProgram`. -/
def verifyWitnessProgram (c : Crypto) (flags : ScriptFlags) (checker : SignatureChecker)
    (witness : List Bytes) (witversion : Nat) (program : Bytes) (isP2SH : Bool) :
    Captured Unit :=
  let ctx : EvalContext := ⟨c, flags, checker, .witnessV0⟩
  if witversion = 0 then
    if program.length = WITNESS_V0_SCRIPTHASH_SIZE then
      match witness.reverse with
      | [] => .fail .witnessProgramWitnessEmpty
      | execScript :: stack =>
        if (c.sha256 execScript).data ≠ program then .fail .witnessProgramMismatch
        else executeWitnessScript ctx stack execScript {}
    else if program.length = WITNESS_V0_KEYHASH_SIZE then
      if witness.length ≠ 2 then .fail .witnessProgramMismatch
      else executeWitnessScript ctx witness.reverse (witnessKeyHashScript program) {}
    else .fail .witnessProgramWrongLength
  else if witversion = 1 ∧ program.length = WITNESS_V1_TAPROOT_SIZE ∧ !isP2SH then
    verifyTaproot c flags checker witness.reverse program
  else if flags.discourageUpgradableWitnessProgram then .fail .discourageUpgradableWitnessProgram
  else pure ()

/-! ### Spends -/

/-- The last item of a stack must be there and true. -/
def requireTrue (stack : List Bytes) : Captured Unit :=
  match stack with
  | [] => .fail .evalFalse
  | top :: _ => if castToBool top then pure () else .fail .evalFalse

/-- The witness program of a bare output. The flag says whether there was one. -/
def verifyBareWitness (c : Crypto) (flags : ScriptFlags) (checker : SignatureChecker)
    (scriptSig scriptPubKey : Script) (witness : List Bytes) : Captured Bool :=
  if !flags.witness then pure false
  else
    match isWitnessProgram scriptPubKey with
    | none => pure false
    | some (version, program) =>
      if scriptSig ≠ [] then .fail .witnessMalleated
      else do
        verifyWitnessProgram c flags checker witness version program false
        pure true

/-- The witness program of a P2SH redeem script. -/
def verifyP2SHWitness (c : Crypto) (flags : ScriptFlags) (checker : SignatureChecker)
    (scriptSig redeemScript : Script) (witness : List Bytes) : Captured Bool :=
  if !flags.witness then pure false
  else
    match isWitnessProgram redeemScript with
    | none => pure false
    | some (version, program) =>
      if scriptSig ≠ pushBytes redeemScript then .fail .witnessMalleatedP2SH
      else do
        verifyWitnessProgram c flags checker witness version program true
        pure true

/-- The P2SH part of a spend, on the stack that `scriptSig` left: the new stack, and whether
there was a witness program. -/
def verifyP2SH (c : Crypto) (flags : ScriptFlags) (checker : SignatureChecker)
    (scriptSig : Script) (stackCopy : List Bytes) (witness : List Bytes) :
    Captured (List Bytes × Bool) :=
  if !isPushOnly scriptSig then .fail .sigPushOnly
  else
    match stackCopy with
    | [] => .fail .unknownError
    | redeemScript :: stack => do
      let stack ← evalScript ⟨c, flags, checker, .base⟩ stack redeemScript {}
      requireTrue stack
      let hadWitness ← verifyP2SHWitness c flags checker scriptSig redeemScript witness
      pure (if hadWitness then stack.drop (stack.length - 1) else stack, hadWitness)

/-- The tests on the final stack and on a witness that nothing used. -/
def finishSpend (flags : ScriptFlags) (witness stack : List Bytes) (hadWitness : Bool) :
    Captured Unit :=
  if flags.cleanStack ∧ stack.length ≠ 1 then .fail .cleanStack
  else if flags.witness ∧ !hadWitness ∧ witness ≠ [] then .fail .witnessUnexpected
  else pure ()

/-- The P2SH part of a spend, if it applies. -/
def verifyRedeem (c : Crypto) (flags : ScriptFlags) (checker : SignatureChecker)
    (scriptSig scriptPubKey : Script) (witness stackCopy stack : List Bytes)
    (hadWitness : Bool) : Captured (List Bytes × Bool) :=
  if flags.p2sh ∧ isPayToScriptHash scriptPubKey then do
    let (stack, redeemWitness) ← verifyP2SH c flags checker scriptSig stackCopy witness
    pure (stack, hadWitness || redeemWitness)
  else pure (if hadWitness then stack.drop (stack.length - 1) else stack, hadWitness)

/-- `VerifyScriptXMSSCapture`. -/
def verifyScript (c : Crypto) (flags : ScriptFlags) (checker : SignatureChecker)
    (scriptSig scriptPubKey : Script) (witness : List Bytes) : Captured Unit :=
  if flags.sigPushOnly ∧ !isPushOnly scriptSig then .fail .sigPushOnly
  else do
    let stackCopy ← evalScript ⟨c, flags, checker, .base⟩ [] scriptSig {}
    let stack ← evalScript ⟨c, flags, checker, .base⟩ stackCopy scriptPubKey {}
    requireTrue stack
    let hadWitness ← verifyBareWitness c flags checker scriptSig scriptPubKey witness
    let (stack, hadWitness) ←
      verifyRedeem c flags checker scriptSig scriptPubKey witness stackCopy stack hadWitness
    finishSpend flags witness stack hadWitness

/-! ### Signature operations of witnesses -/

/-- `WitnessSigOps`. -/
def witnessSigOps (witversion : Nat) (program : Bytes) (witness : List Bytes) : Nat :=
  if witversion = 0 then
    if program.length = WITNESS_V0_KEYHASH_SIZE then 1
    else if program.length = WITNESS_V0_SCRIPTHASH_SIZE ∧ witness ≠ [] then
      getSigOpCount (witness.getLastD []) true
    else 0
  else 0

/-- `CountWitnessSigOps`. -/
def countWitnessSigOps (scriptSig scriptPubKey : Script) (witness : List Bytes)
    (flags : ScriptFlags) : Nat :=
  if !flags.witness then 0
  else
    match isWitnessProgram scriptPubKey with
    | some (version, program) => witnessSigOps version program witness
    | none =>
      if isPayToScriptHash scriptPubKey && isPushOnly scriptSig then
        match isWitnessProgram (((ops scriptSig).getLast?.map ScriptOp.data).getD []) with
        | some (version, program) => witnessSigOps version program witness
        | none => 0
      else 0

end AssentianPQE
