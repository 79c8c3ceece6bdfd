import AssentianPQE.Script.Verify

/-!
# `AssentianPQE.Script.Capture`: the list that `VerifyScriptXMSSCapture` appends to

`verifyScript` returns the recorded leaves with its result. The source has them written to a
list of the caller, at each of its evaluations, and every early return keeps what was written.
Here the functions of `script/interpreter.cpp` are in that form: `VerifyM` is a run that can
return early, with the caller's list as its state.

The state also logs the calls of `CheckXMSSSignature` (`CaptureState.calls`). The source has no
such log, and nothing reads it; it is what the list is compared with. `opsCalls` finds the
calls of the loop of `EvalScript`, on the stacks that the loop goes through.
-/

set_option autoImplicit false

namespace AssentianPQE

open Lib

/-! ### Calls of `CheckXMSSSignature` -/

/-- A call of `CheckXMSSSignature` and what it returned. -/
structure XmssCall where
  sig : Bytes
  pubkey : Bytes
  scriptCode : Script
  sigversion : SigVersion
  result : Bool
deriving DecidableEq

/-- The key and the index in the first four bytes of the signature, for a call that returned
true with at least four bytes. -/
def XmssCall.use (call : XmssCall) : Option (Bytes × Nat) :=
  if call.result ∧ 4 ≤ call.sig.length then some (call.pubkey, readBE (call.sig.take 4)) else none

/-- The call that an XMSS opcode makes. There is none without a key of 64 bytes or without a
chunk below it. -/
def xmssCall (ctx : EvalContext) (m : Machine) : Option XmssCall :=
  match m.stack with
  | pubkey :: below =>
    let nchunks := countChunks below XMSS_MAX_CHUNKS 0
    if pubkey.length ≠ 64 ∨ nchunks = 0 then none
    else
      let sig := reassemble below nchunks
      some ⟨sig, pubkey, m.codeHash, ctx.sigversion,
        ctx.checker.checkXMSSSignature sig pubkey m.codeHash ctx.sigversion⟩
  | [] => none

/-- The call in one turn of the loop, if it executes an XMSS opcode. -/
def opCall (ctx : EvalContext) (m : Machine) (op : ScriptOp) : Option XmssCall :=
  match checkOp ctx m op with
  | .ok _ => if isXmssOp op ∧ m.vfExec.allTrue then xmssCall ctx m else none
  | .error _ => none

/-- The calls of the loop, in order. -/
def opsCalls (ctx : EvalContext) : List ScriptOp → Machine → List XmssCall
  | [], _ => []
  | op :: ops, m =>
    (opCall ctx m op).toList ++
      match (evalOp ctx m op).result with
      | .ok m' => opsCalls ctx ops m'
      | .error _ => []

/-- The calls of `EvalScript`, in order. -/
def scriptCalls (ctx : EvalContext) (stack : List Bytes) (script : Script) (exec : ExecData) :
    List XmssCall :=
  if ctx.hasOpLimit ∧ MAX_SCRIPT_SIZE < script.length then []
  else opsCalls ctx (ops script)
    { stack := stack, codeHash := script, exec := { exec with codeseparatorPos := 0xffffffff } }

/-! ### Runs with a list of the caller -/

/-- The list of the caller, if it passed one, and the log of the calls. -/
structure CaptureState where
  out : Option XMSSLeafUses
  calls : List XmssCall := []
deriving DecidableEq

/-- A run that may return early with an error. -/
abbrev VerifyM := ExceptT ScriptError (StateM CaptureState)

/-- `EvalScript` on execution data of its own, whose recorded leaves are then appended to the
caller's list, whatever the result. -/
def evalCaptured (ctx : EvalContext) (stack : List Bytes) (script : Script) (exec : ExecData) :
    VerifyM (List Bytes) := do
  let run := evalScript ctx stack script exec
  modify fun s =>
    { out := s.out.map (· ++ run.uses), calls := s.calls ++ scriptCalls ctx stack script exec }
  match run.result with
  | .ok stack => pure stack
  | .error e => throw e

/-- The test on the top of the stack after an evaluation. -/
def checkTop (stack : List Bytes) : VerifyM Unit :=
  match stack with
  | [] => throw .evalFalse
  | top :: _ => if castToBool top then pure () else throw .evalFalse

/-- `ExecuteWitnessScript` after the test for `OP_SUCCESS`. -/
def runWitnessScriptCaptured (ctx : EvalContext) (stack : List Bytes) (execScript : Script)
    (exec : ExecData) : VerifyM Unit :=
  if stack.any fun elem => MAX_SCRIPT_ELEMENT_SIZE < elem.length then throw .pushSize
  else do
    let stack ← evalCaptured ctx stack execScript exec
    match stack with
    | [top] => if castToBool top then pure () else throw .evalFalse
    | _ => throw .cleanStack

/-- `ExecuteWitnessScript`. -/
def executeWitnessScriptCaptured (ctx : EvalContext) (stack : List Bytes) (execScript : Script)
    (exec : ExecData) : VerifyM Unit :=
  if ctx.sigversion ≠ .tapscript then runWitnessScriptCaptured ctx stack execScript exec
  else
    match scanOpSuccess execScript with
    | .badOpcode => throw .badOpcode
    | .found => if ctx.flags.discourageOpSuccess then throw .discourageOpSuccess else pure ()
    | .clean =>
      if MAX_STACK_SIZE < stack.length then throw .stackSize
      else runWitnessScriptCaptured ctx stack execScript exec

/-- The taproot branch of `VerifyWitnessProgram`. The witness has its last item first. -/
def verifyTaprootCaptured (c : Crypto) (flags : ScriptFlags) (checker : SignatureChecker)
    (witness : List Bytes) (program : Bytes) : VerifyM Unit :=
  if !flags.taproot then pure ()
  else
    match witness with
    | [] => throw .witnessProgramWitnessEmpty
    | last :: rest =>
      let hasAnnex : Bool := rest ≠ [] ∧ last.head? = some ANNEX_TAG
      let stack := if hasAnnex then rest else witness
      let exec : ExecData :=
        { annexHash := if hasAnnex then some (c.sha256 (serBytes last)) else none }
      match stack with
      | control :: script :: stack =>
        if control.length < TAPROOT_CONTROL_BASE_SIZE ∨ TAPROOT_CONTROL_MAX_SIZE < control.length ∨
            (control.length - TAPROOT_CONTROL_BASE_SIZE) % TAPROOT_CONTROL_NODE_SIZE ≠ 0 then
          throw .taprootWrongControlSize
        else
          let leafVersion := (control.headD 0).toNat / 2 * 2
          let tapleafHash := computeTapleafHash c leafVersion script
          if !verifyTaprootCommitment c control program tapleafHash then
            throw .witnessProgramMismatch
          else if leafVersion = TAPROOT_LEAF_TAPSCRIPT then
            executeWitnessScriptCaptured ⟨c, flags, checker, .tapscript⟩ stack script
              { exec with
                tapleafHash := tapleafHash
                validationWeightLeft :=
                  (serVector serBytes witness.reverse).length + VALIDATION_WEIGHT_OFFSET }
          else if flags.discourageUpgradableTaprootVersion then
            throw .discourageUpgradableTaprootVersion
          else pure ()
      | sig =>
        match checker.checkSchnorrSignature sig.flatten program .taproot exec with
        | some e => throw e
        | none => pure ()

/-- `VerifyWitnessProgram`. Its destructor appends what the one evaluation has recorded, on
every exit; before the evaluation that is nothing. -/
def verifyWitnessProgramCaptured (c : Crypto) (flags : ScriptFlags) (checker : SignatureChecker)
    (witness : List Bytes) (witversion : Nat) (program : Bytes) (isP2SH : Bool) : VerifyM Unit :=
  let ctx : EvalContext := ⟨c, flags, checker, .witnessV0⟩
  if witversion = 0 then
    if program.length = WITNESS_V0_SCRIPTHASH_SIZE then
      match witness.reverse with
      | [] => throw .witnessProgramWitnessEmpty
      | execScript :: stack =>
        if (c.sha256 execScript).data ≠ program then throw .witnessProgramMismatch
        else executeWitnessScriptCaptured ctx stack execScript {}
    else if program.length = WITNESS_V0_KEYHASH_SIZE then
      if witness.length ≠ 2 then throw .witnessProgramMismatch
      else executeWitnessScriptCaptured ctx witness.reverse (witnessKeyHashScript program) {}
    else throw .witnessProgramWrongLength
  else if witversion = 1 ∧ program.length = WITNESS_V1_TAPROOT_SIZE ∧ !isP2SH then
    verifyTaprootCaptured c flags checker witness.reverse program
  else if flags.discourageUpgradableWitnessProgram then throw .discourageUpgradableWitnessProgram
  else pure ()

/-! ### Spends -/

/-- A witness program of a spend: `script` is the output script or the redeem script, and
`malleated` the error for a `scriptSig` that is not what such a program requires. The flag
says whether there was a program. -/
def verifyWitnessCaptured (c : Crypto) (flags : ScriptFlags) (checker : SignatureChecker)
    (script : Script) (malleated : Option ScriptError) (witness : List Bytes) (isP2SH : Bool) :
    VerifyM Bool :=
  if !flags.witness then pure false
  else
    match isWitnessProgram script with
    | none => pure false
    | some (version, program) =>
      match malleated with
      | some e => throw e
      | none => do
        verifyWitnessProgramCaptured c flags checker witness version program isP2SH
        pure true

/-- The P2SH part of a spend, on the stack that `scriptSig` left. -/
def verifyP2SHCaptured (c : Crypto) (flags : ScriptFlags) (checker : SignatureChecker)
    (scriptSig : Script) (stackCopy witness : List Bytes) : VerifyM (List Bytes × Bool) :=
  if !isPushOnly scriptSig then throw .sigPushOnly
  else
    match stackCopy with
    | [] => throw .unknownError
    | redeemScript :: stack => do
      let stack ← evalCaptured ⟨c, flags, checker, .base⟩ stack redeemScript {}
      checkTop stack
      let hadWitness ← verifyWitnessCaptured c flags checker redeemScript
        (if scriptSig ≠ pushBytes redeemScript then some .witnessMalleatedP2SH else none) witness true
      pure (if hadWitness then stack.drop (stack.length - 1) else stack, hadWitness)

/-- The P2SH part of a spend, if it applies: the stack, and whether there was a witness program
in the output or in the redeem script. -/
def verifyRedeemCaptured (c : Crypto) (flags : ScriptFlags) (checker : SignatureChecker)
    (scriptSig scriptPubKey : Script) (witness stackCopy stack : List Bytes)
    (hadWitness : Bool) : VerifyM (List Bytes × Bool) :=
  if flags.p2sh ∧ isPayToScriptHash scriptPubKey then do
    let (stack, redeemWitness) ← verifyP2SHCaptured c flags checker scriptSig stackCopy witness
    pure (stack, hadWitness || redeemWitness)
  else pure (if hadWitness then stack.drop (stack.length - 1) else stack, hadWitness)

/-- `VerifyScriptXMSSCapture`. -/
def verifyScriptXMSSCapture (c : Crypto) (flags : ScriptFlags) (checker : SignatureChecker)
    (scriptSig scriptPubKey : Script) (witness : List Bytes) : VerifyM Unit :=
  if flags.sigPushOnly ∧ !isPushOnly scriptSig then throw .sigPushOnly
  else do
    let stackCopy ← evalCaptured ⟨c, flags, checker, .base⟩ [] scriptSig {}
    let stack ← evalCaptured ⟨c, flags, checker, .base⟩ stackCopy scriptPubKey {}
    checkTop stack
    let hadWitness ← verifyWitnessCaptured c flags checker scriptPubKey
      (if scriptSig ≠ [] then some .witnessMalleated else none) witness false
    let (stack, hadWitness) ←
      verifyRedeemCaptured c flags checker scriptSig scriptPubKey witness stackCopy stack hadWitness
    if flags.cleanStack ∧ stack.length ≠ 1 then throw .cleanStack
    else if flags.witness ∧ !hadWitness ∧ witness ≠ [] then throw .witnessUnexpected
    else pure ()

/-- The result and the state after a call with the caller's list. -/
def captureRun (c : Crypto) (flags : ScriptFlags) (checker : SignatureChecker)
    (scriptSig scriptPubKey : Script) (witness : List Bytes) (out : Option XMSSLeafUses) :
    Except ScriptError Unit × CaptureState :=
  (verifyScriptXMSSCapture c flags checker scriptSig scriptPubKey witness).run ⟨out, []⟩

/-- `VerifyScript`: the same without a list. -/
def verifyScriptPlain (c : Crypto) (flags : ScriptFlags) (checker : SignatureChecker)
    (scriptSig scriptPubKey : Script) (witness : List Bytes) : Except ScriptError Unit :=
  (captureRun c flags checker scriptSig scriptPubKey witness none).1

end AssentianPQE
