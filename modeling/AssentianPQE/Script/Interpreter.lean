import AssentianPQE.Xmss
import AssentianPQE.Script.Num

/-!
# `AssentianPQE.Script.Interpreter`: `EvalScript`

The script machine of `script/interpreter.cpp`: every opcode of the switch, the limits
around it and the XMSS opcodes, which record the leaf of each signature they verify.

The stack is a list with its top first. `scriptnum_error` and every other exception end in
`SCRIPT_ERR_UNKNOWN_ERROR`, as the `catch` of the source has it. The recorded leaves
(`m_xmss_leaf_uses`) are kept when the script fails later, so a run returns them besides its
result (`Captured`). They are no part of the machine: only the XMSS opcodes can add to them.

* `evalOps_uses_nil`: a script without XMSS opcodes records nothing.
-/

set_option autoImplicit false

namespace AssentianPQE

open Lib List

/-! ### Runs that record leaves -/

/-- `XMSSLeafUses`: the key and the leaf index of every signature verified. -/
abbrev XMSSLeafUses := List (Bytes × Nat)

/-- The outcome of a run, and the leaves it recorded on the way. -/
structure Captured (α : Type) where
  result : Except ScriptError α
  uses : XMSSLeafUses := []

namespace Captured

variable {α β : Type}

/-- A run that records nothing. -/
def lift (r : Except ScriptError α) : Captured α :=
  ⟨r, []⟩

/-- A run that fails and records nothing. -/
def fail (e : ScriptError) : Captured α :=
  ⟨.error e, []⟩

/-- Whether a run succeeds. -/
def isOk (x : Captured α) : Bool :=
  match x.result with
  | .ok _ => true
  | .error _ => false

/-- Two runs in sequence. A failure keeps what was recorded before it. -/
def bind (x : Captured α) (f : α → Captured β) : Captured β :=
  match x.result with
  | .error e => ⟨.error e, x.uses⟩
  | .ok a => ⟨(f a).result, x.uses ++ (f a).uses⟩

instance : Monad Captured where
  pure a := ⟨.ok a, []⟩
  bind := bind

@[simp] theorem lift_uses (r : Except ScriptError α) : (lift r).uses = [] := rfl

@[simp] theorem lift_result (r : Except ScriptError α) : (lift r).result = r := rfl

@[simp] theorem fail_uses (e : ScriptError) : (fail e : Captured α).uses = [] := rfl

@[simp] theorem fail_result (e : ScriptError) : (fail e : Captured α).result = .error e := rfl

@[simp] theorem pure_uses (a : α) : (pure a : Captured α).uses = [] := rfl

@[simp] theorem pure_result (a : α) : (pure a : Captured α).result = .ok a := rfl

theorem bind_ok {x : Captured α} {a : α} (h : x.result = .ok a) (f : α → Captured β) :
    x >>= f = ⟨(f a).result, x.uses ++ (f a).uses⟩ := by
  show bind x f = _
  rw [bind, h]

theorem bind_error {x : Captured α} {e : ScriptError} (h : x.result = .error e)
    (f : α → Captured β) : x >>= f = ⟨.error e, x.uses⟩ := by
  show bind x f = _
  rw [bind, h]

/-- A sequence succeeds when both parts do. -/
theorem bind_result_ok {x : Captured α} {f : α → Captured β} {b : β}
    (h : (x >>= f).result = .ok b) : ∃ a, x.result = .ok a ∧ (f a).result = .ok b := by
  cases hx : x.result with
  | error e =>
    rw [bind_error hx] at h
    cases h
  | ok a =>
    rw [bind_ok hx] at h
    exact ⟨a, rfl, h⟩

/-- A sequence of runs that record nothing records nothing. -/
theorem bind_uses_nil {x : Captured α} {f : α → Captured β} (hx : x.uses = [])
    (hf : ∀ a, x.result = .ok a → (f a).uses = []) : (x >>= f).uses = [] := by
  cases hr : x.result with
  | error e => rw [bind_error hr, hx]
  | ok a => rw [bind_ok hr, hx, hf a hr, nil_append]

/-- What follows a run and records nothing adds nothing to it. -/
theorem bind_uses_of_nil {x : Captured α} {f : α → Captured β} (hf : ∀ a, (f a).uses = []) :
    (x >>= f).uses = x.uses := by
  cases hr : x.result with
  | error e => rw [bind_error hr]
  | ok a => rw [bind_ok hr, hf a, append_nil]

end Captured

/-! ### The machine -/

/-- `ScriptExecutionData` without the recorded leaves. `m_annex_present` is whether
`annexHash` is there. -/
structure ExecData where
  tapleafHash : Uint256 := nullHash
  codeseparatorPos : UInt32 := 0xffffffff
  annexHash : Option Uint256 := none
  validationWeightLeft : Int := 0
deriving DecidableEq

/-- `BaseSignatureChecker`. `checkSchnorrSignature` returns the error it sets, if any. -/
structure SignatureChecker where
  checkECDSASignature : Bytes → Bytes → Script → SigVersion → Bool
  checkSchnorrSignature : Bytes → Bytes → SigVersion → ExecData → Option ScriptError
  checkXMSSSignature : Bytes → Bytes → Script → SigVersion → Bool
  checkLockTime : Int → Bool
  checkSequence : Int → Bool

/-- What a run does not change. -/
structure EvalContext where
  crypto : Crypto
  flags : ScriptFlags
  checker : SignatureChecker
  sigversion : SigVersion

/-- `ConditionStack`: its size and the position of the first false value. -/
structure ConditionStack where
  size : Nat := 0
  firstFalse : Option Nat := none
deriving DecidableEq

namespace ConditionStack

def allTrue (s : ConditionStack) : Bool :=
  s.firstFalse.isNone

def pushBack (s : ConditionStack) (f : Bool) : ConditionStack :=
  { size := s.size + 1
    firstFalse := if s.firstFalse = none ∧ f = false then some s.size else s.firstFalse }

def popBack (s : ConditionStack) : ConditionStack :=
  { size := s.size - 1
    firstFalse := if s.firstFalse = some (s.size - 1) then none else s.firstFalse }

def toggleTop (s : ConditionStack) : ConditionStack :=
  match s.firstFalse with
  | none => { s with firstFalse := some (s.size - 1) }
  | some p => if p = s.size - 1 then { s with firstFalse := none } else s

end ConditionStack

/-- The local variables of `EvalScript`. `codeHash` is the script from `pbegincodehash`. -/
structure Machine where
  stack : List Bytes
  altstack : List Bytes := []
  vfExec : ConditionStack := {}
  nOpCount : Nat := 0
  opcodePos : Nat := 0
  codeHash : Script
  exec : ExecData
deriving DecidableEq

/-- The result of an opcode. -/
abbrev Exec := Except ScriptError Machine

/-! ### Opcodes -/

/-- The opcodes with one numeric argument. -/
inductive UnaryOp where
  | add1 | sub1 | negate | abs | not | notEqual0

/-- The opcodes with two numeric arguments. -/
inductive BinaryOp where
  | add | sub | boolAnd | boolOr | numEqual | numEqualVerify | numNotEqual | lessThan
  | greaterThan | lessThanOrEqual | greaterThanOrEqual | min | max

/-- The hash opcodes. -/
inductive HashOp where
  | ripemd160 | sha1 | sha256 | hash160 | hash256

/-- The cases of the switch. -/
inductive Opcode where
  | pushNum | nop | checkLockTimeVerify | checkSequenceVerify | upgradableNop
  | opIf (negated : Bool) | opElse | opEndIf | verify | opReturn
  | toAltStack | fromAltStack | drop2 | dup2 | dup3 | over2 | rot2 | swap2 | ifDup | depth
  | drop | dup | nip | over | pick | roll | rot | swap | tuck | size
  | equal (verify : Bool) | unary (op : UnaryOp) | binary (op : BinaryOp) | within
  | hash (op : HashOp) | codeSeparator | checkSig (verify : Bool)
  | xmssCheckSig (verify : Bool) | checkSigAdd | checkMultiSig (verify : Bool) | invalid

/-- The case of an opcode byte. -/
def Opcode.ofByte (opcode : UInt8) : Opcode :=
  match opcode.toNat with
  | 0x4f => .pushNum
  | 0x61 => .nop
  | 0x63 => .opIf false
  | 0x64 => .opIf true
  | 0x67 => .opElse
  | 0x68 => .opEndIf
  | 0x69 => .verify
  | 0x6a => .opReturn
  | 0x6b => .toAltStack
  | 0x6c => .fromAltStack
  | 0x6d => .drop2
  | 0x6e => .dup2
  | 0x6f => .dup3
  | 0x70 => .over2
  | 0x71 => .rot2
  | 0x72 => .swap2
  | 0x73 => .ifDup
  | 0x74 => .depth
  | 0x75 => .drop
  | 0x76 => .dup
  | 0x77 => .nip
  | 0x78 => .over
  | 0x79 => .pick
  | 0x7a => .roll
  | 0x7b => .rot
  | 0x7c => .swap
  | 0x7d => .tuck
  | 0x82 => .size
  | 0x87 => .equal false
  | 0x88 => .equal true
  | 0x8b => .unary .add1
  | 0x8c => .unary .sub1
  | 0x8f => .unary .negate
  | 0x90 => .unary .abs
  | 0x91 => .unary .not
  | 0x92 => .unary .notEqual0
  | 0x93 => .binary .add
  | 0x94 => .binary .sub
  | 0x9a => .binary .boolAnd
  | 0x9b => .binary .boolOr
  | 0x9c => .binary .numEqual
  | 0x9d => .binary .numEqualVerify
  | 0x9e => .binary .numNotEqual
  | 0x9f => .binary .lessThan
  | 0xa0 => .binary .greaterThan
  | 0xa1 => .binary .lessThanOrEqual
  | 0xa2 => .binary .greaterThanOrEqual
  | 0xa3 => .binary .min
  | 0xa4 => .binary .max
  | 0xa5 => .within
  | 0xa6 => .hash .ripemd160
  | 0xa7 => .hash .sha1
  | 0xa8 => .hash .sha256
  | 0xa9 => .hash .hash160
  | 0xaa => .hash .hash256
  | 0xab => .codeSeparator
  | 0xac => .checkSig false
  | 0xad => .checkSig true
  | 0xae => .checkMultiSig false
  | 0xaf => .checkMultiSig true
  | 0xb0 => .upgradableNop
  | 0xb1 => .checkLockTimeVerify
  | 0xb2 => .checkSequenceVerify
  | 0xba => .checkSigAdd
  | 0xbb => .xmssCheckSig false
  | 0xbc => .xmssCheckSig true
  | n =>
    -- OP_1 to OP_16 and OP_NOP4 to OP_NOP10.
    if 0x51 ≤ n ∧ n ≤ 0x60 then .pushNum
    else if 0xb3 ≤ n ∧ n ≤ 0xb9 then .upgradableNop
    else .invalid

/-- The opcodes that fail even when they are not executed. -/
def isDisabledOpcode (opcode : UInt8) : Bool :=
  let n := opcode.toNat
  (0x7e ≤ n ∧ n ≤ 0x81) ∨ (0x83 ≤ n ∧ n ≤ 0x86) ∨ n = 0x8d ∨ n = 0x8e ∨ (0x95 ≤ n ∧ n ≤ 0x99)

/-- `CScriptNum(vch, fRequireMinimal)` inside the `try` block. -/
def readNum (ctx : EvalContext) (vch : Bytes) : Except ScriptError Int :=
  match scriptNum vch ctx.flags.minimalData 4 with
  | none => .error .unknownError
  | some n => .ok n

/-- Replace the stack. -/
def Machine.withStack (m : Machine) (stack : List Bytes) : Machine :=
  { m with stack := stack }

/-- The opcodes that only move stack items. -/
def execStackOp (m : Machine) (op : Opcode) : Exec :=
  match op, m.stack with
  | .drop2, _ :: _ :: s => .ok (m.withStack s)
  | .dup2, x :: y :: s => .ok (m.withStack (x :: y :: x :: y :: s))
  | .dup3, x :: y :: z :: s => .ok (m.withStack (x :: y :: z :: x :: y :: z :: s))
  | .over2, x :: y :: z :: w :: s => .ok (m.withStack (z :: w :: x :: y :: z :: w :: s))
  | .rot2, a :: b :: x :: y :: z :: w :: s =>
    .ok (m.withStack (z :: w :: a :: b :: x :: y :: s))
  | .swap2, x :: y :: z :: w :: s => .ok (m.withStack (z :: w :: x :: y :: s))
  | .ifDup, x :: s => .ok (m.withStack (if castToBool x then x :: x :: s else x :: s))
  | .depth, s => .ok (m.withStack (serializeNum s.length :: s))
  | .drop, _ :: s => .ok (m.withStack s)
  | .dup, x :: s => .ok (m.withStack (x :: x :: s))
  | .nip, x :: _ :: s => .ok (m.withStack (x :: s))
  | .over, x :: y :: s => .ok (m.withStack (y :: x :: y :: s))
  | .rot, x :: y :: z :: s => .ok (m.withStack (z :: x :: y :: s))
  | .swap, x :: y :: s => .ok (m.withStack (y :: x :: s))
  | .tuck, x :: y :: s => .ok (m.withStack (x :: y :: x :: s))
  | .size, x :: s => .ok (m.withStack (serializeNum x.length :: x :: s))
  | .toAltStack, x :: s => .ok { m with stack := s, altstack := x :: m.altstack }
  | .fromAltStack, s =>
    match m.altstack with
    | [] => .error .invalidAltStackOperation
    | x :: alt => .ok { m with stack := x :: s, altstack := alt }
  | _, _ => .error .invalidStackOperation

/-- `OP_PICK` and `OP_ROLL`. -/
def execPick (ctx : EvalContext) (m : Machine) (roll : Bool) : Exec :=
  match m.stack with
  | x :: y :: s => do
    let n := getInt (← readNum ctx x)
    let s := y :: s
    if n < 0 ∨ (s.length : Int) ≤ n then .error .invalidStackOperation
    else
      let vch := s.getD n.toNat []
      .ok (m.withStack (vch :: if roll then s.eraseIdx n.toNat else s))
  | _ => .error .invalidStackOperation

/-- The value of a numeric opcode with one argument. -/
def UnaryOp.eval : UnaryOp → Int → Int
  | .add1, a => a + 1
  | .sub1, a => a - 1
  | .negate, a => -a
  | .abs, a => if a < 0 then -a else a
  | .not, a => if a = 0 then 1 else 0
  | .notEqual0, a => if a ≠ 0 then 1 else 0

/-- The value of a numeric opcode with two arguments. -/
def BinaryOp.eval : BinaryOp → Int → Int → Int
  | .add, a, b => a + b
  | .sub, a, b => a - b
  | .boolAnd, a, b => if a ≠ 0 ∧ b ≠ 0 then 1 else 0
  | .boolOr, a, b => if a ≠ 0 ∨ b ≠ 0 then 1 else 0
  | .numEqual, a, b => if a = b then 1 else 0
  | .numEqualVerify, a, b => if a = b then 1 else 0
  | .numNotEqual, a, b => if a ≠ b then 1 else 0
  | .lessThan, a, b => if a < b then 1 else 0
  | .greaterThan, a, b => if b < a then 1 else 0
  | .lessThanOrEqual, a, b => if a ≤ b then 1 else 0
  | .greaterThanOrEqual, a, b => if b ≤ a then 1 else 0
  | .min, a, b => if a < b then a else b
  | .max, a, b => if b < a then a else b

/-- The digest that a hash opcode pushes. -/
def HashOp.eval (c : Crypto) : HashOp → Bytes → Bytes
  | .ripemd160, x => (c.ripemd160 x).data
  | .sha1, x => (c.sha1 x).data
  | .sha256, x => (c.sha256 x).data
  | .hash160, x => (c.hash160 x).data
  | .hash256, x => (c.hash256 x).data

/-- Push a truth value, or consume it at once in the `VERIFY` form of an opcode. -/
def pushResult (m : Machine) (s : List Bytes) (verify fSuccess : Bool) (e : ScriptError) : Exec :=
  if !verify then .ok (m.withStack (boolBytes fSuccess :: s))
  else if fSuccess then .ok (m.withStack s)
  else .error e

/-- The numeric opcodes. -/
def execNumeric (ctx : EvalContext) (m : Machine) (op : Opcode) : Exec :=
  match op, m.stack with
  | .unary op, x :: s => do
    let a ← readNum ctx x
    .ok (m.withStack (serializeNum (op.eval a) :: s))
  | .binary op, y :: x :: s => do
    let a ← readNum ctx x
    let b ← readNum ctx y
    let r := op.eval a b
    match op with
    | .numEqualVerify =>
      if castToBool (serializeNum r) then .ok (m.withStack s) else .error .numEqualVerify
    | _ => .ok (m.withStack (serializeNum r :: s))
  | .within, z :: y :: x :: s => do
    let a ← readNum ctx x
    let lo ← readNum ctx y
    let hi ← readNum ctx z
    .ok (m.withStack (boolBytes (lo ≤ a ∧ a < hi) :: s))
  | _, _ => .error .invalidStackOperation

/-- `OP_IF` and `OP_NOTIF`. They are entered even in a branch that is not executed. -/
def execIf (ctx : EvalContext) (m : Machine) (fExec negated : Bool) : Exec :=
  if !fExec then .ok { m with vfExec := m.vfExec.pushBack false }
  else
    match m.stack with
    | [] => .error .unbalancedConditional
    | vch :: s =>
      let isMinimal : Bool := vch = [] ∨ vch = [1]
      if ctx.sigversion = .tapscript ∧ !isMinimal then .error .tapscriptMinimalIf
      else if ctx.sigversion = .witnessV0 ∧ ctx.flags.minimalIf ∧ !isMinimal then
        .error .minimalIf
      else
        .ok { m with stack := s, vfExec := m.vfExec.pushBack (castToBool vch != negated) }

/-- `OP_CHECKLOCKTIMEVERIFY` and `OP_CHECKSEQUENCEVERIFY`: the argument, which may have five
bytes and must not be negative. -/
def readLockTime (ctx : EvalContext) (m : Machine) : Except ScriptError Int :=
  match m.stack with
  | [] => .error .invalidStackOperation
  | x :: _ =>
    match scriptNum x ctx.flags.minimalData 5 with
    | none => .error .unknownError
    | some n => if n < 0 then .error .negativeLockTime else .ok n

/-- `OP_CHECKLOCKTIMEVERIFY`. -/
def execCheckLockTimeVerify (ctx : EvalContext) (m : Machine) : Exec :=
  if !ctx.flags.checkLockTimeVerify then .ok m
  else do
    let n ← readLockTime ctx m
    if ctx.checker.checkLockTime n then .ok m else .error .unsatisfiedLockTime

/-- `OP_CHECKSEQUENCEVERIFY`. Bit 31 of the argument turns it off. -/
def execCheckSequenceVerify (ctx : EvalContext) (m : Machine) : Exec :=
  if !ctx.flags.checkSequenceVerify then .ok m
  else do
    let n ← readLockTime ctx m
    if n.toNat / 2 ^ 31 % 2 = 1 then .ok m
    else if ctx.checker.checkSequence n then .ok m
    else .error .unsatisfiedLockTime

/-! ### Signatures -/

/-- The script code without a signature that is checked against it, for scripts before
segregated witness. -/
def dropSignature (ctx : EvalContext) (scriptCode : Script) (sig : Bytes) :
    Except ScriptError Script :=
  if ctx.sigversion = .base then
    let r := findAndDelete scriptCode (pushBytes sig)
    if 0 < r.2 ∧ ctx.flags.constScriptCode then .error .sigFindAndDelete else .ok r.1
  else .ok scriptCode

/-- `CheckSignatureEncoding` and then `CheckPubKeyEncoding`. -/
def checkEncodings (ctx : EvalContext) (sig pubkey : Bytes) : Except ScriptError Unit :=
  match checkSignatureEncoding ctx.crypto ctx.flags sig with
  | some e => .error e
  | none =>
    match checkPubKeyEncoding ctx.flags ctx.sigversion pubkey with
    | some e => .error e
    | none => .ok ()

/-- `EvalChecksigPreTapscript`. -/
def evalChecksigPreTapscript (ctx : EvalContext) (m : Machine) (sig pubkey : Bytes) :
    Except ScriptError Bool := do
  let scriptCode ← dropSignature ctx m.codeHash sig
  checkEncodings ctx sig pubkey
  let fSuccess := ctx.checker.checkECDSASignature sig pubkey scriptCode ctx.sigversion
  if !fSuccess ∧ ctx.flags.nullFail ∧ sig ≠ [] then .error .sigNullFail else .ok fSuccess

/-- `EvalChecksigTapscript`: the success flag and the execution data with the weight spent. -/
def evalChecksigTapscript (ctx : EvalContext) (m : Machine) (sig pubkey : Bytes) :
    Except ScriptError (Bool × ExecData) :=
  let success := !sig.isEmpty
  let exec := if success then
    { m.exec with validationWeightLeft :=
        m.exec.validationWeightLeft - VALIDATION_WEIGHT_PER_SIGOP_PASSED }
    else m.exec
  if success ∧ exec.validationWeightLeft < 0 then .error .tapscriptValidationWeight
  else if pubkey.length = 0 then .error .pubkeyType
  else if pubkey.length = 32 then
    if success then
      match ctx.checker.checkSchnorrSignature sig pubkey ctx.sigversion exec with
      | some e => .error e
      | none => .ok (success, exec)
    else .ok (success, exec)
  else if ctx.flags.discourageUpgradablePubkeyType then .error .discourageUpgradablePubkeyType
  else .ok (success, exec)

/-- `EvalChecksig`. -/
def evalChecksig (ctx : EvalContext) (m : Machine) (sig pubkey : Bytes) :
    Except ScriptError (Bool × ExecData) :=
  match ctx.sigversion with
  | .tapscript => evalChecksigTapscript ctx m sig pubkey
  | _ => (evalChecksigPreTapscript ctx m sig pubkey).map fun b => (b, m.exec)

/-- `OP_CHECKSIG` and `OP_CHECKSIGVERIFY`. -/
def execCheckSig (ctx : EvalContext) (m : Machine) (verify : Bool) : Exec :=
  match m.stack with
  | pubkey :: sig :: s => do
    let (fSuccess, exec) ← evalChecksig ctx m sig pubkey
    pushResult { m with exec := exec } s verify fSuccess .checkSigVerify
  | _ => .error .invalidStackOperation

/-- `OP_CHECKSIGADD`. -/
def execCheckSigAdd (ctx : EvalContext) (m : Machine) : Exec :=
  if ctx.sigversion = .base ∨ ctx.sigversion = .witnessV0 then .error .badOpcode
  else
    match m.stack with
    | pubkey :: num :: sig :: s => do
      let n ← readNum ctx num
      let (success, exec) ← evalChecksig ctx m sig pubkey
      .ok { m with stack := serializeNum (n + if success then 1 else 0) :: s, exec := exec }
    | _ => .error .invalidStackOperation

/-- The loop of `OP_CHECKMULTISIG`: the keys and the signatures in the order they are tried. -/
def multisigLoop (ctx : EvalContext) (scriptCode : Script) :
    List Bytes → List Bytes → Except ScriptError Bool
  | _, [] => .ok true
  | [], _ :: _ => .ok false
  | key :: keys, sig :: sigs => do
    checkEncodings ctx sig key
    let sigs' := if ctx.checker.checkECDSASignature sig key scriptCode ctx.sigversion then sigs
      else sig :: sigs
    if keys.length < sigs'.length then .ok false else multisigLoop ctx scriptCode keys sigs'

/-- `OP_CHECKMULTISIG` and `OP_CHECKMULTISIGVERIFY`. From the top the stack holds the number
of keys, the keys, the number of signatures, the signatures and one item that is consumed
without use. -/
def execCheckMultiSig (ctx : EvalContext) (m : Machine) (verify : Bool) : Exec :=
  if ctx.sigversion = .tapscript then .error .tapscriptCheckMultiSig
  else
    match m.stack with
    | [] => .error .invalidStackOperation
    | top :: rest => do
      let nKeys := getInt (← readNum ctx top)
      if nKeys < 0 ∨ (MAX_PUBKEYS_PER_MULTISIG : Int) < nKeys then .error .pubkeyCount
      else
        let nKeysCount := nKeys.toNat
        let m := { m with nOpCount := m.nOpCount + nKeysCount }
        if MAX_OPS_PER_SCRIPT < m.nOpCount then .error .opCount
        else if rest.length < nKeysCount + 1 then .error .invalidStackOperation
        else
          let keys := rest.take nKeysCount
          let nSigs := getInt (← readNum ctx (rest.getD nKeysCount []))
          if nSigs < 0 ∨ nKeys < nSigs then .error .sigCount
          else
            let nSigsCount := nSigs.toNat
            let rest := rest.drop (nKeysCount + 1)
            if rest.length < nSigsCount + 1 then .error .invalidStackOperation
            else
              let sigs := rest.take nSigsCount
              let scriptCode ← sigs.foldlM (dropSignature ctx) m.codeHash
              let fSuccess ← multisigLoop ctx scriptCode keys sigs
              if !fSuccess ∧ ctx.flags.nullFail ∧ sigs.any (fun sig => !sig.isEmpty) then
                .error .sigNullFail
              else if ctx.flags.nullDummy ∧ (rest.getD nSigsCount []) ≠ [] then
                .error .sigNullDummy
              else pushResult m (rest.drop (nSigsCount + 1)) verify fSuccess .checkMultiSigVerify

/-! ### XMSS signatures -/

def XMSS_SIG_CHUNK_SIZE : Nat := 500
def XMSS_MAX_SIG_BYTES : Nat := 4096
def XMSS_MAX_CHUNKS : Nat :=
  (XMSS_MAX_SIG_BYTES + XMSS_SIG_CHUNK_SIZE - 1) / XMSS_SIG_CHUNK_SIZE

/-- Whether a stack item can be a chunk of a signature. -/
def isChunk (item : Bytes) : Bool :=
  1 ≤ item.length ∧ item.length ≤ 520

/-- The number of items that the opcode takes as chunks, from the top: it stops at an item
that is no chunk, and after the chunk that reaches the byte cap. -/
def countChunks : List Bytes → Nat → Nat → Nat
  | _, 0, _ => 0
  | [], _ + 1, _ => 0
  | item :: rest, n + 1, total =>
    if !isChunk item then 0
    else if XMSS_MAX_SIG_BYTES ≤ total + item.length then 1
    else countChunks rest n (total + item.length) + 1

/-- The signature that the chunks of a stack, below its key, add up to. The chunk pushed
first comes first. -/
def reassemble (below : List Bytes) (nchunks : Nat) : Bytes :=
  (below.take nchunks).reverse.flatten

/-- `OP_XMSS_CHECKSIG` and `OP_XMSS_CHECKSIGVERIFY`. -/
def execXmssCheckSig (ctx : EvalContext) (m : Machine) (verify : Bool) : Captured Machine :=
  match m.stack with
  | pubkey :: item :: rest =>
    let below := item :: rest
    if pubkey.length ≠ 64 then
      -- The key has the wrong size: drop it with the chunks below it, here without a byte cap.
      let nchunks := ((below.take XMSS_MAX_CHUNKS).takeWhile isChunk).length
      .lift (pushResult m (below.drop nchunks) verify false .xmssCheckSigVerify)
    else
      let nchunks := countChunks below XMSS_MAX_CHUNKS 0
      if nchunks = 0 then .lift (pushResult m below verify false .xmssCheckSigVerify)
      else
        let sig := reassemble below nchunks
        let fSuccess := ctx.checker.checkXMSSSignature sig pubkey m.codeHash ctx.sigversion
        { result := pushResult m (below.drop nchunks) verify fSuccess .xmssCheckSigVerify
          uses := if fSuccess ∧ 4 ≤ sig.length then [(pubkey, leafIndexOf sig)] else [] }
  | _ => .fail .invalidStackOperation

/-! ### The loop -/

/-- The cases of the switch that record nothing. -/
def execPlain (ctx : EvalContext) (m : Machine) (fExec : Bool) (op : ScriptOp)
    (opcode : Opcode) : Exec :=
  match opcode with
  | .pushNum => .ok (m.withStack (serializeNum (op.opcode.toNat - 0x50 : Int) :: m.stack))
  | .nop => .ok m
  | .checkLockTimeVerify => execCheckLockTimeVerify ctx m
  | .checkSequenceVerify => execCheckSequenceVerify ctx m
  | .upgradableNop =>
    if ctx.flags.discourageUpgradableNops then .error .discourageUpgradableNops else .ok m
  | .opIf negated => execIf ctx m fExec negated
  | .opElse =>
    if m.vfExec.size = 0 then .error .unbalancedConditional
    else .ok { m with vfExec := m.vfExec.toggleTop }
  | .opEndIf =>
    if m.vfExec.size = 0 then .error .unbalancedConditional
    else .ok { m with vfExec := m.vfExec.popBack }
  | .verify =>
    match m.stack with
    | [] => .error .invalidStackOperation
    | x :: s => if castToBool x then .ok (m.withStack s) else .error .verify
  | .opReturn => .error .opReturn
  | .pick => execPick ctx m false
  | .roll => execPick ctx m true
  | .equal verify =>
    match m.stack with
    | y :: x :: s => pushResult m s verify (x = y) .equalVerify
    | _ => .error .invalidStackOperation
  | .unary _ | .binary _ | .within => execNumeric ctx m opcode
  | .hash h =>
    match m.stack with
    | [] => .error .invalidStackOperation
    | x :: s => .ok (m.withStack (h.eval ctx.crypto x :: s))
  | .codeSeparator =>
    .ok { m with
      codeHash := op.rest
      exec := { m.exec with codeseparatorPos := UInt32.ofNat m.opcodePos } }
  | .checkSig verify => execCheckSig ctx m verify
  | .checkSigAdd => execCheckSigAdd ctx m
  | .checkMultiSig verify => execCheckMultiSig ctx m verify
  | .xmssCheckSig _ | .invalid => .error .badOpcode
  | _ => execStackOp m opcode

/-- The switch. -/
def execOpcode (ctx : EvalContext) (m : Machine) (fExec : Bool) (op : ScriptOp) :
    Captured Machine :=
  match Opcode.ofByte op.opcode with
  | .xmssCheckSig verify => execXmssCheckSig ctx m verify
  | opcode => .lift (execPlain ctx m fExec op opcode)

/-- Whether the limits on script size and on operations apply. -/
def EvalContext.hasOpLimit (ctx : EvalContext) : Bool :=
  ctx.sigversion = .base ∨ ctx.sigversion = .witnessV0

/-- The tests before an operation is executed: the error, or the new operation count. -/
def checkOp (ctx : EvalContext) (m : Machine) (op : ScriptOp) : Except ScriptError Nat :=
  let nOpCount := if ctx.hasOpLimit ∧ OP_16 < op.opcode then m.nOpCount + 1 else m.nOpCount
  if MAX_SCRIPT_ELEMENT_SIZE < op.data.length then .error .pushSize
  else if ctx.hasOpLimit ∧ OP_16 < op.opcode ∧ MAX_OPS_PER_SCRIPT < nOpCount then .error .opCount
  else if isDisabledOpcode op.opcode then .error .disabledOpcode
  else if op.opcode = OP_CODESEPARATOR ∧ ctx.sigversion = .base ∧ ctx.flags.constScriptCode then
    .error .opCodeSeparator
  else .ok nOpCount

/-- Push immediate data. -/
def execPush (ctx : EvalContext) (m : Machine) (op : ScriptOp) : Exec :=
  if ctx.flags.minimalData ∧ !checkMinimalPush op.data op.opcode then .error .minimalData
  else .ok (m.withStack (op.data :: m.stack))

/-- The limit on stack items, and the position of the next operation. -/
def finishOp (m : Machine) : Exec :=
  if MAX_STACK_SIZE < m.stack.length + m.altstack.length then .error .stackSize
  else .ok { m with opcodePos := m.opcodePos + 1 }

/-- Execute an operation, or skip it in a branch that is not taken. -/
def execOp (ctx : EvalContext) (m : Machine) (op : ScriptOp) : Captured Machine :=
  let fExec := m.vfExec.allTrue
  if fExec ∧ op.opcode ≤ OP_PUSHDATA4 then .lift (execPush ctx m op)
  else if fExec ∨ (OP_IF ≤ op.opcode ∧ op.opcode ≤ OP_ENDIF) then execOpcode ctx m fExec op
  else pure m

/-- One turn of the loop, for an operation that was read. -/
def evalOp (ctx : EvalContext) (m : Machine) (op : ScriptOp) : Captured Machine := do
  let nOpCount ← .lift (checkOp ctx m op)
  let m ← execOp ctx { m with nOpCount := nOpCount } op
  .lift (finishOp m)

/-- The loop over the operations of a script. -/
def evalOps (ctx : EvalContext) : List ScriptOp → Machine → Captured Machine
  | [], m => pure m
  | op :: ops, m => evalOp ctx m op >>= evalOps ctx ops

/-- `EvalScript`: the stack it leaves. -/
def evalScript (ctx : EvalContext) (stack : List Bytes) (script : Script) (exec : ExecData) :
    Captured (List Bytes) :=
  if ctx.hasOpLimit ∧ MAX_SCRIPT_SIZE < script.length then .fail .scriptSize
  else do
    let m ← evalOps ctx (ops script)
      { stack := stack, codeHash := script, exec := { exec with codeseparatorPos := 0xffffffff } }
    if !parses script then .fail .badOpcode
    else if m.vfExec.size ≠ 0 then .fail .unbalancedConditional
    else pure m.stack

/-! ### Scripts without XMSS opcodes -/

/-- Whether an operation is one of the two XMSS opcodes. -/
def isXmssOp (op : ScriptOp) : Bool :=
  op.opcode = OP_XMSS_CHECKSIG ∨ op.opcode = OP_XMSS_CHECKSIGVERIFY

/-- Only the XMSS opcodes reach their case of the switch. -/
theorem ofByte_xmss {b : UInt8} {verify : Bool} (h : Opcode.ofByte b = .xmssCheckSig verify) :
    b = OP_XMSS_CHECKSIG ∨ b = OP_XMSS_CHECKSIGVERIFY := by
  unfold Opcode.ofByte at h
  split at h <;> first | cases h | skip
  · exact .inl (UInt8.toNat_inj.mp ‹_›)
  · exact .inr (UInt8.toNat_inj.mp ‹_›)
  · split at h
    · cases h
    · split at h <;> cases h

theorem execOpcode_uses_nil (ctx : EvalContext) (m : Machine) (fExec : Bool) {op : ScriptOp}
    (h : isXmssOp op = false) : (execOpcode ctx m fExec op).uses = [] := by
  unfold execOpcode
  split
  · rename_i verify hop
    rcases ofByte_xmss hop with he | he <;> simp [isXmssOp, he] at h
  · rfl

theorem evalOp_uses_nil (ctx : EvalContext) (m : Machine) {op : ScriptOp}
    (h : isXmssOp op = false) : (evalOp ctx m op).uses = [] := by
  refine Captured.bind_uses_nil rfl fun nOpCount _ => Captured.bind_uses_nil ?_ fun _ _ => rfl
  unfold execOp
  simp only
  split
  · rfl
  · split
    · exact execOpcode_uses_nil ctx _ _ h
    · rfl

/-- A run over operations that are no XMSS opcodes records nothing. -/
theorem evalOps_uses_nil (ctx : EvalContext) {ops : List ScriptOp}
    (h : ∀ op ∈ ops, isXmssOp op = false) (m : Machine) : (evalOps ctx ops m).uses = [] := by
  induction ops generalizing m with
  | nil => rfl
  | cons op ops ih =>
    refine Captured.bind_uses_nil (evalOp_uses_nil ctx m (h op mem_cons_self)) fun m' _ => ?_
    exact ih (fun o ho => h o (mem_cons_of_mem _ ho)) m'

/-- A script without XMSS opcodes records nothing. -/
theorem evalScript_uses_nil (ctx : EvalContext) (stack : List Bytes) {script : Script}
    (exec : ExecData) (h : ∀ op ∈ ops script, isXmssOp op = false) :
    (evalScript ctx stack script exec).uses = [] := by
  unfold evalScript
  split
  · rfl
  · refine Captured.bind_uses_nil (evalOps_uses_nil ctx h _) fun m _ => ?_
    split
    · rfl
    · split <;> rfl

end AssentianPQE
