import AssentianPQE.Script.Interpreter

/-!
# `AssentianPQE.Script.Solver`: output templates and static leaf extraction

`Solver` (`script/solver.cpp`) with its XMSS templates, and `ExtractXMSSLeafUse`
(`xmss_leaf_key.cpp`), which reads the leaf of a spend from its scripts without running
them.
-/

set_option autoImplicit false

namespace AssentianPQE

open Lib

/-- `TxoutType`. -/
inductive TxoutType where
  | nonstandard | pubkey | pubkeyHash | scriptHash | multisig | nullData
  | witnessV0ScriptHash | witnessV0KeyHash | witnessV1Taproot | witnessUnknown
  | p2xmss | p2xmssHash
deriving DecidableEq

/-! ### Templates -/

/-- `CPubKey::GetLen`. -/
def pubKeyLen (chHeader : UInt8) : Nat :=
  if chHeader = 2 ∨ chHeader = 3 then 33
  else if chHeader = 4 ∨ chHeader = 6 ∨ chHeader = 7 then 65
  else 0

/-- `CPubKey::ValidSize`. -/
def validSize (vch : Bytes) : Bool :=
  vch.head?.any fun h => pubKeyLen h = vch.length

/-- `MatchPayToPubkey`: the key. -/
def matchPayToPubkey (script : Script) : Option Bytes :=
  let key := (script.drop 1).dropLast
  if (script.length = 67 ∧ script.head? = some 65 ∨ script.length = 35 ∧ script.head? = some 33) ∧
      script.getLast? = some OP_CHECKSIG ∧ validSize key then some key
  else none

/-- `MatchPayToPubkeyHash`: the hash. -/
def matchPayToPubkeyHash (script : Script) : Option Bytes :=
  if script.length = 25 ∧ script.take 3 = [OP_DUP, OP_HASH160, 20] ∧
      script.drop 23 = [OP_EQUALVERIFY, OP_CHECKSIG] then some ((script.drop 3).take 20)
  else none

/-- `GetScriptNumber`: a number between `least` and `most`, minimally encoded. -/
def getScriptNumber (op : ScriptOp) (least most : Int) : Option Int :=
  let count :=
    if OP_1 ≤ op.opcode ∧ op.opcode ≤ OP_16 then some (decodeOpN op.opcode : Int)
    else if 0 < op.opcode ∧ op.opcode ≤ OP_PUSHDATA4 then
      if checkMinimalPush op.data op.opcode then (scriptNum op.data true 4).map getInt else none
    else none
  count.filter fun n => least ≤ n ∧ n ≤ most

/-- `MatchMultisig`: the number of required signatures and the keys. -/
def matchMultisig (script : Script) : Option (Int × List Bytes) :=
  if script.getLast? ≠ some OP_CHECKMULTISIG then none
  else
    match getScriptOp script with
    | none => none
    | some first =>
      match getScriptNumber first 1 MAX_PUBKEYS_PER_MULTISIG with
      | none => none
      | some required =>
        let keys := (ops first.rest).takeWhile fun op => validSize op.data
        -- The operation after the keys is their number, and one byte follows it.
        match (ops first.rest).drop keys.length with
        | [] => none
        | last :: _ =>
          if getScriptNumber last required MAX_PUBKEYS_PER_MULTISIG = some (keys.length : Int) ∧
              last.rest.length = 1 then
            some (required, keys.map ScriptOp.data)
          else none

/-- The P2XMSS branch of `Solver`: the key. What follows the opcode is not read. -/
def matchXmss (script : Script) : Option Bytes :=
  match getScriptOp script with
  | none => none
  | some op =>
    if op.opcode = 64 ∧ op.data.length = 64 ∧ op.rest.head? = some OP_XMSS_CHECKSIG then
      some op.data
    else none

/-- The P2XMSSHASH branch of `Solver`: the hash. -/
def matchXmssHash (script : Script) : Option Bytes :=
  match ops script with
  | dup :: hash :: push :: equal :: check :: _ =>
    if dup.opcode = OP_DUP ∧ hash.opcode = OP_HASH160 ∧ push.opcode = 20 ∧
        push.data.length = 20 ∧ equal.opcode = OP_EQUALVERIFY ∧
        check.opcode = OP_XMSS_CHECKSIG ∧ check.rest = [] then
      some push.data
    else none
  | _ => none

/-- The branches of `Solver` for scripts that are run as they stand. -/
def solveBare (script : Script) : TxoutType × List Bytes :=
  match matchPayToPubkey script with
  | some key => (.pubkey, [key])
  | none =>
    match matchPayToPubkeyHash script with
    | some hash => (.pubkeyHash, [hash])
    | none =>
      match matchMultisig script with
      | some (required, keys) =>
        (.multisig, leBytes 1 required.toNat :: (keys ++ [leBytes 1 keys.length]))
      | none =>
        match matchXmss script with
        | some key => (.p2xmss, [key])
        | none =>
          match matchXmssHash script with
          | some hash => (.p2xmssHash, [hash])
          | none => (.nonstandard, [])

/-- `Solver`: the type of an output script and its parts. -/
def solver (script : Script) : TxoutType × List Bytes :=
  if isPayToScriptHash script then (.scriptHash, [(script.drop 2).take 20])
  else
    match isWitnessProgram script with
    | some (version, program) =>
      if version = 0 ∧ program.length = 20 then (.witnessV0KeyHash, [program])
      else if version = 0 ∧ program.length = 32 then (.witnessV0ScriptHash, [program])
      else if version = 1 ∧ program.length = 32 then (.witnessV1Taproot, [program])
      else if version ≠ 0 then (.witnessUnknown, [leBytes 1 version, program])
      else (.nonstandard, [])
    | none =>
      if script.head? = some OP_RETURN ∧ isPushOnly (script.drop 1) then (.nullData, [])
      else solveBare script

/-! ### Leaf extraction -/

/-- The items that a script of plain pushes pushes, the first one first. -/
def plainPushes (scriptSig : Script) : Option (List Bytes) :=
  if parses scriptSig ∧ (ops scriptSig).all fun op => op.opcode ≤ OP_PUSHDATA4 then
    some ((ops scriptSig).map ScriptOp.data)
  else none

/-- The loop over the chunks: it stops once the signature has reached the cap. -/
def gatherChunks : List Bytes → Bytes → Option Bytes
  | [], sig => some sig
  | chunk :: rest, sig =>
    if !isChunk chunk then none
    else if XMSS_MAX_SIG_BYTES ≤ (sig ++ chunk).length then some (sig ++ chunk)
    else gatherChunks rest (sig ++ chunk)

/-- The key and the chunks of a spend, by the type of its output. -/
def leafUseParts (solved : TxoutType × List Bytes) (pushes : List Bytes) :
    Option (Bytes × List Bytes) :=
  match solved with
  | (.p2xmss, [pk]) => some (pk, pushes)
  | (.p2xmssHash, _) => some (pushes.getLastD [], pushes.dropLast)
  | _ => none

/-- `ExtractXMSSLeafUse`: the key and the leaf index of a spend. -/
def extractXMSSLeafUse (scriptPubKey scriptSig : Script) : Option (Bytes × Nat) :=
  match plainPushes scriptSig with
  | none => none
  | some pushes =>
    if pushes = [] then none
    else
      match leafUseParts (solver scriptPubKey) pushes with
      | none => none
      | some (pk, chunks) =>
        if pk.length ≠ 64 then none
        else
          match gatherChunks chunks [] with
          | none => none
          | some sig => if sig.length < 4 then none else some (pk, leafIndexOf sig)

end AssentianPQE
