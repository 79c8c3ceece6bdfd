import AssentianPQE.Primitives

/-!
# `AssentianPQE.Script.Script`: script bytes and their operations

The byte level of `script/script.h` and `script/script.cpp`: reading one operation
(`getScriptOp`), the pushes that `CScript::operator<<` writes, and the predicates on a
script that never run it.

Almost every loop of the source over a script has the form
`while (script.GetOp(pc, opcode, data)) { ... }`. Such a loop visits the operations
`ops script` in order, and stops early exactly when the bytes after the last of them do not
parse, which is `¬ parses script`.

* `getScriptOp_pushBytes`: reading a pushed byte string returns it.
* `ops_eq`: the loop reads one operation and goes on with the rest.
* `ops_forall`: what holds of every operation that can be read holds of every operation of a
  script.
-/

set_option autoImplicit false

namespace AssentianPQE

open Lib List Option UInt8

/-! ### Limits and opcodes -/

def MAX_SCRIPT_ELEMENT_SIZE : Nat := 520
def MAX_OPS_PER_SCRIPT : Nat := 201
def MAX_PUBKEYS_PER_MULTISIG : Nat := 20
def MAX_SCRIPT_SIZE : Nat := 10000
def MAX_STACK_SIZE : Nat := 1000
def LOCKTIME_THRESHOLD : Nat := 500000000
def ANNEX_TAG : UInt8 := 0x50
def VALIDATION_WEIGHT_PER_SIGOP_PASSED : Int := 50
def VALIDATION_WEIGHT_OFFSET : Int := 50

def OP_0 : UInt8 := 0x00
def OP_PUSHDATA1 : UInt8 := 0x4c
def OP_PUSHDATA2 : UInt8 := 0x4d
def OP_PUSHDATA4 : UInt8 := 0x4e
def OP_1NEGATE : UInt8 := 0x4f
def OP_1 : UInt8 := 0x51
def OP_16 : UInt8 := 0x60
def OP_IF : UInt8 := 0x63
def OP_ENDIF : UInt8 := 0x68
def OP_RETURN : UInt8 := 0x6a
def OP_DUP : UInt8 := 0x76
def OP_EQUAL : UInt8 := 0x87
def OP_EQUALVERIFY : UInt8 := 0x88
def OP_HASH160 : UInt8 := 0xa9
def OP_CODESEPARATOR : UInt8 := 0xab
def OP_CHECKSIG : UInt8 := 0xac
def OP_CHECKSIGVERIFY : UInt8 := 0xad
def OP_CHECKMULTISIG : UInt8 := 0xae
def OP_CHECKMULTISIGVERIFY : UInt8 := 0xaf
def OP_XMSS_CHECKSIG : UInt8 := 0xbb
def OP_XMSS_CHECKSIGVERIFY : UInt8 := 0xbc

/-- The script verification flags (`SCRIPT_VERIFY_*`), one field for each bit. -/
structure ScriptFlags where
  p2sh : Bool := false
  strictEnc : Bool := false
  derSig : Bool := false
  lowS : Bool := false
  nullDummy : Bool := false
  sigPushOnly : Bool := false
  minimalData : Bool := false
  discourageUpgradableNops : Bool := false
  cleanStack : Bool := false
  checkLockTimeVerify : Bool := false
  checkSequenceVerify : Bool := false
  witness : Bool := false
  discourageUpgradableWitnessProgram : Bool := false
  minimalIf : Bool := false
  nullFail : Bool := false
  witnessPubkeyType : Bool := false
  constScriptCode : Bool := false
  taproot : Bool := false
  discourageUpgradableTaprootVersion : Bool := false
  discourageOpSuccess : Bool := false
  discourageUpgradablePubkeyType : Bool := false
deriving DecidableEq

/-! ### Reading operations -/

/-- One operation of a script: its opcode, its immediate data and the bytes after it. -/
structure ScriptOp where
  opcode : UInt8
  data : Bytes
  rest : Script
deriving DecidableEq

/-- The length of the immediate data of a push opcode, and the bytes after the length. -/
def pushSize (opcode : UInt8) (pc : Script) : Option (Nat × Script) :=
  if opcode < OP_PUSHDATA1 then some (opcode.toNat, pc)
  else if opcode = OP_PUSHDATA1 then (takeN 1 pc).map fun p => (readLE p.1, p.2)
  else if opcode = OP_PUSHDATA2 then (takeN 2 pc).map fun p => (readLE p.1, p.2)
  else (takeN 4 pc).map fun p => (readLE p.1, p.2)

/-- `GetScriptOp`: the first operation, or `none` at the end or on a truncated push. -/
def getScriptOp : Script → Option ScriptOp
  | [] => none
  | opcode :: pc =>
    if opcode ≤ OP_PUSHDATA4 then
      match pushSize opcode pc with
      | none => none
      | some (nSize, pc) => (takeN nSize pc).map fun p => ⟨opcode, p.1, p.2⟩
    else some ⟨opcode, [], pc⟩

/-- The operations read in turn, and whether the end of the script was reached. The first
argument bounds the number of reads. -/
def opsFuel : Nat → Script → List ScriptOp × Bool
  | 0, s => ([], s.isEmpty)
  | n + 1, s =>
    if s.isEmpty then ([], true)
    else
      match getScriptOp s with
      | none => ([], false)
      | some op =>
        let r := opsFuel n op.rest
        (op :: r.1, r.2)

/-- The operations a `GetOp` loop visits. Each read consumes at least one byte, so the
length of the script bounds their number. -/
def ops (s : Script) : List ScriptOp :=
  (opsFuel s.length s).1

/-- Whether a `GetOp` loop reaches the end of the script. -/
def parses (s : Script) : Bool :=
  (opsFuel s.length s).2

/-! ### Writing pushes -/

/-- `CScript::operator<<` on a byte vector. -/
def pushBytes (b : Bytes) : Script :=
  if b.length < 0x4c then UInt8.ofNat b.length :: b
  else if b.length ≤ 0xff then OP_PUSHDATA1 :: UInt8.ofNat b.length :: b
  else if b.length ≤ 0xffff then OP_PUSHDATA2 :: (leBytes 2 b.length ++ b)
  else OP_PUSHDATA4 :: (leBytes 4 b.length ++ b)

/-! ### Predicates on the bytes -/

/-- `CScript::DecodeOP_N`, for an opcode that is `OP_0` or `OP_1` to `OP_16`. -/
def decodeOpN (opcode : UInt8) : Nat :=
  if opcode = OP_0 then 0 else opcode.toNat - 0x50

/-- `CScript::IsPayToScriptHash`. -/
def isPayToScriptHash (s : Script) : Bool :=
  s.length = 23 ∧ s[0]? = some OP_HASH160 ∧ s[1]? = some 0x14 ∧ s[22]? = some OP_EQUAL

/-- `CScript::IsWitnessProgram`: the version and the program. -/
def isWitnessProgram (s : Script) : Option (Nat × Bytes) :=
  if s.length < 4 ∨ 42 < s.length then none
  else
    match s with
    | v :: n :: program =>
      if v ≠ OP_0 ∧ (v < OP_1 ∨ OP_16 < v) then none
      else if n.toNat + 2 = s.length then some (decodeOpN v, program)
      else none
    | _ => none

/-- `CScript::IsPushOnly`. `OP_RESERVED` counts as a push. -/
def isPushOnly (s : Script) : Bool :=
  parses s && (ops s).all fun op => op.opcode ≤ OP_16

/-- `CScript::IsUnspendable`. -/
def isUnspendable (s : Script) : Bool :=
  s.head? = some OP_RETURN ∨ MAX_SCRIPT_SIZE < s.length

/-- `IsOpSuccess`. -/
def isOpSuccess (opcode : UInt8) : Bool :=
  let n := opcode.toNat
  n = 80 ∨ n = 98 ∨ (126 ≤ n ∧ n ≤ 129) ∨ (131 ≤ n ∧ n ≤ 134) ∨ (137 ≤ n ∧ n ≤ 138) ∨
    (141 ≤ n ∧ n ≤ 142) ∨ (149 ≤ n ∧ n ≤ 153) ∨ (187 ≤ n ∧ n ≤ 254)

/-- `CheckMinimalPush`. -/
def checkMinimalPush (data : Bytes) (opcode : UInt8) : Bool :=
  if data.length = 0 then opcode = OP_0
  else if data.length = 1 ∧ (data.headD 0) ≥ 1 ∧ (data.headD 0) ≤ 16 then false
  else if data.length = 1 ∧ data.headD 0 = 0x81 then false
  else if data.length ≤ 75 then opcode.toNat = data.length
  else if data.length ≤ 255 then opcode = OP_PUSHDATA1
  else if data.length ≤ 65535 then opcode = OP_PUSHDATA2
  else true

/-- The signature operations of one opcode, given the opcode before it. -/
def sigOpsOf (fAccurate : Bool) (lastOpcode opcode : UInt8) : Nat :=
  if opcode = OP_CHECKSIG ∨ opcode = OP_CHECKSIGVERIFY ∨
      opcode = OP_XMSS_CHECKSIG ∨ opcode = OP_XMSS_CHECKSIGVERIFY then 1
  else if opcode = OP_CHECKMULTISIG ∨ opcode = OP_CHECKMULTISIGVERIFY then
    if fAccurate ∧ OP_1 ≤ lastOpcode ∧ lastOpcode ≤ OP_16 then decodeOpN lastOpcode
    else MAX_PUBKEYS_PER_MULTISIG
  else 0

/-- `CScript::GetSigOpCount(bool)`: one pass that remembers the last opcode. -/
def getSigOpCount (s : Script) (fAccurate : Bool) : Nat :=
  ((ops s).foldl (fun acc op =>
    (acc.1 + sigOpsOf fAccurate acc.2 op.opcode, op.opcode)) (0, (0xff : UInt8))).1

/-- `CScript::GetSigOpCount(const CScript&)`: for P2SH, the count of the last pushed
script. -/
def getP2SHSigOps (scriptPubKey scriptSig : Script) : Nat :=
  if !isPayToScriptHash scriptPubKey then getSigOpCount scriptPubKey true
  else if !isPushOnly scriptSig then 0
  else getSigOpCount (((ops scriptSig).getLast?.map ScriptOp.data).getD []) true

/-! ### What a read says about the bytes -/

theorem pushSize_length {opcode : UInt8} {pc rest : Script} {nSize : Nat}
    (h : pushSize opcode pc = some (nSize, rest)) : rest.length ≤ pc.length := by
  unfold pushSize at h
  have hread : ∀ n, ((takeN n pc).map fun p => (readLE p.1, p.2)) = some (nSize, rest) →
      rest.length ≤ pc.length := by
    intro n hn
    obtain ⟨⟨x, r⟩, hx, he⟩ := map_eq_some_iff.mp hn
    obtain ⟨-, hpc⟩ := takeN_eq_some hx
    simp only [Prod.mk.injEq] at he
    rw [hpc, ← he.2, length_append]
    exact Nat.le_add_left _ _
  split at h
  · simp only [some.injEq, Prod.mk.injEq] at h
    rw [h.2]
  split at h
  · exact hread 1 h
  · split at h
    · exact hread 2 h
    · exact hread 4 h

/-- Every read consumes the opcode byte and the data. -/
theorem getScriptOp_lengths {s : Script} {op : ScriptOp} (h : getScriptOp s = some op) :
    op.data.length + op.rest.length < s.length := by
  cases s with
  | nil => cases h
  | cons opcode pc =>
    simp only [getScriptOp] at h
    split at h
    · split at h
      · cases h
      rename_i nSize pc' hsize
      obtain ⟨⟨x, r⟩, hx, rfl⟩ := map_eq_some_iff.mp h
      obtain ⟨-, hpc⟩ := takeN_eq_some hx
      have hlen := pushSize_length hsize
      rw [hpc, length_append] at hlen
      exact Nat.lt_succ_of_le hlen
    · cases h
      simp

theorem getScriptOp_length {s : Script} {op : ScriptOp} (h : getScriptOp s = some op) :
    op.rest.length < s.length :=
  Nat.lt_of_le_of_lt (Nat.le_add_left _ _) (getScriptOp_lengths h)

/-- More reads than bytes make no difference. -/
theorem opsFuel_eq {n : Nat} {s : Script} (h : s.length ≤ n) :
    opsFuel n s = (ops s, parses s) := by
  -- Both bounds are at least the length; the induction is on the first one.
  have key : ∀ n m (s : Script), s.length ≤ n → s.length ≤ m → opsFuel n s = opsFuel m s := by
    intro n
    induction n with
    | zero =>
      intro m s hn _
      have hs : s = [] := length_eq_zero_iff.mp (Nat.le_zero.mp hn)
      cases m <;> simp [opsFuel, hs]
    | succ n ih =>
      intro m s hn hm
      cases m with
      | zero =>
        have hs : s = [] := length_eq_zero_iff.mp (Nat.le_zero.mp hm)
        simp [opsFuel, hs]
      | succ m =>
        simp only [opsFuel]
        split
        · rfl
        cases hop : getScriptOp s with
        | none => rfl
        | some op =>
          have hlen := getScriptOp_length hop
          simp only [ih m op.rest (by omega) (by omega)]
  rw [key n s.length s h (Nat.le_refl _)]
  rfl

@[simp] theorem ops_nil : ops [] = [] := rfl

@[simp] theorem parses_nil : parses [] = true := rfl

/-- One read of a `GetOp` loop that succeeds. -/
theorem ops_eq {s : Script} {op : ScriptOp} (h : getScriptOp s = some op) :
    ops s = op :: ops op.rest ∧ parses s = parses op.rest := by
  cases s with
  | nil => cases h
  | cons b pc =>
    have hlen := getScriptOp_length h
    have hrest : opsFuel pc.length op.rest = (ops op.rest, parses op.rest) :=
      opsFuel_eq (by simpa using Nat.lt_succ_iff.mp hlen)
    simp [ops, parses, opsFuel, h, hrest]

/-- A property of every operation that can be read holds of every operation of a script. -/
theorem ops_forall {P : ScriptOp → Prop} (h : ∀ s op, getScriptOp s = some op → P op)
    (s : Script) : ∀ op ∈ ops s, P op := by
  have key : ∀ n (s : Script), ∀ op ∈ (opsFuel n s).1, P op := by
    intro n
    induction n with
    | zero => intro s op hop; cases hop
    | succ n ih =>
      intro s op hop
      simp only [opsFuel] at hop
      split at hop
      · cases hop
      cases hread : getScriptOp s with
      | none => simp [hread] at hop
      | some first =>
        simp only [hread, mem_cons] at hop
        rcases hop with rfl | hop
        · exact h s op hread
        · exact ih first.rest op hop
  exact key s.length s

/-- Only a push has immediate data. -/
theorem getScriptOp_data_nil {s : Script} {op : ScriptOp} (h : getScriptOp s = some op)
    (hop : ¬ op.opcode ≤ OP_PUSHDATA4) : op.data = [] := by
  cases s with
  | nil => cases h
  | cons opcode pc =>
    simp only [getScriptOp] at h
    split at h
    · rename_i hle
      split at h
      · cases h
      · obtain ⟨⟨x, r⟩, -, he⟩ := map_eq_some_iff.mp h
        exact absurd (by rw [← he]; exact hle) hop
    · simp only [some.injEq] at h
      rw [← h]

/-! ### Reading what was pushed -/

/-- `GetOp` on a pushed byte string returns it. Scripts are far shorter than `2 ^ 32`. -/
theorem getScriptOp_pushBytes {b : Bytes} (hb : b.length < 2 ^ 32) (rest : Script) :
    ∃ opcode, opcode ≤ OP_PUSHDATA4 ∧ getScriptOp (pushBytes b ++ rest) = some ⟨opcode, b, rest⟩ := by
  unfold pushBytes
  split
  · rename_i hlt
    have hnat : (ofNat b.length).toNat = b.length := by
      rw [toNat_ofNat']
      exact Nat.mod_eq_of_lt (by omega)
    have hop : ofNat b.length < OP_PUSHDATA1 := by
      rw [lt_iff_toNat_lt, hnat]
      exact hlt
    have hle : ofNat b.length ≤ OP_PUSHDATA4 := by
      rw [le_iff_toNat_le, hnat]
      exact Nat.le_trans (Nat.le_of_lt hlt) (by decide)
    refine ⟨ofNat b.length, hle, ?_⟩
    simp [getScriptOp, hle, pushSize, hop, hnat]
  · rename_i h1
    split
    · rename_i h2
      have hnat : (ofNat b.length).toNat = b.length := by
        rw [toNat_ofNat']
        exact Nat.mod_eq_of_lt (by omega)
      have hn : takeN 1 (ofNat b.length :: (b ++ rest)) =
          some ([ofNat b.length], b ++ rest) := by
        simp [takeN]
      refine ⟨OP_PUSHDATA1, by decide, ?_⟩
      simp [getScriptOp, pushSize, hn, readLE, hnat,
        show OP_PUSHDATA1 ≤ OP_PUSHDATA4 by decide, show ¬ OP_PUSHDATA1 < OP_PUSHDATA1 by decide]
    · rename_i h2
      split
      · rename_i h3
        have hn := takeN_append_of_length (length_leBytes 2 b.length) (b ++ rest)
        have hv : readLE (leBytes 2 b.length) = b.length := by
          rw [readLE_leBytes]
          exact Nat.mod_eq_of_lt (by omega)
        refine ⟨OP_PUSHDATA2, by decide, ?_⟩
        simp [getScriptOp, pushSize, append_assoc, hn, hv,
          show OP_PUSHDATA2 ≤ OP_PUSHDATA4 by decide, show ¬ OP_PUSHDATA2 < OP_PUSHDATA1 by decide,
          show ¬ OP_PUSHDATA2 = OP_PUSHDATA1 by decide]
      · rename_i h3
        have hn := takeN_append_of_length (length_leBytes 4 b.length) (b ++ rest)
        have hv : readLE (leBytes 4 b.length) = b.length := by
          rw [readLE_leBytes]
          exact Nat.mod_eq_of_lt (by omega)
        refine ⟨OP_PUSHDATA4, by decide, ?_⟩
        simp [getScriptOp, pushSize, append_assoc, hn, hv,
          show ¬ OP_PUSHDATA4 < OP_PUSHDATA1 by decide,
          show ¬ OP_PUSHDATA4 = OP_PUSHDATA1 by decide, show ¬ OP_PUSHDATA4 = OP_PUSHDATA2 by decide]

end AssentianPQE
