import Mathlib.Tactic.IntervalCases
import AssentianPQE.Script.Verify

/-!
# Runs of simple scripts

What a script leaves on the stack and which leaves it records, for the scripts that occur in
standard spends.

* `evalScript_pushOnly`: a push-only script leaves the items that it pushes.
* `verifyScript_uses_nil`: a spend that runs no script with an XMSS opcode records nothing.
  `executedScripts` are the scripts that a spend can run.
-/

set_option autoImplicit false

namespace AssentianPQE

open Lib List Captured Except

variable {ctx : EvalContext} {m m' : Machine} {op : ScriptOp} {stack witness : List Bytes}
  {script scriptPubKey scriptSig : Script} {exec : ExecData} {program : Bytes}

/-! ### One operation -/

/-- A turn of the loop succeeds when the operation does. It counts the operation and keeps the
rest of what the operation leaves. -/
theorem evalOp_ok (h : (evalOp ctx m op).result = .ok m') :
    ∃ nOpCount m₁, (execOp ctx { m with nOpCount := nOpCount } op).result = .ok m₁ ∧
      (evalOp ctx m op).uses = (execOp ctx { m with nOpCount := nOpCount } op).uses ∧
      m' = { m₁ with opcodePos := m₁.opcodePos + 1 } := by
  unfold evalOp at h ⊢
  obtain ⟨nOpCount, hcheck, hrest⟩ := bind_result_ok h
  obtain ⟨m₁, hexec, hfinish⟩ := bind_result_ok hrest
  refine ⟨nOpCount, m₁, hexec, ?_, ?_⟩
  · rw [bind_ok hcheck, bind_ok hexec]
    simp
  · simp only [lift_result, finishOp] at hfinish
    split at hfinish
    · cases hfinish
    · exact (ok.inj hfinish).symm

/-- The item that a push operation leaves on the stack. -/
def pushedItem (op : ScriptOp) : Bytes :=
  if op.opcode ≤ OP_PUSHDATA4 then op.data else serializeNum (op.opcode.toNat - 0x50 : Int)

/-- Between the data pushes and `OP_16` there are only number pushes and `OP_RESERVED`. -/
theorem ofByte_pushNum {b : UInt8} (hlow : ¬ b ≤ OP_PUSHDATA4) (hhigh : b ≤ OP_16) :
    Opcode.ofByte b = .pushNum ∨ Opcode.ofByte b = .invalid := by
  have hlow' : 0x4e < b.toNat := by
    rw [UInt8.not_le] at hlow
    exact hlow
  have hhigh' : b.toNat ≤ 0x60 := hhigh
  unfold Opcode.ofByte
  generalize b.toNat = n at hlow' hhigh'
  interval_cases n <;> simp

/-- A push that is executed puts its item on the stack. -/
theorem evalOp_push (hop : op.opcode ≤ OP_16) (hexec : m.vfExec.allTrue = true)
    (h : (evalOp ctx m op).result = .ok m') :
    m'.stack = pushedItem op :: m.stack ∧ m'.vfExec = m.vfExec ∧ m'.codeHash = m.codeHash := by
  obtain ⟨nOpCount, m₁, hm₁, -, rfl⟩ := evalOp_ok h
  unfold execOp at hm₁
  simp only [hexec, true_and, true_or, if_true] at hm₁
  unfold pushedItem
  by_cases hdata : op.opcode ≤ OP_PUSHDATA4
  · rw [if_pos hdata] at hm₁ ⊢
    simp only [lift_result, execPush] at hm₁
    split at hm₁
    · cases hm₁
    · rw [← ok.inj hm₁]
      exact ⟨rfl, rfl, rfl⟩
  · rw [if_neg hdata] at hm₁ ⊢
    unfold execOpcode at hm₁
    rcases ofByte_pushNum hdata hop with hnum | hbad
    · simp only [hnum, lift_result, execPlain] at hm₁
      rw [← ok.inj hm₁]
      exact ⟨rfl, rfl, rfl⟩
    · simp only [hbad, lift_result, execPlain] at hm₁
      cases hm₁

/-- An opcode of the switch that is executed. -/
theorem evalOp_opcode (hop : ¬ op.opcode ≤ OP_PUSHDATA4) (hexec : m.vfExec.allTrue = true)
    (h : (evalOp ctx m op).result = .ok m') :
    ∃ m₀ m₁, m₀.stack = m.stack ∧ m₀.vfExec = m.vfExec ∧
      (execOpcode ctx m₀ true op).result = .ok m₁ ∧
      (evalOp ctx m op).uses = (execOpcode ctx m₀ true op).uses ∧
      m'.stack = m₁.stack ∧ m'.vfExec = m₁.vfExec ∧ m₀.codeHash = m.codeHash := by
  obtain ⟨nOpCount, m₁, hm₁, huses, rfl⟩ := evalOp_ok h
  unfold execOp at hm₁ huses
  simp only [hexec, hop, and_false, if_false, true_or, if_true] at hm₁ huses
  exact ⟨{ m with nOpCount := nOpCount }, m₁, rfl, rfl, hm₁, huses, rfl, rfl, rfl⟩

/-- A run over two lists of operations. -/
theorem evalOps_append {ops₁ ops₂ : List ScriptOp} :
    ∀ {m m' : Machine}, (evalOps ctx (ops₁ ++ ops₂) m).result = .ok m' →
      ∃ m₁, (evalOps ctx ops₁ m).result = .ok m₁ ∧ (evalOps ctx ops₂ m₁).result = .ok m' ∧
        (evalOps ctx (ops₁ ++ ops₂) m).uses =
          (evalOps ctx ops₁ m).uses ++ (evalOps ctx ops₂ m₁).uses := by
  induction ops₁ with
  | nil =>
    intro m m' h
    exact ⟨m, rfl, h, rfl⟩
  | cons op ops ih =>
    intro m m' h
    obtain ⟨m₀, hop, hrest⟩ := bind_result_ok h
    obtain ⟨m₁, h₁, h₂, huses⟩ := ih hrest
    refine ⟨m₁, ?_, h₂, ?_⟩
    · show (evalOp ctx m op >>= evalOps ctx ops).result = _
      rw [bind_ok hop]
      exact h₁
    · show (evalOp ctx m op >>= evalOps ctx (ops ++ ops₂)).uses =
        (evalOp ctx m op >>= evalOps ctx ops).uses ++ _
      rw [bind_ok hop, bind_ok hop]
      show _ ++ (evalOps ctx (ops ++ ops₂) m₀).uses = _ ++ (evalOps ctx ops m₀).uses ++ _
      rw [huses, append_assoc]

/-! ### Push-only scripts -/

theorem evalOps_push {ops : List ScriptOp} :
    ∀ {m m' : Machine}, (∀ op ∈ ops, op.opcode ≤ OP_16) → m.vfExec.allTrue = true →
      (evalOps ctx ops m).result = .ok m' →
      m'.stack = (ops.map pushedItem).reverse ++ m.stack ∧ m'.vfExec = m.vfExec := by
  induction ops with
  | nil =>
    intro m m' _ _ h
    rw [← ok.inj h]
    exact ⟨rfl, rfl⟩
  | cons op ops ih =>
    intro m m' hops hexec h
    obtain ⟨m₁, hone, hrest⟩ := bind_result_ok h
    obtain ⟨hstack, hvf, -⟩ := evalOp_push (hops op mem_cons_self) hexec hone
    obtain ⟨hstack', hvf'⟩ := ih (fun o ho => hops o (mem_cons_of_mem op ho))
      (by rw [hvf, hexec]) hrest
    rw [hstack', hvf', hstack, hvf]
    simp

/-- `EvalScript` succeeds when the loop does. -/
theorem evalScript_ok {stack' : List Bytes}
    (h : (evalScript ctx stack script exec).result = .ok stack') :
    ∃ m m', m.stack = stack ∧ m.vfExec = {} ∧ (evalOps ctx (ops script) m).result = .ok m' ∧
      m'.stack = stack' ∧ m.codeHash = script ∧
      (evalScript ctx stack script exec).uses = (evalOps ctx (ops script) m).uses := by
  unfold evalScript at h ⊢
  split at h
  · cases h
  rename_i hsize
  obtain ⟨m', hops, hrest⟩ := bind_result_ok h
  refine ⟨_, m', rfl, rfl, hops, ?_, rfl, ?_⟩
  · split at hrest
    · cases hrest
    · split at hrest
      · cases hrest
      · exact ok.inj hrest
  · rw [if_neg hsize, bind_ok hops]
    have hnone : ∀ (b : Bool), (if b then .fail .badOpcode
        else if m'.vfExec.size ≠ 0 then .fail .unbalancedConditional
        else pure m'.stack : Captured (List Bytes)).uses = [] := by
      intro b
      split
      · rfl
      · split <;> rfl
    rw [hnone, append_nil]

/-- A push-only script leaves the items that it pushes, the last one on top. -/
theorem evalScript_pushOnly {stack' : List Bytes} (hpush : ∀ op ∈ ops script, op.opcode ≤ OP_16)
    (h : (evalScript ctx stack script exec).result = .ok stack') :
    stack' = ((ops script).map pushedItem).reverse ++ stack := by
  obtain ⟨m, m', rfl, hvf, hops, rfl, -, -⟩ := evalScript_ok h
  exact (evalOps_push hpush (by rw [hvf]; rfl) hops).1

/-! ### Spends without XMSS opcodes -/

/-- A script without the two XMSS opcodes. -/
def noXmss (script : Script) : Bool :=
  (ops script).all fun op => !isXmssOp op

theorem noXmss_iff :
    noXmss script = true ↔ ∀ op ∈ ops script, isXmssOp op = false := by
  simp [noXmss]

/-- The redeem script of a P2SH spend: the last item that `scriptSig` pushes. -/
def redeemScript (scriptSig : Script) : Script :=
  ((ops scriptSig).getLast?.map pushedItem).getD []

/-- The witness script of an output or a redeem script, if it is a P2WSH program. -/
def witnessScripts (script : Script) (witness : List Bytes) : List Script :=
  match isWitnessProgram script with
  | some (version, program) =>
    if version = 0 ∧ program.length = WITNESS_V0_SCRIPTHASH_SIZE then witness.getLast?.toList else []
  | none => []

/-- The scripts that a spend can run, apart from tapscripts and the fixed script of P2WPKH. -/
def executedScripts (scriptSig scriptPubKey : Script) (witness : List Bytes) : List Script :=
  scriptSig :: scriptPubKey :: (witnessScripts scriptPubKey witness ++
    if isPayToScriptHash scriptPubKey then
      redeemScript scriptSig :: witnessScripts (redeemScript scriptSig) witness
    else [])

section Uses
variable {c : Crypto} {flags : ScriptFlags} {checker : SignatureChecker}

theorem runWitnessScript_uses_nil (h : ∀ op ∈ ops script, isXmssOp op = false) :
    (runWitnessScript ctx stack script exec).uses = [] := by
  unfold runWitnessScript
  split
  · rfl
  · refine bind_uses_nil (evalScript_uses_nil ctx stack exec h) fun stack' _ => ?_
    split
    · split <;> rfl
    · rfl

/-- The XMSS opcodes are `OP_SUCCESS` opcodes in a tapscript, so they are never run there. -/
theorem isOpSuccess_of_isXmssOp (h : isXmssOp op = true) :
    isOpSuccess op.opcode = true := by
  simp only [isXmssOp, decide_eq_true_eq] at h
  rcases h with h | h <;> rw [h] <;> decide

theorem executeWitnessScript_uses_nil
    (h : ctx.sigversion ≠ .tapscript → ∀ op ∈ ops script, isXmssOp op = false) :
    (executeWitnessScript ctx stack script exec).uses = [] := by
  unfold executeWitnessScript
  split
  · rename_i hsig
    exact runWitnessScript_uses_nil (h hsig)
  split
  · rfl
  · split <;> rfl
  rename_i hscan
  split
  · rfl
  refine runWitnessScript_uses_nil fun op hop => ?_
  by_contra hxmss
  rw [Bool.not_eq_false] at hxmss
  have hfound : (ops script).any (fun op => isOpSuccess op.opcode) = true :=
    any_eq_true.mpr ⟨op, hop, isOpSuccess_of_isXmssOp hxmss⟩
  rw [scanOpSuccess, if_pos hfound] at hscan
  cases hscan

theorem verifyTaproot_uses_nil :
    (verifyTaproot c flags checker witness program).uses = [] := by
  unfold verifyTaproot
  split
  · rfl
  split
  · rfl
  simp only
  split
  · split
    · rfl
    split
    · rfl
    · split
      · exact executeWitnessScript_uses_nil fun hne => absurd rfl hne
      · split <;> rfl
  · split <;> rfl

/-- The operations of the implied script of P2WPKH. -/
theorem noXmss_witnessKeyHashScript (hlen : program.length = WITNESS_V0_KEYHASH_SIZE) :
    ∀ op ∈ ops (witnessKeyHashScript program), isXmssOp op = false := by
  obtain ⟨opcode, hle, hpush⟩ := getScriptOp_pushBytes (b := program) (by rw [hlen]; decide)
    [OP_EQUALVERIFY, OP_CHECKSIG]
  have hdup : getScriptOp (witnessKeyHashScript program) =
      some ⟨OP_DUP, [], OP_HASH160 :: (pushBytes program ++ [OP_EQUALVERIFY, OP_CHECKSIG])⟩ := rfl
  have hhash : getScriptOp (OP_HASH160 :: (pushBytes program ++ [OP_EQUALVERIFY, OP_CHECKSIG])) =
      some ⟨OP_HASH160, [], pushBytes program ++ [OP_EQUALVERIFY, OP_CHECKSIG]⟩ := rfl
  have hlast : ops [OP_EQUALVERIFY, OP_CHECKSIG] =
      [⟨OP_EQUALVERIFY, [], [OP_CHECKSIG]⟩, ⟨OP_CHECKSIG, [], []⟩] := by decide
  rw [(ops_eq hdup).1, (ops_eq hhash).1, (ops_eq hpush).1, hlast]
  have hopcode : isXmssOp ⟨opcode, program, [OP_EQUALVERIFY, OP_CHECKSIG]⟩ = false := by
    simp only [isXmssOp, decide_eq_false_iff_not, not_or]
    constructor <;> intro he <;> rw [he] at hle <;> exact absurd hle (by decide)
  simp only [mem_cons, not_mem_nil, or_false]
  rintro op (rfl | rfl | rfl | rfl | rfl)
  · rfl
  · rfl
  · exact hopcode
  · rfl
  · rfl

theorem verifyWitnessProgram_uses_nil {version : Nat} {isP2SH : Bool}
    (hprogram : isWitnessProgram script = some (version, program))
    (h : ∀ s ∈ witnessScripts script witness, noXmss s = true) :
    (verifyWitnessProgram c flags checker witness version program isP2SH).uses = [] := by
  unfold witnessScripts at h
  simp only [hprogram] at h
  unfold verifyWitnessProgram
  simp only
  split
  · rename_i hzero
    split
    · rename_i hsize
      rw [if_pos ⟨hzero, hsize⟩] at h
      split
      · rfl
      rename_i execScript stack hrev
      split
      · rfl
      · refine executeWitnessScript_uses_nil fun _ => noXmss_iff.mp (h execScript ?_)
        rw [← head?_reverse, hrev]
        exact mem_cons_self
    · split
      · rename_i hsize
        split
        · rfl
        · exact executeWitnessScript_uses_nil fun _ => noXmss_witnessKeyHashScript hsize
      · rfl
  · split
    · exact verifyTaproot_uses_nil
    · split <;> rfl

theorem verifyBareWitness_uses_nil
    (h : ∀ s ∈ witnessScripts scriptPubKey witness, noXmss s = true) :
    (verifyBareWitness c flags checker scriptSig scriptPubKey witness).uses = [] := by
  unfold verifyBareWitness
  split
  · rfl
  split
  · rfl
  · rename_i version program hprogram
    split
    · rfl
    · exact bind_uses_nil (verifyWitnessProgram_uses_nil hprogram h) fun _ _ => rfl

theorem verifyP2SHWitness_uses_nil {redeem : Script}
    (h : ∀ s ∈ witnessScripts redeem witness, noXmss s = true) :
    (verifyP2SHWitness c flags checker scriptSig redeem witness).uses = [] := by
  unfold verifyP2SHWitness
  split
  · rfl
  split
  · rfl
  · rename_i version program hprogram
    split
    · rfl
    · exact bind_uses_nil (verifyWitnessProgram_uses_nil hprogram h) fun _ _ => rfl

theorem requireTrue_uses (stack : List Bytes) : (requireTrue stack).uses = [] := by
  unfold requireTrue
  split
  · rfl
  · split <;> rfl

/-- The P2SH part runs the last item that `scriptSig` pushes. -/
theorem verifyP2SH_uses_nil {stackCopy : List Bytes}
    (hstack : (evalScript ⟨c, flags, checker, .base⟩ [] scriptSig {}).result = .ok stackCopy)
    (h : ∀ s ∈ redeemScript scriptSig :: witnessScripts (redeemScript scriptSig) witness,
      noXmss s = true) :
    (verifyP2SH c flags checker scriptSig stackCopy witness).uses = [] := by
  unfold verifyP2SH
  split
  · rfl
  rename_i hpush
  split
  · rfl
  rename_i redeem stack
  -- A push-only script leaves its items, so the top is the redeem script.
  have hredeem : redeem = redeemScript scriptSig := by
    simp only [isPushOnly, Bool.not_eq_true', Bool.not_eq_false, Bool.and_eq_true,
      all_eq_true, decide_eq_true_eq] at hpush
    have hitems := evalScript_pushOnly hpush.2 hstack
    rw [append_nil] at hitems
    have hlast : some redeem = (ops scriptSig).getLast?.map pushedItem := by
      rw [← getLast?_map, ← head?_reverse, ← hitems]
      rfl
    rw [redeemScript, ← hlast]
    rfl
  rw [hredeem]
  refine bind_uses_nil (evalScript_uses_nil _ _ _
    (noXmss_iff.mp (h _ mem_cons_self))) fun stack' _ => ?_
  refine bind_uses_nil (requireTrue_uses stack') fun _ _ => ?_
  refine bind_uses_nil ?_ fun _ _ => rfl
  exact verifyP2SHWitness_uses_nil fun s hs => h s (mem_cons_of_mem _ hs)

theorem finishSpend_uses {hadWitness : Bool} :
    (finishSpend flags witness stack hadWitness).uses = [] := by
  unfold finishSpend
  split
  · rfl
  · split <;> rfl

/-- A spend that runs no script with an XMSS opcode records nothing. -/
theorem verifyScript_uses_nil
    (h : ∀ s ∈ executedScripts scriptSig scriptPubKey witness, noXmss s = true) :
    (verifyScript c flags checker scriptSig scriptPubKey witness).uses = [] := by
  have hsig := noXmss_iff.mp (h scriptSig mem_cons_self)
  have hpk := noXmss_iff.mp (h scriptPubKey (mem_cons_of_mem _ mem_cons_self))
  have hmore : ∀ s ∈ witnessScripts scriptPubKey witness ++
      (if isPayToScriptHash scriptPubKey then
        redeemScript scriptSig :: witnessScripts (redeemScript scriptSig) witness else []),
      noXmss s = true :=
    fun s hs => h s (mem_cons_of_mem _ (mem_cons_of_mem _ hs))
  unfold verifyScript
  split
  · rfl
  refine bind_uses_nil (evalScript_uses_nil _ _ _ hsig) fun stackCopy hcopy => ?_
  refine bind_uses_nil (evalScript_uses_nil _ _ _ hpk) fun stack _ => ?_
  refine bind_uses_nil (requireTrue_uses stack) fun _ _ => ?_
  refine bind_uses_nil (verifyBareWitness_uses_nil fun s hs =>
    hmore s (mem_append_left _ hs)) fun hadWitness _ => ?_
  refine bind_uses_nil ?_ fun _ _ => finishSpend_uses
  unfold verifyRedeem
  split
  · rename_i hp2sh
    refine bind_uses_nil (verifyP2SH_uses_nil hcopy fun s hs => hmore s ?_)
      fun _ _ => rfl
    rw [if_pos hp2sh.2]
    exact mem_append_right _ hs
  · rfl

/-- A spend of an output that is neither P2SH nor a witness program is a run of two scripts. It
records what the output script records, if `scriptSig` has no XMSS opcode. -/
theorem verifyScript_bare (hsig : ∀ op ∈ ops scriptSig, isXmssOp op = false)
    (hp2sh : isPayToScriptHash scriptPubKey = false) (hwit : isWitnessProgram scriptPubKey = none)
    (h : (verifyScript c flags checker scriptSig scriptPubKey witness).result = .ok ()) :
    ∃ stackCopy stack,
      (evalScript ⟨c, flags, checker, .base⟩ [] scriptSig {}).result = .ok stackCopy ∧
      (evalScript ⟨c, flags, checker, .base⟩ stackCopy scriptPubKey {}).result = .ok stack ∧
      (requireTrue stack).result = .ok () ∧
      (verifyScript c flags checker scriptSig scriptPubKey witness).uses =
        (evalScript ⟨c, flags, checker, .base⟩ stackCopy scriptPubKey {}).uses := by
  unfold verifyScript at h ⊢
  split at h
  · cases h
  rename_i hpush
  obtain ⟨stackCopy, hcopy, h⟩ := bind_result_ok h
  obtain ⟨stack, hstack, h⟩ := bind_result_ok h
  obtain ⟨_, htrue, h⟩ := bind_result_ok h
  refine ⟨stackCopy, stack, hcopy, hstack, htrue, ?_⟩
  rw [if_neg hpush, bind_ok hcopy, bind_ok hstack]
  -- Nothing else runs a script.
  have hrest : (requireTrue stack >>= fun _ =>
      verifyBareWitness c flags checker scriptSig scriptPubKey witness >>= fun hadWitness =>
      verifyRedeem c flags checker scriptSig scriptPubKey witness stackCopy stack hadWitness >>=
      fun p => finishSpend flags witness p.1 p.2).uses = [] := by
    refine bind_uses_nil (requireTrue_uses stack) fun _ _ => ?_
    refine bind_uses_nil (verifyBareWitness_uses_nil fun s hs => ?_) fun _ _ => ?_
    · simp only [witnessScripts, hwit] at hs
      cases hs
    · refine bind_uses_nil ?_ fun _ _ => finishSpend_uses
      unfold verifyRedeem
      rw [hp2sh, if_neg (by simp)]
      rfl
  simp only [evalScript_uses_nil _ _ _ hsig, nil_append]
  exact (congrArg _ hrest).trans (append_nil _)

end Uses

end AssentianPQE
