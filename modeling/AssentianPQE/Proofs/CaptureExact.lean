import AssentianPQE.Script.Capture

/-!
# `AssentianPQE.Proofs.CaptureExact`: the captured leaves are those of the calls that succeed

* `evalScript_uses`: the leaves that `EvalScript` records are those of its successful calls of
  `CheckXMSSSignature`, in order.
* `Records`: a run on the caller's list does what its counterpart in `Script/Verify` does. The
  relation is closed under sequencing, so it goes through every early return.
* `verifyScriptXMSSCapture_exact`: the list that is appended, for every spend and whatever the
  result, and the result itself.
-/

set_option autoImplicit false

namespace AssentianPQE

open Lib List Captured

/-! ### The loop of `EvalScript` -/

variable (ctx : EvalContext) (m : Machine)

/-- The XMSS opcodes record the leaf of the call they make. -/
theorem execXmssCheckSig_uses (verify : Bool) :
    (execXmssCheckSig ctx m verify).uses = ((xmssCall ctx m).bind XmssCall.use).toList := by
  unfold execXmssCheckSig xmssCall
  match m.stack with
  | [] => rfl
  | [pubkey] =>
    -- One item: the source returns an error, and there is no chunk.
    have hzero : countChunks [] XMSS_MAX_CHUNKS 0 = 0 := rfl
    simp [hzero]
  | pubkey :: item :: rest =>
    by_cases hkey : pubkey.length = 64
    · by_cases hzero : countChunks (item :: rest) XMSS_MAX_CHUNKS 0 = 0
      · simp [hkey, hzero]
      · simp only [hkey, ne_eq, not_true_eq_false, hzero, or_self, if_false, Option.bind_some,
          XmssCall.use, leafIndexOf]
        split <;> rfl
    · simp [hkey]

/-- The XMSS opcodes are executed where every branch is taken. -/
theorem execOp_uses_xmss {op : ScriptOp} (hop : isXmssOp op = true) :
    (execOp ctx m op).uses =
      if m.vfExec.allTrue then ((xmssCall ctx m).bind XmssCall.use).toList else [] := by
  simp only [isXmssOp, decide_eq_true_eq] at hop
  have hcode : ∃ verify, Opcode.ofByte op.opcode = .xmssCheckSig verify := by
    rcases hop with h | h
    · exact ⟨false, by rw [h]; rfl⟩
    · exact ⟨true, by rw [h]; rfl⟩
  have hpush : ¬ op.opcode ≤ OP_PUSHDATA4 := by
    rcases hop with h | h <;> rw [h] <;> decide
  have hcond : ¬ (OP_IF ≤ op.opcode ∧ op.opcode ≤ OP_ENDIF) := by
    rcases hop with h | h <;> rw [h] <;> decide
  obtain ⟨verify, hverify⟩ := hcode
  unfold execOp
  cases hexec : m.vfExec.allTrue with
  | true =>
    simp only [hpush, and_false, if_false, true_or, if_true, execOpcode, hverify]
    exact execXmssCheckSig_uses ctx m verify
  | false => simp [hcond]

/-- One turn of the loop records the leaf of the call it makes. -/
theorem evalOp_uses (op : ScriptOp) :
    (evalOp ctx m op).uses = ((opCall ctx m op).bind XmssCall.use).toList := by
  unfold opCall
  cases hcheck : checkOp ctx m op with
  | error e =>
    have hlift : (Captured.lift (checkOp ctx m op)).result = .error e := hcheck
    rw [evalOp, bind_error hlift]
    rfl
  | ok nOpCount =>
    have hlift : (Captured.lift (checkOp ctx m op)).result = .ok nOpCount := hcheck
    have hcall : xmssCall ctx { m with nOpCount := nOpCount } = xmssCall ctx m := rfl
    cases hop : isXmssOp op with
    | false =>
      rw [evalOp_uses_nil ctx m hop]
      simp
    | true =>
      rw [evalOp, bind_ok hlift]
      show [] ++ (execOp ctx { m with nOpCount := nOpCount } op >>= fun m =>
        Captured.lift (finishOp m)).uses = _
      rw [nil_append, bind_uses_of_nil fun _ => rfl, execOp_uses_xmss ctx _ hop, hcall]
      cases m.vfExec.allTrue <;> simp

/-- The loop records the leaves of its calls. -/
theorem evalOps_uses {ops : List ScriptOp} :
    ∀ m : Machine, (evalOps ctx ops m).uses = (opsCalls ctx ops m).filterMap XmssCall.use := by
  induction ops with
  | nil => exact fun _ => rfl
  | cons op ops ih =>
    intro m
    have hone : (opCall ctx m op).toList.filterMap XmssCall.use = (evalOp ctx m op).uses := by
      rw [evalOp_uses]
      cases opCall ctx m op with
      | none => rfl
      | some call => cases hc : call.use <;> simp [hc]
    rw [opsCalls, filterMap_append, hone]
    show (evalOp ctx m op >>= evalOps ctx ops).uses = _
    cases hres : (evalOp ctx m op).result with
    | error e => simp [bind_error hres]
    | ok m' =>
      rw [bind_ok hres]
      exact congrArg _ (ih m')

variable (stack : List Bytes) (script : Script) (exec : ExecData)

/-- `EvalScript` records the leaves of its calls, whatever its result. -/
theorem evalScript_uses :
    (evalScript ctx stack script exec).uses =
      (scriptCalls ctx stack script exec).filterMap XmssCall.use := by
  unfold evalScript scriptCalls
  split
  · rfl
  rw [← evalOps_uses]
  refine bind_uses_of_nil fun m => ?_
  split
  · rfl
  · split <;> rfl

/-! ### Runs on the caller's list -/

/-- A run on the caller's list does what `y` does: it has the same result, it appends what `y`
records, and what it appends are the leaves of the calls it logs. -/
def Records {α : Type} (x : VerifyM α) (y : Captured α) : Prop :=
  ∃ calls : List XmssCall, y.uses = calls.filterMap XmssCall.use ∧
    ∀ s : CaptureState, x.run s = (y.result, ⟨s.out.map (· ++ y.uses), s.calls ++ calls⟩)

namespace Records

variable {α β : Type}

variable {y : Captured α}

/-- A run that does nothing but return. -/
theorem of_eq {x : VerifyM α} (huses : y.uses = [])
    (hrun : ∀ s : CaptureState, x.run s = (y.result, s)) : Records x y := by
  refine ⟨[], huses, fun s => ?_⟩
  have hout : s.out.map (· ++ ([] : XMSSLeafUses)) = s.out := by
    cases s.out <;> simp
  rw [hrun, huses, hout, append_nil]

theorem pure (a : α) : Records (Pure.pure a : VerifyM α) (Pure.pure a) :=
  of_eq rfl fun _ => rfl

theorem throw (e : ScriptError) : Records (MonadExcept.throw e : VerifyM α) (.fail e) :=
  of_eq rfl fun _ => rfl

/-- The state after a sequence of runs. -/
theorem run_bind (x : VerifyM α) (f : α → VerifyM β) (s : CaptureState) :
    (x >>= f).run s = match x.run s with
      | (.ok a, s') => (f a).run s'
      | (.error e, s') => (.error e, s') := by
  rw [ExceptT.run_bind]
  show StateT.bind x.run _ s = _
  unfold StateT.bind
  show (match x.run s with | (r, s') => _) = _
  cases x.run s with
  | mk r s' => cases r <;> rfl

/-- Two runs in sequence. If the first one fails, its list is the final one. -/
theorem bind {x : VerifyM α} {f : α → VerifyM β} {g : α → Captured β} (hx : Records x y)
    (hf : ∀ a, Records (f a) (g a)) : Records (x >>= f) (y >>= g) := by
  obtain ⟨calls, huses, hrun⟩ := hx
  cases hres : y.result with
  | error e =>
    rw [bind_error hres]
    refine ⟨calls, huses, fun s => ?_⟩
    rw [run_bind, hrun s, hres]
  | ok a =>
    obtain ⟨calls', huses', hrun'⟩ := hf a
    rw [bind_ok hres]
    refine ⟨calls ++ calls', ?_, fun s => ?_⟩
    · rw [filterMap_append, ← huses, ← huses']
    · rw [run_bind, hrun s, hres]
      show (f a).run _ = _
      rw [hrun']
      cases s.out <;> simp

/-- An evaluation. -/
theorem evalCaptured :
    Records (evalCaptured ctx stack script exec) (evalScript ctx stack script exec) := by
  refine ⟨scriptCalls ctx stack script exec, evalScript_uses ctx stack script exec, fun s => ?_⟩
  unfold AssentianPQE.evalCaptured
  rw [run_bind]
  cases hres : (evalScript ctx stack script exec).result with
  | error e => rfl
  | ok stack' => rfl

end Records

/-! ### The three functions -/

section Spends
variable {c : Crypto} {flags : ScriptFlags} {checker : SignatureChecker}

theorem records_checkTop : Records (checkTop stack) (requireTrue stack) := by
  cases stack with
  | nil => exact .throw _
  | cons top rest =>
    unfold checkTop requireTrue
    simp only
    split
    · exact .pure ()
    · exact .throw _

theorem records_runWitnessScript :
    Records (runWitnessScriptCaptured ctx stack script exec)
      (runWitnessScript ctx stack script exec) := by
  unfold runWitnessScriptCaptured runWitnessScript
  split
  · exact .throw _
  refine .bind (.evalCaptured ctx stack script exec) fun stack' => ?_
  match stack' with
  | [] => exact .throw _
  | [top] =>
    simp only
    split
    · exact .pure ()
    · exact .throw _
  | _ :: _ :: _ => exact .throw _

theorem records_executeWitnessScript :
    Records (executeWitnessScriptCaptured ctx stack script exec)
      (executeWitnessScript ctx stack script exec) := by
  unfold executeWitnessScriptCaptured executeWitnessScript
  split
  · exact records_runWitnessScript ctx stack script exec
  cases scanOpSuccess script with
  | badOpcode => exact .throw _
  | found =>
    simp only
    split
    · exact .throw _
    · exact .pure ()
  | clean =>
    simp only
    split
    · exact .throw _
    · exact records_runWitnessScript ctx stack script exec

variable (witness : List Bytes)

theorem records_verifyTaproot (program : Bytes) :
    Records (verifyTaprootCaptured c flags checker witness program)
      (verifyTaproot c flags checker witness program) := by
  unfold verifyTaprootCaptured verifyTaproot
  split
  · exact .pure ()
  cases witness with
  | nil => exact .throw _
  | cons last rest =>
    simp only
    generalize (if (decide (rest ≠ [] ∧ last.head? = some ANNEX_TAG)) = true then rest
      else last :: rest) = stack
    -- A spend by the key has at most one item, and one by a script has at least two.
    rcases stack with _ | ⟨control, _ | ⟨script, stack⟩⟩
    · simp only
      generalize checker.checkSchnorrSignature _ _ _ _ = error
      cases error with
      | some e => exact .throw e
      | none => exact .pure ()
    · simp only
      generalize checker.checkSchnorrSignature _ _ _ _ = error
      cases error with
      | some e => exact .throw e
      | none => exact .pure ()
    · simp only
      split
      · exact .throw _
      split
      · exact .throw _
      split
      · exact records_executeWitnessScript _ _ _ _
      · split
        · exact .throw _
        · exact .pure ()

theorem records_verifyWitnessProgram (version : Nat) (program : Bytes) (isP2SH : Bool) :
    Records (verifyWitnessProgramCaptured c flags checker witness version program isP2SH)
      (verifyWitnessProgram c flags checker witness version program isP2SH) := by
  unfold verifyWitnessProgramCaptured verifyWitnessProgram
  simp only
  split
  · split
    · cases witness.reverse with
      | nil => exact .throw _
      | cons execScript stack =>
        simp only
        split
        · exact .throw _
        · exact records_executeWitnessScript _ _ _ _
    · split
      · split
        · exact .throw _
        · exact records_executeWitnessScript _ _ _ _
      · exact .throw _
  · split
    · exact records_verifyTaproot _ _
    · split
      · exact .throw _
      · exact .pure ()

variable (scriptSig : Script)

theorem records_verifyBareWitness (scriptPubKey : Script) (witness : List Bytes) :
    Records (verifyWitnessCaptured c flags checker scriptPubKey
        (if scriptSig ≠ [] then some .witnessMalleated else none) witness false)
      (verifyBareWitness c flags checker scriptSig scriptPubKey witness) := by
  unfold verifyWitnessCaptured verifyBareWitness
  split
  · exact .pure _
  cases isWitnessProgram scriptPubKey with
  | none => exact .pure _
  | some p =>
    simp only
    by_cases hsig : scriptSig ≠ []
    · rw [if_pos hsig, if_pos hsig]
      exact .throw _
    · rw [if_neg hsig, if_neg hsig]
      exact .bind (records_verifyWitnessProgram _ _ _ _) fun _ => .pure true

theorem records_verifyP2SHWitness (redeemScript : Script) (witness : List Bytes) :
    Records (verifyWitnessCaptured c flags checker redeemScript
        (if scriptSig ≠ pushBytes redeemScript then some .witnessMalleatedP2SH else none) witness true)
      (verifyP2SHWitness c flags checker scriptSig redeemScript witness) := by
  unfold verifyWitnessCaptured verifyP2SHWitness
  split
  · exact .pure _
  cases isWitnessProgram redeemScript with
  | none => exact .pure _
  | some p =>
    simp only
    by_cases hsig : scriptSig ≠ pushBytes redeemScript
    · rw [if_pos hsig, if_pos hsig]
      exact .throw _
    · rw [if_neg hsig, if_neg hsig]
      exact .bind (records_verifyWitnessProgram _ _ _ _) fun _ => .pure true

theorem records_verifyP2SH (stackCopy witness : List Bytes) :
    Records (verifyP2SHCaptured c flags checker scriptSig stackCopy witness)
      (verifyP2SH c flags checker scriptSig stackCopy witness) := by
  unfold verifyP2SHCaptured verifyP2SH
  split
  · exact .throw _
  cases stackCopy with
  | nil => exact .throw _
  | cons redeemScript stack =>
    exact .bind (.evalCaptured _ _ _ _) fun stack' => .bind (records_checkTop stack') fun _ =>
      .bind (records_verifyP2SHWitness _ _ _) fun hadWitness => .pure _

/-- `VerifyScriptXMSSCapture` does what `verifyScript` does. -/
theorem records_verifyScript (scriptSig scriptPubKey : Script) (witness : List Bytes) :
    Records (verifyScriptXMSSCapture c flags checker scriptSig scriptPubKey witness)
      (verifyScript c flags checker scriptSig scriptPubKey witness) := by
  unfold verifyScriptXMSSCapture verifyScript
  split
  · exact .throw _
  refine .bind (.evalCaptured _ _ _ _) fun stackCopy => ?_
  refine .bind (.evalCaptured _ _ _ _) fun stack => ?_
  refine .bind (records_checkTop stack) fun _ => ?_
  refine .bind (records_verifyBareWitness _ _ _) fun bareWitness => ?_
  refine .bind ?_ fun p => ?_
  · unfold verifyRedeemCaptured verifyRedeem
    split
    · exact .bind (records_verifyP2SH _ _ _) fun p => .pure _
    · exact .pure _
  · -- The tests on the final stack and on a witness that nothing used.
    unfold finishSpend
    simp only
    split
    · exact .throw _
    · split
      · exact .throw _
      · exact .pure ()

end Spends

end AssentianPQE
