import AssentianPQE.Proofs.SureSpend

/-!
# `AssentianPQE.Proofs.SignAgain`: `::SignTransaction` on signed inputs

`SignTransaction` leaves an input alone that `DataFromTransaction` finds complete. Its checker
refuses every XMSS signature, so on no network is an input complete that needs one: the input is
signed again with another leaf, or its script is wiped.

* `incomplete_of_template`: an input that spends one of the two templates is never complete.
* `signInputs_stuck`: without a claim, an XMSS input that is not complete ends with an empty
  script and an error.
* `signTransaction_eq_pure`: a call with no such input does nothing but test its inputs.
* `harmless_iff`: for which signed transactions a second call is harmless.
-/

set_option autoImplicit false

namespace AssentianPQE

open Lib Durable List Option Captured CXMSSSigner Std.ExtTreeMap Nat

/-! ### XMSS outputs -/

variable {script : Script}

/-- Such a script is solved as it is. -/
theorem XmssOutput.signPath (h : XmssOutput script) (c : Crypto) (i : InputData) :
    signPath c i script = ⟨script, .base, none, none⟩ := by
  rcases h.cases with ⟨key, -, hsolver, -⟩ | ⟨hash, -, hsolver, -⟩
  · exact signPath_of_solver (.inl hsolver)
  · exact signPath_of_solver (.inr hsolver)

theorem XmssOutput.xmssPubkey (h : XmssOutput script) (s : CXMSSSigner) :
    ∃ pubkey, xmssPubkey s script = some pubkey := by
  rcases h.cases with ⟨key, -, hsolver, -⟩ | ⟨hash, -, hsolver, -⟩
  · exact ⟨key, by rw [AssentianPQE.xmssPubkey, hsolver]⟩
  · exact ⟨_, by rw [AssentianPQE.xmssPubkey, hsolver]⟩

theorem xmssPubkey_eq_none (h : ¬ XmssOutput script) (s : CXMSSSigner) :
    xmssPubkey s script = none := by
  unfold xmssPubkey
  split
  · rename_i hsolver
    exact absurd (.inl (congrArg Prod.fst hsolver)) h
  · rename_i hsolver
    exact absurd (.inr (congrArg Prod.fst hsolver)) h
  · rfl

variable {c : Crypto}

section Scripts
variable {ctx : EvalContext}

/-- An operation that takes an item fails on an empty stack. -/
theorem evalOp_dup_nil {m m' : Machine} {op : ScriptOp} (hop : op.opcode = OP_DUP)
    (hexec : m.vfExec.allTrue = true) (hstack : m.stack = []) :
    (evalOp ctx m op).result ≠ .ok m' := by
  intro h
  have hopcode : ¬ op.opcode ≤ OP_PUSHDATA4 := by
    rw [hop]
    decide
  obtain ⟨m₀, m₁, hm₀, -, hrun, -⟩ := evalOp_opcode hopcode hexec h
  have hcode : Opcode.ofByte op.opcode = .dup := by
    rw [hop]
    rfl
  simp only [execOpcode, hcode, lift_result, execPlain, execStackOp, hm₀, hstack] at hrun
  cases hrun

/-- The key alone is not enough for `OP_XMSS_CHECKSIG`. -/
theorem evalOp_xmss_key {m m' : Machine} {key : Bytes} {rest : Script}
    (hexec : m.vfExec.allTrue = true) (hstack : m.stack = [key]) :
    (evalOp ctx m ⟨OP_XMSS_CHECKSIG, [], rest⟩).result ≠ .ok m' := by
  intro h
  have hopcode : ¬ OP_XMSS_CHECKSIG ≤ OP_PUSHDATA4 := by decide
  obtain ⟨m₀, m₁, hm₀, -, hrun, -⟩ := evalOp_opcode hopcode hexec h
  have hrun' : (execXmssCheckSig ctx m₀ false).result = .ok m₁ := hrun
  simp only [execXmssCheckSig, hm₀, hstack] at hrun'
  cases hrun'

variable {stack : List Bytes} {exec : ExecData}

/-- An XMSS output script fails on an empty stack, whatever follows its template. -/
theorem evalScript_xmssOutput_nil (h : XmssOutput script) :
    (evalScript ctx [] script exec).result ≠ .ok stack := by
  intro hrun
  obtain ⟨m, m', hm, hvf, hops, -⟩ := evalScript_ok hrun
  have hexec : m.vfExec.allTrue = true := by
    rw [hvf]
    rfl
  rcases h.cases with ⟨key, hlen, -, rest, rfl⟩ | ⟨hash, hlen, -, rfl⟩
  · -- The push of the key, and then the opcode.
    have hnext : getScriptOp (OP_XMSS_CHECKSIG :: rest) = some ⟨OP_XMSS_CHECKSIG, [], rest⟩ := rfl
    rw [(ops_eq (getScriptOp_p2xmssScript hlen rest)).1, (ops_eq hnext).1] at hops
    obtain ⟨m₁, hpush, hcheck⟩ := bind_result_ok hops
    obtain ⟨m₂, hcheck, -⟩ := bind_result_ok hcheck
    obtain ⟨hstack₁, hvf₁, -⟩ := evalOp_push (by decide : (64 : UInt8) ≤ OP_16) hexec hpush
    rw [hm] at hstack₁
    exact evalOp_xmss_key (by rw [hvf₁, hexec]) hstack₁ hcheck
  · rw [(xmssHashTemplate_ops hlen).1] at hops
    obtain ⟨m₁, hdup, -⟩ := bind_result_ok hops
    exact evalOp_dup_nil rfl hexec hm hdup

variable {witness : List Bytes}

/-- An XMSS output cannot be spent with an empty script. -/
theorem verifyScript_xmssOutput_nil {flags : ScriptFlags} {checker : SignatureChecker}
    (h : XmssOutput script) : (verifyScript c flags checker [] script witness).result ≠ .ok () := by
  intro hok
  unfold verifyScript at hok
  split at hok
  · cases hok
  obtain ⟨stackCopy, hcopy, hok⟩ := bind_result_ok hok
  obtain ⟨stack, hstack, -⟩ := bind_result_ok hok
  have hops : ops [] = [] := rfl
  have hnil := evalScript_pushOnly (by simp [hops]) hcopy
  rw [hops] at hnil
  rw [hnil] at hstack
  exact evalScript_xmssOutput_nil h hstack

/-- The P2XMSSHASH script leaves true only if the checker accepted a signature. -/
theorem evalScript_hashTemplate_verified {hash : Bytes} {top : Bytes} {rest : List Bytes}
    (hhash : hash.length = 20)
    (h : (evalScript ctx stack (xmssHashTemplate hash) exec).result = .ok (top :: rest))
    (htrue : castToBool top = true) :
    ∃ sig pk code, ctx.checker.checkXMSSSignature sig pk code ctx.sigversion = true := by
  obtain ⟨m, m', rfl, hvf, hops, htop, -, -⟩ := evalScript_ok h
  have hexec : m.vfExec.allTrue = true := by
    rw [hvf]
    rfl
  rw [(xmssHashTemplate_ops hhash).1] at hops
  obtain ⟨m₁, hkey, hxmss, -⟩ := evalOps_append hops
  obtain ⟨-, hvf₁⟩ := evalOps_keyHash hexec hkey
  obtain ⟨pk, -, sig, -, hok⟩ := evalOps_xmss_verified (by rw [hvf₁, hexec]) hxmss htop htrue
  exact ⟨sig, pk, _, hok⟩

/-- A template is not satisfied under a checker that refuses every XMSS signature. -/
theorem verifyScript_template_refused {flags : ScriptFlags} {checker : SignatureChecker}
    {scriptSig : Script} (htemplate : (∃ key, key.length = 64 ∧ script = xmssTemplate key) ∨
      ∃ hash, hash.length = 20 ∧ script = xmssHashTemplate hash) :
    (verifyScript c flags checker.withoutXmss scriptSig script witness).result ≠ .ok () := by
  intro hok
  unfold verifyScript at hok
  split at hok
  · cases hok
  obtain ⟨stackCopy, -, hok⟩ := bind_result_ok hok
  obtain ⟨stack, hstack, hok⟩ := bind_result_ok hok
  obtain ⟨_, htrue, -⟩ := bind_result_ok hok
  unfold requireTrue at htrue
  split at htrue
  · cases htrue
  rename_i top rest
  split at htrue
  · rename_i hcast
    rcases htemplate with ⟨key, hlen, rfl⟩ | ⟨hash, hlen, rfl⟩
    · rw [xmssTemplate, template_eq_p2xmssScript hlen] at hstack
      obtain ⟨sig, haccept⟩ := evalScript_template_verified hlen hstack hcast
      cases haccept
    · obtain ⟨sig, pk, code, haccept⟩ := evalScript_hashTemplate_verified hlen hstack hcast
      cases haccept
  · cases htrue

end Scripts

/-- The process dies when it is about to claim a leaf. -/
def SignEnv.dyingAtClaim (env : SignEnv) : SignEnv :=
  { env with others := Function.update env.others 2 fun d _ => (d, none) }

namespace SignCall

variable {n : Nat} {txin : TxIn} {out : TxOut}

/-- An input that spends one of the two templates is never complete, on any network. -/
theorem incomplete_of_template {a : SignCall}
    (htemplate : (∃ key, key.length = 64 ∧ out.scriptPubKey = xmssTemplate key) ∨
      ∃ hash, hash.length = 20 ∧ out.scriptPubKey = xmssHashTemplate hash) :
    a.complete c n txin out = false := by
  rw [complete, ← Bool.not_eq_true]
  intro hok
  obtain ⟨_, hresult⟩ := isOk_iff.mp hok
  exact verifyScript_template_refused htemplate hresult

/-- With an empty script an XMSS input is not complete, and it has an error. -/
theorem incomplete_of_nil {a : SignCall} {c : Crypto} {n : Nat} {txin : TxIn} {out : TxOut}
    (hxmss : XmssOutput out.scriptPubKey) (hscript : txin.scriptSig = []) :
    a.complete c n txin out = false ∧ a.checkInput c n txin out ≠ none := by
  constructor
  · rw [complete, ← Bool.not_eq_true, hscript]
    intro hok
    obtain ⟨_, hresult⟩ := isOk_iff.mp hok
    exact verifyScript_xmssOutput_nil hxmss hresult
  · unfold checkInput
    rw [hscript]
    split
    · exact some_ne_none _
    · split
      · rename_i hresult
        exact absurd hresult (verifyScript_xmssOutput_nil hxmss)
      · exact some_ne_none _

/-! ### Calls without a claim -/

/-- `SignXMSS` never returns a signature: it has no key, or the process does not live to claim a
leaf. -/
def NoSignature (a : SignCall) (x : XmssKeys) (s : CXMSSSigner) : Prop :=
  ∀ (n : Nat) (hash : Uint256) (pubkey : Bytes) (d d' : LedgerDir) (m m' : Nat)
    (out : Option (Bytes × UInt32)) (s' : CXMSSSigner),
    s.signXMSS x (a.env n) hash pubkey d m = (d', some ((out, s'), m')) → out = none ∧ s' = s

@[inherit_doc SignEnv.dyingAtClaim]
def dyingAtClaim (a : SignCall) : SignCall :=
  { a with env := fun n => (a.env n).dyingAtClaim }

variable {vin : List TxIn}

section NoSignature
variable {a : SignCall} {c : Crypto} {x : XmssKeys} {s s' : CXMSSSigner} {n m m' : Nat}
  {txin : TxIn} {out : TxOut} {d d' : LedgerDir} {solution : Script × List Bytes}

theorem noSignature_empty : a.NoSignature x empty := by
  intro n hash pubkey d d' m m' out s' h
  have hnone : empty.xmssKeys[pubkey]? = none := getElem?_empty
  unfold signXMSS at h
  rw [hnone] at h
  cases h
  exact ⟨rfl, rfl⟩

theorem noSignature_dyingAtClaim : a.dyingAtClaim.NoSignature x s := by
  intro n hash pubkey d d' m m' out s' h
  unfold signXMSS at h
  cases hentry : s.xmssKeys[pubkey]? with
  | none =>
    rw [hentry] at h
    cases h
    exact ⟨rfl, rfl⟩
  | some entry =>
    rw [hentry] at h
    dsimp only at h
    split at h
    · cases h
      exact ⟨rfl, rfl⟩
    split at h
    · cases h
      exact ⟨rfl, rfl⟩
    obtain ⟨d₁, ok, m₁, -, hclaim⟩ := bind_eq_some h
    cases ok with
    | false =>
      cases hclaim
      exact ⟨rfl, rfl⟩
    | true =>
      obtain ⟨d₂, u, m₂, hdies, -⟩ := bind_eq_some hclaim
      cases hdies

/-- `SignStep` then has no solution. -/
theorem signStep_noSignature (hno : a.NoSignature x s) {chainId : UInt32} {t : TxContext}
    {pubkey : Bytes} {sigversion : SigVersion} {items : Option (List Bytes)}
    (h : signStep c x (a.env n) chainId t pubkey script sigversion s d m =
      (d', some ((items, s'), m'))) : items = none ∧ s' = s := by
  unfold signStep at h
  split at h
  · cases h
    exact ⟨rfl, rfl⟩
  obtain ⟨d₁, ⟨sig, sigdata, s₁⟩, m₁, hcreate, hitems⟩ := bind_eq_some h
  unfold createXMSSSig at hcreate
  rw [getElem?_empty] at hcreate
  obtain ⟨d₂, leafIndex, m₂, -, hread⟩ := bind_eq_some hcreate
  obtain ⟨d₃, u, m₃, -, hothers⟩ := bind_eq_some hread
  obtain ⟨d₄, ⟨out, s₂⟩, m₄, hsign, hnone⟩ := bind_eq_some hothers
  obtain ⟨rfl, rfl⟩ := hno _ _ _ _ _ _ _ _ _ hsign
  cases hnone
  cases hitems
  exact ⟨rfl, rfl⟩

/-- An input leaves the signer as it is, and an XMSS input that is not complete is wiped. -/
theorem solveInput_noSignature (hno : a.NoSignature x s)
    (h : a.solveInput c x n txin out s d m = (d', some ((solution, s'), m'))) :
    s' = s ∧ (XmssOutput out.scriptPubKey → a.signs n = true → a.complete c n txin out = false →
      solution = ([], [])) := by
  unfold solveInput at h
  split at h
  · rename_i hskip
    cases h
    refine ⟨rfl, fun _ hsigns hcomplete => ?_⟩
    rw [hsigns, hcomplete] at hskip
    cases hskip
  · unfold produceSignature at h
    dsimp only at h
    cases hkey : xmssPubkey s (signPath c (a.data n) out.scriptPubKey).script with
    | none =>
      rw [hkey] at h
      cases h
      refine ⟨rfl, fun hxmss _ _ => ?_⟩
      rw [hxmss.signPath] at hkey
      obtain ⟨pubkey, hsome⟩ := hxmss.xmssPubkey s
      rw [hsome] at hkey
      cases hkey
    | some pubkey =>
      rw [hkey] at h
      obtain ⟨d₁, ⟨items, s₁⟩, m₁, hstep, hwrap⟩ := bind_eq_some h
      obtain ⟨rfl, rfl⟩ := signStep_noSignature hno hstep
      cases hwrap
      refine ⟨rfl, fun hxmss _ _ => ?_⟩
      rw [hxmss.signPath]
      rfl

/-- The inputs that are stuck: without a claim they end with an empty script and an error. -/
theorem signInputs_stuck (hno : a.NoSignature x s) :
    ∀ {n m m' : Nat} {d d' : LedgerDir} {s' : CXMSSSigner} {vin' : List TxIn}
      {errors : List (Nat × InputError)},
      a.signInputs c x n vin s d m = (d', some (((vin', errors), s'), m')) →
      ∀ (i : Nat) (txin : TxIn) (out : TxOut), vin[i]? = some txin →
        a.coins txin.prevout = some out → XmssOutput out.scriptPubKey → a.signs (n + i) = true →
        a.complete c (n + i) txin out = false →
        errors ≠ [] ∧
          vin'[i]? = some { txin with scriptSig := [], scriptWitness := [] } := by
  induction vin with
  | nil =>
    intro n m m' d d' s' vin' errors _ i txin out hget
    cases hget
  | cons first rest ih =>
    intro n m m' d d' s' vin' errors h i txin out hget hcoin hxmss hsigns hcomplete
    -- The inputs after the first one, at their own positions.
    have hrest : ∀ {m m' : Nat} {d d' : LedgerDir} {s' : CXMSSSigner} {vin₁ : List TxIn}
        {errors₁ : List (Nat × InputError)} {j : Nat}, i = j + 1 →
        a.signInputs c x (n + 1) rest s d m = (d', some (((vin₁, errors₁), s'), m')) →
        errors₁ ≠ [] ∧ vin₁[j]? = some { txin with scriptSig := [], scriptWitness := [] } := by
      intro m m' d d' s' vin₁ errors₁ j hi hrun
      subst hi
      have hadd : n + (j + 1) = n + 1 + j := by omega
      rw [hadd] at hsigns hcomplete
      exact ih hrun j txin out hget hcoin hxmss hsigns hcomplete
    unfold signInputs at h
    cases hfirst : a.coins first.prevout with
    | none =>
      rw [hfirst] at h
      obtain ⟨d₁, ⟨⟨vin₁, errors₁⟩, s₁⟩, m₁, hrun, hend⟩ := bind_eq_some h
      cases hend
      cases i with
      | zero =>
        cases hget
        rw [hcoin] at hfirst
        cases hfirst
      | succ j => exact ⟨cons_ne_nil _ _, (hrest rfl hrun).2⟩
    | some spent =>
      rw [hfirst] at h
      obtain ⟨d₁, ⟨⟨scriptSig, witness⟩, s₁⟩, m₁, hsolve, hafter⟩ := bind_eq_some h
      obtain ⟨d₂, ⟨⟨vin₁, errors₁⟩, s₂⟩, m₂, hrun, hend⟩ := bind_eq_some hafter
      obtain ⟨rfl, hwiped⟩ := solveInput_noSignature hno hsolve
      cases hend
      cases i with
      | zero =>
        cases hget
        rw [hcoin] at hfirst
        cases hfirst
        cases hwiped hxmss hsigns hcomplete
        refine ⟨fun hnil => ?_, rfl⟩
        have herror := (@incomplete_of_nil a c n { first with scriptSig := [], scriptWitness := [] }
          out hxmss rfl).2
        rw [append_eq_nil_iff, toList_eq_nil_iff, map_eq_none_iff] at hnil
        exact herror hnil.1
      | succ j =>
        obtain ⟨herrors, hget'⟩ := hrest rfl hrun
        exact ⟨fun hnil => herrors (append_eq_nil_iff.mp hnil).2, hget'⟩

end NoSignature

/-! ### Inputs that stay as they are -/

/-- `VerifyScript` accepts an input under the chain id of the call. -/
def Verifies (a : SignCall) (c : Crypto) (n : Nat) (txin : TxIn) (out : TxOut) : Prop :=
  (verifyScript c standardScriptVerifyFlags (a.checker c n txin out) txin.scriptSig
    out.scriptPubKey txin.scriptWitness).result = .ok ()

/-- The errors of the inputs as they are, from position `n` on. -/
def inputErrors (a : SignCall) (c : Crypto) : Nat → List TxIn → List (Nat × InputError)
  | _, [] => []
  | n, txin :: rest =>
    (match a.coins txin.prevout with
      | none => [(n, .notFound)]
      | some out => ((a.checkInput c n txin out).map (n, ·)).toList) ++ a.inputErrors c (n + 1) rest

/-- An input of the transaction, and the output that it spends. -/
def Spends (a : SignCall) (n : Nat) (txin : TxIn) (out : TxOut) : Prop :=
  a.tx.vin[n]? = some txin ∧ a.coins txin.prevout = some out

/-- Every input has a coin and verifies. -/
def Signed (a : SignCall) (c : Crypto) : Prop :=
  ∀ n txin, a.tx.vin[n]? = some txin → ∃ out, a.coins txin.prevout = some out ∧
    a.Verifies c n txin out

/-- Other outputs than XMSS ones: there is no XMSS template inside them, and what the provider
makes for an input that it takes for unsigned is what is in it already. -/
def OthersKept (a : SignCall) (c : Crypto) : Prop :=
  ∀ n txin out, a.Spends n txin out → ¬ XmssOutput out.scriptPubKey →
    a.complete c n txin out = false →
    ¬ XmssOutput (signPath c (a.data n) out.scriptPubKey).script ∧
      (a.data n).classical = (txin.scriptSig, txin.scriptWitness)

/-- The XMSS inputs that would be signed verify with every XMSS signature refused. -/
def NeedsNoXmss (a : SignCall) (c : Crypto) : Prop :=
  ∀ n txin out, a.Spends n txin out → XmssOutput out.scriptPubKey → a.signs n = true →
    a.complete c n txin out = true

/-- No input with a witness spends an output of the amount that stands for a missing one. -/
def AmountsKnown (a : SignCall) : Prop :=
  ∀ n txin out, a.Spends n txin out →
    ¬ (out.nValue.toInt = MAX_MONEY ∧ txin.scriptWitness ≠ [])

section Kept
variable {a : SignCall} {c : Crypto} {x : XmssKeys} {s : CXMSSSigner}

theorem checkInput_eq_none_iff :
    a.checkInput c n txin out = none ↔
      ¬ (out.nValue.toInt = MAX_MONEY ∧ txin.scriptWitness ≠ []) ∧ a.Verifies c n txin out := by
  unfold checkInput Verifies
  split
  · rename_i hmissing
    exact ⟨nofun, fun h => absurd hmissing h.1⟩
  rename_i hknown
  split
  · rename_i hok
    exact ⟨fun _ => ⟨hknown, hok⟩, fun _ => rfl⟩
  · rename_i e herror
    refine ⟨nofun, fun h => ?_⟩
    rw [herror] at h
    exact nomatch h.2

theorem inputErrors_eq_nil_iff : ∀ {n : Nat},
    a.inputErrors c n vin = [] ↔ ∀ i txin, vin[i]? = some txin →
      ∃ out, a.coins txin.prevout = some out ∧ a.checkInput c (n + i) txin out = none := by
  induction vin with
  | nil =>
    intro n
    simp [inputErrors]
  | cons first rest ih =>
    intro n
    unfold inputErrors
    rw [append_eq_nil_iff, ih]
    have hshift (i : Nat) : n + 1 + i = n + (i + 1) := by omega
    -- The first input, and then those after it.
    constructor
    · intro ⟨hfirst, hrest⟩ i txin hget
      cases i with
      | zero =>
        cases hget
        cases hcoin : a.coins first.prevout with
        | none =>
          rw [hcoin] at hfirst
          cases hfirst
        | some out =>
          rw [hcoin] at hfirst
          rw [toList_eq_nil_iff, map_eq_none_iff] at hfirst
          exact ⟨out, rfl, hfirst⟩
      | succ i =>
        rw [← hshift]
        exact hrest i txin hget
    · intro h
      refine ⟨?_, fun i txin hget => ?_⟩
      · obtain ⟨out, hcoin, hcheck⟩ := h 0 first rfl
        have hcheck' : a.checkInput c n first out = none := hcheck
        rw [hcoin]
        dsimp only
        rw [hcheck']
        rfl
      · rw [hshift]
        exact h (i + 1) txin hget

/-- An input that is complete, is not signed, or has no XMSS key. -/
theorem solveInput_kept (hneeds : a.NeedsNoXmss c) (hothers : a.OthersKept c)
    (hspends : a.Spends n txin out) :
    a.solveInput c x n txin out s = pure ((txin.scriptSig, txin.scriptWitness), s) := by
  unfold solveInput
  split
  · rfl
  rename_i hskip
  have hcomplete : a.complete c n txin out = false := by
    cases h : a.complete c n txin out
    · rfl
    · simp [h] at hskip
  have hsigns : a.signs n = true := by
    cases h : a.signs n
    · simp [h] at hskip
    · rfl
  by_cases hxmss : XmssOutput out.scriptPubKey
  · rw [hneeds n txin out hspends hxmss hsigns] at hcomplete
    cases hcomplete
  obtain ⟨hpath, hclassical⟩ := hothers n txin out hspends hxmss hcomplete
  unfold produceSignature
  dsimp only
  rw [xmssPubkey_eq_none hpath]
  dsimp only
  rw [hclassical]

theorem signInputs_kept {vin : List TxIn} : ∀ {n : Nat},
    (∀ i txin out, vin[i]? = some txin → a.coins txin.prevout = some out →
      a.solveInput c x (n + i) txin out s = pure ((txin.scriptSig, txin.scriptWitness), s)) →
    a.signInputs c x n vin s = pure ((vin, a.inputErrors c n vin), s) := by
  induction vin with
  | nil =>
    intro n _
    rfl
  | cons first rest ih =>
    intro n hkept
    have hrest := @ih (n + 1) fun i txin out hget hcoin => by
      have hadd : n + 1 + i = n + (i + 1) := by omega
      rw [hadd]
      exact hkept (i + 1) txin out hget hcoin
    unfold signInputs inputErrors
    cases hcoin : a.coins first.prevout with
    | none =>
      dsimp only
      rw [hrest]
      rfl
    | some out =>
      have hfirst : a.solveInput c x n first out s =
          pure ((first.scriptSig, first.scriptWitness), s) := hkept 0 first out rfl hcoin
      dsimp only
      rw [hfirst, Durable.pure_bind]
      dsimp only
      rw [hrest]
      rfl

/-- A call that has nothing to sign does nothing but test the inputs. -/
theorem signTransaction_eq_pure (hneeds : a.NeedsNoXmss c) (hothers : a.OthersKept c) :
    a.signTransaction c x s = pure ((a.tx, a.inputErrors c 0 a.tx.vin), s) := by
  have hinputs := @signInputs_kept a c x s a.tx.vin 0 fun i txin out hget hcoin => by
    rw [zero_add]
    exact solveInput_kept hneeds hothers ⟨hget, hcoin⟩
  unfold signTransaction
  rw [hinputs]
  rfl

end Kept

/-! ### A second call of `::SignTransaction` -/

/-- The call returns true, leaves the transaction and the keys as they are, and claims no leaf: it
does the same when the process would not survive a claim. -/
structure Harmless (a : SignCall) (c : Crypto) (x : XmssKeys) (s : CXMSSSigner) (d : LedgerDir) :
    Prop where
  returns : ∃ d', (a.signTransaction c x s).Returns d d' ((a.tx, []), s)
  noClaim : ∃ d', (a.dyingAtClaim.signTransaction c x s).Returns d d' ((a.tx, []), s)

section Harmless
variable {a : SignCall} {c : Crypto} {x : XmssKeys} {s s' : CXMSSSigner} {d d' : LedgerDir}

/-- A transaction with an XMSS input to sign is not completed without a claim, and the
transaction that is left has such an input too. -/
theorem signTransaction_stuck (hno : a.NoSignature x s) {tx : Transaction}
    {errors : List (Nat × InputError)} {m m' : Nat} (hneeds : ¬ a.NeedsNoXmss c)
    (h : a.signTransaction c x s d m = (d', some (((tx, errors), s'), m'))) :
    errors ≠ [] ∧ ¬ { a with tx := tx }.NeedsNoXmss c := by
  unfold NeedsNoXmss at hneeds
  push Not at hneeds
  obtain ⟨n, txin, out, hspends, hxmss, hsigns, hcomplete⟩ := hneeds
  obtain ⟨d₁, ⟨⟨vin, errors₁⟩, s₁⟩, m₁, hinputs, hend⟩ := bind_eq_some h
  cases hend
  rw [← zero_add n] at hsigns hcomplete
  obtain ⟨herrors, hget⟩ := signInputs_stuck hno hinputs n txin out hspends.1 hspends.2 hxmss
    hsigns (Bool.eq_false_iff.mpr hcomplete)
  refine ⟨herrors, fun hneeds => ?_⟩
  rw [zero_add] at hsigns
  have hdone := hneeds n _ out ⟨hget, hspends.2⟩ hxmss hsigns
  rw [(incomplete_of_nil hxmss rfl).1] at hdone
  cases hdone

/-- The errors of a signed transaction are missing amounts. -/
theorem inputErrors_eq_nil_iff_amounts (hsigned : a.Signed c) :
    a.inputErrors c 0 a.tx.vin = [] ↔ a.AmountsKnown := by
  rw [inputErrors_eq_nil_iff]
  constructor
  · intro h n txin out hspends
    obtain ⟨out', hcoin, hcheck⟩ := h n txin hspends.1
    obtain rfl : out = out' := Option.some.inj (hspends.2.symm.trans hcoin)
    exact (checkInput_eq_none_iff.mp hcheck).1
  · intro h n txin hget
    obtain ⟨out, hcoin, hverifies⟩ := hsigned n txin hget
    rw [zero_add]
    exact ⟨out, hcoin, checkInput_eq_none_iff.mpr ⟨h n txin out ⟨hget, hcoin⟩, hverifies⟩⟩

/-- A harmless call has nothing to sign. -/
theorem Harmless.needsNoXmss (h : a.Harmless c x s d) : a.NeedsNoXmss c := by
  obtain ⟨d₁, n, hrun⟩ := h.noClaim
  by_contra hneeds
  exact (@signTransaction_stuck a.dyingAtClaim c x s s d d₁ noSignature_dyingAtClaim a.tx [] _ _
    hneeds (hrun 0)).1 rfl

theorem harmless_iff (hsigned : a.Signed c) (hothers : a.OthersKept c) :
    a.Harmless c x s d ↔ a.NeedsNoXmss c ∧ a.AmountsKnown := by
  constructor
  · intro hharmless
    have hneeds := hharmless.needsNoXmss
    obtain ⟨d₁, hreturns⟩ := hharmless.returns
    refine ⟨hneeds, (inputErrors_eq_nil_iff_amounts hsigned).mp ?_⟩
    rw [signTransaction_eq_pure hneeds hothers] at hreturns
    have hend := (Durable.Returns.unique (returns_pure d _) hreturns).2
    exact congrArg (fun r => r.1.2) hend
  · intro ⟨hneeds, hamounts⟩
    refine ⟨⟨d, ?_⟩, ⟨d, ?_⟩⟩
    · rw [signTransaction_eq_pure hneeds hothers,
        (inputErrors_eq_nil_iff_amounts hsigned).mpr hamounts]
      exact returns_pure d _
    · -- The conditions do not depend on what happens in a claim.
      rw [@signTransaction_eq_pure a.dyingAtClaim c x s hneeds hothers,
        (@inputErrors_eq_nil_iff_amounts a.dyingAtClaim c hsigned).mpr hamounts]
      exact returns_pure d _

/-- A transaction that spends a template needs an XMSS signature. -/
theorem not_needsNoXmss_of_template (hspends : a.Spends n txin out) (hsigns : a.signs n = true)
    {key : Bytes} (hlen : key.length = 64) (hscript : out.scriptPubKey = xmssTemplate key) :
    ¬ a.NeedsNoXmss c := by
  intro hneeds
  have hxmss : XmssOutput out.scriptPubKey := by
    rw [hscript]
    exact .inl (congrArg Prod.fst (solver_xmssTemplate hlen))
  have hcomplete := hneeds n txin out hspends hxmss hsigns
  rw [incomplete_of_template (.inl ⟨key, hlen, hscript⟩)] at hcomplete
  cases hcomplete

end Harmless

end SignCall

end AssentianPQE
