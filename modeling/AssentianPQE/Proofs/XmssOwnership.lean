import AssentianPQE.Proofs.StaticLeaf
import AssentianPQE.SampleKeys
import AssentianPQE.Wallet.IsMine
import AssentianPQE.Wallet.SignTx

/-!
# The P2XMSS template and the outputs that the wallet counts as its own

`Solver` reads the key and the opcode of a P2XMSS script and stops. A script that goes on after
them has the same type, and what it goes on with can make it true for everyone.

`solver_eq_p2xmss_iff` says what the template matches. `p2xmss_exact_iff` is about the whole of a
script: `Solver` matches exactly the 66 bytes of the template, and an output that `IsMine` reports
through its P2XMSS branch is true only with a signature of a key that the signer has. This holds
if and only if the script does not go on after a matched prefix.
-/

set_option autoImplicit false

namespace AssentianPQE

open Lib List Std.ExtTreeMap Option

variable {key : Bytes} {script : Script} {c : Crypto} {s : CXMSSSigner}

/-! ### The template -/

/-- The scripts to which `Solver` gives the type P2XMSS. -/
theorem solver_eq_p2xmss_iff :
    solver script = (.p2xmss, [key]) ↔
      key.length = 64 ∧ ∃ rest, script = p2xmssScript key rest := by
  constructor
  · intro h
    refine matchXmss_eq_some.mp ?_
    unfold solver solveBare at h
    grind
  · rintro ⟨hkey, rest, rfl⟩
    exact solver_p2xmssScript hkey rest

/-- The script goes on after a prefix that `Solver` takes for P2XMSS. -/
def TrailingBytes (script : Script) : Prop :=
  66 < script.length ∧ script.head? = some 64 ∧ script[65]? = some OP_XMSS_CHECKSIG

/-- `Solver` matches the script exactly if it is the template of a key. -/
def SolverExact (script : Script) : Prop :=
  ∀ key : Bytes, key.length = 64 →
    (solver script = (.p2xmss, [key]) ↔ script = pushBytes key ++ [OP_XMSS_CHECKSIG])

/-- A script goes on after the matched prefix if and only if that prefix is not all of it. -/
theorem trailingBytes_iff :
    TrailingBytes script ↔
      ∃ key rest, key.length = 64 ∧ rest ≠ [] ∧ script = p2xmssScript key rest := by
  constructor
  · rintro ⟨hlen, hhead, hcode⟩
    cases script with
    | nil => cases hhead
    | cons b pc =>
      obtain rfl : b = 64 := some.inj hhead
      rw [length_cons] at hlen
      have hnext : pc[64]? = some OP_XMSS_CHECKSIG := hcode
      have hdrop : pc.drop 64 = OP_XMSS_CHECKSIG :: pc.drop 65 := by
        rw [drop_eq_getElem_cons (by omega)]
        rw [getElem?_eq_getElem (by omega)] at hnext
        rw [some.inj hnext]
      refine ⟨pc.take 64, pc.drop 65, ?_, ?_, ?_⟩
      · rw [length_take]
        omega
      · intro hnil
        have hlen' := congrArg List.length hnil
        rw [length_drop, length_nil] at hlen'
        omega
      · rw [p2xmssScript, ← hdrop, take_append_drop]
  · rintro ⟨key, rest, hkey, hrest, rfl⟩
    have hpos : 0 < rest.length := length_pos_of_ne_nil hrest
    refine ⟨?_, rfl, ?_⟩
    · simp only [p2xmssScript, length_cons, length_append, hkey]
      omega
    · show (key ++ OP_XMSS_CHECKSIG :: rest)[64]? = _
      rw [getElem?_append_right (by omega), hkey]
      rfl

theorem solverExact_iff : SolverExact script ↔ ¬ TrailingBytes script := by
  rw [trailingBytes_iff]
  constructor
  · rintro hexact ⟨key, rest, hkey, hrest, rfl⟩
    have heq := (hexact key hkey).mp (solver_p2xmssScript hkey rest)
    rw [template_eq_p2xmssScript hkey] at heq
    have hlen := congrArg List.length heq
    have hpos : 0 < rest.length := length_pos_of_ne_nil hrest
    simp only [p2xmssScript, length_cons, length_append, length_nil] at hlen
    omega
  · intro htrail key hkey
    rw [template_eq_p2xmssScript hkey, solver_eq_p2xmss_iff]
    constructor
    · rintro ⟨-, rest, rfl⟩
      by_cases hrest : rest = []
      · rw [hrest]
      · exact absurd ⟨key, rest, hkey, hrest, rfl⟩ htrail
    · rintro rfl
      exact ⟨hkey, [], rfl⟩

/-! ### What makes the template true -/

/-- The last opcode of a template leaves true only if the checker accepted a signature under the
key on the top of the stack. -/
theorem evalOps_xmss_verified {ctx : EvalContext} {m m' : Machine} {after : Script} {top : Bytes}
    {rest : List Bytes} (hexec : m.vfExec.allTrue = true)
    (h : (evalOps ctx [⟨OP_XMSS_CHECKSIG, [], after⟩] m).result = .ok m')
    (htop : m'.stack = top :: rest) (htrue : castToBool top = true) :
    ∃ pk below sig, m.stack = pk :: below ∧
      ctx.checker.checkXMSSSignature sig pk m.codeHash ctx.sigversion = true := by
  obtain ⟨m₂, hcheck, hnil⟩ := Captured.bind_result_ok h
  have hopcode : ¬ OP_XMSS_CHECKSIG ≤ OP_PUSHDATA4 := by decide
  obtain ⟨m₃, m₄, hm₃, -, hrun, -, hstack₂, -, hcode⟩ := evalOp_opcode hopcode hexec hcheck
  have htop' : m₄.stack = top :: rest := by rw [← hstack₂, ← htop, Except.ok.inj hnil]
  have hrun : (execXmssCheckSig ctx m₃ false).result = .ok m₄ := hrun
  cases hstack : m₃.stack with
  | nil =>
    simp only [execXmssCheckSig, hstack] at hrun
    cases hrun
  | cons pk below =>
    obtain ⟨-, sig, -, hok, -⟩ := execXmssCheckSig_verified hstack hrun htop' htrue
    rw [hcode] at hok
    exact ⟨pk, below, sig, hm₃.symm.trans hstack, hok⟩

/-- The template leaves true only if the checker accepted a signature under its key. -/
theorem evalScript_template_verified {ctx : EvalContext} {stack : List Bytes} {top : Bytes}
    {rest : List Bytes} {exec : ExecData} (hkey : key.length = 64)
    (h : (evalScript ctx stack (p2xmssScript key []) exec).result = .ok (top :: rest))
    (htrue : castToBool top = true) :
    ∃ sig, ctx.checker.checkXMSSSignature sig key (p2xmssScript key []) ctx.sigversion = true := by
  have hscript : p2xmssScript key [] = xmssTemplate key := (template_eq_p2xmssScript hkey).symm
  rw [hscript] at h ⊢
  obtain ⟨m, m', rfl, hvf, hops, htop, hcode, -⟩ := evalScript_ok h
  rw [(xmssTemplate_ops hkey).1] at hops
  have hexec : m.vfExec.allTrue = true := by
    rw [hvf]
    rfl
  -- The push of the key, and then the opcode.
  obtain ⟨m₁, hpush, hcheck⟩ := Captured.bind_result_ok hops
  have hsixteen : (64 : UInt8) ≤ OP_16 := by decide
  obtain ⟨hstack₁, hvf₁, hcode₁⟩ := evalOp_push hsixteen hexec hpush
  obtain ⟨pk, below, sig, hstack, hok⟩ :=
    evalOps_xmss_verified (by rw [hvf₁, hexec]) hcheck htop htrue
  rw [hstack₁] at hstack
  cases hstack
  rw [hcode₁, hcode] at hok
  exact ⟨sig, hok⟩

/-! ### The signer -/

/-- The signers that the functions of `CXMSSSigner` build: keys are added by `GenerateKey`,
`AddXMSSKey` and `LoadState`, and `SignXMSS` retires them. -/
inductive CXMSSSigner.Built (c : Crypto) : CXMSSSigner → Prop where
  | empty : Built c CXMSSSigner.empty
  | insert {s : CXMSSSigner} (pubkey : Bytes) (entry : XMSSKeyEntry) (h : Built c s) :
      Built c (s.insert c pubkey entry)
  | retire {s : CXMSSSigner} (pubkey : Bytes) (entry : XMSSKeyEntry) (leafUsed : UInt32)
      (h : Built c s) : Built c (s.retire pubkey entry leafUsed)

/-- An address that the signer knows is the address of a key that it has. -/
theorem CXMSSSigner.Built.keyIdMap_eq_some (h : s.Built c) {addrHash : Blob 20}
    (hkey : s.keyIdMap addrHash = some key) :
    key ∈ s.xmssKeys ∧ c.hash160 key = addrHash := by
  induction h with
  | empty => cases hkey
  | insert pubkey entry h ih =>
    simp only [CXMSSSigner.insert, Function.update_apply] at hkey ⊢
    split at hkey
    · rename_i hhash
      obtain rfl := some.inj hkey
      exact ⟨mem_insert_self, hhash.symm⟩
    · obtain ⟨hmem, hhash⟩ := ih hkey
      exact ⟨mem_insert.mpr (.inr hmem), hhash⟩
  | retire pubkey entry leafUsed h ih =>
    rw [CXMSSSigner.retire] at hkey ⊢
    split at hkey <;> rename_i himported
    · rw [if_pos himported]
      exact ih hkey
    · rw [if_neg himported]
      obtain ⟨hmem, hhash⟩ := ih hkey
      exact ⟨mem_insert.mpr (.inr hmem), hhash⟩

/-- No key of the signer has the address of the key in the script and is another key. -/
def AddressesApart (c : Crypto) (s : CXMSSSigner) (script : Script) : Prop :=
  ∀ key ∈ s.xmssKeys, c.hash160 key = c.hash160 ((script.drop 1).take 64) →
    key = (script.drop 1).take 64

/-- If `IsMine` reports the output through its P2XMSS branch, then its script leaves true only
after the checker has accepted a signature under a key that the signer has. -/
def SpentWithHeldKey (c : Crypto) (s : CXMSSSigner) (script : Script) : Prop :=
  isMineP2xmss c (some s) script = true →
    ∀ (flags : ScriptFlags) (checker : SignatureChecker) (stack : List Bytes) (top : Bytes)
      (rest : List Bytes),
      (evalScript ⟨c, flags, checker, .base⟩ stack script {}).result = .ok (top :: rest) →
      castToBool top = true →
      ∃ key ∈ s.xmssKeys, ∃ sig, checker.checkXMSSSignature sig key script .base = true

/-- The key of a script that `IsMine` reports through its P2XMSS branch. -/
theorem isMineP2xmss_eq_true (hs : s.Built c) (h : isMineP2xmss c (some s) script = true) :
    ∃ key rest held, key.length = 64 ∧ script = p2xmssScript key rest ∧ held ∈ s.xmssKeys ∧
      c.hash160 held = c.hash160 key := by
  unfold isMineP2xmss at h
  split at h
  · rename_i key hsolver
    obtain ⟨hkey, rest, hscript⟩ := solver_eq_p2xmss_iff.mp hsolver
    rw [Bool.and_eq_true] at h
    have hlen : (s.getPubKeyForHash (c.hash160 key)).length = 64 := of_decide_eq_true h.2
    cases hmap : s.keyIdMap (c.hash160 key) with
    | none =>
      rw [CXMSSSigner.getPubKeyForHash, hmap] at hlen
      cases hlen
    | some held =>
      obtain ⟨hmem, hhash⟩ := hs.keyIdMap_eq_some hmap
      exact ⟨key, rest, held, hkey, hscript, hmem, hhash⟩
  · cases h

theorem spentWithHeldKey_of_not_trailing (hs : s.Built c) (hapart : AddressesApart c s script)
    (htrail : ¬ TrailingBytes script) :
    SpentWithHeldKey c s script := by
  intro hmine flags checker stack top rest heval htrue
  obtain ⟨key, more, held, hkey, rfl, hmem, hhash⟩ := isMineP2xmss_eq_true hs hmine
  have hread : ((p2xmssScript key more).drop 1).take 64 = key := take_left' hkey
  have hheld : held = key := by
    have happly := hapart held hmem
    rw [hread] at happly
    exact happly hhash
  rw [hheld] at hmem
  have hmore : more = [] := by
    by_contra hne
    exact htrail (trailingBytes_iff.mpr ⟨key, more, hkey, hne, rfl⟩)
  rw [hmore] at heval ⊢
  exact ⟨key, hmem, evalScript_template_verified hkey heval htrue⟩

/-- `Solver` and the P2XMSS branch of `IsMine` are exact on a script if and only if the script
does not go on after a prefix that has the form of the template. -/
theorem p2xmss_exact_iff (c : Crypto) (s : CXMSSSigner) (script : Script) (hs : s.Built c)
    (hapart : AddressesApart c s script) :
    (SolverExact script ∧ SpentWithHeldKey c s script) ↔ ¬ TrailingBytes script := by
  constructor
  · rintro ⟨hexact, -⟩
    exact solverExact_iff.mp hexact
  · intro htrail
    exact ⟨solverExact_iff.mpr htrail, spentWithHeldKey_of_not_trailing hs hapart htrail⟩

/-! ### Runs -/

/-- The checker that accepts nothing. -/
def rejectAll : SignatureChecker where
  checkECDSASignature _ _ _ _ := false
  checkSchnorrSignature _ _ _ _ := some .schnorrSig
  checkXMSSSignature _ _ _ _ := false
  checkLockTime _ := false
  checkSequence _ := false

/-- `OP_DROP OP_1`. -/
def dropThenOne : Script := [0x75, OP_1]

/-- A signer with one key. -/
def oneKeySigner : CXMSSSigner :=
  CXMSSSigner.empty.insert sampleCrypto samplePubkey { sk := sampleSk }

/-- On the template of the key, `Solver` and `IsMine` are exact. -/
theorem p2xmss_exact_iff_template :
    isMine sampleCrypto (some oneKeySigner) (fun _ => .no) (p2xmssScript samplePubkey []) =
        .spendable ∧
      SolverExact (p2xmssScript samplePubkey []) ∧
      SpentWithHeldKey sampleCrypto oneKeySigner (p2xmssScript samplePubkey []) := by
  have hapart : AddressesApart sampleCrypto oneKeySigner (p2xmssScript samplePubkey []) := by
    intro key hkey _
    rcases mem_insert.mp hkey with heq | hnone
    · rw [← Std.LawfulEqCmp.eq_of_compare heq]
      rfl
    · exact absurd hnone not_mem_empty
  have htrail : ¬ TrailingBytes (p2xmssScript samplePubkey []) := by
    rintro ⟨hlen, -⟩
    exact absurd hlen (by decide)
  exact ⟨by decide +kernel, (p2xmss_exact_iff sampleCrypto oneKeySigner
    (p2xmssScript samplePubkey []) (.insert _ _ .empty) hapart).mpr htrail⟩

/-- The template of a key of the wallet, and after it `OP_DROP OP_1`. The wallet counts the output
as spendable, and it is spent without a signature. -/
theorem trailing_script_spent_by_anyone :
    ¬ SolverExact (p2xmssScript samplePubkey dropThenOne) ∧
      isMineP2xmss sampleCrypto (some oneKeySigner)
        (p2xmssScript samplePubkey dropThenOne) = true ∧
      (verifyScript sampleCrypto standardScriptVerifyFlags rejectAll [1, 42]
        (p2xmssScript samplePubkey dropThenOne) []).result = .ok () ∧
      ¬ SpentWithHeldKey sampleCrypto oneKeySigner
        (p2xmssScript samplePubkey dropThenOne) := by
  have hmine : isMineP2xmss sampleCrypto (some oneKeySigner)
      (p2xmssScript samplePubkey dropThenOne) = true := by decide +kernel
  refine ⟨?_, hmine, by decide +kernel, ?_⟩
  · intro hexact
    refine solverExact_iff.mp hexact ?_
    unfold TrailingBytes
    decide
  · intro hspent
    have heval : (evalScript ⟨sampleCrypto, standardScriptVerifyFlags, rejectAll, .base⟩ [[42]]
        (p2xmssScript samplePubkey dropThenOne) {}).result = .ok [[1]] := by decide +kernel
    obtain ⟨key, -, sig, hsig⟩ := hspent hmine _ _ _ _ _ heval (by decide)
    cases hsig

end AssentianPQE
