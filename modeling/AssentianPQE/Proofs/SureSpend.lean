import AssentianPQE.Proofs.SignRace
import AssentianPQE.Proofs.SpentKeys
import AssentianPQE.Proofs.TemplateSpends
import Mathlib.Algebra.Group.Action.Defs
import Mathlib.Algebra.Order.BigOperators.Group.List

/-!
# `AssentianPQE.Proofs.SureSpend`: attempts that cannot fail after a signature

What has to hold of a transaction, the keys of its inputs and their ledgers before the call so that
every input gets a signature that verifies and the tests after the signing pass.

* `claimAndSign_ready`, `signXMSS_ready`: a key with a ledger that is in order signs.
* `signStep_ready`: the signature is accepted for the input.
* `SignCall.signInputs_ready`: so no input has an error.
* `Attempt.createTransactionInternal_sure`: the attempt returns a transaction.
-/

set_option autoImplicit false

namespace AssentianPQE

open Lib Durable List CXMSSSigner CWallet Transaction

variable {c : Crypto} {x : XmssKeys} {l : LedgerDir} {state : XMSSMinerState} {tx : Transaction}
  {d : WalletDir} {w : CWallet}

/-! ### A ledger that is in order -/

/-- Every operation on the files of the ledger succeeds. -/
structure Io.Works (io : Io) : Prop where
  datOpens : io.datOpens = true
  idOpens : io.idOpens = true
  tmpOpens : io.tmpOpens = true
  shortWrite : io.shortWrite = none
  fsyncOk : io.fsyncOk = true
  renameOk : io.renameOk = true

/-- The instance id in the file `.instance_id`. -/
def LedgerDir.storedId (l : LedgerDir) : Option (Blob OWNER_STAMP_BYTES) :=
  l.instanceId.bind fun file => (takeBlob OWNER_STAMP_BYTES file).map Prod.fst

/-- The ledger of a key has a state that belongs to this datadir and has a leaf left, and its
secret key signs for the key. -/
structure TreeReady (c : Crypto) (x : XmssKeys) (l : LedgerDir) (pubkey : Bytes)
    (state : XMSSMinerState) : Prop where
  allowed : isXMSSTreeBlacklisted (rootOf pubkey) = false
  loaded : l.stateOf (rootOf pubkey) = some state
  root : state.xmssRoot = rootOf pubkey
  owned : ∃ id, l.storedId = some id ∧
    (state.ownerStamp = Blob.zero OWNER_STAMP_BYTES ∨ state.ownerStamp = id)
  left : state.nextLeafIndex < XMSS_MAX_LEAVES
  index : skIndex state.sk = state.nextLeafIndex.toNat
  signs : ∀ msg : Bytes, msg.length = 32 → ∃ sm sk', x.sign state.sk msg = some (sm, sk') ∧
    xmssVerify c msg (sm.take (sm.length - msg.length)) pubkey = true

/-- What a claim on the tree of a key leaves of the rest of the ledger. -/
structure OthersKept (pubkey : Bytes) (l l' : LedgerDir) : Prop where
  storedId : l'.storedId = l.storedId
  dat : ∀ root, root ≠ rootOf pubkey → l'.dat root = l.dat root

/-- Another tree is as ready as before. -/
theorem TreeReady.of_othersKept {l' : LedgerDir} {pubkey other : Bytes}
    (h : TreeReady c x l other state) (hkept : OthersKept pubkey l l')
    (hne : rootOf other ≠ rootOf pubkey) :
    TreeReady c x l' other state := by
  refine { h with loaded := ?_, owned := ?_ }
  · rw [LedgerDir.stateOf, hkept.dat _ hne]
    exact h.loaded
  · rw [hkept.storedId]
    exact h.owned

section Ledger
variable {io : Io} {l : LedgerDir}

/-- An id that is stored is returned, and nothing is written. -/
theorem getOrCreateInstanceId_stored (hio : io.Works) {id : Blob OWNER_STAMP_BYTES}
    (h : l.storedId = some id) :
    (getOrCreateInstanceId io).Ensures l fun l' r => l' = l ∧ ∀ id', r = some id' → id' = id := by
  unfold getOrCreateInstanceId
  refine ensures_read_bind ?_
  have hstored : (l.instanceId.bind fun file =>
      if io.idOpens then (takeBlob OWNER_STAMP_BYTES file).map Prod.fst else none) = some id := by
    rw [hio.idOpens]
    exact h
  rw [hstored]
  exact ensures_pure ⟨rfl, fun id' heq => (Option.some.inj heq).symm⟩

/-- A state is saved, and no other file of a tree changes. -/
theorem saveLocked_works (hio : io.Works) (state : XMSSMinerState) (l : LedgerDir) :
    (saveLocked io state).Ensures l fun l' r => ∀ ok, r = some ok → ok = true ∧
      l'.instanceId = l.instanceId ∧ ∀ root, root ≠ state.xmssRoot → l'.dat root = l.dat root := by
  unfold saveLocked
  rw [hio.tmpOpens, hio.shortWrite, hio.fsyncOk, hio.renameOk]
  refine ensures_write_bind (by simp) (ensures_write_bind (by simp) ?_)
  refine ensures_write_bind (by simp) (ensures_pure ?_)
  rintro ok ⟨⟩
  refine ⟨rfl, rfl, ?_⟩
  intro root hne
  exact Function.update_of_ne hne _ _

/-- **A claim on a ledger that is in order** returns a signature for the next leaf. -/
theorem claimAndSign_ready (hx : SignSpec x) (hio : io.Works) {pubkey : Bytes}
    (h : TreeReady c x l pubkey state) {hash32 : Bytes} (hlen : hash32.length = 32) :
    (xmssTreeLedgerClaimAndSign x io (rootOf pubkey) hash32).Ensures l fun l' r =>
      ∀ out, r = some out → OthersKept pubkey l l' ∧ ∃ sig, out = some (sig, state.nextLeafIndex) ∧
        sig.length = XMSS_SIG_BYTES ∧ leafIndexOf sig = state.nextLeafIndex.toNat ∧
        xmssVerify c hash32 sig pubkey = true := by
  obtain ⟨id, hid, hstamp⟩ := h.owned
  obtain ⟨sm, sk', hsign, hverify⟩ := h.signs hash32 hlen
  obtain ⟨hsm, hleaf⟩ := hx.signs_index _ _ _ _ hsign
  have hload : loadLocked io (rootOf pubkey) l = some state :=
    loadLocked_of_stateOf hio.datOpens h.loaded h.root
  let next : XMSSMinerState := { state with
    version := STATE_VERSION, ownerStamp := id, sk := sk', nextLeafIndex := state.nextLeafIndex + 1 }
  have hnext : signNext x hash32 { state with version := STATE_VERSION, ownerStamp := id } =
      some (sm, next) := by
    have hleft : XMSSMinerState.isExhausted
        { state with version := STATE_VERSION, ownerStamp := id } = false :=
      decide_eq_false (UInt32.not_le.mpr h.left)
    have hlong : ¬ sm.length < hash32.length := by omega
    unfold signNext
    rw [hleft, if_neg Bool.false_ne_true, if_neg (not_not.mpr hlen), if_neg (not_not.mpr h.index)]
    dsimp only
    rw [hsign]
    exact if_neg hlong
  unfold xmssTreeLedgerClaimAndSign
  rw [h.allowed, if_neg Bool.false_ne_true]
  refine ensures_read_bind ?_
  rw [hload]
  refine ensures_bind (getOrCreateInstanceId_stored hio hid) (by simp) ?_
  rintro l₁ id' ⟨rfl, heq⟩
  rw [heq id' rfl]
  dsimp only
  rw [if_pos hstamp]
  unfold signAndSave
  rw [hnext]
  refine ensures_bind (saveLocked_works hio next l₁) (by simp) ?_
  intro l' ok hsaved
  obtain ⟨rfl, hinstance, hdat⟩ := hsaved ok rfl
  refine ensures_pure ?_
  rintro out ⟨⟩
  refine ⟨⟨?_, ?_⟩, _, rfl, ?_, ?_, hverify⟩
  · rw [LedgerDir.storedId, hinstance]
    rfl
  · intro root hne
    refine hdat root ?_
    show root ≠ state.xmssRoot
    rwa [h.root]
  · rw [length_take]
    omega
  · have hbytes : XMSS_SIG_BYTES = 2500 := rfl
    rw [leafIndexOf, take_take, Nat.min_eq_left (by omega)]
    exact hleaf.trans h.index

end Ledger

/-! ### A key that is ready -/

/-- `SignXMSS` does not refuse the key, and its ledger is in order. -/
structure KeyReady (c : Crypto) (x : XmssKeys) (s : CXMSSSigner) (l : LedgerDir) (pubkey : Bytes) :
    Prop where
  usable : s.Usable pubkey
  tree : ∃ state, TreeReady c x l pubkey state

/-- What signing with one key leaves of the others. -/
structure SignedOne (pubkey : Bytes) (s s' : CXMSSSigner) (l l' : LedgerDir) : Prop where
  keyIdMap : s'.keyIdMap = s.keyIdMap
  keys : ∀ other, other ≠ pubkey → s'.xmssKeys[other]? = s.xmssKeys[other]?
  ledger : OthersKept pubkey l l'

section Key
variable {c : Crypto} {x : XmssKeys} {s s' : CXMSSSigner} {l l' : LedgerDir} {pubkey : Bytes}

/-- A key of another tree is as ready as before. -/
theorem KeyReady.of_signedOne {other : Bytes} (h : KeyReady c x s l other)
    (hone : SignedOne pubkey s s' l l') (hne : rootOf other ≠ rootOf pubkey) :
    KeyReady c x s' l' other := by
  have hkey : other ≠ pubkey := fun heq => hne (by rw [heq])
  obtain ⟨hlen, entry, hentry, hfresh⟩ := h.usable
  obtain ⟨state, hstate⟩ := h.tree
  refine ⟨⟨hlen, entry, ?_, hfresh⟩, state, hstate.of_othersKept hone.ledger hne⟩
  rw [hone.keys other hkey]
  exact hentry

theorem retire_signedOne (entry : XMSSKeyEntry) (leaf : UInt32) (h : OthersKept pubkey l l') :
    SignedOne pubkey s (s.retire pubkey entry leaf) l l' := by
  unfold retire
  split
  · exact ⟨rfl, fun _ _ => rfl, h⟩
  · refine ⟨rfl, fun other hne => ?_, h⟩
    rw [Std.ExtTreeMap.getElem?_insert, if_neg]
    intro hcmp
    exact hne (Std.LawfulEqCmp.eq_of_compare hcmp).symm

/-- **A key that is ready signs.** -/
theorem signXMSS_ready (hx : SignSpec x) {env : SignEnv} (halone : env.Alone)
    (hclaim : env.claim.Works) (husable : s.Usable pubkey) (hstate : TreeReady c x l pubkey state)
    (hash : Uint256) :
    (s.signXMSS x env hash pubkey).Ensures l fun l' r => ∀ out, r = some out →
      SignedOne pubkey s out.2 l l' ∧ ∃ sig, out.1 = some (sig, state.nextLeafIndex) ∧
        sig.length = XMSS_SIG_BYTES ∧ leafIndexOf sig = state.nextLeafIndex.toNat ∧
        xmssVerify c hash.data sig pubkey = true := by
  obtain ⟨hlen, entry, hentry, hfresh⟩ := husable
  have hopen : (!entry.imported && entry.retired) = false := by
    rcases hfresh with h | h <;> rw [h] <;> simp
  have hexists : xmssTreeLedgerExists (rootOf pubkey) l = true := by
    obtain ⟨data, hdata, -⟩ := Option.bind_eq_some_iff.mp hstate.loaded
    rw [xmssTreeLedgerExists, hdata]
    rfl
  have hledger : (ensureLedger env pubkey entry).Ensures l fun l' r =>
      l' = l ∧ ∀ ready, r = some ready → ready = true := by
    unfold ensureLedger
    refine ensures_read_bind ?_
    rw [if_pos hexists]
    exact ensures_pure ⟨rfl, fun ready heq => (Option.some.inj heq).symm⟩
  unfold signXMSS
  rw [hentry]
  dsimp only
  rw [if_neg (not_not.mpr hlen), hopen, if_neg Bool.false_ne_true]
  refine ensures_bind hledger (by simp) ?_
  rintro l₁ ready ⟨rfl, hready⟩
  rw [hready ready rfl, if_pos rfl, halone 2, Durable.pure_bind]
  refine ensures_bind (claimAndSign_ready hx hclaim hstate (Blob.length_data hash))
    (by simp) ?_
  intro l' claimed hclaimed
  obtain ⟨hkept, sig, rfl, hsig⟩ := hclaimed claimed rfl
  refine ensures_pure ?_
  rintro out ⟨⟩
  exact ⟨retire_signedOne entry _ hkept, sig, rfl, hsig⟩

/-- **Its signature is accepted** for the input that it was made for. -/
theorem signStep_ready (hx : SignSpec x) {env : SignEnv} (halone : env.Alone)
    (hstatus : env.status.Works) (hclaim : env.claim.Works) (h : KeyReady c x s l pubkey)
    (t : TxContext) (script : Script) (sigversion : SigVersion) :
    (signStep c x env t.xmssChainId t pubkey script sigversion s).Ensures l fun l' r =>
      ∀ out, r = some out → SignedOne pubkey s out.2 l l' ∧ ∃ sig,
        out.1 = some (sigChunks sig ++ if (solver script).1 = .p2xmssHash then [pubkey] else []) ∧
        sig.length = XMSS_SIG_BYTES ∧
        checkXMSSSignature c t sig pubkey script sigversion = true := by
  obtain ⟨husable, state, hstate⟩ := h
  obtain ⟨hlen, entry, hentry, -⟩ := id husable
  -- The leaf that is hashed is the one that is claimed.
  have hleaf : s.getXMSSLeafIndex env.status pubkey l = state.nextLeafIndex := by
    unfold getXMSSLeafIndex
    rw [hentry]
    dsimp only
    rw [if_pos hlen, xmssTreeLedgerStatus,
      loadLocked_of_stateOf hstatus.datOpens hstate.loaded hstate.root]
    rfl
  have hcreate : (createXMSSSig c x env t.xmssChainId t pubkey script sigversion ∅ s).Ensures l
      fun l' r => ∀ out, r = some out → SignedOne pubkey s out.2.2 l l' ∧ ∃ sig,
        out.1 = some sig ∧ sig.length = XMSS_SIG_BYTES ∧
        checkXMSSSignature c t sig pubkey script sigversion = true := by
    unfold createXMSSSig
    rw [Std.ExtTreeMap.getElem?_empty]
    refine ensures_read_bind ?_
    rw [halone 0, Durable.pure_bind, hleaf]
    refine ensures_bind (signXMSS_ready hx halone hclaim husable hstate _) (by simp) ?_
    rintro l' ⟨signed, s'⟩ hsigned
    obtain ⟨hone, sig, rfl, hsig, hindex, hverify⟩ := hsigned _ rfl
    refine ensures_pure ?_
    rintro out ⟨⟩
    refine ⟨hone, sig, rfl, hsig, ?_⟩
    have hbytes : XMSS_SIG_BYTES = 2500 := rfl
    have hne : sig ≠ [] := by
      intro hnil
      rw [hnil] at hsig
      cases hsig
    unfold checkXMSSSignature
    rw [if_neg (not_not.mpr hlen), if_neg hne,
      xmssSighash_eq_sighashV2 c t script sigversion (by omega) hindex]
    exact hverify
  unfold signStep
  rw [if_neg (not_not.mpr hlen)]
  refine ensures_bind hcreate (by simp) ?_
  rintro l' ⟨signed, sigdata, s'⟩ hsigned
  obtain ⟨hone, sig, rfl, hsig, haccept⟩ := hsigned _ rfl
  have hne : sig ≠ [] := by
    intro hnil
    rw [hnil] at hsig
    cases hsig
  dsimp only
  rw [if_neg hne]
  refine ensures_pure ?_
  rintro out ⟨⟩
  exact ⟨hone, sig, rfl, hsig, haccept⟩

end Key

/-! ### An input -/

/-- The script of an input is no part of the digest that is signed. -/
theorem checkXMSSSignature_input (c : Crypto) (t : TxContext) (txin : TxIn) (sig pubkey : Bytes)
    (script : Script) :
    checkXMSSSignature c { t with input := txin } sig pubkey script .base =
      checkXMSSSignature c t sig pubkey script .base := by
  have hall : anyoneCanPay SIGHASH_ALL = false := by decide
  have hserialize : serializeForSignature { t with input := txin } script SIGHASH_ALL =
      serializeForSignature t script SIGHASH_ALL := by
    unfold serializeForSignature
    rw [hall]
    rfl
  have hhash : signatureHash c { t with input := txin } script SIGHASH_ALL .base =
      signatureHash c t script SIGHASH_ALL .base := by
    unfold signatureHash
    rw [hserialize]
    rfl
  have hsighash : xmssSighash c { t with input := txin } sig script .base =
      xmssSighash c t sig script .base := by
    unfold xmssSighash
    dsimp only
    rw [signatureHash_amount, signatureHash_amount, hhash]
  unfold checkXMSSSignature
  rw [hsighash]

/-- A script with one of the two templates is solved as it is. -/
theorem signPath_of_solver {i : InputData} {script : Script} {solutions : List Bytes}
    (h : solver script = (.p2xmss, solutions) ∨ solver script = (.p2xmssHash, solutions)) :
    signPath c i script = ⟨script, .base, none, none⟩ := by
  unfold signPath witnessPath
  rcases h with h | h <;> rw [h]

/-- An output that pays to a key of the signer, with one of the two templates. -/
def PaysTemplate (c : Crypto) (s : CXMSSSigner) (script : Script) (pubkey : Bytes) : Prop :=
  script = xmssTemplate pubkey ∨
    script = xmssHashTemplate (c.hash160 pubkey).data ∧
      s.getPubKeyForHash (c.hash160 pubkey) = pubkey

/-- What is needed of an input besides its key: it has a coin with a template of the key, it is
not signed yet, and the files of the ledger can be used. -/
structure SignCall.SureInput (a : SignCall) (c : Crypto) (s : CXMSSSigner) (n : Nat) (txin : TxIn)
    (out : TxOut) (pubkey : Bytes) : Prop where
  coin : a.coins txin.prevout = some out
  pays : PaysTemplate c s out.scriptPubKey pubkey
  unsigned : a.complete c n txin out = false
  status : (a.env n).status.Works
  claim : (a.env n).claim.Works

section Input
variable {c : Crypto} {x : XmssKeys} {a : SignCall} {s : CXMSSSigner} {l : LedgerDir} {n : Nat}
  {txin : TxIn} {out : TxOut} {pubkey sig : Bytes}

/-- What `Solver` makes of the templates, and the solution for a signature. -/
theorem PaysTemplate.solution (h : PaysTemplate c s out.scriptPubKey pubkey)
    (hlen : pubkey.length = 64) :
    (solver out.scriptPubKey = (.p2xmss, [pubkey]) ∨
      solver out.scriptPubKey = (.p2xmssHash, [(c.hash160 pubkey).data])) ∧
    xmssPubkey s out.scriptPubKey = some pubkey ∧
    ∀ (checker : SignatureChecker) (sig : Bytes), sig.length = XMSS_SIG_BYTES →
      checker.checkXMSSSignature sig pubkey out.scriptPubKey .base = true →
      (verifyScript c standardScriptVerifyFlags checker
        (pushAll (sigChunks sig ++
          if (solver out.scriptPubKey).1 = .p2xmssHash then [pubkey] else []))
        out.scriptPubKey []).result = .ok () := by
  rcases h with hscript | ⟨hscript, hknown⟩
  · have hsolver : solver out.scriptPubKey = (.p2xmss, [pubkey]) := by
      rw [hscript]
      exact solver_xmssTemplate hlen
    refine ⟨.inl hsolver, by rw [xmssPubkey, hsolver], ?_⟩
    intro checker sig hsig haccept
    have htype : ¬ TxoutType.p2xmss = .p2xmssHash := by decide
    rw [hsolver, if_neg htype, append_nil, hscript]
    rw [hscript] at haccept
    exact verifyScript_xmssTemplate hlen hsig haccept
  · have hsolver : solver out.scriptPubKey = (.p2xmssHash, [(c.hash160 pubkey).data]) := by
      rw [hscript]
      exact solver_xmssHashTemplate (Blob.length_data _)
    have hkey : xmssPubkey s out.scriptPubKey = some pubkey := by
      have hblob := takeBlob_append (c.hash160 pubkey) []
      rw [append_nil] at hblob
      rw [xmssPubkey, hsolver]
      dsimp only
      rw [hblob]
      exact congrArg some hknown
    refine ⟨.inr hsolver, hkey, ?_⟩
    intro checker sig hsig haccept
    rw [hsolver, if_pos rfl, hscript]
    rw [hscript] at haccept
    exact verifyScript_xmssHashTemplate hlen hsig haccept

/-- The last test on an input passes with a signature that `CheckXMSSSignature` accepts. -/
theorem SignCall.checkInput_of_accepted (h : PaysTemplate c s out.scriptPubKey pubkey)
    (hlen : pubkey.length = 64) (hsig : sig.length = XMSS_SIG_BYTES)
    (haccept : checkXMSSSignature c (a.context n txin out a.chainId) sig pubkey out.scriptPubKey
      .base = true) :
    a.checkInput c n { txin with
      scriptSig := pushAll (sigChunks sig ++
        if (solver out.scriptPubKey).1 = .p2xmssHash then [pubkey] else [])
      scriptWitness := [] } out = none := by
  have hchecker : ∀ signed : TxIn, (a.checker c n signed out).checkXMSSSignature sig pubkey
      out.scriptPubKey .base = true := by
    intro signed
    have hsame := checkXMSSSignature_input c (a.context n txin out a.chainId) signed sig pubkey
      out.scriptPubKey
    rw [haccept] at hsame
    unfold SignCall.checker
    dsimp only
    split <;> exact hsame
  unfold SignCall.checkInput
  rw [if_neg fun hmoney => hmoney.2 rfl, (h.solution hlen).2.2 _ sig hsig (hchecker _)]

/-- How an input is signed: with at most 2580 bytes, and without a witness. -/
structure SignedInput (signed : TxIn) : Prop where
  script : signed.scriptSig.length ≤ 2580
  witness : signed.scriptWitness = []

theorem SignCall.solveInput_ready (hx : SignSpec x) (halone : (a.env n).Alone)
    (hsigns : a.signs n = true) (hinput : a.SureInput c s n txin out pubkey)
    (hkey : KeyReady c x s l pubkey) :
    (a.solveInput c x n txin out s).Ensures l fun l' r => ∀ p, r = some p →
      SignedOne pubkey s p.2 l l' ∧
      SignedInput { txin with scriptSig := p.1.1, scriptWitness := p.1.2 } ∧
      a.checkInput c n { txin with scriptSig := p.1.1, scriptWitness := p.1.2 } out = none := by
  have hlen := hkey.usable.1
  obtain ⟨hsolver, hpubkey, -⟩ := hinput.pays.solution hlen
  have hpath : signPath c (a.data n) out.scriptPubKey = ⟨out.scriptPubKey, .base, none, none⟩ := by
    rcases hsolver with h | h
    · exact signPath_of_solver (.inl h)
    · exact signPath_of_solver (.inr h)
  unfold SignCall.solveInput
  rw [hinput.unsigned, hsigns, if_neg (by decide)]
  unfold produceSignature
  rw [hpath]
  dsimp only
  rw [hpubkey]
  refine ensures_bind (signStep_ready hx halone hinput.status hinput.claim hkey
    (a.context n txin out a.chainId) out.scriptPubKey .base) (by simp) ?_
  rintro l' ⟨items, s'⟩ hitems
  obtain ⟨hone, sig, rfl, hsig, haccept⟩ := hitems _ rfl
  refine ensures_pure ?_
  rintro p ⟨⟩
  have hwrap : SignPath.wrap ⟨out.scriptPubKey, .base, none, none⟩ (sigChunks sig ++
      if (solver out.scriptPubKey).1 = .p2xmssHash then [pubkey] else []) =
      (pushAll (sigChunks sig ++
        if (solver out.scriptPubKey).1 = .p2xmssHash then [pubkey] else []), []) := by
    unfold SignPath.wrap
    dsimp only
    rw [Option.toList_none, append_nil]
  dsimp only
  rw [Option.getD_some, hwrap]
  refine ⟨hone, ⟨?_, rfl⟩, SignCall.checkInput_of_accepted hinput.pays hlen hsig haccept⟩
  -- The chunks take 2515 bytes, and the key of a P2XMSSHASH script 65 more.
  have hkeyPush : (pushAll [pubkey]).length = 65 := length_pushAll_key hlen
  have hnone : (pushAll []).length = 0 := rfl
  show (pushAll _).length ≤ 2580
  rw [length_pushAll_sigChunks hsig]
  split
  · rw [hkeyPush]
  · rw [hnone]
    omega

/-- The inputs from position `n` on have keys that are ready, one for each, of different trees. -/
def SignCall.SureInputs (a : SignCall) (c : Crypto) (x : XmssKeys) (s : CXMSSSigner)
    (l : LedgerDir) : Nat → List TxIn → List Bytes → Prop
  | _, [], [] => True
  | n, txin :: vin, pubkey :: keys =>
    (∃ out, a.SureInput c s n txin out pubkey) ∧ KeyReady c x s l pubkey ∧
      (∀ other ∈ keys, rootOf other ≠ rootOf pubkey) ∧ SureInputs a c x s l (n + 1) vin keys
  | _, _, _ => False

/-- The inputs after one that was signed are as ready as before. -/
theorem SignCall.SureInputs.of_signedOne {s' : CXMSSSigner} {l' : LedgerDir}
    (hone : SignedOne pubkey s s' l l') :
    ∀ {vin : List TxIn} {keys : List Bytes} {n : Nat}, a.SureInputs c x s l n vin keys →
      (∀ other ∈ keys, rootOf other ≠ rootOf pubkey) → a.SureInputs c x s' l' n vin keys := by
  intro vin
  induction vin with
  | nil =>
    intro keys n h _
    cases keys with
    | nil => trivial
    | cons => exact h.elim
  | cons txin vin ih =>
    intro keys n h hroots
    cases keys with
    | nil => exact h.elim
    | cons key keys =>
      obtain ⟨⟨out, hinput⟩, hkey, hdistinct, hrest⟩ := h
      have hroot := hroots key mem_cons_self
      have hpays : PaysTemplate c s' out.scriptPubKey key := by
        rcases hinput.pays with hscript | ⟨hscript, hknown⟩
        · exact .inl hscript
        · refine .inr ⟨hscript, ?_⟩
          rw [getPubKeyForHash, hone.keyIdMap]
          exact hknown
      exact ⟨⟨out, { hinput with pays := hpays }⟩, hkey.of_signedOne hone hroot, hdistinct,
        ih hrest fun other hmem => hroots other (mem_cons_of_mem _ hmem)⟩

/-- **The loop of `SignTransaction`.** No input has an error. -/
theorem SignCall.signInputs_ready (hx : SignSpec x) (halone : ∀ n, (a.env n).Alone)
    (hsigns : ∀ n, a.signs n = true) :
    ∀ {vin : List TxIn} {keys : List Bytes} {n : Nat} {s : CXMSSSigner} {l : LedgerDir},
      a.SureInputs c x s l n vin keys → (a.signInputs c x n vin s).Ensures l fun _ r =>
        ∀ p, r = some p → p.1.2 = [] ∧ p.1.1.length = vin.length ∧
          ∀ signed ∈ p.1.1, SignedInput signed := by
  intro vin
  induction vin with
  | nil =>
    intro keys n s l _
    refine ensures_pure ?_
    rintro p ⟨⟩
    exact ⟨rfl, rfl, by simp⟩
  | cons txin vin ih =>
    intro keys n s l h
    cases keys with
    | nil => exact h.elim
    | cons pubkey keys =>
      obtain ⟨⟨out, hinput⟩, hkey, hdistinct, hrest⟩ := h
      unfold SignCall.signInputs
      rw [hinput.coin]
      refine ensures_bind
        (SignCall.solveInput_ready hx (halone n) (hsigns n) hinput hkey) (by simp) ?_
      rintro l₁ ⟨⟨scriptSig, witness⟩, s₁⟩ hsolved
      obtain ⟨hone, hsigned, hcheck⟩ := hsolved _ rfl
      dsimp only at hsigned hcheck ⊢
      refine ensures_bind (ih (hrest.of_signedOne hone hdistinct)) (by simp) ?_
      rintro l₂ ⟨⟨vin', errors⟩, s₂⟩ hvin
      obtain ⟨herrors, hlength, hall⟩ := hvin _ rfl
      refine ensures_pure ?_
      rintro p ⟨⟩
      dsimp only at herrors hlength hall ⊢
      rw [hcheck, herrors]
      refine ⟨rfl, by rw [length_cons, length_cons, hlength], ?_⟩
      intro signed hmem
      rcases mem_cons.mp hmem with rfl | hmem
      · exact hsigned
      · exact hall signed hmem

end Input

/-! ### The weight -/

/-- A transaction with 2580 bytes in the place of each signature. -/
def dummySigned (tx : Transaction) : Transaction :=
  { tx with
    vin := tx.vin.map fun txin =>
      { txin with scriptSig := List.replicate 2580 0, scriptWitness := [] } }

theorem length_serialize_signed {signed : TxIn} (h : SignedInput signed) :
    signed.serialize.length ≤ 2623 := by
  have hsize : (writeCompactSize signed.scriptSig.length).length ≤ 3 := by
    have hle := h.script
    unfold writeCompactSize
    split
    · simp
    · rw [if_pos (by omega)]
      simp [length_leBytes]
  have hle := h.script
  simp only [TxIn.serialize, OutPoint.serialize, serBytes, serU32, length_append,
    length_leBytes, Blob.length_data]
  omega

/-- A transaction without witnesses weighs four times its size. -/
theorem getTransactionWeight_of_no_witness (h : ∀ txin ∈ tx.vin, txin.scriptWitness = []) :
    getTransactionWeight tx = tx.serializeNoWitness.length * 4 := by
  have hwitness : tx.hasWitness = false := by
    unfold hasWitness
    rw [any_eq_false]
    intro txin hmem
    rw [h txin hmem]
    simp
  unfold getTransactionWeight serializeWithWitness
  rw [hwitness, if_neg Bool.false_ne_true]
  show _ * 3 + _ = _
  omega

/-- Signatures weigh no more than the bytes in their place. -/
theorem getTransactionWeight_signed_le {vin : List TxIn} (hlength : vin.length = tx.vin.length)
    (h : ∀ signed ∈ vin, SignedInput signed) :
    getTransactionWeight { tx with vin := vin } ≤ getTransactionWeight (dummySigned tx) := by
  have hdummy : ∀ txin ∈ (dummySigned tx).vin, txin.serialize.length = 2623 ∧
      txin.scriptWitness = [] := by
    intro txin hmem
    obtain ⟨txin', -, rfl⟩ := mem_map.mp hmem
    have hsize : (writeCompactSize 2580).length = 3 := by decide
    refine ⟨?_, rfl⟩
    simp only [TxIn.serialize, OutPoint.serialize, serBytes, serU32, length_append,
      length_replicate, length_leBytes, Blob.length_data, hsize]
  have hcount : (dummySigned tx).vin.length = tx.vin.length := length_map _
  have hsigned : (vin.map TxIn.serialize).flatten.length ≤ tx.vin.length * 2623 := by
    have hle := sum_le_card_nsmul (vin.map (List.length ∘ TxIn.serialize)) 2623 (by
      intro n hmem
      obtain ⟨signed, hsigned, rfl⟩ := mem_map.mp hmem
      exact length_serialize_signed (h signed hsigned))
    rw [length_flatten, map_map]
    rwa [length_map, smul_eq_mul, hlength] at hle
  have htotal : ((dummySigned tx).vin.map TxIn.serialize).flatten.length =
      tx.vin.length * 2623 := by
    have heq := sum_eq_card_nsmul ((dummySigned tx).vin.map (List.length ∘ TxIn.serialize)) 2623
      (by
        intro n hmem
        obtain ⟨txin, htxin, rfl⟩ := mem_map.mp hmem
        exact (hdummy txin htxin).1)
    rw [length_flatten, map_map]
    rwa [length_map, smul_eq_mul, hcount] at heq
  have hsizes : ({ tx with vin := vin } : Transaction).serializeNoWitness.length ≤
      (dummySigned tx).serializeNoWitness.length := by
    unfold serializeNoWitness serVector
    simp only [length_append, htotal, hcount, hlength]
    show _ + (_ + _ + _) ≤ _ + (_ + _ + (_ + _ + _))
    refine Nat.add_le_add_left (Nat.add_le_add_right (Nat.add_le_add_left hsigned _) _) _
  rw [getTransactionWeight_of_no_witness fun txin hmem => (hdummy txin hmem).2,
    getTransactionWeight_of_no_witness fun txin hmem => (h txin hmem).witness]
  exact Nat.mul_le_mul_right 4 hsizes

/-! ### The attempt -/

/-- An attempt that cannot fail: every input can be signed with a key of the signer, and the tests
after the signing pass.

- `inputs`: the inputs have keys that are ready, of different trees;
- `fresh`: no key has to be generated before the signing;
- `weight`, `fee` and `chain`: the tests, for 2580 bytes in each input. -/
structure Attempt.Sure (a : Attempt) (k : WalletPrims) (cfg : SpendConfig) (w : CWallet)
    (l : LedgerDir) (b : BuiltTransaction) : Prop where
  built : a.built = .ok b
  managers : a.managersComplete = false
  unlocked : w.isLocked = false
  fresh : w.signer.countFreshKeys ≠ 0
  inputs : ∃ keys, (a.signCall cfg b.tx).SureInputs k.crypto k.keys w.signer l 0
    (a.managed b.tx).vin keys
  weight : getTransactionWeight (dummySigned b.tx) ≤ MAX_STANDARD_TX_WEIGHT
  fee : b.current_fee ≤ cfg.m_default_max_tx_fee
  chain : cfg.walletrejectlongchains = false ∨ ∀ tx : Transaction,
    tx.vin.map TxIn.prevout = b.tx.vin.map TxIn.prevout → a.checkChainLimits tx = none

namespace Attempt

variable {k : WalletPrims} {a : Attempt} {cfg : SpendConfig}

theorem dummySigned_managed (a : Attempt) (tx : Transaction) :
    dummySigned (a.managed tx) = dummySigned tx := by
  have hvin : (dummySigned (a.managed tx)).vin = (dummySigned tx).vin := by
    apply ext_getElem?
    intro i
    show (List.map _ (tx.vin.mapIdx _))[i]? = (List.map _ tx.vin)[i]?
    rw [getElem?_map, getElem?_mapIdx, getElem?_map]
    cases tx.vin[i]? <;> rfl
  show ({ tx with vin := (dummySigned (a.managed tx)).vin } : Transaction) = _
  rw [hvin]
  rfl

/-- What a signed transaction is like. -/
structure SignedTx (tx signed : Transaction) : Prop where
  prevouts : signed.vin.map TxIn.prevout = tx.vin.map TxIn.prevout
  weight : getTransactionWeight signed ≤ getTransactionWeight (dummySigned tx)

variable {s : CXMSSSigner}

theorem signInputs_sure (hx : SignSpec k.keys) {keys : List Bytes}
    (h : (a.signCall cfg tx).SureInputs k.crypto k.keys s d.ledger 0 (a.managed tx).vin keys) :
    (a.signInputs k cfg tx s).Ensures d fun _ r => ∀ out, r = some out →
      ∃ signed, out.1 = some signed ∧ SignedTx tx signed := by
  let call := a.signCall cfg tx
  have hsigns : ∀ n, call.signs n = true := fun n => rfl
  have hready := ensures_and
    (SignCall.signInputs_ready hx (a := call) (fun n i => rfl) hsigns h)
    (call.signInputs_prevouts k.crypto k.keys (a.managed tx).vin 0 s d.ledger)
  have hsigned : (call.signTransaction k.crypto k.keys s).Ensures d.ledger fun _ r =>
      ∀ out, r = some out → out.1.2 = [] ∧ SignedTx tx out.1.1 := by
    unfold SignCall.signTransaction
    refine ensures_bind hready (by simp) ?_
    rintro l' ⟨⟨vin, errors⟩, s'⟩ ⟨hvin, hprevouts⟩
    obtain ⟨herrors, hlength, hall⟩ := hvin _ rfl
    refine ensures_pure ?_
    rintro out ⟨⟩
    refine ⟨herrors, (hprevouts _ rfl).trans (a.map_prevout_managed tx), ?_⟩
    rw [← a.dummySigned_managed tx]
    exact getTransactionWeight_signed_le hlength hall
  unfold Attempt.signInputs
  refine ensures_mono (WalletDir.onLedger_ensures (ensures_bind hsigned
    (Q := fun _ r => ∀ out, r = some out → ∃ signed, out.1 = some signed ∧ SignedTx tx signed)
    (by simp) ?_)) ?_
  · rintro l' ⟨⟨signed, errors⟩, s'⟩ hout
    obtain ⟨herrors, htx⟩ := hout _ rfl
    refine ensures_pure ?_
    rintro out ⟨⟩
    exact ⟨signed, if_pos herrors, htx⟩
  · rintro d' r ⟨l, rfl, hr⟩
    exact hr

/-- The coins of inputs that can be signed are in the wallet. -/
theorem mapWallet_of_sureInputs :
    ∀ {vin : List TxIn} {keys : List Bytes} {n : Nat},
    (a.signCall cfg tx).SureInputs c x s l n vin keys →
      ∀ prevout ∈ vin.map TxIn.prevout, (cfg.mapWallet prevout).isSome := by
  intro vin
  induction vin with
  | nil =>
    intro keys n _ prevout hmem
    cases hmem
  | cons txin vin ih =>
    intro keys n h prevout hmem
    cases keys with
    | nil => exact h.elim
    | cons key keys =>
      obtain ⟨⟨out, hinput⟩, -, -, hrest⟩ := h
      rcases mem_cons.mp hmem with rfl | htail
      · have hcoin : cfg.coins txin.prevout = some out := hinput.coin
        unfold SpendConfig.coins at hcoin
        cases hout : cfg.mapWallet txin.prevout with
        | none =>
          rw [hout] at hcoin
          cases hcoin
        | some _ => rfl
      · exact ih hrest prevout htail

variable {b : BuiltTransaction}

/-- The wallet signs with its signer, and the signed transaction is returned. -/
theorem sign_sure (hx : SignSpec k.keys) (h : a.Sure k cfg w d.ledger b) :
    (a.sign k cfg b.tx w).Ensures d fun _ r => ∀ out, r = some out →
      ∃ signed, out.1 = some signed ∧ SignedTx b.tx signed := by
  obtain ⟨keys, hinputs⟩ := h.inputs
  have hcoins : (b.tx.vin.all fun txin => (cfg.mapWallet txin.prevout).isSome) = true := by
    rw [all_eq_true]
    intro txin hmem
    refine mapWallet_of_sureInputs hinputs txin.prevout ?_
    rw [a.map_prevout_managed b.tx]
    exact mem_map_of_mem hmem
  unfold Attempt.sign signTransaction
  rw [if_pos hcoins, h.managers, h.unlocked, Bool.and_false, if_neg Bool.false_ne_true,
    if_neg Bool.false_ne_true, if_neg h.fresh]
  unfold signWithSigner
  refine ensures_bind (signInputs_sure hx hinputs) (by simp) ?_
  rintro d₁ ⟨result, signer⟩ hresult
  obtain ⟨signed, rfl, hsigned⟩ := hresult _ rfl
  -- What is written after the signing does not change the transaction.
  refine ensures_bind (persist_ensures_ledger a.keys.persist _ d₁) (by simp) ?_
  intro d₂ _ _
  have htrivial : (ensureXMSSKeyAvailable k a.keys.after { w with signer := signer }).Ensures
      d₂ fun _ _ => True := fun _ => trivial
  refine ensures_bind htrivial (by simp) ?_
  intro d₃ w₃ _
  refine ensures_pure ?_
  rintro out ⟨⟩
  exact ⟨signed, rfl, hsigned⟩

/-- The tests after the signing pass. -/
theorem finish_sure (h : a.Sure k cfg w l b) {signed : Transaction} (hsigned : SignedTx b.tx signed)
    :
    a.finish cfg true b signed = .ok ⟨signed, b.current_fee⟩ := by
  have hweight : ¬ MAX_STANDARD_TX_WEIGHT < getTransactionWeight signed :=
    not_lt.mpr (hsigned.weight.trans h.weight)
  have hchain : (if cfg.walletrejectlongchains then a.checkChainLimits signed else none) = none := by
    rcases h.chain with hoff | hlimits
    · rw [hoff, if_neg Bool.false_ne_true]
    · rw [hlimits signed hsigned.prevouts, ite_self]
  unfold Attempt.finish
  rw [if_pos rfl, if_neg hweight, if_neg (not_lt.mpr h.fee), hchain]

/-- **An attempt that cannot fail.** It returns a transaction. -/
theorem createTransactionInternal_sure (hx : SignSpec k.keys) (h : a.Sure k cfg w d.ledger b) :
    (a.createTransactionInternal k cfg true w).Ensures d fun _ r => ∀ out, r = some out →
      ∃ signed, out.1 = .ok ⟨signed, b.current_fee⟩ := by
  unfold createTransactionInternal
  rw [h.built]
  dsimp only
  rw [if_pos rfl]
  refine ensures_bind (sign_sure hx h) (by simp) ?_
  rintro d' ⟨result, w'⟩ hresult
  obtain ⟨signed, rfl, hsigned⟩ := hresult _ rfl
  refine ensures_pure ?_
  rintro out ⟨⟩
  exact ⟨signed, finish_sure h hsigned⟩

end Attempt

end AssentianPQE
