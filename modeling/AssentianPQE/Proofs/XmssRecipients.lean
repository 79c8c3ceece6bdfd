import AssentianPQE.Proofs.Addresses
import AssentianPQE.Proofs.TemplateSpends
import AssentianPQE.SampleWallet
import AssentianPQE.Wallet.Rpc

/-!
# The outputs that pay an XMSS address

`sendtoxmssaddress` and `sendfromxmssaddress` decode the address of the recipient to a hash and
look for its key in the wallet. Where the key is known, the output has the key. Where it is not,
the first call commits to the hash and the second one makes a P2PKH output, which no XMSS key can
spend.

`signer_built_of_run` is the invariant of the wallet: an address that the signer knows is the
address of its key. `recipient_paysAddress_iff` says when the output of a call belongs to the
address that the call was given.
-/

set_option autoImplicit false

namespace AssentianPQE

open Lib Durable CWallet Option WalletRun XMSSAddr

/-! ### The signer of a wallet -/

variable {c : Crypto}

theorem CXMSSSigner.Built.loadedEntries (version count : Nat) :
    ∀ {ds : Bytes} {s : CXMSSSigner}, s.Built c →
      (CXMSSSigner.loadedEntries c version count ds s).2.Built c := by
  induction count with
  | zero => exact fun hs => hs
  | succ count ih =>
    intro ds s hs
    unfold CXMSSSigner.loadedEntries
    split
    · exact hs
    · split
      · exact hs
      · exact ih (hs.insert _ _)

variable {s : CXMSSSigner}

theorem CXMSSSigner.Built.loaded (hs : s.Built c) (data : Bytes) : (s.loaded c data).2.Built c := by
  unfold CXMSSSigner.loaded
  split
  · exact hs
  · split
    · exact .empty
    · exact Built.loadedEntries _ _ .empty

theorem CXMSSSigner.Built.addXMSSKey {c : Crypto} {s s' : CXMSSSigner} (hs : s.Built c)
    {behind pubkey seckey : Bytes} (h : s.addXMSSKey c behind pubkey seckey = some s') :
    s'.Built c := by
  unfold CXMSSSigner.addXMSSKey at h
  repeat' split at h
  all_goals first
    | cases h; done
    | rw [← some.inj h]; exact hs.insert _ _

theorem CWallet.signer_lock (w : CWallet) : w.lock.signer = w.signer := by
  unfold lock
  split <;> rfl

/-- The signer of a wallet is built from keys, whatever is on the disk. -/
def SignerBuilt (k : WalletPrims) (_ : List Bytes) (w : CWallet) (_ : WalletDir) : Prop :=
  w.signer.Built k.crypto

theorem signerBuilt_rules (k : WalletPrims) :
    WalletRules k (fun _ => True) (SignerBuilt k) where
  died _ := trivial
  ledger _ h := h
  skip h := h
  generate h _ := h.insert _ _
  sign _ h _ _ := h.retire _ _ _
  persist h _ := h
  lock := by
    intro _ w _ h
    show w.lock.signer.Built k.crypto
    rw [w.signer_lock]
    exact h

theorem signerBuilt_afterLoad (k : WalletPrims) (env : LoadEnv) (d : WalletDir) {w : CWallet}
    (h : w.signer.Built k.crypto) : (w.afterLoad k env d).signer.Built k.crypto := by
  unfold afterLoad
  split
  · exact h
  · exact h.loaded _

variable {k : WalletPrims}

theorem signerBuilt_step {op : WalletOp} {s s' : WalletRun}
    (h : RunInv (fun _ => True) (SignerBuilt k []) s) (hstep : step k op s = some s') :
    RunInv (fun _ => True) (SignerBuilt k []) s' := by
  by_cases hbegins : ∃ w env crash, s.wallet = some w ∧ op = .encryptWallet env crash ∧
      w.isCrypted = false ∧ env.txnBegins = false
  · -- The transaction does not begin: only the master key of the wallet changes.
    obtain ⟨w, env, crash, hw, rfl, hplain, hfails⟩ := hbegins
    have hinv := h.2 w hw
    obtain ⟨d, wallet⟩ := s
    cases hw
    cases hstep
    refine runInv_after_id ?_ crash
    unfold encryptWallet
    rw [hplain, hfails]
    exact ensures_pure ((signerBuilt_rules k).kept_some hinv)
  · refine (signerBuilt_rules k).step_kept h ?_ hstep
    obtain ⟨d, wallet⟩ := s
    cases wallet with
    | none =>
      cases op with
      | create load ensure crash =>
        exact ⟨fun _ => trivial, signerBuilt_afterLoad k load d .empty⟩
      | _ => trivial
    | some w =>
      have hw : w.signer.Built k.crypto := h.2 w rfl
      cases op with
      | encryptWallet env crash =>
        intro hplain
        refine ⟨?_, fun _ => trivial, ?_⟩
        · by_contra hfails
          exact hbegins ⟨w, env, crash, rfl, rfl, hplain, Bool.eq_false_iff.mpr hfails⟩
        · show if _ then SignerBuilt k _ _ _ else SignerBuilt k _ _ _
          split
          · exact signerBuilt_afterLoad k env.load _ hw
          · exact hw
      | unlock persist load crash =>
        intro key _
        show if _ then SignerBuilt k _ _ _ else SignerBuilt k _ _ _
        split
        · exact signerBuilt_afterLoad k load _ hw
        · exact hw
      | importxmsskey env behind pubkey seckey crash => exact fun s hadd => hw.addXMSSKey hadd
      | addXMSSKey behind pubkey seckey => exact fun s hadd => hw.addXMSSKey hadd
      | loadState env crash => exact signerBuilt_afterLoad k env d hw
      | signTransaction env managers calls complete crash => exact fun _ => hw
      | getnewxmssaddress env crash => exact hw
      | generateKey io seed crash => exact hw
      | _ => trivial

/-- The signer of every wallet is built by its own functions. -/
theorem signer_built_of_run {ops : List WalletOp} {d : WalletDir} {s : WalletRun} {w : CWallet}
    (hrun : runOps (step k) ops ⟨d, none⟩ = some s) (hw : s.wallet = some w) :
    w.signer.Built k.crypto := by
  have hstart : RunInv (fun _ => True) (SignerBuilt k []) ⟨d, none⟩ := ⟨trivial, by simp⟩
  exact (runOps_preserves (fun _ _ _ => signerBuilt_step) hstart hrun).2 w hw

/-- A key that the wallet knows for an address has that address. -/
theorem CXMSSSigner.Built.knownKey (hs : s.Built c) {hash : Uint160} {key : Blob 64}
    (h : s.knownKey hash = some key) : c.hash160 key.data = hash := by
  unfold CXMSSSigner.knownKey Blob.ofBytes? at h
  split at h
  · rename_i hlen
    cases h
    cases hmap : s.keyIdMap hash with
    | none =>
      rw [CXMSSSigner.getPubKeyForHash, hmap] at hlen
      cases hlen
    | some pubkey =>
      show c.hash160 (s.getPubKeyForHash hash) = hash
      rw [CXMSSSigner.getPubKeyForHash, hmap]
      exact (hs.keyIdMap_eq_some hmap).2
  · cases h

/-! ### Networks -/

theorem networkHrp (net : ChainType) : XMSSAddr.NetworkHrp net.bech32HRP := by
  have hchar : ∀ c ∈ net.bech32HRP, 33 ≤ c ∧ c ≤ 126 ∧ Bech32.isUpper c = false := by
    cases net <;> decide +kernel
  refine ⟨by cases net <;> decide, fun c hc => ?_, by cases net <;> decide⟩
  obtain ⟨hlow, hhigh, hupper⟩ := hchar c hc
  exact ⟨hlow, hhigh, hupper⟩

/-- A string without upper-case letters is in lower case. -/
theorem map_lowerCase_eq_self {str : Bytes} :
    str.map Bech32.lowerCase = str ↔ ∀ ch ∈ str, Bech32.isUpper ch = false := by
  have hchar : ∀ ch, Bech32.lowerCase ch = ch ↔ Bech32.isUpper ch = false :=
    Bech32.forall_char (by decide +kernel)
  have hid : str.map Bech32.lowerCase = str ↔ str.map Bech32.lowerCase = str.map id := by
    rw [List.map_id]
  rw [hid, List.map_inj_left]
  exact forall₂_congr fun ch _ => hchar ch

/-! ### Scripts -/

/-- A script that an XMSS key with this hash can spend, and whose address is `a`. -/
structure PaysAddress (c : Crypto) (net : ChainType) (a : Bytes) (h : Uint160) (script : Script) :
    Prop where
  spendable : (∃ k : Blob 64, c.hash160 k.data = h ∧ script = xmssTemplate k.data) ∨
    script = xmssHashTemplate h.data
  address : encodeDestination c net (extractDestination c script).1 = a

/-- On every network a hash has one address without upper-case letters. -/
theorem decode_eq_some_iff (net : ChainType) (str : Bytes) (h : Uint160) :
    decode str net.bech32HRP = some h ∧ (∀ ch ∈ str, Bech32.isUpper ch = false) ↔
      str = encodeHash h net.bech32HRP := by
  constructor
  · rintro ⟨hdecode, hlower⟩
    rw [← lowerCase_of_decode hdecode, map_lowerCase_eq_self.mpr hlower]
  · rintro rfl
    have hdecode := decode_encodeHash (networkHrp net) h
    exact ⟨hdecode, map_lowerCase_eq_self.mp (lowerCase_of_decode hdecode)⟩

section Scripts
variable {c : Crypto} {net : ChainType} {a : Bytes} {h : Uint160}

theorem solution_data {n : Nat} (b : Blob n) : solution n b.data = b := by
  rw [solution, Blob.ofBytes?, dif_pos b.length_data]
  rfl

/-- The address of a P2XMSS output. -/
theorem address_xmssTemplate (key : Blob 64) :
    encodeDestination c net (extractDestination c (xmssTemplate key.data)).1 =
      encodeHash (c.hash160 key.data) net.bech32HRP := by
  have hsolver : solver (xmssTemplate key.data) = (.p2xmss, [key.data]) :=
    solver_xmssTemplate key.length_data
  rw [extractDestination, hsolver]
  show encodeDestination c net (.xmssHash (.ofPubKey c (solution 64 key.data))) = _
  rw [solution_data]
  rfl

/-- The address of a P2XMSSHASH output. -/
theorem address_xmssHashTemplate (h : Uint160) :
    encodeDestination c net (extractDestination c (xmssHashTemplate h.data)).1 =
      encodeHash h net.bech32HRP := by
  have hsolver : solver (xmssHashTemplate h.data) = (.p2xmssHash, [h.data]) :=
    solver_xmssHashTemplate h.length_data
  rw [extractDestination, hsolver]
  show encodeDestination c net (.xmssHash (.ofHash (solution 20 h.data))) = _
  rw [solution_data]
  rfl

/-- A script that a key of the hash can spend has the address of the hash. -/
theorem paysAddress_iff {script : Script}
    (hspend : (∃ k : Blob 64, c.hash160 k.data = h ∧ script = xmssTemplate k.data) ∨
      script = xmssHashTemplate h.data) :
    PaysAddress c net a h script ↔ a = encodeHash h net.bech32HRP := by
  have haddress : encodeDestination c net (extractDestination c script).1 =
      encodeHash h net.bech32HRP := by
    rcases hspend with ⟨key, rfl, rfl⟩ | rfl
    · exact address_xmssTemplate key
    · exact address_xmssHashTemplate h
  exact ⟨fun hpays => hpays.address.symm.trans haddress, fun ha => ⟨hspend, haddress.trans ha.symm⟩⟩

/-- No XMSS key spends a P2PKH output. -/
theorem not_paysAddress_pkHash (hash : Uint160) :
    ¬ PaysAddress c net a h (getScriptForDestination (.pkHash hash)) := by
  intro hpays
  rcases hpays.spendable with ⟨key, -, hkey⟩ | hhash
  · -- A P2XMSS script is longer.
    have hlen := congrArg List.length hkey
    simp [getScriptForDestination, xmssTemplate, pushBytes] at hlen
  · -- A P2XMSSHASH script has another last opcode.
    have hlast := congrArg (fun script => script.reverse.head?) hhash
    simp [getScriptForDestination, xmssHashTemplate] at hlast
    exact absurd hlast (by decide)

end Scripts

/-! ### Calls -/

/-- A call that pays an address. -/
inductive SendCall where
  | sendtoxmssaddress (addr_str : Bytes) (nAmount : Int) (fSubtractFeeFromAmount : Bool)
  | sendfromxmssaddress (from_addr_str to_addr_str : Bytes) (nAmount : Int)
      (fSubtractFeeFromAmount : Bool)

namespace SendCall

/-- The address that is paid. -/
def address : SendCall → Bytes
  | sendtoxmssaddress addr_str _ _ => addr_str
  | sendfromxmssaddress _ to_addr_str _ _ => to_addr_str

/-- The recipient that the call builds. -/
def recipient (c : Crypto) (env : RpcEnv) (s : CXMSSSigner) :
    SendCall → Except JSONRPCError CRecipient
  | sendtoxmssaddress addr_str nAmount fSubtract => sendtoRecipient c env s addr_str nAmount fSubtract
  | sendfromxmssaddress from_addr_str to_addr_str nAmount fSubtract =>
    (sendfromRecipient c env s from_addr_str to_addr_str nAmount fSubtract).map Prod.snd

/-- The call makes no output that commits to a hash. -/
def needsKey : SendCall → Bool
  | sendtoxmssaddress .. => false
  | sendfromxmssaddress .. => true

end SendCall

/-- The destination of a recipient, by what the wallet knows. -/
theorem recipient_dest {env : RpcEnv} {call : SendCall} {h : Uint160}
    (hdecode : decode call.address env.net.bech32HRP = some h) {r : CRecipient}
    (hr : call.recipient c env s = .ok r) :
    (∃ key, s.knownKey h = some key ∧ r.dest = .xmssHash (.ofPubKey c key)) ∨
      (s.knownKey h = none ∧ r.dest = if call.needsKey then .pkHash h else .xmssHash (.ofHash h)) := by
  cases call with
  | sendtoxmssaddress addr_str nAmount fSubtract =>
    replace hdecode : decode addr_str env.net.bech32HRP = some h := hdecode
    replace hr : sendtoRecipient c env s addr_str nAmount fSubtract = .ok r := hr
    unfold sendtoRecipient at hr
    simp only [hdecode] at hr
    split at hr
    · cases hr
    split at hr
    · cases hr
    split at hr
    · rename_i key hkey
      cases hr
      exact .inl ⟨key, hkey, rfl⟩
    · rename_i hkey
      cases hr
      exact .inr ⟨hkey, rfl⟩
  | sendfromxmssaddress from_addr_str to_addr_str nAmount fSubtract =>
    replace hdecode : decode to_addr_str env.net.bech32HRP = some h := hdecode
    replace hr : (sendfromRecipient c env s from_addr_str to_addr_str nAmount fSubtract).map Prod.snd =
      .ok r := hr
    unfold sendfromRecipient sendfromDestination at hr
    simp only [hdecode] at hr
    split at hr
    · cases hr
    split at hr
    · cases hr
    split at hr
    · cases hr
    rename_i dest hdest
    cases hr
    split at hdest
    · cases hdest
    split at hdest
    · rename_i key hkey
      cases hdest
      exact .inl ⟨key, hkey, rfl⟩
    · rename_i hkey
      cases hdest
      exact .inr ⟨hkey, rfl⟩

section Unknown
variable {c : Crypto} {env : RpcEnv} {s : CXMSSSigner} {to_addr_str : Bytes} {h : Uint160}
  {nAmount : Int}

/-- `sendtoxmssaddress` for a key that the wallet does not know. -/
theorem sendto_of_unknown (hdecode : decode to_addr_str env.net.bech32HRP = some h)
    (hburned : env.isKnownBurnedPoUWAddress h = false) (hpos : 0 < nAmount)
    (hkey : s.knownKey h = none) (fSubtract : Bool) :
    SendCall.recipient c env s (.sendtoxmssaddress to_addr_str nAmount fSubtract) =
      .ok ⟨.xmssHash (.ofHash h), nAmount, fSubtract⟩ := by
  show sendtoRecipient c env s to_addr_str nAmount fSubtract = _
  unfold sendtoRecipient
  simp only [hdecode, hburned, hkey, if_neg (not_le.mpr hpos), Bool.false_eq_true, if_false]

/-- `sendfromxmssaddress` for a key that the wallet does not know. -/
theorem sendfrom_of_unknown {from_addr_str : Bytes} {from_hash : Uint160}
    (hfrom : decode from_addr_str env.net.bech32HRP = some from_hash)
    (hdecode : decode to_addr_str env.net.bech32HRP = some h)
    (hburned : env.isKnownBurnedPoUWAddress h = false) (hpos : 0 < nAmount)
    (hkey : s.knownKey h = none) (fSubtract : Bool) :
    SendCall.recipient c env s (.sendfromxmssaddress from_addr_str to_addr_str nAmount fSubtract) =
      .ok ⟨.pkHash h, nAmount, fSubtract⟩ := by
  show (sendfromRecipient c env s from_addr_str to_addr_str nAmount fSubtract).map Prod.snd = _
  unfold sendfromRecipient sendfromDestination
  simp only [hfrom, hdecode, hburned, hkey, if_neg (not_le.mpr hpos), Bool.false_eq_true, if_false]
  rfl

end Unknown

/-- **The output of a call belongs to the address that the call was given.** A key whose hash is
in the address can spend the output, and the address of the output is that string. This holds for
a string without upper-case letters, and for `sendfromxmssaddress` only if the wallet knows the
key. -/
theorem recipient_paysAddress_iff (k : WalletPrims) (env : RpcEnv) (ops : List WalletOp)
    (d : WalletDir) (s : WalletRun) (w : CWallet)
    (hrun : runOps (WalletRun.step k) ops ⟨d, none⟩ = some s) (hw : s.wallet = some w)
    (call : SendCall) (h : Uint160)
    (hdecode : XMSSAddr.decode call.address env.net.bech32HRP = some h) (r : CRecipient)
    (hr : call.recipient k.crypto env w.signer = .ok r) :
    PaysAddress k.crypto env.net call.address h (getScriptForDestination r.dest) ↔
      (∀ ch ∈ call.address, Bech32.isUpper ch = false) ∧
        (call.needsKey = true → (w.signer.knownKey h).isSome) := by
  have hlower : call.address = encodeHash h env.net.bech32HRP ↔
      ∀ ch ∈ call.address, Bech32.isUpper ch = false := by
    rw [← map_lowerCase_eq_self, lowerCase_of_decode hdecode]
    exact eq_comm
  rcases recipient_dest hdecode hr with ⟨key, hkey, hdest⟩ | ⟨hnone, hdest⟩
  · have hhash := (signer_built_of_run hrun hw).knownKey hkey
    rw [hdest, hkey]
    show PaysAddress k.crypto env.net call.address h (xmssTemplate key.data) ↔ _
    rw [paysAddress_iff (.inl ⟨key, hhash, rfl⟩), hlower]
    simp
  · rw [hdest, hnone]
    cases hneeds : call.needsKey with
    | true =>
      -- The P2PKH fallback.
      simp only [if_true, isSome_none, forall_const, Bool.false_eq_true, and_false, iff_false]
      exact not_paysAddress_pkHash h
    | false =>
      show PaysAddress k.crypto env.net call.address h (xmssHashTemplate h.data) ↔ _
      rw [paysAddress_iff (.inr rfl), hlower]
      simp

/-! ### An address of another wallet -/

/-- The main network without burned addresses. -/
def sampleRpcEnv : RpcEnv where
  net := .main
  isKnownBurnedPoUWAddress _ := false
  decodeDestination _ := .noDestination []

/-- A hash for which the sample wallet has no key, its address, and the address of the wallet. -/
def foreignHash : Uint160 := Blob.ofNat 20 7

@[inherit_doc foreignHash]
def foreignAddress : Bytes := XMSSAddr.encodeHash foreignHash ChainType.main.bech32HRP

@[inherit_doc foreignHash]
def ownAddress : Bytes :=
  XMSSAddr.encodeHash (sampleCrypto.hash160 samplePubkey) ChainType.main.bech32HRP

theorem decode_foreignAddress :
    decode foreignAddress sampleRpcEnv.net.bech32HRP = some foreignHash :=
  decode_encodeHash (networkHrp .main) foreignHash

/-- A new wallet that does not know the key of the address. -/
theorem foreign_run : ∃ s w, runOps (step sampleWallet) [createOp sampleSeed]
    ⟨WalletDir.empty, none⟩ = some s ∧ s.wallet = some w ∧ w.signer.knownKey foreignHash = none := by
  have hrun : (runOps (step sampleWallet) [createOp sampleSeed]
      ⟨WalletDir.empty, none⟩).any (fun s => s.wallet.any fun w =>
        decide (w.signer.knownKey foreignHash = none)) = true := by
    decide +kernel
  obtain ⟨s, hs, hwallet⟩ := (any_eq_true _ _).mp hrun
  obtain ⟨w, hw, hkey⟩ := (any_eq_true _ _).mp hwallet
  exact ⟨s, w, hs, hw, of_decide_eq_true hkey⟩

/-- A payment of `sendfromxmssaddress` to the address of another wallet is a P2PKH output. -/
theorem foreign_payment_not_spendable : ∃ s w r,
    runOps (WalletRun.step sampleWallet) [createOp sampleSeed] ⟨WalletDir.empty, none⟩ = some s ∧
    s.wallet = some w ∧
    XMSSAddr.decode foreignAddress sampleRpcEnv.net.bech32HRP = some foreignHash ∧
    SendCall.recipient sampleWallet.crypto sampleRpcEnv w.signer
      (.sendfromxmssaddress ownAddress foreignAddress 1 false) = .ok r ∧
    r.dest = .pkHash foreignHash ∧
    ¬ PaysAddress sampleWallet.crypto sampleRpcEnv.net foreignAddress foreignHash
      (getScriptForDestination r.dest) := by
  obtain ⟨s, w, hs, hw, hkey⟩ := foreign_run
  have hown : decode ownAddress sampleRpcEnv.net.bech32HRP = some _ :=
    decode_encodeHash (networkHrp .main) _
  refine ⟨s, w, ⟨.pkHash foreignHash, 1, false⟩, hs, hw, decode_foreignAddress, ?_, rfl,
    not_paysAddress_pkHash foreignHash⟩
  exact sendfrom_of_unknown hown decode_foreignAddress rfl (by decide) hkey false

/-- A payment of `sendtoxmssaddress` to that address belongs to it. -/
theorem recipient_paysAddress_iff_foreign : ∃ s w r,
    runOps (WalletRun.step sampleWallet) [createOp sampleSeed] ⟨WalletDir.empty, none⟩ = some s ∧
    s.wallet = some w ∧
    SendCall.recipient sampleWallet.crypto sampleRpcEnv w.signer
      (.sendtoxmssaddress foreignAddress 1 false) = .ok r ∧
    PaysAddress sampleWallet.crypto sampleRpcEnv.net foreignAddress foreignHash
      (getScriptForDestination r.dest) := by
  obtain ⟨s, w, hs, hw, hkey⟩ := foreign_run
  have hr : SendCall.recipient sampleWallet.crypto sampleRpcEnv w.signer
      (.sendtoxmssaddress foreignAddress 1 false) = .ok ⟨.xmssHash (.ofHash foreignHash), 1, false⟩ :=
    sendto_of_unknown decode_foreignAddress rfl (by decide) hkey false
  have hlower : ∀ ch ∈ foreignAddress, Bech32.isUpper ch = false := by decide +kernel
  exact ⟨s, w, _, hs, hw, hr,
    (recipient_paysAddress_iff sampleWallet sampleRpcEnv _ _ s w hs hw
      (.sendtoxmssaddress foreignAddress 1 false) foreignHash decode_foreignAddress _ hr).mpr ⟨hlower, by simp [SendCall.needsKey]⟩⟩

end AssentianPQE
