import AssentianPQE.Proofs.XmssRecipients

/-!
# What a locked wallet exports

`Lock` forgets the master key. The secret keys stay in the signer, and `exportxmsskey` reads them
from there without a test of the lock.

`exportxmsskey_fails_iff` says which signers give nothing away. `locked_export_fails_iff` follows
the signer through a sequence of calls: after it no address is exported if and only if there was
no key to export before it and no call has brought one.
-/

set_option autoImplicit false

namespace AssentianPQE

open Lib Durable List CWallet

/-! ### The call -/

/-- The signer has a secret key for an address. -/
def CXMSSSigner.Exports (s : CXMSSSigner) : Prop :=
  ∃ hash, (s.getPubKeyForHash hash).length = 64 ∧
    s.getSecKeyForPubkey (s.getPubKeyForHash hash) ≠ []

/-- `exportxmsskey` fails for every address if and only if the signer has nothing to export. It
does not matter whether the wallet is locked. -/
theorem exportxmsskey_fails_iff (net : ChainType) (io : Io) (w : CWallet) (d : LedgerDir) :
    (∀ addr_str, ∃ e, w.exportxmsskey net io addr_str d = .error e) ↔ ¬ w.signer.Exports := by
  constructor
  · rintro hfails ⟨hash, hlen, hsec⟩
    -- The address of the hash is exported.
    obtain ⟨e, he⟩ := hfails (XMSSAddr.encodeHash hash net.bech32HRP)
    have hfound : ¬ (w.signer.getPubKeyForHash hash = [] ∨
        (w.signer.getPubKeyForHash hash).length ≠ 64) := by
      rintro (hnil | hne)
      · rw [hnil] at hlen
        cases hlen
      · exact hne hlen
    unfold exportxmsskey at he
    simp only [XMSSAddr.decode_encodeHash (networkHrp net), if_neg hfound, if_neg hsec] at he
    cases he
  · intro hnone addr_str
    unfold exportxmsskey
    split
    · exact ⟨_, rfl⟩
    rename_i hash _
    dsimp only
    split
    · exact ⟨_, rfl⟩
    rename_i hfound
    split
    · exact ⟨_, rfl⟩
    · rename_i hsec
      rw [not_or, not_not] at hfound
      exact absurd ⟨hash, hfound.2, hsec⟩ hnone

/-! ### Signers -/

/-- A key that was added with its secret key is exported. -/
theorem exports_insert (c : Crypto) {pubkey : Bytes} {entry : XMSSKeyEntry}
    (hlen : pubkey.length = 64) (hsk : entry.sk ≠ []) (s : CXMSSSigner) :
    (s.insert c pubkey entry).Exports := by
  have hkey : (s.insert c pubkey entry).getPubKeyForHash (c.hash160 pubkey) = pubkey := by
    simp [CXMSSSigner.getPubKeyForHash, CXMSSSigner.insert, CXMSSSigner.getXMSSKeyID]
  refine ⟨c.hash160 pubkey, ?_, ?_⟩
  · rw [hkey]
    exact hlen
  · rw [hkey]
    simpa [CXMSSSigner.getSecKeyForPubkey, CXMSSSigner.insert] using hsk

theorem not_exports_of_isEmpty {s : CXMSSSigner} (h : s.xmssKeys.isEmpty = true) : ¬ s.Exports := by
  rintro ⟨hash, -, hsec⟩
  have hempty : s.xmssKeys = ∅ := Std.ExtTreeMap.isEmpty_iff.mp h
  apply hsec
  simp [CXMSSSigner.getSecKeyForPubkey, hempty]

theorem exports_addXMSSKey {c : Crypto} {behind pubkey seckey : Bytes} {s s' : CXMSSSigner}
    (h : s.addXMSSKey c behind pubkey seckey = some s') : s'.Exports := by
  unfold CXMSSSigner.addXMSSKey at h
  split at h
  · cases h
  rename_i hlen
  split at h
  · cases h
  rename_i hsec
  split at h
  · cases h
  split at h
  · cases h
  rw [← Option.some.inj h]
  exact exports_insert c (not_not.mp hlen) hsec s

/-- What is assumed of `xmss_keypair`: a key pair has a secret key. -/
def KeypairSecret (x : XmssKeys) : Prop :=
  ∀ seed pk sk, x.keypair seed = some (pk, sk) → sk ≠ []

/-- A key is exported after `GenerateKey` if one was generated or one was before. -/
theorem exports_afterGenerate (c : Crypto) {x : XmssKeys} (hx : KeypairSecret x) (seed : Bytes)
    (s : CXMSSSigner) :
    (afterGenerate c x seed s).2.Exports ↔ s.Exports ∨ generatedKey x seed ≠ none := by
  unfold afterGenerate
  cases hkey : generatedKey x seed with
  | none => simp
  | some p =>
    obtain ⟨pubkey, sk⟩ := p
    have hlen := length_generatedKey hkey
    have hsk : sk ≠ [] := by
      obtain ⟨q, hq, hp⟩ := Option.bind_eq_some_iff.mp hkey
      split at hp
      · cases hp
        exact hx seed q.1 q.2 hq
      · cases hp
    simp only [ne_eq, reduceCtorEq, not_false_eq_true, or_true, iff_true]
    exact exports_insert c hlen hsk s

/-! ### Calls -/

/-- The signer that a record leaves, if it can be read and opened with the master key. -/
def CXMSSSigner.afterRecord (k : WalletPrims) (load : LoadEnv) (d : WalletDir) (key : Bytes)
    (s : CXMSSSigner) : CXMSSSigner :=
  match (if load.readOk then d.xmssState else none).bind (openRecord k.crypter (some key)) with
  | none => s
  | some plain => (s.loaded k.crypto plain).2

/-- The signer that `Unlock` leaves: the record is only loaded into a signer without keys. -/
def CXMSSSigner.afterUnlock (k : WalletPrims) (load : LoadEnv) (d : WalletDir) (key : Bytes)
    (s : CXMSSSigner) : CXMSSSigner :=
  if s.xmssKeys.isEmpty then s.afterRecord k load d key else s

theorem signer_afterLoad_eq (k : WalletPrims) (load : LoadEnv) (d : WalletDir) {w : CWallet}
    {key : Bytes} (hkey : w.vMasterKey = some key) :
    (w.afterLoad k load d).signer = w.signer.afterRecord k load d key := by
  unfold afterLoad CXMSSSigner.afterRecord
  rw [hkey]
  cases (if load.readOk then d.xmssState else none).bind (openRecord k.crypter (some key)) <;> rfl

section Calls
variable {k : WalletPrims} {d : WalletDir} {w : CWallet}

/-- The record is written, and the wallet in memory stays as it is. -/
theorem persist_signer (env : PersistEnv) (w : CWallet) :
    Durable.Ensures (do w.persistXMSSState k env; pure w) d fun _ r => ∀ w', r = some w' → w' = w := by
  have htrivial : (w.persistXMSSState k env).Ensures d fun _ _ => True := fun _ => trivial
  refine ensures_bind htrivial (fun _ _ _ h => by cases h) fun d' _ _ => ?_
  exact ensures_pure fun w' h => (Option.some.inj h).symm

theorem unlock_signer (persist : PersistEnv) (load : LoadEnv) {key : Bytes}
    (hkey : w.mapMasterKeys = some key) :
    (w.unlock k persist load).Ensures d fun _ r =>
      ∀ w', r = some w' → w'.signer = w.signer.afterUnlock k load d key := by
  obtain ⟨signer, mapMasterKeys, vMasterKey⟩ := w
  cases hkey
  unfold CXMSSSigner.afterUnlock
  show Durable.Ensures (if signer.xmssKeys.isEmpty then _ else _) d _
  split
  · refine ensures_mono (load_ensures k load ⟨signer, some key, some key⟩ d) ?_
    rintro d' r ⟨l, -, hr⟩ w' hw'
    rw [hr w' hw']
    exact signer_afterLoad_eq k load d rfl
  · refine ensures_mono (persist_signer persist ⟨signer, some key, some key⟩) ?_
    intro d' r hr w' hw'
    rw [hr w' hw']

theorem encryptWallet_signer (env : CWallet.EncryptEnv) :
    (w.encryptWallet k env).Ensures d fun _ r => ∀ w', r = some w' →
      w'.signer = if w.isCrypted = false ∧ env.txnBegins = true then
        w.signer.afterUnlock k env.load d env.masterKey else w.signer := by
  unfold encryptWallet
  split
  · rename_i hcrypted
    refine ensures_pure fun w' h => ?_
    rw [← Option.some.inj h, if_neg (by simp [hcrypted])]
  rename_i hplain
  split
  · rename_i hbegins
    refine ensures_pure fun w' h => ?_
    rw [← Option.some.inj h, if_neg (by simpa using fun _ => hbegins)]
  · rename_i hbegins
    rw [if_pos ⟨Bool.eq_false_iff.mpr hplain, by simpa using hbegins⟩]
    have hunlock := unlock_signer (k := k) (d := { d with masterKey := some env.masterKey })
      (w := lock { w with mapMasterKeys := some env.masterKey }) env.persist env.load rfl
    rw [signer_lock] at hunlock
    refine ensures_write_bind (fun _ h => by cases h) ?_
    refine ensures_bind hunlock (fun _ _ _ h => by cases h) ?_
    intro d' w₁ hw₁
    refine ensures_pure fun w' h => ?_
    have hsame : w'.signer = w₁.signer := by
      rw [← Option.some.inj h]
      split
      · exact w₁.signer_lock
      · rfl
    rw [hsame, hw₁ w₁ rfl]
    rfl

theorem getnewxmssaddress_signer (env : KeyEnv) :
    (w.getnewxmssaddress k env).Ensures d fun _ r => ∀ w', r = some w' →
      w'.signer = (afterGenerate k.crypto k.keys env.seed w.signer).2 := by
  have hgenerate : (w.generateKey k env.io env.seed).Ensures d fun _ r => ∀ p, r = some p →
      p.2.signer = (afterGenerate k.crypto k.keys env.seed w.signer).2 := by
    unfold generateKey
    refine ensures_bind (WalletDir.onLedger_ensures
      (generateKey_ensures k.crypto k.keys env.io env.seed w.signer d.ledger))
      (fun _ _ _ h => by cases h) ?_
    rintro d' ⟨pubkey, signer⟩ ⟨l, -, -, hout⟩
    have hsigner : signer = (afterGenerate k.crypto k.keys env.seed w.signer).2 := by
      rw [← hout _ rfl]
    dsimp only
    split
    · exact ensures_pure fun p h => by rw [← Option.some.inj h]; exact hsigner
    · have htrivial : (WalletDir.note (.created pubkey)).Ensures d' fun _ _ => True := fun _ => trivial
      refine ensures_bind htrivial (fun _ _ _ h => by cases h) fun d₁ _ _ => ?_
      exact ensures_pure fun p h => by rw [← Option.some.inj h]; exact hsigner
  refine ensures_bind hgenerate (fun _ _ _ h => by cases h) ?_
  rintro d' ⟨pubkey, w₁⟩ hw₁
  have hsigner : w₁.signer = _ := hw₁ _ rfl
  dsimp only
  split
  · exact ensures_pure fun w' h => by rw [← Option.some.inj h]; exact hsigner
  · refine ensures_mono (persist_signer env.persist w₁) ?_
    intro d₁ r hr w' hw'
    rw [hr w' hw']
    exact hsigner

theorem importxmsskey_signer (env : PersistEnv) (behind pubkey seckey : Bytes) :
    (w.importxmsskey k env behind pubkey seckey).Ensures d fun _ r => ∀ w', r = some w' →
      w'.signer = (w.signer.addXMSSKey k.crypto behind pubkey seckey).getD w.signer := by
  unfold importxmsskey
  cases w.signer.addXMSSKey k.crypto behind pubkey seckey with
  | none => exact ensures_pure fun w' h => by rw [← Option.some.inj h]; rfl
  | some signer =>
    refine ensures_mono (persist_signer env { w with signer := signer }) ?_
    intro d' r hr w' hw'
    rw [hr w' hw']
    rfl

end Calls

/-! ### Sequences of calls -/

/-- `EncryptWallet`, `Unlock`, `Lock`, `getnewxmssaddress` and `importxmsskey`. -/
def WalletOp.isLockCall : WalletOp → Bool
  | .encryptWallet .. | .unlock .. | .lock | .getnewxmssaddress .. | .importxmsskey .. => true
  | _ => false

/-- A call that brings no key into memory: no key pair is generated, an imported key is refused,
and the record that is loaded into a signer without keys has none. -/
def BringsNoKey (k : WalletPrims) (op : WalletOp) (s : WalletRun) : Prop :=
  match s.wallet, op with
  | some w, .encryptWallet env _ => w.isCrypted = false → env.txnBegins = true →
    w.signer.xmssKeys.isEmpty = true →
      ¬ (w.signer.afterRecord k env.load s.disk env.masterKey).Exports
  | some w, .unlock _ load _ => ∀ key, w.mapMasterKeys = some key →
    w.signer.xmssKeys.isEmpty = true → ¬ (w.signer.afterRecord k load s.disk key).Exports
  | some _, .getnewxmssaddress env _ => generatedKey k.keys env.seed = none
  | some w, .importxmsskey _ behind pubkey seckey _ =>
    w.signer.addXMSSKey k.crypto behind pubkey seckey = none
  | _, _ => True

/-- The wallet after a call that has returned. -/
theorem signer_after {p : Durable WalletDir CWallet} {d : WalletDir} {crash : Nat} {w' : CWallet}
    {signer : CXMSSSigner} (h : p.Ensures d fun _ r => ∀ w', r = some w' → w'.signer = signer)
    (hw' : (WalletRun.after id (p.run d crash)).wallet = some w') : w'.signer = signer := by
  have hres : (p.run d crash).2 = some w' := by
    rwa [WalletRun.after, Option.map_id] at hw'
  obtain ⟨r, hr, heq | hnone⟩ := h.run crash
  · exact hr w' (heq ▸ hres)
  · rw [hnone] at hres
    cases hres

/-- `Unlock` exports a key afterwards if it did before or if it loads one. -/
theorem exports_afterUnlock (k : WalletPrims) (load : LoadEnv) (d : WalletDir) (key : Bytes)
    (s : CXMSSSigner) :
    (s.afterUnlock k load d key).Exports ↔ s.Exports ∨
      ¬ (s.xmssKeys.isEmpty = true → ¬ (s.afterRecord k load d key).Exports) := by
  unfold CXMSSSigner.afterUnlock
  split
  · rename_i hempty
    simp [not_exports_of_isEmpty hempty, hempty]
  · rename_i hkeys
    simp [hkeys]

/-- A key is exported after a call if one was before it, or if the call has brought one. -/
theorem exports_step {k : WalletPrims} (hx : KeypairSecret k.keys) {op : WalletOp}
    (hop : op.isLockCall = true) {d : WalletDir} {w w' : CWallet} {s' : WalletRun}
    (hstep : WalletRun.step k op ⟨d, some w⟩ = some s') (hw' : s'.wallet = some w') :
    w'.signer.Exports ↔ w.signer.Exports ∨ ¬ BringsNoKey k op ⟨d, some w⟩ := by
  cases op with
  | encryptWallet env crash =>
    cases hstep
    rw [signer_after (encryptWallet_signer env) hw']
    show _ ↔ _ ∨ ¬ (w.isCrypted = false → env.txnBegins = true → _)
    split
    · rename_i hcond
      simp only [hcond.1, hcond.2, forall_const]
      exact exports_afterUnlock k env.load d env.masterKey w.signer
    · rename_i hcond
      constructor
      · exact .inl
      · rintro (hexports | hbrings)
        · exact hexports
        · exact absurd (fun hplain hbegins => absurd ⟨hplain, hbegins⟩ hcond) hbrings
  | unlock persist load crash =>
    cases hstep
    show _ ↔ _ ∨ ¬ ∀ key, w.mapMasterKeys = some key → _
    cases hkey : w.mapMasterKeys with
    | none =>
      have hsame : (w.unlock k persist load).Ensures d fun _ r =>
          ∀ w', r = some w' → w'.signer = w.signer := by
        unfold unlock
        rw [hkey]
        exact ensures_pure fun w' h => by rw [← Option.some.inj h]
      rw [signer_after hsame hw']
      simp
    | some key =>
      rw [signer_after (unlock_signer persist load hkey) hw', exports_afterUnlock]
      simp
  | lock =>
    cases hstep
    cases hw'
    rw [w.signer_lock]
    simp [BringsNoKey]
  | getnewxmssaddress env crash =>
    cases hstep
    rw [signer_after (getnewxmssaddress_signer env) hw', exports_afterGenerate k.crypto hx]
    exact Iff.rfl
  | importxmsskey env behind pubkey seckey crash =>
    cases hstep
    rw [signer_after (importxmsskey_signer env behind pubkey seckey) hw']
    show _ ↔ _ ∨ ¬ w.signer.addXMSSKey k.crypto behind pubkey seckey = none
    cases hadd : w.signer.addXMSSKey k.crypto behind pubkey seckey with
    | none => simp
    | some signer => simp [exports_addXMSSKey hadd]
  | _ => cases hop

/-- Only `create` is possible without a wallet. -/
theorem wallet_of_lockCalls {k : WalletPrims} {ops : List WalletOp} {s t : WalletRun} {w : CWallet}
    (hops : ∀ op ∈ ops, op.isLockCall = true) (hrun : runOps (WalletRun.step k) ops s = some t)
    (hw : t.wallet = some w) : s.wallet.isSome = true := by
  obtain ⟨d, wallet⟩ := s
  cases wallet with
  | some w₀ => rfl
  | none =>
    cases ops with
    | nil =>
      cases hrun
      cases hw
    | cons op ops =>
      obtain ⟨s', hstep, -⟩ := runOps_cons hrun
      have hop := hops op mem_cons_self
      cases op with
      | create load ensure crash => cases hop
      | _ => cases hstep

/-- **What a wallet exports after a sequence of calls, locked or not.** `exportxmsskey` fails for
every address if and only if there was no key to export before the calls and none of them has
brought one. -/
theorem locked_export_fails_iff (k : WalletPrims) (hx : KeypairSecret k.keys) (net : ChainType)
    (io : Io) (d : WalletDir) (w₀ : CWallet) (ops : List WalletOp)
    (hops : ∀ op ∈ ops, op.isLockCall = true) (t : WalletRun) (w : CWallet)
    (hrun : runOps (WalletRun.step k) ops ⟨d, some w₀⟩ = some t) (hw : t.wallet = some w) :
    (∀ addr_str, ∃ e, w.exportxmsskey net io addr_str t.disk.ledger = .error e) ↔
      ¬ w₀.signer.Exports ∧
        StepsMeet (WalletRun.step k) (BringsNoKey k) ops ⟨d, some w₀⟩ := by
  rw [exportxmsskey_fails_iff]
  induction ops generalizing d w₀ with
  | nil =>
    cases hrun
    cases hw
    simp [StepsMeet]
  | cons op ops ih =>
    obtain ⟨s', hstep, hrest⟩ := runOps_cons hrun
    have hops' : ∀ op ∈ ops, op.isLockCall = true :=
      fun op hop => hops op (mem_cons_of_mem _ hop)
    obtain ⟨d', wallet'⟩ := s'
    have hsome := wallet_of_lockCalls hops' hrest hw
    cases wallet' with
    | none => cases hsome
    | some w' =>
      have hiff := exports_step hx (hops op mem_cons_self) hstep rfl
      rw [ih d' w' hops' hrest]
      show _ ↔ _ ∧ BringsNoKey k op ⟨d, some w₀⟩ ∧
        ∀ s', WalletRun.step k op ⟨d, some w₀⟩ = some s' → _
      rw [hstep]
      simp only [Option.some.injEq, forall_eq', hiff, not_or, not_not, and_assoc]

/-! ### A locked wallet with a key -/

/-- A wallet is created and encrypted, which locks it. It still gives away its secret key. -/
theorem locked_wallet_exports_secret : ∃ t w key,
    runOps (WalletRun.step sampleWallet) [createOp sampleSeed, .encryptWallet sampleEncrypt 100]
      ⟨WalletDir.empty, none⟩ = some t ∧
    t.wallet = some w ∧ w.isCrypted = true ∧ w.isLocked = true ∧
    w.exportxmsskey .main sampleIo ownAddress t.disk.ledger = .ok key ∧ key.seckey ≠ [] := by
  have hrun : (runOps (WalletRun.step sampleWallet)
      [createOp sampleSeed, .encryptWallet sampleEncrypt 100] ⟨WalletDir.empty, none⟩).any
      (fun t => t.wallet.any fun w => w.isCrypted && w.isLocked &&
        match w.exportxmsskey .main sampleIo ownAddress t.disk.ledger with
        | .ok key => key.seckey ≠ []
        | .error _ => false) = true := by
    decide +kernel
  obtain ⟨t, ht, hwallet⟩ := (Option.any_eq_true _ _).mp hrun
  obtain ⟨w, hw, hexport⟩ := (Option.any_eq_true _ _).mp hwallet
  rw [Bool.and_eq_true, Bool.and_eq_true] at hexport
  obtain ⟨⟨hcrypted, hlocked⟩, hkey⟩ := hexport
  split at hkey
  next key hok => exact ⟨t, w, key, ht, hw, hcrypted, hlocked, hok, of_decide_eq_true hkey⟩
  next => cases hkey

theorem keypairSecret_sampleKeys : KeypairSecret sampleKeys := by
  intro seed pk sk h
  obtain ⟨-, rfl⟩ := sampleKeys_keypair h
  exact cons_ne_nil _ _

/-- An encrypted wallet without keys, on a datadir without a record, is unlocked and locked. -/
theorem locked_export_fails_iff_no_keys : ∃ t w,
    runOps (WalletRun.step sampleWallet) [.unlock samplePersist sampleLoad 100, .lock]
      ⟨WalletDir.empty, some { mapMasterKeys := some [1, 2, 3] }⟩ = some t ∧
    t.wallet = some w ∧ w.isLocked = true ∧
    ∀ addr_str, ∃ e, w.exportxmsskey .main sampleIo addr_str t.disk.ledger = .error e := by
  have hrun : (runOps (WalletRun.step sampleWallet) [.unlock samplePersist sampleLoad 100, .lock]
      ⟨WalletDir.empty, some { mapMasterKeys := some [1, 2, 3] }⟩).any
      (fun t => t.wallet.any isLocked) = true := by
    decide +kernel
  obtain ⟨t, ht, hwallet⟩ := (Option.any_eq_true _ _).mp hrun
  obtain ⟨w, hw, hlocked⟩ := (Option.any_eq_true _ _).mp hwallet
  have hempty : ¬ CXMSSSigner.empty.Exports := not_exports_of_isEmpty (by decide)
  have hlock : ∀ s, BringsNoKey sampleWallet .lock s := by
    rintro ⟨d, wallet⟩
    cases wallet <;> trivial
  refine ⟨t, w, ht, hw, hlocked, ?_⟩
  refine (locked_export_fails_iff sampleWallet keypairSecret_sampleKeys .main sampleIo _ _ _
    (by decide) t w ht hw).mpr ⟨hempty, ?_, fun s _ => ⟨hlock s, fun _ _ => trivial⟩⟩
  -- There is no record to load.
  exact fun key _ _ => hempty

end AssentianPQE
