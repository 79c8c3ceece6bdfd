import AssentianPQE.Proofs.RecordKeeps
import AssentianPQE.Proofs.SpentKeys
import AssentianPQE.Wallet.SendCalls

/-!
# Keys that are given out before they are stored

`getnewxmssaddress`, `importxmsskey` and the change of the send calls bring a new key into memory
and then call `PersistXMSSState`, which returns nothing. A wallet that is encrypted and locked
writes no record, and neither does one whose database fails; the address is returned all the same.

`contains_persist_iff` says when a key is in the record after `PersistXMSSState`. The main result
`issued_key_stored_iff` carries it to the calls, for every wallet that a run can reach.
-/

set_option autoImplicit false

namespace AssentianPQE

open Lib Durable List Option CXMSSSigner Bool WalletRun Nat

/-! ### What is written -/

def WALLET_CRYPTO_KEY_SIZE : Nat := 32

/-- The assumption on `EncryptSecret`: it fails for a key of the wrong size, and only then. -/
def EncryptSpec (e : Crypter) : Prop :=
  ∀ key text iv, (e.encryptSecret key text iv).isSome = true ↔ key.length = WALLET_CRYPTO_KEY_SIZE

/-- `PersistXMSSState` writes a record: the database takes it, and an encrypted wallet is unlocked
with a key of the right size. -/
def CWallet.Writes (env : PersistEnv) (w : CWallet) : Prop :=
  env.writeOk = true ∧
    (w.isCrypted = true → ∃ key ∈ w.vMasterKey, key.length = WALLET_CRYPTO_KEY_SIZE)

/-- After a write of the record a key is in it: the record is written, and the master key of an
encrypted wallet is in the database, or the record is left as it is and has the key. -/
def CWallet.Stores (k : WalletPrims) (env : PersistEnv) (w : CWallet) (d : WalletDir)
    (pubkey sk : Bytes) : Prop :=
  (w.Writes env ∧ (w.isCrypted = true → d.masterKey.isSome = true)) ∨
    (¬ w.Writes env ∧ d.Contains k pubkey sk)

/-- There is a record to write. -/
theorem isSome_record_iff {e : Crypter} (henc : EncryptSpec e) (iv : Uint256) (w : CWallet) :
    (w.record e iv).isSome = true ↔
      (w.isCrypted = true → ∃ key ∈ w.vMasterKey, key.length = WALLET_CRYPTO_KEY_SIZE) := by
  unfold CWallet.record
  cases hcrypted : w.isCrypted with
  | false => simp
  | true =>
    cases hkey : w.vMasterKey with
    | none => simp
    | some key => simp [henc key w.signer.saveState iv]

/-- What `PersistXMSSState` leaves on the disk. -/
theorem persist_record {k : WalletPrims} (henc : EncryptSpec k.crypter) (env : PersistEnv)
    (w : CWallet) (d : WalletDir) :
    (w.persistXMSSState k env).Ensures d fun d' r => r.isSome = true →
      (¬ w.Writes env ∧ d' = d) ∨
      (w.Writes env ∧ ∃ data, w.record k.crypter env.iv = some data ∧
        d' = { d with xmssState := some data, log := .persisted :: d.log }) := by
  have hrecord := isSome_record_iff henc env.iv w
  unfold CWallet.persistXMSSState
  rw [if_neg (by simp [saveState, magicV3])]
  cases hdata : w.record k.crypter env.iv with
  | none =>
    rw [hdata] at hrecord
    refine ensures_pure fun _ => .inl ⟨?_, rfl⟩
    intro hwrites
    exact absurd (hrecord.mpr hwrites.2) false_ne_true
  | some data =>
    rw [hdata] at hrecord
    dsimp only
    split
    · rename_i hok
      refine ensures_write (by simp) fun _ => .inr ⟨⟨hok, hrecord.mp rfl⟩, data, rfl, rfl⟩
    · rename_i hfails
      exact ensures_pure fun _ => .inl ⟨fun hwrites => hfails hwrites.1, rfl⟩

/-! ### The master keys of a wallet and of its database -/

/-- A wallet is unlocked with its own master key. The database has the same one, or none:
`EncryptWallet` keeps the new key in memory even if its transaction cannot begin. -/
structure MasterKeys (w : CWallet) (d : WalletDir) : Prop where
  opened : w.vMasterKey = none ∨ w.vMasterKey = w.mapMasterKeys
  stored : d.masterKey = none ∨ d.masterKey = w.mapMasterKeys

theorem MasterKeys.keyed {w : CWallet} {d : WalletDir} (h : MasterKeys w d)
    (hkey : w.isCrypted = true → d.masterKey.isSome = true) : Keyed w d := by
  have hmap : w.mapMasterKeys = d.masterKey := by
    rcases h.stored with hnone | hsame
    · -- Without a key in the database the wallet is not encrypted.
      rw [hnone] at hkey ⊢
      cases hw : w.mapMasterKeys with
      | none => rfl
      | some key =>
        have hcrypted : w.isCrypted = true := by
          rw [CWallet.isCrypted, hw]
          rfl
        cases hkey hcrypted
    · exact hsame.symm
  refine ⟨hmap, ?_⟩
  rw [← hmap]
  exact h.opened

/-- A record that is encrypted cannot be opened without a master key in the database. -/
theorem not_contains_of_no_key {k : WalletPrims} {w : CWallet} {d : WalletDir} {iv : Uint256}
    {data : Bytes} (hdata : w.record k.crypter iv = some data) (hcrypted : w.isCrypted = true)
    (hnone : d.masterKey = none) (log : List KeyEvent) (pubkey sk : Bytes) :
    ¬ WalletDir.Contains k { d with xmssState := some data, log := log } pubkey sk := by
  rw [CWallet.record, if_pos hcrypted] at hdata
  obtain ⟨key, -, hdata⟩ := bind_eq_some_iff.mp hdata
  obtain ⟨ciphertext, -, rfl⟩ := map_eq_some_iff.mp hdata
  have hmagic : isEncryptedRecord (magicEncrypted ++ (iv.data ++ ciphertext)) = true :=
    decide_eq_true (take_left' rfl)
  have hopen : openRecord k.crypter d.masterKey (magicEncrypted ++ (iv.data ++ ciphertext)) = none := by
    rw [openRecord, if_pos hmagic, hnone]
    rfl
  unfold WalletDir.Contains WalletDir.contents
  dsimp only
  rw [bind_some, hopen, Std.ExtTreeMap.getElem?_empty]
  exact some_ne_none _ ∘ Eq.symm

/-- When a key in memory is in the record after `PersistXMSSState`. -/
theorem contains_persist_iff {k : WalletPrims} (hspec : CrypterSpec k.crypter) {env : PersistEnv}
    {w : CWallet} {d d' : WalletDir} (hkeys : MasterKeys w d)
    (hsound : SoundKeys w.signer.xmssKeys) (hcount : w.signer.xmssKeys.size < 2 ^ 32)
    {pubkey sk : Bytes} (hsk : (w.signer.xmssKeys[pubkey]?).map XMSSKeyEntry.sk = some sk)
    (h : (¬ w.Writes env ∧ d' = d) ∨
      (w.Writes env ∧ ∃ data, w.record k.crypter env.iv = some data ∧
        d' = { d with xmssState := some data, log := .persisted :: d.log })) :
    d'.Contains k pubkey sk ↔ w.Stores k env d pubkey sk := by
  rcases h with ⟨hfails, rfl⟩ | ⟨hwrites, data, hdata, rfl⟩
  · constructor
    · intro hcontains
      exact .inr ⟨hfails, hcontains⟩
    · rintro (⟨hwrites, -⟩ | ⟨-, hcontains⟩)
      · exact absurd hwrites hfails
      · exact hcontains
  · constructor
    · intro hcontains
      refine .inl ⟨hwrites, fun hcrypted => ?_⟩
      rw [isSome_iff_ne_none]
      intro hnone
      exact not_contains_of_no_key hdata hcrypted hnone _ pubkey sk hcontains
    · rintro (⟨-, hkey⟩ | ⟨hfails, -⟩)
      · rw [WalletDir.Contains, contents_persist_eq hspec (hkeys.keyed hkey) hsound hcount hdata]
        exact hsk
      · exact absurd hwrites hfails

/-! ### The wallets of a run -/

/-- Every key in memory has a secret key that `CXMSSKey` can load. -/
def LoadableKeys (keys : Std.ExtTreeMap Bytes XMSSKeyEntry) : Prop :=
  ∀ (pubkey : Bytes) (entry : XMSSKeyEntry), keys[pubkey]? = some entry →
    pubkey.length < 2 ^ 32 ∧ (loadKey [] entry.sk).isSome = true

theorem SoundKeys.loadable {keys : Std.ExtTreeMap Bytes XMSSKeyEntry} (h : SoundKeys keys) :
    LoadableKeys keys :=
  fun pubkey entry hentry => ⟨(h pubkey entry hentry).pubkey, (h pubkey entry hentry).loads⟩

theorem LoadableKeys.insert {keys : Std.ExtTreeMap Bytes XMSSKeyEntry} (h : LoadableKeys keys)
    {pubkey : Bytes} {entry : XMSSKeyEntry} (hlen : pubkey.length = 64)
    (hloads : (loadKey [] entry.sk).isSome = true) : LoadableKeys (keys.insert pubkey entry) := by
  intro pubkey' entry' h'
  rcases getElem?_insert_cases h' with ⟨rfl, rfl⟩ | ⟨-, h'⟩
  · exact ⟨by omega, hloads⟩
  · exact h pubkey' entry' h'

/-- What holds of every wallet in a run. -/
structure IssueInv (w : CWallet) (d : WalletDir) : Prop where
  keys : MasterKeys w d
  loads : LoadableKeys w.signer.xmssKeys

theorem IssueInv.load {k : WalletPrims} {w : CWallet} {d : WalletDir} (h : IssueInv w d)
    (env : LoadEnv) (d' : WalletDir) : IssueInv (w.afterLoad k env d') d := by
  obtain ⟨hmap, hopened⟩ := afterLoad_keys k env w d'
  refine ⟨⟨by rw [hmap, hopened]; exact h.keys.opened, by rw [hmap]; exact h.keys.stored⟩, ?_⟩
  unfold CWallet.afterLoad
  split
  · exact h.loads
  rename_i plain _
  show LoadableKeys (w.signer.loaded k.crypto plain).2.xmssKeys
  rcases loaded_signer k.crypto plain w.signer with ⟨hs, -⟩ | hs
  · rw [hs]
    exact h.loads
  · rw [hs]
    exact (soundKeys_loaded k.crypto plain).loadable

theorem issueRules {k : WalletPrims} (hx : KeypairLoads k.keys) :
    WalletRules k (fun _ => True) (fun _ => IssueInv) where
  died _ := trivial
  ledger _ h := ⟨⟨h.keys.opened, h.keys.stored⟩, h.loads⟩
  skip h := h
  generate h hkey := by
    have hentry := hx.soundEntry hkey
    exact ⟨⟨h.keys.opened, h.keys.stored⟩, h.loads.insert (length_generatedKey hkey) hentry.loads⟩
  sign leaf h hentry _ := by
    refine ⟨⟨h.keys.opened, h.keys.stored⟩, ?_⟩
    intro pubkey' entry' h'
    obtain ⟨old, hold, hsk, -⟩ := WalletBase.getElem?_retire hentry h'
    rw [hsk]
    exact h.loads pubkey' old hold
  persist h _ := ⟨⟨h.keys.opened, h.keys.stored⟩, h.loads⟩
  lock {_ w d} h := by
    unfold CWallet.lock
    split
    · exact ⟨⟨.inl rfl, h.keys.stored⟩, h.loads⟩
    · exact h

/-- A key that is added by hand. -/
theorem IssueInv.add {k : WalletPrims} {w : CWallet} {d : WalletDir} (h : IssueInv w d)
    {behind pubkey seckey : Bytes} {s : CXMSSSigner}
    (hadd : w.signer.addXMSSKey k.crypto behind pubkey seckey = some s) :
    IssueInv { w with signer := s } d := by
  obtain ⟨hlen, hloads, rfl⟩ := addXMSSKey_eq_some hadd
  exact ⟨⟨h.keys.opened, h.keys.stored⟩, h.loads.insert hlen hloads⟩

/-- Every call keeps it. -/
theorem issueInv_step {k : WalletPrims} (hx : KeypairLoads k.keys) (op : WalletOp)
    (s s' : WalletRun) (h : RunInv (fun _ => True) IssueInv s)
    (hstep : step k op s = some s') : RunInv (fun _ => True) IssueInv s' := by
  obtain ⟨d, wallet⟩ := s
  cases wallet with
  | none =>
    refine (issueRules hx).step_kept h ?_ hstep
    cases op with
    | create load ensure crash =>
      have hstart : IssueInv { mapMasterKeys := d.masterKey } d :=
        ⟨⟨.inl rfl, .inr rfl⟩, soundKeys_empty.loadable⟩
      exact ⟨fun _ => trivial, hstart.load load d⟩
    | _ => trivial
  | some w =>
    have hw : IssueInv w d := h.2 w rfl
    cases op with
    | encryptWallet env crash =>
      by_cases hbegins : w.isCrypted = false ∧ env.txnBegins = false
      · -- The key stays in memory, and nothing is written.
        obtain ⟨hplain, hbegins⟩ := hbegins
        have hmap : w.mapMasterKeys = none := by
          cases hw' : w.mapMasterKeys with
          | none => rfl
          | some key =>
            rw [CWallet.isCrypted, hw'] at hplain
            cases hplain
        have hopened : w.vMasterKey = none := by
          rcases hw.keys.opened with hnone | hsame
          · exact hnone
          · exact hsame.trans hmap
        have hstored : d.masterKey = none := by
          rcases hw.keys.stored with hnone | hsame
          · exact hnone
          · exact hsame.trans hmap
        have hcall : w.encryptWallet k env =
            pure { w with mapMasterKeys := some env.masterKey } := by
          unfold CWallet.encryptWallet
          rw [hplain, hbegins]
          rfl
        cases hstep
        rw [hcall]
        refine runInv_after_id (ensures_pure ⟨trivial, ?_⟩) crash
        rintro w' ⟨⟩
        exact ⟨⟨.inl hopened, .inl hstored⟩, hw.loads⟩
      · refine (issueRules hx).step_kept h ?_ hstep
        intro hplain
        have hbegins : env.txnBegins = true := by
          rw [← not_eq_false]
          exact fun hfalse => hbegins ⟨hplain, hfalse⟩
        have hencrypt : IssueInv
            { w with mapMasterKeys := some env.masterKey, vMasterKey := some env.masterKey }
            { d with masterKey := some env.masterKey } := ⟨⟨.inr rfl, .inr rfl⟩, hw.loads⟩
        refine ⟨hbegins, fun _ => trivial, ?_⟩
        dsimp only
        split
        · exact hencrypt.load env.load _
        · exact hencrypt
    | unlock persist load crash =>
      refine (issueRules hx).step_kept h ?_ hstep
      intro key hkey
      have hopen : IssueInv { w with vMasterKey := some key } d :=
        ⟨⟨.inr hkey.symm, hw.keys.stored⟩, hw.loads⟩
      dsimp only
      split
      · exact hopen.load load d
      · exact hopen
    | getnewxmssaddress | generateKey =>
      refine (issueRules hx).step_kept h ?_ hstep
      exact hw
    | signTransaction =>
      refine (issueRules hx).step_kept h ?_ hstep
      exact fun _ => hw
    | importxmsskey | addXMSSKey =>
      refine (issueRules hx).step_kept h ?_ hstep
      exact fun s hadd => hw.add hadd
    | loadState env crash =>
      refine (issueRules hx).step_kept h ?_ hstep
      exact hw.load env d
    | create | lock | commitTransaction | signXMSS | exit =>
      refine (issueRules hx).step_kept h ?_ hstep
      trivial

/-- So it holds of every wallet that a run from any datadir leaves. -/
theorem issueInv_run {k : WalletPrims} (hx : KeypairLoads k.keys) {d₀ d : WalletDir} {w : CWallet}
    {ops : List WalletOp}
    (hrun : runOps (step k) ops ⟨d₀, none⟩ = some ⟨d, some w⟩) : IssueInv w d :=
  (runOps_preserves (fun op s s' h hstep => issueInv_step hx op s s' h hstep)
    (⟨trivial, by simp⟩ : RunInv (fun _ => True) IssueInv ⟨d₀, none⟩) hrun).2 w rfl

/-! ### New addresses and imported keys -/

/-- The keys of a wallet fit into the record, which has four bytes for their number and for the
size of each. A call draws at most three more. -/
structure RecordFits (w : CWallet) : Prop where
  count : w.signer.xmssKeys.size + 3 < 2 ^ 32
  sizes : ∀ (pubkey : Bytes) (entry : XMSSKeyEntry), w.signer.xmssKeys[pubkey]? = some entry →
    entry.sk.length < 2 ^ 32

theorem IssueInv.sound {w : CWallet} {d : WalletDir} (h : IssueInv w d) (hfits : RecordFits w) :
    SoundKeys w.signer.xmssKeys :=
  fun pubkey entry hentry => ⟨(h.loads pubkey entry hentry).1, hfits.sizes pubkey entry hentry,
    (h.loads pubkey entry hentry).2⟩

/-- The key that is put into a signer is there. -/
theorem sk_insert (c : Crypto) (s : CXMSSSigner) (pubkey : Bytes) (entry : XMSSKeyEntry) :
    ((s.insert c pubkey entry).xmssKeys[pubkey]?).map XMSSKeyEntry.sk = some entry.sk := by
  show ((s.xmssKeys.insert pubkey entry)[pubkey]?).map XMSSKeyEntry.sk = _
  rw [Std.ExtTreeMap.getElem?_insert_self]
  rfl

section Calls

variable {k : WalletPrims} {w : CWallet} {d : WalletDir}

/-- A key is put into the signer, and then the record is written. -/
theorem persist_inserted (hspec : CrypterSpec k.crypter) (henc : EncryptSpec k.crypter)
    (hw : IssueInv w d) (hfits : RecordFits w) {pubkey : Bytes} {entry : XMSSKeyEntry}
    (hentry : SoundEntry pubkey entry) (env : PersistEnv) (l : LedgerDir) (log : List KeyEvent) :
    (CWallet.persistXMSSState k env
      { w with signer := w.signer.insert k.crypto pubkey entry }).Ensures
      { d with ledger := l, log := log } fun d' r => r.isSome = true →
        (d'.Contains k pubkey entry.sk ↔ w.Stores k env d pubkey entry.sk) := by
  have hcount : (w.signer.xmssKeys.insert pubkey entry).size < 2 ^ 32 := by
    have hsize : (w.signer.xmssKeys.insert pubkey entry).size ≤ w.signer.xmssKeys.size + 1 :=
      Std.ExtTreeMap.size_insert_le
    have := hfits.count
    omega
  -- Neither the new key nor the ledger counts for whether the record is written.
  have hkeys : MasterKeys { w with signer := w.signer.insert k.crypto pubkey entry }
      { d with ledger := l, log := log } := ⟨hw.keys.opened, hw.keys.stored⟩
  refine ensures_mono (persist_record henc env _ _) ?_
  intro d' r hrecord hsome
  exact contains_persist_iff hspec hkeys ((hw.sound hfits).insert hentry) hcount
    (sk_insert k.crypto w.signer pubkey entry) (hrecord hsome)

/-- What `GenerateKey` leaves, for random bytes that give a key. -/
theorem generateKey_spec (io : Io) {seed pubkey sk : Bytes}
    (hkey : generatedKey k.keys seed = some (pubkey, sk)) :
    (w.generateKey k io seed).Ensures d fun d' r => ∀ out, r = some out →
      out = (pubkey, { w with signer := w.signer.insert k.crypto pubkey { sk := sk } }) ∧
        ∃ l log, d' = { d with ledger := l, log := log } := by
  unfold CWallet.generateKey
  refine ensures_bind (WalletDir.onLedger_ensures
    (AssentianPQE.generateKey_ensures k.crypto k.keys io seed w.signer d.ledger)) (by simp) ?_
  rintro d' ⟨pubkey', signer⟩ ⟨l, rfl, -, hout⟩
  have hout := hout _ rfl
  rw [afterGenerate, hkey] at hout
  cases hout
  dsimp only
  split
  · rename_i hnil
    have hlen := length_generatedKey hkey
    rw [hnil] at hlen
    cases hlen
  · refine ensures_write_bind (by simp) (ensures_pure ?_)
    rintro out ⟨⟩
    exact ⟨rfl, l, _, rfl⟩

theorem getnewxmssaddress_stores (hspec : CrypterSpec k.crypter) (henc : EncryptSpec k.crypter)
    (hx : KeypairLoads k.keys) (hw : IssueInv w d) (hfits : RecordFits w) {env : KeyEnv}
    {pubkey sk : Bytes} (hkey : generatedKey k.keys env.seed = some (pubkey, sk)) :
    (w.getnewxmssaddress k env).Ensures d fun d' r => r.isSome = true →
      (d'.Contains k pubkey sk ↔ w.Stores k env.persist d pubkey sk) := by
  unfold CWallet.getnewxmssaddress CWallet.generateAndPersist
  refine ensures_bind (generateKey_spec env.io hkey) (by simp) ?_
  rintro d₁ out hout
  obtain ⟨rfl, l, log, rfl⟩ := hout out rfl
  dsimp only
  split
  · rename_i hnil
    have hlen := length_generatedKey hkey
    rw [hnil] at hlen
    cases hlen
  · refine ensures_bind
      (persist_inserted hspec henc hw hfits (hx.soundEntry hkey) env.persist l log) (by simp) ?_
    intro d₂ _ hstored
    exact ensures_pure fun _ => hstored rfl

theorem importxmsskey_stores (hspec : CrypterSpec k.crypter) (henc : EncryptSpec k.crypter)
    (hw : IssueInv w d) (hfits : RecordFits w) {env : PersistEnv} {behind pubkey seckey : Bytes}
    {s : CXMSSSigner} (hsize : seckey.length < 2 ^ 32)
    (hadd : w.signer.addXMSSKey k.crypto behind pubkey seckey = some s) :
    (w.importxmsskey k env behind pubkey seckey).Ensures d fun d' r => r.isSome = true →
      (d'.Contains k pubkey seckey ↔ w.Stores k env d pubkey seckey) := by
  obtain ⟨hlen, hloads, rfl⟩ := addXMSSKey_eq_some hadd
  have hentry : SoundEntry pubkey { sk := seckey, imported := true } :=
    ⟨by omega, hsize, hloads⟩
  unfold CWallet.importxmsskey
  rw [hadd]
  refine ensures_bind
    (persist_inserted hspec henc hw hfits hentry env d.ledger d.log) (by simp) ?_
  intro d₂ _ hstored
  exact ensures_pure fun _ => hstored rfl

end Calls

/-! ### The change of a transaction -/

/-- The record and the master key of the database are as they were. -/
def SameRecord (d d' : WalletDir) : Prop :=
  d'.xmssState = d.xmssState ∧ d'.masterKey = d.masterKey

/-- A wallet that has made a change key: the key is in memory, and in the record unless nothing was
written since. It was not written at first if `taken` is false. -/
structure ChangeInv (k : WalletPrims) (pubkey sk : Bytes) (taken : Prop) (d₀ : WalletDir)
    (seeds : List Bytes) (w : CWallet) (d : WalletDir) : Prop where
  keyed : Keyed w d
  sound : SoundKeys w.signer.xmssKeys
  room : w.signer.xmssKeys.size + seeds.length < 2 ^ 32
  memory : (w.signer.xmssKeys[pubkey]?).map XMSSKeyEntry.sk = some sk
  record : d.Contains k pubkey sk ∨ (¬ taken ∧ SameRecord d₀ d)
  other : pubkey ∉ drawnKeys k seeds

namespace ChangeInv

variable {k : WalletPrims} {pubkey sk : Bytes} {taken : Prop} {d₀ d : WalletDir} {seed : Bytes}
  {seeds : List Bytes} {w : CWallet}

theorem skip (h : ChangeInv k pubkey sk taken d₀ (seed :: seeds) w d) :
    ChangeInv k pubkey sk taken d₀ seeds w d := by
  refine ⟨h.keyed, h.sound, ?_, h.memory, h.record, ?_⟩
  · have hroom := h.room
    rw [length_cons] at hroom
    omega
  · cases hkey : generatedKey k.keys seed with
    | none =>
      rw [← NewKeys.drawnKeys_cons_none hkey]
      exact h.other
    | some p =>
      have hother := h.other
      rw [NewKeys.drawnKeys_cons_some hkey] at hother
      exact fun hmem => hother (mem_cons_of_mem _ hmem)

/-- Another key does not replace the change key. -/
theorem generate (hx : KeypairLoads k.keys)
    (h : ChangeInv k pubkey sk taken d₀ (seed :: seeds) w d) {pubkey' sk' : Bytes}
    (hkey : generatedKey k.keys seed = some (pubkey', sk')) :
    ChangeInv k pubkey sk taken d₀ seeds
      { w with signer := w.signer.insert k.crypto pubkey' { sk := sk' } }
      { d with log := .created pubkey' :: d.log } := by
  have hother := h.other
  rw [NewKeys.drawnKeys_cons_some hkey] at hother
  have hne : ¬ compare pubkey' pubkey = .eq := by
    intro heq
    obtain rfl := Std.LawfulEqCmp.eq_of_compare heq
    exact hother mem_cons_self
  refine ⟨⟨h.keyed.map, h.keyed.opened⟩, h.sound.insert (hx.soundEntry hkey), ?_, ?_, h.record,
    fun hmem => hother (mem_cons_of_mem _ hmem)⟩
  · have hroom := h.room
    have hsize : (w.signer.xmssKeys.insert pubkey' { sk := sk' }).size ≤
        w.signer.xmssKeys.size + 1 := Std.ExtTreeMap.size_insert_le
    rw [length_cons] at hroom
    show (w.signer.xmssKeys.insert pubkey' { sk := sk' }).size + seeds.length < 2 ^ 32
    omega
  · show ((w.signer.xmssKeys.insert pubkey' { sk := sk' })[pubkey]?).map _ = _
    rw [Std.ExtTreeMap.getElem?_insert, if_neg hne]
    exact h.memory

theorem retire (h : ChangeInv k pubkey sk taken d₀ seeds w d) {pubkey' : Bytes}
    {entry : XMSSKeyEntry} (leaf : UInt32) (hentry : w.signer.xmssKeys[pubkey']? = some entry) :
    ChangeInv k pubkey sk taken d₀ seeds
      { w with signer := w.signer.retire pubkey' entry leaf } d := by
  refine ⟨⟨h.keyed.map, h.keyed.opened⟩, WalletBase.soundKeys_retire h.sound leaf hentry, ?_, ?_,
    h.record, h.other⟩
  · show (w.signer.retire pubkey' entry leaf).xmssKeys.size + seeds.length < 2 ^ 32
    rw [KeepInv.size_retire leaf hentry]
    exact h.room
  · show ((w.signer.retire pubkey' entry leaf).xmssKeys[pubkey]?).map _ = _
    rw [KeepInv.map_sk_retire leaf hentry]
    exact h.memory

/-- A write of the record stores the key. -/
theorem persist (hspec : CrypterSpec k.crypter) (h : ChangeInv k pubkey sk taken d₀ seeds w d)
    {iv : Uint256} {data : Bytes} (hdata : w.record k.crypter iv = some data) :
    ChangeInv k pubkey sk taken d₀ seeds w
      { d with xmssState := some data, log := .persisted :: d.log } := by
  refine ⟨⟨h.keyed.map, h.keyed.opened⟩, h.sound, h.room, h.memory, .inl ?_, h.other⟩
  have hcount : w.signer.xmssKeys.size < 2 ^ 32 := lt_of_le_of_lt (le_add_right _ _) h.room
  rw [WalletDir.Contains, contents_persist_eq hspec h.keyed h.sound hcount hdata]
  exact h.memory

theorem lock (h : ChangeInv k pubkey sk taken d₀ seeds w d) :
    ChangeInv k pubkey sk taken d₀ seeds w.lock d := by
  have hsigner : w.lock.signer = w.signer := by
    unfold CWallet.lock
    split <;> rfl
  exact ⟨h.keyed.lock, hsigner ▸ h.sound, hsigner ▸ h.room, hsigner ▸ h.memory, h.record, h.other⟩

end ChangeInv

theorem changeRules {k : WalletPrims} (hspec : CrypterSpec k.crypter) (hx : KeypairLoads k.keys)
    (pubkey sk : Bytes) (taken : Prop) (d₀ : WalletDir) :
    WalletRules k (fun _ => True) (ChangeInv k pubkey sk taken d₀) where
  died _ := trivial
  ledger _ h := ⟨⟨h.keyed.map, h.keyed.opened⟩, h.sound, h.room, h.memory, h.record, h.other⟩
  skip h := h.skip
  generate h hkey := h.generate hx hkey
  sign leaf h hentry _ := by
    have hretired := h.retire leaf hentry
    exact ⟨⟨hretired.keyed.map, hretired.keyed.opened⟩, hretired.sound, hretired.room,
      hretired.memory, hretired.record, hretired.other⟩
  persist h hdata := h.persist hspec hdata
  lock h := h.lock

section Change

variable {k : WalletPrims} {pubkey sk : Bytes} {taken : Prop} {d₀ d : WalletDir}
  {seeds : List Bytes} {w : CWallet}

/-- `::SignTransaction` does no more to the signer than to retire keys. -/
theorem signInputs_kept (a : Attempt) (cfg : SpendConfig) (tx : Transaction)
    (h : ChangeInv k pubkey sk taken d₀ seeds w d) :
    (a.signInputs k cfg tx w.signer).Ensures d fun d' r =>
      Kept (fun _ => True) (ChangeInv k pubkey sk taken d₀ seeds) d'
        (r.map fun p => { w with signer := p.2 }) := by
  have hsigned := @SignCall.signTransaction_kept k.crypto k.keys (a.signCall cfg tx)
    (fun s _ => ChangeInv k pubkey sk taken d₀ seeds { w with signer := s } d) (fun n i => rfl)
    w.signer d.ledger h (by
      intro call n txin out _ _ _ s' l' hs'
      refine ensures_mono
        (signXMSS_ensures k.keys (fun _ => rfl) call.hash call.pubkey s' l') ?_
      rintro l'' r ⟨-, hafter⟩ ⟨sig, s''⟩ hr
      have hafter := hafter sig s'' hr
      cases sig with
      | none =>
        have hs'' : s'' = s' := hafter
        rw [hs'']
        exact hs'
      | some sig =>
        obtain ⟨entry, hentry, -, -, rfl⟩ := hafter
        exact hs'.retire sig.2 hentry)
  unfold Attempt.signInputs
  refine ensures_mono (WalletDir.onLedger_ensures (ensures_bind hsigned
    (Q := fun _ r => ∀ out, r = some out →
      ChangeInv k pubkey sk taken d₀ seeds { w with signer := out.2 } d) (by simp) ?_)) ?_
  · rintro l' ⟨⟨signed, errors⟩, s'⟩ hinv
    refine ensures_pure ?_
    rintro out ⟨⟩
    exact hinv _ rfl
  · rintro d' r ⟨l, rfl, hr⟩
    refine ⟨trivial, fun w' hw' => ?_⟩
    obtain ⟨out, hout, rfl⟩ := map_eq_some_iff.mp hw'
    have hinv := hr out hout
    exact ⟨⟨hinv.keyed.map, hinv.keyed.opened⟩, hinv.sound, hinv.room, hinv.memory, hinv.record,
      hinv.other⟩

/-- The transaction is created and committed with the change key in memory all the time. -/
theorem createAndCommit_kept (hspec : CrypterSpec k.crypter) (hx : KeypairLoads k.keys)
    (cfg : SpendConfig) (env : SendXmssEnv) (r : CRecipient)
    (h : ChangeInv k pubkey sk taken d₀
      [(env.attempt pubkey).keys.before.seed, (env.attempt pubkey).keys.after.seed] w d) :
    (w.createAndCommit k cfg env r pubkey).Ensures d fun d' out =>
      Kept (fun _ => True) (ChangeInv k pubkey sk taken d₀ []) d' (out.map Prod.snd) := by
  have R := changeRules hspec hx pubkey sk taken d₀
  have hskip : ChangeInv k pubkey sk taken d₀ [] w d := h.skip.skip
  let a := env.attempt pubkey
  have hinternal : (a.createTransactionInternal k cfg true w).Ensures d fun d' out =>
      Kept (fun _ => True) (ChangeInv k pubkey sk taken d₀ []) d' (out.map Prod.snd) := by
    unfold Attempt.createTransactionInternal
    cases a.built with
    | error error => exact ensures_pure (R.kept_some hskip)
    | ok b =>
      have hsign : (a.sign k cfg b.tx w).Ensures d fun d' out =>
          Kept (fun _ => True) (ChangeInv k pubkey sk taken d₀ []) d' (out.map Prod.snd) := by
        unfold Attempt.sign
        split
        · exact R.signTransaction_kept a.keys _ (fun h' => signInputs_kept a cfg b.tx h') hskip
            fun _ => h
        · exact ensures_pure (R.kept_some hskip)
      refine ensures_bind hsign (fun _ _ => ⟨trivial, by simp⟩) ?_
      rintro d' ⟨signed, w'⟩ ⟨-, hw'⟩
      cases signed with
      | none => exact ensures_pure (R.kept_some (hw' w' rfl))
      | some signed => exact ensures_pure (R.kept_some (hw' w' rfl))
  -- One attempt is made: partial spends are avoided from the start.
  let call : CreateCall :=
    { amounts := [r.nAmount], m_avoid_partial_spends := true, first := a, second := a }
  have hcreate : (call.createTransaction k cfg w).Ensures d fun d' out =>
      Kept (fun _ => True) (ChangeInv k pubkey sk taken d₀ []) d' (out.map Prod.snd) := by
    unfold CreateCall.createTransaction
    split
    · exact ensures_pure (R.kept_some hskip)
    split
    · exact ensures_pure (R.kept_some hskip)
    refine ensures_bind hinternal (fun _ _ => ⟨trivial, by simp⟩) ?_
    rintro d' ⟨res, w'⟩ ⟨-, hw'⟩
    cases res with
    | error error => exact ensures_pure (R.kept_some (hw' w' rfl))
    | ok ungrouped =>
      have honce : call.triesAgain cfg ungrouped.fee = false := by
        simp [CreateCall.triesAgain, call]
      dsimp only
      rw [honce]
      exact ensures_pure (R.kept_some (hw' w' rfl))
  unfold CWallet.createAndCommit
  refine ensures_bind hcreate (fun _ _ => ⟨trivial, by simp⟩) ?_
  rintro d' ⟨res, w'⟩ ⟨-, hw'⟩
  cases res with
  | error error => exact ensures_pure (R.kept_some (hw' w' rfl))
  | ok res =>
    refine ensures_bind
      (R.commitTransaction_kept env.fBroadcastTransactions env.commit (hw' w' rfl))
      (fun _ _ => ⟨trivial, by simp⟩) ?_
    rintro d'' w'' ⟨-, hw''⟩
    exact ensures_pure (R.kept_some (hw'' w'' rfl))

/-- Without a key pair `GenerateKey` returns no bytes. -/
theorem generateKey_none (io : Io) {seed : Bytes} (hkey : generatedKey k.keys seed = none) :
    (w.generateKey k io seed).Ensures d fun _ r => ∀ out, r = some out → out.1 = [] := by
  unfold CWallet.generateKey
  refine ensures_bind (WalletDir.onLedger_ensures
    (AssentianPQE.generateKey_ensures k.crypto k.keys io seed w.signer d.ledger)) (by simp) ?_
  rintro d' ⟨pubkey', signer⟩ ⟨l, rfl, -, hout⟩
  have hout := hout _ rfl
  rw [afterGenerate, hkey] at hout
  cases hout
  refine ensures_pure ?_
  rintro out ⟨⟩
  rfl

/-- The key that a call makes for its change, if the master key of an encrypted wallet is in the
database and the other keys that are drawn differ from it. -/
def ChangeMade (k : WalletPrims) (env : KeyEnv) (w : CWallet) (d : WalletDir) (pubkey : Bytes)
    (P : List Bytes → Bytes → Prop) : Prop :=
  ∃ sk, generatedKey k.keys env.seed = some (pubkey, sk) ∧
    ((w.isCrypted = true → d.masterKey.isSome = true) →
      ∀ seeds, seeds.length ≤ 2 → pubkey ∉ drawnKeys k seeds → P seeds sk)

theorem newChangeKey_made (hspec : CrypterSpec k.crypter) (henc : EncryptSpec k.crypter)
    (hx : KeypairLoads k.keys) (hw : IssueInv w d) (hfits : RecordFits w) (env : KeyEnv) :
    (w.newChangeKey k env).Ensures d fun d' r => ∀ pubkey w', r = some (.ok pubkey, w') →
      ChangeMade k env w d pubkey fun seeds sk =>
        ChangeInv k pubkey sk (w.Writes env.persist) d seeds w' d' := by
  unfold CWallet.newChangeKey
  cases hkey : generatedKey k.keys env.seed with
  | none =>
    refine ensures_bind (generateKey_none env.io hkey) (by simp) ?_
    rintro d₁ ⟨bs, w₁⟩ hout
    obtain rfl : bs = [] := hout _ rfl
    refine ensures_pure ?_
    rintro pubkey w' ⟨⟩
  | some p =>
    obtain ⟨pubkey, sk⟩ := p
    have hlen : pubkey.length = 64 := length_generatedKey hkey
    refine ensures_bind (generateKey_spec env.io hkey) (by simp) ?_
    rintro d₁ out hout
    obtain ⟨rfl, l, log, rfl⟩ := hout out rfl
    dsimp only
    rw [if_neg (not_not.mpr hlen)]
    refine ensures_bind (persist_record henc env.persist _ _) (by simp) ?_
    rintro d₂ _ hrecord
    refine ensures_pure ?_
    rintro pubkey' w' ⟨⟩
    refine ⟨sk, hkey, fun hdb seeds hseeds hother => ?_⟩
    have hkeyed := hw.keys.keyed hdb
    have hroom : (w.signer.xmssKeys.insert pubkey { sk := sk }).size + seeds.length < 2 ^ 32 := by
      have hsize : (w.signer.xmssKeys.insert pubkey { sk := sk }).size ≤
          w.signer.xmssKeys.size + 1 := Std.ExtTreeMap.size_insert_le
      have := hfits.count
      omega
    have hinv : ∀ d', Keyed w d' → (d'.Contains k pubkey sk ∨ (¬ w.Writes env.persist ∧
        SameRecord d d')) → ChangeInv k pubkey sk (w.Writes env.persist) d seeds
          { w with signer := w.signer.insert k.crypto pubkey { sk := sk } } d' :=
      fun d' hkeyed' hrecord' => ⟨⟨hkeyed'.map, hkeyed'.opened⟩,
        (hw.sound hfits).insert (hx.soundEntry hkey), hroom, sk_insert _ _ _ _, hrecord', hother⟩
    rcases hrecord rfl with ⟨hfails, rfl⟩ | ⟨-, data, hdata, rfl⟩
    · exact hinv _ ⟨hkeyed.map, hkeyed.opened⟩ (.inr ⟨hfails, rfl, rfl⟩)
    refine hinv _ ⟨hkeyed.map, hkeyed.opened⟩ (.inl ?_)
    have hkeyed' : Keyed { w with signer := w.signer.insert k.crypto pubkey { sk := sk } }
        { d with ledger := l, log := log } := ⟨hkeyed.map, hkeyed.opened⟩
    rw [WalletDir.Contains, contents_persist_eq hspec hkeyed'
      ((hw.sound hfits).insert (hx.soundEntry hkey)) (lt_of_le_of_lt (le_add_right _ _) hroom)
      hdata]
    exact sk_insert _ _ _ _

theorem createAndCommit_pubkey (cfg : SpendConfig) (env : SendXmssEnv) (r : CRecipient)
    (pubkey : Bytes) (w : CWallet) (d : WalletDir) :
    (w.createAndCommit k cfg env r pubkey).Ensures d fun _ res =>
      ∀ out w', res = some (.ok out, w') → out.change_pubkey = pubkey := by
  unfold CWallet.createAndCommit
  refine ensures_bind (P := fun _ _ => True) (fun _ => trivial) (by simp) ?_
  rintro d₁ ⟨res, w₁⟩ -
  cases res with
  | error error =>
    refine ensures_pure ?_
    rintro out w' ⟨⟩
  | ok res =>
    refine ensures_bind (P := fun _ _ => True) (fun _ => trivial) (by simp) ?_
    intro d₂ w₂ _
    refine ensures_pure ?_
    rintro out w' ⟨⟩
    rfl

/-- What a send call leaves of the key of its change: the key is in the record, or no write has
changed the record, not even the first one. -/
def ChangeStored (k : WalletPrims) (env : SendXmssEnv) (w : CWallet) (d d' : WalletDir)
    (pubkey : Bytes) : Prop :=
  ∃ sk, generatedKey k.keys env.change.seed = some (pubkey, sk) ∧
    ((w.isCrypted = true → d.masterKey.isSome = true) →
      pubkey ∉ drawnKeys k [(env.attempt pubkey).keys.before.seed,
        (env.attempt pubkey).keys.after.seed] →
      d'.Contains k pubkey sk ∨ (¬ w.Writes env.change.persist ∧ SameRecord d d'))

section
variable (hspec : CrypterSpec k.crypter) (henc : EncryptSpec k.crypter) (hx : KeypairLoads k.keys)
  (hw : IssueInv w d) (hfits : RecordFits w)
include hspec henc hx hw hfits

/-- The part that both calls share. -/
theorem change_stored (cfg : SpendConfig) (env : SendXmssEnv) (r : CRecipient) :
    Durable.Ensures (do
      match ← w.newChangeKey k env.change with
      | (.error e, w) => pure (.error e, w)
      | (.ok change_pubkey, w) => w.createAndCommit k cfg env r change_pubkey) d fun d' res =>
      ∀ out w', res = some (.ok out, w') → ChangeStored k env w d d' out.change_pubkey := by
  refine ensures_bind (newChangeKey_made hspec henc hx hw hfits env.change) (by simp) ?_
  rintro d₁ ⟨made, w₁⟩ hmade
  cases made with
  | error e =>
    refine ensures_pure ?_
    rintro out w' ⟨⟩
  | ok pubkey =>
    obtain ⟨sk, hkey, hinv⟩ := hmade pubkey w₁ rfl
    dsimp only
    by_cases hcond : (w.isCrypted = true → d.masterKey.isSome = true) ∧
        pubkey ∉ drawnKeys k [(env.attempt pubkey).keys.before.seed,
          (env.attempt pubkey).keys.after.seed]
    · refine ensures_mono (ensures_and
        (createAndCommit_kept hspec hx cfg env r (hinv hcond.1 _ (by simp) hcond.2))
        (createAndCommit_pubkey cfg env r pubkey w₁ d₁)) ?_
      rintro d' res ⟨⟨-, hkept⟩, hpubkey⟩ out w' rfl
      obtain rfl := hpubkey out w' rfl
      exact ⟨sk, hkey, fun _ _ => (hkept w' rfl).record⟩
    · refine ensures_mono (createAndCommit_pubkey cfg env r pubkey w₁ d₁) ?_
      rintro d' res hpubkey out w' rfl
      obtain rfl := hpubkey out w' rfl
      exact ⟨sk, hkey, fun hdb hother => absurd ⟨hdb, hother⟩ hcond⟩

theorem sendtoxmssaddress_stores (rpc : RpcEnv) (cfg : SpendConfig) (env : SendXmssEnv)
    (addr_str : Bytes) (nAmount : Int) (fSubtractFeeFromAmount : Bool) :
    (w.sendtoxmssaddress k rpc cfg env addr_str nAmount fSubtractFeeFromAmount).Ensures d
      fun d' res => ∀ out w', res = some (.ok out, w') →
        w.isLocked = false ∧ ChangeStored k env w d d' out.change_pubkey := by
  unfold CWallet.sendtoxmssaddress
  split
  · exact ensures_pure (by simp)
  rename_i r _
  split
  · exact ensures_pure (by simp)
  rename_i hopen
  have hopen : w.isLocked = false := eq_false_iff.mpr hopen
  cases env.selected with
  | error e =>
    -- The key was made in vain.
    refine ensures_bind (P := fun _ _ => True) (fun _ => trivial) (by simp) ?_
    rintro d₁ ⟨made, w₁⟩ -
    cases made <;> exact ensures_pure (by simp)
  | ok u =>
    refine ensures_mono (change_stored hspec henc hx hw hfits cfg env r) ?_
    intro d' res hres out w' hout
    exact ⟨hopen, hres out w' hout⟩

theorem sendfromxmssaddress_stores (rpc : RpcEnv) (cfg : SpendConfig) (env : SendXmssEnv)
    (from_addr_str to_addr_str : Bytes) (nAmount : Int) (fSubtractFeeFromAmount : Bool) :
    (w.sendfromxmssaddress k rpc cfg env from_addr_str to_addr_str nAmount
      fSubtractFeeFromAmount).Ensures d fun d' res => ∀ out w', res = some (.ok out, w') →
        w.isLocked = false ∧ ChangeStored k env w d d' out.change_pubkey := by
  unfold CWallet.sendfromxmssaddress
  split
  · exact ensures_pure (by simp)
  rename_i r _
  split
  · exact ensures_pure (by simp)
  split
  · exact ensures_pure (by simp)
  rename_i hopen
  have hopen : w.isLocked = false := eq_false_iff.mpr hopen
  cases env.selected with
  | error e => exact ensures_pure (by simp)
  | ok u =>
    refine ensures_mono (change_stored hspec henc hx hw hfits cfg env r) ?_
    intro d' res hres out w' hout
    exact ⟨hopen, hres out w' hout⟩

end

end Change

/-! ### The calls of a run -/

/-- What a program ensures of its results holds where a run of it has returned. -/
theorem ensures_returned {α : Type} {p : Durable WalletDir α} {d d' : WalletDir} {crash : Nat}
    {out : α} {Q : WalletDir → Option α → Prop} (h : p.Ensures d Q)
    (hrun : p.run d crash = (d', some out)) : Q d' (some out) := by
  obtain ⟨n, hn⟩ := Durable.run_eq_some hrun
  exact h.of_eq hn

/-- For every wallet that a run from any datadir leaves, and every call that returns an address:
the record has the secret key of a new address or of an imported key if and only if the wallet
stores it (`CWallet.Stores`). A transaction is only sent by a wallet that is not locked, and the
key of its change is stored by the first write that is taken. -/
theorem issued_key_stored_iff {k : WalletPrims} (hspec : CrypterSpec k.crypter)
    (henc : EncryptSpec k.crypter) (hx : KeypairLoads k.keys) {d₀ d : WalletDir} {w : CWallet}
    {ops : List WalletOp}
    (hrun : runOps (WalletRun.step k) ops ⟨d₀, none⟩ = some ⟨d, some w⟩) (hfits : RecordFits w) :
    (∀ env crash d' w' pubkey sk, generatedKey k.keys env.seed = some (pubkey, sk) →
      (w.getnewxmssaddress k env).run d crash = (d', some w') →
      (d'.Contains k pubkey sk ↔ w.Stores k env.persist d pubkey sk)) ∧
    (∀ env behind pubkey seckey s crash d' w', seckey.length < 2 ^ 32 →
      w.signer.addXMSSKey k.crypto behind pubkey seckey = some s →
      (w.importxmsskey k env behind pubkey seckey).run d crash = (d', some w') →
      (d'.Contains k pubkey seckey ↔ w.Stores k env d pubkey seckey)) ∧
    (∀ rpc cfg env addr_str nAmount fSubtractFeeFromAmount crash d' out w',
      (w.sendtoxmssaddress k rpc cfg env addr_str nAmount fSubtractFeeFromAmount).run d crash =
        (d', some (.ok out, w')) →
      w.isLocked = false ∧ ChangeStored k env w d d' out.change_pubkey) ∧
    (∀ rpc cfg env from_addr_str to_addr_str nAmount fSubtractFeeFromAmount crash d' out w',
      (w.sendfromxmssaddress k rpc cfg env from_addr_str to_addr_str nAmount
        fSubtractFeeFromAmount).run d crash = (d', some (.ok out, w')) →
      w.isLocked = false ∧ ChangeStored k env w d d' out.change_pubkey) := by
  have hw : IssueInv w d := issueInv_run hx hrun
  refine ⟨?_, ?_, ?_, ?_⟩
  · intro env crash d' w' pubkey sk hkey hcall
    exact ensures_returned (getnewxmssaddress_stores hspec henc hx hw hfits hkey) hcall rfl
  · intro env behind pubkey seckey s crash d' w' hsize hadd hcall
    exact ensures_returned (importxmsskey_stores hspec henc hw hfits hsize hadd) hcall rfl
  · intro rpc cfg env addr_str nAmount fSubtract crash d' out w' hcall
    exact ensures_returned (sendtoxmssaddress_stores hspec henc hx hw hfits rpc cfg env addr_str
      nAmount fSubtract) hcall out w' rfl
  · intro rpc cfg env from_addr_str to_addr_str nAmount fSubtract crash d' out w' hcall
    exact ensures_returned (sendfromxmssaddress_stores hspec henc hx hw hfits rpc cfg env
      from_addr_str to_addr_str nAmount fSubtract) hcall out w' rfl

/-! ### A locked wallet -/

theorem recordFits_iff (w : CWallet) : RecordFits w ↔ w.signer.xmssKeys.size + 3 < 2 ^ 32 ∧
    ∀ p ∈ w.signer.xmssKeys.toList, p.2.sk.length < 2 ^ 32 := by
  constructor
  · intro h
    refine ⟨h.count, fun p hp => ?_⟩
    exact h.sizes p.1 p.2 (Std.ExtTreeMap.mem_toList_iff_getElem?_eq_some.mp hp)
  · rintro ⟨hcount, hsizes⟩
    refine ⟨hcount, fun pubkey entry hentry => ?_⟩
    exact hsizes (pubkey, entry) (Std.ExtTreeMap.mem_toList_iff_getElem?_eq_some.mpr hentry)

instance (w : CWallet) : Decidable (RecordFits w) :=
  decidable_of_iff _ (recordFits_iff w).symm

/-- The sample encryption, for master keys of the right size. -/
def sizedCrypter : Crypter where
  encryptSecret key text iv :=
    if key.length = WALLET_CRYPTO_KEY_SIZE then sampleCrypter.encryptSecret key text iv else none
  decryptSecret := sampleCrypter.decryptSecret

theorem crypterSpec_sizedCrypter : CrypterSpec sizedCrypter := by
  intro key text iv ciphertext h
  have h' : (if key.length = WALLET_CRYPTO_KEY_SIZE then sampleCrypter.encryptSecret key text iv
      else none) = some ciphertext := h
  split at h'
  · exact crypterSpec_sampleCrypter key text iv ciphertext h'
  · cases h'

theorem encryptSpec_sizedCrypter : EncryptSpec sizedCrypter := by
  intro key text iv
  show (if key.length = WALLET_CRYPTO_KEY_SIZE then some (key ++ text) else none).isSome = true ↔ _
  split <;> simp_all

/-- The sample wallet with this encryption. -/
def sizedWallet : WalletPrims :=
  { sampleWallet with crypter := sizedCrypter }

/-- A wallet is created and encrypted, which locks it. -/
def lockedOps : List WalletOp :=
  [createOp sampleSeed,
    .encryptWallet { sampleEncrypt with masterKey := List.replicate 32 7 } 100]

/-- The random bytes of another key. -/
def otherSeed : Bytes := List.replicate 96 8

/-- The wallet stays locked or is unlocked. -/
def openedOps (unlocked : Bool) : List WalletOp :=
  lockedOps ++ if unlocked then [.unlock samplePersist sampleLoad 100] else []

/-- The locked wallet returns an address. Its secret key is in memory, and nowhere else. -/
theorem locked_address_not_stored : ∃ d w d' w' pubkey sk,
    runOps (WalletRun.step sizedWallet) (openedOps false) ⟨WalletDir.empty, none⟩ =
      some ⟨d, some w⟩ ∧ w.isLocked = true ∧
    generatedKey sizedWallet.keys otherSeed = some (pubkey, sk) ∧
    (w.getnewxmssaddress sizedWallet (sampleKeyEnv otherSeed)).run d 100 = (d', some w') ∧
    w'.signer.getSecKeyForPubkey pubkey = sk ∧ ¬ d'.Contains sizedWallet pubkey sk := by
  have hkey : (generatedKey sizedWallet.keys otherSeed).any (fun p =>
      (runOps (step sizedWallet) (openedOps false) ⟨WalletDir.empty, none⟩).any fun s =>
        s.wallet.any fun w =>
          let out := (w.getnewxmssaddress sizedWallet (sampleKeyEnv otherSeed)).run s.disk 100
          w.isLocked && out.2.any fun w' => decide (w'.signer.getSecKeyForPubkey p.1 = p.2 ∧
            ¬ out.1.Contains sizedWallet p.1 p.2)) = true := by
    decide +kernel
  obtain ⟨⟨pubkey, sk⟩, hkey, hrun⟩ := (any_eq_true _ _).mp hkey
  obtain ⟨⟨d, wallet⟩, hrun, hwallet⟩ := (any_eq_true _ _).mp hrun
  obtain ⟨w, hw, hcall⟩ := (any_eq_true _ _).mp hwallet
  obtain rfl : wallet = some w := hw
  obtain ⟨hlocked, hcall⟩ := and_eq_true_iff.mp hcall
  obtain ⟨w', hw', hstored⟩ := (any_eq_true _ _).mp hcall
  obtain ⟨hmemory, hrecord⟩ := of_decide_eq_true hstored
  exact ⟨d, w, _, w', pubkey, sk, hrun, hlocked, hkey, Prod.ext rfl hw', hmemory, hrecord⟩

/-- The same wallet stores the key once it is unlocked. -/
theorem issued_key_stored_iff_unlocked : ∃ d w d' w' pubkey sk,
    runOps (WalletRun.step sizedWallet) (openedOps true) ⟨WalletDir.empty, none⟩ =
      some ⟨d, some w⟩ ∧
    (w.getnewxmssaddress sizedWallet (sampleKeyEnv otherSeed)).run d 100 = (d', some w') ∧
    d'.Contains sizedWallet pubkey sk := by
  have hkey : (generatedKey sizedWallet.keys otherSeed).any (fun _ =>
      (runOps (step sizedWallet) (openedOps true) ⟨WalletDir.empty, none⟩).any fun s =>
        s.wallet.any fun w => decide (RecordFits w) &&
          decide (w.vMasterKey = some (List.replicate 32 7) ∧
            s.disk.masterKey = some (List.replicate 32 7)) &&
          ((w.getnewxmssaddress sizedWallet (sampleKeyEnv otherSeed)).run s.disk 100).2.isSome) =
      true := by
    decide +kernel
  obtain ⟨⟨pubkey, sk⟩, hkey, hrun⟩ := (any_eq_true _ _).mp hkey
  obtain ⟨⟨d, wallet⟩, hrun, hwallet⟩ := (any_eq_true _ _).mp hrun
  obtain ⟨w, hw, hcall⟩ := (any_eq_true _ _).mp hwallet
  obtain rfl : wallet = some w := hw
  obtain ⟨hcall, hsome⟩ := and_eq_true_iff.mp hcall
  obtain ⟨hfits, hmaster⟩ := and_eq_true_iff.mp hcall
  obtain ⟨hopen, hstored⟩ := of_decide_eq_true hmaster
  obtain ⟨w', hw'⟩ := isSome_iff_exists.mp hsome
  have hcall : (w.getnewxmssaddress sizedWallet (sampleKeyEnv otherSeed)).run d 100 =
      (((w.getnewxmssaddress sizedWallet (sampleKeyEnv otherSeed)).run d 100).1, some w') :=
    Prod.ext rfl hw'
  refine ⟨d, w, _, w', pubkey, sk, hrun, hcall, ?_⟩
  have hissued := (issued_key_stored_iff crypterSpec_sizedCrypter encryptSpec_sizedCrypter
    keypairLoads_sampleKeys hrun (of_decide_eq_true hfits)).1 _ 100 _ w' pubkey sk hkey hcall
  refine hissued.mpr (.inl ⟨⟨rfl, fun _ => ⟨_, hopen, rfl⟩⟩, fun _ => ?_⟩)
  have hstored : d.masterKey = some (List.replicate 32 7) := hstored
  rw [hstored]
  rfl

end AssentianPQE
