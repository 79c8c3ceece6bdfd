import AssentianPQE.Lib.Lockstep
import AssentianPQE.SampleWallet

/-!
# What an encrypted wallet writes about its secret keys

Two wallets are compared that differ only in the secret keys of their native XMSS keys, and whose
record is encrypted to the same bytes. If what is on the disk depends on a secret key only through
the encryption, then the same calls write the same bytes for both.

The record keeps to this. The tree ledger does not: `GenerateKey`, `LoadState` and `SignXMSS` write
the secret key into a ledger file as it is. `encrypted_writes_hide_secrets` is about the runs in which they do not write
such a file. `alike_run` compares the two wallets write by write there (`Durable.Lockstep`).
-/

set_option autoImplicit false

namespace AssentianPQE

open Lib Durable List Function WalletRun
open CXMSSSigner (takeEntry recordVersion)

/-! ### What is not secret -/

/-- The part of an entry that two wallets share: all of it but the secret key of a native key, of
which only the OID and the size are shared. -/
structure PublicEntry where
  leafIndex : UInt32
  retired : Bool
  imported : Bool
  oid : Bytes
  size : Nat
  importedKey : Option Bytes
deriving DecidableEq

@[inherit_doc PublicEntry]
def XMSSKeyEntry.publicEntry (e : XMSSKeyEntry) : PublicEntry where
  leafIndex := e.leafIndex
  retired := e.retired
  imported := e.imported
  oid := e.sk.take 4
  size := e.sk.length
  importedKey := if e.imported then some e.sk else none

/-- Signers that differ only in the secret keys of native keys. -/
structure SamePublic (s₁ s₂ : CXMSSSigner) : Prop where
  keyIdMap : s₁.keyIdMap = s₂.keyIdMap
  xmssKeys : s₁.xmssKeys.map (fun _ => XMSSKeyEntry.publicEntry) =
    s₂.xmssKeys.map fun _ => XMSSKeyEntry.publicEntry

variable (s : CXMSSSigner) {e₁ e₂ : XMSSKeyEntry}

namespace SamePublic

variable {s₁ s₂ : CXMSSSigner}

theorem refl : SamePublic s s :=
  ⟨rfl, rfl⟩

theorem getElem? (h : SamePublic s₁ s₂) (pubkey : Bytes) :
    (s₁.xmssKeys[pubkey]?).map XMSSKeyEntry.publicEntry =
      (s₂.xmssKeys[pubkey]?).map XMSSKeyEntry.publicEntry := by
  have hget := congrArg (fun m => m[pubkey]?) h.xmssKeys
  simpa only [Std.ExtTreeMap.getElem?_map] using hget

theorem insert (h : SamePublic s₁ s₂) (c : Crypto) (pubkey : Bytes)
    (he : e₁.publicEntry = e₂.publicEntry) :
    SamePublic (s₁.insert c pubkey e₁) (s₂.insert c pubkey e₂) := by
  constructor
  · show update _ _ _ = update _ _ _
    rw [h.keyIdMap]
  apply Std.ExtTreeMap.ext_getElem?
  intro key
  have hkey := h.getElem? key
  simp only [CXMSSSigner.insert, Std.ExtTreeMap.getElem?_map, Std.ExtTreeMap.getElem?_insert]
  split
  · rw [Option.map_some, Option.map_some, he]
  · exact hkey

theorem isEmpty (h : SamePublic s₁ s₂) : s₁.xmssKeys.isEmpty = s₂.xmssKeys.isEmpty := by
  have hsize := congrArg Std.ExtTreeMap.size h.xmssKeys
  rw [Std.ExtTreeMap.size_map, Std.ExtTreeMap.size_map] at hsize
  rw [Std.ExtTreeMap.isEmpty_eq_size_beq_zero, Std.ExtTreeMap.isEmpty_eq_size_beq_zero, hsize]

theorem countFreshKeys (h : SamePublic s₁ s₂) : s₁.countFreshKeys = s₂.countFreshKeys := by
  have hcount : ∀ s : CXMSSSigner, s.countFreshKeys =
      ((s.xmssKeys.map fun _ => XMSSKeyEntry.publicEntry).toList).countP fun p => !p.2.retired := by
    intro s
    rw [Std.ExtTreeMap.toList_map, countP_map]
    rfl
  rw [hcount, hcount, h.xmssKeys]

end SamePublic

/-- Entries with the same public part can both be loaded, or neither can. -/
theorem loadKey_isNone_congr (h : e₁.publicEntry = e₂.publicEntry) :
    (loadKey [] e₁.sk).isNone = (loadKey [] e₂.sk).isNone := by
  have hoid : e₁.sk.take 4 = e₂.sk.take 4 := congrArg PublicEntry.oid h
  have hsize : e₁.sk.length = e₂.sk.length := congrArg PublicEntry.size h
  unfold loadKey
  rw [hoid, hsize]
  split
  · rfl
  · split
    · rfl
    · split <;> rfl

/-! ### Records -/

/-- Entries of two records that differ only in the secret keys of native keys. -/
def EntriesAlike (version : Nat) : Nat → Bytes → Bytes → Prop
  | 0, _, _ => True
  | count + 1, ds, es =>
    Option.Rel (fun a b => a.1.1 = b.1.1 ∧ a.1.2.publicEntry = b.1.2.publicEntry ∧
      EntriesAlike version count a.2 b.2) (takeEntry version ds) (takeEntry version es)

/-- The number of entries of a record, and what follows it. -/
def recordBody (data : Bytes) : Option (Bytes × Bytes) :=
  takeN 4 (if 2 ≤ recordVersion data then data.drop 4 else data)

/-- Records that differ only in the secret keys of native keys. -/
structure RecordsAlike (p q : Bytes) : Prop where
  short : p.length < 4 ↔ q.length < 4
  version : recordVersion p = recordVersion q
  body : Option.Rel (fun a b => a.1 = b.1 ∧ EntriesAlike (recordVersion p) (readBE a.1) a.2 b.2)
    (recordBody p) (recordBody q)

theorem EntriesAlike.refl (version count : Nat) : ∀ ds, EntriesAlike version count ds ds := by
  induction count with
  | zero => exact fun _ => trivial
  | succ count ih =>
    intro ds
    unfold EntriesAlike
    cases takeEntry version ds with
    | none => exact .none
    | some p => exact .some ⟨rfl, rfl, ih p.2⟩

theorem RecordsAlike.refl (p : Bytes) : RecordsAlike p p := by
  refine ⟨Iff.rfl, rfl, ?_⟩
  cases recordBody p with
  | none => exact .none
  | some q => exact .some ⟨rfl, EntriesAlike.refl _ _ q.2⟩

/-- Two wallets that differ only in the secret keys of native keys. `encrypt` is what the
encryption is for: the same bytes for either secret. -/
structure AlikeSecrets (k₁ k₂ : WalletPrims) : Prop where
  crypto : k₁.crypto = k₂.crypto
  sign : k₁.keys.sign = k₂.keys.sign
  keypair : ∀ seed, (k₁.keys.keypair seed).map Prod.fst = (k₂.keys.keypair seed).map Prod.fst
  encrypt : ∀ key iv s₁ s₂, SamePublic s₁ s₂ →
    k₁.crypter.encryptSecret key s₁.saveState iv = k₂.crypter.encryptSecret key s₂.saveState iv
  decrypt : ∀ key text iv, Option.Rel RecordsAlike (k₁.crypter.decryptSecret key text iv)
    (k₂.crypter.decryptSecret key text iv)

variable {k₁ k₂ : WalletPrims}

/-- The same record, opened by both wallets. -/
theorem AlikeSecrets.openRecord (hk : AlikeSecrets k₁ k₂) (vMasterKey : Option Bytes) (data : Bytes)
    :
    Option.Rel RecordsAlike (openRecord k₁.crypter vMasterKey data)
      (openRecord k₂.crypter vMasterKey data) := by
  unfold AssentianPQE.openRecord
  split
  · cases vMasterKey with
    | none => exact .none
    | some key =>
      simp only [Option.bind_some]
      cases takeBlob 32 (data.drop 4) with
      | none => exact .none
      | some p => exact hk.decrypt key p.2 p.1
  · exact .some (.refl data)

/-! ### The ledger -/

/-- Two ledgers since a start: the files of native trees are those of the start, and all other
files are the same. -/
structure LedgerAlike (native : Uint256 → Prop) (start₁ start₂ d₁ d₂ : LedgerDir) : Prop where
  instanceId : d₁.instanceId = d₂.instanceId
  forceclaim : d₁.forceclaim = d₂.forceclaim
  kept : ∀ root, native root → d₁.dat root = start₁.dat root ∧ d₂.dat root = start₂.dat root ∧
    d₁.tmp root = start₁.tmp root ∧ d₂.tmp root = start₂.tmp root
  same : ∀ root, ¬ native root → d₁.dat root = d₂.dat root ∧ d₁.tmp root = d₂.tmp root
  present : ∀ root, (d₁.dat root).isSome = (d₂.dat root).isSome

variable (io : Io)

section Ledger
variable {native : Uint256 → Prop} {start₁ start₂ d₁ d₂ : LedgerDir}

variable {root : Uint256}

section
variable (h : LedgerAlike native start₁ start₂ d₁ d₂)
include h

/-- The files of a tree that is not native get the same contents. -/
theorem LedgerAlike.setFiles (hroot : ¬ native root) (dat tmp : Option Bytes) :
    LedgerAlike native start₁ start₂
      { d₁ with dat := update d₁.dat root dat, tmp := update d₁.tmp root tmp }
      { d₂ with dat := update d₂.dat root dat, tmp := update d₂.tmp root tmp } := by
  refine ⟨h.instanceId, h.forceclaim, fun other hother => ?_, fun other hother => ?_, fun other => ?_⟩
  · have hne : other ≠ root := fun heq => hroot (heq ▸ hother)
    simpa only [update_of_ne hne] using h.kept other hother
  · by_cases heq : other = root
    · simp only [heq, update_self, and_self]
    · simpa only [update_of_ne heq] using h.same other hother
  · by_cases heq : other = root
    · simp only [heq, update_self]
    · simpa only [update_of_ne heq] using h.present other

theorem LedgerAlike.setTmp (hroot : ¬ native root) (tmp : Option Bytes) :
    LedgerAlike native start₁ start₂ { d₁ with tmp := update d₁.tmp root tmp }
      { d₂ with tmp := update d₂.tmp root tmp } := by
  have hset := h.setFiles hroot (d₁.dat root) tmp
  rw [update_eq_self] at hset
  rw [(h.same root hroot).1, update_eq_self] at hset
  exact hset

theorem LedgerAlike.setInstanceId (file : Option Bytes) :
    LedgerAlike native start₁ start₂ { d₁ with instanceId := file } { d₂ with instanceId := file } :=
  ⟨rfl, h.forceclaim, h.kept, h.same, h.present⟩

end

theorem getOrCreateInstanceId_lockstep (h : LedgerAlike native start₁ start₂ d₁ d₂) :
    Durable.Lockstep (LedgerAlike native start₁ start₂) Eq (getOrCreateInstanceId io)
      (getOrCreateInstanceId io) d₁ d₂ := by
  unfold getOrCreateInstanceId
  refine lockstep_read_bind ?_
  rw [h.instanceId]
  split
  · exact lockstep_pure h rfl
  · exact lockstep_pure h rfl
  · refine lockstep_write_bind h ?_
    refine lockstep_write_bind (h.setInstanceId _) ?_
    exact lockstep_pure (h.setInstanceId _) rfl

variable {state : XMSSMinerState}

theorem saveLocked_lockstep (hroot : ¬ native state.xmssRoot)
    (h : LedgerAlike native start₁ start₂ d₁ d₂) :
    Durable.Lockstep (LedgerAlike native start₁ start₂) Eq (saveLocked io state)
      (saveLocked io state) d₁ d₂ := by
  unfold saveLocked
  dsimp only
  split
  · exact lockstep_pure h rfl
  have h₁ := h.setTmp hroot (some [])
  refine lockstep_write_bind h ?_
  split
  · refine lockstep_write_bind h₁ ?_
    exact lockstep_pure (h₁.setTmp hroot _) rfl
  have h₂ := h₁.setTmp hroot (some state.serialize)
  refine lockstep_write_bind h₁ ?_
  split
  · exact lockstep_pure h₂ rfl
  · refine lockstep_write_bind h₂ ?_
    exact lockstep_pure (h₂.setFiles hroot _ _) rfl

theorem signAndSave_lockstep (x : XmssKeys) (io : Io) (hash32 : Bytes)
    (hroot : ¬ native state.xmssRoot) (h : LedgerAlike native start₁ start₂ d₁ d₂) :
    Durable.Lockstep (LedgerAlike native start₁ start₂) Eq (signAndSave x io hash32 state)
      (signAndSave x io hash32 state) d₁ d₂ := by
  unfold signAndSave
  split
  · exact lockstep_pure h rfl
  rename_i sm next hnext
  have hnextRoot : next.xmssRoot = state.xmssRoot := by
    unfold signNext at hnext
    repeat' split at hnext
    all_goals first | cases hnext; done | (cases hnext; rfl)
  rw [← hnextRoot] at hroot
  refine lockstep_bind (saveLocked_lockstep io hroot h) ?_
  intro d₁' d₂' a b h' hab
  cases hab
  split
  · exact lockstep_pure h' rfl
  · exact lockstep_pure h' rfl

/-- A tree that is not native signs alike: its ledger file is the same. -/
theorem claimAndSign_lockstep (x : XmssKeys) (io : Io) (hash32 : Bytes) (hroot : ¬ native root)
    (h : LedgerAlike native start₁ start₂ d₁ d₂) :
    Durable.Lockstep (LedgerAlike native start₁ start₂) Eq (xmssTreeLedgerClaimAndSign x io root hash32)
      (xmssTreeLedgerClaimAndSign x io root hash32) d₁ d₂ := by
  unfold xmssTreeLedgerClaimAndSign
  split
  · exact lockstep_pure h rfl
  refine lockstep_read_bind ?_
  have hload : loadLocked io root d₁ = loadLocked io root d₂ := by
    unfold loadLocked
    rw [(h.same root hroot).1]
  rw [hload]
  split
  · exact lockstep_pure h rfl
  rename_i state hstate
  have hstateRoot : state.xmssRoot = root := by
    obtain ⟨data, -, hdata⟩ := Option.bind_eq_some_iff.mp hstate
    split at hdata
    · exact of_decide_eq_true (Option.filter_eq_some_iff.mp hdata).2
    · cases hdata
  have hnative : ¬ native state.xmssRoot := by
    rw [hstateRoot]
    exact hroot
  refine lockstep_bind (getOrCreateInstanceId_lockstep io h) ?_
  intro d₁' d₂' id id' h' hid
  cases hid
  dsimp only
  split
  · exact signAndSave_lockstep x io hash32 hnative h'
  refine lockstep_read_bind ?_
  rw [h'.forceclaim]
  split
  · refine lockstep_write_bind h' ?_
    refine signAndSave_lockstep x io hash32 hnative ?_
    exact ⟨h'.instanceId, by rw [h'.forceclaim], h'.kept, h'.same, h'.present⟩
  · exact lockstep_pure h' rfl

end Ledger

/-! ### The signer -/

/-- A call of `SignXMSS` that signs with no native key: the key is not there, or is retired, or is
imported and its tree is not that of a native key. -/
def SignsNoNative (native : Uint256 → Prop) (s : CXMSSSigner) (pubkey : Bytes) : Prop :=
  ∀ entry, s.xmssKeys[pubkey]? = some entry → pubkey.length = 64 →
    if entry.imported then ¬ native (rootOf pubkey) else entry.retired = true

/-- The entries of a record need no new ledger file. -/
def EntriesQuiet (d : LedgerDir) (version : Nat) : Nat → Bytes → Prop
  | 0, _ => True
  | count + 1, ds => ∀ pubkey entry rest, takeEntry version ds = some ((pubkey, entry), rest) →
    (entry.imported = false → entry.retired = false → pubkey.length = 64 →
      (d.dat (rootOf pubkey)).isSome = true) ∧ EntriesQuiet d version count rest

@[inherit_doc EntriesQuiet]
def RecordQuiet (d : LedgerDir) (data : Bytes) : Prop :=
  ∀ count ds, recordBody data = some (count, ds) →
    EntriesQuiet d (recordVersion data) (readBE count) ds

section Signer
variable {native : Uint256 → Prop} {start₁ start₂ d₁ d₂ : LedgerDir} {s₁ s₂ : CXMSSSigner}

/-- Without native keys, `SignXMSS` does the same for both and changes no key. -/
theorem signXMSS_lockstep {x₁ x₂ : XmssKeys} (hx : x₁.sign = x₂.sign) {env : SignEnv}
    (halone : env.Alone) (hash : Uint256) {pubkey : Bytes} (hs : SamePublic s₁ s₂)
    (hcall : SignsNoNative native s₁ pubkey) (h : LedgerAlike native start₁ start₂ d₁ d₂) :
    Durable.Lockstep (LedgerAlike native start₁ start₂)
      (fun p q => p.1 = q.1 ∧ p.2 = s₁ ∧ q.2 = s₂) (s₁.signXMSS x₁ env hash pubkey)
      (s₂.signXMSS x₂ env hash pubkey) d₁ d₂ := by
  have hget := hs.getElem? pubkey
  unfold CXMSSSigner.signXMSS
  cases h₁ : s₁.xmssKeys[pubkey]? with
  | none =>
    rw [h₁] at hget
    rw [Option.map_eq_none_iff.mp hget.symm]
    exact lockstep_pure h ⟨rfl, rfl, rfl⟩
  | some e₁ =>
    rw [h₁] at hget
    obtain ⟨e₂, h₂, hpublic⟩ := Option.map_eq_some_iff.mp hget.symm
    rw [h₂]
    have himported : e₂.imported = e₁.imported := congrArg PublicEntry.imported hpublic
    have hretired : e₂.retired = e₁.retired := congrArg PublicEntry.retired hpublic
    dsimp only
    rw [himported, hretired]
    split
    · exact lockstep_pure h ⟨rfl, rfl, rfl⟩
    rename_i hlen
    split
    · exact lockstep_pure h ⟨rfl, rfl, rfl⟩
    rename_i hsigns
    -- Only an imported key signs, and only with the ledger file that it finds.
    have hquiet := hcall e₁ h₁ (not_not.mp hlen)
    have himp : e₁.imported = true := by
      by_contra hnative
      rw [if_neg hnative] at hquiet
      exact hsigns (by simp [hnative, hquiet])
    rw [if_pos himp] at hquiet
    have hsigner : ∀ (s : CXMSSSigner) {e : XMSSKeyEntry} (leaf : UInt32), e.imported = true →
        s.retire pubkey e leaf = s := fun s e leaf he => if_pos he
    have hensure : Durable.Lockstep (LedgerAlike native start₁ start₂) Eq
        (CXMSSSigner.ensureLedger env pubkey e₁) (CXMSSSigner.ensureLedger env pubkey e₂) d₁ d₂ := by
      unfold CXMSSSigner.ensureLedger
      refine lockstep_read_bind ?_
      rw [xmssTreeLedgerExists, xmssTreeLedgerExists, h.present, himported, himp]
      split
      · exact lockstep_pure h rfl
      · exact lockstep_pure h rfl
    refine lockstep_bind hensure ?_
    intro d₁' d₂' a b h' hab
    cases hab
    split
    · rw [halone 2, Durable.pure_bind, Durable.pure_bind]
      have hclaim : xmssTreeLedgerClaimAndSign x₂ env.claim (rootOf pubkey) hash.data =
          xmssTreeLedgerClaimAndSign x₁ env.claim (rootOf pubkey) hash.data := by
        unfold xmssTreeLedgerClaimAndSign signAndSave signNext
        rw [hx]
      rw [hclaim]
      refine lockstep_bind (claimAndSign_lockstep x₁ env.claim hash.data hquiet h') ?_
      intro d₁'' d₂'' r r' h'' hr
      cases hr
      split
      · exact lockstep_pure h'' ⟨rfl, rfl, rfl⟩
      · exact lockstep_pure h''
          ⟨rfl, hsigner s₁ _ himp, hsigner s₂ _ (himported.trans himp)⟩
    · exact lockstep_pure h' ⟨rfl, rfl, rfl⟩

/-- A key that has its ledger file is not migrated. -/
theorem migrate_eq_pure {pubkey : Bytes} {entry : XMSSKeyEntry} {d : LedgerDir}
    (h : entry.imported = false → entry.retired = false → pubkey.length = 64 →
      (d.dat (rootOf pubkey)).isSome = true) (n : Nat) :
    CXMSSSigner.migrate io pubkey entry d n = (d, some ((), n)) := by
  unfold CXMSSSigner.migrate
  split
  · rename_i hcond
    simp only [Bool.and_eq_true, Bool.not_eq_true', decide_eq_true_eq] at hcond
    have hexists : xmssTreeLedgerExists (rootOf pubkey) d = true := h hcond.1.1 hcond.1.2 hcond.2
    show (if xmssTreeLedgerExists (rootOf pubkey) d = true then _ else _ : Durable LedgerDir Unit) d n
      = _
    rw [if_pos hexists]
    rfl
  · rfl

theorem loadEntries_lockstep (c : Crypto) (io : Nat → Io) (version count : Nat) :
    ∀ {ds es : Bytes} {s₁ s₂ : CXMSSSigner} {d₁ d₂ : LedgerDir}, SamePublic s₁ s₂ →
      EntriesAlike version count ds es → EntriesQuiet d₁ version count ds →
      LedgerAlike native start₁ start₂ d₁ d₂ →
      Durable.Lockstep (LedgerAlike native start₁ start₂) (fun p q => SamePublic p.2 q.2)
        (CXMSSSigner.loadEntries c io version count ds s₁)
        (CXMSSSigner.loadEntries c io version count es s₂) d₁ d₂ := by
  induction count with
  | zero =>
    intro ds es s₁ s₂ d₁ d₂ hs _ _ h
    exact lockstep_pure h hs
  | succ count ih =>
    intro ds es s₁ s₂ d₁ d₂ hs halike hquiet h
    unfold EntriesAlike at halike
    unfold EntriesQuiet at hquiet
    unfold CXMSSSigner.loadEntries
    generalize takeEntry version ds = r₁ at halike hquiet ⊢
    generalize takeEntry version es = r₂ at halike ⊢
    cases halike with
    | none => exact lockstep_pure h hs
    | @some a b hab =>
      obtain ⟨⟨pubkey, e₁⟩, ds'⟩ := a
      obtain ⟨⟨pubkey', e₂⟩, es'⟩ := b
      obtain ⟨hpubkey, hpublic, halike'⟩ := hab
      cases hpubkey
      obtain ⟨hfile, hquiet'⟩ := hquiet pubkey e₁ ds' rfl
      have himported : e₂.imported = e₁.imported := congrArg PublicEntry.imported hpublic.symm
      have hretired : e₂.retired = e₁.retired := congrArg PublicEntry.retired hpublic.symm
      dsimp only
      rw [loadKey_isNone_congr hpublic]
      split
      · exact lockstep_pure h hs
      intro n
      -- No ledger file is created, so the next entry starts from the same stores.
      have hfile₂ : e₂.imported = false → e₂.retired = false → pubkey.length = 64 →
          (d₂.dat (rootOf pubkey)).isSome = true := by
        rw [himported, hretired, ← h.present]
        exact hfile
      rw [bind_of_some (migrate_eq_pure _ hfile n),
        bind_of_some (migrate_eq_pure _ hfile₂ n)]
      exact ih (hs.insert c pubkey hpublic) halike' hquiet' h n

theorem loadState_lockstep (c : Crypto) (io : Nat → Io) {p q : Bytes} (hs : SamePublic s₁ s₂)
    (halike : RecordsAlike p q) (hquiet : RecordQuiet d₁ p)
    (h : LedgerAlike native start₁ start₂ d₁ d₂) :
    Durable.Lockstep (LedgerAlike native start₁ start₂) (fun p q => SamePublic p.2 q.2)
      (s₁.loadState c io p) (s₂.loadState c io q) d₁ d₂ := by
  have hbody := halike.body
  unfold RecordQuiet at hquiet
  unfold recordBody at hbody hquiet
  unfold CXMSSSigner.loadState
  dsimp only
  rw [← halike.version] at hbody ⊢
  by_cases hshort : p.length < 4
  · rw [if_pos hshort, if_pos (halike.short.mp hshort)]
    exact lockstep_pure h hs
  rw [if_neg hshort, if_neg (fun hq => hshort (halike.short.mpr hq))]
  generalize takeN 4 (if 2 ≤ recordVersion p then p.drop 4 else p) = r₁ at hbody hquiet ⊢
  generalize takeN 4 (if 2 ≤ recordVersion p then q.drop 4 else q) = r₂ at hbody ⊢
  cases hbody with
  | none => exact lockstep_pure h (.refl _)
  | @some a b hab =>
    obtain ⟨count, ds⟩ := a
    obtain ⟨count', es⟩ := b
    obtain ⟨hcount, hentries⟩ := hab
    cases hcount
    exact loadEntries_lockstep c io _ _ (.refl _) hentries (hquiet _ _ rfl) h

end Signer

/-! ### The wallet -/

/-- Two datadirs since a start. The record is the same, or still that of the start. -/
structure DirAlike (native : Uint256 → Prop) (start₁ start₂ : WalletDir) (key : Bytes)
    (d₁ d₂ : WalletDir) : Prop where
  ledger : LedgerAlike native start₁.ledger start₂.ledger d₁.ledger d₂.ledger
  record : d₁.xmssState = d₂.xmssState ∨
    d₁.xmssState = start₁.xmssState ∧ d₂.xmssState = start₂.xmssState
  masterKey₁ : d₁.masterKey = some key
  masterKey₂ : d₂.masterKey = some key

/-- Two encrypted wallets with one master key that differ only in the secret keys of native
keys. -/
structure WalletAlike (key : Bytes) (w₁ w₂ : CWallet) : Prop where
  signer : SamePublic w₁.signer w₂.signer
  mapMasterKeys₁ : w₁.mapMasterKeys = some key
  mapMasterKeys₂ : w₂.mapMasterKeys = some key
  vMasterKey : w₁.vMasterKey = w₂.vMasterKey

/-- The text of the record that a wallet can load. -/
def readRecord (k : WalletPrims) (load : LoadEnv) (d : WalletDir) (vMasterKey : Option Bytes) :
    Option Bytes :=
  (if load.readOk then d.xmssState else none).bind (openRecord k.crypter vMasterKey)

/-- Two starts: a ledger file is there for both or for neither, and the records can be opened to
texts that differ only in the secret keys of native keys. -/
structure StartAlike (native : Uint256 → Prop) (k₁ k₂ : WalletPrims) (start₁ start₂ : WalletDir) :
    Prop where
  ledger : LedgerAlike native start₁.ledger start₂.ledger start₁.ledger start₂.ledger
  record : ∀ vMasterKey, Option.Rel RecordsAlike
    (start₁.xmssState.bind (openRecord k₁.crypter vMasterKey))
    (start₂.xmssState.bind (openRecord k₂.crypter vMasterKey))

/-- Loading the record needs no new ledger file. -/
def LoadQuiet (k : WalletPrims) (load : LoadEnv) (d : WalletDir) (vMasterKey : Option Bytes) : Prop :=
  ∀ plain, readRecord k load d vMasterKey = some plain → RecordQuiet d.ledger plain

section Wallet
variable {native : Uint256 → Prop} {k₁ k₂ : WalletPrims} {start₁ start₂ d₁ d₂ : WalletDir}
  {key : Bytes} {w₁ w₂ : CWallet}

theorem DirAlike.readRecord (hk : AlikeSecrets k₁ k₂) (hstart : StartAlike native k₁ k₂ start₁ start₂)
    (h : DirAlike native start₁ start₂ key d₁ d₂) (load : LoadEnv) (vMasterKey : Option Bytes) :
    Option.Rel RecordsAlike (readRecord k₁ load d₁ vMasterKey) (readRecord k₂ load d₂ vMasterKey) := by
  unfold AssentianPQE.readRecord
  cases load.readOk with
  | false => exact .none
  | true =>
    rcases h.record with hsame | ⟨h₁, h₂⟩
    · simp only [if_true, hsame]
      cases d₂.xmssState with
      | none => exact .none
      | some data => exact hk.openRecord vMasterKey data
    · simp only [if_true, h₁, h₂]
      exact hstart.record vMasterKey

/-- `LoadXMSSStateIfPossible` by the text that it reads. -/
theorem loadXMSSStateIfPossible_eq (k : WalletPrims) (load : LoadEnv) (w : CWallet) (d : WalletDir)
    (n : Nat) :
    w.loadXMSSStateIfPossible k load d n =
      (match AssentianPQE.readRecord k load d w.vMasterKey with
        | none => pure w
        | some plain => do
          let (_, signer) ← WalletDir.onLedger (w.signer.loadState k.crypto load.io plain)
          pure { w with signer := signer } : Durable WalletDir CWallet) d n := by
  unfold CWallet.loadXMSSStateIfPossible AssentianPQE.readRecord
  show (match (if load.readOk then d.xmssState else none) with
    | none => (pure w : Durable WalletDir CWallet)
    | some data => _) d n = _
  cases (if load.readOk then d.xmssState else none) with
  | none => rfl
  | some data => rfl

theorem load_lockstep (hk : AlikeSecrets k₁ k₂) (hstart : StartAlike native k₁ k₂ start₁ start₂)
    (load : LoadEnv) (hw : WalletAlike key w₁ w₂) (hquiet : LoadQuiet k₁ load d₁ w₁.vMasterKey)
    (h : DirAlike native start₁ start₂ key d₁ d₂) :
    Durable.Lockstep (DirAlike native start₁ start₂ key) (WalletAlike key)
      (w₁.loadXMSSStateIfPossible k₁ load) (w₂.loadXMSSStateIfPossible k₂ load) d₁ d₂ := by
  have hread := h.readRecord hk hstart load w₁.vMasterKey
  unfold LoadQuiet at hquiet
  intro n
  rw [loadXMSSStateIfPossible_eq, loadXMSSStateIfPossible_eq, ← hw.vMasterKey]
  generalize AssentianPQE.readRecord k₁ load d₁ w₁.vMasterKey = r₁ at hread hquiet ⊢
  generalize AssentianPQE.readRecord k₂ load d₂ w₁.vMasterKey = r₂ at hread ⊢
  revert n
  cases hread with
  | none => exact lockstep_pure h hw
  | @some p q hpq =>
    have hload := loadState_lockstep k₁.crypto load.io hw.signer hpq (hquiet p rfl) h.ledger
    have hdisk : Durable.Lockstep (DirAlike native start₁ start₂ key) (fun p q => SamePublic p.2 q.2)
        (WalletDir.onLedger (w₁.signer.loadState k₁.crypto load.io p))
        (WalletDir.onLedger (w₂.signer.loadState k₂.crypto load.io q)) d₁ d₂ := by
      rw [← hk.crypto]
      exact lockstep_on hload fun l₁ l₂ hl => ⟨hl, h.record, h.masterKey₁, h.masterKey₂⟩
    refine lockstep_bind hdisk ?_
    intro d₁' d₂' a b h' hab
    exact lockstep_pure h' ⟨hab, hw.mapMasterKeys₁, hw.mapMasterKeys₂, rfl⟩

/-- The record of an encrypted wallet is the same for both. -/
theorem WalletAlike.record (hk : AlikeSecrets k₁ k₂) (hw : WalletAlike key w₁ w₂) (iv : Uint256) :
    w₁.record k₁.crypter iv = w₂.record k₂.crypter iv := by
  unfold CWallet.record CWallet.isCrypted
  rw [hw.mapMasterKeys₁, hw.mapMasterKeys₂, hw.vMasterKey]
  cases w₂.vMasterKey with
  | none => rfl
  | some vkey =>
    show (k₁.crypter.encryptSecret vkey w₁.signer.saveState iv).map _ = _
    rw [hk.encrypt vkey iv _ _ hw.signer]
    rfl

theorem saveState_ne_nil : s.saveState ≠ [] :=
  cons_ne_nil _ _

theorem persist_lockstep (hk : AlikeSecrets k₁ k₂) (env : PersistEnv) (hw : WalletAlike key w₁ w₂)
    (h : DirAlike native start₁ start₂ key d₁ d₂) :
    Durable.Lockstep (DirAlike native start₁ start₂ key) (fun _ _ => True)
      (w₁.persistXMSSState k₁ env) (w₂.persistXMSSState k₂ env) d₁ d₂ := by
  unfold CWallet.persistXMSSState
  rw [if_neg (saveState_ne_nil _), if_neg (saveState_ne_nil _), hw.record hk]
  split
  · exact lockstep_pure h trivial
  · split
    · refine lockstep_write h ⟨h.ledger, .inl rfl, h.masterKey₁, h.masterKey₂⟩
    · exact lockstep_pure h trivial

theorem persist_pure_lockstep (hk : AlikeSecrets k₁ k₂) (env : PersistEnv)
    (hw : WalletAlike key w₁ w₂) (h : DirAlike native start₁ start₂ key d₁ d₂) :
    Durable.Lockstep (DirAlike native start₁ start₂ key) (WalletAlike key)
      (do w₁.persistXMSSState k₁ env; pure w₁) (do w₂.persistXMSSState k₂ env; pure w₂) d₁ d₂ :=
  lockstep_bind (persist_lockstep hk env hw h) fun _ _ _ _ h' _ => lockstep_pure h' hw

/-! ### Keys -/

theorem AlikeSecrets.generatedKey_eq_none (hk : AlikeSecrets k₁ k₂) {seed : Bytes}
    (h : generatedKey k₁.keys seed = none) : generatedKey k₂.keys seed = none := by
  have hpk := hk.keypair seed
  unfold generatedKey at h ⊢
  cases h₁ : k₁.keys.keypair seed with
  | none =>
    rw [h₁] at hpk
    rw [Option.map_eq_none_iff.mp hpk.symm]
    rfl
  | some p =>
    rw [h₁] at hpk h
    obtain ⟨q, h₂, hq⟩ := Option.map_eq_some_iff.mp hpk.symm
    rw [h₂, Option.bind_some, hq]
    rw [Option.bind_some] at h
    split at h
    · cases h
    · rename_i hlen
      rw [if_neg hlen]

/-- Without a key pair nothing is written. -/
theorem generateKey_eq_pure (k : WalletPrims) (io : Io) {seed : Bytes}
    (h : generatedKey k.keys seed = none) (w : CWallet) : w.generateKey k io seed = pure ([], w) := by
  have hsigner : w.signer.generateKey k.crypto k.keys io seed = pure ([], w.signer) := by
    unfold CXMSSSigner.generateKey
    unfold generatedKey at h
    cases hpair : k.keys.keypair seed with
    | none => rfl
    | some p =>
      rw [hpair, Option.bind_some] at h
      split at h
      · cases h
      · rename_i hlen
        exact if_pos hlen
  unfold CWallet.generateKey
  rw [hsigner]
  rfl

theorem generateAndPersist_eq_pure (k : WalletPrims) (env : KeyEnv)
    (h : generatedKey k.keys env.seed = none) (w : CWallet) : w.generateAndPersist k env = pure w := by
  unfold CWallet.generateAndPersist
  rw [generateKey_eq_pure k env.io h w, Durable.pure_bind]
  rfl

theorem ensure_eq_pure (k : WalletPrims) (env : KeyEnv) {w : CWallet}
    (h : w.signer.countFreshKeys = 0 → generatedKey k.keys env.seed = none) :
    w.ensureXMSSKeyAvailable k env = pure w := by
  unfold CWallet.ensureXMSSKeyAvailable
  split
  · rename_i hzero
    exact generateAndPersist_eq_pure k env (h hzero) w
  · rfl

section
variable (hk : AlikeSecrets k₁ k₂)
include hk

/-- The second wallet generates no key where the first one does not. -/
theorem ensure_eq_pure_right (env : KeyEnv) (hw : SamePublic w₁.signer w₂.signer)
    (h : w₁.signer.countFreshKeys = 0 → generatedKey k₁.keys env.seed = none) :
    w₂.ensureXMSSKeyAvailable k₂ env = pure w₂ := by
  refine ensure_eq_pure k₂ env fun hzero => hk.generatedKey_eq_none (h ?_)
  rw [hw.countFreshKeys]
  exact hzero

variable {s₁ s₂ : CXMSSSigner}

theorem addXMSSKey_alike (hs : SamePublic s₁ s₂) (behind pubkey seckey : Bytes) :
    Option.Rel SamePublic (s₁.addXMSSKey k₁.crypto behind pubkey seckey)
      (s₂.addXMSSKey k₂.crypto behind pubkey seckey) := by
  unfold CXMSSSigner.addXMSSKey
  rw [hk.crypto]
  split
  · exact .none
  split
  · exact .none
  split
  · exact .none
  split
  · exact .none
  · exact .some (hs.insert _ _ rfl)

/-! ### Signing -/

theorem call_lockstep (call : SignerCall) (hs : SamePublic s₁ s₂)
    (hcall : SignsNoNative native s₁ call.pubkey) (h : DirAlike native start₁ start₂ key d₁ d₂) :
    Durable.Lockstep (DirAlike native start₁ start₂ key) (fun a b => a = s₁ ∧ b = s₂)
      (call.run k₁ s₁) (call.run k₂ s₂) d₁ d₂ := by
  have halone : call.env.Alone := fun _ => rfl
  have hsign := signXMSS_lockstep hk.sign halone call.hash hs hcall h.ledger
  unfold SignerCall.run
  refine lockstep_bind (lockstep_on hsign fun l₁ l₂ hl =>
    ⟨hl, h.record, h.masterKey₁, h.masterKey₂⟩) ?_
  rintro d₁' d₂' ⟨out₁, a⟩ ⟨out₂, b⟩ h' ⟨hout, ha, hb⟩
  cases hout
  cases out₁ with
  | none => exact lockstep_pure h' ⟨ha, hb⟩
  | some out =>
    have hnote : DirAlike native start₁ start₂ key
        { d₁' with log := .signed call.pubkey :: d₁'.log }
        { d₂' with log := .signed call.pubkey :: d₂'.log } :=
      ⟨h'.ledger, h'.record, h'.masterKey₁, h'.masterKey₂⟩
    exact lockstep_write_bind h' (lockstep_pure hnote ⟨ha, hb⟩)

theorem runCalls_lockstep (hs : SamePublic s₁ s₂) :
    ∀ (calls : List SignerCall) {d₁ d₂ : WalletDir},
      (∀ call ∈ calls, SignsNoNative native s₁ call.pubkey) →
      DirAlike native start₁ start₂ key d₁ d₂ →
      Durable.Lockstep (DirAlike native start₁ start₂ key) (fun a b => a = s₁ ∧ b = s₂)
        (runCalls k₁ calls s₁) (runCalls k₂ calls s₂) d₁ d₂ := by
  intro calls
  induction calls with
  | nil => exact fun _ h => lockstep_pure h ⟨rfl, rfl⟩
  | cons call calls ih =>
    intro d₁ d₂ hcalls h
    refine lockstep_bind (call_lockstep hk call hs (hcalls call mem_cons_self) h) ?_
    rintro d₁' d₂' a b h' ⟨rfl, rfl⟩
    exact ih (fun c hc => hcalls c (mem_cons_of_mem _ hc)) h'

/-- `SignTransaction` without native keys changes no key. -/
theorem signTransaction_lockstep (env : CWallet.SignTxEnv) (managers : Bool)
    (calls : List SignerCall) (complete : Bool) (hw : WalletAlike key w₁ w₂)
    (hquiet : managers = false → w₁.isLocked = false →
      (w₁.signer.countFreshKeys = 0 → generatedKey k₁.keys env.before.seed = none ∧
        generatedKey k₁.keys env.after.seed = none) ∧
      ∀ call ∈ calls, SignsNoNative native w₁.signer call.pubkey)
    (h : DirAlike native start₁ start₂ key d₁ d₂) :
    Durable.Lockstep (DirAlike native start₁ start₂ key) (fun p q => WalletAlike key p.2 q.2)
      (w₁.signTransaction k₁ env (if managers then some () else none) fun s => do
        let s ← runCalls k₁ calls s
        pure (if complete then some () else none, s))
      (w₂.signTransaction k₂ env (if managers then some () else none) fun s => do
        let s ← runCalls k₂ calls s
        pure (if complete then some () else none, s)) d₁ d₂ := by
  unfold CWallet.signTransaction
  cases managers with
  | true => exact lockstep_pure h hw
  | false =>
    have hcrypted₁ : w₁.isCrypted = true := by rw [CWallet.isCrypted, hw.mapMasterKeys₁]; rfl
    have hcrypted₂ : w₂.isCrypted = true := by rw [CWallet.isCrypted, hw.mapMasterKeys₂]; rfl
    have hlocked : w₂.isLocked = w₁.isLocked := by
      rw [CWallet.isLocked, CWallet.isLocked, hcrypted₁, hcrypted₂, hw.vMasterKey]
    simp only [Bool.false_eq_true, if_false, hcrypted₁, hcrypted₂, hlocked, Bool.true_and]
    cases hlock : w₁.isLocked with
    | true => exact lockstep_pure h hw
    | false =>
      obtain ⟨hseeds, hcalls⟩ := hquiet rfl hlock
      simp only [Bool.false_eq_true, if_false]
      -- Neither wallet generates a key before or after it signs.
      have hbefore := fun hzero => (hseeds hzero).1
      have hafter := fun hzero => (hseeds hzero).2
      rw [ensure_eq_pure k₁ env.before hbefore, ensure_eq_pure_right hk env.before hw.signer hbefore,
        Durable.pure_bind, Durable.pure_bind, ite_self, ite_self]
      unfold CWallet.signWithSigner
      rw [Durable.bind_assoc, Durable.bind_assoc]
      refine lockstep_bind (runCalls_lockstep hk hw.signer calls hcalls h) ?_
      rintro d₁' d₂' a b h' ⟨rfl, rfl⟩
      rw [Durable.pure_bind, Durable.pure_bind]
      cases complete with
      | false => exact lockstep_pure h' hw
      | true =>
        refine lockstep_bind (persist_lockstep hk env.persist hw h') ?_
        intro d₁'' d₂'' _ _ h'' _
        rw [ensure_eq_pure k₁ env.after hafter, ensure_eq_pure_right hk env.after hw.signer hafter]
        exact lockstep_pure h'' hw

end

/-! ### Steps -/

/-- A call that writes no ledger file of a native key: it generates no key pair, loads no record
with a fresh native key that has no ledger file, and signs with no native key. -/
def WritesNoNative (native : Uint256 → Prop) (k : WalletPrims) (op : WalletOp) (s : WalletRun) : Prop :=
  match s.wallet, op with
  | none, .create load ensure _ => LoadQuiet k load s.disk none ∧
    ((CWallet.afterLoad k load s.disk { mapMasterKeys := s.disk.masterKey }).signer.countFreshKeys = 0 →
      generatedKey k.keys ensure.seed = none)
  | some w, .unlock _ load _ => w.signer.xmssKeys.isEmpty = true →
    LoadQuiet k load s.disk w.mapMasterKeys
  | some _, .getnewxmssaddress env _ => generatedKey k.keys env.seed = none
  | some w, .signTransaction env managers calls _ _ => managers = false → w.isLocked = false →
    (w.signer.countFreshKeys = 0 → generatedKey k.keys env.before.seed = none ∧
      generatedKey k.keys env.after.seed = none) ∧
    ∀ call ∈ calls, SignsNoNative native w.signer call.pubkey
  | some _, .generateKey _ seed _ => generatedKey k.keys seed = none
  | some w, .signXMSS call _ => SignsNoNative native w.signer call.pubkey
  | some w, .loadState load _ => LoadQuiet k load s.disk w.vMasterKey
  | _, _ => True

/-- Two states of a run since a start. -/
structure RunAlike (native : Uint256 → Prop) (start₁ start₂ : WalletDir) (key : Bytes)
    (s₁ s₂ : WalletRun) : Prop where
  disk : DirAlike native start₁ start₂ key s₁.disk s₂.disk
  wallet : Option.Rel (WalletAlike key) s₁.wallet s₂.wallet

/-- The states after a call. -/
theorem runAlike_after {α β : Type} {P : α → β → Prop} {x : Durable WalletDir α}
    {y : Durable WalletDir β} {f : α → CWallet} {g : β → CWallet}
    (h : Durable.Lockstep (DirAlike native start₁ start₂ key) P x y d₁ d₂)
    (hP : ∀ a b, P a b → WalletAlike key (f a) (g b)) (crash : Nat) :
    RunAlike native start₁ start₂ key (after f (x.run d₁ crash))
      (after g (y.run d₂ crash)) := by
  obtain ⟨hdisk, hrel⟩ := h.run crash
  refine ⟨hdisk, ?_⟩
  show Option.Rel _ ((x.run d₁ crash).2.map f) ((y.run d₂ crash).2.map g)
  generalize (x.run d₁ crash).2 = r₁ at hrel ⊢
  generalize (y.run d₂ crash).2 = r₂ at hrel ⊢
  cases hrel with
  | none => exact .none
  | some hab => exact .some (hP _ _ hab)

theorem WalletAlike.lock (hw : WalletAlike key w₁ w₂) : WalletAlike key w₁.lock w₂.lock := by
  unfold CWallet.lock CWallet.isCrypted
  rw [hw.mapMasterKeys₁, hw.mapMasterKeys₂]
  exact ⟨hw.signer, rfl, rfl, rfl⟩

section
variable (hk : AlikeSecrets k₁ k₂) (hstart : StartAlike native k₁ k₂ start₁ start₂)
include hk hstart

theorem unlock_lockstep (persist : PersistEnv) (load : LoadEnv) (hw : WalletAlike key w₁ w₂)
    (hquiet : w₁.signer.xmssKeys.isEmpty = true → LoadQuiet k₁ load d₁ w₁.mapMasterKeys)
    (h : DirAlike native start₁ start₂ key d₁ d₂) :
    Durable.Lockstep (DirAlike native start₁ start₂ key) (WalletAlike key)
      (w₁.unlock k₁ persist load) (w₂.unlock k₂ persist load) d₁ d₂ := by
  have hw' : WalletAlike key { w₁ with vMasterKey := some key } { w₂ with vMasterKey := some key } :=
    ⟨hw.signer, hw.mapMasterKeys₁, hw.mapMasterKeys₂, rfl⟩
  rw [hw.mapMasterKeys₁] at hquiet
  obtain ⟨signer₁, map₁, v₁⟩ := w₁
  obtain ⟨signer₂, map₂, v₂⟩ := w₂
  cases hw.mapMasterKeys₁
  cases hw.mapMasterKeys₂
  have hempty : signer₁.xmssKeys.isEmpty = signer₂.xmssKeys.isEmpty := hw.signer.isEmpty
  show Durable.Lockstep _ _ (if signer₁.xmssKeys.isEmpty then _ else _)
    (if signer₂.xmssKeys.isEmpty then _ else _) d₁ d₂
  rw [← hempty]
  split
  · rename_i hkeys
    exact load_lockstep hk hstart load hw' (hquiet hkeys) h
  · exact persist_pure_lockstep hk persist hw' h

theorem create_lockstep (load : LoadEnv) (ensure : KeyEnv) (hquiet : LoadQuiet k₁ load d₁ none)
    (hseed : (CWallet.afterLoad k₁ load d₁ { mapMasterKeys := d₁.masterKey }).signer.countFreshKeys = 0 →
      generatedKey k₁.keys ensure.seed = none) (h : DirAlike native start₁ start₂ key d₁ d₂) :
    Durable.Lockstep (DirAlike native start₁ start₂ key) (WalletAlike key)
      (CWallet.create k₁ load ensure) (CWallet.create k₂ load ensure) d₁ d₂ := by
  have hw : WalletAlike key { mapMasterKeys := d₁.masterKey } { mapMasterKeys := d₂.masterKey } :=
    ⟨.refl _, h.masterKey₁, h.masterKey₂, rfl⟩
  unfold CWallet.create
  refine lockstep_read_bind ?_
  have hload := lockstep_ensures (load_lockstep hk hstart load hw hquiet h)
    (ensures_mono (CWallet.load_ensures k₁ load { mapMasterKeys := d₁.masterKey } d₁)
      fun d' r hr => hr.choose_spec.2)
  refine lockstep_bind hload ?_
  rintro d₁' d₂' w₁ w₂ h' ⟨hw', rfl⟩
  rw [ensure_eq_pure k₁ ensure hseed, ensure_eq_pure_right hk ensure hw'.signer hseed]
  exact lockstep_pure h' hw'

variable {t₁ : WalletRun}

/-- A call on two wallets that differ only in the secret keys of native keys. -/
theorem callStep_alike {op : WalletOp} (hw : WalletAlike key w₁ w₂)
    (h : DirAlike native start₁ start₂ key d₁ d₂)
    (hquiet : WritesNoNative native k₁ op ⟨d₁, some w₁⟩)
    (hstep : callStep k₁ d₁ w₁ op = some t₁) :
    ∃ t₂, callStep k₂ d₂ w₂ op = some t₂ ∧ RunAlike native start₁ start₂ key t₁ t₂ := by
  have hid : ∀ a b : CWallet, WalletAlike key a b → WalletAlike key (id a) (id b) :=
    fun _ _ hab => hab
  cases op with
  | create => cases hstep
  | encryptWallet env crash =>
    -- The wallet is encrypted already.
    cases hstep
    have hsame : ∀ (k : WalletPrims) {w : CWallet}, w.mapMasterKeys = some key →
        w.encryptWallet k env = pure w := by
      intro k w hkey
      unfold CWallet.encryptWallet CWallet.isCrypted
      rw [hkey]
      rfl
    refine ⟨_, rfl, runAlike_after ?_ hid crash⟩
    rw [hsame k₁ hw.mapMasterKeys₁, hsame k₂ hw.mapMasterKeys₂]
    exact lockstep_pure h hw
  | lock =>
    cases hstep
    exact ⟨_, rfl, h, .some hw.lock⟩
  | unlock persist load crash =>
    cases hstep
    exact ⟨_, rfl, runAlike_after (unlock_lockstep hk hstart persist load hw hquiet h) hid crash⟩
  | getnewxmssaddress env crash =>
    cases hstep
    have hseed : generatedKey k₁.keys env.seed = none := hquiet
    refine ⟨_, rfl, runAlike_after ?_ hid crash⟩
    unfold CWallet.getnewxmssaddress
    rw [generateAndPersist_eq_pure k₁ env hseed,
      generateAndPersist_eq_pure k₂ env (hk.generatedKey_eq_none hseed)]
    exact lockstep_pure h hw
  | importxmsskey env behind pubkey seckey crash =>
    cases hstep
    have hadd := addXMSSKey_alike hk hw.signer behind pubkey seckey
    refine ⟨_, rfl, runAlike_after ?_ hid crash⟩
    unfold CWallet.importxmsskey
    generalize w₁.signer.addXMSSKey k₁.crypto behind pubkey seckey = r₁ at hadd ⊢
    generalize w₂.signer.addXMSSKey k₂.crypto behind pubkey seckey = r₂ at hadd ⊢
    cases hadd with
    | none => exact lockstep_pure h hw
    | some hs =>
      exact persist_pure_lockstep hk env ⟨hs, hw.mapMasterKeys₁, hw.mapMasterKeys₂, hw.vMasterKey⟩ h
  | signTransaction env managers calls complete crash =>
    cases hstep
    exact ⟨_, rfl, runAlike_after
      (signTransaction_lockstep hk env managers calls complete hw hquiet h) (fun _ _ hab => hab) crash⟩
  | commitTransaction broadcast env crash =>
    cases hstep
    refine ⟨_, rfl, runAlike_after ?_ hid crash⟩
    unfold CWallet.commitTransaction
    split
    · exact lockstep_pure h hw
    · exact persist_pure_lockstep hk env hw h
  | generateKey io seed crash =>
    cases hstep
    have hseed : generatedKey k₁.keys seed = none := hquiet
    refine ⟨_, rfl, runAlike_after (P := fun p q => WalletAlike key p.2 q.2) ?_ (fun _ _ hab => hab) crash⟩
    rw [generateKey_eq_pure k₁ io hseed, generateKey_eq_pure k₂ io (hk.generatedKey_eq_none hseed)]
    exact lockstep_pure h hw
  | signXMSS call crash =>
    cases hstep
    refine ⟨_, rfl, runAlike_after (call_lockstep hk call hw.signer hquiet h) ?_ crash⟩
    rintro a b ⟨rfl, rfl⟩
    exact hw
  | addXMSSKey behind pubkey seckey =>
    cases hstep
    have hadd := addXMSSKey_alike hk hw.signer behind pubkey seckey
    refine ⟨_, rfl, h, .some ⟨?_, hw.mapMasterKeys₁, hw.mapMasterKeys₂, hw.vMasterKey⟩⟩
    generalize w₁.signer.addXMSSKey k₁.crypto behind pubkey seckey = r₁ at hadd ⊢
    generalize w₂.signer.addXMSSKey k₂.crypto behind pubkey seckey = r₂ at hadd ⊢
    cases hadd with
    | none => exact hw.signer
    | some hs => exact hs
  | loadState load crash =>
    cases hstep
    exact ⟨_, rfl, runAlike_after (load_lockstep hk hstart load hw hquiet h) hid crash⟩
  | exit =>
    cases hstep
    exact ⟨_, rfl, h, .none⟩

theorem step_alike {op : WalletOp} {s₁ s₂ : WalletRun} (h : RunAlike native start₁ start₂ key s₁ s₂)
    (hquiet : WritesNoNative native k₁ op s₁) (hstep : step k₁ op s₁ = some t₁) :
    ∃ t₂, step k₂ op s₂ = some t₂ ∧ RunAlike native start₁ start₂ key t₁ t₂ := by
  obtain ⟨d₁, wallet₁⟩ := s₁
  obtain ⟨d₂, wallet₂⟩ := s₂
  obtain ⟨hdisk, hwallet⟩ := h
  cases hwallet with
  | some hw => exact callStep_alike hk hstart hw hdisk hquiet hstep
  | none =>
    cases op with
    | create load ensure crash =>
      cases hstep
      exact ⟨_, rfl, runAlike_after (create_lockstep hk hstart load ensure hquiet.1 hquiet.2 hdisk)
        (fun _ _ hab => hab) crash⟩
    | _ => cases hstep

/-- A run without writes of native ledger files, for both wallets. -/
theorem alike_run {ops : List WalletOp} :
    ∀ {s₁ s₂ t₁ : WalletRun}, RunAlike native start₁ start₂ key s₁ s₂ →
      StepsMeet (step k₁) (WritesNoNative native k₁) ops s₁ →
      runOps (step k₁) ops s₁ = some t₁ →
      ∃ t₂, runOps (step k₂) ops s₂ = some t₂ ∧ RunAlike native start₁ start₂ key t₁ t₂ := by
  induction ops with
  | nil =>
    intro s₁ s₂ t₁ h _ hrun
    cases hrun
    exact ⟨s₂, rfl, h⟩
  | cons op ops ih =>
    intro s₁ s₂ t₁ h hmeet hrun
    obtain ⟨s₁', hstep, hrest⟩ := runOps_cons hrun
    obtain ⟨s₂', hstep₂, h'⟩ := step_alike hk hstart h hmeet.1 hstep
    obtain ⟨t₂, hrun₂, ht⟩ := ih h' (hmeet.2 s₁' hstep) hrest
    refine ⟨t₂, ?_, ht⟩
    show (step k₂ op s₂).bind _ = some t₂
    rw [hstep₂]
    exact hrun₂

end

end Wallet

/-! ### What is written after the encryption -/

/-- Two wallets after `EncryptWallet`, with their datadirs, that differ only in the secret keys of
native keys. -/
structure EncryptedAlike (native : Uint256 → Prop) (k₁ k₂ : WalletPrims) (key : Bytes)
    (s₁ s₂ : WalletRun) : Prop where
  start : StartAlike native k₁ k₂ s₁.disk s₂.disk
  masterKey₁ : s₁.disk.masterKey = some key
  masterKey₂ : s₂.disk.masterKey = some key
  wallet : Option.Rel (WalletAlike key) s₁.wallet s₂.wallet

/-- What two wallets have written since a start is the same: every file has the same contents for
both, or is for both as it was. -/
structure WritesHide (start₁ start₂ d₁ d₂ : WalletDir) : Prop where
  record : d₁.xmssState = d₂.xmssState ∨
    d₁.xmssState = start₁.xmssState ∧ d₂.xmssState = start₂.xmssState
  instanceId : d₁.ledger.instanceId = d₂.ledger.instanceId
  dat : ∀ root, d₁.ledger.dat root = d₂.ledger.dat root ∨
    d₁.ledger.dat root = start₁.ledger.dat root ∧ d₂.ledger.dat root = start₂.ledger.dat root
  tmp : ∀ root, d₁.ledger.tmp root = d₂.ledger.tmp root ∨
    d₁.ledger.tmp root = start₁.ledger.tmp root ∧ d₂.ledger.tmp root = start₂.ledger.tmp root

theorem DirAlike.writesHide {native : Uint256 → Prop} {start₁ start₂ d₁ d₂ : WalletDir} {key : Bytes}
    (h : DirAlike native start₁ start₂ key d₁ d₂) : WritesHide start₁ start₂ d₁ d₂ := by
  refine ⟨h.record, h.ledger.instanceId, fun root => ?_, fun root => ?_⟩
  · by_cases hroot : native root
    · obtain ⟨h₁, h₂, -, -⟩ := h.ledger.kept root hroot
      exact .inr ⟨h₁, h₂⟩
    · exact .inl (h.ledger.same root hroot).1
  · by_cases hroot : native root
    · obtain ⟨-, -, h₁, h₂⟩ := h.ledger.kept root hroot
      exact .inr ⟨h₁, h₂⟩
    · exact .inl (h.ledger.same root hroot).2

/-- An encryption that gives away nothing. -/
def blindCrypter : Crypter where
  encryptSecret _ _ _ := some []
  decryptSecret _ _ _ := none

/-- Key generation with the public keys of `sampleKeys` and other secrets. -/
def zeroSecretKeys : XmssKeys where
  keypair seed := (sampleKeys.keypair seed).map fun p =>
    (p.1, sampleOid ++ (beBytes 4 0 ++ (List.replicate 64 0 ++ p.1.drop 4)))
  sign := sampleKeys.sign

@[inherit_doc zeroSecretKeys]
def blindWallet : WalletPrims := ⟨sampleCrypto, sampleKeys, blindCrypter⟩

@[inherit_doc zeroSecretKeys]
def zeroSecretWallet : WalletPrims := ⟨sampleCrypto, zeroSecretKeys, blindCrypter⟩

theorem alikeSecrets_blindWallet : AlikeSecrets blindWallet zeroSecretWallet where
  crypto := rfl
  sign := rfl
  keypair seed := by
    show _ = ((sampleKeys.keypair seed).map _).map Prod.fst
    rw [Option.map_map]
    rfl
  encrypt _ _ _ _ _ := rfl
  decrypt _ _ _ := .none

/-- A state of an encrypted wallet, for both kinds of keys. -/
theorem encryptedAlike_refl (hk : AlikeSecrets k₁ k₂) (native : Uint256 → Prop) {key : Bytes}
    {d : WalletDir} {w : CWallet} (hdisk : d.masterKey = some key) (hw : w.mapMasterKeys = some key)
    :
    EncryptedAlike native k₁ k₂ key ⟨d, some w⟩ ⟨d, some w⟩ := by
  refine ⟨⟨⟨rfl, rfl, fun _ _ => ⟨rfl, rfl, rfl, rfl⟩, fun _ _ => ⟨rfl, rfl⟩, fun _ => rfl⟩, ?_⟩,
    hdisk, hdisk, .some ⟨.refl _, hw, hw, rfl⟩⟩
  intro vMasterKey
  cases d.xmssState with
  | none => exact .none
  | some data => exact hk.openRecord vMasterKey data

/-- A wallet is created and encrypted. -/
theorem encrypted_run : ∃ d w,
    runOps (step blindWallet) [createOp sampleSeed, .encryptWallet sampleEncrypt 100]
      ⟨WalletDir.empty, none⟩ = some ⟨d, some w⟩ ∧
    d.masterKey = some [1, 2, 3] ∧ w.mapMasterKeys = some [1, 2, 3] ∧
    w.signer.xmssKeys.isEmpty = false ∧
    ∃ t₁ t₂, runOps (step blindWallet)
        [.getnewxmssaddress (sampleKeyEnv (List.replicate 96 9)) 100] ⟨d, some w⟩ = some t₁ ∧
      runOps (step zeroSecretWallet)
        [.getnewxmssaddress (sampleKeyEnv (List.replicate 96 9)) 100] ⟨d, some w⟩ = some t₂ ∧
      t₁.disk.ledger.dat ⟨List.replicate 32 9, rfl⟩ ≠ t₂.disk.ledger.dat ⟨List.replicate 32 9, rfl⟩ ∧
      t₁.disk.ledger.dat ⟨List.replicate 32 9, rfl⟩ ≠ d.ledger.dat ⟨List.replicate 32 9, rfl⟩ := by
  have hrun : (runOps (step blindWallet)
      [createOp sampleSeed, .encryptWallet sampleEncrypt 100] ⟨WalletDir.empty, none⟩).any
      (fun s => s.wallet.any fun w => decide (s.disk.masterKey = some [1, 2, 3] ∧
        w.mapMasterKeys = some [1, 2, 3] ∧ w.signer.xmssKeys.isEmpty = false) &&
        (runOps (step blindWallet)
          [.getnewxmssaddress (sampleKeyEnv (List.replicate 96 9)) 100] ⟨s.disk, some w⟩).any fun t₁ =>
        (runOps (step zeroSecretWallet)
          [.getnewxmssaddress (sampleKeyEnv (List.replicate 96 9)) 100] ⟨s.disk, some w⟩).any fun t₂ =>
        decide (t₁.disk.ledger.dat ⟨List.replicate 32 9, rfl⟩ ≠
            t₂.disk.ledger.dat ⟨List.replicate 32 9, rfl⟩ ∧
          t₁.disk.ledger.dat ⟨List.replicate 32 9, rfl⟩ ≠
            s.disk.ledger.dat ⟨List.replicate 32 9, rfl⟩)) = true := by
    decide +kernel
  obtain ⟨⟨d, wallet⟩, hs, hwallet⟩ := (Option.any_eq_true _ _).mp hrun
  obtain ⟨w, hw, hrest⟩ := (Option.any_eq_true _ _).mp hwallet
  cases hw
  rw [Bool.and_eq_true] at hrest
  obtain ⟨hmaster, hmap, hkeys⟩ := of_decide_eq_true hrest.1
  obtain ⟨t₁, ht₁, hrest₁⟩ := (Option.any_eq_true _ _).mp hrest.2
  obtain ⟨t₂, ht₂, hfiles⟩ := (Option.any_eq_true _ _).mp hrest₁
  exact ⟨d, w, hs, hmaster, hmap, hkeys, t₁, t₂, ht₁, ht₂, of_decide_eq_true hfiles⟩

end AssentianPQE
