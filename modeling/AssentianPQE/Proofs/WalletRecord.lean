import AssentianPQE.Proofs.WalletCalls

/-!
# `AssentianPQE.Proofs.WalletRecord`: the keys in the record

`WalletDir.contents` is what a wallet finds in the record once it has the master key of the
database. `contents_persist` says what it is after `PersistXMSSState`, and `afterLoad_signer` what
the signer has after `LoadXMSSStateIfPossible`.

`NewKeys` says that the keys that will be drawn from some random bytes were never seen: not in
memory, not in the record and not in the log.
-/

set_option autoImplicit false

namespace AssentianPQE

open Lib List Option CXMSSSigner

variable {w : CWallet} {d : WalletDir} {k : WalletPrims} {iv : Uint256} {data pubkey sk : Bytes}
  {entry : XMSSKeyEntry} {s : CXMSSSigner}

/-- The assumption on encryption: what was encrypted is decrypted with the same key and IV. -/
def CrypterSpec (e : Crypter) : Prop :=
  ∀ key text iv ciphertext, e.encryptSecret key text iv = some ciphertext →
    e.decryptSecret key ciphertext iv = some text

/-- The keys in the record. -/
def WalletDir.contents (k : WalletPrims) (d : WalletDir) : Std.ExtTreeMap Bytes XMSSKeyEntry :=
  match d.xmssState.bind (openRecord k.crypter d.masterKey) with
  | none => ∅
  | some plain => (CXMSSSigner.empty.loaded k.crypto plain).2.xmssKeys

/-- The wallet has the master key of its database. -/
structure Keyed (w : CWallet) (d : WalletDir) : Prop where
  map : w.mapMasterKeys = d.masterKey
  opened : w.vMasterKey = none ∨ w.vMasterKey = d.masterKey

theorem Keyed.lock (h : Keyed w d) : Keyed w.lock d := by
  unfold CWallet.lock
  split
  · exact ⟨h.map, .inl rfl⟩
  · exact h

/-- A saved record is not taken for an encrypted one. -/
theorem isEncryptedRecord_saveState (s : CXMSSSigner) :
    isEncryptedRecord s.saveState = false := by
  have htake : s.saveState.take 4 = magicV3 := take_left' rfl
  rw [isEncryptedRecord, htake]
  decide

/-- The text of the record that a wallet writes. -/
theorem openRecord_record (hspec : CrypterSpec k.crypter) (h : Keyed w d)
    (hdata : w.record k.crypter iv = some data) :
    openRecord k.crypter d.masterKey data = some w.signer.saveState := by
  unfold CWallet.record at hdata
  split at hdata
  · obtain ⟨key, hkey, hdata⟩ := bind_eq_some_iff.mp hdata
    obtain ⟨ciphertext, hencrypt, rfl⟩ := map_eq_some_iff.mp hdata
    -- The wallet is open, with the key of the database.
    have hmaster : d.masterKey = some key := by
      rcases h.opened with hnone | hsome
      · rw [hnone] at hkey
        cases hkey
      · rw [← hsome, hkey]
    have hlen : magicEncrypted.length = 4 := rfl
    have hmagic : isEncryptedRecord (magicEncrypted ++ (iv.data ++ ciphertext)) = true :=
      decide_eq_true (take_left' hlen)
    unfold openRecord
    rw [if_pos hmagic, hmaster, drop_left' hlen]
    show (takeBlob 32 (iv.data ++ ciphertext)).bind _ = _
    rw [takeBlob_append]
    exact hspec key _ iv ciphertext hencrypt
  · rw [← Option.some.inj hdata, openRecord, isEncryptedRecord_saveState]
    rfl

/-- After a write the record has what can be loaded of the keys in memory. -/
theorem contents_persist (hspec : CrypterSpec k.crypter) (h : Keyed w d)
    (hdata : w.record k.crypter iv = some data) (log : List KeyEvent) :
    WalletDir.contents k { d with xmssState := some data, log := log } =
      (empty.loaded k.crypto w.signer.saveState).2.xmssKeys := by
  unfold WalletDir.contents
  show (match (some data).bind (openRecord k.crypter d.masterKey) with
    | none => ∅
    | some plain => (empty.loaded k.crypto plain).2.xmssKeys) = _
  rw [bind_some, openRecord_record hspec h hdata]

/-! ### Loading -/

variable (c : Crypto)

/-- A load replaces the keys of a signer, or finds no record. -/
theorem CXMSSSigner.loaded_signer (plain : Bytes) (s : CXMSSSigner) :
    ((s.loaded c plain).2 = s ∧ (empty.loaded c plain).2 = empty) ∨
      (s.loaded c plain).2 = (empty.loaded c plain).2 := by
  unfold loaded
  split
  · exact .inl ⟨rfl, rfl⟩
  · exact .inr rfl

/-- The text that a wallet reads is that of the database. -/
theorem openRecord_of_keyed (h : Keyed w d) {plain : Bytes}
    (hopen : openRecord k.crypter w.vMasterKey data = some plain) :
    openRecord k.crypter d.masterKey data = some plain := by
  rcases h.opened with hnone | hsome
  · rw [hnone] at hopen
    unfold openRecord at hopen ⊢
    split at hopen
    · cases hopen
    · rename_i hplain
      rwa [if_neg hplain]
  · rwa [← hsome]

/-- After a load the signer is as before, or has the keys of the record. -/
theorem afterLoad_signer (h : Keyed w d) (env : LoadEnv) :
    (w.afterLoad k env d).signer = w.signer ∨
      (w.afterLoad k env d).signer.xmssKeys = d.contents k := by
  unfold CWallet.afterLoad
  cases hplain : (if env.readOk then d.xmssState else none).bind
      (openRecord k.crypter w.vMasterKey) with
  | none => exact .inl rfl
  | some plain =>
    obtain ⟨data, hdata, hopen⟩ := bind_eq_some_iff.mp hplain
    have hstate : d.xmssState = some data := by
      split at hdata
      · exact hdata
      · cases hdata
    have hcontents : d.contents k = (empty.loaded k.crypto plain).2.xmssKeys := by
      rw [WalletDir.contents, hstate, bind_some, openRecord_of_keyed h hopen]
    rw [hcontents]
    rcases loaded_signer k.crypto plain w.signer with ⟨hs, -⟩ | hs
    · exact .inl hs
    · exact .inr (congrArg xmssKeys hs)

/-- A load that can read the record leaves the signer with the keys of the record, if there are
any. -/
theorem afterLoad_of_readable {env : LoadEnv} (hread : env.readOk = true)
    (hopen : w.vMasterKey = d.masterKey ∨ ∀ data ∈ d.xmssState, isEncryptedRecord data = false) :
    d.contents k = ∅ ∨ (w.afterLoad k env d).signer.xmssKeys = d.contents k := by
  unfold CWallet.afterLoad WalletDir.contents
  rw [if_pos hread]
  cases hstate : d.xmssState with
  | none => exact .inl rfl
  | some data =>
    -- Both read the same text.
    have hsame : openRecord k.crypter w.vMasterKey data = openRecord k.crypter d.masterKey data := by
      rcases hopen with hkey | hplain
      · rw [hkey]
      · rw [openRecord, openRecord, hplain data hstate]
        rfl
    rw [bind_some, bind_some, hsame]
    cases openRecord k.crypter d.masterKey data with
    | none => exact .inl rfl
    | some plain =>
      rcases loaded_signer k.crypto plain w.signer with ⟨-, hempty⟩ | hs
      · exact .inl (congrArg xmssKeys hempty)
      · exact .inr (congrArg xmssKeys hs)

theorem afterLoad_keys (k : WalletPrims) (env : LoadEnv) (w : CWallet) (d : WalletDir) :
    (w.afterLoad k env d).mapMasterKeys = w.mapMasterKeys ∧
      (w.afterLoad k env d).vMasterKey = w.vMasterKey := by
  unfold CWallet.afterLoad
  split <;> exact ⟨rfl, rfl⟩

theorem Keyed.afterLoad (h : Keyed w d) (env : LoadEnv) : Keyed (w.afterLoad k env d) d := by
  obtain ⟨hmap, hopened⟩ := afterLoad_keys k env w d
  exact ⟨hmap.trans h.map, by rw [hopened]; exact h.opened⟩

/-! ### A database that is not encrypted -/

/-- The record is not encrypted as long as there is no master key. -/
def PlainRecord (d : WalletDir) : Prop :=
  d.masterKey = none → ∀ data ∈ d.xmssState, isEncryptedRecord data = false

theorem PlainRecord.persist (h : Keyed w d) (hdata : w.record k.crypter iv = some data)
    (log : List KeyEvent) : PlainRecord { d with xmssState := some data, log := log } := by
  intro hmaster data' hdata'
  have hmaster : d.masterKey = none := hmaster
  cases hdata'
  have hplain : w.isCrypted = false := by
    rw [CWallet.isCrypted, h.map, hmaster]
    rfl
  rw [CWallet.record, if_neg (Bool.eq_false_iff.mp hplain)] at hdata
  rw [← Option.some.inj hdata]
  exact isEncryptedRecord_saveState w.signer

/-- A new master key does not change what is in a record that is not encrypted. -/
theorem contents_newKey (k : WalletPrims) (h : PlainRecord d) (hmaster : d.masterKey = none)
    (key : Bytes) :
    WalletDir.contents k { d with masterKey := some key } = d.contents k := by
  unfold WalletDir.contents
  cases hstate : d.xmssState with
  | none => rfl
  | some data =>
    have hplain : ∀ master, openRecord k.crypter master data = some data := by
      intro master
      rw [openRecord, h hmaster data hstate]
      rfl
    rw [bind_some, bind_some, hplain, hplain]

/-- The wallet gets the master key at the same time. -/
theorem Keyed.encrypted (w : CWallet) (d : WalletDir) (key : Bytes) :
    Keyed { w with mapMasterKeys := some key, vMasterKey := some key }
      { d with masterKey := some key } :=
  ⟨rfl, .inr rfl⟩

theorem Keyed.unlocked (h : Keyed w d) {key : Bytes} (hkey : w.mapMasterKeys = some key) :
    Keyed { w with vMasterKey := some key } d :=
  ⟨h.map, .inr (hkey.symm.trans h.map)⟩

theorem Keyed.masterKey_of_plain (h : Keyed w d) (hplain : w.isCrypted = false) :
    d.masterKey = none := by
  rw [← h.map]
  exact isNone_iff_eq_none.mp (by rw [← not_isSome]; exact congrArg not hplain)

/-! ### Keys that a record can hold -/

/-- An entry that survives being written and loaded. -/
structure SoundEntry (pubkey : Bytes) (entry : XMSSKeyEntry) : Prop where
  pubkey : pubkey.length < 2 ^ 32
  sk : entry.sk.length < 2 ^ 32
  loads : (loadKey [] entry.sk).isSome = true

/-- All entries of a signer are such. -/
def SoundKeys (keys : Std.ExtTreeMap Bytes XMSSKeyEntry) : Prop :=
  ∀ pubkey entry, keys[pubkey]? = some entry → SoundEntry pubkey entry

variable {keys : Std.ExtTreeMap Bytes XMSSKeyEntry} {pubkey' : Bytes} {entry' : XMSSKeyEntry}

theorem getElem?_insert_cases (h : (keys.insert pubkey entry)[pubkey']? = some entry') :
    (pubkey' = pubkey ∧ entry' = entry) ∨ (pubkey' ≠ pubkey ∧ keys[pubkey']? = some entry') := by
  rw [Std.ExtTreeMap.getElem?_insert] at h
  split at h
  · rename_i heq
    exact .inl ⟨(Std.LawfulEqCmp.eq_of_compare heq).symm, (Option.some.inj h).symm⟩
  · rename_i hne
    exact .inr ⟨fun heq => hne (heq ▸ Std.ReflCmp.compare_self), h⟩

theorem SoundKeys.insert (h : SoundKeys keys) (hentry : SoundEntry pubkey entry) :
    SoundKeys (keys.insert pubkey entry) := by
  intro pubkey' entry' h'
  rcases getElem?_insert_cases h' with ⟨rfl, rfl⟩ | ⟨-, h'⟩
  · exact hentry
  · exact h pubkey' entry' h'

theorem soundKeys_empty : SoundKeys ∅ := by
  intro pubkey entry h
  rw [Std.ExtTreeMap.getElem?_empty] at h
  cases h

theorem SoundKeys.sizesFit (h : SoundKeys s.xmssKeys) :
    CXMSSSigner.SizesFit s.xmssKeys.toList := by
  intro p hp
  have hentry := h p.1 p.2 (Std.ExtTreeMap.mem_toList_iff_getElem?_eq_some.mp hp)
  exact ⟨hentry.pubkey, hentry.sk⟩

/-- After a write the record has the keys in memory, if they can be loaded and their number fits
into its field. -/
theorem contents_persist_eq (hspec : CrypterSpec k.crypter) (h : Keyed w d)
    (hsound : SoundKeys w.signer.xmssKeys) (hcount : w.signer.xmssKeys.size < 2 ^ 32)
    (hdata : w.record k.crypter iv = some data) (log : List KeyEvent) :
    WalletDir.contents k { d with xmssState := some data, log := log } = w.signer.xmssKeys := by
  rw [contents_persist hspec h hdata]
  refine (loaded_saveState k.crypto hsound.sizesFit hcount ?_ _).2
  intro p hp
  exact (hsound p.1 p.2 (Std.ExtTreeMap.mem_toList_iff_getElem?_eq_some.mp hp)).loads

/-- A size field bounds what is read. -/
theorem CXMSSSigner.length_takeSized {ds bs rest : Bytes} (h : takeSized ds = some (bs, rest)) :
    bs.length < 2 ^ 32 := by
  obtain ⟨⟨size, ds'⟩, hsize, htake⟩ := bind_eq_some_iff.mp h
  have hlen : size.length = 4 := (takeN_eq_some hsize).1
  have hbs : bs.length = readBE size := (takeN_eq_some htake).1
  have hlt := readBE_lt size
  rw [hlen] at hlt
  rw [hbs]
  exact hlt

theorem CXMSSSigner.length_takeEntry {version : Nat} {ds rest : Bytes}
    (h : takeEntry version ds = some ((pubkey, entry), rest)) :
    pubkey.length < 2 ^ 32 ∧ entry.sk.length < 2 ^ 32 := by
  unfold takeEntry at h
  obtain ⟨⟨pk, ds₁⟩, hpk, h⟩ := bind_eq_some_iff.mp h
  obtain ⟨⟨leafIndex, ds₂⟩, -, h⟩ := bind_eq_some_iff.mp h
  obtain ⟨⟨retired, ds₃⟩, -, h⟩ := bind_eq_some_iff.mp h
  obtain ⟨⟨imported, ds₄⟩, -, h⟩ := bind_eq_some_iff.mp h
  obtain ⟨⟨sk, ds₅⟩, hsk, h⟩ := bind_eq_some_iff.mp h
  cases h
  exact ⟨length_takeSized hpk, length_takeSized hsk⟩

/-- Whatever a record is, what is loaded from it can be written again. -/
theorem CXMSSSigner.soundKeys_loadedEntries (version count : Nat) :
    ∀ (ds : Bytes) (s : CXMSSSigner), SoundKeys s.xmssKeys →
      SoundKeys (loadedEntries c version count ds s).2.xmssKeys := by
  induction count with
  | zero =>
    intro ds s h
    exact h
  | succ count ih =>
    intro ds s h
    unfold loadedEntries
    cases hentry : takeEntry version ds with
    | none => exact h
    | some p =>
      obtain ⟨⟨pubkey, entry⟩, ds'⟩ := p
      dsimp only
      split
      · exact h
      rename_i hload
      obtain ⟨hpk, hsk⟩ := length_takeEntry hentry
      have hloads : (loadKey [] entry.sk).isSome = true := by
        rw [isSome_iff_ne_none]
        intro hnone
        rw [hnone] at hload
        exact hload rfl
      exact ih ds' _ (h.insert ⟨hpk, hsk, hloads⟩)

@[inherit_doc CXMSSSigner.soundKeys_loadedEntries]
theorem CXMSSSigner.soundKeys_loaded (plain : Bytes) :
    SoundKeys (empty.loaded c plain).2.xmssKeys := by
  unfold loaded
  split
  · exact soundKeys_empty
  · split
    · exact soundKeys_empty
    · exact soundKeys_loadedEntries _ _ _ _ _ soundKeys_empty

theorem soundKeys_contents (k : WalletPrims) (d : WalletDir) : SoundKeys (d.contents k) := by
  unfold WalletDir.contents
  split
  · exact soundKeys_empty
  · exact soundKeys_loaded _ _

/-! ### New keys -/

/-- The public keys that are drawn from these random bytes. -/
def drawnKeys (k : WalletPrims) (seeds : List Bytes) : List Bytes :=
  seeds.filterMap fun seed => (generatedKey k.keys seed).map Prod.fst

/-- The key is in memory, in the record or in the log. -/
def Known (k : WalletPrims) (w : CWallet) (d : WalletDir) (pubkey : Bytes) : Prop :=
  pubkey ∈ w.signer.xmssKeys ∨ pubkey ∈ d.contents k ∨ .created pubkey ∈ d.log ∨
    .signed pubkey ∈ d.log

/-- The keys that will be drawn differ from each other and from every key seen so far. -/
def NewKeys (k : WalletPrims) (seeds : List Bytes) (w : CWallet) (d : WalletDir) : Prop :=
  (drawnKeys k seeds).Nodup ∧ ∀ pubkey ∈ drawnKeys k seeds, ¬ Known k w d pubkey

instance (k : WalletPrims) (seeds : List Bytes) (w : CWallet) (d : WalletDir) :
    Decidable (NewKeys k seeds w d) :=
  inferInstanceAs (Decidable (_ ∧ ∀ pubkey ∈ drawnKeys k seeds, ¬ (_ ∨ _ ∨ _ ∨ _)))

namespace NewKeys

variable {k : WalletPrims} {seed : Bytes} {seeds : List Bytes} {w w' : CWallet} {d d' : WalletDir}

/-- A step after which no other key is known. -/
theorem mono (h : NewKeys k seeds w d) (hknown : ∀ pubkey, Known k w' d' pubkey → Known k w d pubkey) :
    NewKeys k seeds w' d' :=
  ⟨h.1, fun pubkey hmem hk => h.2 pubkey hmem (hknown pubkey hk)⟩

theorem drawnKeys_cons_some (hkey : generatedKey k.keys seed = some (pubkey, sk)) :
    drawnKeys k (seed :: seeds) = pubkey :: drawnKeys k seeds := by
  rw [drawnKeys, filterMap_cons, hkey]
  rfl

theorem drawnKeys_cons_none (hkey : generatedKey k.keys seed = none) :
    drawnKeys k (seed :: seeds) = drawnKeys k seeds := by
  rw [drawnKeys, filterMap_cons, hkey]
  rfl

/-- No key is drawn from the first bytes. -/
theorem skip (h : NewKeys k (seed :: seeds) w d) : NewKeys k seeds w d := by
  cases hkey : generatedKey k.keys seed with
  | none =>
    rw [NewKeys, drawnKeys_cons_none hkey] at h
    exact h
  | some p =>
    rw [NewKeys, drawnKeys_cons_some hkey] at h
    exact ⟨(nodup_cons.mp h.1).2, fun pubkey hmem => h.2 pubkey (mem_cons_of_mem _ hmem)⟩

/-- The key that is drawn from the first bytes is a new one. -/
theorem head (h : NewKeys k (seed :: seeds) w d)
    (hkey : generatedKey k.keys seed = some (pubkey, sk)) : ¬ Known k w d pubkey := by
  rw [NewKeys, drawnKeys_cons_some hkey] at h
  exact h.2 pubkey mem_cons_self

/-- After a key is drawn the rest are still new. -/
theorem generate (h : NewKeys k (seed :: seeds) w d)
    (hkey : generatedKey k.keys seed = some (pubkey, sk))
    (hknown : ∀ pubkey', Known k w' d' pubkey' → Known k w d pubkey' ∨ pubkey' = pubkey) :
    NewKeys k seeds w' d' := by
  rw [NewKeys, drawnKeys_cons_some hkey] at h
  obtain ⟨hnot, hnodup⟩ := nodup_cons.mp h.1
  refine ⟨hnodup, fun pubkey' hmem hk => ?_⟩
  rcases hknown pubkey' hk with hk | rfl
  · exact h.2 pubkey' (mem_cons_of_mem _ hmem) hk
  · exact hnot hmem

end NewKeys

theorem newKeys_nil (k : WalletPrims) (w : CWallet) (d : WalletDir) : NewKeys k [] w d :=
  ⟨nodup_nil, by simp [drawnKeys]⟩

/-! ### What every call keeps -/

/-- What is assumed of `xmss_keypair`: `CXMSSKey` can load the secret key. -/
structure KeypairLoads (x : XmssKeys) : Prop where
  sk_length : ∀ seed pk sk, x.keypair seed = some (pk, sk) → sk.length < 2 ^ 32
  loads : ∀ seed pk sk, x.keypair seed = some (pk, sk) → (loadKey [] sk).isSome = true

theorem KeypairLoads.soundEntry {x : XmssKeys} (hx : KeypairLoads x) {seed : Bytes}
    (h : generatedKey x seed = some (pubkey, sk)) : SoundEntry pubkey { sk := sk } := by
  have hlen : pubkey.length = 64 := length_generatedKey h
  obtain ⟨p, hpair, hp⟩ := bind_eq_some_iff.mp h
  split at hp
  next =>
    cases hp
    exact ⟨by omega, hx.sk_length _ _ _ hpair, hx.loads _ _ _ hpair⟩
  next => cases hp

/-- Whether a secret key can be loaded does not depend on the memory behind it. -/
theorem isSome_loadKey (behind sk : Bytes) :
    (loadKey behind sk).isSome = (loadKey [] sk).isSome := by
  unfold loadKey
  split
  · rfl
  · split
    · rfl
    · split <;> rfl

/-- A key that is added by hand. -/
theorem addXMSSKey_eq_some {c : Crypto} {behind seckey : Bytes} {s' : CXMSSSigner}
    (h : s.addXMSSKey c behind pubkey seckey = some s') :
    pubkey.length = 64 ∧ (loadKey [] seckey).isSome = true ∧
      s' = s.insert c pubkey { sk := seckey, imported := true } := by
  unfold addXMSSKey at h
  split at h
  · cases h
  rename_i hlen
  split at h
  · cases h
  cases hload : loadKey behind seckey with
  | none =>
    rw [hload] at h
    cases h
  | some pk =>
    rw [hload] at h
    dsimp only at h
    split at h
    · cases h
    refine ⟨not_not.mp hlen, ?_, (Option.some.inj h).symm⟩
    rw [← isSome_loadKey behind, hload]
    rfl

/-- The master key is that of the database, the keys in memory can be written and loaded, and the
keys that will be drawn are new. -/
structure WalletBase (k : WalletPrims) (seeds : List Bytes) (w : CWallet) (d : WalletDir) : Prop where
  keyed : Keyed w d
  sound : SoundKeys w.signer.xmssKeys
  new : NewKeys k seeds w d

namespace WalletBase

variable {k : WalletPrims} {seed : Bytes} {seeds : List Bytes} {w : CWallet} {d : WalletDir}

/-- What is in the record after a write was in memory. -/
theorem mem_of_contents_persist (hspec : CrypterSpec k.crypter) (h : WalletBase k seeds w d)
    (hdata : w.record k.crypter iv = some data) {log : List KeyEvent}
    (hentry : (WalletDir.contents k { d with xmssState := some data, log := log })[pubkey]? =
      some entry) : w.signer.xmssKeys[pubkey]? = some entry := by
  rw [contents_persist hspec h.keyed hdata] at hentry
  exact getElem?_loaded_saveState k.crypto h.sound.sizesFit _ hentry

theorem generate (hx : KeypairLoads k.keys) (h : WalletBase k (seed :: seeds) w d)
    (hkey : generatedKey k.keys seed = some (pubkey, sk)) :
    WalletBase k seeds { w with signer := w.signer.insert k.crypto pubkey { sk := sk } }
      { d with log := .created pubkey :: d.log } where
  keyed := ⟨h.keyed.map, h.keyed.opened⟩
  sound := h.sound.insert (hx.soundEntry hkey)
  new := by
    refine h.new.generate hkey ?_
    rintro pubkey' (hmem | hmem | hmem | hmem)
    · rcases Std.ExtTreeMap.mem_insert.mp hmem with heq | hmem
      · exact .inr (Std.LawfulEqCmp.eq_of_compare heq).symm
      · exact .inl (.inl hmem)
    · exact .inl (.inr (.inl hmem))
    · rcases mem_cons.mp hmem with heq | hmem
      · exact .inr (KeyEvent.created.inj heq)
      · exact .inl (.inr (.inr (.inl hmem)))
    · rcases mem_cons.mp hmem with heq | hmem
      · cases heq
      · exact .inl (.inr (.inr (.inr hmem)))

/-- A key that signs stays in the signer with its secret key. -/
theorem getElem?_retire {leaf : UInt32} (hentry : s.xmssKeys[pubkey]? = some entry)
    (h : (s.retire pubkey entry leaf).xmssKeys[pubkey']? = some entry') :
    ∃ old, s.xmssKeys[pubkey']? = some old ∧ entry'.sk = old.sk ∧
      entry'.imported = old.imported ∧ (old.retired = true → entry'.retired = true) ∧
      (pubkey' = pubkey → entry'.imported = false → entry'.retired = true) := by
  unfold retire at h
  split at h
  · rename_i himported
    refine ⟨entry', h, rfl, rfl, id, ?_⟩
    rintro rfl hnative
    rw [hentry] at h
    cases h
    rw [himported] at hnative
    cases hnative
  · rcases getElem?_insert_cases h with ⟨rfl, rfl⟩ | ⟨hne, h⟩
    · exact ⟨entry, hentry, rfl, rfl, fun _ => rfl, fun _ _ => rfl⟩
    · exact ⟨entry', h, rfl, rfl, id, fun heq => absurd heq hne⟩

theorem soundKeys_retire (h : SoundKeys s.xmssKeys) (leaf : UInt32)
    (hentry : s.xmssKeys[pubkey]? = some entry) :
    SoundKeys (s.retire pubkey entry leaf).xmssKeys := by
  intro pubkey' entry' h'
  obtain ⟨old, hold, hsk, -⟩ := getElem?_retire hentry h'
  have hsound := h pubkey' old hold
  exact ⟨hsound.pubkey, hsk ▸ hsound.sk, hsk ▸ hsound.loads⟩

theorem sign (h : WalletBase k seeds w d) (leaf : UInt32)
    (hentry : w.signer.xmssKeys[pubkey]? = some entry) :
    WalletBase k seeds { w with signer := w.signer.retire pubkey entry leaf }
      { d with log := .signed pubkey :: d.log } where
  keyed := ⟨h.keyed.map, h.keyed.opened⟩
  sound := soundKeys_retire h.sound leaf hentry
  new := by
    have hmemory : ∀ pubkey', pubkey' ∈ (w.signer.retire pubkey entry leaf).xmssKeys →
        pubkey' ∈ w.signer.xmssKeys := by
      intro pubkey' hmem
      obtain ⟨entry', h'⟩ := isSome_iff_exists.mp
        (Std.ExtTreeMap.mem_iff_isSome_getElem?.mp hmem)
      obtain ⟨old, hold, -⟩ := getElem?_retire hentry h'
      rw [Std.ExtTreeMap.mem_iff_isSome_getElem?, hold]
      rfl
    refine h.new.mono ?_
    rintro pubkey' (hmem | hmem | hmem | hmem)
    · exact .inl (hmemory pubkey' hmem)
    · exact .inr (.inl hmem)
    · rcases mem_cons.mp hmem with heq | hmem
      · cases heq
      · exact .inr (.inr (.inl hmem))
    · rcases mem_cons.mp hmem with heq | hmem
      · left
        rw [KeyEvent.signed.inj heq, Std.ExtTreeMap.mem_iff_isSome_getElem?, hentry]
        rfl
      · exact .inr (.inr (.inr hmem))

theorem persist (hspec : CrypterSpec k.crypter) (h : WalletBase k seeds w d)
    (hdata : w.record k.crypter iv = some data) :
    WalletBase k seeds w { d with xmssState := some data, log := .persisted :: d.log } where
  keyed := ⟨h.keyed.map, h.keyed.opened⟩
  sound := h.sound
  new := by
    refine h.new.mono ?_
    rintro pubkey' (hmem | hmem | hmem | hmem)
    · exact .inl hmem
    · obtain ⟨entry, hentry⟩ := isSome_iff_exists.mp
        (Std.ExtTreeMap.mem_iff_isSome_getElem?.mp hmem)
      left
      rw [Std.ExtTreeMap.mem_iff_isSome_getElem?, h.mem_of_contents_persist hspec hdata hentry]
      rfl
    · rcases mem_cons.mp hmem with heq | hmem
      · cases heq
      · exact .inr (.inr (.inl hmem))
    · rcases mem_cons.mp hmem with heq | hmem
      · cases heq
      · exact .inr (.inr (.inr hmem))

/-- After a load. -/
theorem load (h : WalletBase k seeds w d) (env : LoadEnv) :
    WalletBase k seeds (w.afterLoad k env d) d where
  keyed := h.keyed.afterLoad env
  sound := by
    rcases afterLoad_signer h.keyed env with hs | hs
    · rw [hs]
      exact h.sound
    · rw [hs]
      exact soundKeys_contents k d
  new := by
    refine h.new.mono ?_
    rintro pubkey' (hmem | hrest)
    · rcases afterLoad_signer h.keyed env with hs | hs
      · rw [hs] at hmem
        exact .inl hmem
      · rw [hs] at hmem
        exact .inr (.inl hmem)
    · exact .inr hrest

/-- The keys of the wallet are as before, with another state of the lock. -/
theorem reopen (h : WalletBase k seeds w d) {w' : CWallet} (hs : w'.signer = w.signer)
    (hkeyed : Keyed w' d) : WalletBase k seeds w' d where
  keyed := hkeyed
  sound := by
    rw [hs]
    exact h.sound
  new := by
    refine h.new.mono fun pubkey hknown => ?_
    rw [Known, hs] at hknown
    exact hknown

theorem lock (h : WalletBase k seeds w d) : WalletBase k seeds w.lock d := by
  refine h.reopen ?_ h.keyed.lock
  unfold CWallet.lock
  split <;> rfl

/-- The wallet is encrypted, and its keys are as before. -/
theorem encrypt (h : WalletBase k seeds w d) (hplain : PlainRecord d) (hcrypted : w.isCrypted = false)
    (key : Bytes) :
    WalletBase k seeds { w with mapMasterKeys := some key, vMasterKey := some key }
      { d with masterKey := some key } where
  keyed := Keyed.encrypted w d key
  sound := h.sound
  new := by
    refine h.new.mono fun pubkey hknown => ?_
    rw [Known, contents_newKey k hplain (h.keyed.masterKey_of_plain hcrypted)] at hknown
    exact hknown

/-- A key that is added by hand, when no key will be drawn. -/
theorem add (h : WalletBase k seeds w d) {behind seckey : Bytes} (hsize : seckey.length < 2 ^ 32)
    (hadd : w.signer.addXMSSKey k.crypto behind pubkey seckey = some s) :
    WalletBase k [] { w with signer := s } d := by
  obtain ⟨hlen, hloads, rfl⟩ := addXMSSKey_eq_some hadd
  exact ⟨⟨h.keyed.map, h.keyed.opened⟩, h.sound.insert ⟨by omega, hsize, hloads⟩, newKeys_nil _ _ _⟩

end WalletBase

end AssentianPQE
