import AssentianPQE.Proofs.SignTwice
import AssentianPQE.Proofs.XmssRecipients

/-!
# `AssentianPQE.Proofs.SignerRoundTrip`: a saved signer is loaded as it was

`SaveState` and `LoadState` of `CXMSSSigner`, for every signer that its functions can leave
(`SignerReached`). Every call comes with any answers of the environment, on any ledger directory
and with any other threads.

* `SignerReached.indexed`: the invariant. Every entry can be written and loaded, and the map of
  key ids has the keys of the signer and nothing else.
* `loadState_saveState`: the round trip. `LoadState` returns true, all fields of every key are the
  same, and in both signers a key is found by its hash.
-/

set_option autoImplicit false

namespace AssentianPQE

open Lib Durable Std.ExtTreeMap Prod

/-! ### Signers -/

/-- The signers that the functions of `CXMSSSigner` leave. The secret key that `AddXMSSKey` gets is
a part of one RPC request, whose size `httpserver.cpp` limits to 32 MiB. -/
inductive SignerReached (c : Crypto) (x : XmssKeys) : CXMSSSigner → Prop where
  | empty : SignerReached c x CXMSSSigner.empty
  | generateKey {s s' : CXMSSSigner} {pubkey : Bytes} {d d' : LedgerDir} (io : Io) (seed : Bytes)
      (h : SignerReached c x s)
      (hcall : (s.generateKey c x io seed).Returns d d' (pubkey, s')) : SignerReached c x s'
  | addXMSSKey {s s' : CXMSSSigner} {behind pubkey seckey : Bytes} (h : SignerReached c x s)
      (hsize : seckey.length < 2 ^ 32)
      (hcall : s.addXMSSKey c behind pubkey seckey = some s') : SignerReached c x s'
  | loadState {s s' : CXMSSSigner} {ok : Bool} {d d' : LedgerDir} (io : Nat → Io) (data : Bytes)
      (h : SignerReached c x s)
      (hcall : (s.loadState c io data).Returns d d' (ok, s')) : SignerReached c x s'
  | signXMSS {s s' : CXMSSSigner} {out : Option (Bytes × UInt32)} {pubkey : Bytes} {d d' : LedgerDir}
      (env : SignEnv) (hash : Uint256) (h : SignerReached c x s)
      (hcall : (s.signXMSS x env hash pubkey).Returns d d' (out, s')) : SignerReached c x s'

/-- Every entry can be written and loaded, and the hash of every key is in the map of key ids. -/
structure KeysIndexed (c : Crypto) (s : CXMSSSigner) : Prop where
  sound : SoundKeys s.xmssKeys
  built : s.Built c
  known : ∀ pubkey ∈ s.xmssKeys, (s.keyIdMap (c.hash160 pubkey)).isSome = true

section Indexed
variable {c : Crypto} {x : XmssKeys} {s s' : CXMSSSigner} {pubkey : Bytes} {entry : XMSSKeyEntry}

theorem known_insert (h : ∀ pubkey ∈ s.xmssKeys, (s.keyIdMap (c.hash160 pubkey)).isSome = true) :
    ∀ pubkey' ∈ (s.insert c pubkey entry).xmssKeys,
      ((s.insert c pubkey entry).keyIdMap (c.hash160 pubkey')).isSome = true := by
  intro pubkey' hmem
  simp only [CXMSSSigner.insert, CXMSSSigner.getXMSSKeyID, Function.update_apply]
  split
  · rfl
  rename_i hne
  rcases mem_insert.mp hmem with heq | hmem
  · rw [Std.LawfulEqCmp.eq_of_compare heq] at hne
    exact absurd rfl hne
  · exact h pubkey' hmem

theorem KeysIndexed.insert (h : KeysIndexed c s) (hentry : SoundEntry pubkey entry) :
    KeysIndexed c (s.insert c pubkey entry) :=
  ⟨h.sound.insert hentry, h.built.insert _ _, known_insert h.known⟩

theorem KeysIndexed.retire (h : KeysIndexed c s) (hentry : s.xmssKeys[pubkey]? = some entry)
    (leaf : UInt32) : KeysIndexed c (s.retire pubkey entry leaf) := by
  refine ⟨WalletBase.soundKeys_retire h.sound leaf hentry, h.built.retire _ _ _, ?_⟩
  intro pubkey' hmem
  -- No key is new, and the map of key ids is as it was.
  have hold : pubkey' ∈ s.xmssKeys := by
    obtain ⟨old, hold, -⟩ :=
      WalletBase.getElem?_retire hentry (getElem?_eq_some_getElem hmem)
    exact mem_iff_isSome_getElem?.mpr (hold ▸ rfl)
  have hmap : (s.retire pubkey entry leaf).keyIdMap = s.keyIdMap := by
    unfold CXMSSSigner.retire
    split <;> rfl
  rw [hmap]
  exact h.known pubkey' hold

theorem known_empty :
    ∀ pubkey ∈ CXMSSSigner.empty.xmssKeys,
      (CXMSSSigner.empty.keyIdMap (c.hash160 pubkey)).isSome = true :=
  fun _ hmem => absurd hmem not_mem_empty

theorem KeysIndexed.empty : KeysIndexed c CXMSSSigner.empty :=
  ⟨soundKeys_empty, .empty, known_empty⟩

theorem known_loadedEntries (version count : Nat) :
    ∀ (ds : Bytes) (s : CXMSSSigner),
      (∀ pubkey ∈ s.xmssKeys, (s.keyIdMap (c.hash160 pubkey)).isSome = true) →
      ∀ pubkey ∈ (CXMSSSigner.loadedEntries c version count ds s).2.xmssKeys,
        ((CXMSSSigner.loadedEntries c version count ds s).2.keyIdMap (c.hash160 pubkey)).isSome =
          true := by
  induction count with
  | zero => exact fun _ _ h => h
  | succ count ih =>
    intro ds s h
    unfold CXMSSSigner.loadedEntries
    split
    · exact h
    · split
      · exact h
      · exact ih _ _ (known_insert h)

theorem KeysIndexed.loaded (h : KeysIndexed c s) (data : Bytes) :
    KeysIndexed c (s.loaded c data).2 := by
  unfold CXMSSSigner.loaded
  split
  · exact h
  · split
    · exact .empty
    · exact ⟨CXMSSSigner.soundKeys_loadedEntries _ _ _ _ _ soundKeys_empty,
        CXMSSSigner.Built.loadedEntries _ _ .empty, known_loadedEntries _ _ _ _ known_empty⟩

/-- `SignXMSS` returns the signer as it was, or with the key retired, whatever other threads do. -/
theorem signXMSS_signer (env : SignEnv) (hash : Uint256) :
    (s.signXMSS x env hash pubkey).Yields fun r =>
      r.2 = s ∨ ∃ entry leaf, s.xmssKeys[pubkey]? = some entry ∧ r.2 = s.retire pubkey entry leaf := by
  unfold CXMSSSigner.signXMSS
  cases hentry : s.xmssKeys[pubkey]? with
  | none => exact yields_pure (.inl rfl)
  | some entry =>
    dsimp only
    split
    · exact yields_pure (.inl rfl)
    split
    · exact yields_pure (.inl rfl)
    refine yields_bind fun ready => ?_
    split
    · refine yields_bind fun _ => yields_bind fun r => ?_
      split
      · exact yields_pure (.inl rfl)
      · exact yields_pure (.inr ⟨entry, _, rfl, rfl⟩)
    · exact yields_pure (.inl rfl)

theorem SignerReached.indexed (hx : KeypairLoads x) (h : SignerReached c x s) : KeysIndexed c s := by
  induction h with
  | empty => exact .empty
  | generateKey io seed _ hcall ih =>
    have hout := (hcall.ensures (generateKey_ensures c x io seed _ _)).2 _ rfl
    obtain ⟨-, rfl⟩ := mk.inj (hout.trans (mk.eta).symm)
    unfold afterGenerate
    split
    · exact ih
    · rename_i hkey
      exact ih.insert (hx.soundEntry hkey)
  | addXMSSKey _ hsize hcall ih =>
    obtain ⟨hlen, hloads, rfl⟩ := addXMSSKey_eq_some hcall
    exact ih.insert ⟨by omega, hsize, hloads⟩
  | loadState io data _ hcall ih =>
    have hout := (hcall.ensures (CXMSSSigner.loadState_ensures c io data _ _)).2 _ rfl
    obtain ⟨-, rfl⟩ := mk.inj (hout.trans (mk.eta).symm)
    exact ih.loaded data
  | signXMSS env hash _ hcall ih =>
    obtain rfl | ⟨entry, leaf, hentry, rfl⟩ :=
      hcall.ensures (signXMSS_signer env hash _) _ rfl
    · exact ih
    · exact ih.retire hentry leaf

end Indexed

/-! ### The round trip -/

theorem migrate_delivers (io : Io) (pubkey : Bytes) (entry : XMSSKeyEntry) (d : LedgerDir) :
    (CXMSSSigner.migrate io pubkey entry).Delivers d fun _ _ => True := by
  unfold CXMSSSigner.migrate
  split
  · refine delivers_read_bind ?_
    split
    · exact delivers_pure trivial
    · refine delivers_bind (xmssTreeLedgerInit_delivers io _ d) fun d' _ _ => ?_
      exact delivers_pure trivial
  · exact delivers_pure trivial

theorem loadEntries_delivers (c : Crypto) (io : Nat → Io) (version count : Nat) :
    ∀ (ds : Bytes) (s : CXMSSSigner) (d : LedgerDir),
      (CXMSSSigner.loadEntries c io version count ds s).Delivers d fun _ out =>
        out = CXMSSSigner.loadedEntries c version count ds s := by
  induction count with
  | zero => exact fun _ _ _ => delivers_pure rfl
  | succ count ih =>
    intro ds s d
    unfold CXMSSSigner.loadEntries CXMSSSigner.loadedEntries
    cases CXMSSSigner.takeEntry version ds with
    | none => exact delivers_pure rfl
    | some p =>
      obtain ⟨⟨pubkey, entry⟩, ds'⟩ := p
      dsimp only
      split
      · exact delivers_pure rfl
      · exact delivers_bind (migrate_delivers (io count) pubkey entry d) fun d' _ _ => ih _ _ d'

theorem loadState_delivers (c : Crypto) (io : Nat → Io) (data : Bytes) (s : CXMSSSigner)
    (d : LedgerDir) :
    (s.loadState c io data).Delivers d fun _ out => out = s.loaded c data := by
  unfold CXMSSSigner.loadState CXMSSSigner.loaded
  split
  · exact delivers_pure rfl
  · dsimp only
    cases takeN 4 (if 2 ≤ CXMSSSigner.recordVersion data then data.drop 4 else data) with
    | none => exact delivers_pure rfl
    | some p => exact loadEntries_delivers c io _ _ _ _ d

/-- A hash leads to the key of the signer that has it, and to nothing if there is none. -/
def FindsKeys (c : Crypto) (s : CXMSSSigner) : Prop :=
  ∀ addrHash, (∀ pubkey ∈ s.xmssKeys, c.hash160 pubkey = addrHash →
      s.getPubKeyForHash addrHash = pubkey) ∧
    ((∀ pubkey ∈ s.xmssKeys, c.hash160 pubkey ≠ addrHash) → s.getPubKeyForHash addrHash = [])

theorem KeysIndexed.findsKeys {c : Crypto} {s : CXMSSSigner} (h : KeysIndexed c s)
    (hcollision : ∀ p ∈ s.xmssKeys, ∀ q ∈ s.xmssKeys, c.hash160 p = c.hash160 q → p = q) :
    FindsKeys c s := by
  intro addrHash
  constructor
  · rintro pubkey hmem rfl
    obtain ⟨found, hfound⟩ := Option.isSome_iff_exists.mp (h.known pubkey hmem)
    obtain ⟨hheld, hhash⟩ := h.built.keyIdMap_eq_some hfound
    rw [CXMSSSigner.getPubKeyForHash, hfound]
    exact hcollision found hheld pubkey hmem hhash
  · intro hnone
    rw [CXMSSSigner.getPubKeyForHash]
    cases hfound : s.keyIdMap addrHash with
    | none => rfl
    | some found =>
      obtain ⟨hheld, hhash⟩ := h.built.keyIdMap_eq_some hfound
      exact absurd hhash (hnone found hheld)

/-- What `SaveState` writes of a signer that its functions leave, a fresh signer loads: the same
keys with all their fields, each of which is found by its hash in both signers. -/
theorem loadState_saveState {c : Crypto} {x : XmssKeys} {s : CXMSSSigner} (hx : KeypairLoads x)
    (hs : SignerReached c x s) (hcount : s.xmssKeys.size < 2 ^ 32)
    (hcollision : ∀ p ∈ s.xmssKeys, ∀ q ∈ s.xmssKeys, c.hash160 p = c.hash160 q → p = q)
    (io : Nat → Io) (d : LedgerDir) :
    ∃ d' s', (CXMSSSigner.empty.loadState c io s.saveState).Returns d d' (true, s') ∧
      s'.xmssKeys = s.xmssKeys ∧ FindsKeys c s ∧ FindsKeys c s' := by
  have hindexed := hs.indexed hx
  obtain ⟨d', out, hcall, rfl⟩ := loadState_delivers c io s.saveState CXMSSSigner.empty d
  have hloads : ∀ p ∈ s.xmssKeys.toList, (loadKey [] p.2.sk).isSome := fun p hp =>
    (hindexed.sound p.1 p.2 (mem_toList_iff_getElem?_eq_some.mp hp)).loads
  obtain ⟨htrue, hkeys⟩ := CXMSSSigner.loaded_saveState c hindexed.sound.sizesFit hcount hloads
    CXMSSSigner.empty
  have hloaded : KeysIndexed c (CXMSSSigner.empty.loaded c s.saveState).2 :=
    KeysIndexed.empty.loaded s.saveState
  refine ⟨d', _, htrue ▸ hcall, hkeys, hindexed.findsKeys hcollision, hloaded.findsKeys ?_⟩
  rw [hkeys]
  exact hcollision

/-- A signer with one imported key. -/
def importedSigner : CXMSSSigner :=
  CXMSSSigner.empty.insert sampleCrypto samplePubkey { sk := sampleSk, imported := true }

theorem loadState_saveState_imported :
    ∃ d' s', (CXMSSSigner.empty.loadState sampleCrypto (fun _ => sampleIo)
        importedSigner.saveState).Returns LedgerDir.empty d' (true, s') ∧
      s'.xmssKeys = importedSigner.xmssKeys ∧ FindsKeys sampleCrypto importedSigner ∧
      FindsKeys sampleCrypto s' := by
  have hreached : SignerReached sampleCrypto sampleKeys importedSigner :=
    @SignerReached.addXMSSKey _ _ _ _ [] samplePubkey sampleSk .empty (by decide +kernel) (by
      have hkey : (loadKey [] sampleSk).map getPubKey = some samplePubkey := by decide +kernel
      obtain ⟨pk, hload, hpk⟩ := Option.map_eq_some_iff.mp hkey
      unfold CXMSSSigner.addXMSSKey
      rw [if_neg (by decide +kernel), if_neg (by decide +kernel), hload]
      exact if_neg (not_not.mpr hpk))
  have hsize : importedSigner.xmssKeys.size < 2 ^ 32 := by
    show (CXMSSSigner.empty.xmssKeys.insert samplePubkey _).size < 2 ^ 32
    rw [size_insert]
    decide
  have hkey : ∀ p ∈ importedSigner.xmssKeys, p = samplePubkey := by
    intro p hp
    rcases mem_insert.mp hp with heq | hp
    · exact (Std.LawfulEqCmp.eq_of_compare heq).symm
    · exact absurd hp not_mem_empty
  exact loadState_saveState keypairLoads_sampleKeys hreached hsize
    (fun p hp q hq _ => (hkey p hp).trans (hkey q hq).symm) _ _

end AssentianPQE
