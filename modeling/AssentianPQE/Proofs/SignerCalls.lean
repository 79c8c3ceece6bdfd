import AssentianPQE.Proofs.LedgerClaims
import AssentianPQE.Wallet.Signer

/-!
# `AssentianPQE.Proofs.SignerCalls`: what a call of the signer can do

One specification for each function of `CXMSSSigner` that calls the ledger, wherever it is cut
off: what it does to the ledger files, and the signer that it returns.

* `generateKey_ensures`, `loadState_ensures`: no ledger file that is there changes.
* `signXMSS_ensures`: a signature is a claim on the ledger, and a native key that has signed is
  retired in memory.
* `takeEntry_saveEntry`, `load_saveState`: what is loaded from a saved record.
-/

set_option autoImplicit false

namespace AssentianPQE

open Lib Durable List Option CXMSSSigner

/-! ### `GenerateKey` -/

/-- The public and the secret key that `GenerateKey` adds for the random bytes drawn. -/
def generatedKey (x : XmssKeys) (seed : Bytes) : Option (Bytes × Bytes) :=
  (x.keypair seed).bind fun p =>
    if (getPubKey p.1).length = XMSS_PUBKEY_SIZE then some (getPubKey p.1, p.2) else none

variable {x : XmssKeys} {pubkey : Bytes}

theorem length_generatedKey {seed sk : Bytes} (h : generatedKey x seed = some (pubkey, sk)) :
    pubkey.length = XMSS_PUBKEY_SIZE := by
  obtain ⟨p, -, hp⟩ := bind_eq_some_iff.mp h
  split at hp
  next hlen =>
    cases hp
    exact hlen
  next => cases hp

/-- The public key and the signer that `GenerateKey` returns. -/
def afterGenerate (c : Crypto) (x : XmssKeys) (seed : Bytes) (s : CXMSSSigner) :
    Bytes × CXMSSSigner :=
  match generatedKey x seed with
  | none => ([], s)
  | some (pubkey, sk) => (pubkey, s.insert c pubkey { sk := sk })

variable (c : Crypto)

theorem generateKey_ensures (x : XmssKeys) (io : Io) (seed : Bytes) (s : CXMSSSigner)
    (d : LedgerDir) :
    (s.generateKey c x io seed).Ensures d fun d' r =>
      d.Grows d' ∧ ∀ out, r = some out → out = afterGenerate c x seed s := by
  unfold generateKey afterGenerate generatedKey
  cases hpair : x.keypair seed with
  | none => exact ensures_pure ⟨.of_dat rfl, fun out h => (Option.some.inj h).symm⟩
  | some p =>
    obtain ⟨pk, sk⟩ := p
    dsimp only
    rw [bind_some]
    by_cases hlen : (getPubKey pk).length = XMSS_PUBKEY_SIZE
    · rw [if_neg (not_not.mpr hlen), if_pos hlen]
      refine ensures_bind (ledgerInit_ensures io _ d) ?_ ?_
      · intro d' hseed
        exact ⟨.of_seed hseed, by simp⟩
      · intro d' _ hseed
        exact ensures_pure ⟨.of_seed hseed, fun out h => (Option.some.inj h).symm⟩
    · rw [if_pos hlen, if_neg hlen]
      exact ensures_pure ⟨.of_dat rfl, fun out h => (Option.some.inj h).symm⟩

/-! ### `SignXMSS` -/

/-- Nothing else happens between the calls of the signer to the ledger. -/
def SignEnv.Alone (env : SignEnv) : Prop :=
  ∀ i, env.others i = pure ()

/-- The signer after a call of `SignXMSS`. -/
def SignerAfter (s : CXMSSSigner) (pubkey : Bytes) (out : Option (Bytes × UInt32))
    (s' : CXMSSSigner) : Prop :=
  match out with
  | none => s' = s
  | some (_, leaf) =>
    ∃ entry, s.xmssKeys[pubkey]? = some entry ∧ pubkey.length = 64 ∧
      (entry.imported = true ∨ entry.retired = false) ∧ s' = s.retire pubkey entry leaf

/-- What a call of `SignXMSS` can do: the ledger may get a new file, and then the leaf is
claimed. -/
def SignOutcome (x : XmssKeys) (s : CXMSSSigner) (hash : Uint256) (pubkey : Bytes)
    (d d' : LedgerDir) (r : Option (Option (Bytes × UInt32) × CXMSSSigner)) : Prop :=
  (∃ d₁, d.Grows d₁ ∧ ClaimOutcome x d₁ (rootOf pubkey) hash.data d' (r.map Prod.fst)) ∧
    ∀ out s', r = some (out, s') → SignerAfter s pubkey out s'

theorem SignOutcome.lost {s : CXMSSSigner} {hash : Uint256} {d d' : LedgerDir}
    {r : Option (Option (Bytes × UInt32) × CXMSSSigner)} (h : SignOutcome x s hash pubkey d d' r) :
    SignOutcome x s hash pubkey d d' none := by
  obtain ⟨⟨d₁, hgrows, hclaim⟩, -⟩ := h
  exact ⟨⟨d₁, hgrows, hclaim.lost⟩, by simp⟩

/-- A call that refuses to sign. -/
theorem SignOutcome.refused {s : CXMSSSigner} {hash : Uint256} {d d' : LedgerDir} (h : d.Grows d') :
    SignOutcome x s hash pubkey d d' (some (none, s)) := by
  refine ⟨⟨d', h, .inl ⟨rfl, by simp⟩⟩, ?_⟩
  intro out s' heq
  cases heq
  rfl

theorem ensureLedger_ensures {env : SignEnv} (halone : env.Alone) (pubkey : Bytes)
    (entry : XMSSKeyEntry) (d : LedgerDir) :
    (ensureLedger env pubkey entry).Ensures d fun d' _ => d.Grows d' := by
  unfold ensureLedger
  refine ensures_read_bind ?_
  split
  · exact ensures_pure (.of_dat rfl)
  · split
    · exact ensures_pure (.of_dat rfl)
    · rw [halone 1, Durable.pure_bind]
      exact ensures_mono (ledgerInit_ensures env.init _ d) fun d' _ hseed => .of_seed hseed

theorem signXMSS_ensures (x : XmssKeys) {env : SignEnv} (halone : env.Alone) (hash : Uint256)
    (pubkey : Bytes) (s : CXMSSSigner) (d : LedgerDir) :
    (s.signXMSS x env hash pubkey).Ensures d (SignOutcome x s hash pubkey d) := by
  unfold signXMSS
  cases hentry : s.xmssKeys[pubkey]? with
  | none => exact ensures_pure (.refused (.of_dat rfl))
  | some entry =>
    dsimp only
    split
    · exact ensures_pure (.refused (.of_dat rfl))
    rename_i hlen
    split
    · exact ensures_pure (.refused (.of_dat rfl))
    rename_i hretired
    refine ensures_bind (ensureLedger_ensures halone pubkey entry d) ?_ ?_
    · intro d' hgrows
      exact (SignOutcome.refused hgrows).lost
    intro d₁ ready hgrows
    cases ready with
    | false => exact ensures_pure (.refused hgrows)
    | true =>
      rw [if_pos rfl, halone 2, Durable.pure_bind]
      refine ensures_bind (claimAndSign_ensures x env.claim _ _ d₁) ?_ ?_
      · intro d' hclaim
        exact ⟨⟨d₁, hgrows, hclaim⟩, by simp⟩
      intro d' r hclaim
      cases r with
      | none =>
        refine ensures_pure ⟨⟨d₁, hgrows, hclaim⟩, ?_⟩
        intro out s' heq
        cases heq
        rfl
      | some out =>
        refine ensures_pure ⟨⟨d₁, hgrows, hclaim⟩, ?_⟩
        intro out' s' heq
        cases heq
        have hfresh : entry.imported = true ∨ entry.retired = false := by
          simpa [or_iff_not_imp_left] using hretired
        exact ⟨entry, hentry, not_not.mp hlen, hfresh, rfl⟩

/-! ### `LoadState` -/

namespace CXMSSSigner

/-- The loop of `LoadState` without the ledger. -/
def loadedEntries (c : Crypto) (version : Nat) : Nat → Bytes → CXMSSSigner → Bool × CXMSSSigner
  | 0, _, s => (true, s)
  | count + 1, ds, s =>
    match takeEntry version ds with
    | none => (false, s)
    | some ((pubkey, entry), ds) =>
      if (loadKey [] entry.sk).isNone then (false, s)
      else loadedEntries c version count ds (s.insert c pubkey entry)

/-- What `LoadState` makes of a record. -/
def loaded (c : Crypto) (data : Bytes) (s : CXMSSSigner) : Bool × CXMSSSigner :=
  if data.length < 4 then (false, s)
  else
    match takeN 4 (if 2 ≤ recordVersion data then data.drop 4 else data) with
    | none => (false, empty)
    | some (count, ds) => loadedEntries c (recordVersion data) (readBE count) ds empty

theorem migrate_ensures (io : Io) (pubkey : Bytes) (entry : XMSSKeyEntry) (d : LedgerDir) :
    (migrate io pubkey entry).Ensures d fun d' _ => d.Grows d' := by
  unfold migrate
  split
  · refine ensures_read_bind ?_
    split
    · exact ensures_pure (.of_dat rfl)
    · refine ensures_bind (ledgerInit_ensures io _ d) (fun d' h => .of_seed h) ?_
      intro d' _ h
      exact ensures_pure (.of_seed h)
  · exact ensures_pure (.of_dat rfl)

variable (io : Nat → Io)

theorem loadEntries_ensures (version count : Nat) :
    ∀ (ds : Bytes) (s : CXMSSSigner) (d : LedgerDir),
      (loadEntries c io version count ds s).Ensures d fun d' r =>
        d.Grows d' ∧ ∀ out, r = some out → out = loadedEntries c version count ds s := by
  induction count with
  | zero =>
    intro ds s d
    exact ensures_pure ⟨.of_dat rfl, fun out h => (Option.some.inj h).symm⟩
  | succ count ih =>
    intro ds s d
    unfold loadEntries loadedEntries
    cases hentry : takeEntry version ds with
    | none => exact ensures_pure ⟨.of_dat rfl, fun out h => (Option.some.inj h).symm⟩
    | some p =>
      obtain ⟨⟨pubkey, entry⟩, ds'⟩ := p
      dsimp only
      split
      · exact ensures_pure ⟨.of_dat rfl, fun out h => (Option.some.inj h).symm⟩
      refine ensures_bind (migrate_ensures (io count) pubkey entry d) ?_ ?_
      · intro d' h
        exact ⟨h, by simp⟩
      · intro d₁ _ h
        exact ensures_mono (ih ds' _ d₁) fun d' r h' => ⟨h.trans h'.1, h'.2⟩

theorem loadState_ensures (data : Bytes) (s : CXMSSSigner) (d : LedgerDir) :
    (s.loadState c io data).Ensures d fun d' r =>
      d.Grows d' ∧ ∀ out, r = some out → out = s.loaded c data := by
  unfold loadState loaded
  split
  · exact ensures_pure ⟨.of_dat rfl, fun out h => (Option.some.inj h).symm⟩
  · dsimp only
    cases htake : takeN 4 (if 2 ≤ recordVersion data then data.drop 4 else data) with
    | none => exact ensures_pure ⟨.of_dat rfl, fun out h => (Option.some.inj h).symm⟩
    | some p => exact loadEntries_ensures c io _ _ _ _ d

/-! ### What is loaded from a saved record -/

theorem takeSized_sized {bs : Bytes} (h : bs.length < 2 ^ 32) (rest : Bytes) :
    takeSized (sized bs ++ rest) = some (bs, rest) := by
  have hsize : readBE (beBytes 4 bs.length) = bs.length := by
    rw [readBE_beBytes]
    exact Nat.mod_eq_of_lt h
  unfold takeSized sized
  rw [append_assoc, takeN_append_of_length (length_beBytes 4 _)]
  show takeN (readBE (beBytes 4 bs.length)) (bs ++ rest) = _
  rw [hsize, takeN_append]

theorem takeFlag_cons {since : Nat} (h : since ≤ 3) (b : Bool) (rest : Bytes) :
    takeFlag since 3 ((if b then 1 else 0) :: rest) = some (b, rest) := by
  unfold takeFlag
  rw [if_pos h]
  cases b <;> simp [takeN]

/-- An entry with sizes that fit into their fields is loaded as it was saved. -/
theorem takeEntry_saveEntry {entry : XMSSKeyEntry} (hpk : pubkey.length < 2 ^ 32)
    (hsk : entry.sk.length < 2 ^ 32) (rest : Bytes) :
    takeEntry 3 (saveEntry pubkey entry ++ rest) = some ((pubkey, entry), rest) := by
  have hleaf : UInt32.ofNat (readBE (beBytes 4 entry.leafIndex.toNat)) = entry.leafIndex := by
    have hlt : entry.leafIndex.toNat < 256 ^ 4 := entry.leafIndex.toNat_lt
    rw [readBE_beBytes, Nat.mod_eq_of_lt hlt, UInt32.ofNat_toNat]
  unfold takeEntry saveEntry
  simp only [append_assoc, cons_append, bind_eq_bind, takeSized_sized hpk,
    bind_some, takeN_append_of_length (length_beBytes 4 _), takeFlag_cons (by omega : 2 ≤ 3),
    takeFlag_cons (Nat.le_refl 3), takeSized_sized hsk, hleaf]

/-- The sizes of the keys of a list fit into their fields. -/
def SizesFit (l : List (Bytes × XMSSKeyEntry)) : Prop :=
  ∀ p ∈ l, p.1.length < 2 ^ 32 ∧ p.2.sk.length < 2 ^ 32

/-- From saved entries a prefix is loaded. It is all that were asked for if every secret key can
be loaded. -/
theorem loadedEntries_saved :
    ∀ (l : List (Bytes × XMSSKeyEntry)) (n : Nat) (s : CXMSSSigner), SizesFit l → n ≤ l.length →
      ∃ k ≤ n,
        (loadedEntries c 3 n (l.map fun p => saveEntry p.1 p.2).flatten s).2 =
          (l.take k).foldl (fun s p => s.insert c p.1 p.2) s ∧
        ((∀ p ∈ l, (loadKey [] p.2.sk).isSome) → k = n ∧
          (loadedEntries c 3 n (l.map fun p => saveEntry p.1 p.2).flatten s).1 = true) := by
  intro l
  induction l with
  | nil =>
    intro n s _ hn
    have hzero : n = 0 := Nat.le_zero.mp hn
    subst hzero
    exact ⟨0, Nat.le_refl 0, rfl, fun _ => ⟨rfl, rfl⟩⟩
  | cons p l ih =>
    intro n s hfit hn
    cases n with
    | zero => exact ⟨0, Nat.le_refl 0, rfl, fun _ => ⟨rfl, rfl⟩⟩
    | succ n =>
      have hp := hfit p mem_cons_self
      rw [map_cons, flatten_cons, loadedEntries, takeEntry_saveEntry hp.1 hp.2]
      dsimp only
      by_cases hload : (loadKey [] p.2.sk).isNone = true
      · rw [if_pos hload]
        refine ⟨0, Nat.zero_le _, rfl, fun hall => ?_⟩
        have hsome := hall p mem_cons_self
        rw [isNone_iff_eq_none] at hload
        rw [hload] at hsome
        cases hsome
      · rw [if_neg hload]
        obtain ⟨k, hk, heq, hall⟩ := ih n (s.insert c p.1 p.2)
          (fun q hq => hfit q (mem_cons_of_mem _ hq)) (Nat.le_of_succ_le_succ hn)
        refine ⟨k + 1, Nat.succ_le_succ hk, heq, fun h => ?_⟩
        obtain ⟨rfl, htrue⟩ := hall fun q hq => h q (mem_cons_of_mem _ hq)
        exact ⟨rfl, htrue⟩

theorem xmssKeys_foldl_insert (l : List (Bytes × XMSSKeyEntry)) (s : CXMSSSigner) :
    (l.foldl (fun s p => s.insert c p.1 p.2) s).xmssKeys =
      l.foldl (fun m p => m.insert p.1 p.2) s.xmssKeys := by
  induction l generalizing s with
  | nil => rfl
  | cons p l ih => exact ih (s.insert c p.1 p.2)

variable (s : CXMSSSigner)

/-- The keys of a prefix of the entries, put into an empty signer. -/
theorem getElem?_foldl_insert (k : Nat) (pubkey : Bytes) (entry : XMSSKeyEntry) :
    ((s.xmssKeys.toList.take k).foldl (fun s p => s.insert c p.1 p.2) empty).xmssKeys[pubkey]? =
        some entry ↔
      (pubkey, entry) ∈ s.xmssKeys.toList.take k := by
  have hdistinct : (s.xmssKeys.toList.take k).Pairwise fun a b => ¬ compare a.1 b.1 = .eq :=
    Std.ExtTreeMap.distinct_keys_toList.sublist (take_sublist k _)
  have hfold : ((s.xmssKeys.toList.take k).foldl (fun s p => s.insert c p.1 p.2) empty).xmssKeys =
      Std.ExtTreeMap.ofList (s.xmssKeys.toList.take k) := by
    rw [xmssKeys_foldl_insert, Std.ExtTreeMap.ofList_eq_foldl]
    rfl
  rw [hfold]
  constructor
  · intro h
    -- The key is one of the list, and the list has one entry for it.
    have hmem : pubkey ∈ Std.ExtTreeMap.ofList (s.xmssKeys.toList.take k) := by
      rw [Std.ExtTreeMap.mem_iff_isSome_getElem?, h]
      rfl
    rw [Std.ExtTreeMap.mem_ofList, contains_iff_mem] at hmem
    obtain ⟨p, hp, rfl⟩ := mem_map.mp hmem
    have hval := Std.ExtTreeMap.getElem?_ofList_of_mem Std.ReflCmp.compare_self hdistinct hp
    rw [h] at hval
    rwa [Option.some.inj hval]
  · intro h
    exact Std.ExtTreeMap.getElem?_ofList_of_mem Std.ReflCmp.compare_self hdistinct h

/-- The record of `SaveState` is one of version 3. -/
theorem loaded_saveState_eq (s' : CXMSSSigner) :
    s'.loaded c s.saveState = loadedEntries c 3 (s.xmssKeys.size % 2 ^ 32)
      (s.xmssKeys.toList.map fun p => saveEntry p.1 p.2).flatten empty := by
  have hmagic : magicV3.length = 4 := rfl
  have hlen : 8 ≤ s.saveState.length := by
    unfold saveState
    rw [length_append, length_append, length_beBytes, hmagic]
    omega
  have hversion : recordVersion s.saveState = 3 := by
    unfold recordVersion
    rw [if_pos ⟨hlen, take_left' hmagic⟩]
  unfold loaded
  rw [if_neg (by omega), hversion, if_pos (by decide)]
  unfold saveState
  rw [drop_left' hmagic, takeN_append_of_length (length_beBytes 4 _)]
  dsimp only
  rw [readBE_beBytes]
  rfl

/-- What is loaded from a saved record was saved. -/
theorem getElem?_loaded_saveState {s : CXMSSSigner} (hfit : SizesFit s.xmssKeys.toList)
    (s' : CXMSSSigner) {entry : XMSSKeyEntry}
    (h : (s'.loaded c s.saveState).2.xmssKeys[pubkey]? = some entry) :
    s.xmssKeys[pubkey]? = some entry := by
  have hle : s.xmssKeys.size % 2 ^ 32 ≤ s.xmssKeys.toList.length := by
    rw [Std.ExtTreeMap.length_toList]
    exact Nat.mod_le _ _
  obtain ⟨k, -, heq, -⟩ := loadedEntries_saved c _ _ empty hfit hle
  rw [loaded_saveState_eq, heq, getElem?_foldl_insert] at h
  exact Std.ExtTreeMap.mem_toList_iff_getElem?_eq_some.mp (mem_of_mem_take h)

/-- A saved record is loaded as it was, if the number of keys fits into its field and every
secret key can be loaded. -/
theorem loaded_saveState {s : CXMSSSigner} (hfit : SizesFit s.xmssKeys.toList)
    (hcount : s.xmssKeys.size < 2 ^ 32)
    (hload : ∀ p ∈ s.xmssKeys.toList, (loadKey [] p.2.sk).isSome) (s' : CXMSSSigner) :
    (s'.loaded c s.saveState).1 = true ∧ (s'.loaded c s.saveState).2.xmssKeys = s.xmssKeys := by
  have hsize : s.xmssKeys.size % 2 ^ 32 = s.xmssKeys.toList.length := by
    rw [Std.ExtTreeMap.length_toList, Nat.mod_eq_of_lt hcount]
  obtain ⟨k, -, heq, hall⟩ := loadedEntries_saved c _ _ empty hfit hsize.le
  obtain ⟨hk, htrue⟩ := hall hload
  have hk : s.xmssKeys.toList.take k = s.xmssKeys.toList := by
    rw [hk, hsize, take_length]
  rw [loaded_saveState_eq]
  refine ⟨htrue, ?_⟩
  apply Std.ExtTreeMap.ext_getElem?
  intro pubkey
  apply Option.ext
  intro entry
  rw [heq, getElem?_foldl_insert, hk,
    Std.ExtTreeMap.mem_toList_iff_getElem?_eq_some]

end CXMSSSigner

end AssentianPQE
