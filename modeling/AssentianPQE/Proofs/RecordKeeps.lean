import AssentianPQE.SampleWallet

/-!
# `AssentianPQE.Proofs.RecordKeeps`: the secret keys in the record

The record is written whole, from the keys in memory. A secret key stays in it as long as every
wallet that writes it has all the keys of the record. A wallet that is created over an encrypted
record has none of them, and `Create` at once generates a key for it. `Unlock` then finds a key in
memory, does not load the record and writes it.

`KeepsKeys` is a condition on the calls of a run, and `secrets_kept` is the result for runs with
it. `restart_loses_secret` is a run in which an encrypted wallet is restarted.
-/

set_option autoImplicit false

namespace AssentianPQE

open Lib List Option CXMSSSigner Bool WalletRun

variable {k : WalletPrims} {w : CWallet} {d : WalletDir} {data pubkey : Bytes} {s : CXMSSSigner}
  {entry : XMSSKeyEntry} {iv : Uint256}

/-- The record contains the secret key of a public key. -/
def WalletDir.Contains (k : WalletPrims) (d : WalletDir) (pubkey sk : Bytes) : Prop :=
  ((d.contents k)[pubkey]?).map XMSSKeyEntry.sk = some sk

/-- Every secret key of the first record is in the second one. -/
def KeepsSecrets (k : WalletPrims) (d d' : WalletDir) : Prop :=
  ∀ pubkey sk, d.Contains k pubkey sk → d'.Contains k pubkey sk

/-- The wallet has every secret key of the record. -/
def Holds (k : WalletPrims) (w : CWallet) (d : WalletDir) : Prop :=
  ∀ p ∈ (d.contents k).toList, (w.signer.xmssKeys[p.1]?).map XMSSKeyEntry.sk = some p.2.sk

theorem holds_iff :
    Holds k w d ↔ ∀ pubkey sk, d.Contains k pubkey sk →
      (w.signer.xmssKeys[pubkey]?).map XMSSKeyEntry.sk = some sk := by
  constructor
  · intro h pubkey sk hsk
    obtain ⟨entry, hentry, rfl⟩ := map_eq_some_iff.mp hsk
    exact h (pubkey, entry) (Std.ExtTreeMap.mem_toList_iff_getElem?_eq_some.mpr hentry)
  · intro h p hp
    refine h p.1 p.2.sk ?_
    rw [WalletDir.Contains, Std.ExtTreeMap.mem_toList_iff_getElem?_eq_some.mp hp]
    rfl

theorem holds_of_contents_empty (h : d.contents k = ∅) : Holds k w d := by
  rw [holds_iff]
  intro pubkey sk hsk
  rw [WalletDir.Contains, h, Std.ExtTreeMap.getElem?_empty] at hsk
  cases hsk

theorem holds_of_contents_eq (h : w.signer.xmssKeys = d.contents k) : Holds k w d := by
  rw [holds_iff, h]
  exact fun _ _ hsk => hsk

/-! ### The invariant -/

/-- What is left when the process dies, compared with an earlier record. -/
structure KeepDisk (k : WalletPrims) (d₀ d : WalletDir) : Prop where
  plain : PlainRecord d
  kept : KeepsSecrets k d₀ d

/-- The wallet waits for its passphrase: it is locked and has no keys, and it will not draw one. -/
def Waiting (k : WalletPrims) (seeds : List Bytes) (w : CWallet) : Prop :=
  w.signer.xmssKeys = ∅ ∧ w.isLocked = true ∧ drawnKeys k seeds = []

/-- The wallet has the secret keys of the record, or waits for its passphrase. -/
structure KeepInv (k : WalletPrims) (d₀ : WalletDir) (seeds : List Bytes) (w : CWallet)
    (d : WalletDir) : Prop where
  base : WalletBase k seeds w d
  disk : KeepDisk k d₀ d
  room : w.signer.xmssKeys.size + seeds.length < 2 ^ 32
  holds : Holds k w d ∨ Waiting k seeds w

namespace KeepInv

variable {k : WalletPrims} {d₀ : WalletDir} {seed : Bytes} {seeds : List Bytes} {w : CWallet}
  {d : WalletDir}

theorem skip (h : KeepInv k d₀ (seed :: seeds) w d) : KeepInv k d₀ seeds w d where
  base := ⟨h.base.keyed, h.base.sound, h.base.new.skip⟩
  disk := h.disk
  room := by
    have hroom := h.room
    rw [length_cons] at hroom
    omega
  holds := by
    rcases h.holds with hholds | ⟨hempty, hlocked, hdrawn⟩
    · exact .inl hholds
    refine .inr ⟨hempty, hlocked, ?_⟩
    cases hkey : generatedKey k.keys seed with
    | none => rwa [NewKeys.drawnKeys_cons_none hkey] at hdrawn
    | some p =>
      rw [NewKeys.drawnKeys_cons_some hkey] at hdrawn
      cases hdrawn

/-- A new key does not replace another one. -/
theorem generate (hx : KeypairLoads k.keys) (h : KeepInv k d₀ (seed :: seeds) w d) {sk : Bytes}
    (hkey : generatedKey k.keys seed = some (pubkey, sk)) :
    KeepInv k d₀ seeds { w with signer := w.signer.insert k.crypto pubkey { sk := sk } }
      { d with log := .created pubkey :: d.log } where
  base := h.base.generate hx hkey
  disk := ⟨h.disk.plain, h.disk.kept⟩
  room := by
    have hroom := h.room
    have hsize : (w.signer.xmssKeys.insert pubkey { sk := sk }).size ≤ w.signer.xmssKeys.size + 1 :=
      Std.ExtTreeMap.size_insert_le
    rw [length_cons] at hroom
    show (w.signer.xmssKeys.insert pubkey { sk := sk }).size + seeds.length < 2 ^ 32
    omega
  holds := by
    have hnew : pubkey ∉ w.signer.xmssKeys := fun hmem => h.base.new.head hkey (.inl hmem)
    rcases h.holds with hholds | ⟨-, -, hdrawn⟩
    · left
      rw [holds_iff] at hholds ⊢
      intro pubkey' sk' hsk
      have hold := hholds pubkey' sk' hsk
      -- The key of the record is in memory, so it is another one.
      have hne : ¬ compare pubkey pubkey' = .eq := by
        intro heq
        obtain rfl := Std.LawfulEqCmp.eq_of_compare heq
        rw [Std.ExtTreeMap.getElem?_eq_none hnew] at hold
        cases hold
      show ((w.signer.xmssKeys.insert pubkey { sk := sk })[pubkey']?).map _ = _
      rw [Std.ExtTreeMap.getElem?_insert, if_neg hne]
      exact hold
    · rw [NewKeys.drawnKeys_cons_some hkey] at hdrawn
      cases hdrawn

/-- A key that signs keeps its secret key. -/
theorem map_sk_retire {pubkey' : Bytes} (leaf : UInt32)
    (hentry : s.xmssKeys[pubkey]? = some entry) :
    ((s.retire pubkey entry leaf).xmssKeys[pubkey']?).map XMSSKeyEntry.sk =
      (s.xmssKeys[pubkey']?).map XMSSKeyEntry.sk := by
  unfold retire
  split
  · rfl
  rw [Std.ExtTreeMap.getElem?_insert]
  split
  · rename_i heq
    rw [← Std.LawfulEqCmp.eq_of_compare heq, hentry]
    rfl
  · rfl

theorem size_retire (leaf : UInt32) (hentry : s.xmssKeys[pubkey]? = some entry) :
    (s.retire pubkey entry leaf).xmssKeys.size = s.xmssKeys.size := by
  have hmem : pubkey ∈ s.xmssKeys := by
    rw [Std.ExtTreeMap.mem_iff_isSome_getElem?, hentry]
    rfl
  unfold retire
  split
  · rfl
  · rw [Std.ExtTreeMap.size_insert, if_pos (Std.ExtTreeMap.contains_iff_mem.mpr hmem)]

theorem sign (h : KeepInv k d₀ seeds w d) (leaf : UInt32)
    (hentry : w.signer.xmssKeys[pubkey]? = some entry) :
    KeepInv k d₀ seeds { w with signer := w.signer.retire pubkey entry leaf }
      { d with log := .signed pubkey :: d.log } where
  base := h.base.sign leaf hentry
  disk := ⟨h.disk.plain, h.disk.kept⟩
  room := by
    show (w.signer.retire pubkey entry leaf).xmssKeys.size + seeds.length < 2 ^ 32
    rw [size_retire leaf hentry]
    exact h.room
  holds := by
    rcases h.holds with hholds | ⟨hempty, -⟩
    · left
      rw [holds_iff] at hholds ⊢
      intro pubkey' sk' hsk
      rw [map_sk_retire leaf hentry]
      exact hholds pubkey' sk' hsk
    · rw [hempty, Std.ExtTreeMap.getElem?_empty] at hentry
      cases hentry

/-- A wallet that can write a record is not locked. -/
theorem not_waiting_of_record (hdata : w.record k.crypter iv = some data) :
    ¬ Waiting k seeds w := by
  rintro ⟨-, hlocked, -⟩
  obtain ⟨hcrypted, hnone⟩ := and_eq_true_iff.mp hlocked
  rw [CWallet.record, if_pos hcrypted, isNone_iff_eq_none.mp hnone] at hdata
  cases hdata

/-- After a write the record has the keys in memory. -/
theorem contents_eq (hspec : CrypterSpec k.crypter) (h : KeepInv k d₀ seeds w d)
    (hdata : w.record k.crypter iv = some data) (log : List KeyEvent) :
    WalletDir.contents k { d with xmssState := some data, log := log } = w.signer.xmssKeys := by
  have hcount : w.signer.xmssKeys.size < 2 ^ 32 := Nat.lt_of_le_of_lt (Nat.le_add_right _ _) h.room
  exact contents_persist_eq hspec h.base.keyed h.base.sound hcount hdata log

theorem persist (hspec : CrypterSpec k.crypter) (h : KeepInv k d₀ seeds w d)
    (hdata : w.record k.crypter iv = some data) :
    KeepInv k d₀ seeds w { d with xmssState := some data, log := .persisted :: d.log } := by
  have hcontents := h.contents_eq hspec hdata (.persisted :: d.log)
  have hholds : Holds k w d := h.holds.resolve_right (not_waiting_of_record hdata)
  refine ⟨h.base.persist hspec hdata, ⟨.persist h.base.keyed hdata _, ?_⟩, h.room,
    .inl (holds_of_contents_eq hcontents.symm)⟩
  intro pubkey sk hsk
  rw [WalletDir.Contains, hcontents]
  exact holds_iff.mp hholds pubkey sk (h.disk.kept pubkey sk hsk)

theorem lock (h : KeepInv k d₀ seeds w d) : KeepInv k d₀ seeds w.lock d := by
  have hsigner : w.lock.signer = w.signer := by
    unfold CWallet.lock
    split <;> rfl
  refine ⟨h.base.lock, h.disk, by rw [hsigner]; exact h.room, ?_⟩
  rcases h.holds with hholds | ⟨hempty, hlocked, hdrawn⟩
  · left
    rw [holds_iff, hsigner]
    exact holds_iff.mp hholds
  · refine .inr ⟨by rw [hsigner]; exact hempty, ?_, hdrawn⟩
    obtain ⟨hcrypted, hnone⟩ := and_eq_true_iff.mp hlocked
    rw [CWallet.lock, if_pos hcrypted]
    exact and_eq_true_iff.mpr ⟨hcrypted, rfl⟩

end KeepInv

theorem keepRules (hspec : CrypterSpec k.crypter) (hx : KeypairLoads k.keys) (d₀ : WalletDir) :
    WalletRules k (KeepDisk k d₀) (KeepInv k d₀) where
  died h := h.disk
  ledger _ h := ⟨⟨⟨h.base.keyed.map, h.base.keyed.opened⟩, h.base.sound, h.base.new⟩,
    ⟨h.disk.plain, h.disk.kept⟩, h.room, h.holds⟩
  skip h := h.skip
  generate h hkey := h.generate hx hkey
  sign leaf h hentry _ := h.sign leaf hentry
  persist h hdata := h.persist hspec hdata
  lock h := h.lock

/-! ### Calls that load the record -/

namespace KeepInv

variable {k : WalletPrims} {d₀ : WalletDir} {seeds : List Bytes} {w : CWallet} {d : WalletDir}

/-- A wallet that had the keys of the record has them after a load. -/
theorem load (h : KeepInv k d₀ seeds w d) (hroom : (d.contents k).size + seeds.length < 2 ^ 32)
    (env : LoadEnv) : KeepInv k d₀ seeds (w.afterLoad k env d) d := by
  obtain ⟨hmap, hopened⟩ := afterLoad_keys k env w d
  refine ⟨h.base.load env, h.disk, ?_, ?_⟩
  · rcases afterLoad_signer h.base.keyed env with hs | hs
    · rw [hs]
      exact h.room
    · rw [hs]
      exact hroom
  · rcases afterLoad_signer h.base.keyed env with hs | hs
    · rcases h.holds with hholds | ⟨hempty, hlocked, hdrawn⟩
      · left
        rw [holds_iff, hs]
        exact holds_iff.mp hholds
      · refine .inr ⟨by rw [hs]; exact hempty, ?_, hdrawn⟩
        rw [CWallet.isLocked, CWallet.isCrypted, hmap, hopened]
        exact hlocked
    · exact .inl (holds_of_contents_eq hs)

/-- A wallet with the right key that can read the record has the keys of the record after it. -/
theorem load_of_readable (hbase : WalletBase k seeds w d) (hdisk : KeepDisk k d₀ d)
    (hsize : w.signer.xmssKeys.size + seeds.length < 2 ^ 32)
    (hroom : (d.contents k).size + seeds.length < 2 ^ 32) {env : LoadEnv}
    (hread : env.readOk = true)
    (hopen : w.vMasterKey = d.masterKey ∨ ∀ data ∈ d.xmssState, isEncryptedRecord data = false) :
    KeepInv k d₀ seeds (w.afterLoad k env d) d := by
  refine ⟨hbase.load env, hdisk, ?_, .inl ?_⟩
  · rcases afterLoad_signer hbase.keyed env with hs | hs
    · rw [hs]
      exact hsize
    · rw [hs]
      exact hroom
  · rcases @afterLoad_of_readable w d k env hread hopen with hempty | hs
    · exact holds_of_contents_empty hempty
    · exact holds_of_contents_eq hs

/-- A wallet with keys does not wait for its passphrase. -/
theorem holds_of_keys (h : KeepInv k d₀ seeds w d) (hkeys : w.signer.xmssKeys.isEmpty = false) :
    Holds k w d := by
  refine h.holds.resolve_right fun hwaiting => ?_
  rw [hwaiting.1] at hkeys
  cases hkeys

theorem holds_of_unlocked (h : KeepInv k d₀ seeds w d) (hlocked : w.isLocked = false) :
    Holds k w d := by
  refine h.holds.resolve_right fun hwaiting => ?_
  rw [hwaiting.2.1] at hlocked
  cases hlocked

/-- The wallet is encrypted, and its keys are as before. -/
theorem encrypt (h : KeepInv k d₀ seeds w d) (hcrypted : w.isCrypted = false) (key : Bytes) :
    KeepInv k d₀ seeds { w with mapMasterKeys := some key, vMasterKey := some key }
      { d with masterKey := some key } := by
  have hcontents := contents_newKey k h.disk.plain (h.base.keyed.masterKey_of_plain hcrypted) key
  have hholds : Holds k w d := by
    refine h.holds_of_unlocked ?_
    rw [CWallet.isLocked, hcrypted]
    rfl
  refine ⟨h.base.encrypt h.disk.plain hcrypted key, ⟨?_, ?_⟩, h.room, .inl ?_⟩
  · intro hnone
    cases hnone
  · intro pubkey sk hsk
    rw [WalletDir.Contains, hcontents]
    exact h.disk.kept pubkey sk hsk
  · rw [Holds, hcontents]
    exact hholds

/-- A key that is added by hand, unless it replaces another secret key. -/
theorem add (h : KeepInv k d₀ [] w d) (hholds : Holds k w d)
    (hroom : w.signer.xmssKeys.size + 1 < 2 ^ 32) {behind seckey : Bytes}
    (hsame : ∀ entry ∈ w.signer.xmssKeys[pubkey]?, entry.sk = seckey)
    (hsize : seckey.length < 2 ^ 32)
    (hadd : w.signer.addXMSSKey k.crypto behind pubkey seckey = some s) :
    KeepInv k d₀ [] { w with signer := s } d := by
  have hbase := h.base.add hsize hadd
  obtain ⟨-, -, rfl⟩ := addXMSSKey_eq_some hadd
  refine ⟨hbase, h.disk, ?_, .inl ?_⟩
  · exact Nat.lt_of_le_of_lt Std.ExtTreeMap.size_insert_le hroom
  rw [holds_iff] at hholds ⊢
  intro pubkey' sk' hsk
  have hold := hholds pubkey' sk' hsk
  show ((w.signer.xmssKeys.insert pubkey _)[pubkey']?).map _ = _
  rw [Std.ExtTreeMap.getElem?_insert]
  split
  · rename_i heq
    obtain rfl := Std.LawfulEqCmp.eq_of_compare heq
    obtain ⟨entry, hentry, rfl⟩ := map_eq_some_iff.mp hold
    rw [hsame entry hentry]
    rfl
  · exact hold

/-- The same wallet, compared with the record as it is now. -/
theorem rebase (h : KeepInv k d₀ seeds w d) : KeepInv k d seeds w d :=
  ⟨h.base, ⟨h.disk.plain, fun _ _ hsk => hsk⟩, h.room, h.holds⟩

end KeepInv

/-! ### Runs -/

/-- What the result needs of a call. A key is generated or added only by a wallet that has the
secret keys of the record, or by `Create` over a record that is not encrypted or has no keys. A
generated key is a new one, and a key that is added does not replace another secret key. The
record can be read when it is loaded into a wallet without keys, and the transaction of
`EncryptWallet` begins. There is room for two more keys in the record, and a secret key has fewer
than `2 ^ 32` bytes. -/
def CallKeeps (k : WalletPrims) (w : CWallet) (d : WalletDir) : WalletOp → Prop
  | .encryptWallet env _ => env.txnBegins = true
  | .unlock _ load _ => w.signer.xmssKeys.isEmpty = true → load.readOk = true
  | .getnewxmssaddress env _ => NewKeys k [env.seed] w d ∧ (Holds k w d ∨ drawnKeys k [env.seed] = [])
  | .generateKey _ seed _ => NewKeys k [seed] w d ∧ (Holds k w d ∨ drawnKeys k [seed] = [])
  | .importxmsskey _ _ pubkey seckey _ | .addXMSSKey _ pubkey seckey =>
    Holds k w d ∧ (∀ entry ∈ w.signer.xmssKeys[pubkey]?, entry.sk = seckey) ∧
      seckey.length < 2 ^ 32
  | .signTransaction env .. => NewKeys k [env.before.seed, env.after.seed] w d
  | _ => True

@[inherit_doc CallKeeps]
def KeepsKeys (k : WalletPrims) (op : WalletOp) (s : WalletRun) : Prop :=
  (s.disk.contents k).size + 2 < 2 ^ 32 ∧
    match s.wallet, op with
    | none, .create load ensure _ =>
      load.readOk = true ∧ NewKeys k [ensure.seed] {} s.disk ∧
        ((∀ data ∈ s.disk.xmssState, isEncryptedRecord data = false) ∨
          (s.disk.contents k).isEmpty = true ∨ drawnKeys k [ensure.seed] = [])
    | none, _ => True
    | some w, op => w.signer.xmssKeys.size + 2 < 2 ^ 32 ∧ CallKeeps k w s.disk op

/-- A wallet is created over a record that it can load, that has no keys, or that stays as it is
until the wallet is unlocked. -/
theorem keepInv_create {d₀ : WalletDir} {seed : Bytes} {load : LoadEnv} (h : KeepDisk k d₀ d)
    (hroom : (d.contents k).size + 2 < 2 ^ 32) (hread : load.readOk = true)
    (hnew : NewKeys k [seed] {} d)
    (hrecord : (∀ data ∈ d.xmssState, isEncryptedRecord data = false) ∨
      (d.contents k).isEmpty = true ∨ drawnKeys k [seed] = []) :
    KeepInv k d₀ [seed] (CWallet.afterLoad k load d { mapMasterKeys := d.masterKey }) d := by
  have hbase : WalletBase k [seed] { mapMasterKeys := d.masterKey } d :=
    ⟨⟨rfl, .inl rfl⟩, soundKeys_empty, hnew⟩
  have hsize : (d.contents k).size + [seed].length < 2 ^ 32 := by
    rw [length_singleton]
    omega
  -- The new wallet has no keys, so it is in order if the record has none or it waits.
  have hempty : (∅ : Std.ExtTreeMap Bytes XMSSKeyEntry).size + [seed].length < 2 ^ 32 := by
    rw [length_singleton, Std.ExtTreeMap.size_empty]
    decide
  by_cases hplain : ∀ data ∈ d.xmssState, isEncryptedRecord data = false
  · exact KeepInv.load_of_readable hbase h hempty hsize hread (.inr hplain)
  rcases hrecord with hplain' | hnone | hdrawn
  · exact absurd hplain' hplain
  · have hcontents : d.contents k = ∅ := Std.ExtTreeMap.isEmpty_iff.mp hnone
    have hinv : KeepInv k d₀ [seed] { mapMasterKeys := d.masterKey } d :=
      ⟨hbase, h, hempty, .inl (holds_of_contents_empty hcontents)⟩
    exact hinv.load hsize load
  · have hmaster : d.masterKey.isSome = true := by
      rw [isSome_iff_ne_none]
      intro hnone
      exact hplain (h.plain hnone)
    have hlocked : CWallet.isLocked { mapMasterKeys := d.masterKey } = true :=
      and_eq_true_iff.mpr ⟨hmaster, rfl⟩
    have hinv : KeepInv k d₀ [seed] { mapMasterKeys := d.masterKey } d :=
      ⟨hbase, h, hempty, .inr ⟨rfl, hlocked, hdrawn⟩⟩
    exact hinv.load hsize load

/-- The condition is what the invariant asks for. -/
theorem stepOk_of_keepsKeys {d₀ : WalletDir} {op : WalletOp} {s : WalletRun}
    (h : RunInv (KeepDisk k d₀) (KeepInv k d₀ []) s) (hop : KeepsKeys k op s) :
    StepOk k (KeepDisk k d₀) (KeepInv k d₀) op s := by
  obtain ⟨d, wallet⟩ := s
  obtain ⟨hdisk, hwallet⟩ := h
  obtain ⟨hroom, hop⟩ := hop
  cases wallet with
  | none =>
    cases op with
    | create load ensure crash =>
      exact ⟨fun l => ⟨hdisk.plain, hdisk.kept⟩,
        keepInv_create hdisk hroom hop.1 hop.2.1 hop.2.2⟩
    | _ => trivial
  | some w =>
    have hw : KeepInv k d₀ [] w d := hwallet w rfl
    obtain ⟨hsize, hop⟩ := hop
    have hload : (d.contents k).size + ([] : List Bytes).length < 2 ^ 32 :=
      Nat.lt_of_le_of_lt (Nat.add_le_add_left (Nat.zero_le 2) _) hroom
    -- Up to two keys may be drawn by a wallet with the keys of the record.
    have hdraw : ∀ {seeds}, seeds.length ≤ 2 → NewKeys k seeds w d → Holds k w d →
        KeepInv k d₀ seeds w d :=
      fun hlen hnew hholds => ⟨⟨hw.base.keyed, hw.base.sound, hnew⟩, hw.disk,
        Nat.lt_of_le_of_lt (Nat.add_le_add_left hlen _) hsize, .inl hholds⟩
    have hgenerate : ∀ seed, NewKeys k [seed] w d → Holds k w d ∨ drawnKeys k [seed] = [] →
        KeepInv k d₀ [seed] w d := by
      intro seed hnew hseed
      rcases hw.holds with hholds | ⟨hempty, hlocked, -⟩
      · exact hdraw (by simp) hnew hholds
      rcases hseed with hholds | hdrawn
      · exact hdraw (by simp) hnew hholds
      · exact ⟨⟨hw.base.keyed, hw.base.sound, hnew⟩, hw.disk,
          Nat.lt_of_le_of_lt (Nat.add_le_add_left (by simp) _) hsize,
          .inr ⟨hempty, hlocked, hdrawn⟩⟩
    have hadd : ∀ behind pubkey seckey s, Holds k w d →
        (∀ entry ∈ w.signer.xmssKeys[pubkey]?, entry.sk = seckey) → seckey.length < 2 ^ 32 →
          w.signer.addXMSSKey k.crypto behind pubkey seckey = some s →
            KeepInv k d₀ [] { w with signer := s } d :=
      fun behind pubkey seckey s hholds hsame hlen h => hw.add hholds (by omega) hsame hlen h
    cases op with
    | encryptWallet env crash =>
      intro hplain
      have hencrypt := hw.encrypt hplain env.masterKey
      refine ⟨hop, fun l => ⟨hencrypt.disk.plain, hencrypt.disk.kept⟩, ?_⟩
      dsimp only
      split
      · refine hencrypt.load ?_ env.load
        rw [contents_newKey k hw.disk.plain (hw.base.keyed.masterKey_of_plain hplain)]
        exact hload
      · exact hencrypt
    | unlock persist load crash =>
      intro key hkey
      have hkeyed := hw.base.keyed.unlocked hkey
      have hbase := @WalletBase.reopen k [] w d hw.base { w with vMasterKey := some key } rfl hkeyed
      dsimp only
      split
      · rename_i hempty
        exact KeepInv.load_of_readable hbase hw.disk hw.room hload (hop hempty)
          (.inl (hkey.symm.trans hw.base.keyed.map))
      · rename_i hempty
        exact ⟨hbase, hw.disk, hw.room, .inl (hw.holds_of_keys (eq_false_iff.mpr hempty))⟩
    | getnewxmssaddress env crash => exact hgenerate env.seed hop.1 hop.2
    | generateKey io seed crash => exact hgenerate seed hop.1 hop.2
    | importxmsskey env behind pubkey seckey crash =>
      exact fun s h => hadd behind pubkey seckey s hop.1 hop.2.1 hop.2.2 h
    | addXMSSKey behind pubkey seckey =>
      exact fun s h => hadd behind pubkey seckey s hop.1 hop.2.1 hop.2.2 h
    | signTransaction env managers calls complete crash =>
      exact fun hlocked => hdraw (by simp) hop (hw.holds_of_unlocked hlocked)
    | loadState env crash => exact hw.load hload env
    | create | lock | commitTransaction | signXMSS | exit => trivial

/-- A secret key that is in the record at some point of a run of such calls is in it at every later
point. -/
theorem secrets_kept {k : WalletPrims} (hspec : CrypterSpec k.crypter) (hx : KeypairLoads k.keys)
    {ops ops' : List WalletOp} {s t : WalletRun}
    (hops : StepsMeet (WalletRun.step k) (KeepsKeys k) (ops ++ ops') ⟨WalletDir.empty, none⟩)
    (hs : runOps (WalletRun.step k) ops ⟨WalletDir.empty, none⟩ = some s)
    (ht : runOps (WalletRun.step k) ops' s = some t) {pubkey sk : Bytes}
    (hsk : s.disk.Contains k pubkey sk) : t.disk.Contains k pubkey sk := by
  obtain ⟨hops, hops'⟩ := stepsMeet_append hops hs
  have hkeep : ∀ d₀ op s s', RunInv (KeepDisk k d₀) (KeepInv k d₀ []) s → KeepsKeys k op s →
      step k op s = some s' → RunInv (KeepDisk k d₀) (KeepInv k d₀ []) s' :=
    fun d₀ op s s' h hop hstep =>
      (keepRules hspec hx d₀).step_kept h (stepOk_of_keepsKeys h hop) hstep
  -- The first part of the run brings the wallet in order, the second is compared with its end.
  have hstart : RunInv (KeepDisk k WalletDir.empty) (KeepInv k WalletDir.empty [])
      ⟨WalletDir.empty, none⟩ := by
    refine ⟨⟨?_, fun _ _ h => h⟩, by simp⟩
    intro _ data hdata
    cases hdata
  have hmid := runOps_invariant (hkeep WalletDir.empty) hstart hops hs
  have hbase : RunInv (KeepDisk k s.disk) (KeepInv k s.disk []) s :=
    ⟨⟨hmid.1.plain, fun _ _ h => h⟩, fun w hw => (hmid.2 w hw).rebase⟩
  exact (runOps_invariant (hkeep s.disk) hbase hops' ht).1.kept pubkey sk hsk

/-! ### Restarts of an encrypted wallet -/

instance (k : WalletPrims) (d : WalletDir) (pubkey sk : Bytes) : Decidable (d.Contains k pubkey sk) :=
  inferInstanceAs (Decidable (_ = _))

instance (k : WalletPrims) (w : CWallet) (d : WalletDir) : Decidable (Holds k w d) :=
  inferInstanceAs (Decidable (∀ p ∈ (d.contents k).toList, _ = _))

instance (k : WalletPrims) (w : CWallet) (d : WalletDir) : ∀ op, Decidable (CallKeeps k w d op)
  | .encryptWallet .. => inferInstanceAs (Decidable (_ = _))
  | .unlock .. => inferInstanceAs (Decidable (_ → _))
  | .getnewxmssaddress .. | .generateKey .. => inferInstanceAs (Decidable (_ ∧ _))
  | .importxmsskey _ _ pubkey seckey _ | .addXMSSKey _ pubkey seckey =>
    inferInstanceAs (Decidable (_ ∧ (∀ entry ∈ w.signer.xmssKeys[pubkey]?, _ = seckey) ∧ _))
  | .signTransaction .. => inferInstanceAs (Decidable (NewKeys ..))
  | .create .. | .lock | .loadState .. | .commitTransaction .. | .signXMSS .. | .exit =>
    .isTrue trivial

instance (k : WalletPrims) : ∀ op s, Decidable (KeepsKeys k op s)
  | .create load ensure _, ⟨d, none⟩ =>
    inferInstanceAs (Decidable (_ ∧ load.readOk = true ∧ NewKeys k [ensure.seed] {} d ∧
      ((∀ data ∈ d.xmssState, isEncryptedRecord data = false) ∨ _ ∨ _)))
  | op, ⟨d, some w⟩ => inferInstanceAs (Decidable (_ ∧ _ ∧ CallKeeps k w d op))
  | .encryptWallet .., ⟨_, none⟩ | .lock, ⟨_, none⟩ | .unlock .., ⟨_, none⟩
  | .getnewxmssaddress .., ⟨_, none⟩ | .importxmsskey .., ⟨_, none⟩
  | .signTransaction .., ⟨_, none⟩ | .commitTransaction .., ⟨_, none⟩
  | .generateKey .., ⟨_, none⟩ | .signXMSS .., ⟨_, none⟩ | .addXMSSKey .., ⟨_, none⟩
  | .loadState .., ⟨_, none⟩ | .exit, ⟨_, none⟩ => inferInstanceAs (Decidable (_ ∧ True))

/-- The wallet is created with the sample key and encrypted. -/
def encryptedOps : List WalletOp :=
  [createOp sampleSeed,
    .encryptWallet { masterKey := [1, 2, 3], persist := samplePersist, load := sampleLoad } 100]

/-- The wallet is restarted, with a key from these random bytes, and unlocked. Then it gets another
key. -/
def restartOps (seed : Bytes) : List WalletOp :=
  [.exit, createOp seed, .unlock samplePersist sampleLoad 100,
    .getnewxmssaddress (sampleKeyEnv (List.replicate 96 9)) 100]

theorem secrets_kept_restartOps :
    ∃ s t, runOps (WalletRun.step sampleWallet) encryptedOps ⟨WalletDir.empty, none⟩ = some s ∧
      runOps (WalletRun.step sampleWallet) (restartOps []) s = some t ∧
      s.disk.Contains sampleWallet samplePubkey sampleSk ∧
      t.disk.Contains sampleWallet samplePubkey sampleSk := by
  have hkeys : (runOps (step sampleWallet) encryptedOps ⟨WalletDir.empty, none⟩).any
      (fun s => s.disk.Contains sampleWallet samplePubkey sampleSk ∧
        (runOps (step sampleWallet) (restartOps []) s).isSome) = true := by
    decide +kernel
  obtain ⟨s, hs, hkeys⟩ := (any_eq_true _ _).mp hkeys
  obtain ⟨hsk, hsome⟩ := of_decide_eq_true hkeys
  obtain ⟨t, ht⟩ := isSome_iff_exists.mp hsome
  have hops : StepsMeet (step sampleWallet) (KeepsKeys sampleWallet)
      (encryptedOps ++ restartOps []) ⟨WalletDir.empty, none⟩ := by
    decide +kernel
  exact ⟨s, t, hs, ht, hsk,
    secrets_kept crypterSpec_sampleCrypter keypairLoads_sampleKeys hops hs ht hsk⟩

/-- `Create` generates a key for the locked wallet, and `Unlock` writes it over the record. -/
theorem restart_loses_secret :
    ∃ s t, runOps (WalletRun.step sampleWallet) encryptedOps ⟨WalletDir.empty, none⟩ = some s ∧
      runOps (WalletRun.step sampleWallet) (restartOps (List.replicate 96 8)) s = some t ∧
      s.disk.Contains sampleWallet samplePubkey sampleSk ∧
      ¬ t.disk.Contains sampleWallet samplePubkey sampleSk := by
  have hkeys : (runOps (step sampleWallet) encryptedOps ⟨WalletDir.empty, none⟩).any
      (fun s => s.disk.Contains sampleWallet samplePubkey sampleSk ∧
        (runOps (step sampleWallet) (restartOps (List.replicate 96 8)) s).any
          (fun t => ¬ t.disk.Contains sampleWallet samplePubkey sampleSk) = true) = true := by
    decide +kernel
  obtain ⟨s, hs, hkeys⟩ := (any_eq_true _ _).mp hkeys
  obtain ⟨hbefore, hkeys⟩ := of_decide_eq_true hkeys
  obtain ⟨t, ht, hafter⟩ := (any_eq_true _ _).mp hkeys
  exact ⟨s, t, hs, ht, hbefore, of_decide_eq_true hafter⟩

end AssentianPQE
