import AssentianPQE.SampleWallet

/-!
# `AssentianPQE.Proofs.OneTimeKeys`: a key of the wallet signs once

`SignXMSS` refuses a native key that is retired. The flag is in memory and in the record, and the
ledger only knows the next leaf, so a key can sign again after its flag is lost: when the record is
loaded before the flag was written to it, or when the key is imported over itself, which makes it a
key of the user.

`OneUse` is a condition on the calls of a run that rules this out, and `signed_once` is the result
for runs with it. `key_signs_twice` has two runs without it.
-/

set_option autoImplicit false

namespace AssentianPQE

open Lib List WalletRun

/-- `SignXMSS` has returned true at most once for every key that `GenerateKey` created. -/
def SignedOnce (d : WalletDir) : Prop :=
  ∀ pubkey, .created pubkey ∈ d.log → d.log.count (.signed pubkey) ≤ 1

/-- The events since the record was last written. -/
def sincePersist (log : List KeyEvent) : List KeyEvent :=
  log.takeWhile fun e => decide (e ≠ .persisted)

def KeyEvent.isSigned : KeyEvent → Bool
  | .signed _ => true
  | _ => false

/-- No key has signed since the record was last written. -/
def Saved (d : WalletDir) : Prop :=
  ∀ e ∈ sincePersist d.log, e.isSigned = false

theorem mem_sincePersist_cons {e e' : KeyEvent} (hne : e' ≠ .persisted) {log : List KeyEvent} :
    e ∈ sincePersist (e' :: log) ↔ e = e' ∨ e ∈ sincePersist log := by
  have hkeep : (fun e : KeyEvent => decide (e ≠ .persisted)) e' = true := decide_eq_true hne
  rw [sincePersist, takeWhile_cons, if_pos hkeep, mem_cons]
  rfl

/-! ### The invariant -/

/-- The disk: a created key has signed at most once, and in the record it is native, and retired
if it has signed before the record was last written. -/
structure OnceDisk (k : WalletPrims) (d : WalletDir) : Prop where
  once : SignedOnce d
  plain : PlainRecord d
  record : ∀ pubkey entry, (d.contents k)[pubkey]? = some entry → .created pubkey ∈ d.log →
    entry.imported = false ∧
      (.signed pubkey ∈ d.log → .signed pubkey ∈ sincePersist d.log ∨ entry.retired = true)

/-- In memory a created key is native, and retired if it has signed. -/
def FlagsMatch (keys : Std.ExtTreeMap Bytes XMSSKeyEntry) (log : List KeyEvent) : Prop :=
  ∀ pubkey entry, keys[pubkey]? = some entry → .created pubkey ∈ log →
    entry.imported = false ∧ (.signed pubkey ∈ log → entry.retired = true)

structure OnceInv (k : WalletPrims) (seeds : List Bytes) (w : CWallet) (d : WalletDir) : Prop where
  base : WalletBase k seeds w d
  disk : OnceDisk k d
  memory : FlagsMatch w.signer.xmssKeys d.log

namespace OnceInv

variable {k : WalletPrims} {seed : Bytes} {seeds : List Bytes} {w : CWallet} {d : WalletDir}

/-- A new key has not signed, and is not in the record. -/
theorem generate (hx : KeypairLoads k.keys) (h : OnceInv k (seed :: seeds) w d) {pubkey sk : Bytes}
    (hkey : generatedKey k.keys seed = some (pubkey, sk)) :
    OnceInv k seeds { w with signer := w.signer.insert k.crypto pubkey { sk := sk } }
      { d with log := .created pubkey :: d.log } := by
  have hnew : ¬ Known k w d pubkey := h.base.new.head hkey
  have hunsigned : .signed pubkey ∉ d.log := fun hmem => hnew (.inr (.inr (.inr hmem)))
  -- What is said about a key in the log is said about the others as before.
  have hsigned : ∀ pubkey', KeyEvent.signed pubkey' ∈ KeyEvent.created pubkey :: d.log →
      .signed pubkey' ∈ d.log := by
    intro pubkey' hmem
    rcases mem_cons.mp hmem with heq | hmem
    · cases heq
    · exact hmem
  have hcreated : ∀ pubkey', KeyEvent.created pubkey' ∈ KeyEvent.created pubkey :: d.log →
      pubkey' = pubkey ∨ .created pubkey' ∈ d.log := by
    intro pubkey' hmem
    rcases mem_cons.mp hmem with heq | hmem
    · exact .inl (KeyEvent.created.inj heq)
    · exact .inr hmem
  refine ⟨h.base.generate hx hkey, ⟨?_, h.disk.plain, ?_⟩, ?_⟩
  · intro pubkey' hmem
    show (KeyEvent.created pubkey :: d.log).count (.signed pubkey') ≤ 1
    rw [count_cons_of_ne (by simp)]
    rcases hcreated pubkey' hmem with rfl | hmem
    · rw [count_eq_zero_of_not_mem hunsigned]
      omega
    · exact h.disk.once pubkey' hmem
  · intro pubkey' entry hentry hmem
    have hold : (d.contents k)[pubkey']? = some entry := hentry
    rcases hcreated pubkey' hmem with heq | hmem
    · refine absurd (.inr (.inl ?_)) hnew
      rw [← heq, Std.ExtTreeMap.mem_iff_isSome_getElem?, hold]
      rfl
    · obtain ⟨hnative, hretired⟩ := h.disk.record pubkey' entry hold hmem
      refine ⟨hnative, fun hs => ?_⟩
      rcases hretired (hsigned pubkey' hs) with hsince | hretired
      · exact .inl ((mem_sincePersist_cons (by simp)).mpr (.inr hsince))
      · exact .inr hretired
  · intro pubkey' entry hentry hmem
    rcases getElem?_insert_cases hentry with ⟨rfl, rfl⟩ | ⟨hne, hentry⟩
    · exact ⟨rfl, fun hs => absurd (hsigned _ hs) hunsigned⟩
    · rcases hcreated pubkey' hmem with heq | hmem
      · exact absurd heq hne
      · obtain ⟨hnative, hretired⟩ := h.memory pubkey' entry hentry hmem
        exact ⟨hnative, fun hs => hretired (hsigned pubkey' hs)⟩

/-- A created key that signs has not signed before. -/
theorem sign (h : OnceInv k seeds w d) {pubkey : Bytes} {entry : XMSSKeyEntry} (leaf : UInt32)
    (hentry : w.signer.xmssKeys[pubkey]? = some entry)
    (hfresh : entry.imported = true ∨ entry.retired = false) :
    OnceInv k seeds { w with signer := w.signer.retire pubkey entry leaf }
      { d with log := .signed pubkey :: d.log } := by
  have hunsigned : .created pubkey ∈ d.log → .signed pubkey ∉ d.log := by
    intro hcreated hsigned
    obtain ⟨hnative, hretired⟩ := h.memory pubkey entry hentry hcreated
    rcases hfresh with himported | hfresh
    · rw [hnative] at himported
      cases himported
    · rw [hretired hsigned] at hfresh
      cases hfresh
  have hcreated : ∀ pubkey', KeyEvent.created pubkey' ∈ KeyEvent.signed pubkey :: d.log →
      .created pubkey' ∈ d.log := by
    intro pubkey' hmem
    rcases mem_cons.mp hmem with heq | hmem
    · cases heq
    · exact hmem
  have hsigned : ∀ pubkey', KeyEvent.signed pubkey' ∈ KeyEvent.signed pubkey :: d.log →
      pubkey' = pubkey ∨ .signed pubkey' ∈ d.log := by
    intro pubkey' hmem
    rcases mem_cons.mp hmem with heq | hmem
    · exact .inl (KeyEvent.signed.inj heq)
    · exact .inr hmem
  refine ⟨h.base.sign leaf hentry, ⟨?_, h.disk.plain, ?_⟩, ?_⟩
  · intro pubkey' hmem
    have hold := hcreated pubkey' hmem
    show (KeyEvent.signed pubkey :: d.log).count (.signed pubkey') ≤ 1
    by_cases heq : pubkey' = pubkey
    · rw [heq] at hold ⊢
      rw [count_cons_self, count_eq_zero_of_not_mem (hunsigned hold)]
    · rw [count_cons_of_ne fun hc => heq (KeyEvent.signed.inj hc).symm]
      exact h.disk.once pubkey' hold
  · intro pubkey' entry' hentry' hmem
    obtain ⟨hnative, hretired⟩ := h.disk.record pubkey' entry' hentry' (hcreated pubkey' hmem)
    refine ⟨hnative, fun hs => ?_⟩
    rcases hsigned pubkey' hs with rfl | hs
    · exact .inl ((mem_sincePersist_cons (by simp)).mpr (.inl rfl))
    · rcases hretired hs with hsince | hretired
      · exact .inl ((mem_sincePersist_cons (by simp)).mpr (.inr hsince))
      · exact .inr hretired
  · intro pubkey' entry' hentry' hmem
    obtain ⟨old, hold, -, himported, hkeep, hset⟩ := WalletBase.getElem?_retire hentry hentry'
    obtain ⟨hnative, hretired⟩ := h.memory pubkey' old hold (hcreated pubkey' hmem)
    refine ⟨himported.trans hnative, fun hs => ?_⟩
    rcases hsigned pubkey' hs with heq | hs
    · exact hset heq (himported.trans hnative)
    · exact hkeep (hretired hs)

/-- The flags in memory are written. -/
theorem persist (hspec : CrypterSpec k.crypter) (h : OnceInv k seeds w d) {iv : Uint256}
    {data : Bytes} (hdata : w.record k.crypter iv = some data) :
    OnceInv k seeds w { d with xmssState := some data, log := .persisted :: d.log } := by
  have hlog : ∀ e : KeyEvent, e ≠ .persisted → e ∈ KeyEvent.persisted :: d.log → e ∈ d.log := by
    intro e hne hmem
    exact (mem_cons.mp hmem).resolve_left hne
  have hmemory : FlagsMatch w.signer.xmssKeys (.persisted :: d.log) := by
    intro pubkey entry hentry hcreated
    obtain ⟨hnative, hretired⟩ := h.memory pubkey entry hentry (hlog _ (by simp) hcreated)
    exact ⟨hnative, fun hs => hretired (hlog _ (by simp) hs)⟩
  refine ⟨h.base.persist hspec hdata, ⟨?_, .persist h.base.keyed hdata _, ?_⟩, hmemory⟩
  · intro pubkey hmem
    show (KeyEvent.persisted :: d.log).count (.signed pubkey) ≤ 1
    rw [count_cons_of_ne (by simp)]
    exact h.disk.once pubkey (hlog _ (by simp) hmem)
  · intro pubkey entry hentry hcreated
    obtain ⟨hnative, hretired⟩ :=
      hmemory pubkey entry (h.base.mem_of_contents_persist hspec hdata hentry) hcreated
    exact ⟨hnative, fun hs => .inr (hretired hs)⟩

/-- A record in which every flag is set can be loaded. -/
theorem load (h : OnceInv k seeds w d) (hsaved : Saved d) (env : LoadEnv) :
    OnceInv k seeds (w.afterLoad k env d) d := by
  refine ⟨h.base.load env, h.disk, ?_⟩
  rcases afterLoad_signer h.base.keyed env with hs | hs
  · rw [hs]
    exact h.memory
  rw [hs]
  intro pubkey entry hentry hcreated
  obtain ⟨hnative, hretired⟩ := h.disk.record pubkey entry hentry hcreated
  refine ⟨hnative, fun hsigned => (hretired hsigned).resolve_left fun hsince => ?_⟩
  exact absurd (hsaved _ hsince) (by simp [KeyEvent.isSigned])

/-- The keys of the wallet are as before, with another state of the lock. -/
theorem reopen (h : OnceInv k seeds w d) {w' : CWallet} (hs : w'.signer = w.signer)
    (hkeyed : Keyed w' d) : OnceInv k seeds w' d :=
  ⟨h.base.reopen hs hkeyed, h.disk, by rw [hs]; exact h.memory⟩

theorem lock (h : OnceInv k seeds w d) : OnceInv k seeds w.lock d := by
  refine h.reopen ?_ h.base.keyed.lock
  unfold CWallet.lock
  split <;> rfl

theorem encrypt (h : OnceInv k seeds w d) (hcrypted : w.isCrypted = false) (key : Bytes) :
    OnceInv k seeds { w with mapMasterKeys := some key, vMasterKey := some key }
      { d with masterKey := some key } := by
  have hcontents := contents_newKey k h.disk.plain (h.base.keyed.masterKey_of_plain hcrypted) key
  refine ⟨h.base.encrypt h.disk.plain hcrypted key, ⟨h.disk.once, ?_, ?_⟩, h.memory⟩
  · intro hnone
    cases hnone
  · rw [hcontents]
    exact h.disk.record

/-- A key that was not created here is added by hand. -/
theorem add (h : OnceInv k seeds w d) {behind pubkey seckey : Bytes} {s : CXMSSSigner}
    (hcreated : .created pubkey ∉ d.log) (hsize : seckey.length < 2 ^ 32)
    (hadd : w.signer.addXMSSKey k.crypto behind pubkey seckey = some s) :
    OnceInv k [] { w with signer := s } d := by
  refine ⟨h.base.add hsize hadd, h.disk, ?_⟩
  obtain ⟨-, -, rfl⟩ := addXMSSKey_eq_some hadd
  intro pubkey' entry hentry hmem
  rcases getElem?_insert_cases hentry with ⟨rfl, -⟩ | ⟨-, hentry⟩
  · exact absurd hmem hcreated
  · exact h.memory pubkey' entry hentry hmem

end OnceInv

theorem onceRules {k : WalletPrims} (hspec : CrypterSpec k.crypter) (hx : KeypairLoads k.keys) :
    WalletRules k (OnceDisk k) (OnceInv k) where
  died h := h.disk
  ledger _ h := ⟨⟨⟨h.base.keyed.map, h.base.keyed.opened⟩, h.base.sound, h.base.new⟩,
    ⟨h.disk.once, h.disk.plain, h.disk.record⟩, h.memory⟩
  skip h := ⟨⟨h.base.keyed, h.base.sound, h.base.new.skip⟩, h.disk, h.memory⟩
  generate h hkey := h.generate hx hkey
  sign leaf h hentry hfresh := h.sign leaf hentry hfresh
  persist h hdata := h.persist hspec hdata
  lock h := h.lock

/-! ### Runs -/

/-- What the result needs of a call. A key that is drawn is a new one. The record is loaded only
when no key has signed since it was last written, and no key that was created here is added by
hand. The transaction of `EncryptWallet` begins, and a secret key has fewer than `2 ^ 32` bytes. -/
def CallOneUse (k : WalletPrims) (w : CWallet) (d : WalletDir) : WalletOp → Prop
  | .encryptWallet env _ => env.txnBegins = true ∧ (w.signer.xmssKeys.isEmpty = true → Saved d)
  | .unlock .. => w.signer.xmssKeys.isEmpty = true → Saved d
  | .getnewxmssaddress env _ => NewKeys k [env.seed] w d
  | .importxmsskey _ _ pubkey seckey _ | .addXMSSKey _ pubkey seckey =>
    .created pubkey ∉ d.log ∧ seckey.length < 2 ^ 32
  | .signTransaction env .. => NewKeys k [env.before.seed, env.after.seed] w d
  | .generateKey _ seed _ => NewKeys k [seed] w d
  | .loadState .. => Saved d
  | _ => True

@[inherit_doc CallOneUse]
def OneUse (k : WalletPrims) (op : WalletOp) (s : WalletRun) : Prop :=
  match s.wallet, op with
  | none, .create _ ensure _ => NewKeys k [ensure.seed] {} s.disk ∧ Saved s.disk
  | none, _ => True
  | some w, op => CallOneUse k w s.disk op

instance (d : WalletDir) : Decidable (Saved d) :=
  inferInstanceAs (Decidable (∀ e ∈ sincePersist d.log, e.isSigned = false))

instance (k : WalletPrims) (w : CWallet) (d : WalletDir) : ∀ op, Decidable (CallOneUse k w d op)
  | .encryptWallet .. => inferInstanceAs (Decidable (_ ∧ (_ → _)))
  | .unlock .. => inferInstanceAs (Decidable (_ → _))
  | .importxmsskey .. | .addXMSSKey .. => inferInstanceAs (Decidable (_ ∧ _))
  | .getnewxmssaddress .. | .signTransaction .. | .generateKey .. =>
    inferInstanceAs (Decidable (NewKeys ..))
  | .loadState .. => inferInstanceAs (Decidable (Saved d))
  | .create .. | .lock | .commitTransaction .. | .signXMSS .. | .exit => .isTrue trivial

instance (k : WalletPrims) : ∀ op s, Decidable (OneUse k op s)
  | .create .., ⟨_, none⟩ => inferInstanceAs (Decidable (_ ∧ _))
  | op, ⟨d, some w⟩ => inferInstanceAs (Decidable (CallOneUse k w d op))
  | .encryptWallet .., ⟨_, none⟩ | .lock, ⟨_, none⟩ | .unlock .., ⟨_, none⟩
  | .getnewxmssaddress .., ⟨_, none⟩ | .importxmsskey .., ⟨_, none⟩
  | .signTransaction .., ⟨_, none⟩ | .commitTransaction .., ⟨_, none⟩
  | .generateKey .., ⟨_, none⟩ | .signXMSS .., ⟨_, none⟩ | .addXMSSKey .., ⟨_, none⟩
  | .loadState .., ⟨_, none⟩ | .exit, ⟨_, none⟩ => .isTrue trivial

/-- A wallet that was just created has no keys. -/
theorem onceInv_create {k : WalletPrims} {seeds : List Bytes} {d : WalletDir} (h : OnceDisk k d)
    (hnew : NewKeys k seeds {} d) : OnceInv k seeds { mapMasterKeys := d.masterKey } d where
  base := ⟨⟨rfl, .inl rfl⟩, soundKeys_empty, hnew⟩
  disk := h
  memory := by
    intro pubkey entry hentry
    cases hentry

/-- The condition is what the invariant asks for. -/
theorem stepOk_of_oneUse {k : WalletPrims} {op : WalletOp} {s : WalletRun}
    (h : RunInv (OnceDisk k) (OnceInv k []) s) (hop : OneUse k op s) :
    StepOk k (OnceDisk k) (OnceInv k) op s := by
  obtain ⟨d, wallet⟩ := s
  obtain ⟨hdisk, hwallet⟩ := h
  cases wallet with
  | none =>
    cases op with
    | create load ensure crash =>
      exact ⟨fun l => ⟨hdisk.once, hdisk.plain, hdisk.record⟩,
        (onceInv_create hdisk hop.1).load hop.2 load⟩
    | _ => trivial
  | some w =>
    have hw : OnceInv k [] w d := hwallet w rfl
    -- Keys may be drawn if they are new.
    have hdraw : ∀ {seeds}, NewKeys k seeds w d → OnceInv k seeds w d :=
      fun hnew => ⟨⟨hw.base.keyed, hw.base.sound, hnew⟩, hw.disk, hw.memory⟩
    cases op with
    | create => trivial
    | encryptWallet env crash =>
      intro hplain
      have hencrypt := hw.encrypt hplain env.masterKey
      refine ⟨hop.1, fun l => ⟨hencrypt.disk.once, hencrypt.disk.plain, hencrypt.disk.record⟩, ?_⟩
      dsimp only
      split
      · rename_i hempty
        exact hencrypt.load (hop.2 hempty) env.load
      · exact hencrypt
    | unlock persist load crash =>
      intro key hkey
      have hopen := @OnceInv.reopen k [] w d hw { w with vMasterKey := some key } rfl
        (hw.base.keyed.unlocked hkey)
      dsimp only
      split
      · rename_i hempty
        exact hopen.load (hop hempty) load
      · exact hopen
    | getnewxmssaddress env crash => exact hdraw hop
    | importxmsskey env behind pubkey seckey crash => exact fun s hadd => hw.add hop.1 hop.2 hadd
    | addXMSSKey behind pubkey seckey => exact fun s hadd => hw.add hop.1 hop.2 hadd
    | signTransaction env managers calls complete crash => exact fun _ => hdraw hop
    | generateKey io seed crash => exact hdraw hop
    | loadState env crash => exact hw.load hop env
    | lock | commitTransaction | signXMSS | exit => trivial

/-- In every run of such calls a created key signs at most once. -/
theorem signed_once {k : WalletPrims} (hspec : CrypterSpec k.crypter) (hx : KeypairLoads k.keys)
    {ops : List WalletOp} {s : WalletRun}
    (hops : StepsMeet (WalletRun.step k) (OneUse k) ops ⟨WalletDir.empty, none⟩)
    (hrun : runOps (WalletRun.step k) ops ⟨WalletDir.empty, none⟩ = some s) : SignedOnce s.disk := by
  have hstart : RunInv (OnceDisk k) (OnceInv k []) ⟨WalletDir.empty, none⟩ := by
    refine ⟨⟨?_, ?_, ?_⟩, by simp⟩
    · intro pubkey hmem
      cases hmem
    · intro _ data hdata
      cases hdata
    · intro pubkey entry _ hmem
      cases hmem
  have hinv : RunInv (OnceDisk k) (OnceInv k []) s :=
    runOps_invariant (fun op s s' h hop hstep =>
      (onceRules hspec hx).step_kept h (stepOk_of_oneUse h hop) hstep) hstart hops hrun
  exact hinv.1.once

/-! ### Runs on the sample key -/

/-- The key is created, it signs a transaction, the process exits, and the key is tried again. -/
def savedOps : List WalletOp :=
  [createOp sampleSeed,
    .signTransaction ⟨sampleKeyEnv [], samplePersist, sampleKeyEnv (List.replicate 96 8)⟩ false
      [sampleCall] true 100,
    .exit, createOp [], .signXMSS sampleCall 100]

theorem signed_once_savedOps :
    ∃ s, runOps (WalletRun.step sampleWallet) savedOps ⟨WalletDir.empty, none⟩ = some s ∧
      KeyEvent.created samplePubkey ∈ s.disk.log ∧
      s.disk.log.count (KeyEvent.signed samplePubkey) = 1 ∧ SignedOnce s.disk := by
  have hlog : (runOps (step sampleWallet) savedOps ⟨WalletDir.empty, none⟩).any
      (fun s => KeyEvent.created samplePubkey ∈ s.disk.log ∧
        s.disk.log.count (KeyEvent.signed samplePubkey) = 1) = true := by
    decide +kernel
  obtain ⟨s, hrun, hs⟩ := (Option.any_eq_true _ _).mp hlog
  have hops : StepsMeet (step sampleWallet) (OneUse sampleWallet) savedOps
      ⟨WalletDir.empty, none⟩ := by
    decide +kernel
  exact ⟨s, hrun, (of_decide_eq_true hs).1, (of_decide_eq_true hs).2,
    signed_once crypterSpec_sampleCrypter keypairLoads_sampleKeys hops hrun⟩

/-- The key signs, is added by hand with its own secret key, and signs again. -/
def importedOps : List WalletOp :=
  [createOp [], .generateKey sampleIo sampleSeed 100, .signXMSS sampleCall 100,
    .addXMSSKey [] samplePubkey sampleSk, .signXMSS sampleCall 100]

/-- The key signs, the process exits before the record is written, and the key signs again. -/
def unsavedOps : List WalletOp :=
  [createOp sampleSeed, .signXMSS sampleCall 100, .exit, createOp [], .signXMSS sampleCall 100]

theorem key_signs_twice :
    (∃ s, runOps (WalletRun.step sampleWallet) importedOps ⟨WalletDir.empty, none⟩ = some s ∧
      ¬ SignedOnce s.disk) ∧
    ∃ s, runOps (WalletRun.step sampleWallet) unsavedOps ⟨WalletDir.empty, none⟩ = some s ∧
      ¬ SignedOnce s.disk := by
  have hlogs : ∀ ops ∈ [importedOps, unsavedOps],
      (runOps (step sampleWallet) ops ⟨WalletDir.empty, none⟩).any
        (fun s => KeyEvent.created samplePubkey ∈ s.disk.log ∧
          s.disk.log.count (KeyEvent.signed samplePubkey) = 2) = true := by
    decide +kernel
  have htwice : ∀ ops ∈ [importedOps, unsavedOps],
      ∃ s, runOps (step sampleWallet) ops ⟨WalletDir.empty, none⟩ = some s ∧
        ¬ SignedOnce s.disk := by
    intro ops hops
    obtain ⟨s, hrun, hs⟩ := (Option.any_eq_true _ _).mp (hlogs ops hops)
    obtain ⟨hcreated, htwo⟩ := of_decide_eq_true hs
    refine ⟨s, hrun, fun honce => ?_⟩
    have hle := honce samplePubkey hcreated
    omega
  exact ⟨htwice _ mem_cons_self, htwice _ (mem_cons_of_mem _ mem_cons_self)⟩

end AssentianPQE
