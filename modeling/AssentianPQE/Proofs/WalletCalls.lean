import AssentianPQE.Proofs.SignerCalls
import AssentianPQE.Wallet.Wallet

/-!
# `AssentianPQE.Proofs.WalletCalls`: what a call of the wallet keeps

The calls of `CWallet` are made of a few steps: a key is generated, a key signs, the record is
written or loaded, the wallet is locked. `WalletRules` lists what an invariant has to survive, and
every call is cut into these steps once: `generateAndPersist_kept`, `signTransaction_kept`,
`unlock_kept` and so on hold for any invariant with these rules.

`WalletDir.contents` is what the record has in it, for the master key of the database.
-/

set_option autoImplicit false

namespace AssentianPQE

open Lib Durable Option WalletRun

/-! ### The ledger of a datadir -/

variable {α : Type} {d : WalletDir}

/-- A program on the ledger changes nothing else. -/
theorem WalletDir.onLedger_ensures {x : Durable LedgerDir α} {P : LedgerDir → Option α → Prop}
    (h : x.Ensures d.ledger P) :
    (WalletDir.onLedger x).Ensures d fun d' r => ∃ l, d' = { d with ledger := l } ∧ P l r :=
  ensures_on h fun l _ hP => ⟨l, rfl, hP⟩

/-! ### Loading -/

/-- The wallet that `LoadXMSSStateIfPossible` returns. -/
def CWallet.afterLoad (k : WalletPrims) (env : LoadEnv) (d : WalletDir) (w : CWallet) : CWallet :=
  match (if env.readOk then d.xmssState else none).bind (openRecord k.crypter w.vMasterKey) with
  | none => w
  | some plain => { w with signer := (w.signer.loaded k.crypto plain).2 }

theorem CWallet.load_ensures (k : WalletPrims) (env : LoadEnv) (w : CWallet) (d : WalletDir) :
    (w.loadXMSSStateIfPossible k env).Ensures d fun d' r =>
      ∃ l, d' = { d with ledger := l } ∧ ∀ w', r = some w' → w' = w.afterLoad k env d := by
  unfold CWallet.loadXMSSStateIfPossible CWallet.afterLoad
  refine ensures_read_bind ?_
  cases hdata : (if env.readOk then d.xmssState else none) with
  | none => exact ensures_pure ⟨d.ledger, rfl, fun w' h => (some.inj h).symm⟩
  | some data =>
    show Durable.Ensures (match openRecord k.crypter w.vMasterKey data with
      | none => pure w
      | some plain => _) d _
    rw [bind_some]
    cases hopen : openRecord k.crypter w.vMasterKey data with
    | none => exact ensures_pure ⟨d.ledger, rfl, fun w' h => (some.inj h).symm⟩
    | some plain =>
      refine ensures_bind (WalletDir.onLedger_ensures
        (CXMSSSigner.loadState_ensures k.crypto env.io plain w.signer d.ledger)) ?_ ?_
      · rintro d' ⟨l, rfl, -⟩
        exact ⟨l, rfl, by simp⟩
      · rintro d' ⟨ok, signer⟩ ⟨l, rfl, -, hout⟩
        refine ensures_pure ⟨l, rfl, fun w' h => ?_⟩
        show w' = { w with signer := (w.signer.loaded k.crypto plain).2 }
        rw [← hout _ rfl]
        exact (some.inj h).symm

/-! ### Rules for invariants -/

/-- What an invariant has to survive. `Inv seeds w d` is about a wallet that may still draw a key
from each of `seeds`. `Disk d` is what is left of it when the process dies. -/
structure WalletRules (k : WalletPrims) (Disk : WalletDir → Prop)
    (Inv : List Bytes → CWallet → WalletDir → Prop) : Prop where
  died : ∀ {seeds w d}, Inv seeds w d → Disk d
  ledger : ∀ {seeds w d} l, Inv seeds w d → Inv seeds w { d with ledger := l }
  skip : ∀ {seed seeds w d}, Inv (seed :: seeds) w d → Inv seeds w d
  generate : ∀ {seed seeds w d pubkey sk}, Inv (seed :: seeds) w d →
    generatedKey k.keys seed = some (pubkey, sk) →
      Inv seeds { w with signer := w.signer.insert k.crypto pubkey { sk := sk } }
        { d with log := .created pubkey :: d.log }
  sign : ∀ {seeds w d pubkey entry} leaf, Inv seeds w d → w.signer.xmssKeys[pubkey]? = some entry →
    (entry.imported = true ∨ entry.retired = false) →
      Inv seeds { w with signer := w.signer.retire pubkey entry leaf }
        { d with log := .signed pubkey :: d.log }
  persist : ∀ {seeds w d iv data}, Inv seeds w d → w.record k.crypter iv = some data →
    Inv seeds w { d with xmssState := some data, log := .persisted :: d.log }
  lock : ∀ {seeds w d}, Inv seeds w d → Inv seeds w.lock d

/-- The end of a call: the process has died, or the invariant holds. -/
def Kept (Disk : WalletDir → Prop) (Inv : CWallet → WalletDir → Prop) (d : WalletDir)
    (r : Option CWallet) : Prop :=
  Disk d ∧ ∀ w, r = some w → Inv w d

namespace WalletRules

variable {k : WalletPrims} {Disk : WalletDir → Prop}
  {Inv : List Bytes → CWallet → WalletDir → Prop} {seeds : List Bytes} {w : CWallet}
  {d : WalletDir}

section
variable (R : WalletRules k Disk Inv)
include R

theorem kept_some (h : Inv seeds w d) : Kept Disk (Inv seeds) d (some w) :=
  ⟨R.died h, fun _ hw' => some.inj hw' ▸ h⟩

/-- The record is written, or not. -/
theorem persist_ensures (env : PersistEnv) (h : Inv seeds w d) :
    (w.persistXMSSState k env).Ensures d fun d' _ => Inv seeds w d' := by
  unfold CWallet.persistXMSSState
  split
  · exact ensures_pure h
  cases hrecord : w.record k.crypter env.iv with
  | none => exact ensures_pure h
  | some data =>
    dsimp only
    split
    · exact ensures_write h (R.persist h hrecord)
    · exact ensures_pure h

/-- A call that ends with a write of the record. -/
theorem persist_kept (env : PersistEnv) (h : Inv seeds w d) :
    Durable.Ensures (do w.persistXMSSState k env; pure w) d (Kept Disk (Inv seeds)) := by
  refine ensures_bind (R.persist_ensures env h) ?_ ?_
  · intro d' h'
    exact ⟨R.died h', by simp⟩
  · intro d' _ h'
    exact ensures_pure (R.kept_some h')

theorem generateKey_kept (io : Io) {seed : Bytes} (h : Inv (seed :: seeds) w d) :
    (w.generateKey k io seed).Ensures d fun d' r => Kept Disk (Inv seeds) d' (r.map Prod.snd) := by
  unfold CWallet.generateKey
  refine ensures_bind (WalletDir.onLedger_ensures
    (AssentianPQE.generateKey_ensures k.crypto k.keys io seed w.signer d.ledger)) ?_ ?_
  · rintro d' ⟨l, rfl, -⟩
    exact ⟨R.died (R.ledger l h), by simp⟩
  · rintro d' ⟨pubkey, signer⟩ ⟨l, rfl, -, hout⟩
    have hout := hout _ rfl
    unfold afterGenerate at hout
    cases hkey : generatedKey k.keys seed with
    | none =>
      rw [hkey] at hout
      cases hout
      exact ensures_pure (R.kept_some (R.skip (R.ledger l h)))
    | some p =>
      rw [hkey] at hout
      cases hout
      dsimp only
      split
      · rename_i hnil
        have hlen := length_generatedKey hkey
        rw [hnil] at hlen
        cases hlen
      · exact ensures_write_bind ⟨R.died (R.ledger l h), by simp⟩
          (ensures_pure (R.kept_some (R.generate (R.ledger l h) hkey)))

theorem generateAndPersist_kept (env : KeyEnv) (h : Inv (env.seed :: seeds) w d) :
    (w.generateAndPersist k env).Ensures d (Kept Disk (Inv seeds)) := by
  unfold CWallet.generateAndPersist
  refine ensures_bind (R.generateKey_kept env.io h) ?_ ?_
  · rintro d' ⟨hd', -⟩
    exact ⟨hd', by simp⟩
  rintro d' ⟨pubkey, w'⟩ ⟨-, hw'⟩
  dsimp only
  split
  · exact ensures_pure (R.kept_some (hw' w' rfl))
  · exact R.persist_kept env.persist (hw' w' rfl)

theorem ensure_kept (env : KeyEnv) (h : Inv (env.seed :: seeds) w d) :
    (w.ensureXMSSKeyAvailable k env).Ensures d (Kept Disk (Inv seeds)) := by
  unfold CWallet.ensureXMSSKeyAvailable
  split
  · exact R.generateAndPersist_kept env h
  · exact ensures_pure (R.kept_some (R.skip h))

/-- A key is added by hand. -/
theorem importxmsskey_kept (env : PersistEnv) {behind pubkey seckey : Bytes} (h : Inv seeds w d)
    (hadd : ∀ signer, w.signer.addXMSSKey k.crypto behind pubkey seckey = some signer →
      Inv seeds { w with signer := signer } d) :
    (w.importxmsskey k env behind pubkey seckey).Ensures d (Kept Disk (Inv seeds)) := by
  unfold CWallet.importxmsskey
  cases hs : w.signer.addXMSSKey k.crypto behind pubkey seckey with
  | none => exact ensures_pure (R.kept_some h)
  | some signer => exact R.persist_kept env (hadd signer hs)

theorem commitTransaction_kept (broadcast : Bool) (env : PersistEnv) (h : Inv seeds w d) :
    (w.commitTransaction k broadcast env).Ensures d (Kept Disk (Inv seeds)) := by
  unfold CWallet.commitTransaction
  split
  · exact ensures_pure (R.kept_some h)
  · exact R.persist_kept env h

/-! ### Signing -/

theorem call_kept (call : SignerCall) (h : Inv seeds w d) :
    (call.run k w.signer).Ensures d fun d' r =>
      Kept Disk (Inv seeds) d' (r.map fun s => { w with signer := s }) := by
  unfold SignerCall.run
  refine ensures_bind (WalletDir.onLedger_ensures
    (signXMSS_ensures k.keys (fun _ => rfl) call.hash call.pubkey w.signer d.ledger)) ?_ ?_
  · rintro d' ⟨l, rfl, -⟩
    exact ⟨R.died (R.ledger l h), by simp⟩
  · rintro d' ⟨out, s⟩ ⟨l, rfl, -, hafter⟩
    have hafter := hafter out s rfl
    cases out with
    | none =>
      -- A call that refuses leaves the signer as it is.
      have hs : s = w.signer := hafter
      subst hs
      exact ensures_pure (R.kept_some (R.ledger l h))
    | some out =>
      obtain ⟨entry, hentry, -, hfresh, rfl⟩ := hafter
      exact ensures_write_bind ⟨R.died (R.ledger l h), by simp⟩
        (ensures_pure (R.kept_some (R.sign out.2 (R.ledger l h) hentry hfresh)))

theorem runCalls_kept :
    ∀ (calls : List SignerCall) {w : CWallet} {d : WalletDir}, Inv seeds w d →
      (runCalls k calls w.signer).Ensures d fun d' r =>
        Kept Disk (Inv seeds) d' (r.map fun s => { w with signer := s }) := by
  intro calls
  induction calls with
  | nil =>
    intro w d h
    exact ensures_pure (R.kept_some h)
  | cons call calls ih =>
    intro w d h
    refine ensures_bind (R.call_kept call h) ?_ ?_
    · rintro d' ⟨hd', -⟩
      exact ⟨hd', by simp⟩
    · rintro d' s ⟨-, hs⟩
      exact ih (hs _ rfl)

/-- The call of the signer and what follows it, for any call that keeps the invariant. -/
theorem signWithSigner_kept (env : CWallet.SignTxEnv)
    {sign : CXMSSSigner → Durable WalletDir (Option α × CXMSSSigner)}
    (hsign : ∀ {seeds w d}, Inv seeds w d → (sign w.signer).Ensures d fun d' r =>
      Kept Disk (Inv seeds) d' (r.map fun p => { w with signer := p.2 }))
    (h : Inv (env.after.seed :: seeds) w d) :
    (w.signWithSigner k env sign).Ensures d fun d' r =>
      Kept Disk (Inv seeds) d' (r.map Prod.snd) := by
  unfold CWallet.signWithSigner
  refine ensures_bind (hsign h) ?_ ?_
  · rintro d' ⟨hd', -⟩
    exact ⟨hd', by simp⟩
  rintro d₁ ⟨out, signer⟩ ⟨-, hw₁⟩
  have hw₁ := hw₁ _ rfl
  cases out with
  | none => exact ensures_pure (R.kept_some (R.skip hw₁))
  | some tx =>
    refine ensures_bind (R.persist_ensures env.persist hw₁) ?_ ?_
    · intro d' h'
      exact ⟨R.died h', by simp⟩
    intro d₂ _ hw₂
    refine ensures_bind (R.ensure_kept env.after hw₂) ?_ ?_
    · rintro d' ⟨hd', -⟩
      exact ⟨hd', by simp⟩
    rintro d₃ w₃ ⟨-, hw₃⟩
    exact ensures_pure (R.kept_some (hw₃ w₃ rfl))

end

theorem signTransaction_kept {α : Type} (R : WalletRules k Disk Inv) (env : CWallet.SignTxEnv)
    (managers : Option α) {sign : CXMSSSigner → Durable WalletDir (Option α × CXMSSSigner)}
    (hsign : ∀ {seeds w d}, Inv seeds w d → (sign w.signer).Ensures d fun d' r =>
      Kept Disk (Inv seeds) d' (r.map fun p => { w with signer := p.2 }))
    (h : Inv seeds w d)
    (hdraw : w.isLocked = false → Inv (env.before.seed :: env.after.seed :: seeds) w d) :
    (w.signTransaction k env managers sign).Ensures d fun d' r =>
      Kept Disk (Inv seeds) d' (r.map Prod.snd) := by
  unfold CWallet.signTransaction
  cases managers with
  | some tx => exact ensures_pure (R.kept_some h)
  | none =>
    dsimp only
    split
    · exact ensures_pure (R.kept_some h)
    rename_i hlocked
    have h : Inv (env.before.seed :: env.after.seed :: seeds) w d := by
      refine hdraw (Bool.eq_false_iff.mpr fun hlock => hlocked ?_)
      rw [hlock, Bool.and_true]
      exact (Bool.and_eq_true_iff.mp hlock).1
    split
    · refine ensures_bind (R.ensure_kept env.before h) ?_ ?_
      · rintro d' ⟨hd', -⟩
        exact ⟨hd', by simp⟩
      rintro d₁ w₁ ⟨-, hw₁⟩
      exact R.signWithSigner_kept env hsign (hw₁ w₁ rfl)
    · exact R.signWithSigner_kept env hsign (R.skip h)

/-! ### Locking and loading -/

/-- A load of the record, from a disk on which the ledger may change. -/
theorem load_kept (R : WalletRules k Disk Inv) (env : LoadEnv) (hdisk : ∀ l, Disk { d with ledger := l })
    (h : Inv seeds (w.afterLoad k env d) d) :
    (w.loadXMSSStateIfPossible k env).Ensures d (Kept Disk (Inv seeds)) := by
  refine ensures_mono (CWallet.load_ensures k env w d) ?_
  rintro d' r ⟨l, rfl, hr⟩
  refine ⟨hdisk l, fun w' hw' => ?_⟩
  rw [hr w' hw']
  exact R.ledger l h

theorem unlock_kept (R : WalletRules k Disk Inv) (persist : PersistEnv) (load : LoadEnv)
    (hdisk : ∀ l, Disk { d with ledger := l })
    (hplain : w.mapMasterKeys = none → Inv seeds w d)
    (hopen : ∀ key, w.mapMasterKeys = some key → w.signer.xmssKeys.isEmpty = false →
      Inv seeds { w with vMasterKey := some key } d)
    (hload : ∀ key, w.mapMasterKeys = some key → w.signer.xmssKeys.isEmpty = true →
      Inv seeds (CWallet.afterLoad k load d { w with vMasterKey := some key }) d) :
    (w.unlock k persist load).Ensures d (Kept Disk (Inv seeds)) := by
  obtain ⟨signer, mapMasterKeys, vMasterKey⟩ := w
  cases mapMasterKeys with
  | none => exact ensures_pure (R.kept_some (hplain rfl))
  | some key =>
    show Durable.Ensures (if signer.xmssKeys.isEmpty then _ else _) d _
    split
    · rename_i hempty
      exact R.load_kept load hdisk (hload key rfl hempty)
    · rename_i hempty
      exact R.persist_kept persist (hopen key rfl (Bool.eq_false_iff.mpr hempty))

theorem create_kept (R : WalletRules k Disk Inv) (load : LoadEnv) (ensure : KeyEnv)
    (hdisk : ∀ l, Disk { d with ledger := l })
    (hload : Inv (ensure.seed :: seeds)
      (CWallet.afterLoad k load d { mapMasterKeys := d.masterKey }) d) :
    (CWallet.create k load ensure).Ensures d (Kept Disk (Inv seeds)) := by
  unfold CWallet.create
  refine ensures_read_bind (ensures_bind (R.load_kept load hdisk hload) ?_ ?_)
  · rintro d' ⟨hd', -⟩
    exact ⟨hd', by simp⟩
  · rintro d' w ⟨-, hw⟩
    exact R.ensure_kept ensure (hw w rfl)

/-- `EncryptWallet`. Its transaction begins, so the master key is in the database before anything
is written with it. -/
theorem encryptWallet_kept (R : WalletRules k Disk Inv) (env : CWallet.EncryptEnv)
    (h : Inv seeds w d) (hbegins : w.isCrypted = false → env.txnBegins = true)
    (hdisk : w.isCrypted = false → ∀ l, Disk { d with masterKey := some env.masterKey, ledger := l })
    (hopen : w.isCrypted = false → w.signer.xmssKeys.isEmpty = false →
      Inv seeds { w with mapMasterKeys := some env.masterKey, vMasterKey := some env.masterKey }
        { d with masterKey := some env.masterKey })
    (hload : w.isCrypted = false → w.signer.xmssKeys.isEmpty = true →
      Inv seeds (CWallet.afterLoad k env.load { d with masterKey := some env.masterKey }
        { w with mapMasterKeys := some env.masterKey, vMasterKey := some env.masterKey })
        { d with masterKey := some env.masterKey }) :
    (w.encryptWallet k env).Ensures d (Kept Disk (Inv seeds)) := by
  unfold CWallet.encryptWallet
  split
  · exact ensures_pure (R.kept_some h)
  rename_i hplain
  have hplain : w.isCrypted = false := Bool.eq_false_iff.mpr hplain
  rw [hbegins hplain]
  refine ensures_write_bind ⟨R.died h, by simp⟩ ?_
  have hunlock : (CWallet.unlock k env.persist env.load
      (CWallet.lock { w with mapMasterKeys := some env.masterKey })).Ensures
      { d with masterKey := some env.masterKey } (Kept Disk (Inv seeds)) := by
    refine R.unlock_kept env.persist env.load (hdisk hplain) ?_ ?_ ?_
    · intro hnone
      cases hnone
    · intro key hkey hempty
      cases hkey
      exact hopen hplain hempty
    · intro key hkey hempty
      cases hkey
      exact hload hplain hempty
  refine ensures_bind hunlock ?_ ?_
  · rintro d' ⟨hd', -⟩
    exact ⟨hd', by simp⟩
  rintro d' w' ⟨-, hw'⟩
  refine ensures_pure ?_
  split
  · exact R.kept_some (R.lock (hw' w' rfl))
  · exact R.kept_some (hw' w' rfl)

end WalletRules

/-! ### Steps of a run -/

/-- The invariant of a run: of the disk, and of the wallet if there is one. -/
def RunInv (Disk : WalletDir → Prop) (Inv : CWallet → WalletDir → Prop) (s : WalletRun) : Prop :=
  Kept Disk Inv s.disk s.wallet

variable {Disk : WalletDir → Prop}

/-- The end of a program in which the process may have died. -/
theorem runInv_after {p : Durable WalletDir α} {wallet : α → CWallet}
    {Inv : CWallet → WalletDir → Prop} (h : p.Ensures d fun d' r => Kept Disk Inv d' (r.map wallet))
    (crash : Nat) : RunInv Disk Inv (after wallet (p.run d crash)) :=
  h.run_of_lost (fun _ _ hr => ⟨hr.1, by simp⟩) crash

theorem runInv_after_id {p : Durable WalletDir CWallet} {Inv : CWallet → WalletDir → Prop}
    (h : p.Ensures d (Kept Disk Inv)) (crash : Nat) :
    RunInv Disk Inv (after id (p.run d crash)) := by
  refine runInv_after (ensures_mono h ?_) crash
  intro d' r hr
  rw [map_id]
  exact hr

/-- What an invariant asks of a call: that it holds for the keys that will be drawn, and across
the steps that are not in `WalletRules`. -/
def CallOk (k : WalletPrims) (Disk : WalletDir → Prop) (Inv : List Bytes → CWallet → WalletDir → Prop)
    (w : CWallet) (d : WalletDir) : WalletOp → Prop
  | .encryptWallet env _ => w.isCrypted = false →
    env.txnBegins = true ∧ (∀ l, Disk { d with masterKey := some env.masterKey, ledger := l }) ∧
      let w' := { w with mapMasterKeys := some env.masterKey, vMasterKey := some env.masterKey }
      let d' := { d with masterKey := some env.masterKey }
      if w.signer.xmssKeys.isEmpty then Inv [] (CWallet.afterLoad k env.load d' w') d'
      else Inv [] w' d'
  | .unlock _ load _ => ∀ key, w.mapMasterKeys = some key →
    let w' := { w with vMasterKey := some key }
    if w.signer.xmssKeys.isEmpty then Inv [] (CWallet.afterLoad k load d w') d else Inv [] w' d
  | .getnewxmssaddress env _ => Inv [env.seed] w d
  | .importxmsskey _ behind pubkey seckey _ | .addXMSSKey behind pubkey seckey =>
    ∀ s, w.signer.addXMSSKey k.crypto behind pubkey seckey = some s → Inv [] { w with signer := s } d
  | .signTransaction env .. => w.isLocked = false → Inv [env.before.seed, env.after.seed] w d
  | .generateKey _ seed _ => Inv [seed] w d
  | .loadState env _ => Inv [] (w.afterLoad k env d) d
  | _ => True

@[inherit_doc CallOk]
def StepOk (k : WalletPrims) (Disk : WalletDir → Prop)
    (Inv : List Bytes → CWallet → WalletDir → Prop) (op : WalletOp) (s : WalletRun) : Prop :=
  match s.wallet, op with
  | none, .create load ensure _ => (∀ l, Disk { s.disk with ledger := l }) ∧
    Inv [ensure.seed] (CWallet.afterLoad k load s.disk { mapMasterKeys := s.disk.masterKey }) s.disk
  | none, _ => True
  | some w, op => CallOk k Disk Inv w s.disk op

namespace WalletRules

variable {k : WalletPrims} {Disk : WalletDir → Prop}
  {Inv : List Bytes → CWallet → WalletDir → Prop}

/-- A call on a wallet keeps the invariant. -/
theorem callStep_kept (R : WalletRules k Disk Inv) {op : WalletOp} {w : CWallet} {s' : WalletRun}
    (h : Inv [] w d) (hok : CallOk k Disk Inv w d op)
    (hstep : callStep k d w op = some s') : RunInv Disk (Inv []) s' := by
  cases op with
  | create => cases hstep
  | encryptWallet env crash =>
    cases hstep
    refine runInv_after_id (R.encryptWallet_kept env h (fun hplain => (hok hplain).1)
      (fun hplain => (hok hplain).2.1) ?_ ?_) crash
    · intro hplain hempty
      have hinv := (hok hplain).2.2
      rwa [if_neg (Bool.eq_false_iff.mp hempty)] at hinv
    · intro hplain hempty
      have hinv := (hok hplain).2.2
      rwa [if_pos hempty] at hinv
  | lock =>
    cases hstep
    exact R.kept_some (R.lock h)
  | unlock persist load crash =>
    cases hstep
    refine runInv_after_id (R.unlock_kept persist load (fun l => R.died (R.ledger l h))
      (fun _ => h) ?_ ?_) crash
    · intro key hkey hempty
      have hinv := hok key hkey
      rwa [if_neg (Bool.eq_false_iff.mp hempty)] at hinv
    · intro key hkey hempty
      have hinv := hok key hkey
      rwa [if_pos hempty] at hinv
  | getnewxmssaddress env crash =>
    cases hstep
    exact runInv_after_id (R.generateAndPersist_kept env hok) crash
  | importxmsskey env behind pubkey seckey crash =>
    cases hstep
    exact runInv_after_id (R.importxmsskey_kept env h hok) crash
  | signTransaction env managers calls complete crash =>
    cases hstep
    refine runInv_after (R.signTransaction_kept env _ ?_ h hok) crash
    intro seeds w d h
    refine ensures_bind (R.runCalls_kept calls h) ?_ ?_
    · rintro d' ⟨hd', -⟩
      exact ⟨hd', by simp⟩
    · rintro d' signer ⟨-, hsigner⟩
      exact ensures_pure (R.kept_some (hsigner _ rfl))
  | commitTransaction broadcast env crash =>
    cases hstep
    exact runInv_after_id (R.commitTransaction_kept broadcast env h) crash
  | generateKey io seed crash =>
    cases hstep
    exact runInv_after (R.generateKey_kept io hok) crash
  | signXMSS call crash =>
    cases hstep
    exact runInv_after (R.call_kept call h) crash
  | addXMSSKey behind pubkey seckey =>
    cases hstep
    cases hadd : w.signer.addXMSSKey k.crypto behind pubkey seckey with
    | none => exact R.kept_some h
    | some s => exact R.kept_some (hok s hadd)
  | loadState env crash =>
    cases hstep
    exact runInv_after_id (R.load_kept env (fun l => R.died (R.ledger l h)) hok) crash
  | exit =>
    cases hstep
    exact ⟨R.died h, by simp⟩

/-- A call keeps the invariant of a run. -/
theorem step_kept (R : WalletRules k Disk Inv) {op : WalletOp} {s s' : WalletRun}
    (h : RunInv Disk (Inv []) s) (hok : StepOk k Disk Inv op s)
    (hstep : step k op s = some s') : RunInv Disk (Inv []) s' := by
  obtain ⟨d, wallet⟩ := s
  cases wallet with
  | some w => exact R.callStep_kept (h.2 w rfl) hok hstep
  | none =>
    cases op with
    | create load ensure crash =>
      cases hstep
      exact runInv_after_id (R.create_kept load ensure hok.1 hok.2) crash
    | _ => cases hstep

end WalletRules

end AssentianPQE
