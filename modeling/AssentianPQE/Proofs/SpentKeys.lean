import AssentianPQE.Proofs.SignTxCalls
import AssentianPQE.Proofs.WalletRecord
import AssentianPQE.Proofs.XmssOwnership
import AssentianPQE.Wallet.Spend

/-!
# `AssentianPQE.Proofs.SpentKeys`: the keys that an attempt to spend retires

`CreateTransactionInternal` signs before it tests the weight and the fee of a transaction, and a
key that has signed is retired for good.

* `createTransactionInternal_retires`: whatever the result is, a native key that is retired is the
  key of an input of the transaction that was built.
* `createTransactionInternal_inert`: if no input has a key that can sign, no key is retired and no
  leaf of a ledger is consumed.
-/

set_option autoImplicit false

namespace AssentianPQE

open Lib Durable List CWallet Option Bool XMSSMinerState TxIn

variable {cfg : SpendConfig} {tx : Transaction} {pubkey : Bytes} {s : CXMSSSigner}

/-! ### The key of an input -/

/-- The script leads to a template of the key, with scripts that an input may reveal. -/
def PaysTo (c : Crypto) (script : Script) (pubkey : Bytes) : Prop :=
  ∃ data : InputData,
    solver (signPath c data script).script = (.p2xmss, [pubkey]) ∨
      solver (signPath c data script).script = (.p2xmssHash, [(c.hash160 pubkey).data])

/-- The transaction spends an output that pays to the key. -/
def SpendConfig.SpendsKey (cfg : SpendConfig) (c : Crypto) (tx : Transaction) (pubkey : Bytes) :
    Prop :=
  ∃ prevout ∈ tx.vin.map TxIn.prevout, ∃ out,
    cfg.coins prevout = some out ∧ PaysTo c out.scriptPubKey pubkey

/-- Of a transaction only the outpoints matter. -/
theorem SpendConfig.SpendsKey.congr {c : Crypto} {tx' : Transaction} (h : cfg.SpendsKey c tx pubkey)
    (hvin : tx'.vin.map prevout = tx.vin.map prevout) : cfg.SpendsKey c tx' pubkey := by
  unfold SpendConfig.SpendsKey
  rw [hvin]
  exact h

/-- The hash in a P2XMSSHASH script has 20 bytes. -/
theorem length_of_solver_p2xmssHash {script : Script} {hash : Bytes}
    (h : solver script = (.p2xmssHash, [hash])) : hash.length = 20 := by
  have hxmss : XmssOutput script := .inr (congrArg Prod.fst h)
  rcases hxmss.cases with ⟨key, -, hsolver, -⟩ | ⟨hash', hlen, hsolver, -⟩
  · rw [h] at hsolver
    cases hsolver
  · rw [h] at hsolver
    cases hsolver
    exact hlen

/-- A key of 64 bytes that an input is signed with is the key of the output that it spends. -/
theorem paysTo_of_xmssPubkey {c : Crypto} (hs : s.Built c) {data : InputData} {script : Script}
    (hlen : pubkey.length = 64) (h : xmssPubkey s (signPath c data script).script = some pubkey) :
    PaysTo c script pubkey := by
  refine ⟨data, ?_⟩
  unfold xmssPubkey at h
  split at h
  next key hsolver =>
    cases h
    exact .inl hsolver
  next hash hsolver =>
    refine .inr ?_
    have hhash := length_of_solver_p2xmssHash hsolver
    have hblob : takeBlob 20 hash = some (⟨hash, hhash⟩, []) := by
      have happend := takeBlob_append (⟨hash, hhash⟩ : Blob 20) []
      rwa [append_nil] at happend
    rw [hblob] at h
    have hkey : s.getPubKeyForHash ⟨hash, hhash⟩ = pubkey := some.inj h
    -- The signer knows the address, so it is the address of the key.
    cases hmap : s.keyIdMap ⟨hash, hhash⟩ with
    | none =>
      rw [CXMSSSigner.getPubKeyForHash, hmap] at hkey
      rw [← hkey] at hlen
      cases hlen
    | some key =>
      rw [CXMSSSigner.getPubKeyForHash, hmap] at hkey
      obtain rfl : key = pubkey := hkey
      rw [(hs.keyIdMap_eq_some hmap).2, hsolver]
  next => cases h

/-! ### Keys that become retired -/

/-- A native key whose flag is set. -/
def CXMSSSigner.Retired (s : CXMSSSigner) (pubkey : Bytes) : Prop :=
  ∃ entry, s.xmssKeys[pubkey]? = some entry ∧ entry.imported = false ∧ entry.retired = true

/-- The flag of a native key goes from false to true. The key may be one that was not there. -/
def NewlyRetired (s s' : CXMSSSigner) (pubkey : Bytes) : Prop :=
  s'.Retired pubkey ∧ ¬ s.Retired pubkey

instance (s : CXMSSSigner) (pubkey : Bytes) : Decidable (s.Retired pubkey) :=
  decidable_of_iff ((s.xmssKeys[pubkey]?).any fun entry => !entry.imported && entry.retired) <| by
    rw [Option.any_eq_true]
    simp only [Bool.and_eq_true, Bool.not_eq_true']
    rfl

instance (s s' : CXMSSSigner) (pubkey : Bytes) : Decidable (NewlyRetired s s' pubkey) :=
  inferInstanceAs (Decidable (_ ∧ _))

theorem not_newlyRetired_self (s : CXMSSSigner) (pubkey : Bytes) : ¬ NewlyRetired s s pubkey :=
  fun h => h.2 h.1

/-- What holds of a signer while keys sign: the native keys that are retired since `s₀` are among
these keys. -/
structure RetiresAmong (c : Crypto) (s₀ : CXMSSSigner) (keys : Bytes → Prop) (s : CXMSSSigner) :
    Prop where
  built : s.Built c
  among : ∀ pubkey, NewlyRetired s₀ s pubkey → keys pubkey

namespace RetiresAmong

variable {c : Crypto} {s₀ s s' : CXMSSSigner} {keys keys' : Bytes → Prop}

/-- Before a key has signed. -/
theorem refl (hs : s.Built c) : RetiresAmong c s keys s :=
  ⟨hs, fun pubkey hnew => (not_newlyRetired_self s pubkey hnew).elim⟩

theorem mono (h : RetiresAmong c s₀ keys s) (hkeys : ∀ pubkey, keys pubkey → keys' pubkey) :
    RetiresAmong c s₀ keys' s :=
  ⟨h.built, fun pubkey hnew => hkeys pubkey (h.among pubkey hnew)⟩

/-- A new key is not retired. -/
theorem insert (h : RetiresAmong c s₀ keys s) (pubkey : Bytes) {entry : XMSSKeyEntry}
    (hfresh : entry.retired = false) : RetiresAmong c s₀ keys (s.insert c pubkey entry) := by
  refine ⟨.insert pubkey entry h.built, ?_⟩
  rintro key ⟨⟨entry', hentry', hnative, hretired⟩, hold⟩
  have hget : (s.xmssKeys.insert pubkey entry)[key]? = some entry' := hentry'
  rw [Std.ExtTreeMap.getElem?_insert] at hget
  split at hget
  · cases hget
    rw [hfresh] at hretired
    cases hretired
  · exact h.among key ⟨⟨entry', hget, hnative, hretired⟩, hold⟩

/-- A key that signs is one of the keys. -/
theorem retire (h : RetiresAmong c s₀ keys s) (hkey : keys pubkey) (entry : XMSSKeyEntry)
    (leaf : UInt32) : RetiresAmong c s₀ keys (s.retire pubkey entry leaf) := by
  refine ⟨.retire pubkey entry leaf h.built, ?_⟩
  rintro key ⟨⟨entry', hentry', hnative, hretired⟩, hold⟩
  unfold CXMSSSigner.retire at hentry'
  split at hentry'
  · exact h.among key ⟨⟨entry', hentry', hnative, hretired⟩, hold⟩
  rw [Std.ExtTreeMap.getElem?_insert] at hentry'
  split at hentry'
  next hcmp =>
    obtain rfl := Std.LawfulEqCmp.eq_of_compare hcmp
    exact hkey
  next => exact h.among key ⟨⟨entry', hentry', hnative, hretired⟩, hold⟩

end RetiresAmong

/-! ### What an attempt keeps -/

section Kept

variable (k : WalletPrims) (Inv : CXMSSSigner → LedgerDir → Prop)

/-- The end of a call: what it returns has a signer with the invariant. -/
def SignerKept {α : Type} (signer : α → CXMSSSigner) (d : WalletDir) (r : Option α) : Prop :=
  ∀ out, r = some out → Inv (signer out) d.ledger

/-- What `GenerateKey` keeps, for these random bytes. -/
def GenerateKeeps (seed : Bytes) : Prop :=
  ∀ (io : Io) (s : CXMSSSigner) (l : LedgerDir), Inv s l →
    (s.generateKey k.crypto k.keys io seed).Ensures l fun l' r => ∀ out, r = some out → Inv out.2 l'

variable {k Inv} {w : CWallet} {d : WalletDir}

theorem persist_ensures_ledger (env : PersistEnv) (w : CWallet) (d : WalletDir) :
    (w.persistXMSSState k env).Ensures d fun d' _ => d'.ledger = d.ledger := by
  unfold persistXMSSState
  split
  · exact ensures_pure rfl
  split
  · exact ensures_pure rfl
  · split
    · exact ensures_write rfl rfl
    · exact ensures_pure rfl

theorem generateAndPersist_keeps {env : KeyEnv} (hgen : GenerateKeeps k Inv env.seed)
    (h : Inv w.signer d.ledger) :
    (w.generateAndPersist k env).Ensures d (SignerKept Inv signer) := by
  have hkey : (w.generateKey k env.io env.seed).Ensures d
      (SignerKept Inv fun p => p.2.signer) := by
    unfold generateKey
    refine ensures_bind (WalletDir.onLedger_ensures (hgen env.io w.signer d.ledger h))
      (by simp [SignerKept]) ?_
    rintro d' ⟨pubkey, signer⟩ ⟨l, rfl, hout⟩
    have hinv := hout _ rfl
    dsimp only
    split
    · refine ensures_pure ?_
      rintro out ⟨⟩
      exact hinv
    · refine ensures_write_bind (by simp [SignerKept]) (ensures_pure ?_)
      rintro out ⟨⟩
      exact hinv
  unfold generateAndPersist
  refine ensures_bind hkey (by simp [SignerKept]) ?_
  rintro d' ⟨pubkey, w'⟩ hw'
  have hinv : Inv w'.signer d'.ledger := hw' _ rfl
  dsimp only
  split
  · refine ensures_pure ?_
    rintro out ⟨⟩
    exact hinv
  · refine ensures_bind (persist_ensures_ledger env.persist w' d') (by simp [SignerKept]) ?_
    intro d'' _ hledger
    refine ensures_pure ?_
    rintro out ⟨⟩
    rwa [hledger]

theorem ensure_keeps {env : KeyEnv} (hgen : GenerateKeeps k Inv env.seed)
    (h : Inv w.signer d.ledger) :
    (w.ensureXMSSKeyAvailable k env).Ensures d (SignerKept Inv signer) := by
  unfold ensureXMSSKeyAvailable
  split
  · exact generateAndPersist_keeps hgen h
  · refine ensures_pure ?_
    rintro out ⟨⟩
    exact h

/-- Signing keeps the outpoints of the inputs. -/
theorem SignCall.signInputs_prevouts (a : SignCall) (c : Crypto) (x : XmssKeys) (vin : List TxIn) :
    ∀ (n : Nat) (s : CXMSSSigner) (l : LedgerDir),
      (a.signInputs c x n vin s).Ensures l fun _ r =>
        ∀ out, r = some out → out.1.1.map prevout = vin.map prevout := by
  induction vin with
  | nil =>
    intro n s l
    refine ensures_pure ?_
    rintro out ⟨⟩
    rfl
  | cons txin rest ih =>
    intro n s l
    unfold SignCall.signInputs
    split
    · refine ensures_bind (ih (n + 1) s l) (by simp) ?_
      rintro l' ⟨⟨vin, errors⟩, s'⟩ hvin
      refine ensures_pure ?_
      rintro out ⟨⟩
      rw [map_cons, map_cons, ← hvin _ rfl]
    · intro m out hout
      obtain ⟨p, hp, rfl⟩ := map_eq_some_iff.mp hout
      obtain ⟨l₁, ⟨solution, s₁⟩, m₁, -, hrest⟩ := bind_eq_some (Prod.ext rfl hp)
      obtain ⟨l₂, ⟨⟨vin, errors⟩, s₂⟩, m₂, hvin, hlast⟩ := bind_eq_some hrest
      cases hlast
      rw [map_cons, map_cons, ← (ih (n + 1) s₁ l₁).of_eq hvin _ rfl]

/-- An input of the transaction that the other keys leave spends an outpoint of the
transaction. -/
theorem Attempt.map_prevout_managed (a : Attempt) (tx : Transaction) :
    (a.managed tx).vin.map prevout = tx.vin.map prevout := by
  apply ext_getElem?
  intro i
  show (List.map prevout (tx.vin.mapIdx _))[i]? = _
  rw [getElem?_map, getElem?_mapIdx, getElem?_map]
  cases tx.vin[i]? <;> rfl

/-- What `SignXMSS` keeps for the keys of the inputs of a transaction, for the signer with which
the call of `SignTransaction` starts. -/
def SpendConfig.SignKeeps (k : WalletPrims) (Inv : CXMSSSigner → LedgerDir → Prop)
    (cfg : SpendConfig) (tx : Transaction) : Prop :=
  ∀ (s₁ : CXMSSSigner) (l₁ : LedgerDir), Inv s₁ l₁ → ∀ (call : SignerCall) (data : InputData)
    (out : TxOut), ∀ prevout ∈ tx.vin.map TxIn.prevout, cfg.coins prevout = some out →
    xmssPubkey s₁ (signPath k.crypto data out.scriptPubKey).script = some call.pubkey →
    ∀ s l, Inv s l → (s.signXMSS k.keys call.env call.hash call.pubkey).Ensures l fun l' r =>
      ∀ out, r = some out → Inv out.2 l'

theorem Attempt.signInputs_keeps {a : Attempt} (hsign : cfg.SignKeeps k Inv tx)
    (h : Inv s d.ledger) :
    (a.signInputs k cfg tx s).Ensures d fun d' r => ∀ out, r = some out → Inv out.2 d'.ledger ∧
      ∀ tx', out.1 = some tx' → tx'.vin.map prevout = tx.vin.map prevout := by
  let call := a.signCall cfg tx
  have hkept : (call.signTransaction k.crypto k.keys s).Ensures d.ledger fun l r =>
      ∀ out, r = some out → Inv out.2 l := by
    refine SignCall.signTransaction_kept (fun n i => rfl) h ?_
    intro signer n txin out hget hcoin hkey s' l' h'
    have hmem : txin.prevout ∈ tx.vin.map prevout := by
      rw [← a.map_prevout_managed tx]
      exact mem_map_of_mem (mem_of_getElem? hget)
    exact hsign s d.ledger h signer (a.data n) out txin.prevout hmem hcoin hkey s' l' h'
  have hprevouts : (call.signTransaction k.crypto k.keys s).Ensures d.ledger fun _ r =>
      ∀ out, r = some out → out.1.1.vin.map prevout = tx.vin.map prevout := by
    unfold SignCall.signTransaction
    refine ensures_bind (call.signInputs_prevouts k.crypto k.keys call.tx.vin 0 s d.ledger)
      (by simp) ?_
    rintro l' ⟨⟨vin, errors⟩, s'⟩ hvin
    refine ensures_pure ?_
    rintro out ⟨⟩
    exact (hvin _ rfl).trans (a.map_prevout_managed tx)
  unfold Attempt.signInputs
  refine ensures_mono (WalletDir.onLedger_ensures (ensures_bind
    (ensures_and hkept hprevouts) (Q := fun l r => ∀ out, r = some out → Inv out.2 l ∧
      ∀ tx', out.1 = some tx' → tx'.vin.map prevout = tx.vin.map prevout)
    (by simp) ?_)) ?_
  · rintro l' ⟨⟨signed, errors⟩, s'⟩ ⟨hinv, hvin⟩
    refine ensures_pure ?_
    rintro out ⟨⟩
    refine ⟨hinv _ rfl, ?_⟩
    intro tx' htx'
    dsimp only at htx'
    split at htx'
    · cases htx'
      exact hvin _ rfl
    · cases htx'
  · rintro d' r ⟨l, rfl, hr⟩
    exact hr

/-- What an attempt leaves: a signer with the invariant, and a transaction with the outpoints of
the one that was built. -/
def SpendKept {α : Type} (Inv : CXMSSSigner → LedgerDir → Prop) (prevouts : List OutPoint)
    (spent : α → Option Transaction) (d : WalletDir) (r : Option (α × CWallet)) : Prop :=
  ∀ out, r = some out → Inv out.2.signer d.ledger ∧
    ∀ tx, spent out.1 = some tx → tx.vin.map TxIn.prevout = prevouts

namespace Attempt

variable {a : Attempt} {cfg : SpendConfig} {tx : Transaction}

theorem signWithSigner_keeps (hafter : GenerateKeeps k Inv a.keys.after.seed)
    (hsign : cfg.SignKeeps k Inv tx) (h : Inv w.signer d.ledger) :
    (w.signWithSigner k a.keys (a.signInputs k cfg tx)).Ensures d
      (SpendKept Inv (tx.vin.map prevout) id) := by
  unfold signWithSigner
  refine ensures_bind (signInputs_keeps hsign h) (by simp [SpendKept]) ?_
  rintro d₁ ⟨signed, signer⟩ hsigned
  obtain ⟨hinv, hvin⟩ := hsigned _ rfl
  cases signed with
  | none =>
    refine ensures_pure ?_
    rintro out ⟨⟩
    exact ⟨hinv, by simp⟩
  | some signed =>
    refine ensures_bind (persist_ensures_ledger a.keys.persist _ d₁)
      (by simp [SpendKept]) ?_
    intro d₂ _ hledger
    have hinv₂ : Inv signer d₂.ledger := by rwa [hledger]
    refine ensures_bind (ensure_keeps hafter hinv₂) (by simp [SpendKept]) ?_
    intro d₃ w₃ hw₃
    refine ensures_pure ?_
    rintro out ⟨⟩
    exact ⟨hw₃ _ rfl, hvin⟩

theorem sign_keeps (hbefore : GenerateKeeps k Inv a.keys.before.seed)
    (hafter : GenerateKeeps k Inv a.keys.after.seed) (hsign : cfg.SignKeeps k Inv tx)
    (h : Inv w.signer d.ledger) :
    (a.sign k cfg tx w).Ensures d (SpendKept Inv (tx.vin.map prevout) id) := by
  have hfails : Durable.Ensures (pure (none, w)) d
      (SpendKept Inv (tx.vin.map prevout) id) := by
    refine ensures_pure ?_
    rintro out ⟨⟩
    exact ⟨h, by simp⟩
  unfold Attempt.sign
  split
  · unfold signTransaction
    split
    · -- The other keys of the wallet have signed all of it.
      rename_i signed hmanagers
      refine ensures_pure ?_
      rintro out ⟨⟩
      refine ⟨h, ?_⟩
      rintro tx' ⟨⟩
      split at hmanagers
      · cases hmanagers
        exact a.map_prevout_managed tx
      · cases hmanagers
    · split
      · exact hfails
      split
      · refine ensures_bind (ensure_keeps hbefore h) (by simp [SpendKept]) ?_
        intro d₁ w₁ hw₁
        exact signWithSigner_keeps hafter hsign (hw₁ _ rfl)
      · exact signWithSigner_keeps hafter hsign h
  · exact hfails

/-- The transaction of a result. -/
def resultTx (r : Except String CreatedTransactionResult) : Option Transaction :=
  r.toOption.map CreatedTransactionResult.tx

/-- The tests after the signing fail, or return the transaction as it is with its fee. -/
theorem finish_cases (a : Attempt) (cfg : SpendConfig) (sign : Bool) (b : BuiltTransaction)
    (tx : Transaction) :
    (∃ error, a.finish cfg sign b tx = .error error) ∨
      a.finish cfg sign b tx = .ok ⟨tx, b.current_fee⟩ := by
  unfold Attempt.finish
  by_cases hweight : MAX_STANDARD_TX_WEIGHT < (if sign then getTransactionWeight tx else b.weight)
  · exact .inl ⟨_, if_pos hweight⟩
  rw [if_neg hweight]
  by_cases hfee : cfg.m_default_max_tx_fee < b.current_fee
  · exact .inl ⟨_, if_pos hfee⟩
  rw [if_neg hfee]
  cases (if cfg.walletrejectlongchains then a.checkChainLimits tx else none) with
  | some error => exact .inl ⟨error, rfl⟩
  | none => exact .inr rfl

theorem resultTx_finish {sign : Bool} {b : BuiltTransaction} {tx' : Transaction}
    (h : resultTx (a.finish cfg sign b tx) = some tx') : tx' = tx := by
  rcases a.finish_cases cfg sign b tx with ⟨error, herror⟩ | hok
  · rw [herror] at h
    cases h
  · rw [hok] at h
    cases h
    rfl

/-- What key generation and signing keep, an attempt keeps. -/
theorem createTransactionInternal_keeps (hbefore : GenerateKeeps k Inv a.keys.before.seed)
    (hafter : GenerateKeeps k Inv a.keys.after.seed) {b : BuiltTransaction}
    (hbuilt : a.built = .ok b) (hsign : cfg.SignKeeps k Inv b.tx) (h : Inv w.signer d.ledger)
    (sign : Bool) :
    (a.createTransactionInternal k cfg sign w).Ensures d
      (SpendKept Inv (b.tx.vin.map prevout) resultTx) := by
  unfold createTransactionInternal
  rw [hbuilt]
  dsimp only
  split
  · refine ensures_bind (sign_keeps hbefore hafter hsign h) (by simp [SpendKept]) ?_
    rintro d' ⟨signed, w'⟩ hw'
    obtain ⟨hinv, hvin⟩ := hw' _ rfl
    cases signed with
    | none =>
      refine ensures_pure ?_
      rintro out ⟨⟩
      refine ⟨hinv, ?_⟩
      rintro tx ⟨⟩
    | some signed =>
      refine ensures_pure ?_
      rintro out ⟨⟩
      refine ⟨hinv, ?_⟩
      intro tx htx
      rw [resultTx_finish htx]
      exact hvin _ rfl
  · refine ensures_pure ?_
    rintro out ⟨⟩
    refine ⟨h, ?_⟩
    intro tx htx
    rw [resultTx_finish htx]

end Attempt

end Kept

/-! ### The keys of the transaction -/

/-- The transaction that was built spends an output of the key. -/
def Attempt.SpendsKey (a : Attempt) (cfg : SpendConfig) (c : Crypto) (pubkey : Bytes) : Prop :=
  ∃ b, a.built = .ok b ∧ cfg.SpendsKey c b.tx pubkey

section Retires
variable {k : WalletPrims} {s₀ : CXMSSSigner} {keys : Bytes → Prop}

theorem RetiresAmong.generateKeeps (seed : Bytes) :
    GenerateKeeps k (fun s _ => RetiresAmong k.crypto s₀ keys s) seed := by
  intro io s l h
  refine ensures_mono (generateKey_ensures k.crypto k.keys io seed s l) ?_
  rintro l' r ⟨-, hout⟩ out rfl
  rw [hout out rfl]
  unfold afterGenerate
  split
  · exact h
  · exact h.insert _ rfl

theorem RetiresAmong.signKeeps (hkeys : ∀ pubkey, cfg.SpendsKey k.crypto tx pubkey → keys pubkey) :
    cfg.SignKeeps k (fun s _ => RetiresAmong k.crypto s₀ keys s) tx := by
  intro s₁ l₁ h₁ call data out prevout hmem hcoin hkey s l h
  refine ensures_mono
    (signXMSS_ensures k.keys (alone_env call) call.hash call.pubkey s l) ?_
  rintro l' r ⟨-, hafter⟩ ⟨signed, s'⟩ rfl
  have hafter := hafter signed s' rfl
  match signed with
  | none =>
    obtain rfl : s' = s := hafter
    exact h
  | some (sig, leaf) =>
    obtain ⟨entry, -, hlen, -, rfl⟩ := hafter
    exact h.retire (hkeys _ ⟨prevout, hmem, out, hcoin, paysTo_of_xmssPubkey h₁.built hlen hkey⟩)
      entry leaf

/-- **The keys that an attempt retires.** They are keys of inputs of the transaction that was
built, whatever the result is. -/
theorem Attempt.createTransactionInternal_retires (a : Attempt) (cfg : SpendConfig) (sign : Bool)
    {w : CWallet} (d : WalletDir) (h : RetiresAmong k.crypto s₀ keys w.signer) :
    (a.createTransactionInternal k cfg sign w).Ensures d fun _ r => ∀ out, r = some out →
      RetiresAmong k.crypto s₀ (fun p => keys p ∨ a.SpendsKey cfg k.crypto p) out.2.signer ∧
      ∀ tx, resultTx out.1 = some tx →
        ∃ b, a.built = .ok b ∧ tx.vin.map prevout = b.tx.vin.map prevout := by
  cases hbuilt : a.built with
  | error error =>
    unfold createTransactionInternal
    rw [hbuilt]
    refine ensures_pure ?_
    rintro out ⟨⟩
    refine ⟨h.mono fun _ => .inl, ?_⟩
    rintro tx ⟨⟩
  | ok b =>
    have hkeys : ∀ pubkey, cfg.SpendsKey k.crypto b.tx pubkey →
        keys pubkey ∨ a.SpendsKey cfg k.crypto pubkey :=
      fun pubkey hspends => .inr ⟨b, hbuilt, hspends⟩
    refine ensures_mono (createTransactionInternal_keeps
      (RetiresAmong.generateKeeps _) (RetiresAmong.generateKeeps _) hbuilt
      (RetiresAmong.signKeeps hkeys) (h.mono fun _ => .inl) sign) ?_
    intro d' r hr out hout
    obtain ⟨hinv, hvin⟩ := hr out hout
    exact ⟨hinv, fun tx htx => ⟨b, rfl, hvin tx htx⟩⟩

end Retires

/-! ### Leaves -/

/-- The next leaf of a tree. A tree without a ledger has used none. -/
def LedgerDir.nextLeaf (l : LedgerDir) (root : Uint256) : UInt32 :=
  ((l.stateOf root).map XMSSMinerState.nextLeafIndex).getD 0

/-- No leaf is consumed. -/
def LeavesKept (l l' : LedgerDir) : Prop :=
  ∀ root, l'.nextLeaf root = l.nextLeaf root

theorem LeavesKept.of_seed {l l' : LedgerDir} {root : Uint256} {sk : Bytes}
    (h : SeedOutcome l (freshState root sk) l') : LeavesKept l l' := by
  intro root'
  rcases h with hdat | ⟨id, habsent, hvalid, hdat⟩
  · rw [LedgerDir.nextLeaf, LedgerDir.stateOf, hdat]
    rfl
  by_cases hroot : root' = root
  · -- The tree had no file, and its new one begins at leaf 0.
    subst hroot
    have hbefore : l.nextLeaf root' = 0 := by
      have hnone : l.dat root' = none := habsent
      rw [LedgerDir.nextLeaf, LedgerDir.stateOf, hnone]
      rfl
    have hlen : sk.length = (freshState root' sk).skLen.toNat := by
      simp only [isValid, decide_eq_true_eq] at hvalid
      exact hvalid.2.2.2.2.2.2
    have hfile : l'.dat root' = some ({ freshState root' sk with
        version := STATE_VERSION, ownerStamp := id } : XMSSMinerState).serialize := by
      rw [hdat]
      exact Function.update_self _ _ _
    rw [hbefore, LedgerDir.nextLeaf, LedgerDir.stateOf, hfile, bind_some]
    cases hstate : deserialize _ with
    | none => rfl
    | some state =>
      rw [eq_of_deserialize_serialize rfl rfl hlen hstate]
      rfl
  · have hsame : l'.dat root' = l.dat root' := by
      rw [hdat]
      exact Function.update_of_ne hroot _ _
    rw [LedgerDir.nextLeaf, LedgerDir.stateOf, hsame]
    rfl

/-- A new key uses no leaf. -/
theorem generateKey_leaves (c : Crypto) (x : XmssKeys) (io : Io) (seed : Bytes) (s : CXMSSSigner)
    (l : LedgerDir) :
    (s.generateKey c x io seed).Ensures l fun l' _ => LeavesKept l l' := by
  unfold CXMSSSigner.generateKey
  split
  · exact ensures_pure fun _ => rfl
  dsimp only
  split
  · exact ensures_pure fun _ => rfl
  refine ensures_bind (ledgerInit_ensures io _ l) ?_ ?_
  · intro l' h
    exact .of_seed h
  · intro l' _ h
    exact ensures_pure (.of_seed h)

/-! ### Attempts without a key that can sign -/

/-- `SignXMSS` does not refuse the key. -/
def CXMSSSigner.Usable (s : CXMSSSigner) (pubkey : Bytes) : Prop :=
  pubkey.length = 64 ∧ ∃ entry, s.xmssKeys[pubkey]? = some entry ∧
    (entry.imported = true ∨ entry.retired = false)

theorem signXMSS_of_not_usable (h : ¬ s.Usable pubkey) (x : XmssKeys) (env : SignEnv)
    (hash : Uint256) :
    s.signXMSS x env hash pubkey = pure (none, s) := by
  unfold CXMSSSigner.signXMSS
  cases hentry : s.xmssKeys[pubkey]? with
  | none => rfl
  | some entry =>
    dsimp only
    by_cases hlen : pubkey.length = 64
    · rw [if_neg (not_not.mpr hlen), if_pos]
      rw [and_eq_true, not_eq_true']
      constructor
      · exact eq_false_iff.mpr fun himported => h ⟨hlen, entry, hentry, .inl himported⟩
      · exact not_eq_false _ |>.mp fun hretired => h ⟨hlen, entry, hentry, .inr hretired⟩
    · rw [if_pos hlen]

/-- No XMSS key can sign in an attempt: the transaction is signed without them or not at all, or
none of its inputs has a key that can sign or that is drawn in the attempt. -/
def Attempt.Inert (a : Attempt) (k : WalletPrims) (cfg : SpendConfig) (w : CWallet) : Prop :=
  ∀ b, a.built = .ok b →
    a.managersComplete = true ∨ w.isLocked = true ∨
    (∃ txin ∈ b.tx.vin, cfg.mapWallet txin.prevout = none) ∨
    ∀ pubkey, cfg.SpendsKey k.crypto b.tx pubkey → ¬ w.signer.Usable pubkey ∧
      pubkey ∉ drawnKeys k [a.keys.before.seed, a.keys.after.seed]

/-- No native key has become retired and no leaf was consumed. -/
def Untouched (s : CXMSSSigner) (l : LedgerDir) (s' : CXMSSSigner) (l' : LedgerDir) : Prop :=
  (∀ pubkey, ¬ NewlyRetired s s' pubkey) ∧ LeavesKept l l'

theorem untouched_refl (s : CXMSSSigner) (l : LedgerDir) : Untouched s l s l :=
  ⟨not_newlyRetired_self s, fun _ => rfl⟩

section Quiet
variable {k : WalletPrims} {s₀ : CXMSSSigner} {l₀ : LedgerDir} {spends : Bytes → Prop}

/-- What holds while none of these keys can sign. -/
structure Quiet (c : Crypto) (s₀ : CXMSSSigner) (l₀ : LedgerDir) (spends : Bytes → Prop)
    (s : CXMSSSigner) (l : LedgerDir) : Prop where
  retires : RetiresAmong c s₀ (fun _ => False) s
  leaves : LeavesKept l₀ l
  unusable : ∀ pubkey, spends pubkey → ¬ s.Usable pubkey

theorem Quiet.generateKeeps {seed : Bytes}
    (hdrawn : ∀ pubkey, spends pubkey → pubkey ∉ drawnKeys k [seed]) :
    GenerateKeeps k (Quiet k.crypto s₀ l₀ spends) seed := by
  intro io s l h
  refine ensures_mono (ensures_and
    (generateKey_ensures k.crypto k.keys io seed s l)
    (generateKey_leaves k.crypto k.keys io seed s l)) ?_
  rintro l' r ⟨⟨-, hout⟩, hleaves⟩ out rfl
  have hleaves₀ : LeavesKept l₀ l' := fun root => (hleaves root).trans (h.leaves root)
  rw [hout out rfl]
  unfold afterGenerate
  split
  · exact ⟨h.retires, hleaves₀, h.unusable⟩
  next pubkey sk hkey =>
    refine ⟨h.retires.insert pubkey rfl, hleaves₀, ?_⟩
    rintro key hspends ⟨hlen, entry, hentry, hfresh⟩
    have hget : (s.xmssKeys.insert pubkey { sk := sk })[key]? = some entry := hentry
    rw [Std.ExtTreeMap.getElem?_insert] at hget
    split at hget
    next hcmp =>
      -- The input would have to pay to the key that was just drawn.
      obtain rfl := Std.LawfulEqCmp.eq_of_compare hcmp
      refine hdrawn pubkey hspends ?_
      unfold drawnKeys
      rw [filterMap_cons, hkey]
      exact mem_cons_self
    next => exact h.unusable key hspends ⟨hlen, entry, hget, hfresh⟩

theorem Quiet.signKeeps :
    cfg.SignKeeps k (Quiet k.crypto s₀ l₀ (cfg.SpendsKey k.crypto tx)) tx := by
  intro s₁ l₁ h₁ call data out prevout hmem hcoin hkey s l h
  have hunusable : ¬ s.Usable call.pubkey := by
    intro husable
    exact h.unusable _ ⟨prevout, hmem, out, hcoin,
      paysTo_of_xmssPubkey h₁.retires.built husable.1 hkey⟩ husable
  rw [signXMSS_of_not_usable hunusable]
  refine ensures_pure ?_
  rintro out ⟨⟩
  exact h

/-- **An attempt without a key that can sign.** No key is retired and no leaf is consumed. -/
theorem Attempt.createTransactionInternal_inert {a : Attempt} {w : CWallet}
    (hs : w.signer.Built k.crypto) (h : a.Inert k cfg w) (sign : Bool) (d : WalletDir) :
    (a.createTransactionInternal k cfg sign w).Ensures d fun d' r => ∀ out, r = some out →
      Untouched w.signer d.ledger out.2.signer d'.ledger := by
  have hsame : ∀ {r : Except String CreatedTransactionResult}, Durable.Ensures (pure (r, w)) d
      fun d' r => ∀ out, r = some out → Untouched w.signer d.ledger out.2.signer d'.ledger := by
    intro r
    refine ensures_pure ?_
    rintro out ⟨⟩
    exact untouched_refl _ _
  cases hbuilt : a.built with
  | error error =>
    unfold createTransactionInternal
    rw [hbuilt]
    exact hsame
  | ok b =>
    rcases h b hbuilt with hmanagers | hlocked | ⟨txin, hmem, hcoin⟩ | hkeys
    · -- The other keys of the wallet complete the transaction.
      unfold createTransactionInternal Attempt.sign signTransaction
      rw [hbuilt, hmanagers]
      dsimp only
      split
      · split <;> exact hsame
      · exact hsame
    · unfold createTransactionInternal Attempt.sign signTransaction
      have hcrypted := (and_eq_true_iff.mp hlocked).1
      rw [hbuilt, hlocked, hcrypted]
      dsimp only
      split
      · split
        · split <;> exact hsame
        · exact hsame
      · exact hsame
    · have hmissing : ¬ (b.tx.vin.all fun txin => (cfg.mapWallet txin.prevout).isSome) = true := by
        intro hall
        have hsome := all_eq_true.mp hall txin hmem
        rw [hcoin] at hsome
        cases hsome
      unfold createTransactionInternal Attempt.sign
      rw [hbuilt]
      dsimp only
      rw [if_neg hmissing]
      split <;> exact hsame
    · have hdrawn : ∀ seed ∈ [a.keys.before.seed, a.keys.after.seed], ∀ pubkey,
          cfg.SpendsKey k.crypto b.tx pubkey → pubkey ∉ drawnKeys k [seed] := by
        intro seed hseed pubkey hspends hmem
        refine (hkeys pubkey hspends).2 ?_
        obtain ⟨seed', hseed', hkey⟩ := mem_filterMap.mp hmem
        rw [mem_singleton.mp hseed'] at hkey
        exact mem_filterMap.mpr ⟨seed, hseed, hkey⟩
      refine ensures_mono (createTransactionInternal_keeps
        (Quiet.generateKeeps (hdrawn _ (by simp))) (Quiet.generateKeeps (hdrawn _ (by simp)))
        hbuilt Quiet.signKeeps ⟨.refl hs, fun _ => rfl, fun p hp => (hkeys p hp).1⟩ sign) ?_
      intro d' r hr out hout
      obtain ⟨hquiet, -⟩ := hr out hout
      exact ⟨hquiet.retires.among, hquiet.leaves⟩

end Quiet

end AssentianPQE
