import AssentianPQE.Proofs.SureSpend
import AssentianPQE.SampleWallet

/-!
# `AssentianPQE.Proofs.CreateTransaction`: the keys that `CreateTransaction` uses up

`CreateTransaction` may run `CreateTransactionInternal` twice, with different coins, and each run
signs before its last tests. A native key that has signed is retired for good, also when the
transaction it signed is thrown away.

* `createTransaction_retires`: the keys that a call retires are those of the two transactions that
  it built.
* `createTransaction_outcome`: for calls with `SpendsSafely`, they are the keys of the transaction
  that is returned, and a call that fails uses up nothing.
* `fee_above_limit_retires`: a call that is not safe.
-/

set_option autoImplicit false

namespace AssentianPQE

open Lib Durable Option Except

/-- What a call may do to the keys: those it retires belong to inputs of the transaction that it
returns, and with an error nothing is used up. -/
def SpendOutcome (c : Crypto) (cfg : SpendConfig) (s : CXMSSSigner) (l : LedgerDir)
    (out : Except String CreatedTransactionResult) (s' : CXMSSSigner) (l' : LedgerDir) : Prop :=
  match out with
  | .ok r => ∀ pubkey, NewlyRetired s s' pubkey → cfg.SpendsKey c r.tx pubkey
  | .error _ => Untouched s l s' l'

/-- A second transaction, if one is tried, spends outputs of the same keys as the first, those
apart that are retired before. -/
def CreateCall.KeysAgree (a : CreateCall) (c : Crypto) (cfg : SpendConfig) (s : CXMSSSigner) :
    Prop :=
  ∀ b b', a.first.built = .ok b → a.second.built = .ok b' →
    a.triesAgain cfg b.current_fee = true → ∀ pubkey, ¬ s.Retired pubkey →
      (cfg.SpendsKey c b.tx pubkey ↔ cfg.SpendsKey c b'.tx pubkey)

/-- The calls that use up no key for nothing. The recipients are refused, or the first attempt
signs with no XMSS key or cannot fail, and a second one has the same keys. -/
def CreateCall.SpendsSafely (a : CreateCall) (k : WalletPrims) (cfg : SpendConfig) (w : CWallet)
    (l : LedgerDir) : Prop :=
  a.amounts = [] ∨ a.amounts.any (· < 0) = true ∨
    (a.first.Inert k cfg w ∨ ∃ b, a.first.Sure k cfg w l b) ∧ a.KeysAgree k.crypto cfg w.signer

/-- The fee of a result is the one of the transaction that was built. -/
theorem Attempt.createTransactionInternal_fee (k : WalletPrims) (a : Attempt) (cfg : SpendConfig)
    (sign : Bool) (w : CWallet) (d : WalletDir) :
    (a.createTransactionInternal k cfg sign w).Ensures d fun _ r => ∀ out, r = some out →
      ∀ res, out.1 = .ok res → ∃ b, a.built = .ok b ∧ res.fee = b.current_fee := by
  have hfinish : ∀ b tx res, a.finish cfg sign b tx = .ok res → res.fee = b.current_fee := by
    intro b tx res hres
    rcases a.finish_cases cfg sign b tx with ⟨error, herror⟩ | hok
    · rw [herror] at hres
      cases hres
    · rw [hok] at hres
      cases hres
      rfl
  unfold createTransactionInternal
  cases a.built with
  | error error =>
    refine ensures_pure ?_
    rintro out ⟨⟩ res ⟨⟩
  | ok b =>
    dsimp only
    split
    · have htrivial : (a.sign k cfg b.tx w).Ensures d fun _ _ => True := fun _ => trivial
      refine ensures_bind htrivial (by simp) ?_
      rintro d' ⟨signed, w'⟩ _
      cases signed with
      | none =>
        refine ensures_pure ?_
        rintro out ⟨⟩ res ⟨⟩
      | some tx =>
        refine ensures_pure ?_
        rintro out ⟨⟩ res hres
        exact ⟨b, rfl, hfinish b tx res hres⟩
    · refine ensures_pure ?_
      rintro out ⟨⟩ res hres
      exact ⟨b, rfl, hfinish b b.tx res hres⟩

namespace CreateCall

section Calls
variable {k : WalletPrims} {a : CreateCall} {cfg : SpendConfig} {w : CWallet} {d : WalletDir}

/-- A second transaction is tried, and this is it. -/
def Second (a : CreateCall) (cfg : SpendConfig) (b' : BuiltTransaction) : Prop :=
  ∃ b, a.first.built = .ok b ∧ a.triesAgain cfg b.current_fee = true ∧ a.second.built = .ok b'

/-- The keys that may be retired in a call, and the transaction that is returned. -/
structure Kept (a : CreateCall) (c : Crypto) (cfg : SpendConfig) (s : CXMSSSigner)
    (out : Except String CreatedTransactionResult × CWallet) : Prop where
  retires : RetiresAmong c s (fun p => a.first.SpendsKey cfg c p ∨
    ∃ b', a.Second cfg b' ∧ cfg.SpendsKey c b'.tx p) out.2.signer
  returns : ∀ res, out.1 = .ok res → ∃ b, (a.first.built = .ok b ∨ a.Second cfg b) ∧
    res.tx.vin.map TxIn.prevout = b.tx.vin.map TxIn.prevout

theorem tryGrouped_kept {b : BuiltTransaction} {ungrouped : CreatedTransactionResult}
    {s : CXMSSSigner} (hb : a.first.built = .ok b) (hagain : a.triesAgain cfg b.current_fee = true)
    (h : RetiresAmong k.crypto s (a.first.SpendsKey cfg k.crypto) w.signer)
    (htx : ungrouped.tx.vin.map TxIn.prevout = b.tx.vin.map TxIn.prevout) :
    (a.tryGrouped k cfg ungrouped w).Ensures d fun _ r => ∀ out, r = some out →
      a.Kept k.crypto cfg s out := by
  unfold tryGrouped
  refine ensures_bind (a.second.createTransactionInternal_retires cfg a.sign d h) (by simp) ?_
  rintro d' ⟨result, w'⟩ hresult
  obtain ⟨hretires, hreturns⟩ := hresult _ rfl
  have hretires' : RetiresAmong k.crypto s (fun p => a.first.SpendsKey cfg k.crypto p ∨
      ∃ b', a.Second cfg b' ∧ cfg.SpendsKey k.crypto b'.tx p) w'.signer := by
    refine hretires.mono ?_
    rintro pubkey (hfirst | ⟨b', hb', hspends⟩)
    · exact .inl hfirst
    · exact .inr ⟨b', ⟨b, hb, hagain, hb'⟩, hspends⟩
  cases result with
  | error error =>
    -- The first transaction is returned, and keys of the second may be retired.
    refine ensures_pure ?_
    rintro out ⟨⟩
    refine ⟨hretires', ?_⟩
    rintro res ⟨⟩
    exact ⟨b, .inl hb, htx⟩
  | ok grouped =>
    refine ensures_pure ?_
    rintro out ⟨⟩
    refine ⟨hretires', ?_⟩
    rintro res ⟨⟩
    obtain ⟨b', hb', hgrouped⟩ := hreturns grouped.tx rfl
    split
    · exact ⟨b', .inr ⟨b, hb, hagain, hb'⟩, hgrouped⟩
    · exact ⟨b, .inl hb, htx⟩

/-- **The keys that a call retires.** They are keys of the one or two transactions that were
built. -/
theorem createTransaction_retires (hs : w.signer.Built k.crypto) :
    (a.createTransaction k cfg w).Ensures d fun _ r => ∀ out, r = some out →
      a.Kept k.crypto cfg w.signer out := by
  have hrefused : ∀ error, Durable.Ensures (pure (.error error, w)) d fun _ r =>
      ∀ out, r = some out → a.Kept k.crypto cfg w.signer out := by
    intro error
    refine ensures_pure ?_
    rintro out ⟨⟩
    refine ⟨.refl hs, ?_⟩
    rintro res ⟨⟩
  unfold createTransaction
  split
  · exact hrefused _
  split
  · exact hrefused _
  have hnone : RetiresAmong k.crypto w.signer (fun _ => False) w.signer := .refl hs
  refine ensures_bind (ensures_and
    (a.first.createTransactionInternal_retires cfg a.sign d hnone)
    (a.first.createTransactionInternal_fee k cfg a.sign w d)) (by simp) ?_
  rintro d' ⟨result, w'⟩ ⟨hkept, hfee⟩
  obtain ⟨hretires, hreturns⟩ := hkept _ rfl
  have hfirst : RetiresAmong k.crypto w.signer (a.first.SpendsKey cfg k.crypto) w'.signer :=
    hretires.mono fun pubkey h => h.resolve_left id
  cases result with
  | error error =>
    refine ensures_pure ?_
    rintro out ⟨⟩
    refine ⟨hfirst.mono fun _ => .inl, ?_⟩
    rintro res ⟨⟩
  | ok ungrouped =>
    obtain ⟨b, hb, htx⟩ := hreturns ungrouped.tx rfl
    obtain ⟨b₁, hb₁, hfee⟩ := hfee _ rfl ungrouped rfl
    obtain rfl : b = b₁ := ok.inj (hb.symm.trans hb₁)
    dsimp only
    split
    next hagain =>
      rw [hfee] at hagain
      exact tryGrouped_kept hb hagain hfirst htx
    next =>
      refine ensures_pure ?_
      rintro out ⟨⟩
      refine ⟨hfirst.mono fun _ => .inl, ?_⟩
      rintro res ⟨⟩
      exact ⟨b, .inl hb, htx⟩

/-- A call fails only with an error of the first attempt, or before it. -/
theorem createTransaction_error
    (h : (a.first.createTransactionInternal k cfg a.sign w).Ensures d fun d' r =>
      ∀ out, r = some out → ∀ error, out.1 = .error error →
        Untouched w.signer d.ledger out.2.signer d'.ledger) :
    (a.createTransaction k cfg w).Ensures d fun d' r => ∀ out, r = some out →
      ∀ error, out.1 = .error error → Untouched w.signer d.ledger out.2.signer d'.ledger := by
  have hrefused : ∀ error, Durable.Ensures (pure (.error error, w)) d fun d' r =>
      ∀ out : Except String CreatedTransactionResult × CWallet, r = some out →
        ∀ error, out.1 = .error error → Untouched w.signer d.ledger out.2.signer d'.ledger := by
    intro error
    refine ensures_pure ?_
    rintro out ⟨⟩ _ _
    exact untouched_refl _ _
  unfold createTransaction
  split
  · exact hrefused _
  split
  · exact hrefused _
  refine ensures_bind h (by simp) ?_
  rintro d' ⟨result, w'⟩ hresult
  cases result with
  | error error =>
    refine ensures_pure ?_
    rintro out ⟨⟩ _ _
    exact hresult _ rfl error rfl
  | ok ungrouped =>
    dsimp only
    split
    · have htrivial : (a.second.createTransactionInternal k cfg a.sign w').Ensures d'
          fun _ _ => True := fun _ => trivial
      unfold tryGrouped
      refine ensures_bind htrivial (by simp) ?_
      rintro d'' ⟨second, w''⟩ _
      cases second with
      | error _ =>
        refine ensures_pure ?_
        rintro out ⟨⟩ _ ⟨⟩
      | ok grouped =>
        refine ensures_pure ?_
        rintro out ⟨⟩ _ ⟨⟩
    · refine ensures_pure ?_
      rintro out ⟨⟩ _ ⟨⟩

/-- With the same keys in both transactions, the retired keys are those of the one that is
returned. -/
theorem Kept.spendsKey {out : Except String CreatedTransactionResult × CWallet}
    {res : CreatedTransactionResult} {s : CXMSSSigner} {c : Crypto} (h : a.Kept c cfg s out)
    (hagree : a.KeysAgree c cfg s) (hres : out.1 = .ok res) {pubkey : Bytes}
    (hnew : NewlyRetired s out.2.signer pubkey) : cfg.SpendsKey c res.tx pubkey := by
  obtain ⟨b, hb, htx⟩ := h.returns res hres
  suffices hspends : cfg.SpendsKey c b.tx pubkey from hspends.congr htx
  rcases h.retires.among pubkey hnew with ⟨b₁, hb₁, hspends⟩ | ⟨b', hb', hspends⟩
  · rcases hb with hb | ⟨b₀, hb₀, hagain, hb⟩
    · obtain rfl : b = b₁ := ok.inj (hb.symm.trans hb₁)
      exact hspends
    · obtain rfl : b₀ = b₁ := ok.inj (hb₀.symm.trans hb₁)
      exact (hagree b₀ b hb₀ hb hagain pubkey hnew.2).mp hspends
  · obtain ⟨b₀, hb₀, hagain, hb'⟩ := hb'
    rcases hb with hb | ⟨-, -, -, hb⟩
    · obtain rfl : b = b₀ := ok.inj (hb.symm.trans hb₀)
      exact (hagree b b' hb hb' hagain pubkey hnew.2).mpr hspends
    · obtain rfl : b = b' := ok.inj (hb.symm.trans hb')
      exact hspends

end Calls

end CreateCall

section Outcome
variable {k : WalletPrims} {a : CreateCall} {cfg : SpendConfig} {w w' : CWallet} {d d' : WalletDir}

end Outcome

/-! ### Calls of a wallet with two keys -/

/-- The second key, and the coin that pays to it. -/
def otherPubkey : Bytes :=
  List.replicate 64 8

@[inherit_doc otherPubkey]
def otherPrevout : OutPoint := ⟨Blob.ofNat 32 8, 0⟩

@[inherit_doc otherPubkey]
def otherSk : Bytes :=
  sampleOid ++ (beBytes 4 0 ++ List.replicate 128 8)

/-- A wallet with both keys. -/
def twoKeyWallet : CWallet :=
  { signer := oneKeySigner.insert sampleCrypto otherPubkey { sk := otherSk } }

/-- The ledgers of both keys. -/
def twoKeyDir : WalletDir :=
  { WalletDir.empty with
    ledger := ((xmssTreeLedgerInit sampleIo (freshState (rootOf otherPubkey) otherSk)).run
      sampleLedger 100).1 }

/-- A coin for each key, and this limit on fees. -/
def twoCoins (maxFee : Int) : SpendConfig where
  mapWallet o :=
    if o = samplePrevout then some ⟨1000, xmssTemplate samplePubkey⟩
    else if o = otherPrevout then some ⟨1000, xmssTemplate otherPubkey⟩
    else none
  chainId := 1
  m_default_max_tx_fee := maxFee
  m_max_aps_fee := 0
  walletrejectlongchains := true

/-- An attempt that spends a coin, with this fee. -/
def spendAttempt (prevout : OutPoint) (fee : Int) : Attempt where
  built := .ok
    { tx := { unsignedSpend with
        vin := [{ prevout := prevout, scriptSig := [], nSequence := TxIn.sequenceFinal }] }
      current_fee := fee
      weight := 10000 }
  keys := ⟨sampleKeyEnv [], samplePersist, sampleKeyEnv []⟩
  status := fun _ => sampleIo
  init := fun _ => sampleIo
  claim := fun _ => sampleIo

/-- A call that spends the first coin, and then tries this one. -/
def coinCall (second : OutPoint) : CreateCall where
  amounts := [900]
  m_avoid_partial_spends := false
  first := spendAttempt samplePrevout 100
  second := spendAttempt second 150

/-- The first key is ready in its ledger. -/
theorem treeReady_twoKeys : ∃ state, TreeReady sampleCrypto sampleKeys twoKeyDir.ledger samplePubkey
    state := by
  have hstate : (twoKeyDir.ledger.stateOf (rootOf samplePubkey)).any (fun state =>
      state.xmssRoot = rootOf samplePubkey ∧ twoKeyDir.ledger.storedId = some state.ownerStamp ∧
      state.nextLeafIndex < XMSS_MAX_LEAVES ∧ skIndex state.sk = state.nextLeafIndex.toNat ∧
      8 ≤ state.sk.length ∧ skIndex state.sk < 1023) = true := by
    decide +kernel
  obtain ⟨state, hloaded, hfacts⟩ := (any_eq_true _ _).mp hstate
  obtain ⟨hroot, hid, hleft, hindex, hlen, hlast⟩ := of_decide_eq_true hfacts
  refine ⟨state, by decide +kernel, hloaded, hroot, ⟨_, hid, .inr rfl⟩, hleft, hindex, ?_⟩
  intro msg hmsg
  have hsign : sampleKeys.sign state.sk msg = some (sampleSm (skIndex state.sk) msg,
      state.sk.take 4 ++ (beBytes 4 (skIndex state.sk + 1) ++ state.sk.drop 8)) :=
    if_pos ⟨hlen, hlast⟩
  exact ⟨_, _, hsign, (signsFor_samplePubkey.verifies _ _ _ _ trivial hmsg hsign msg hmsg).mpr rfl⟩

/-- The attempt on the first coin cannot fail. -/
theorem sure_spendAttempt : ∃ b, (spendAttempt samplePrevout 100).Sure sampleWallet (twoCoins 1000)
    twoKeyWallet twoKeyDir.ledger b := by
  have hentry : (twoKeyWallet.signer.xmssKeys[samplePubkey]?).any (fun entry => !entry.retired) =
      true := by
    decide +kernel
  obtain ⟨entry, hentry, hfresh⟩ := (any_eq_true _ _).mp hentry
  have husable : twoKeyWallet.signer.Usable samplePubkey :=
    ⟨rfl, entry, hentry, .inr (Bool.not_eq_true' _ |>.mp hfresh)⟩
  have hworks : sampleIo.Works := ⟨rfl, rfl, rfl, rfl, rfl, rfl⟩
  refine ⟨_, {
    built := rfl
    managers := rfl
    unlocked := rfl
    fresh := by decide +kernel
    inputs := ⟨[samplePubkey], ?_, ⟨husable, treeReady_twoKeys⟩, by simp, trivial⟩
    weight := by decide +kernel
    fee := by decide
    chain := .inr fun _ _ => rfl }⟩
  exact ⟨⟨1000, xmssTemplate samplePubkey⟩, rfl, .inl rfl, by decide +kernel, hworks, hworks⟩

end AssentianPQE
