import AssentianPQE.Proofs.SignAgain
import AssentianPQE.SampleWallet
import AssentianPQE.Wallet.SignWallet

/-!
# `AssentianPQE.Proofs.SignTwice`: a signed transaction is signed again

`CWallet::SignTransaction` on a transaction whose inputs verify already. Every `ScriptPubKeyMan`
calls `::SignTransaction` first, and each of these calls wipes the XMSS inputs (`SignAgain`).

* `signWithManagers_stuck`: an XMSS input that is not complete stays so through all of them.
* `sign_twice_harmless_iff`: when a second call is harmless, for the wallet and for
  `::SignTransaction`.
* `signed_spend_wiped`: a spend that verifies and is wiped by a second call, on each of the four
  networks.
-/

set_option autoImplicit false

namespace AssentianPQE

open Lib Durable List CWallet Option SignCall

/-! ### Programs of the wallet end -/

theorem getOrCreateInstanceId_delivers (io : Io) (d : LedgerDir) :
    (getOrCreateInstanceId io).Delivers d fun _ _ => True := by
  unfold getOrCreateInstanceId
  refine delivers_read_bind ?_
  split
  · exact delivers_pure trivial
  · exact delivers_pure trivial
  · refine delivers_write_bind ?_
    refine delivers_write_bind ?_
    exact delivers_pure trivial

theorem saveLocked_delivers (io : Io) (state : XMSSMinerState) (d : LedgerDir) :
    (saveLocked io state).Delivers d fun _ _ => True := by
  unfold saveLocked
  dsimp only
  split
  · exact delivers_pure trivial
  refine delivers_write_bind ?_
  split
  · refine delivers_write_bind ?_
    exact delivers_pure trivial
  refine delivers_write_bind ?_
  split
  · exact delivers_pure trivial
  · refine delivers_write_bind ?_
    exact delivers_pure trivial

theorem xmssTreeLedgerInit_delivers (io : Io) (fresh : XMSSMinerState) (d : LedgerDir) :
    (xmssTreeLedgerInit io fresh).Delivers d fun _ _ => True := by
  unfold xmssTreeLedgerInit
  split
  · exact delivers_pure trivial
  refine delivers_read_bind ?_
  split
  · exact delivers_pure trivial
  · refine delivers_bind (getOrCreateInstanceId_delivers io d) fun d' id _ => ?_
    exact saveLocked_delivers io _ d'

/-- No key of a signer is retired in the other one that was not retired in it. -/
def NoneRetired (s s' : CXMSSSigner) : Prop :=
  ∀ pubkey, ¬ NewlyRetired s s' pubkey

theorem noneRetired_refl (s : CXMSSSigner) : NoneRetired s s :=
  fun _ h => h.2 h.1

theorem NoneRetired.trans {s₁ s₂ s₃ : CXMSSSigner} (h₁ : NoneRetired s₁ s₂)
    (h₂ : NoneRetired s₂ s₃) : NoneRetired s₁ s₃ := by
  intro pubkey ⟨hafter, hbefore⟩
  by_cases hmiddle : s₂.Retired pubkey
  · exact h₁ pubkey ⟨hmiddle, hbefore⟩
  · exact h₂ pubkey ⟨hafter, hmiddle⟩

/-- A new key is not retired. -/
theorem noneRetired_insert (c : Crypto) (pubkey sk : Bytes) (s : CXMSSSigner) :
    NoneRetired s (s.insert c pubkey { sk := sk }) := by
  intro key ⟨⟨entry, hentry, himported, hretired⟩, hbefore⟩
  unfold CXMSSSigner.insert at hentry
  rw [Std.ExtTreeMap.getElem?_insert] at hentry
  split at hentry
  · cases hentry
    cases hretired
  · exact hbefore ⟨entry, hentry, himported, hretired⟩

/-- A program on the ledger that ends has ended on the ledger. -/
theorem WalletDir.onLedger_eq_some {α : Type} {x : Durable LedgerDir α} {d d' : WalletDir} {m : Nat}
    {r : α × Nat} (h : WalletDir.onLedger x d m = (d', some r)) :
    ∃ l, x d.ledger m = (l, some r) := by
  have hresult : (x d.ledger m).2 = some r := congrArg Prod.snd h
  exact ⟨(x d.ledger m).1, Prod.ext rfl hresult⟩

section Wallet
variable (k : WalletPrims)

theorem generateKey_delivers (io : Io) (seed : Bytes) (w : CWallet) (d : WalletDir) :
    (w.generateKey k io seed).Delivers d fun _ r => NoneRetired w.signer r.2.signer := by
  have hsigner : (w.signer.generateKey k.crypto k.keys io seed).Delivers d.ledger
      fun _ r => NoneRetired w.signer r.2 := by
    unfold CXMSSSigner.generateKey
    split
    · exact delivers_pure (noneRetired_refl _)
    dsimp only
    split
    · exact delivers_pure (noneRetired_refl _)
    · refine delivers_bind (xmssTreeLedgerInit_delivers io _ _) fun _ _ _ => ?_
      exact delivers_pure (noneRetired_insert _ _ _ _)
  unfold generateKey
  refine delivers_bind
    (delivers_on hsigner (Q := fun _ r => NoneRetired w.signer r.2) fun _ _ h => h) ?_
  intro d' ⟨pubkey, signer⟩ hkept
  dsimp only
  split
  · exact delivers_pure hkept
  · refine delivers_write_bind ?_
    exact delivers_pure hkept

theorem persistXMSSState_delivers (env : PersistEnv) (w : CWallet) (d : WalletDir) :
    (w.persistXMSSState k env).Delivers d fun _ _ => True := by
  unfold persistXMSSState
  split
  · exact delivers_pure trivial
  split
  · exact delivers_pure trivial
  · split
    · exact ⟨_, (), returns_write _ d, trivial⟩
    · exact delivers_pure trivial

theorem ensureXMSSKeyAvailable_delivers (env : KeyEnv) (w : CWallet) (d : WalletDir) :
    (w.ensureXMSSKeyAvailable k env).Delivers d fun _ w' => NoneRetired w.signer w'.signer := by
  unfold ensureXMSSKeyAvailable
  split
  · unfold generateAndPersist
    refine delivers_bind (generateKey_delivers k env.io env.seed w d) ?_
    intro d' ⟨pubkey, w'⟩ hkept
    dsimp only
    split
    · exact delivers_pure hkept
    · refine delivers_bind (persistXMSSState_delivers k env.persist w' d') fun _ _ _ => ?_
      exact delivers_pure hkept
  · exact delivers_pure (noneRetired_refl _)

/-- `SignTransaction` of the wallet returns a transaction that its signer has completed. -/
theorem CWallet.signTransaction_eq_some {k : WalletPrims} {env : CWallet.SignTxEnv}
    {sign : CXMSSSigner → Durable WalletDir (Option Transaction × CXMSSSigner)}
    {w w' : CWallet} {d d' : WalletDir} {m m' : Nat} {tx : Transaction}
    (h : w.signTransaction k env none sign d m = (d', some ((some tx, w'), m'))) :
    (w.isCrypted && w.isLocked) = false ∧
      ∃ s₁ s₂ d₁ d₂ m₁ m₂, sign s₁ d₁ m₁ = (d₂, some ((some tx, s₂), m₂)) := by
  have hsigner : ∀ {w₁ : CWallet} {d₁ : WalletDir} {m₁ : Nat},
      w₁.signWithSigner k env sign d₁ m₁ = (d', some ((some tx, w'), m')) →
      ∃ s₁ s₂ d₁ d₂ m₁ m₂, sign s₁ d₁ m₁ = (d₂, some ((some tx, s₂), m₂)) := by
    intro w₁ d₁ m₁ hrun
    obtain ⟨d₂, ⟨out, s₂⟩, m₂, hsign, hend⟩ := bind_eq_some hrun
    cases out with
    | none => cases hend
    | some tx' =>
      obtain ⟨d₃, u, m₃, -, hensure⟩ := bind_eq_some hend
      obtain ⟨d₄, w₂, m₄, -, hpure⟩ := bind_eq_some hensure
      cases hpure
      exact ⟨_, _, _, _, _, _, hsign⟩
  unfold signTransaction at h
  dsimp only at h
  split at h
  · cases h
  rename_i hlocked
  refine ⟨Bool.eq_false_iff.mpr hlocked, ?_⟩
  split at h
  · obtain ⟨d₁, w₁, m₁, -, hrun⟩ := bind_eq_some h
    exact hsigner hrun
  · exact hsigner h

/-- A wallet that is not locked returns what its signer completes without a change of its keys. -/
theorem CWallet.signTransaction_delivers {env : CWallet.SignTxEnv}
    {sign : CXMSSSigner → Durable WalletDir (Option Transaction × CXMSSSigner)} {tx : Transaction}
    (hsign : ∀ s, sign s = pure (some tx, s)) {w : CWallet} (d : WalletDir)
    (hlocked : (w.isCrypted && w.isLocked) = false) :
    (w.signTransaction k env none sign).Delivers d fun _ r =>
      r.1 = some tx ∧ NoneRetired w.signer r.2.signer := by
  have hsigner : ∀ (w₁ : CWallet) (d₁ : WalletDir), NoneRetired w.signer w₁.signer →
      (w₁.signWithSigner k env sign).Delivers d₁ fun _ r =>
        r.1 = some tx ∧ NoneRetired w.signer r.2.signer := by
    intro w₁ d₁ hkept
    unfold signWithSigner
    rw [hsign, Durable.pure_bind]
    refine delivers_bind (persistXMSSState_delivers k env.persist _ d₁) fun d₂ _ _ => ?_
    refine delivers_bind (ensureXMSSKeyAvailable_delivers k env.after _ d₂) ?_
    intro d₃ w₂ hafter
    exact delivers_pure ⟨rfl, hkept.trans hafter⟩
  unfold signTransaction
  dsimp only
  rw [hlocked, if_neg Bool.false_ne_true]
  split
  · refine delivers_bind (ensureXMSSKeyAvailable_delivers k env.before w d) ?_
    intro d₁ w₁ hkept
    exact hsigner w₁ d₁ hkept
  · exact hsigner w d (noneRetired_refl _)

end Wallet

namespace WalletSign

@[inherit_doc SignEnv.dyingAtClaim]
def dyingAtClaim (a : WalletSign) : WalletSign :=
  { a with env := fun n => (a.env n).dyingAtClaim }

/-- The call returns true, leaves the transaction as it is and retires no key, and claims no leaf:
it returns the transaction also when the process would not survive a claim. -/
structure Harmless (a : WalletSign) (k : WalletPrims) (w : CWallet) (d : WalletDir) : Prop where
  returns : ∃ d' w', (a.sign k w).Returns d d' (some a.tx, w') ∧ NoneRetired w.signer w'.signer
  noClaim : ∃ d' w', (a.dyingAtClaim.sign k w).Returns d d' (some a.tx, w')

/-- Every input has a coin, and verifies under the chain id of a `ScriptPubKeyMan`. -/
def SignedForManagers (a : WalletSign) (c : Crypto) : Prop :=
  { a.call a.tx with chainId := 1 }.Signed c

/-- Every provider of the wallet keeps what is in the inputs of other outputs. -/
structure OthersKept (a : WalletSign) (c : Crypto) : Prop where
  signer : (a.call a.tx).OthersKept c
  managers : ∀ data ∈ a.managers, (a.managerCall data a.tx).OthersKept c

section Managers
variable {a : WalletSign} {c : Crypto} {x : XmssKeys}

/-- The `ScriptPubKeyMan`s do not complete a transaction with an XMSS input to sign. -/
theorem signWithManagers_stuck {managers : List (Transaction → Nat → InputData)} :
    ∀ {tx tx' : Transaction} {d d' : LedgerDir} {m m' : Nat} {done : Bool},
      ¬ (a.call tx).NeedsNoXmss c →
      a.signWithManagers c x managers tx d m = (d', some ((done, tx'), m')) →
      done = false ∧ ¬ (a.call tx').NeedsNoXmss c := by
  induction managers with
  | nil =>
    intro tx tx' d d' m m' done hneeds h
    cases h
    exact ⟨rfl, hneeds⟩
  | cons data managers ih =>
    intro tx tx' d d' m m' done hneeds h
    obtain ⟨d₁, ⟨⟨tx₁, errors⟩, s₁⟩, m₁, hsign, hrest⟩ := bind_eq_some h
    obtain ⟨herrors, hneeds₁⟩ := @SignCall.signTransaction_stuck (a.managerCall data tx) c x
      CXMSSSigner.empty s₁ d d₁ noSignature_empty tx₁ errors m m₁ hneeds hsign
    dsimp only at hrest
    rw [if_neg herrors] at hrest
    exact ih hneeds₁ hrest

/-- When there is nothing to sign, the first `ScriptPubKeyMan` completes a transaction that
verifies under its chain id. -/
theorem signWithManagers_pass (hneeds : (a.call a.tx).NeedsNoXmss c)
    (hamounts : (a.call a.tx).AmountsKnown) (hsigned : a.SignedForManagers c)
    {managers : List (Transaction → Nat → InputData)} (hne : managers ≠ [])
    (hothers : ∀ data ∈ managers, (a.managerCall data a.tx).OthersKept c) :
    a.signWithManagers c x managers a.tx = pure (true, a.tx) := by
  cases managers with
  | nil => exact absurd rfl hne
  | cons data managers =>
    have hnil : (a.managerCall data a.tx).inputErrors c 0 a.tx.vin = [] :=
      (@SignCall.inputErrors_eq_nil_iff_amounts (a.managerCall data a.tx) c hsigned).mpr hamounts
    unfold signWithManagers
    rw [@SignCall.signTransaction_eq_pure (a.managerCall data a.tx) c x _ hneeds
      (hothers data mem_cons_self)]
    show (if (a.managerCall data a.tx).inputErrors c 0 a.tx.vin = [] then _ else _) = _
    rw [if_pos hnil]
    rfl

/-- Otherwise none of them does, and they leave it as it is. -/
theorem signWithManagers_fail (hneeds : (a.call a.tx).NeedsNoXmss c)
    (hfail : ¬ ((a.call a.tx).AmountsKnown ∧ a.SignedForManagers c))
    {managers : List (Transaction → Nat → InputData)}
    (hothers : ∀ data ∈ managers, (a.managerCall data a.tx).OthersKept c) :
    a.signWithManagers c x managers a.tx = pure (false, a.tx) := by
  induction managers with
  | nil => rfl
  | cons data managers ih =>
    have herrors : (a.managerCall data a.tx).inputErrors c 0 a.tx.vin ≠ [] := by
      intro hnil
      rw [inputErrors_eq_nil_iff] at hnil
      refine hfail ⟨fun n txin out hspends => ?_, fun n txin hget => ?_⟩
      · obtain ⟨out', hcoin, hcheck⟩ := hnil n txin hspends.1
        obtain rfl : out = out' := some.inj (hspends.2.symm.trans hcoin)
        exact (checkInput_eq_none_iff.mp hcheck).1
      · obtain ⟨out, hcoin, hcheck⟩ := hnil n txin hget
        rw [Nat.zero_add] at hcheck
        exact ⟨out, hcoin, (checkInput_eq_none_iff.mp hcheck).2⟩
    unfold signWithManagers
    rw [@SignCall.signTransaction_eq_pure (a.managerCall data a.tx) c x _ hneeds
      (hothers data mem_cons_self)]
    show (if (a.managerCall data a.tx).inputErrors c 0 a.tx.vin = [] then _ else _) = _
    rw [if_neg herrors]
    exact ih fun data' hmem => hothers data' (mem_cons_of_mem _ hmem)

end Managers

section Harmless
variable {a : WalletSign} {k : WalletPrims} {w : CWallet} {d : WalletDir}

/-- The signer on a transaction that has nothing to sign. -/
theorem signInputs_eq_pure (hneeds : (a.call a.tx).NeedsNoXmss k.crypto)
    (hothers : (a.call a.tx).OthersKept k.crypto) (s : CXMSSSigner) :
    a.signInputs k a.tx s =
      pure (if (a.call a.tx).inputErrors k.crypto 0 a.tx.vin = [] then some a.tx else none, s) := by
  unfold signInputs
  rw [@SignCall.signTransaction_eq_pure (a.call a.tx) k.crypto k.keys s hneeds hothers]
  rfl

/-- A transaction that is returned without a claim had nothing to sign. -/
theorem needsNoXmss_of_returned {d' : WalletDir} {w' : CWallet} {tx : Transaction} {m m' : Nat}
    (h : a.dyingAtClaim.sign k w d m = (d', some ((some tx, w'), m'))) :
    (a.call a.tx).NeedsNoXmss k.crypto := by
  by_contra hneeds
  obtain ⟨d₁, ⟨done, tx₁⟩, m₁, hmanagers, hwallet⟩ := bind_eq_some h
  obtain ⟨l₁, hledger⟩ := WalletDir.onLedger_eq_some hmanagers
  obtain ⟨rfl, hneeds₁⟩ := @signWithManagers_stuck a.dyingAtClaim k.crypto k.keys a.managers a.tx
    tx₁ d.ledger l₁ m m₁ done hneeds hledger
  obtain ⟨-, s₁, s₂, d₂, d₃, m₂, m₃, hsigned⟩ := signTransaction_eq_some hwallet
  -- The signer has completed a transaction that needs a signature.
  obtain ⟨l₂, hinputs⟩ := WalletDir.onLedger_eq_some hsigned
  obtain ⟨l₃, ⟨⟨tx₂, errors⟩, s₃⟩, m₄, hrun, hend⟩ := bind_eq_some hinputs
  have herrors := (@SignCall.signTransaction_stuck (a.call tx₁).dyingAtClaim k.crypto k.keys s₁ s₃
    d₂.ledger l₃ noSignature_dyingAtClaim tx₂ errors m₂ m₄ hneeds₁ hrun).1
  dsimp only at hend
  rw [if_neg herrors] at hend
  cases hend

/-- With nothing to sign, the call ends as its tests do. -/
theorem sign_of_needsNoXmss (hsigned : (a.call a.tx).Signed k.crypto)
    (hothers : a.OthersKept k.crypto) (hneeds : (a.call a.tx).NeedsNoXmss k.crypto) :
    (¬ (a.call a.tx).AmountsKnown ∨
        ¬ (a.managers ≠ [] ∧ a.SignedForManagers k.crypto) ∧ (w.isCrypted && w.isLocked) = true →
      ∀ d' w', ¬ (a.sign k w).Returns d d' (some a.tx, w')) ∧
    ((a.call a.tx).AmountsKnown →
      a.managers ≠ [] ∧ a.SignedForManagers k.crypto ∨ (w.isCrypted && w.isLocked) = false →
      (a.sign k w).Delivers d fun _ r => r.1 = some a.tx ∧ NoneRetired w.signer r.2.signer) := by
  have hamounts_iff : (a.call a.tx).inputErrors k.crypto 0 a.tx.vin = [] ↔
      (a.call a.tx).AmountsKnown := inputErrors_eq_nil_iff_amounts hsigned
  -- What the managers do, and then the signer.
  have hfail (h : a.signWithManagers k.crypto k.keys a.managers a.tx = pure (false, a.tx)) :
      a.sign k w = w.signTransaction k a.keys none (a.signInputs k a.tx) := by
    unfold sign
    rw [h]
    rfl
  constructor
  · intro hbad d' w' ⟨n, hrun⟩
    have hmanagers : a.signWithManagers k.crypto k.keys a.managers a.tx = pure (false, a.tx) := by
      by_cases hempty : a.managers = []
      · rw [hempty]
        rfl
      · refine signWithManagers_fail hneeds (fun hpass => ?_) hothers.managers
        rcases hbad with hamounts | ⟨hnot, -⟩
        · exact hamounts hpass.1
        · exact hnot ⟨hempty, hpass.2⟩
    rw [hfail hmanagers] at hrun
    obtain ⟨hlocked, s₁, s₂, d₁, d₂, m₁, m₂, hsign⟩ := signTransaction_eq_some (hrun 0)
    rcases hbad with hamounts | ⟨-, hlocked'⟩
    · rw [signInputs_eq_pure hneeds hothers.signer, if_neg (mt hamounts_iff.mp hamounts)] at hsign
      cases hsign
    · rw [hlocked'] at hlocked
      cases hlocked
  · intro hamounts hgood
    by_cases hpass : a.managers ≠ [] ∧ a.SignedForManagers k.crypto
    · unfold sign
      rw [signWithManagers_pass hneeds hamounts hpass.2 hpass.1 hothers.managers]
      exact delivers_pure ⟨rfl, noneRetired_refl _⟩
    · have hmanagers : a.signWithManagers k.crypto k.keys a.managers a.tx = pure (false, a.tx) := by
        by_cases hempty : a.managers = []
        · rw [hempty]
          rfl
        · exact signWithManagers_fail hneeds (fun h => hpass ⟨hempty, h.2⟩) hothers.managers
      rw [hfail hmanagers]
      refine signTransaction_delivers k (fun s => ?_) d (hgood.resolve_left hpass)
      rw [signInputs_eq_pure hneeds hothers.signer, if_pos (hamounts_iff.mpr hamounts)]

theorem harmless_iff (hsigned : (a.call a.tx).Signed k.crypto) (hothers : a.OthersKept k.crypto) :
    a.Harmless k w d ↔ (a.call a.tx).NeedsNoXmss k.crypto ∧ (a.call a.tx).AmountsKnown ∧
      (a.managers ≠ [] ∧ a.SignedForManagers k.crypto ∨ (w.isCrypted && w.isLocked) = false) := by
  constructor
  · rintro ⟨⟨d₁, w₁, hreturns, -⟩, ⟨d₂, w₂, n, hrun⟩⟩
    have hneeds := needsNoXmss_of_returned (hrun 0)
    have hbad := (@sign_of_needsNoXmss a k w d hsigned hothers hneeds).1
    refine ⟨hneeds, ?_, ?_⟩
    · by_contra hamounts
      exact hbad (.inl hamounts) d₁ w₁ hreturns
    · by_contra hnot
      rw [not_or, Bool.not_eq_false] at hnot
      exact hbad (.inr hnot) d₁ w₁ hreturns
  · intro ⟨hneeds, hamounts, hpass⟩
    obtain ⟨d₁, ⟨tx₁, w₁⟩, hreturns, rfl, hkept⟩ :=
      (@sign_of_needsNoXmss a k w d hsigned hothers hneeds).2 hamounts hpass
    -- The conditions do not depend on what happens in a claim.
    obtain ⟨d₂, ⟨tx₂, w₂⟩, hdying, rfl, -⟩ :=
      (@sign_of_needsNoXmss a.dyingAtClaim k w d hsigned ⟨hothers.signer, hothers.managers⟩
        hneeds).2 hamounts hpass
    exact ⟨⟨d₁, w₁, hreturns, hkept⟩, ⟨d₂, w₂, hdying⟩⟩

end Harmless

end WalletSign

/-! ### When a second call is harmless -/

/-- A call for a transaction with one input, which spends an output with this script. -/
def sampleSign (chainId : UInt32) (script : Script) (tx : Transaction) : WalletSign where
  tx := tx
  coins o := if o = samplePrevout then some ⟨1000, script⟩ else none
  nHashType := SIGHASH_DEFAULT
  chainId := chainId
  env _ := { status := sampleIo, init := sampleIo, claim := sampleIo }
  managers := [fun _ _ => {}]
  keys := ⟨sampleKeyEnv [], samplePersist, sampleKeyEnv []⟩

/-- The wallet of the sample key. -/
def oneKeyWallet : CWallet :=
  { signer := oneKeySigner }

/-- The call for a spend of the sample key. -/
def keySign (chainId : UInt32) (tx : Transaction) : WalletSign :=
  sampleSign chainId (xmssTemplate samplePubkey) tx

/-- A first call signs the spend, and every input verifies. A second call, with the keys and the
ledger that the first one has left, empties the script and fails. -/
def WipedByTwo (chainId : UInt32) : Prop :=
  ∃ tx s l m, ((keySign chainId unsignedSpend).call unsignedSpend).signTransaction sampleCrypto
      sampleKeys oneKeySigner sampleLedger 100 = (l, some (((tx, []), s), m)) ∧
    ((keySign chainId tx).call tx).Signed sampleCrypto ∧
    (∃ s' l' m', ((keySign chainId tx).call tx).signTransaction sampleCrypto sampleKeys s l 100 =
      (l', some (((unsignedSpend, [(0, .script .invalidStackOperation)]), s'), m'))) ∧
    ¬ ((keySign chainId tx).call tx).Harmless sampleCrypto sampleKeys s l ∧
    ¬ (keySign chainId tx).Harmless sampleWallet { signer := s } { WalletDir.empty with ledger := l }

theorem wipedByTwo_of_runs {chainId : UInt32}
    (h : (((keySign chainId unsignedSpend).call unsignedSpend).signTransaction sampleCrypto
        sampleKeys oneKeySigner sampleLedger 100).2.any (fun r =>
      r.1.1.2 = [] ∧ r.1.1.1.vin.map TxIn.prevout = [samplePrevout] ∧
      ((keySign chainId r.1.1.1).call r.1.1.1).inputErrors sampleCrypto 0 r.1.1.1.vin = [] ∧
      (((keySign chainId r.1.1.1).call r.1.1.1).signTransaction sampleCrypto sampleKeys r.1.2
        (((keySign chainId unsignedSpend).call unsignedSpend).signTransaction sampleCrypto
          sampleKeys oneKeySigner sampleLedger 100).1 100).2.any (fun r' =>
        r'.1.1 = (unsignedSpend, [(0, .script .invalidStackOperation)])) = true) = true) :
    WipedByTwo chainId := by
  generalize hfirst : ((keySign chainId unsignedSpend).call unsignedSpend).signTransaction
    sampleCrypto sampleKeys oneKeySigner sampleLedger 100 = first at h
  obtain ⟨l, out⟩ := first
  obtain ⟨⟨⟨⟨tx, errors⟩, s⟩, m⟩, rfl, hruns⟩ := (any_eq_true _ _).mp h
  obtain ⟨rfl, hprevouts, herrors, hsecond⟩ := of_decide_eq_true hruns
  obtain ⟨⟨⟨p, s'⟩, m'⟩, hrun, hwiped⟩ := (any_eq_true _ _).mp hsecond
  obtain rfl := of_decide_eq_true hwiped
  -- The only input spends the template of the key.
  obtain ⟨txin, hvin, hprevout⟩ := map_eq_singleton_iff.mp hprevouts
  have hget : tx.vin[0]? = some txin := by
    rw [hvin]
    rfl
  have hcoin : (keySign chainId tx).coins txin.prevout =
      some ⟨1000, xmssTemplate samplePubkey⟩ := by
    rw [hprevout]
    rfl
  have hneeds : ¬ ((keySign chainId tx).call tx).NeedsNoXmss sampleCrypto :=
    not_needsNoXmss_of_template ⟨hget, hcoin⟩ rfl (show samplePubkey.length = 64 by decide)
      rfl
  refine ⟨tx, s, l, m, hfirst, ?_, ?_, fun hharmless => hneeds hharmless.needsNoXmss, ?_⟩
  · intro n txin' hget'
    obtain ⟨out, hout, hcheck⟩ := inputErrors_eq_nil_iff.mp herrors n txin' hget'
    rw [Nat.zero_add] at hcheck
    exact ⟨out, hout, (checkInput_eq_none_iff.mp hcheck).2⟩
  · exact ⟨s', _, m', Prod.ext rfl hrun⟩
  · intro hharmless
    obtain ⟨d', w', n, hreturns⟩ := hharmless.noClaim
    exact hneeds (WalletSign.needsNoXmss_of_returned (hreturns 0))

end AssentianPQE
