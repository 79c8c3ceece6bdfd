import AssentianPQE.Proofs.RetiredKeys
import AssentianPQE.Proofs.SignTwice

/-!
# `AssentianPQE.Proofs.KeyPool`: the key pool of the wallet

`EnsureXMSSKeyAvailable` counts the keys that are not marked as retired. Whether a key signs depends
on its ledger, on the blacklist and on how the key came into the wallet, none of which is counted.

* `poolSigns_iff`: when nothing fails, the signer holds a key that signs if and only if one of its
  keys can be used (`UsableKey`).
* `ledgerInit_usable`: the ledger of a new key makes no other key usable that was not.
* `ensured_pool_signs_iff` says for which wallets and ledgers the pool is not dry after a call.
* `usableKey_of_new_tree`: an empty pool gets a key that signs, if the tree is a new one.
-/

set_option autoImplicit false

namespace AssentianPQE

open Lib Durable Option Std.ExtTreeMap CWallet Function LedgerDir

variable {s : CXMSSSigner} {pubkey sk : Bytes} {d : LedgerDir}

/-! ### Keys that sign -/

/-- `SignXMSS` returns true for the key, whatever the hash is. -/
def AlwaysSigns (x : XmssKeys) (env : SignEnv) (pubkey : Bytes) (s : CXMSSSigner) (d : LedgerDir) :
    Prop :=
  ∀ hash, ∃ d' p s', (s.signXMSS x env hash pubkey).Returns d d' (some p, s')

/-- The signer holds a key that signs. -/
def PoolSigns (x : XmssKeys) (env : SignEnv) (s : CXMSSSigner) (d : LedgerDir) : Prop :=
  ∃ pubkey, pubkey ∈ s.xmssKeys ∧ AlwaysSigns x env pubkey s d

/-- One of the keys can sign in the datadir with this instance id. -/
def UsableKey (id : Blob OWNER_STAMP_BYTES) (s : CXMSSSigner) (d : LedgerDir) : Prop :=
  ∃ pubkey entry, s.xmssKeys[pubkey]? = some entry ∧ CanSign pubkey entry d ∧
    Claimable id d (rootOf pubkey)

section Sign

variable {x : XmssKeys} {env : SignEnv}

theorem alwaysSigns_iff (hx : SignsBelow x) (halone : env.Alone) (hinit : env.init.Succeeds)
    (hclaim : env.claim.Succeeds) {entry : XMSSKeyEntry} (hentry : s.xmssKeys[pubkey]? = some entry)
    (d : LedgerDir) :
    AlwaysSigns x env pubkey s d ↔
      CanSign pubkey entry d ∧ Claimable (d.claimId env.claim) d (rootOf pubkey) := by
  constructor
  · intro halways
    obtain ⟨d₁, out, s₁, hrun, hsigns⟩ :=
      signXMSS_returns hx halone hinit hclaim hentry d nullHash
    obtain ⟨d₂, p, s₂, hsome⟩ := halways nullHash
    obtain ⟨-, heq⟩ := hrun.unique hsome
    cases heq
    exact hsigns.mp rfl
  · intro hcan hash
    obtain ⟨d₁, out, s₁, hrun, hsigns⟩ := signXMSS_returns hx halone hinit hclaim hentry d hash
    obtain ⟨p, rfl⟩ := isSome_iff_exists.mp (hsigns.mpr hcan)
    exact ⟨d₁, p, s₁, hrun⟩

theorem poolSigns_iff (hx : SignsBelow x) (halone : env.Alone) (hinit : env.init.Succeeds)
    (hclaim : env.claim.Succeeds) (s : CXMSSSigner) (d : LedgerDir) :
    PoolSigns x env s d ↔ UsableKey (d.claimId env.claim) s d := by
  constructor
  · rintro ⟨pubkey, hmem, halways⟩
    have hentry := getElem?_eq_some_getElem hmem
    exact ⟨pubkey, _, hentry, (alwaysSigns_iff hx halone hinit hclaim hentry d).mp halways⟩
  · rintro ⟨pubkey, entry, hentry, hcan⟩
    refine ⟨pubkey, ?_, (alwaysSigns_iff hx halone hinit hclaim hentry d).mpr hcan⟩
    exact mem_iff_isSome_getElem?.mpr (hentry ▸ rfl)

end Sign

/-! ### The ledger of a new key -/

/-- The instance id of the datadir once a new key has got its ledger. It is drawn with the ledger if
there is none. -/
def idAfterInit (init claim : Io) (d : LedgerDir) (root : Uint256) (sk : Bytes) :
    Blob OWNER_STAMP_BYTES :=
  if d.dat root = none ∧ (freshState root sk).isValid = true then d.claimId init
  else d.claimId claim

/-- All keys but this one are retired. -/
def OthersRetired (pubkey : Bytes) (s : CXMSSSigner) : Prop :=
  ∀ pubkey' entry, s.xmssKeys[pubkey']? = some entry → pubkey' = pubkey ∨ entry.retired = true

section NewLedger

variable {d d' : LedgerDir} {root : Uint256}

theorem treeState_update {data : Option Bytes} (hdat : d'.dat = update d.dat root data)
    {root' : Uint256} (hne : root' ≠ root) : d'.treeState root' = d.treeState root' := by
  unfold treeState stateOf
  rw [hdat, update_of_ne hne]

/-- A key of another tree is as usable as before. -/
theorem usable_update {data : Option Bytes} (hdat : d'.dat = update d.dat root data)
    (hsentinel : d'.forceclaim = d.forceclaim) (hne : rootOf pubkey ≠ root) (entry : XMSSKeyEntry)
    (id : Blob OWNER_STAMP_BYTES) :
    CanSign pubkey entry d' ∧ Claimable id d' (rootOf pubkey) ↔
      CanSign pubkey entry d ∧ Claimable id d (rootOf pubkey) := by
  have hfile : d'.dat (rootOf pubkey) = d.dat (rootOf pubkey) := by
    rw [hdat, update_of_ne hne]
  unfold CanSign LedgerSigns ClaimSigns Claimable
  rw [hfile, hsentinel, treeState_update hdat hne]

end NewLedger

/-- A key that has just been generated gets its ledger. What can be used after it is what the files
before it say, if all other keys are retired. -/
theorem ledgerInit_usable {io : Io} (hio : io.Succeeds) (claim : Io) (hlen : pubkey.length = 64)
    (hnew : s.xmssKeys[pubkey]? = some { sk := sk }) (hothers : OthersRetired pubkey s)
    (d : LedgerDir) :
    ∃ d' ok, (xmssTreeLedgerInit io (freshState (rootOf pubkey) sk)).Returns d d' ok ∧
      (UsableKey (d'.claimId claim) s d' ↔
        UsableKey (idAfterInit io claim d (rootOf pubkey) sk) s d) := by
  by_cases hinit : d.dat (rootOf pubkey) = none ∧ (freshState (rootOf pubkey) sk).isValid = true
  · obtain ⟨hnone, hvalid⟩ := hinit
    obtain ⟨d', hrun, hid, hsentinel, hdat⟩ := ledgerInit_returns hio hvalid hnone
    refine ⟨d', true, hrun, ?_⟩
    rw [claimId_of_storedId hid, idAfterInit, if_pos ⟨hnone, hvalid⟩]
    have hfile : d'.dat (rootOf pubkey) =
        some ((freshState (rootOf pubkey) sk).claimedBy (d.claimId io)).serialize :=
      (congrFun hdat _).trans (update_self ..)
    obtain ⟨hclaimable, hsigns⟩ := claimSigns_of_fresh hvalid hfile
    constructor
    · rintro ⟨pubkey', entry, hentry, hcan⟩
      by_cases hroot : rootOf pubkey' = rootOf pubkey
      · -- A key of the new tree signs with the ledger of the new key, so the new key signs.
        have hledger := hcan.1.2.2
        rw [hroot, LedgerSigns, if_neg (hfile ▸ some_ne_none _)] at hledger
        have hfresh := hsigns.mp hledger
        refine ⟨pubkey, _, hnew, ⟨hlen, .inr rfl, ?_⟩, ?_⟩
        · rw [LedgerSigns, if_pos hnone]
          exact ⟨rfl, hfresh⟩
        · intro state hstate
          exact absurd hnone (dat_of_treeState hstate)
      · exact ⟨pubkey', entry, hentry, (usable_update hdat hsentinel hroot entry _).mp hcan⟩
    · rintro ⟨pubkey', entry, hentry, hcan⟩
      by_cases hroot : rootOf pubkey' = rootOf pubkey
      · have hledger := hcan.1.2.2
        rw [hroot, LedgerSigns, if_pos hnone] at hledger
        -- Without a ledger only a key that is not retired signs, which is the new one.
        have hopen : entry.retired = false := by
          have himported := hcan.1.2.1
          rw [hledger.1] at himported
          exact himported.resolve_left Bool.false_ne_true
        obtain rfl : pubkey' = pubkey := by
          refine (hothers pubkey' entry hentry).resolve_right ?_
          rw [hopen]
          exact Bool.false_ne_true
        rw [hnew] at hentry
        cases hentry
        refine ⟨pubkey', _, hnew, ⟨hlen, .inr rfl, ?_⟩, hclaimable⟩
        rw [LedgerSigns, if_neg (hfile ▸ some_ne_none _)]
        exact hsigns.mpr hledger.2
      · exact ⟨pubkey', entry, hentry, (usable_update hdat hsentinel hroot entry _).mpr hcan⟩
  · -- Nothing is written.
    have hrun : ∃ ok, (xmssTreeLedgerInit io (freshState (rootOf pubkey) sk)).Returns d d ok := by
      cases hvalid : (freshState (rootOf pubkey) sk).isValid with
      | true => exact ⟨true, ledgerInit_of_dat io hvalid fun hnone => hinit ⟨hnone, hvalid⟩⟩
      | false =>
        unfold xmssTreeLedgerInit
        rw [hvalid]
        exact ⟨false, returns_pure d false⟩
    obtain ⟨ok, hrun⟩ := hrun
    refine ⟨d, ok, hrun, ?_⟩
    rw [idAfterInit, if_neg hinit]

/-! ### A call of `EnsureXMSSKeyAvailable` -/

section Ensure

variable {k : WalletPrims} {env : KeyEnv}

theorem retired_of_countFreshKeys_eq_zero (h : s.countFreshKeys = 0) {entry : XMSSKeyEntry}
    (hentry : s.xmssKeys[pubkey]? = some entry) :
    entry.retired = true := by
  have hnot := List.countP_eq_zero.mp h (pubkey, entry)
    (mem_toList_iff_getElem?_eq_some.mpr hentry)
  simpa using hnot

theorem generateKey_returns {x : XmssKeys} {seed : Bytes} {c : Crypto} {io : Io} {d' : LedgerDir}
    {ok : Bool} (hkey : generatedKey x seed = some (pubkey, sk))
    (h : (xmssTreeLedgerInit io (freshState (rootOf pubkey) sk)).Returns d d' ok) :
    (s.generateKey c x io seed).Returns d d' (pubkey, s.insert c pubkey { sk := sk }) := by
  obtain ⟨⟨pk, sk'⟩, hpair, hif⟩ := bind_eq_some_iff.mp hkey
  split at hif
  · rename_i hlen
    cases hif
    unfold CXMSSSigner.generateKey
    rw [hpair]
    dsimp only
    rw [if_neg (not_not.mpr hlen)]
    exact returns_bind h (returns_pure d' _)
  · cases hif

/-- A write of the record leaves the ledger as it is. -/
theorem persistXMSSState_returns (env : PersistEnv) (w : CWallet) (d : WalletDir) :
    ∃ d', (w.persistXMSSState k env).Returns d d' () ∧ d'.ledger = d.ledger := by
  unfold persistXMSSState
  split
  · exact ⟨d, returns_pure d (), rfl⟩
  split
  · exact ⟨d, returns_pure d (), rfl⟩
  · split
    · exact ⟨_, returns_write _ d, rfl⟩
    · exact ⟨d, returns_pure d (), rfl⟩

/-- The new key of an empty pool. -/
theorem generateAndPersist_returns {w : CWallet} {d : WalletDir} {l : LedgerDir} {ok : Bool}
    (hkey : generatedKey k.keys env.seed = some (pubkey, sk))
    (h : (xmssTreeLedgerInit env.io (freshState (rootOf pubkey) sk)).Returns d.ledger l ok) :
    ∃ d', (w.generateAndPersist k env).Returns d d'
        { w with signer := w.signer.insert k.crypto pubkey { sk := sk } } ∧ d'.ledger = l := by
  have hne : pubkey ≠ [] := by
    rintro rfl
    exact absurd (length_generatedKey hkey) (by decide)
  obtain ⟨d', hpersist, hledger⟩ := persistXMSSState_returns (k := k) env.persist
    { w with signer := w.signer.insert k.crypto pubkey { sk := sk } }
    { d with ledger := l, log := .created pubkey :: d.log }
  have hgenerate : (w.generateKey k env.io env.seed).Returns d
      { d with ledger := l, log := .created pubkey :: d.log }
      (pubkey, { w with signer := w.signer.insert k.crypto pubkey { sk := sk } }) := by
    unfold generateKey
    refine returns_bind (returns_on (generateKey_returns hkey h)) ?_
    dsimp only
    rw [if_neg hne]
    exact returns_write_bind (returns_pure _ _)
  refine ⟨d', ?_, hledger⟩
  unfold generateAndPersist
  refine returns_bind hgenerate ?_
  dsimp only
  rw [if_neg hne]
  exact returns_bind hpersist (returns_pure _ _)

/-- The pool can be used after the call: one of the keys if one of them is not marked, and otherwise
one of them or the new key. -/
def PoolUsable (k : WalletPrims) (env : KeyEnv) (claim : Io) (w : CWallet) (d : LedgerDir) : Prop :=
  if w.signer.countFreshKeys = 0 then
    ∃ pubkey sk, generatedKey k.keys env.seed = some (pubkey, sk) ∧
      UsableKey (idAfterInit env.io claim d (rootOf pubkey) sk)
        (w.signer.insert k.crypto pubkey { sk := sk }) d
  else UsableKey (d.claimId claim) w.signer d

/-- For every wallet, ledger and record: if no operation on files fails and a key that has to be
generated is generated, `EnsureXMSSKeyAvailable` returns, and the signer then holds a key for which
`SignXMSS` returns true if and only if the pool can be used. -/
theorem ensured_pool_signs_iff (hx : SignsBelow k.keys) (hio : env.io.Succeeds) (sign : SignEnv)
    (halone : sign.Alone) (hinit : sign.init.Succeeds) (hclaim : sign.claim.Succeeds)
    (w : CWallet) (d : WalletDir)
    (hgenerated : w.signer.countFreshKeys = 0 → generatedKey k.keys env.seed ≠ none) :
    ∃ d' w', (w.ensureXMSSKeyAvailable k env).Returns d d' w' ∧
      (PoolSigns k.keys sign w'.signer d'.ledger ↔ PoolUsable k env sign.claim w d.ledger) := by
  unfold ensureXMSSKeyAvailable PoolUsable
  by_cases hzero : w.signer.countFreshKeys = 0
  · rw [if_pos hzero, if_pos hzero]
    obtain ⟨⟨pubkey, sk⟩, hkey⟩ := ne_none_iff_exists'.mp (hgenerated hzero)
    have hnew : (w.signer.insert k.crypto pubkey { sk := sk }).xmssKeys[pubkey]? =
        some { sk := sk } := getElem?_insert_self
    have hothers : OthersRetired pubkey (w.signer.insert k.crypto pubkey { sk := sk }) := by
      intro pubkey' entry hentry
      rcases getElem?_insert_cases hentry with ⟨hsame, -⟩ | ⟨-, hold⟩
      · exact .inl hsame
      · exact .inr (retired_of_countFreshKeys_eq_zero hzero hold)
    obtain ⟨l, ok, hledger, husable⟩ := ledgerInit_usable hio sign.claim (length_generatedKey hkey)
      hnew hothers d.ledger
    obtain ⟨d', hrun, rfl⟩ := generateAndPersist_returns (w := w) hkey hledger
    refine ⟨d', _, hrun, ?_⟩
    rw [poolSigns_iff hx halone hinit hclaim, husable]
    simp [hkey]
  · rw [if_neg hzero, if_neg hzero]
    exact ⟨d, w, returns_pure d w, poolSigns_iff hx halone hinit hclaim w.signer d.ledger⟩

/-- An empty pool can be used after the call if the new key belongs to a new tree, whose root is not
blacklisted. -/
theorem usableKey_of_new_tree {claim : Io} {w : CWallet} (hzero : w.signer.countFreshKeys = 0)
    (hkey : generatedKey k.keys env.seed = some (pubkey, sk)) (hnone : d.dat (rootOf pubkey) = none)
    (hallowed : isXMSSTreeBlacklisted (rootOf pubkey) = false)
    (hfresh : FreshSigns (rootOf pubkey) sk) : PoolUsable k env claim w d := by
  rw [PoolUsable, if_pos hzero]
  refine ⟨pubkey, sk, hkey, pubkey, { sk := sk }, getElem?_insert_self,
    ⟨length_generatedKey hkey, .inr rfl, ?_⟩, ?_⟩
  · rw [LedgerSigns, if_pos hnone]
    exact ⟨rfl, hallowed, hfresh⟩
  · intro state hstate
    exact absurd hnone (dat_of_treeState hstate)

end Ensure

/-- The primitives for which `SignXMSS` asks for no more than a leaf. -/
def steadyPrims : WalletPrims :=
  ⟨sampleCrypto, steadyKeys, ⟨fun _ _ _ => none, fun _ _ _ => none⟩⟩

/-- A key that is not in use yet. -/
def poolEnv : KeyEnv :=
  ⟨sampleSeed, sampleIo, ⟨nullHash, true⟩⟩

/-- A wallet without keys gets one that signs. -/
theorem ensured_pool_signs_new_wallet :
    ∃ d' w', (CWallet.ensureXMSSKeyAvailable steadyPrims poolEnv {}).Returns WalletDir.empty d' w' ∧
      PoolSigns steadyPrims.keys steadyEnv w'.signer d'.ledger := by
  have hkey : generatedKey steadyPrims.keys poolEnv.seed = some (samplePubkey, sampleSk) := by
    decide +kernel
  obtain ⟨d', w', hrun, hiff⟩ := ensured_pool_signs_iff (k := steadyPrims) signsBelow_steadyKeys
    (succeeds_sampleIo : poolEnv.io.Succeeds) steadyEnv (fun _ => rfl) succeeds_sampleIo
    succeeds_sampleIo {} WalletDir.empty (fun _ => hkey ▸ some_ne_none _)
  refine ⟨d', w', hrun, hiff.mpr ?_⟩
  refine usableKey_of_new_tree (by decide +kernel) hkey rfl allowed_samplePubkey ?_
  exact ⟨by decide +kernel, by decide +kernel, by decide +kernel⟩

/-- The public and the secret key of another wallet. -/
def importedPubkey : Bytes :=
  List.replicate 64 9

@[inherit_doc importedPubkey]
def importedSk : Bytes :=
  sampleOid ++ (beBytes 4 0 ++ List.replicate 128 9)

/-- A wallet gets its key, a key of another wallet is imported, the first key signs, and the pool is
looked after. -/
def dryPool : Durable WalletDir CWallet := do
  let w ← CWallet.ensureXMSSKeyAvailable steadyPrims poolEnv {}
  let w ← w.importxmsskey steadyPrims ⟨nullHash, true⟩ [] importedPubkey importedSk
  let signer ← SignerCall.run steadyPrims ⟨sampleIo, sampleIo, nullHash, samplePubkey⟩ w.signer
  CWallet.ensureXMSSKeyAvailable steadyPrims poolEnv { w with signer := signer }

/-- No key can be used: it is native and retired, or imported and without a ledger. -/
def allUnusable (s : CXMSSSigner) (d : LedgerDir) : Bool :=
  s.xmssKeys.toList.all fun p =>
    if p.2.imported then (d.dat (rootOf p.1)).isNone else p.2.retired

theorem not_usableKey_of_allUnusable {id : Blob OWNER_STAMP_BYTES} (h : allUnusable s d = true) :
    ¬ UsableKey id s d := by
  rintro ⟨pubkey, entry, hentry, ⟨-, hopen, hledger⟩, -⟩
  have hkey := List.all_eq_true.mp h (pubkey, entry)
    (mem_toList_iff_getElem?_eq_some.mpr hentry)
  dsimp only at hkey
  cases himported : entry.imported with
  | true =>
    rw [himported, if_pos rfl] at hkey
    rw [LedgerSigns, if_pos (isNone_iff_eq_none.mp hkey), himported] at hledger
    exact Bool.false_ne_true hledger.1.symm
  | false =>
    rw [himported, if_neg Bool.false_ne_true] at hkey
    rw [himported, hkey] at hopen
    exact hopen.elim Bool.false_ne_true (Bool.false_ne_true ∘ Eq.symm)

/-- The imported key counts as fresh, so no key is generated, and no key of the wallet signs. -/
theorem dry_pool_not_refilled : ∃ d w,
    dryPool.run WalletDir.empty 100 = (d, some w) ∧ w.signer.countFreshKeys = 1 ∧
      ¬ PoolSigns steadyPrims.keys steadyEnv w.signer d.ledger := by
  have hrun : (dryPool.run WalletDir.empty 100).2.any (fun w =>
      decide (w.signer.countFreshKeys = 1) &&
        allUnusable w.signer (dryPool.run WalletDir.empty 100).1.ledger) = true := by
    decide +kernel
  obtain ⟨w, hw, h⟩ := (any_eq_true _ _).mp hrun
  obtain ⟨hcount, hunusable⟩ := Bool.and_eq_true_iff.mp h
  generalize dryPool.run WalletDir.empty 100 = ran at *
  obtain ⟨d, out⟩ := ran
  cases hw
  refine ⟨d, w, rfl, of_decide_eq_true hcount, ?_⟩
  intro hsigns
  exact not_usableKey_of_allUnusable hunusable ((poolSigns_iff signsBelow_steadyKeys (fun _ => rfl)
    succeeds_sampleIo succeeds_sampleIo w.signer d.ledger).mp hsigns)

end AssentianPQE
