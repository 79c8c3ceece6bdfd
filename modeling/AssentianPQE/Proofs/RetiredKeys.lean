import AssentianPQE.Proofs.LedgerReturns

/-!
# Keys that are retired and keys that cannot sign

`IsXMSSKeyRetired` and `SignXMSS` read the flag of a key, its ledger and the blacklist, but not in
the same order. A key can be reported as retired and still sign, and a key that is not retired can
be refused.

* `signXMSS_returns` says for which keys and ledgers `SignXMSS` returns a signature when nothing
  fails (`CanSign`).
* `retired_iff_never_signs` says in which states the two functions agree (`RetiredAgrees`).
-/

set_option autoImplicit false

namespace AssentianPQE

open Lib Durable Option CXMSSSigner LedgerDir

/-- The ledger of a tree has the stamp of the datadir, or none. -/
def OwnStamp (d : LedgerDir) (root : Uint256) : Prop :=
  ∀ state, d.treeState root = some state →
    state.ownerStamp = Blob.zero OWNER_STAMP_BYTES ∨ d.storedId = some state.ownerStamp

theorem OwnStamp.claimable {d : LedgerDir} {root : Uint256} (h : OwnStamp d root) (io : Io) :
    Claimable (d.claimId io) d root := by
  intro state hstate
  refine .inl (not_not.mpr ((h state hstate).imp_right ?_))
  intro hstored
  exact (claimId_of_storedId hstored io).symm

/-! ### A call of `SignXMSS` -/

/-- The ledger of a key lets it sign, be it one that is there or one that it gets. -/
def LedgerSigns (root : Uint256) (entry : XMSSKeyEntry) (d : LedgerDir) : Prop :=
  if d.dat root = none then
    entry.imported = false ∧ isXMSSTreeBlacklisted root = false ∧ FreshSigns root entry.sk
  else ClaimSigns d root

/-- When a key signs if nothing fails. -/
def CanSign (pubkey : Bytes) (entry : XMSSKeyEntry) (d : LedgerDir) : Prop :=
  pubkey.length = 64 ∧ (entry.imported = true ∨ entry.retired = false) ∧
    LedgerSigns (rootOf pubkey) entry d

/-- When nothing fails, the part of `SignXMSS` that looks for a ledger leaves one that lets the key
sign, or refuses. -/
theorem ensureLedger_returns {env : SignEnv} (halone : env.Alone) (hinit : env.init.Succeeds)
    (pubkey : Bytes) (entry : XMSSKeyEntry) (d : LedgerDir) :
    ∃ d' ok, (ensureLedger env pubkey entry).Returns d d' ok ∧ ∀ io,
      (ok = true ∧ ClaimSigns d' (rootOf pubkey) ∧ Claimable (d'.claimId io) d' (rootOf pubkey) ↔
        LedgerSigns (rootOf pubkey) entry d ∧ Claimable (d.claimId io) d (rootOf pubkey)) := by
  unfold ensureLedger LedgerSigns
  rw [halone 1]
  cases hfile : d.dat (rootOf pubkey) with
  | some data =>
    refine ⟨d, true, returns_read_bind ?_, by simp⟩
    rw [xmssTreeLedgerExists, hfile]
    exact returns_pure d true
  | none =>
    have hmissing : xmssTreeLedgerExists (rootOf pubkey) d = false := by
      rw [xmssTreeLedgerExists, hfile]
      rfl
    cases himported : entry.imported with
    | true =>
      refine ⟨d, false, returns_read_bind ?_, by simp⟩
      rw [hmissing]
      exact returns_pure d false
    | false =>
      cases hvalid : (freshState (rootOf pubkey) entry.sk).isValid with
      | false =>
        refine ⟨d, false, returns_read_bind ?_, by simp [FreshSigns, hvalid]⟩
        rw [hmissing, if_neg Bool.false_ne_true, if_neg Bool.false_ne_true, Durable.pure_bind,
          xmssTreeLedgerInit, hvalid]
        exact returns_pure d false
      | true =>
        obtain ⟨d₁, hrun, hid, -, hdat⟩ := ledgerInit_returns hinit hvalid hfile
        obtain ⟨hclaimable, hsigns⟩ := claimSigns_of_fresh hvalid
          ((congrFun hdat _).trans (Function.update_self ..))
        -- Before the call there is no ledger whose stamp could be foreign.
        have hbefore : ∀ id, Claimable id d (rootOf pubkey) :=
          fun id state hloaded => absurd hfile (dat_of_treeState hloaded)
        refine ⟨d₁, true, returns_read_bind ?_, fun io => ?_⟩
        · rw [hmissing, if_neg Bool.false_ne_true, if_neg Bool.false_ne_true, Durable.pure_bind]
          exact hrun
        · rw [claimId_of_storedId hid]
          simp [hsigns, hclaimable, hbefore]

/-- When nothing fails, `SignXMSS` returns a signature if and only if the key can sign and the
datadir may claim its ledger. -/
theorem signXMSS_returns {x : XmssKeys} (hx : SignsBelow x) {env : SignEnv} (halone : env.Alone)
    (hinit : env.init.Succeeds) (hclaim : env.claim.Succeeds) {s : CXMSSSigner} {pubkey : Bytes}
    {entry : XMSSKeyEntry} (hentry : s.xmssKeys[pubkey]? = some entry) (d : LedgerDir)
    (hash : Uint256) :
    ∃ d' out s', (s.signXMSS x env hash pubkey).Returns d d' (out, s') ∧
      (out.isSome = true ↔ CanSign pubkey entry d ∧
        Claimable (d.claimId env.claim) d (rootOf pubkey)) := by
  unfold signXMSS CanSign
  rw [hentry]
  dsimp only
  by_cases hlen : pubkey.length = 64
  · rw [if_neg (not_not.mpr hlen)]
    by_cases hopen : entry.imported = true ∨ entry.retired = false
    · have hnot : (!entry.imported && entry.retired) = false := by
        rcases hopen with h | h <;> rw [h] <;> simp
      rw [hnot, if_neg Bool.false_ne_true]
      obtain ⟨d₁, ok, hledger, hsigns⟩ := ensureLedger_returns halone hinit pubkey entry d
      have hsigns := hsigns env.claim
      cases ok with
      | false =>
        refine ⟨d₁, none, s, returns_bind hledger ?_, by simp [and_assoc, ← hsigns]⟩
        exact returns_pure d₁ _
      | true =>
        obtain ⟨d', out, hrun, hclaimed⟩ := claimAndSign_returns hx hclaim d₁ (rootOf pubkey)
          hash.length_data
        have hiff : out.isSome = true ↔ (pubkey.length = 64 ∧
            (entry.imported = true ∨ entry.retired = false) ∧
            LedgerSigns (rootOf pubkey) entry d) ∧
            Claimable (d.claimId env.claim) d (rootOf pubkey) := by
          simp [hlen, hopen, hclaimed, ← hsigns]
        -- The signer is as before, or its key is retired.
        cases out with
        | none =>
          refine ⟨d', none, s, returns_bind hledger ?_, hiff⟩
          rw [if_pos rfl, halone 2, Durable.pure_bind]
          exact returns_bind hrun (returns_pure d' _)
        | some p =>
          refine ⟨d', some p, s.retire pubkey entry p.2, returns_bind hledger ?_, hiff⟩
          rw [if_pos rfl, halone 2, Durable.pure_bind]
          exact returns_bind hrun (returns_pure d' _)
    · have hretired : (!entry.imported && entry.retired) = true := by
        simpa [not_or] using hopen
      rw [hretired, if_pos rfl]
      exact ⟨d, none, s, returns_pure d _, by simp [hopen]⟩
  · rw [if_pos hlen]
    exact ⟨d, none, s, returns_pure d _, by simp [hlen]⟩

/-! ### The two functions -/

/-- `SignXMSS` returns false for every hash. -/
def NeverSigns (x : XmssKeys) (env : SignEnv) (pubkey : Bytes) (s : CXMSSSigner) (d : LedgerDir) :
    Prop :=
  ∀ hash, ∃ d' s', (s.signXMSS x env hash pubkey).Returns d d' (none, s')

section Agree

variable {x : XmssKeys} {env : SignEnv} {s : CXMSSSigner} {pubkey : Bytes} {entry : XMSSKeyEntry}
  {d : LedgerDir}

theorem neverSigns_iff (hx : SignsBelow x) (halone : env.Alone) (hinit : env.init.Succeeds)
    (hclaim : env.claim.Succeeds) (hentry : s.xmssKeys[pubkey]? = some entry)
    (hown : OwnStamp d (rootOf pubkey)) :
    NeverSigns x env pubkey s d ↔ ¬ CanSign pubkey entry d := by
  constructor
  · intro hnever hcan
    obtain ⟨d₁, out, s₁, hrun, hsigns⟩ :=
      signXMSS_returns hx halone hinit hclaim hentry d nullHash
    obtain ⟨d₂, s₂, hnone⟩ := hnever nullHash
    obtain ⟨-, heq⟩ := hrun.unique hnone
    cases heq
    exact absurd (hsigns.mpr ⟨hcan, hown.claimable env.claim⟩) Bool.false_ne_true
  · intro hcannot hash
    obtain ⟨d₁, out, s₁, hrun, hsigns⟩ := signXMSS_returns hx halone hinit hclaim hentry d hash
    cases out with
    | none => exact ⟨d₁, s₁, hrun⟩
    | some p => exact absurd (hsigns.mp rfl).1 hcannot

/-- What `IsXMSSKeyRetired` reads. -/
theorem isXMSSKeyRetired_eq {io : Io} (hopens : io.datOpens = true)
    (hentry : s.xmssKeys[pubkey]? = some entry) (hlen : pubkey.length = 64)
    (hallowed : isXMSSTreeBlacklisted (rootOf pubkey) = false) :
    s.isXMSSKeyRetired io pubkey d = match d.treeState (rootOf pubkey) with
      | some state =>
        if entry.imported then decide (XMSS_MAX_LEAVES ≤ state.nextLeafIndex)
        else decide (1 ≤ state.nextLeafIndex)
      | none => entry.retired := by
  unfold isXMSSKeyRetired xmssTreeLedgerStatus
  rw [hentry, loadLocked_eq_treeState hopens]
  dsimp only
  rw [if_pos hlen, hallowed, if_neg Bool.false_ne_true]
  cases d.treeState (rootOf pubkey) <;> rfl

/-- The states in which the two functions agree about a key. -/
def RetiredAgrees (pubkey : Bytes) (entry : XMSSKeyEntry) (d : LedgerDir) : Prop :=
  if pubkey.length ≠ 64 then entry.retired = true
  else if isXMSSTreeBlacklisted (rootOf pubkey) = true then True
  else
    match d.treeState (rootOf pubkey) with
    | some state =>
      if XMSS_MAX_LEAVES ≤ state.nextLeafIndex then True
      else if skIndex state.sk = state.nextLeafIndex.toNat then
        -- The ledger lets the key sign: a native key must be marked once a leaf was used.
        entry.imported = true ∨ (entry.retired = true ↔ 1 ≤ state.nextLeafIndex)
      else entry.imported = false ∧ 1 ≤ state.nextLeafIndex
    | none =>
      entry.retired = true ∨ (d.dat (rootOf pubkey) = none ∧ entry.imported = false ∧
        FreshSigns (rootOf pubkey) entry.sk)

/-- A key of the wrong size never signs. -/
theorem retired_iff_of_size {io : Io} (hentry : s.xmssKeys[pubkey]? = some entry)
    (hlen : pubkey.length ≠ 64) :
    (s.isXMSSKeyRetired io pubkey d = true ↔ ¬ CanSign pubkey entry d) ↔ entry.retired = true := by
  have hretired : s.isXMSSKeyRetired io pubkey d = entry.retired := by
    unfold isXMSSKeyRetired
    rw [hentry]
    exact if_neg hlen
  simp [hretired, CanSign, hlen]

/-- A key with a ledger that is loaded. -/
theorem retired_iff_of_state {io : Io} (hopens : io.datOpens = true)
    (hentry : s.xmssKeys[pubkey]? = some entry) (hlen : pubkey.length = 64)
    (hallowed : isXMSSTreeBlacklisted (rootOf pubkey) = false) {state : XMSSMinerState}
    (hstate : d.treeState (rootOf pubkey) = some state) :
    (s.isXMSSKeyRetired io pubkey d = true ↔ ¬ CanSign pubkey entry d) ↔
      RetiredAgrees pubkey entry d := by
  have hfile : d.dat (rootOf pubkey) ≠ none := dat_of_treeState hstate
  have hcan : CanSign pubkey entry d ↔
      (entry.imported = true ∨ entry.retired = false) ∧ state.Signs := by
    simp [CanSign, LedgerSigns, ClaimSigns, hlen, hfile, hallowed, hstate]
  rw [isXMSSKeyRetired_eq hopens hentry hlen hallowed, hcan, RetiredAgrees, hstate,
    if_neg (not_not.mpr hlen), if_neg (Bool.eq_false_iff.mp hallowed), XMSSMinerState.Signs]
  dsimp only
  by_cases hleft : XMSS_MAX_LEAVES ≤ state.nextLeafIndex
  · -- No leaf is left: retired in both ways.
    have hone : (1 : UInt32) ≤ state.nextLeafIndex :=
      UInt32.le_trans (by decide) hleft
    simp [hleft, hone]
  · have hlt : state.nextLeafIndex < XMSS_MAX_LEAVES := UInt32.not_le.mp hleft
    by_cases hindex : skIndex state.sk = state.nextLeafIndex.toNat
    · cases himported : entry.imported <;> cases hretired : entry.retired <;>
        simp [hleft, hlt, hindex]
    · cases himported : entry.imported <;> simp [hleft, hindex]

/-- A key without a ledger that can be loaded. -/
theorem retired_iff_of_no_state {io : Io} (hopens : io.datOpens = true)
    (hentry : s.xmssKeys[pubkey]? = some entry) (hlen : pubkey.length = 64)
    (hallowed : isXMSSTreeBlacklisted (rootOf pubkey) = false)
    (hstate : d.treeState (rootOf pubkey) = none) :
    (s.isXMSSKeyRetired io pubkey d = true ↔ ¬ CanSign pubkey entry d) ↔
      RetiredAgrees pubkey entry d := by
  have hcan : CanSign pubkey entry d ↔ entry.retired = false ∧ entry.imported = false ∧
      d.dat (rootOf pubkey) = none ∧ FreshSigns (rootOf pubkey) entry.sk := by
    unfold CanSign LedgerSigns ClaimSigns
    cases d.dat (rootOf pubkey) <;> cases entry.imported <;> simp [hlen, hallowed, hstate]
  rw [isXMSSKeyRetired_eq hopens hentry hlen hallowed, hcan, RetiredAgrees, hstate,
    if_neg (not_not.mpr hlen), if_neg (Bool.eq_false_iff.mp hallowed)]
  dsimp only
  cases entry.retired <;> simp [and_left_comm]

/-- When no operation on files fails, the ledger has the stamp of the datadir and `xmss_sign`
succeeds below leaf 1023: a key of the signer is retired if and only if it signs no hash, exactly
in the states of `RetiredAgrees`. -/
theorem retired_iff_never_signs (hx : SignsBelow x) (halone : env.Alone)
    (hinit : env.init.Succeeds) (hclaim : env.claim.Succeeds) {io : Io}
    (hopens : io.datOpens = true) (hentry : s.xmssKeys[pubkey]? = some entry)
    (hown : OwnStamp d (rootOf pubkey)) :
    (s.isXMSSKeyRetired io pubkey d = true ↔ NeverSigns x env pubkey s d) ↔
      RetiredAgrees pubkey entry d := by
  rw [neverSigns_iff hx halone hinit hclaim hentry hown]
  by_cases hlen : pubkey.length = 64
  · cases hblack : isXMSSTreeBlacklisted (rootOf pubkey) with
    | true =>
      -- The blacklist is read by both.
      have hretired : s.isXMSSKeyRetired io pubkey d = true := by
        unfold isXMSSKeyRetired
        rw [hentry]
        simp [hlen, hblack]
      have hcannot : ¬ CanSign pubkey entry d := by
        unfold CanSign LedgerSigns ClaimSigns
        split <;> simp [hblack]
      rw [RetiredAgrees, if_neg (not_not.mpr hlen), if_pos hblack]
      simp [hretired, hcannot]
    | false =>
      cases hstate : d.treeState (rootOf pubkey) with
      | some state => exact retired_iff_of_state hopens hentry hlen hblack hstate
      | none => exact retired_iff_of_no_state hopens hentry hlen hblack hstate
  · rw [RetiredAgrees, if_pos hlen]
    exact retired_iff_of_size hentry hlen

end Agree

/-! ### States in which they differ -/

/-- The sample keys, with a signing function that asks for no more than a leaf. -/
def steadyKeys : XmssKeys :=
  { sampleKeys with
    sign := fun sk msg =>
      if skIndex sk < 1023 then
        some (sampleSm (skIndex sk) msg, sk.take 4 ++ (beBytes 4 (skIndex sk + 1) ++ sk.drop 8))
      else none }

theorem signsBelow_steadyKeys : SignsBelow steadyKeys := by
  intro sk msg hindex
  refine ⟨_, _, if_pos hindex, ?_⟩
  simp only [sampleSm, List.length_append]
  omega

/-- An environment in which nothing fails. -/
def steadyEnv : SignEnv := ⟨sampleIo, sampleIo, sampleIo, fun _ => pure ()⟩

/-- The sample key is generated. -/
def freshKey : Durable LedgerDir CXMSSSigner := do
  let (_, s) ← CXMSSSigner.empty.generateKey sampleCrypto steadyKeys sampleIo sampleSeed
  pure s

/-- The sample key is generated, signs, and is then loaded from a record that was saved before it
has signed. -/
def restoredKey : Durable LedgerDir CXMSSSigner := do
  let s ← freshKey
  let _ ← s.signXMSS steadyKeys steadyEnv nullHash samplePubkey
  let (_, s) ← s.loadState sampleCrypto (fun _ => sampleIo) s.saveState
  pure s

/-- The sample key is native and not marked, and its ledger is the datadir's own and at this leaf. -/
def NativeAt (leaf : UInt32) (s : CXMSSSigner) (d : LedgerDir) : Bool :=
  (s.xmssKeys[samplePubkey]?).any fun entry =>
    (d.treeState (rootOf samplePubkey)).any fun state =>
      !entry.imported && !entry.retired && decide (d.storedId = some state.ownerStamp) &&
        decide (state.nextLeafIndex = leaf ∧ skIndex state.sk = leaf.toNat)

theorem eq_of_nativeAt {leaf : UInt32} {s : CXMSSSigner} {d : LedgerDir}
    (h : NativeAt leaf s d = true) :
    ∃ entry state, s.xmssKeys[samplePubkey]? = some entry ∧
      d.treeState (rootOf samplePubkey) = some state ∧ OwnStamp d (rootOf samplePubkey) ∧
      entry.imported = false ∧ entry.retired = false ∧ state.nextLeafIndex = leaf ∧
      skIndex state.sk = leaf.toNat := by
  obtain ⟨entry, hentry, h⟩ := (any_eq_true _ _).mp h
  obtain ⟨state, hstate, h⟩ := (any_eq_true _ _).mp h
  simp only [Bool.and_eq_true, Bool.not_eq_true', decide_eq_true_eq] at h
  obtain ⟨⟨⟨himported, hretired⟩, hid⟩, hleaf⟩ := h
  refine ⟨entry, state, hentry, hstate, ?_, himported, hretired, hleaf.1, hleaf.2⟩
  intro state' hstate'
  rw [hstate] at hstate'
  cases hstate'
  exact .inr hid

theorem allowed_samplePubkey : isXMSSTreeBlacklisted (rootOf samplePubkey) = false := by
  decide +kernel

/-- After key generation the key is not retired, and it signs. -/
theorem retired_iff_never_signs_fresh : ∃ d s,
    freshKey.run LedgerDir.empty 100 = (d, some s) ∧
    (s.isXMSSKeyRetired sampleIo samplePubkey d = true ↔
      NeverSigns steadyKeys steadyEnv samplePubkey s d) := by
  have hrun : (freshKey.run empty 100).2.any
      (NativeAt 0 · (freshKey.run empty 100).1) = true := by
    decide +kernel
  obtain ⟨s, hs, hnative⟩ := (any_eq_true _ _).mp hrun
  obtain ⟨entry, state, hentry, hstate, hown, himported, hretired, hleaf, hindex⟩ :=
    eq_of_nativeAt hnative
  refine ⟨_, s, Prod.ext rfl hs, (retired_iff_never_signs signsBelow_steadyKeys (fun _ => rfl)
    succeeds_sampleIo succeeds_sampleIo rfl hentry hown).mpr ?_⟩
  rw [RetiredAgrees, hstate, allowed_samplePubkey]
  simp [himported, hretired, hleaf, hindex]
  decide

/-- An imported key without a ledger is not retired, and never signs. -/
theorem imported_key_refused : ∃ s,
    empty.addXMSSKey sampleCrypto [] samplePubkey sampleSk = some s ∧
    s.isXMSSKeyRetired sampleIo samplePubkey empty = false ∧
    NeverSigns steadyKeys steadyEnv samplePubkey s empty := by
  have hadd : (empty.addXMSSKey sampleCrypto [] samplePubkey sampleSk).any (fun s =>
      !s.isXMSSKeyRetired sampleIo samplePubkey empty &&
        (s.xmssKeys[samplePubkey]?).any (·.imported)) = true := by
    decide +kernel
  obtain ⟨s, hs, h⟩ := (any_eq_true _ _).mp hadd
  obtain ⟨hretired, hentry⟩ := Bool.and_eq_true_iff.mp h
  obtain ⟨entry, hentry, himported⟩ := (any_eq_true _ _).mp hentry
  refine ⟨s, hs, by simpa using hretired, ?_⟩
  refine (neverSigns_iff signsBelow_steadyKeys (fun _ => rfl) succeeds_sampleIo succeeds_sampleIo
    hentry (by rintro state ⟨⟩)).mpr ?_
  rintro ⟨-, -, hledger⟩
  have hnofile : empty.dat (rootOf samplePubkey) = none := rfl
  rw [LedgerSigns, if_pos hnofile, himported] at hledger
  exact Bool.false_ne_true hledger.1.symm

/-- A key whose flag was lost is retired, since a leaf of its tree was used, and signs again. -/
theorem restored_key_signs : ∃ d s,
    restoredKey.run empty 100 = (d, some s) ∧
    s.isXMSSKeyRetired sampleIo samplePubkey d = true ∧
    ¬ NeverSigns steadyKeys steadyEnv samplePubkey s d := by
  have hrun : (restoredKey.run empty 100).2.any (fun s =>
      s.isXMSSKeyRetired sampleIo samplePubkey (restoredKey.run empty 100).1 &&
        NativeAt 1 s (restoredKey.run empty 100).1) = true := by
    decide +kernel
  obtain ⟨s, hs, h⟩ := (any_eq_true _ _).mp hrun
  obtain ⟨hretired, hnative⟩ := Bool.and_eq_true_iff.mp h
  obtain ⟨entry, state, hentry, hstate, hown, -, hfresh, hleaf, hindex⟩ := eq_of_nativeAt hnative
  generalize restoredKey.run empty 100 = ran at *
  obtain ⟨d, out⟩ := ran
  cases hs
  refine ⟨d, s, rfl, hretired, ?_⟩
  rw [neverSigns_iff signsBelow_steadyKeys (fun _ => rfl) succeeds_sampleIo succeeds_sampleIo
    hentry hown, not_not]
  have hfile : d.dat (rootOf samplePubkey) ≠ none := dat_of_treeState hstate
  refine ⟨by decide, .inr hfresh, ?_⟩
  rw [LedgerSigns, if_neg hfile]
  refine ⟨allowed_samplePubkey, state, hstate, ?_, by rw [hindex, hleaf]⟩
  rw [hleaf]
  decide

/-- Both happen in states that the calls of the signer lead to. -/
theorem retired_disagrees :
    (∃ s, CXMSSSigner.empty.addXMSSKey sampleCrypto [] samplePubkey sampleSk = some s ∧
      ¬ (s.isXMSSKeyRetired sampleIo samplePubkey LedgerDir.empty = true ↔
        NeverSigns steadyKeys steadyEnv samplePubkey s LedgerDir.empty)) ∧
    ∃ d s, restoredKey.run LedgerDir.empty 100 = (d, some s) ∧
      ¬ (s.isXMSSKeyRetired sampleIo samplePubkey d = true ↔
        NeverSigns steadyKeys steadyEnv samplePubkey s d) := by
  constructor
  · obtain ⟨s, hs, hretired, hnever⟩ := imported_key_refused
    refine ⟨s, hs, fun hiff => ?_⟩
    rw [hretired] at hiff
    exact Bool.false_ne_true (hiff.mpr hnever)
  · obtain ⟨d, s, hs, hretired, hsigns⟩ := restored_key_signs
    exact ⟨d, s, hs, fun hiff => hsigns (hiff.mp hretired)⟩

end AssentianPQE
