import AssentianPQE.Proofs.SureSpend

/-!
# `AssentianPQE.Proofs.LedgerReturns`: calls of the ledger in which nothing fails

When no operation on files fails and the process does not die, a call of the ledger has one end.

* `claimAndSign_of_state` says what `XMSSTreeLedgerClaimAndSign` does with a ledger file that can be
  loaded: it signs for a tree of its own, or for a tree of another datadir if the operator has put
  a sentinel there, which is used up before anything else is tested.
* `claimAndSign_returns` says for which ledgers there is a signature (`ClaimSigns`).
* `refused_claim_unchanged_iff`: a call that is refused has changed neither the ledger file nor the
  sentinel, unless it has used the sentinel up.
* `ledgerInit_returns`, `claimSigns_of_fresh`: the ledger of a new tree.
-/

set_option autoImplicit false

namespace AssentianPQE

open Lib Durable Option Function LedgerDir XMSSMinerState

variable {io : Io} {d : LedgerDir} {id : Blob OWNER_STAMP_BYTES} {root : Uint256}

/-! ### Files -/

/-- Every operation on files succeeds, and a new instance id is written as a whole. -/
structure Io.Succeeds (io : Io) : Prop extends io.Works where
  idWritten : io.idWritten = some OWNER_STAMP_BYTES

/-- The state that `LoadLocked` finds in a file that can be opened. -/
def LedgerDir.treeState (d : LedgerDir) (root : Uint256) : Option XMSSMinerState :=
  (d.stateOf root).filter fun state => state.xmssRoot = root

theorem loadLocked_eq_treeState (hopens : io.datOpens = true) (root : Uint256) (d : LedgerDir) :
    loadLocked io root d = d.treeState root := by
  unfold loadLocked treeState stateOf
  rw [hopens]
  cases d.dat root <;> rfl

/-- The instance id with which a datadir claims a tree: the stored one, or a new one. -/
def LedgerDir.claimId (io : Io) (d : LedgerDir) : Blob OWNER_STAMP_BYTES :=
  d.storedId.getD io.freshId

theorem LedgerDir.claimId_of_storedId (h : d.storedId = some id) (io : Io) : d.claimId io = id := by
  rw [claimId, h]
  rfl

theorem LedgerDir.dat_of_treeState {state : XMSSMinerState} (h : d.treeState root = some state) :
    d.dat root ≠ none := by
  intro hnone
  rw [treeState, stateOf, hnone] at h
  cases h

/-- The instance id is read, or drawn and written. -/
theorem getOrCreateInstanceId_returns (hio : io.Succeeds) (d : LedgerDir) :
    ∃ d', (getOrCreateInstanceId io).Returns d d' (d.claimId io) ∧ d'.dat = d.dat ∧
      d'.forceclaim = d.forceclaim ∧ d'.storedId = some (d.claimId io) := by
  have hread : (d.instanceId.bind fun file =>
      if io.idOpens then (takeBlob OWNER_STAMP_BYTES file).map Prod.fst else none) =
        d.storedId := by
    rw [hio.idOpens]
    rfl
  unfold claimId
  cases hstored : d.storedId with
  | some id =>
    refine ⟨d, ?_, rfl, rfl, hstored⟩
    unfold getOrCreateInstanceId
    refine returns_read_bind ?_
    rw [hread, hstored]
    exact returns_pure d id
  | none =>
    have hwhole : io.freshId.data.take OWNER_STAMP_BYTES = io.freshId.data :=
      List.take_of_length_le (Nat.le_of_eq io.freshId.length_data)
    have htake : takeBlob OWNER_STAMP_BYTES io.freshId.data = some (io.freshId, []) := by
      simpa using takeBlob_append io.freshId []
    refine ⟨{ d with instanceId := some io.freshId.data }, ?_, rfl, rfl, ?_⟩
    · unfold getOrCreateInstanceId
      refine returns_read_bind ?_
      rw [hread, hstored, hio.idWritten]
      refine returns_write_bind ?_
      refine returns_write_bind ?_
      rw [hwhole]
      exact returns_pure _ _
    · rw [storedId, bind_some, htake]
      rfl

/-- The file of the tree is replaced. -/
theorem saveLocked_returns (hio : io.Works) (state : XMSSMinerState) (d : LedgerDir) :
    ∃ d', (saveLocked io state).Returns d d' true ∧ d'.storedId = d.storedId ∧
      d'.forceclaim = d.forceclaim ∧
      d'.dat = update d.dat state.xmssRoot (some state.serialize) := by
  refine ⟨{ d with
      dat := update d.dat state.xmssRoot (some state.serialize)
      tmp := update (update (update d.tmp state.xmssRoot (some []))
        state.xmssRoot (some state.serialize)) state.xmssRoot none }, ?_, rfl, rfl, rfl⟩
  unfold saveLocked
  rw [hio.tmpOpens, hio.shortWrite, hio.fsyncOk, hio.renameOk]
  refine returns_write_bind ?_
  refine returns_write_bind ?_
  refine returns_write_bind ?_
  exact returns_pure _ _

/-! ### A claim -/

/-- The ledger of a tree has a stamp that is not the one of the datadir. -/
def XMSSMinerState.Foreign (id : Blob OWNER_STAMP_BYTES) (state : XMSSMinerState) : Prop :=
  ¬ (state.ownerStamp = Blob.zero OWNER_STAMP_BYTES ∨ state.ownerStamp = id)

/-- The state as the datadir claims it. -/
def XMSSMinerState.claimedBy (id : Blob OWNER_STAMP_BYTES) (state : XMSSMinerState) :
    XMSSMinerState :=
  { state with version := STATE_VERSION, ownerStamp := id }

section Claim

variable {x : XmssKeys} {io : Io} {d : LedgerDir} {root : Uint256} {hash32 : Bytes}
  {state : XMSSMinerState}

/-- A tree that is blacklisted or has no ledger that can be loaded is refused at once. -/
theorem claimAndSign_of_no_state (hopens : io.datOpens = true)
    (h : isXMSSTreeBlacklisted root = true ∨ d.treeState root = none) :
    (xmssTreeLedgerClaimAndSign x io root hash32).Returns d d none := by
  unfold xmssTreeLedgerClaimAndSign
  cases hblack : isXMSSTreeBlacklisted root with
  | true => exact returns_pure d none
  | false =>
    rw [if_neg Bool.false_ne_true]
    refine returns_read_bind ?_
    rw [loadLocked_eq_treeState hopens, h.resolve_left (Bool.eq_false_iff.mp hblack)]
    exact returns_pure d none

/-- What is done with a ledger that can be loaded, from the directory in which the instance id has
been stored. -/
theorem claimAndSign_of_state (hio : io.Succeeds) (hallowed : isXMSSTreeBlacklisted root = false)
    (hstate : d.treeState root = some state) (x : XmssKeys) (hash32 : Bytes) :
    ∃ d₁ : LedgerDir, d₁.dat = d.dat ∧ d₁.forceclaim = d.forceclaim ∧
      (¬ state.Foreign (d.claimId io) → ∀ d' out,
        (signAndSave x io hash32 (state.claimedBy (d.claimId io))).Returns d₁ d' out →
        (xmssTreeLedgerClaimAndSign x io root hash32).Returns d d' out) ∧
      (state.Foreign (d.claimId io) → d.forceclaim root = true → ∀ d' out,
        (signAndSave x io hash32 (state.claimedBy (d.claimId io))).Returns
          { d₁ with forceclaim := update d₁.forceclaim root false } d' out →
        (xmssTreeLedgerClaimAndSign x io root hash32).Returns d d' out) ∧
      (state.Foreign (d.claimId io) → d.forceclaim root = false →
        (xmssTreeLedgerClaimAndSign x io root hash32).Returns d d₁ none) := by
  obtain ⟨d₁, hid, hdat, hsentinel, -⟩ := getOrCreateInstanceId_returns hio d
  have hread : Durable.read (loadLocked io root) = Durable.read fun d => d.treeState root := by
    rw [funext (loadLocked_eq_treeState hio.datOpens root)]
  unfold xmssTreeLedgerClaimAndSign
  rw [hallowed, if_neg Bool.false_ne_true, hread]
  refine ⟨d₁, hdat, hsentinel, ?_, ?_, ?_⟩
  · intro hown d' out hsign
    refine returns_read_bind ?_
    rw [hstate]
    refine returns_bind hid ?_
    rw [if_pos (not_not.mp hown)]
    exact hsign
  · intro hforeign hset d' out hsign
    refine returns_read_bind ?_
    rw [hstate]
    refine returns_bind hid ?_
    rw [if_neg hforeign]
    refine returns_read_bind ?_
    rw [hsentinel, hset, if_pos rfl]
    exact returns_write_bind hsign
  · intro hforeign hunset
    refine returns_read_bind ?_
    rw [hstate]
    refine returns_bind hid ?_
    rw [if_neg hforeign]
    refine returns_read_bind ?_
    rw [hsentinel, hunset, if_neg Bool.false_ne_true]
    exact returns_pure d₁ none

/-- The leaf is signed and the state saved, or nothing is written. -/
theorem signAndSave_returns (hio : io.Works) (x : XmssKeys) (hash32 : Bytes)
    (state : XMSSMinerState) (d : LedgerDir) :
    ∃ d' out, (signAndSave x io hash32 state).Returns d d' out ∧
      out.isSome = (signNext x hash32 state).isSome ∧ (out = none → d' = d) := by
  unfold signAndSave
  cases signNext x hash32 state with
  | none => exact ⟨d, none, returns_pure d none, rfl, fun _ => rfl⟩
  | some p =>
    obtain ⟨sm, next⟩ := p
    obtain ⟨d', hsaved, -⟩ := saveLocked_returns hio next d
    refine ⟨d', some (sm.take (sm.length - hash32.length), state.nextLeafIndex),
      returns_bind hsaved ?_, rfl, ?_⟩
    · exact returns_pure _ _
    · intro h
      cases h

end Claim

/-! ### When a claim is refused -/

/-- A call finds the ledger of another datadir with the sentinel of the operator, which it removes
before it tests anything else. -/
def OverrideUsed (io : Io) (d : LedgerDir) (root : Uint256) : Prop :=
  isXMSSTreeBlacklisted root = false ∧ d.forceclaim root = true ∧
    ∃ state, d.treeState root = some state ∧ state.Foreign (d.claimId io)

theorem succeeds_sampleIo : sampleIo.Succeeds :=
  ⟨⟨rfl, rfl, rfl, rfl, rfl, rfl⟩, rfl⟩

/-- The ledger of a tree without a leaf left that another datadir has written, with the sentinel of
the operator. -/
def overrideLedger : LedgerDir :=
  { LedgerDir.empty with
    dat := Function.update LedgerDir.empty.dat sampleRoot (some
      { sampleState with
        nextLeafIndex := 1023, ownerStamp := ⟨List.replicate 16 2, by simp [OWNER_STAMP_BYTES]⟩
        }.serialize)
    forceclaim := Function.update LedgerDir.empty.forceclaim sampleRoot true }

/-- `xmss_sign` succeeds below leaf 1023. -/
def SignsBelow (x : XmssKeys) : Prop :=
  ∀ sk msg, skIndex sk < XMSS_MAX_LEAVES.toNat →
    ∃ sm sk', x.sign sk msg = some (sm, sk') ∧ msg.length ≤ sm.length

/-- A state with which the next leaf can be signed. -/
def XMSSMinerState.Signs (state : XMSSMinerState) : Prop :=
  state.nextLeafIndex < XMSS_MAX_LEAVES ∧ skIndex state.sk = state.nextLeafIndex.toNat

theorem signNext_isSome_iff {x : XmssKeys} (hx : SignsBelow x) {hash32 : Bytes}
    (hlen : hash32.length = 32) (state : XMSSMinerState) :
    (signNext x hash32 state).isSome = true ↔ state.Signs := by
  constructor
  · intro h
    obtain ⟨⟨sm, next⟩, hnext⟩ := isSome_iff_exists.mp h
    obtain ⟨hleft, -, hindex, -⟩ := signNext_eq_some hnext
    exact ⟨hleft, hindex⟩
  · rintro ⟨hleft, hindex⟩
    have hbelow : skIndex state.sk < XMSS_MAX_LEAVES.toNat := by
      rw [hindex]
      exact hleft
    obtain ⟨sm, sk', hsign, hlong⟩ := hx state.sk hash32 hbelow
    have hopen : state.isExhausted = false := decide_eq_false (UInt32.not_le.mpr hleft)
    unfold signNext
    rw [hopen, if_neg Bool.false_ne_true, if_neg (not_not.mpr hlen), if_neg (not_not.mpr hindex),
      hsign]
    dsimp only
    rw [if_neg (by omega)]
    rfl

/-- The ledger lets a tree sign. -/
def ClaimSigns (d : LedgerDir) (root : Uint256) : Prop :=
  isXMSSTreeBlacklisted root = false ∧ ∃ state, d.treeState root = some state ∧ state.Signs

/-- The stamp of a ledger is no obstacle for the datadir with this instance id, or the operator has
put a sentinel there. -/
def Claimable (id : Blob OWNER_STAMP_BYTES) (d : LedgerDir) (root : Uint256) : Prop :=
  ∀ state, d.treeState root = some state → ¬ state.Foreign id ∨ d.forceclaim root = true

/-- When nothing fails, a claim returns a signature if and only if the ledger lets the tree sign and
the datadir may claim it. -/
theorem claimAndSign_returns {x : XmssKeys} (hx : SignsBelow x) (hio : io.Succeeds) (d : LedgerDir)
    (root : Uint256) {hash32 : Bytes} (hlen : hash32.length = 32) :
    ∃ d' out, (xmssTreeLedgerClaimAndSign x io root hash32).Returns d d' out ∧
      (out.isSome = true ↔ ClaimSigns d root ∧ Claimable (d.claimId io) d root) := by
  by_cases hearly : isXMSSTreeBlacklisted root = true ∨ d.treeState root = none
  · refine ⟨d, none, claimAndSign_of_no_state hio.datOpens hearly, iff_of_false Bool.false_ne_true ?_⟩
    rintro ⟨⟨hallowed, state, hstate, -⟩, -⟩
    rcases hearly with hblack | hnone
    · exact Bool.false_ne_true (hallowed.symm.trans hblack)
    · exact some_ne_none _ (hstate.symm.trans hnone)
  · rw [not_or] at hearly
    have hallowed := Bool.eq_false_iff.mpr hearly.1
    obtain ⟨state, hstate⟩ := ne_none_iff_exists'.mp hearly.2
    obtain ⟨d₁, -, -, hown, hforce, hrefuse⟩ := claimAndSign_of_state hio hallowed hstate x hash32
    have hclaims : ClaimSigns d root ↔ state.Signs := by
      simp [ClaimSigns, hallowed, hstate]
    have hclaimable : Claimable (d.claimId io) d root ↔
        (¬ state.Foreign (d.claimId io) ∨ d.forceclaim root = true) := by
      simp [Claimable, hstate]
    -- The stamp and the version are no part of what decides.
    have hdecides : (signNext x hash32 (state.claimedBy (d.claimId io))).isSome = true ↔
        state.Signs := signNext_isSome_iff hx hlen (state.claimedBy (d.claimId io))
    have hsign : ∀ d₂, ∃ d' out,
        (signAndSave x io hash32 (state.claimedBy (d.claimId io))).Returns d₂ d' out ∧
          (out.isSome = true ↔ state.Signs) := by
      intro d₂
      obtain ⟨d', out, hrun, hsome, -⟩ := signAndSave_returns hio.toWorks x hash32
        (state.claimedBy (d.claimId io)) d₂
      exact ⟨d', out, hrun, by rw [hsome, hdecides]⟩
    rw [hclaims, hclaimable]
    by_cases hforeign : state.Foreign (d.claimId io)
    · cases hset : d.forceclaim root with
      | true =>
        obtain ⟨d', out, hrun, hiff⟩ :=
          hsign { d₁ with forceclaim := update d₁.forceclaim root false }
        exact ⟨d', out, hforce hforeign hset d' out hrun, by simp [hiff]⟩
      | false => exact ⟨d₁, none, hrefuse hforeign hset, by simp [hforeign]⟩
    · obtain ⟨d', out, hrun, hiff⟩ := hsign d₁
      exact ⟨d', out, hown hforeign d' out hrun, by simp [hiff, hforeign]⟩

/-! ### The ledger of a new tree -/

/-- A native key without a ledger gets one that lets it sign. The size of the secret key is not
tested before the file is written. -/
def FreshSigns (root : Uint256) (sk : Bytes) : Prop :=
  (freshState root sk).isValid = true ∧ sk.length ≤ MINER_SK_BYTES.toNat ∧ skIndex sk = 0

/-- The ledger that a native key gets. -/
theorem ledgerInit_returns (hio : io.Succeeds) {fresh : XMSSMinerState}
    (hvalid : fresh.isValid = true) (hnone : d.dat fresh.xmssRoot = none) :
    ∃ d', (xmssTreeLedgerInit io fresh).Returns d d' true ∧ d'.storedId = some (d.claimId io) ∧
      d'.forceclaim = d.forceclaim ∧
      d'.dat = update d.dat fresh.xmssRoot
        (some (fresh.claimedBy (d.claimId io)).serialize) := by
  obtain ⟨d₁, hid, hdat, hsentinel, hstored⟩ := getOrCreateInstanceId_returns hio d
  obtain ⟨d', hsaved, hkept, hkept', hfile⟩ := saveLocked_returns hio.toWorks
    (fresh.claimedBy (d.claimId io)) d₁
  refine ⟨d', ?_, hkept.trans hstored, hkept'.trans hsentinel, hdat ▸ hfile⟩
  unfold xmssTreeLedgerInit
  rw [hvalid]
  refine returns_read_bind ?_
  rw [xmssTreeLedgerExists, hnone]
  exact returns_bind hid hsaved

/-- A ledger that is there is left as it is. -/
theorem ledgerInit_of_dat (io : Io) {fresh : XMSSMinerState} (hvalid : fresh.isValid = true)
    (hfile : d.dat fresh.xmssRoot ≠ none) :
    (xmssTreeLedgerInit io fresh).Returns d d true := by
  have hexists : xmssTreeLedgerExists fresh.xmssRoot d = true :=
    isSome_iff_ne_none.mpr hfile
  unfold xmssTreeLedgerInit
  rw [hvalid]
  refine returns_read_bind ?_
  rw [hexists]
  exact returns_pure d true

/-- A new ledger is loaded as it was written, unless its secret key is too long to be loaded. -/
theorem treeState_of_fresh {sk : Bytes} (hvalid : (freshState root sk).isValid = true)
    (hfile : d.dat root = some ((freshState root sk).claimedBy id).serialize) :
    d.treeState root = if sk.length ≤ MINER_SK_BYTES.toNat then
      some ((freshState root sk).claimedBy id) else none := by
  have hvalid := of_decide_eq_true hvalid
  have hpos : 0 < UInt32.ofNat sk.length := hvalid.2.2.2.2.2.1
  have hlen : sk.length = (UInt32.ofNat sk.length).toNat := hvalid.2.2.2.2.2.2
  have hiff : MINER_SK_BYTES < UInt32.ofNat sk.length ↔ ¬ sk.length ≤ MINER_SK_BYTES.toNat := by
    rw [UInt32.lt_iff_toNat_lt, ← hlen, Nat.not_le]
  unfold treeState stateOf
  rw [hfile, bind_some]
  split
  · rename_i hfits
    have hloads : XMSSMinerState.Loads ((freshState root sk).claimedBy id) := by
      refine ⟨rfl, show ¬ (STATE_VERSION < STATE_VERSION_MIN_COMPAT ∨ STATE_VERSION < STATE_VERSION)
        by decide, ?_, hlen⟩
      rintro (hzero | hlong)
      · have hzero : UInt32.ofNat sk.length = 0 := hzero
        rw [hzero] at hpos
        exact absurd hpos (by decide)
      · exact hiff.mp hlong hfits
    rw [deserialize_serialize hloads rfl]
    exact filter_some_pos (by simp [freshState, claimedBy])
  · rename_i hlong
    cases hload : deserialize ((freshState root sk).claimedBy id).serialize with
    | none => rfl
    | some state =>
      -- A state that is loaded is the one that was written, and that one is too long.
      have hloads := loads_of_deserialize hload
      rw [eq_of_deserialize_serialize rfl rfl hlen hload] at hloads
      exact absurd (.inr (hiff.mpr hlong)) hloads.skLen

/-- The new ledger lets the key sign, and the datadir may claim it. -/
theorem claimSigns_of_fresh {sk : Bytes} (hvalid : (freshState root sk).isValid = true)
    (hfile : d.dat root = some ((freshState root sk).claimedBy id).serialize) :
    Claimable id d root ∧
      (ClaimSigns d root ↔ isXMSSTreeBlacklisted root = false ∧ FreshSigns root sk) := by
  have htree := treeState_of_fresh hvalid hfile
  have hsigns : ((freshState root sk).claimedBy id).Signs ↔ skIndex sk = 0 := by
    constructor
    · intro h
      exact h.2
    · intro h
      exact ⟨show (0 : UInt32) < XMSS_MAX_LEAVES by decide, h⟩
  constructor
  · intro state hsome
    rw [htree] at hsome
    split at hsome
    · cases hsome
      exact .inl (not_not.mpr (.inr rfl))
    · cases hsome
  · unfold ClaimSigns FreshSigns
    rw [htree]
    split
    · rename_i hfits
      simp [hsigns, hvalid, hfits]
    · rename_i hlong
      simp [hlong]

end AssentianPQE
