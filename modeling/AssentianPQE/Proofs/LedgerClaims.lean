import AssentianPQE.SampleKeys

/-!
# `AssentianPQE.Proofs.LedgerClaims`: a leaf of the ledger is claimed once

The calls of the ledger on one datadir, in any order and with a crash at any point. The state of
a run (`LedgerRun`) is the directory and a log of the leaves that were returned.

* `deserialize_serialize`: a saved state is loaded as it was.
* `claimAndSign_ensures`, `ledgerInit_ensures`: what a call can do to the ledger files, wherever
  it is cut off.
* `claims_increase`: the leaves that are returned for a tree are strictly increasing and below
  1023, each is the index its signature starts with, and the ledger file is always past them.
-/

set_option autoImplicit false

namespace AssentianPQE

open Lib Durable List Option Function LedgerDir XMSSMinerState

variable {s state : XMSSMinerState} {io : Io} {root : Uint256} {d : LedgerDir} {x : XmssKeys}
  {hash32 : Bytes}

/-! ### Saved states -/

theorem takeU32_serU32 (x : UInt32) (rest : Bytes) :
    takeU32 (serU32 x ++ rest) = some (x, rest) := by
  have hlen : (serU32 x).length = 4 := length_leBytes 4 _
  have hval : readLE (serU32 x) = x.toNat := by
    rw [serU32, readLE_leBytes, Nat.mod_eq_of_lt]
    exact x.toNat_lt
  rw [takeU32, takeN_append_of_length hlen, map_some, hval, UInt32.ofNat_toNat]

theorem takeBlob_append {n : Nat} (b : Blob n) (rest : Bytes) :
    takeBlob n (b.data ++ rest) = some (b, rest) := by
  have hlen : n ≤ (b.data ++ rest).length := by
    rw [length_append, b.length_data]
    omega
  have htake : (b.data ++ rest).take n = b.data := take_left' b.length_data
  have hdrop : (b.data ++ rest).drop n = rest := drop_left' b.length_data
  unfold takeBlob
  rw [dif_pos hlen, Option.some.injEq, Prod.mk.injEq]
  exact ⟨Blob.ext htake, hdrop⟩

/-- A state that `Deserialize` accepts. -/
structure XMSSMinerState.Loads (s : XMSSMinerState) : Prop where
  magic : s.magic = STATE_MAGIC
  version : ¬ (s.version < STATE_VERSION_MIN_COMPAT ∨ STATE_VERSION < s.version)
  skLen : ¬ (s.skLen = 0 ∨ MINER_SK_BYTES < s.skLen)
  sk : s.sk.length = s.skLen.toNat

/-- A saved state of the current version is loaded as it was. -/
theorem deserialize_serialize (h : s.Loads) (hv : s.version = STATE_VERSION) :
    deserialize s.serialize = some s := by
  have htwo : (2 : UInt32) ≤ s.version := by
    rw [hv]
    decide
  have hstamp : takeBlob OWNER_STAMP_BYTES s.ownerStamp.data = some (s.ownerStamp, []) := by
    simpa using takeBlob_append s.ownerStamp []
  unfold deserialize serialize
  simp only [bind_eq_bind, takeU32_serU32, bind_some, takeBlob_append,
    takeN_append_of_length h.sk, htwo, if_true, hstamp]
  rw [if_neg (not_not.mpr h.magic), if_neg h.version, if_neg h.skLen]

/-- If a saved state of the current version is loaded at all, it is loaded as it was. -/
theorem eq_of_deserialize_serialize {s' : XMSSMinerState} (hmagic : s.magic = STATE_MAGIC)
    (hv : s.version = STATE_VERSION) (hsk : s.sk.length = s.skLen.toNat)
    (h : deserialize s.serialize = some s') : s' = s := by
  have hversion : ¬ (s.version < STATE_VERSION_MIN_COMPAT ∨ STATE_VERSION < s.version) := by
    rw [hv]
    decide
  by_cases hlen : s.skLen = 0 ∨ MINER_SK_BYTES < s.skLen
  · -- The length of the secret key is only tested when a state is loaded.
    unfold deserialize serialize at h
    simp only [bind_eq_bind, takeU32_serU32, bind_some, takeBlob_append] at h
    rw [if_neg (not_not.mpr hmagic), if_neg hversion, if_pos hlen] at h
    cases h
  · rw [deserialize_serialize ⟨hmagic, hversion, hlen, hsk⟩ hv] at h
    exact (Option.some.inj h).symm

/-- What `Deserialize` returns. -/
theorem loads_of_deserialize {data : Bytes} (h : deserialize data = some s) :
    s.Loads := by
  unfold deserialize at h
  simp only [bind_eq_bind, bind_eq_some_iff, Prod.exists] at h
  obtain ⟨magic, ds₁, -, version, ds₂, -, h⟩ := h
  split at h
  · cases h
  rename_i hmagic
  split at h
  · cases h
  rename_i hversion
  simp only [bind_eq_some_iff, Prod.exists] at h
  obtain ⟨root, ds₃, -, next, ds₄, -, skLen, ds₅, -, h⟩ := h
  split at h
  · cases h
  rename_i hlen
  simp only [bind_eq_some_iff, Prod.exists] at h
  obtain ⟨sk, ds₆, hsk, h⟩ := h
  have hsk' := (takeN_eq_some hsk).1
  split at h
  · simp only [bind_eq_some_iff, Prod.exists, Option.some.injEq] at h
    obtain ⟨stamp, ds₇, -, rfl⟩ := h
    exact ⟨not_not.mp hmagic, hversion, hlen, hsk'⟩
  · rw [← Option.some.inj h]
    exact ⟨not_not.mp hmagic, hversion, hlen, hsk'⟩

/-! ### What a call does to the ledger files -/

/-- The state in the ledger file of a tree. -/
def LedgerDir.stateOf (d : LedgerDir) (root : Uint256) : Option XMSSMinerState :=
  (d.dat root).bind XMSSMinerState.deserialize

theorem loadLocked_eq_some (h : loadLocked io root d = some s) :
    d.stateOf root = some s ∧ s.xmssRoot = root := by
  obtain ⟨data, hdata, hload⟩ := bind_eq_some_iff.mp h
  split at hload
  · obtain ⟨hs, hroot⟩ := filter_eq_some_iff.mp hload
    refine ⟨?_, by simpa using hroot⟩
    rw [stateOf, hdata]
    exact hs
  · cases hload

theorem loadLocked_of_stateOf (hopens : io.datOpens = true) (h : d.stateOf root = some s)
    (hroot : s.xmssRoot = root) :
    loadLocked io root d = some s := by
  obtain ⟨data, hdata, hdes⟩ := bind_eq_some_iff.mp h
  rw [loadLocked, hdata, bind_some, if_pos hopens, hdes]
  exact filter_some_pos (by simpa using hroot)

/-- The instance id is kept in a file of its own. -/
theorem getOrCreateInstanceId_ensures (io : Io) (d : LedgerDir) :
    (getOrCreateInstanceId io).Ensures d fun d' _ => d'.dat = d.dat ∧ d'.forceclaim = d.forceclaim := by
  unfold getOrCreateInstanceId
  refine ensures_read_bind ?_
  split
  · exact ensures_pure ⟨rfl, rfl⟩
  · exact ensures_pure ⟨rfl, rfl⟩
  · exact ensures_write_bind ⟨rfl, rfl⟩
      (ensures_write_bind ⟨rfl, rfl⟩ (ensures_pure ⟨rfl, rfl⟩))

/-- `SaveLocked` replaces one ledger file or none. It returns true only after it has. -/
theorem saveLocked_ensures (io : Io) (s : XMSSMinerState) (d : LedgerDir) :
    (saveLocked io s).Ensures d fun d' r =>
      (d'.dat = d.dat ∧ r ≠ some true) ∨
        d'.dat = update d.dat s.xmssRoot (some s.serialize) := by
  unfold saveLocked
  simp only
  split
  · exact ensures_pure (.inl ⟨rfl, by simp⟩)
  refine ensures_write_bind (.inl ⟨rfl, by simp⟩) ?_
  split
  · exact ensures_write_bind (.inl ⟨rfl, by simp⟩)
      (ensures_pure (.inl ⟨rfl, by simp⟩))
  refine ensures_write_bind (.inl ⟨rfl, by simp⟩) ?_
  split
  · exact ensures_pure (.inl ⟨rfl, by simp⟩)
  · -- The rename: before it nothing has changed, and nothing is written after it.
    exact ensures_write_bind (.inl ⟨rfl, by simp⟩) (ensures_pure (.inr rfl))

/-- What a successful claim does: the state in the ledger file has a leaf left, its secret key
signs with that leaf, and the file is replaced by the state after it. -/
structure Claimed (x : XmssKeys) (d d' : LedgerDir) (root : Uint256) (hash32 sm : Bytes)
    (state next : XMSSMinerState) : Prop where
  loaded : d.stateOf root = some state
  root_eq : state.xmssRoot = root
  left : state.nextLeafIndex < XMSS_MAX_LEAVES
  hash_length : hash32.length = 32
  sk_index : skIndex state.sk = state.nextLeafIndex.toNat
  signed : x.sign state.sk hash32 = some (sm, next.sk)
  next_eq : next = { state with
    version := STATE_VERSION, ownerStamp := next.ownerStamp, sk := next.sk
    nextLeafIndex := state.nextLeafIndex + 1 }
  saved : d'.dat = Function.update d.dat root (some next.serialize)

namespace Claimed

variable {x : XmssKeys} {d d' : LedgerDir} {root : Uint256} {hash32 sm : Bytes}
  {state next : XMSSMinerState}

/-- The state after a claim can be loaded. -/
theorem reload (hx : SignSpec x) (h : Claimed x d d' root hash32 sm state next) :
    d'.stateOf root = some next := by
  obtain ⟨data, -, hdes⟩ := bind_eq_some_iff.mp h.loaded
  have hloads := loads_of_deserialize hdes
  have hnext : next.Loads := by
    rw [h.next_eq]
    have hversion : ¬ (STATE_VERSION < STATE_VERSION_MIN_COMPAT ∨ STATE_VERSION < STATE_VERSION) := by
      decide
    refine ⟨hloads.magic, hversion, hloads.skLen, ?_⟩
    -- The secret key is updated in place.
    exact ((hx.increments _ _ _ _ h.signed).1).trans hloads.sk
  have hversion : next.version = STATE_VERSION := by rw [h.next_eq]
  rw [stateOf, h.saved, update_self, bind_some,
    deserialize_serialize hnext hversion]

theorem nextLeafIndex_eq (h : Claimed x d d' root hash32 sm state next) :
    next.nextLeafIndex.toNat = state.nextLeafIndex.toNat + 1 := by
  have hlt : state.nextLeafIndex.toNat < 1023 := h.left
  rw [h.next_eq]
  show (state.nextLeafIndex + 1).toNat = _
  rw [UInt32.toNat_add]
  show (state.nextLeafIndex.toNat + 1) % 2 ^ 32 = _
  omega

/-- Other files are not touched. -/
theorem stateOf_ne (h : Claimed x d d' root hash32 sm state next) {root' : Uint256}
    (hne : root' ≠ root) : d'.stateOf root' = d.stateOf root' := by
  rw [stateOf, h.saved, update_of_ne hne]
  rfl

/-- The signature starts with the index of the leaf. -/
theorem leafIndexOf_eq (hx : SignSpec x) (h : Claimed x d d' root hash32 sm state next) :
    leafIndexOf (sm.take (sm.length - hash32.length)) = state.nextLeafIndex.toNat := by
  obtain ⟨hlen, hindex⟩ := hx.signs_index _ _ _ _ h.signed
  have hsig : XMSS_SIG_BYTES = 2500 := rfl
  have htake : (sm.take (sm.length - hash32.length)).take 4 = sm.take 4 := by
    rw [take_take, Nat.min_eq_left (by omega)]
  rw [leafIndexOf, htake]
  exact hindex.trans h.sk_index

end Claimed

/-- What `signNext` returns. -/
theorem signNext_eq_some {sm : Bytes} {next : XMSSMinerState}
    (h : signNext x hash32 state = some (sm, next)) :
    state.nextLeafIndex < XMSS_MAX_LEAVES ∧ hash32.length = 32 ∧
      skIndex state.sk = state.nextLeafIndex.toNat ∧
      x.sign state.sk hash32 = some (sm, next.sk) ∧
      next = { state with sk := next.sk, nextLeafIndex := state.nextLeafIndex + 1 } := by
  unfold signNext at h
  split at h
  · cases h
  rename_i hleft
  split at h
  · cases h
  rename_i hhash
  split at h
  · cases h
  rename_i hindex
  split at h
  · cases h
  rename_i sm' sk' hsign
  split at h
  · cases h
  · cases h
    have hlt : state.nextLeafIndex < XMSS_MAX_LEAVES := by
      simpa [isExhausted] using hleft
    exact ⟨hlt, not_not.mp hhash, not_not.mp hindex, hsign, rfl⟩

/-- What a call of `XMSSTreeLedgerClaimAndSign` can do from `d`: it leaves the ledger files as
they are, or it claims the next leaf. It returns a signature only after it has. -/
def ClaimOutcome (x : XmssKeys) (d : LedgerDir) (root : Uint256) (hash32 : Bytes) (d' : LedgerDir)
    (r : Option (Option (Bytes × UInt32))) : Prop :=
  (d'.dat = d.dat ∧ ∀ out, r ≠ some (some out)) ∨
    ∃ sm state next, Claimed x d d' root hash32 sm state next ∧
      ∀ out, r = some (some out) →
        out = (sm.take (sm.length - hash32.length), state.nextLeafIndex)

/-- A process that dies after the last write has lost its result. -/
theorem ClaimOutcome.lost {d' : LedgerDir} {r : Option (Option (Bytes × UInt32))}
    (h : ClaimOutcome x d root hash32 d' r) :
    ClaimOutcome x d root hash32 d' none := by
  rcases h with ⟨hdat, -⟩ | ⟨sm, state, next, hc, -⟩
  · exact .inl ⟨hdat, by simp⟩
  · exact .inr ⟨sm, state, next, hc, by simp⟩

theorem signAndSave_ensures (io : Io) (hash32 : Bytes) {d₁ : LedgerDir}
    (hloaded : d.stateOf root = some state) (hroot : state.xmssRoot = root) (hdat : d₁.dat = d.dat)
    (id : Blob OWNER_STAMP_BYTES) :
    (signAndSave x io hash32
      { state with version := STATE_VERSION, ownerStamp := id }).Ensures d₁
      (ClaimOutcome x d root hash32) := by
  unfold signAndSave
  split
  · exact ensures_pure (.inl ⟨hdat, by simp⟩)
  rename_i sm next hnext
  obtain ⟨hleft, hhash, hindex, hsigned, heq⟩ := signNext_eq_some hnext
  have hnextRoot : next.xmssRoot = root := by
    rw [heq]
    exact hroot
  have hclaimed (d' : LedgerDir)
      (hsaved : d'.dat = update d₁.dat next.xmssRoot (some next.serialize)) :
      Claimed x d d' root hash32 sm state next := by
    refine ⟨hloaded, hroot, hleft, hhash, hindex, hsigned, ?_, ?_⟩
    · nth_rewrite 1 [heq]
      rw [show next.ownerStamp = id by rw [heq]]
    · rw [hsaved, hnextRoot, hdat]
  refine ensures_bind (saveLocked_ensures io next d₁) ?_ ?_
  · -- The process died while the state was saved.
    rintro d' (⟨hd', -⟩ | hsaved)
    · exact .inl ⟨hd'.trans hdat, by simp⟩
    · exact .inr ⟨sm, state, next, hclaimed d' hsaved, by simp⟩
  · intro d' ok hsave
    cases ok with
    | false =>
      refine ensures_pure ?_
      rcases hsave with ⟨hd', -⟩ | hsaved
      · exact .inl ⟨hd'.trans hdat, by simp⟩
      · exact .inr ⟨sm, state, next, hclaimed d' hsaved, by simp⟩
    | true =>
      refine ensures_pure ?_
      rcases hsave with ⟨-, hfalse⟩ | hsaved
      · exact absurd rfl hfalse
      · exact .inr ⟨sm, state, next, hclaimed d' hsaved, fun out hout => by simpa using hout.symm⟩

/-- `XMSSTreeLedgerClaimAndSign`, wherever it is cut off. -/
theorem claimAndSign_ensures (x : XmssKeys) (io : Io) (root : Uint256) (hash32 : Bytes)
    (d : LedgerDir) :
    (xmssTreeLedgerClaimAndSign x io root hash32).Ensures d (ClaimOutcome x d root hash32) := by
  unfold xmssTreeLedgerClaimAndSign
  split
  · exact ensures_pure (.inl ⟨rfl, by simp⟩)
  refine ensures_read_bind ?_
  split
  · exact ensures_pure (.inl ⟨rfl, by simp⟩)
  rename_i state hload
  obtain ⟨hloaded, hroot⟩ := loadLocked_eq_some hload
  refine ensures_bind (getOrCreateInstanceId_ensures io d) ?_ ?_
  · rintro d₁ ⟨hdat, -⟩
    exact .inl ⟨hdat, by simp⟩
  rintro d₁ id ⟨hdat, -⟩
  show Durable.Ensures (if _ then _ else _) d₁ _
  split
  · exact signAndSave_ensures io hash32 hloaded hroot hdat id
  refine ensures_read_bind ?_
  split
  · -- The sentinel is not part of the ledger files.
    refine ensures_write_bind (.inl ⟨hdat, by simp⟩) ?_
    exact signAndSave_ensures io hash32 hloaded hroot (by exact hdat) id
  · exact ensures_pure (.inl ⟨hdat, by simp⟩)

/-- A call of `XMSSTreeLedgerClaimAndSign` that returns a signature has claimed the next leaf of
the ledger, as `XMSSTreeLedgerStatus` gives it. -/
theorem claimAndSign_eq_some {sig : Bytes} {d' : LedgerDir} {n k : Nat} {leaf : UInt32}
    (h : xmssTreeLedgerClaimAndSign x io root hash32 d n = (d', some (some (sig, leaf), k))) :
    ∃ sm state next, Claimed x d d' root hash32 sm state next ∧
      sig = sm.take (sm.length - hash32.length) ∧ leaf = state.nextLeafIndex ∧
      xmssTreeLedgerStatus io root d = some leaf := by
  rcases (claimAndSign_ensures x io root hash32 d).of_eq h with
    ⟨-, hnone⟩ | ⟨sm, state, next, hc, hout⟩
  · exact absurd rfl (hnone _)
  · obtain ⟨hsig, hleaf⟩ := Prod.mk.inj (hout _ rfl)
    refine ⟨sm, state, next, hc, hsig, hleaf, ?_⟩
    -- Without a file that can be read the call returns nothing.
    unfold xmssTreeLedgerClaimAndSign at h
    by_cases hbl : isXMSSTreeBlacklisted root = true
    · rw [if_pos hbl] at h
      cases h
    rw [if_neg hbl] at h
    obtain ⟨d₁, loaded, n₁, hread, h⟩ := bind_eq_some h
    cases hread
    cases hload : loadLocked io root d with
    | none =>
      rw [hload] at h
      cases h
    | some st =>
      have hst : st = state :=
        Option.some.inj ((loadLocked_eq_some hload).1.symm.trans hc.loaded)
      rw [xmssTreeLedgerStatus, hload, map_some, hst, hleaf]

/-- A run of `XMSSTreeLedgerClaimAndSign`. -/
theorem claimOutcome_run (x : XmssKeys) (io : Io) (root : Uint256) (hash32 : Bytes)
    (d : LedgerDir) (crash : Nat) :
    ClaimOutcome x d root hash32 ((xmssTreeLedgerClaimAndSign x io root hash32).run d crash).1
      ((xmssTreeLedgerClaimAndSign x io root hash32).run d crash).2 := by
  refine (claimAndSign_ensures x io root hash32 d).run_of_lost ?_ crash
  intro d' r hr
  exact hr.lost

/-- What `XMSSTreeLedgerInit` and `XMSSTreeLedgerSeedFromActive` can do from `d`: they leave the
ledger files as they are, or they write a file for a tree that has none. -/
def SeedOutcome (d : LedgerDir) (state : XMSSMinerState) (d' : LedgerDir) : Prop :=
  d'.dat = d.dat ∨
    ∃ id, d.dat state.xmssRoot = none ∧ state.isValid ∧
      d'.dat = Function.update d.dat state.xmssRoot
        (some { state with version := STATE_VERSION, ownerStamp := id }.serialize)

theorem stampAndSave_ensures (io : Io) (habsent : ¬ xmssTreeLedgerExists state.xmssRoot d)
    (hvalid : state.isValid) :
    (stampAndSave io state).Ensures d fun d' _ => SeedOutcome d state d' := by
  unfold stampAndSave
  refine ensures_bind (getOrCreateInstanceId_ensures io d) ?_ ?_
  · rintro d₁ ⟨hdat, -⟩
    exact .inl hdat
  rintro d₁ id ⟨hdat, -⟩
  refine ensures_mono (saveLocked_ensures io _ d₁) ?_
  rintro d' r (⟨hd', -⟩ | hsaved)
  · exact .inl (hd'.trans hdat)
  · have hnone : d.dat state.xmssRoot = none := by
      simpa [xmssTreeLedgerExists] using habsent
    rw [hdat] at hsaved
    exact .inr ⟨id, hnone, hvalid, hsaved⟩

theorem ledgerInit_ensures (io : Io) (fresh : XMSSMinerState) (d : LedgerDir) :
    (xmssTreeLedgerInit io fresh).Ensures d fun d' _ => SeedOutcome d fresh d' := by
  unfold xmssTreeLedgerInit
  split
  · exact ensures_pure (.inl rfl)
  rename_i hvalid
  refine ensures_read_bind ?_
  split
  · exact ensures_pure (.inl rfl)
  · rename_i habsent
    exact stampAndSave_ensures io habsent (by simpa using hvalid)

theorem seedFromActive_ensures (io : Io) (active : XMSSMinerState) (d : LedgerDir) :
    (xmssTreeLedgerSeedFromActive io active).Ensures d fun d' _ => SeedOutcome d active d' := by
  unfold xmssTreeLedgerSeedFromActive
  refine ensures_read_bind ?_
  split
  · exact ensures_pure (.inl rfl)
  rename_i habsent
  split
  · exact ensures_pure (.inl rfl)
  · rename_i hvalid
    exact stampAndSave_ensures io habsent (by simpa using hvalid)

/-- No ledger file that is there changes. -/
def LedgerDir.Grows (d d' : LedgerDir) : Prop :=
  ∀ root, d.dat root ≠ none → d'.dat root = d.dat root

namespace LedgerDir.Grows

variable {d d₁ d' : LedgerDir}

theorem of_dat (h : d'.dat = d.dat) : d.Grows d' :=
  fun root _ => by rw [h]

theorem trans (h : d.Grows d₁) (h' : d₁.Grows d') : d.Grows d' := by
  intro root hne
  have hroot := h root hne
  rw [h' root (by rwa [hroot]), hroot]

/-- A tree with a file is not seeded. -/
theorem of_seed (h : SeedOutcome d state d') : d.Grows d' := by
  rcases h with hdat | ⟨id, habsent, -, hdat⟩
  · exact of_dat hdat
  intro root hne
  have hroot : root ≠ state.xmssRoot := by
    rintro rfl
    exact hne habsent
  rw [hdat, update_of_ne hroot]

theorem stateOf_eq (h : d.Grows d') (hstate : d.stateOf root = some state) :
    d'.stateOf root = some state := by
  obtain ⟨data, hdata, hdes⟩ := bind_eq_some_iff.mp hstate
  have hne : d.dat root ≠ none := by
    rw [hdata]
    simp
  rw [stateOf, h root hne]
  exact hstate

end LedgerDir.Grows

/-! ### Runs -/

/-- What holds between the directory and the log of the returned leaves. -/
structure LedgerInv (d : LedgerDir) (log : List LedgerClaim) : Prop where
  /-- The ledger file is past every leaf that was returned. -/
  past : ∀ c ∈ log, ∃ s, d.stateOf c.root = some s ∧ c.leaf < s.nextLeafIndex
  /-- A leaf is in the tree, and its signature names it. -/
  leaf : ∀ c ∈ log, c.leaf < XMSS_MAX_LEAVES ∧ leafIndexOf c.sig = c.leaf.toNat
  /-- A later leaf of a tree is a larger one. -/
  increasing : log.Pairwise fun later earlier =>
    later.root = earlier.root → earlier.leaf < later.leaf

namespace LedgerInv

variable {d d' : LedgerDir} {log : List LedgerClaim}

theorem nil (d : LedgerDir) : LedgerInv d [] :=
  ⟨by simp, by simp, List.Pairwise.nil⟩

theorem grows (h : LedgerInv d log) (hd : d.Grows d') : LedgerInv d' log := by
  refine ⟨fun c hc => ?_, h.leaf, h.increasing⟩
  obtain ⟨s, hs, hlt⟩ := h.past c hc
  exact ⟨s, hd.stateOf_eq hs, hlt⟩

section Claim
variable {x : XmssKeys} {root : Uint256} {hash32 sm : Bytes} {state next : XMSSMinerState}

/-- A claim moves the ledger file forward, whether its leaf is returned or not. -/
theorem claim (hx : SignSpec x) (h : LedgerInv d log)
    (hc : Claimed x d d' root hash32 sm state next) : LedgerInv d' log := by
  refine ⟨fun c hmem => ?_, h.leaf, h.increasing⟩
  obtain ⟨s, hs, hlt⟩ := h.past c hmem
  by_cases heq : c.root = root
  · have hstate : s = state := by
      rw [heq, hc.loaded] at hs
      exact (Option.some.inj hs).symm
    refine ⟨next, heq ▸ hc.reload hx, ?_⟩
    have hnext := hc.nextLeafIndex_eq
    rw [hstate, UInt32.lt_iff_toNat_lt] at hlt
    rw [UInt32.lt_iff_toNat_lt]
    omega
  · exact ⟨s, by rw [hc.stateOf_ne heq, hs], hlt⟩

/-- A returned leaf is above those that were returned before: the ledger file was past them. -/
theorem claim_returned (hx : SignSpec x) (h : LedgerInv d log)
    (hc : Claimed x d d' root hash32 sm state next) :
    LedgerInv d'
      (⟨root, state.nextLeafIndex, sm.take (sm.length - hash32.length)⟩ :: log) := by
  have hkept := h.claim hx hc
  refine ⟨?_, ?_, pairwise_cons.mpr ⟨?_, h.increasing⟩⟩
  · intro c hmem
    rcases mem_cons.mp hmem with rfl | hmem
    · refine ⟨next, hc.reload hx, ?_⟩
      have hnext := hc.nextLeafIndex_eq
      show state.nextLeafIndex < next.nextLeafIndex
      rw [UInt32.lt_iff_toNat_lt]
      omega
    · exact hkept.past c hmem
  · intro c hmem
    rcases mem_cons.mp hmem with rfl | hmem
    · exact ⟨hc.left, hc.leafIndexOf_eq hx⟩
    · exact h.leaf c hmem
  · intro c hmem hroot
    obtain ⟨s, hs, hlt⟩ := h.past c hmem
    have hroot' : root = c.root := hroot
    rw [← hroot', hc.loaded] at hs
    rwa [← Option.some.inj hs] at hlt

/-- After a call of `XMSSTreeLedgerClaimAndSign`, wherever it was cut off. -/
theorem note (hx : SignSpec x) {s : LedgerRun} (h : LedgerInv d s.returned)
    {r : Option (Option (Bytes × UInt32))} (hr : ClaimOutcome x d root hash32 d' r) :
    LedgerInv (s.note root (d', r)).disk (s.note root (d', r)).returned := by
  match r with
  | some (some (sig, leaf)) =>
    rcases hr with ⟨-, hnone⟩ | ⟨sm, state, next, hc, hout⟩
    · exact absurd rfl (hnone _)
    · cases hout _ rfl
      exact h.claim_returned hx hc
  | some none | none =>
    rcases hr with ⟨hdat, -⟩ | ⟨sm, state, next, hc, -⟩
    · exact h.grows (.of_dat hdat)
    · exact h.claim hx hc

end Claim

end LedgerInv

/-- One operation keeps the invariant. -/
theorem ledgerInv_step (hx : SignSpec x) {s : LedgerRun} (h : LedgerInv s.disk s.returned)
    (op : LedgerOp) :
    LedgerInv (s.step x op).disk (s.step x op).returned := by
  cases op with
  | init io fresh crash =>
    obtain ⟨r, hseed, -⟩ := (ledgerInit_ensures io fresh s.disk).run crash
    exact h.grows (.of_seed hseed)
  | seedFromActive io active crash =>
    obtain ⟨r, hseed, -⟩ := (seedFromActive_ensures io active s.disk).run crash
    exact h.grows (.of_seed hseed)
  | forceclaim root => exact h.grows (.of_dat rfl)
  | claimAndSign io root hash32 crash =>
    exact h.note hx (claimOutcome_run x io root hash32 s.disk crash)

/-- Every run keeps the invariant. -/
theorem ledgerInv_run (hx : SignSpec x) (ops : List LedgerOp) (d : LedgerDir) :
    LedgerInv (ledgerRun x ops d).disk (ledgerRun x ops d).returned := by
  suffices hrun : ∀ s : LedgerRun, LedgerInv s.disk s.returned →
      LedgerInv (ops.foldl (LedgerRun.step x) s).disk (ops.foldl (LedgerRun.step x) s).returned from
    hrun _ (LedgerInv.nil d)
  induction ops with
  | nil =>
    intro s h
    exact h
  | cons op ops ih =>
    intro s h
    exact ih _ (ledgerInv_step hx h op)

/-- **Leaves are claimed once.** In every run on a directory, with a crash at any point, the
leaves that `XMSSTreeLedgerClaimAndSign` returns for a tree are strictly increasing and below
1023. The signature of each starts with its index, and the ledger file of the tree is past it. -/
theorem claims_increase {x : XmssKeys} (hx : SignSpec x) (ops : List LedgerOp) (d : LedgerDir) :
    ((ledgerRun x ops d).returned.Pairwise fun later earlier =>
      later.root = earlier.root → earlier.leaf < later.leaf) ∧
    ∀ c ∈ (ledgerRun x ops d).returned,
      c.leaf < 1023 ∧ readBE (c.sig.take 4) = c.leaf.toNat ∧
      ∃ data state, (ledgerRun x ops d).disk.dat c.root = some data ∧
        XMSSMinerState.deserialize data = some state ∧ c.leaf < state.nextLeafIndex := by
  have hinv := ledgerInv_run hx ops d
  refine ⟨hinv.increasing, fun c hc => ?_⟩
  obtain ⟨hlt, hindex⟩ := hinv.leaf c hc
  obtain ⟨state, hstate, hpast⟩ := hinv.past c hc
  obtain ⟨data, hdata, hdes⟩ := bind_eq_some_iff.mp hstate
  exact ⟨hlt, hindex, data, state, hdata, hdes, hpast⟩

/-- A tree that is seeded and used for three claims. The second one dies after its rename. -/
def sampleLedgerOps : List LedgerOp :=
  [.init sampleIo sampleState 100,
    .claimAndSign sampleIo sampleRoot (List.replicate 32 1) 100,
    .claimAndSign sampleIo sampleRoot (List.replicate 32 2) 3,
    .claimAndSign sampleIo sampleRoot (List.replicate 32 3) 100]

theorem claims_increase_sampleLedgerOps :
    (ledgerRun sampleKeys sampleLedgerOps LedgerDir.empty).returned.map LedgerClaim.leaf = [2, 0] ∧
    (ledgerRun sampleKeys sampleLedgerOps LedgerDir.empty).returned.Pairwise fun later earlier =>
      later.root = earlier.root → earlier.leaf < later.leaf :=
  ⟨by decide +kernel, (claims_increase signSpec_sampleKeys sampleLedgerOps empty).1⟩

end AssentianPQE
