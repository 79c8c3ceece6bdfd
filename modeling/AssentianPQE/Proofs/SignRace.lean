import AssentianPQE.Proofs.LedgerClaims
import AssentianPQE.SampleSpend
import AssentianPQE.Wallet.SignTx

/-!
# `AssentianPQE.Proofs.SignRace`: the leaf that is signed and the leaf that is claimed

`CreateXMSSSig` reads the next leaf of a tree, hashes it into the message, and then calls
`SignXMSS`, which claims the next leaf of the ledger again. Between the two calls other threads
can claim leaves of the same tree. The leaf that was used is not compared with the one that was
read.

`createXMSSSig_verifies_iff`: a signature that `CreateXMSSSig` returns is accepted by
`CheckXMSSSignature` exactly if the ledger is at the leaf that was read when the leaf is claimed
(`LeafStill`). `leafStill_iff_unmoved` says for a ledger that could be read what that means: no
claim of another thread took effect in between.
-/

set_option autoImplicit false

namespace AssentianPQE

open Lib Durable List Option LedgerDir

variable {env : SignEnv} {entry : XMSSKeyEntry} {s : CXMSSSigner} {d : LedgerDir} {n : Nat}
  {sig : Bytes} {leaf : UInt32} {x : XmssKeys}

/-- What is assumed of the secret keys of a tree: signing leads to the next one of them, and a
signature verifies for the message that was signed and for no other. -/
structure SignsFor (c : Crypto) (x : XmssKeys) (pubkey : Bytes) (Tree : Bytes → Prop) : Prop where
  next : ∀ sk msg sm sk', Tree sk → x.sign sk msg = some (sm, sk') → Tree sk'
  verifies : ∀ sk msg sm sk', Tree sk → msg.length = 32 → x.sign sk msg = some (sm, sk') →
    ∀ msg' : Bytes, msg'.length = 32 →
      (xmssVerify c msg' (sm.take (sm.length - msg.length)) pubkey = true ↔ msg' = msg)

/-- Claims that other threads make on a tree. -/
def otherClaims (x : XmssKeys) (root : Uint256) : List (Io × Bytes) → Durable LedgerDir Unit
  | [] => pure ()
  | (io, hash32) :: rest => do
    let _ ← xmssTreeLedgerClaimAndSign x io root hash32
    otherClaims x root rest

/-- What happens to the ledger between the two calls: the claims of other threads, and the
creation of the ledger if there is none. -/
def CXMSSSigner.beforeClaim (env : SignEnv) (pubkey : Bytes) (s : CXMSSSigner) :
    Durable LedgerDir Unit :=
  match s.xmssKeys[pubkey]? with
  | none => pure ()
  | some entry => do
    env.others 0
    let _ ← CXMSSSigner.ensureLedger env pubkey entry
    env.others 2

/-- When the leaf is claimed, the next leaf of the ledger is still the one that was read. -/
def LeafStill (env : SignEnv) (pubkey : Bytes) (s : CXMSSSigner) (d : LedgerDir) (n : Nat) : Prop :=
  xmssTreeLedgerStatus env.claim (rootOf pubkey) ((s.beforeClaim env pubkey) d n).1 =
    some (s.getXMSSLeafIndex env.status pubkey d)

/-! ### The secret key in the ledger -/

/-- The ledger file of a tree holds one of its secret keys. -/
def LedgerHolds (Tree : Bytes → Prop) (root : Uint256) (d : LedgerDir) : Prop :=
  ∀ state, d.stateOf root = some state → Tree state.sk

variable {r : Option (Option (Bytes × UInt32))}

namespace LedgerHolds

variable {c : Crypto} {x : XmssKeys} {pubkey : Bytes} {Tree : Bytes → Prop} {root : Uint256}
  {d d' : LedgerDir}

theorem of_dat (h : LedgerHolds Tree root d) (hdat : d'.dat = d.dat) : LedgerHolds Tree root d' := by
  intro state hstate
  rw [stateOf, hdat] at hstate
  exact h state hstate

theorem claimOutcome (hx : SignSpec x) (hv : SignsFor c x pubkey Tree) (h : LedgerHolds Tree root d)
    {hash32 : Bytes} (hr : ClaimOutcome x d root hash32 d' r) : LedgerHolds Tree root d' := by
  rcases hr with ⟨hdat, -⟩ | ⟨sm, state, next, hc, -⟩
  · exact h.of_dat hdat
  · intro st hst
    rw [hc.reload hx] at hst
    cases hst
    exact hv.next _ _ _ _ (h state hc.loaded) hc.signed

theorem otherClaims (hx : SignSpec x) (hv : SignsFor c x pubkey Tree) (calls : List (Io × Bytes)) :
    ∀ {d : LedgerDir}, LedgerHolds Tree root d →
      (otherClaims x root calls).Ensures d fun d' _ => LedgerHolds Tree root d' := by
  induction calls with
  | nil =>
    intro d h
    exact ensures_pure h
  | cons call calls ih =>
    intro d h
    refine ensures_bind (claimAndSign_ensures x call.1 root call.2 d) ?_ ?_
    · intro d' hr
      exact h.claimOutcome hx hv hr
    · intro d' r hr
      exact ih (h.claimOutcome hx hv hr)

/-- A new ledger file holds the secret key that it was seeded with. -/
theorem seed {sk : Bytes} (hsk : Tree sk) (h : LedgerHolds Tree root d)
    (hseed : SeedOutcome d (freshState root sk) d') : LedgerHolds Tree root d' := by
  rcases hseed with hdat | ⟨id, -, hvalid, hdat⟩
  · exact h.of_dat hdat
  intro state hstate
  have hlen : sk.length = (freshState root sk).skLen.toNat := by
    have hv : (freshState root sk).sk.length = (freshState root sk).skLen.toNat := by
      simp only [XMSSMinerState.isValid, decide_eq_true_eq] at hvalid
      exact hvalid.2.2.2.2.2.2
    exact hv
  have hroot : (freshState root sk).xmssRoot = root := rfl
  rw [stateOf, hdat, hroot, Function.update_self, bind_some] at hstate
  rw [eq_of_deserialize_serialize rfl rfl hlen hstate]
  exact hsk

theorem ensureLedger (hx : SignSpec x) (hv : SignsFor c x pubkey Tree) {calls : List (Io × Bytes)}
    (henv : env.others 1 = AssentianPQE.otherClaims x (rootOf pubkey) calls) (hkey : Tree entry.sk)
    (h : LedgerHolds Tree (rootOf pubkey) d) :
    (CXMSSSigner.ensureLedger env pubkey entry).Ensures d fun d' _ =>
      LedgerHolds Tree (rootOf pubkey) d' := by
  unfold CXMSSSigner.ensureLedger
  refine ensures_read_bind ?_
  split
  · exact ensures_pure h
  split
  · exact ensures_pure h
  rw [henv]
  refine ensures_bind (h.otherClaims hx hv calls) (fun _ h => h) ?_
  intro d₁ _ h₁
  exact ensures_mono (ledgerInit_ensures env.init _ d₁) fun d' _ hseed =>
    h₁.seed hkey hseed

end LedgerHolds

/-! ### A signature that is returned -/

section Returned
variable {c : Crypto} {x : XmssKeys} {env : SignEnv} {pubkey : Bytes}

/-- What a call of `SignXMSS` that returns a signature has done. -/
structure SignedWith (x : XmssKeys) (env : SignEnv) (hash : Uint256) (pubkey : Bytes)
    (s : CXMSSSigner) (entry : XMSSKeyEntry) (d : LedgerDir) (n : Nat) (sig : Bytes)
    (leaf : UInt32) : Prop where
  entry_eq : s.xmssKeys[pubkey]? = some entry
  length_eq : pubkey.length = 64
  fresh : entry.imported = true ∨ entry.retired = false
  /-- The directory when the leaf is claimed. -/
  claim : ∃ d₁ n₁ d₂ n₂ d₃ k,
    CXMSSSigner.ensureLedger env pubkey entry d n = (d₁, some (true, n₁)) ∧
    env.others 2 d₁ n₁ = (d₂, some ((), n₂)) ∧
    xmssTreeLedgerClaimAndSign x env.claim (rootOf pubkey) hash.data d₂ n₂ =
      (d₃, some (some (sig, leaf), k))

variable {s' : CXMSSSigner}

theorem signXMSS_eq_some {hash : Uint256} {d' : LedgerDir} {k : Nat}
    (h : s.signXMSS x env hash pubkey d n = (d', some ((some (sig, leaf), s'), k))) :
    ∃ entry, SignedWith x env hash pubkey s entry d n sig leaf := by
  unfold CXMSSSigner.signXMSS at h
  cases hentry : s.xmssKeys[pubkey]? with
  | none =>
    rw [hentry] at h
    cases h
  | some entry =>
    rw [hentry] at h
    dsimp only at h
    by_cases hlen : pubkey.length ≠ 64
    · rw [if_pos hlen] at h
      cases h
    rw [if_neg hlen] at h
    by_cases hretired : (!entry.imported && entry.retired) = true
    · rw [if_pos hretired] at h
      cases h
    rw [if_neg hretired] at h
    obtain ⟨d₁, ready, n₁, hensure, h⟩ := bind_eq_some h
    cases ready with
    | false => cases h
    | true =>
      obtain ⟨d₂, u, n₂, hothers, h⟩ := bind_eq_some h
      obtain ⟨d₃, r, n₃, hclaim, h⟩ := bind_eq_some h
      cases r with
      | none => cases h
      | some out =>
        cases h
        have hfresh : entry.imported = true ∨ entry.retired = false := by
          simpa [or_iff_not_imp_left] using hretired
        exact ⟨entry, hentry, not_not.mp hlen, hfresh,
          d₁, n₁, d₂, n₂, d', k, hensure, hothers, hclaim⟩

/-- A call of `CreateXMSSSig` that returns a fresh signature: the leaf that it hashes is the one
that it reads at the start. -/
theorem createXMSSSig_eq_some {chainId : UInt32} {t : TxContext} {scriptCode : Script}
    {sigversion : SigVersion} {sigdata sigdata' : XmssSignatures} {d' : LedgerDir} {k : Nat}
    (hfresh : sigdata[pubkey]? = none)
    (h : createXMSSSig c x env chainId t pubkey scriptCode sigversion sigdata s d n =
      (d', some ((some sig, sigdata', s'), k))) :
    ∃ entry d₁ n₁ leaf,
      env.others 0 d n = (d₁, some ((), n₁)) ∧
      SignedWith x env (sighashV2 c (signatureHash c t scriptCode SIGHASH_ALL sigversion)
        (s.getXMSSLeafIndex env.status pubkey d) chainId) pubkey s entry d₁ n₁ sig leaf := by
  unfold createXMSSSig at h
  rw [hfresh] at h
  dsimp only at h
  obtain ⟨d₀, leafIndex, n₀, hread, h⟩ := bind_eq_some h
  cases hread
  obtain ⟨d₁, u, n₁, hothers, h⟩ := bind_eq_some h
  obtain ⟨d₂, r, n₂, hsign, h⟩ := bind_eq_some h
  match r with
  | (none, s₁) => cases h
  | (some (sig₁, leaf), s₁) =>
    cases h
    obtain ⟨entry, hsigned⟩ := signXMSS_eq_some hsign
    exact ⟨entry, d₁, n₁, leaf, hothers, hsigned⟩

end Returned

/-! ### The message that is verified -/

/-- The amount is part of a witness v0 digest only. -/
theorem signatureHash_amount (c : Crypto) (t : TxContext) (scriptCode : Script) (nHashType : Nat)
    (sigversion : SigVersion) :
    signatureHash c
        (if sigversion = .base ∨ sigversion = .witnessV0 then t else { t with amount := 0 })
        scriptCode nHashType sigversion =
      signatureHash c t scriptCode nHashType sigversion := by
  cases sigversion <;> rfl

/-- `CheckXMSSSignature` hashes the leaf that the signature starts with. -/
theorem xmssSighash_eq_sighashV2 (c : Crypto) (t : TxContext) (scriptCode : Script)
    (sigversion : SigVersion) (hlen : 4 ≤ sig.length) (hleaf : leafIndexOf sig = leaf.toNat) :
    xmssSighash c t sig scriptCode sigversion =
      sighashV2 c (signatureHash c t scriptCode SIGHASH_ALL sigversion) leaf t.xmssChainId := by
  unfold xmssSighash sighashV2
  dsimp only
  rw [if_pos hlen, signatureHash_amount, hleaf]

/-- The directory when the leaf is claimed. -/
theorem beforeClaim_eq {pubkey : Bytes} (hentry : s.xmssKeys[pubkey]? = some entry)
    {d₁ d₂ d₃ : LedgerDir} {n₁ n₂ n₃ : Nat} {ready : Bool}
    (hothers : env.others 0 d n = (d₁, some ((), n₁)))
    (hensure : CXMSSSigner.ensureLedger env pubkey entry d₁ n₁ = (d₂, some (ready, n₂)))
    (hlast : env.others 2 d₂ n₂ = (d₃, some ((), n₃))) :
    (s.beforeClaim env pubkey) d n = (d₃, some ((), n₃)) := by
  unfold CXMSSSigner.beforeClaim
  rw [hentry]
  dsimp only
  rw [bind_of_some hothers, bind_of_some hensure, hlast]

/-- **When a signature is accepted.** Whatever other threads claim on the tree in between, a
fresh signature that `CreateXMSSSig` returns is accepted by `CheckXMSSSignature` exactly if the
ledger is still at the leaf that was read when the leaf is claimed. -/
theorem createXMSSSig_verifies_iff {c : Crypto} {x : XmssKeys} (hx : SignSpec x) {pubkey : Bytes}
    {Tree : Bytes → Prop} (hv : SignsFor c x pubkey Tree) {env : SignEnv}
    (calls : Nat → List (Io × Bytes))
    (henv : ∀ i, env.others i = otherClaims x (rootOf pubkey) (calls i))
    (t : TxContext) (scriptCode : Script) (sigversion : SigVersion)
    (hhash : ∀ a b : UInt32,
      sighashV2 c (signatureHash c t scriptCode SIGHASH_ALL sigversion) a t.xmssChainId =
        sighashV2 c (signatureHash c t scriptCode SIGHASH_ALL sigversion) b t.xmssChainId → a = b)
    {s s' : CXMSSSigner} (hkey : ∀ entry, s.xmssKeys[pubkey]? = some entry → Tree entry.sk)
    {d d' : LedgerDir} (hledger : LedgerHolds Tree (rootOf pubkey) d)
    {sigdata sigdata' : XmssSignatures} (hfresh : sigdata[pubkey]? = none) {n : Nat} {sig : Bytes}
    (hret : (createXMSSSig c x env t.xmssChainId t pubkey scriptCode sigversion sigdata s).run d n =
      (d', some (some sig, sigdata', s'))) :
    checkXMSSSignature c t sig pubkey scriptCode sigversion = true ↔ LeafStill env pubkey s d n := by
  obtain ⟨k, hret⟩ := Durable.run_eq_some hret
  obtain ⟨entry, d₁, n₁, leaf, hothers, hentry, hlen, -, d₂, n₂, d₃, n₃, d₄, n₄, hensure, hlast, hclaim⟩ :=
    createXMSSSig_eq_some hfresh hret
  -- The secret key in the ledger when the leaf is claimed is one of the tree.
  have hhold : LedgerHolds Tree (rootOf pubkey) d₃ := by
    have h₁ := (hledger.otherClaims hx hv (calls 0)).of_eq (henv 0 ▸ hothers)
    have h₂ := (h₁.ensureLedger hx hv (henv 1) (hkey entry hentry)).of_eq hensure
    exact (h₂.otherClaims hx hv (calls 2)).of_eq (henv 2 ▸ hlast)
  obtain ⟨sm, state, next, hc, hsig, hleaf, hstatus⟩ := claimAndSign_eq_some hclaim
  -- The signature verifies for the message with the leaf that was read, and for no other.
  have hverify := hv.verifies _ _ _ _ (hhold state hc.loaded) hc.hash_length hc.signed
  have hindex : leafIndexOf sig = leaf.toNat := by
    rw [hsig, hleaf]
    exact hc.leafIndexOf_eq hx
  have hsigLen : sig.length = 2500 := by
    have hsm := (hx.signs_index _ _ _ _ hc.signed).1
    have hbytes : XMSS_SIG_BYTES = 2500 := rfl
    rw [hsig, length_take]
    omega
  have hne : sig ≠ [] := by
    intro hnil
    rw [hnil] at hsigLen
    cases hsigLen
  have hcheck : checkXMSSSignature c t sig pubkey scriptCode sigversion =
      xmssVerify c (sighashV2 c (signatureHash c t scriptCode SIGHASH_ALL sigversion) leaf
        t.xmssChainId).data sig pubkey := by
    unfold checkXMSSSignature
    rw [if_neg (not_not.mpr hlen), if_neg hne,
      xmssSighash_eq_sighashV2 c t scriptCode sigversion (by omega) hindex]
  have hstill : LeafStill env pubkey s d n ↔ leaf = s.getXMSSLeafIndex env.status pubkey d := by
    unfold LeafStill
    rw [beforeClaim_eq hentry hothers hensure hlast, hstatus, Option.some.injEq]
  rw [hcheck, hstill, hsig, hverify _ (Blob.length_data _)]
  constructor
  · intro heq
    exact hhash _ _ (Blob.ext heq)
  · intro heq
    rw [heq]

/-! ### A race on the sample key -/

/-- Primitives whose digest is the last 32 bytes of a string, so that digests of different leaves
differ. -/
def tailCrypto : Crypto :=
  { sampleCrypto with
    sha256 := fun bs => ⟨(List.replicate 32 0 ++ bs).drop bs.length, by
      rw [List.length_drop, List.length_append, List.length_replicate, Nat.add_sub_cancel]⟩ }

theorem sighashV2_tailCrypto_inj (sighash : Uint256) (chainId : UInt32) {a b : UInt32}
    (h : sighashV2 tailCrypto sighash a chainId = sighashV2 tailCrypto sighash b chainId) :
    a = b := by
  have hdigest (l : UInt32) : (sighashV2 tailCrypto sighash l chainId).data =
      sighash.data.drop 8 ++ (beBytes 4 l.toNat ++ beBytes 4 chainId.toNat) := by
    show (List.replicate 32 0 ++ (sighash.data ++ (beBytes 4 l.toNat ++ beBytes 4 chainId.toNat))).drop
      (sighash.data ++ (beBytes 4 l.toNat ++ beBytes 4 chainId.toNat)).length = _
    have hlen : (sighash.data ++ (beBytes 4 l.toNat ++ beBytes 4 chainId.toNat)).length = 32 + 8 := by
      rw [length_append, length_append, sighash.length_data, length_beBytes, length_beBytes]
    rw [hlen, ← drop_drop, drop_left' length_replicate,
      drop_append_of_le_length (by rw [sighash.length_data]; omega)]
  have heq := congrArg Blob.data h
  rw [hdigest, hdigest] at heq
  have hleaf := (append_inj (append_cancel_left heq) (by simp)).1
  have hval := congrArg readBE hleaf
  have ha : a.toNat < 256 ^ 4 := a.toNat_lt
  have hb : b.toNat < 256 ^ 4 := b.toNat_lt
  rw [readBE_beBytes, readBE_beBytes, Nat.mod_eq_of_lt ha, Nat.mod_eq_of_lt hb] at hval
  exact UInt32.toNat.inj hval

theorem signsFor_samplePubkey : SignsFor tailCrypto sampleKeys samplePubkey fun _ => True where
  next _ _ _ _ _ _ := trivial
  verifies := by
    intro sk msg sm sk' _ hlen hsign msg' hlen'
    obtain ⟨-, -, rfl, -⟩ := sampleKeys_sign hsign
    have htake : msg.take 32 = msg := take_of_length_le hlen.le
    have hne : msg' ≠ [] := by
      intro hnil
      rw [hnil] at hlen'
      cases hlen'
    -- The signature without the message: the index, the message and zeros.
    have hsig : (sampleSm (skIndex sk) msg).take ((sampleSm (skIndex sk) msg).length - msg.length) =
        beBytes 4 (skIndex sk) ++ (msg ++ List.replicate 2464 0) := by
      have hparts : sampleSm (skIndex sk) msg =
          (beBytes 4 (skIndex sk) ++ (msg ++ List.replicate 2464 0)) ++ msg := by
        rw [sampleSm, htake, hlen, append_assoc, append_assoc]
      rw [hparts, length_append, Nat.add_sub_cancel]
      exact take_left' rfl
    rw [hsig, xmssVerify_iff tailCrypto hne]
    show _ ∧ decide (((beBytes 4 (skIndex sk) ++ (msg ++ List.replicate 2464 0)).drop 4).take 32 =
      msg') = true ↔ _
    rw [drop_left' (length_beBytes 4 _), take_left' hlen, decide_eq_true_eq]
    refine ⟨fun h => h.2.symm, fun h => ⟨?_, h.symm⟩⟩
    rw [length_append, length_append, length_beBytes, length_replicate, hlen]
    rfl

/-- A signer with the sample key. -/
def sampleSigner : CXMSSSigner :=
  CXMSSSigner.empty.insert tailCrypto samplePubkey { sk := sampleSk }

/-- The input that is signed. -/
def sampleInput : TxContext :=
  spendContext unsignedSpend ⟨1000, xmssScript (sampleKey 7)⟩

/-- Nothing fails, and other threads make these claims after the leaf was read. -/
def raceEnv (calls : List (Io × Bytes)) : SignEnv where
  status := sampleIo
  init := sampleIo
  claim := sampleIo
  others := fun i => otherClaims sampleKeys sampleRoot (if i = 0 then calls else [])

/-- The run of `CreateXMSSSig` on the sample ledger. -/
def raceRun (calls : List (Io × Bytes)) :
    LedgerDir × Option (Option Bytes × XmssSignatures × CXMSSSigner) :=
  (createXMSSSig tailCrypto sampleKeys (raceEnv calls) sampleInput.xmssChainId sampleInput
    samplePubkey (xmssScript (sampleKey 7)) .base ∅ sampleSigner).run sampleLedger 100

theorem createXMSSSig_verifies_iff_quiet :
    ∃ sig, (raceRun []).2.bind Prod.fst = some sig ∧
      checkXMSSSignature tailCrypto sampleInput sig samplePubkey (xmssScript (sampleKey 7)) .base =
        true := by
  have hsome : ((raceRun []).2.bind Prod.fst).isSome = true := by decide +kernel
  obtain ⟨sig, hsig⟩ := isSome_iff_exists.mp hsome
  obtain ⟨⟨out, sigdata', s'⟩, hrun, hout⟩ := bind_eq_some_iff.mp hsig
  have hout' : out = some sig := hout
  rw [hout'] at hrun
  have hret : raceRun [] = ((raceRun []).1, some (some sig, sigdata', s')) := by
    rw [← hrun]
  have hroot : rootOf samplePubkey = sampleRoot := by decide +kernel
  have henv (i : Nat) : (raceEnv []).others i = otherClaims sampleKeys (rootOf samplePubkey) [] := by
    rw [hroot]
    show otherClaims sampleKeys sampleRoot (if i = 0 then [] else []) = _
    rw [ite_self]
  have hstill : LeafStill (raceEnv []) samplePubkey sampleSigner sampleLedger 100 := by
    unfold LeafStill
    decide +kernel
  have hiff := @createXMSSSig_verifies_iff tailCrypto sampleKeys signSpec_sampleKeys samplePubkey
    (fun _ => True) signsFor_samplePubkey (raceEnv []) (fun _ => []) henv sampleInput
    (xmssScript (sampleKey 7)) .base (fun _ _ => sighashV2_tailCrypto_inj _ _) sampleSigner s'
    (fun _ _ => trivial) sampleLedger (raceRun []).1 (fun _ _ => trivial) ∅ sigdata'
    Std.ExtTreeMap.getElem?_empty 100 sig hret
  exact ⟨sig, hsig, hiff.mpr hstill⟩

/-- One claim of another thread after the leaf was read: the signature is returned, and it does
not verify. -/
theorem createXMSSSig_raced :
    ∃ sig, (raceRun [(sampleIo, List.replicate 32 5)]).2.bind Prod.fst = some sig ∧
      checkXMSSSignature tailCrypto sampleInput sig samplePubkey (xmssScript (sampleKey 7)) .base =
        false :=
  ⟨((raceRun [(sampleIo, List.replicate 32 5)]).2.bind Prod.fst).getD [], by decide +kernel,
    by decide +kernel⟩

/-! ### What the condition means -/

/-- The ledger file of a tree is as it was, or its next leaf is a later one. -/
def Moved (root : Uint256) (d d' : LedgerDir) : Prop :=
  d'.dat root = d.dat root ∨
    ∃ st st', d.stateOf root = some st ∧ d'.stateOf root = some st' ∧
      st.nextLeafIndex < st'.nextLeafIndex

namespace Moved

variable {root : Uint256} {d d₁ d' : LedgerDir}

theorem trans (h : Moved root d d₁) (h' : Moved root d₁ d') : Moved root d d' := by
  have hstate {a b : LedgerDir} (hdat : b.dat root = a.dat root) :
      b.stateOf root = a.stateOf root := by
    rw [stateOf, hdat, stateOf]
  rcases h with hdat | ⟨st, st₁, hst, hst₁, hlt⟩
  · rcases h' with hdat' | ⟨st₁, st', hst₁, hst', hlt'⟩
    · exact .inl (hdat'.trans hdat)
    · exact .inr ⟨st₁, st', hstate hdat ▸ hst₁, hst', hlt'⟩
  · rcases h' with hdat' | ⟨st₁', st', hst₁', hst', hlt'⟩
    · exact .inr ⟨st, st₁, hst, (hstate hdat').trans hst₁, hlt⟩
    · rw [hst₁] at hst₁'
      cases hst₁'
      exact .inr ⟨st, st', hst, hst', UInt32.lt_trans hlt hlt'⟩

theorem of_claimOutcome (hx : SignSpec x) {hash32 : Bytes} (hr : ClaimOutcome x d root hash32 d' r)
    :
    Moved root d d' := by
  rcases hr with ⟨hdat, -⟩ | ⟨sm, state, next, hc, -⟩
  · exact .inl (by rw [hdat])
  · refine .inr ⟨state, next, hc.loaded, hc.reload hx, ?_⟩
    have hnext := hc.nextLeafIndex_eq
    rw [UInt32.lt_iff_toNat_lt]
    omega

theorem otherClaims (hx : SignSpec x) (calls : List (Io × Bytes)) :
    ∀ d : LedgerDir, (otherClaims x root calls).Ensures d fun d' _ => Moved root d d' := by
  induction calls with
  | nil =>
    intro d
    exact ensures_pure (.inl rfl)
  | cons call calls ih =>
    intro d
    refine ensures_bind (claimAndSign_ensures x call.1 root call.2 d) ?_ ?_
    · intro d' hr
      exact of_claimOutcome hx hr
    · intro d₁ r hr
      exact ensures_mono (ih d₁) fun d' _ hmoved => (of_claimOutcome hx hr).trans hmoved

end Moved

/-- For a ledger that can be read: the leaf is still the one that was read exactly if no claim of
another thread has moved the ledger file in between. -/
theorem leafStill_iff_unmoved (hx : SignSpec x) {pubkey : Bytes} (calls : Nat → List (Io × Bytes))
    (henv : ∀ i, env.others i = otherClaims x (rootOf pubkey) (calls i))
    (hentry : s.xmssKeys[pubkey]? = some entry) (hlen : pubkey.length = 64)
    (hread : xmssTreeLedgerStatus env.status (rootOf pubkey) d = some leaf)
    (hopens : env.claim.datOpens = true) (n : Nat) :
    LeafStill env pubkey s d n ↔
      ((s.beforeClaim env pubkey) d n).1.dat (rootOf pubkey) = d.dat (rootOf pubkey) := by
  obtain ⟨state, hload, hleaf⟩ := map_eq_some_iff.mp hread
  obtain ⟨hstate, hroot⟩ := loadLocked_eq_some hload
  have hindex : s.getXMSSLeafIndex env.status pubkey d = leaf := by
    unfold CXMSSSigner.getXMSSLeafIndex
    rw [hentry]
    dsimp only
    rw [if_pos hlen, hread, getD_some]
  have hmoved : (s.beforeClaim env pubkey).Ensures d fun d' _ => Moved (rootOf pubkey) d d' := by
    unfold CXMSSSigner.beforeClaim
    rw [hentry]
    dsimp only
    rw [henv 0, henv 2]
    refine ensures_bind (Moved.otherClaims hx (calls 0) d) (fun _ h => h) ?_
    intro d₁ _ h₁
    -- The ledger is there, so none is created.
    have hexists : xmssTreeLedgerExists (rootOf pubkey) d₁ = true := by
      obtain ⟨data, hdata, -⟩ := bind_eq_some_iff.mp hstate
      rcases h₁ with hdat | ⟨st, st', -, hst', -⟩
      · rw [xmssTreeLedgerExists, hdat, hdata]
        rfl
      · obtain ⟨data', hdata', -⟩ := bind_eq_some_iff.mp hst'
        rw [xmssTreeLedgerExists, hdata']
        rfl
    have hready : (CXMSSSigner.ensureLedger env pubkey entry).Ensures d₁ fun d' _ => d' = d₁ := by
      unfold CXMSSSigner.ensureLedger
      refine ensures_read_bind ?_
      rw [if_pos hexists]
      exact ensures_pure rfl
    refine ensures_bind hready (fun d' h => h ▸ h₁) ?_
    rintro d₂ _ rfl
    exact ensures_mono (Moved.otherClaims hx (calls 2) d₂) fun d' _ h => h₁.trans h
  unfold LeafStill
  rw [hindex]
  rcases hmoved n with hdat | ⟨st, st', hst, hst', hlt⟩
  · refine ⟨fun _ => hdat, fun _ => ?_⟩
    have hstate' : ((s.beforeClaim env pubkey) d n).1.stateOf (rootOf pubkey) = some state := by
      rw [stateOf, hdat]
      exact hstate
    rw [xmssTreeLedgerStatus, loadLocked_of_stateOf hopens hstate' hroot, map_some, hleaf]
  · -- The ledger has moved: its next leaf is above the one that was read.
    have hst_eq : st = state := Option.some.inj (hst.symm.trans hstate)
    rw [hst_eq, hleaf] at hlt
    constructor
    · intro hstill
      obtain ⟨st'', hload', hleaf'⟩ := map_eq_some_iff.mp hstill
      have hst_eq' : st'' = st' := Option.some.inj ((loadLocked_eq_some hload').1.symm.trans hst')
      rw [← hst_eq', hleaf'] at hlt
      exact absurd hlt (UInt32.lt_irrefl _)
    · intro hdat
      rw [stateOf, hdat] at hst'
      have hst_eq' : st' = state := Option.some.inj (hst'.symm.trans hstate)
      rw [hst_eq', hleaf] at hlt
      exact absurd hlt (UInt32.lt_irrefl _)

end AssentianPQE
