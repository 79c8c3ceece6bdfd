import AssentianPQE.Consensus
import AssentianPQE.Xmss

/-!
# `AssentianPQE.PoUW.Check`: the proof of useful work of a block

The proof formats of `pouw_v2.h` and `pouw_v2_keyder.h` and the functions of
`validation.cpp` that read a coinbase: `ComputePoUWBaseMerkleRoot`,
`ParseCoinbasePoUWLeaf` and `CheckPoUW` with every reject of its v2 and v1 branches.

`checkPoUW` returns which branch accepted the block (`PoUWVerdict`) where the source
returns only `true`. The debug messages of a rejection are left out; its result code and
its reason are kept.
-/

set_option autoImplicit false

namespace AssentianPQE

open Lib

/-! ### Rejections -/

/-- `BlockValidationResult`, the values that the modelled checks set. -/
inductive BlockValidationResult where
  | consensus
  | cachedInvalid
  | invalidHeader
  | mutated
  | missingPrev
  | invalidPrev
  | timeFuture
  | checkpoint
  | headerLowWork
deriving DecidableEq

/-- A `BlockValidationState` set by `Invalid`: the result and the reject reason. -/
structure BlockInvalid where
  result : BlockValidationResult
  reason : String
deriving DecidableEq

/-- A rejection with `BLOCK_CONSENSUS`. -/
def consensusError (reason : String) : BlockInvalid :=
  ⟨.consensus, reason⟩

/-! ### Proof bytes -/

/-- `PoUWv2::MAGIC`: `PW2` and the version byte. -/
def POUW_MAGIC : Bytes := [0x50, 0x57, 0x32, 0x02]

/-- `PoUWv2KeyDer::SEEDS_MAGIC`: `FSL` and the version byte. -/
def SEEDS_MAGIC : Bytes := [0x46, 0x53, 0x4c, 0x01]

/-- `PoUWv2Proof::SERIAL_SIZE`. -/
def SERIAL_SIZE : Nat := 2564

/-- `PoUWv2::PoUWv2Proof`. -/
structure PoUWv2Proof where
  xmss_pk : Blob 64
  auth_path : Blob 320
  wots_sig : Blob 2144
  r : Blob 32
deriving DecidableEq

namespace PoUWv2Proof

/-- `PoUWv2Proof::Serialize`. -/
def serialize (p : PoUWv2Proof) : Bytes :=
  POUW_MAGIC ++ (p.xmss_pk.data ++ (p.auth_path.data ++ (p.wots_sig.data ++ p.r.data)))

/-- `PoUWv2Proof::Deserialize`. Bytes after the proof are ignored. -/
def deserialize (data : Bytes) : Option PoUWv2Proof :=
  if h : data.length < SERIAL_SIZE then none
  else if data.take 4 ≠ POUW_MAGIC then none
  else
    have hlen : 2564 ≤ data.length := Nat.not_lt.mp h
    some {
      xmss_pk := Blob.slice 64 data 4 (by omega)
      auth_path := Blob.slice 320 data 68 (by omega)
      wots_sig := Blob.slice 2144 data 388 (by omega)
      r := Blob.slice 32 data 2532 (by omega) }

/-- `PoUWv2Proof::GetRoot`: the first 32 bytes of the key. -/
def getRoot (p : PoUWv2Proof) : Uint256 :=
  Blob.slice 32 p.xmss_pk.data 0 (by rw [p.xmss_pk.length_data]; omega)

/-- The XMSS signature that `CheckPoUWv2` rebuilds from the proof and a leaf index. -/
def signature (p : PoUWv2Proof) (nLeafIndex : UInt32) : Bytes :=
  beBytes 4 nLeafIndex.toNat ++ (p.r.data ++ (p.wots_sig.data ++ p.auth_path.data))

end PoUWv2Proof

/-- `CheckPoUWv2`: the root is at most the target and the proof signs `blockHash`. -/
def checkPoUWv2 (c : Crypto) (proof : PoUWv2Proof) (blockHash : Uint256) (target : Nat)
    (nLeafIndex : UInt32) : Bool :=
  if target < proof.getRoot.toNat then false
  else xmssSignOpen c (proof.signature nLeafIndex ++ blockHash.data) proof.xmss_pk.data =
    some blockHash.data

/-! ### Failed seeds -/

/-- `FailedSeedList::Entry`. -/
structure FslEntry where
  sk_seed : Blob 96
  xmss_root : Uint256
  commitment : Uint256
deriving DecidableEq

def MIN_FAILED_SEEDS : Nat := 10
def MAX_FAILED_SEEDS : Nat := 20

/-- The entries of a failed-seed list, each with its recomputed commitment. -/
def readFslEntries (c : Crypto) (heightBE : Bytes) : Nat → Bytes → Option (List FslEntry)
  | 0, _ => some []
  | count + 1, data =>
    if h : data.length < 128 then none
    else
      have hlen : 128 ≤ data.length := Nat.not_lt.mp h
      let seed := Blob.slice 96 data 0 (by omega)
      let root := Blob.slice 32 data 96 (by omega)
      (readFslEntries c heightBE count (data.drop 128)).map fun rest =>
        { sk_seed := seed, xmss_root := root
          commitment := c.hash256 (root.data ++ (seed.data ++ heightBE)) } :: rest

/-- `FailedSeedList::Deserialize`. Bytes after the last entry are ignored. -/
def fslDeserialize (c : Crypto) (data : Bytes) : Option (List FslEntry) :=
  if data.length < 9 then none
  else if data.take 4 ≠ SEEDS_MAGIC then none
  else
    let count := (data.getD 4 0).toNat
    if count < MIN_FAILED_SEEDS ∨ MAX_FAILED_SEEDS < count then none
    else if data.length < 9 + count * 128 then none
    else readFslEntries c ((data.drop 5).take 4) count (data.drop 9)

/-- The `block_height` that `FailedSeedList::Deserialize` reads. -/
def fslBlockHeight (data : Bytes) : Nat :=
  readBE ((data.drop 5).take 4)

/-- `FailedSeedList::ComputeMerkleRoot`. -/
def fslMerkleRoot (c : Crypto) (entries : List FslEntry) : Uint256 :=
  (computeMerkleRoot c (entries.map FslEntry.commitment)).1

/-- `FailedSeedList::VerifyAgainstHeader`. -/
def verifyAgainstHeader (c : Crypto) (entries : List FslEntry) (root : Uint256) : Bool :=
  MIN_FAILED_SEEDS ≤ entries.length ∧ fslMerkleRoot c entries = root

/-! ### Reading the coinbase -/

/-- The first push after a leading `OP_RETURN`. -/
def opReturnPush : Script → Option Bytes
  | [] => none
  | op :: rest => if op = OP_RETURN then (getScriptOp rest).map ScriptOp.data else none

/-- Whether `ComputePoUWBaseMerkleRoot` strips an output: its first push carries one of the
two magic values. -/
def isProofOutput (out : TxOut) : Bool :=
  match opReturnPush out.scriptPubKey with
  | none => false
  | some d => d.take 4 = POUW_MAGIC ∨ d.take 4 = SEEDS_MAGIC

/-- The coinbase before the miner added the proof and the failed seeds. -/
def baseCoinbase (cb : Transaction) : Transaction :=
  { cb with vout := cb.vout.filter fun out => !isProofOutput out }

/-- `ComputePoUWBaseMerkleRoot`. -/
def computePoUWBaseMerkleRoot (c : Crypto) (block : Block) : Uint256 :=
  match block.vtx with
  | [] => nullHash
  | cb :: txs =>
    (computeMerkleRoot c ((baseCoinbase cb).getHash c :: txs.map (Transaction.getHash c))).1

/-- What `ParseCoinbasePoUWLeaf` has found so far: `pk_out`, `leaf_out` and `found`. -/
structure LeafScan where
  pk : Bytes := []
  leaf : Nat := 0
  found : Bool := false
deriving DecidableEq

/-- The body of the inner loop of `ParseCoinbasePoUWLeaf`, for one operation. -/
def parseLeafOp (nLeafIndex : UInt32) (st : LeafScan) (op : ScriptOp) : LeafScan :=
  if op.opcode = OP_RETURN then st
  -- A v2 proof: the magic and a 64-byte key.
  else if 68 ≤ op.data.length ∧ op.data.take 4 = POUW_MAGIC then
    { pk := (op.data.drop 4).take 64, leaf := nLeafIndex.toNat, found := true }
  -- A v1 proof: a 64-byte key, then a signature that starts with the leaf index.
  else if op.data.length = 64 ∧ st.pk = [] then { st with pk := op.data }
  else if 64 < op.data.length ∧ st.found = false ∧ st.pk.length = 64 then
    { st with leaf := leafIndexOf op.data, found := true }
  else st

/-- The loops of `ParseCoinbasePoUWLeaf`: every operation of an output is read before the
test whether a leaf was found. -/
def parseLeafOutputs (nLeafIndex : UInt32) : List TxOut → LeafScan → LeafScan
  | [], st => st
  | out :: rest, st =>
    let st := (ops out.scriptPubKey).foldl (parseLeafOp nLeafIndex) st
    if st.found then st else parseLeafOutputs nLeafIndex rest st

/-- `ParseCoinbasePoUWLeaf`: the key and the leaf index that a coinbase claims. -/
def parseCoinbasePoUWLeaf (cb : Transaction) (nLeafIndex : UInt32) : Option (Bytes × Nat) :=
  let st := parseLeafOutputs nLeafIndex cb.vout {}
  if st.pk.length = 64 ∧ st.found then some (st.pk, st.leaf) else none

/-! ### `CheckPoUW` -/

/-- A push of exactly 64 bytes is the key of a v1 proof, unless one was seen before. -/
def legacyKey (xmss_pk data : Bytes) : Bytes :=
  if data.length = 64 ∧ xmss_pk = [] then data else xmss_pk

/-- The scan of the coinbase outputs: the first v2 proof that deserializes, or none, and the
key. -/
def scanProof (params : Params) : List TxOut → Bytes →
    Except BlockInvalid (Option PoUWv2Proof × Bytes)
  | [], xmss_pk => .ok (none, xmss_pk)
  | out :: rest, xmss_pk =>
    match opReturnPush out.scriptPubKey with
    | none => scanProof params rest xmss_pk
    | some data =>
      if data.take 4 = POUW_MAGIC then
        if params.nPoUWMaxSigSize < data.length then .error (consensusError "pouw-sig-too-large")
        else
          match PoUWv2Proof.deserialize data with
          | some proof => .ok (some proof, proof.xmss_pk.data)
          | none => scanProof params rest (legacyKey xmss_pk data)
      else scanProof params rest (legacyKey xmss_pk data)

/-- The string whose hash a v2 proof signs. From `nPoUWv3StartHeight` on it includes the base
Merkle root. -/
def pouwPreimage (c : Crypto) (params : Params) (block : Block) (nHeight : Int) : Bytes :=
  serI32 block.nVersion ++ (block.hashPrevBlock.data ++
    ((if params.nPoUWv3StartHeight ≤ nHeight then (computePoUWBaseMerkleRoot c block).data
      else []) ++ (serU32 block.nTime ++ serU32 block.nBits)))

/-- The tests on each entry of the failed-seed list: its root is above the target, and from
`nPoUWFSLSeedVerifyHeight` on it derives from its seed. -/
def checkFslEntries (c : Crypto) (params : Params) (nHeight : Int) (target : Nat) :
    List FslEntry → Except BlockInvalid Unit
  | [] => .ok ()
  | entry :: rest =>
    if entry.xmss_root.toNat ≤ target then .error (consensusError "pouw-fsl-root-valid")
    else if params.nPoUWFSLSeedVerifyHeight ≤ nHeight ∧
        c.computeRootFromSeed entry.sk_seed.data ≠ some entry.xmss_root then
      .error (consensusError "pouw-fsl-seed-mismatch")
    else checkFslEntries c params nHeight target rest

/-- The test of `commitmentsRoot` against the first output with a failed-seed list. -/
def checkCommitments (c : Crypto) (params : Params) (root : Uint256) (nHeight : Int)
    (target : Nat) : List TxOut → Except BlockInvalid Unit
  | [] =>
    if root ≠ nullHash then .error (consensusError "pouw-commitments-spurious") else .ok ()
  | out :: rest =>
    match opReturnPush out.scriptPubKey with
    | none => checkCommitments c params root nHeight target rest
    | some data =>
      if data.take 4 ≠ SEEDS_MAGIC then checkCommitments c params root nHeight target rest
      else if params.nPoUWMaxSigSize < data.length then
        .error (consensusError "pouw-fsl-too-large")
      else
        match fslDeserialize c data with
        | none => .error (consensusError "pouw-fsl-malformed")
        | some entries =>
          if !verifyAgainstHeader c entries root then
            .error (consensusError "pouw-commitments-mismatch")
          else checkFslEntries c params nHeight target entries

/-- A table from leaf keys to the block that used the leaf (`DB_POUW_LEAF`). -/
abbrev LeafTable := Uint256 → Option Uint256

/-- The v2 branch of `CheckPoUW`. -/
def checkPoUWv2Branch (c : Crypto) (params : Params) (leafDB : LeafTable) (block : Block)
    (coinbase : Transaction) (nHeight : Int) (proof : PoUWv2Proof) : Except BlockInvalid Unit :=
  let target := (setCompact block.nBits).target
  if 1024 ≤ block.nLeafIndex.toNat then .error (consensusError "pouw-leaf-oob")
  else if !checkPoUWv2 c proof (c.hash256 (pouwPreimage c params block nHeight)) target
      block.nLeafIndex then
    .error (consensusError "pouw-v2-invalid")
  else if params.nPoUWLeafReuseActivation ≤ nHeight ∧
      (leafDB (makePoUWLeafKey c proof.xmss_pk.data block.nLeafIndex.toNat)).isSome then
    .error (consensusError "pouw-leaf-reuse")
  else checkCommitments c params block.commitmentsRoot nHeight target coinbase.vout

/-- The signature output of a v1 proof: the first large `OP_RETURN` output, whether or not
it holds a push. -/
def v1Signature (vout : List TxOut) : Option (Bytes × Nat) :=
  match vout.findIdx? fun out =>
      1000 < out.scriptPubKey.length && out.scriptPubKey.head? == some OP_RETURN with
  | none => none
  | some i =>
    match (vout[i]?).bind fun out => opReturnPush out.scriptPubKey with
    | none => none
    | some data => if data = [] then none else some (data, i)

/-- The v1 branch of `CheckPoUW`, below `nPoUWv2StartHeight`: the leaf it verified. -/
def checkPoUWv1Branch (c : Crypto) (params : Params) (leafDB : LeafTable) (block : Block)
    (coinbase : Transaction) (nHeight : Int) (xmss_pk : Bytes) : Except BlockInvalid Nat :=
  match v1Signature coinbase.vout with
  | none => .error (consensusError "pouw-no-sig")
  | some (sig, i) =>
    let noSig := { coinbase with vout := coinbase.vout.eraseIdx i }
    let preimage := c.hash256 (serI32 block.nVersion ++ (block.hashPrevBlock.data ++
      (serU32 block.nTime ++ (serU32 block.nBits ++ ((noSig.getHash c).data ++
        serBytes xmss_pk)))))
    if !xmssVerify c preimage.data sig xmss_pk then .error (consensusError "pouw-invalid-sig")
    else if sig.length < 4 then .error (consensusError "pouw-sig-too-short")
    else if params.nPoUWLeafReuseActivation ≤ nHeight ∧
        (leafDB (makePoUWLeafKey c xmss_pk (leafIndexOf sig))).isSome then
      .error (consensusError "pouw-leaf-reuse")
    else .ok (leafIndexOf sig)

/-- How `CheckPoUW` came to accept a block. -/
inductive PoUWVerdict where
  /-- No proof is required at this height. -/
  | notRequired
  /-- A v1 proof with this key and leaf. -/
  | v1 (xmss_pk : Bytes) (leaf : Nat)
  /-- A v2 proof for the leaf index of the header. -/
  | v2 (proof : PoUWv2Proof)
deriving DecidableEq

/-- `CheckPoUW`. -/
def checkPoUW (c : Crypto) (params : Params) (leafDB : LeafTable) (block : Block)
    (nHeight : Int) : Except BlockInvalid PoUWVerdict :=
  if !params.fPoUW then .ok .notRequired
  else if nHeight < 0 then .ok .notRequired
  else if 0 < params.nPoUWStartHeight ∧ nHeight < params.nPoUWStartHeight then .ok .notRequired
  else
    match block.vtx with
    | [] => .error (consensusError "pouw-no-coinbase")
    | coinbase :: _ =>
      if !coinbase.isCoinBase then .error (consensusError "pouw-no-coinbase")
      else
        match scanProof params coinbase.vout [] with
        | .error e => .error e
        | .ok (some proof, _) =>
          (checkPoUWv2Branch c params leafDB block coinbase nHeight proof).map fun _ => .v2 proof
        | .ok (none, xmss_pk) =>
          if xmss_pk.length ≠ 64 then .error (consensusError "pouw-no-pk")
          else if params.nPoUWv2StartHeight ≤ nHeight then
            .error (consensusError "pouw-v1-deprecated")
          else (checkPoUWv1Branch c params leafDB block coinbase nHeight xmss_pk).map (.v1 xmss_pk)

/-! ### What acceptance says -/

/-- A byte string that deserializes is long enough and starts with the magic. -/
theorem PoUWv2Proof.of_deserialize {data : Bytes} {proof : PoUWv2Proof}
    (h : PoUWv2Proof.deserialize data = some proof) :
    SERIAL_SIZE ≤ data.length ∧ data.take 4 = POUW_MAGIC := by
  unfold PoUWv2Proof.deserialize at h
  split at h
  · cases h
  rename_i hlen
  split at h
  · cases h
  · rename_i hmagic
    exact ⟨Nat.not_lt.mp hlen, not_not.mp hmagic⟩

/-- The proof that the scan finds is the first push of some `OP_RETURN` output. -/
theorem scanProof_some {params : Params} {proof : PoUWv2Proof} {pk : Bytes} :
    ∀ {vout : List TxOut} {xmss_pk : Bytes},
      scanProof params vout xmss_pk = .ok (some proof, pk) →
      ∃ out ∈ vout, ∃ data, opReturnPush out.scriptPubKey = some data ∧
        PoUWv2Proof.deserialize data = some proof := by
  intro vout
  induction vout with
  | nil =>
    intro xmss_pk h
    simp [scanProof] at h
  | cons out rest ih =>
    intro xmss_pk h
    have hrest : ∀ {xmss_pk}, scanProof params rest xmss_pk = .ok (some proof, pk) →
        ∃ o ∈ out :: rest, ∃ data, opReturnPush o.scriptPubKey = some data ∧
          PoUWv2Proof.deserialize data = some proof := by
      intro xmss_pk hr
      obtain ⟨o, ho, hdata⟩ := ih hr
      exact ⟨o, List.mem_cons_of_mem _ ho, hdata⟩
    simp only [scanProof] at h
    split at h
    · exact hrest h
    rename_i data hpush
    split at h
    · split at h
      · cases h
      split at h
      · rename_i p hp
        simp only [Except.ok.injEq, Prod.mk.injEq, Option.some.injEq] at h
        exact ⟨out, List.mem_cons_self, data, hpush, by rw [hp, h.1]⟩
      · exact hrest h
    · exact hrest h

/-- What `CheckPoUW` has established when it accepts a block through the v2 branch. -/
structure AcceptedV2 (c : Crypto) (params : Params) (leafDB : LeafTable) (block : Block)
    (nHeight : Int) (proof : PoUWv2Proof) (coinbase : Transaction) : Prop where
  required : params.fPoUW = true ∧ 0 ≤ nHeight ∧
    ¬ (0 < params.nPoUWStartHeight ∧ nHeight < params.nPoUWStartHeight)
  coinbase_head : block.vtx.head? = some coinbase
  coinbase_is : coinbase.isCoinBase = true
  scanned : ∃ pk, scanProof params coinbase.vout [] = .ok (some proof, pk)
  leaf_lt : block.nLeafIndex.toNat < 1024
  verified : checkPoUWv2 c proof (c.hash256 (pouwPreimage c params block nHeight))
    (setCompact block.nBits).target block.nLeafIndex = true
  fresh : params.nPoUWLeafReuseActivation ≤ nHeight →
    leafDB (makePoUWLeafKey c proof.xmss_pk.data block.nLeafIndex.toNat) = none
  commitments : checkCommitments c params block.commitmentsRoot nHeight
    (setCompact block.nBits).target coinbase.vout = .ok ()

/-- The v2 branch accepts exactly when all of its tests pass. -/
theorem checkPoUWv2Branch_ok_iff {c : Crypto} {params : Params} {leafDB : LeafTable}
    {block : Block} {coinbase : Transaction} {nHeight : Int} {proof : PoUWv2Proof} :
    checkPoUWv2Branch c params leafDB block coinbase nHeight proof = .ok () ↔
      block.nLeafIndex.toNat < 1024 ∧
      checkPoUWv2 c proof (c.hash256 (pouwPreimage c params block nHeight))
        (setCompact block.nBits).target block.nLeafIndex = true ∧
      (params.nPoUWLeafReuseActivation ≤ nHeight →
        leafDB (makePoUWLeafKey c proof.xmss_pk.data block.nLeafIndex.toNat) = none) ∧
      checkCommitments c params block.commitmentsRoot nHeight (setCompact block.nBits).target
        coinbase.vout = .ok () := by
  unfold checkPoUWv2Branch
  simp only
  split
  · rename_i h
    exact ⟨nofun, fun he => absurd h (Nat.not_le.mpr he.1)⟩
  rename_i h
  split
  · rename_i hv
    rw [Bool.not_eq_true'] at hv
    exact ⟨nofun, fun he => by rw [hv] at he; cases he.2.1⟩
  · rename_i hv
    split
    · rename_i hr
      refine ⟨nofun, fun he => ?_⟩
      rw [he.2.2.1 hr.1] at hr
      cases hr.2
    · rename_i hr
      refine ⟨fun he => ⟨Nat.not_le.mp h, by simpa using hv, fun hact => ?_, he⟩,
        fun he => he.2.2.2⟩
      by_contra hsome
      exact hr ⟨hact, Option.isSome_iff_ne_none.mpr hsome⟩

/-- `CheckPoUW` accepts through the v2 branch exactly when all of its tests pass. -/
theorem checkPoUW_v2_iff {c : Crypto} {params : Params} {leafDB : LeafTable} {block : Block}
    {nHeight : Int} {proof : PoUWv2Proof} :
    checkPoUW c params leafDB block nHeight = .ok (.v2 proof) ↔
      ∃ coinbase, AcceptedV2 c params leafDB block nHeight proof coinbase := by
  constructor
  · intro h
    unfold checkPoUW at h
    split at h
    · cases h
    rename_i hp
    split at h
    · cases h
    rename_i hn
    split at h
    · cases h
    rename_i hs
    split at h
    · cases h
    rename_i coinbase txs hvtx
    split at h
    · cases h
    rename_i hcb
    split at h
    · cases h
    · rename_i p pk hscan
      cases hbranch : checkPoUWv2Branch c params leafDB block coinbase nHeight p with
      | error e => simp [hbranch, Except.map] at h
      | ok u =>
        simp only [hbranch, Except.map, Except.ok.injEq, PoUWVerdict.v2.injEq] at h
        rw [h] at hbranch hscan
        obtain ⟨hleaf, hver, hfresh, hcom⟩ := checkPoUWv2Branch_ok_iff.mp hbranch
        exact ⟨coinbase, ⟨by simpa using hp, by omega, hs⟩, by rw [hvtx]; rfl,
          by simpa using hcb, ⟨pk, hscan⟩, hleaf, hver, hfresh, hcom⟩
    · split at h
      · cases h
      split at h
      · cases h
      · rename_i pk _ _ _
        cases hbranch : checkPoUWv1Branch c params leafDB block coinbase nHeight pk with
        | error e => simp [hbranch, Except.map] at h
        | ok u => simp [hbranch, Except.map] at h
  · rintro ⟨coinbase, ⟨hp, hn, hs⟩, hhead, hcb, ⟨pk, hscan⟩, hleaf, hver, hfresh, hcom⟩
    have hbranch := checkPoUWv2Branch_ok_iff.mpr ⟨hleaf, hver, hfresh, hcom⟩
    obtain ⟨txs, hvtx⟩ := List.head?_eq_some_iff.mp hhead
    simp [checkPoUW, hp, Int.not_lt.mpr hn, hs, hvtx, hcb, hscan, hbranch, Except.map]

end AssentianPQE
