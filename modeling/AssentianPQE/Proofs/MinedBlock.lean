import AssentianPQE.Mining.Assembler
import AssentianPQE.Proofs.SeedLists

/-!
# The block that is mined from a template

`GenerateBlock` adds the proof and, after ten failed trees, the list of their seeds to the coinbase
of a template. `minedBlock_vtx` and `minedBlock_header` say what the block is. The rest of the
module is about how `CheckPoUW` reads the outputs of such a coinbase: those of the template come
first, and the first output that carries a proof or a list decides (`scanProof_append`,
`checkCommitments_append`).
-/

set_option autoImplicit false

namespace AssentianPQE

open Lib List BlockHeader

variable {cb : Transaction} {txs : List Transaction} {state : XMSSMinerState} {sig : Bytes}
  {height : UInt32} {failed : List FslEntry} {c : Crypto} {params : Params} {block : Block}
  {scriptPubKeyIn : Script}

/-! ### The added outputs -/

/-- An output that carries bytes. -/
def dataOutput (data : Bytes) : TxOut :=
  ⟨0, OP_RETURN :: pushBytes data⟩

/-- The outputs that `GenerateBlock` adds to the coinbase. -/
def minedOutputs (state : XMSSMinerState) (sig : Bytes) (height : UInt32) (failed : List FslEntry) :
    List TxOut :=
  dataOutput (minedProof state sig).serialize ::
    if MIN_FAILED_SEEDS ≤ failed.length then [dataOutput (fslSerialize height failed)] else []

/-- The commitments root of the block. -/
def minedCommitments (c : Crypto) (root : Uint256) (failed : List FslEntry) : Uint256 :=
  if MIN_FAILED_SEEDS ≤ failed.length then fslMerkleRoot c failed else root

section Block
variable (c : Crypto) (template : Block) (state : XMSSMinerState) (leafUsed : UInt32) (sig : Bytes)
  (height : UInt32) (failed : List FslEntry)

theorem minedBlock_vtx (h : template.vtx = cb :: txs) :
    (minedBlock c template state leafUsed sig height failed).vtx =
      { cb with vout := cb.vout ++ minedOutputs state sig height failed } :: txs := by
  unfold minedBlock minedOutputs
  split
  · simp only [addOpReturn, h, addOutput, dataOutput, append_assoc, cons_append,
      nil_append]
  · simp only [addOpReturn, h, addOutput, dataOutput]

/-- The header: the Merkle root aside, only the fields of the proof are set. -/
theorem minedBlock_header :
    (minedBlock c template state leafUsed sig height failed).header =
      { template.header with
        hashMerkleRoot := (minedBlock c template state leafUsed sig height failed).hashMerkleRoot
        nNonce := 0
        xmssRoot := state.xmssRoot
        nLeafIndex := leafUsed
        commitmentsRoot := minedCommitments c template.commitmentsRoot failed } := by
  unfold minedBlock minedCommitments
  split <;> rfl

end Block

/-! ### Reading an output -/

theorem opReturnPush_dataOutput {data : Bytes} (h : data.length < 2 ^ 32) :
    opReturnPush (dataOutput data).scriptPubKey = some data := by
  obtain ⟨opcode, -, hop⟩ := getScriptOp_pushBytes h []
  rw [append_nil] at hop
  show (if OP_RETURN = OP_RETURN then (getScriptOp (pushBytes data)).map ScriptOp.data else none) = _
  rw [if_pos rfl, hop]
  rfl

variable (p : PoUWv2Proof)

/-- The bytes of a proof. -/
theorem PoUWv2Proof.length_serialize : p.serialize.length = SERIAL_SIZE := by
  simp [PoUWv2Proof.serialize, POUW_MAGIC, SERIAL_SIZE]

theorem PoUWv2Proof.take_serialize : p.serialize.take 4 = POUW_MAGIC :=
  take_left' rfl

/-- A proof is read as it is written. -/
theorem PoUWv2Proof.deserialize_serialize : PoUWv2Proof.deserialize p.serialize = some p := by
  have hlen : ¬ p.serialize.length < SERIAL_SIZE := by
    rw [p.length_serialize]
    omega
  unfold PoUWv2Proof.deserialize
  rw [dif_neg hlen, if_neg (not_not.mpr p.take_serialize), Option.some.injEq]
  -- Each field stands after the ones before it.
  obtain ⟨pk, auth, wots, r⟩ := p
  simp only [PoUWv2Proof.mk.injEq]
  refine ⟨?_, ?_, ?_, ?_⟩ <;> refine Blob.ext ?_
  · exact take_left' pk.length_data
  · show ((POUW_MAGIC ++ (pk.data ++ (auth.data ++ (wots.data ++ r.data)))).drop 68).take 320 = _
    rw [← append_assoc, drop_left' (by simp [POUW_MAGIC])]
    exact take_left' auth.length_data
  · show ((POUW_MAGIC ++ (pk.data ++ (auth.data ++ (wots.data ++ r.data)))).drop 388).take 2144 = _
    rw [← append_assoc, ← append_assoc, drop_left' (by simp [POUW_MAGIC])]
    exact take_left' wots.length_data
  · show ((POUW_MAGIC ++ (pk.data ++ (auth.data ++ (wots.data ++ r.data)))).drop 2532).take 32 = _
    rw [← append_assoc, ← append_assoc, ← append_assoc,
      drop_left' (by simp [POUW_MAGIC])]
    exact take_of_length_le (by rw [r.length_data])

/-! ### Reading the outputs in order -/

section Scan
variable {params : Params}

/-- The scan goes on after outputs without a proof. -/
theorem scanProof_append (rest : List TxOut) :
    ∀ (vout : List TxOut) (xmss_pk : Bytes),
      scanProof params (vout ++ rest) xmss_pk =
        match scanProof params vout xmss_pk with
        | .error e => .error e
        | .ok (some proof, pk) => .ok (some proof, pk)
        | .ok (none, pk) => scanProof params rest pk := by
  intro vout
  induction vout with
  | nil => exact fun _ => rfl
  | cons out vout ih =>
    intro xmss_pk
    rw [cons_append, scanProof, scanProof]
    split
    · exact ih xmss_pk
    split
    · split
      · rfl
      · split
        · rfl
        · exact ih _
    · exact ih _

/-- The mined proof is the one that is found, if the outputs before it have none. -/
theorem scanProof_proof {p : PoUWv2Proof} (hsize : SERIAL_SIZE ≤ params.nPoUWMaxSigSize)
    (rest : List TxOut) (xmss_pk : Bytes) :
    scanProof params (dataOutput p.serialize :: rest) xmss_pk = .ok (some p, p.xmss_pk.data) := by
  have hlen : p.serialize.length < 2 ^ 32 := by
    rw [p.length_serialize]
    decide
  have hnot : ¬ params.nPoUWMaxSigSize < p.serialize.length := by
    rw [p.length_serialize]
    omega
  rw [scanProof, opReturnPush_dataOutput hlen]
  dsimp only
  rw [if_pos p.take_serialize, if_neg hnot, p.deserialize_serialize]

variable {c : Crypto} {root : Uint256} {nHeight : Int} {target : Nat}

variable {rest : List TxOut}

/-- Outputs without a list are skipped. -/
theorem checkCommitments_append_of_none :
    ∀ {vout : List TxOut}, firstFsl vout = none →
      checkCommitments c params root nHeight target (vout ++ rest) =
        checkCommitments c params root nHeight target rest := by
  intro vout
  induction vout with
  | nil => exact fun _ => rfl
  | cons out vout ih =>
    intro hnone
    rw [cons_append, checkCommitments]
    unfold firstFsl at hnone
    cases hpush : opReturnPush out.scriptPubKey with
    | none =>
      rw [filterMap_cons, hpush] at hnone
      exact ih hnone
    | some d =>
      rw [filterMap_cons, hpush] at hnone
      dsimp only
      by_cases hmagic : d.take 4 = SEEDS_MAGIC
      · rw [find?_cons_of_pos (by simpa using hmagic)] at hnone
        cases hnone
      · rw [find?_cons_of_neg (by simpa using hmagic)] at hnone
        rw [if_pos hmagic]
        exact ih hnone

/-- The first list decides. -/
theorem checkCommitments_append_of_some {data : Bytes} :
    ∀ {vout : List TxOut}, firstFsl vout = some data →
      checkCommitments c params root nHeight target (vout ++ rest) =
        checkCommitments c params root nHeight target vout := by
  intro vout
  induction vout with
  | nil => exact nofun
  | cons out vout ih =>
    intro hsome
    rw [cons_append, checkCommitments, checkCommitments]
    unfold firstFsl at hsome
    cases hpush : opReturnPush out.scriptPubKey with
    | none =>
      rw [filterMap_cons, hpush] at hsome
      exact ih hsome
    | some d =>
      rw [filterMap_cons, hpush] at hsome
      dsimp only
      by_cases hmagic : d.take 4 = SEEDS_MAGIC
      · rw [if_neg (not_not.mpr hmagic), if_neg (not_not.mpr hmagic)]
      · rw [find?_cons_of_neg (by simpa using hmagic)] at hsome
        rw [if_pos hmagic, if_pos hmagic]
        exact ih hsome

/-- What the checks need of a failed tree: its root is above the target, its seed derives the root,
and it is committed to for this height. -/
structure FailedTree (c : Crypto) (height : UInt32) (target : Nat) (e : FslEntry) : Prop where
  above : target < e.xmss_root.toNat
  derives : c.computeRootFromSeed e.sk_seed.data = some e.xmss_root
  committed : e.recommit c (beBytes 4 height.toNat) = e

/-- The list of a mined block passes the checks of its commitments. -/
theorem checkCommitments_minedOutputs (hsize : SERIAL_SIZE + 5 ≤ params.nPoUWMaxSigSize)
    (hmax : failed.length ≤ MAX_FAILED_SEEDS)
    (hfailed : ∀ e ∈ failed, FailedTree c height target e) :
    checkCommitments c params (minedCommitments c nullHash failed) nHeight target
      (minedOutputs state sig height failed) = .ok () := by
  have hserial : SERIAL_SIZE = 2564 := rfl
  have hproof : firstFsl [dataOutput (minedProof state sig).serialize] = none := by
    have hlen : (minedProof state sig).serialize.length < 2 ^ 32 := by
      rw [PoUWv2Proof.length_serialize]
      decide
    unfold firstFsl
    rw [filterMap_cons, opReturnPush_dataOutput hlen]
    refine find?_cons_of_neg ?_
    rw [PoUWv2Proof.take_serialize]
    decide
  have hskip (rest : List TxOut) (root : Uint256) :
      checkCommitments c params root nHeight target
        (dataOutput (minedProof state sig).serialize :: rest) =
      checkCommitments c params root nHeight target rest :=
    checkCommitments_append_of_none hproof
  unfold minedCommitments minedOutputs
  rw [hskip]
  by_cases hmin : MIN_FAILED_SEEDS ≤ failed.length
  · rw [if_pos hmin, if_pos hmin]
    -- The list is read as it was written, and so its Merkle root is the one in the header.
    have hlength := length_fslSerialize height failed
    have hmax' : failed.length ≤ 20 := hmax
    have hpush : opReturnPush (dataOutput (fslSerialize height failed)).scriptPubKey =
        some (fslSerialize height failed) := opReturnPush_dataOutput (by omega)
    have hmagic : (fslSerialize height failed).take 4 = SEEDS_MAGIC := take_left' rfl
    have hread := fslDeserialize_fslSerialize c height hmin hmax []
    rw [append_nil, map_congr_left (g := id) fun e he => (hfailed e he).committed,
      map_id] at hread
    rw [checkCommitments, hpush]
    dsimp only
    rw [if_neg (not_not.mpr hmagic), if_neg (by omega), hread]
    dsimp only
    rw [if_neg (by simp [verifyAgainstHeader, hmin])]
    exact checkFslEntries_ok_iff.mpr fun e he => ⟨(hfailed e he).above, fun _ => (hfailed e he).derives⟩
  · rw [if_neg hmin, if_neg hmin]
    exact if_neg (not_not.mpr rfl)

end Scan

/-! ### The check of a mined block -/

/-- The outputs that carry data of the miner are left out of the preimage. -/
theorem isProofOutput_minedOutputs (hmax : failed.length ≤ MAX_FAILED_SEEDS) :
    ∀ out ∈ minedOutputs state sig height failed, isProofOutput out = true := by
  have hmax' : failed.length ≤ 20 := hmax
  intro out hout
  cases mem_cons.mp hout with
  | inl hproof =>
    have hlen : (minedProof state sig).serialize.length < 2 ^ 32 := by
      rw [PoUWv2Proof.length_serialize]
      decide
    rw [hproof, isProofOutput, opReturnPush_dataOutput hlen]
    exact decide_eq_true (.inl (PoUWv2Proof.take_serialize _))
  | inr hlist =>
    split at hlist
    · have hlen : (fslSerialize height failed).length < 2 ^ 32 := by
        rw [length_fslSerialize]
        omega
      rw [mem_singleton.mp hlist, isProofOutput, opReturnPush_dataOutput hlen]
      exact decide_eq_true (.inr (take_left' rfl))
    · cases hlist

/-- The miner and the check build the same preimage. -/
theorem pouwPreimage_minedBlock (c : Crypto) (params : Params) (template : Block)
    (state : XMSSMinerState) (leafUsed : UInt32) (sig : Bytes) (height : UInt32)
    (hmax : failed.length ≤ MAX_FAILED_SEEDS) (hvtx : template.vtx = cb :: txs) (nHeight : Int) :
    pouwPreimage c params (minedBlock c template state leafUsed sig height failed) nHeight =
      pouwPreimage c params template nHeight := by
  have hbase : baseCoinbase { cb with vout := cb.vout ++ minedOutputs state sig height failed } =
      baseCoinbase cb := by
    unfold baseCoinbase
    have hnone : (minedOutputs state sig height failed).filter (fun out => !isProofOutput out) = [] := by
      rw [filter_eq_nil_iff]
      intro out hout
      rw [isProofOutput_minedOutputs hmax out hout]
      decide
    dsimp only
    rw [filter_append, hnone, append_nil]
  have hroot : computePoUWBaseMerkleRoot c (minedBlock c template state leafUsed sig height failed) =
      computePoUWBaseMerkleRoot c template := by
    unfold computePoUWBaseMerkleRoot
    rw [minedBlock_vtx _ _ _ _ _ _ _ hvtx, hvtx]
    dsimp only
    rw [hbase]
  have hheader := minedBlock_header c template state leafUsed sig height failed
  unfold pouwPreimage
  rw [hroot, congrArg nVersion hheader, congrArg hashPrevBlock hheader,
    congrArg nTime hheader, congrArg nBits hheader]

/-- Outputs before those of the miner do not change what `CheckPoUW` says: they carry no proof and
no list, or one that passes for this block. -/
structure OutputsAgree (c : Crypto) (params : Params) (leafDB : LeafTable) (nHeight : Int)
    (target : Nat) (preimageHash : Uint256) (leaf : UInt32) (commitments : Uint256)
    (vout : List TxOut) : Prop where
  proof : ∃ found pk, scanProof params vout [] = .ok (found, pk) ∧ ∀ p ∈ found,
    checkPoUWv2 c p preimageHash target leaf = true ∧
      (params.nPoUWLeafReuseActivation ≤ nHeight →
        leafDB (makePoUWLeafKey c p.xmss_pk.data leaf.toNat) = none)
  list : firstFsl vout ≠ none →
    checkCommitments c params commitments nHeight target vout = .ok ()

variable {leafDB : LeafTable}

/-- A block through the v2 branch. -/
theorem checkPoUW_eq_of_scan {nHeight : Int} {p : PoUWv2Proof} {pk : Bytes}
    (hpouw : params.fPoUW = true) (hpos : 0 ≤ nHeight) (hstart : params.nPoUWStartHeight ≤ nHeight)
    (hvtx : block.vtx = cb :: txs) (hcb : cb.isCoinBase = true)
    (hscan : scanProof params cb.vout [] = .ok (some p, pk)) :
    (∃ v, checkPoUW c params leafDB block nHeight = .ok v) ↔
      checkPoUWv2Branch c params leafDB block cb nHeight p = .ok () := by
  have hcheck : checkPoUW c params leafDB block nHeight =
      (checkPoUWv2Branch c params leafDB block cb nHeight p).map fun _ => .v2 p := by
    unfold checkPoUW
    simp [hpouw, Int.not_lt.mpr hpos, Int.not_lt.mpr hstart, hvtx, hcb, hscan]
  rw [hcheck]
  cases checkPoUWv2Branch c params leafDB block cb nHeight p with
  | error e =>
    refine ⟨fun h => ?_, nofun⟩
    obtain ⟨v, hv⟩ := h
    cases hv
  | ok u => exact ⟨fun _ => rfl, fun _ => ⟨_, rfl⟩⟩

variable {template : Block}

/-- **The check of a mined block.** Its proof verifies for its template, its leaf is free and its
failed trees are what they should be. The outputs of the template decide the rest. -/
theorem checkPoUW_minedBlock_iff {leafUsed : UInt32} {nHeight : Int} (hpouw : params.fPoUW = true)
    (hpos : 0 ≤ nHeight) (hstart : params.nPoUWStartHeight ≤ nHeight)
    (hsize : SERIAL_SIZE + 5 ≤ params.nPoUWMaxSigSize) (hvtx : template.vtx = cb :: txs)
    (hcb : cb.isCoinBase = true) (hroot : template.commitmentsRoot = nullHash)
    (hleaf : leafUsed.toNat < 1024) (hverified : checkPoUWv2 c (minedProof state sig)
      (c.hash256 (pouwPreimage c params template nHeight)) (setCompact template.nBits).target
      leafUsed = true)
    (hfree : leafDB (makePoUWLeafKey c (minedProof state sig).xmss_pk.data leafUsed.toNat) = none)
    (hmax : failed.length ≤ MAX_FAILED_SEEDS)
    (hfailed : ∀ e ∈ failed, FailedTree c height (setCompact template.nBits).target e) :
    (∃ v, checkPoUW c params leafDB (minedBlock c template state leafUsed sig height failed)
        nHeight = .ok v) ↔
      OutputsAgree c params leafDB nHeight (setCompact template.nBits).target
        (c.hash256 (pouwPreimage c params template nHeight)) leafUsed
        (minedCommitments c nullHash failed) cb.vout := by
  have hheader := minedBlock_header c template state leafUsed sig height failed
  have hbits := congrArg nBits hheader
  have hindex := congrArg nLeafIndex hheader
  have hcommit := congrArg commitmentsRoot hheader
  have hpre := pouwPreimage_minedBlock c params template state leafUsed sig height hmax hvtx nHeight
  have hblock := minedBlock_vtx c template state leafUsed sig height failed hvtx
  generalize minedBlock c template state leafUsed sig height failed = block at *
  replace hbits : block.nBits = template.nBits := hbits
  replace hindex : block.nLeafIndex = leafUsed := hindex
  replace hcommit : block.commitmentsRoot = minedCommitments c nullHash failed := by
    rw [← hroot]
    exact hcommit
  generalize hcb' : ({ cb with vout := cb.vout ++ minedOutputs state sig height failed } :
    Transaction) = cb' at hblock
  have hvout : cb'.vout = cb.vout ++ minedOutputs state sig height failed := by rw [← hcb']
  have hcoinbase : cb'.isCoinBase = true := by
    rw [← hcb']
    exact hcb
  have hscan := @scanProof_append params (minedOutputs state sig height failed) cb.vout []
  rw [← hvout] at hscan
  -- The commitments are those of the first list.
  have hlist : checkCommitments c params block.commitmentsRoot nHeight
      (setCompact block.nBits).target cb'.vout = .ok () ↔ (firstFsl cb.vout ≠ none →
        checkCommitments c params (minedCommitments c nullHash failed) nHeight
          (setCompact template.nBits).target cb.vout = .ok ()) := by
    rw [hcommit, hbits, hvout]
    cases hfsl : firstFsl cb.vout with
    | none =>
      rw [checkCommitments_append_of_none hfsl, checkCommitments_minedOutputs hsize hmax hfailed]
      simp
    | some data =>
      rw [checkCommitments_append_of_some hfsl]
      simp
  have hbranch (p : PoUWv2Proof) : checkPoUWv2Branch c params leafDB block cb' nHeight p = .ok () ↔
      (checkPoUWv2 c p (c.hash256 (pouwPreimage c params template nHeight))
          (setCompact template.nBits).target leafUsed = true ∧
        (params.nPoUWLeafReuseActivation ≤ nHeight →
          leafDB (makePoUWLeafKey c p.xmss_pk.data leafUsed.toNat) = none)) ∧
      (firstFsl cb.vout ≠ none → checkCommitments c params (minedCommitments c nullHash failed)
        nHeight (setCompact template.nBits).target cb.vout = .ok ()) := by
    rw [checkPoUWv2Branch_ok_iff, hlist, hpre, hbits, hindex]
    exact ⟨fun h => ⟨⟨h.2.1, h.2.2.1⟩, h.2.2.2⟩, fun h => ⟨hleaf, h.1.1, h.1.2, h.2⟩⟩
  match hown : scanProof params cb.vout [] with
  | .error e =>
    rw [hown] at hscan
    have herror : checkPoUW c params leafDB block nHeight = .error e := by
      unfold checkPoUW
      simp [hpouw, Int.not_lt.mpr hpos, Int.not_lt.mpr hstart, hblock, hcoinbase, hscan]
    constructor
    · intro ⟨v, hv⟩
      rw [herror] at hv
      cases hv
    · intro h
      obtain ⟨found, pk, hfound, -⟩ := h.proof
      rw [hown] at hfound
      cases hfound
  | .ok (some p, pk) =>
    rw [hown] at hscan
    rw [checkPoUW_eq_of_scan hpouw hpos hstart hblock hcoinbase hscan, hbranch p]
    constructor
    · intro h
      refine ⟨⟨some p, pk, hown, fun q hq => ?_⟩, h.2⟩
      cases hq
      exact h.1
    · intro h
      obtain ⟨found, pk', hfound, hp⟩ := h.proof
      rw [hown] at hfound
      cases hfound
      exact ⟨hp p rfl, h.list⟩
  | .ok (none, pk) =>
    rw [hown] at hscan
    have hmined : scanProof params cb'.vout [] =
        .ok (some (minedProof state sig), (minedProof state sig).xmss_pk.data) := by
      rw [hscan]
      exact scanProof_proof (by omega) _ _
    rw [checkPoUW_eq_of_scan hpouw hpos hstart hblock hcoinbase hmined, hbranch]
    exact ⟨fun h => ⟨⟨none, pk, hown, nofun⟩, h.2⟩, fun h => ⟨⟨hverified, fun _ => hfree⟩, h.list⟩⟩

/-! ### Templates -/

/-- The data of the commitment to the witness data. -/
def commitmentData (c : Crypto) (block : Block) : Bytes :=
  [0xaa, 0x21, 0xa9, 0xed] ++
    (c.hash256 ((blockWitnessMerkleRoot c block).1.data ++ List.replicate 32 0)).data

section
variable (c : Crypto) (block : Block)

theorem length_commitmentData : (commitmentData c block).length = 36 := by
  simp [commitmentData]

/-- The script of the commitment pushes its data. -/
theorem scriptPubKey_witnessCommitment :
    (witnessCommitment c block).scriptPubKey = (dataOutput (commitmentData c block)).scriptPubKey := by
  have hpush : pushBytes (commitmentData c block) = 0x24 :: commitmentData c block := by
    rw [pushBytes, length_commitmentData]
    rfl
  rw [dataOutput, hpush]
  rfl

/-- The commitment to the witness data carries nothing that `CheckPoUW` reads. -/
theorem opReturnPush_witnessCommitment :
    opReturnPush (witnessCommitment c block).scriptPubKey =
      some ([0xaa, 0x21, 0xa9, 0xed] ++ (c.hash256 ((blockWitnessMerkleRoot c block).1.data ++
        List.replicate 32 0)).data) := by
  have hlen := length_commitmentData c block
  rw [scriptPubKey_witnessCommitment, opReturnPush_dataOutput (by omega)]
  rfl

theorem scanProof_witnessCommitment (pk : Bytes) :
    scanProof params [witnessCommitment c block] pk = .ok (none, pk) := by
  rw [scanProof, opReturnPush_witnessCommitment]
  dsimp only
  rw [if_neg (by simp [POUW_MAGIC]), scanProof, legacyKey, if_neg (by simp)]

theorem firstFsl_witnessCommitment : firstFsl [witnessCommitment c block] = none := by
  unfold firstFsl
  rw [filterMap_cons, opReturnPush_witnessCommitment]
  refine find?_cons_of_neg ?_
  simp [SEEDS_MAGIC]

end

/-- The coinbase of a template: the output of the caller, and a commitment unless that output is
one. -/
structure TemplateCoinbase (c : Crypto) (scriptPubKeyIn : Script) (template : Block)
    (cb : Transaction) (txs : List Transaction) : Prop where
  vtx : template.vtx = cb :: txs
  coinbase : cb.isCoinBase = true
  vout : ∃ value, cb.vout = [⟨value, scriptPubKeyIn⟩] ∨
    ∃ block, cb.vout = [⟨value, scriptPubKeyIn⟩, witnessCommitment c block]

section Agree
variable {c : Crypto} {params : Params} {leafDB : LeafTable} {nHeight : Int} {target : Nat}
  {preimageHash : Uint256} {leaf : UInt32} {commitments : Uint256}

theorem OutputsAgree.congr {vout vout' : List TxOut}
    (hscan : scanProof params vout' [] = scanProof params vout [])
    (hfsl : firstFsl vout' = firstFsl vout)
    (hlist : firstFsl vout ≠ none →
      checkCommitments c params commitments nHeight target vout' =
        checkCommitments c params commitments nHeight target vout)
    (h : OutputsAgree c params leafDB nHeight target preimageHash leaf commitments vout) :
    OutputsAgree c params leafDB nHeight target preimageHash leaf commitments vout' where
  proof := by
    rw [hscan]
    exact h.proof
  list := by
    intro hsome
    rw [hfsl] at hsome
    rw [hlist hsome]
    exact h.list hsome

/-- Only the script of the caller matters. -/
theorem outputsAgree_template_iff (h : TemplateCoinbase c scriptPubKeyIn template cb txs) :
    OutputsAgree c params leafDB nHeight target preimageHash leaf commitments cb.vout ↔
      OutputsAgree c params leafDB nHeight target preimageHash leaf commitments
        [⟨0, scriptPubKeyIn⟩] := by
  have hsame : scanProof params cb.vout [] = scanProof params [⟨0, scriptPubKeyIn⟩] [] ∧
      firstFsl cb.vout = firstFsl [⟨0, scriptPubKeyIn⟩] ∧
      (firstFsl [⟨0, scriptPubKeyIn⟩] ≠ none →
        checkCommitments c params commitments nHeight target cb.vout =
          checkCommitments c params commitments nHeight target [⟨0, scriptPubKeyIn⟩]) := by
    obtain ⟨value, hvout | ⟨block, hvout⟩⟩ := h.vout
    · -- The value of an output is not read.
      rw [hvout]
      exact ⟨rfl, rfl, fun _ => rfl⟩
    rw [hvout]
    refine ⟨?_, ?_, fun hsome => ?_⟩
    · have hown : scanProof params [⟨value, scriptPubKeyIn⟩] [] =
          scanProof params [⟨0, scriptPubKeyIn⟩] [] := rfl
      have happend := @scanProof_append params [witnessCommitment c block]
        [⟨value, scriptPubKeyIn⟩] []
      rw [hown] at happend
      refine happend.trans ?_
      match scanProof params [⟨0, scriptPubKeyIn⟩] [] with
      | .error e => rfl
      | .ok (some proof, pk) => rfl
      | .ok (none, pk) => exact scanProof_witnessCommitment c block pk
    · have happend : firstFsl ([⟨value, scriptPubKeyIn⟩] ++ [witnessCommitment c block]) =
          (firstFsl [⟨0, scriptPubKeyIn⟩]).or (firstFsl [witnessCommitment c block]) := by
        unfold firstFsl
        rw [filterMap_append, find?_append]
        rfl
      rw [firstFsl_witnessCommitment, Option.or_none] at happend
      exact happend
    · obtain ⟨data, hdata⟩ := Option.ne_none_iff_exists'.mp hsome
      have hfsl : firstFsl [⟨value, scriptPubKeyIn⟩] = some data := hdata
      exact checkCommitments_append_of_some hfsl
  obtain ⟨hscan, hfsl, hlist⟩ := hsame
  refine ⟨fun hagree => ?_, fun hagree => hagree.congr hscan hfsl hlist⟩
  exact hagree.congr hscan.symm hfsl.symm fun hsome => (hlist (hfsl ▸ hsome)).symm

end Agree

theorem Block.mapCoinbase_vtx {f : Transaction → Transaction} (h : block.vtx = cb :: txs) :
    (block.mapCoinbase f).vtx = f cb :: txs := by
  unfold Block.mapCoinbase
  rw [h]

theorem Block.mapCoinbase_header (f : Transaction → Transaction) (block : Block) :
    (block.mapCoinbase f).header = block.header := by
  unfold Block.mapCoinbase
  split <;> rfl

/-- A coinbase with another witness. -/
theorem isCoinBase_modifyHead {witness : List Bytes} (h : cb.isCoinBase = true) :
    ({ cb with vin := cb.vin.modifyHead fun i => { i with scriptWitness := witness } } :
      Transaction).isCoinBase = true := by
  unfold Transaction.isCoinBase at h ⊢
  match hvin : cb.vin with
  | [] =>
    rw [hvin] at h
    exact h
  | [i] =>
    rw [hvin] at h
    exact h
  | i :: j :: rest =>
    rw [hvin] at h
    exact h

section Templates
variable (c : Crypto) (params : Params) (tip : Tip)

theorem header_generateCoinbaseCommitment (block : Block) :
    (generateCoinbaseCommitment c params tip block).header = block.header := by
  unfold generateCoinbaseCommitment updateUncommittedBlockStructures
  repeat' split
  all_goals simp only [Block.mapCoinbase_header]

/-- The commitment adds an output and a witness to a coinbase. -/
theorem templateCoinbase_generate {value : Int64} (hvtx : block.vtx = cb :: txs)
    (hcb : cb.isCoinBase = true) (hvout : cb.vout = [⟨value, scriptPubKeyIn⟩]) :
    ∃ cb', TemplateCoinbase c scriptPubKeyIn (generateCoinbaseCommitment c params tip block) cb'
      txs := by
  have hadded : ∃ cb', TemplateCoinbase c scriptPubKeyIn
      (if (getWitnessCommitmentIndex block).isNone then
        block.mapCoinbase fun cb => { cb with vout := cb.vout ++ [witnessCommitment c block] }
      else block) cb' txs := by
    split
    · refine ⟨_, Block.mapCoinbase_vtx hvtx, hcb, value, .inr ⟨block, ?_⟩⟩
      show cb.vout ++ _ = _
      rw [hvout]
      rfl
    · exact ⟨cb, hvtx, hcb, value, .inl hvout⟩
  obtain ⟨cb', hcb'⟩ := hadded
  unfold generateCoinbaseCommitment
  generalize (if (getWitnessCommitmentIndex block).isNone then _ else block) = added at hcb' ⊢
  unfold updateUncommittedBlockStructures
  split
  · exact ⟨_, Block.mapCoinbase_vtx hcb'.vtx, isCoinBase_modifyHead hcb'.coinbase, hcb'.vout⟩
  · exact ⟨cb', hcb'⟩

variable (o : AssemblerOptions) (env : AssemblerEnv) (pool : Mempool) (scriptPubKeyIn : Script)

/-- The coinbase of the block that `CreateNewBlock` fills. -/
theorem templateCoinbase_newBlock : ∃ cb, TemplateCoinbase c scriptPubKeyIn
    (newBlock c params o env tip pool scriptPubKeyIn) cb
    ((addPackageTxs c o tip pool env.order).inBlock.map MempoolEntry.tx) :=
  templateCoinbase_generate c params tip rfl rfl rfl

theorem commitmentsRoot_newBlock :
    (newBlock c params o env tip pool scriptPubKeyIn).commitmentsRoot = nullHash :=
  congrArg commitmentsRoot (header_generateCoinbaseCommitment c params tip _)

/-- A template that `CreateNewBlock` returns is the block that it fills. -/
theorem eq_newBlock_of_createNewBlock
    (h : createNewBlock c params o env tip pool scriptPubKeyIn = .ok block) :
    block = newBlock c params o env tip pool scriptPubKeyIn := by
  unfold createNewBlock at h
  dsimp only at h
  split at h
  · cases h
    rfl
  · split at h
    · cases h
    · cases h
      rfl

end Templates

theorem testBlockValidity_of_parts {env : AssemblerEnv} {tip : Tip}
    (hheader : contextualCheckBlockHeader params env.checkpoint env.now tip.chain block.header = .ok ())
    (hcheck : checkBlock c params block false false = .ok ())
    (htxs : contextualCheckTxs c params tip.chain block = .ok ())
    (hconnect : (connectBlock ⟨c, params, true, env.parallel, true, tip.chain, block⟩ tip.db
      tip.coins).isOk = true) : testBlockValidity c params env tip block = .ok () := by
  unfold testBlockValidity
  rw [hheader, hcheck, htxs]
  generalize connectBlock _ _ _ = r at hconnect
  cases r with
  | error e => cases hconnect
  | ok _ => rfl

theorem createNewBlock_of_valid {o : AssemblerOptions} {env : AssemblerEnv} {tip : Tip}
    {pool : Mempool} (hnew : newBlock c params o env tip pool scriptPubKeyIn = block)
    (hvalid : testBlockValidity c params env tip block = .ok ()) :
    createNewBlock c params o env tip pool scriptPubKeyIn = .ok block := by
  unfold createNewBlock
  dsimp only
  rw [hnew, hvalid]
  split <;> rfl

end AssentianPQE
