import AssentianPQE.PoUW.Check
import AssentianPQE.Validation.Pow
import AssentianPQE.Validation.Tx

/-!
# `AssentianPQE.Validation.Block`: checks on a block without the coins

`CheckBlockHeader`, `CheckBlock`, `ContextualCheckBlockHeader` and `ContextualCheckBlock`
(`validation.cpp`) with the witness commitment and the signet solution (`signet.cpp`).

The parent of a block is given by its chain of headers, the newest first, so the height of
the block is the length of that chain.
-/

set_option autoImplicit false

namespace AssentianPQE

open Lib

variable {params : Params} {c : Crypto} {block : Block}

/-! ### Context-free checks -/

/-- `CheckBlockHeader`: a header without a root passes. -/
def checkBlockHeader (params : Params) (block : BlockHeader) (fCheckPOW : Bool) :
    Except BlockInvalid Unit :=
  if fCheckPOW ∧ block.xmssRoot ≠ nullHash ∧ !checkProofOfWork params block.xmssRoot block.nBits then
    .error ⟨.invalidHeader, "high-hash"⟩
  else .ok ()

/-- `HasValidProofOfWork`. -/
def hasValidProofOfWork (params : Params) (headers : List BlockHeader) : Bool :=
  headers.all fun header => checkProofOfWork params header.xmssRoot header.nBits

/-- `CheckMerkleRoot`. -/
def checkMerkleRoot (c : Crypto) (block : Block) : Except BlockInvalid Unit :=
  let r := blockMerkleRoot c block
  if block.hashMerkleRoot ≠ r.1 then .error ⟨.mutated, "bad-txnmrklroot"⟩
  else if r.2 then .error ⟨.mutated, "bad-txns-duplicate"⟩
  else .ok ()

/-- Whether an output holds a witness commitment. -/
def isWitnessCommitment (out : TxOut) : Bool :=
  38 ≤ out.scriptPubKey.length ∧
    out.scriptPubKey.take 6 = [OP_RETURN, 0x24, 0xaa, 0x21, 0xa9, 0xed]

/-- `GetWitnessCommitmentIndex`: the last output with a witness commitment. -/
def getWitnessCommitmentIndex (block : Block) : Option Nat :=
  match block.vtx with
  | [] => none
  | cb :: _ =>
    (cb.vout.reverse.findIdx? isWitnessCommitment).map fun i => cb.vout.length - 1 - i

/-! ### Signet -/

/-- `SIGNET_HEADER`. -/
def SIGNET_HEADER : Bytes := [0xec, 0xc7, 0xda, 0xa2]

/-- `BLOCK_SCRIPT_VERIFY_FLAGS` of `signet.cpp`. -/
def signetFlags : ScriptFlags :=
  { p2sh := true, witness := true, derSig := true, nullDummy := true }

/-- The loop of `FetchAndClearCommitmentSection`: the rewritten script and the section found. -/
def clearSection : List ScriptOp → Option Bytes → Script × Option Bytes
  | [], found => ([], found)
  | op :: rest, found =>
    if op.data = [] then
      let r := clearSection rest found
      (op.opcode :: r.1, r.2)
    else if found = none ∧ SIGNET_HEADER.length < op.data.length ∧
        op.data.take SIGNET_HEADER.length = SIGNET_HEADER then
      let r := clearSection rest (some (op.data.drop SIGNET_HEADER.length))
      (pushBytes SIGNET_HEADER ++ r.1, r.2)
    else
      let r := clearSection rest found
      (pushBytes op.data ++ r.1, r.2)

/-- `ReadCompactSize`: the value must be encoded canonically and be at most `MAX_SIZE`. -/
def readCompactSize : Bytes → Option (Nat × Bytes)
  | [] => none
  | b :: bs =>
    let wide (w least : Nat) : Option (Nat × Bytes) :=
      (takeN w bs).bind fun p =>
        if readLE p.1 < least ∨ 0x02000000 < readLE p.1 then none else some (readLE p.1, p.2)
    if b < 253 then some (b.toNat, bs)
    else if b = 253 then wide 2 253
    else if b = 254 then wide 4 0x10000
    else wide 8 0x100000000

/-- A byte vector: its length, then its bytes. -/
def readBytes (bs : Bytes) : Option (Bytes × Bytes) :=
  (readCompactSize bs).bind fun p => takeN p.1 p.2

/-- A number of byte vectors. -/
def readByteVectors : Nat → Bytes → Option (List Bytes × Bytes)
  | 0, bs => some ([], bs)
  | n + 1, bs =>
    (readBytes bs).bind fun p =>
      (readByteVectors n p.2).map fun q => (p.1 :: q.1, q.2)

/-- The signet solution of a section: a script and a witness stack, and nothing after them. -/
def readSolution (bs : Bytes) : Option (Script × List Bytes) :=
  (readBytes bs).bind fun p =>
    (readCompactSize p.2).bind fun n =>
      (readByteVectors n.1 n.2).bind fun q => if q.2 = [] then some (p.1, q.1) else none

/-- `SignetTxs::Create`: the transaction to spend and the one that spends it. -/
def signetTxs (c : Crypto) (block : Block) (challenge : Script) :
    Option (Transaction × Transaction) :=
  match block.vtx, getWitnessCommitmentIndex block with
  | cb :: txs, some cidx =>
    match cb.vout[cidx]? with
    | none => none
    | some out =>
      let cleared := clearSection (ops out.scriptPubKey) none
      let solution := match cleared.2 with
        | none => some ([], [])
        | some section' => readSolution section'
      solution.map fun (scriptSig, witness) =>
        let modified := match cleared.2 with
          | none => cb
          | some _ => { cb with vout := cb.vout.set cidx { out with scriptPubKey := cleared.1 } }
        let signetMerkle := (computeMerkleRoot c
          (modified.getHash c :: txs.map (Transaction.getHash c))).1
        let blockData := serI32 block.nVersion ++ (block.hashPrevBlock.data ++
          (signetMerkle.data ++ serU32 block.nTime))
        let toSpend : Transaction :=
          { nVersion := 0
            vin := [{ prevout := OutPoint.null, scriptSig := OP_0 :: pushBytes blockData
                      nSequence := 0 }]
            vout := [⟨0, challenge⟩], nLockTime := 0 }
        (toSpend,
          { nVersion := 0
            vin := [{ prevout := ⟨toSpend.getHash c, 0⟩, scriptSig := scriptSig, nSequence := 0
                      scriptWitness := witness }]
            vout := [⟨0, [OP_RETURN]⟩], nLockTime := 0 })
  | _, _ => none

/-- The part of `CheckSignetBlockSolution` that does not read the block hash. -/
def signetSolved (c : Crypto) (params : Params) (block : Block) : Bool :=
  match signetTxs c block params.signet_challenge with
  | none => false
  | some (toSpend, toSign) =>
    match toSign.vin, toSpend.vout with
    | [i], [out] =>
      let t : TxContext :=
        { tx := toSign, nIn := 0, input := i, amount := out.nValue, spentOutputs := [out]
          xmssChainId := 1 }
      (verifyScript c signetFlags (t.checker c) i.scriptSig out.scriptPubKey
        i.scriptWitness).isOk
    | _, _ => false

/-- `CheckSignetBlockSolution`. -/
def checkSignetBlockSolution (c : Crypto) (params : Params) (block : Block) : Bool :=
  block.getHash c = params.hashGenesisBlock || signetSolved c params block

/-! ### `CheckBlock` -/

/-- The first transaction that `CheckTransaction` rejects. -/
def checkTransactions : List Transaction → Except BlockInvalid Unit
  | [] => .ok ()
  | tx :: rest =>
    match checkTransaction tx with
    | .error reason => .error (consensusError reason)
    | .ok () => checkTransactions rest

/-- The part of `CheckBlock` on the transactions, after the Merkle root. -/
def checkBlockTxs (block : Block) : Except BlockInvalid Unit :=
  if block.vtx = [] ∨ MAX_BLOCK_WEIGHT < block.vtx.length * WITNESS_SCALE_FACTOR ∨
      MAX_BLOCK_WEIGHT < block.serializeNoWitness.length * WITNESS_SCALE_FACTOR then
    .error (consensusError "bad-blk-length")
  else if !(block.vtx.head?.any Transaction.isCoinBase) then
    .error (consensusError "bad-cb-missing")
  else if (block.vtx.drop 1).any Transaction.isCoinBase then
    .error (consensusError "bad-cb-multiple")
  else
    match checkTransactions block.vtx with
    | .error e => .error e
    | .ok () =>
      if MAX_BLOCK_SIGOPS_COST < (block.vtx.map getLegacySigOpCount).sum * WITNESS_SCALE_FACTOR then
        .error (consensusError "bad-blk-sigops")
      else .ok ()

/-- `CheckBlock`. -/
def checkBlock (c : Crypto) (params : Params) (block : Block) (fCheckPOW fCheckMerkleRoot : Bool) :
    Except BlockInvalid Unit :=
  match checkBlockHeader params block.header fCheckPOW with
  | .error e => .error e
  | .ok () =>
    if params.signet_blocks ∧ fCheckPOW ∧ !checkSignetBlockSolution c params block then
      .error (consensusError "bad-signet-blksig")
    else
      match (if fCheckMerkleRoot then checkMerkleRoot c block else .ok ()) with
      | .error e => .error e
      | .ok () => checkBlockTxs block

/-! ### Contextual checks -/

/-- `DeploymentActiveAfter` and `DeploymentActiveAt` for a buried deployment: `nHeight` is the
height of the block under test. -/
def deploymentActive (deploymentHeight : Int) (nHeight : Nat) : Bool :=
  deploymentHeight ≤ nHeight

def MAX_FUTURE_BLOCK_TIME : Int := 2 * 60 * 60

/-- `ContextualCheckBlockHeader`, at time `now`. `checkpoint` is the height of the last
checkpoint in the block index, if checkpoints are enabled. The reason `bad-version` is
followed by the version in the source. -/
def contextualCheckBlockHeader (params : Params) (checkpoint : Option Nat) (now : Int)
    (prev : List BlockHeader) (block : BlockHeader) : Except BlockInvalid Unit :=
  let nHeight := prev.length
  if params.nPoUWDiffbitsGrandfatherHeight < nHeight ∧
      block.nBits ≠ getNextWorkRequired params prev block.blockTime then
    .error ⟨.invalidHeader, "bad-diffbits"⟩
  else if checkpoint.any fun h => nHeight < h then
    .error ⟨.checkpoint, "bad-fork-prior-to-checkpoint"⟩
  else if block.blockTime ≤ medianTimePast prev then .error ⟨.invalidHeader, "time-too-old"⟩
  else if now + MAX_FUTURE_BLOCK_TIME < block.blockTime then .error ⟨.timeFuture, "time-too-new"⟩
  else if (block.nVersion < 2 ∧ deploymentActive params.BIP34Height nHeight) ∨
      (block.nVersion < 3 ∧ deploymentActive params.BIP66Height nHeight) ∨
      (block.nVersion < 4 ∧ deploymentActive params.BIP65Height nHeight) then
    .error ⟨.invalidHeader, "bad-version"⟩
  else .ok ()

/-- `CheckWitnessMalleation`. -/
def checkWitnessMalleation (c : Crypto) (block : Block) (expectCommitment : Bool) :
    Except BlockInvalid Unit :=
  let noWitness : Except BlockInvalid Unit :=
    if block.vtx.any Transaction.hasWitness then .error ⟨.mutated, "unexpected-witness"⟩
    else .ok ()
  match block.vtx, getWitnessCommitmentIndex block with
  | cb :: _, some commitpos =>
    if !expectCommitment then noWitness
    else
      match (cb.vin.head?.map TxIn.scriptWitness).getD [] with
      | [nonce] =>
        if nonce.length ≠ 32 then .error ⟨.mutated, "bad-witness-nonce-size"⟩
        else
          let hashWitness := c.hash256 ((blockWitnessMerkleRoot c block).1.data ++ nonce)
          let commitment := ((cb.vout[commitpos]?.map TxOut.scriptPubKey).getD []).drop 6
          if hashWitness.data ≠ commitment.take 32 then
            .error ⟨.mutated, "bad-witness-merkle-match"⟩
          else .ok ()
      | _ => .error ⟨.mutated, "bad-witness-nonce-size"⟩
  | _, _ => noWitness

/-- `GetBlockWeight`. -/
def getBlockWeight (block : Block) : Nat :=
  block.serializeNoWitness.length * (WITNESS_SCALE_FACTOR - 1) + block.serializeWithWitness.length

/-- `CScript() << n` for a height. -/
def pushHeight (n : Nat) : Script :=
  if n = 0 then [OP_0]
  else if n ≤ 16 then [UInt8.ofNat (0x50 + n)]
  else pushBytes (serializeNum n)

/-- The tests of `ContextualCheckBlock` before `CheckPoUW`. They read only the block and its
ancestors. -/
def contextualCheckTxs (c : Crypto) (params : Params) (prev : List BlockHeader) (block : Block) :
    Except BlockInvalid Unit :=
  let nHeight := prev.length
  let nLockTimeCutoff : Int := if deploymentActive params.CSVHeight nHeight then
    medianTimePast prev else block.header.blockTime
  let scriptSig := ((block.vtx.head?.bind fun cb => cb.vin.head?).map TxIn.scriptSig).getD []
  if block.vtx.any fun tx => !isFinalTx tx nHeight nLockTimeCutoff then
    .error (consensusError "bad-txns-nonfinal")
  else if deploymentActive params.BIP34Height nHeight ∧
      !(pushHeight nHeight).isPrefixOf scriptSig then
    .error (consensusError "bad-cb-height")
  else
    match checkWitnessMalleation c block (deploymentActive params.SegwitHeight nHeight) with
    | .error e => .error e
    | .ok () =>
      if MAX_BLOCK_WEIGHT < getBlockWeight block then .error (consensusError "bad-blk-weight")
      else .ok ()

/-- `ContextualCheckBlock` with `fCheckPOW`. The verdict of `CheckPoUW` is returned. -/
def contextualCheckBlock (c : Crypto) (params : Params) (leafDB : LeafTable)
    (prev : List BlockHeader) (block : Block) : Except BlockInvalid PoUWVerdict :=
  match contextualCheckTxs c params prev block with
  | .error e => .error e
  | .ok () => checkPoUW c params leafDB block prev.length

/-! ### What acceptance says -/

/-- `CheckBlockHeader` accepts a header with no root, or with one below the target. -/
theorem checkBlockHeader_ok_iff {block : BlockHeader} :
    checkBlockHeader params block true = .ok () ↔
      block.xmssRoot = nullHash ∨ checkProofOfWork params block.xmssRoot block.nBits = true := by
  unfold checkBlockHeader
  split
  · rename_i h
    obtain ⟨-, hroot, hpow⟩ := h
    rw [Bool.not_eq_true'] at hpow
    exact ⟨nofun, fun he => by simp [hroot, hpow] at he⟩
  · rename_i h
    refine ⟨fun _ => ?_, fun _ => rfl⟩
    by_contra hno
    push Not at hno
    exact h ⟨rfl, hno.1, by simpa using hno.2⟩

/-- `CheckBlock` accepts exactly when all of its parts do. -/
theorem checkBlock_ok_iff :
    checkBlock c params block true true = .ok () ↔
      (block.xmssRoot = nullHash ∨ checkProofOfWork params block.xmssRoot block.nBits = true) ∧
      (params.signet_blocks = true → checkSignetBlockSolution c params block = true) ∧
      checkMerkleRoot c block = .ok () ∧ checkBlockTxs block = .ok () := by
  rw [← checkBlockHeader_ok_iff]
  unfold checkBlock
  cases checkBlockHeader params block.header true with
  | error e => simp
  | ok u =>
    cases checkSignetBlockSolution c params block <;> cases params.signet_blocks <;>
      cases checkMerkleRoot c block <;> simp

/-- `CheckMerkleRoot` accepts the root of a tree that is not mutated. -/
theorem checkMerkleRoot_ok_iff :
    checkMerkleRoot c block = .ok () ↔
      block.hashMerkleRoot = (blockMerkleRoot c block).1 ∧ (blockMerkleRoot c block).2 = false := by
  unfold checkMerkleRoot
  simp only
  split
  · rename_i h
    exact ⟨nofun, fun he => absurd he.1 h⟩
  rename_i h
  split
  · rename_i hm
    exact ⟨nofun, fun he => by rw [he.2] at hm; cases hm⟩
  · rename_i hm
    exact ⟨fun _ => ⟨not_not.mp h, by simpa using hm⟩, fun _ => rfl⟩

/-- `CheckTransaction` bounds the size of a transaction. -/
theorem length_le_of_checkTransaction {tx : Transaction} (h : checkTransaction tx = .ok ()) :
    tx.serializeNoWitness.length * WITNESS_SCALE_FACTOR ≤ MAX_BLOCK_WEIGHT := by
  unfold checkTransaction at h
  split at h
  · cases h
  split at h
  · cases h
  · split at h
    · cases h
    · rename_i hsize
      exact Nat.not_lt.mp hsize

theorem checkTransactions_ok_iff {txs : List Transaction} :
    checkTransactions txs = .ok () ↔ ∀ tx ∈ txs, checkTransaction tx = .ok () := by
  induction txs with
  | nil => simp [checkTransactions]
  | cons tx txs ih =>
    unfold checkTransactions
    cases h : checkTransaction tx with
    | error e => simp [h]
    | ok u => simp [h, ih]

/-- `CheckBlock` checks every transaction. -/
theorem checkTransaction_of_checkBlockTxs (h : checkBlockTxs block = .ok ()) :
    ∀ tx ∈ block.vtx, checkTransaction tx = .ok () := by
  rw [← checkTransactions_ok_iff]
  unfold checkBlockTxs at h
  split at h
  · cases h
  split at h
  · cases h
  split at h
  · cases h
  · cases htxs : checkTransactions block.vtx with
    | error e => simp [htxs] at h
    | ok u => rfl

/-- The tests before `CheckPoUW` pass exactly when each of them does. -/
theorem contextualCheckTxs_ok_iff {prev : List BlockHeader} :
    contextualCheckTxs c params prev block = .ok () ↔
      (∀ tx ∈ block.vtx, isFinalTx tx prev.length
        (if deploymentActive params.CSVHeight prev.length then medianTimePast prev
          else block.header.blockTime) = true) ∧
      (deploymentActive params.BIP34Height prev.length = true →
        (pushHeight prev.length).isPrefixOf
          (((block.vtx.head?.bind fun cb => cb.vin.head?).map TxIn.scriptSig).getD []) = true) ∧
      checkWitnessMalleation c block (deploymentActive params.SegwitHeight prev.length) = .ok () ∧
      getBlockWeight block ≤ MAX_BLOCK_WEIGHT := by
  unfold contextualCheckTxs
  simp only
  generalize (if deploymentActive params.CSVHeight prev.length then (medianTimePast prev : Int)
    else block.header.blockTime) = cutoff
  split
  · rename_i h
    rw [List.any_eq_true] at h
    obtain ⟨tx, htx, hnot⟩ := h
    exact ⟨nofun, fun he => by simp [he.1 tx htx] at hnot⟩
  · rename_i hfinal
    simp only [List.any_eq_true, Bool.not_eq_true', not_exists, not_and, Bool.not_eq_false]
      at hfinal
    split
    · rename_i h
      refine ⟨nofun, fun he => ?_⟩
      rw [he.2.1 h.1] at h
      cases h.2
    · rename_i hheight
      have hheight' : deploymentActive params.BIP34Height prev.length = true →
          (pushHeight prev.length).isPrefixOf
            (((block.vtx.head?.bind fun cb => cb.vin.head?).map TxIn.scriptSig).getD []) = true := by
        intro hact
        by_contra hno
        exact hheight ⟨hact, by rw [Bool.eq_false_of_not_eq_true hno]; rfl⟩
      cases hw : checkWitnessMalleation c block
          (deploymentActive params.SegwitHeight prev.length) with
      | error e => simp
      | ok u =>
        by_cases hweight : MAX_BLOCK_WEIGHT < getBlockWeight block
        · simp [hweight, Nat.not_le.mpr hweight]
        · simp only [if_neg hweight, true_iff]
          exact ⟨hfinal, hheight', trivial, Nat.not_lt.mp hweight⟩

/-- `ContextualCheckBlock` accepts exactly when both of its parts do. -/
theorem contextualCheckBlock_ok_iff {leafDB : LeafTable} {prev : List BlockHeader}
    {v : PoUWVerdict} :
    contextualCheckBlock c params leafDB prev block = .ok v ↔
      contextualCheckTxs c params prev block = .ok () ∧
      checkPoUW c params leafDB block prev.length = .ok v := by
  unfold contextualCheckBlock
  cases contextualCheckTxs c params prev block <;> simp

end AssentianPQE
