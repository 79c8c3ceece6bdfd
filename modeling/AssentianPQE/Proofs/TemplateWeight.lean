import Mathlib.Algebra.BigOperators.Ring.List
import Mathlib.Algebra.Order.BigOperators.Group.List
import AssentianPQE.Proofs.BlockSize
import AssentianPQE.Proofs.MinedBlock

/-!
# `AssentianPQE.Proofs.TemplateWeight`: the weight of a template and of the outputs added to it

`BlockAssembler` keeps 4000 units for the header and the coinbase, and leaves 16000 more units of
the weight of a block free. `GenerateBlock` adds the proof and the list of failed seeds to the
coinbase afterwards, in another file.

* `getBlockWeight_minedBlock`: what the added outputs weigh. The list has 512 units for each tree.
* `addPackageTxs_weight`: what the transactions of a template weigh at most.
* `getBlockWeight_newBlock`: the heaviest template.
-/

set_option autoImplicit false

namespace AssentianPQE

open Lib List Transaction UInt8 BlockHeader

variable {n : Nat} {cb : Transaction} {txs : List Transaction} {i : TxIn}

/-! ### The added outputs -/

/-- The bytes of the outputs that `GenerateBlock` adds, for a number of failed trees. -/
def addedBytes (trees : Nat) : Nat :=
  2579 + if MIN_FAILED_SEEDS ≤ trees then 24 + 128 * trees else 0

/-- An output with data that is pushed with a length of two bytes. -/
theorem length_serialize_dataOutput {data : Bytes} (hlow : 0xff < data.length)
    (hhigh : data.length ≤ 0xfff0) : (dataOutput data).serialize.length = data.length + 15 := by
  have hpush : (pushBytes data).length = data.length + 3 := by
    rw [pushBytes, if_neg (by omega), if_neg (by omega), if_pos (by omega), length_cons,
      length_append, length_leBytes]
    omega
  have hscript : (dataOutput data).scriptPubKey.length = data.length + 4 := by
    show (pushBytes data).length + 1 = _
    rw [hpush]
  rw [TxOut.serialize, length_append, serBytes, length_append, hscript, writeCompactSize,
    if_neg (by omega), if_pos (by omega), length_cons, length_leBytes, serI64, length_leBytes]
  omega

variable {failed : List FslEntry}

theorem sum_minedOutputs {state : XMSSMinerState} {sig : Bytes} {height : UInt32}
    (hmax : failed.length ≤ MAX_FAILED_SEEDS) :
    ((minedOutputs state sig height failed).map fun out => out.serialize.length).sum =
      addedBytes failed.length := by
  have hmax' : failed.length ≤ 20 := hmax
  have hproof : (dataOutput (minedProof state sig).serialize).serialize.length = 2579 := by
    have hlen : (minedProof state sig).serialize.length = 2564 := PoUWv2Proof.length_serialize _
    rw [length_serialize_dataOutput (by omega) (by omega), hlen]
  unfold minedOutputs addedBytes
  rw [map_cons, sum_cons, hproof]
  by_cases hmin : MIN_FAILED_SEEDS ≤ failed.length
  · have hmin' : 10 ≤ failed.length := hmin
    have hlen := length_fslSerialize height failed
    have hlist : (dataOutput (fslSerialize height failed)).serialize.length =
        24 + 128 * failed.length := by
      rw [length_serialize_dataOutput (by omega) (by omega), hlen]
      omega
    rw [if_pos hmin, if_pos hmin, map_singleton, sum_singleton, hlist]
  · rw [if_neg hmin, if_neg hmin]
    rfl

theorem length_minedOutputs (state : XMSSMinerState) (sig : Bytes) (height : UInt32)
    (failed : List FslEntry) : (minedOutputs state sig height failed).length ≤ 2 := by
  unfold minedOutputs
  split <;> simp

/-! ### The weight of a transaction and of a block -/

theorem length_writeCompactSize_small (h : n < 253) : (writeCompactSize n).length = 1 := by
  rw [writeCompactSize, if_pos h]
  rfl

/-- A few more outputs. -/
theorem length_serializeNoWitness_append {tx : Transaction} {vout : List TxOut}
    (hfew : tx.vout.length + vout.length < 253) :
    ({ tx with vout := tx.vout ++ vout } : Transaction).serializeNoWitness.length =
      tx.serializeNoWitness.length + (vout.map fun out => out.serialize.length).sum := by
  have hold := length_writeCompactSize_small (show tx.vout.length < 253 by omega)
  have hnew : (writeCompactSize (tx.vout ++ vout).length).length = 1 := by
    rw [length_append]
    exact length_writeCompactSize_small hfew
  simp only [serializeNoWitness, length_append, length_serVector, hold,
    map_append, sum_append]
  rw [← length_append, hnew]
  omega

theorem length_serializeNoWitness_block {block : Block} (hvtx : block.vtx = cb :: txs) :
    block.serializeNoWitness.length = 148 + (writeCompactSize (txs.length + 1)).length +
      cb.serializeNoWitness.length + (txs.map fun tx => tx.serializeNoWitness.length).sum := by
  rw [Block.serializeNoWitness, length_append, length_serialize, length_serVector,
    hvtx, length_cons, map_cons, sum_cons]
  omega

variable (c : Crypto)

/-- The outputs that are added weigh four units for each byte. -/
theorem getBlockWeight_minedBlock {template : Block} (state : XMSSMinerState) (leafUsed : UInt32)
    (sig : Bytes) (height : UInt32) (hmax : failed.length ≤ MAX_FAILED_SEEDS)
    (hvtx : template.vtx = cb :: txs) (hfew : cb.vout.length ≤ 2) :
    getBlockWeight (minedBlock c template state leafUsed sig height failed) =
      getBlockWeight template + 4 * addedBytes failed.length := by
  have hmined := minedBlock_vtx c template state leafUsed sig height failed hvtx
  have hcount := length_minedOutputs state sig height failed
  have hwitness : (minedBlock c template state leafUsed sig height failed).witnessSize =
      template.witnessSize := by
    rw [Block.witnessSize, Block.witnessSize, hmined, hvtx]
    rfl
  rw [getBlockWeight_eq, getBlockWeight_eq, hwitness, length_serializeNoWitness_block hmined,
    length_serializeNoWitness_block hvtx, length_serializeNoWitness_append (by omega),
    sum_minedOutputs hmax]
  omega

/-! ### The transactions of a template -/

variable (tx : Transaction)

theorem getTransactionWeight_eq :
    getTransactionWeight tx = 4 * tx.serializeNoWitness.length + tx.witnessSize := by
  rw [getTransactionWeight, tx.length_serializeWithWitness, WITNESS_SCALE_FACTOR]
  omega

/-- The weight of a block is that of its parts. -/
theorem getBlockWeight_eq_sum (block : Block) : getBlockWeight block =
    592 + 4 * (writeCompactSize block.vtx.length).length +
      (block.vtx.map getTransactionWeight).sum := by
  have hsum : (block.vtx.map getTransactionWeight).sum =
      4 * (block.vtx.map fun tx => tx.serializeNoWitness.length).sum + block.witnessSize := by
    rw [funext getTransactionWeight_eq, sum_map_add, sum_map_mul_left, Block.witnessSize]
  rw [getBlockWeight_eq, hsum, Block.serializeNoWitness, length_append,
    length_serialize, length_serVector]
  omega

section Assemble
variable (c : Crypto) (o : AssemblerOptions)

/-- The weight of an entry is at most four times the size that is tested. -/
theorem getTransactionWeight_le_txSize (e : MempoolEntry) :
    getTransactionWeight e.tx ≤ WITNESS_SCALE_FACTOR * e.txSize o := by
  have hmax := Nat.le_max_left (getTransactionWeight e.tx) (e.sigOpCost * o.nBytesPerSigOp)
  unfold MempoolEntry.txSize WITNESS_SCALE_FACTOR
  omega

theorem sum_weight_le_txSize (package : List MempoolEntry) :
    (package.map fun e => getTransactionWeight e.tx).sum ≤
      WITNESS_SCALE_FACTOR * (package.map (MempoolEntry.txSize o)).sum := by
  rw [← sum_map_mul_left]
  exact sum_le_sum fun e _ => getTransactionWeight_le_txSize o e

/-- The counter of an assembly, and that it stays below the limit. -/
structure Assembly.Counted (b : Assembly) : Prop where
  weight : b.nBlockWeight = 4000 + (b.inBlock.map fun e => getTransactionWeight e.tx).sum
  limit : b.nBlockWeight < DEFAULT_BLOCK_MAX_WEIGHT

theorem nBlockMaxWeight_le : o.nBlockMaxWeight ≤ DEFAULT_BLOCK_MAX_WEIGHT := by
  refine Nat.max_le.mpr ⟨by decide, Nat.min_le_right _ _⟩

/-- The counter after a package has been added. -/
theorem foldl_addToBlock (package : List MempoolEntry) (b : Assembly) :
    (package.foldl Assembly.addToBlock b).inBlock = b.inBlock ++ package ∧
      (package.foldl Assembly.addToBlock b).nBlockWeight =
        b.nBlockWeight + (package.map fun e => getTransactionWeight e.tx).sum := by
  induction package generalizing b with
  | nil => exact ⟨(append_nil _).symm, rfl⟩
  | cons e package ih =>
    obtain ⟨hin, hweight⟩ := ih (b.addToBlock e)
    constructor
    · rw [foldl_cons, hin]
      exact append_assoc b.inBlock [e] package
    · rw [foldl_cons, hweight, map_cons, sum_cons]
      show b.nBlockWeight + getTransactionWeight e.tx + _ = _
      omega

/-- A package is added only if it fits. -/
theorem Assembly.Counted.addPackage {b : Assembly} (h : b.Counted) (tip : Tip) (pool : Mempool)
    (e : MempoolEntry) : (b.addPackage c o tip pool e).Counted := by
  unfold Assembly.addPackage
  split
  · exact h
  dsimp only
  split
  · exact h
  next htest =>
    split
    · exact h
    -- The order within the package does not change its weight.
    have hperm := (b.package c pool e).perm_insertionSort fun a b => compareByAncestorCount c pool a b
    have hsum := (hperm.map fun e => getTransactionWeight e.tx).sum_eq
    obtain ⟨hin, hweight⟩ := foldl_addToBlock
      ((b.package c pool e).insertionSort fun a b => compareByAncestorCount c pool a b) b
    have hold := h.weight
    refine ⟨?_, ?_⟩
    · rw [hweight, hin, map_append, sum_append, hold]
      omega
    have hsize := sum_weight_le_txSize o (b.package c pool e)
    have hmax := nBlockMaxWeight_le o
    rw [Bool.not_eq_true', Bool.not_eq_false, Assembly.testPackage, Bool.and_eq_true,
      decide_eq_true_eq] at htest
    rw [hweight, hsum]
    omega

/-- The transactions of a template leave 20000 units of the weight of a block. -/
theorem addPackageTxs_weight (tip : Tip) (pool : Mempool) (order : List MempoolEntry) :
    (((addPackageTxs c o tip pool order).inBlock.map MempoolEntry.tx).map
      getTransactionWeight).sum + 20000 < MAX_BLOCK_WEIGHT := by
  have hcounted : ∀ (es : List MempoolEntry) (b : Assembly), b.Counted →
      (es.foldl (Assembly.addPackage c o tip pool) b).Counted := by
    intro es
    induction es with
    | nil => exact fun b h => h
    | cons e es ih => exact fun b h => ih _ (h.addPackage c o tip pool e)
  have hempty : 4000 < DEFAULT_BLOCK_MAX_WEIGHT := by
    unfold DEFAULT_BLOCK_MAX_WEIGHT MAX_BLOCK_WEIGHT
    omega
  have h := hcounted (order.filter (· ∈ pool)) {} ⟨rfl, hempty⟩
  have hweight := h.weight
  have hlimit := h.limit
  have hlist : (((addPackageTxs c o tip pool order).inBlock.map MempoolEntry.tx).map
      getTransactionWeight) =
      (addPackageTxs c o tip pool order).inBlock.map fun e => getTransactionWeight e.tx := by
    rw [map_map]
    rfl
  rw [hlist]
  unfold addPackageTxs
  rw [hweight] at hlimit
  unfold DEFAULT_BLOCK_MAX_WEIGHT MAX_BLOCK_WEIGHT at hlimit
  unfold MAX_BLOCK_WEIGHT
  omega

end Assemble

/-! ### The coinbase of a template -/

/-- A positive `int` needs no sign byte after four bytes. -/
theorem length_serializeNum_height (hpos : n ≠ 0) (h : n < 2 ^ 31) :
    (serializeNum n).length ≤ 4 := by
  have hlog : n.log2 < 31 := (Nat.log2_lt hpos).mpr h
  have habs : (n : Int).natAbs = n := Int.natAbs_natCast n
  unfold serializeNum
  dsimp only
  rw [habs]
  split
  · decide
  split
  next htop =>
    rw [length_append, length_leBytes, length_singleton]
    by_cases hshort : n.log2 / 8 + 1 ≤ 3
    · omega
    -- The highest of four bytes is below 0x80.
    have hfour : n.log2 / 8 + 1 = 4 := by omega
    rw [hfour] at htop
    have hlast : (leBytes 4 n).getLastD 0 = ofNat (n / 256 / 256 / 256) := rfl
    rw [hlast, le_iff_toNat_le, toNat_ofNat'] at htop
    have htop' : 128 ≤ n / 256 / 256 / 256 % 2 ^ 8 := htop
    omega
  split
  · omega
  · rw [length_leBytes]
    omega

theorem length_pushHeight (h : n < 2 ^ 31) : (pushHeight n).length ≤ 5 := by
  unfold pushHeight
  split
  · decide
  split
  · rw [length_singleton]
    decide
  next hpos _ =>
    have hnum := length_serializeNum_height hpos h
    rw [pushBytes, if_pos (by omega), length_cons]
    omega

theorem length_serBytes_small {bs : Bytes} (h : bs.length < 253) :
    (serBytes bs).length = bs.length + 1 := by
  rw [serBytes, length_append, length_writeCompactSize_small h, Nat.add_comm]

variable (params : Params) {scriptPubKeyIn : Script}

/-- The size of a coinbase before its commitment. -/
theorem length_newCoinbase {tip : Tip} (nFees : Int) (hheight : tip.nextHeight < 2 ^ 31)
    (hscript : scriptPubKeyIn.length ≤ 66) :
    (newCoinbase params tip scriptPubKeyIn nFees).serializeNoWitness.length ≤ 132 := by
  have hpush := length_pushHeight hheight
  have hsig : (pushHeight tip.nextHeight ++ [OP_0]).length ≤ 6 := by
    rw [length_append, length_singleton]
    omega
  have hin : (serBytes (pushHeight tip.nextHeight ++ [OP_0])).length ≤ 7 := by
    rw [length_serBytes_small (by omega)]
    omega
  have hout : (serBytes scriptPubKeyIn).length ≤ 67 := by
    rw [length_serBytes_small (by omega)]
    omega
  have hone := length_writeCompactSize_small (show 1 < 253 by omega)
  simp only [serializeNoWitness, newCoinbase, length_append, length_serVector,
    length_singleton, map_singleton, sum_singleton, hone, TxIn.serialize,
    TxOut.serialize, OutPoint.serialize, serI32, serU32, serI64, length_leBytes, Blob.length_data]
  omega

/-- The commitment is an output of 47 bytes. -/
theorem length_witnessCommitment (block : Block) :
    (witnessCommitment c block).serialize.length = 47 := by
  have hscript : (witnessCommitment c block).scriptPubKey.length = 38 := by
    show (_ ++ (c.hash256 _).data).length = 38
    rw [length_append, Blob.length_data]
    rfl
  rw [TxOut.serialize, length_append, length_serBytes_small (by omega), hscript, serI64,
    length_leBytes]

theorem witnessSize_coinbase (hvin : cb.vin = [i]) :
    cb.witnessSize ≤ 2 + (serVector serBytes i.scriptWitness).length := by
  unfold witnessSize
  rw [hvin, map_singleton, sum_singleton]
  split <;> omega

/-- A new witness is no part of the size without it. -/
theorem length_serializeNoWitness_witness (hvin : cb.vin = [i]) (witness : List Bytes) :
    ({ cb with vin := cb.vin.modifyHead fun i =>
      { i with scriptWitness := witness } } : Transaction).serializeNoWitness =
        cb.serializeNoWitness := by
  unfold serializeNoWitness
  rw [hvin]
  rfl

/-- The coinbase of a template with its commitment and its witness. -/
theorem weight_generateCoinbaseCommitment (tip : Tip) {block : Block} {out : TxOut}
    (hvtx : block.vtx = cb :: txs) (hvin : cb.vin = [i]) (hwitness : i.scriptWitness = [])
    (hvout : cb.vout = [out]) (hsize : cb.serializeNoWitness.length ≤ 132) :
    ∃ cb', (generateCoinbaseCommitment c params tip block).vtx = cb' :: txs ∧
      getTransactionWeight cb' ≤ 752 := by
  -- With the output or without it, the coinbase has the one input.
  have hadded : ∃ cb', (if (getWitnessCommitmentIndex block).isNone then
      block.mapCoinbase fun cb => { cb with vout := cb.vout ++ [witnessCommitment c block] }
      else block).vtx = cb' :: txs ∧ cb'.vin = [i] ∧ cb'.serializeNoWitness.length ≤ 179 := by
    split
    · refine ⟨_, Block.mapCoinbase_vtx hvtx, hvin, ?_⟩
      rw [length_serializeNoWitness_append (by simp [hvout]), map_singleton,
        sum_singleton, length_witnessCommitment]
      omega
    · exact ⟨cb, hvtx, hvin, by omega⟩
  obtain ⟨cb', hvtx', hvin', hsize'⟩ := hadded
  unfold generateCoinbaseCommitment
  generalize (if (getWitnessCommitmentIndex block).isNone then _ else block) = added at hvtx' ⊢
  unfold updateUncommittedBlockStructures
  split
  · refine ⟨_, Block.mapCoinbase_vtx hvtx', ?_⟩
    have hnonce : (serVector serBytes [List.replicate 32 (0 : UInt8)]).length = 34 := rfl
    have hlen := witnessSize_coinbase (i := { i with scriptWitness := [List.replicate 32 0] })
      (show ({ cb' with vin := cb'.vin.modifyHead fun i =>
        { i with scriptWitness := [List.replicate 32 0] } } : Transaction).vin = [_] by
          rw [hvin']; rfl)
    rw [getTransactionWeight_eq, length_serializeNoWitness_witness hvin']
    rw [hnonce] at hlen
    omega
  · have hlen := witnessSize_coinbase hvin'
    have hnone : (serVector serBytes i.scriptWitness).length = 1 := by
      rw [hwitness]
      rfl
    rw [hnone] at hlen
    exact ⟨cb', hvtx', by rw [getTransactionWeight_eq]; omega⟩

/-! ### The weight of a template -/

theorem length_writeCompactSize_le (h : n ≤ 0xffffffff) :
    (writeCompactSize n).length ≤ 5 := by
  unfold writeCompactSize
  split
  · rw [length_singleton]
    omega
  split
  · rw [length_cons, length_leBytes]
    omega
  · rw [length_cons, length_leBytes]

/-- A transaction weighs something. -/
theorem getTransactionWeight_pos : 1 ≤ getTransactionWeight tx := by
  have hversion : 4 ≤ tx.serializeNoWitness.length := by
    rw [serializeNoWitness, length_append, serI32, length_leBytes]
    omega
  rw [getTransactionWeight_eq]
  omega

/-- The heaviest template. -/
theorem getBlockWeight_newBlock (o : AssemblerOptions) (env : AssemblerEnv) {tip : Tip}
    (pool : Mempool) (hheight : tip.nextHeight < 2 ^ 31) (hscript : scriptPubKeyIn.length ≤ 66) :
    getBlockWeight (newBlock c params o env tip pool scriptPubKeyIn) ≤ 15981363 := by
  have htxs := addPackageTxs_weight c o tip pool env.order
  obtain ⟨cb, hvtx, hcb⟩ : ∃ cb, (newBlock c params o env tip pool scriptPubKeyIn).vtx =
      cb :: (addPackageTxs c o tip pool env.order).inBlock.map MempoolEntry.tx ∧
        getTransactionWeight cb ≤ 752 :=
    weight_generateCoinbaseCommitment c params tip rfl rfl rfl rfl
      (length_newCoinbase params _ hheight hscript)
  generalize (addPackageTxs c o tip pool env.order).inBlock.map MempoolEntry.tx = txs at htxs hvtx
  unfold MAX_BLOCK_WEIGHT at htxs
  -- There are at most as many transactions as units.
  have hcount : txs.length ≤ (txs.map getTransactionWeight).sum := by
    have h := length_le_sum_of_one_le (txs.map getTransactionWeight) fun w hw => by
      obtain ⟨tx, -, rfl⟩ := mem_map.mp hw
      exact getTransactionWeight_pos tx
    rwa [length_map] at h
  have hsize := length_writeCompactSize_le (show txs.length + 1 ≤ 0xffffffff by omega)
  rw [getBlockWeight_eq_sum, hvtx, length_cons, map_cons, sum_cons]
  omega

end AssentianPQE
