import Mathlib.Algebra.BigOperators.Group.List.Basic
import AssentianPQE.Proofs.Serialize
import AssentianPQE.Validation.Block

/-!
# `AssentianPQE.Proofs.BlockSize`: the sizes of a block

A block has a size without witness data, a size with it, and a weight. The two sizes differ by
the bytes of the witness data (`Block.length_serializeWithWitness`), and the weight counts such
a byte once and any other byte four times (`getBlockWeight_eq`).
-/

set_option autoImplicit false

namespace AssentianPQE

open Lib List

/-- Every header has the same length. -/
theorem BlockHeader.length_serialize (h : BlockHeader) : h.serialize.length = 148 := by
  simp [BlockHeader.serialize, serU32, serI32, length_leBytes, Blob.length_data]

theorem length_serVector {α : Type} (ser : α → Bytes) (xs : List α) :
    (serVector ser xs).length =
      (writeCompactSize xs.length).length + (xs.map fun x => (ser x).length).sum := by
  rw [serVector, length_append, length_flatten, map_map]
  rfl

/-- The bytes that witness data adds to a transaction: the marker, the flag and a stack for
each input. -/
def Transaction.witnessSize (tx : Transaction) : Nat :=
  if tx.hasWitness then 2 + (tx.vin.map fun i => (serVector serBytes i.scriptWitness).length).sum
  else 0

/-- The bytes that witness data adds to a block. -/
def Block.witnessSize (block : Block) : Nat :=
  (block.vtx.map Transaction.witnessSize).sum

theorem Transaction.length_serializeWithWitness (tx : Transaction) :
    tx.serializeWithWitness.length = tx.serializeNoWitness.length + tx.witnessSize := by
  unfold Transaction.serializeWithWitness Transaction.witnessSize Transaction.serializeNoWitness
  split
  · simp only [length_append, length_flatten, map_map, length_cons,
      length_nil, Function.comp_def]
    omega
  · rfl

theorem Block.length_serializeWithWitness (block : Block) :
    block.serializeWithWitness.length = block.serializeNoWitness.length + block.witnessSize := by
  have hsum : (block.vtx.map fun tx => tx.serializeWithWitness.length).sum =
      (block.vtx.map fun tx => tx.serializeNoWitness.length).sum + block.witnessSize := by
    simp only [Transaction.length_serializeWithWitness, sum_map_add, Block.witnessSize]
  simp only [Block.serializeWithWitness, Block.serializeNoWitness, length_append,
    length_serVector, hsum]
  omega

/-- A byte of witness data weighs one unit, any other byte four. -/
theorem getBlockWeight_eq (block : Block) :
    getBlockWeight block = 4 * block.serializeNoWitness.length + block.witnessSize := by
  rw [getBlockWeight, block.length_serializeWithWitness, WITNESS_SCALE_FACTOR]
  omega

end AssentianPQE
