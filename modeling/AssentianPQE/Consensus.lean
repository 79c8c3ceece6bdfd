import AssentianPQE.Lib.Merkle
import AssentianPQE.Script.Script

/-!
# `AssentianPQE.Consensus`: consensus parameters, targets and Merkle roots

`Consensus::Params` (`consensus/params.h`) with the fields the modelled checks read, the
compact encoding of targets (`arith_uint256.cpp`), the header proof-of-work test
(`pow.cpp`) and the Merkle roots of a block (`consensus/merkle.cpp`).

Heights are `int` in the source and `Int` here: `-1` stands for an unknown height.
-/

set_option autoImplicit false

namespace AssentianPQE

open Lib

/-- `Consensus::Params`. The defaults are those of the source: a height of
`std::numeric_limits<int>::max()` disables a rule. -/
structure Params where
  hashGenesisBlock : Uint256
  nSubsidyHalvingInterval : Int
  /-- `script_flag_exceptions`: the script flags of an exempt block. -/
  scriptFlagExceptions : Uint256 → Option ScriptFlags := fun _ => none
  BIP34Height : Int
  BIP34Hash : Uint256
  BIP65Height : Int
  BIP66Height : Int
  CSVHeight : Int
  SegwitHeight : Int
  powLimit : Uint256
  fPowAllowMinDifficultyBlocks : Bool
  fPowNoRetargeting : Bool
  nPowTargetSpacing : Int
  nMinimumChainWork : Nat := 0
  fPoUW : Bool := false
  nPoUWStartHeight : Int := 0
  nPoUWv2StartHeight : Int := 1
  nPoUWv3StartHeight : Int := 2147483647
  nPoUWLeafReuseActivation : Int := 2147483647
  nXMSSSpendLeafReuseActivation : Int := 2147483647
  nPoUWFSLSeedVerifyHeight : Int := 2147483647
  nPoUWStuckRecoveryHardenHeight : Int := 2147483647
  nPoUWTieredStuckRecoveryHeight : Int := 2147483647
  nPoUWDiffbitsGrandfatherHeight : Int := 0
  nPoUWDifficultyCeilingRaiseHeight : Int := 2147483647
  nPoUWDifficultyCeilingShift : Nat := 10
  nPoUWMaxSigSize : Nat := 4096
  nXMSSChainId : UInt32 := 1
  signet_blocks : Bool := false
  signet_challenge : Script := []

/-! ### Targets -/

/-- `arith_uint256::SetCompact`: the target, and the `fNegative` and `fOverflow` flags. -/
structure Compact where
  target : Nat
  fNegative : Bool
  fOverflow : Bool
deriving DecidableEq

/-- `arith_uint256::SetCompact`. The shift drops what does not fit in 256 bits. -/
def setCompact (nCompact : UInt32) : Compact :=
  let nSize := nCompact.toNat / 2 ^ 24
  let nMantissa := nCompact.toNat % 2 ^ 23
  let nWord := if nSize ≤ 3 then nMantissa / 2 ^ (8 * (3 - nSize)) else nMantissa
  { target := if nSize ≤ 3 then nWord else nWord * 2 ^ (8 * (nSize - 3)) % 2 ^ 256
    fNegative := nWord ≠ 0 ∧ nCompact.toNat / 2 ^ 23 % 2 = 1
    fOverflow := nWord ≠ 0 ∧ (34 < nSize ∨ (0xff < nWord ∧ 33 < nSize) ∨
      (0xffff < nWord ∧ 32 < nSize)) }

/-- `CheckProofOfWork`: `hash` is at most the target of `nBits`, which must be in range. -/
def checkProofOfWork (params : Params) (hash : Uint256) (nBits : UInt32) : Bool :=
  let c := setCompact nBits
  !(c.fNegative ∨ c.target = 0 ∨ c.fOverflow ∨ params.powLimit.toNat < c.target) &&
    decide (hash.toNat ≤ c.target)

/-! ### Merkle roots -/

/-- One inner node: the double SHA256 of two digests (`SHA256D64`). -/
def merkleNode (c : Crypto) (a b : Uint256) : Uint256 :=
  c.hash256 (a.data ++ b.data)

/-- `ComputeMerkleRoot`: the root and the `mutated` flag. -/
def computeMerkleRoot (c : Crypto) (hashes : List Uint256) : Uint256 × Bool :=
  let r := merkleLoop (merkleNode c) hashes.length hashes false
  (r.1.headD nullHash, r.2)

/-- `BlockMerkleRoot`. -/
def blockMerkleRoot (c : Crypto) (block : Block) : Uint256 × Bool :=
  computeMerkleRoot c (block.vtx.map (Transaction.getHash c))

/-- `BlockWitnessMerkleRoot`: the witness hash of the coinbase is null. -/
def blockWitnessMerkleRoot (c : Crypto) (block : Block) : Uint256 × Bool :=
  computeMerkleRoot c (nullHash :: (block.vtx.drop 1).map (Transaction.getWitnessHash c))

end AssentianPQE
