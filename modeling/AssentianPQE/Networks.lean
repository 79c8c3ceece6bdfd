import AssentianPQE.Consensus

/-!
# `AssentianPQE.Networks`: the parameters of the four networks

The consensus parameters that `kernel/chainparams.cpp` sets for the main network, the test
network, signet and regtest. The hash of the genesis block is an argument, since it depends on
the hash function. On signet the challenge and on regtest the heights of some rules can be
changed by options.
-/

set_option autoImplicit false

namespace AssentianPQE

open Lib

/-- `ChainType`. -/
inductive ChainType where
  | main
  | testnet
  | signet
  | regtest
deriving DecidableEq

/-- `Consensus::BuriedDeployment`. -/
inductive BuriedDeployment where
  | heightincb
  | cltv
  | dersig
  | csv
  | segwit
  | xmssspendleafreuse
deriving DecidableEq

/-- `SigNetOptions` and `RegTestOptions`. -/
structure ChainOptions where
  challenge : Option Script := none
  activation_heights : BuriedDeployment → Option Int := fun _ => none

/-- The challenge of the public signet. -/
def signetChallenge : Script :=
  [0x51, 0x21, 0x03, 0xad, 0x5e, 0x0e, 0xda, 0xd1, 0x8c, 0xb1, 0xf0, 0xfc, 0x0d, 0x28, 0xa3, 0xd4,
    0xf1, 0xf3, 0xe4, 0x45, 0x64, 0x03, 0x37, 0x48, 0x9a, 0xbb, 0x10, 0x40, 0x4f, 0x2d, 0x1e, 0x08,
    0x6b, 0xe4, 0x30, 0x21, 0x03, 0x59, 0xef, 0x50, 0x21, 0x96, 0x4f, 0xe2, 0x2d, 0x6f, 0x8e, 0x05,
    0xb2, 0x46, 0x3c, 0x95, 0x40, 0xce, 0x96, 0x88, 0x3f, 0xe3, 0xb2, 0x78, 0x76, 0x0f, 0x04, 0x8f,
    0x51, 0x89, 0xf2, 0xe6, 0xc4, 0x52, 0xae]

/-- `CMainParams`. -/
def mainParams (hashGenesisBlock : Uint256) : Params where
  hashGenesisBlock := hashGenesisBlock
  nSubsidyHalvingInterval := 2100000
  BIP34Height := 1
  BIP34Hash := nullHash
  BIP65Height := 1
  BIP66Height := 1
  CSVHeight := 1
  SegwitHeight := 0
  powLimit := Blob.ofNat 32 (0x01a41a * 256 ^ 29)
  fPowAllowMinDifficultyBlocks := false
  fPowNoRetargeting := false
  nPowTargetSpacing := 60
  nMinimumChainWork := 0x38ab4
  fPoUW := true
  nPoUWStartHeight := 1
  nPoUWv2StartHeight := 1
  nPoUWv3StartHeight := 200
  nPoUWLeafReuseActivation := 1000
  nXMSSSpendLeafReuseActivation := 200000
  nPoUWFSLSeedVerifyHeight := 3000
  nPoUWStuckRecoveryHardenHeight := 4400
  nPoUWTieredStuckRecoveryHeight := 49500
  nPoUWDiffbitsGrandfatherHeight := 300
  nPoUWDifficultyCeilingRaiseHeight := 186000
  nPoUWDifficultyCeilingShift := 40
  nPoUWMaxSigSize := 4096
  nXMSSChainId := 1

/-- `CTestNetParams`. -/
def testNetParams (hashGenesisBlock : Uint256) : Params where
  hashGenesisBlock := hashGenesisBlock
  nSubsidyHalvingInterval := 2100000
  BIP34Height := 1
  BIP34Hash := nullHash
  BIP65Height := 1
  BIP66Height := 1
  CSVHeight := 1
  SegwitHeight := 0
  powLimit := Blob.ofNat 32 (2 ^ 255 - 1)
  fPowAllowMinDifficultyBlocks := true
  fPowNoRetargeting := false
  nPowTargetSpacing := 60
  nMinimumChainWork := 0x31006
  fPoUW := true
  nPoUWStartHeight := 1
  nPoUWv2StartHeight := 1
  nPoUWv3StartHeight := 200
  nPoUWLeafReuseActivation := 200
  nPoUWFSLSeedVerifyHeight := 200
  nPoUWStuckRecoveryHardenHeight := 200
  nPoUWTieredStuckRecoveryHeight := 210
  nPoUWDifficultyCeilingRaiseHeight := 220
  nPoUWDifficultyCeilingShift := 40
  nPoUWMaxSigSize := 4096
  nXMSSChainId := 2

/-- `SigNetParams`. -/
def sigNetParams (hashGenesisBlock : Uint256) (options : ChainOptions) : Params where
  hashGenesisBlock := hashGenesisBlock
  nSubsidyHalvingInterval := 2100000
  BIP34Height := 1
  BIP34Hash := nullHash
  BIP65Height := 1
  BIP66Height := 1
  CSVHeight := 1
  SegwitHeight := 0
  powLimit := Blob.ofNat 32 (0x377ae * 256 ^ 27)
  fPowAllowMinDifficultyBlocks := false
  fPowNoRetargeting := false
  nPowTargetSpacing := 60
  fPoUW := true
  nPoUWStartHeight := 1
  nPoUWv2StartHeight := 1
  nPoUWv3StartHeight := 1
  nPoUWMaxSigSize := 4096
  nXMSSChainId := 3
  signet_blocks := true
  signet_challenge := options.challenge.getD signetChallenge

/-- `CRegTestParams`. -/
def regTestParams (hashGenesisBlock : Uint256) (options : ChainOptions) : Params where
  hashGenesisBlock := hashGenesisBlock
  nSubsidyHalvingInterval := 150
  BIP34Height := (options.activation_heights .heightincb).getD 1
  BIP34Hash := nullHash
  BIP65Height := (options.activation_heights .cltv).getD 1
  BIP66Height := (options.activation_heights .dersig).getD 1
  CSVHeight := (options.activation_heights .csv).getD 1
  SegwitHeight := (options.activation_heights .segwit).getD 0
  powLimit := Blob.ofNat 32 (2 ^ 255 - 1)
  fPowAllowMinDifficultyBlocks := true
  fPowNoRetargeting := true
  nPowTargetSpacing := 60
  fPoUW := true
  nPoUWStartHeight := 1
  nPoUWv2StartHeight := 1
  nPoUWv3StartHeight := 1
  nXMSSSpendLeafReuseActivation :=
    (options.activation_heights .xmssspendleafreuse).getD 2147483647
  nPoUWFSLSeedVerifyHeight := 1
  nPoUWStuckRecoveryHardenHeight := 1
  nPoUWTieredStuckRecoveryHeight := 1
  nPoUWDifficultyCeilingRaiseHeight := 1
  nPoUWDifficultyCeilingShift := 40
  nPoUWMaxSigSize := 4096
  nXMSSChainId := 4

/-- `CreateChainParams`: the consensus parameters of a network. -/
def chainParams (hashGenesisBlock : Uint256) (options : ChainOptions) : ChainType → Params
  | .main => mainParams hashGenesisBlock
  | .testnet => testNetParams hashGenesisBlock
  | .signet => sigNetParams hashGenesisBlock options
  | .regtest => regTestParams hashGenesisBlock options

/-- `nBits` of the genesis block. -/
def genesisBits : ChainType → UInt32
  | .main => 0x2001a41a
  | .testnet => 0x207fffff
  | .signet => 0x1e0377ae
  | .regtest => 0x207fffff

theorem chainParams_hashGenesisBlock (hashGenesisBlock : Uint256) (options : ChainOptions)
    (net : ChainType) :
    (chainParams hashGenesisBlock options net).hashGenesisBlock = hashGenesisBlock := by
  cases net <;> rfl

end AssentianPQE
