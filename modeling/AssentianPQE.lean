import AssentianPQE.Proofs.CoinbaseLeaf
import AssentianPQE.Proofs.HeaderRoot
import AssentianPQE.Proofs.SignOpenBuffers
import AssentianPQE.Proofs.Reconnect
import AssentianPQE.Proofs.LeafOrder
import AssentianPQE.Proofs.Verdicts
import AssentianPQE.Proofs.CaptureExact
import AssentianPQE.Proofs.RestoredWallet
import AssentianPQE.Proofs.HeaderBuffer
import AssentianPQE.Proofs.ChainId
import AssentianPQE.Proofs.OneTimeKeys
import AssentianPQE.Proofs.CreateTransaction
import AssentianPQE.Proofs.Supply
import AssentianPQE.Proofs.LockedExport
import AssentianPQE.Proofs.AtRest
import AssentianPQE.Proofs.Custody
import AssentianPQE.Proofs.RequiredBits
import AssentianPQE.Proofs.IssuedKeys
import AssentianPQE.Proofs.MinedWeight
import AssentianPQE.Proofs.MempoolLeaves
import AssentianPQE.Proofs.KeyPool
import AssentianPQE.Proofs.TreeBuilds
import AssentianPQE.Proofs.SeedBinding
import AssentianPQE.Proofs.BurnedIndex
import AssentianPQE.Proofs.KeyBuffers
import AssentianPQE.Proofs.SignerRoundTrip
import AssentianPQE.Proofs.StandardSpends
