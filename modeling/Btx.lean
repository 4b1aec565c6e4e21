import Btx.Validation.Supply
import Btx.Validation.ConfirmedStore
import Btx.Shielded.MerkleSoundness
import Btx.Validation.VelocityRebuild
import Btx.Validation.AutoRepair
import Btx.Validation.ForkAgreement
import Btx.Pow.AsertRescales
import Btx.Pow.BlockTime
import Btx.Matmul.Freivalds
import Btx.Node.RCAdmissionRun
import Btx.Node.BlockLifecycleRelease
import Btx.Node.LocalSigner
import Btx.Matmul.SchedulerLedger
import Btx.Script.P2MR
import Btx.Smile2.Balance
import Btx.Shielded.NullifierCommitment
import Btx.Shielded.MerkleBatch
import Btx.Shielded.Collectors
import Btx.Matmul.ExactFloat
import Btx.Pow.AsertMonotone
import Btx.Pow.CreditTree
import Btx.Matmul.MantissaAgreement
import Btx.Node.AttestationLog
import Btx.Shielded.RingExclusion
import Btx.Matmul.Goldilocks
import Btx.Matmul.BlockedProduct
