import Triskelion.UserHandles
import Triskelion.ExactlyOnceDelivery
import Triskelion.SentTracking
import Triskelion.KeyHandles
import Triskelion.RegistryRestart
import Triskelion.Linger
import Triskelion.InflightFds
import Triskelion.Isolation
import Triskelion.SingleOwnership
import Triskelion.PipePairing
import Triskelion.AsyncReads
import Triskelion.InfiniteWaits
import Triskelion.ApcDelivery
import Triskelion.PipeWaiters
import Triskelion.CompletionIsolation
import Triskelion.ObjectIdentity
import Triskelion.NamedSync
import Triskelion.Suspension
import Triskelion.StartupInfo
import Triskelion.ProcessClaims
import Triskelion.InfoHandles
import Triskelion.DescriptorHandover
import Triskelion.HandleDuplication
import Triskelion.WindowClasses
import Triskelion.LiveParents
import Triskelion.SharedRing
import Triskelion.RegistryNotify
import Triskelion.Relay
import Triskelion.MessageReplies
import Triskelion.KernelSync
import Triskelion.RegistryParsing
import Triskelion.WindowSiblings
import Triskelion.NextThread
import Triskelion.SubkeyEnumeration
import Triskelion.StubLearning
import Triskelion.PipeMonitoring
import Triskelion.SlabReuse
import Triskelion.TimeoutConversion
import Triskelion.TimedWaits
import Triskelion.KernelHandles
import Triskelion.TeardownComplete
