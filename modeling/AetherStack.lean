import AetherStack.Guarantees.AmProbe
import AetherStack.Guarantees.AmAckSafety
import AetherStack.Guarantees.PdcpIntegrity
import AetherStack.Guarantees.HarqDelivery
import AetherStack.Guarantees.PdcpNonce
import AetherStack.Guarantees.RlcInputs
import AetherStack.Guarantees.Registration
import AetherStack.Guarantees.KeyAgreement
import AetherStack.Guarantees.HandoverIsolation
import AetherStack.Guarantees.UmLongRun
import AetherStack.Guarantees.UmOrder
import AetherStack.Guarantees.DialogKeys
import AetherStack.Guarantees.CallAgreement
import AetherStack.Guarantees.UplinkParking
import AetherStack.Guarantees.HarqReceiver
import AetherStack.Guarantees.RandomAccess
import AetherStack.Guarantees.CrntiRanges
import AetherStack.Guarantees.ForeignFrames
import AetherStack.Guarantees.DetachResidue
import AetherStack.Guarantees.HandoverRecord
import AetherStack.Guarantees.XnRetry
import AetherStack.Guarantees.ResumeIdentity
import AetherStack.Guarantees.ResumeState
import AetherStack.Guarantees.AmfHygiene
import AetherStack.Guarantees.MalformedPdu
import AetherStack.Guarantees.AkaCompleteness
import AetherStack.Guarantees.RegistrarMirror
import AetherStack.Guarantees.MessageBounds
import AetherStack.Guarantees.RachGuard
import AetherStack.Guarantees.GuardTimers
import AetherStack.Guarantees.SuspendConsistency
import AetherStack.Guarantees.AirInterface
import AetherStack.Guarantees.ReceiverWindow
import AetherStack.Guarantees.ConferenceTable
import AetherStack.Guarantees.AmTimeout
import AetherStack.Guarantees.AmRecovery
import AetherStack.Guarantees.AmStatusReport
import AetherStack.Guarantees.ClockOffset
import AetherStack.Guarantees.ConferenceIds
import AetherStack.Guarantees.GrayMapping
import AetherStack.Guarantees.FecDecoding
import AetherStack.Guarantees.CrcBursts
import AetherStack.Guarantees.SoftMemory
import AetherStack.Guarantees.HarqBudget
import AetherStack.Guarantees.AmUnblocking
import AetherStack.Guarantees.UmTimeout
import AetherStack.Guarantees.TimerExactness
import AetherStack.Guarantees.BearerScheduler
import AetherStack.Guarantees.MacCodec
import AetherStack.Guarantees.U2uCodec
import AetherStack.Guarantees.PingAliasing
import AetherStack.Guarantees.PdcpRoundTrip
import AetherStack.Guarantees.Sha256Streaming
import AetherStack.Guarantees.MediaAcks
import AetherStack.Guarantees.HandoverTransfer
import AetherStack.Guarantees.UserAnchor
import AetherStack.Guarantees.Subcarriers
import AetherStack.Guarantees.BurstChannel
import AetherStack.Guarantees.AttachFrames
import AetherStack.Guarantees.StackAttach
import AetherStack.Guarantees.UePlane
