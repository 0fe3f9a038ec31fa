import KmControl.AdminConvergence
import KmControl.AdminView
import KmControl.Aes
import KmControl.AesDecrypt
import KmControl.AgentIdentity
import KmControl.AgentLoop
import KmControl.AgentRegistry
import KmControl.Alike
import KmControl.Answering
import KmControl.Atomics
import KmControl.AudioLoss
import KmControl.AudioRestart
import KmControl.AudioSpan
import KmControl.Backlog
import KmControl.Bitrate
import KmControl.BitrateBounds
import KmControl.BitrateDecision
import KmControl.BitrateSteps
import KmControl.Broadcast
import KmControl.BroadcastDebt
import KmControl.CaptureSetup
import KmControl.Certificates
import KmControl.CheckedBlocks
import KmControl.CheckedFrames
import KmControl.CheckedRuns
import KmControl.CheckedSafety
import KmControl.CheckedSteps
import KmControl.CheckedVideo
import KmControl.Chunks
import KmControl.CommandLeaks
import KmControl.CommandResults
import KmControl.CommandRouting
import KmControl.CommandSteps
import KmControl.ControlAuth
import KmControl.ControlChannel
import KmControl.ControlIvs
import KmControl.ControlLatency
import KmControl.ControlLink
import KmControl.ControlRoundTrip
import KmControl.ControlTraffic
import KmControl.ControlWire
import KmControl.Decimal
import KmControl.DeliveryOrder
import KmControl.Documents
import KmControl.EncodeLoops
import KmControl.ErasureCode
import KmControl.Exchange
import KmControl.FecPolls
import KmControl.FecReports
import KmControl.FecRs
import KmControl.ForcedIdr
import KmControl.FrameCounting
import KmControl.FrameDelivery
import KmControl.FrameLedger
import KmControl.FrameOutcomes
import KmControl.FrameTracking
import KmControl.FrameTraffic
import KmControl.GsProto
import KmControl.Handshake
import KmControl.Held
import KmControl.HostAudio
import KmControl.HostControl
import KmControl.HostPairing
import KmControl.HostRtsp
import KmControl.Hub
import KmControl.HubClient
import KmControl.HubSteps
import KmControl.InputOrder
import KmControl.Interleaving
import KmControl.IpLiteral
import KmControl.Jitter
import KmControl.KeyOwnership
import KmControl.Keyhook
import KmControl.KeyhookGate
import KmControl.KeyhookLines
import KmControl.KeyhookSettings
import KmControl.Laptops
import KmControl.Launch
import KmControl.LinkIntegrity
import KmControl.LockedData
import KmControl.LossPump
import KmControl.LossStats
import KmControl.Machine
import KmControl.MoonAudio
import KmControl.MoonControl
import KmControl.MoonPairing
import KmControl.MoonRtsp
import KmControl.MoonVideo
import KmControl.MoonVideoSteps
import KmControl.Negotiation
import KmControl.Observers
import KmControl.OnceOnly
import KmControl.PacketSize
import KmControl.Packetizer
import KmControl.PacketizerShards
import KmControl.PairedState
import KmControl.Pairing
import KmControl.PairingLink
import KmControl.PairingLog
import KmControl.PairingRun
import KmControl.Pem
import KmControl.PipelineLifecycle
import KmControl.PlayCeiling
import KmControl.Pointer
import KmControl.Readers
import KmControl.ReceiverLoop
import KmControl.Reconfigure
import KmControl.Recovery
import KmControl.RecoveryConverges
import KmControl.RecoveryRuns
import KmControl.RecoverySettles
import KmControl.Renumbering
import KmControl.Replace
import KmControl.RoundTrip
import KmControl.Rsa
import KmControl.RtspMessage
import KmControl.RtspReplies
import KmControl.RtspRoundTrip
import KmControl.RtspSegments
import KmControl.RttProbes
import KmControl.Sdp
import KmControl.SessionLock
import KmControl.Sha256
import KmControl.ShardReadings
import KmControl.SilentClient
import KmControl.SortedMap
import KmControl.SpsScan
import KmControl.StartSignal
import KmControl.SteadyLink
import KmControl.StopForwarding
import KmControl.StopRelease
import KmControl.StreamDelivery
import KmControl.StreamIntegrity
import KmControl.StreamStart
import KmControl.SupersededConn
import KmControl.VideoLink
import KmControl.VideoTask
import KmControl.VideoTaskSteps
import KmControl.ViewerGaps
import KmControl.Viewers
import KmControl.WireNumbering
import KmControl.XmlReader
