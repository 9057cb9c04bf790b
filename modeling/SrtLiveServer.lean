import SrtLiveServer.Transition
import SrtLiveServer.Circular
import SrtLiveServer.RecycleArray
import SrtLiveServer.RingReaders
import SrtLiveServer.RingInterleaving
import SrtLiveServer.Trace
import SrtLiveServer.Bytes
import SrtLiveServer.Common
import SrtLiveServer.StreamId
import SrtLiveServer.PlayerKeyGate
import SrtLiveServer.RingOwnership
import SrtLiveServer.PushUrl
import SrtLiveServer.RelayUrl
import SrtLiveServer.PusherManager
import SrtLiveServer.VettedDial
import SrtLiveServer.PushRetry
import SrtLiveServer.PlayerRegistry
import SrtLiveServer.PublisherAuth
import SrtLiveServer.PublisherSessions
import SrtLiveServer.StreamTakeover
import SrtLiveServer.WriteOnce
import SrtLiveServer.AppRouting
import SrtLiveServer.StreamRouting
import SrtLiveServer.ServerStart
import SrtLiveServer.ConfReload
import SrtLiveServer.ConfTree
import SrtLiveServer.ConfPlacement
import SrtLiveServer.MapData
import SrtLiveServer.Egress
import SrtLiveServer.EmulationPrevention
import SrtLiveServer.StreamKeys
import SrtLiveServer.PlayerAccept
import SrtLiveServer.PlayerKeyCache
import SrtLiveServer.ListenerSockets
import SrtLiveServer.PushTeardown
import SrtLiveServer.ReconnectRound
import SrtLiveServer.PushAddress
import SrtLiveServer.ConfBraces
import SrtLiveServer.AuthRejectCache
import SrtLiveServer.SidKey
import SrtLiveServer.IpAcl
import SrtLiveServer.PushLegs
import SrtLiveServer.PushTarget
import SrtLiveServer.TimecodeRoundTrip
import SrtLiveServer.TimecodeSafety
import SrtLiveServer.TimecodeFraming
import SrtLiveServer.TimecodeKeyUnit
import SrtLiveServer.TimecodeSps
import SrtLiveServer.SlidingWindow
import SrtLiveServer.BitrateLimit
import SrtLiveServer.RingSizing
import SrtLiveServer.CloseNotification
import SrtLiveServer.DynamicPusher
import SrtLiveServer.ResolvedStreamId
import SrtLiveServer.PlayerKeyValidation
import SrtLiveServer.PlayerKeyRateLimit
import SrtLiveServer.PlayerKeyHistory
import SrtLiveServer.ApiKey
import SrtLiveServer.UpstreamRotation
import SrtLiveServer.UrlEncoding
import SrtLiveServer.BitReading
import SrtLiveServer.TsPacket
import SrtLiveServer.PesTimestamp
import SrtLiveServer.PatParsers
import SrtLiveServer.ProgramTables
import SrtLiveServer.SlsArray
import SrtLiveServer.PortList
import SrtLiveServer.Demultiplex
import SrtLiveServer.ContinuityCounter
import SrtLiveServer.RtsFile
import SrtLiveServer.ScalingLists
import SrtLiveServer.TimeWindows
import SrtLiveServer.LogRateLimiter
import SrtLiveServer.Custody
import SrtLiveServer.WorkerGroup
import SrtLiveServer.WorkerSockets
import SrtLiveServer.WorkerCustody
import SrtLiveServer.WorkerRuns
import SrtLiveServer.Projection
import SrtLiveServer.ViewerWatchdog
import SrtLiveServer.StreamChannels
import SrtLiveServer.StreamViewers
import SrtLiveServer.RtsStamps
import SrtLiveServer.RtsPlayout
import SrtLiveServer.ServerReload
import SrtLiveServer.WorkerDraining
import SrtLiveServer.ReloadDraining
import SrtLiveServer.ReloadSweeps
