import CtAgent.Lib.Run
import CtAgent.Lib.Semaphore
import CtAgent.Lib.Bytes
import CtAgent.Lib.Text
import CtAgent.Lib.Reader
import CtAgent.Lib.Substring
import CtAgent.Lib.FileSys
import CtAgent.Lib.NetAddr
import CtAgent.Lib.Scan
import CtAgent.Lib.Lines
import CtAgent.Lib.Lossy
import CtAgent.Lib.Source
import CtAgent.Lib.Cursor
import CtAgent.Lib.Transcript
import CtAgent.Codec
import CtAgent.Capability
import CtAgent.SecretFile
import CtAgent.LocalAuth.Links
import CtAgent.LocalAuth.LinkRuns
import CtAgent.LocalAuth.LinkInv
import CtAgent.LocalAuth.LinkHistory
import CtAgent.LocalAuth.ShareLinks
import CtAgent.LocalAuth.SharedFile
import CtAgent.Forward.Wire
import CtAgent.Forward.FrameCodec
import CtAgent.Forward.SessionWindow
import CtAgent.Forward.Pump
import CtAgent.Forward.PumpMoves
import CtAgent.Forward.Engine
import CtAgent.Forward.EngineTables
import CtAgent.Forward.View
import CtAgent.Forward.EngineShape
import CtAgent.Forward.Pair
import CtAgent.Forward.Lane
import CtAgent.Forward.LaneCredit
import CtAgent.Forward.SessionUse
import CtAgent.Forward.SessionTraffic
import CtAgent.Forward.Queues
import CtAgent.Forward.PairWindow
import CtAgent.Forward.PairCredited
import CtAgent.Forward.Sessions
import CtAgent.Forward.Honest
import CtAgent.Forward.Script
import CtAgent.Forward.Feed
import CtAgent.Forward.LaneBytes
import CtAgent.Forward.LaneExact
import CtAgent.Forward.LaneWhole
import CtAgent.Forward.Transparent
import CtAgent.Forward.NoLeak
import CtAgent.Forward.Policy
import CtAgent.Forward.Readable
import CtAgent.Forward.Reconnect
import CtAgent.Channel.PeerGrant
import CtAgent.Channel.PeerGrantRuns
import CtAgent.Channel.PeerGrantInv
import CtAgent.Channel.PeerGrantSafety
import CtAgent.Channel.PeerGrantPair
import CtAgent.Channel.GrantWatch
import CtAgent.Channel.PeerPin
import CtAgent.Channel.Join
import CtAgent.Channel.JoinPin
import CtAgent.Admission.Errors
import CtAgent.Admission.Ladder
import CtAgent.Admission.ServeLoop
import CtAgent.Admission.OneShot
import CtAgent.Channel.RelayFraming
import CtAgent.Channel.RelayLeg
import CtAgent.Channel.AcceptRace
import CtAgent.Channel.AcceptRaceSafety
import CtAgent.OriginKey
import CtAgent.OriginKeyRuns
import CtAgent.SelfUpdate
import CtAgent.SelfUpdateSafety
import CtAgent.UpdateVersions
import CtAgent.Dns01Authoritative
import CtAgent.Dns01Verdict
import CtAgent.AcmeClient
import CtAgent.AcmeIssued
import CtAgent.Redact
import CtAgent.RedactShapes
import CtAgent.RedactSuffix
import CtAgent.RedactText
import CtAgent.RedactRest
import CtAgent.RedactPlain
import CtAgent.RedactCut
import CtAgent.RedactFound
import CtAgent.RedactIdempotent
import CtAgent.PeerTail
import CtAgent.ServiceCalls
import CtAgent.Serve.Revocation
import CtAgent.Serve.Registration
import CtAgent.Serve.FallbackWorker
import CtAgent.Serve.RefusalNoticed
import CtAgent.Serve.FallbackPool
import CtAgent.Serve.HandOver
import CtAgent.Serve.OriginDial
import CtAgent.Serve.ParkPhase
import CtAgent.Serve.OwnerAuth
import CtAgent.Serve.NoiseRelay
import CtAgent.Serve.OwnerGate
import CtAgent.Serve.FramedRelay
import CtAgent.Serve.PeerVerdict
import CtAgent.Serve.FramedUp
import CtAgent.Serve.FramedDown
import CtAgent.Serve.FramedEnd
import CtAgent.Serve.FramedIntegrity
import CtAgent.SuperPeer
import CtAgent.Supervisor
import CtAgent.Onboard
import CtAgent.OnboardBoots
import CtAgent.AcmeRenew
import CtAgent.AcmeRenewRuns
import CtAgent.EventRing
import CtAgent.Signal
import CtAgent.Masque.Inbound
import CtAgent.Forward.Target
import CtAgent.LocalAuth.Lockout
import CtAgent.Serve.TlsSniff
import CtAgent.Serve.Terminator
import CtAgent.SshAccess
import CtAgent.SshStanza
import CtAgent.Wasm.Hex
import CtAgent.Transport.ClientConfigMemo
import CtAgent.Channel.PinParse
import CtAgent.LocalAuth.BasicAuth
import CtAgent.LocalAuth.LinkRedirect
import CtAgent.RegistryUrl
import CtAgent.AcmeRetry
import CtAgent.Channel.DcutrLoop
import CtAgent.Channel.DcutrStops
import CtAgent.Channel.JoinAddr
import CtAgent.Channel.ShutdownDrain
import CtAgent.Lib.History
import CtAgent.Serve.DirectSlots
import CtAgent.LoginRuns
import CtAgent.LoginRetry
import CtAgent.Channel.Readiness
import CtAgent.Lib.WindowLimit
import CtAgent.Events
