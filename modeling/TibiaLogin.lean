import TibiaLogin.MachineInt
import TibiaLogin.Memory
import TibiaLogin.ByteOrder
import TibiaLogin.Text
import TibiaLogin.Utf8
import TibiaLogin.Latin1
import TibiaLogin.Conversion
import TibiaLogin.Canonical
import TibiaLogin.BufferReader
import TibiaLogin.ReaderSafety
import TibiaLogin.Wire
import TibiaLogin.BufferWriter
import TibiaLogin.BoundedConversion
import TibiaLogin.WriterRefinement
import TibiaLogin.WireValues
import TibiaLogin.Xtea
import TibiaLogin.Query
import TibiaLogin.LoginQuery
import TibiaLogin.Connection
import TibiaLogin.LoginResponse
import TibiaLogin.LoginHandler
import TibiaLogin.Authorisation
import TibiaLogin.LoginGrammar
import TibiaLogin.LoginOutcome
import TibiaLogin.Noninterference
import TibiaLogin.LoginAgreement
import TibiaLogin.ResponseSize
import TibiaLogin.CredentialFlow
import TibiaLogin.CharacterList
import TibiaLogin.StatusRecords
import TibiaLogin.StatusLimit
import TibiaLogin.StatusRefusal
import TibiaLogin.Server
import TibiaLogin.WorldQuery
import TibiaLogin.ReplyCompleteness
import TibiaLogin.WorldSelection
import TibiaLogin.XmlBuilder
import TibiaLogin.XmlRefinement
import TibiaLogin.StatusDocument
import TibiaLogin.XmlAttribute
import TibiaLogin.EscapedText
import TibiaLogin.ReadConfig
import TibiaLogin.StringHash
import TibiaLogin.StatusHandler
import TibiaLogin.Motd
import TibiaLogin.CheckedTable
import TibiaLogin.TableIndices
import TibiaLogin.TableBounds
import TibiaLogin.TableRefinement
import TibiaLogin.TableLimits
import TibiaLogin.ConnectionInput
import TibiaLogin.ConnectionTable
import TibiaLogin.Observation
import TibiaLogin.InputDelivery
import TibiaLogin.Framing
import TibiaLogin.ConnectionLife
import TibiaLogin.Deadline
import TibiaLogin.Ledger
import TibiaLogin.SocketOwnership
import TibiaLogin.QueryClient
import TibiaLogin.QueryAttempt
import TibiaLogin.QueryLockstep
import TibiaLogin.QueryFraming
import TibiaLogin.RetryDiscipline
import TibiaLogin.ClientExchange
import TibiaLogin.SharedRun
import TibiaLogin.StatusService
import TibiaLogin.StatusTraffic
import TibiaLogin.PeerAddress
import TibiaLogin.WebSocket
import TibiaLogin.StrayReads
import TibiaLogin.TransportAgreement
import TibiaLogin.AddressText
import TibiaLogin.ClientReader
import TibiaLogin.AccountService
import TibiaLogin.FollowedClient
import TibiaLogin.LoginService
import TibiaLogin.ManagerService
import TibiaLogin.Isolation
import TibiaLogin.Provenance
import TibiaLogin.ResponseRouting
import TibiaLogin.SocketService
import TibiaLogin.KeyStream
import TibiaLogin.WebSocketProtocol
import TibiaLogin.Unmasking
import TibiaLogin.FrameDecoder
import TibiaLogin.FrameParsing
import TibiaLogin.FrameStream
import TibiaLogin.FrameRoundTrip
import TibiaLogin.FrameSafety
import TibiaLogin.FramedSockets
import TibiaLogin.FramedLogin
import TibiaLogin.LoopLifetime
import TibiaLogin.KeyLifetime
import TibiaLogin.Shutdown
