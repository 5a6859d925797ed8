import CppServer.Core.Connection
import CppServer.Lib.Machine
import CppServer.Core.ReadPath
import CppServer.Core.WritePath
import CppServer.Core.Echo
import CppServer.Lib.Mutex
import CppServer.ThreadPool.Model
import CppServer.ThreadPool.Safety
import CppServer.ThreadPool.ExactlyOnce
import CppServer.ThreadPool.Progress
import CppServer.Logger.FileAppender
import CppServer.Logger.HandOver
import CppServer.Logger.NeverJams
import CppServer.Http.Parser
import CppServer.Http.Session
import CppServer.Core.Channel
import CppServer.Server.Publication
import CppServer.Server.PublicationOrder
import CppServer.Server.DescriptorOwnership
import CppServer.Server.Reactors
import CppServer.Server.Survival
import CppServer.Server.EdgeTriggered
import CppServer.Server.NotStranded
import CppServer.Server.Registry
import CppServer.Server.RegistryCoherence
import CppServer.Server.DescriptorBalance
import CppServer.Http.Body
import CppServer.Http.Manager
import CppServer.Http.Registries
import CppServer.Server.DeadConnections
import CppServer.Server.Lifetime
import CppServer.Server.LifetimeSafety
import CppServer.Core.Delivery
import CppServer.Core.WriteTrace
import CppServer.Core.CloseState
import CppServer.Core.Connect
import CppServer.Core.Timer
import CppServer.Server.Sizing
import CppServer.Http.ContentLength
import CppServer.Logger.Formatter
import CppServer.Logger.Patterns
import CppServer.Logger.Quiescent
import CppServer.Logger.FileComplete
import CppServer.Logger.Moves
import CppServer.Logger.Logger
import CppServer.Logger.LevelFilter
import CppServer.ThreadPool.Moves
import CppServer.Http.ErrorReply
import CppServer.Http.Reset
import CppServer.Server.Callbacks
import CppServer.Core.SafeQueue
import CppServer.Lib.Potential
import CppServer.Lib.Terminated
import CppServer.Lib.Raii
import CppServer.Lib.Once
import CppServer.ThreadPool.Termination
import CppServer.Logger.Termination
import CppServer.Logger.LogFile
import CppServer.Server.Confinement
import CppServer.Server.EventAtomicity
import CppServer.Server.Drained
import CppServer.Server.EchoService
import CppServer.Server.EchoProgress
import CppServer.Server.Destruction
import CppServer.Server.Construction
import CppServer.Http.MimeTypes
import CppServer.Server.PageServer
import CppServer.Server.PageRequests
import CppServer.Server.Distribution
import CppServer.Logger.SharedLogger
import CppServer.Http.Exhaustion
