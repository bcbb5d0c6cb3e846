import BoostProjects.Library.Transition
import BoostProjects.AsioTcpServer.Echo
import BoostProjects.AsioTcpServer.Pool
import BoostProjects.Coroutines.BinaryParser
import BoostProjects.Beast.Http.DocRoot
import BoostProjects.Beast.Http.Responses
import BoostProjects.Beast.Http.Protocol
import BoostProjects.Beast.Http.Residue
import BoostProjects.Library.Halting
import BoostProjects.Library.Lines
import BoostProjects.Serial.Progress
import BoostProjects.Serial.Display
import BoostProjects.Threads.Fibers
import BoostProjects.AsioTcpServer.Lifetime
import BoostProjects.Beast.Listener
import BoostProjects.Beast.WebSockets.Discipline
import BoostProjects.HTTPServer
import BoostProjects.Beast.WebSockets.Content
import BoostProjects.Library.HalfDuplex
import BoostProjects.Asio.Coroutines.CoroutineApps
import BoostProjects.Networking.SSLTCPServer.Session
import BoostProjects.Networking.TCPEchoServerClient
import BoostProjects.EchoSessions
import BoostProjects.Networking.SSLTCPServer.Ownership
import BoostProjects.Networking.SSLTCPServer.Isolation
import BoostProjects.Cpp.Istream
import BoostProjects.Networking.HTTP
import BoostProjects.Coroutines.TokenParser
import BoostProjects.Coroutines.Incremental
import BoostProjects.Coroutines.Consumers
import BoostProjects.Coroutines.Pipeline
import BoostProjects.Library.Descent
import BoostProjects.Spirit.Grammar
import BoostProjects.Spirit.Result
import BoostProjects.Networking.UDPEchoServerClient
import BoostProjects.Beast.Http.Client
import BoostProjects.Serial.TestAll
import BoostProjects.Asio.Coroutines.Server
import BoostProjects.Asio.Coroutines.AcceptServer
import BoostProjects.Coroutines.Accumulator
import BoostProjects.Networking.Basics
import BoostProjects.AsioTcpServer.Closing
import BoostProjects.Spirit.Parsers
import BoostProjects.Beast.Http.Methods
import BoostProjects.Json.Translators
import BoostProjects.CurrentTime
import BoostProjects.Serial.Console
import BoostProjects.Beast.Http.DirectClients
import BoostProjects.Networking.EchoClient
import BoostProjects.Library.Interleaving
import BoostProjects.Networking.EchoServer
import BoostProjects.Serial.Keys
import BoostProjects.AsioTcpServer.Capacity
import BoostProjects.Library.EventLoop
import BoostProjects.Library.WorkerPool
import BoostProjects.Threads.ThreadPool
import BoostProjects.Threads.Threads
import BoostProjects.Beast.WebSockets.EndToEnd
import BoostProjects.Library.OneByOne
import BoostProjects.Networking.SSLTCPServer.Service
import BoostProjects.Networking.UDPClients
import BoostProjects.Spirit.Terminated
import BoostProjects.Asio.BackgroundTasks
import BoostProjects.Beast.Http.EndToEnd
import BoostProjects.Library.Recurring
import BoostProjects.Timers
import BoostProjects.Networking.Daytime
