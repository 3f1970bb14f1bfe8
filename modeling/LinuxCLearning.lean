import LinuxCLearning.Base.Bytes
import LinuxCLearning.Base.Chain
import LinuxCLearning.Base.Machine
import LinuxCLearning.KvDatabase.Hashmap
import LinuxCLearning.KvDatabase.Database
import LinuxCLearning.KvDatabase.HashmapInvariant
import LinuxCLearning.KvDatabase.Persistence
import LinuxCLearning.Base.LinkedList
import LinuxCLearning.MemoryPool.Pool
import LinuxCLearning.MemoryPool.PoolInvariant
import LinuxCLearning.MemoryPool.Operations
import LinuxCLearning.MemoryPool.Session
import LinuxCLearning.FileServer.ThreadPool
import LinuxCLearning.FileServer.ThreadPoolInvariant
import LinuxCLearning.Base.Link
import LinuxCLearning.FileServer.Protocol
import LinuxCLearning.FileServer.FileSystem
import LinuxCLearning.FileServer.Server
import LinuxCLearning.FileServer.Client
import LinuxCLearning.FileServer.Transfer
import LinuxCLearning.FileServer.Requests
import LinuxCLearning.FileServer.ClientTransfers
import LinuxCLearning.FileServer.RoundTrip
import LinuxCLearning.FileServer.Resume
import LinuxCLearning.FileServer.UploadResume
import LinuxCLearning.FileServer.UploadFraming
import LinuxCLearning.FileServer.Auth
import LinuxCLearning.FileServer.AuthTokens
import LinuxCLearning.FileServer.AuthVerify
import LinuxCLearning.Base.Ring
import LinuxCLearning.LogSystem.AsyncLog
import LinuxCLearning.LogSystem.AsyncLogInvariant
import LinuxCLearning.Base.SlotTable
import LinuxCLearning.MiniShell.Executor
import LinuxCLearning.MiniShell.JobTable
import LinuxCLearning.MiniShell.Foreground
import LinuxCLearning.MiniShell.JobUpdate
import LinuxCLearning.MiniShell.Parser
import LinuxCLearning.MiniShell.Quoting
import LinuxCLearning.MiniShell.PipelineRoundTrip
import LinuxCLearning.Base.PathName
import LinuxCLearning.FileServer.Confinement
import LinuxCLearning.FileServer.Announce
import LinuxCLearning.WebServer.Http
import LinuxCLearning.WebServer.RequestParse
import LinuxCLearning.WebServer.DocumentRoot
import LinuxCLearning.LogSystem.Format
import LinuxCLearning.Base.Files
import LinuxCLearning.FileServer.LogRotate
import LinuxCLearning.LogSystem.FileTarget
import LinuxCLearning.LogSystem.LockOwner
import LinuxCLearning.LogSystem.Rotation
import LinuxCLearning.WebServer.ConnectionQueue
import LinuxCLearning.FileServer.Clients
import LinuxCLearning.FileServer.ClientsInvariant
import LinuxCLearning.FileServer.ModuleNames
import LinuxCLearning.FileServer.Shutdown
import LinuxCLearning.IpcBench.SharedMemory
import LinuxCLearning.MemoryPool.Ownership
import LinuxCLearning.Base.TokenBucket
import LinuxCLearning.FileServer.RateLimit
import LinuxCLearning.KvDatabase.WalOrder
import LinuxCLearning.NetworkProxy.HttpProxy
import LinuxCLearning.NetworkProxy.Tunnel
import LinuxCLearning.WebServer.RequestBody
import LinuxCLearning.WebServer.Response
import LinuxCLearning.WebServer.UrlCodec
import LinuxCLearning.Base.Framing
import LinuxCLearning.Base.Memory
import LinuxCLearning.FileServer.BlockPool
import LinuxCLearning.FileServer.ClientResponses
import LinuxCLearning.KvDatabase.Atomicity
import LinuxCLearning.KvDatabase.LoadFile
import LinuxCLearning.MemoryPool.ConcurrentFree
import LinuxCLearning.MemoryPool.Layout
import LinuxCLearning.MemoryPool.Realloc
import LinuxCLearning.WebServer.Connection
import LinuxCLearning.WebServer.ResponseBytes
import LinuxCLearning.Base.Json
import LinuxCLearning.Base.Printing
import LinuxCLearning.FileServer.ClientSuccess
import LinuxCLearning.FileServer.FileListing
import LinuxCLearning.FileServer.FilesJson
import LinuxCLearning.FileServer.HeaderName
import LinuxCLearning.FileServer.HttpRequest
import LinuxCLearning.FileServer.RateLimitWait
import LinuxCLearning.FileServer.SaltedLogin
import LinuxCLearning.NetworkProxy.Url
import LinuxCLearning.LogSystem.Hexdump
import LinuxCLearning.MiniShell.CommandText
import LinuxCLearning.MiniShell.Expansion
import LinuxCLearning.MiniShell.Termination
import LinuxCLearning.NetworkProxy.HandleClient
import LinuxCLearning.SerialTool.SendHex
import LinuxCLearning.FileServer.Messages
import LinuxCLearning.SerialTool.Script
import LinuxCLearning.SerialTool.Terminal
import LinuxCLearning.SysMonitor.StatLine
import LinuxCLearning.Base.Descriptors
import LinuxCLearning.Base.Monitor
import LinuxCLearning.Base.Bounded
import LinuxCLearning.Base.Environ
import LinuxCLearning.KvDatabase.Sessions
import LinuxCLearning.KvDatabase.Resave
import LinuxCLearning.MiniShell.Wiring
import LinuxCLearning.MiniShell.Redirections
import LinuxCLearning.MiniShell.Variables
import LinuxCLearning.WebServer.Stopping
import LinuxCLearning.FileServer.PoolClosing
import LinuxCLearning.LogSystem.Closing
import LinuxCLearning.IpcBench.Echo
import LinuxCLearning.IpcBench.Semaphores
import LinuxCLearning.Base.JsonObject
import LinuxCLearning.Base.SharedLock
import LinuxCLearning.FileServer.SharedStats
import LinuxCLearning.FileServer.HttpAdmin
import LinuxCLearning.Base.Exchange
import LinuxCLearning.FileServer.Interactive
import LinuxCLearning.FileServer.Exchanges
import LinuxCLearning.FileServer.ClientSession
import LinuxCLearning.SerialTool.Language
