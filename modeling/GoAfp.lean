import GoAfp.AfpServer
import GoAfp.AttrCalls
import GoAfp.AttrEffects
import GoAfp.Attributes
import GoAfp.BigEndian
import GoAfp.Blocks
import GoAfp.BridgeCalls
import GoAfp.ByteConn
import GoAfp.ByteTraffic
import GoAfp.CanonicalPath
import GoAfp.CheckedEntry
import GoAfp.CheckedLogin
import GoAfp.CheckedReader
import GoAfp.Chroot
import GoAfp.Conn
import GoAfp.ConnInvariant
import GoAfp.ConnManager
import GoAfp.ConnStep
import GoAfp.ConnTeardown
import GoAfp.CreateRetry
import GoAfp.Dhx2
import GoAfp.Dhx2Server
import GoAfp.DoCalls
import GoAfp.Download
import GoAfp.DsiStream
import GoAfp.Entry
import GoAfp.EntryLayout
import GoAfp.EnumerateReply
import GoAfp.ExclusiveCreate
import GoAfp.FS
import GoAfp.Fault
import GoAfp.File
import GoAfp.FileCalls
import GoAfp.FileRefine
import GoAfp.FileRetry
import GoAfp.Fork
import GoAfp.ForkIO
import GoAfp.ForkOwnership
import GoAfp.ForkRead
import GoAfp.ForkWrite
import GoAfp.FrameStream
import GoAfp.Framing
import GoAfp.Header
import GoAfp.Host
import GoAfp.HostFS
import GoAfp.HostRules
import GoAfp.IDSearch
import GoAfp.Interaction
import GoAfp.Keeper
import GoAfp.Listing
import GoAfp.LoginProof
import GoAfp.MkdirAll
import GoAfp.NamespaceRetry
import GoAfp.OneShot
import GoAfp.OpenFile
import GoAfp.OpenedFile
import GoAfp.Path
import GoAfp.Proc
import GoAfp.ReadDir
import GoAfp.ReadModifyWrite
import GoAfp.ReaderBlocking
import GoAfp.Reconnect
import GoAfp.Replies
import GoAfp.ReplyDelivery
import GoAfp.ReplyRouting
import GoAfp.RequestCalls
import GoAfp.RequestIDs
import GoAfp.Result
import GoAfp.Retry
import GoAfp.ServerInfo
import GoAfp.ServerInfoLayout
import GoAfp.Session
import GoAfp.SessionOptions
import GoAfp.Shutdown
import GoAfp.Simulation
import GoAfp.Srp
import GoAfp.SrpForgery
import GoAfp.SrpServer
import GoAfp.Store
import GoAfp.Symlink
import GoAfp.System
import GoAfp.TaskGroup
import GoAfp.Tree
import GoAfp.Truncate
import GoAfp.Upload
import GoAfp.VolServer
import GoAfp.Volume
import GoAfp.VolumeJobs
import GoAfp.VolumeList
import GoAfp.VolumeRules
import GoAfp.Wire
import GoAfp.WirePath
import GoAfp.CallFrame
import GoAfp.PathIsolation
import GoAfp.Login
import GoAfp.ConnMutex
import GoAfp.CalmJobs
import GoAfp.LinkHost
