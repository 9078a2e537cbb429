import Hottpd.Lib.SortedMap
import Hottpd.Lib.Transition
import Hottpd.Lib.Bytes
import Hottpd.Core.Uri
import Hottpd.Core.Headers
import Hottpd.Core.FileSystem
import Hottpd.Core.Connection
import Hottpd.Core.Request
import Hottpd.Core.Exec
import Hottpd.Proofs.Pieces
import Hottpd.Proofs.Moves
import Hottpd.Proofs.Refine
import Hottpd.Proofs.Coherent
import Hottpd.Proofs.Interest
import Hottpd.Lib.Trace
import Hottpd.Core.World
import Hottpd.Proofs.Deleted
import Hottpd.Proofs.Closing
import Hottpd.Proofs.Promise
import Hottpd.Proofs.Rejection
import Hottpd.Proofs.Served
import Hottpd.Proofs.Turns
import Hottpd.Proofs.Wire
import Hottpd.Modules.Cgi
import Hottpd.Proofs.Circle
import Hottpd.Proofs.Settled
import Hottpd.Proofs.Messages
import Hottpd.Proofs.Scripts
import Hottpd.Proofs.Chunking
import Hottpd.Proofs.Cuts
import Hottpd.Proofs.Recursion
import Hottpd.Proofs.Blank
import Hottpd.Proofs.Limit
import Hottpd.Core.Timer
import Hottpd.Proofs.Timers
import Hottpd.Core.Ports
import Hottpd.Proofs.PortText
import Hottpd.Proofs.BindPorts
import Hottpd.Lib.Runs
import Hottpd.Core.Listeners
import Hottpd.Proofs.Listeners
import Hottpd.Proofs.Engines
import Hottpd.Core.ModuleManager
import Hottpd.Proofs.Handlers
import Hottpd.Proofs.Loading
import Hottpd.Proofs.Interfaces
import Hottpd.Proofs.BodySplit
import Hottpd.Lib.Crlf
import Hottpd.Proofs.HeaderText
import Hottpd.Core.Culls
import Hottpd.Proofs.Culls
import Hottpd.Modules.CgiServer
import Hottpd.Proofs.CgiWalk
import Hottpd.Proofs.CgiOrder
import Hottpd.Proofs.CgiRuns
import Hottpd.Proofs.Undone
import Hottpd.Core.Engines
import Hottpd.Modules.CgiPipe
import Hottpd.Proofs.Kept
import Hottpd.Proofs.CgiOutput
import Hottpd.Proofs.Targets
import Hottpd.Proofs.Escapes
import Hottpd.Proofs.FilePaths
import Hottpd.Core.StatCache
import Hottpd.Proofs.StatCache
import Hottpd.Core.ReadBuffer
import Hottpd.Proofs.ReadBuffer
import Hottpd.Proofs.BufferLimit
import Hottpd.Lib.MultiMap
import Hottpd.Core.ConfigReader
import Hottpd.Proofs.ConfigValues
import Hottpd.Proofs.ConfigTokens
import Hottpd.Proofs.ConfigFile
import Hottpd.Proofs.ConfigRender
import Hottpd.Lib.Glob
import Hottpd.Core.Wildcard
import Hottpd.Core.Cidr
import Hottpd.Proofs.Wildcard
import Hottpd.Core.Priority
import Hottpd.Proofs.Cidr
import Hottpd.Proofs.Priority
import Hottpd.Core.LoadAll
import Hottpd.Proofs.LoadAll
import Hottpd.Proofs.SepTokens
import Hottpd.Core.ConfigNumbers
import Hottpd.Proofs.ConfigNumbers
import Hottpd.Proofs.TwoReaders
import Hottpd.Core.Settings
import Hottpd.Core.ConfigRead
import Hottpd.Proofs.ConfigRead
import Hottpd.Proofs.PortOverlaps
import Hottpd.Core.Hex
import Hottpd.Core.Duration
import Hottpd.Proofs.Duration
import Hottpd.Proofs.Hex
import Hottpd.Core.RefTable
import Hottpd.Proofs.RefTable
import Hottpd.Core.Bitmask
import Hottpd.Core.FileLogger
import Hottpd.Proofs.FileLogger
import Hottpd.Proofs.Bitmask
import Hottpd.Core.ReadFile
import Hottpd.Proofs.ReadFile
import Hottpd.Core.DirValid
import Hottpd.Proofs.DirValid
import Hottpd.Core.TimerQueue
import Hottpd.Proofs.TimerQueue
import Hottpd.Core.MainLoop
import Hottpd.Proofs.MainLoop
import Hottpd.Proofs.TimeOuts
import Hottpd.Proofs.Endings
import Hottpd.Proofs.Draining
import Hottpd.Proofs.Signals
import Hottpd.Proofs.DueTimers
import Hottpd.Core.Unloading
import Hottpd.Proofs.Unloading
import Hottpd.Proofs.Cleanup
import Hottpd.Lib.Simulation
import Hottpd.Core.KernelQueues
import Hottpd.Core.Registry
import Hottpd.Proofs.WriteEvents
import Hottpd.Proofs.FourEngines
import Hottpd.Core.InspString
import Hottpd.Proofs.InspString
import Hottpd.Core.Descriptors
import Hottpd.Proofs.Descriptors
import Hottpd.Lib.Framing
import Hottpd.Core.MimeTypes
import Hottpd.Proofs.ReadBack
