import RpcLoop.Foundation.Machine
import RpcLoop.Foundation.Allocation
import RpcLoop.Foundation.Chain
import RpcLoop.Foundation.Memory
import RpcLoop.Foundation.IntLayout
import RpcLoop.Foundation.CInt
import RpcLoop.Foundation.Service
import RpcLoop.Foundation.Slot
import RpcLoop.Foundation.Loop
import RpcLoop.Foundation.Progress
import RpcLoop.Shared.SafeQueue
import RpcLoop.Shared.SafeMap
import RpcLoop.Shared.LinkedQueue
import RpcLoop.Shared.QueueShape
import RpcLoop.Shared.QueueMemory
import RpcLoop.Shared.QueueFifo
import RpcLoop.Shared.QueueAssertion
import RpcLoop.Asio.Timer
import RpcLoop.Asio.Operation
import RpcLoop.Message.Head
import RpcLoop.Message.Struct
import RpcLoop.Message.Buffer
import RpcLoop.Message.Filled
import RpcLoop.Message.Receiving
import RpcLoop.Message.Agreement
import RpcLoop.Server.Session
import RpcLoop.Server.Transition
import RpcLoop.Server.ReplyOrder
import RpcLoop.Server.QueueOwnership
import RpcLoop.Server.Delivery
import RpcLoop.Server.FrontMessage
import RpcLoop.Server.RoundTrip
import RpcLoop.Client.Request
import RpcLoop.Client.Link
import RpcLoop.Client.Loop
import RpcLoop.Client.Transition
import RpcLoop.Client.Sending
import RpcLoop.Client.SingleWriter
import RpcLoop.Client.Registration
import RpcLoop.Client.Wakeup
import RpcLoop.Client.Modes
import RpcLoop.Client.Placement
import RpcLoop.Client.Ownership
import RpcLoop.Client.Tearing
import RpcLoop.Client.Pointers
import RpcLoop.Client.Entries
import RpcLoop.Client.LateTimeout
import RpcLoop.Client.TimeoutCover
import RpcLoop.Client.Conservation
import RpcLoop.Client.Demultiplex
import RpcLoop.Client.Isolation
import RpcLoop.Client.MapAccess
import RpcLoop.Client.Reclaim
import RpcLoop.Client.Collection
import RpcLoop.Client.EraseChain
import RpcLoop.Client.Lifecycle
import RpcLoop.Client.Reopening
import RpcLoop.Client.Destroy
import RpcLoop.Client.Shutdown
import RpcLoop.Client.NullSocket
import RpcLoop.Client.Connecting
import RpcLoop.Client.Uninterrupted
import RpcLoop.Wire.Overrun
import RpcLoop.Wire.ReplyCodec
import RpcLoop.Pool.Pool
import RpcLoop.Pool.Bookkeeping
import RpcLoop.Pool.Calls
import RpcLoop.Pool.Handles
import RpcLoop.Pool.Sequential
import RpcLoop.Pool.LinkKeys
import RpcLoop.Foundation.Residues
import RpcLoop.Pool.Limit
import RpcLoop.Pool.RoundRobin
import RpcLoop.Pool.Selection
import RpcLoop.Client.OwnEntries
import RpcLoop.Client.GracePeriod
import RpcLoop.Client.EraseTick
import RpcLoop.Client.Draining
import RpcLoop.Foundation.MapPosition
import RpcLoop.Shared.MapIterator
import RpcLoop.Shared.EndIterator
import RpcLoop.Shared.IteratorMemory
import RpcLoop.Foundation.Locks
import RpcLoop.Foundation.Sections
import RpcLoop.Shared.MapAssignment
import RpcLoop.Shared.MapCalls
import RpcLoop.Message.Accessors
import RpcLoop.System.Connection
import RpcLoop.System.Requests
import RpcLoop.System.Replies
import RpcLoop.System.ReadLoop
import RpcLoop.System.Answers
import RpcLoop.System.Refinement
import RpcLoop.System.Flow
import RpcLoop.System.Work
import RpcLoop.System.Progress
import RpcLoop.System.Clients
import RpcLoop.System.Pools
import RpcLoop.System.Reconnects
