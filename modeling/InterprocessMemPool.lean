import InterprocessMemPool.Machine
import InterprocessMemPool.Concurrency.System
import InterprocessMemPool.Concurrency.Calls
import InterprocessMemPool.Concurrency.Holding
import InterprocessMemPool.Concurrency.Fifo
import InterprocessMemPool.Concurrency.Semaphore
import InterprocessMemPool.Concurrency.Mutex
import InterprocessMemPool.Concurrency.FreeList
import InterprocessMemPool.Concurrency.Shedding
import InterprocessMemPool.Concurrency.Timer
import InterprocessMemPool.Text.Search
import InterprocessMemPool.Text.Fields
import InterprocessMemPool.MempoolHeap.Pool.Basic
import InterprocessMemPool.MempoolHeap.Pool.Theorems.Partition
import InterprocessMemPool.MempoolHeap.Pool.Theorems.Memory
import InterprocessMemPool.MempoolHeap.ArrayPool.Basic
import InterprocessMemPool.MempoolHeap.ArrayPool.Theorems.Slices
import InterprocessMemPool.MempoolHeap.ArrayPool.Theorems.Memory
import InterprocessMemPool.MempoolHeap.ArrayPool.Construction
import InterprocessMemPool.MempoolHeap.ArrayPool.Theorems.Construction
import InterprocessMemPool.MempoolHeap.ArrayPool.Theorems.Balance
import InterprocessMemPool.MempoolIPC.Pipe.Basic
import InterprocessMemPool.MempoolIPC.Pipe.Theorems.Transition
import InterprocessMemPool.MempoolIPC.Pipe.Theorems.Tokens
import InterprocessMemPool.MempoolIPC.Pipe.Theorems.Layout
import InterprocessMemPool.MempoolIPC.Pipe.Theorems.Count
import InterprocessMemPool.MempoolIPC.Pipe.Theorems.Fifo
import InterprocessMemPool.MempoolIPC.Pipe.Theorems.Send
import InterprocessMemPool.MempoolIPC.Pipe.Theorems.Shutdown
import InterprocessMemPool.MempoolIPC.Router.Basic
import InterprocessMemPool.MempoolIPC.Router.Theorems.Effect
import InterprocessMemPool.MempoolIPC.Router.Theorems.Sweep
import InterprocessMemPool.MempoolIPC.Router.Theorems.Turns
import InterprocessMemPool.MempoolIPC.Router.Theorems.Send
import InterprocessMemPool.MempoolIPC.Router.Theorems.Holders
import InterprocessMemPool.MempoolIPC.Router.Theorems.Order
import InterprocessMemPool.MempoolIPC.Router.Theorems.Shutdown
import InterprocessMemPool.MempoolIPC.Pool.Basic
import InterprocessMemPool.MempoolIPC.Pool.Theorems.Partition
import InterprocessMemPool.MempoolIPC.Pool.Theorems.Sizing
import InterprocessMemPool.MempoolIPC.MemPool.Basic
import InterprocessMemPool.MempoolIPC.MemPool.Theorems.Controls
import InterprocessMemPool.Construction
import InterprocessMemPool.MempoolIPC.MemPool.Construction
import InterprocessMemPool.MempoolIPC.MemPool.Theorems.Construction
import InterprocessMemPool.MempoolIPC.MemPool.Theorems.Lent
import InterprocessMemPool.MempoolIPC.MemPoolGrower.Basic
import InterprocessMemPool.MempoolIPC.MemPoolGrower.Theorems.Generations
import InterprocessMemPool.MempoolIPC.MemPoolGrower.Theorems.Extent
import InterprocessMemPool.MempoolIPC.MemPoolGrower.Theorems.Growth
import InterprocessMemPool.MempoolIPC.MemPoolGrower.Theorems.Separation
import InterprocessMemPool.MempoolIPC.SharedObject.Basic
import InterprocessMemPool.MempoolIPC.SharedObject.Theorems.Count
import InterprocessMemPool.Networking.SharedState.Basic
import InterprocessMemPool.Networking.SharedState.Theorems.Trace
import InterprocessMemPool.Networking.SharedState.Theorems.Snapshot
import InterprocessMemPool.Networking.MultiClientReceiver.Basic
import InterprocessMemPool.Networking.SendQueue.Basic
import InterprocessMemPool.Networking.SendQueue.Theorems.Pipeline
import InterprocessMemPool.Networking.WebsocketSession.Basic
import InterprocessMemPool.Networking.WebsocketSession.Theorems.Pipeline
import InterprocessMemPool.Networking.WebsocketSession.Theorems.Handlers
import InterprocessMemPool.Networking.RateLimiter.Enforcer
import InterprocessMemPool.Networking.WebsocketSession.RateLimited
import InterprocessMemPool.Networking.WebsocketSession.Theorems.Accounting
import InterprocessMemPool.Networking.HandleRequest.Basic
import InterprocessMemPool.Networking.HandleRequest.Theorems.Containment
import InterprocessMemPool.Networking.HttpSession.Basic
import InterprocessMemPool.Networking.SendQueue.Theorems.Overflow
import InterprocessMemPool.Networking.HttpSession.Theorems.Transition
import InterprocessMemPool.Networking.HttpSession.Theorems.Buffer
import InterprocessMemPool.Networking.HttpSession.Theorems.Writers
import InterprocessMemPool.Networking.HttpSession.Theorems.Delivery
import InterprocessMemPool.Networking.HttpSession.Theorems.Handlers
import InterprocessMemPool.Networking.HttpSession.Framing
import InterprocessMemPool.Networking.HttpSession.Theorems.Framing
import InterprocessMemPool.Networking.RateLimiter.Basic
import InterprocessMemPool.Networking.RateLimiter.Theorems.Slots
import InterprocessMemPool.Networking.RateLimiter.Limit
import InterprocessMemPool.Networking.RateLimiter.Theorems.Shares
import InterprocessMemPool.Networking.MultiClientReceiver.Theorems.Handler
import InterprocessMemPool.Networking.MultiClientReceiver.Discovery
import InterprocessMemPool.Networking.MultiClientReceiver.Theorems.Parse
import InterprocessMemPool.Networking.MultiClientReceiver.Theorems.Ports
import InterprocessMemPool.Networking.MultiClientReceiver.Connections
import InterprocessMemPool.Networking.MultiClientReceiver.Theorems.Connections
import InterprocessMemPool.Networking.UDPReceiver.Basic
import InterprocessMemPool.Networking.UDPReceiver.Theorems.Deadline
import InterprocessMemPool.Networking.MultiClientSender.Basic
import InterprocessMemPool.Networking.MultiClientSender.Theorems.Heartbeat
import InterprocessMemPool.Networking.TCPClient.Basic
import InterprocessMemPool.Networking.TCPClient.Theorems.Callbacks
import InterprocessMemPool.Networking.TCPClient.Theorems.Closing
import InterprocessMemPool.Networking.Lifecycle.Basic
import InterprocessMemPool.Networking.Lifecycle.Theorems.Life
import InterprocessMemPool.Networking.Lifecycle.Theorems.Balance
import InterprocessMemPool.Networking.Lifecycle.Theorems.Reference
import InterprocessMemPool.Concurrency.References
import InterprocessMemPool.MempoolIPC.Router.Theorems.Next
import InterprocessMemPool.MempoolIPC.PooledRouter.Basic
import InterprocessMemPool.MempoolIPC.PooledRouter.Theorems.Handover
import InterprocessMemPool.MempoolIPC.PooledRouter.Theorems.Conserved
import InterprocessMemPool.MempoolIPC.SharedMemory.Basic
import InterprocessMemPool.MempoolIPC.SharedMemory.Theorems.Names
import InterprocessMemPool.MempoolIPC.SharedMemory.Theorems.Counters
import InterprocessMemPool.MempoolIPC.SharedMemory.Theorems.Linked
import InterprocessMemPool.MempoolIPC.SharedMemory.Theorems.Nested
import InterprocessMemPool.MempoolIPC.SharedMemory.Theorems.View
import InterprocessMemPool.MempoolIPC.Router.Theorems.Receivers
import InterprocessMemPool.Networking.HttpSession.Theorems.Pipelining
