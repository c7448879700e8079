import MiniNet.Lib.LinkHeap
import MiniNet.Lib.Numbered
import MiniNet.Lib.Run
import MiniNet.ListBuckets
import MiniNet.ListHead
import MiniNet.ListLoops
import MiniNet.ListMemory
import MiniNet.NatStack.Headers
import MiniNet.NatStack.HeaderAccess
import MiniNet.NatStack.InMemory
import MiniNet.NatStack.IpChecksum
import MiniNet.NatStack.TcpChecksum
import MiniNet.NatStack.Transparency
import MiniNet.NatStack.NatC.Endpoints
import MiniNet.NatStack.NatC.Exhaustion
import MiniNet.NatStack.NatC.Frame
import MiniNet.NatStack.NatC.Heap
import MiniNet.NatStack.NatC.InMemory
import MiniNet.NatStack.NatC.Pool
import MiniNet.NatStack.NatC.Program
import MiniNet.NatStack.NatC.Senders
import MiniNet.NatStack.Agreement
import MiniNet.NatStack.NatNew2.Allocator
import MiniNet.NatStack.NatNew2.Close
import MiniNet.NatStack.NatNew2.Flows
import MiniNet.NatStack.NatNew2.InMemory
import MiniNet.NatStack.NatNew2.Lookups
import MiniNet.NatStack.NatNew2.Program
import MiniNet.NatStack.NatNew2.Senders
import MiniNet.NatStack.NatNew2.Survival
import MiniNet.NatStack.NatC.Sessions
import MiniNet.NatStack.NatC.Translate
import MiniNet.NatStack.NatC.Timeout
import MiniNet.SocketExp.Calculate
import MiniNet.SocketExp.Partition
import MiniNet.SocketExp.Schedules
import MiniNet.SocketExp.Totals
import MiniNet.SocketExp.WholeCount
import MiniNet.SocketExp.Wire
import MiniNet.SwitchStack.Ageing
import MiniNet.SwitchStack.Delivery
import MiniNet.SwitchStack.Eviction
import MiniNet.SwitchStack.Forwarding
import MiniNet.SwitchStack.InMemory
import MiniNet.SwitchStack.Learning
import MiniNet.SwitchStack.Calls
import MiniNet.SwitchStack.Program
import MiniNet.SwitchStack.Queue
import MiniNet.Ustack
