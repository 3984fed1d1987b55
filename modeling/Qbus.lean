import Qbus.Foundation.MachineWord
import Qbus.Foundation.ByteMemory
import Qbus.Foundation.Circular
import Qbus.Foundation.Run
import Qbus.Foundation.Ledger
import Qbus.Foundation.Sections
import Qbus.Message.Message
import Qbus.Message.Chain
import Qbus.Message.Walk
import Qbus.Queue.Placement
import Qbus.Queue.Queue
import Qbus.Queue.Regions
import Qbus.Queue.Storage
import Qbus.Queue.Ring
import Qbus.Queue.Calls
import Qbus.Queue.World
import Qbus.Queue.Execution
import Qbus.Queue.Simple
import Qbus.Queue.Tracking
import Qbus.Queue.Subscribers
import Qbus.Queue.Stored
import Qbus.Queue.Shared
import Qbus.Queue.SharedCalls
import Qbus.Queue.Broadcast
import Qbus.Queue.Delivery
import Qbus.Queue.LateJoin
import Qbus.Queue.Leaving
import Qbus.Queue.Expiry
import Qbus.Connector.Segment
import Qbus.Connector.SharedMemory
import Qbus.Lock.Barrier
import Qbus.Lock.Wakeup
import Qbus.Lock.SharedLocker
import Qbus.Bus.Chain
import Qbus.Bus.Epoch
import Qbus.Bus.Growth
import Qbus.Bus.Transparent
import Qbus.Connector.Push
import Qbus.Queue.ForcedRemoval
import Qbus.Bus.Capacity
import Qbus.Bus.PushOnce
import Qbus.Queue.Acceptance
import Qbus.Queue.Accounting
import Qbus.Queue.PopAsGet
import Qbus.Queue.Timeout
import Qbus.Queue.Reached
import Qbus.Queue.Refused
import Qbus.Queue.Fragments
import Qbus.Queue.Whole
import Qbus.Queue.Defined
import Qbus.Connector.Layout
import Qbus.Bus.Opening
import Qbus.Bus.Names
import Qbus.Bus.Loops
import Qbus.Bus.Widening
import Qbus.Bus.Termination
import Qbus.Queue.Turned
import Qbus.Queue.Cleared
import Qbus.Queue.References
import Qbus.Queue.Handover
import Qbus.Queue.Views
import Qbus.Connector.Sharing
import Qbus.Connector.Timed
import Qbus.Bus.Traffic
import Qbus.Bus.Arrival
import Qbus.Bus.Depot
import Qbus.Queue.Room
import Qbus.Bus.Queues
