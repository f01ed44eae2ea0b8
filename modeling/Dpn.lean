import Dpn.Outcome
import Dpn.ByteBuffer
import Dpn.TextStream
import Dpn.Message
import Dpn.Label
import Dpn.Port
import Dpn.Receive
import Dpn.MessageBoundaries
import Dpn.Distribution
import Dpn.RoundTrip
import Dpn.Storage
import Dpn.Stores
import Dpn.Hub
import Dpn.Peer
import Dpn.PeerSpec
import Dpn.PeerRun
import Dpn.Fanout
import Dpn.LabelFrame
import Dpn.Dispatch
import Dpn.View
import Dpn.Request
import Dpn.Reply
import Dpn.Subscription
import Dpn.System
import Dpn.AddressCodec
import Dpn.Bounds
import Dpn.Overloads
import Dpn.SourceCheck
import Dpn.Connection
import Dpn.Registry
import Dpn.Lifecycle
import Dpn.FifoQueues
import Dpn.FailedRequest
import Dpn.PublishAttempts
import Dpn.Bindings
import Dpn.Deadline
import Dpn.HubReceive
import Dpn.MessageHistory
import Dpn.PeerActs
import Dpn.Numbering
import Dpn.Footprint
import Dpn.Network
import Dpn.Channels
import Dpn.Loans
import Dpn.Packages
import Dpn.Draining
import Dpn.PortNames
import Dpn.Deliveries
import Dpn.TableOrder
import Dpn.ContextManager
import Dpn.ByValue
import Dpn.Alone
