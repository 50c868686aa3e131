import Czrpc.Execution
import Czrpc.Simulation
import Czrpc.UnorderedMap
import Czrpc.Framing
import Czrpc.CanonicalFrames
import Czrpc.Protocol
import Czrpc.ReadLoop
import Czrpc.ReadDelivery
import Czrpc.StreamRoundTrip
import Czrpc.StreamParse
import Czrpc.LastWrite
import Czrpc.TopicManager
import Czrpc.SendQueue
import Czrpc.SendHistory
import Czrpc.Resend
import Czrpc.IoChain
import Czrpc.PendingCalls
import Czrpc.Completion
import Czrpc.AsyncClient
import Czrpc.Atimer
import Czrpc.Subscriptions
import Czrpc.SubClient
import Czrpc.ChainCount
import Czrpc.Reconnection
import Czrpc.Resubscription
import Czrpc.WorkPool
import Czrpc.Pipe
import Czrpc.PipeDelivery
import Czrpc.ThreadPool
import Czrpc.PoolWakeup
import Czrpc.PoolDrain
import Czrpc.Server
import Czrpc.RequestOrder
import Czrpc.SyncClient
import Czrpc.SyncSocket
import Czrpc.SyncWire
import Czrpc.SyncPhase
import Czrpc.SyncPairing
import Czrpc.Dispatch
import Czrpc.ServerWrites
import Czrpc.Publishers
import Czrpc.PublisherOrder
import Czrpc.PubSub
import Czrpc.PublishDelivery
import Czrpc.Answers
import Czrpc.AsyncPairing
import Czrpc.CallIds
import Czrpc.OwnResponse
import Czrpc.Calls
import Czrpc.Echo
import Czrpc.SyncEcho
import Czrpc.Callbacks
import Czrpc.Notifications
import Czrpc.RequestOutcome
import Czrpc.RequestTimer
import Czrpc.AtimerClient
import Czrpc.IoServicePool
import Czrpc.TopicSet
import Czrpc.PublishImpl
import Czrpc.SubProcess
import Czrpc.Subscribing
import Czrpc.SubscribeRace
import Czrpc.FrameSizes
import Czrpc.CString
import Czrpc.Address
import Czrpc.ListenPort
import Czrpc.TimeoutSweep
import Czrpc.IoThreads
import Czrpc.Linearizability
import Czrpc.Monitor
import Czrpc.MonitorProgress
import Czrpc.TableHistory
import Czrpc.TopicHistory
import Czrpc.SyncHistory
import Czrpc.SyncLedger
import Czrpc.SyncLinearization
import Czrpc.Shutdown
import Czrpc.Link
import Czrpc.Network
import Czrpc.NetworkTraffic
import Czrpc.NetworkDelivery
import Czrpc.NetworkService
import Czrpc.NetworkPushes
import Czrpc.LinkProgress
import Czrpc.Lifetime
import Czrpc.Deadlines
import Czrpc.DoubleChecked
import Czrpc.SyncConnect
import Czrpc.ReadWatch
import Czrpc.ConnectLoop
import Czrpc.Acceptor
import Czrpc.WorkOrder
import Czrpc.PoolOrder
