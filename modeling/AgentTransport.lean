import AgentTransport.ByteString
import AgentTransport.KeyMap
import AgentTransport.Fragmentation
import AgentTransport.Transition
import AgentTransport.Sender
import AgentTransport.Emission
import AgentTransport.Receiver
import AgentTransport.Scheduling
import AgentTransport.Handling
import AgentTransport.ReceiverRun
import AgentTransport.Reassembly
import AgentTransport.Session
import AgentTransport.Network
import AgentTransport.Sending
import AgentTransport.Projection
import AgentTransport.Tracing
import AgentTransport.Integrity
import AgentTransport.Transmission
import AgentTransport.Completion
import AgentTransport.Recovery
import AgentTransport.Parcels
import AgentTransport.Phases
import AgentTransport.Lossless
import AgentTransport.Delivery
import AgentTransport.RpcServer
import AgentTransport.Threads
import AgentTransport.RpcAnswers
import AgentTransport.RpcClient
import AgentTransport.RpcMarkers
import AgentTransport.RpcNetwork
import AgentTransport.RpcChannels
import AgentTransport.RpcOwnership
import AgentTransport.RpcMatching
import AgentTransport.Recent
import AgentTransport.RpcNumbers
import AgentTransport.Duplicates
import AgentTransport.Credit
import AgentTransport.Ledger
import AgentTransport.Abandonment
import AgentTransport.StableQueue
import AgentTransport.SenderRun
import AgentTransport.TxQueues
import AgentTransport.Canonicity
import AgentTransport.Authorisation
import AgentTransport.Determinism
import AgentTransport.Srpt
import AgentTransport.Cumulative
import AgentTransport.Repair
import AgentTransport.FirstRoundTrip
import AgentTransport.Refusal
import AgentTransport.Host
import AgentTransport.Wakeups
import AgentTransport.RpcRetry
import AgentTransport.RpcWaiters
import AgentTransport.Headers
import AgentTransport.Counting
import AgentTransport.LifeCycle
import AgentTransport.Inner
import AgentTransport.InnerRun
import AgentTransport.Simulation
import AgentTransport.SendCalls
import AgentTransport.Cluster
import AgentTransport.Refinement
import AgentTransport.Wire
import AgentTransport.Service
import AgentTransport.Cores
import AgentTransport.RpcStack
import AgentTransport.Alignment
import AgentTransport.Survival
