import OnionRouter.Circuit.Construction
import OnionRouter.Circuit.System
import OnionRouter.Client.Circuit
import OnionRouter.Client.Session
import OnionRouter.Client.StreamBuffers
import OnionRouter.Config.Metadata
import OnionRouter.Crypto.Aes
import OnionRouter.Crypto.DiffieHellman
import OnionRouter.Crypto.Encryptions
import OnionRouter.Crypto.Fips180
import OnionRouter.Crypto.Fips197
import OnionRouter.Crypto.Sha256
import OnionRouter.Directory.Access
import OnionRouter.Directory.Allocation
import OnionRouter.Directory.Batch
import OnionRouter.Directory.Paging
import OnionRouter.Directory.Registration
import OnionRouter.Directory.RelayHandler
import OnionRouter.Directory.RelayManager
import OnionRouter.Directory.RelayMap
import OnionRouter.Directory.Sessions
import OnionRouter.Directory.Wire
import OnionRouter.Directory.SocketContext
import OnionRouter.Directory.SocketMap
import OnionRouter.Lib.CString
import OnionRouter.Lib.Circular
import OnionRouter.Lib.Ecb
import OnionRouter.Lib.Gf256
import OnionRouter.Lib.Memory
import OnionRouter.Lib.Probe
import OnionRouter.Net.Buffer
import OnionRouter.Net.Onion
import OnionRouter.Net.Receive
import OnionRouter.Protocol.Cell
import OnionRouter.Protocol.Messages
import OnionRouter.Protocol.Overwrite
import OnionRouter.Relay.End
import OnionRouter.Relay.Session
import OnionRouter.Streams.Agreement
import OnionRouter.Streams.Hashmap
import OnionRouter.Streams.Ids
import OnionRouter.Streams.Payload
import OnionRouter.Streams.Refinement
import OnionRouter.Streams.Runs
import OnionRouter.Streams.System
import OnionRouter.Streams.Tables
import OnionRouter.Lib.Ledger
import OnionRouter.Relay.Exit
import OnionRouter.Relay.Delivery
import OnionRouter.Client.Input
import OnionRouter.Client.Keys
import OnionRouter.Relay.Thread
import OnionRouter.Lib.Fairness
import OnionRouter.Circuit.Teardown
import OnionRouter.Lib.Checked
import OnionRouter.Client.Growth
import OnionRouter.Client.Output
import OnionRouter.Lib.Ownership
import OnionRouter.Directory.Server
import OnionRouter.Directory.User
import OnionRouter.Directory.System
import OnionRouter.Directory.Resources
import OnionRouter.Directory.Threads
import OnionRouter.Directory.Conversation
import OnionRouter.Directory.Requests
import OnionRouter.Directory.Lines
import OnionRouter.Directory.Follows
import OnionRouter.Directory.Runs
import OnionRouter.Directory.Service
import OnionRouter.Lib.Lucas
import OnionRouter.Crypto.Parameters
import OnionRouter.Lib.Pipeline
import OnionRouter.Streams.Tails
import OnionRouter.Circuit.Traffic
import OnionRouter.Circuit.Delivery
import OnionRouter.Lib.History
import OnionRouter.Streams.Flow
import OnionRouter.Streams.Receiving
import OnionRouter.Streams.Sending
import OnionRouter.Circuit.Pipes
