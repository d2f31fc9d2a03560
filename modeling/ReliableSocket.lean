import ReliableSocket.Memory
import ReliableSocket.Ring
import ReliableSocket.Run
import ReliableSocket.Circular
import ReliableSocket.Dare.Config
import ReliableSocket.Dare.Log.Basic
import ReliableSocket.Dare.Log.Entry
import ReliableSocket.Dare.Log.Append
import ReliableSocket.Dare.Log.Walk
import ReliableSocket.Dare.Log.Run
import ReliableSocket.Dare.Log.Index
import ReliableSocket.Dare.Sid
import ReliableSocket.Dare.SidOrder
import ReliableSocket.Dare.Log.NcBuf
import ReliableSocket.Dare.Server.Data
import ReliableSocket.Dare.Rc.Replication
import ReliableSocket.Dare.Rc.System
import ReliableSocket.Dare.Rc.Effects
import ReliableSocket.Dare.Rc.Frame
import ReliableSocket.Dare.Rc.Phase
import ReliableSocket.Dare.Rc.Equal
import ReliableSocket.Dare.Rc.Overrun
import ReliableSocket.Dare.Rc.Counting
import ReliableSocket.Dare.Rc.Commit
import ReliableSocket.Dare.Ibv.Endpoint
import ReliableSocket.Dare.Ibv.Connection
import ReliableSocket.Dare.Ibv.Access
import ReliableSocket.Dare.Ibv.Handshake
import ReliableSocket.Dare.Server.Apply
import ReliableSocket.Proxy.Storage
import ReliableSocket.Proxy.Records
import ReliableSocket.Dare.Server.Recovery
import ReliableSocket.Dare.Server.Resume
import ReliableSocket.Proxy.Queue
import ReliableSocket.Proxy.Replica
import ReliableSocket.Utils.Ringbuf
import ReliableSocket.PacketBuffer
import ReliableSocket.PacketBuffer.Pipeline
import ReliableSocket.PacketBuffer.Peek
import ReliableSocket.PacketBuffer.Outgoing
import ReliableSocket.Net.Tap
import ReliableSocket.Locks
import ReliableSocket.PacketBuffer.Deadlock
import ReliableSocket.PacketBuffer.Takeover
import ReliableSocket.Vpb.Common
import ReliableSocket.Table
import ReliableSocket.Guest.ConManager
import ReliableSocket.Proxy.Connections
import ReliableSocket.Rank
import ReliableSocket.Dare.Rc.Majority
import ReliableSocket.Dare.Rc.RemoteCommit
import ReliableSocket.Dare.Server.Reconf
import ReliableSocket.Dare.Server.Shape
import ReliableSocket.Dare.Log.Capacity
import ReliableSocket.Dare.Server.Election
import ReliableSocket.Dare.Server.Handlers
import ReliableSocket.Dare.Server.Vote
import ReliableSocket.Dare.Log.Uncommitted
import ReliableSocket.Dare.Server.Publish
import ReliableSocket.Dare.Server.InOrder
import ReliableSocket.Dare.Log.Divergence
import ReliableSocket.Dare.Server.Polling
import ReliableSocket.Dare.Server.Pruning
import ReliableSocket.Dare.Log.Leads
import ReliableSocket.Dare.Log.Order
import ReliableSocket.Dare.Server.UpToDate
import ReliableSocket.Serial
import ReliableSocket.Net.Headers
import ReliableSocket.Vpb.ConManager
import ReliableSocket.Proxy.Raw
import ReliableSocket.Dare.Server.Moves
import ReliableSocket.Dare.Server.Terms
import ReliableSocket.Dare.Server.Voting
import ReliableSocket.Dare.Server.Elected
import ReliableSocket.Dare.Server.Leaders
import ReliableSocket.Dare.Server.Following
import ReliableSocket.Buckets
import ReliableSocket.Dare.Kvs
import ReliableSocket.Dare.Rc.Completion
import ReliableSocket.Dare.Rc.Wait
import ReliableSocket.Dare.Rc.Update
import ReliableSocket.Dare.Rc.SendQueue
import ReliableSocket.Dare.Server.Reelection
import ReliableSocket.Dare.Server.Join
import ReliableSocket.Dare.Server.Snapshot
import ReliableSocket.Dare.Rc.Vote
import ReliableSocket.Dare.Group.Agreement
import ReliableSocket.Dare.Server.Startup
