import GameCluster.Lib.Machine
import GameCluster.Lib.Map
import GameCluster.Queue.SwapQueue
import GameCluster.Save.Saver
import GameCluster.Save.Invariant
import GameCluster.Save.Refinement
import GameCluster.Role.Record
import GameCluster.Store.Mongo
import GameCluster.Logon.State
import GameCluster.Logon.Step
import GameCluster.Lib.Table
import GameCluster.Logon.Protocol
import GameCluster.Logon.Session
import GameCluster.Logon.Effect
import GameCluster.Logon.Simulation
import GameCluster.Logon.Tagged
import GameCluster.Logon.OneLive
import GameCluster.Save.Fate
import GameCluster.Logon.Savers
import GameCluster.Logon.History
import GameCluster.Logon.Closed
import GameCluster.Logon.Durable
import GameCluster.Logon.Rollback
import GameCluster.Save.Accepting
import GameCluster.Logon.Blocking
import GameCluster.Logon.Shutdown
import GameCluster.Save.Mirror
import GameCluster.Logon.Lifetime
import GameCluster.Bus.Frame
import GameCluster.Bus.Batcher
import GameCluster.Bus.Delivery
import GameCluster.Bus.Order
import GameCluster.Role.Registry
import GameCluster.Role.Exit
import GameCluster.Center.Onlines
import GameCluster.Account.Hash
import GameCluster.Account.Effect
import GameCluster.Account.Binds
import GameCluster.Account.Moves
import GameCluster.Account.Sequence
import GameCluster.Account.Hosting
import GameCluster.Account.Requests
import GameCluster.Account.Answers
import GameCluster.Lib.Slice
import GameCluster.Queue.Buffers
import GameCluster.Queue.Fifo
import GameCluster.Queue.Atomic
import GameCluster.Queue.Wakeup
import GameCluster.Queue.Panics
import GameCluster.Bus.Dispatch
import GameCluster.Gateway.Reading
import GameCluster.Gateway.Forward
import GameCluster.Account.IDs
import GameCluster.Lib.RedisList
import GameCluster.Offline.Events
import GameCluster.Lib.Fields
import GameCluster.Offline.Accounting
import GameCluster.Offline.Messages
import GameCluster.Account.Reconnect
import GameCluster.Discovery.Lease
import GameCluster.Discovery.Paths
import GameCluster.Discovery.Nodes
import GameCluster.Discovery.Mirror
import GameCluster.Lib.Calendar
import GameCluster.Lib.Deadline
import GameCluster.Role.Saving
import GameCluster.Role.Tick
import GameCluster.Role.Resets
import GameCluster.Role.Crash
import GameCluster.Lib.Framing
import GameCluster.Bus.Grammar
import GameCluster.Lib.Watched
import GameCluster.Lock.Optimistic
import GameCluster.Lock.Simple
import GameCluster.Account.Cached
import GameCluster.Discovery.Cells
import GameCluster.Lib.Cumulative
import GameCluster.Lib.Draw
import GameCluster.Util.Weighted
import GameCluster.Lib.Integer
import GameCluster.Util.Range
import GameCluster.Lib.Strconv
import GameCluster.Util.Strings
import GameCluster.Crypt.Once
import GameCluster.Lib.Text
import GameCluster.Tables.Struct
import GameCluster.Lib.Json
import GameCluster.Tables.Make
import GameCluster.Tables.Load
import GameCluster.Tables.Names
import GameCluster.Tables.Rows
import GameCluster.Tables.Keys
import GameCluster.Proto.File
import GameCluster.Proto.Lines
import GameCluster.Proto.Ids
import GameCluster.Tables.Exact
import GameCluster.Lib.Varint
import GameCluster.Lib.Wire
import GameCluster.Lib.Records
import GameCluster.Lib.Helpers
import GameCluster.Lib.FieldLaws
import GameCluster.Lib.MapField
import GameCluster.Lib.MessageLaws
import GameCluster.Lib.SchemaLaws
import GameCluster.Pb.Messages
import GameCluster.Pb.Coding
import GameCluster.Bus.Subjects
import GameCluster.Bus.Typed
import GameCluster.Gateway.Life
import GameCluster.Gateway.Ending
import GameCluster.Gateway.Closing
import GameCluster.Gateway.Writes
