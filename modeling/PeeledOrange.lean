import PeeledOrange.Lib.Callback
import PeeledOrange.Lib.Component
import PeeledOrange.Db.Client
import PeeledOrange.Db.Rules
import PeeledOrange.Db.Delivery
import PeeledOrange.Db.Failure
import PeeledOrange.Db.Timeout
import PeeledOrange.Db.Queue
import PeeledOrange.Db.Service
import PeeledOrange.Db.Blocked
import PeeledOrange.Lib.BigStep
import PeeledOrange.Db.Hooks
import PeeledOrange.Db.Reconnect
import PeeledOrange.Db.Outage
import PeeledOrange.Db.Drain
import PeeledOrange.Db.Starvation
import PeeledOrange.Lib.Rounding
import PeeledOrange.Server.Buffer
import PeeledOrange.Server.Stream
import PeeledOrange.Server.Capacity
import PeeledOrange.Server.Debug
import PeeledOrange.Server.Overlap
import PeeledOrange.Server.Footprint
import PeeledOrange.Lib.OrderedMap
import PeeledOrange.Server.TcpServer
import PeeledOrange.Server.Ownership
import PeeledOrange.Server.Effects
import PeeledOrange.Server.Expire
import PeeledOrange.Lib.History
import PeeledOrange.Server.Run
import PeeledOrange.Server.Limit
import PeeledOrange.Server.Isolation
import PeeledOrange.Lib.Sweep
import PeeledOrange.Server.Idle
import PeeledOrange.Server.Opening
import PeeledOrange.Server.Echo
import PeeledOrange.Server.LifeCycle
import PeeledOrange.Server.Liveness
import PeeledOrange.Server.Descriptors
import PeeledOrange.Server.Batch
import PeeledOrange.Server.FullScan
import PeeledOrange.Server.Cursor
import PeeledOrange.Engine.Database
import PeeledOrange.Lib.Bytes
import PeeledOrange.Lib.Java
import PeeledOrange.Client.EgtsCrc
import PeeledOrange.Client.Eav
import PeeledOrange.Client.EavTask
import PeeledOrange.Client.AbstractTask
import PeeledOrange.Client.Values
import PeeledOrange.Client.Numbers
import PeeledOrange.Client.Wire
import PeeledOrange.Client.Sent
import PeeledOrange.Client.Parse
import PeeledOrange.Client.Frame
import PeeledOrange.Client.RoundTrip
import PeeledOrange.Client.Unambiguous
import PeeledOrange.Client.Floats
import PeeledOrange.Client.Truncation
import PeeledOrange.Lib.Crc
import PeeledOrange.Lib.CrcDistance
import PeeledOrange.Client.Checksum
import PeeledOrange.Client.Remaining
import PeeledOrange.Client.Corruption
import PeeledOrange.Client.Distance
import PeeledOrange.Client.Header
import PeeledOrange.Lib.Lockstep
import PeeledOrange.Client.Overrun
import PeeledOrange.Client.Independence
import PeeledOrange.Client.Records
import PeeledOrange.Client.Progress
import PeeledOrange.Lib.Traced
import PeeledOrange.Client.Reads
import PeeledOrange.Client.Creation
import PeeledOrange.Client.Passes
import PeeledOrange.Lib.Numeral
import PeeledOrange.Client.Text
import PeeledOrange.Lib.Serial
import PeeledOrange.Lib.RedBlack
import PeeledOrange.Client.Keys
import PeeledOrange.Client.Forward
