import Erbridge.Core.Machine
import Erbridge.Tenancy.Edits
import Erbridge.Tenancy.Store
import Erbridge.Core.Table
import Erbridge.Hub.Sessions
import Erbridge.Hub.Route
import Erbridge.Hub.Reload
import Erbridge.Reverse.Serve
import Erbridge.Tenancy.FileHistory
import Erbridge.Tenancy.FileStore
import Erbridge.Core.Bytes
import Erbridge.Core.Wire
import Erbridge.Noise.Frame
import Erbridge.Core.Log
import Erbridge.Noise.Stream
import Erbridge.Reverse.Frame
import Erbridge.Noise.Handshake
import Erbridge.Noise.Pair
import Erbridge.Noise.Tamper
import Erbridge.Proxy.Pump
import Erbridge.Proxy.NoisePump
import Erbridge.Reverse.Relay
import Erbridge.Reverse.Faithful
import Erbridge.Hub.Takeover
import Erbridge.Hub.Rotation
import Erbridge.Tenancy.Routing
import Erbridge.Tenancy.StoreRefines
import Erbridge.Forward.Datagrams
import Erbridge.Forward.Udp
import Erbridge.Hub.Control
import Erbridge.Config.Roles
import Erbridge.Reverse.Credentials
import Erbridge.Reverse.Exchange
import Erbridge.Reverse.Limits
import Erbridge.Hub.Enrollment
import Erbridge.Config.MapFlag
import Erbridge.Forward.Conn
import Erbridge.Forward.Gate
import Erbridge.Reverse.Shutdown
import Erbridge.Tenancy.Redeemable
import Erbridge.Core.Tally
import Erbridge.Hub.Budget
import Erbridge.Hub.BudgetSize
import Erbridge.Hub.Pending
import Erbridge.Core.Checked
import Erbridge.Forward.Idle
import Erbridge.Mux.Driver
import Erbridge.Proxy.Pipe
import Erbridge.Reverse.Reset
import Erbridge.Sni.Hello
import Erbridge.Stats.Accounts
import Erbridge.Stats.Handlers
import Erbridge.Core.Overflow
import Erbridge.Reverse.Reconnect
import Erbridge.Config.ClientFlag
import Erbridge.Config.MapFlagSyntax
import Erbridge.Config.Resolve
import Erbridge.Core.Amend
import Erbridge.Tenancy.Independent
import Erbridge.Tenancy.AdminIssue
import Erbridge.Core.Thin
import Erbridge.Core.History
import Erbridge.Core.Listener
import Erbridge.Forward.UdpListener
import Erbridge.Forward.AcceptLoops
import Erbridge.Reverse.AcceptLoops
import Erbridge.Hub.Without
import Erbridge.Hub.ControlLoop
import Erbridge.Hub.SniLoop
import Erbridge.ListeningLoops
import Erbridge.Noise.Hex
import Erbridge.Core.Channel
import Erbridge.Proxy.Splice
import Erbridge.Client.LocalConn
import Erbridge.Client.TlsTunnel
import Erbridge.Client.NoiseTunnel
import Erbridge.Core.Reader
import Erbridge.Core.Tagged
import Erbridge.Reverse.Dial
import Erbridge.Reverse.Json
import Erbridge.Hub.CatchUp
import Erbridge.Stats.LogFile
import Erbridge.Stats.Sinks
import Erbridge.Hub.Enroll
import Erbridge.Sni.Peek
import Erbridge.Hub.Visit
import Erbridge.Core.Progress
import Erbridge.Reverse.Delivers
