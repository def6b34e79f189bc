import Erbridge.Core.Listener
import Erbridge.Forward.Conn
import Erbridge.Stats.Handlers

/-!
# The accept loops of `forward` and `client`

The loops of `run_tcp_forward` and `run_client_map`: each hands a connection to a task, which shares
nothing with the others, and lets an error of `accept` end the loop.

* `tcpListener` — the tasks are those of `Forward.Conn`.
* `clientMapListener` — the tasks are `handle_local_conn` by its await points.
-/

namespace Erbridge
namespace Forward

open Erbridge.Core (Handler Listener Spawner)
open Config (ForwardRule)
open Noise (Snow)
open Stats (Outcome Progress)

/-- `handle_tcp_conn` has returned. -/
def Phase.isClosed {S : Snow} : Phase S → Bool
  | .closed => true
  | _ => false

/-- `handle_tcp_conn`. -/
def handleTcpConn (S : Snow) (security : ConnSecurity) (rule : ForwardRule) :
    Handler (Conn S) Conn.Event where
  start := Conn.start S security
  step := Conn.step rule
  isOver w := w.phase.isClosed

/-- `handle_local_conn`. -/
def handleLocalConn : Handler Progress Outcome where
  start := .awaiting .connectServer
  step := Progress.resume
  isOver k := k = .returned

/-- The loop of `run_tcp_forward`. -/
def tcpListener (S : Snow) (security : ConnSecurity) (rule : ForwardRule) : Listener :=
  Spawner.listener .propagates (handleTcpConn S security rule)

/-- The loop of `run_client_map`. -/
def clientMapListener : Listener := Spawner.listener .propagates handleLocalConn

end Forward
end Erbridge
