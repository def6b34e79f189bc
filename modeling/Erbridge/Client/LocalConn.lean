import Erbridge.Core.Channel
import Erbridge.Forward.Conn
import Erbridge.Noise.Pair

/-!
# From the local listener of `client` to a forwarder

The model of `handle_local_conn` of `client.rs` up to where it has its stream, and of the two ends that a
connection to a forwarder has then: `handle_local_conn` here, `handle_tcp_conn` there.  The transport
in between shortens polls and puts them off, but it does not fail; over TLS it carries what the library
decrypts.

* `Phase.step` — one poll of the remote stream on the way.
* `Link` — the two ends; `tunnel` is the channel that they are.
-/

namespace Erbridge
namespace Client

open Erbridge.Core
open Config (ClientRule ForwardRule)
open Forward (Conn ConnSecurity)
open Noise (Psk Snow Peer reliableRead reliableWrite)
open Reverse (FrameWrite utf8)

/-- Where `handle_local_conn` is. -/
inductive Phase (S : Snow)
  /-- `TcpStream::connect(&rule.server)`. -/
  | connecting
  /-- `connector.connect(server_name, remote)`. -/
  | tlsConnecting
  /-- `write_frame(&mut tls_stream, token.as_bytes())`. -/
  | sendingToken (f : FrameWrite)
  /-- `tls_stream.read_exact(&mut ack)`. -/
  | readingAck
  /-- `noise::connect(remote, &psk)`. -/
  | noiseConnecting (peer : Peer S)
  /-- It has the `Box<dyn AsyncStream>` of the remote side. -/
  | secured (stream : Forward.Client S)
  | closed

namespace Phase

variable {S : Snow}

/-- What comes of the Noise handshake. -/
def settled : Peer S → Phase S
  | .up session stream => .secured (.noise session stream)
  | .failed => .closed
  | peer => .noiseConnecting peer

/-- What comes of the frame with the token. -/
def sending : FrameWrite → Phase S
  | .done => .readingAck
  | .failed _ => .closed
  | f => .sendingToken f

/-- The server is reached. -/
def connected (S : Snow) (derivePsk : String → Psk) (rule : ClientRule) : Phase S :=
  match rule.transport with
  | .tls => .tlsConnecting
  | .noise =>
      match rule.token with
      | none => .closed -- `expect` panics, in the task of this connection
      | some token => settled (Peer.connect S (derivePsk token))

/-- The TLS handshake is completed. -/
def tlsConnected (S : Snow) (rule : ClientRule) : Phase S :=
  match rule.token with
  | none => .secured .tls
  | some token => sending (FrameWrite.start (utf8 token.toList))

/-- `read_exact` was polled for the byte that acknowledges the token. -/
def acked (p : Poll Bytes) : Phase S :=
  match readExact [] p with
  | .failed _ => .closed
  | .got [] => .readingAck
  | .got ack => if ack = [1] then .secured .tls else .closed

inductive Event
  | connect (ok : Bool)
  /-- The TLS handshake succeeds or fails. -/
  | tlsConnect (ok : Bool)
  /-- The frame with the token, or the Noise handshake, polls for a write. -/
  | write (a : WriteAnswer)
  /-- The Noise handshake polls for a read, or the acknowledgement is awaited. -/
  | read (a : ReadAnswer)
deriving DecidableEq

/-- A transport that does not fail. -/
def Event.reliable : Event → Bool
  | .write a => reliableWrite a
  | .read a => reliableRead a
  | .connect _ | .tlsConnect _ => true

/-- With the direction to the server and the one from it. -/
def step (derivePsk : String → Psk) (rule : ClientRule) (out inc : Wire) (phase : Phase S) :
    Event → Option (Phase S × Wire × Wire)
  | .connect ok =>
      match phase with
      | .connecting => some (if ok then connected S derivePsk rule else .closed, out, inc)
      | _ => none
  | .tlsConnect ok =>
      match phase with
      | .tlsConnecting => some (if ok then tlsConnected S rule else .closed, out, inc)
      | _ => none
  | .write a =>
      match phase with
      | .sendingToken f =>
          let p := f.step out a
          some (sending p.1, p.2, inc)
      | .noiseConnecting peer => (peer.handshakeWrite out a).map fun p => (settled p.1, p.2, inc)
      | _ => none
  | .read a =>
      match phase with
      | .readingAck =>
          let p := inc.pollRead 1 a
          some (acked p.1, out, p.2)
      | .noiseConnecting peer => (peer.handshakeRead inc a).map fun p => (settled p.1, out, p.2)
      | _ => none

end Phase

/-- The two ends of a connection from `client` to `forward`.  The far one is followed up to where it is
about to connect to the target; the wires are its own. -/
structure Link (S : Snow) where
  near : Phase S
  far : Conn S

namespace Link

variable {S : Snow}

/-- What lies in the direction out of an end. -/
def wire (l : Link S) : End → Wire
  | .near => l.far.inc
  | .far => l.far.out

/-- The stream of an end that has one. -/
def stream (l : Link S) : End → Option (Forward.Client S)
  | .near =>
      match l.near with
      | .secured stream => some stream
      | _ => none
  | .far =>
      match l.far.phase with
      | .dialing stream => some stream
      | _ => none

/-- The state after an end has polled its stream. -/
def put (l : Link S) (x : End) (stream : Forward.Client S) (out inc : Wire) : Link S :=
  match x with
  | .near => { near := .secured stream, far := { l.far with inc := out, out := inc } }
  | .far => { l with far := { l.far with phase := .dialing stream, inc := inc, out := out } }

/-- The end is gone, and with it the direction out of it ends where it is. -/
def drop (l : Link S) : End → Link S
  | .near => { near := .closed, far := { l.far with inc := { l.far.inc with ended := true } } }
  | .far =>
      { l with far := { l.far with phase := .closed, out := { l.far.out with ended := true } } }

inductive Event
  | near (e : Phase.Event)
  | far (e : Conn.Event)

/-- A step of `handle_tcp_conn` on its way to the stream, over a transport that does not fail. -/
def opening : Conn.Event → Bool
  | .tlsAccept _ => true
  | .readToken a | .noiseRead a => reliableRead a
  | .answer a | .noiseWrite a => reliableWrite a
  | .peerSends _ | .peerEnds | .dial _ | .pumpRead _ | .pumpWrite _ | .close => false

def move (derivePsk : String → Psk) (client : ClientRule) (rule : ForwardRule) (l : Link S) :
    Event → Option (Link S)
  | .near e =>
      if e.reliable then
        (l.near.step derivePsk client l.far.inc l.far.out e).map fun p =>
          { near := p.1, far := { l.far with inc := p.2.1, out := p.2.2 } }
      else none
  | .far e =>
      if opening e then (l.far.step rule e).map fun far => { l with far := far } else none

def pollWrite (l : Link S) (x : End) (buf : Bytes) (script : List WriteAnswer) :
    Option (Poll Nat × Link S) :=
  if script.all reliableWrite then
    (l.stream x).map fun stream =>
      let p := stream.pollWrite buf (l.wire x) script
      (p.1, l.put x p.2.1 p.2.2 (l.wire x.other))
  else none

def pollRead (l : Link S) (x : End) (script : List ReadAnswer) : Option (Poll Bytes × Link S) :=
  if script.all reliableRead then
    (l.stream x).map fun stream =>
      let p := stream.pollRead (l.wire x.other) script
      (p.1, l.put x p.2.1 (l.wire x) p.2.2)
  else none

def pollShutdown (l : Link S) (x : End) (script : List WriteAnswer) : Option (Poll Unit × Link S) :=
  if script.all reliableWrite then
    (l.stream x).map fun stream =>
      let p := stream.pollShutdown (l.wire x) script
      (p.1, l.put x p.2.1 p.2.2 (l.wire x.other))
  else none

end Link

/-- A connection that `client` makes to a mapping of `forward` for a rule of its own. -/
def tunnel (S : Snow) (derivePsk : String → Psk) (client : ClientRule) (rule : ForwardRule)
    (security : ConnSecurity) : Channel where
  State := Link S
  Event := Link.Event
  start := ⟨.connecting, Conn.start S security⟩
  move := Link.move derivePsk client rule
  isOpen l x := (l.stream x).isSome
  write := Link.pollWrite
  read := Link.pollRead
  shutdown := Link.pollShutdown
  drop := Link.drop

/-- A mapping of `client` for examples. -/
def mapping (transport : Config.Transport) (token : Option String) : ClientRule where
  name := none
  listen := "127.0.0.1:5432"
  server := "db:7000"
  transport := transport
  token := token

/-- The mapping of `forward` that it is for. -/
def listener (transport : Config.Transport) (token : Option String) : ForwardRule where
  name := none
  listen := "0.0.0.0:7000"
  target := "127.0.0.1:5432"
  protocol := .tcp
  udpIdleSecs := 60
  transport := some transport
  token := token

end Client
end Erbridge
