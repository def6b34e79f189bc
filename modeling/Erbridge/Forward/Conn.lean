import Erbridge.Config.Roles
import Erbridge.Noise.Handshake
import Erbridge.Proxy.Pump
import Erbridge.Reverse.Limits

/-!
# A connection to the TCP listener of a rule

The model of `handle_tcp_conn` of `forward.rs`: how the connection is secured, the token where there is
one, the connection to the target, and the copy loop from the client to the target.  One step is one
poll of the client's stream or of the target's.  The TLS library is free to do what it likes: its
handshake succeeds or fails, and what it decrypts is what comes in.

* `constantTimeEq_iff` — the comparison of tokens compares them.
* `Conn.step` — the executable step function.
* `Conn.Authenticated` — the peer has completed the transport's handshake and has proved the token.
* `Conn.Inv` — nothing is written to the target of a connection before that.
-/

namespace Erbridge
namespace Forward

open Erbridge.Core
open Config (ForwardRule)
open Noise (Psk Snow Peer NoiseStream maxMessage)
open Proxy (Pump bufSize)
open Reverse (FrameRead FrameWrite maxTokenLen utf8)

/-- `constant_time_eq`. -/
def constantTimeEq (a b : Bytes) : Bool :=
  if a.length ≠ b.length then false
  else (a.zip b).foldl (fun diff p => diff ||| (p.1 ^^^ p.2)) 0 = 0

/-- The difference that is found stays. -/
theorem foldl_diff_eq_zero_iff {a b : Bytes} (h : a.length = b.length) (diff : UInt8) :
    (a.zip b).foldl (fun diff p => diff ||| (p.1 ^^^ p.2)) diff = 0 ↔ diff = 0 ∧ a = b := by
  induction a generalizing b diff with
  | nil =>
      obtain rfl : b = [] := List.length_eq_zero_iff.1 h.symm
      simp
  | cons x a ih =>
      cases b with
      | nil => cases h
      | cons y b =>
          rw [List.zip_cons_cons, List.foldl_cons, ih (Nat.succ.inj h)]
          simp only [UInt8.or_eq_zero_iff, UInt8.xor_eq_zero_iff, List.cons.injEq, and_assoc]

/-- Every byte is compared. -/
theorem constantTimeEq_iff {a b : Bytes} : constantTimeEq a b = true ↔ a = b := by
  unfold constantTimeEq
  split
  · rename_i hlen
    simp only [Bool.false_eq_true, false_iff]
    exact fun heq => hlen (congrArg List.length heq)
  · rename_i hlen
    rw [decide_eq_true_eq, foldl_diff_eq_zero_iff (by simpa using hlen)]
    simp

/-- What is needed to secure a connection. -/
inductive ConnSecurity
  | plain
  | tls
  | noise (psk : Psk)

/-- What `run_tcp_forward` builds for a rule; it panics where a Noise rule has no token. -/
def ConnSecurity.new (derivePsk : String → Psk) (rule : ForwardRule) : Option ConnSecurity :=
  match rule.transport with
  | none => some .plain
  | some .tls => some .tls
  | some .noise => rule.token.map fun token => .noise (derivePsk token)

/-- `validate` keeps such rules away. -/
theorem ConnSecurity.new_isSome (derivePsk : String → Psk) {rule : ForwardRule}
    (h : rule.validate = .ok ()) : (ConnSecurity.new derivePsk rule).isSome = true := by
  have hnoise := ForwardRule.validate_eq_ok_iff.1 h
  unfold ConnSecurity.new
  cases htransport : rule.transport with
  | none => rfl
  | some transport =>
      cases transport with
      | tls => rfl
      | noise =>
          obtain ⟨token, htoken⟩ := Option.ne_none_iff_exists'.1 (hnoise htransport)
          simp [htoken]

/-- The `Box<dyn AsyncStream>` of the client. -/
inductive Client (S : Snow)
  | plain
  | tls
  | noise (session : S.Session) (stream : NoiseStream)

/-- `poll_read` into the buffer of the copy loop; a socket is polled once. -/
def Client.pollRead {S : Snow} (client : Client S) (inc : Wire) (script : List ReadAnswer) :
    Poll Bytes × Client S × Wire :=
  match client with
  | .plain | .tls =>
      match script with
      | [] => (.pending, client, inc)
      | a :: _ =>
          let p := inc.pollRead bufSize a
          (p.1, client, p.2)
  | .noise session stream =>
      let r := stream.pollRead (S.cipher session) bufSize inc script
      (r.answer, .noise session r.stream, r.wire)

/-- `poll_write`; a socket is polled once. -/
def Client.pollWrite {S : Snow} (client : Client S) (buf : Bytes) (out : Wire)
    (script : List WriteAnswer) : Poll Nat × Client S × Wire :=
  match client with
  | .plain | .tls =>
      match script with
      | [] => (.pending, client, out)
      | a :: _ =>
          let p := out.pollWrite buf a
          (p.1, client, p.2)
  | .noise session stream =>
      let r := stream.pollWrite (S.cipher session) buf out script
      (r.answer, .noise session r.stream, r.wire)

/-- `poll_shutdown`. -/
def Client.pollShutdown {S : Snow} (client : Client S) (out : Wire) (script : List WriteAnswer) :
    Poll Unit × Client S × Wire :=
  match client with
  | .plain | .tls =>
      match script with
      | [] => (.pending, client, out)
      | a :: _ =>
          let p := out.pollShutdown a
          (p.1, client, p.2)
  | .noise session stream =>
      let r := stream.pollShutdown out script
      (r.answer, .noise session r.stream, r.wire)

/-- The cursors of a Noise stream are inside its buffers. -/
def Client.Ok {S : Snow} : Client S → Prop
  | .plain | .tls => True
  | .noise _ stream => stream.Ok

/-- Where `handle_tcp_conn` is. -/
inductive Phase (S : Snow)
  /-- `acceptor.accept(client)`. -/
  | tlsAccepting
  | readingToken (f : FrameRead)
  /-- `tls_stream.write_all(&[1u8])`. -/
  | accepting (rest : Bytes)
  /-- `tls_stream.write_all(&[0u8])`. -/
  | rejecting (rest : Bytes)
  /-- `noise::accept(client, &psk)`. -/
  | noiseAccepting (peer : Peer S)
  /-- `TcpStream::connect(&rule.target)`. -/
  | dialing (client : Client S)
  /-- `pipe_bidirectional_tracked`, of which this is the loop towards the target. -/
  | piping (client : Client S) (pump : Pump)
  | closed

/-- One connection. -/
structure Conn (S : Snow) where
  phase : Phase S
  /-- What the peer sends: over the TLS session where the rule's transport is TLS. -/
  inc : Wire
  /-- What the peer is sent, in the same way. -/
  out : Wire
  target : Wire
  /-- The TLS library has completed the handshake; not part of the code's state. -/
  tlsUp : Bool

namespace Conn

variable {S : Snow}

/-- A connection was accepted. -/
def start (S : Snow) (security : ConnSecurity) : Conn S where
  phase :=
    match security with
    | .plain => .dialing .plain
    | .tls => .tlsAccepting
    | .noise psk => .noiseAccepting (Peer.accept S psk)
  inc := Wire.empty
  out := Wire.empty
  target := Wire.empty
  tlsUp := false

inductive Event
  /-- The peer sends bytes. -/
  | peerSends (bytes : Bytes)
  | peerEnds
  /-- The TLS handshake succeeds or fails. -/
  | tlsAccept (ok : Bool)
  /-- `read_frame` polls for the token. -/
  | readToken (a : ReadAnswer)
  /-- `write_all` polls with the answer to the token. -/
  | answer (a : WriteAnswer)
  /-- The Noise handshake polls for a read. -/
  | noiseRead (a : ReadAnswer)
  /-- The Noise handshake polls for a write. -/
  | noiseWrite (a : WriteAnswer)
  /-- The target is reached or not. -/
  | dial (ok : Bool)
  /-- The copy loop polls the client's stream. -/
  | pumpRead (script : List ReadAnswer)
  /-- The copy loop polls the target, to write or to shut down. -/
  | pumpWrite (a : WriteAnswer)
  /-- The connection is over. -/
  | close
deriving DecidableEq

/-- The TLS handshake is completed. -/
def tlsAccepted (rule : ForwardRule) : Phase S :=
  match rule.token with
  | none => .dialing .tls
  | some _ => .readingToken FrameRead.start

/-- The peer has presented a token. -/
def presented (rule : ForwardRule) (token : Bytes) : Phase S :=
  match rule.token with
  | none => .closed
  | some expected =>
      if constantTimeEq token (utf8 expected.toList) then .accepting [1] else .rejecting [0]

/-- What comes of the Noise handshake. -/
def settled : Peer S → Phase S
  | .up session stream => .dialing (.noise session stream)
  | .failed => .closed
  | peer => .noiseAccepting peer

def step (rule : ForwardRule) (w : Conn S) : Event → Option (Conn S)
  | .peerSends bytes =>
      if w.inc.ended then none else some { w with inc := w.inc.push bytes }
  | .peerEnds => some { w with inc := { w.inc with ended := true } }
  | .tlsAccept ok =>
      match w.phase with
      | .tlsAccepting =>
          if ok then some { w with phase := tlsAccepted rule, tlsUp := true }
          else some { w with phase := .closed }
      | _ => none
  | .readToken a =>
      match w.phase with
      | .readingToken f =>
          let p := f.step maxTokenLen w.inc a
          match p.1 with
          | .done token => some { w with phase := presented rule token, inc := p.2 }
          | .failed _ => some { w with phase := .closed, inc := p.2 }
          | g => some { w with phase := .readingToken g, inc := p.2 }
      | _ => none
  | .answer a =>
      match w.phase with
      | .accepting rest =>
          let p := w.out.pollWrite rest a
          match writeAll rest p.1 with
          | .failed _ => some { w with phase := .closed, out := p.2 }
          | .rest [] => some { w with phase := .dialing .tls, out := p.2 }
          | .rest more => some { w with phase := .accepting more, out := p.2 }
      | .rejecting rest =>
          let p := w.out.pollWrite rest a
          match writeAll rest p.1 with
          | .failed _ | .rest [] => some { w with phase := .closed, out := p.2 }
          | .rest more => some { w with phase := .rejecting more, out := p.2 }
      | _ => none
  | .noiseRead a =>
      match w.phase with
      | .noiseAccepting peer =>
          (peer.handshakeRead w.inc a).map fun p => { w with phase := settled p.1, inc := p.2 }
      | _ => none
  | .noiseWrite a =>
      match w.phase with
      | .noiseAccepting peer =>
          (peer.handshakeWrite w.out a).map fun p => { w with phase := settled p.1, out := p.2 }
      | _ => none
  | .dial ok =>
      match w.phase with
      | .dialing client =>
          if ok then some { w with phase := .piping client .reading }
          else some { w with phase := .closed }
      | _ => none
  | .pumpRead script =>
      match w.phase with
      | .piping client pump =>
          if pump.isReading then
            let p := client.pollRead w.inc script
            some { w with phase := .piping p.2.1 (Pump.onRead p.1), inc := p.2.2 }
          else none
      | _ => none
  | .pumpWrite a =>
      match w.phase with
      | .piping client (.writing rest n) =>
          let p := w.target.pollWrite rest a
          some { w with phase := .piping client (Pump.onWrite rest n p.1).1, target := p.2 }
      | .piping client .shuttingDown =>
          let p := w.target.pollShutdown a
          some { w with phase := .piping client (Pump.onShutdown p.1), target := p.2 }
      | _ => none
  | .close => some { w with phase := .closed }

/-! ## What has been proved by the peer -/

/-- As a responder with this PSK the library has taken message 1 of the peer, made message 2 and gone
into transport mode. -/
def NoiseCompleted (S : Snow) (psk : Psk) (inc out : Bytes) : Prop :=
  ∃ message reply responded matched replied session, S.responder psk = some responded
    ∧ S.read responded message = some matched ∧ S.writeMessage matched = some (reply, replied)
    ∧ S.intoTransport replied = some session ∧ frame message <+: inc ∧ frame reply <+: out

/-- The peer has completed the handshake of the rule's transport, and it has proved the token, if the
rule has one: as the PSK of Noise, or as the first frame that it sent over TLS. -/
def Authenticated (derivePsk : String → Psk) (rule : ForwardRule) (w : Conn S) : Prop :=
  match rule.transport with
  | none => True
  | some .tls => w.tlsUp = true
      ∧ ∀ token, rule.token = some token → frame (utf8 token.toList) <+: w.inc.carried
  | some .noise => ∃ token, rule.token = some token
      ∧ NoiseCompleted S (derivePsk token) w.inc.carried w.out.carried

variable {derivePsk : String → Psk} {rule : ForwardRule} {w w' : Conn S}

/-- What was proved stays so when more is sent. -/
theorem Authenticated.mono (h : w.Authenticated derivePsk rule)
    (htls : w.tlsUp = true → w'.tlsUp = true)
    (hinc : w.inc.carried <+: w'.inc.carried) (hout : w.out.carried <+: w'.out.carried) :
    w'.Authenticated derivePsk rule := by
  unfold Authenticated at h ⊢
  cases htransport : rule.transport with
  | none => trivial
  | some transport =>
      rw [htransport] at h
      cases transport with
      | tls => exact ⟨htls h.1, fun token htoken => (h.2 token htoken).trans hinc⟩
      | noise =>
          obtain ⟨token, htoken, message, reply, responded, matched, replied, session, hresponder,
            hread, hwrite, hup, hmessage, hreply⟩ := h
          exact ⟨token, htoken, message, reply, responded, matched, replied, session, hresponder, hread,
            hwrite, hup, hmessage.trans hinc, hreply.trans hout⟩

/-- What is known of an acceptor with one PSK. -/
def PeerOk (psk : Psk) (w : Conn S) : Peer S → Prop
  | .readFirst f psks => psks = [psk] ∧ f.Ok maxMessage ∧ f.held = w.inc.read ∧ w.out.carried = []
  | .sendSecond f hs => f.Ok ∧ ∃ message reply responded matched, S.responder psk = some responded
      ∧ S.read responded message = some matched ∧ S.writeMessage matched = some (reply, hs)
      ∧ frame message <+: w.inc.carried ∧ w.out.carried ++ f.unsent = frame reply
  | _ => False

/-- What is known of each phase. -/
def PhaseOk (derivePsk : String → Psk) (rule : ForwardRule) (w : Conn S) : Phase S → Prop
  | .tlsAccepting => rule.transport = some .tls ∧ w.inc.read = []
  | .readingToken f => rule.transport = some .tls ∧ w.tlsUp = true ∧ f.Ok maxTokenLen
      ∧ f.held = w.inc.read
  | .accepting _ => w.Authenticated derivePsk rule
  | .noiseAccepting peer => rule.transport = some .noise
      ∧ ∃ token, rule.token = some token ∧ PeerOk (derivePsk token) w peer
  | .dialing client | .piping client _ => client.Ok ∧ w.Authenticated derivePsk rule
  | .rejecting _ | .closed => True

/-- What is known of a connection. -/
structure Inv (derivePsk : String → Psk) (rule : ForwardRule) (w : Conn S) : Prop where
  phase : PhaseOk derivePsk rule w w.phase
  taken : w.inc.taken ≤ w.inc.carried.length
  sent : w.target.carried ≠ [] → w.Authenticated derivePsk rule

theorem inv_start {security : ConnSecurity} (h : ConnSecurity.new derivePsk rule = some security) :
    Inv derivePsk rule (start S security) := by
  refine ⟨?_, Nat.le_refl 0, fun hne => absurd rfl hne⟩
  unfold ConnSecurity.new at h
  cases htransport : rule.transport with
  | none =>
      simp only [htransport, Option.some.injEq] at h
      subst h
      exact ⟨trivial, by simp [Authenticated, htransport]⟩
  | some transport =>
      cases transport with
      | tls =>
          simp only [htransport, Option.some.injEq] at h
          subst h
          exact ⟨htransport, rfl⟩
      | noise =>
          simp only [htransport, Option.map_eq_some_iff] at h
          obtain ⟨token, htoken, rfl⟩ := h
          exact ⟨htransport, token, htoken, rfl, FrameRead.start_ok _, rfl, rfl⟩

/-- A step that writes nothing to the target. -/
theorem Inv.next (hi : Inv derivePsk rule w) (hphase : PhaseOk derivePsk rule w' w'.phase)
    (htaken : w'.inc.taken ≤ w'.inc.carried.length) (htls : w.tlsUp = true → w'.tlsUp = true)
    (hinc : w.inc.carried <+: w'.inc.carried) (hout : w.out.carried <+: w'.out.carried)
    (htarget : w'.target = w.target) : Inv derivePsk rule w' where
  phase := hphase
  taken := htaken
  sent := by
    intro hne
    rw [htarget] at hne
    exact (hi.sent hne).mono htls hinc hout

theorem Inv.close (hi : Inv derivePsk rule w) :
    Inv derivePsk rule ({ w with phase := .closed } : Conn S) :=
  have hclosed : PhaseOk derivePsk rule ({ w with phase := .closed } : Conn S) .closed := trivial
  hi.next hclosed hi.taken id (List.prefix_refl _) (List.prefix_refl _) rfl

/-- When more comes in, what is known of the phase stays so. -/
theorem PhaseOk.receive (h : PhaseOk derivePsk rule w w.phase) (inc : Wire)
    (hread : inc.read = w.inc.read) (hmore : w.inc.carried <+: inc.carried) :
    PhaseOk derivePsk rule { w with inc := inc } w.phase := by
  have hmono : w.Authenticated derivePsk rule →
      ({ w with inc := inc } : Conn S).Authenticated derivePsk rule :=
    fun h => h.mono id hmore (List.prefix_refl _)
  cases hp : w.phase with
  | rejecting rest | closed => trivial
  | tlsAccepting =>
      rw [hp] at h
      exact ⟨h.1, hread.trans h.2⟩
  | readingToken f =>
      rw [hp] at h
      obtain ⟨htransport, hup, hok, hheld⟩ := h
      exact ⟨htransport, hup, hok, hheld.trans hread.symm⟩
  | accepting rest =>
      rw [hp] at h
      exact hmono h
  | dialing client =>
      rw [hp] at h
      exact ⟨h.1, hmono h.2⟩
  | piping client pump =>
      rw [hp] at h
      exact ⟨h.1, hmono h.2⟩
  | noiseAccepting peer =>
      rw [hp] at h
      obtain ⟨htransport, token, htoken, hpeer⟩ := h
      refine ⟨htransport, token, htoken, ?_⟩
      cases peer with
      | readFirst f psks =>
          obtain ⟨hpsks, hok, hheld, hout⟩ := hpeer
          exact ⟨hpsks, hok, hheld.trans hread.symm, hout⟩
      | sendSecond f hs =>
          obtain ⟨hok, message, reply, responded, matched, hresponder, hmatched, hwrite, hmessage,
            hreply⟩ := hpeer
          exact ⟨hok, message, reply, responded, matched, hresponder, hmatched, hwrite,
            hmessage.trans hmore, hreply⟩
      | sendFirst f hs | readSecond f hs | up session stream | failed => exact hpeer.elim

/-- What a `read_frame` has to do with the wire that it reads from. -/
def Reads (limit : Nat) (wire : Wire) : FrameRead → Prop
  | .done data => frame data <+: wire.carried
  | .failed _ => True
  | f => f.Ok limit ∧ f.held = wire.read

/-- A poll of a `read_frame` that has read all that was read of its wire. -/
theorem reads_step {limit : Nat} {f : FrameRead} {wire : Wire} (hok : f.Ok limit)
    (hheld : f.held = wire.read) (htaken : wire.taken ≤ wire.carried.length) (a : ReadAnswer) :
    (f.step limit wire a).2.carried = wire.carried
      ∧ (f.step limit wire a).2.taken ≤ (f.step limit wire a).2.carried.length
      ∧ Reads limit (f.step limit wire a).2 (f.step limit wire a).1 := by
  obtain ⟨got, hwire, hunread, hout⟩ := FrameRead.step_spec hok wire a
  rw [hwire] at hunread
  obtain ⟨hread, -⟩ := Wire.read_advance hunread
  rw [hwire]
  refine ⟨rfl, Wire.taken_advance_le hunread htaken, ?_⟩
  rw [← hheld] at hread
  generalize (f.step limit wire a).1 = g at hout
  cases hout with
  | going hok' hheld' =>
      have hboth := And.intro hok' (hheld'.trans hread.symm)
      cases g with
      | header got | body len got => exact hboth
      | done data | failed e => exact absurd hok' (by simp [FrameRead.Ok])
  | @done data hle hlt hframe =>
      show frame data <+: wire.carried
      rw [← hframe, ← hread]
      exact List.take_prefix _ _
  | tooLarge | eof | error => trivial

theorem inv_readToken {f : FrameRead} (hi : Inv derivePsk rule w) (hp : w.phase = .readingToken f)
    {a : ReadAnswer} (hstep : w.step rule (.readToken a) = some w') : Inv derivePsk rule w' := by
  have hphase := hi.phase
  rw [hp] at hphase
  obtain ⟨htransport, hup, hok, hheld⟩ := hphase
  obtain ⟨hcarried, htaken, hreads⟩ := reads_step hok hheld hi.taken a
  have hnext : ∀ phase, PhaseOk derivePsk rule
      { w with phase := phase, inc := (f.step maxTokenLen w.inc a).2 } phase →
      Inv derivePsk rule { w with phase := phase, inc := (f.step maxTokenLen w.inc a).2 } :=
    fun phase h => hi.next h htaken id (by simp [hcarried]) (List.prefix_refl _) rfl
  simp only [step, hp] at hstep
  cases hg : (f.step maxTokenLen w.inc a).1 with
  | done token =>
      rw [hg] at hstep hreads
      obtain rfl := Option.some.inj hstep
      refine hnext _ ?_
      unfold presented
      cases htoken : rule.token with
      | none => trivial
      | some expected =>
          simp only
          split
          · rename_i heq
            rw [constantTimeEq_iff] at heq
            subst heq
            show Authenticated derivePsk rule _
            simp only [Authenticated, htransport, htoken, Option.some.injEq]
            refine ⟨hup, ?_⟩
            rintro token rfl
            exact hreads
          · trivial
  | failed e =>
      rw [hg] at hstep
      obtain rfl := Option.some.inj hstep
      exact hnext .closed trivial
  | header got | body len got =>
      rw [hg] at hstep hreads
      obtain rfl := Option.some.inj hstep
      exact hnext (.readingToken _) ⟨htransport, hup, hreads⟩

theorem inv_answer (hi : Inv derivePsk rule w) {a : WriteAnswer}
    (hstep : w.step rule (.answer a) = some w') : Inv derivePsk rule w' := by
  have hphase := hi.phase
  have hnext : ∀ (rest : Bytes) (phase : Phase S), PhaseOk derivePsk rule
      { w with phase := phase, out := (w.out.pollWrite rest a).2 } phase →
      Inv derivePsk rule { w with phase := phase, out := (w.out.pollWrite rest a).2 } := by
    intro rest phase h
    obtain ⟨pushed, hpush, -⟩ := w.out.pollWrite_pushes rest a
    refine hi.next h hi.taken id (List.prefix_refl _) ?_ rfl
    rw [hpush]
    exact List.prefix_append _ _
  simp only [step] at hstep
  split at hstep
  · rename_i rest hp
    rw [hp] at hphase
    have hauth : ∀ phase : Phase S,
        ({ w with phase := phase, out := (w.out.pollWrite rest a).2 } : Conn S).Authenticated
          derivePsk rule := by
      intro phase
      obtain ⟨pushed, hpush, -⟩ := w.out.pollWrite_pushes rest a
      refine hphase.mono id (List.prefix_refl _) ?_
      rw [hpush]
      exact List.prefix_append _ _
    split at hstep
    · obtain rfl := Option.some.inj hstep
      exact hnext rest .closed trivial
    · obtain rfl := Option.some.inj hstep
      exact hnext rest (.dialing .tls) ⟨trivial, hauth _⟩
    · rename_i more _ _
      obtain rfl := Option.some.inj hstep
      exact hnext rest (.accepting more) (hauth _)
  · rename_i rest hp
    split at hstep
    · obtain rfl := Option.some.inj hstep
      exact hnext rest .closed trivial
    · obtain rfl := Option.some.inj hstep
      exact hnext rest .closed trivial
    · rename_i more _ _
      obtain rfl := Option.some.inj hstep
      exact hnext rest (.rejecting more) trivial
  · cases hstep

/-- What `accept` makes of message 1. -/
theorem settled_gotFirst_ok (psk : Psk) (w : Conn S) {message : Bytes}
    (hmessage : frame message <+: w.inc.carried) (hout : w.out.carried = []) :
    Peer.gotFirst [psk] message = (.failed : Peer S) ∨
      ∃ f hs, Peer.gotFirst [psk] message = (.sendSecond f hs : Peer S)
        ∧ PeerOk psk w (.sendSecond f hs) := by
  unfold Peer.gotFirst
  cases htry : Peer.tryPsks S message [psk] 0 none with
  | none => exact Or.inl rfl
  | some found =>
      obtain ⟨index, matched⟩ := found
      obtain ⟨responded, hresponder, hread⟩ := Peer.tryPsks_singleton htry
      dsimp only
      cases hwrite : S.writeMessage matched with
      | none => exact Or.inl rfl
      | some made =>
          obtain ⟨reply, replied⟩ := made
          have hfits : reply.length < 65536 :=
            Nat.lt_succ_of_le (Snow.length_of_writeMessage hwrite)
          refine Or.inr ⟨_, _, rfl, FrameWrite.start_ok hfits, message, reply, responded, matched,
            hresponder, hread, hwrite, hmessage, ?_⟩
          rw [FrameWrite.unsent_start hfits, hout, List.nil_append]

theorem inv_noiseRead (hi : Inv derivePsk rule w) {a : ReadAnswer}
    (hstep : w.step rule (.noiseRead a) = some w') : Inv derivePsk rule w' := by
  have hphase := hi.phase
  simp only [step] at hstep
  split at hstep
  · rename_i peer hp
    rw [hp] at hphase
    obtain ⟨htransport, token, htoken, hpeer⟩ := hphase
    obtain ⟨p, hread, rfl⟩ := Option.map_eq_some_iff.1 hstep
    cases peer with
    | readFirst f psks =>
        obtain ⟨rfl, hok, hheld, hout⟩ := hpeer
        obtain ⟨hcarried, htaken, hreads⟩ := reads_step hok hheld hi.taken a
        have hnext : ∀ phase, PhaseOk derivePsk rule
            { w with phase := phase, inc := (f.step maxMessage w.inc a).2 } phase →
            Inv derivePsk rule { w with phase := phase, inc := (f.step maxMessage w.inc a).2 } :=
          fun phase h => hi.next h htaken id (by simp [hcarried]) (List.prefix_refl _) rfl
        simp only [Peer.handshakeRead] at hread
        cases hg : (f.step maxMessage w.inc a).1 with
        | done message =>
            rw [hg] at hread hreads
            obtain rfl := Option.some.inj hread
            refine hnext _ ?_
            rcases settled_gotFirst_ok (derivePsk token)
              { w with inc := (f.step maxMessage w.inc a).2 } hreads hout with
              hfailed | ⟨g, hs, hsecond, hok'⟩
            · rw [hfailed]
              trivial
            · rw [hsecond]
              exact ⟨htransport, token, htoken, hok'⟩
        | failed e =>
            rw [hg] at hread
            obtain rfl := Option.some.inj hread
            exact hnext .closed trivial
        | header got | body len got =>
            rw [hg] at hread hreads
            obtain rfl := Option.some.inj hread
            exact hnext (.noiseAccepting (.readFirst _ _))
              ⟨htransport, token, htoken, rfl, hreads.1, hreads.2, hout⟩
    | sendSecond f hs => cases hread
    | sendFirst f hs | readSecond f hs | up session stream | failed => exact hpeer.elim
  · cases hstep

theorem inv_noiseWrite (hi : Inv derivePsk rule w) {a : WriteAnswer}
    (hstep : w.step rule (.noiseWrite a) = some w') : Inv derivePsk rule w' := by
  have hphase := hi.phase
  simp only [step] at hstep
  split at hstep
  · rename_i peer hp
    rw [hp] at hphase
    obtain ⟨htransport, token, htoken, hpeer⟩ := hphase
    obtain ⟨p, hwrite, rfl⟩ := Option.map_eq_some_iff.1 hstep
    cases peer with
    | sendSecond f hs =>
        obtain ⟨hok, message, reply, responded, matched, hresponder, hread, hmade, hmessage, hreply⟩ :=
          hpeer
        have hnext : ∀ phase, w.out.carried <+: (f.step w.out a).2.carried →
            PhaseOk derivePsk rule { w with phase := phase, out := (f.step w.out a).2 } phase →
            Inv derivePsk rule { w with phase := phase, out := (f.step w.out a).2 } :=
          fun phase hout h => hi.next h hi.taken id (List.prefix_refl _) hout rfl
        simp only [Peer.handshakeWrite] at hwrite
        rcases FrameWrite.step_cases hok w.out a with
          ⟨e, heq, -⟩ | ⟨g, pushed, heq, hg, hunsent, -⟩
        · rw [heq] at hwrite hnext
          obtain rfl := Option.some.inj hwrite
          exact hnext .closed (List.prefix_refl _) trivial
        · rw [heq] at hwrite hnext
          have hsent : (w.out.push pushed).carried ++ g.unsent = frame reply := by
            rw [← hreply, hunsent, Wire.carried_push, List.append_assoc]
          have hout : w.out.carried <+: (w.out.push pushed).carried := List.prefix_append _ _
          cases g with
          | done =>
              obtain rfl := Option.some.inj hwrite
              refine hnext _ hout ?_
              unfold Peer.intoStream
              cases hup : S.intoTransport hs with
              | none => trivial
              | some session =>
                  refine ⟨Noise.NoiseStream.new_ok, ?_⟩
                  simp only [Authenticated, htransport]
                  refine ⟨token, htoken, message, reply, responded, matched, hs, session, hresponder,
                    hread, hmade, hup, hmessage, ?_⟩
                  have hall : (w.out.push pushed).carried = frame reply := by
                    rw [← hsent, FrameWrite.unsent, List.append_nil]
                  exact hall ▸ List.prefix_refl _
          | failed e => exact hg.elim
          | header rest bytes | data rest | flushing =>
              obtain rfl := Option.some.inj hwrite
              exact hnext (.noiseAccepting (.sendSecond _ _)) hout ⟨htransport, token, htoken, hg,
                message, reply, responded, matched, hresponder, hread, hmade, hmessage, hsent⟩
    | readFirst f psks => cases hwrite
    | sendFirst f hs | readSecond f hs | up session stream | failed => exact hpeer.elim
  · cases hstep

/-- A read of the client's stream takes bytes off what came in. -/
theorem pollRead_spec {client : Client S} (hclient : client.Ok) (inc : Wire)
    (script : List ReadAnswer) :
    (client.pollRead inc script).2.1.Ok ∧ (client.pollRead inc script).2.2.carried = inc.carried
      ∧ (inc.taken ≤ inc.carried.length → (client.pollRead inc script).2.2.taken
        ≤ (client.pollRead inc script).2.2.carried.length) := by
  have hsocket : ∀ a, (inc.pollRead bufSize a).2.carried = inc.carried
      ∧ (inc.taken ≤ inc.carried.length →
        (inc.pollRead bufSize a).2.taken ≤ (inc.pollRead bufSize a).2.carried.length) := by
    intro a
    obtain ⟨got, rest, hunread, hwire⟩ := inc.pollRead_advances a (by decide : 0 < bufSize)
    rw [hwire]
    exact ⟨rfl, Wire.taken_advance_le hunread⟩
  cases client with
  | plain | tls =>
      cases script with
      | nil => exact ⟨trivial, rfl, id⟩
      | cons a script => exact ⟨trivial, hsocket a⟩
  | noise session stream =>
      obtain ⟨got, log, bad, hread⟩ :=
        NoiseStream.pollRead_spec (S.cipher session) bufSize hclient inc script
      refine ⟨hread.ok, ?_, ?_⟩
      · show (stream.pollRead _ _ _ _).wire.carried = _
        rw [hread.wire_eq, Wire.carried_advance]
      · intro htaken
        show (stream.pollRead _ _ _ _).wire.taken ≤ (stream.pollRead _ _ _ _).wire.carried.length
        rw [hread.wire_eq]
        exact Wire.taken_advance_le hread.unread_eq htaken

theorem inv_pump (hi : Inv derivePsk rule w) {e : Event}
    (he : (∃ script, e = .pumpRead script) ∨ ∃ a, e = .pumpWrite a)
    (hstep : w.step rule e = some w') : Inv derivePsk rule w' := by
  have hphase := hi.phase
  rcases he with ⟨script, rfl⟩ | ⟨a, rfl⟩
  · simp only [step] at hstep
    split at hstep
    · rename_i client pump hp
      rw [hp] at hphase
      obtain ⟨hclient, hauth⟩ := hphase
      split at hstep
      · obtain rfl := Option.some.inj hstep
        obtain ⟨hok, hcarried, htaken⟩ := pollRead_spec hclient w.inc script
        have hinc : w.inc.carried <+: (client.pollRead w.inc script).2.2.carried := by
          simp [hcarried]
        exact hi.next ⟨hok, hauth.mono id hinc (List.prefix_refl _)⟩ (htaken hi.taken) id hinc
          (List.prefix_refl _) rfl
      · cases hstep
    · cases hstep
  · -- The target gets bytes only here, and the peer is authenticated.
    have hwritten : ∀ (client : Client S) (pump : Pump) (target : Wire), client.Ok ∧ w.Authenticated derivePsk rule →
        Inv derivePsk rule { w with phase := .piping client pump, target := target } := by
      rintro client pump target ⟨hclient, hauth⟩
      have hauth' : ({ w with phase := .piping client pump, target := target } : Conn S).Authenticated
          derivePsk rule := hauth.mono id (List.prefix_refl _) (List.prefix_refl _)
      exact ⟨⟨hclient, hauth'⟩, hi.taken, fun _ => hauth'⟩
    simp only [step] at hstep
    split at hstep
    · rename_i client rest n hp
      rw [hp] at hphase
      obtain rfl := Option.some.inj hstep
      exact hwritten _ _ _ hphase
    · rename_i client hp
      rw [hp] at hphase
      obtain rfl := Option.some.inj hstep
      exact hwritten _ _ _ hphase
    · cases hstep

/-- **Nothing reaches the target of a connection before the peer is authenticated.** -/
theorem inv_step (hi : Inv derivePsk rule w) {e : Event} (hstep : w.step rule e = some w') :
    Inv derivePsk rule w' := by
  have hphase := hi.phase
  cases e with
  | peerSends bytes =>
      simp only [step] at hstep
      split at hstep
      · cases hstep
      · obtain rfl := Option.some.inj hstep
        have htaken := hi.taken
        refine hi.next (hphase.receive _ (Wire.read_push htaken) (List.prefix_append _ _)) ?_ id
          (List.prefix_append _ _) (List.prefix_refl _) rfl
        simp only [Wire.taken_push, Wire.carried_push, List.length_append]
        omega
  | peerEnds =>
      obtain rfl := Option.some.inj hstep
      exact hi.next (hphase.receive { w.inc with ended := true } rfl (List.prefix_refl _))
        hi.taken id (List.prefix_refl _) (List.prefix_refl _) rfl
  | tlsAccept ok =>
      simp only [step] at hstep
      split at hstep
      · rename_i hp
        rw [hp] at hphase
        split at hstep
        · obtain rfl := Option.some.inj hstep
          refine hi.next ?_ hi.taken (fun _ => rfl) (List.prefix_refl _) (List.prefix_refl _) rfl
          obtain ⟨htransport, hread⟩ := hphase
          unfold tlsAccepted
          cases htoken : rule.token with
          | none => exact ⟨trivial, by simp [Authenticated, htransport, htoken]⟩
          | some token => exact ⟨htransport, rfl, FrameRead.start_ok _, hread.symm⟩
        · obtain rfl := Option.some.inj hstep
          exact hi.close
      · cases hstep
  | readToken a =>
      cases hp : w.phase with
      | readingToken f => exact inv_readToken hi hp hstep
      | tlsAccepting | accepting rest | rejecting rest | noiseAccepting peer | dialing client
      | piping client pump | closed =>
          simp only [step, hp] at hstep
          cases hstep
  | answer a => exact inv_answer hi hstep
  | noiseRead a => exact inv_noiseRead hi hstep
  | noiseWrite a => exact inv_noiseWrite hi hstep
  | dial ok =>
      simp only [step] at hstep
      split at hstep
      · rename_i client hp
        rw [hp] at hphase
        split at hstep
        · obtain rfl := Option.some.inj hstep
          have hpiping : PhaseOk derivePsk rule { w with phase := .piping client .reading }
              (.piping client .reading) :=
            ⟨hphase.1, hphase.2.mono id (List.prefix_refl _) (List.prefix_refl _)⟩
          exact hi.next hpiping hi.taken id (List.prefix_refl _) (List.prefix_refl _) rfl
        · obtain rfl := Option.some.inj hstep
          exact hi.close
      · cases hstep
  | pumpRead script => exact inv_pump hi (Or.inl ⟨script, rfl⟩) hstep
  | pumpWrite a => exact inv_pump hi (Or.inr ⟨a, rfl⟩) hstep
  | close =>
      obtain rfl := Option.some.inj hstep
      exact hi.close

end Conn

end Forward
end Erbridge
