import Erbridge.Client.LocalConn
import Erbridge.Proxy.Splice

/-!
# The tunnel over Noise

A mapping of `client` with `transport = "noise"` and one of `forward` with the same transport and a token
that gives the same PSK.  The link behaves as the pair of Noise streams does: each of its steps is one of
the pair, so that what is known of every run of the pair holds of the link.

* `Paired.Matched` — a link and a pair of which it is the link.
* `Paired.reliable` — the link loses and adds nothing.
* `noise_tunnel_faithful` — the sockets are sent what the other one brought, in every run.
-/

namespace Erbridge
namespace Client

open Erbridge.Core
open Config (ClientRule ForwardRule)
open Noise
open Forward (Conn ConnSecurity)
open Proxy (Splice bufSize)
open Reverse (FrameRead FrameWrite)

/-- A `write_frame` does not end its transport. -/
theorem frameWrite_ended (f : FrameWrite) (wire : Wire) (a : WriteAnswer) :
    (f.step wire a).2.ended = wire.ended := by
  have hwrite : ∀ rest, (wire.pollWrite rest a).2.ended = wire.ended := by
    intro rest
    obtain ⟨pushed, heq, -⟩ := wire.pollWrite_pushes rest a
    rw [heq, Wire.ended_push]
  cases f with
  | header rest bytes =>
      simp only [FrameWrite.step]
      split
      · exact hwrite rest
      · exact hwrite rest
      · exact hwrite rest
  | data rest =>
      simp only [FrameWrite.step]
      split
      · exact hwrite rest
      · exact hwrite rest
      · exact hwrite rest
  | flushing =>
      cases a with
      | upTo n | zero | pending | fail => rfl
  | done | failed => rfl

/-- What a `read_frame` leaves of its transport. -/
theorem frameRead_ended (limit : Nat) (f : FrameRead) (wire : Wire) (a : ReadAnswer) :
    (f.step limit wire a).2.ended = wire.ended := by
  have hread : ∀ room, (wire.pollRead room a).2.ended = wire.ended := by
    intro room
    cases a with
    | upTo n =>
        simp only [Wire.pollRead]
        split
        · rfl
        · rfl
    | pending | fail => rfl
  cases f with
  | header got =>
      simp only [FrameRead.step]
      split
      · exact hread _
      · split
        · exact hread _
        · exact hread _
  | body len got =>
      simp only [FrameRead.step]
      split
      · exact hread _
      · split
        · exact hread _
        · exact hread _
  | done | failed => rfl

namespace Paired

variable {S : Snow} {psk : Psk}

/-- The side of the pair that an end is. -/
def who : End → Who
  | .near => .connector
  | .far => .acceptor

@[simp] theorem who_other (x : End) : who x.other = (who x).other := by
  cases x with
  | near | far => rfl

theorem handshakeWrite_ended {peer : Peer S} {out : Wire} {a : WriteAnswer} {p : Peer S × Wire}
    (h : peer.handshakeWrite out a = some p) : p.2.ended = out.ended := by
  cases peer with
  | sendFirst f hs | sendSecond f hs =>
      have hended := frameWrite_ended f out a
      simp only [Peer.handshakeWrite] at h
      split at h
      · obtain rfl := Option.some.inj h
        exact hended
      · obtain rfl := Option.some.inj h
        exact hended
      · obtain rfl := Option.some.inj h
        exact hended
  | readFirst | readSecond | up | failed => cases h

theorem handshakeRead_ended {peer : Peer S} {inc : Wire} {a : ReadAnswer} {p : Peer S × Wire}
    (h : peer.handshakeRead inc a = some p) : p.2.ended = inc.ended := by
  cases peer with
  | readFirst f psks | readSecond f hs =>
      have hended := frameRead_ended maxMessage f inc a
      simp only [Peer.handshakeRead] at h
      split at h
      · obtain rfl := Option.some.inj h
        exact hended
      · obtain rfl := Option.some.inj h
        exact hended
      · obtain rfl := Option.some.inj h
        exact hended
  | sendFirst | sendSecond | up | failed => cases h

/-- The peer of an end, unless the end is gone. -/
def PeerIs (psk : Psk) (l : Link S) : End → Peer S → Prop
  | .near, peer => l.near = .closed ∨ l.near = Phase.settled peer
      ∨ (l.near = .connecting ∧ peer = Peer.connect S psk)
  | .far, peer => l.far.phase = .closed ∨ l.far.phase = Conn.settled peer

/-- A side of the pair is an end of the link, with what was logged there. -/
structure Is (psk : Psk) (l : Link S) (g : Logs) (x : End) (side : Side S) : Prop where
  peer : PeerIs psk l x side.peer
  accepted : side.accepted = g.accepted x
  delivered : side.delivered = g.delivered x
  settled : g.closed x = true → side.settled = g.accepted x

/-- A link and the pair that it is. -/
structure Matched (psk : Psk) (l : Link S) (g : Logs) (p : Pair S) : Prop where
  wire : ∀ x, p.wire (who x) = l.wire x
  side : ∀ x, Is psk l g x (p.side (who x))
  ended : ∀ x, (l.wire x).ended = true → g.closed x = true ∨ g.dropped x = true

/-- The link and the pair at the start. -/
theorem matched_start : Matched psk ⟨.connecting, Conn.start S (.noise psk)⟩ Logs.empty
    (Pair.initial S psk) where
  wire := by
    intro x
    cases x with
    | near | far => rfl
  side := by
    intro x
    cases x with
    | near => exact ⟨Or.inr (Or.inr ⟨rfl, rfl⟩), rfl, rfl, fun h => (by cases h)⟩
    | far => exact ⟨Or.inr rfl, rfl, rfl, fun h => (by cases h)⟩
  ended := by
    intro x h
    cases x with
    | near | far => cases h

/-- What lies behind an end that has its stream. -/
theorem Matched.of_stream {l : Link S} {g : Logs} {p : Pair S} (h : Matched psk l g p) {x : End}
    {stream : Forward.Client S} (hstream : l.stream x = some stream) :
    ∃ session st, stream = .noise session st ∧ (p.side (who x)).peer = .up session st := by
  have hpeer := (h.side x).peer
  generalize (p.side (who x)).peer = peer at hpeer ⊢
  cases x with
  | near =>
      rcases hpeer with hphase | hphase | ⟨hphase, -⟩
      · simp [Link.stream, hphase] at hstream
      · cases peer with
        | up session st =>
            simp only [Link.stream, hphase, Phase.settled, Option.some.injEq] at hstream
            exact ⟨session, st, hstream.symm, rfl⟩
        | sendFirst | readSecond | readFirst | sendSecond | failed =>
            simp [Link.stream, hphase, Phase.settled] at hstream
      · simp [Link.stream, hphase] at hstream
  | far =>
      rcases hpeer with hphase | hphase
      · simp [Link.stream, hphase] at hstream
      · cases peer with
        | up session st =>
            simp only [Link.stream, hphase, Conn.settled, Option.some.injEq] at hstream
            exact ⟨session, st, hstream.symm, rfl⟩
        | sendFirst | readSecond | readFirst | sendSecond | failed =>
            simp [Link.stream, hphase, Conn.settled] at hstream

/-! ## A step of the link is one of the pair -/

variable {l l' : Link S} {g g' : Logs} {p : Pair S}

/-- The link and its logs as they were, but for one end. -/
structure Aside (psk : Psk) (l l' : Link S) (g g' : Logs) (x : End) : Prop where
  peer : ∀ peer, PeerIs psk l x.other peer → PeerIs psk l' x.other peer
  accepted : g'.accepted x.other = g.accepted x.other
  delivered : g'.delivered x.other = g.delivered x.other
  closed : g'.closed x.other = g.closed x.other
  dropped : g'.dropped x.other = g.dropped x.other

theorem Aside.is {x : End} (h : Aside psk l l' g g' x) {side : Side S} (hs : Is psk l g x.other side) :
    Is psk l' g' x.other side where
  peer := h.peer _ hs.peer
  accepted := hs.accepted.trans h.accepted.symm
  delivered := hs.delivered.trans h.delivered.symm
  settled := by
    rw [h.closed, h.accepted]
    exact hs.settled

/-- The two directions and the two sides after one of each has changed. -/
theorem split_ends {P : End → Prop} (x : End) (hx : P x) (hy : P x.other) (y : End) : P y := by
  by_cases heq : y = x
  · rw [heq]
    exact hx
  · rw [End.eq_other_of_ne heq]
    exact hy

/-- The end `x` has written, or has ended its direction. -/
theorem Matched.sent (h : Matched psk l g p) {x : End} {side : Side S} {wire : Wire}
    (haside : Aside psk l l' g g' x) (hwire : l'.wire x = wire)
    (hwire' : l'.wire x.other = l.wire x.other) (hside : Is psk l' g' x side)
    (hended : wire.ended = true → g'.closed x = true ∨ g'.dropped x = true) :
    Matched psk l' g' (p.sent (who x) side wire) where
  wire := by
    refine split_ends x ?_ ?_
    · rw [hwire]
      exact Function.update_self _ _ _
    · rw [hwire', ← h.wire x.other, who_other]
      exact Function.update_of_ne (who x).other_ne _ _
  side := by
    refine split_ends x ?_ ?_
    · simp only [Pair.sent, Function.update_self]
      exact hside
    · have hother := haside.is (h.side x.other)
      rw [who_other] at hother ⊢
      simp only [Pair.sent, Function.update_of_ne (who x).other_ne]
      exact hother
  ended := by
    refine split_ends x ?_ ?_
    · rw [hwire]
      exact hended
    · rw [hwire', haside.closed, haside.dropped]
      exact h.ended x.other

/-- The end `x` has read. -/
theorem Matched.received (h : Matched psk l g p) {x : End} {side : Side S} {wire : Wire}
    (haside : Aside psk l l' g g' x) (hwire : l'.wire x = l.wire x) (hwire' : l'.wire x.other = wire)
    (hside : Is psk l' g' x side) (hclosed : g'.closed x = g.closed x ∧ g'.dropped x = g.dropped x)
    (hended : wire.ended = (l.wire x.other).ended) :
    Matched psk l' g' (p.received (who x) side wire) where
  wire := by
    refine split_ends x ?_ ?_
    · rw [hwire, ← h.wire x]
      exact Function.update_of_ne (who x).other_ne.symm _ _
    · rw [hwire', who_other]
      exact Function.update_self _ _ _
  side := by
    refine split_ends x ?_ ?_
    · simp only [Pair.received, Function.update_self]
      exact hside
    · have hother := haside.is (h.side x.other)
      rw [who_other] at hother ⊢
      simp only [Pair.received, Function.update_of_ne (who x).other_ne]
      exact hother
  ended := by
    refine split_ends x ?_ ?_
    · rw [hwire, hclosed.1, hclosed.2]
      exact h.ended x
    · rw [hwire', hended, haside.closed, haside.dropped]
      exact h.ended x.other

/-- A poll of the handshake of `x` for a write. -/
theorem Matched.handshakeWrite (h : Matched psk l g p) {x : End} {a : WriteAnswer}
    (ha : reliableWrite a = true) {peer : Peer S} {q : Peer S × Wire}
    (hpeer : (p.side (who x)).peer = peer) (hq : peer.handshakeWrite (l.wire x) a = some q)
    (haside : Aside psk l l' g g x) (hwire : l'.wire x = q.2)
    (hwire' : l'.wire x.other = l.wire x.other) (hpeer' : PeerIs psk l' x q.1) :
    ∃ e p', Pair.step p e = some p' ∧ Matched psk l' g p' := by
  have hstep : Pair.step p (.handshakeWrite (who x) a)
      = some (p.sent (who x) { p.side (who x) with peer := q.1 } q.2) := by
    simp only [Pair.step, ha, if_true, hpeer, h.wire x, hq]
  obtain ⟨-, haccepted, hdelivered, hsettled⟩ := h.side x
  refine ⟨_, _, hstep, h.sent haside hwire hwire' ⟨hpeer', haccepted, hdelivered, hsettled⟩ ?_⟩
  rw [handshakeWrite_ended hq]
  exact h.ended x

/-- A poll of the handshake of `x` for a read. -/
theorem Matched.handshakeRead (h : Matched psk l g p) {x : End} {a : ReadAnswer}
    (ha : reliableRead a = true) {peer : Peer S} {q : Peer S × Wire}
    (hpeer : (p.side (who x)).peer = peer) (hq : peer.handshakeRead (l.wire x.other) a = some q)
    (haside : Aside psk l l' g g x) (hwire : l'.wire x = l.wire x) (hwire' : l'.wire x.other = q.2)
    (hpeer' : PeerIs psk l' x q.1) : ∃ e p', Pair.step p e = some p' ∧ Matched psk l' g p' := by
  have hinc := h.wire x.other
  rw [who_other] at hinc
  have hstep : Pair.step p (.handshakeRead (who x) a)
      = some (p.received (who x) { p.side (who x) with peer := q.1 } q.2) := by
    simp only [Pair.step, ha, if_true, hpeer, hinc, hq]
  obtain ⟨-, haccepted, hdelivered, hsettled⟩ := h.side x
  exact ⟨_, _, hstep, h.received haside hwire hwire' ⟨hpeer', haccepted, hdelivered, hsettled⟩
    ⟨rfl, rfl⟩ (handshakeRead_ended hq)⟩

/-- The pair has taken a step, or none. -/
def Steps (p p' : Pair S) : Prop := p' = p ∨ ∃ e, Pair.step p e = some p'

theorem Steps.inv {H : Agreement S psk} {p' : Pair S} (h : Steps p p') (hp : ∃ tr, Pair.Inv H p tr) :
    ∃ tr, Pair.Inv H p' tr := by
  rcases h with rfl | ⟨e, he⟩
  · exact hp
  · exact Pair.inv_step hp he

variable {derivePsk : String → Psk} {client : ClientRule} {rule : ForwardRule}

/-- A step of the near end on its way to the stream. -/
theorem Matched.step_near (hclient : client.transport = .noise) {token : String}
    (htoken : client.token = some token) (h : Matched (derivePsk token) l g p) {e : Phase.Event}
    {q : Phase S × Wire × Wire} (he : e.reliable = true)
    (hq : l.near.step derivePsk client l.far.inc l.far.out e = some q) :
    ∃ p', Steps p p'
      ∧ Matched (derivePsk token) ⟨q.1, { l.far with inc := q.2.1, out := q.2.2 }⟩ g p' := by
  have hpeer := (h.side .near).peer
  have haside : ∀ (phase : Phase S) (out inc : Wire),
      Aside (derivePsk token) l ⟨phase, { l.far with inc := out, out := inc }⟩ g g .near :=
    fun _ _ _ => ⟨fun _ hp => hp, rfl, rfl, rfl, rfl⟩
  -- The near end has moved on, and the pair has not.
  have hquiet : ∀ phase : Phase S, PeerIs (derivePsk token) ⟨phase, l.far⟩ .near (p.side .connector).peer →
      Matched (derivePsk token) ⟨phase, l.far⟩ g p := by
    intro phase hphase
    obtain ⟨-, haccepted, hdelivered, hsettled⟩ := h.side .near
    refine ⟨split_ends .near (h.wire .near) (h.wire .far), ?_,
      split_ends .near (h.ended .near) (h.ended .far)⟩
    exact split_ends .near ⟨hphase, haccepted, hdelivered, hsettled⟩
      ((haside phase _ _).is (h.side .far))
  -- It polls in the handshake only, and begins with it.
  have hphase : (l.near = .connecting ∧ (p.side .connector).peer = Peer.connect S (derivePsk token))
      ∨ (∃ peer, l.near = .noiseConnecting peer ∧ (p.side .connector).peer = peer)
      ∨ (∃ stream, l.near = .secured stream) ∨ l.near = .closed := by
    rcases hpeer with hc | hc | ⟨hc, hconnect⟩
    · exact Or.inr (Or.inr (Or.inr hc))
    · generalize hp : (p.side (who .near)).peer = peer at hc
      cases peer with
      | sendFirst | readSecond | readFirst | sendSecond => exact Or.inr (Or.inl ⟨_, hc, hp⟩)
      | up session st => exact Or.inr (Or.inr (Or.inl ⟨_, hc⟩))
      | failed => exact Or.inr (Or.inr (Or.inr hc))
    · exact Or.inl ⟨hc, hconnect⟩
  rcases hphase with ⟨hphase, hconnect⟩ | ⟨peer, hphase, hsame⟩ | ⟨stream, hphase⟩ | hphase
  · cases e with
    | connect ok =>
        rw [hphase] at hq
        obtain rfl := Option.some.inj hq
        cases ok with
        | false => exact ⟨p, Or.inl rfl, hquiet .closed (Or.inl rfl)⟩
        | true =>
            have hconnected : Phase.connected S derivePsk client
                = Phase.settled (Peer.connect S (derivePsk token)) := by
              simp [Phase.connected, hclient, htoken]
            refine ⟨p, Or.inl rfl, hquiet _ (Or.inr (Or.inl ?_))⟩
            rw [if_pos rfl, hconnected, hconnect]
    | tlsConnect | write | read => simp [Phase.step, hphase] at hq
  · cases e with
    | write a =>
        rw [hphase] at hq
        obtain ⟨r, hr, rfl⟩ := Option.map_eq_some_iff.1 hq
        obtain ⟨e, p', hstep, hmatched⟩ := h.handshakeWrite (x := .near) he hsame hr
          (haside (Phase.settled r.1) r.2 l.far.out) rfl rfl (Or.inr (Or.inl rfl))
        exact ⟨p', Or.inr ⟨e, hstep⟩, hmatched⟩
    | read a =>
        rw [hphase] at hq
        obtain ⟨r, hr, rfl⟩ := Option.map_eq_some_iff.1 hq
        obtain ⟨e, p', hstep, hmatched⟩ := h.handshakeRead (x := .near) he hsame hr
          (haside (Phase.settled r.1) l.far.inc r.2) rfl rfl (Or.inr (Or.inl rfl))
        exact ⟨p', Or.inr ⟨e, hstep⟩, hmatched⟩
    | connect | tlsConnect => simp [Phase.step, hphase] at hq
  · cases e with
    | connect | tlsConnect | write | read => simp [Phase.step, hphase] at hq
  · cases e with
    | connect | tlsConnect | write | read => simp [Phase.step, hphase] at hq

/-- A step of the far end on its way to the stream. -/
theorem Matched.step_far (h : Matched psk l g p) {e : Conn.Event} {far : Conn S}
    (he : Link.opening e = true) (hfar : l.far.step rule e = some far) :
    ∃ p', Steps p p' ∧ Matched psk { l with far := far } g p' := by
  have hpeer := (h.side .far).peer
  have haside : ∀ (phase : Forward.Phase S) (inc out : Wire),
      Aside psk l { l with far := { l.far with phase := phase, inc := inc, out := out } } g g .far :=
    fun _ _ _ => ⟨fun _ hp => hp, rfl, rfl, rfl, rfl⟩
  -- Of its phases only the handshake is one in which it polls.
  have hphase : (∃ peer, l.far.phase = .noiseAccepting peer ∧ (p.side .acceptor).peer = peer)
      ∨ (∃ stream, l.far.phase = .dialing stream) ∨ l.far.phase = .closed := by
    rcases hpeer with hc | hc
    · exact Or.inr (Or.inr hc)
    · generalize hp : (p.side (who .far)).peer = peer at hc
      cases peer with
      | sendFirst | readSecond | readFirst | sendSecond => exact Or.inl ⟨_, hc, hp⟩
      | up session st => exact Or.inr (Or.inl ⟨_, hc⟩)
      | failed => exact Or.inr (Or.inr hc)
  rcases hphase with ⟨peer, hphase, hsame⟩ | ⟨stream, hphase⟩ | hphase
  · cases e with
    | noiseWrite a =>
        simp only [Conn.step, hphase] at hfar
        obtain ⟨r, hr, rfl⟩ := Option.map_eq_some_iff.1 hfar
        obtain ⟨e, p', hstep, hmatched⟩ := h.handshakeWrite (x := .far) he hsame hr
          (haside (Conn.settled r.1) l.far.inc r.2) rfl rfl (Or.inr rfl)
        exact ⟨p', Or.inr ⟨e, hstep⟩, hmatched⟩
    | noiseRead a =>
        simp only [Conn.step, hphase] at hfar
        obtain ⟨r, hr, rfl⟩ := Option.map_eq_some_iff.1 hfar
        obtain ⟨e, p', hstep, hmatched⟩ := h.handshakeRead (x := .far) he hsame hr
          (haside (Conn.settled r.1) r.2 l.far.out) rfl rfl (Or.inr rfl)
        exact ⟨p', Or.inr ⟨e, hstep⟩, hmatched⟩
    | tlsAccept | readToken | answer => simp [Conn.step, hphase] at hfar
    | peerSends | peerEnds | dial | pumpRead | pumpWrite | close => cases he
  · cases e with
    | tlsAccept | readToken | answer | noiseRead | noiseWrite => simp [Conn.step, hphase] at hfar
    | peerSends | peerEnds | dial | pumpRead | pumpWrite | close => cases he
  · cases e with
    | tlsAccept | readToken | answer | noiseRead | noiseWrite => simp [Conn.step, hphase] at hfar
    | peerSends | peerEnds | dial | pumpRead | pumpWrite | close => cases he

/-! ## The two streams -/

/-- A `poll_write` takes no more than it is offered. -/
theorem pollWrite_within (C : Cipher) (st : NoiseStream) (buf : Bytes) (wire : Wire)
    (script : List WriteAnswer) : (st.pollWrite C buf wire script).answer.Within buf := by
  have hseal : ∀ (st : NoiseStream) (wire : Wire) (script : List WriteAnswer),
      (st.pollSeal C buf wire script).answer.Within buf := by
    intro st wire script n hn
    simp only [NoiseStream.pollSeal] at hn
    split at hn
    · cases hn
    · split at hn
      · cases hn
      · cases hn
        exact Nat.min_le_left _ _
      · cases hn
        exact Nat.min_le_left _ _
      · cases hn
  intro n hn
  simp only [NoiseStream.pollWrite] at hn
  split at hn
  · split at hn
    · cases hn
      exact Nat.zero_le _
    · exact hseal _ _ _ n hn
  · cases hn
  · cases hn
  · cases hn

/-- Over a transport that does not fail a shutdown does not fail either, and it ends its direction
exactly when it is answered Ready. -/
theorem pollShutdown_reliable {st : NoiseStream} (hst : st.Ok) {wire : Wire}
    (hlive : wire.ended = false) {script : List WriteAnswer}
    (hscript : script.all reliableWrite = true) :
    (∀ e, (st.pollShutdown wire script).answer ≠ .ready (.error e))
      ∧ ((st.pollShutdown wire script).wire.ended = true →
          (st.pollShutdown wire script).answer = .ready (.ok ())) := by
  obtain ⟨pushed, hd⟩ := FrameWriter.pollDrain_spec hst.writer wire script
  rw [← NoiseStream.drainPending_eq] at hd
  simp only [NoiseStream.pollShutdown]
  generalize st.drainPending wire script = d at hd ⊢
  have hended : ¬d.wire.ended = true := by
    rw [hd.wire_eq, Wire.ended_push, hlive]
    exact Bool.false_ne_true
  obtain ⟨hzero, hfail⟩ := Pair.not_mem_of_reliable hscript
  cases hanswer : d.answer with
  | ready result =>
      cases result with
      | ok u =>
          have hnext : NoiseStream.nextAnswer d.script ≠ .fail := by
            intro h
            cases hd' : d.script with
            | nil =>
                rw [hd'] at h
                cases h
            | cons a rest =>
                rw [hd'] at h
                obtain rfl : a = .fail := h
                exact hfail (hd.mem_script _ (hd' ▸ List.mem_cons_self))
          generalize NoiseStream.nextAnswer d.script = a at hnext
          cases a with
          | fail => exact absurd rfl hnext
          | pending => exact ⟨fun e he => (by cases he), fun h => absurd h hended⟩
          | upTo n | zero => exact ⟨fun e he => (by cases he), fun _ => rfl⟩
      | error e =>
          rcases (hd.of_error e hanswer).2 with h | h | h
          · rw [hlive] at h
            cases h
          · exact absurd h hzero
          · exact absurd h hfail
  | pending => exact ⟨fun e he => (by cases he), fun h => absurd h hended⟩
  | panic => exact absurd hanswer hd.no_panic

/-- What `poll_write` reports and what is logged of it. -/
theorem wrote_accepted (r : NoiseStream.Wrote) (buf : Bytes) : r.accepted buf = r.answer.accepted buf := by
  obtain ⟨answer, stream, wire, script⟩ := r
  match answer with
  | .ready (.ok n) | .ready (.error e) | .pending | .panic => rfl

theorem read_out (r : NoiseStream.Read) : r.out = r.answer.delivered := by
  obtain ⟨answer, stream, wire, script⟩ := r
  match answer with
  | .ready (.ok bytes) | .ready (.error e) | .pending | .panic => rfl

/-- An end has polled its stream. -/
theorem aside_put (l : Link S) {g g' : Logs} {x : End} (session : S.Session) (st : NoiseStream)
    (out inc : Wire) (haccepted : g'.accepted x.other = g.accepted x.other)
    (hdelivered : g'.delivered x.other = g.delivered x.other)
    (hclosed : g'.closed x.other = g.closed x.other)
    (hdropped : g'.dropped x.other = g.dropped x.other) :
    Aside psk l (l.put x (.noise session st) out inc) g g' x := by
  refine ⟨fun peer hp => ?_, haccepted, hdelivered, hclosed, hdropped⟩
  cases x with
  | near | far => exact hp

theorem peerIs_put (psk : Psk) (l : Link S) (x : End) (session : S.Session) (st : NoiseStream)
    (out inc : Wire) : PeerIs psk (l.put x (.noise session st) out inc) x (.up session st) := by
  cases x with
  | near => exact Or.inr (Or.inl rfl)
  | far => exact Or.inr rfl

theorem wire_put (l : Link S) (x : End) (stream : Forward.Client S) (out inc : Wire) :
    (l.put x stream out inc).wire x = out ∧ (l.put x stream out inc).wire x.other = inc := by
  cases x with
  | near | far => exact ⟨rfl, rfl⟩

variable {H : Agreement S psk}

/-- A write into the stream of `x`. -/
theorem Matched.write (h : Matched psk l g p) (hp : ∃ tr, Pair.Inv H p tr) {x : End} {buf : Bytes}
    {script : List WriteAnswer} {q : Poll Nat × Link S} (hclosed : g.closed x = false)
    (hq : l.pollWrite x buf script = some q) :
    q.1.Within buf ∧ ∃ p', Steps p p' ∧ Matched psk q.2 (g.write x (q.1.accepted buf)) p' := by
  obtain ⟨hscript, hmap⟩ := Option.ite_none_right_eq_some.1 hq
  obtain ⟨stream, hstream, rfl⟩ := Option.map_eq_some_iff.1 hmap
  obtain ⟨session, st, rfl, hpeer⟩ := h.of_stream hstream
  obtain ⟨tr, hinv⟩ := hp
  obtain ⟨-, hst, -⟩ := (hinv.up hpeer).up_eq
  obtain ⟨pushed, log, hspec⟩ :=
    NoiseStream.pollWrite_spec (S.cipher session) hst buf (l.wire x) script
  have hstep : Pair.step p (.write (who x) buf script) = some (p.sent (who x)
      { p.side (who x) with
        peer := .up session (st.pollWrite (S.cipher session) buf (l.wire x) script).stream
        accepted := (p.side (who x)).accepted
          ++ (st.pollWrite (S.cipher session) buf (l.wire x) script).accepted buf }
      (st.pollWrite (S.cipher session) buf (l.wire x) script).wire) := by
    simp only [Pair.step, hscript, if_true, hpeer, h.wire x]
  obtain ⟨-, haccepted, hdelivered, -⟩ := h.side x
  refine ⟨pollWrite_within _ _ _ _ _, _, Or.inr ⟨_, hstep⟩, h.sent (aside_put l session _ _ _ (by simp)
    rfl rfl rfl) (wire_put l x _ _ _).1 (wire_put l x _ _ _).2 ⟨peerIs_put psk l x _ _ _ _, ?_, hdelivered,
    fun hc => ?_⟩ ?_⟩
  · show (p.side (who x)).accepted ++ _ = _
    rw [Logs.accepted_write_self, haccepted, wrote_accepted]
    rfl
  · have hno : g.closed x = true := hc
    rw [hclosed] at hno
    cases hno
  · rw [hspec.wire_eq]
    exact h.ended x

/-- A read from the stream of `x`. -/
theorem Matched.read (h : Matched psk l g p) (hp : ∃ tr, Pair.Inv H p tr) {x : End}
    {script : List ReadAnswer} {q : Poll Bytes × Link S} (hq : l.pollRead x script = some q) :
    ∃ p', Steps p p' ∧ Matched psk q.2 (g.read x q.1.delivered) p' := by
  obtain ⟨hscript, hmap⟩ := Option.ite_none_right_eq_some.1 hq
  obtain ⟨stream, hstream, rfl⟩ := Option.map_eq_some_iff.1 hmap
  obtain ⟨session, st, rfl, hpeer⟩ := h.of_stream hstream
  obtain ⟨tr, hinv⟩ := hp
  obtain ⟨-, hst, -⟩ := (hinv.up hpeer).up_eq
  obtain ⟨got, log, bad, hspec⟩ :=
    NoiseStream.pollRead_spec (S.cipher session) bufSize hst (l.wire x.other) script
  have hinc := h.wire x.other
  rw [who_other] at hinc
  have hroom : 0 < bufSize := by decide
  have hstep : Pair.step p (.read (who x) bufSize script) = some (p.received (who x)
      { p.side (who x) with
        peer := .up session (st.pollRead (S.cipher session) bufSize (l.wire x.other) script).stream
        delivered := (p.side (who x)).delivered
          ++ (st.pollRead (S.cipher session) bufSize (l.wire x.other) script).out }
      (st.pollRead (S.cipher session) bufSize (l.wire x.other) script).wire) := by
    simp only [Pair.step, hscript, hroom, and_self, if_true, hpeer, hinc]
  obtain ⟨-, haccepted, hdelivered, hsettled⟩ := h.side x
  refine ⟨_, Or.inr ⟨_, hstep⟩, h.received (aside_put l session _ _ _ rfl (by simp) rfl rfl)
    (wire_put l x _ _ _).1 (wire_put l x _ _ _).2 ⟨peerIs_put psk l x _ _ _ _, haccepted, ?_, hsettled⟩
    ⟨rfl, rfl⟩ ?_⟩
  · show (p.side (who x)).delivered ++ _ = _
    rw [Logs.delivered_read_self, hdelivered, read_out]
    rfl
  · rw [hspec.wire_eq]
    rfl

/-- The shutdown of the stream of `x`. -/
theorem Matched.shutdown (h : Matched psk l g p) (hp : ∃ tr, Pair.Inv H p tr) {x : End}
    {script : List WriteAnswer} {q : Poll Unit × Link S} (hclosed : g.closed x = false)
    (hdropped : g.dropped x = false) (hq : l.pollShutdown x script = some q) :
    (∀ e, q.1 ≠ .ready (.error e))
      ∧ ∃ p', Steps p p' ∧ Matched psk q.2 (g.shutdown x q.1.isShut) p' := by
  obtain ⟨hscript, hmap⟩ := Option.ite_none_right_eq_some.1 hq
  obtain ⟨stream, hstream, rfl⟩ := Option.map_eq_some_iff.1 hmap
  obtain ⟨session, st, rfl, hpeer⟩ := h.of_stream hstream
  obtain ⟨tr, hinv⟩ := hp
  obtain ⟨-, hst, -⟩ := (hinv.up hpeer).up_eq
  have hlive : (l.wire x).ended = false := by
    rw [Bool.eq_false_iff]
    intro hended
    rcases h.ended x hended with hc | hc
    · rw [hclosed] at hc
      cases hc
    · rw [hdropped] at hc
      cases hc
  obtain ⟨hfine, hready⟩ := pollShutdown_reliable hst hlive hscript
  have hstep : Pair.step p (.shutdown (who x) script) = some (p.sent (who x)
      (Pair.flushed (p.side (who x)) session (st.pollShutdown (l.wire x) script))
      (st.pollShutdown (l.wire x) script).wire) := by
    simp only [Pair.step, hscript, if_true, hpeer, h.wire x]
  obtain ⟨-, haccepted, hdelivered, -⟩ := h.side x
  generalize hr : st.pollShutdown (l.wire x) script = r at *
  have hq1 : (Forward.Client.noise session st).pollShutdown (l.wire x) script
      = (r.answer, .noise session r.stream, r.wire) := by
    simp only [Forward.Client.pollShutdown, hr]
  rw [hq1]
  refine ⟨hfine, _, Or.inr ⟨_, hstep⟩, h.sent (aside_put l session _ _ _ rfl rfl (by simp) rfl)
    (wire_put l x _ _ _).1 (wire_put l x _ _ _).2 ⟨peerIs_put psk l x _ _ _ _, haccepted, hdelivered,
    fun hc => ?_⟩ fun hended => ?_⟩
  · rw [Logs.closed_shutdown_self, hclosed, Bool.false_or] at hc
    have hanswer : r.answer = .ready (.ok ()) := Poll.eq_of_isShut hc
    simp only [Pair.flushed, hanswer]
    exact haccepted
  · rw [hready hended]
    exact Or.inl (by simp [Poll.isShut])

/-- A read that comes to the end. -/
theorem Matched.eof (h : Matched psk l g p) (hp : ∃ tr, Pair.Inv H p tr) {x : End}
    {script : List ReadAnswer} {t : Link S}
    (hq : l.pollRead x script = some (.ready (.ok []), t)) :
    (g.closed x.other = true ∧ g.delivered x = g.accepted x.other)
      ∨ (g.closed x.other = false ∧ g.dropped x.other = true) := by
  obtain ⟨p', hsteps, hmatched⟩ := h.read hp hq
  have hp' := hsteps.inv hp
  obtain ⟨hscript, hmap⟩ := Option.ite_none_right_eq_some.1 hq
  obtain ⟨stream, hstream, hread⟩ := Option.map_eq_some_iff.1 hmap
  obtain ⟨session, st, rfl, hpeer⟩ := h.of_stream hstream
  obtain ⟨tr, hinv⟩ := hp
  obtain ⟨-, hst, -⟩ := (hinv.up hpeer).up_eq
  obtain ⟨got, log, bad, hspec⟩ :=
    NoiseStream.pollRead_spec (S.cipher session) bufSize hst (l.wire x.other) script
  have hanswer : (st.pollRead (S.cipher session) bufSize (l.wire x.other) script).answer
      = .ready (.ok []) := congrArg Prod.fst hread
  obtain ⟨hbuf, -, hunread, hended⟩ := hspec.of_eof (by decide) hanswer
  cases hclosed : g.closed x.other with
  | false =>
      refine Or.inr ⟨rfl, (h.ended x.other hended).resolve_left fun hc => ?_⟩
      rw [hclosed] at hc
      cases hc
  | true =>
      refine Or.inl ⟨rfl, ?_⟩
      -- The pair after this read holds nothing back.
      have ht : t = l.put x (.noise session
          (st.pollRead (S.cipher session) bufSize (l.wire x.other) script).stream) (l.wire x)
          (st.pollRead (S.cipher session) bufSize (l.wire x.other) script).wire :=
        (congrArg Prod.snd hread).symm
      have hmatched' : Matched psk t (g.read x []) p' := hmatched
      rw [Logs.read_nil, ht] at hmatched'
      have hdry : (p'.wire (who x).other).unread = [] := by
        rw [← who_other, hmatched'.wire x.other, (wire_put l x _ _ _).2]
        exact hunread
      have hstream' : (l.put x (.noise session
          (st.pollRead (S.cipher session) bufSize (l.wire x.other) script).stream) (l.wire x)
          (st.pollRead (S.cipher session) bufSize (l.wire x.other) script).wire).stream x
          = some (.noise session
            (st.pollRead (S.cipher session) bufSize (l.wire x.other) script).stream) := by
        cases x with
        | near | far => rfl
      obtain ⟨session', st', hsame, hpeer'⟩ := hmatched'.of_stream hstream'
      obtain ⟨rfl, rfl⟩ := Forward.Client.noise.inj hsame
      obtain ⟨tr', hinv'⟩ := hp'
      have hsettled := hinv'.settled_prefix (who x) hdry (by rw [hpeer']; exact hbuf)
      have hdelivered := (List.prefix_append _ _).trans (hinv'.delivered_prefix (who x))
      have hother := hmatched'.side x.other
      rw [who_other] at hother
      rw [hother.settled hclosed, (hmatched'.side x).delivered] at hsettled
      rw [hother.accepted, (hmatched'.side x).delivered] at hdelivered
      exact hdelivered.eq_of_length_le hsettled.length_le

theorem Matched.drop (h : Matched psk l g p) (x : End) :
    ∃ p', Steps p p' ∧ Matched psk (l.drop x) (g.drop x) p' := by
  have hstep : Pair.step p (.hangUp (who x))
      = some (p.sent (who x) (p.side (who x)) { p.wire (who x) with ended := true }) := rfl
  obtain ⟨-, haccepted, hdelivered, hsettled⟩ := h.side x
  have haside : Aside psk l (l.drop x) g (g.drop x) x := by
    refine ⟨fun peer hp => ?_, rfl, rfl, rfl, by simp⟩
    cases x with
    | near | far => exact hp
  have hgone : PeerIs psk (l.drop x) x (p.side (who x)).peer := by
    cases x with
    | near | far => exact Or.inl rfl
  have hwire : (l.drop x).wire x = { p.wire (who x) with ended := true } := by
    rw [h.wire x]
    cases x with
    | near | far => rfl
  have hwire' : (l.drop x).wire x.other = l.wire x.other := by
    cases x with
    | near | far => rfl
  exact ⟨_, Or.inr ⟨_, hstep⟩, h.sent haside hwire hwire' ⟨hgone, haccepted, hdelivered, hsettled⟩
    fun _ => Or.inr (by simp)⟩

/-- The channel that the link is loses and adds nothing. -/
def reliable (derivePsk : String → Psk) {client : ClientRule} (rule : ForwardRule)
    (hclient : client.transport = .noise) {token : String} (htoken : client.token = some token)
    (H : Agreement S (derivePsk token)) :
    (tunnel S derivePsk client rule (.noise (derivePsk token))).Reliable where
  Inv := fun l g => ∃ p, (∃ tr, Pair.Inv H p tr) ∧ Matched (derivePsk token) l g p
  start := ⟨_, Pair.inv_initial H, matched_start⟩
  move := by
    intro l t g e h hmove
    obtain ⟨p, hp, h⟩ := h
    cases e with
    | near e =>
        obtain ⟨he, hmap⟩ := Option.ite_none_right_eq_some.1 hmove
        obtain ⟨q, hq, rfl⟩ := Option.map_eq_some_iff.1 hmap
        obtain ⟨p', hsteps, h'⟩ := h.step_near hclient htoken he hq
        exact ⟨p', hsteps.inv hp, h'⟩
    | far e =>
        obtain ⟨he, hmap⟩ := Option.ite_none_right_eq_some.1 hmove
        obtain ⟨far, hfar, rfl⟩ := Option.map_eq_some_iff.1 hmap
        obtain ⟨p', hsteps, h'⟩ := h.step_far he hfar
        exact ⟨p', hsteps.inv hp, h'⟩
  write := by
    intro l t g x buf script q h hclosed hq
    obtain ⟨p, hp, h⟩ := h
    obtain ⟨hwithin, p', hsteps, h'⟩ := h.write hp hclosed hq
    exact ⟨hwithin, p', hsteps.inv hp, h'⟩
  read := by
    intro l t g x script q h hq
    obtain ⟨p, hp, h⟩ := h
    obtain ⟨p', hsteps, h'⟩ := h.read hp hq
    exact ⟨p', hsteps.inv hp, h'⟩
  shutdown := by
    intro l t g x script q h hclosed hdropped hq
    obtain ⟨p, hp, h⟩ := h
    obtain ⟨hfine, p', hsteps, h'⟩ := h.shutdown hp hclosed hdropped hq
    exact ⟨hfine, p', hsteps.inv hp, h'⟩
  drop := by
    intro l g x h
    obtain ⟨p, hp, h⟩ := h
    obtain ⟨p', hsteps, h'⟩ := h.drop x
    exact ⟨p', hsteps.inv hp, h'⟩
  delivered_isPrefix := by
    intro l g x h
    obtain ⟨p, ⟨tr, hp⟩, h⟩ := h
    have hdelivered := (List.prefix_append _ _).trans (hp.delivered_prefix (who x))
    have hother := (h.side x.other).accepted
    rw [who_other] at hother
    rwa [(h.side x).delivered, hother] at hdelivered
  eof := by
    intro l t g x script h hq
    obtain ⟨p, hp, h⟩ := h
    exact h.eof hp hq

end Paired

/-- **The tunnel over Noise.**  Where both rules ask for Noise and have one token, and the library keeps
its promise for the PSK of that: in every run, whatever the order of the polls and whatever the two
sockets answer, each socket is sent a prefix of what the other one brought, all of it where both loops
came to their end. -/
theorem noise_tunnel_faithful {S : Snow} {derivePsk : String → Psk} {client : ClientRule}
    {rule : ForwardRule} {security : ConnSecurity} {token : String}
    (hclient : client.transport = .noise) (hrule : rule.transport = some .noise)
    (htoken : client.token = some token) (hsame : rule.token = client.token)
    (hsecurity : ConnSecurity.new derivePsk rule = some security) (hS : S.Agrees (derivePsk token))
    {es : List (Splice.Event (tunnel S derivePsk client rule security))}
    {s : Splice (tunnel S derivePsk client rule security)}
    (hrun : (Splice.machine _).run (Splice.initial _) es = some s) (x : End) : Splice.Joined s x := by
  have hnoise : security = .noise (derivePsk token) := by
    simpa [ConnSecurity.new, hrule, hsame, htoken] using hsecurity.symm
  subst hnoise
  obtain ⟨H⟩ := hS
  exact Splice.joined_run (Paired.reliable derivePsk rule hclient htoken H) hrun x

/-- The handshake of the two ends. -/
def handshake : List Link.Event :=
  [.near (.connect true), .near (.write (.upTo 99)), .near (.write (.upTo 99)),
    .near (.write (.upTo 99)), .far (.noiseRead (.upTo 99)), .far (.noiseRead (.upTo 99)),
    .far (.noiseWrite (.upTo 99)), .far (.noiseWrite (.upTo 99)), .far (.noiseWrite (.upTo 99)),
    .near (.read (.upTo 99)), .near (.read (.upTo 99))]

/-- After it three bytes go from the local side to the far end. -/
def threeBytes (C : Channel) (events : List C.Event) : List (Splice.Event C) :=
  events.map .channel ++
    [.start .near, .start .far, .socketSends .near [1, 2, 3], .readSocket .near (.upTo 99),
      .writeStream .near [.upTo 99], .readStream .far [.upTo 99, .upTo 99]]

theorem noise_tunnel_faithful_threeBytes :
    let C := tunnel Pair.plainSnow (fun _ => Psk.repeated 7) (mapping .noise (some "s3cret"))
      (listener .noise (some "s3cret")) (.noise (Psk.repeated 7))
    ∃ s, (Splice.machine C).run (Splice.initial C) (threeBytes C handshake) = some s
      ∧ ∀ x, Splice.Joined s x := by
  intro C
  have hsome : ((Splice.machine C).run (Splice.initial C) (threeBytes C handshake)).isSome = true := by
    decide +kernel
  obtain ⟨s, hs⟩ := Option.isSome_iff_exists.1 hsome
  exact ⟨s, hs, noise_tunnel_faithful rfl rfl rfl rfl rfl (Pair.plainSnow_agrees _) hs⟩

end Client
end Erbridge
