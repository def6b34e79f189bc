import Erbridge.Client.LocalConn
import Erbridge.Proxy.Splice

/-!
# The tunnel over TLS

A mapping of `client` with `transport = "tls"` and one of `forward` with the same transport.  In front
of the bytes that the local side sends the client puts its token, and in front of those of the target
the forwarder puts the byte that acknowledges it.  Each side leaves out what it has no token for, and
the other side would take the first bytes that come for it.

* `Matches` — both sides have a token or none has, or the client's does not fit into its frame.
* `Inv` — what is on the two directions, in terms of what was accepted and delivered.
* `tls_tunnel_faithful_iff` — the sockets are sent what the other one brought, in every run, exactly when
  the rules match.
-/

namespace Erbridge
namespace Client

open Erbridge.Core
open Config (ClientRule ForwardRule)
open Forward (Conn ConnSecurity constantTimeEq_iff)
open Noise (Pair Psk Snow reliableRead reliableWrite)
open Proxy (Splice Side bufSize)
open Reverse (FrameRead FrameWrite maxTokenLen utf8)

/-- What the client writes in front of the bytes of the local side. -/
def hello : Option String → Bytes
  | none => []
  | some token => (FrameWrite.start (utf8 token.toList)).unsent

/-- The frame of the token can be written. -/
def Presentable (token : Option String) : Prop :=
  ∀ t, token = some t → (utf8 t.toList).length < 65536

/-- What the forwarder reads in front of them. -/
def expected : Option String → Bytes
  | none => []
  | some token => frame (utf8 token.toList)

/-- What the forwarder writes, and the client reads, in front of the bytes of the target. -/
def ack : Option String → Bytes
  | none => []
  | some _ => [1]

/-- Both sides have a token or none has, or the client never gets to present its own. -/
def Matches (client : ClientRule) (rule : ForwardRule) : Prop :=
  client.token.isSome = rule.token.isSome ∨ ¬Presentable client.token

theorem hello_of_presentable {token : Option String} (h : Presentable token) :
    hello token = expected token := by
  cases token with
  | none => rfl
  | some t => exact FrameWrite.unsent_start (h t rfl)

namespace Tls

variable {S : Snow}

/-- What is known of the near end; `sent` is all that it has put into its direction, `read` what it took
of the other one, and `carried` all that is in that one. -/
def NearOk (token : Option String) (sent read carried accepted delivered : Bytes) (closed : Bool) :
    Phase S → Prop
  | .connecting | .tlsConnecting =>
      sent = [] ∧ read = [] ∧ accepted = [] ∧ delivered = [] ∧ closed = false
  | .sendingToken f => Presentable token ∧ token.isSome = true ∧ f.Ok ∧ sent ++ f.unsent = hello token
      ∧ read = [] ∧ accepted = [] ∧ delivered = [] ∧ closed = false
  | .readingAck => Presentable token ∧ token.isSome = true ∧ sent = hello token
      ∧ read = [] ∧ accepted = [] ∧ delivered = [] ∧ closed = false
  | .secured stream => Presentable token ∧ stream = .tls ∧ sent = hello token ++ accepted
      ∧ read = ack token ++ delivered
  | .closed => sent <+: hello token ++ accepted
      ∧ (closed = true → Presentable token ∧ sent = hello token ++ accepted)
      ∧ (accepted ≠ [] → Presentable token)
      ∧ (delivered ≠ [] → Presentable token ∧ ack token ++ delivered <+: carried)
  | .noiseConnecting _ => False

/-- What is known of the far end, in the same way. -/
def FarOk (token : Option String) (sent read carried accepted delivered : Bytes) (closed : Bool) :
    Forward.Phase S → Prop
  | .tlsAccepting => sent = [] ∧ read = [] ∧ accepted = [] ∧ delivered = [] ∧ closed = false
  | .readingToken f => token.isSome = true ∧ f.Ok maxTokenLen ∧ f.held = read ∧ sent = []
      ∧ accepted = [] ∧ delivered = [] ∧ closed = false
  | .accepting rest => Presentable token ∧ rest ≠ [] ∧ sent ++ rest = ack token ∧ read = expected token
      ∧ accepted = [] ∧ delivered = [] ∧ closed = false
  | .rejecting rest => token.isSome = true ∧ rest ≠ [] ∧ sent ++ rest = [0]
      ∧ accepted = [] ∧ delivered = [] ∧ closed = false
  | .dialing stream => Presentable token ∧ stream = .tls ∧ sent = ack token ++ accepted
      ∧ read = expected token ++ delivered
  | .closed =>
      (sent <+: ack token ++ accepted ∨ token.isSome = true ∧ sent <+: [0])
      ∧ (closed = true → sent = ack token ++ accepted)
      ∧ (delivered ≠ [] → Presentable token ∧ expected token ++ delivered <+: carried)
  | .noiseAccepting _ | .piping _ _ => False

variable {token : Option String} {sent read carried carried' accepted delivered : Bytes} {closed : Bool}

/-- When more comes in, what is known of an end stays so. -/
theorem NearOk.mono {phase : Phase S} (h : NearOk token sent read carried accepted delivered closed phase)
    (hmore : carried <+: carried') : NearOk token sent read carried' accepted delivered closed phase := by
  cases phase with
  | closed =>
      obtain ⟨hsent, hclosed, haccepted, hdelivered⟩ := h
      exact ⟨hsent, hclosed, haccepted, fun hne => ⟨(hdelivered hne).1, (hdelivered hne).2.trans hmore⟩⟩
  | connecting | tlsConnecting | sendingToken | readingAck | secured | noiseConnecting => exact h

theorem FarOk.mono {phase : Forward.Phase S}
    (h : FarOk token sent read carried accepted delivered closed phase) (hmore : carried <+: carried') :
    FarOk token sent read carried' accepted delivered closed phase := by
  cases phase with
  | closed =>
      obtain ⟨hsent, hclosed, hdelivered⟩ := h
      exact ⟨hsent, hclosed, fun hne => ⟨(hdelivered hne).1, (hdelivered hne).2.trans hmore⟩⟩
  | tlsAccepting | readingToken | accepting | rejecting | noiseAccepting | dialing | piping => exact h

/-- The near end gives up before it has its stream. -/
theorem NearOk.close {phase : Phase S} (hread : read <+: carried)
    (h : NearOk token sent read carried accepted delivered closed phase) :
    NearOk (S := S) token sent read carried accepted delivered closed .closed := by
  cases phase with
  | connecting | tlsConnecting =>
      obtain ⟨rfl, rfl, rfl, rfl, rfl⟩ := h
      exact ⟨List.nil_prefix, by simp, by simp, by simp⟩
  | sendingToken f =>
      obtain ⟨-, -, -, hsent, rfl, rfl, rfl, rfl⟩ := h
      refine ⟨?_, by simp, by simp, by simp⟩
      rw [List.append_nil, ← hsent]
      exact List.prefix_append _ _
  | readingAck =>
      obtain ⟨-, -, rfl, rfl, rfl, rfl, rfl⟩ := h
      exact ⟨by simp, by simp, by simp, by simp⟩
  | secured stream =>
      obtain ⟨hfits, -, rfl, rfl⟩ := h
      exact ⟨List.prefix_refl _, fun _ => ⟨hfits, rfl⟩, fun _ => hfits, fun _ => ⟨hfits, hread⟩⟩
  | closed => exact h
  | noiseConnecting peer => exact h.elim

theorem FarOk.close {phase : Forward.Phase S} (hread : read <+: carried)
    (h : FarOk token sent read carried accepted delivered closed phase) :
    FarOk (S := S) token sent read carried accepted delivered closed .closed := by
  cases phase with
  | tlsAccepting =>
      obtain ⟨rfl, rfl, rfl, rfl, rfl⟩ := h
      exact ⟨Or.inl List.nil_prefix, by simp, by simp⟩
  | readingToken f =>
      obtain ⟨-, -, -, rfl, rfl, rfl, rfl⟩ := h
      exact ⟨Or.inl List.nil_prefix, by simp, by simp⟩
  | accepting rest =>
      obtain ⟨-, -, hsent, -, rfl, rfl, rfl⟩ := h
      refine ⟨Or.inl ?_, by simp, by simp⟩
      rw [List.append_nil, ← hsent]
      exact List.prefix_append _ _
  | rejecting rest =>
      obtain ⟨htoken, -, hsent, rfl, rfl, rfl⟩ := h
      refine ⟨Or.inr ⟨htoken, ?_⟩, by simp, by simp⟩
      rw [← hsent]
      exact List.prefix_append _ _
  | dialing stream =>
      obtain ⟨hfits, -, rfl, rfl⟩ := h
      exact ⟨Or.inl (List.prefix_refl _), fun _ => rfl, fun _ => ⟨hfits, hread⟩⟩
  | closed => exact h
  | noiseAccepting | piping => exact h.elim

end Tls

/-- The two ends of a link between a client with one rule and a forwarder with another. -/
structure Tls.Inv {S : Snow} (client : ClientRule) (rule : ForwardRule) (l : Link S) (g : Logs) :
    Prop where
  near : NearOk client.token l.far.inc.carried l.far.out.read l.far.out.carried (g.accepted .near)
    (g.delivered .near) (g.closed .near) l.near
  far : FarOk rule.token l.far.out.carried l.far.inc.read l.far.inc.carried (g.accepted .far)
    (g.delivered .far) (g.closed .far) l.far.phase
  taken : ∀ x, (l.wire x).taken ≤ (l.wire x).carried.length
  ended : ∀ x, (l.wire x).ended = true → g.closed x = true ∨ g.dropped x = true

namespace Tls

variable {S : Snow} {client : ClientRule} {rule : ForwardRule} {l : Link S} {g : Logs}

theorem taken_push_le {w : Wire} (h : w.taken ≤ w.carried.length) (pushed : Bytes) :
    (w.push pushed).taken ≤ (w.push pushed).carried.length := by
  simp only [Wire.taken_push, Wire.carried_push, List.length_append]
  omega

/-- The near end takes a step on the way to its stream, or with it. -/
theorem Inv.near_moves (h : Inv client rule l g) {phase : Phase S} {far : Conn S}
    (pushed got : Bytes) {rest : Bytes} (hphase : far.phase = l.far.phase)
    (hinc : far.inc = l.far.inc.push pushed) (hunread : l.far.out.unread = got ++ rest)
    (hout : far.out = l.far.out.advance got.length)
    (hnear : NearOk client.token (l.far.inc.carried ++ pushed) (l.far.out.read ++ got)
      l.far.out.carried (g.accepted .near) (g.delivered .near) (g.closed .near) phase) :
    Inv client rule ⟨phase, far⟩ g where
  near := by
    rw [hinc, hout, (Wire.read_advance hunread).1]
    exact hnear
  far := by
    have htaken : l.far.inc.taken ≤ l.far.inc.carried.length := h.taken .near
    rw [hphase, hinc, hout, Wire.read_push htaken]
    exact h.far.mono (List.prefix_append _ _)
  taken := by
    intro x
    cases x with
    | near =>
        show far.inc.taken ≤ far.inc.carried.length
        rw [hinc]
        exact taken_push_le (h.taken .near) pushed
    | far =>
        show far.out.taken ≤ far.out.carried.length
        rw [hout]
        exact Wire.taken_advance_le hunread (h.taken .far)
  ended := by
    intro x
    cases x with
    | near =>
        show far.inc.ended = true → _
        rw [hinc]
        exact h.ended .near
    | far =>
        show far.out.ended = true → _
        rw [hout]
        exact h.ended .far

theorem Inv.far_moves (h : Inv client rule l g) {far : Conn S} (pushed got : Bytes) {rest : Bytes}
    (hout : far.out = l.far.out.push pushed) (hunread : l.far.inc.unread = got ++ rest)
    (hinc : far.inc = l.far.inc.advance got.length)
    (hfar : FarOk rule.token (l.far.out.carried ++ pushed) (l.far.inc.read ++ got)
      l.far.inc.carried (g.accepted .far) (g.delivered .far) (g.closed .far) far.phase) :
    Inv client rule { l with far := far } g where
  near := by
    have htaken : l.far.out.taken ≤ l.far.out.carried.length := h.taken .far
    rw [hinc, hout, Wire.read_push htaken]
    exact h.near.mono (List.prefix_append _ _)
  far := by
    rw [hinc, hout, (Wire.read_advance hunread).1]
    exact hfar
  taken := by
    intro x
    cases x with
    | near =>
        show far.inc.taken ≤ far.inc.carried.length
        rw [hinc]
        exact Wire.taken_advance_le hunread (h.taken .near)
    | far =>
        show far.out.taken ≤ far.out.carried.length
        rw [hout]
        exact taken_push_le (h.taken .far) pushed
  ended := by
    intro x
    cases x with
    | near =>
        show far.inc.ended = true → _
        rw [hinc]
        exact h.ended .near
    | far =>
        show far.out.ended = true → _
        rw [hout]
        exact h.ended .far

/-- The near end has given up. -/
theorem Inv.near_closed (h : Inv client rule l g) : NearOk (S := S) client.token l.far.inc.carried
    l.far.out.read l.far.out.carried (g.accepted .near) (g.delivered .near) (g.closed .near)
    .closed :=
  h.near.close (List.take_prefix _ _)

theorem Inv.far_closed (h : Inv client rule l g) : FarOk (S := S) rule.token l.far.out.carried
    l.far.inc.read l.far.inc.carried (g.accepted .far) (g.delivered .far) (g.closed .far) .closed :=
  h.far.close (List.take_prefix _ _)

theorem inv_start : Inv (S := S) client rule ⟨.connecting, Conn.start S .tls⟩ Logs.empty where
  near := ⟨rfl, rfl, rfl, rfl, rfl⟩
  far := ⟨rfl, rfl, rfl, rfl, rfl⟩
  taken := by
    intro x
    cases x with
    | near | far => exact Nat.le_refl 0
  ended := by
    intro x h
    cases x with
    | near | far => cases h

/-- What comes of the frame with the token. -/
theorem near_sending {token : Option String} {sent : Bytes} {carried : Bytes} {f : FrameWrite}
    (hfits : Presentable token) (hsome : token.isSome = true) (hok : f.Ok)
    (hsent : sent ++ f.unsent = hello token) :
    NearOk (S := S) token sent [] carried [] [] false (Phase.sending f) := by
  cases f with
  | header | data | flushing => exact ⟨hfits, hsome, hok, hsent, rfl, rfl, rfl, rfl⟩
  | done => exact ⟨hfits, hsome, by simpa [FrameWrite.unsent] using hsent, rfl, rfl, rfl, rfl⟩
  | failed e => exact hok.elim

/-- The TLS handshake of the near end is completed. -/
theorem near_tlsConnected {carried : Bytes} :
    NearOk client.token [] [] carried [] [] false (Phase.tlsConnected S client) := by
  unfold Phase.tlsConnected
  cases htoken : client.token with
  | none => exact ⟨fun t ht => (by cases ht), rfl, rfl, rfl⟩
  | some token =>
      by_cases hfits : (utf8 token.toList).length < 65536
      · refine near_sending ?_ rfl (FrameWrite.start_ok hfits) rfl
        intro t ht
        rw [← Option.some.inj ht]
        exact hfits
      · have hstart : FrameWrite.start (utf8 token.toList) = .failed .invalidInput := if_neg hfits
        simp only [hstart, Phase.sending]
        exact ⟨List.nil_prefix, by simp, by simp, by simp⟩

/-- A step of the near end on its way to the stream. -/
theorem Inv.step_near (htransport : client.transport = .tls) (derivePsk : String → Psk)
    (h : Inv client rule l g) {e : Phase.Event} {p : Phase S × Wire × Wire}
    (he : e.reliable = true)
    (hp : l.near.step derivePsk client l.far.inc l.far.out e = some p) :
    Inv client rule ⟨p.1, { l.far with inc := p.2.1, out := p.2.2 }⟩ g := by
  have hnear := h.near
  have hquiet : ∀ phase : Phase S, NearOk client.token l.far.inc.carried l.far.out.read
      l.far.out.carried (g.accepted .near) (g.delivered .near) (g.closed .near) phase →
        Inv client rule ⟨phase, l.far⟩ g := by
    intro phase hok
    refine h.near_moves [] [] rfl (Wire.push_nil _).symm rfl rfl ?_
    rw [List.append_nil, List.append_nil]
    exact hok
  cases e with
  | connect ok =>
      cases hphase : l.near with
      | connecting =>
          rw [hphase] at hp hnear
          obtain rfl := Option.some.inj hp
          cases ok with
          | false => exact hquiet .closed h.near_closed
          | true =>
              have hconnected : Phase.connected S derivePsk client = .tlsConnecting := by
                simp [Phase.connected, htransport]
              rw [if_pos rfl, hconnected]
              exact hquiet .tlsConnecting hnear
      | tlsConnecting | sendingToken | readingAck | noiseConnecting | secured | closed =>
          simp [Phase.step, hphase] at hp
  | tlsConnect ok =>
      cases hphase : l.near with
      | tlsConnecting =>
          rw [hphase] at hp hnear
          obtain rfl := Option.some.inj hp
          cases ok with
          | false => exact hquiet .closed h.near_closed
          | true =>
              refine hquiet _ ?_
              obtain ⟨hsent, hread, haccepted, hdelivered, hclosed⟩ := hnear
              rw [if_pos rfl, hsent, hread, haccepted, hdelivered, hclosed]
              exact near_tlsConnected
      | connecting | sendingToken | readingAck | noiseConnecting | secured | closed =>
          simp [Phase.step, hphase] at hp
  | write a =>
      cases hphase : l.near with
      | sendingToken f =>
          rw [hphase] at hp hnear
          obtain rfl := Option.some.inj hp
          obtain ⟨hfits, hsome, hok, hsent, hread, haccepted, hdelivered, hclosed⟩ := hnear
          rcases FrameWrite.step_cases hok l.far.inc a with
            ⟨e, heq, -⟩ | ⟨f', pushed, heq, hok', hunsent, -⟩
          · rw [heq]
            exact hquiet .closed h.near_closed
          · rw [heq]
            refine h.near_moves pushed [] rfl rfl rfl rfl ?_
            rw [List.append_nil, hread, haccepted, hdelivered, hclosed]
            refine near_sending hfits hsome hok' ?_
            rw [List.append_assoc, ← hunsent, hsent]
      | noiseConnecting peer =>
          rw [hphase] at hnear
          exact hnear.elim
      | connecting | tlsConnecting | readingAck | secured | closed =>
          simp [Phase.step, hphase] at hp
  | read a =>
      cases hphase : l.near with
      | readingAck =>
          rw [hphase] at hp hnear
          obtain rfl := Option.some.inj hp
          obtain ⟨hfits, hsome, hsent, hread, haccepted, hdelivered, hclosed⟩ := hnear
          have hclose := h.near_closed
          obtain ⟨token, htoken⟩ := Option.isSome_iff_exists.1 hsome
          rcases l.far.out.pollRead_cases a (Nat.zero_lt_one) with
            heq | ⟨-, heq⟩ | ⟨-, -, heq⟩ | ⟨got, rest, hgot, hunread, hle, heq⟩
          · rw [heq]
            exact hquiet .readingAck ⟨hfits, hsome, hsent, hread, haccepted, hdelivered, hclosed⟩
          · rw [heq]
            exact hquiet .closed hclose
          · rw [heq]
            exact hquiet .closed hclose
          · rw [heq]
            refine h.near_moves [] _ rfl (Wire.push_nil _).symm hunread rfl ?_
            obtain ⟨b, more, rfl⟩ := List.exists_cons_of_ne_nil hgot
            obtain rfl : more = [] := List.length_eq_zero_iff.1 (by simpa using hle)
            rw [List.append_nil, hread, haccepted, hdelivered, hclosed]
            show NearOk _ _ _ _ _ _ _ (if [b] = [1] then _ else _)
            by_cases hb : [b] = [1]
            · rw [if_pos hb, hb]
              refine ⟨hfits, rfl, by rw [hsent, List.append_nil], ?_⟩
              rw [htoken]
              rfl
            · rw [if_neg hb]
              exact ⟨by rw [hsent, List.append_nil], by simp, by simp, by simp⟩
      | noiseConnecting peer =>
          rw [hphase] at hnear
          exact hnear.elim
      | connecting | tlsConnecting | sendingToken | secured | closed =>
          simp [Phase.step, hphase] at hp

/-- The far end does nothing to the two directions but to go on. -/
theorem Inv.far_quiet (h : Inv client rule l g) {far : Conn S} (hinc : far.inc = l.far.inc)
    (hout : far.out = l.far.out)
    (hfar : FarOk rule.token l.far.out.carried l.far.inc.read l.far.inc.carried (g.accepted .far)
      (g.delivered .far) (g.closed .far) far.phase) : Inv client rule { l with far := far } g := by
  refine h.far_moves [] [] (by rw [hout, Wire.push_nil]) rfl hinc ?_
  rw [List.append_nil, List.append_nil]
  exact hfar

/-- The far end has read a token. -/
theorem far_presented {token : Bytes} {read carried : Bytes} (hsome : rule.token.isSome = true)
    (hle : token.length ≤ maxTokenLen) (hread : read = frame token) :
    FarOk (S := S) rule.token [] read carried [] [] false (Conn.presented rule token) := by
  obtain ⟨wanted, htoken⟩ := Option.isSome_iff_exists.1 hsome
  simp only [Conn.presented, htoken]
  split
  · rename_i heq
    rw [constantTimeEq_iff] at heq
    subst heq
    refine ⟨?_, by simp, rfl, hread, rfl, rfl, rfl⟩
    intro t ht
    rw [← Option.some.inj ht]
    exact Nat.lt_of_le_of_lt hle (by decide)
  · exact ⟨rfl, by simp, rfl, rfl, rfl, rfl⟩

/-- A poll of the far end for the token. -/
theorem Inv.step_readToken (h : Inv client rule l g) {f : FrameRead}
    (hphase : l.far.phase = .readingToken f) {a : ReadAnswer} {far : Conn S}
    (hfar : l.far.step rule (.readToken a) = some far) : Inv client rule { l with far := far } g := by
  have hok := h.far
  have hclose := h.far_closed
  rw [hphase] at hok
  obtain ⟨hsome, hok, hheld, hsent, haccepted, hdelivered, hclosed⟩ := hok
  obtain ⟨got, hwire, hunread, hout⟩ := FrameRead.step_spec hok l.far.inc a
  have hmoves : ∀ far : Conn S, far.out = l.far.out → far.inc = l.far.inc.advance got.length →
      FarOk rule.token [] (f.held ++ got) l.far.inc.carried [] [] false far.phase →
        Inv client rule { l with far := far } g := by
    intro far hout hinc hfar
    refine h.far_moves [] _ (by rw [hout, Wire.push_nil]) hunread hinc ?_
    rw [List.append_nil, hsent, haccepted, hdelivered, hclosed, ← hheld]
    exact hfar
  have hgone : FarOk (S := S) rule.token [] (f.held ++ got) l.far.inc.carried [] [] false
      .closed := ⟨Or.inl List.nil_prefix, by simp, by simp⟩
  simp only [Conn.step, hphase] at hfar
  rw [hwire] at hfar
  generalize (f.step maxTokenLen l.far.inc a).1 = f' at hfar hout
  cases hout with
  | @done data hle hlt hframe =>
      obtain rfl := Option.some.inj hfar
      exact hmoves _ rfl rfl (far_presented hsome hle hframe)
  | going hok' hheld' =>
      cases f' with
      | header | body =>
          obtain rfl := Option.some.inj hfar
          exact hmoves _ rfl rfl ⟨hsome, hok', hheld', rfl, rfl, rfl, rfl⟩
      | done data | failed e => exact absurd hok' (by simp [FrameRead.Ok])
  | tooLarge | eof | error =>
      obtain rfl := Option.some.inj hfar
      exact hmoves _ rfl rfl hgone

/-- A poll of the far end with the answer to the token. -/
theorem Inv.step_answer (h : Inv client rule l g) {a : WriteAnswer} {far : Conn S}
    (hfar : l.far.step rule (.answer a) = some far) : Inv client rule { l with far := far } g := by
  have hok := h.far
  have hclose := h.far_closed
  cases hphase : l.far.phase with
  | accepting rest =>
      rw [hphase] at hok
      obtain ⟨hfits, hne, hsent, hread, haccepted, hdelivered, hclosed⟩ := hok
      simp only [Conn.step, hphase] at hfar
      rcases l.far.out.writeAll_cases rest a with
        ⟨e, heq, hwire, -⟩ | ⟨pushed, more, hsplit, heq, hwire, -⟩
      · rw [heq, hwire] at hfar
        obtain rfl := Option.some.inj hfar
        exact h.far_quiet rfl rfl hclose
      · have hsent' : (l.far.out.carried ++ pushed) ++ more = ack rule.token := by
          rw [List.append_assoc, ← hsplit, hsent]
        have hmoves : ∀ far : Conn S, far.out = l.far.out.push pushed → far.inc = l.far.inc →
            FarOk rule.token (l.far.out.carried ++ pushed) (expected rule.token) l.far.inc.carried [] []
              false far.phase → Inv client rule { l with far := far } g := by
          intro far hout hinc hfar
          refine h.far_moves _ [] hout rfl hinc ?_
          rw [List.append_nil, hread, haccepted, hdelivered, hclosed]
          exact hfar
        rw [heq, hwire] at hfar
        cases more with
        | nil =>
            obtain rfl := Option.some.inj hfar
            exact hmoves _ rfl rfl ⟨hfits, rfl, by simpa using hsent', by simp⟩
        | cons b more =>
            obtain rfl := Option.some.inj hfar
            exact hmoves _ rfl rfl ⟨hfits, List.cons_ne_nil _ _, hsent', rfl, rfl, rfl, rfl⟩
  | rejecting rest =>
      rw [hphase] at hok
      obtain ⟨hsome, hne, hsent, haccepted, hdelivered, hclosed⟩ := hok
      simp only [Conn.step, hphase] at hfar
      rcases l.far.out.writeAll_cases rest a with
        ⟨e, heq, hwire, -⟩ | ⟨pushed, more, hsplit, heq, hwire, -⟩
      · rw [heq, hwire] at hfar
        obtain rfl := Option.some.inj hfar
        exact h.far_quiet rfl rfl hclose
      · have hsent' : (l.far.out.carried ++ pushed) ++ more = [0] := by
          rw [List.append_assoc, ← hsplit, hsent]
        have hmoves : ∀ far : Conn S, far.out = l.far.out.push pushed → far.inc = l.far.inc →
            FarOk rule.token (l.far.out.carried ++ pushed) l.far.inc.read l.far.inc.carried [] []
              false far.phase → Inv client rule { l with far := far } g := by
          intro far hout hinc hfar
          refine h.far_moves _ [] hout rfl hinc ?_
          rw [List.append_nil, haccepted, hdelivered, hclosed]
          exact hfar
        rw [heq, hwire] at hfar
        cases more with
        | nil =>
            obtain rfl := Option.some.inj hfar
            refine hmoves _ rfl rfl ⟨Or.inr ⟨hsome, ?_⟩, by simp, by simp⟩
            rw [← hsent']
            exact List.prefix_append _ _
        | cons b more =>
            obtain rfl := Option.some.inj hfar
            exact hmoves _ rfl rfl ⟨hsome, List.cons_ne_nil _ _, hsent', rfl, rfl, rfl⟩
  | tlsAccepting | readingToken | noiseAccepting | dialing | piping | closed =>
      simp [Conn.step, hphase] at hfar

/-- A step of the far end on its way to the stream. -/
theorem Inv.step_far (h : Inv client rule l g) {e : Conn.Event} {far : Conn S}
    (he : Link.opening e = true) (hfar : l.far.step rule e = some far) :
    Inv client rule { l with far := far } g := by
  have hok := h.far
  cases e with
  | tlsAccept ok =>
      cases hphase : l.far.phase with
      | tlsAccepting =>
          rw [hphase] at hok
          obtain ⟨hsent, hread, haccepted, hdelivered, hclosed⟩ := hok
          simp only [Conn.step, hphase] at hfar
          cases ok with
          | false =>
              obtain rfl := Option.some.inj hfar
              exact h.far_quiet rfl rfl h.far_closed
          | true =>
              obtain rfl := Option.some.inj hfar
              refine h.far_quiet rfl rfl ?_
              rw [hsent, hread, haccepted, hdelivered, hclosed]
              show FarOk _ _ _ _ _ _ _ (Conn.tlsAccepted rule)
              unfold Conn.tlsAccepted
              cases htoken : rule.token with
              | none => exact ⟨fun t ht => (by cases ht), rfl, rfl, rfl⟩
              | some token => exact ⟨rfl, FrameRead.start_ok _, rfl, rfl, rfl, rfl, rfl⟩
      | readingToken | accepting | rejecting | noiseAccepting | dialing | piping | closed =>
          simp [Conn.step, hphase] at hfar
  | readToken a =>
      cases hphase : l.far.phase with
      | readingToken f => exact h.step_readToken hphase hfar
      | tlsAccepting | accepting | rejecting | noiseAccepting | dialing | piping | closed =>
          simp [Conn.step, hphase] at hfar
  | answer a => exact h.step_answer hfar
  | noiseRead a | noiseWrite a =>
      cases hphase : l.far.phase with
      | noiseAccepting peer =>
          rw [hphase] at hok
          exact hok.elim
      | tlsAccepting | readingToken | accepting | rejecting | dialing | piping | closed =>
          simp [Conn.step, hphase] at hfar
  | peerSends | peerEnds | dial | pumpRead | pumpWrite | close => cases he

/-! ## The two streams -/

def tokenAt (client : ClientRule) (rule : ForwardRule) : End → Option String
  | .near => client.token
  | .far => rule.token

/-- What an end writes before it has its stream. -/
def lead (client : ClientRule) (rule : ForwardRule) : End → Bytes
  | .near => hello client.token
  | .far => ack rule.token

/-- What it reads before that. -/
def head (client : ClientRule) (rule : ForwardRule) : End → Bytes
  | .near => ack client.token
  | .far => expected rule.token

/-- The stream of an end is a TLS stream, and all that went over it was what was accepted and
delivered. -/
theorem Inv.of_stream (h : Inv client rule l g) {x : End} {stream : Forward.Client S}
    (hstream : l.stream x = some stream) :
    stream = .tls ∧ Presentable (tokenAt client rule x)
      ∧ (l.wire x).carried = lead client rule x ++ g.accepted x
      ∧ (l.wire x.other).read = head client rule x ++ g.delivered x := by
  cases x with
  | near =>
      have hok := h.near
      cases hphase : l.near with
      | secured stream' =>
          simp only [Link.stream, hphase, Option.some.injEq] at hstream
          rw [hphase, hstream] at hok
          obtain ⟨hfits, htls, hsent, hread⟩ := hok
          exact ⟨htls, hfits, hsent, hread⟩
      | connecting | tlsConnecting | sendingToken | readingAck | noiseConnecting | closed =>
          simp [Link.stream, hphase] at hstream
  | far =>
      have hok := h.far
      cases hphase : l.far.phase with
      | dialing stream' =>
          simp only [Link.stream, hphase, Option.some.injEq] at hstream
          rw [hphase, hstream] at hok
          obtain ⟨hfits, htls, hsent, hread⟩ := hok
          exact ⟨htls, hfits, hsent, hread⟩
      | tlsAccepting | readingToken | accepting | rejecting | noiseAccepting | piping | closed =>
          simp [Link.stream, hphase] at hstream

/-- An end has polled its stream: it may have written to the one wire, or have read from the other. -/
theorem Inv.put (h : Inv client rule l g) {x : End} {stream : Forward.Client S}
    (hstream : l.stream x = some stream) (g' : Logs) (out : Wire) (pushed got : Bytes) {rest : Bytes}
    (hout : out = { (l.wire x).push pushed with ended := out.ended })
    (hunread : (l.wire x.other).unread = got ++ rest)
    (hended : out.ended = true → g'.closed x = true ∨ g'.dropped x = true)
    (haccepted : g'.accepted x = g.accepted x ++ pushed)
    (hdelivered : g'.delivered x = g.delivered x ++ got)
    (hother : g'.accepted x.other = g.accepted x.other ∧ g'.delivered x.other = g.delivered x.other
      ∧ g'.closed x.other = g.closed x.other ∧ g'.dropped x.other = g.dropped x.other) :
    Inv client rule (l.put x .tls out ((l.wire x.other).advance got.length)) g' := by
  obtain ⟨-, hfits, hsent, hread⟩ := h.of_stream hstream
  obtain ⟨haccepted', hdelivered', hclosed', hdropped'⟩ := hother
  have hcarried : out.carried = lead client rule x ++ g'.accepted x := by
    rw [hout, haccepted, ← List.append_assoc, ← hsent]
    rfl
  have hmore : (l.wire x).carried <+: out.carried := by
    rw [hout]
    exact List.prefix_append _ _
  have hsame : out.read = (l.wire x).read := by
    rw [hout]
    exact Wire.read_push (h.taken x)
  have htaken : out.taken ≤ out.carried.length := by
    rw [hout]
    exact taken_push_le (h.taken x) pushed
  have htaken' : ((l.wire x.other).advance got.length).taken
      ≤ ((l.wire x.other).advance got.length).carried.length :=
    Wire.taken_advance_le hunread (h.taken x.other)
  have hread' : ((l.wire x.other).advance got.length).read
      = head client rule x ++ g'.delivered x := by
    rw [(Wire.read_advance hunread).1, hread, hdelivered, List.append_assoc]
  have hended' : (l.wire x.other).ended = true → g'.closed x.other = true ∨ g'.dropped x.other = true := by
    rw [hclosed', hdropped']
    exact h.ended x.other
  cases x with
  | near =>
      refine ⟨⟨hfits, rfl, hcarried, hread'⟩, ?_, fun x => ?_, fun x => ?_⟩
      · have hfar := h.far.mono hmore
        show FarOk _ _ out.read _ (g'.accepted End.near.other) (g'.delivered End.near.other)
          (g'.closed End.near.other) _
        rw [hsame, haccepted', hdelivered', hclosed']
        exact hfar
      · cases x with
        | near => exact htaken
        | far => exact htaken'
      · cases x with
        | near => exact hended
        | far => exact hended'
  | far =>
      refine ⟨?_, ⟨hfits, rfl, hcarried, hread'⟩, fun x => ?_, fun x => ?_⟩
      · have hnear := h.near.mono hmore
        show NearOk _ _ out.read _ (g'.accepted End.far.other) (g'.delivered End.far.other)
          (g'.closed End.far.other) _
        rw [hsame, haccepted', hdelivered', hclosed']
        exact hnear
      · cases x with
        | near => exact htaken'
        | far => exact htaken
      · cases x with
        | near => exact hended'
        | far => exact hended

theorem inv_write {x : End} {buf : Bytes} {script : List WriteAnswer} {p : Poll Nat × Link S}
    (h : Inv client rule l g) (hp : l.pollWrite x buf script = some p) :
    p.1.Within buf ∧ Inv client rule p.2 (g.write x (p.1.accepted buf)) := by
  obtain ⟨-, hmap⟩ := Option.ite_none_right_eq_some.1 hp
  obtain ⟨stream, hstream, rfl⟩ := Option.map_eq_some_iff.1 hmap
  obtain ⟨rfl, -⟩ := h.of_stream hstream
  have hput : ∀ pushed, Inv client rule
      (l.put x .tls ((l.wire x).push pushed) (l.wire x.other)) (g.write x pushed) := by
    intro pushed
    have hnext := h.put hstream (g.write x pushed) ((l.wire x).push pushed) pushed [] rfl rfl
      (fun hended => h.ended x hended) (by simp) (by simp [Logs.write]) ⟨by simp, rfl, rfl, rfl⟩
    rw [List.length_nil, Wire.advance_zero] at hnext
    exact hnext
  cases script with
  | nil =>
      have hnext := hput []
      rw [Wire.push_nil] at hnext
      exact ⟨fun n hn => (by cases hn), hnext⟩
  | cons a script =>
      obtain ⟨hwire, hwithin⟩ := (l.wire x).pollWrite_accepted buf a
      refine ⟨hwithin, ?_⟩
      show Inv client rule (l.put x .tls ((l.wire x).pollWrite buf a).2 _) _
      rw [hwire]
      exact hput _

theorem inv_read {x : End} {script : List ReadAnswer} {p : Poll Bytes × Link S}
    (h : Inv client rule l g) (hp : l.pollRead x script = some p) :
    Inv client rule p.2 (g.read x p.1.delivered) := by
  obtain ⟨-, hmap⟩ := Option.ite_none_right_eq_some.1 hp
  obtain ⟨stream, hstream, rfl⟩ := Option.map_eq_some_iff.1 hmap
  obtain ⟨rfl, -⟩ := h.of_stream hstream
  have hput : ∀ got rest, (l.wire x.other).unread = got ++ rest → Inv client rule
      (l.put x .tls (l.wire x) ((l.wire x.other).advance got.length)) (g.read x got) := by
    intro got rest hunread
    exact h.put hstream _ (l.wire x) [] _ (by rw [Wire.push_nil]) hunread
      (fun hended => h.ended x hended) (by simp [Logs.read]) (by simp) ⟨rfl, by simp, rfl, rfl⟩
  cases script with
  | nil => exact hput [] _ rfl
  | cons a script =>
      obtain ⟨hwire, rest, hunread⟩ := (l.wire x.other).pollRead_delivered (by decide : 0 < bufSize) a
      show Inv client rule (l.put x .tls _ ((l.wire x.other).pollRead bufSize a).2) _
      rw [hwire]
      exact hput _ rest hunread

theorem inv_shutdown {x : End} {script : List WriteAnswer} {p : Poll Unit × Link S}
    (h : Inv client rule l g) (hp : l.pollShutdown x script = some p) :
    (∀ e, p.1 ≠ .ready (.error e)) ∧ Inv client rule p.2 (g.shutdown x p.1.isShut) := by
  obtain ⟨hscript, hmap⟩ := Option.ite_none_right_eq_some.1 hp
  obtain ⟨stream, hstream, rfl⟩ := Option.map_eq_some_iff.1 hmap
  obtain ⟨rfl, -⟩ := h.of_stream hstream
  have hput : ∀ (out : Wire) (shut : Bool), out = { l.wire x with ended := out.ended } →
      (out.ended = true → (g.shutdown x shut).closed x = true ∨ (g.shutdown x shut).dropped x = true) →
        Inv client rule (l.put x .tls out (l.wire x.other)) (g.shutdown x shut) := by
    intro out shut hout hended
    have hnext := h.put hstream (g.shutdown x shut) out [] []
      (by rw [Wire.push_nil]; exact hout) rfl hended (by simp [Logs.shutdown])
      (by simp [Logs.shutdown]) ⟨rfl, rfl, by simp, rfl⟩
    rw [List.length_nil, Wire.advance_zero] at hnext
    exact hnext
  have hquiet : Inv client rule (l.put x .tls (l.wire x) (l.wire x.other)) (g.shutdown x false) :=
    hput _ false rfl fun hended => by
      rw [Logs.shutdown_false]
      exact h.ended x hended
  cases script with
  | nil => exact ⟨fun e he => (by cases he), hquiet⟩
  | cons a script =>
      have ha : reliableWrite a = true := List.all_eq_true.1 hscript a List.mem_cons_self
      cases a with
      | upTo n =>
          exact ⟨fun e he => (by cases he), hput { l.wire x with ended := true } true rfl
            fun _ => Or.inl (by simp)⟩
      | pending => exact ⟨fun e he => (by cases he), hquiet⟩
      | zero | fail => cases ha

theorem inv_drop (h : Inv client rule l g) (x : End) : Inv client rule (l.drop x) (g.drop x) := by
  have htaken := h.taken
  have hended := h.ended
  cases x with
  | near =>
      refine ⟨h.near_closed, h.far, fun x => ?_, fun x => ?_⟩
      · cases x with
        | near => exact htaken .near
        | far => exact htaken .far
      · cases x with
        | near => exact fun _ => Or.inr (by simp)
        | far => exact hended .far
  | far =>
      refine ⟨h.near, h.far_closed, fun x => ?_, fun x => ?_⟩
      · cases x with
        | near => exact htaken .near
        | far => exact htaken .far
      · cases x with
        | near => exact hended .near
        | far => exact fun _ => Or.inr (by simp)

/-- Where both sides have a token, the one that was read is the one that was written. -/
theorem expected_isPrefix {token token' : Option String} (hsome : token.isSome = token'.isSome)
    (hfits : Presentable token) (hfits' : Presentable token') {sent got : Bytes}
    (h : expected token' ++ got <+: expected token ++ sent) :
    expected token' = expected token ∧ got <+: sent := by
  cases token with
  | none =>
      cases token' with
      | none => exact ⟨rfl, h⟩
      | some t' => cases hsome
  | some t =>
      cases token' with
      | none => cases hsome
      | some t' =>
          obtain ⟨more, hmore⟩ := h
          rw [List.append_assoc] at hmore
          obtain ⟨heq, hrest⟩ := frame_append_inj (hfits' t' rfl) (hfits t rfl) hmore
          exact ⟨congrArg frame heq, more, hrest⟩

theorem ack_isPrefix {token token' : Option String} (hsome : token.isSome = token'.isSome)
    {sent got : Bytes} (h : ack token ++ got <+: ack token' ++ sent) :
    ack token = ack token' ∧ got <+: sent := by
  cases token with
  | none =>
      cases token' with
      | none => exact ⟨rfl, h⟩
      | some t' => cases hsome
  | some t =>
      cases token' with
      | none => cases hsome
      | some t' => exact ⟨rfl, (List.prefix_append_right_inj _).1 h⟩

/-- What was delivered at an end, and at an end of file. -/
theorem Inv.delivered (h : Inv client rule l g) (hmatch : Matches client rule) (x : End) :
    g.delivered x <+: g.accepted x.other := by
  obtain ⟨hsent, -, haccepted, hdelivered⟩ := h.near_closed
  obtain ⟨hsent', -, hdelivered'⟩ := h.far_closed
  have hagree : Presentable client.token → client.token.isSome = rule.token.isSome := fun hfits =>
    hmatch.resolve_right fun hnot => hnot hfits
  cases x with
  | near =>
      show g.delivered .near <+: g.accepted .far
      by_cases hne : g.delivered .near = []
      · rw [hne]
        exact List.nil_prefix
      obtain ⟨hfits, hread⟩ := hdelivered hne
      have hsome := hagree hfits
      rcases hsent' with hsent' | ⟨hrule, hsent'⟩
      · exact (ack_isPrefix hsome (hread.trans hsent')).2
      · -- A token that was refused is not acknowledged.
        rw [hrule] at hsome
        obtain ⟨t, ht⟩ := Option.isSome_iff_exists.1 hsome
        rw [ht] at hread
        obtain ⟨more, hmore⟩ := hread.trans hsent'
        have hfirst := congrArg List.head? hmore
        simp [ack] at hfirst
  | far =>
      show g.delivered .far <+: g.accepted .near
      by_cases hne : g.delivered .far = []
      · rw [hne]
        exact List.nil_prefix
      obtain ⟨hfits', hread⟩ := hdelivered' hne
      have hall := hread.trans hsent
      by_cases hfits : Presentable client.token
      · rw [hello_of_presentable hfits] at hall
        exact (expected_isPrefix (hagree hfits) hfits hfits' hall).2
      · -- The client has written nothing at all.
        have hnone : g.accepted .near = [] := by
          by_contra hsome
          exact hfits (haccepted hsome)
        have hempty : hello client.token = [] := by
          cases htoken : client.token with
          | none => rfl
          | some t =>
              have hlong : ¬(utf8 t.toList).length < 65536 := by
                intro hlt
                apply hfits
                intro t' ht'
                rw [htoken] at ht'
                rwa [← Option.some.inj ht']
              simp [hello, FrameWrite.start, hlong, FrameWrite.unsent]
        rw [hnone, hempty, List.append_nil, List.prefix_nil] at hall
        exact absurd (List.append_eq_nil_iff.1 hall).2 hne

/-- A read that comes to the end. -/
theorem Inv.eof (h : Inv client rule l g) (hmatch : Matches client rule) {x : End}
    {script : List ReadAnswer} {t : Link S}
    (hp : l.pollRead x script = some (.ready (.ok []), t)) :
    (g.closed x.other = true ∧ g.delivered x = g.accepted x.other)
      ∨ (g.closed x.other = false ∧ g.dropped x.other = true) := by
  obtain ⟨-, hmap⟩ := Option.ite_none_right_eq_some.1 hp
  obtain ⟨stream, hstream, hread⟩ := Option.map_eq_some_iff.1 hmap
  obtain ⟨rfl, hfits, -, htook⟩ := h.of_stream hstream
  have hend : (l.wire x.other).unread = [] ∧ (l.wire x.other).ended = true := by
    cases script with
    | nil => cases congrArg Prod.fst hread
    | cons a script => exact Wire.pollRead_eof (by decide : 0 < bufSize) (congrArg Prod.fst hread)
  obtain ⟨hunread, hended⟩ := hend
  have hall : (l.wire x.other).carried = head client rule x ++ g.delivered x := by
    rw [← htook, ← Wire.read_append_unread, hunread, List.append_nil]
  cases hclosed : g.closed x.other with
  | false =>
      refine Or.inr ⟨rfl, (h.ended x.other hended).resolve_left fun hc => ?_⟩
      rw [hclosed] at hc
      cases hc
  | true =>
      refine Or.inl ⟨rfl, ?_⟩
      have hagree : Presentable client.token → client.token.isSome = rule.token.isSome :=
        fun hfits => hmatch.resolve_right fun hnot => hnot hfits
      cases x with
      | near =>
          have hsent := (h.far_closed).2.1 hclosed
          have heq : ack client.token ++ g.delivered .near = ack rule.token ++ g.accepted .far :=
            hall.symm.trans hsent
          have hack := (ack_isPrefix (hagree hfits) ⟨[], by rw [List.append_nil, heq]⟩).1
          rw [hack] at heq
          exact List.append_cancel_left heq
      | far =>
          obtain ⟨hfits', hsent⟩ := (h.near_closed).2.1 hclosed
          rw [hello_of_presentable hfits'] at hsent
          have heq : expected rule.token ++ g.delivered .far
              = expected client.token ++ g.accepted .near := hall.symm.trans hsent
          have hexp := (expected_isPrefix (hagree hfits') hfits' hfits
            ⟨[], by rw [List.append_nil, heq]⟩).1
          rw [hexp] at heq
          exact List.append_cancel_left heq

/-- A channel that loses and adds nothing. -/
def reliable (S : Snow) (derivePsk : String → Psk) (htransport : client.transport = .tls)
    (hmatch : Matches client rule) : (tunnel S derivePsk client rule .tls).Reliable where
  Inv := Inv client rule
  start := inv_start
  move := by
    intro l t g e h hmove
    cases e with
    | near e =>
        obtain ⟨he, hmap⟩ := Option.ite_none_right_eq_some.1 hmove
        obtain ⟨p, hp, rfl⟩ := Option.map_eq_some_iff.1 hmap
        exact h.step_near htransport derivePsk he hp
    | far e =>
        obtain ⟨he, hmap⟩ := Option.ite_none_right_eq_some.1 hmove
        obtain ⟨far, hfar, rfl⟩ := Option.map_eq_some_iff.1 hmap
        exact h.step_far he hfar
  write := fun h _ hp => inv_write h hp
  read := fun h hp => inv_read h hp
  shutdown := fun h _ _ hp => inv_shutdown h hp
  drop := fun x h => inv_drop h x
  delivered_isPrefix := fun x h => h.delivered hmatch x
  eof := fun h hp => h.eof hmatch hp

end Tls

/-! ## Rules that do not match -/

/-- What is read from the channel goes out on the socket. -/
theorem run_relay {C : Channel} {s : Splice C} {x : End} (hstage : (s.side x).stage = .piping)
    (hreceive : (s.side x).receive = .reading) (hout : (s.side x).out = Wire.empty)
    {script : List ReadAnswer} {b : UInt8} {channel : C.State}
    (hread : C.read s.channel x script = some (.ready (.ok [b]), channel)) :
    ∃ t, (Splice.machine C).run s [.readStream x script, .writeSocket x (.upTo 0)] = some t
      ∧ (t.side x).out.carried = [b] ∧ (t.side x.other).inn = (s.side x.other).inn := by
  let s' : Splice C := s.set x { s.side x with receive := .writing [b] 1 } channel
  let t : Splice C := s'.set x
    { s.side x with out := Wire.empty.push [b], receive := .reading, received := (s.side x).received + 1 }
    channel
  have hfirst : s.step (.readStream x script) = some s' := by
    simp [Splice.step, hstage, hreceive, Proxy.Pump.isReading, hread, Proxy.Pump.onRead, s']
  have hsecond : s'.step (.writeSocket x (.upTo 0)) = some t := by
    simp [Splice.step, hstage, hout, Wire.pollWrite, Wire.empty, Proxy.Pump.onWrite, writeAll, Wire.push,
      s', t]
  exact ⟨t, (Splice.machine C).run_cons_iff.2 ⟨s', hfirst, (Splice.machine C).run_cons_iff.2
    ⟨t, hsecond, rfl⟩⟩, by simp [t, Wire.empty], by simp [t, s']⟩

/-- A run after which a socket was sent a byte that the other one has not brought. -/
def Leaks (C : Channel) : Prop :=
  ∃ es s x, (Splice.machine C).run (Splice.initial C) es = some s
    ∧ (s.side x.other).inn.carried = [] ∧ (s.side x).out.carried ≠ []

theorem not_joined_of_leaks {C : Channel} (h : Leaks C) :
    ¬∀ es s, (Splice.machine C).run (Splice.initial C) es = some s → ∀ x, Splice.Joined s x := by
  obtain ⟨es, s, x, hrun, hinn, hout⟩ := h
  intro hall
  have hprefix := (hall es s hrun x.other).out_isPrefix
  rw [End.other_other, hinn, List.prefix_nil] at hprefix
  exact hout hprefix

/-- A forwarder without a token passes the client's on to its target. -/
theorem leaks_hello (S : Snow) (derivePsk : String → Psk) {client : ClientRule} {rule : ForwardRule}
    (htransport : client.transport = .tls) {token : String} (htoken : client.token = some token)
    (hfits : (utf8 token.toList).length < 65536) (hrule : rule.token = none) :
    Leaks (tunnel S derivePsk client rule .tls) := by
  obtain ⟨cname, clisten, cserver, ctransport, ctoken⟩ := client
  obtain ⟨name, listen, target, protocol, idle, transport, rtoken⟩ := rule
  obtain rfl : ctransport = .tls := htransport
  obtain rfl : ctoken = some token := htoken
  obtain rfl : rtoken = none := hrule
  let C := tunnel S derivePsk ⟨cname, clisten, cserver, .tls, some token⟩
    ⟨name, listen, target, protocol, idle, transport, none⟩ .tls
  have hsending : Phase.tlsConnected S ⟨cname, clisten, cserver, .tls, some token⟩
      = .sendingToken (.header (be16 (utf8 token.toList).length) (utf8 token.toList)) := by
    simp [Phase.tlsConnected, FrameWrite.start, hfits, Phase.sending]
  let sending : Splice C := ⟨⟨.sendingToken
    (.header (be16 (utf8 token.toList).length) (utf8 token.toList)), Conn.start S .tls⟩, fun _ => Side.new⟩
  have hconnect : (Splice.machine C).step (Splice.initial C) (.channel (.near (.connect true)))
      = some ⟨⟨.tlsConnecting, Conn.start S .tls⟩, fun _ => Side.new⟩ := rfl
  have htls : (Splice.machine C).step ⟨⟨.tlsConnecting, Conn.start S .tls⟩, fun _ => Side.new⟩
      (.channel (.near (.tlsConnect true))) = some sending := by
    show some (⟨⟨Phase.tlsConnected S ⟨cname, clisten, cserver, .tls, some token⟩, Conn.start S .tls⟩,
      fun _ => Side.new⟩ : Splice C) = some sending
    rw [hsending]
  have hopen : ∃ s channel b, (Splice.machine C).run sending [.channel (.near (.write (.upTo 0))),
        .channel (.far (.tlsAccept true)), .start .far] = some s
      ∧ (s.side .far).stage = .piping ∧ (s.side .far).receive = .reading
      ∧ (s.side .far).out = Wire.empty ∧ (s.side .near).inn = Wire.empty
      ∧ C.read s.channel .far [.upTo 0] = some (.ready (.ok [b]), channel) :=
    ⟨_, _, _, rfl, rfl, rfl, rfl, rfl, rfl⟩
  obtain ⟨s, channel, b, hs, hstage, hreceive, hout, hinn, hread⟩ := hopen
  obtain ⟨t, hrelay, hout', hinn'⟩ := run_relay hstage hreceive hout hread
  refine ⟨_, t, .far, (Splice.machine C).run_cons_iff.2 ⟨_, hconnect,
    (Splice.machine C).run_cons_iff.2 ⟨_, htls, (Splice.machine C).run_append_iff.2 ⟨s, hs, hrelay⟩⟩⟩,
    ?_, ?_⟩
  · rw [hinn']
    exact congrArg Wire.carried hinn
  · rw [hout']
    exact List.cons_ne_nil _ _

/-- The forwarder answers the first token that comes, whatever its own. -/
theorem answers_token {S : Snow} {rule : ForwardRule} (hsome : rule.token.isSome = true)
    (presented : Bytes) {far : Conn S} (hphase : far.phase = Conn.presented rule presented)
    (hout : far.out = Wire.empty) : ∃ phase b, far.step rule (.answer (.upTo 0))
      = some { far with phase := phase, out := Wire.empty.push [b] } := by
  obtain ⟨token, htoken⟩ := Option.isSome_iff_exists.1 hsome
  simp only [Conn.presented, htoken] at hphase
  split at hphase
  · exact ⟨.dialing .tls, 1, by simp [Conn.step, hphase, hout, Wire.pollWrite, Wire.empty, writeAll]⟩
  · exact ⟨.closed, 0, by simp [Conn.step, hphase, hout, Wire.pollWrite, Wire.empty, writeAll]⟩

/-- A client without a token passes the answer of the forwarder on to the local side. -/
theorem leaks_ack (S : Snow) (derivePsk : String → Psk) {client : ClientRule} {rule : ForwardRule}
    (htransport : client.transport = .tls) {token : String} (htoken : client.token = none)
    (hrule : rule.token = some token) : Leaks (tunnel S derivePsk client rule .tls) := by
  obtain ⟨cname, clisten, cserver, ctransport, ctoken⟩ := client
  obtain ⟨name, listen, target, protocol, idle, transport, rtoken⟩ := rule
  obtain rfl : ctransport = .tls := htransport
  obtain rfl : ctoken = none := htoken
  obtain rfl : rtoken = some token := hrule
  let rule : ForwardRule := ⟨name, listen, target, protocol, idle, transport, some token⟩
  let C := tunnel S derivePsk ⟨cname, clisten, cserver, .tls, none⟩ rule .tls
  -- The local side sends what looks like an empty token.
  have hpresented : ∃ (side : End → Side) (far : Conn S),
      (Splice.machine C).run (Splice.initial C) [.channel (.near (.connect true)),
        .channel (.near (.tlsConnect true)), .start .near, .socketSends .near [0, 0],
        .readSocket .near (.upTo 1), .writeStream .near [.upTo 1], .channel (.far (.tlsAccept true)),
        .channel (.far (.readToken (.upTo 1)))] = some ⟨⟨.secured .tls, far⟩, side⟩
      ∧ far.phase = Conn.presented rule [] ∧ far.out = Wire.empty ∧ (side .near).stage = .piping
      ∧ (side .near).receive = .reading ∧ (side .near).out = Wire.empty
      ∧ (side .far).inn = Wire.empty :=
    ⟨_, _, rfl, rfl, rfl, rfl, rfl, rfl, rfl⟩
  obtain ⟨side, far, hs, hphase, hout, hstage, hreceive, hsocket, hinn⟩ := hpresented
  obtain ⟨phase, b, hanswer⟩ := answers_token rfl [] hphase hout
  let far' : Conn S := { far with phase := phase, out := Wire.empty.push [b] }
  have hstep : (Splice.machine C).step ⟨⟨.secured .tls, far⟩, side⟩
      (.channel (.far (.answer (.upTo 0)))) = some ⟨⟨.secured .tls, far'⟩, side⟩ := by
    show Option.map _ (Option.map _ (far.step rule (.answer (.upTo 0)))) = _
    rw [hanswer]
    rfl
  have hread : C.read ⟨.secured .tls, far'⟩ .near [.upTo 0] = some (.ready (.ok [b]),
      Link.put ⟨.secured .tls, far'⟩ .near .tls far'.inc (far'.out.advance 1)) := rfl
  let s : Splice C := ⟨⟨.secured .tls, far'⟩, side⟩
  obtain ⟨t, hrelay, hout', hinn'⟩ := run_relay (show (s.side .near).stage = .piping from hstage)
    hreceive hsocket hread
  refine ⟨_, t, .near, (Splice.machine C).run_append_iff.2 ⟨_, hs,
    (Splice.machine C).run_cons_iff.2 ⟨_, hstep, hrelay⟩⟩, ?_, ?_⟩
  · rw [hinn']
    exact congrArg Wire.carried hinn
  · rw [hout']
    exact List.cons_ne_nil _ _

/-- **The tunnel over TLS.**  Between a mapping of `client` and one of `forward` that both ask for TLS: the
tokens match exactly when in every run, whatever the order of the polls and whatever the two sockets
answer, each socket is sent a prefix of what the other one brought, all of it where both loops came to
their end. -/
theorem tls_tunnel_faithful_iff (S : Snow) (derivePsk : String → Psk) {client : ClientRule}
    {rule : ForwardRule} {security : ConnSecurity} (hclient : client.transport = .tls)
    (hrule : rule.transport = some .tls) (hsecurity : ConnSecurity.new derivePsk rule = some security) :
    (∀ es s, (Splice.machine (tunnel S derivePsk client rule security)).run (Splice.initial _) es
        = some s → ∀ x, Splice.Joined s x) ↔ Matches client rule := by
  have htls : security = .tls := by
    simpa [ConnSecurity.new, hrule] using hsecurity.symm
  subst htls
  constructor
  · intro hall
    by_contra hnot
    obtain ⟨hdiffer, hfits⟩ := not_or.1 hnot
    rw [not_not] at hfits
    cases htoken : client.token with
    | none =>
        cases hwanted : rule.token with
        | none => exact hdiffer (by rw [htoken, hwanted])
        | some token =>
            exact not_joined_of_leaks (leaks_ack S derivePsk hclient htoken hwanted) hall
    | some token =>
        cases hwanted : rule.token with
        | none =>
            exact not_joined_of_leaks
              (leaks_hello S derivePsk hclient htoken (hfits token htoken) hwanted) hall
        | some token' => exact hdiffer (by rw [htoken, hwanted]; rfl)
  · intro hmatch es s hrun x
    exact Splice.joined_run (Tls.reliable S derivePsk hclient hmatch) hrun x

theorem tls_tunnel_faithful_iff_token :
    ((∀ es s, (Splice.machine (tunnel Pair.plainSnow (fun _ => Psk.repeated 7)
        (mapping .tls (some "s3cret")) (listener .tls (some "s3cret")) .tls)).run (Splice.initial _) es
          = some s → ∀ x, Splice.Joined s x)
      ↔ Matches (mapping .tls (some "s3cret")) (listener .tls (some "s3cret")))
    ∧ Matches (mapping .tls (some "s3cret")) (listener .tls (some "s3cret"))
    ∧ ¬Matches (mapping .tls none) (listener .tls (some "s3cret")) := by
  refine ⟨tls_tunnel_faithful_iff _ _ rfl rfl rfl, Or.inl rfl, ?_⟩
  rintro (h | h)
  · cases h
  · exact h fun t ht => by cases ht

end Client
end Erbridge
