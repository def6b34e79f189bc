import Erbridge.Noise.Psk
import Erbridge.Noise.Stream
import Erbridge.Reverse.Frame

/-!
# The Noise handshake

`connect` and `accept_any` as they talk over a byte transport: one step is one poll of the transport,
and what they compute in between belongs to the step that made it possible.  The Noise library is a
parameter, with the random choices of the two handshake states in it.

* `Snow` — the calls of the library that are used.
* `Peer.handshakeWrite`, `Peer.handshakeRead` — one poll of the transport in the handshake.
* `Agreement` — what the library is relied on for when the two sides have one PSK.
* `Recognises` — and for telling by message 1 which PSK the other side has; `tryPsks_eq_none_iff` and
  `tryPsks_eq_some` say what the loop over the candidates makes of that.
-/

namespace Erbridge
namespace Noise

open Erbridge.Core
open Reverse (FrameRead FrameWrite)

/-- The Noise library. -/
structure Snow where
  Handshake : Type
  Session : Type
  /-- `Builder::new(params).psk(0, psk).build_initiator()`. -/
  initiator : Psk → Option Handshake
  /-- `Builder::new(params).psk(0, psk).build_responder()`. -/
  responder : Psk → Option Handshake
  /-- `write_message(&[], buf)`. -/
  write : Handshake → Option (Bytes × Handshake)
  /-- `read_message(msg, buf)`. -/
  read : Handshake → Bytes → Option Handshake
  /-- `into_transport_mode`. -/
  intoTransport : Handshake → Option Session
  cipher : Session → Cipher

/-- A handshake message has to fit into the buffer of `MAX_MESSAGE` bytes. -/
def Snow.writeMessage (S : Snow) (hs : S.Handshake) : Option (Bytes × S.Handshake) :=
  match S.write hs with
  | some (message, hs) => if message.length ≤ maxMessage then some (message, hs) else none
  | none => none

theorem Snow.length_of_writeMessage {S : Snow} {hs hs' : S.Handshake} {message : Bytes}
    (h : S.writeMessage hs = some (message, hs')) : message.length ≤ maxMessage := by
  unfold writeMessage at h
  split at h
  · split at h
    · rename_i hle
      obtain ⟨rfl, -⟩ := Prod.mk.inj (Option.some.inj h)
      exact hle
    · cases h
  · cases h

/-- One end of the transport: where its `connect` or its `accept_any` is, or the stream it made. -/
inductive Peer (S : Snow)
  /-- `connect` sends message 1. -/
  | sendFirst (f : FrameWrite) (hs : S.Handshake)
  /-- `connect` reads message 2. -/
  | readSecond (f : FrameRead) (hs : S.Handshake)
  /-- `accept_any` reads message 1. -/
  | readFirst (f : FrameRead) (psks : List Psk)
  /-- `accept_any` sends message 2. -/
  | sendSecond (f : FrameWrite) (hs : S.Handshake)
  | up (session : S.Session) (stream : NoiseStream)
  | failed

namespace Peer

variable {S : Snow}

/-- `connect(io, psk)`. -/
def connect (S : Snow) (psk : Psk) : Peer S :=
  match S.initiator psk with
  | none => .failed
  | some hs =>
      match S.writeMessage hs with
      | none => .failed
      | some (message, hs) => .sendFirst (FrameWrite.start message) hs

/-- `accept_any(io, psks)`. -/
def acceptAny (S : Snow) (psks : List Psk) : Peer S := .readFirst FrameRead.start psks

/-- `accept(io, psk)`. -/
def accept (S : Snow) (psk : Psk) : Peer S := acceptAny S [psk]

/-- The loop of `accept_any` over the candidates: every one is tried, the first match is kept. -/
def tryPsks (S : Snow) (message : Bytes) :
    List Psk → Nat → Option (Nat × S.Handshake) → Option (Nat × S.Handshake)
  | [], _, matched => matched
  | psk :: psks, index, matched =>
      match S.responder psk with
      | none => none
      | some hs =>
          match S.read hs message with
          | some hs => tryPsks S message psks (index + 1) (matched.or (some (index, hs)))
          | none => tryPsks S message psks (index + 1) matched

/-- With one candidate the loop is one `read_message`. -/
theorem tryPsks_singleton {message : Bytes} {psk : Psk} {index : Nat} {matched : S.Handshake}
    (h : tryPsks S message [psk] 0 none = some (index, matched)) :
    ∃ hs, S.responder psk = some hs ∧ S.read hs message = some matched := by
  simp only [tryPsks] at h
  split at h
  · cases h
  · rename_i hs hresponder
    split at h
    · rename_i hs' hread
      simp only [Option.none_or, Option.some.injEq, Prod.mk.injEq] at h
      exact ⟨hs, hresponder, h.2 ▸ hread⟩
    · cases h

/-- `into_transport_mode` and `NoiseStream::new`. -/
def intoStream (hs : S.Handshake) : Peer S :=
  match S.intoTransport hs with
  | none => .failed
  | some session => .up session NoiseStream.new

/-- `connect` has message 2. -/
def gotSecond (hs : S.Handshake) (message : Bytes) : Peer S :=
  match S.read hs message with
  | none => .failed
  | some hs => intoStream hs

/-- `accept_any` has message 1. -/
def gotFirst (psks : List Psk) (message : Bytes) : Peer S :=
  match tryPsks S message psks 0 none with
  | none => .failed
  | some (_, hs) =>
      match S.writeMessage hs with
      | none => .failed
      | some (reply, hs) => .sendSecond (FrameWrite.start reply) hs

/-- One poll of the transport by a handshake that is writing. -/
def handshakeWrite (out : Wire) (a : WriteAnswer) : Peer S → Option (Peer S × Wire)
  | .sendFirst f hs =>
      let p := f.step out a
      match p.1 with
      | .done => some (.readSecond FrameRead.start hs, p.2)
      | .failed _ => some (.failed, p.2)
      | f => some (.sendFirst f hs, p.2)
  | .sendSecond f hs =>
      let p := f.step out a
      match p.1 with
      | .done => some (intoStream hs, p.2)
      | .failed _ => some (.failed, p.2)
      | f => some (.sendSecond f hs, p.2)
  | _ => none

/-- One poll of the transport by a handshake that is reading. -/
def handshakeRead (inc : Wire) (a : ReadAnswer) : Peer S → Option (Peer S × Wire)
  | .readSecond f hs =>
      let p := f.step maxMessage inc a
      match p.1 with
      | .done message => some (gotSecond hs message, p.2)
      | .failed _ => some (.failed, p.2)
      | f => some (.readSecond f hs, p.2)
  | .readFirst f psks =>
      let p := f.step maxMessage inc a
      match p.1 with
      | .done message => some (gotFirst psks message, p.2)
      | .failed _ => some (.failed, p.2)
      | f => some (.readFirst f psks, p.2)
  | _ => none

/-- What a peer has decrypted and not delivered. -/
def buffered : Peer S → Bytes
  | .up _ stream => stream.buffered
  | _ => []

end Peer

/-- The two ends of the transport. -/
inductive Who
  | connector
  | acceptor
deriving DecidableEq, Repr

/-- The other end. -/
def Who.other : Who → Who
  | .connector => .acceptor
  | .acceptor => .connector

@[simp] theorem Who.other_other (who : Who) : who.other.other = who := by cases who <;> rfl

theorem Who.other_ne (who : Who) : who.other ≠ who := by cases who <;> simp [Who.other]

theorem Who.eq_other_of_ne {who x : Who} (h : x ≠ who) : x = who.other := by
  cases who <;> cases x <;> simp_all [Who.other]

/-- A handshake between two sides with one PSK, as the library makes it, and the sessions that come of
it: what one of them encrypts under a number the other decrypts under it. -/
structure Agreement (S : Snow) (psk : Psk) where
  /-- The message that each side sends. -/
  message : Who → Bytes
  session : Who → S.Session
  initiated : S.Handshake
  /-- The connector's state after message 1. -/
  sent : S.Handshake
  responded : S.Handshake
  /-- The acceptor's state after message 1. -/
  matched : S.Handshake
  /-- The acceptor's state after message 2. -/
  replied : S.Handshake
  /-- The connector's state after message 2. -/
  finished : S.Handshake
  initiator_eq : S.initiator psk = some initiated
  write_first : S.write initiated = some (message .connector, sent)
  responder_eq : S.responder psk = some responded
  read_first : S.read responded (message .connector) = some matched
  write_second : S.write matched = some (message .acceptor, replied)
  read_second : S.read sent (message .acceptor) = some finished
  transport_connector : S.intoTransport finished = some (session .connector)
  transport_acceptor : S.intoTransport replied = some (session .acceptor)
  length_message : ∀ who, (message who).length ≤ maxMessage
  undoes : ∀ who k p c, (S.cipher (session who)).Seals k p c →
    (S.cipher (session who.other)).Opens k p c

/-- With this PSK on both sides the library does what it is documented to do. -/
def Snow.Agrees (S : Snow) (psk : Psk) : Prop := Nonempty (Agreement S psk)

namespace Agreement

variable {S : Snow} {psk : Psk} (H : Agreement S psk)

theorem fits_message (who : Who) : (H.message who).length < 65536 :=
  Nat.lt_succ_of_le (H.length_message who)

theorem connect_eq : Peer.connect S psk =
    .sendFirst (FrameWrite.start (H.message .connector)) H.sent := by
  simp [Peer.connect, H.initiator_eq, Snow.writeMessage, H.write_first, H.length_message]

theorem gotFirst_eq : Peer.gotFirst [psk] (H.message .connector) =
    (.sendSecond (FrameWrite.start (H.message .acceptor)) H.replied : Peer S) := by
  simp [Peer.gotFirst, Peer.tryPsks, H.responder_eq, H.read_first, Snow.writeMessage,
    H.write_second, H.length_message]

theorem gotSecond_eq : Peer.gotSecond H.sent (H.message .acceptor) =
    .up (H.session .connector) NoiseStream.new := by
  simp [Peer.gotSecond, H.read_second, Peer.intoStream, H.transport_connector]

theorem intoStream_eq : Peer.intoStream H.replied = .up (H.session .acceptor) NoiseStream.new := by
  simp [Peer.intoStream, H.transport_acceptor]

end Agreement

/-! ## Telling PSKs apart -/

/-- Message 1 shows with which PSK it was made, if it was made with one: a responder takes it if and only
if it has that PSK.  Nothing else in the handshake fails. -/
structure Snow.Recognises (S : Snow) (madeWith : Bytes → Option Psk) : Prop where
  responds : ∀ psk, ∃ hs, S.responder psk = some hs
  reads : ∀ psk hs message, S.responder psk = some hs →
    ((S.read hs message).isSome = true ↔ madeWith message = some psk)
  replies : ∀ psk hs message matched, S.responder psk = some hs → S.read hs message = some matched →
    ∃ reply replied session, S.writeMessage matched = some (reply, replied)
      ∧ S.intoTransport replied = some session

namespace Peer

variable {S : Snow} {madeWith : Bytes → Option Psk} {message : Bytes}

/-- The first match is kept. -/
theorem tryPsks_matched (hS : S.Recognises madeWith) (psks : List Psk) (index : Nat)
    (found : Nat × S.Handshake) :
    tryPsks S message psks index (some found) = some found := by
  induction psks generalizing index with
  | nil => rfl
  | cons psk psks ih =>
      obtain ⟨hs, hresponder⟩ := hS.responds psk
      simp only [tryPsks, hresponder]
      split
      · exact ih (index + 1)
      · exact ih (index + 1)

variable (message) in
theorem tryPsks_cons (hS : S.Recognises madeWith) (psk : Psk) (psks : List Psk) (index : Nat) :
    ∃ hs, S.responder psk = some hs ∧
      ((madeWith message = some psk ∧ ∃ matched, S.read hs message = some matched
          ∧ tryPsks S message (psk :: psks) index none = some (index, matched))
        ∨ (madeWith message ≠ some psk
          ∧ tryPsks S message (psk :: psks) index none
            = tryPsks S message psks (index + 1) none)) := by
  obtain ⟨hs, hresponder⟩ := hS.responds psk
  have hreads := hS.reads psk hs message hresponder
  refine ⟨hs, hresponder, ?_⟩
  cases hread : S.read hs message with
  | some matched =>
      refine Or.inl ⟨hreads.1 (by rw [hread]; rfl), matched, rfl, ?_⟩
      simp only [tryPsks, hresponder, hread, Option.none_or]
      exact tryPsks_matched hS psks _ _
  | none =>
      refine Or.inr ⟨fun hmade => ?_, ?_⟩
      · have hsome := hreads.2 hmade
        rw [hread] at hsome
        cases hsome
      · simp only [tryPsks, hresponder, hread]

/-- No candidate matches if and only if message 1 was made with none of them. -/
theorem tryPsks_eq_none_iff (hS : S.Recognises madeWith) (psks : List Psk) (index : Nat) :
    tryPsks S message psks index none = none ↔ ∀ psk ∈ psks, madeWith message ≠ some psk := by
  induction psks generalizing index with
  | nil => simp [tryPsks]
  | cons psk psks ih =>
      obtain ⟨hs, -, ⟨hmade, matched, -, heq⟩ | ⟨hmade, heq⟩⟩ :=
        tryPsks_cons message hS psk psks index
      · simp [heq, hmade]
      · rw [heq, ih]
        simp [hmade]

/-- The index that is returned is that of a candidate with which message 1 was made. -/
theorem tryPsks_eq_some (hS : S.Recognises madeWith) {psks : List Psk} {index i : Nat}
    {matched : S.Handshake} (h : tryPsks S message psks index none = some (i, matched)) :
    ∃ j psk hs, i = index + j ∧ psks[j]? = some psk ∧ madeWith message = some psk
      ∧ S.responder psk = some hs ∧ S.read hs message = some matched := by
  induction psks generalizing index with
  | nil => cases h
  | cons psk psks ih =>
      obtain ⟨hs, hresponder, ⟨hmade, matched', hread, heq⟩ | ⟨-, heq⟩⟩ :=
        tryPsks_cons message hS psk psks index
      · rw [heq] at h
        obtain ⟨rfl, rfl⟩ := Prod.mk.inj (Option.some.inj h)
        exact ⟨0, psk, hs, rfl, rfl, hmade, hresponder, hread⟩
      · rw [heq] at h
        obtain ⟨j, psk', hs', rfl, hj, hrest⟩ := ih h
        exact ⟨j + 1, psk', hs', by omega, hj, hrest⟩

end Peer

end Noise
end Erbridge
