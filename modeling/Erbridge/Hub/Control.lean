import Erbridge.Core.Machine
import Erbridge.Noise.Pair
import Erbridge.Tenancy.TenantSet

/-!
# Identification on the control port

The model of `handle_control` of `tenant_serve.rs` up to the point where it goes on as a tenant's session
or as an enrollment, with `accept_any` and its index.  One step is one poll of the peer's socket, by
which any bytes arrive in any pieces, or the end of the handshake timeout.

* `Control.step` — the executable step function.
* `Control.peer_read`, `Control.peer_write` — with the index forgotten it is `accept_any` as the two ends
  of a handshake run it.
* `Control.Inv` — what message 1 was made with decides where the handler can be.
* `Control.identified_iff` — which identity it goes on as, and that it writes nothing if there is none;
  `Control.reset_unidentified` — on such a peer two sets of tenants look the same.
-/

namespace Erbridge
namespace Hub

open Erbridge.Core
open Noise (Psk Snow Peer NoiseStream maxMessage)
open Reverse (FrameRead FrameWrite)
open Tenancy (Tenant EnrollCode Identity Candidates TenantSet)

/-- Why a connection was closed before it was identified. -/
inductive Closed
  /-- Message 1 did not arrive, or not in time. -/
  | unread
  /-- `matched.context("processing Noise handshake message 1")?` -/
  | unmatched
  /-- Message 2 could not be sent, or not in time. -/
  | unsent
  /-- The Noise library failed. -/
  | library
deriving DecidableEq

/-- Where `handle_control` is. -/
inductive Handler (S : Snow)
  | arrived
  /-- `hub.try_pending(peer.ip())` had no slot. -/
  | refused
  /-- `accept_any` reads message 1. -/
  | reading (f : FrameRead) (candidates : Candidates)
  /-- It sends message 2 for the candidate with this index. -/
  | replying (f : FrameWrite) (hs : S.Handshake) (index : Nat) (candidates : Candidates)
  /-- `run_session` takes over. -/
  | session (t : Tenant) (transport : S.Session)
  /-- `run_enrollment` takes over. -/
  | enrollment (c : EnrollCode) (transport : S.Session)
  | closed (why : Closed)
  /-- `candidates.identity(index)` with an index out of range. -/
  | panicked

/-- One connection to the control port. -/
structure Control (S : Snow) where
  handler : Handler S
  /-- What the peer sends. -/
  inc : Wire
  /-- What it is sent. -/
  out : Wire
  /-- Message 1, once it is there; not part of the code's state. -/
  first : Option Bytes
  /-- The snapshot and the time that the candidates are from; not part of the code's state. -/
  consulted : Option (TenantSet × Nat)

namespace Handler

variable {S : Snow}

/-- `accept_any` has message 1. -/
def gotFirst (candidates : Candidates) (message : Bytes) : Handler S :=
  match Peer.tryPsks S message candidates.psks 0 none with
  | none => .closed .unmatched
  | some (index, hs) =>
      match S.writeMessage hs with
      | none => .closed .library
      | some (reply, hs) => .replying (FrameWrite.start reply) hs index candidates

/-- `accept_any` returns, and `handle_control` looks at the identity. -/
def identified (hs : S.Handshake) (index : Nat) (candidates : Candidates) : Handler S :=
  match S.intoTransport hs with
  | none => .closed .library
  | some transport =>
      match candidates.identity index with
      | some (.tenant t) => .session t transport
      | some (.code c) => .enrollment c transport
      | none => .panicked

/-- It goes on as this identity. -/
def ProceedsAs (k : Handler S) : Identity → Prop
  | .tenant t => ∃ transport, k = .session t transport
  | .code c => ∃ transport, k = .enrollment c transport

/-- It is not sending message 2. -/
def Over : Handler S → Prop
  | .replying _ _ _ _ => False
  | _ => True

/-- Message 2 was not given up, for a transport that does not take it or for want of time. -/
def Answered : Handler S → Prop
  | .closed .unsent => False
  | _ => True

/-- The socket was dropped. -/
def isClosed : Handler S → Bool
  | .refused | .closed _ | .panicked => true
  | _ => false

end Handler

namespace Control

variable {S : Snow}

/-- A connection was accepted. -/
def initial (S : Snow) : Control S where
  handler := .arrived
  inc := Wire.empty
  out := Wire.empty
  first := none
  consulted := none

inductive Event
  /-- The peer sends bytes. -/
  | peerSends (bytes : Bytes)
  | peerEnds
  /-- `try_pending` has a slot or not; if so the candidates of the snapshot `set` are taken. -/
  | tryPending (set : TenantSet) (now : Nat) (ok : Bool)
  /-- `accept_any` polls for message 1. -/
  | read (a : ReadAnswer)
  /-- `accept_any` polls to send message 2. -/
  | write (a : WriteAnswer)
  /-- `HANDSHAKE_TIMEOUT` is over. -/
  | timeOut

def step (w : Control S) : Event → Option (Control S)
  | .peerSends bytes =>
      if w.inc.ended then none else some { w with inc := w.inc.push bytes }
  | .peerEnds => some { w with inc := { w.inc with ended := true } }
  | .tryPending set now ok =>
      match w.handler with
      | .arrived =>
          if ok then
            some { w with
              handler := .reading FrameRead.start (set.candidates now)
              consulted := some (set, now) }
          else some { w with handler := .refused }
      | _ => none
  | .read a =>
      match w.handler with
      | .reading f candidates =>
          let p := f.step maxMessage w.inc a
          match p.1 with
          | .done message =>
              some { w with
                handler := Handler.gotFirst candidates message
                inc := p.2
                first := some message }
          | .failed _ => some { w with handler := .closed .unread, inc := p.2 }
          | f => some { w with handler := .reading f candidates, inc := p.2 }
      | _ => none
  | .write a =>
      match w.handler with
      | .replying f hs index candidates =>
          let p := f.step w.out a
          match p.1 with
          | .done => some { w with handler := Handler.identified hs index candidates, out := p.2 }
          | .failed _ => some { w with handler := .closed .unsent, out := p.2 }
          | f => some { w with handler := .replying f hs index candidates, out := p.2 }
      | _ => none
  | .timeOut =>
      match w.handler with
      | .reading _ _ => some { w with handler := .closed .unread }
      | .replying _ _ _ _ => some { w with handler := .closed .unsent }
      | _ => none

/-- One connection to the control port as a machine. -/
def machine (S : Snow) : Machine (Control S) Event where
  step := step

/-- What each event needs and does. -/
inductive Moves (w : Control S) : Event → Control S → Prop
  | peerSends {bytes : Bytes} (hopen : w.inc.ended = false) :
      Moves w (.peerSends bytes) { w with inc := w.inc.push bytes }
  | peerEnds : Moves w .peerEnds { w with inc := { w.inc with ended := true } }
  | tryPending {set : TenantSet} {now : Nat} (hpc : w.handler = .arrived) :
      Moves w (.tryPending set now true)
        { w with
          handler := .reading FrameRead.start (set.candidates now)
          consulted := some (set, now) }
  | refuse {set : TenantSet} {now : Nat} (hpc : w.handler = .arrived) :
      Moves w (.tryPending set now false) { w with handler := .refused }
  | gotFirst {a : ReadAnswer} {f : FrameRead} {candidates : Candidates} {message : Bytes}
      (hpc : w.handler = .reading f candidates)
      (hread : (f.step maxMessage w.inc a).1 = .done message) :
      Moves w (.read a)
        { w with
          handler := Handler.gotFirst candidates message
          inc := (f.step maxMessage w.inc a).2
          first := some message }
  | readFails {a : ReadAnswer} {f : FrameRead} {candidates : Candidates} {e : IoError}
      (hpc : w.handler = .reading f candidates)
      (hread : (f.step maxMessage w.inc a).1 = .failed e) :
      Moves w (.read a) { w with handler := .closed .unread, inc := (f.step maxMessage w.inc a).2 }
  | reads {a : ReadAnswer} {f g : FrameRead} {candidates : Candidates}
      (hpc : w.handler = .reading f candidates) (hread : (f.step maxMessage w.inc a).1 = g)
      (hdone : ∀ message, g ≠ .done message) (hfailed : ∀ e, g ≠ .failed e) :
      Moves w (.read a)
        { w with handler := .reading g candidates, inc := (f.step maxMessage w.inc a).2 }
  | identified {a : WriteAnswer} {f : FrameWrite} {hs : S.Handshake} {index : Nat}
      {candidates : Candidates} (hpc : w.handler = .replying f hs index candidates)
      (hwrite : (f.step w.out a).1 = .done) :
      Moves w (.write a)
        { w with handler := Handler.identified hs index candidates, out := (f.step w.out a).2 }
  | writeFails {a : WriteAnswer} {f : FrameWrite} {hs : S.Handshake} {index : Nat}
      {candidates : Candidates} {e : IoError} (hpc : w.handler = .replying f hs index candidates)
      (hwrite : (f.step w.out a).1 = .failed e) :
      Moves w (.write a) { w with handler := .closed .unsent, out := (f.step w.out a).2 }
  | writes {a : WriteAnswer} {f g : FrameWrite} {hs : S.Handshake} {index : Nat}
      {candidates : Candidates} (hpc : w.handler = .replying f hs index candidates)
      (hwrite : (f.step w.out a).1 = g) (hdone : g ≠ .done) (hfailed : ∀ e, g ≠ .failed e) :
      Moves w (.write a)
        { w with handler := .replying g hs index candidates, out := (f.step w.out a).2 }
  | readTimesOut {f : FrameRead} {candidates : Candidates}
      (hpc : w.handler = .reading f candidates) :
      Moves w .timeOut { w with handler := .closed .unread }
  | writeTimesOut {f : FrameWrite} {hs : S.Handshake} {index : Nat} {candidates : Candidates}
      (hpc : w.handler = .replying f hs index candidates) :
      Moves w .timeOut { w with handler := .closed .unsent }

theorem moves_of_step {w w' : Control S} {e : Event} (hstep : w.step e = some w') :
    Moves w e w' := by
  cases e with
  | peerSends bytes =>
      simp only [step] at hstep
      split at hstep
      · cases hstep
      · rename_i hopen
        cases hstep
        exact .peerSends (by simpa using hopen)
  | peerEnds =>
      cases hstep
      exact .peerEnds
  | tryPending set now ok =>
      simp only [step] at hstep
      split at hstep
      · rename_i hpc
        cases ok with
        | true =>
            cases hstep
            exact .tryPending hpc
        | false =>
            cases hstep
            exact .refuse hpc
      · cases hstep
  | read a =>
      simp only [step] at hstep
      split at hstep
      · rename_i f candidates hpc
        split at hstep
        · rename_i message hread
          cases hstep
          exact .gotFirst hpc hread
        · rename_i e hread
          cases hstep
          exact .readFails hpc hread
        · rename_i hdone hfailed
          cases hstep
          exact .reads hpc rfl hdone hfailed
      · cases hstep
  | write a =>
      simp only [step] at hstep
      split at hstep
      · rename_i f hs index candidates hpc
        split at hstep
        · rename_i hwrite
          cases hstep
          exact .identified hpc hwrite
        · rename_i e hwrite
          cases hstep
          exact .writeFails hpc hwrite
        · rename_i hdone hfailed
          cases hstep
          exact .writes hpc rfl hdone hfailed
      · cases hstep
  | timeOut =>
      simp only [step] at hstep
      split at hstep
      · rename_i f candidates hpc
        cases hstep
        exact .readTimesOut hpc
      · rename_i f hs index candidates hpc
        cases hstep
        exact .writeTimesOut hpc
      · cases hstep

/-! ## `accept_any` as one end of a handshake -/

end Control

namespace Handler

variable {S : Snow}

/-- The end of the handshake that it is, if it is one. -/
def peer : Handler S → Option (Peer S)
  | .reading f candidates => some (.readFirst f candidates.psks)
  | .replying f hs _ _ => some (.sendSecond f hs)
  | .session _ transport | .enrollment _ transport => some (.up transport NoiseStream.new)
  | .closed _ => some .failed
  | .arrived | .refused | .panicked => none

theorem peer_gotFirst (candidates : Candidates) (message : Bytes) :
    (gotFirst candidates message : Handler S).peer = some (Peer.gotFirst candidates.psks message) := by
  unfold gotFirst Peer.gotFirst
  cases Peer.tryPsks S message candidates.psks 0 none with
  | none => rfl
  | some found =>
      obtain ⟨index, hs⟩ := found
      dsimp only
      cases S.writeMessage hs with
      | none => rfl
      | some made => rfl

theorem peer_identified {hs : S.Handshake} {index : Nat} {candidates : Candidates} {id : Identity}
    (hid : candidates.identity index = some id) :
    (identified hs index candidates : Handler S).peer = some (Peer.intoStream hs) := by
  unfold identified Peer.intoStream
  rw [hid]
  cases htransport : S.intoTransport hs with
  | none => rfl
  | some transport => cases id <;> rfl

end Handler

namespace Control

variable {S : Snow}

/-- Reading message 1 is what the accepting end of a handshake does. -/
theorem peer_read {w w' : Control S} {a : ReadAnswer} (hstep : w.step (.read a) = some w') :
    ∃ p p', w.handler.peer = some p ∧ p.handshakeRead w.inc a = some (p', w'.inc)
      ∧ w'.handler.peer = some p' := by
  simp only [step] at hstep
  split at hstep
  · rename_i f candidates hpc
    refine ⟨.readFirst f candidates.psks, ?_⟩
    rw [hpc]
    simp only [Peer.handshakeRead]
    cases hread : (f.step maxMessage w.inc a).1 with
    | done message =>
        rw [hread] at hstep
        cases hstep
        exact ⟨_, rfl, rfl, Handler.peer_gotFirst candidates message⟩
    | failed e =>
        rw [hread] at hstep
        cases hstep
        exact ⟨_, rfl, rfl, rfl⟩
    | _ =>
        rw [hread] at hstep
        cases hstep
        exact ⟨_, rfl, rfl, rfl⟩
  · cases hstep

/-- So is sending message 2, once the index is one of the candidates. -/
theorem peer_write {w w' : Control S} {a : WriteAnswer}
    (hindex : ∀ f hs index candidates, w.handler = .replying f hs index candidates →
      ∃ id, candidates.identity index = some id)
    (hstep : w.step (.write a) = some w') :
    ∃ p p', w.handler.peer = some p ∧ p.handshakeWrite w.out a = some (p', w'.out)
      ∧ w'.handler.peer = some p' := by
  simp only [step] at hstep
  split at hstep
  · rename_i f hs index candidates hpc
    obtain ⟨id, hid⟩ := hindex f hs index candidates hpc
    refine ⟨.sendSecond f hs, ?_⟩
    rw [hpc]
    simp only [Peer.handshakeWrite]
    cases hwrite : (f.step w.out a).1 with
    | done =>
        rw [hwrite] at hstep
        cases hstep
        exact ⟨_, rfl, rfl, Handler.peer_identified hid⟩
    | failed e =>
        rw [hwrite] at hstep
        cases hstep
        exact ⟨_, rfl, rfl, rfl⟩
    | _ =>
        rw [hwrite] at hstep
        cases hstep
        exact ⟨_, rfl, rfl, rfl⟩
  · cases hstep

/-! ## What message 1 decides -/

/-- Message 1 was made with the PSK of `id`, which is an enabled tenant or an unexpired code of the
snapshot. -/
def Identifies (madeWith : Bytes → Option Psk) (w : Control S) (id : Identity) : Prop :=
  ∃ set now message, w.consulted = some (set, now) ∧ w.first = some message
    ∧ set.Current now id ∧ madeWith message = some id.psk

/-- What is known of a connection wherever its handler is. -/
def HandlerOk (madeWith : Bytes → Option Psk) (w : Control S) : Handler S → Prop
  | .arrived => w.first = none ∧ w.out = Wire.empty ∧ w.consulted = none
  | .refused | .closed .unread => w.first = none ∧ w.out = Wire.empty
  | .reading _ candidates => w.first = none ∧ w.out = Wire.empty
      ∧ ∃ set now, w.consulted = some (set, now) ∧ candidates = set.candidates now
  | .replying f hs index candidates => f.Ok ∧ f ≠ .done ∧ w.out.ended = false
      ∧ (∃ id, candidates.identity index = some id ∧ candidates.psks[index]? = some id.psk
        ∧ w.Identifies madeWith id)
      ∧ ∃ transport, S.intoTransport hs = some transport
  | .session t _ => w.Identifies madeWith (.tenant t)
  | .enrollment c _ => w.Identifies madeWith (.code c)
  | .closed .unmatched => w.out = Wire.empty ∧ ∀ id, ¬ w.Identifies madeWith id
  | .closed .unsent => ∃ id, w.Identifies madeWith id
  | .closed .library | .panicked => False

/-- The invariant of a connection. -/
def Inv (madeWith : Bytes → Option Psk) (w : Control S) : Prop := w.HandlerOk madeWith w.handler

variable {madeWith : Bytes → Option Psk} {w w' : Control S}

theorem inv_initial : Inv madeWith (initial S) := ⟨rfl, rfl, rfl⟩

/-- The PSK of message 1 stands for one identity. -/
theorem Identifies.unique {id id' : Identity} (h : w.Identifies madeWith id)
    (h' : w.Identifies madeWith id') : id = id' := by
  obtain ⟨set, now, message, hconsulted, hfirst, hcurrent, hmade⟩ := h
  obtain ⟨set', now', message', hconsulted', hfirst', hcurrent', hmade'⟩ := h'
  obtain ⟨rfl, rfl⟩ := Prod.mk.inj (Option.some.inj (hconsulted.symm.trans hconsulted'))
  obtain rfl := Option.some.inj (hfirst.symm.trans hfirst')
  exact TenantSet.current_unique hcurrent hcurrent' (Option.some.inj (hmade.symm.trans hmade'))

/-- Two connections with the same message 1 and the same snapshot identify the same. -/
theorem identifies_congr {id : Identity} (hfirst : w'.first = w.first)
    (hconsulted : w'.consulted = w.consulted) :
    w'.Identifies madeWith id ↔ w.Identifies madeWith id := by
  unfold Identifies
  rw [hfirst, hconsulted]

/-- What the loop of `accept_any` makes of message 1. -/
theorem gotFirst_ok (hS : S.Recognises madeWith) {set : TenantSet} {now : Nat} {message : Bytes}
    (hconsulted : w.consulted = some (set, now)) (hfirst : w.first = some message)
    (hout : w.out = Wire.empty) :
    w.HandlerOk madeWith (Handler.gotFirst (set.candidates now) message) := by
  unfold Handler.gotFirst
  cases htry : Peer.tryPsks S message (set.candidates now).psks 0 none with
  | none =>
      refine ⟨hout, ?_⟩
      rintro id ⟨set', now', message', hconsulted', hfirst', hcurrent, hmade⟩
      obtain ⟨rfl, rfl⟩ := Prod.mk.inj (Option.some.inj (hconsulted.symm.trans hconsulted'))
      obtain rfl := Option.some.inj (hfirst.symm.trans hfirst')
      exact (Peer.tryPsks_eq_none_iff hS _ 0).1 htry _
        (TenantSet.mem_candidates_psks_iff.2 ⟨id, hcurrent, rfl⟩) hmade
  | some found =>
      obtain ⟨index, hs⟩ := found
      obtain ⟨j, psk, hs', rfl, hj, hmade, hresponder, hread⟩ := Peer.tryPsks_eq_some hS htry
      rw [Nat.zero_add] at *
      obtain ⟨id, hid, rfl, hcurrent⟩ := TenantSet.candidates_identity hj
      obtain ⟨reply, replied, transport, hwrite, htransport⟩ :=
        hS.replies _ _ _ _ hresponder hread
      simp only [hwrite]
      have hfits : reply.length < 65536 := Nat.lt_succ_of_le (Snow.length_of_writeMessage hwrite)
      have hstart : FrameWrite.start reply ≠ .done := by simp [FrameWrite.start, hfits]
      exact ⟨FrameWrite.start_ok hfits, hstart, by rw [hout]; rfl,
        ⟨id, hid, hj, set, now, message, hconsulted, hfirst, hcurrent, hmade⟩, transport, htransport⟩

theorem identified_ok {hs : S.Handshake} {index : Nat} {candidates : Candidates} {id : Identity}
    (hid : candidates.identity index = some id) (hidentifies : w.Identifies madeWith id)
    {transport : S.Session} (htransport : S.intoTransport hs = some transport) :
    w.HandlerOk madeWith (Handler.identified hs index candidates)
      ∧ (Handler.identified hs index candidates : Handler S).ProceedsAs id := by
  unfold Handler.identified
  simp only [htransport, hid]
  cases id with
  | tenant t => exact ⟨hidentifies, transport, rfl⟩
  | code c => exact ⟨hidentifies, transport, rfl⟩

/-- What is known of a handler reads message 1, the snapshot and what was sent. -/
theorem HandlerOk.congr {k : Handler S} (hk : w.HandlerOk madeWith k) (hfirst : w'.first = w.first)
    (hconsulted : w'.consulted = w.consulted) (hout : w'.out = w.out) : w'.HandlerOk madeWith k := by
  have hidentifies : ∀ id, w'.Identifies madeWith id ↔ w.Identifies madeWith id := fun id =>
    identifies_congr hfirst hconsulted
  cases k with
  | closed why =>
      cases why with
      | library => exact hk
      | _ => simpa only [HandlerOk, hfirst, hconsulted, hout, hidentifies] using hk
  | panicked => exact hk
  | _ => simpa only [HandlerOk, hfirst, hconsulted, hout, hidentifies] using hk

theorem Inv.handlerOk (hi : Inv madeWith w) {k : Handler S} (hpc : w.handler = k) :
    w.HandlerOk madeWith k := hpc ▸ hi

theorem inv_step (hS : S.Recognises madeWith) {e : Event} (hi : Inv madeWith w)
    (hstep : w.step e = some w') : Inv madeWith w' := by
  cases moves_of_step hstep with
  | peerSends | peerEnds => exact HandlerOk.congr (w := w) hi rfl rfl rfl
  | @tryPending set now hpc =>
      obtain ⟨hfirst, hout, -⟩ := hi.handlerOk hpc
      exact ⟨hfirst, hout, set, now, rfl, rfl⟩
  | refuse hpc =>
      obtain ⟨hfirst, hout, -⟩ := hi.handlerOk hpc
      exact ⟨hfirst, hout⟩
  | @gotFirst a f candidates message hpc hread =>
      obtain ⟨-, hout, set, now, hconsulted, rfl⟩ := hi.handlerOk hpc
      exact gotFirst_ok hS hconsulted rfl hout
  | readFails hpc =>
      obtain ⟨hfirst, hout, -⟩ := hi.handlerOk hpc
      exact ⟨hfirst, hout⟩
  | reads hpc =>
      obtain ⟨hfirst, hout, hset⟩ := hi.handlerOk hpc
      exact ⟨hfirst, hout, hset⟩
  | identified hpc hwrite =>
      obtain ⟨-, -, -, ⟨id, hid, -, hidentifies⟩, transport, htransport⟩ := hi.handlerOk hpc
      refine (identified_ok (w := _) hid ?_ htransport).1
      exact (identifies_congr rfl rfl).2 hidentifies
  | writeFails hpc =>
      obtain ⟨-, -, -, ⟨id, -, -, hidentifies⟩, -⟩ := hi.handlerOk hpc
      exact ⟨id, (identifies_congr rfl rfl).2 hidentifies⟩
  | @writes a f g hs index candidates hpc hwrite hdone hfailed =>
      obtain ⟨hf, -, hopen, ⟨id, hid, hpsk, hidentifies⟩, htransport⟩ := hi.handlerOk hpc
      rcases FrameWrite.step_cases hf w.out a with ⟨e, heq, -⟩ | ⟨g', pushed, heq, hg, -⟩
      · rw [heq] at hwrite
        exact absurd hwrite.symm (hfailed e)
      · rw [heq] at hwrite
        obtain rfl : g' = g := hwrite
        refine ⟨hg, hdone, ?_, ⟨id, hid, hpsk, (identifies_congr rfl rfl).2 hidentifies⟩, htransport⟩
        show (f.step w.out a).2.ended = false
        rw [heq]
        exact hopen
  | readTimesOut hpc =>
      obtain ⟨hfirst, hout, -⟩ := hi.handlerOk hpc
      exact ⟨hfirst, hout⟩
  | writeTimesOut hpc =>
      obtain ⟨-, -, -, ⟨id, -, -, hidentifies⟩, -⟩ := hi.handlerOk hpc
      exact ⟨id, (identifies_congr rfl rfl).2 hidentifies⟩

theorem inv_run (hS : S.Recognises madeWith) {es : List Event}
    (hrun : (machine S).run (initial S) es = some w) : Inv madeWith w :=
  (machine S).run_invariant (Inv madeWith) (fun hi hstep => inv_step hS hi hstep) inv_initial hrun

/-- A transport that takes message 2 brings the handler to the identity. -/
theorem exists_proceeds (hi : Inv madeWith w) {f : FrameWrite} {hs : S.Handshake} {index : Nat}
    {candidates : Candidates} (hpc : w.handler = .replying f hs index candidates) :
    ∃ id, ∃ answers : List WriteAnswer, ∃ w', w.Identifies madeWith id
      ∧ (machine S).run w (answers.map Event.write) = some w' ∧ w'.handler.ProceedsAs id := by
  induction hleft : f.left using Nat.strongRecOn generalizing w f with
  | _ n ih =>
      obtain ⟨hok, hf, hopen, ⟨id, hid, hpsk, hidentifies⟩, transport, htransport⟩ :=
        hi.handlerOk hpc
      obtain ⟨hg, hlt, hopen'⟩ := FrameWrite.step_takeAll hok hf hopen
      cases hstep : (f.step w.out f.takeAll).1 with
      | done =>
          -- Message 2 is sent.
          refine ⟨id, [f.takeAll], { w with
            handler := Handler.identified hs index candidates
            out := (f.step w.out f.takeAll).2 }, hidentifies, ?_, ?_⟩
          · refine (machine S).run_cons_iff.2 ⟨_, ?_, rfl⟩
            show w.step (.write f.takeAll) = _
            simp only [step, hpc, hstep]
          · exact (identified_ok (w := w) hid hidentifies htransport).2
      | failed e =>
          rw [hstep] at hg
          exact hg.elim
      | header rest bytes | data rest | flushing =>
          -- It goes on, with less to do.
          obtain ⟨g, hgeq⟩ : ∃ g, g = (f.step w.out f.takeAll).1 := ⟨_, rfl⟩
          have hdone : g ≠ .done := by rw [hgeq, hstep]; simp
          have hmove : w.step (.write f.takeAll) = some { w with
              handler := .replying g hs index candidates
              out := (f.step w.out f.takeAll).2 } := by
            simp only [step, hpc, hgeq, hstep]
          have hnext : Inv madeWith { w with
              handler := .replying g hs index candidates
              out := (f.step w.out f.takeAll).2 } :=
            ⟨hgeq ▸ hg, hdone, hopen', ⟨id, hid, hpsk, (identifies_congr rfl rfl).2 hidentifies⟩,
              transport, htransport⟩
          obtain ⟨id', answers, w', hidentifies', hrun, hproceeds⟩ :=
            ih g.left (by rw [← hleft, hgeq]; exact hlt) hnext rfl rfl
          refine ⟨id', f.takeAll :: answers, w', (identifies_congr rfl rfl).1 hidentifies', ?_,
            hproceeds⟩
          exact (machine S).run_cons_iff.2 ⟨_, hmove, hrun⟩

/-! ## What a peer without a valid PSK sees -/

end Control

/-- The same event with another snapshot and another time. -/
def Control.Event.consulting (set : TenantSet) (now : Nat) : Control.Event → Control.Event
  | .tryPending _ _ ok => .tryPending set now ok
  | e => e

/-- The same handler with other candidates. -/
def Handler.reset {S : Snow} (candidates : Candidates) : Handler S → Handler S
  | .reading f _ => .reading f candidates
  | k => k

namespace Control

variable {S : Snow} {madeWith : Bytes → Option Psk} {w w' : Control S}

/-- The same connection with another snapshot and another time. -/
def reset (set : TenantSet) (now : Nat) (w : Control S) : Control S :=
  { w with
    handler := w.handler.reset (set.candidates now)
    consulted := w.consulted.map fun _ => (set, now) }

/-- Message 1, if there is one, was made with no valid PSK. -/
def Unidentified (madeWith : Bytes → Option Psk) (w : Control S) : Prop :=
  ∀ id, ¬ w.Identifies madeWith id

/-- Message 1 and the snapshot do not change any more. -/
theorem first_of_step (hi : Inv madeWith w) {e : Event} {message : Bytes}
    (hfirst : w.first = some message) (hstep : w.step e = some w') :
    w'.first = w.first ∧ w'.consulted = w.consulted := by
  have hne : w.first ≠ none := by simp [hfirst]
  cases moves_of_step hstep with
  | tryPending hpc | refuse hpc => exact absurd (hi.handlerOk hpc).1 hne
  | gotFirst hpc | readFails hpc | reads hpc => exact absurd (hi.handlerOk hpc).1 hne
  | _ => exact ⟨rfl, rfl⟩

theorem Identifies.of_step (hi : Inv madeWith w) {e : Event} {id : Identity}
    (h : w.Identifies madeWith id) (hstep : w.step e = some w') : w'.Identifies madeWith id := by
  obtain ⟨set, now, message, hconsulted, hfirst, hrest⟩ := h
  obtain ⟨hfirst', hconsulted'⟩ := first_of_step hi hfirst hstep
  exact ⟨set, now, message, hconsulted'.trans hconsulted, hfirst'.trans hfirst, hrest⟩

/-- As long as nobody is identified under either snapshot, both make the same step. -/
theorem step_reset (hS : S.Recognises madeWith) (hi : Inv madeWith w) {set : TenantSet} {now : Nat}
    {e : Event} (hstep : w.step e = some w') (hnone : Unidentified madeWith w')
    (hnone' : Unidentified madeWith (reset set now w')) :
    (reset set now w).step (e.consulting set now) = some (reset set now w') := by
  have hnone₀ : Unidentified madeWith w := fun id hid => hnone id (hid.of_step hi hstep)
  cases moves_of_step hstep with
  | peerSends hopen => simp [Event.consulting, step, reset, hopen]
  | peerEnds => rfl
  | tryPending hpc => simp [Event.consulting, step, reset, hpc, Handler.reset]
  | refuse hpc => simp [Event.consulting, step, reset, hpc, Handler.reset]
  | @gotFirst a f candidates message hpc hread =>
      obtain ⟨-, -, set₀, now₀, hconsulted, rfl⟩ := hi.handlerOk hpc
      have htry : ∀ (T : TenantSet) (n : Nat),
          (∀ id, T.Current n id → madeWith message ≠ some id.psk) →
          (Handler.gotFirst (T.candidates n) message : Handler S) = .closed .unmatched := by
        intro T n hun
        have hnomatch : Peer.tryPsks S message (T.candidates n).psks 0 none = none := by
          refine (Peer.tryPsks_eq_none_iff hS _ 0).2 fun psk hpsk hmade => ?_
          obtain ⟨id, hcurrent, rfl⟩ := TenantSet.mem_candidates_psks_iff.1 hpsk
          exact hun id hcurrent hmade
        simp only [Handler.gotFirst, hnomatch]
      have hold := htry set₀ now₀ fun id hcurrent hmade =>
        hnone id ⟨set₀, now₀, message, hconsulted, rfl, hcurrent, hmade⟩
      have hnew := htry set now fun id hcurrent hmade =>
        hnone' id ⟨set, now, message, by simp [reset, hconsulted], rfl, hcurrent, hmade⟩
      simp only [Event.consulting, step, reset, hpc, Handler.reset, hread, hold, hnew]
  | readFails hpc hread => simp only [Event.consulting, step, reset, hpc, Handler.reset, hread]
  | readTimesOut hpc => simp only [Event.consulting, step, reset, hpc, Handler.reset]
  | @reads a f g candidates hpc hread hdone hfailed =>
      cases g with
      | done message => exact absurd rfl (hdone message)
      | failed e => exact absurd rfl (hfailed e)
      | header got => simp only [Event.consulting, step, reset, hpc, Handler.reset, hread]
      | body len got => simp only [Event.consulting, step, reset, hpc, Handler.reset, hread]
  | identified hpc | writeFails hpc | writes hpc | writeTimesOut hpc =>
      obtain ⟨-, -, -, ⟨id, -, -, hidentifies⟩, -⟩ := hi.handlerOk hpc
      exact absurd hidentifies (hnone₀ id)

/-- **A peer without a valid PSK learns nothing about the tenants.**  Induction on the run from its end:
what is not identified at the end was not identified before. -/
theorem reset_unidentified (hS : S.Recognises madeWith) {set : TenantSet} {now : Nat}
    {es : List Event} (hrun : (machine S).run (initial S) es = some w)
    (hnone : Unidentified madeWith w) (hnone' : Unidentified madeWith (reset set now w)) :
    (machine S).run (initial S) (es.map (Event.consulting set now)) = some (reset set now w) := by
  induction es using List.reverseRecOn generalizing w with
  | nil =>
      obtain rfl := Option.some.inj hrun
      rfl
  | append_singleton es e ih =>
      obtain ⟨v, hv, hstep⟩ := (machine S).run_concat_iff.1 hrun
      have hi := inv_run hS hv
      have hbefore : Unidentified madeWith v := fun id hid => hnone id (hid.of_step hi hstep)
      have hbefore' : Unidentified madeWith (reset set now v) := by
        rintro id ⟨T, n, message, hconsulted, hfirst, hcurrent, hmade⟩
        obtain ⟨hfirst', hconsulted'⟩ := first_of_step hi hfirst hstep
        refine hnone' id ⟨T, n, message, ?_, hfirst'.trans hfirst, hcurrent, hmade⟩
        show w.consulted.map _ = _
        rw [hconsulted']
        exact hconsulted
      rw [List.map_append, List.map_singleton]
      exact (machine S).run_concat_iff.2 ⟨_, ih hv hbefore hbefore',
        step_reset hS hi hstep hnone hnone'⟩

/-! ## Which identity it is -/

theorem proceedsAs_iff (hi : Inv madeWith w) (hfirst : w.first ≠ none) (hover : w.handler.Over)
    (hanswered : w.handler.Answered) (id : Identity) :
    w.handler.ProceedsAs id ↔ w.Identifies madeWith id := by
  constructor
  · intro hproceeds
    cases id with
    | tenant t =>
        obtain ⟨transport, hpc⟩ := hproceeds
        exact hi.handlerOk hpc
    | code c =>
        obtain ⟨transport, hpc⟩ := hproceeds
        exact hi.handlerOk hpc
  · intro hidentifies
    cases hpc : w.handler with
    | arrived | refused | reading => exact absurd (hi.handlerOk hpc).1 hfirst
    | replying =>
        rw [hpc] at hover
        exact hover.elim
    | session t transport =>
        obtain rfl := hidentifies.unique (hi.handlerOk hpc)
        exact ⟨transport, rfl⟩
    | enrollment c transport =>
        obtain rfl := hidentifies.unique (hi.handlerOk hpc)
        exact ⟨transport, rfl⟩
    | closed why =>
        cases why with
        | unread => exact absurd (hi.handlerOk hpc).1 hfirst
        | unmatched => exact absurd hidentifies ((hi.handlerOk hpc).2 id)
        | unsent =>
            rw [hpc] at hanswered
            exact hanswered.elim
        | library => exact (hi.handlerOk hpc).elim
    | panicked => exact (hi.handlerOk hpc).elim

/-- Nothing is written to a peer that is not identified. -/
theorem silent (hi : Inv madeWith w) (hnone : Unidentified madeWith w) : w.out = Wire.empty := by
  cases hpc : w.handler with
  | arrived => exact (hi.handlerOk hpc).2.1
  | refused => exact (hi.handlerOk hpc).2
  | reading => exact (hi.handlerOk hpc).2.1
  | replying =>
      obtain ⟨-, -, -, ⟨id, -, -, hidentifies⟩, -⟩ := hi.handlerOk hpc
      exact absurd hidentifies (hnone id)
  | session t transport => exact absurd (hi.handlerOk hpc) (hnone _)
  | enrollment c transport => exact absurd (hi.handlerOk hpc) (hnone _)
  | closed why =>
      cases why with
      | unread => exact (hi.handlerOk hpc).2
      | unmatched => exact (hi.handlerOk hpc).1
      | unsent =>
          obtain ⟨id, hidentifies⟩ := hi.handlerOk hpc
          exact absurd hidentifies (hnone id)
      | library => exact (hi.handlerOk hpc).elim
  | panicked => exact (hi.handlerOk hpc).elim

theorem isClosed_reset (candidates : Candidates) (k : Handler S) :
    (k.reset candidates).isClosed = k.isClosed := by
  cases k <;> rfl

theorem identifies_iff {set : TenantSet} {now : Nat} {message : Bytes}
    (hconsulted : w.consulted = some (set, now)) (hfirst : w.first = some message) (id : Identity) :
    w.Identifies madeWith id ↔ madeWith message = some id.psk ∧ set.Current now id := by
  constructor
  · rintro ⟨set', now', message', hconsulted', hfirst', hcurrent, hmade⟩
    obtain ⟨rfl, rfl⟩ := Prod.mk.inj (Option.some.inj (hconsulted.symm.trans hconsulted'))
    obtain rfl := Option.some.inj (hfirst.symm.trans hfirst')
    exact ⟨hmade, hcurrent⟩
  · rintro ⟨hmade, hcurrent⟩
    exact ⟨set, now, message, hconsulted, hfirst, hcurrent, hmade⟩

theorem unexpired_iff {c : EnrollCode} {now : Nat} :
    c.unexpired now = true ↔ ∀ at', c.expiresAt = some at' → now < at' := by
  unfold EnrollCode.unexpired
  cases c.expiresAt <;> simp

/-- **Who a connection is taken for.**  With message 1 there, the handler goes on as a tenant if and only
if message 1 was made with its PSK and it is enabled in the snapshot, and as a code if and only if it
was made with the code's PSK and the code has not expired, unless message 2 cannot be sent in time; a
transport that takes it brings the handler there, and the index is that of the PSK.  To any other peer
nothing is written, and it sees the same of any other snapshot that does not know it either. -/
theorem identified_iff (S : Snow) (madeWith : Bytes → Option Psk) (hS : S.Recognises madeWith) :
    (∀ es w set now message, (machine S).run (initial S) es = some w →
        w.consulted = some (set, now) → w.first = some message →
        (w.handler.Over → w.handler.Answered →
          (∀ t, w.handler.ProceedsAs (.tenant t) ↔
              madeWith message = some t.psk ∧ t ∈ set.tenants ∧ t.disabled = false)
            ∧ ∀ c, w.handler.ProceedsAs (.code c) ↔
              madeWith message = some c.psk ∧ c ∈ set.codes
                ∧ ∀ at', c.expiresAt = some at' → now < at')
          ∧ ∀ f hs index candidates, w.handler = .replying f hs index candidates →
              ∃ id, candidates.identity index = some id ∧ candidates.psks[index]? = some id.psk
                ∧ madeWith message = some id.psk
                ∧ ∃ (answers : List WriteAnswer) (w' : Control S),
                  (machine S).run w (answers.map Event.write) = some w' ∧ w'.handler.ProceedsAs id)
      ∧ (∀ es w, (machine S).run (initial S) es = some w → w.handler ≠ .panicked)
      ∧ (∀ es w, (machine S).run (initial S) es = some w → Unidentified madeWith w →
          w.out.carried = []
            ∧ ∀ set now, Unidentified madeWith (reset set now w) →
              ∃ w', (machine S).run (initial S) (es.map (Event.consulting set now)) = some w'
                ∧ w'.out = w.out ∧ w'.handler.isClosed = w.handler.isClosed)
      ∧ ∀ set : TenantSet, ∀ t ∈ set.tenants, ∀ c ∈ set.codes, t.psk ≠ c.psk := by
  refine ⟨?_, fun es w hrun hpc => ?_, fun es w hrun hnone => ⟨?_, fun set now hnone' => ?_⟩,
    fun set t ht c hc => TenantSet.tenant_psk_ne_code_psk ht hc⟩
  · intro es w set now message hrun hconsulted hfirst
    have hi := inv_run hS hrun
    refine ⟨fun hover hanswered => ⟨fun t => ?_, fun c => ?_⟩, ?_⟩
    · rw [proceedsAs_iff hi (by simp [hfirst]) hover hanswered, identifies_iff hconsulted hfirst]
      rfl
    · rw [proceedsAs_iff hi (by simp [hfirst]) hover hanswered, identifies_iff hconsulted hfirst,
        ← unexpired_iff]
      rfl
    · intro f hs index candidates hpc
      obtain ⟨-, -, -, ⟨id, hid, hpsk, hidentifies⟩, -⟩ := hi.handlerOk hpc
      obtain ⟨id', answers, w', hidentifies', hrun', hproceeds⟩ := exists_proceeds hi hpc
      obtain rfl := hidentifies.unique hidentifies'
      exact ⟨id, hid, hpsk, ((identifies_iff hconsulted hfirst id).1 hidentifies).1, answers, w',
        hrun', hproceeds⟩
  · exact (inv_run hS hrun).handlerOk hpc
  · rw [silent (inv_run hS hrun) hnone]
    rfl
  · exact ⟨_, reset_unidentified hS hrun hnone hnone', rfl, isClosed_reset _ _⟩

/-! ## Runs with a library that shows the PSK -/

/-- Who made a message 1 of the library for examples. -/
def plainMaker (message : Bytes) : Option Psk :=
  if h : (message.take 32).length = 32 ∧ message = message.take 32 ++ List.replicate 16 0 then
    some ⟨message.take 32, h.1⟩
  else none

theorem plainMaker_eq_some_iff {message : Bytes} {psk : Psk} :
    plainMaker message = some psk ↔ message = psk.bytes ++ List.replicate 16 0 := by
  unfold plainMaker
  constructor
  · intro h
    split at h
    · rename_i hmade
      obtain rfl := Option.some.inj h
      exact hmade.2
    · cases h
  · rintro rfl
    have htake : (psk.bytes ++ List.replicate 16 0).take 32 = psk.bytes :=
      List.take_left' psk.length_eq
    rw [dif_pos ⟨by rw [htake, psk.length_eq], by rw [htake]⟩]
    simp only [htake]

theorem plainSnow_recognises : Noise.Pair.plainSnow.Recognises plainMaker where
  responds psk := ⟨psk, rfl⟩
  reads psk hs message hresponder := by
    obtain rfl : psk = hs := Option.some.inj hresponder
    rw [plainMaker_eq_some_iff]
    simp [Noise.Pair.plainSnow]
  replies psk hs message matched _ hread := by
    refine ⟨matched.bytes ++ List.replicate 16 0, matched, (), ?_, rfl⟩
    have hle : (matched.bytes ++ List.replicate 16 (0 : UInt8)).length ≤ maxMessage := by
      rw [List.length_append, matched.length_eq, List.length_replicate]
      decide
    simp only [Snow.writeMessage, Noise.Pair.plainSnow, if_pos hle]

def sampleTenant : Tenant := ⟨"a", Psk.repeated 1, "a.example.com", 4, false⟩

def sampleSet : TenantSet :=
  ⟨[{ sampleTenant with name := "off", psk := Psk.repeated 2, sni := "b.example.com", disabled := true },
      sampleTenant], [⟨Psk.repeated 3, "c.example.com", 4, some 100⟩],
    Tenancy.checkSet_eq_ok_iff.1 (by decide)⟩

/-- A peer shows a PSK in two pieces; the answers to the reply follow. -/
def knock (b : UInt8) (answers : List WriteAnswer) : List Event :=
  [.tryPending sampleSet 100 true,
    .peerSends (frame ((Psk.repeated b).bytes ++ List.replicate 16 0)), .read (.upTo 0), .read .pending,
    .read (.upTo 99), .read (.upTo 7), .read (.upTo 99)] ++ answers.map Event.write

/-- **A tenant whose connection does not take message 2 is not served**, although message 1 was made with
its PSK. -/
theorem unsent_not_served :
    ¬ ∀ (S : Snow) (madeWith : Bytes → Option Psk), S.Recognises madeWith →
      ∀ es w set now message, (machine S).run (initial S) es = some w →
        w.consulted = some (set, now) → w.first = some message → w.handler.Over →
          ∀ t, w.handler.ProceedsAs (.tenant t) ↔
            madeWith message = some t.psk ∧ t ∈ set.tenants ∧ t.disabled = false := by
  intro hall
  have hend : ((machine Noise.Pair.plainSnow).run (initial _) (knock 1 [.upTo 0, .fail])).map
      (fun w => (w.consulted, w.first, match w.handler with
        | .closed .unsent => true
        | _ => false))
        = some (some (sampleSet, 100), some ((Psk.repeated 1).bytes ++ List.replicate 16 0), true) := by
    decide +kernel
  obtain ⟨w, hrun, hstate⟩ := Option.map_eq_some_iff.1 hend
  simp only [Prod.mk.injEq] at hstate
  obtain ⟨hconsulted, hfirst, hclosed⟩ := hstate
  have hpc : w.handler = .closed .unsent := by
    split at hclosed
    · assumption
    · cases hclosed
  obtain ⟨transport, hserved⟩ := (hall _ plainMaker plainSnow_recognises _ w _ _ _ hrun hconsulted hfirst
    (by rw [hpc]; trivial) sampleTenant).2 ⟨plainMaker_eq_some_iff.2 rfl, by decide, rfl⟩
  rw [hpc] at hserved
  cases hserved

/-- The tenant is served; the disabled tenant's PSK, the expired code's and one that was never issued
are all answered by closing the connection. -/
theorem identified_iff_knock :
    (∃ w, (machine Noise.Pair.plainSnow).run (initial _) (knock 1 [.upTo 9, .upTo 9, .upTo 99, .upTo 0])
          = some w ∧ w.handler.ProceedsAs (.tenant sampleTenant))
      ∧ ∀ b ∈ [2, 3, 9], ∃ w, (machine Noise.Pair.plainSnow).run (initial _) (knock b []) = some w
          ∧ w.out.carried = [] ∧ w.handler.isClosed = true := by
  have hspec := identified_iff Noise.Pair.plainSnow plainMaker plainSnow_recognises
  constructor
  · have hend : ((machine Noise.Pair.plainSnow).run (initial _)
        (knock 1 [.upTo 9, .upTo 9, .upTo 99, .upTo 0])).map
        (fun w => (w.consulted, w.first, match w.handler with
          | .session _ _ => true
          | _ => false))
          = some (some (sampleSet, 100), some ((Psk.repeated 1).bytes ++ List.replicate 16 0), true) := by
      decide +kernel
    obtain ⟨w, hrun, hstate⟩ := Option.map_eq_some_iff.1 hend
    simp only [Prod.mk.injEq] at hstate
    obtain ⟨hconsulted, hfirst, hsession⟩ := hstate
    have hpc : ∃ t transport, w.handler = .session t transport := by
      split at hsession
      · rename_i t transport hpc
        exact ⟨t, transport, hpc⟩
      · cases hsession
    obtain ⟨t, transport, hpc⟩ := hpc
    refine ⟨w, hrun, (((hspec.1 _ w _ _ _ hrun hconsulted hfirst).1 (by rw [hpc]; trivial)
      (by rw [hpc]; trivial)).1 sampleTenant).2 ⟨plainMaker_eq_some_iff.2 rfl, by decide, rfl⟩⟩
  · intro b hb
    have hend : ((machine Noise.Pair.plainSnow).run (initial _) (knock b [])).map
        (fun w => (w.consulted, w.first, w.handler.isClosed))
          = some (some (sampleSet, 100), some ((Psk.repeated b).bytes ++ List.replicate 16 0), true) := by
      simp only [List.mem_cons, List.not_mem_nil, or_false] at hb
      rcases hb with rfl | rfl | rfl <;> decide +kernel
    obtain ⟨w, hrun, hstate⟩ := Option.map_eq_some_iff.1 hend
    simp only [Prod.mk.injEq] at hstate
    obtain ⟨hconsulted, hfirst, hclosed⟩ := hstate
    refine ⟨w, hrun, (hspec.2.2.1 _ w hrun ?_).1, hclosed⟩
    intro id hid
    obtain ⟨hmade, hcurrent⟩ := (identifies_iff hconsulted hfirst id).1 hid
    have hpsk : Psk.repeated b = id.psk :=
      Option.some.inj ((plainMaker_eq_some_iff.2 rfl).symm.trans hmade)
    cases id with
    | tenant t =>
        obtain ⟨hmem, henabled⟩ := hcurrent
        simp only [sampleSet, List.mem_cons, List.not_mem_nil, or_false] at hmem
        rcases hmem with rfl | rfl
        · cases henabled
        · have hone : b = 1 := Noise.Psk.repeated_injective hpsk
          rw [hone] at hb
          exact absurd hb (by decide)
    | code c =>
        obtain ⟨hmem, hlive⟩ := hcurrent
        simp only [sampleSet, List.mem_cons, List.not_mem_nil, or_false] at hmem
        rw [hmem] at hlive
        exact absurd hlive (by decide)

end Control

end Hub
end Erbridge
