import Erbridge.Core.Machine
import Erbridge.Proxy.Pump
import Erbridge.Reverse.Frame
import Erbridge.Sni.Record
import Mathlib.Logic.Function.Basic

/-!
# One external connection through the tunnel

The two ends of a mux stream: `relay` at A, between the visitor and the stream, and
`handle_inbound_stream` at B, between the stream and the target.  A names the tunnel in a frame and
replays what it has read of the visitor; B answers with one byte when it has dialled; four copy loops
do the rest.  One step is one poll of one of the six byte streams.

* `Relay.step` — one poll of either end, or a move of the visitor or of the target.
* `Loop.src`, `Loop.dst` — the wires that a copy loop polls.
* `Relay.dropFront`, `Relay.dropInbound` — what goes when an end is given up.
-/

namespace Erbridge
namespace Reverse

open Erbridge.Core
open Proxy (Pump bufSize)
open Sni (RecordRead)

/-- The six byte streams, named by where they lead. -/
inductive Link
  /-- From the visitor to A. -/
  | visitorIn
  /-- From A to the visitor. -/
  | visitorOut
  /-- From A to B, in the mux stream. -/
  | up
  /-- From B to A, in the mux stream. -/
  | down
  /-- From B to the target. -/
  | targetOut
  /-- From the target to B. -/
  | targetIn
deriving DecidableEq

/-- The four copy loops. -/
inductive Loop
  /-- At A, from the visitor to the mux stream. -/
  | toB
  /-- At A, from the mux stream to the visitor. -/
  | fromB
  /-- At B, from the mux stream to the target. -/
  | toTarget
  /-- At B, from the target to the mux stream. -/
  | toA
deriving DecidableEq

/-- What a loop reads. -/
def Loop.src : Loop → Link
  | .toB => .visitorIn
  | .fromB => .down
  | .toTarget => .up
  | .toA => .targetIn

/-- What a loop writes. -/
def Loop.dst : Loop → Link
  | .toB => .up
  | .fromB => .visitorOut
  | .toTarget => .targetOut
  | .toA => .down

theorem Loop.src_ne_dst (l : Loop) : l.src ≠ l.dst := by
  cases l <;> simp [Loop.src, Loop.dst]

theorem Loop.src_injective {l l' : Loop} (h : l.src = l'.src) : l = l' := by
  cases l <;> cases l' <;> simp_all [Loop.src]

theorem Loop.dst_injective {l l' : Loop} (h : l.dst = l'.dst) : l = l' := by
  cases l <;> cases l' <;> simp_all [Loop.dst]

/-- Where A is with the connection. -/
inductive Front
  /-- `peek_sni` reads a record of the visitor. -/
  | peeking (r : RecordRead)
  /-- `relay` writes the tunnel name. -/
  | naming (f : FrameWrite)
  /-- It waits for B's byte, while the visitor's bytes are already forwarded. -/
  | opening
  | relaying
  | dropped

/-- Where B is with the stream. -/
inductive Inbound
  /-- It reads the tunnel name. -/
  | naming (f : FrameRead)
  | dialing
  /-- It writes its status byte. -/
  | answering (ok : Bool)
  | flushing (ok : Bool)
  | piping
  | dropped

/-- The connection, at both ends. -/
structure Relay where
  front : Front
  inbound : Inbound
  /-- `prefix`: what was read of the visitor before the relay. -/
  replay : Bytes
  wire : Link → Wire
  /-- The loops that were started. -/
  pump : Loop → Option Pump
  /-- B has dialled the target. -/
  dialed : Bool

namespace Relay

inductive Event
  /-- A polls the visitor for its hello; `found` is what the lookups make of a complete one. -/
  | peek (a : ReadAnswer) (found : Bool)
  | name (a : WriteAnswer)
  | status (a : ReadAnswer)
  | header (a : ReadAnswer)
  /-- `TcpStream::connect` to the target has returned. -/
  | dial (ok : Bool)
  | answer (a : WriteAnswer)
  /-- A copy loop polls its reader. -/
  | read (l : Loop) (a : ReadAnswer)
  /-- A copy loop polls its writer. -/
  | write (l : Loop) (a : WriteAnswer)
  | visitorSends (bytes : Bytes)
  | visitorCloses
  | targetSends (bytes : Bytes)
  | targetCloses
  /-- Both loops at A have returned. -/
  | finishFront
  /-- Both loops at B have returned. -/
  | finishInbound
  /-- A is shut down, or the hello is late, or no stream could be opened. -/
  | cancelFront
  /-- B is shut down. -/
  | cancelInbound

/-- The loop has returned. -/
def returned : Option Pump → Bool
  | some .done | some (.failed _) => true
  | _ => false

/-- A task that has not returned is aborted. -/
def abort (p : Option Pump) : Option Pump := if returned p then p else none

/-- The two writers of an end are dropped and its two loops stop. -/
def close (s : Relay) (l l' : Loop) : Relay :=
  { s with
    wire := fun k =>
      if k = l.dst ∨ k = l'.dst then { s.wire k with ended := true } else s.wire k
    pump := fun x => if x = l ∨ x = l' then abort (s.pump x) else s.pump x }

/-- A drops the visitor's connection and the stream. -/
def dropFront (s : Relay) : Relay := { s.close .toB .fromB with front := .dropped }

/-- B drops the stream and the target's connection. -/
def dropInbound (s : Relay) : Relay := { s.close .toTarget .toA with inbound := .dropped }

def setWire (s : Relay) (k : Link) (w : Wire) : Relay :=
  { s with wire := Function.update s.wire k w }

def setPump (s : Relay) (l : Loop) (p : Pump) : Relay :=
  { s with pump := Function.update s.pump l (some p) }

/-- `relay` begins with the name of the tunnel. -/
def beginNaming (name : Bytes) (s : Relay) : Relay :=
  match FrameWrite.start name with
  | .failed _ => s.dropFront
  | f => { s with front := .naming f }

/-- A connection of which `replay` was read. -/
def incoming (replay : Bytes) : Relay where
  front := .peeking RecordRead.start
  inbound := .naming FrameRead.start
  replay := replay
  wire := fun k =>
    if k = .visitorIn then { carried := replay, taken := replay.length, ended := false }
    else Wire.empty
  pump := fun _ => none
  dialed := false

/-- The connection comes in: at the port of the tenants, where a record is read first, or `relay` is
called with what was read. -/
def initial (name : Bytes) : Option Bytes → Relay
  | none => incoming []
  | some replay => (incoming replay).beginNaming name

/-- The byte that tells A whether the target was dialled. -/
def statusByte (ok : Bool) : UInt8 := if ok then 1 else 0

/-- The task for the request: `write_all(&prefix)`, if there is one, and then the copy loop. -/
def startToB (replay : Bytes) : Pump :=
  if replay = [] then .reading else .writing replay replay.length

theorem startToB_ok (replay : Bytes) : (startToB replay).Ok := by
  unfold startToB
  split
  · trivial
  · rename_i h
    exact h

theorem startToB_ne (replay : Bytes) :
    startToB replay ≠ .shuttingDown ∧ startToB replay ≠ .done := by
  unfold startToB
  split
  · simp
  · simp

@[simp] theorem held_startToB (replay : Bytes) : (startToB replay).held = replay := by
  unfold startToB
  split
  · rename_i h
    exact h.symm
  · rfl

/-- One step; `resolve` is the lookup of a tunnel name at B. -/
def step (name : Bytes) (resolve : Bytes → Bool) (s : Relay) : Event → Option Relay
  | .peek a found =>
      match s.front with
      | .peeking r =>
          let p := r.step (s.wire .visitorIn) a
          let t := s.setWire .visitorIn p.2
          match p.1 with
          | .done buf =>
              if found then some ({ t with replay := buf }.beginNaming name) else some t.dropFront
          | .failed => some t.dropFront
          | r => some { t with front := .peeking r }
      | _ => none
  | .name a =>
      match s.front with
      | .naming f =>
          let p := f.step (s.wire .up) a
          let t := s.setWire .up p.2
          match p.1 with
          | .done => some { t.setPump .toB (startToB t.replay) with front := .opening }
          | .failed _ => some t.dropFront
          | f => some { t with front := .naming f }
      | _ => none
  | .status a =>
      match s.front with
      | .opening =>
          let p := (s.wire .down).pollRead 1 a
          let t := s.setWire .down p.2
          match readExact [] p.1 with
          | .failed _ => some t.dropFront
          | .got [] => some t
          | .got (b :: _) =>
              if b = 1 then some { t.setPump .fromB .reading with front := .relaying }
              else some t.dropFront
      | _ => none
  | .header a =>
      match s.inbound with
      | .naming f =>
          let p := f.step maxNameLen (s.wire .up) a
          let t := s.setWire .up p.2
          match p.1 with
          | .done data =>
              if resolve data then some { t with inbound := .dialing } else some t.dropInbound
          | .failed _ => some t.dropInbound
          | f => some { t with inbound := .naming f }
      | _ => none
  | .dial ok =>
      match s.inbound with
      | .dialing => some { s with inbound := .answering ok, dialed := ok }
      | _ => none
  | .answer a =>
      match s.inbound with
      | .answering ok =>
          let p := (s.wire .down).pollWrite [statusByte ok] a
          let t := s.setWire .down p.2
          match writeAll [statusByte ok] p.1 with
          -- That the dial failed is told on a best effort: errors are ignored.
          | .failed _ => if ok then some t.dropInbound else some { t with inbound := .flushing ok }
          | .rest [] => some { t with inbound := .flushing ok }
          | .rest _ => some t
      | .flushing ok =>
          match (s.wire .down).pollFlush a with
          | (.ready (.ok ()), _) =>
              if ok then
                some { (s.setPump .toTarget .reading).setPump .toA .reading with inbound := .piping }
              else some s.dropInbound
          | (.ready (.error _), _) => some s.dropInbound
          | _ => some s
      | _ => none
  | .read l a =>
      match s.pump l with
      | some p =>
          if p.isReading then
            let r := (s.wire l.src).pollRead bufSize a
            some ((s.setWire l.src r.2).setPump l (Pump.onRead r.1))
          else none
      | none => none
  | .write l a =>
      match s.pump l with
      | some (.writing rest n) =>
          let r := (s.wire l.dst).pollWrite rest a
          some ((s.setWire l.dst r.2).setPump l (Pump.onWrite rest n r.1).1)
      | some .shuttingDown =>
          let r := (s.wire l.dst).pollShutdown a
          some ((s.setWire l.dst r.2).setPump l (Pump.onShutdown r.1))
      | _ => none
  | .visitorSends bytes =>
      if (s.wire .visitorIn).ended then none
      else some (s.setWire .visitorIn ((s.wire .visitorIn).push bytes))
  | .visitorCloses => some (s.setWire .visitorIn { s.wire .visitorIn with ended := true })
  | .targetSends bytes =>
      if (s.wire .targetIn).ended ∨ s.dialed = false then none
      else some (s.setWire .targetIn ((s.wire .targetIn).push bytes))
  | .targetCloses =>
      if s.dialed = false then none
      else some (s.setWire .targetIn { s.wire .targetIn with ended := true })
  | .finishFront =>
      match s.front with
      | .relaying =>
          if returned (s.pump .toB) ∧ returned (s.pump .fromB) then some s.dropFront else none
      | _ => none
  | .finishInbound =>
      if returned (s.pump .toTarget) ∧ returned (s.pump .toA) then some s.dropInbound else none
  | .cancelFront => some s.dropFront
  | .cancelInbound =>
      match s.inbound with
      -- The two loops are tasks of their own and go on.
      | .piping => some { s with inbound := .dropped }
      | _ => some s.dropInbound

def machine (name : Bytes) (resolve : Bytes → Bool) : Machine Relay Event where
  step := step name resolve

end Relay

end Reverse
end Erbridge
