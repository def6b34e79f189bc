import Erbridge.Core.Machine
import Erbridge.Core.Tally
import Erbridge.Stats.Registry

/-!
# Who closes what was opened

The five functions that register a connection (`relay`, `handle_inbound_stream`, `handle_tcp_conn`,
`handle_local_conn` and the task of a UDP session), by their await points: what each of them does with
the outcome of what it awaits, up to the next await or to its end.  Between two of its await points a
function is not interrupted; at an await point it can be dropped.

* `Point`, `resume` — the await points, with every early return.
* `Server.step` — any number of handlers over one registry.
* `Inv` — a handler holds a registered connection exactly at the points between `open` and `close`.
* `balanced_iff` — the runs in which every connection of a handler that is gone has been closed once.
* `dropped_relay` — a relay that is dropped while it copies stays in the registry.
-/

namespace Erbridge
namespace Stats

open Erbridge.Core.Tally (exists_split getElem?_set_eq_some getElem?_concat_eq_some getElem?_of_set
  getElem?_of_concat)

/-- What a handler awaits. -/
inductive Point
  /-- `relay`: `control.open_stream()`. -/
  | openStream
  | sendHeader
  /-- `mux_r.read_exact(&mut ready)`. -/
  | readReady
  /-- `tokio::join!(to_b, from_b)`. -/
  | joinPumps
  /-- `handle_inbound_stream`: `read_frame`. -/
  | readHeader
  | dialTarget
  /-- `compat.write_all(&[0u8])`, and then the flush; their errors are ignored. -/
  | reportFailure
  | flushFailure
  | acknowledge
  | flushAck
  | pipeInbound
  /-- `handle_tcp_conn`: `acceptor.accept(client)`. -/
  | tlsAccept
  | readToken
  | rejectToken
  | acceptToken
  | noiseAccept
  | connectTarget
  | pipeTcp
  /-- `handle_local_conn`: `TcpStream::connect(&rule.server)`. -/
  | connectServer
  | tlsConnect
  | sendToken
  | readAck
  | noiseConnect
  | pipeLocal
  /-- The task of a UDP session: `UdpSocket::bind`. -/
  | bindSocket
  | connectSocket
  | receiveQueued
  | sendDatagram
deriving DecidableEq

/-- What came of it: success, an error, or the other branch that the function has. -/
inductive Outcome
  | ok
  | err
  | other
deriving DecidableEq

/-- What the function does up to its next await point. -/
inductive Action
  | await (p : Point)
  /-- `registry.open(..)`, and on to `p`. -/
  | openThen (p : Point)
  /-- It returns without a connection. -/
  | finish
  /-- `registry.close(&info)`, and it returns. -/
  | closeThen

def resume : Point → Outcome → Action
  | .openStream, .ok => .await .sendHeader
  | .openStream, _ => .finish
  | .sendHeader, .ok => .openThen .readReady
  | .sendHeader, _ => .finish
  | .readReady, .ok => .await .joinPumps
  -- An error, or B could not reach the target.
  | .readReady, _ => .closeThen
  | .joinPumps, _ => .closeThen
  | .readHeader, .ok => .await .dialTarget
  -- An error, or a tunnel that is not known.
  | .readHeader, _ => .finish
  | .dialTarget, .ok => .await .acknowledge
  | .dialTarget, _ => .await .reportFailure
  | .reportFailure, _ => .await .flushFailure
  | .flushFailure, _ => .finish
  | .acknowledge, .ok => .await .flushAck
  | .acknowledge, _ => .finish
  | .flushAck, .ok => .openThen .pipeInbound
  | .flushAck, _ => .finish
  | .pipeInbound, _ => .closeThen
  | .tlsAccept, .ok => .await .readToken
  -- The rule has no token.
  | .tlsAccept, .other => .await .connectTarget
  | .tlsAccept, .err => .finish
  | .readToken, .ok => .await .acceptToken
  -- The token is a wrong one.
  | .readToken, .other => .await .rejectToken
  | .readToken, .err => .finish
  | .rejectToken, _ => .finish
  | .acceptToken, .ok => .await .connectTarget
  | .acceptToken, _ => .finish
  | .noiseAccept, .ok => .await .connectTarget
  | .noiseAccept, _ => .finish
  | .connectTarget, .ok => .openThen .pipeTcp
  | .connectTarget, _ => .finish
  | .pipeTcp, _ => .closeThen
  | .connectServer, .ok => .await .tlsConnect
  -- The transport is Noise.
  | .connectServer, .other => .await .noiseConnect
  | .connectServer, .err => .finish
  | .tlsConnect, .ok => .await .sendToken
  -- The rule has no token.
  | .tlsConnect, .other => .openThen .pipeLocal
  | .tlsConnect, .err => .finish
  | .sendToken, .ok => .await .readAck
  | .sendToken, _ => .finish
  | .readAck, .ok => .openThen .pipeLocal
  | .readAck, _ => .finish
  | .noiseConnect, .ok => .openThen .pipeLocal
  | .noiseConnect, _ => .finish
  | .pipeLocal, _ => .closeThen
  | .bindSocket, .ok => .await .connectSocket
  | .bindSocket, _ => .closeThen
  | .connectSocket, .ok => .await .receiveQueued
  | .connectSocket, _ => .closeThen
  | .receiveQueued, .ok => .await .sendDatagram
  -- The session was evicted.
  | .receiveQueued, _ => .closeThen
  | .sendDatagram, .ok => .await .receiveQueued
  | .sendDatagram, _ => .closeThen

/-- The points between `registry.open` and `registry.close`. -/
def Point.isOpen : Point → Bool
  | .readReady | .joinPumps | .pipeInbound | .pipeTcp | .pipeLocal | .bindSocket | .connectSocket
  | .receiveQueued | .sendDatagram => true
  | _ => false

/-- Where the handlers begin; that of a UDP session is given a connection that is open. -/
def Point.isStart : Point → Bool
  | .openStream | .readHeader | .tlsAccept | .noiseAccept | .connectTarget | .connectServer => true
  | _ => false

/-- Every way out of a function that has opened its connection closes it, and no other one does. -/
theorem resume_isOpen (p : Point) (o : Outcome) :
    match resume p o with
    | .await q => q.isOpen = p.isOpen
    | .openThen q => p.isOpen = false ∧ q.isOpen = true
    | .finish => p.isOpen = false
    | .closeThen => p.isOpen = true := by
  cases p <;> cases o <;> simp [resume, Point.isOpen]

/-- How far a handler is, apart from what it has registered. -/
inductive Progress
  | awaiting (p : Point)
  | returned
deriving DecidableEq

def Progress.resume : Progress → Outcome → Option Progress
  | .awaiting p, o =>
      match Stats.resume p o with
      | .await q | .openThen q => some (.awaiting q)
      | .finish | .closeThen => some .returned
  | .returned, _ => none

/-- A handler, with the connection that it has registered. -/
inductive Handler
  | awaiting (p : Point) (what : Description) (conn : Option ConnectionInfo)
  | ended (conn : Option ConnectionInfo)
  /-- It was dropped at an await point. -/
  | dropped (conn : Option ConnectionInfo)
deriving DecidableEq

namespace Handler

def conn : Handler → Option ConnectionInfo
  | .awaiting _ _ conn | .ended conn | .dropped conn => conn

def isEnded : Handler → Bool
  | .ended _ => true
  | _ => false

def isGone : Handler → Bool
  | .awaiting _ _ _ => false
  | _ => true

end Handler

/-- The handlers and their registry. -/
structure Server where
  registry : Registry
  handlers : List Handler

namespace Server

def initial : Server := ⟨.new, []⟩

inductive Event
  /-- A handler is spawned. -/
  | spawn (p : Point) (what : Description)
  /-- `run_udp_forward` opens a connection and spawns the task of its session. -/
  | spawnUdp (what : Description)
  /-- What handler `i` awaits has come out like this. -/
  | resume (i : Nat) (o : Outcome)
  /-- Handler `i` is dropped where it waits. -/
  | drop (i : Nat)
  /-- A copy loop or a reply task counts bytes. -/
  | count (id : Nat) (d : Dir) (n : Nat)
deriving DecidableEq

def setHandler (s : Server) (i : Nat) (h : Handler) : Server :=
  { s with handlers := s.handlers.set i h }

def step (s : Server) : Event → Option Server
  | .spawn p what =>
      if p.isStart then some { s with handlers := s.handlers ++ [.awaiting p what none] } else none
  | .spawnUdp what =>
      let (registry, info) := s.registry.open what
      some ⟨registry, s.handlers ++ [.awaiting .bindSocket what (some info)]⟩
  | .resume i o =>
      match s.handlers[i]? with
      | some (.awaiting p what conn) =>
          match Stats.resume p o with
          | .await q => some (s.setHandler i (.awaiting q what conn))
          | .openThen q =>
              let (registry, info) := s.registry.open what
              some { s.setHandler i (.awaiting q what (some info)) with registry := registry }
          | .finish => some (s.setHandler i (.ended conn))
          | .closeThen =>
              match conn with
              | some info =>
                  some { s.setHandler i (.ended conn) with registry := s.registry.close info }
              | none => none
      | _ => none
  | .drop i =>
      match s.handlers[i]? with
      | some (.awaiting _ _ conn) => some (s.setHandler i (.dropped conn))
      | _ => none
  | .count id d n => some { s with registry := s.registry.count id d n }

def machine : Core.Machine Server Event where
  step := step

/-- What each event needs and does. -/
inductive Moves (s : Server) : Event → Server → Prop
  | spawn {p : Point} {what : Description} (hp : p.isStart = true) :
      Moves s (.spawn p what) { s with handlers := s.handlers ++ [.awaiting p what none] }
  | spawnUdp {what : Description} :
      Moves s (.spawnUdp what) ⟨(s.registry.open what).1,
        s.handlers ++ [.awaiting .bindSocket what (some (s.registry.open what).2)]⟩
  | await {i : Nat} {o : Outcome} {p q : Point} {what : Description} {conn : Option ConnectionInfo}
      (hpc : s.handlers[i]? = some (.awaiting p what conn)) (hq : q.isOpen = p.isOpen) :
      Moves s (.resume i o) (s.setHandler i (.awaiting q what conn))
  | openThen {i : Nat} {o : Outcome} {p q : Point} {what : Description}
      {conn : Option ConnectionInfo} (hpc : s.handlers[i]? = some (.awaiting p what conn))
      (hp : p.isOpen = false) (hq : q.isOpen = true) :
      Moves s (.resume i o)
        { s.setHandler i (.awaiting q what (some (s.registry.open what).2)) with
          registry := (s.registry.open what).1 }
  | finish {i : Nat} {o : Outcome} {p : Point} {what : Description} {conn : Option ConnectionInfo}
      (hpc : s.handlers[i]? = some (.awaiting p what conn)) (hp : p.isOpen = false) :
      Moves s (.resume i o) (s.setHandler i (.ended conn))
  | closeThen {i : Nat} {o : Outcome} {p : Point} {what : Description} {info : ConnectionInfo}
      (hpc : s.handlers[i]? = some (.awaiting p what (some info))) :
      Moves s (.resume i o)
        { s.setHandler i (.ended (some info)) with registry := s.registry.close info }
  | drop {i : Nat} {p : Point} {what : Description} {conn : Option ConnectionInfo}
      (hpc : s.handlers[i]? = some (.awaiting p what conn)) :
      Moves s (.drop i) (s.setHandler i (.dropped conn))
  | count {id : Nat} {d : Dir} {n : Nat} :
      Moves s (.count id d n) { s with registry := s.registry.count id d n }

theorem moves_of_step {s t : Server} {e : Event} (hstep : s.step e = some t) : Moves s e t := by
  cases e with
  | spawn p what =>
      simp only [step] at hstep
      split at hstep
      · rename_i hp
        cases hstep
        exact .spawn hp
      · cases hstep
  | spawnUdp what =>
      cases hstep
      exact .spawnUdp
  | resume i o =>
      simp only [step] at hstep
      split at hstep
      · rename_i p what conn hpc
        have hopen := resume_isOpen p o
        split at hstep
        · rename_i q heq
          rw [heq] at hopen
          cases hstep
          exact .await hpc hopen
        · rename_i q heq
          rw [heq] at hopen
          cases hstep
          exact .openThen hpc hopen.1 hopen.2
        · rename_i heq
          rw [heq] at hopen
          cases hstep
          exact .finish hpc hopen
        · split at hstep
          · cases hstep
            exact .closeThen hpc
          · cases hstep
      · cases hstep
  | drop i =>
      simp only [step] at hstep
      split at hstep
      · rename_i p what conn hpc
        cases hstep
        exact .drop hpc
      · cases hstep
  | count id d n =>
      cases hstep
      exact .count

/-- How far the identifiers get. -/
theorem nextId_le {es : List Event} {s : Server} (hrun : machine.run initial es = some s) :
    s.registry.nextId ≤ 1 + es.length := by
  refine machine.run_le_add_length (fun s => s.registry.nextId) ?_ hrun
  intro s e t hstep
  cases moves_of_step hstep with
  | spawnUdp | openThen => exact Nat.le_refl _
  | _ => exact Nat.le_succ _

/-! ## The connections of the handlers -/

/-- The registered connection of a handler, and whether the handler has closed it. -/
def entry (h : Handler) : Option (ConnectionInfo × Bool) := h.conn.map fun c => (c, h.isEnded)

def conns (s : Server) : List (ConnectionInfo × Bool) := s.handlers.filterMap entry

end Server

/-- The registry knows these connections, those that are closed and those that are not, and no other
ones. -/
structure Ledger (r : Registry) (conns : List (ConnectionInfo × Bool)) : Prop where
  nodup : (conns.map fun x => x.1.id).Nodup
  known : ∀ x ∈ conns, x.1.id < r.nextId
  live : ∀ c, c ∈ r.live ↔ (c, false) ∈ conns
  events : ∀ x ∈ conns, r.openedEvents x.1.id = 1 ∧ r.closedEvents x.1.id = x.2.toNat
  unknown : ∀ id, (∀ x ∈ conns, x.1.id ≠ id) → r.openedEvents id = 0 ∧ r.closedEvents id = 0

namespace Ledger

variable {r : Registry} {conns conns' : List (ConnectionInfo × Bool)}

theorem perm (h : Ledger r conns) (hperm : conns'.Perm conns) : Ledger r conns' where
  nodup := (hperm.map _).nodup_iff.2 h.nodup
  known x hx := h.known x (hperm.mem_iff.1 hx)
  live c := (h.live c).trans hperm.mem_iff.symm
  events x hx := h.events x (hperm.mem_iff.1 hx)
  unknown id hid := h.unknown id fun x hx => hid x (hperm.mem_iff.2 hx)

/-- A connection that is opened is a new one. -/
theorem «open» (h : Ledger r conns) (what : Description) :
    Ledger (r.open what).1 (((r.open what).2, false) :: conns) where
  nodup := by
    rw [List.map_cons, List.nodup_cons]
    refine ⟨fun hmem => ?_, h.nodup⟩
    obtain ⟨x, hx, hid⟩ := List.mem_map.1 hmem
    have hlt := h.known x hx
    simp only [Registry.id_open] at hid
    omega
  known x hx := by
    rcases List.mem_cons.1 hx with rfl | hx
    · exact Nat.lt_succ_self _
    · exact Nat.lt_succ_of_lt (h.known x hx)
  live c := by
    rw [Registry.live_open, List.mem_append, List.mem_singleton, h.live, List.mem_cons, Prod.mk.injEq]
    simp [or_comm]
  events x hx := by
    rw [Registry.openedEvents_open, Registry.closedEvents_open]
    rcases List.mem_cons.1 hx with rfl | hx
    · have hnew := h.unknown r.nextId fun x hx => Nat.ne_of_lt (h.known x hx)
      simp [hnew.1, hnew.2]
    · have hne : r.nextId ≠ x.1.id := Nat.ne_of_gt (h.known x hx)
      rw [if_neg hne]
      exact h.events x hx
  unknown id hid := by
    rw [Registry.openedEvents_open, Registry.closedEvents_open]
    have hne : r.nextId ≠ id := hid _ List.mem_cons_self
    rw [if_neg hne]
    exact h.unknown id fun x hx => hid x (List.mem_cons_of_mem _ hx)

/-- A connection that is closed stays known as a closed one. -/
theorem close {info : ConnectionInfo} (h : Ledger r ((info, false) :: conns)) :
    Ledger (r.close info) ((info, true) :: conns) where
  nodup := h.nodup
  known x hx := by
    rcases List.mem_cons.1 hx with rfl | hx
    · exact h.known (info, false) List.mem_cons_self
    · exact h.known x (List.mem_cons_of_mem _ hx)
  live c := by
    have hnodup := List.nodup_cons.1 h.nodup
    rw [Registry.mem_live_close_iff, h.live, List.mem_cons, List.mem_cons]
    constructor
    · rintro ⟨heq | hmem, hne⟩
      · obtain ⟨rfl, -⟩ := Prod.mk.inj heq
        exact absurd rfl hne
      · exact Or.inr hmem
    · rintro (heq | hmem)
      · cases heq
      · refine ⟨Or.inr hmem, fun hid => hnodup.1 ?_⟩
        exact List.mem_map.2 ⟨(c, false), hmem, hid⟩
  events x hx := by
    have hnodup := List.nodup_cons.1 h.nodup
    rw [Registry.openedEvents_close, Registry.closedEvents_close]
    rcases List.mem_cons.1 hx with rfl | hx
    · obtain ⟨hopened, hclosed⟩ := h.events (info, false) List.mem_cons_self
      rw [if_pos rfl]
      exact ⟨hopened, by rw [hclosed]; rfl⟩
    · have hne : info.id ≠ x.1.id := fun hid =>
        hnodup.1 (List.mem_map.2 ⟨x, hx, hid.symm⟩)
      rw [if_neg hne]
      exact h.events x (List.mem_cons_of_mem _ hx)
  unknown id hid := by
    rw [Registry.openedEvents_close, Registry.closedEvents_close]
    have hne : info.id ≠ id := hid (info, true) List.mem_cons_self
    rw [if_neg hne]
    refine h.unknown id fun x hx => ?_
    rcases List.mem_cons.1 hx with rfl | hx
    · exact hne
    · exact hid x (List.mem_cons_of_mem _ hx)

/-- No connection is closed that was not opened, and none is opened or closed twice. -/
theorem events_le (h : Ledger r conns) (id : Nat) :
    r.closedEvents id ≤ r.openedEvents id ∧ r.openedEvents id ≤ 1 := by
  by_cases hid : ∃ x ∈ conns, x.1.id = id
  · obtain ⟨x, hx, rfl⟩ := hid
    obtain ⟨hopened, hclosed⟩ := h.events x hx
    rw [hopened, hclosed]
    exact ⟨Bool.toNat_le x.2, Nat.le_refl 1⟩
  · obtain ⟨hopened, hclosed⟩ := h.unknown id fun x hx hx' => hid ⟨x, hx, hx'⟩
    omega

end Ledger

namespace Server

/-- What holds in every state: the handlers account for the registry, and hold a connection at the
points between `open` and `close`. -/
structure Inv (s : Server) : Prop where
  ledger : Ledger s.registry s.conns
  point : ∀ (i : Nat) (p : Point) (what : Description) (conn : Option ConnectionInfo),
    s.handlers[i]? = some (.awaiting p what conn) → conn.isSome = p.isOpen

theorem inv_initial : Inv initial where
  ledger := {
    nodup := List.nodup_nil
    known x hx := nomatch hx
    live c := by simp [initial, Registry.new, conns]
    events x hx := nomatch hx
    unknown id _ := ⟨rfl, rfl⟩ }
  point i p what conn hi := by simp [initial] at hi

/-- Which entry a handler has before and after its step. -/
theorem conns_setHandler {s : Server} {i : Nat} {h : Handler} (h' : Handler)
    (hpc : s.handlers[i]? = some h) :
    ∃ l, s.conns.Perm ((entry h).toList ++ l) ∧
      (s.setHandler i h').conns.Perm ((entry h').toList ++ l) := by
  obtain ⟨l₁, l₂, hsplit, hset⟩ := exists_split hpc
  have hcons : ∀ b : Handler, ((l₁ ++ b :: l₂).filterMap entry).Perm
      ((entry b).toList ++ (l₁ ++ l₂).filterMap entry) := by
    intro b
    rw [List.filterMap_append, List.filterMap_cons, List.filterMap_append]
    cases entry b with
    | none => exact List.Perm.refl _
    | some x => exact List.perm_middle
  refine ⟨(l₁ ++ l₂).filterMap entry, ?_, ?_⟩
  · rw [conns, hsplit]
    exact hcons h
  · show ((s.handlers.set i h').filterMap entry).Perm _
    rw [hset]
    exact hcons h'

theorem point_setHandler {s : Server} {i : Nat} {h' : Handler} (registry : Registry) (hs : Inv s)
    (hpoint : ∀ p what conn, h' = .awaiting p what conn → conn.isSome = p.isOpen) (j : Nat)
    (p : Point) (what : Description) (conn : Option ConnectionInfo)
    (hj : ({ s.setHandler i h' with registry := registry } : Server).handlers[j]? =
      some (.awaiting p what conn)) : conn.isSome = p.isOpen := by
  rcases getElem?_set_eq_some hj with ⟨-, heq⟩ | ⟨-, hj⟩
  · exact hpoint p what conn heq.symm
  · exact hs.point j p what conn hj

/-- A step that neither opens nor closes a connection. -/
theorem Inv.replace {s : Server} {i : Nat} {h h' : Handler} (hs : Inv s)
    (hpc : s.handlers[i]? = some h) (hentry : entry h' = entry h)
    (hpoint : ∀ p what conn, h' = .awaiting p what conn → conn.isSome = p.isOpen) :
    Inv (s.setHandler i h') where
  ledger := by
    obtain ⟨l, hbefore, hafter⟩ := conns_setHandler h' hpc
    rw [hentry] at hafter
    exact hs.ledger.perm (hafter.trans hbefore.symm)
  point := point_setHandler s.registry hs hpoint

theorem Inv.openThen {s : Server} {i : Nat} {p q : Point} {what : Description}
    {conn : Option ConnectionInfo} (hs : Inv s)
    (hpc : s.handlers[i]? = some (.awaiting p what conn)) (hp : p.isOpen = false)
    (hq : q.isOpen = true) :
    Inv { s.setHandler i (.awaiting q what (some (s.registry.open what).2)) with
      registry := (s.registry.open what).1 } where
  ledger := by
    have hnone : conn = none := by
      have hconn := hs.point i p what conn hpc
      rw [hp] at hconn
      simpa using hconn
    subst hnone
    obtain ⟨l, hbefore, hafter⟩ :=
      conns_setHandler (.awaiting q what (some (s.registry.open what).2)) hpc
    exact ((hs.ledger.perm hbefore.symm).open what).perm hafter
  point := point_setHandler _ hs fun p what' conn' heq => by
    cases heq
    exact hq.symm

theorem Inv.closeThen {s : Server} {i : Nat} {p : Point} {what : Description}
    {info : ConnectionInfo} (hs : Inv s)
    (hpc : s.handlers[i]? = some (.awaiting p what (some info))) :
    Inv { s.setHandler i (.ended (some info)) with registry := s.registry.close info } where
  ledger := by
    obtain ⟨l, hbefore, hafter⟩ := conns_setHandler (.ended (some info)) hpc
    exact (Ledger.close (hs.ledger.perm hbefore.symm)).perm hafter
  point := point_setHandler _ hs fun p what' conn' heq => nomatch heq

theorem inv_step {s t : Server} {e : Event} (hs : Inv s) (hstep : s.step e = some t) : Inv t := by
  cases moves_of_step hstep with
  | @spawn p what hp =>
      refine ⟨?_, fun j q what' conn hj => ?_⟩
      · have hsame : ({ s with handlers := s.handlers ++ [.awaiting p what none] } : Server).conns =
            s.conns := by
          simp [conns, entry, Handler.conn]
        rw [hsame]
        exact hs.ledger
      · rcases getElem?_concat_eq_some hj with hj | ⟨-, heq⟩
        · exact hs.point j q what' conn hj
        · cases heq
          cases p <;> first | rfl | cases hp
  | @spawnUdp what =>
      refine ⟨?_, fun j q what' conn hj => ?_⟩
      · refine (hs.ledger.open what).perm ?_
        simp [conns, entry, Handler.conn, Handler.isEnded]
      · rcases getElem?_concat_eq_some hj with hj | ⟨-, heq⟩
        · exact hs.point j q what' conn hj
        · cases heq
          rfl
  | @await i o p q what conn hpc hq =>
      refine hs.replace hpc rfl fun p' what' conn' heq => ?_
      cases heq
      rw [hs.point i p what conn hpc, hq]
  | openThen hpc hp hq => exact hs.openThen hpc hp hq
  | @finish i o p what conn hpc hp =>
      have hconn := hs.point i p what conn hpc
      rw [hp] at hconn
      obtain rfl : conn = none := by simpa using hconn
      exact hs.replace hpc rfl fun p' what' conn' heq => nomatch heq
  | closeThen hpc => exact hs.closeThen hpc
  | drop hpc => exact hs.replace hpc rfl fun p' what' conn' heq => nomatch heq
  | count => exact ⟨⟨hs.ledger.nodup, hs.ledger.known, hs.ledger.live, hs.ledger.events,
      hs.ledger.unknown⟩, hs.point⟩

theorem inv_run {es : List Event} {s : Server} (hrun : machine.run initial es = some s) : Inv s :=
  machine.run_invariant Inv inv_step inv_initial hrun

/-! ## What the handlers leave behind -/

/-- Whoever is gone has closed its connection once, and the registry lists it no more; so when all are
gone, it lists none, and each `ConnectionOpened` has its `ConnectionClosed`. -/
structure Balanced (s : Server) : Prop where
  closed : ∀ (i : Nat) (h : Handler) (info : ConnectionInfo), s.handlers[i]? = some h →
    h.isGone = true → h.conn = some info →
      s.registry.openedEvents info.id = 1 ∧ s.registry.closedEvents info.id = 1 ∧
        ∀ c ∈ s.registry.liveConnections, c.id ≠ info.id
  drained : (∀ h ∈ s.handlers, h.isGone = true) →
    s.registry.liveConnections = [] ∧
      ∀ id, s.registry.openedEvents id = s.registry.closedEvents id

theorem Inv.mem_conns {s : Server} {i : Nat} {h : Handler} {info : ConnectionInfo}
    (hi : s.handlers[i]? = some h) (hinfo : h.conn = some info) :
    (info, h.isEnded) ∈ s.conns :=
  List.mem_filterMap.2 ⟨h, List.mem_of_getElem? hi, by simp [entry, hinfo]⟩

/-- Only what was dropped with its connection open is out of balance. -/
theorem Inv.balanced_iff_not_dropped {s : Server} (hs : Inv s) :
    s.Balanced ↔ ∀ (i : Nat) (info : ConnectionInfo),
      s.handlers[i]? ≠ some (.dropped (some info)) := by
  constructor
  · intro h i info hi
    obtain ⟨-, hclosed, -⟩ := h.closed i _ info hi rfl rfl
    have hnot := (hs.ledger.events _ (Inv.mem_conns hi rfl)).2
    rw [hclosed] at hnot
    cases hnot
  · intro hnone
    have hended : ∀ (i : Nat) (h : Handler) (info : ConnectionInfo), s.handlers[i]? = some h →
        h.isGone = true → h.conn = some info → h.isEnded = true := by
      intro i h info hi hgone hinfo
      cases h with
      | awaiting p what conn => cases hgone
      | ended conn => rfl
      | dropped conn =>
          obtain rfl : conn = some info := hinfo
          exact absurd hi (hnone i info)
    constructor
    · intro i h info hi hgone hinfo
      have hmem := Inv.mem_conns hi hinfo
      rw [hended i h info hi hgone hinfo] at hmem
      obtain ⟨hopened, hclosed⟩ := hs.ledger.events _ hmem
      refine ⟨hopened, hclosed, fun c hc hid => ?_⟩
      have hlive := (hs.ledger.live c).1 hc
      have heq := List.inj_on_of_nodup_map hs.ledger.nodup hlive hmem hid
      cases heq
    · intro hall
      have htrue : ∀ x ∈ s.conns, x.2 = true := by
        intro x hx
        obtain ⟨h, hmem, hentry⟩ := List.mem_filterMap.1 hx
        obtain ⟨info, hinfo, rfl⟩ := Option.map_eq_some_iff.1 hentry
        obtain ⟨i, hi⟩ := List.getElem?_of_mem hmem
        exact hended i h info hi (hall h hmem) hinfo
      refine ⟨List.eq_nil_iff_forall_not_mem.2 fun c hc => ?_, fun id => ?_⟩
      · have hfalse := htrue _ ((hs.ledger.live c).1 hc)
        cases hfalse
      · by_cases hid : ∃ x ∈ s.conns, x.1.id = id
        · obtain ⟨x, hx, rfl⟩ := hid
          obtain ⟨hopened, hclosed⟩ := hs.ledger.events x hx
          rw [hopened, hclosed, htrue x hx]
          rfl
        · obtain ⟨hopened, hclosed⟩ :=
            hs.ledger.unknown id fun x hx hx' => hid ⟨x, hx, hx'⟩
          rw [hopened, hclosed]

/-- The condition on a step: it does not drop a handler between its `open` and its `close`. -/
def NotDroppedOpen (s : Server) (e : Event) : Prop :=
  ∀ i p what conn, e = .drop i → s.handlers[i]? = some (.awaiting p what conn) → p.isOpen = false

theorem notDroppedOpen_iff {s : Server} {e : Event} (hs : Inv s)
    (hnone : ∀ (i : Nat) (info : ConnectionInfo), s.handlers[i]? ≠ some (.dropped (some info))) :
    NotDroppedOpen s e ↔ ∀ t, s.step e = some t →
      ∀ (i : Nat) (info : ConnectionInfo), t.handlers[i]? ≠ some (.dropped (some info)) := by
  constructor
  · intro hok t hstep i info hi
    cases moves_of_step hstep with
    | spawn hp => exact hnone i info (getElem?_of_concat hi (by simp))
    | spawnUdp => exact hnone i info (getElem?_of_concat hi (by simp))
    | await hpc hq => exact hnone i info (getElem?_of_set hi (by simp))
    | openThen hpc hp hq => exact hnone i info (getElem?_of_set hi (by simp))
    | finish hpc hp => exact hnone i info (getElem?_of_set hi (by simp))
    | closeThen hpc => exact hnone i info (getElem?_of_set hi (by simp))
    | @drop j p what conn hpc =>
        have hconn := hs.point j p what conn hpc
        rw [hok j p what conn rfl hpc] at hconn
        -- At this point the handler has no connection.
        exact hnone i info (getElem?_of_set hi (by rintro ⟨⟩; cases hconn))
    | count => exact hnone i info hi
  · rintro h i p what conn rfl hpc
    by_contra hopen
    have hconn := hs.point i p what conn hpc
    rw [Bool.not_eq_false] at hopen
    rw [hopen] at hconn
    obtain ⟨info, rfl⟩ := Option.isSome_iff_exists.1 hconn
    have hstep : s.step (.drop i) = some (s.setHandler i (.dropped (some info))) := by
      simp only [step, hpc]
    refine h _ hstep i info ?_
    simp [setHandler, (List.getElem?_eq_some_iff.1 hpc).1]

/-- **Opened and closed.**  In every run no connection is closed that was not opened, or more than once;
and the runs in which every connection of a handler that is gone has been closed are those in which none
is dropped between its `open` and its `close`. -/
theorem balanced_iff (es : List Event) :
    (∀ s, machine.run initial es = some s → ∀ id,
        s.registry.closedEvents id ≤ s.registry.openedEvents id ∧
          s.registry.openedEvents id ≤ 1)
      ∧ ((∀ fs s, fs <+: es → machine.run initial fs = some s → s.Balanced) ↔
          machine.Meets NotDroppedOpen initial es) := by
  refine ⟨fun s hrun => (inv_run hrun).ledger.events_le, ?_⟩
  refine machine.forall_reached_iff Inv inv_step (fun hs hbalanced => ?_) inv_initial
    (inv_initial.balanced_iff_not_dropped.2 fun i info hi => by simp [initial] at hi)
  rw [notDroppedOpen_iff hs (hs.balanced_iff_not_dropped.1 hbalanced)]
  exact forall₂_congr fun t hstep => (inv_step hs hstep).balanced_iff_not_dropped.symm

/-- A relay is dropped while it copies. -/
def relayDropped : List Event :=
  [.spawn .openStream ⟨"reverse:web", .tcp, "203.0.113.1:5", "B:web"⟩, .resume 0 .ok,
    .resume 0 .ok, .resume 0 .ok, .drop 0]

/-- Its connection stays in the registry for ever. -/
theorem dropped_relay : ¬∀ es s, machine.run initial es = some s → s.Balanced := by
  intro h
  have hend : (machine.run initial relayDropped).map
      (fun s => (s.handlers.all Handler.isGone, s.registry.live.length)) = some (true, 1) := by
    decide +kernel
  obtain ⟨s, hrun, hstate⟩ := Option.map_eq_some_iff.1 hend
  obtain ⟨hgone, hlive⟩ := Prod.mk.inj hstate
  have hnil := ((h relayDropped s hrun).drained (List.all_eq_true.1 hgone)).1
  rw [Registry.liveConnections] at hnil
  rw [hnil] at hlive
  cases hlive

end Server
end Stats
end Erbridge
