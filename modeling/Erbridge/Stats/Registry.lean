import Mathlib.Algebra.GroupWithZero.Nat
import Mathlib.Data.List.Nodup
import Mathlib.Logic.Function.Basic

/-!
# The registry of connections

The model of `stats.rs`: the live connections with their byte counters, the totals of the closed ones,
and the events that subscribers get.  Of a connection the times are left out, and of the events the log
and its file, which no other function reads.

* `ConnectionInfo`, `Event`, `Registry` — the data; `bytes` are the counters that the clones of a
  `ConnectionInfo` share.
* `Registry.open`, `Registry.close`, `Registry.totals` — the three calls, each in one piece.
* `mem_live_close_iff`, `live_open` — what they do to the list of the live connections.
-/

namespace Erbridge
namespace Stats

inductive Protocol
  | tcp
  | udp
deriving DecidableEq

/-- The two byte counters of a connection. -/
inductive Dir
  | bytesIn
  | bytesOut
deriving DecidableEq

/-- What a connection is registered as. -/
structure Description where
  label : String
  protocol : Protocol
  source : String
  destination : String
deriving DecidableEq

/-- The handle that `open` returns. -/
structure ConnectionInfo extends Description where
  id : Nat
deriving DecidableEq

inductive Event
  | connectionOpened (info : ConnectionInfo)
  | connectionClosed (info : ConnectionInfo) (bytesIn bytesOut : Nat)
  | info (message : String)
  | error (message : String)
deriving DecidableEq

structure Totals where
  liveConnections : Nat
  totalConnections : Nat
  bytesIn : Nat
  bytesOut : Nat
deriving DecidableEq

def Totals.bytes (t : Totals) : Dir → Nat
  | .bytesIn => t.bytesIn
  | .bytesOut => t.bytesOut

/-- Addition on a `u64`. -/
def addU64 (a b : Nat) : Nat := (a + b) % 2 ^ 64

/-- `iter().sum()` on `u64`s. -/
def sumU64 (values : List Nat) : Nat := values.foldl addU64 0

/-- `Inner`.  Identifiers and numbers of connections are `AtomicU64`s in the code; `Server.nextId_le` and
`Traffic.numbers_le` say that a run has to have `2 ^ 64 - 1` steps before one of them wraps. -/
structure Registry where
  nextId : Nat
  /-- `total_bytes_in` and `total_bytes_out`. -/
  totalBytes : Dir → Nat
  totalConnections : Nat
  live : List ConnectionInfo
  /-- Everything that was sent to the subscribers. -/
  events : List Event
  /-- `bytes_in` and `bytes_out` of the connection with this identifier. -/
  bytes : Nat → Dir → Nat

namespace Registry

def new : Registry where
  nextId := 1
  totalBytes := fun _ => 0
  totalConnections := 0
  live := []
  events := []
  bytes := fun _ _ => 0

def pushEvent (r : Registry) (e : Event) : Registry := { r with events := r.events ++ [e] }

/-- `bytes_in.fetch_add(n)` or `bytes_out.fetch_add(n)` on a handle. -/
def count (r : Registry) (id : Nat) (d : Dir) (n : Nat) : Registry :=
  let counters := Function.update (r.bytes id) d (addU64 (r.bytes id d) n)
  { r with bytes := Function.update r.bytes id counters }

/-- Register a new connection and emit its `ConnectionOpened` event. -/
def «open» (r : Registry) (what : Description) : Registry × ConnectionInfo :=
  let info : ConnectionInfo := { what with id := r.nextId }
  ({ r with
      nextId := r.nextId + 1
      totalConnections := r.totalConnections + 1
      live := r.live ++ [info] }.pushEvent (.connectionOpened info), info)

/-- `total_bytes_in.fetch_add(n)` or `total_bytes_out.fetch_add(n)`. -/
def addTotal (r : Registry) (d : Dir) (n : Nat) : Registry :=
  { r with totalBytes := Function.update r.totalBytes d (addU64 (r.totalBytes d) n) }

/-- `live.lock().unwrap().retain(|c| c.id != info.id)`. -/
def retain (r : Registry) (info : ConnectionInfo) : Registry :=
  { r with live := r.live.filter fun c => c.id ≠ info.id }

def close (r : Registry) (info : ConnectionInfo) : Registry :=
  let bytesIn := r.bytes info.id .bytesIn
  let bytesOut := r.bytes info.id .bytesOut
  let r := r.addTotal .bytesIn bytesIn
  let r := r.addTotal .bytesOut bytesOut
  (r.retain info).pushEvent (.connectionClosed info bytesIn bytesOut)

def liveConnections (r : Registry) : List ConnectionInfo := r.live

def totals (r : Registry) : Totals where
  liveConnections := r.live.length
  totalConnections := r.totalConnections
  bytesIn := addU64 (r.totalBytes .bytesIn) (sumU64 (r.live.map fun c => r.bytes c.id .bytesIn))
  bytesOut := addU64 (r.totalBytes .bytesOut) (sumU64 (r.live.map fun c => r.bytes c.id .bytesOut))

/-- The `ConnectionOpened` events of a connection. -/
def openedEvents (r : Registry) (id : Nat) : Nat :=
  r.events.countP fun
    | .connectionOpened info => info.id = id
    | _ => false

/-- The `ConnectionClosed` events of a connection. -/
def closedEvents (r : Registry) (id : Nat) : Nat :=
  r.events.countP fun
    | .connectionClosed info _ _ => info.id = id
    | _ => false

theorem openedEvents_open (r : Registry) (what : Description) (id : Nat) :
    (r.open what).1.openedEvents id = r.openedEvents id + if r.nextId = id then 1 else 0 := by
  simp [Registry.open, pushEvent, openedEvents]

theorem closedEvents_open (r : Registry) (what : Description) (id : Nat) :
    (r.open what).1.closedEvents id = r.closedEvents id := by
  simp [Registry.open, pushEvent, closedEvents]

theorem openedEvents_close (r : Registry) (info : ConnectionInfo) (id : Nat) :
    (r.close info).openedEvents id = r.openedEvents id := by
  simp [close, addTotal, retain, pushEvent, openedEvents]

theorem closedEvents_close (r : Registry) (info : ConnectionInfo) (id : Nat) :
    (r.close info).closedEvents id = r.closedEvents id + if info.id = id then 1 else 0 := by
  simp [close, addTotal, retain, pushEvent, closedEvents]

@[simp] theorem nextId_open (r : Registry) (what : Description) :
    (r.open what).1.nextId = r.nextId + 1 := rfl

@[simp] theorem id_open (r : Registry) (what : Description) : (r.open what).2.id = r.nextId := rfl

@[simp] theorem live_open (r : Registry) (what : Description) :
    (r.open what).1.live = r.live ++ [(r.open what).2] := rfl

@[simp] theorem nextId_close (r : Registry) (info : ConnectionInfo) :
    (r.close info).nextId = r.nextId := rfl

theorem mem_live_close_iff {r : Registry} {info c : ConnectionInfo} :
    c ∈ (r.close info).live ↔ c ∈ r.live ∧ c.id ≠ info.id := by
  simp [close, addTotal, retain, pushEvent]

theorem totalBytes_addTotal (r : Registry) (d e : Dir) (n : Nat) :
    (r.addTotal d n).totalBytes e = if e = d then addU64 (r.totalBytes d) n else r.totalBytes e :=
  Function.update_apply ..

end Registry
end Stats
end Erbridge
