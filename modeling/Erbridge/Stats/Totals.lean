import Erbridge.Core.Machine
import Erbridge.Core.Tally
import Erbridge.Stats.Registry

/-!
# Totals while connections come and go

`Registry::open`, `close` and `totals` in their single steps: each load and each addition of a counter,
and each section under the lock of `live`.  Any number of calls take them in any order, and the copy
loops count bytes in between.  `close` adds the bytes of its connection to the totals in one step and
takes the connection off the list in a later one; `totals` sums both while it holds the lock of the list
only.

* `Call`, `Traffic.step` — the calls in progress and their steps.
* `Traffic.Settled` — no close has added bytes of a connection that is still on the list.
* `Traffic.Careful` — the condition on a step under which the totals are right.
* `Traffic.Consistent` — what is asked of the reports.
* `Traffic.moves_of_step` — what each event needs and does.
* `Traffic.run_open`, `Traffic.run_close`, `Traffic.run_totals` — undisturbed, the steps of a call are the
  call in one piece.
-/

namespace Erbridge
namespace Stats

/-- Where an `open` is: which step it has made last. -/
inductive OpenStage
  | numbered
  | counted
  | pushed
  | opened
deriving DecidableEq

/-- Where a `close` is, with what it has loaded. -/
inductive CloseStage
  | loadedIn (bytesIn : Nat)
  | loaded (bytesIn bytesOut : Nat)
  | addedIn (bytesIn bytesOut : Nat)
  | added (bytesIn bytesOut : Nat)
  | removed (bytesIn bytesOut : Nat)
  | closed (bytesIn bytesOut : Nat)
deriving DecidableEq

/-- Where a `totals` is.  It holds the lock of `live` until it has its result. -/
inductive TotalsStage
  /-- The connections still to be looked at, and the sum of those before. -/
  | summingIn (rest : List ConnectionInfo) (sum : Nat)
  | summingOut (rest : List ConnectionInfo) (sumIn sum : Nat)
  | summed (sumIn sumOut : Nat)
  | counted (connections sumIn sumOut : Nat)
  | loadedIn (connections bytesIn sumOut : Nat)
  | reported (t : Totals)
deriving DecidableEq

/-- A call that has made its first step. -/
inductive Call
  | opening (info : ConnectionInfo) (stage : OpenStage)
  | closing (info : ConnectionInfo) (stage : CloseStage)
  | totals (stage : TotalsStage)
deriving DecidableEq

/-- The one of the two values that belongs to the direction. -/
def pick (d : Dir) (bytesIn bytesOut : Nat) : Nat :=
  match d with
  | .bytesIn => bytesIn
  | .bytesOut => bytesOut

namespace Call

def opens : Call → Option ConnectionInfo
  | .opening info _ => some info
  | _ => none

def closes : Call → Option ConnectionInfo
  | .closing info _ => some info
  | _ => none

/-- The connection that the call opens. -/
def openId (call : Call) : Option Nat := call.opens.map ConnectionInfo.id

/-- The connection that the call closes. -/
def closeId (call : Call) : Option Nat := call.closes.map ConnectionInfo.id

/-- The connection is on the list, or was. -/
def isPushed : Call → Bool
  | .opening _ .pushed | .opening _ .opened => true
  | _ => false

/-- `open` has returned its handle. -/
def isOpened : Call → Bool
  | .opening _ .opened => true
  | _ => false

/-- `close` has taken its connection off the list. -/
def hasRemoved : Call → Bool
  | .closing _ (.removed _ _) | .closing _ (.closed _ _) => true
  | _ => false

/-- What a `close` has loaded of a counter. -/
def loadedBytes (d : Dir) : Call → Option Nat
  | .closing _ (.loadedIn bytesIn) =>
      match d with
      | .bytesIn => some bytesIn
      | .bytesOut => none
  | .closing _ (.loaded i o) | .closing _ (.addedIn i o) | .closing _ (.added i o)
  | .closing _ (.removed i o) | .closing _ (.closed i o) => some (pick d i o)
  | _ => none

/-- What a `close` has added to a total. -/
def addedBytes (d : Dir) : Call → Nat
  | .closing _ (.addedIn i _) => pick d i 0
  | .closing _ (.added i o) | .closing _ (.removed i o) | .closing _ (.closed i o) => pick d i o
  | _ => 0

/-- What a `close` has added to a total for a connection that is off the list. -/
def removedBytes (d : Dir) : Call → Nat
  | .closing _ (.removed i o) | .closing _ (.closed i o) => pick d i o
  | _ => 0

/-- A `totals` that holds the lock. -/
def isReading : Call → Bool
  | .totals (.reported _) => false
  | .totals _ => true
  | _ => false

/-- How far a `totals` is with the sum over the list: the sum so far and what is still to come. -/
def view (live : List ConnectionInfo) (d : Dir) : Call → Option (Nat × List ConnectionInfo)
  | .totals (.summingIn rest sum) =>
      match d with
      | .bytesIn => some (sum, rest)
      | .bytesOut => some (0, live)
  | .totals (.summingOut rest sumIn sum) =>
      match d with
      | .bytesIn => some (sumIn, [])
      | .bytesOut => some (sum, rest)
  | .totals (.summed i o) | .totals (.counted _ i o) => some (pick d i o, [])
  | .totals (.loadedIn _ _ o) =>
      match d with
      | .bytesIn => none
      | .bytesOut => some (o, [])
  | _ => none

/-- What a `totals` is going to report, where it has that already. -/
def result (d : Dir) : Call → Option Nat
  | .totals (.loadedIn _ i _) =>
      match d with
      | .bytesIn => some i
      | .bytesOut => none
  | _ => none

/-- The total that a `totals` loads in its next step. -/
def loadsTotal : Call → Option Dir
  | .totals (.counted _ _ _) => some .bytesIn
  | .totals (.loadedIn _ _ _) => some .bytesOut
  | _ => none

/-- The call has returned. -/
def isDone : Call → Bool
  | .opening _ .opened | .closing _ (.closed _ _) | .totals (.reported _) => true
  | _ => false

end Call

/-- The registry and the calls on it. -/
structure Traffic where
  registry : Registry
  calls : List Call
  /-- The `totals` that holds the lock of `live`. -/
  lock : Option Nat
  /-- What the `totals` have returned, in order. -/
  reports : List Totals

namespace Traffic

open Erbridge.Core (Machine)

def initial : Traffic := ⟨.new, [], none, []⟩

inductive Event
  /-- An `open` begins: `next_id.fetch_add(1)`. -/
  | «open» (what : Description)
  /-- A `close` begins: `bytes_in.load()`. -/
  | close (info : ConnectionInfo)
  /-- A `totals` begins: `live.lock()`. -/
  | totals
  /-- A copy loop adds to one of the counters of a handle. -/
  | count (id : Nat) (d : Dir) (n : Nat)
  /-- A call makes its next step. -/
  | next (c : Nat)
deriving DecidableEq

def setCall (s : Traffic) (c : Nat) (call : Call) (r : Registry) : Traffic :=
  { s with registry := r, calls := s.calls.set c call }

/-- Somebody holds a handle of this connection. -/
def HasHandle (s : Traffic) (id : Nat) : Prop :=
  ∃ call ∈ s.calls, call.isOpened = true ∧ call.openId = some id

/-- Somebody has begun to close this connection. -/
def IsClosing (s : Traffic) (id : Nat) : Prop :=
  ∃ call ∈ s.calls, call.closeId = some id

instance (s : Traffic) (id : Nat) : Decidable (s.HasHandle id) :=
  inferInstanceAs (Decidable (∃ call ∈ s.calls, _))

instance (s : Traffic) (id : Nat) : Decidable (s.IsClosing id) :=
  inferInstanceAs (Decidable (∃ call ∈ s.calls, _))

/-- The next step of a call. -/
def advance (s : Traffic) (c : Nat) : Call → Option Traffic
  | .opening info .numbered =>
      some (s.setCall c (.opening info .counted)
        { s.registry with totalConnections := s.registry.totalConnections + 1 })
  -- `live` is locked for the `push` alone, and so for the `retain` below.
  | .opening info .counted =>
      if s.lock = none then
        some (s.setCall c (.opening info .pushed)
          { s.registry with live := s.registry.live ++ [info] })
      else none
  | .opening info .pushed =>
      some (s.setCall c (.opening info .opened) (s.registry.pushEvent (.connectionOpened info)))
  | .opening _ .opened => none
  | .closing info (.loadedIn i) =>
      some (s.setCall c (.closing info (.loaded i (s.registry.bytes info.id .bytesOut))) s.registry)
  | .closing info (.loaded i o) =>
      some (s.setCall c (.closing info (.addedIn i o)) (s.registry.addTotal .bytesIn i))
  | .closing info (.addedIn i o) =>
      some (s.setCall c (.closing info (.added i o)) (s.registry.addTotal .bytesOut o))
  | .closing info (.added i o) =>
      if s.lock = none then
        some (s.setCall c (.closing info (.removed i o)) (s.registry.retain info))
      else none
  | .closing info (.removed i o) =>
      some (s.setCall c (.closing info (.closed i o))
        (s.registry.pushEvent (.connectionClosed info i o)))
  | .closing _ (.closed _ _) => none
  | .totals (.summingIn (x :: rest) sum) =>
      some (s.setCall c (.totals (.summingIn rest (addU64 sum (s.registry.bytes x.id .bytesIn))))
        s.registry)
  -- The second sum goes through the same list, but through the counters as they are by then.
  | .totals (.summingIn [] sum) =>
      some (s.setCall c (.totals (.summingOut s.registry.live sum 0)) s.registry)
  | .totals (.summingOut (x :: rest) sumIn sum) =>
      some (s.setCall c
        (.totals (.summingOut rest sumIn (addU64 sum (s.registry.bytes x.id .bytesOut))))
        s.registry)
  | .totals (.summingOut [] sumIn sum) =>
      some (s.setCall c (.totals (.summed sumIn sum)) s.registry)
  | .totals (.summed i o) =>
      some (s.setCall c (.totals (.counted s.registry.totalConnections i o)) s.registry)
  | .totals (.counted n i o) =>
      some (s.setCall c (.totals (.loadedIn n (addU64 (s.registry.totalBytes .bytesIn) i) o))
        s.registry)
  | .totals (.loadedIn n i o) =>
      let t : Totals := {
        liveConnections := s.registry.live.length
        totalConnections := n
        bytesIn := i
        bytesOut := addU64 (s.registry.totalBytes .bytesOut) o }
      some { s.setCall c (.totals (.reported t)) s.registry with
        lock := none
        reports := s.reports ++ [t] }
  | .totals (.reported _) => none

/-- A handle is closed once: each handler does so when it ends. -/
def step (s : Traffic) : Event → Option Traffic
  | .open what =>
      let info : ConnectionInfo := { what with id := s.registry.nextId }
      some { s with
        registry := { s.registry with nextId := s.registry.nextId + 1 }
        calls := s.calls ++ [.opening info .numbered] }
  | .close info =>
      if .opening info .opened ∈ s.calls ∧ ¬s.IsClosing info.id then
        let bytesIn := s.registry.bytes info.id .bytesIn
        some { s with calls := s.calls ++ [.closing info (.loadedIn bytesIn)] }
      else none
  | .totals =>
      if s.lock = none then
        some { s with
          calls := s.calls ++ [.totals (.summingIn s.registry.live 0)]
          lock := some s.calls.length }
      else none
  | .count id d n =>
      if s.HasHandle id then some { s with registry := s.registry.count id d n } else none
  | .next c =>
      match s.calls[c]? with
      | some call => s.advance c call
      | none => none

def machine : Machine Traffic Event where
  step := step

/-- The bytes counted so far on all connections. -/
def counted (s : Traffic) (d : Dir) : Nat :=
  ((List.range s.registry.nextId).map fun id => s.registry.bytes id d).sum

/-- The bytes of some connections. -/
def sumOf (s : Traffic) (l : List ConnectionInfo) (d : Dir) : Nat :=
  (l.map fun x => s.registry.bytes x.id d).sum

/-- The bytes of the connections on the list. -/
def liveSum (s : Traffic) (d : Dir) : Nat := s.sumOf s.registry.live d

def liveIds (s : Traffic) : List Nat := s.registry.live.map ConnectionInfo.id

/-- What the closes have added. -/
def added (s : Traffic) (d : Dir) : Nat := (s.calls.map (Call.addedBytes d)).sum

/-- What they have added for connections that are off the list. -/
def removed (s : Traffic) (d : Dir) : Nat := (s.calls.map (Call.removedBytes d)).sum

/-- No close has added bytes of a connection that is still on the list. -/
def Settled (s : Traffic) (d : Dir) : Prop :=
  ∀ call ∈ s.calls, call.addedBytes d = call.removedBytes d

/-- The condition on a step.  Bytes are counted on a connection only before its close has loaded the
counter, and not so many that a counter wraps; and a total is loaded only while no connection on the list
has had its bytes added to it. -/
def Careful (s : Traffic) : Event → Prop
  | .count id d n => s.counted d + n < 2 ^ 64 ∧
      (0 < n → ∀ call ∈ s.calls, call.closeId = some id →
        call.loadedBytes d = none)
  | .next c => ∀ call ∈ s.calls[c]?, ∀ d ∈ call.loadsTotal, s.Settled d
  | .open _ | .close _ | .totals => True

instance (s : Traffic) (d : Dir) : Decidable (s.Settled d) :=
  inferInstanceAs (Decidable (∀ call ∈ s.calls, _))

instance (s : Traffic) : ∀ e, Decidable (s.Careful e)
  | .count _ _ _ => inferInstanceAs (Decidable (_ ∧ _))
  | .next c => inferInstanceAs (Decidable (∀ call ∈ s.calls[c]?, _))
  | .open _ | .close _ | .totals => isTrue trivial

/-- What `totals` reports is never too much, never shrinks, and is exact when no call is in progress. -/
structure Consistent (s : Traffic) : Prop where
  bounded : ∀ t ∈ s.reports, ∀ d, t.bytes d ≤ s.counted d
  monotone : s.reports.Pairwise fun t u => ∀ d, t.bytes d ≤ u.bytes d
  quiet : (∀ call ∈ s.calls, call.isDone = true) → ∀ d, s.registry.totals.bytes d = s.counted d

/-- For everybody but the call itself, a call that goes from `a` to `b` does nothing. -/
structure Alike (live : List ConnectionInfo) (a b : Call) : Prop where
  openId : b.openId = a.openId
  closeId : b.closeId = a.closeId
  isPushed : b.isPushed = a.isPushed
  isOpened : b.isOpened = a.isOpened
  hasRemoved : b.hasRemoved = a.hasRemoved
  loaded : ∀ d, b.loadedBytes d = a.loadedBytes d
  added : ∀ d, b.addedBytes d = a.addedBytes d
  removed : ∀ d, b.removedBytes d = a.removedBytes d
  isReading : b.isReading = a.isReading
  view : ∀ d, b.view live d = a.view live d
  result : ∀ d, b.result d = a.result d

/-- What each event needs and does. -/
inductive Moves (s : Traffic) : Event → Traffic → Prop
  | openStart {what : Description} :
      Moves s (.open what) { s with
        registry := { s.registry with nextId := s.registry.nextId + 1 }
        calls := s.calls ++ [.opening { what with id := s.registry.nextId } .numbered] }
  | closeStart {info : ConnectionInfo} (hopen : .opening info .opened ∈ s.calls)
      (hclose : ¬s.IsClosing info.id) :
      Moves s (.close info) { s with
        calls := s.calls ++ [.closing info (.loadedIn (s.registry.bytes info.id .bytesIn))] }
  | totalsStart (hlock : s.lock = none) :
      Moves s .totals { s with
        calls := s.calls ++ [.totals (.summingIn s.registry.live 0)]
        lock := some s.calls.length }
  | count {id n : Nat} {d : Dir} (hhandle : s.HasHandle id) :
      Moves s (.count id d n) { s with registry := s.registry.count id d n }
  | quiet {c : Nat} {a b : Call} {r : Registry} (hpc : s.calls[c]? = some a)
      (halike : Alike s.registry.live a b) (hnext : r.nextId = s.registry.nextId)
      (hlive : r.live = s.registry.live) (hbytes : r.bytes = s.registry.bytes)
      (htotal : r.totalBytes = s.registry.totalBytes) :
      Moves s (.next c) (s.setCall c b r)
  | push {c : Nat} {info : ConnectionInfo} (hpc : s.calls[c]? = some (.opening info .counted))
      (hlock : s.lock = none) :
      Moves s (.next c) (s.setCall c (.opening info .pushed)
        { s.registry with live := s.registry.live ++ [info] })
  | opened {c : Nat} {info : ConnectionInfo} (hpc : s.calls[c]? = some (.opening info .pushed)) :
      Moves s (.next c) (s.setCall c (.opening info .opened)
        (s.registry.pushEvent (.connectionOpened info)))
  | loadOut {c i : Nat} {info : ConnectionInfo}
      (hpc : s.calls[c]? = some (.closing info (.loadedIn i))) :
      Moves s (.next c) (s.setCall c
        (.closing info (.loaded i (s.registry.bytes info.id .bytesOut))) s.registry)
  | add {c i o : Nat} {d : Dir} {info : ConnectionInfo} {before after : CloseStage}
      (hpc : s.calls[c]? = some (.closing info before))
      (hstage : (before = .loaded i o ∧ after = .addedIn i o ∧ d = .bytesIn) ∨
        (before = .addedIn i o ∧ after = .added i o ∧ d = .bytesOut)) :
      Moves s (.next c) (s.setCall c (.closing info after) (s.registry.addTotal d (pick d i o)))
  | retain {c i o : Nat} {info : ConnectionInfo}
      (hpc : s.calls[c]? = some (.closing info (.added i o))) (hlock : s.lock = none) :
      Moves s (.next c) (s.setCall c (.closing info (.removed i o)) (s.registry.retain info))
  | sum {c sum : Nat} {d : Dir} {x : ConnectionInfo} {rest : List ConnectionInfo} {a b : TotalsStage}
      (hpc : s.calls[c]? = some (.totals a)) (hreading : (Call.totals b).isReading = true)
      (hbefore : (Call.totals a).view s.registry.live d = some (sum, x :: rest))
      (hafter : (Call.totals b).view s.registry.live d =
        some (addU64 sum (s.registry.bytes x.id d), rest))
      (hother : ∀ e, e ≠ d →
        (Call.totals b).view s.registry.live e = (Call.totals a).view s.registry.live e)
      (hresult : ∀ e, (Call.totals b).result e = none) :
      Moves s (.next c) (s.setCall c (.totals b) s.registry)
  | loadTotalIn {c n i o : Nat} (hpc : s.calls[c]? = some (.totals (.counted n i o))) :
      Moves s (.next c) (s.setCall c
        (.totals (.loadedIn n (addU64 (s.registry.totalBytes .bytesIn) i) o)) s.registry)
  | report {c n i o : Nat} {t : Totals} (hpc : s.calls[c]? = some (.totals (.loadedIn n i o)))
      (hin : t.bytesIn = i) (hout : t.bytesOut = addU64 (s.registry.totalBytes .bytesOut) o) :
      Moves s (.next c) { s.setCall c (.totals (.reported t)) s.registry with
        lock := none
        reports := s.reports ++ [t] }

theorem moves_advance {s t : Traffic} {c : Nat} {call : Call} (hpc : s.calls[c]? = some call)
    (h : s.advance c call = some t) : Moves s (.next c) t := by
  cases call with
  | opening info stage =>
      cases stage with
      | numbered =>
          cases h
          exact Moves.quiet hpc ⟨rfl, rfl, rfl, rfl, rfl, fun _ => rfl, fun _ => rfl, fun _ => rfl, rfl,
            fun _ => rfl, fun _ => rfl⟩ rfl rfl rfl rfl
      | counted =>
          obtain ⟨hlock, ⟨⟩⟩ := Option.ite_none_right_eq_some.1 h
          exact Moves.push hpc hlock
      | pushed =>
          cases h
          exact Moves.opened hpc
      | opened => cases h
  | closing info stage =>
      cases stage with
      | loadedIn i =>
          cases h
          exact Moves.loadOut hpc
      | loaded i o =>
          cases h
          exact Moves.add hpc (Or.inl ⟨rfl, rfl, rfl⟩)
      | addedIn i o =>
          cases h
          exact Moves.add hpc (Or.inr ⟨rfl, rfl, rfl⟩)
      | added i o =>
          obtain ⟨hlock, ⟨⟩⟩ := Option.ite_none_right_eq_some.1 h
          exact Moves.retain hpc hlock
      | removed i o =>
          cases h
          exact Moves.quiet hpc ⟨rfl, rfl, rfl, rfl, rfl, fun _ => rfl, fun _ => rfl, fun _ => rfl, rfl,
            fun _ => rfl, fun _ => rfl⟩ rfl rfl rfl rfl
      | closed i o => cases h
  | totals stage =>
      cases stage with
      | summingIn rest sum =>
          cases rest with
          | nil =>
              cases h
              refine Moves.quiet hpc ⟨rfl, rfl, rfl, rfl, rfl, fun _ => rfl, fun _ => rfl, fun _ => rfl, rfl,
                fun d => ?_, fun _ => rfl⟩ rfl rfl rfl rfl
              cases d <;> rfl
          | cons x rest =>
              cases h
              refine Moves.sum hpc rfl (d := .bytesIn) rfl rfl (fun e he => ?_) fun _ => rfl
              cases e with
              | bytesIn => exact absurd rfl he
              | bytesOut => rfl
      | summingOut rest sumIn sum =>
          cases rest with
          | nil =>
              cases h
              refine Moves.quiet hpc ⟨rfl, rfl, rfl, rfl, rfl, fun _ => rfl, fun _ => rfl, fun _ => rfl, rfl,
                fun d => ?_, fun _ => rfl⟩ rfl rfl rfl rfl
              cases d <;> rfl
          | cons x rest =>
              cases h
              refine Moves.sum hpc rfl (d := .bytesOut) rfl rfl (fun e he => ?_) fun _ => rfl
              cases e with
              | bytesIn => rfl
              | bytesOut => exact absurd rfl he
      | summed i o =>
          cases h
          exact Moves.quiet hpc ⟨rfl, rfl, rfl, rfl, rfl, fun _ => rfl, fun _ => rfl, fun _ => rfl, rfl,
            fun _ => rfl, fun _ => rfl⟩ rfl rfl rfl rfl
      | counted n i o =>
          cases h
          exact Moves.loadTotalIn hpc
      | loadedIn n i o =>
          cases h
          exact Moves.report hpc rfl rfl
      | reported t => cases h

theorem moves_of_step {s t : Traffic} {e : Event} (h : machine.step s e = some t) : Moves s e t := by
  cases e with
  | «open» what =>
      cases h
      exact Moves.openStart
  | close info =>
      obtain ⟨⟨hopen, hclose⟩, ⟨⟩⟩ := Option.ite_none_right_eq_some.1 h
      exact Moves.closeStart hopen hclose
  | totals =>
      obtain ⟨hlock, ⟨⟩⟩ := Option.ite_none_right_eq_some.1 h
      exact Moves.totalsStart hlock
  | count id d n =>
      obtain ⟨hhandle, ⟨⟩⟩ := Option.ite_none_right_eq_some.1 h
      exact Moves.count hhandle
  | next c =>
      simp only [machine, step] at h
      cases hpc : s.calls[c]? with
      | none => simp [hpc] at h
      | some call =>
          simp only [hpc] at h
          exact moves_advance hpc h

/-! ### The numbers -/

theorem numbers_advance {s t : Traffic} {c : Nat} {call : Call} (h : s.advance c call = some t) :
    t.registry.nextId = s.registry.nextId
      ∧ t.registry.totalConnections ≤ s.registry.totalConnections + 1 := by
  revert h
  fun_cases advance s c call with
  | case1 =>
      rintro ⟨⟩
      exact ⟨rfl, Nat.le_refl _⟩
  | case3 | case5 | case10 | case12 | case20 => rintro ⟨⟩
  | _ =>
      rintro ⟨⟩
      exact ⟨rfl, Nat.le_succ _⟩

/-- A step moves neither of the two numbers by more than one. -/
theorem numbers_step {s t : Traffic} {e : Event} (h : machine.step s e = some t) :
    t.registry.nextId ≤ s.registry.nextId + 1
      ∧ t.registry.totalConnections ≤ s.registry.totalConnections + 1 := by
  cases e with
  | «open» what =>
      cases h
      exact ⟨Nat.le_refl _, Nat.le_succ _⟩
  | close info =>
      obtain ⟨-, ⟨⟩⟩ := Option.ite_none_right_eq_some.1 h
      exact ⟨Nat.le_succ _, Nat.le_succ _⟩
  | totals =>
      obtain ⟨-, ⟨⟩⟩ := Option.ite_none_right_eq_some.1 h
      exact ⟨Nat.le_succ _, Nat.le_succ _⟩
  | count id d n =>
      obtain ⟨-, ⟨⟩⟩ := Option.ite_none_right_eq_some.1 h
      exact ⟨Nat.le_succ _, Nat.le_succ _⟩
  | next c =>
      simp only [machine, step] at h
      cases hpc : s.calls[c]? with
      | none => simp [hpc] at h
      | some call =>
          simp only [hpc] at h
          obtain ⟨hnext, htotal⟩ := numbers_advance h
          exact ⟨hnext ▸ Nat.le_succ _, htotal⟩

/-- How far they get. -/
theorem numbers_le {es : List Event} {s : Traffic} (hrun : machine.run initial es = some s) :
    s.registry.nextId ≤ 1 + es.length ∧ s.registry.totalConnections ≤ es.length := by
  have htotal := machine.run_le_add_length (fun s => s.registry.totalConnections)
    (fun hstep => (numbers_step hstep).2) hrun
  have hzero : initial.registry.totalConnections = 0 := rfl
  rw [hzero, Nat.zero_add] at htotal
  exact ⟨machine.run_le_add_length (fun s => s.registry.nextId)
    (fun hstep => (numbers_step hstep).1) hrun, htotal⟩

/-! ### A call by itself -/

/-- Undisturbed, the steps of an `open` are the call in one piece. -/
theorem run_open (s : Traffic) (what : Description) (hlock : s.lock = none) :
    machine.run s (.open what :: List.replicate 3 (.next s.calls.length)) =
      some { s with
        registry := (s.registry.open what).1
        calls := s.calls ++ [.opening (s.registry.open what).2 .opened] } := by
  simp [Machine.run, machine, step, advance, setCall, hlock, Registry.open, List.replicate]

theorem run_close (s : Traffic) (info : ConnectionInfo) (hlock : s.lock = none)
    (hopen : .opening info .opened ∈ s.calls) (hclose : ¬s.IsClosing info.id) :
    machine.run s (.close info :: List.replicate 5 (.next s.calls.length)) =
      some { s with
        registry := s.registry.close info
        calls := s.calls ++ [.closing info
          (.closed (s.registry.bytes info.id .bytesIn) (s.registry.bytes info.id .bytesOut))] } := by
  simp [Machine.run, machine, step, advance, setCall, hlock, hopen, hclose, Registry.close, List.replicate]

/-- A `totals` is under way, and nobody else. -/
def reading (s : Traffic) (stage : TotalsStage) : Traffic :=
  { s with
    calls := s.calls ++ [.totals stage]
    lock := some s.calls.length }

theorem step_reading (s : Traffic) (stage : TotalsStage) :
    machine.step (s.reading stage) (.next s.calls.length) =
      (s.reading stage).advance s.calls.length (.totals stage) := by
  simp [machine, step, reading]

theorem run_summingIn (s : Traffic) (rest : List ConnectionInfo) (sum : Nat) :
    machine.run (s.reading (.summingIn rest sum)) (List.replicate rest.length (.next s.calls.length)) =
      some (s.reading (.summingIn []
        ((rest.map fun x => s.registry.bytes x.id .bytesIn).foldl addU64 sum))) := by
  induction rest generalizing sum with
  | nil => rfl
  | cons x rest ih =>
      rw [List.length_cons, List.replicate_succ, Machine.run, step_reading]
      have hnext : (s.reading (.summingIn (x :: rest) sum)).advance s.calls.length
          (.totals (.summingIn (x :: rest) sum)) =
            some (s.reading (.summingIn rest (addU64 sum (s.registry.bytes x.id .bytesIn)))) := by
        simp [advance, reading, setCall]
      rw [hnext, Option.bind_some, ih]
      rfl

theorem run_summingOut (s : Traffic) (rest : List ConnectionInfo) (sumIn sum : Nat) :
    machine.run (s.reading (.summingOut rest sumIn sum))
        (List.replicate rest.length (.next s.calls.length)) =
      some (s.reading (.summingOut [] sumIn
        ((rest.map fun x => s.registry.bytes x.id .bytesOut).foldl addU64 sum))) := by
  induction rest generalizing sum with
  | nil => rfl
  | cons x rest ih =>
      rw [List.length_cons, List.replicate_succ, Machine.run, step_reading]
      have hnext : (s.reading (.summingOut (x :: rest) sumIn sum)).advance s.calls.length
          (.totals (.summingOut (x :: rest) sumIn sum)) =
            some (s.reading (.summingOut rest sumIn
              (addU64 sum (s.registry.bytes x.id .bytesOut)))) := by
        simp [advance, reading, setCall]
      rw [hnext, Option.bind_some, ih]
      rfl

/-- Undisturbed, the steps of a `totals` are the call in one piece. -/
theorem run_totals (s : Traffic) (hlock : s.lock = none) : ∃ n,
    machine.run s (.totals :: List.replicate n (.next s.calls.length)) = some { s with
      calls := s.calls ++ [.totals (.reported s.registry.totals)]
      reports := s.reports ++ [s.registry.totals] } := by
  have hstart : machine.step s .totals = some (s.reading (.summingIn s.registry.live 0)) := by
    simp [machine, step, hlock, reading]
  have hsums : machine.run (s.reading (.summingIn s.registry.live 0))
      (List.replicate s.registry.live.length (.next s.calls.length) ++
        (.next s.calls.length :: List.replicate s.registry.live.length (.next s.calls.length))) =
      some (s.reading (.summingOut [] (sumU64 (s.registry.live.map fun x => s.registry.bytes x.id .bytesIn))
        (sumU64 (s.registry.live.map fun x => s.registry.bytes x.id .bytesOut)))) := by
    refine machine.run_append_iff.2 ⟨_, run_summingIn s s.registry.live 0, ?_⟩
    refine machine.run_cons_iff.2 ⟨_, ?_, run_summingOut s s.registry.live _ 0⟩
    rw [step_reading]
    simp [advance, reading, setCall, sumU64]
  have hend : machine.run (s.reading (.summingOut []
        (sumU64 (s.registry.live.map fun x => s.registry.bytes x.id .bytesIn))
        (sumU64 (s.registry.live.map fun x => s.registry.bytes x.id .bytesOut))))
      (List.replicate 4 (.next s.calls.length)) = some { s with
        calls := s.calls ++ [.totals (.reported s.registry.totals)]
        reports := s.reports ++ [s.registry.totals] } := by
    simp [Machine.run, machine, step, advance, reading, setCall, hlock, Registry.totals,
      List.replicate]
  refine ⟨s.registry.live.length + (1 + s.registry.live.length) + 4, machine.run_cons_iff.2 ⟨_, hstart, ?_⟩⟩
  rw [List.replicate_add, List.replicate_add, List.replicate_add]
  exact machine.run_append_iff.2 ⟨_, hsums, hend⟩

end Traffic
end Stats
end Erbridge
