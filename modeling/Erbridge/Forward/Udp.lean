import Erbridge.Core.Machine
import Erbridge.Core.Table
import Mathlib.Logic.Function.Basic

/-!
# The UDP forwarder

The model of `run_udp_forward` and `spawn_udp_session` of `forward.rs`.  The receive loop, the reaper,
the session tasks and their reply tasks take their steps in any order; one step is one access to the
session map, one datagram, or one failure.  The client addresses are any type with equality.

* `Udp.step` — the executable step function; `Moves` has one constructor for each outcome of an event
  and `step_eq_some_iff` says that it is exact.
* `Udp.Inv` — an entry of the map belongs to a session of that address whose task is not over.
* `Udp.Settled` — a datagram opens a session only when the tasks of earlier sessions of its source are
  over; `Udp.Undisturbed` is what holds as long as this is so.
* `Udp.sessions_kept_iff` — this is exactly when a task never takes another session's entry away and
  sessions end by idleness or failure only; `Udp.reopened_session_lost` is a run where one does.
-/

namespace Erbridge
namespace Forward

open Erbridge.Core (Machine Table)

/-- `UdpSession`: `session` is the one whose channel `to_target` feeds. -/
structure UdpSession where
  session : Nat
  lastActive : Nat
deriving DecidableEq

/-- Where the task of `spawn_udp_session` is. -/
inductive Task (α : Type)
  | unopened
  /-- It binds and connects the target socket. -/
  | binding (src : α)
  /-- `while let Some(data) = rx.recv().await`. -/
  | relaying (src : α)
  /-- The loop is over; the entry is still to be removed. -/
  | leaving (src : α)
  | over (src : α)
deriving DecidableEq

/-- The client address of the session. -/
def Task.src {α : Type} : Task α → Option α
  | .unopened => none
  | .binding src | .relaying src | .leaving src | .over src => some src

/-- The client address of a session whose task is still to remove its entry. -/
def Task.pending {α : Type} : Task α → Option α
  | .unopened | .over _ => none
  | .binding src | .relaying src | .leaving src => some src

theorem Task.src_of_pending {α : Type} {k : Task α} {src : α} (h : k.pending = some src) :
    k.src = some src := by
  cases k <;> simp_all [pending, Task.src]

/-- Where the reply task of a session is. -/
inductive Replier
  | absent
  | running
  /-- `reply_task.abort()` was called; it may still finish what it is doing. -/
  | aborted
  | ended
deriving DecidableEq

def Replier.live : Replier → Bool
  | .running | .aborted => true
  | .absent | .ended => false

/-- Where the receive loop is. -/
inductive Loop
  | receiving
  /-- It holds a clone of the session's sender and the datagram to send. -/
  | sending (session : Nat) (data : List UInt8)
  | stopped
deriving DecidableEq

/-- One rule's forwarder. -/
structure Udp (α : Type) where
  now : Nat
  sessions : Table α UdpSession
  /-- The number of sessions opened so far. -/
  next : Nat
  tasks : Nat → Task α
  repliers : Nat → Replier
  /-- What is in each session's channel. -/
  queues : Nat → List (List UInt8)
  loop : Loop
  toTarget : Nat → List (List UInt8)
  toClients : List (α × List UInt8)
  /-- The reaper found the session idle; not part of the code's state. -/
  reaped : Nat → Bool
  /-- The target or the client could not be reached; not part of the code's state. -/
  failed : Nat → Bool

namespace Udp

variable {α : Type}

def initial : Udp α where
  now := 0
  sessions := ∅
  next := 0
  tasks := fun _ => .unopened
  repliers := fun _ => .absent
  queues := fun _ => []
  loop := .receiving
  toTarget := fun _ => []
  toClients := []
  reaped := fun _ => false
  failed := fun _ => false

inductive Event (α : Type)
  /-- `recv_from` returns a datagram, and its session is looked up or opened. -/
  | recv (src : α) (data : List UInt8)
  | recvFails
  /-- `sender.send(data)`; the clone of the sender is dropped. -/
  | send
  /-- Time passes, in nanoseconds. -/
  | pass (n : Nat)
  /-- A tick of the reaper. -/
  | reap
  /-- Binding and connecting the target socket succeeds or fails. -/
  | bound (i : Nat) (ok : Bool)
  /-- One datagram from the channel to the target. -/
  | forward (i : Nat) (ok : Bool)
  /-- `rx.recv()` returns `None`: no sender is left. -/
  | closed (i : Nat)
  /-- One datagram from the target to the client. -/
  | reply (i : Nat) (data : List UInt8) (ok : Bool)
  /-- The reply task's `recv` fails. -/
  | replyFails (i : Nat)
  /-- An aborted reply task stops. -/
  | replyStops (i : Nat)
  /-- `sessions.lock().unwrap().remove(&client_addr)`, and the task ends. -/
  | remove (i : Nat)
deriving DecidableEq

/-- `Duration::from_secs(rule.udp_idle_secs.max(1))`. -/
def idle (udpIdleSecs : Nat) : Nat := max udpIdleSecs 1 * 1000000000

/-- `elapsed() < idle`. -/
def active (udpIdleSecs now : Nat) (e : UdpSession) : Bool :=
  now - e.lastActive < idle udpIdleSecs

def setTask (s : Udp α) (i : Nat) (k : Task α) : Udp α :=
  { s with tasks := Function.update s.tasks i k }

def setReplier (s : Udp α) (i : Nat) (k : Replier) : Udp α :=
  { s with repliers := Function.update s.repliers i k }

def setQueue (s : Udp α) (i : Nat) (data : List (List UInt8)) : Udp α :=
  { s with queues := Function.update s.queues i data }

def setFailed (s : Udp α) (i : Nat) : Udp α :=
  { s with failed := Function.update s.failed i true }

/-- A datagram is put into a channel; it is lost when the receiver is gone. -/
def push (s : Udp α) (i : Nat) (data : List UInt8) : Udp α :=
  match s.tasks i with
  | .over _ => s
  | _ => s.setQueue i (s.queues i ++ [data])

/-- Sending touches the channels only. -/
theorem push_eq (s : Udp α) (i : Nat) (data : List UInt8) :
    ∃ queues, s.push i data = { s with queues := queues } := by
  unfold push
  split
  · exact ⟨s.queues, rfl⟩
  · exact ⟨_, rfl⟩

/-- The task's loop ends: `reply_task.abort()`. -/
def leave (s : Udp α) (i : Nat) (src : α) : Udp α :=
  { s.setTask i (.leaving src) with
    repliers := Function.update s.repliers i
      (if s.repliers i = .running then .aborted else s.repliers i) }

/-- Neither the map nor the receive loop has a sender of the session's channel. -/
def Senderless (s : Udp α) (i : Nat) : Prop :=
  (∀ e ∈ s.sessions.entries, e.2.session ≠ i)
    ∧ match s.loop with
      | .sending j _ => j ≠ i
      | _ => True

instance (s : Udp α) (i : Nat) : Decidable (s.Senderless i) := by
  unfold Senderless
  cases s.loop <;> exact inferInstance

variable [DecidableEq α]

/-- A datagram from a source that has a session. -/
def refresh (s : Udp α) (src : α) (e : UdpSession) (data : List UInt8) : Udp α :=
  { s with
    sessions := s.sessions.insert src { e with lastActive := s.now }
    loop := .sending e.session data }

/-- A datagram from a source that has none. -/
def openSession (s : Udp α) (src : α) (data : List UInt8) : Udp α :=
  { s.setTask s.next (.binding src) with
    sessions := s.sessions.insert src ⟨s.next, s.now⟩
    next := s.next + 1
    loop := .sending s.next data }

/-- `retain(|_, s| s.last_active.elapsed() < idle)`. -/
def reapIdle (s : Udp α) (udpIdleSecs : Nat) : Udp α :=
  { s with
    sessions := s.sessions.retain fun _ e => active udpIdleSecs s.now e
    reaped := fun i => s.reaped i
      || ((s.sessions.dropped fun _ e => active udpIdleSecs s.now e).map
          UdpSession.session).contains i }

/-- `remove(&client_addr)`: whatever entry that address has. -/
def removeEntry (s : Udp α) (i : Nat) (src : α) : Udp α :=
  { s.setTask i (.over src) with sessions := s.sessions.erase src }

def step (udpIdleSecs : Nat) (s : Udp α) : Event α → Option (Udp α)
  | .recv src data =>
      match s.loop with
      | .receiving =>
          match s.sessions.lookup src with
          | some e => some (s.refresh src e data)
          | none => some (s.openSession src data)
      | _ => none
  | .recvFails =>
      match s.loop with
      | .receiving => some { s with loop := .stopped }
      | _ => none
  | .send =>
      match s.loop with
      | .sending i data => some { s.push i data with loop := .receiving }
      | _ => none
  | .pass n => some { s with now := s.now + n }
  | .reap => some (s.reapIdle udpIdleSecs)
  | .bound i ok =>
      match s.tasks i with
      | .binding src =>
          if ok then some ((s.setTask i (.relaying src)).setReplier i .running)
          else some ((s.setTask i (.leaving src)).setFailed i)
      | _ => none
  | .forward i ok =>
      match s.tasks i, s.queues i with
      | .relaying src, data :: rest =>
          if ok then
            some { s.setQueue i rest with
              toTarget := Function.update s.toTarget i (s.toTarget i ++ [data]) }
          else some (((s.setQueue i rest).leave i src).setFailed i)
      | _, _ => none
  | .closed i =>
      match s.tasks i, s.queues i with
      | .relaying src, [] => if s.Senderless i then some (s.leave i src) else none
      | _, _ => none
  | .reply i data ok =>
      match (s.tasks i).src with
      | some src =>
          if (s.repliers i).live then
            if ok then some { s with toClients := s.toClients ++ [(src, data)] }
            else some ((s.setReplier i .ended).setFailed i)
          else none
      | none => none
  | .replyFails i =>
      if (s.repliers i).live then some ((s.setReplier i .ended).setFailed i) else none
  | .replyStops i =>
      match s.repliers i with
      | .aborted => some (s.setReplier i .ended)
      | _ => none
  | .remove i =>
      match s.tasks i with
      | .leaving src => some (s.removeEntry i src)
      | _ => none

/-- The forwarder as a machine: a run is an interleaving of all its tasks. -/
def machine (α : Type) [DecidableEq α] (udpIdleSecs : Nat) : Machine (Udp α) (Event α) where
  step := step udpIdleSecs

/-- What each event needs and does. -/
inductive Moves (udpIdleSecs : Nat) (s : Udp α) : Event α → Udp α → Prop
  | refresh {src : α} {data : List UInt8} {e : UdpSession} (hloop : s.loop = .receiving)
      (hentry : s.sessions.lookup src = some e) :
      Moves udpIdleSecs s (.recv src data) (s.refresh src e data)
  | opens {src : α} {data : List UInt8} (hloop : s.loop = .receiving)
      (hentry : s.sessions.lookup src = none) :
      Moves udpIdleSecs s (.recv src data) (s.openSession src data)
  | recvFails (hloop : s.loop = .receiving) :
      Moves udpIdleSecs s .recvFails { s with loop := .stopped }
  | send {i : Nat} {data : List UInt8} (hloop : s.loop = .sending i data) :
      Moves udpIdleSecs s .send { s.push i data with loop := .receiving }
  | pass {n : Nat} : Moves udpIdleSecs s (.pass n) { s with now := s.now + n }
  | reap : Moves udpIdleSecs s .reap (s.reapIdle udpIdleSecs)
  | bound {i : Nat} {src : α} (hpc : s.tasks i = .binding src) :
      Moves udpIdleSecs s (.bound i true) ((s.setTask i (.relaying src)).setReplier i .running)
  | bindFails {i : Nat} {src : α} (hpc : s.tasks i = .binding src) :
      Moves udpIdleSecs s (.bound i false) ((s.setTask i (.leaving src)).setFailed i)
  | forward {i : Nat} {src : α} {data : List UInt8} {rest : List (List UInt8)}
      (hpc : s.tasks i = .relaying src) (hqueue : s.queues i = data :: rest) :
      Moves udpIdleSecs s (.forward i true) { s.setQueue i rest with
        toTarget := Function.update s.toTarget i (s.toTarget i ++ [data]) }
  | forwardFails {i : Nat} {src : α} {data : List UInt8} {rest : List (List UInt8)}
      (hpc : s.tasks i = .relaying src) (hqueue : s.queues i = data :: rest) :
      Moves udpIdleSecs s (.forward i false) (((s.setQueue i rest).leave i src).setFailed i)
  | closed {i : Nat} {src : α} (hpc : s.tasks i = .relaying src) (hqueue : s.queues i = [])
      (hsender : s.Senderless i) : Moves udpIdleSecs s (.closed i) (s.leave i src)
  | reply {i : Nat} {src : α} {data : List UInt8} (hpc : (s.tasks i).src = some src)
      (hlive : (s.repliers i).live = true) :
      Moves udpIdleSecs s (.reply i data true) { s with toClients := s.toClients ++ [(src, data)] }
  | replySendFails {i : Nat} {src : α} {data : List UInt8} (hpc : (s.tasks i).src = some src)
      (hlive : (s.repliers i).live = true) :
      Moves udpIdleSecs s (.reply i data false) ((s.setReplier i .ended).setFailed i)
  | replyFails {i : Nat} (hlive : (s.repliers i).live = true) :
      Moves udpIdleSecs s (.replyFails i) ((s.setReplier i .ended).setFailed i)
  | replyStops {i : Nat} (haborted : s.repliers i = .aborted) :
      Moves udpIdleSecs s (.replyStops i) (s.setReplier i .ended)
  | remove {i : Nat} {src : α} (hpc : s.tasks i = .leaving src) :
      Moves udpIdleSecs s (.remove i) (s.removeEntry i src)

theorem step_eq_some_iff {udpIdleSecs : Nat} {s s' : Udp α} {e : Event α} :
    s.step udpIdleSecs e = some s' ↔ Moves udpIdleSecs s e s' := by
  constructor
  · intro hstep
    cases e with
    | recv src data =>
        simp only [step] at hstep
        split at hstep
        · rename_i hloop
          split at hstep
          · rename_i e hentry
            cases hstep
            exact .refresh hloop hentry
          · rename_i hentry
            cases hstep
            exact .opens hloop hentry
        · cases hstep
    | recvFails =>
        simp only [step] at hstep
        split at hstep
        · cases hstep
          exact .recvFails ‹_›
        · cases hstep
    | send =>
        simp only [step] at hstep
        split at hstep
        · cases hstep
          exact .send ‹_›
        · cases hstep
    | pass n =>
        cases hstep
        exact .pass
    | reap =>
        cases hstep
        exact .reap
    | bound i ok =>
        simp only [step] at hstep
        split at hstep
        · rename_i src hpc
          cases ok with
          | true =>
              cases hstep
              exact .bound hpc
          | false =>
              cases hstep
              exact .bindFails hpc
        · cases hstep
    | forward i ok =>
        simp only [step] at hstep
        split at hstep
        · rename_i src data rest hpc hqueue
          cases ok with
          | true =>
              cases hstep
              exact .forward hpc hqueue
          | false =>
              cases hstep
              exact .forwardFails hpc hqueue
        · cases hstep
    | closed i =>
        simp only [step] at hstep
        split at hstep
        · rename_i src hpc hqueue
          split at hstep
          · rename_i hsender
            cases hstep
            exact .closed hpc hqueue hsender
          · cases hstep
        · cases hstep
    | reply i data ok =>
        simp only [step] at hstep
        split at hstep
        · rename_i src hpc
          split at hstep
          · rename_i hlive
            cases ok with
            | true =>
                cases hstep
                exact .reply hpc hlive
            | false =>
                cases hstep
                exact .replySendFails hpc hlive
          · cases hstep
        · cases hstep
    | replyFails i =>
        simp only [step] at hstep
        split at hstep
        · rename_i hlive
          cases hstep
          exact .replyFails hlive
        · cases hstep
    | replyStops i =>
        simp only [step] at hstep
        split at hstep
        · cases hstep
          exact .replyStops ‹_›
        · cases hstep
    | remove i =>
        simp only [step] at hstep
        split at hstep
        · cases hstep
          exact .remove ‹_›
        · cases hstep
  · intro hmoves
    cases hmoves <;> simp_all [step]

/-! ## Entries and their tasks -/

variable {udpIdleSecs : Nat} {s s' : Udp α}

/-- Sessions are numbered in order, and an entry of the map belongs to a session of that address whose
task is still to remove it. -/
structure Inv (s : Udp α) : Prop where
  fresh : ∀ i, s.next ≤ i → s.tasks i = .unopened
  opened : ∀ i < s.next, s.tasks i ≠ .unopened
  entries : ∀ src e, s.sessions.lookup src = some e → (s.tasks e.session).pending = some src

theorem inv_initial : Inv (initial : Udp α) where
  fresh _ _ := rfl
  opened i hi := absurd hi (Nat.not_lt_zero i)
  entries src e he := by simp [initial] at he

theorem Inv.lt_next (hi : Inv s) {i : Nat} {src : α} (hsrc : (s.tasks i).src = some src) :
    i < s.next := by
  by_contra hge
  rw [hi.fresh i (by omega)] at hsrc
  cases hsrc

theorem Inv.lt_next_of_pending (hi : Inv s) {i : Nat} {src : α}
    (hpending : (s.tasks i).pending = some src) : i < s.next :=
  hi.lt_next (Task.src_of_pending hpending)

/-- A step of a task that keeps its address and the map keeps the entries. -/
theorem Inv.of_task (hi : Inv s) {i : Nat} {src : α} {k : Task α}
    (hpending : (s.tasks i).pending = some src) (hk : k.pending = some src)
    (htasks : s'.tasks = Function.update s.tasks i k) (hsessions : s'.sessions = s.sessions)
    (hnext : s'.next = s.next) : Inv s' where
  fresh j hj := by
    rw [hnext] at hj
    have hne : j ≠ i := by
      rintro rfl
      exact absurd (hi.lt_next_of_pending hpending) (by omega)
    rw [htasks, Function.update_of_ne hne]
    exact hi.fresh j hj
  opened j hj := by
    rw [hnext] at hj
    rcases eq_or_ne j i with rfl | hne
    · rw [htasks, Function.update_self]
      rintro rfl
      cases hk
    · rw [htasks, Function.update_of_ne hne]
      exact hi.opened j hj
  entries src' e he := by
    rw [hsessions] at he
    have hold := hi.entries src' e he
    rcases eq_or_ne e.session i with heq | hne
    · rw [htasks, heq, Function.update_self, hk, ← hpending, ← heq, hold]
    · rw [htasks, Function.update_of_ne hne]
      exact hold

/-- A step that leaves the tasks alone and brings no session into the map keeps the entries. -/
theorem Inv.of_sessions (hi : Inv s) (htasks : s'.tasks = s.tasks) (hnext : s'.next = s.next)
    (hsub : ∀ src e, s'.sessions.lookup src = some e →
      ∃ e', s.sessions.lookup src = some e' ∧ e'.session = e.session) : Inv s' where
  fresh j hj := by
    rw [htasks]
    exact hi.fresh j (hnext ▸ hj)
  opened j hj := by
    rw [htasks]
    exact hi.opened j (hnext ▸ hj)
  entries src e he := by
    obtain ⟨e', he', heq⟩ := hsub src e he
    rw [htasks, ← heq]
    exact hi.entries src e' he'

theorem inv_openSession (hi : Inv s) {src : α} {data : List UInt8} :
    Inv (s.openSession src data) where
  fresh j hj := by
    have hlt : s.next < j := hj
    show Function.update s.tasks s.next _ j = _
    rw [Function.update_of_ne (by omega)]
    exact hi.fresh j (by omega)
  opened j hj := by
    have hle : j < s.next + 1 := hj
    show Function.update s.tasks s.next _ j ≠ _
    rcases eq_or_ne j s.next with rfl | hne
    · simp
    · rw [Function.update_of_ne hne]
      exact hi.opened j (by omega)
  entries src' e he := by
    show (Function.update s.tasks s.next _ e.session).pending = _
    rcases Table.lookup_insert_eq_some_iff.1 he with ⟨rfl, rfl⟩ | ⟨-, hold⟩
    · simp [Task.pending]
    · have hlt := hi.lt_next_of_pending (hi.entries src' e hold)
      rw [Function.update_of_ne (by omega)]
      exact hi.entries src' e hold

theorem inv_removeEntry (hi : Inv s) {i : Nat} {src : α} (hpc : s.tasks i = .leaving src) :
    Inv (s.removeEntry i src) where
  fresh j hj := by
    have hlt : i < s.next := hi.lt_next (show (s.tasks i).src = some src by rw [hpc]; rfl)
    have hle : s.next ≤ j := hj
    show Function.update s.tasks i _ j = _
    rw [Function.update_of_ne (by omega)]
    exact hi.fresh j hle
  opened j hj := by
    show Function.update s.tasks i _ j ≠ _
    rcases eq_or_ne j i with rfl | hne
    · simp
    · rw [Function.update_of_ne hne]
      exact hi.opened j hj
  entries src' e he := by
    show (Function.update s.tasks i _ e.session).pending = _
    obtain ⟨hsrc, hold⟩ := Table.lookup_erase_eq_some_iff.1 he
    have hentry := hi.entries src' e hold
    have hne : e.session ≠ i := by
      rintro heq
      rw [heq, hpc] at hentry
      exact hsrc (Option.some.inj hentry).symm
    rw [Function.update_of_ne hne]
    exact hentry

theorem inv_step {e : Event α} (hi : Inv s) (hstep : s.step udpIdleSecs e = some s') : Inv s' := by
  cases step_eq_some_iff.1 hstep with
  | @refresh src data e hloop hentry =>
      refine hi.of_sessions rfl rfl fun src' e' he' => ?_
      rcases Table.lookup_insert_eq_some_iff.1 he' with ⟨rfl, rfl⟩ | ⟨-, hold⟩
      · exact ⟨e, hentry, rfl⟩
      · exact ⟨e', hold, rfl⟩
  | opens => exact inv_openSession hi
  | recvFails | pass | forward | reply | replySendFails | replyFails | replyStops =>
      exact hi.of_sessions rfl rfl fun src e he => ⟨e, he, rfl⟩
  | @send i data hloop =>
      obtain ⟨queues, hpush⟩ := s.push_eq i data
      rw [hpush]
      exact hi.of_sessions rfl rfl fun src e he => ⟨e, he, rfl⟩
  | reap =>
      refine hi.of_sessions rfl rfl fun src e he => ⟨e, ?_, rfl⟩
      exact (Table.lookup_retain_eq_some_iff.1 he).1
  | @bound i src hpc =>
      have hpending : (s.tasks i).pending = some src := by rw [hpc]; rfl
      exact hi.of_task (k := .relaying src) hpending rfl rfl rfl rfl
  | @bindFails i src hpc =>
      have hpending : (s.tasks i).pending = some src := by rw [hpc]; rfl
      exact hi.of_task (k := .leaving src) hpending rfl rfl rfl rfl
  | @forwardFails i src data rest hpc hqueue =>
      have hpending : (s.tasks i).pending = some src := by rw [hpc]; rfl
      exact hi.of_task (k := .leaving src) hpending rfl rfl rfl rfl
  | @closed i src hpc hqueue hsender =>
      have hpending : (s.tasks i).pending = some src := by rw [hpc]; rfl
      exact hi.of_task (k := .leaving src) hpending rfl rfl rfl rfl
  | remove hpc => exact inv_removeEntry hi hpc

/-! ## Sessions that are left alone -/

/-- Session `i` of client `src` does its work: its entry is in the map, its task has the target socket or
is about to, and replies are relayed. -/
structure Serves (s : Udp α) (i : Nat) (src : α) : Prop where
  task : s.tasks i = .binding src ∨ s.tasks i = .relaying src ∧ s.repliers i = .running
  entry : ∃ e, s.sessions.lookup src = some e ∧ e.session = i

/-- Every session that was found neither idle nor failing does its work. -/
def Kept (s : Udp α) : Prop :=
  ∀ i < s.next, s.reaped i = false → s.failed i = false → ∃ src, s.Serves i src

/-- A datagram opens a session only when no earlier session of its source has its entry still to
remove. -/
def Settled (s : Udp α) : Event α → Prop
  | .recv src _ => s.loop = .receiving → s.sessions.lookup src = none →
      ∀ i, (s.tasks i).pending ≠ some src
  | _ => True

/-- What holds as long as every step is settled. -/
structure Undisturbed (s : Udp α) : Prop where
  alone : ∀ i j src, (s.tasks i).pending = some src → (s.tasks j).pending = some src → i = j
  kept : s.Kept

theorem undisturbed_initial : Undisturbed (initial : Udp α) where
  alone i j src hi _ := by cases hi
  kept i hi := absurd hi (Nat.not_lt_zero i)

theorem Serves.pending {i : Nat} {src : α} (h : s.Serves i src) :
    (s.tasks i).pending = some src := by
  rcases h.task with hpc | ⟨hpc, -⟩
  · rw [hpc]
    rfl
  · rw [hpc]
    rfl

/-- A session is served as long as its task, its reply task and its entry are left alone. -/
theorem Serves.of_same {i : Nat} {src : α} (h : s.Serves i src) (htask : s'.tasks i = s.tasks i)
    (hreplier : s'.repliers i = s.repliers i)
    (hentry : ∀ e, s.sessions.lookup src = some e →
      ∃ e', s'.sessions.lookup src = some e' ∧ e'.session = e.session) : s'.Serves i src where
  task := by
    rw [htask, hreplier]
    exact h.task
  entry := by
    obtain ⟨e, he, heq⟩ := h.entry
    obtain ⟨e', he', heq'⟩ := hentry e he
    exact ⟨e', he', heq'.trans heq⟩

/-- Only a new session gets an address that it did not have. -/
theorem pending_of_step {e : Event α} (hstep : s.step udpIdleSecs e = some s') {j : Nat} {src : α}
    (hpending : (s'.tasks j).pending = some src) :
    (s.tasks j).pending = some src
      ∨ ∃ data, e = .recv src data ∧ s.loop = .receiving ∧ s.sessions.lookup src = none
        ∧ j = s.next := by
  have hupdate : ∀ {i : Nat} {k : Task α}, k.pending = none ∨ k.pending = (s.tasks i).pending →
      s'.tasks = Function.update s.tasks i k → (s.tasks j).pending = some src := by
    intro i k hk htasks
    rw [htasks] at hpending
    rcases eq_or_ne j i with rfl | hne
    · rw [Function.update_self] at hpending
      rcases hk with hk | hk
      · rw [hk] at hpending
        cases hpending
      · rw [← hk, hpending]
    · rwa [Function.update_of_ne hne] at hpending
  cases step_eq_some_iff.1 hstep with
  | refresh | recvFails | pass | reap | forward | reply | replySendFails | replyFails | replyStops =>
      exact Or.inl hpending
  | @send i data hloop =>
      obtain ⟨queues, hpush⟩ := s.push_eq i data
      rw [hpush] at hpending
      exact Or.inl hpending
  | @opens src' data hloop hentry =>
      have hnew : (Function.update s.tasks s.next (.binding src') j).pending = some src := hpending
      rcases eq_or_ne j s.next with rfl | hne
      · rw [Function.update_self] at hnew
        obtain rfl : src' = src := Option.some.inj hnew
        exact Or.inr ⟨data, rfl, hloop, hentry, rfl⟩
      · rw [Function.update_of_ne hne] at hnew
        exact Or.inl hnew
  | @bound i src' hpc => exact Or.inl (hupdate (Or.inr (by rw [hpc]; rfl)) rfl)
  | @bindFails i src' hpc => exact Or.inl (hupdate (Or.inr (by rw [hpc]; rfl)) rfl)
  | @forwardFails i src' data rest hpc => exact Or.inl (hupdate (Or.inr (by rw [hpc]; rfl)) rfl)
  | @closed i src' hpc => exact Or.inl (hupdate (Or.inr (by rw [hpc]; rfl)) rfl)
  | @remove i src' hpc => exact Or.inl (hupdate (Or.inl rfl) rfl)

theorem alone_step {e : Event α} (h : Undisturbed s) (hsettled : s.Settled e)
    (hstep : s.step udpIdleSecs e = some s') :
    ∀ i j src, (s'.tasks i).pending = some src → (s'.tasks j).pending = some src → i = j := by
  intro i j src hi hj
  rcases pending_of_step hstep hi with hi | ⟨data, rfl, hloop, hentry, rfl⟩
  · rcases pending_of_step hstep hj with hj | ⟨data, rfl, hloop, hentry, rfl⟩
    · exact h.alone i j src hi hj
    · exact absurd hi (hsettled hloop hentry i)
  · rcases pending_of_step hstep hj with hj | ⟨-, -, -, -, rfl⟩
    · exact absurd hj (hsettled hloop hentry j)
    · rfl

/-- A step of the tasks of session `i` leaves the other sessions alone. -/
theorem Kept.of_others (h : s.Kept) {i : Nat} (htasks : ∀ j, j ≠ i → s'.tasks j = s.tasks j)
    (hrepliers : ∀ j, j ≠ i → s'.repliers j = s.repliers j) (hsessions : s'.sessions = s.sessions)
    (hnext : s'.next = s.next) (hreaped : s'.reaped = s.reaped)
    (hfailed : ∀ j, j ≠ i → s'.failed j = s.failed j)
    (hself : s'.reaped i = false → s'.failed i = false → i < s.next → ∃ src, s'.Serves i src) :
    s'.Kept := by
  intro j hj hr hf
  rw [hnext] at hj
  rcases eq_or_ne j i with rfl | hne
  · exact hself hr hf hj
  · rw [hreaped] at hr
    rw [hfailed j hne] at hf
    obtain ⟨src, hserves⟩ := h j hj hr hf
    exact ⟨src, hserves.of_same (htasks j hne) (hrepliers j hne) fun e he =>
      ⟨e, by rw [hsessions]; exact he, rfl⟩⟩

/-- A step that changes neither sessions nor their tasks. -/
theorem Kept.of_same (h : s.Kept) (htasks : s'.tasks = s.tasks) (hrepliers : s'.repliers = s.repliers)
    (hsessions : s'.sessions = s.sessions) (hnext : s'.next = s.next)
    (hreaped : s'.reaped = s.reaped) (hfailed : s'.failed = s.failed) : s'.Kept := by
  intro j hj hr hf
  rw [hnext] at hj
  rw [hreaped] at hr
  rw [hfailed] at hf
  obtain ⟨src, hserves⟩ := h j hj hr hf
  exact ⟨src, hserves.of_same (by rw [htasks]) (by rw [hrepliers]) fun e he =>
    ⟨e, by rw [hsessions]; exact he, rfl⟩⟩

theorem kept_refresh (h : s.Kept) {src : α} {e : UdpSession} {data : List UInt8}
    (hentry : s.sessions.lookup src = some e) : (s.refresh src e data).Kept := by
  intro j hj hr hf
  obtain ⟨src', hserves⟩ := h j hj hr hf
  refine ⟨src', hserves.of_same rfl rfl fun e' he' => ?_⟩
  rcases eq_or_ne src' src with rfl | hne
  · obtain rfl : e = e' := Option.some.inj (hentry.symm.trans he')
    exact ⟨_, Table.lookup_insert_eq_some_iff.2 (Or.inl ⟨rfl, rfl⟩), rfl⟩
  · exact ⟨e', Table.lookup_insert_eq_some_iff.2 (Or.inr ⟨hne, he'⟩), rfl⟩

theorem kept_openSession (h : s.Kept) {src : α} {data : List UInt8}
    (hentry : s.sessions.lookup src = none) : (s.openSession src data).Kept := by
  intro j hj hr hf
  rcases eq_or_ne j s.next with rfl | hne
  · refine ⟨src, Or.inl (Function.update_self _ _ _), ⟨s.next, s.now⟩, ?_, rfl⟩
    exact Table.lookup_insert_eq_some_iff.2 (Or.inl ⟨rfl, rfl⟩)
  · have hlt : j < s.next + 1 := hj
    obtain ⟨src', hserves⟩ := h j (by omega) hr hf
    refine ⟨src', hserves.of_same (Function.update_of_ne hne _ _) rfl fun e he => ?_⟩
    have hsrc : src' ≠ src := by
      rintro rfl
      rw [hentry] at he
      cases he
    exact ⟨e, Table.lookup_insert_eq_some_iff.2 (Or.inr ⟨hsrc, he⟩), rfl⟩

/-- The reaper takes away the entries of sessions that it finds idle, and marks these. -/
theorem kept_reapIdle (h : s.Kept) : (s.reapIdle udpIdleSecs).Kept := by
  intro j hj hr hf
  have hnot : s.reaped j = false
      ∧ j ∉ (s.sessions.dropped fun _ e => active udpIdleSecs s.now e).map UdpSession.session := by
    simpa only [reapIdle, Bool.or_eq_false_iff, List.contains_eq_mem, decide_eq_false_iff_not]
      using hr
  obtain ⟨src, hserves⟩ := h j hj hnot.1 hf
  obtain ⟨e, he, heq⟩ := hserves.entry
  have hactive : active udpIdleSecs s.now e = true := by
    by_contra hidle
    refine hnot.2 (List.mem_map.2 ⟨e, Table.mem_dropped_iff.2 ⟨src, he, ?_⟩, heq⟩)
    simpa using hidle
  refine ⟨src, hserves.task, e, ?_, heq⟩
  exact Table.lookup_retain_eq_some_iff.2 ⟨he, hactive⟩

/-- A task's own entry is the only one it can take away, since no other session has its address. -/
theorem kept_removeEntry (h : Undisturbed s) {i : Nat} {src : α} (hpc : s.tasks i = .leaving src) :
    (s.removeEntry i src).Kept := by
  intro j hj hr hf
  obtain ⟨src', hserves⟩ := h.kept j hj hr hf
  have hne : j ≠ i := by
    rintro rfl
    rcases hserves.task with hpc' | ⟨hpc', -⟩
    · rw [hpc] at hpc'
      cases hpc'
    · rw [hpc] at hpc'
      cases hpc'
  have hsrc : src' ≠ src := by
    rintro rfl
    exact hne (h.alone j i src' hserves.pending (by rw [hpc]; rfl))
  refine ⟨src', hserves.of_same (Function.update_of_ne hne _ _) rfl fun e he => ⟨e, ?_, rfl⟩⟩
  exact Table.lookup_erase_eq_some_iff.2 ⟨hsrc, he⟩

/-- A session that does its work has a sender in the map. -/
theorem Serves.not_senderless {i : Nat} {src : α} (h : s.Serves i src) : ¬ s.Senderless i := by
  rintro ⟨hentries, -⟩
  obtain ⟨e, he, heq⟩ := h.entry
  exact hentries _ (Table.lookup_eq_some_iff.1 he) heq

theorem kept_step {e : Event α} (h : Undisturbed s) (hstep : s.step udpIdleSecs e = some s') :
    s'.Kept := by
  cases step_eq_some_iff.1 hstep with
  | refresh hloop hentry => exact kept_refresh h.kept hentry
  | opens hloop hentry => exact kept_openSession h.kept hentry
  | recvFails | pass | forward | reply => exact h.kept.of_same rfl rfl rfl rfl rfl rfl
  | @send i data hloop =>
      obtain ⟨queues, hpush⟩ := s.push_eq i data
      rw [hpush]
      exact h.kept.of_same rfl rfl rfl rfl rfl rfl
  | reap => exact kept_reapIdle h.kept
  | @bound i src hpc =>
      refine h.kept.of_others (i := i) (fun j hne => Function.update_of_ne hne _ _)
        (fun j hne => Function.update_of_ne hne _ _) rfl rfl rfl (fun _ _ => rfl) ?_
      intro hr hf hlt
      obtain ⟨src', hserves⟩ := h.kept i hlt hr hf
      have hsrc := hserves.pending
      rw [hpc] at hsrc
      obtain rfl : src = src' := Option.some.inj hsrc
      exact ⟨src, Or.inr ⟨Function.update_self _ _ _, Function.update_self _ _ _⟩, hserves.entry⟩
  | @bindFails i src hpc =>
      refine h.kept.of_others (i := i) (fun j hne => Function.update_of_ne hne _ _)
        (fun _ _ => rfl) rfl rfl rfl (fun j hne => Function.update_of_ne hne _ _) ?_
      intro _ hf
      simp [setFailed] at hf
  | @forwardFails i src data rest hpc hqueue =>
      refine h.kept.of_others (i := i) (fun j hne => Function.update_of_ne hne _ _)
        (fun j hne => Function.update_of_ne hne _ _) rfl rfl rfl
        (fun j hne => Function.update_of_ne hne _ _) ?_
      intro _ hf
      simp [setFailed] at hf
  | @closed i src hpc hqueue hsender =>
      refine h.kept.of_others (i := i) (fun j hne => Function.update_of_ne hne _ _)
        (fun j hne => Function.update_of_ne hne _ _) rfl rfl rfl (fun _ _ => rfl) ?_
      intro hr hf hlt
      obtain ⟨src', hserves⟩ := h.kept i hlt hr hf
      exact absurd hsender hserves.not_senderless
  | @replySendFails i src data hpc hlive =>
      refine h.kept.of_others (i := i) (fun _ _ => rfl) (fun j hne => Function.update_of_ne hne _ _)
        rfl rfl rfl (fun j hne => Function.update_of_ne hne _ _) ?_
      intro _ hf
      simp [setFailed] at hf
  | @replyFails i hlive =>
      refine h.kept.of_others (i := i) (fun _ _ => rfl) (fun j hne => Function.update_of_ne hne _ _)
        rfl rfl rfl (fun j hne => Function.update_of_ne hne _ _) ?_
      intro _ hf
      simp [setFailed] at hf
  | @replyStops i haborted =>
      refine h.kept.of_others (i := i) (fun _ _ => rfl) (fun j hne => Function.update_of_ne hne _ _)
        rfl rfl rfl (fun _ _ => rfl) ?_
      intro hr hf hlt
      obtain ⟨src, hserves⟩ := h.kept i hlt hr hf
      rcases hserves.task with hpc | ⟨-, hrunning⟩
      · exact ⟨src, Or.inl hpc, hserves.entry⟩
      · rw [haborted] at hrunning
        cases hrunning
  | remove hpc => exact kept_removeEntry h hpc

theorem undisturbed_step {e : Event α} (h : Undisturbed s) (hsettled : s.Settled e)
    (hstep : s.step udpIdleSecs e = some s') : Undisturbed s' :=
  ⟨alone_step h hsettled hstep, kept_step h hstep⟩

/-! ## Whole runs -/

/-- The step takes no other session's entry out of the map. -/
def TakesOwn (s : Udp α) (i : Nat) (s' : Udp α) : Prop :=
  ∀ src e, s.sessions.lookup src = some e → e.session ≠ i → s'.sessions.lookup src = some e

/-- A task that ends takes its own entry only; a session found neither idle nor failing stays in the map
with its task and its target socket, and a reply of the target is sent on to the client. -/
structure Correct (udpIdleSecs : Nat) (es : List (Event α)) : Prop where
  own : ∀ fs i s s', fs ++ [.remove i] <+: es → (machine α udpIdleSecs).run initial fs = some s →
    s.step udpIdleSecs (.remove i) = some s' → s.TakesOwn i s'
  kept : ∀ fs s, fs <+: es → (machine α udpIdleSecs).run initial fs = some s → s.Kept
  relays : ∀ fs s i src data, fs <+: es → (machine α udpIdleSecs).run initial fs = some s →
    s.tasks i = .relaying src → s.reaped i = false → s.failed i = false →
      ∃ s', s.step udpIdleSecs (.reply i data true) = some s'
        ∧ s'.toClients = s.toClients ++ [(src, data)]

/-- A step of a session's task or of its reply task. -/
def Event.ofSession : Event α → Bool
  | .bound _ _ | .forward _ _ | .closed _ | .reply _ _ _ | .replyFails _ | .replyStops _
  | .remove _ => true
  | .recv _ _ | .recvFails | .send | .pass _ | .reap => false

theorem takesOwn_of_remove (hi : Inv s) (h : Undisturbed s) {i : Nat}
    (hstep : s.step udpIdleSecs (.remove i) = some s') : s.TakesOwn i s' := by
  cases step_eq_some_iff.1 hstep with
  | @remove _ src hpc =>
      intro src' e he hne
      have hpending := hi.entries src' e he
      refine Table.lookup_erase_eq_some_iff.2 ⟨?_, he⟩
      rintro rfl
      exact hne (h.alone _ _ src' hpending (by rw [hpc]; rfl))

theorem Kept.relays (h : s.Kept) (hi : Inv s) {i : Nat} {src : α} (data : List UInt8)
    (hpc : s.tasks i = .relaying src) (hreaped : s.reaped i = false) (hfailed : s.failed i = false) :
    ∃ s', s.step udpIdleSecs (.reply i data true) = some s'
      ∧ s'.toClients = s.toClients ++ [(src, data)] := by
  have hlt : i < s.next := hi.lt_next (show (s.tasks i).src = some src by rw [hpc]; rfl)
  obtain ⟨src', hserves⟩ := h i hlt hreaped hfailed
  have hrunning : s.repliers i = .running := by
    rcases hserves.task with hbinding | ⟨-, hrunning⟩
    · rw [hpc] at hbinding
      cases hbinding
    · exact hrunning
  have hsrc : (s.tasks i).src = some src := by rw [hpc]; rfl
  exact ⟨_, step_eq_some_iff.2 (.reply hsrc (by rw [hrunning]; rfl)), rfl⟩

theorem correct_of_settled {es : List (Event α)}
    (hmeets : (machine α udpIdleSecs).Meets Settled initial es) : Correct udpIdleSecs es := by
  have hreach : ∀ {fs : List (Event α)} {s}, fs <+: es →
      (machine α udpIdleSecs).run initial fs = some s → Inv s ∧ Undisturbed s := by
    rintro fs s ⟨rest, rfl⟩ hrun
    exact (machine α udpIdleSecs).run_invariant_of_meets (fun s => Inv s ∧ Undisturbed s)
      (fun hi hsettled hstep => ⟨inv_step hi.1 hstep, undisturbed_step hi.2 hsettled hstep⟩)
      ⟨inv_initial, undisturbed_initial⟩ ((machine α udpIdleSecs).meets_append_iff.1 hmeets).1 hrun
  constructor
  · intro fs i s s' hfs hrun hstep
    obtain ⟨hi, h⟩ := hreach ((List.prefix_append _ _).trans hfs) hrun
    exact takesOwn_of_remove hi h hstep
  · intro fs s hfs hrun
    exact (hreach hfs hrun).2.kept
  · intro fs s i src data hfs hrun hpc hreaped hfailed
    obtain ⟨hi, h⟩ := hreach hfs hrun
    exact h.kept.relays hi data hpc hreaped hfailed

variable (udpIdleSecs) in
/-- A task without senders gets to its end by steps of its own, and leaves the map alone until then. -/
theorem exists_leaving {i : Nat} {src : α} (hpending : (s.tasks i).pending = some src)
    (hsender : s.Senderless i) :
    ∃ fs t, (∀ f ∈ fs, f.ofSession = true) ∧ (machine α udpIdleSecs).run s fs = some t
      ∧ t.tasks i = .leaving src ∧ t.sessions = s.sessions := by
  have hone : ∀ {e : Event α} {t}, Moves udpIdleSecs s e t → e.ofSession = true →
      t.tasks i = .leaving src → t.sessions = s.sessions →
      ∃ fs t, (∀ f ∈ fs, f.ofSession = true) ∧ (machine α udpIdleSecs).run s fs = some t
        ∧ t.tasks i = .leaving src ∧ t.sessions = s.sessions := by
    intro e t hmoves he hpc hsessions
    refine ⟨[e], t, by simpa using he, ?_, hpc, hsessions⟩
    exact (machine α udpIdleSecs).run_cons_iff.2 ⟨t, step_eq_some_iff.2 hmoves, rfl⟩
  cases hpc : s.tasks i with
  | binding src' =>
      rw [hpc] at hpending
      obtain rfl : src' = src := Option.some.inj hpending
      exact hone (.bindFails hpc) rfl (Function.update_self _ _ _) rfl
  | relaying src' =>
      rw [hpc] at hpending
      obtain rfl : src' = src := Option.some.inj hpending
      cases hqueue : s.queues i with
      | nil => exact hone (.closed hpc hqueue hsender) rfl (Function.update_self _ _ _) rfl
      | cons data rest =>
          exact hone (.forwardFails hpc hqueue) rfl (Function.update_self _ _ _) rfl
  | leaving src' =>
      rw [hpc] at hpending
      obtain rfl : src' = src := Option.some.inj hpending
      exact ⟨[], s, by simp, rfl, hpc, rfl⟩
  | _ =>
      rw [hpc] at hpending
      cases hpending

/-- A session that is opened while the task of an earlier one of its source is still to end can lose its
entry to that task. -/
theorem not_correct_of_unsettled (hi : Inv s) {es : List (Event α)} {e : Event α}
    (hrun : (machine α udpIdleSecs).run initial es = some s) (hunsettled : ¬ s.Settled e) :
    ∃ fs, (∀ f ∈ fs, f.ofSession = true) ∧ ¬ Correct udpIdleSecs (es ++ e :: fs) := by
  cases e with
  | recvFails | send | pass | reap | bound | forward | closed | reply | replyFails | replyStops
  | remove => exact absurd trivial hunsettled
  | recv src data =>
      simp only [Settled, Classical.not_imp, not_forall, not_not] at hunsettled
      obtain ⟨hloop, hentry, i, hpending⟩ := hunsettled
      have hlt : i < s.next := hi.lt_next_of_pending hpending
      have hopen : s.step udpIdleSecs (.recv src data) = some (s.openSession src data) :=
        step_eq_some_iff.2 (.opens hloop hentry)
      have hnew : (s.openSession src data).sessions.lookup src = some ⟨s.next, s.now⟩ :=
        Table.lookup_insert_eq_some_iff.2 (Or.inl ⟨rfl, rfl⟩)
      -- The old task has no sender any more: its entry is not in the map.
      have hsender : (s.openSession src data).Senderless i := by
        refine ⟨fun e' he' heq => ?_, fun heq => ?_⟩
        · have hlookup := (Table.lookup_eq_some_iff (t := (s.openSession src data).sessions)
            (k := e'.1) (v := e'.2)).2 he'
          rcases Table.lookup_insert_eq_some_iff.1 hlookup with ⟨-, hfresh⟩ | ⟨hne, hold⟩
          · rw [hfresh] at heq
            exact absurd heq (by show s.next ≠ i; omega)
          · have hsrc := hi.entries _ _ hold
            rw [heq, hpending] at hsrc
            exact hne (Option.some.inj hsrc).symm
        · have heq : s.next = i := heq
          omega
      have hpending' : ((s.openSession src data).tasks i).pending = some src := by
        show (Function.update s.tasks s.next _ i).pending = _
        rw [Function.update_of_ne (by omega)]
        exact hpending
      obtain ⟨fs, t, hfs, hrunfs, hleaving, hsessions⟩ :=
        exists_leaving udpIdleSecs hpending' hsender
      refine ⟨fs ++ [.remove i], ?_, fun hcorrect => ?_⟩
      · intro f hf
        rcases List.mem_append.1 hf with hf | hf
        · exact hfs f hf
        · obtain rfl := List.mem_singleton.1 hf
          rfl
      · have hrunt : (machine α udpIdleSecs).run initial (es ++ .recv src data :: fs) = some t :=
          (machine α udpIdleSecs).run_append_iff.2
            ⟨s, hrun, (machine α udpIdleSecs).run_cons_iff.2 ⟨_, hopen, hrunfs⟩⟩
        have hkept := hcorrect.own (es ++ .recv src data :: fs) i t _ (by simp) hrunt
          (step_eq_some_iff.2 (.remove hleaving)) src ⟨s.next, s.now⟩ (by rw [hsessions, hnew])
          (by show s.next ≠ i; omega)
        exact (Table.lookup_erase_eq_some_iff.1 hkept).1 rfl

/-- **When the forwarder keeps its sessions.**  A run opens no session over the unfinished task of an
earlier one of the same source if and only if, wherever it is stopped and however the session tasks
then go on, it is correct. -/
theorem sessions_kept_iff (udpIdleSecs : Nat) (es : List (Event α)) :
    (machine α udpIdleSecs).Meets Settled initial es ↔
      ∀ pre fs, pre <+: es → (∀ f ∈ fs, f.ofSession = true) → Correct udpIdleSecs (pre ++ fs) := by
  constructor
  · rintro hmeets pre fs ⟨rest, rfl⟩ hfs
    refine correct_of_settled ((machine α udpIdleSecs).meets_append_iff.2 ⟨?_, fun s _ => ?_⟩)
    · exact ((machine α udpIdleSecs).meets_append_iff.1 hmeets).1
    · refine (machine α udpIdleSecs).meets_of_forall_mem fun f hf t => ?_
      have hsession := hfs f hf
      cases f with
      | recv src data => cases hsession
      | _ => trivial
  · intro hall
    rw [(machine α udpIdleSecs).meets_iff_forall_step]
    intro fs e s hfs hrun
    by_contra hunsettled
    have hi : Inv s :=
      (machine α udpIdleSecs).run_invariant Inv (fun hi hstep => inv_step hi hstep) inv_initial hrun
    obtain ⟨gs, hgs, hnot⟩ := not_correct_of_unsettled hi hrun hunsettled
    refine hnot ?_
    have hcorrect := hall (fs ++ [e]) gs hfs hgs
    simpa using hcorrect

/-- A client falls silent for the idle time, its session is reaped, and it sends again before the old
session's task has ended. -/
def reopenedRun : List (Event Nat) :=
  [.recv 7 [1], .send, .bound 0 true, .forward 0 true, .pass 60000000000, .reap, .recv 7 [2], .send,
    .bound 1 true, .closed 0]

/-- **A session loses its entry to the task of an earlier one.** -/
theorem reopened_session_lost :
    ¬ ∀ es : List (Event Nat), Correct 60 es := by
  intro hall
  have hend : ((machine Nat 60).run initial reopenedRun).map
      (fun s => (s.sessions.lookup 7, s.tasks 0, s.tasks 1, s.reaped 1, s.failed 1))
        = some (some ⟨1, 60000000000⟩, .leaving 7, .relaying 7, false, false) := by decide +kernel
  obtain ⟨s, hrun, hstate⟩ := Option.map_eq_some_iff.1 hend
  obtain ⟨hentry, hleaving, -⟩ : s.sessions.lookup 7 = some ⟨1, 60000000000⟩
      ∧ s.tasks 0 = .leaving 7 ∧ True := by
    simp only [Prod.mk.injEq] at hstate
    exact ⟨hstate.1, hstate.2.1, trivial⟩
  have hkept := (hall (reopenedRun ++ [.remove 0])).own reopenedRun 0 s _ (by simp) hrun
    (step_eq_some_iff.2 (.remove hleaving)) 7 _ hentry (by decide)
  exact (Table.lookup_erase_eq_some_iff.1 hkept).1 rfl

end Udp

end Forward
end Erbridge
