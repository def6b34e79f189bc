import Erbridge.Core.History

/-!
# What is still running when `serve` and `connect` return

`run_serve_with_shutdown` and `run_connect_with_shutdown` (`reverse/serve.rs`, `reverse/connect.rs`)
start their tasks at four levels.  Serve keeps the handles of its listeners and awaits them; every
connection gets a task of its own that only watches the shutdown token; the control connection gets
a mux driver (`mux::spawn_with_shutdown`) that watches the token too; `relay` moves the client into
two copy loops that are aborted when `relay` is dropped; and `pipe_bidirectional_tracked` moves the
target into two pumps that are neither awaited, aborted nor told of the shutdown once the task that
spawned them has been stopped.

* `Task` lists the stages of each task and `Task.sockets` the sockets it holds in them.
* `State.Joined` is the invariant that serve still has the handle of every listener it has running,
  so no listener is open when it returns (`not_awaited_of_canReturn`).
* `State.Tended` is the invariant of the abort-on-drop handles: a copy loop that has not been told to
  stop still belongs to a relay.  So everything but a pump hears of the shutdown (`told_of_sockets`),
  although perhaps after the return.
* `Turn` is what an event makes of one task: a pump keeps the target whatever the other tasks do
  (`pump_survives`).  `Follows` is the invariant that every task is where its own turns have brought
  it.
* `machine_releases_iff` says after which schedules every socket has been dropped at the return.
-/

namespace Erbridge
namespace Reverse
namespace Shutdown

open Erbridge.Core

/-! ## Tasks -/

/-- The sockets the two functions promise to have dropped. -/
inductive Socket where
  | listener
  | client
  | target
  | control
deriving DecidableEq, Repr

/-- What a listener accepts: tunnel clients, or the external clients of a tunnel (of the SNI
address, in the multi-tenant mode). -/
inductive Port where
  | control
  | clients
deriving DecidableEq, Repr

/-- A control connection, in `handle_control_conn` or `handle_control`: in its Noise handshake, in
`run_enrollment`, or draining the streams of the mux driver with this number. -/
inductive Control where
  | handshaking
  | enrolling
  | session (driver : Nat)
deriving DecidableEq, Repr

/-- An external connection, in `handle_external_client` or `handle_sni` and then in `relay`: waiting
for a tunnel client (for the ClientHello), opening a stream and naming the tunnel, waiting for B's
answer with `to_b` started, or waiting for both copy loops. -/
inductive Client where
  | waiting
  | opening
  | copying (toB : Nat)
  | piping (toB fromB : Nat)
deriving DecidableEq, Repr

/-- The copy loops the relay holds an `AbortOnDropHandle` of. -/
def Client.copies : Client → List Nat
  | .waiting | .opening => []
  | .copying toB => [toB]
  | .piping toB fromB => [toB, fromB]

/-- A stream of A in `handle_inbound_stream`: reading the header and looking the target up, dialing
it, telling A that the dial failed, telling A that it succeeded, or waiting for the two pumps. -/
inductive Inbound where
  | header
  | dialing
  | refusing
  | answering
  | piping (out back : Nat)
deriving DecidableEq, Repr

/-- A task that one of the two functions has started, directly or not.  A listener is `bound` once
it has its address; the accept and reload loops of the multi-tenant mode count as tasks, although
they are joined in place. -/
inductive Task where
  | listening (port : Port) (bound : Bool)
  | reloading
  | control (stage : Control)
  | client (stage : Client)
  | copy (aborted : Bool)
  | driver
  | inbound (stage : Inbound)
  | pump
  | ended
deriving DecidableEq, Repr

namespace Task

/-- The sockets that the future of the task owns.  A relay that waits for its copy loops has moved
the client into them, a control connection in session has moved its socket into the driver, and an
inbound stream has moved the target into its pumps. -/
def sockets : Task → List Socket
  | listening _ true => [.listener]
  | control .handshaking | control .enrolling => [.control]
  | client .waiting | client .opening | client (.copying _) => [.client]
  | copy _ => [.client]
  | driver => [.control]
  | inbound .dialing | inbound .answering => [.target]
  | pump => [.target]
  | _ => []

/-- The tasks whose end `serve` waits for. -/
def awaited : Task → Bool
  | listening _ _ | reloading => true
  | _ => false

/-- The tasks that run under `run_until_cancelled`, or select on the token. -/
def watches : Task → Bool
  | listening _ _ | reloading | control _ | client _ | driver | inbound _ => true
  | copy _ | pump | ended => false

/-- The task that an accepted connection is handed to. -/
def accept : Task → Option Task
  | listening .control true => some (control .handshaking)
  | listening .clients true => some (client .waiting)
  | _ => none

/-- The next stage on the way that succeeds, and the tasks started with it; `next` is the number the
first of them gets. -/
def advance (next : Nat) : Task → Option (Task × List Task)
  | listening port false => some (listening port true, [])
  | control .handshaking => some (control (.session next), [driver])
  | client .waiting => some (client .opening, [])
  | client .opening => some (client (.copying next), [copy false])
  | client (.copying toB) => some (client (.piping toB next), [copy false])
  | inbound .header => some (inbound .dialing, [])
  | inbound .dialing => some (inbound .answering, [])
  | inbound .answering => some (inbound (.piping next (next + 1)), [pump, pump])
  | _ => none

/-- What an aborted task is: the runtime drops its future the next time it gets to it. -/
def abort : Task → Task
  | copy _ => copy true
  | k => k

/-- The tasks that are aborted when this one is dropped. -/
def copies : Task → List Nat
  | client stage => stage.copies
  | _ => []

end Task

/-! ## The two functions -/

/-- Which function runs: `serve` with this many `[[serve.tunnel]]` entries, `serve` with a tenants
file, or `connect` with this many `[[connect.tunnel]]` entries. -/
inductive Role where
  | serve (tunnels : Nat)
  | tenants
  | connect (tunnels : Nat)
deriving DecidableEq, Repr

/-- Where the function itself is.  Serve binds its listeners and then awaits its handles; connect
goes round `run_one_session` and the wait before the next one.  `failed` is a return with an
error. -/
inductive Root where
  | binding (handles : List Nat)
  | awaiting (handles : List Nat)
  | dialing
  | handshaking
  | session (driver : Nat)
  | backoff
  | returned
  | failed
deriving DecidableEq, Repr

/-- The tasks the function has a handle of. -/
def Root.handles : Root → List Nat
  | .binding handles | .awaiting handles => handles
  | _ => []

structure State where
  root : Root
  cancelled : Bool
  /-- Every task started so far, under the number it was started as. -/
  tasks : List Task
deriving DecidableEq, Repr

/-- What the scheduler does next.  Tasks go on after the return as before it. -/
inductive Event where
  | cancel
  | progress
  | abandon
  | accept (task : Nat)
  | advance (task : Nat)
  | divert (task : Nat)
  | stream
  | finish (task : Nat)
  | stop (task : Nat)
  | reap (task : Nat)
  | ret
deriving DecidableEq, Repr

/-- Without an entry both functions bail out; otherwise `serve` has spawned one external listener an
entry when it comes to bind the control address. -/
def Role.start : Role → State
  | .serve tunnels =>
      { root := if tunnels = 0 then .failed else .binding (List.range tunnels),
        cancelled := false,
        tasks := List.replicate tunnels (.listening .clients false) }
  | .tenants => { root := .binding [], cancelled := false, tasks := [] }
  | .connect tunnels =>
      { root := if tunnels = 0 then .failed else .dialing, cancelled := false, tasks := [] }

/-- What `serve` starts once its addresses are bound. -/
def Role.started : Role → List Task
  | .tenants => [.listening .control true, .listening .clients true, .reloading]
  | _ => [.listening .control true]

/-- The way a connection takes when it does not become a tunnel: a code is redeemed in place of a
session, a target that cannot be dialled is reported to A. -/
def Role.divert : Role → Task → Option Task
  | .tenants, .control .handshaking => some (.control .enrolling)
  | _, .inbound .dialing => some (.inbound .refusing)
  | _, _ => none

namespace State

/-- Task `i` is at `k` now and has started `new`. -/
def put (s : State) (i : Nat) (k : Task) (new : List Task) : State :=
  { s with tasks := s.tasks.set i k ++ new }

/-- The future of task `i`, which is at `k`, is dropped. -/
def close (s : State) (i : Nat) (k : Task) : State :=
  { s with tasks := (s.tasks.mapIdx fun j t => if j ∈ k.copies then t.abort else t).set i .ended }

def hasEnded (s : State) (i : Nat) : Bool := s.tasks[i]? == some .ended

/-- The next step of the function itself: serve spawns its loops, connect moves on to the next part
of `run_one_session`.  A session ends when its driver has, since only then `inbound_rx` closes. -/
def progress (role : Role) (s : State) : Option State :=
  match s.root with
  | .binding handles =>
      some { s with
        root := .awaiting (handles ++ List.range' s.tasks.length role.started.length),
        tasks := s.tasks ++ role.started }
  | .dialing => some { s with root := .handshaking }
  | .handshaking =>
      some { s with root := .session s.tasks.length, tasks := s.tasks ++ [.driver] }
  | .session driver => if s.hasEnded driver then some { s with root := .backoff } else none
  | .backoff => some { s with root := .dialing }
  | .awaiting _ | .returned | .failed => none

/-- An address that cannot be bound ends serve with an error; connect waits and dials again. -/
def abandon (s : State) : Option State :=
  match s.root with
  | .binding _ => some { s with root := .failed }
  | .dialing | .handshaking => some { s with root := .backoff }
  | _ => none

/-- Whether the task can end by itself: what it waits for has ended, its connection is over, or there
was an error.  Only an external listener of the single-tenant mode gives up on one; a dial that fails
is reported first. -/
def mayFinish (role : Role) (s : State) : Task → Bool
  | .listening .clients _ => role != .tenants
  | .listening .control _ | .reloading | .ended => false
  | .control (.session driver) => s.hasEnded driver
  | .client (.piping toB fromB) => s.hasEnded toB && s.hasEnded fromB
  | .inbound .dialing => false
  | .inbound (.piping out back) => s.hasEnded out && s.hasEnded back
  | _ => true

/-- Serve returns when every handle it keeps has ended.  Connect returns when the token is cancelled,
wherever it is. -/
def canReturn (s : State) : Bool :=
  match s.root with
  | .awaiting handles => handles.all s.hasEnded
  | .dialing | .handshaking | .session _ | .backoff => s.cancelled
  | .binding _ | .returned | .failed => false

/-- No task holds a socket any more. -/
def Released (s : State) : Prop := ∀ k ∈ s.tasks, k.sockets = []

instance (s : State) : Decidable s.Released := inferInstanceAs (Decidable (∀ k ∈ s.tasks, _))

end State

/-- Any interleaving of the function and its tasks. -/
def machine (role : Role) : Machine State Event where
  step s
    | .cancel => some { s with cancelled := true }
    | .progress => s.progress role
    | .abandon => s.abandon
    | .accept i =>
        s.tasks[i]?.bind fun k => k.accept.map fun conn => s.put i k [conn]
    | .advance i =>
        s.tasks[i]?.bind fun k => (k.advance s.tasks.length).map fun next => s.put i next.1 next.2
    | .divert i =>
        s.tasks[i]?.bind fun k => (role.divert k).map fun next => s.put i next []
    -- the driver has queued a stream of A, and `inbound_rx` hands it on
    | .stream =>
        match s.root with
        | .session _ => some { s with tasks := s.tasks ++ [.inbound .header] }
        | _ => none
    | .finish i =>
        s.tasks[i]?.bind fun k => if s.mayFinish role k then some (s.close i k) else none
    | .stop i =>
        s.tasks[i]?.bind fun k => if s.cancelled && k.watches then some (s.close i k) else none
    | .reap i =>
        s.tasks[i]?.bind fun k => if k = .copy true then some (s.close i k) else none
    | .ret => if s.canReturn then some { s with root := .returned } else none

/-! ## What a step does to the tasks -/

section Steps

variable {role : Role} {s t : State} {i j : Nat} {k k' : Task}

theorem getElem?_put {new : List Task} (h : (s.put i k new).tasks[j]? = some k') :
    (j = i ∧ k' = k) ∨ (j ≠ i ∧ s.tasks[j]? = some k') ∨
      ∃ n, j = s.tasks.length + n ∧ new[n]? = some k' := by
  simp only [State.put] at h
  by_cases hj : j < s.tasks.length
  · rw [List.getElem?_append_left (by simpa using hj), List.getElem?_set] at h
    by_cases hij : i = j
    · simp only [hij, if_true, hj, Option.some.injEq] at h
      exact .inl ⟨hij.symm, h.symm⟩
    · simp only [hij, if_false] at h
      exact .inr (.inl ⟨Ne.symm hij, h⟩)
  · have hlen : s.tasks.length ≤ j := Nat.le_of_not_lt hj
    rw [List.getElem?_append_right (by simpa using hlen), List.length_set] at h
    exact .inr (.inr ⟨j - s.tasks.length, by omega, h⟩)

theorem getElem?_put_of_ne {new : List Task} (hj : j ≠ i) (h : s.tasks[j]? = some k') :
    (s.put i k new).tasks[j]? = some k' := by
  obtain ⟨hlt, -⟩ := List.getElem?_eq_some_iff.1 h
  rw [State.put, List.getElem?_append_left (by simpa using hlt), List.getElem?_set_ne (Ne.symm hj)]
  exact h

theorem getElem?_put_self {new : List Task} (h : s.tasks[i]? = some k') :
    (s.put i k new).tasks[i]? = some k := by
  obtain ⟨hlt, -⟩ := List.getElem?_eq_some_iff.1 h
  simp [State.put, List.getElem?_append_left, hlt]

theorem getElem?_close (h : (s.close i k).tasks[j]? = some k') :
    k' = .ended ∨ (j ≠ i ∧ ∃ k₀, s.tasks[j]? = some k₀ ∧
      k' = if j ∈ k.copies then k₀.abort else k₀) := by
  simp only [State.close, List.getElem?_set, List.getElem?_mapIdx] at h
  by_cases hij : i = j
  · rw [if_pos hij, Option.ite_none_right_eq_some] at h
    exact .inl (Option.some.inj h.2).symm
  · rw [if_neg hij, Option.map_eq_some_iff] at h
    obtain ⟨k₀, hk₀, rfl⟩ := h
    exact .inr ⟨Ne.symm hij, k₀, hk₀, rfl⟩

theorem getElem?_close_of_ne (hj : j ≠ i) (h : s.tasks[j]? = some k') :
    (s.close i k).tasks[j]? = some (if j ∈ k.copies then k'.abort else k') := by
  simp [State.close, Ne.symm hj, h]

/-- Everything a step can do: the function moves, a connection comes in, a task goes to its next
stage, or the future of a task is dropped. -/
inductive Moves (role : Role) (s : State) : Event → State → Prop where
  | cancel : Moves role s .cancel { s with cancelled := true }
  | progress {t : State} (h : s.progress role = some t) : Moves role s .progress t
  | abandon {t : State} (h : s.abandon = some t) : Moves role s .abandon t
  | accept {i : Nat} {k conn : Task} (hk : s.tasks[i]? = some k) (h : k.accept = some conn) :
      Moves role s (.accept i) (s.put i k [conn])
  | advance {i : Nat} {k next : Task} {new : List Task} (hk : s.tasks[i]? = some k)
      (h : k.advance s.tasks.length = some (next, new)) :
      Moves role s (.advance i) (s.put i next new)
  | divert {i : Nat} {k next : Task} (hk : s.tasks[i]? = some k) (h : role.divert k = some next) :
      Moves role s (.divert i) (s.put i next [])
  | stream {driver : Nat} (h : s.root = .session driver) :
      Moves role s .stream { s with tasks := s.tasks ++ [.inbound .header] }
  | finish {i : Nat} {k : Task} (hk : s.tasks[i]? = some k) (h : s.mayFinish role k = true) :
      Moves role s (.finish i) (s.close i k)
  | stop {i : Nat} {k : Task} (hk : s.tasks[i]? = some k) (hc : s.cancelled = true)
      (h : k.watches = true) : Moves role s (.stop i) (s.close i k)
  | reap {i : Nat} {k : Task} (hk : s.tasks[i]? = some k) (h : k = .copy true) :
      Moves role s (.reap i) (s.close i k)
  | ret (h : s.canReturn = true) : Moves role s .ret { s with root := .returned }

theorem moves_of_step {e : Event} (h : (machine role).step s e = some t) : Moves role s e t := by
  cases e with
  | cancel =>
      obtain rfl := Option.some.inj h
      exact .cancel
  | progress => exact .progress h
  | abandon => exact .abandon h
  | accept i =>
      obtain ⟨k, hk, h⟩ := Option.bind_eq_some_iff.1 h
      obtain ⟨conn, hconn, rfl⟩ := Option.map_eq_some_iff.1 h
      exact .accept hk hconn
  | advance i =>
      obtain ⟨k, hk, h⟩ := Option.bind_eq_some_iff.1 h
      obtain ⟨next, hnext, rfl⟩ := Option.map_eq_some_iff.1 h
      exact .advance hk hnext
  | divert i =>
      obtain ⟨k, hk, h⟩ := Option.bind_eq_some_iff.1 h
      obtain ⟨next, hnext, rfl⟩ := Option.map_eq_some_iff.1 h
      exact .divert hk hnext
  | stream =>
      simp only [machine] at h
      split at h
      · rename_i hroot
        obtain rfl := Option.some.inj h
        exact .stream hroot
      · cases h
  | finish i =>
      obtain ⟨k, hk, h⟩ := Option.bind_eq_some_iff.1 h
      obtain ⟨hmay, h⟩ := Option.ite_none_right_eq_some.1 h
      obtain rfl := Option.some.inj h
      exact .finish hk hmay
  | stop i =>
      obtain ⟨k, hk, h⟩ := Option.bind_eq_some_iff.1 h
      obtain ⟨hstop, h⟩ := Option.ite_none_right_eq_some.1 h
      obtain ⟨hcancelled, hwatches⟩ := Bool.and_eq_true_iff.1 hstop
      obtain rfl := Option.some.inj h
      exact .stop hk hcancelled hwatches
  | reap i =>
      obtain ⟨k, hk, h⟩ := Option.bind_eq_some_iff.1 h
      obtain ⟨haborted, h⟩ := Option.ite_none_right_eq_some.1 h
      obtain rfl := Option.some.inj h
      exact .reap hk haborted
  | ret =>
      obtain ⟨hret, h⟩ := Option.ite_none_right_eq_some.1 h
      obtain rfl := Option.some.inj h
      exact .ret hret

/-- The function itself only ever starts drivers and what it awaits. -/
theorem tasks_of_progress (h : s.progress role = some t) :
    ∃ new, (∀ k ∈ new, k = .driver ∨ k.awaited = true) ∧ t.tasks = s.tasks ++ new := by
  rcases s with ⟨root, cancelled, tasks⟩
  cases root with
  | binding handles =>
      obtain rfl := Option.some.inj h
      exact ⟨role.started, by cases role <;> simp [Role.started, Task.awaited], rfl⟩
  | handshaking =>
      obtain rfl := Option.some.inj h
      exact ⟨[.driver], by simp, rfl⟩
  | dialing => exact ⟨[], by simp, by rw [← Option.some.inj h, List.append_nil]⟩
  | session driver =>
      obtain ⟨-, h⟩ := Option.ite_none_right_eq_some.1 h
      exact ⟨[], by simp, by rw [← Option.some.inj h, List.append_nil]⟩
  | backoff => exact ⟨[], by simp, by rw [← Option.some.inj h, List.append_nil]⟩
  | awaiting handles => cases h
  | returned => cases h
  | failed => cases h

theorem tasks_of_abandon (h : s.abandon = some t) : t.tasks = s.tasks := by
  revert h
  fun_cases State.abandon s <;> simp +contextual [eq_comm]

end Steps

/-! ## Handles: what serve waits for -/

namespace Task

theorem awaited_of_accept {k conn : Task} (h : k.accept = some conn) : conn.awaited = false := by
  revert h
  fun_cases accept k <;> simp +contextual [awaited, eq_comm]

/-- No stage starts a task that anybody awaits, and only a listener becomes one. -/
theorem awaited_of_advance {n : Nat} {k next : Task} {new : List Task}
    (h : k.advance n = some (next, new)) :
    (next.awaited = true → k.awaited = true) ∧ ∀ k' ∈ new, k'.awaited = false := by
  revert h
  fun_cases advance n k <;> simp +contextual [awaited, eq_comm]

theorem awaited_of_divert {role : Role} {k next : Task} (h : role.divert k = some next) :
    next.awaited = false := by
  revert h
  fun_cases Role.divert role k <;> simp +contextual [awaited, eq_comm]

@[simp] theorem awaited_abort (k : Task) : k.abort.awaited = k.awaited := by
  cases k <;> rfl

end Task

/-- Unless it has failed, the function has a handle of every task that is to be awaited. -/
def State.Joined (s : State) : Prop :=
  s.root = .failed ∨
    ∀ i k, s.tasks[i]? = some k → k.awaited = true → i ∈ s.root.handles

section Joined

variable {role : Role} {s t : State} {i : Nat} {k : Task}

theorem joined_start : role.start.Joined := by
  cases role with
  | serve tunnels =>
      by_cases h0 : tunnels = 0
      · exact .inl (by simp [Role.start, h0])
      · refine .inr fun i k hk _ => ?_
        obtain ⟨hlt, -⟩ := List.getElem?_eq_some_iff.1 hk
        simpa [Role.start, h0, Root.handles] using hlt
  | tenants => exact .inr fun i k hk _ => by simp [Role.start] at hk
  | connect tunnels => exact .inr fun i k hk _ => by simp [Role.start] at hk

theorem joined_put {next : Task} {new : List Task} (h : s.Joined) (hk : s.tasks[i]? = some k)
    (hnext : next.awaited = true → k.awaited = true) (hnew : ∀ k' ∈ new, k'.awaited = false) :
    (s.put i next new).Joined := by
  refine h.imp id fun hj j k' hk' ha => ?_
  obtain ⟨rfl, rfl⟩ | ⟨-, hold⟩ | ⟨n, -, hn⟩ := getElem?_put hk'
  · exact hj _ _ hk (hnext ha)
  · exact hj _ _ hold ha
  · rw [hnew _ (List.mem_of_getElem? hn)] at ha
    cases ha

theorem joined_close (h : s.Joined) : (s.close i k).Joined := by
  refine h.imp id fun hj j k' hk' ha => ?_
  obtain rfl | ⟨-, k₀, hk₀, rfl⟩ := getElem?_close hk'
  · cases ha
  · exact hj _ _ hk₀ (by split at ha <;> simpa using ha)

theorem joined_append (h : s.Joined) (hk : k.awaited = false) :
    { s with tasks := s.tasks ++ [k] }.Joined := by
  refine h.imp id fun hj i k' hk' ha => ?_
  by_cases hi : i < s.tasks.length
  · rw [List.getElem?_append_left hi] at hk'
    exact hj i k' hk' ha
  · rw [List.getElem?_append_right (Nat.le_of_not_lt hi)] at hk'
    obtain rfl := List.mem_singleton.1 (List.mem_of_getElem? hk')
    rw [hk] at ha
    cases ha

theorem joined_progress (h : s.Joined) (hstep : s.progress role = some t) : t.Joined := by
  rcases s with ⟨root, cancelled, tasks⟩
  cases root with
  | binding handles =>
      obtain rfl := Option.some.inj hstep
      obtain h | hj := h
      · cases h
      · refine .inr fun i k hk ha => ?_
        by_cases hi : i < tasks.length
        · rw [List.getElem?_append_left hi] at hk
          exact List.mem_append_left _ (hj i k hk ha)
        · obtain ⟨hlt, -⟩ := List.getElem?_eq_some_iff.1 hk
          refine List.mem_append_right _ (List.mem_range'_1.2 ⟨Nat.le_of_not_lt hi, ?_⟩)
          simpa using hlt
  | dialing =>
      obtain rfl := Option.some.inj hstep
      exact h.imp (fun h => nomatch h) id
  | handshaking =>
      obtain rfl := Option.some.inj hstep
      exact (joined_append h rfl).imp (fun h => nomatch h) id
  | session driver =>
      obtain ⟨-, hstep⟩ := Option.ite_none_right_eq_some.1 hstep
      obtain rfl := Option.some.inj hstep
      exact h.imp (fun h => nomatch h) id
  | backoff =>
      obtain rfl := Option.some.inj hstep
      exact h.imp (fun h => nomatch h) id
  | awaiting handles => cases hstep
  | returned => cases hstep
  | failed => cases hstep

theorem joined_abandon (h : s.Joined) (hstep : s.abandon = some t) : t.Joined := by
  rcases s with ⟨root, cancelled, tasks⟩
  cases root with
  | binding handles =>
      obtain rfl := Option.some.inj hstep
      exact .inl rfl
  | dialing =>
      obtain rfl := Option.some.inj hstep
      exact h.imp (fun h => nomatch h) id
  | handshaking =>
      obtain rfl := Option.some.inj hstep
      exact h.imp (fun h => nomatch h) id
  | _ => cases hstep

/-- At the return nothing is left of what the function awaits. -/
theorem not_awaited_of_canReturn (h : s.Joined) (hret : s.canReturn = true) :
    ∀ k ∈ s.tasks, k.awaited = false := by
  intro k hk
  obtain ⟨i, hi⟩ := List.mem_iff_getElem?.1 hk
  obtain hroot | hj := h
  · simp [State.canReturn, hroot] at hret
  · by_contra ha
    have hmem : i ∈ s.root.handles := hj i k hi (by simpa using ha)
    rcases s with ⟨root, cancelled, tasks⟩
    cases root with
    | awaiting handles =>
        have hended := List.all_eq_true.1 hret i hmem
        simp only [State.hasEnded, beq_iff_eq] at hended
        obtain rfl := Option.some.inj (hi.symm.trans hended)
        exact ha rfl
    | binding handles => cases hret
    | _ => cases hmem

theorem joined_step {e : Event} (h : s.Joined) (hstep : (machine role).step s e = some t) :
    t.Joined := by
  cases moves_of_step hstep with
  | cancel => exact h
  | progress hprogress => exact joined_progress h hprogress
  | abandon habandon => exact joined_abandon h habandon
  | accept hk hconn =>
      refine joined_put h hk id fun k' hk' => ?_
      obtain rfl := List.mem_singleton.1 hk'
      exact Task.awaited_of_accept hconn
  | advance hk hnext =>
      exact joined_put h hk (Task.awaited_of_advance hnext).1 (Task.awaited_of_advance hnext).2
  | divert hk hnext =>
      refine joined_put h hk (fun ha => ?_) fun k' hk' => nomatch hk'
      rw [Task.awaited_of_divert hnext] at ha
      cases ha
  | stream _ => exact joined_append h rfl
  | finish hk _ => exact joined_close h
  | stop hk _ _ => exact joined_close h
  | reap hk _ => exact joined_close h
  | ret hret =>
      refine .inr fun i k hk ha => ?_
      rw [not_awaited_of_canReturn h hret k (List.mem_of_getElem? hk)] at ha
      cases ha

theorem joined_run {es : List Event} (hrun : (machine role).run role.start es = some t) :
    t.Joined :=
  (machine role).run_invariant State.Joined joined_step joined_start hrun

end Joined

/-! ## Abort on drop: what a relay leaves behind -/

namespace Task

theorem copies_of_accept {k conn : Task} (h : k.accept = some conn) :
    k ≠ copy false ∧ conn ≠ copy false := by
  revert h
  fun_cases accept k <;> simp +contextual [eq_comm]

/-- The copy loop that a stage starts belongs to the relay, which keeps the ones it had. -/
theorem copies_of_advance {n : Nat} {k next : Task} {new : List Task}
    (h : k.advance n = some (next, new)) :
    next ≠ copy false ∧ k.copies ⊆ next.copies ∧
      (copy false ∈ new → new = [copy false] ∧ n ∈ next.copies) := by
  revert h
  fun_cases advance n k <;> simp +contextual [copies, Client.copies, eq_comm]

theorem copies_of_divert {role : Role} {k next : Task} (h : role.divert k = some next) :
    next ≠ copy false ∧ k.copies = [] := by
  revert h
  fun_cases Role.divert role k <;> simp +contextual [copies, eq_comm]

end Task

/-- Every copy loop that has not been aborted is one that a running relay holds the handle of. -/
def State.Tended (s : State) : Prop :=
  ∀ i : Nat, s.tasks[i]? = some (Task.copy false) →
    ∃ (j : Nat) (k : Task), s.tasks[j]? = some k ∧ i ∈ k.copies

section Tended

variable {role : Role} {s t : State} {i : Nat} {k : Task}

theorem tended_start : role.start.Tended := by
  intro i hi
  have hmem := List.mem_of_getElem? hi
  cases role <;> simp [Role.start] at hmem

theorem tended_append {new : List Task} (h : s.Tended) (hnew : Task.copy false ∉ new) :
    ∀ i : Nat, (s.tasks ++ new)[i]? = some (Task.copy false) →
      ∃ (j : Nat) (k : Task), (s.tasks ++ new)[j]? = some k ∧ i ∈ k.copies := by
  intro i hi
  by_cases hlt : i < s.tasks.length
  · rw [List.getElem?_append_left hlt] at hi
    obtain ⟨j, k, hj, hmem⟩ := h i hi
    obtain ⟨hjlt, -⟩ := List.getElem?_eq_some_iff.1 hj
    exact ⟨j, k, by rw [List.getElem?_append_left hjlt]; exact hj, hmem⟩
  · rw [List.getElem?_append_right (Nat.le_of_not_lt hlt)] at hi
    exact absurd (List.mem_of_getElem? hi) hnew

theorem tended_put {next : Task} {new : List Task} (h : s.Tended) (hk : s.tasks[i]? = some k)
    (hnext : next ≠ .copy false) (hsub : k.copies ⊆ next.copies)
    (hnew : .copy false ∈ new → new = [.copy false] ∧ s.tasks.length ∈ next.copies) :
    (s.put i next new).Tended := by
  intro l hl
  obtain ⟨-, hcopy⟩ | ⟨-, hold⟩ | ⟨m, rfl, hm⟩ := getElem?_put hl
  · exact absurd hcopy.symm hnext
  · obtain ⟨j, k', hj, hmem⟩ := h l hold
    by_cases hji : j = i
    · rw [hji, hk] at hj
      obtain rfl := Option.some.inj hj
      exact ⟨i, next, getElem?_put_self hk, hsub hmem⟩
    · exact ⟨j, k', getElem?_put_of_ne hji hj, hmem⟩
  · obtain ⟨rfl, hmem⟩ := hnew (List.mem_of_getElem? hm)
    cases m with
    | zero => exact ⟨i, next, getElem?_put_self hk, hmem⟩
    | succ m => cases hm

/-- Dropping a relay aborts exactly its own copy loops. -/
theorem tended_close (h : s.Tended) (hk : s.tasks[i]? = some k) : (s.close i k).Tended := by
  intro l hl
  obtain hended | ⟨-, k₀, hk₀, heq⟩ := getElem?_close hl
  · cases hended
  · have hkeep : l ∉ k.copies ∧ k₀ = .copy false := by
      split at heq
      · cases k₀ <;> cases heq
      · exact ⟨‹_›, heq.symm⟩
    obtain ⟨hown, rfl⟩ := hkeep
    obtain ⟨j, k', hj, hmem⟩ := h l hk₀
    have hji : j ≠ i := by
      rintro rfl
      rw [hk] at hj
      obtain rfl := Option.some.inj hj
      exact hown hmem
    refine ⟨j, _, getElem?_close_of_ne hji hj, ?_⟩
    cases k' with
    | client stage => split <;> exact hmem
    | _ => cases hmem

theorem tended_step {e : Event} (h : s.Tended) (hstep : (machine role).step s e = some t) :
    t.Tended := by
  cases moves_of_step hstep with
  | cancel => exact h
  | progress hprogress =>
      obtain ⟨new, hnew, heq⟩ := tasks_of_progress hprogress
      unfold State.Tended
      rw [heq]
      exact tended_append h fun hmem => (hnew _ hmem).elim (fun h => nomatch h) (fun h => nomatch h)
  | abandon habandon =>
      unfold State.Tended
      rw [tasks_of_abandon habandon]
      exact h
  | accept hk hconn =>
      obtain ⟨hself, hnew⟩ := Task.copies_of_accept hconn
      refine tended_put h hk hself (List.Subset.refl _) fun hmem => ?_
      exact absurd (List.mem_singleton.1 hmem).symm hnew
  | advance hk hnext =>
      obtain ⟨hcopy, hsub, hnew⟩ := Task.copies_of_advance hnext
      exact tended_put h hk hcopy hsub hnew
  | divert hk hnext =>
      obtain ⟨hcopy, hnone⟩ := Task.copies_of_divert hnext
      exact tended_put h hk hcopy (by simp [hnone]) (by simp)
  | stream _ => exact tended_append h (by simp)
  | finish hk _ => exact tended_close h hk
  | stop hk _ _ => exact tended_close h hk
  | reap hk _ => exact tended_close h hk
  | ret _ => exact h

theorem tended_run {es : List Event} (hrun : (machine role).run role.start es = some t) :
    t.Tended :=
  (machine role).run_invariant State.Tended tended_step tended_start hrun

/-- Whatever holds a socket and is not a pump will hear of the shutdown: it watches the token, it
has been aborted, or it will be with a relay that watches the token. -/
theorem told_of_sockets {es : List Event} (hrun : (machine role).run role.start es = some t)
    (hi : t.tasks[i]? = some k) (hs : k.sockets ≠ []) (hp : k ≠ .pump) :
    k.watches = true ∨ k = .copy true ∨
      ∃ (j : Nat) (relay : Task), t.tasks[j]? = some relay ∧ relay.watches = true ∧
        i ∈ relay.copies := by
  cases k with
  | copy aborted =>
      cases aborted with
      | true => exact .inr (.inl rfl)
      | false =>
          obtain ⟨j, relay, hj, hmem⟩ := tended_run hrun i hi
          refine .inr (.inr ⟨j, relay, hj, ?_, hmem⟩)
          cases relay with
          | client stage => rfl
          | _ => cases hmem
  | pump => exact absurd rfl hp
  | ended => exact absurd rfl hs
  | _ => exact .inl rfl

end Tended

/-! ## The turns of one task -/

/-- The task whose turn the event is. -/
def Event.turn : Event → Option Nat
  | .advance i | .divert i | .finish i | .stop i | .reap i => some i
  | .cancel | .progress | .abandon | .accept _ | .stream | .ret => none

/-- What one event makes of the task with number `i`: somebody else's can only abort it. -/
inductive Turn (role : Role) (i : Nat) : Event → Task → Task → Prop where
  | other {e : Event} {k k' : Task} (h : e.turn ≠ some i) (hk : k' = k ∨ k' = k.abort) :
      Turn role i e k k'
  | advance {n : Nat} {k k' : Task} {new : List Task} (h : k.advance n = some (k', new)) :
      Turn role i (.advance i) k k'
  | divert {k k' : Task} (h : role.divert k = some k') : Turn role i (.divert i) k k'
  | finish {k : Task} : Turn role i (.finish i) k .ended
  | stop {k : Task} (h : k.watches = true) : Turn role i (.stop i) k .ended
  | reap : Turn role i (.reap i) (.copy true) .ended

section Turns

variable {role : Role} {s t : State} {i : Nat} {k : Task} {e : Event}

/-- An event that lets task `j` move to `next` and start others, as seen from task `i`. -/
theorem turn_put {j : Nat} {next kj : Task} {new : List Task} (hk : s.tasks[i]? = some k)
    (hkj : s.tasks[j]? = some kj) (hne : j ≠ i → e.turn ≠ some i)
    (hself : j = i → Turn role i e kj next) :
    ∃ k', (s.put j next new).tasks[i]? = some k' ∧ Turn role i e k k' := by
  by_cases hji : j = i
  · subst hji
    obtain rfl := Option.some.inj (hkj.symm.trans hk)
    exact ⟨next, getElem?_put_self hk, hself rfl⟩
  · exact ⟨k, getElem?_put_of_ne (Ne.symm hji) hk, .other (hne hji) (.inl rfl)⟩

/-- An event with which task `j` is dropped, as seen from task `i`. -/
theorem turn_close {j : Nat} {kj : Task} (hk : s.tasks[i]? = some k) (hkj : s.tasks[j]? = some kj)
    (hturn : e.turn = some j) (hself : j = i → Turn role i e kj .ended) :
    ∃ k', (s.close j kj).tasks[i]? = some k' ∧ Turn role i e k k' := by
  by_cases hji : j = i
  · subst hji
    obtain rfl := Option.some.inj (hkj.symm.trans hk)
    obtain ⟨hlt, -⟩ := List.getElem?_eq_some_iff.1 hk
    exact ⟨.ended, by simp [State.close, hlt], hself rfl⟩
  · have hother : e.turn ≠ some i := fun h => hji (Option.some.inj (hturn.symm.trans h))
    refine ⟨_, getElem?_close_of_ne (Ne.symm hji) hk, .other hother ?_⟩
    split
    · exact .inr rfl
    · exact .inl rfl

/-- What a step does to a task that has been started. -/
theorem turn_of_step (hk : s.tasks[i]? = some k) (hstep : (machine role).step s e = some t) :
    ∃ k', t.tasks[i]? = some k' ∧ Turn role i e k k' := by
  obtain ⟨hlt, -⟩ := List.getElem?_eq_some_iff.1 hk
  cases moves_of_step hstep with
  | cancel => exact ⟨k, hk, .other (by simp [Event.turn]) (.inl rfl)⟩
  | progress hprogress =>
      obtain ⟨new, -, heq⟩ := tasks_of_progress hprogress
      refine ⟨k, ?_, .other (by simp [Event.turn]) (.inl rfl)⟩
      rw [heq, List.getElem?_append_left hlt]
      exact hk
  | abandon habandon =>
      refine ⟨k, ?_, .other (by simp [Event.turn]) (.inl rfl)⟩
      rw [tasks_of_abandon habandon]
      exact hk
  | accept hkj hconn =>
      -- a listener that hands a connection on stays what it is
      exact turn_put hk hkj (fun _ => by simp [Event.turn])
        (fun _ => .other (by simp [Event.turn]) (.inl rfl))
  | advance hkj hnext =>
      refine turn_put hk hkj (fun hne h => hne (Option.some.inj h)) ?_
      rintro rfl
      exact .advance hnext
  | divert hkj hnext =>
      refine turn_put hk hkj (fun hne h => hne (Option.some.inj h)) ?_
      rintro rfl
      exact .divert hnext
  | stream _ =>
      refine ⟨k, ?_, .other (by simp [Event.turn]) (.inl rfl)⟩
      exact (List.getElem?_append_left hlt).trans hk
  | finish hkj _ =>
      apply turn_close hk hkj rfl
      rintro rfl
      exact .finish
  | stop hkj _ hwatches =>
      apply turn_close hk hkj rfl
      rintro rfl
      exact .stop hwatches
  | reap hkj haborted =>
      apply turn_close hk hkj rfl
      rintro rfl
      exact haborted ▸ .reap
  | ret _ => exact ⟨k, hk, .other (by simp [Event.turn]) (.inl rfl)⟩

/-- Only a task that has been started gets a turn. -/
theorem lt_of_turn (hturn : e.turn = some i) (hstep : (machine role).step s e = some t) :
    i < s.tasks.length := by
  have hlt : ∀ {j k}, s.tasks[j]? = some k → some j = some i → i < s.tasks.length := by
    rintro j k hk heq
    obtain rfl := Option.some.inj heq
    exact (List.getElem?_eq_some_iff.1 hk).1
  cases moves_of_step hstep with
  | advance hk _ => exact hlt hk hturn
  | divert hk _ => exact hlt hk hturn
  | finish hk _ => exact hlt hk hturn
  | stop hk _ _ => exact hlt hk hturn
  | reap hk _ => exact hlt hk hturn
  | _ => cases hturn

/-- A pump goes on through every step but its own last one: its spawner's handle does not stop it,
and it does not look at the token. -/
theorem pump_step (hi : s.tasks[i]? = some .pump) (he : e ≠ .finish i)
    (hstep : (machine role).step s e = some t) : t.tasks[i]? = some .pump := by
  obtain ⟨k', hk', hturn⟩ := turn_of_step hi hstep
  cases hturn with
  | other _ hk =>
      obtain rfl | rfl := hk
      · exact hk'
      · exact hk'
  | advance h => cases h
  | divert h => cases role <;> cases h
  | finish => exact absurd rfl he
  | stop h => cases h

/-- So it keeps the target open for as long as it runs, over the return and after it. -/
theorem pump_survives {es : List Event} (hi : s.tasks[i]? = some .pump) (hno : .finish i ∉ es)
    (hrun : (machine role).run s es = some t) : t.tasks[i]? = some .pump ∧ ¬t.Released := by
  have hpump : t.tasks[i]? = some .pump := by
    refine (machine role).run_invariant_of_meets (fun u => u.tasks[i]? = some .pump)
      (fun hu hne hstep => pump_step hu hne hstep) hi
      ((machine role).meets_of_forall_mem fun e he _ => ?_) hrun
    exact fun heq => hno (heq ▸ he)
  exact ⟨hpump, fun h => nomatch h _ (List.mem_of_getElem? hpump)⟩

end Turns

/-! ## Which schedules leave a socket -/

/-- The tasks of a run as they were started; the number of a task is its place in the list. -/
def started (role : Role) (es : List Event) : List Task :=
  role.start.tasks ++ (machine role).history
    (fun s e => (((machine role).step s e).map fun t => t.tasks.drop s.tasks.length).getD [])
    role.start es

/-- The task has come to its end, or has been dropped at the token. -/
def Left (es : List Event) (i : Nat) : Prop := .finish i ∈ es ∨ .stop i ∈ es

/-- What the schedule has to have done with task `i`, by what it was started as: a control connection
has given its socket to a driver, a client connection its client to two copy loops, an inbound stream
has not dialled, has given up on the target or has given it to two pumps; or the task has left.  A
driver has left, a copy loop has come to its end or has been dropped after its relay was, and a pump
has come to its end by itself. -/
def Attended (es : List Event) (i : Nat) : Task → Prop
  | .control _ => .advance i ∈ es ∨ Left es i
  | .client _ => 3 ≤ es.count (.advance i) ∨ Left es i
  | .inbound _ => .advance i ∉ es ∨ .divert i ∈ es ∨ 3 ≤ es.count (.advance i) ∨ Left es i
  | .copy _ => .finish i ∈ es ∨ .reap i ∈ es
  | .driver => Left es i
  | .pump => .finish i ∈ es
  | .listening _ _ | .reloading | .ended => True

instance (es : List Event) (i : Nat) : Decidable (Left es i) :=
  inferInstanceAs (Decidable (_ ∨ _))

instance (es : List Event) (i : Nat) : ∀ k, Decidable (Attended es i k)
  | .control _ | .client _ | .inbound _ | .copy _ => inferInstanceAs (Decidable (_ ∨ _))
  | .driver => inferInstanceAs (Decidable (Left es i))
  | .pump => inferInstanceAs (Decidable (_ ∈ _))
  | .listening _ _ | .reloading | .ended => inferInstanceAs (Decidable True)

namespace Task

/-- What a task can be started as. -/
def Fresh : Task → Prop
  | listening _ _ | reloading | control .handshaking | client .waiting | copy false | driver
  | inbound .header | pump => True
  | _ => False

theorem fresh_of_awaited {k : Task} (h : k.awaited = true) : k.Fresh := by
  cases k with
  | listening port bound => trivial
  | reloading => trivial
  | _ => cases h

theorem fresh_of_accept {k conn : Task} (h : k.accept = some conn) : conn.Fresh := by
  revert h
  fun_cases accept k <;> simp +contextual [Fresh, eq_comm]

theorem fresh_of_advance {n : Nat} {k next : Task} {new : List Task}
    (h : k.advance n = some (next, new)) : ∀ k' ∈ new, k'.Fresh := by
  revert h
  fun_cases advance n k <;> simp +contextual [Fresh, eq_comm]

end Task

/-- A task that was started as `born` has gone away. -/
def Gone (es : List Event) (i : Nat) : Task → Prop
  | .copy _ => .finish i ∈ es ∨ .reap i ∈ es
  | .pump => .finish i ∈ es
  | .listening _ _ | .reloading => True
  | _ => Left es i

/-- Where the turns of task `i` have brought it that was started as `born`. -/
def Traced (es : List Event) (i : Nat) (born : Task) : Task → Prop
  | .listening _ _ | .reloading => born.awaited = true
  | .control (.session _) => born = .control .handshaking ∧ .advance i ∈ es
  | .control _ => born = .control .handshaking ∧ .advance i ∉ es ∧ ¬Left es i
  | .client .waiting => born = .client .waiting ∧ es.count (.advance i) = 0 ∧ ¬Left es i
  | .client .opening => born = .client .waiting ∧ es.count (.advance i) = 1 ∧ ¬Left es i
  | .client (.copying _) => born = .client .waiting ∧ es.count (.advance i) = 2 ∧ ¬Left es i
  | .client (.piping _ _) => born = .client .waiting ∧ es.count (.advance i) = 3
  | .copy _ => born = .copy false ∧ .finish i ∉ es ∧ .reap i ∉ es
  | .driver => born = .driver ∧ ¬Left es i
  | .pump => born = .pump ∧ .finish i ∉ es
  | .inbound .header =>
      born = .inbound .header ∧ es.count (.advance i) = 0 ∧ .divert i ∉ es ∧ ¬Left es i
  | .inbound .dialing =>
      born = .inbound .header ∧ es.count (.advance i) = 1 ∧ .divert i ∉ es ∧ ¬Left es i
  | .inbound .answering =>
      born = .inbound .header ∧ es.count (.advance i) = 2 ∧ .divert i ∉ es ∧ ¬Left es i
  | .inbound .refusing => born = .inbound .header ∧ .divert i ∈ es
  | .inbound (.piping _ _) => born = .inbound .header ∧ es.count (.advance i) = 3
  | .ended => Gone es i born

section Traced

variable {role : Role} {s t : State} {es : List Event} {e : Event} {i : Nat} {born k k' : Task}

theorem attended_of_gone (h : Gone es i born) : Attended es i born := by
  cases born with
  | control stage => exact .inr h
  | client stage => exact .inr h
  | inbound stage => exact .inr (.inr (.inr h))
  | copy aborted => exact h
  | driver => exact h
  | pump => exact h
  | _ => trivial

/-- So the schedule has taken the sockets from a task exactly when it has attended to it. -/
theorem sockets_iff_attended (h : Traced es i born k) (ha : k.awaited = false) :
    k.sockets = [] ↔ Attended es i born := by
  cases k with
  | listening port bound => cases ha
  | reloading => cases ha
  | control stage =>
      cases stage with
      | session driver =>
          obtain ⟨rfl, hadvance⟩ := h
          exact iff_of_true rfl (.inl hadvance)
      | _ =>
          obtain ⟨rfl, hstay, hleft⟩ := h
          exact iff_of_false (by simp [Task.sockets]) (by simp [Attended, hstay, hleft])
  | client stage =>
      cases stage with
      | piping toB fromB =>
          obtain ⟨rfl, hcount⟩ := h
          exact iff_of_true rfl (.inl (by omega))
      | _ =>
          obtain ⟨rfl, hcount, hleft⟩ := h
          exact iff_of_false (by simp [Task.sockets]) (by simp [Attended, hcount, hleft])
  | copy aborted =>
      obtain ⟨rfl, hfinish, hreap⟩ := h
      exact iff_of_false (by simp [Task.sockets]) (by simp [Attended, hfinish, hreap])
  | driver =>
      obtain ⟨rfl, hleft⟩ := h
      exact iff_of_false (by simp [Task.sockets]) hleft
  | inbound stage =>
      cases stage with
      | header =>
          obtain ⟨rfl, hcount, -⟩ := h
          exact iff_of_true rfl (.inl (List.count_eq_zero.1 hcount))
      | refusing =>
          obtain ⟨rfl, hdivert⟩ := h
          exact iff_of_true rfl (.inr (.inl hdivert))
      | piping out back =>
          obtain ⟨rfl, hcount⟩ := h
          exact iff_of_true rfl (.inr (.inr (.inl (by omega))))
      | _ =>
          obtain ⟨rfl, hcount, hdivert, hleft⟩ := h
          have hadvance : Event.advance i ∈ es := List.count_pos_iff.1 (by omega)
          exact iff_of_false (by simp [Task.sockets])
            (by simp [Attended, hcount, hdivert, hleft, hadvance])
  | pump =>
      obtain ⟨rfl, hfinish⟩ := h
      exact iff_of_false (by simp [Task.sockets]) hfinish
  | ended => exact iff_of_true rfl (attended_of_gone h)

/-- The turns of other tasks do not count for this one. -/
theorem mem_other {f : Event} (he : e.turn ≠ some i) (hf : f.turn = some i) :
    f ∈ es ++ [e] ↔ f ∈ es := by
  have hne : f ≠ e := by
    rintro rfl
    exact he hf
  simp [hne]

theorem count_other {f : Event} (he : e.turn ≠ some i) (hf : f.turn = some i) :
    (es ++ [e]).count f = es.count f := by
  have hne : e ≠ f := by
    rintro rfl
    exact he hf
  simp [List.count_append, hne]

theorem left_other (he : e.turn ≠ some i) : Left (es ++ [e]) i ↔ Left es i :=
  or_congr (mem_other he rfl) (mem_other he rfl)

theorem gone_other (he : e.turn ≠ some i) : Gone (es ++ [e]) i born ↔ Gone es i born := by
  cases born with
  | copy aborted => exact or_congr (mem_other he rfl) (mem_other he rfl)
  | pump => exact mem_other he rfl
  | listening port bound => exact Iff.rfl
  | reloading => exact Iff.rfl
  | _ => exact left_other he

theorem traced_other (h : Traced es i born k) (he : e.turn ≠ some i) :
    Traced (es ++ [e]) i born k := by
  revert h
  fun_cases Traced es i born k <;>
    simp only [Traced, left_other he, gone_other he, count_other he (f := .advance i) rfl,
      mem_other he (f := .advance i) rfl, mem_other he (f := .divert i) rfl,
      mem_other he (f := .finish i) rfl, mem_other he (f := .reap i) rfl, imp_self]

theorem traced_abort (h : Traced es i born k) : Traced es i born k.abort := by
  cases k with
  | copy aborted => exact h
  | _ => exact h

theorem traced_born (hk : k.Fresh) (hno : ∀ e ∈ es, e.turn ≠ some i) : Traced es i k k := by
  have hadvance : .advance i ∉ es := fun hmem => hno _ hmem rfl
  have hdivert : .divert i ∉ es := fun hmem => hno _ hmem rfl
  have hfinish : .finish i ∉ es := fun hmem => hno _ hmem rfl
  have hreap : .reap i ∉ es := fun hmem => hno _ hmem rfl
  have hleft : ¬Left es i := fun h => h.elim hfinish fun hmem => hno _ hmem rfl
  have hcount : es.count (.advance i) = 0 := List.count_eq_zero.2 hadvance
  revert hk
  fun_cases Task.Fresh k <;>
    simp [Traced, Task.awaited, hadvance, hdivert, hfinish, hreap, hleft, hcount]

theorem traced_advance {n : Nat} {new : List Task} (h : Traced es i born k)
    (hnext : k.advance n = some (k', new)) : Traced (es ++ [.advance i]) i born k' := by
  have hleft : Left (es ++ [.advance i]) i ↔ Left es i := by simp [Left]
  revert h hnext
  fun_cases Task.advance n k
  all_goals
    intro h hnext
    cases hnext <;> revert h <;> simp +contextual [Traced, hleft, List.count_append]

theorem traced_divert (h : Traced es i born k) (hnext : role.divert k = some k') :
    Traced (es ++ [.divert i]) i born k' := by
  have hleft : Left (es ++ [.divert i]) i ↔ Left es i := by simp [Left]
  revert h hnext
  fun_cases Role.divert role k
  all_goals
    intro h hnext
    cases hnext <;> revert h <;> simp +contextual [Traced, hleft]

/-- What watches the token has been started as something that ends by leaving. -/
theorem gone_of_watches (h : Traced es i born k) (hk : k.watches = true)
    {fs : List Event} (hleft : Left fs i) : Gone fs i born := by
  cases k with
  | listening port bound => cases born <;> trivial
  | reloading => cases born <;> trivial
  | control stage =>
      have hborn : born = .control .handshaking := by cases stage <;> exact h.1
      exact hborn ▸ hleft
  | client stage =>
      have hborn : born = .client .waiting := by cases stage <;> exact h.1
      exact hborn ▸ hleft
  | inbound stage =>
      have hborn : born = .inbound .header := by cases stage <;> exact h.1
      exact hborn ▸ hleft
  | driver =>
      obtain ⟨rfl, -⟩ := h
      exact hleft
  | _ => cases hk

theorem traced_turn (h : Traced es i born k) (hturn : Turn role i e k k') :
    Traced (es ++ [e]) i born k' := by
  cases hturn with
  | other he hk =>
      obtain rfl | rfl := hk
      · exact traced_other h he
      · exact traced_other (traced_abort h) he
  | advance hnext => exact traced_advance h hnext
  | divert hnext => exact traced_divert h hnext
  | finish => cases born <;> simp [Traced, Gone, Left]
  | stop hwatches => exact gone_of_watches h hwatches (.inr (by simp))
  | reap =>
      obtain ⟨rfl, -⟩ := h
      exact .inr (by simp)

end Traced

section Run

variable {role : Role} {s t : State} {es : List Event} {e : Event}

/-- A step leaves the numbers of the tasks as they are, and what it starts is fresh. -/
theorem tasks_of_step (hstep : (machine role).step s e = some t) :
    ∃ old new, t.tasks = old ++ new ∧ old.length = s.tasks.length ∧ ∀ k ∈ new, k.Fresh := by
  cases moves_of_step hstep with
  | cancel => exact ⟨s.tasks, [], by simp⟩
  | progress hprogress =>
      obtain ⟨new, hnew, heq⟩ := tasks_of_progress hprogress
      refine ⟨s.tasks, new, heq, rfl, fun k hk => ?_⟩
      obtain rfl | ha := hnew k hk
      · trivial
      · exact Task.fresh_of_awaited ha
  | abandon habandon => exact ⟨s.tasks, [], by simp [tasks_of_abandon habandon]⟩
  | accept hk hconn =>
      refine ⟨s.tasks.set _ _, _, rfl, by simp, fun k' hk' => ?_⟩
      obtain rfl := List.mem_singleton.1 hk'
      exact Task.fresh_of_accept hconn
  | advance hk hnext => exact ⟨s.tasks.set _ _, _, rfl, by simp, Task.fresh_of_advance hnext⟩
  | divert hk hnext => exact ⟨s.tasks.set _ _, _, rfl, by simp, by simp⟩
  | stream _ => exact ⟨s.tasks, [.inbound .header], rfl, rfl, by simp [Task.Fresh]⟩
  | finish hk _ => exact ⟨_, [], (List.append_nil _).symm, by simp [State.close], by simp⟩
  | stop hk _ _ => exact ⟨_, [], (List.append_nil _).symm, by simp [State.close], by simp⟩
  | reap hk _ => exact ⟨_, [], (List.append_nil _).symm, by simp [State.close], by simp⟩
  | ret _ => exact ⟨s.tasks, [], by simp⟩

/-- Task by task, the turns of the run have led from what was started to what there is. -/
structure Follows (role : Role) (es : List Event) (t : State) : Prop where
  length : (started role es).length = t.tasks.length
  turns : ∀ e ∈ es, ∀ i, e.turn = some i → i < t.tasks.length
  traced : ∀ i born k, (started role es)[i]? = some born → t.tasks[i]? = some k →
    Traced es i born k

theorem started_concat (hrun : (machine role).run role.start es = some s)
    (hstep : (machine role).step s e = some t) :
    started role (es ++ [e]) = started role es ++ t.tasks.drop s.tasks.length := by
  rw [started, (machine role).history_concat hrun hstep, hstep, ← List.append_assoc]
  rfl

theorem follows_start : Follows role [] role.start where
  length := by simp [started]
  turns := by simp
  traced i born k hborn hk := by
    have hkeep : started role [] = role.start.tasks := by simp [started]
    rw [hkeep, hk] at hborn
    obtain rfl := Option.some.inj hborn
    refine traced_born (Task.fresh_of_awaited ?_) (by simp)
    have hmem := List.mem_of_getElem? hk
    cases role <;> simp_all [Role.start, Task.awaited]

theorem follows_step (hrun : (machine role).run role.start es = some s) (h : Follows role es s)
    (hstep : (machine role).step s e = some t) : Follows role (es ++ [e]) t := by
  obtain ⟨old, new, htasks, hlen, hfresh⟩ := tasks_of_step hstep
  have hle : s.tasks.length ≤ t.tasks.length := by simp [htasks, hlen]
  have hstarted : started role (es ++ [e]) = started role es ++ new := by
    rw [started_concat hrun hstep, htasks, List.drop_left' hlen]
  refine ⟨?_, ?_, ?_⟩
  · simp [hstarted, htasks, h.length, hlen]
  · intro f hf i hi
    obtain hf | hf := List.mem_append.1 hf
    · exact Nat.lt_of_lt_of_le (h.turns f hf i hi) hle
    · obtain rfl := List.mem_singleton.1 hf
      exact Nat.lt_of_lt_of_le (lt_of_turn hi hstep) hle
  · intro i born k hborn hk
    rw [hstarted] at hborn
    by_cases hi : i < s.tasks.length
    · rw [List.getElem?_append_left (h.length ▸ hi)] at hborn
      obtain ⟨k', hk', hturn⟩ := turn_of_step (List.getElem?_eq_getElem hi) hstep
      obtain rfl := Option.some.inj (hk.symm.trans hk')
      exact traced_turn (h.traced i born _ hborn (List.getElem?_eq_getElem hi)) hturn
    · -- the step has started it, and it has had no turn
      have hge : s.tasks.length ≤ i := Nat.le_of_not_lt hi
      rw [List.getElem?_append_right (h.length ▸ hge), h.length] at hborn
      rw [htasks, List.getElem?_append_right (hlen ▸ hge), hlen, hborn] at hk
      obtain rfl := Option.some.inj hk
      refine traced_born (hfresh _ (List.mem_of_getElem? hborn)) fun f hf hturn => ?_
      obtain hf | hf := List.mem_append.1 hf
      · exact hi (h.turns f hf i hturn)
      · obtain rfl := List.mem_singleton.1 hf
        exact hi (lt_of_turn hturn hstep)

theorem follows_run (hrun : (machine role).run role.start es = some t) : Follows role es t :=
  (machine role).run_induction (Follows role) follows_start
    (fun _ _ _ _ hfs h hstep => follows_step hfs h hstep) hrun

/-- A return leaves no socket held after exactly the schedules that have attended to every task that
was started; to the listeners `serve` has attended itself. -/
theorem machine_releases_iff (role : Role) (es : List Event) (t : State)
    (hrun : (machine role).run role.start (es ++ [.ret]) = some t) :
    t.Released ↔ ∀ i k, (started role es)[i]? = some k → Attended es i k := by
  obtain ⟨s, hbefore, hstep⟩ := (machine role).run_concat_iff.1 hrun
  have hfollows := follows_run hbefore
  cases moves_of_step hstep with
  | ret hret =>
      have hawaited := not_awaited_of_canReturn (joined_run hbefore) hret
      constructor
      · intro h i born hborn
        obtain ⟨hi, -⟩ := List.getElem?_eq_some_iff.1 hborn
        have hk := List.getElem?_eq_getElem (hfollows.length ▸ hi)
        have hmem := List.mem_of_getElem? hk
        exact (sockets_iff_attended (hfollows.traced i born _ hborn hk) (hawaited _ hmem)).1
          (h _ hmem)
      · intro h k hmem
        obtain ⟨i, hk⟩ := List.mem_iff_getElem?.1 hmem
        obtain ⟨hi, -⟩ := List.getElem?_eq_some_iff.1 hk
        have hborn := List.getElem?_eq_getElem (hfollows.length ▸ hi)
        exact (sockets_iff_attended (hfollows.traced i _ k hborn hk) (hawaited k hmem)).2
          (h i _ hborn)

/-- Connect with one tunnel piping when the token is cancelled: the driver and the inbound stream
have seen the token before the return, the pumps have not come to their end. -/
def pipingRun : List Event :=
  [.progress, .progress, .stream, .advance 1, .advance 1, .advance 1, .cancel, .stop 0, .stop 1]

/-- The same, with a target that closes the connection before the function returns. -/
def pipedRun : List Event :=
  [.progress, .progress, .stream, .advance 1, .advance 1, .advance 1, .cancel, .finish 2, .finish 3,
    .stop 0, .stop 1]

theorem machine_releases_piped :
    ((machine (.connect 1)).run (Role.connect 1).start (pipedRun ++ [.ret]) =
      some { root := .returned, cancelled := true, tasks := [.ended, .ended, .ended, .ended] }) ∧
    State.Released
      { root := .returned, cancelled := true, tasks := [.ended, .ended, .ended, .ended] } := by
  have hrun : (machine (.connect 1)).run (Role.connect 1).start (pipedRun ++ [.ret]) =
      some { root := .returned, cancelled := true, tasks := [.ended, .ended, .ended, .ended] } := by
    decide
  have hattended : ∀ p ∈ (started (.connect 1) pipedRun).zipIdx, Attended pipedRun p.2 p.1 := by
    decide
  exact ⟨hrun, (machine_releases_iff _ pipedRun _ hrun).2 fun i k hk =>
    hattended (k, i) (List.mem_zipIdx_iff_getElem?.2 hk)⟩

/-- In the first of the two both pumps still hold the target. -/
theorem connect_returns_before_pumps :
    ¬∀ role es fs t, fs ++ [Event.ret] <+: es →
      (machine role).run role.start (fs ++ [.ret]) = some t → t.Released := by
  intro h
  have hleft := h (.connect 1) (pipingRun ++ [.ret]) pipingRun
    { root := .returned, cancelled := true, tasks := [.ended, .ended, .pump, .pump] }
    (List.prefix_refl _) (by decide)
  exact absurd hleft (by decide)

-- serve with one tunnel in session: its listeners are closed, the mux driver is not
example :
    ((machine (.serve 1)).run (Role.serve 1).start
      [.progress, .accept 1, .advance 2, .cancel, .stop 0, .stop 1, .stop 2, .ret]).map State.tasks =
      some [.ended, .ended, .ended, .driver] := by decide

end Run

end Shutdown
end Reverse
end Erbridge
