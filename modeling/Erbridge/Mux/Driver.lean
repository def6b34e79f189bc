import Erbridge.Core.Machine
import Erbridge.Core.Tally

/-!
# The driver of a mux connection

`MuxControl::open_stream` and the driver task of `mux.rs`: a request goes from the caller through a
channel into the driver's queue, and its answer comes back over a channel of its own.  The driver can
leave its loop between any two polls; it then answers what is in its queue and in the channel, and what
comes into the channel after that is dropped with it.

* `Driver.poll` — the closure that the driver polls, with the answers of yamux as parameters.
* `Driver.finish` — what the driver does once it has left its loop.
* `Driver.Inv` — a request that was queued is answered, in the queue or in the channel.
* `Driver.answered_in_order` — requests are answered in the order in which they were queued, no stream is
  handed to two callers, and nobody waits on a driver that has stopped.
* `Driver.exists_stopped` — a driver that has left its loop stops.
-/

namespace Erbridge
namespace Mux

open Erbridge.Core (Machine)
open Erbridge.Core.Tally

/-- `yamux::ConnectionError`. -/
inductive ConnectionError
  | closed
  | other (code : Nat)
deriving DecidableEq

/-- What `open_stream` returns. -/
inductive Reply
  | stream (n : Nat)
  | error (e : ConnectionError)
  /-- `mux connection closed before stream opened`: the sender was dropped. -/
  | canceled
  /-- `mux connection is closed`: `try_send` has failed. -/
  | refused
deriving DecidableEq

def Reply.isError : Reply → Bool
  | .stream _ => false
  | .error _ | .canceled | .refused => true

/-- A call of `open_stream`. -/
inductive Call
  /-- `try_send` has got its place in the channel and is about to put the request there. -/
  | sending
  /-- `rx.await`. -/
  | waiting
  /-- The caller has dropped the future. -/
  | abandoned
  | returned (r : Reply)
deriving DecidableEq

def Call.isSending : Call → Bool
  | .sending => true
  | _ => false

/-- `waiter.send(..)`: if the caller is gone, the value is dropped. -/
def Call.answer (r : Reply) : Call → Call
  | .waiting => .returned r
  | call => call

/-- Where the driver is. -/
inductive Phase
  | polling
  /-- `while let Some(waiter) = pending.pop_front()`. -/
  | drainPending
  /-- `while let Ok(waiter) = open_rx.try_recv()`. -/
  | drainChannel
  /-- The last `try_recv` has found nothing. -/
  | leaving
  /-- `open_rx` is dropped: it closes the channel and takes out what is in it. -/
  | closing
  | stopped
deriving DecidableEq

/-- How far the driver is from having stopped. -/
def Phase.left : Phase → Nat
  | .polling => 5
  | .drainPending => 4
  | .drainChannel => 3
  | .leaving => 2
  | .closing => 1
  | .stopped => 0

structure Driver where
  calls : List Call
  /-- `try_send` is let in. -/
  isOpen : Bool
  /-- What is in the channel of requests; a request is the number of its call. -/
  channel : List Nat
  pending : List Nat
  phase : Phase
  /-- All requests that were put into the channel, in order. -/
  queued : List Nat
  /-- All requests whose sender was used or dropped, in order. -/
  answered : List Nat
  /-- The outbound streams that yamux has opened. -/
  opened : List Nat
  /-- What went to `inbound_tx`. -/
  inbound : List Nat
deriving DecidableEq

namespace Driver

def initial : Driver := ⟨[], true, [], [], .polling, [], [], [], []⟩

/-- The answer of `poll_new_outbound`, if it is ready. -/
abbrev Outbound := Option (Except ConnectionError Nat)

/-- The answer of `poll_next_inbound`, if it is ready. -/
abbrev Inbound := Option (Option (Except ConnectionError Nat))

inductive Event
  /-- `open_stream` begins; `try_send` can find the channel full. -/
  | call (full : Bool)
  /-- The request of call `k` is put into the channel. -/
  | push (k : Nat)
  /-- The future of call `k` is dropped. -/
  | abandon (k : Nat)
  /-- The driver polls. -/
  | poll (outbound : Outbound) (inbound : Inbound)
  /-- `shutdown.cancelled()`. -/
  | shutdown
  /-- The driver goes on after its loop. -/
  | finish

/-- The request is put into the channel, and its caller waits. -/
def request (s : Driver) (k : Nat) : Driver :=
  { s with
    calls := s.calls.set k .waiting
    channel := s.channel ++ [k]
    queued := s.queued ++ [k] }

/-- The request is answered, or its sender is dropped. -/
def answer (s : Driver) (k : Nat) (r : Reply) : Driver :=
  { s with
    calls := s.calls.modify k (Call.answer r)
    answered := s.answered ++ [k] }

def replyOf : Except ConnectionError Nat → Reply
  | .ok n => .stream n
  | .error e => .error e

/-- The stream in the answer. -/
def streamOf : Except ConnectionError Nat → List Nat
  | .ok n => [n]
  | .error _ => []

/-- One poll of the closure. -/
def poll (s : Driver) (outbound : Outbound) (inbound : Inbound) : Driver :=
  match s.pending, outbound with
  | k :: rest, some result =>
      { s.answer k (replyOf result) with
        pending := rest
        opened := s.opened ++ streamOf result }
  | _, _ =>
      -- No request waits, or yamux has no stream for it yet.
      match s.channel with
      | k :: rest => { s with channel := rest, pending := s.pending ++ [k] }
      | [] =>
          match inbound with
          | some (some (.ok n)) => { s with inbound := s.inbound ++ [n] }
          -- The connection has failed, or the peer has closed it.
          | some (some (.error _)) | some none => { s with phase := .drainPending }
          | none => s

/-- What the driver does once it has left its loop, one request after the other. -/
def finish (s : Driver) : Option Driver :=
  match s.phase with
  | .polling | .stopped => none
  | .drainPending =>
      match s.pending with
      | k :: rest => some { s.answer k (.error .closed) with pending := rest }
      | [] => some { s with phase := .drainChannel }
  | .drainChannel =>
      match s.channel with
      | k :: rest => some { s.answer k (.error .closed) with channel := rest }
      | [] => some { s with phase := .leaving }
  | .leaving => some { s with phase := .closing, isOpen := false }
  | .closing =>
      match s.channel with
      | k :: rest => some { s.answer k .canceled with channel := rest }
      -- Whoever has a place in the channel is waited for.
      | [] => if .sending ∈ s.calls then none else some { s with phase := .stopped }

/-- yamux does not give out a stream twice. -/
def IsNew (s : Driver) (outbound : Outbound) : Prop :=
  ∀ result ∈ outbound, ∀ n ∈ streamOf result, n ∉ s.opened

instance (s : Driver) (outbound : Outbound) : Decidable (s.IsNew outbound) :=
  inferInstanceAs (Decidable (∀ result ∈ outbound, _))

def step (s : Driver) : Event → Option Driver
  | .call full =>
      if s.isOpen = true ∧ full = false then some { s with calls := s.calls ++ [.sending] }
      else some { s with calls := s.calls ++ [.returned .refused] }
  | .push k =>
      if s.calls[k]? = some .sending then some (s.request k) else none
  | .abandon k =>
      if s.calls[k]? = some .waiting then some { s with calls := s.calls.set k .abandoned }
      else none
  | .poll outbound inbound =>
      if s.phase = .polling ∧ s.IsNew outbound then some (s.poll outbound inbound) else none
  | .shutdown => if s.phase = .polling then some { s with phase := .drainPending } else none
  | .finish => s.finish

def machine : Machine Driver Event where
  step := step

/-- What a step can do. -/
inductive Moves (s : Driver) : Driver → Prop
  | call (hopen : s.isOpen = true) : Moves s { s with calls := s.calls ++ [.sending] }
  | refuse : Moves s { s with calls := s.calls ++ [.returned .refused] }
  | push {k : Nat} (hpc : s.calls[k]? = some .sending) : Moves s (s.request k)
  | abandon {k : Nat} (hpc : s.calls[k]? = some .waiting) :
      Moves s { s with calls := s.calls.set k .abandoned }
  | outbound {k : Nat} {rest : List Nat} {result : Except ConnectionError Nat}
      (hphase : s.phase = .polling) (hpending : s.pending = k :: rest)
      (hnew : ∀ n ∈ streamOf result, n ∉ s.opened) :
      Moves s { s.answer k (replyOf result) with
        pending := rest
        opened := s.opened ++ streamOf result }
  | pull {k : Nat} {rest : List Nat} (hphase : s.phase = .polling) (hchannel : s.channel = k :: rest) :
      Moves s { s with channel := rest, pending := s.pending ++ [k] }
  | deliver {n : Nat} : Moves s { s with inbound := s.inbound ++ [n] }
  | idle : Moves s s
  | leave (hphase : s.phase = .polling) : Moves s { s with phase := .drainPending }
  | drainPending {k : Nat} {rest : List Nat} (hphase : s.phase = .drainPending)
      (hpending : s.pending = k :: rest) :
      Moves s { s.answer k (.error .closed) with pending := rest }
  | drainedPending (hphase : s.phase = .drainPending) (hpending : s.pending = []) :
      Moves s { s with phase := .drainChannel }
  | drainChannel {k : Nat} {rest : List Nat} (hphase : s.phase = .drainChannel)
      (hchannel : s.channel = k :: rest) :
      Moves s { s.answer k (.error .closed) with channel := rest }
  | drainedChannel (hphase : s.phase = .drainChannel) : Moves s { s with phase := .leaving }
  | close (hphase : s.phase = .leaving) : Moves s { s with phase := .closing, isOpen := false }
  | cancel {k : Nat} {rest : List Nat} (hphase : s.phase = .closing)
      (hchannel : s.channel = k :: rest) :
      Moves s { s.answer k .canceled with channel := rest }
  | stop (hphase : s.phase = .closing) (hchannel : s.channel = []) (hnone : .sending ∉ s.calls) :
      Moves s { s with phase := .stopped }

variable {s t : Driver}

theorem moves_poll {outbound : Outbound} {inbound : Inbound} (hphase : s.phase = .polling)
    (hnew : s.IsNew outbound) : Moves s (s.poll outbound inbound) := by
  unfold poll
  split
  · rename_i k rest result hpending
    exact Moves.outbound hphase hpending fun n hn => hnew result rfl n hn
  · split
    · rename_i k rest hchannel
      exact Moves.pull hphase hchannel
    · split
      · exact Moves.deliver
      · exact Moves.leave hphase
      · exact Moves.leave hphase
      · exact Moves.idle

theorem moves_finish (h : s.finish = some t) : Moves s t := by
  unfold finish at h
  split at h
  · cases h
  · cases h
  · rename_i hphase
    split at h
    · rename_i k rest hpending
      cases h
      exact Moves.drainPending hphase hpending
    · rename_i hpending
      cases h
      exact Moves.drainedPending hphase hpending
  · rename_i hphase
    split at h
    · rename_i k rest hchannel
      cases h
      exact Moves.drainChannel hphase hchannel
    · cases h
      exact Moves.drainedChannel hphase
  · rename_i hphase
    cases h
    exact Moves.close hphase
  · rename_i hphase
    split at h
    · rename_i k rest hchannel
      cases h
      exact Moves.cancel hphase hchannel
    · rename_i hchannel
      split at h
      · cases h
      · rename_i hnone
        cases h
        exact Moves.stop hphase hchannel hnone

theorem moves_of_step {e : Event} (h : machine.step s e = some t) : Moves s t := by
  cases e with
  | call full =>
      simp only [machine, step] at h
      split at h
      · rename_i hopen
        cases h
        exact Moves.call hopen.1
      · cases h
        exact Moves.refuse
  | push k =>
      obtain ⟨hpc, ⟨⟩⟩ := Option.ite_none_right_eq_some.1 h
      exact Moves.push hpc
  | abandon k =>
      obtain ⟨hpc, ⟨⟩⟩ := Option.ite_none_right_eq_some.1 h
      exact Moves.abandon hpc
  | poll outbound inbound =>
      obtain ⟨⟨hphase, hnew⟩, ⟨⟩⟩ := Option.ite_none_right_eq_some.1 h
      exact moves_poll hphase hnew
  | shutdown =>
      obtain ⟨hphase, ⟨⟩⟩ := Option.ite_none_right_eq_some.1 h
      exact Moves.leave hphase
  | finish => exact moves_finish h

/-! ### Where a request is -/

/-- A request that was queued is answered, in the queue or in the channel, in this order; and who waits has
a request there. -/
structure Inv (s : Driver) : Prop where
  fifo : s.answered ++ (s.pending ++ s.channel) = s.queued
  nodup : s.queued.Nodup
  known : ∀ k ∈ s.queued, ∃ call, s.calls[k]? = some call ∧ call ≠ .sending
  waiting : ∀ k : Nat, s.calls[k]? = some .waiting → k ∈ s.pending ++ s.channel
  handed : ∀ (k n : Nat), s.calls[k]? = some (.returned (.stream n)) → n ∈ s.opened
  once : ∀ j k n : Nat, s.calls[j]? = some (.returned (.stream n)) →
    s.calls[k]? = some (.returned (.stream n)) → j = k
  drained : s.phase ≠ .polling → s.phase ≠ .drainPending → s.pending = []
  closed : s.phase = .closing ∨ s.phase = .stopped → s.isOpen = false
  stopped : s.phase = .stopped → s.channel = [] ∧ .sending ∉ s.calls

theorem inv_initial : initial.Inv where
  fifo := rfl
  nodup := List.nodup_nil
  known := by simp [initial]
  waiting := by simp [initial]
  handed := by simp [initial]
  once := by simp [initial]
  drained := fun _ _ => rfl
  closed := by simp [initial]
  stopped := by simp [initial]

/-- A step that touches no call and no request. -/
theorem Inv.of_same (h : s.Inv) (hcalls : t.calls = s.calls) (hqueued : t.queued = s.queued)
    (hanswered : t.answered = s.answered) (hopened : t.opened = s.opened)
    (hboth : t.pending ++ t.channel = s.pending ++ s.channel)
    (hdrained : t.phase ≠ .polling → t.phase ≠ .drainPending → t.pending = [])
    (hclosed : t.phase = .closing ∨ t.phase = .stopped → t.isOpen = false)
    (hstopped : t.phase = .stopped → t.channel = [] ∧ .sending ∉ t.calls) : t.Inv where
  fifo := by rw [hboth, hanswered, hqueued, h.fifo]
  nodup := hqueued ▸ h.nodup
  known := fun k hk => hcalls ▸ h.known k (hqueued ▸ hk)
  waiting := fun k hk => hboth ▸ h.waiting k (hcalls ▸ hk)
  handed := fun k n hk => hopened ▸ h.handed k n (hcalls ▸ hk)
  once := fun j k n hj hk => h.once j k n (hcalls ▸ hj) (hcalls ▸ hk)
  drained := hdrained
  closed := hclosed
  stopped := hstopped

theorem getElem?_calls_answer {k j : Nat} {r : Reply} :
    (s.answer k r).calls[j]? = if k = j then (s.calls[j]?).map (Call.answer r) else s.calls[j]? := by
  rw [answer, List.getElem?_modify]
  split
  · rfl
  · cases s.calls[j]? <;> rfl

theorem Call.answer_eq_waiting {call : Call} {r : Reply} : call.answer r ≠ .waiting := by
  cases call <;> simp [Call.answer]

/-- Where call `j` has returned a stream after the answer, it had done so before, or it has got this
one. -/
theorem stream_of_answer {k j n : Nat} {r : Reply}
    (h : (s.answer k r).calls[j]? = some (.returned (.stream n))) :
    s.calls[j]? = some (.returned (.stream n)) ∨ (j = k ∧ r = .stream n) := by
  rw [getElem?_calls_answer] at h
  split at h
  · rename_i hkj
    obtain ⟨call, hcall, hreply⟩ := Option.map_eq_some_iff.1 h
    cases call with
    | waiting =>
        cases hreply
        exact Or.inr ⟨hkj.symm, rfl⟩
    | sending => cases hreply
    | abandoned => cases hreply
    | returned r' =>
        cases hreply
        exact Or.inl hcall
  · exact Or.inl h

/-- A request is answered that is the next one. -/
theorem Inv.answer (h : s.Inv) {k : Nat} {r : Reply} (opened : List Nat)
    (hcalls : t.calls = (s.answer k r).calls) (hqueued : t.queued = s.queued)
    (hanswered : t.answered = s.answered ++ [k])
    (hboth : s.pending ++ s.channel = k :: (t.pending ++ t.channel))
    (hopened : t.opened = s.opened ++ opened)
    (hreply : ∀ n, r = .stream n → n ∈ opened ∧ n ∉ s.opened)
    (hdrained : t.phase ≠ .polling → t.phase ≠ .drainPending → t.pending = [])
    (hclosed : t.phase = .closing ∨ t.phase = .stopped → t.isOpen = false)
    (hrunning : t.phase ≠ .stopped) : t.Inv where
  fifo := by
    rw [hanswered, hqueued, List.append_assoc, ← h.fifo, hboth]
    rfl
  nodup := hqueued ▸ h.nodup
  known := fun j hj => by
    obtain ⟨call, hcall, hne⟩ := h.known j (hqueued ▸ hj)
    rw [hcalls, getElem?_calls_answer, hcall]
    split
    · refine ⟨_, rfl, ?_⟩
      cases call <;> simp_all [Call.answer]
    · exact ⟨call, rfl, hne⟩
  waiting := fun j hj => by
    rw [hcalls, getElem?_calls_answer] at hj
    split at hj
    · obtain ⟨call, -, hcall⟩ := Option.map_eq_some_iff.1 hj
      exact absurd hcall Call.answer_eq_waiting
    · rename_i hne
      have hold := h.waiting j hj
      rw [hboth] at hold
      exact (List.mem_cons.1 hold).resolve_left fun heq => hne heq.symm
  handed := fun j n hj => by
    rw [hopened]
    rcases stream_of_answer (hcalls ▸ hj) with hold | ⟨-, hr⟩
    · exact List.mem_append_left _ (h.handed j n hold)
    · exact List.mem_append_right _ (hreply n hr).1
  once := fun i j n hi hj => by
    rcases stream_of_answer (hcalls ▸ hi) with hi | ⟨rfl, hr⟩
    · rcases stream_of_answer (hcalls ▸ hj) with hj | ⟨rfl, hr⟩
      · exact h.once i j n hi hj
      · exact absurd (h.handed i n hi) (hreply n hr).2
    · rcases stream_of_answer (hcalls ▸ hj) with hj | ⟨rfl, -⟩
      · exact absurd (h.handed j n hj) (hreply n hr).2
      · rfl
  drained := hdrained
  closed := hclosed
  stopped := fun hphase => absurd hphase hrunning

/-- A call begins. -/
theorem Inv.begin (h : s.Inv) {call : Call} (hcall : call = .sending ∧ s.isOpen = true ∨
      call = .returned .refused) : Inv { s with calls := s.calls ++ [call] } := by
  have hwaiting : call ≠ .waiting := by
    rcases hcall with ⟨rfl, -⟩ | rfl <;> simp
  have hstream : ∀ n, call ≠ .returned (.stream n) := fun n => by
    rcases hcall with ⟨rfl, -⟩ | rfl <;> simp
  refine ⟨h.fifo, h.nodup, fun k hk => ?_, fun k hk => h.waiting k (getElem?_of_concat hk hwaiting),
    fun k n hk => h.handed k n (getElem?_of_concat hk (hstream n)), fun j k n hj hk => ?_, h.drained,
    h.closed, fun hphase => ⟨(h.stopped hphase).1, ?_⟩⟩
  · obtain ⟨c, hc, hne⟩ := h.known k hk
    exact ⟨c, by rw [List.getElem?_append_left (List.getElem?_eq_some_iff.1 hc).1, hc], hne⟩
  · exact h.once j k n (getElem?_of_concat hj (hstream n)) (getElem?_of_concat hk (hstream n))
  · rcases hcall with ⟨-, hopen⟩ | rfl
    · rw [h.closed (Or.inr hphase)] at hopen
      cases hopen
    · simpa using (h.stopped hphase).2

/-- The request of a call is put into the channel. -/
theorem Inv.push (h : s.Inv) {k : Nat} (hpc : s.calls[k]? = some .sending) :
    (s.request k).Inv := by
  have hnew : k ∉ s.queued := fun hk => by
    obtain ⟨call, hcall, hne⟩ := h.known k hk
    rw [hpc] at hcall
    exact hne (Option.some.inj hcall).symm
  have hlt := (List.getElem?_eq_some_iff.1 hpc).1
  refine ⟨?_, ?_, fun j hj => ?_, fun j hj => ?_, fun j n hj => ?_, fun i j n hi hj => ?_, h.drained,
    h.closed, fun hphase => ?_⟩
  · show s.answered ++ (s.pending ++ (s.channel ++ [k])) = s.queued ++ [k]
    rw [← h.fifo]
    simp only [List.append_assoc]
  · have hnodup := List.Nodup.concat hnew h.nodup
    rw [List.concat_eq_append] at hnodup
    exact hnodup
  · rcases List.mem_append.1 hj with hj | hj
    · obtain ⟨call, hcall, hne⟩ := h.known j hj
      have hjk : k ≠ j := fun heq => hnew (heq ▸ hj)
      exact ⟨call, (List.getElem?_set_ne hjk).trans hcall, hne⟩
    · obtain rfl := List.mem_singleton.1 hj
      exact ⟨.waiting, List.getElem?_set_self hlt, by simp⟩
  · show j ∈ s.pending ++ (s.channel ++ [k])
    rw [← List.append_assoc]
    rcases getElem?_set_eq_some hj with ⟨rfl, -⟩ | ⟨-, hold⟩
    · exact List.mem_append_right _ (List.mem_singleton_self j)
    · exact List.mem_append_left _ (h.waiting j hold)
  · exact h.handed j n (getElem?_of_set hj (by simp))
  · exact h.once i j n (getElem?_of_set hi (by simp)) (getElem?_of_set hj (by simp))
  · exact absurd (List.mem_of_getElem? hpc) (h.stopped hphase).2

theorem Inv.abandon (h : s.Inv) {k : Nat} (hpc : s.calls[k]? = some .waiting) :
    Inv { s with calls := s.calls.set k .abandoned } := by
  have hlt := (List.getElem?_eq_some_iff.1 hpc).1
  refine ⟨h.fifo, h.nodup, fun j hj => ?_, fun j hj => ?_, fun j n hj => ?_, fun i j n hi hj => ?_,
    h.drained, h.closed, fun hphase => ⟨(h.stopped hphase).1, fun hmem => ?_⟩⟩
  · obtain ⟨call, hcall, hne⟩ := h.known j hj
    by_cases hjk : k = j
    · subst hjk
      exact ⟨.abandoned, List.getElem?_set_self hlt, by simp⟩
    · exact ⟨call, by rw [List.getElem?_set_ne hjk, hcall], hne⟩
  · exact h.waiting j (getElem?_of_set hj (by simp))
  · exact h.handed j n (getElem?_of_set hj (by simp))
  · exact h.once i j n (getElem?_of_set hi (by simp)) (getElem?_of_set hj (by simp))
  · rcases List.mem_or_eq_of_mem_set hmem with hold | hnew
    · exact (h.stopped hphase).2 hold
    · cases hnew

theorem inv_step {e : Event} (h : s.Inv) (hstep : machine.step s e = some t) : t.Inv := by
  cases moves_of_step hstep with
  | call hopen => exact h.begin (Or.inl ⟨rfl, hopen⟩)
  | refuse => exact h.begin (Or.inr rfl)
  | push hpc => exact h.push hpc
  | abandon hpc => exact h.abandon hpc
  | @outbound k rest result hphase hpending hnew =>
      refine h.answer (k := k) (r := replyOf result) (streamOf result) rfl rfl rfl ?_ rfl
        (fun n hn => ?_) (fun hne => absurd hphase hne) h.closed (by simp [Driver.answer, hphase])
      · simp [Driver.answer, hpending]
      · cases result with
        | error e => cases hn
        | ok m =>
            cases hn
            exact ⟨List.mem_singleton_self n, hnew n (List.mem_singleton_self n)⟩
  | @pull k rest hphase hchannel =>
      refine h.of_same rfl rfl rfl rfl ?_ (fun hne => absurd hphase hne) h.closed fun hstop => ?_
      · simp [hchannel]
      · exact absurd (hphase.symm.trans hstop) (by simp)
  | deliver => exact h.of_same rfl rfl rfl rfl rfl h.drained h.closed h.stopped
  | idle => exact h
  | leave hphase =>
      exact h.of_same rfl rfl rfl rfl rfl (fun _ hne => absurd rfl hne) (by simp) (by simp)
  | @drainPending k rest hphase hpending =>
      refine h.answer (k := k) (r := .error .closed) [] rfl rfl rfl ?_ (by simp [Driver.answer])
        (by simp) (fun _ hne => absurd hphase hne) h.closed (by simp [Driver.answer, hphase])
      simp [Driver.answer, hpending]
  | drainedPending hphase hpending =>
      exact h.of_same rfl rfl rfl rfl rfl (fun _ _ => hpending) (by simp) (by simp)
  | @drainChannel k rest hphase hchannel =>
      have hpending := h.drained (by simp [hphase]) (by simp [hphase])
      refine h.answer (k := k) (r := .error .closed) [] rfl rfl rfl ?_ (by simp [Driver.answer])
        (by simp) (fun _ _ => hpending) h.closed (by simp [Driver.answer, hphase])
      simp [Driver.answer, hchannel, hpending]
  | drainedChannel hphase =>
      have hpending := h.drained (by simp [hphase]) (by simp [hphase])
      exact h.of_same rfl rfl rfl rfl rfl (fun _ _ => hpending) (by simp) (by simp)
  | close hphase =>
      have hpending := h.drained (by simp [hphase]) (by simp [hphase])
      exact h.of_same rfl rfl rfl rfl rfl (fun _ _ => hpending) (fun _ => rfl) (by simp)
  | @cancel k rest hphase hchannel =>
      have hpending := h.drained (by simp [hphase]) (by simp [hphase])
      refine h.answer (k := k) (r := .canceled) [] rfl rfl rfl ?_ (by simp [Driver.answer])
        (by simp) (fun _ _ => hpending) h.closed (by simp [Driver.answer, hphase])
      simp [Driver.answer, hchannel, hpending]
  | stop hphase hchannel hnone =>
      have hpending := h.drained (by simp [hphase]) (by simp [hphase])
      exact h.of_same rfl rfl rfl rfl rfl (fun _ _ => hpending) (fun _ => h.closed (Or.inl hphase))
        fun _ => ⟨hchannel, hnone⟩

theorem inv_run {es : List Event} (hrun : machine.run initial es = some s) : s.Inv :=
  machine.run_invariant Inv (fun h hstep => inv_step h hstep) inv_initial hrun

/-! ### After the loop -/

/-- Once the driver has left its loop, it stays out of it, and hands out no stream. -/
theorem left_step {e : Event} (hleft : s.phase ≠ .polling) (hstep : machine.step s e = some t) :
    t.phase ≠ .polling ∧ ∀ k n : Nat, t.calls[k]? = some (.returned (.stream n)) →
      s.calls[k]? = some (.returned (.stream n)) := by
  cases moves_of_step hstep with
  | call | refuse => exact ⟨hleft, fun k n hk => getElem?_of_concat hk (by simp)⟩
  | push | abandon => exact ⟨hleft, fun k n hk => getElem?_of_set hk (by simp)⟩
  | outbound hphase | pull hphase | leave hphase => exact absurd hphase hleft
  | deliver | idle => exact ⟨hleft, fun k n hk => hk⟩
  | drainedPending | drainedChannel | close | stop => exact ⟨by simp, fun k n hk => hk⟩
  | drainPending | drainChannel | cancel =>
      refine ⟨hleft, fun k n hk => ?_⟩
      exact (stream_of_answer hk).resolve_right fun hnew => by simp at hnew

theorem left_run {r : Driver} {es : List Event} (hleft : r.phase ≠ .polling)
    (hrun : machine.run r es = some s) (k n : Nat)
    (hk : s.calls[k]? = some (.returned (.stream n))) : r.calls[k]? = some (.returned (.stream n)) := by
  have hinv := machine.run_invariant
    (fun q => q.phase ≠ .polling ∧ ∀ k n : Nat, q.calls[k]? = some (.returned (.stream n)) →
      r.calls[k]? = some (.returned (.stream n)))
    (fun hq hstep => ⟨(left_step hq.1 hstep).1, fun k n hk => hq.2 k n ((left_step hq.1 hstep).2 k n hk)⟩)
    ⟨hleft, fun k n hk => hk⟩ hrun
  exact hinv.2 k n hk

/-- Nobody waits on a driver that has stopped. -/
theorem Inv.settled (h : s.Inv) (hstopped : s.phase = .stopped) {k : Nat} {call : Call}
    (hk : s.calls[k]? = some call) : call = .abandoned ∨ ∃ r, call = .returned r := by
  obtain ⟨hchannel, hnone⟩ := h.stopped hstopped
  cases call with
  | sending => exact absurd (List.mem_of_getElem? hk) hnone
  | waiting =>
      have hmem := h.waiting k hk
      rw [hchannel, h.drained (by simp [hstopped]) (by simp [hstopped])] at hmem
      cases hmem
  | abandoned => exact Or.inl rfl
  | returned r => exact Or.inr ⟨r, rfl⟩

/-- The calls that have a place in the channel put their requests there. -/
theorem exists_pushed (s : Driver) : ∃ (ks : List Nat) (t : Driver),
    machine.run s (ks.map Event.push) = some t ∧ t.phase = s.phase ∧
      ∀ call ∈ t.calls, call.isSending = false := by
  induction hn : s.calls.countP Call.isSending generalizing s with
  | zero => exact ⟨[], s, rfl, rfl, fun call hcall => by simpa using List.countP_eq_zero.1 hn call hcall⟩
  | succ n ih =>
      obtain ⟨call, hmem, hcall⟩ := List.countP_pos_iff.1 (Nat.lt_of_lt_of_eq (Nat.succ_pos n) hn.symm)
      obtain ⟨k, hk⟩ := List.getElem?_of_mem hmem
      have hsending : call = .sending := by cases call <;> simp [Call.isSending] at hcall ⊢
      have hcount := Core.Tally.countP_set_add Call.isSending .waiting hk
      have hless : (s.request k).calls.countP Call.isSending = n := by
        rw [hcall] at hcount
        simp only [Bool.toNat_true, Call.isSending, Bool.toNat_false] at hcount
        show (s.calls.set k .waiting).countP Call.isSending = n
        omega
      obtain ⟨ks, t, hrun, hphase, hnone⟩ := ih (s.request k) hless
      have hstep : machine.step s (.push k) = some (s.request k) := if_pos (hsending ▸ hk)
      exact ⟨k :: ks, t, machine.run_cons_iff.2 ⟨_, hstep, hrun⟩, hphase, hnone⟩

/-- With nobody about to put a request into the channel, each step after the loop is one less to go. -/
theorem finish_lt (hleft : s.phase ≠ .polling) (hrunning : s.phase ≠ .stopped)
    (hnone : ∀ call ∈ s.calls, call.isSending = false) :
    ∃ t, s.finish = some t ∧ t.phase ≠ .polling ∧ (∀ call ∈ t.calls, call.isSending = false) ∧
      t.pending.length + t.channel.length + t.phase.left <
        s.pending.length + s.channel.length + s.phase.left := by
  have hanswer : ∀ {k r} , ∀ call ∈ (s.answer k r).calls, call.isSending = false := by
    intro k r call hcall
    obtain ⟨j, hj⟩ := List.getElem?_of_mem hcall
    rw [getElem?_calls_answer] at hj
    split at hj
    · obtain ⟨c, hc, rfl⟩ := Option.map_eq_some_iff.1 hj
      have hold := hnone c (List.mem_of_getElem? hc)
      cases c <;> exact hold
    · exact hnone call (List.mem_of_getElem? hj)
  unfold finish
  cases hphase : s.phase with
  | polling => exact absurd hphase hleft
  | stopped => exact absurd hphase hrunning
  | drainPending =>
      cases hpending : s.pending with
      | nil => exact ⟨_, rfl, by simp, hnone, by simp [Phase.left]⟩
      | cons k rest =>
          exact ⟨_, rfl, by simp [Driver.answer, hphase], hanswer, by simp [Driver.answer, hphase]⟩
  | drainChannel =>
      cases hchannel : s.channel with
      | nil => exact ⟨_, rfl, by simp, hnone, by simp [Phase.left]⟩
      | cons k rest =>
          exact ⟨_, rfl, by simp [Driver.answer, hphase], hanswer, by simp [Driver.answer, hphase]⟩
  | leaving => exact ⟨_, rfl, by simp, hnone, by simp [Phase.left]⟩
  | closing =>
      cases hchannel : s.channel with
      | nil =>
          have hno : .sending ∉ s.calls := fun hmem => absurd (hnone _ hmem) (by decide)
          exact ⟨_, if_neg hno, by simp, hnone, by simp [Phase.left]⟩
      | cons k rest =>
          exact ⟨_, rfl, by simp [Driver.answer, hphase], hanswer, by simp [Driver.answer, hphase]⟩

theorem exists_finished (s : Driver) (hleft : s.phase ≠ .polling)
    (hnone : ∀ call ∈ s.calls, call.isSending = false) :
    ∃ n t, machine.run s (List.replicate n .finish) = some t ∧ t.phase = .stopped := by
  induction hm : s.pending.length + s.channel.length + s.phase.left using Nat.strongRecOn
    generalizing s with
  | ind m ih =>
      by_cases hstopped : s.phase = .stopped
      · exact ⟨0, s, rfl, hstopped⟩
      · obtain ⟨t, hstep, htleft, htnone, hlt⟩ := finish_lt hleft hstopped hnone
        obtain ⟨n, q, hrun, hq⟩ := ih _ (hm ▸ hlt) t htleft htnone rfl
        exact ⟨n + 1, q, machine.run_cons_iff.2 ⟨t, hstep, hrun⟩, hq⟩

/-- **A driver that has left its loop stops**, by its own steps, once those who have a place in the channel
have put their requests there. -/
theorem exists_stopped (s : Driver) (hleft : s.phase ≠ .polling) :
    ∃ (ks : List Nat) (n : Nat) (t : Driver),
      machine.run s (ks.map Event.push ++ List.replicate n .finish) = some t ∧ t.phase = .stopped := by
  obtain ⟨ks, r, hrun, hphase, hnone⟩ := exists_pushed s
  obtain ⟨n, t, hfinish, hstopped⟩ := exists_finished r (hphase ▸ hleft) hnone
  exact ⟨ks, n, t, machine.run_append_iff.2 ⟨r, hrun, hfinish⟩, hstopped⟩

/-- What is asked of the answers. -/
structure Answers (s : Driver) : Prop where
  /-- In the order in which they were queued, each at most once. -/
  order : s.answered <+: s.queued
  nodup : s.answered.Nodup
  /-- No stream is handed to two callers. -/
  once : ∀ j k n : Nat, s.calls[j]? = some (.returned (.stream n)) →
    s.calls[k]? = some (.returned (.stream n)) → j = k
  /-- Nobody waits on a driver that has stopped. -/
  settled : s.phase = .stopped → ∀ (k : Nat) (call : Call), s.calls[k]? = some call →
    call = .abandoned ∨ ∃ r, call = .returned r

/-- **Every request is answered.**  In every run the requests are answered in the order in which they were
queued and no stream is handed to two callers; and whoever was waiting when the driver left its loop, or
queued its request later, has an error when the driver has stopped. -/
theorem answered_in_order {r : Driver} {es fs : List Event} (hes : machine.run initial es = some r)
    (hfs : machine.run r fs = some s) :
    s.Answers ∧ (r.phase ≠ .polling → s.phase = .stopped → ∀ k : Nat,
      (∀ reply, r.calls[k]? ≠ some (.returned reply)) → ∀ call, s.calls[k]? = some call →
        call = .abandoned ∨ ∃ reply, call = .returned reply ∧ reply.isError = true) := by
  have h := inv_run (machine.run_append_iff.2 ⟨r, hes, hfs⟩)
  have horder : s.answered <+: s.queued := ⟨s.pending ++ s.channel, h.fifo⟩
  refine ⟨⟨horder, h.nodup.sublist horder.sublist, h.once, fun hstop k call hk => h.settled hstop hk⟩,
    fun hleft hstop k hwaiting call hk => ?_⟩
  rcases h.settled hstop hk with rfl | ⟨reply, rfl⟩
  · exact Or.inl rfl
  · refine Or.inr ⟨reply, rfl, ?_⟩
    cases reply with
    | stream n => exact absurd (left_run hleft hfs k n hk) (hwaiting _)
    | error | canceled | refused => rfl

/-- One call gets a stream; a second one is queued when the driver is shut down. -/
def answeredOnce : List Event :=
  [.call false, .push 0, .poll none none, .poll (some (.ok 5)) none, .call false, .push 1, .shutdown]

/-- Two more come while it stops, and one after that. -/
def stopping : List Event :=
  [.finish, .finish, .call false, .push 2, .finish, .finish, .call false, .push 3, .finish, .finish,
    .finish, .call false]

theorem answered_in_order_stopping : ∃ r s, machine.run initial answeredOnce = some r ∧
    machine.run r stopping = some s ∧ s.Answers ∧ s.phase = .stopped ∧
      s.calls = [.returned (.stream 5), .returned (.error .closed), .returned (.error .closed),
        .returned .canceled, .returned .refused] := by
  have hes : machine.run initial answeredOnce = some
      { initial with
        calls := [.returned (.stream 5), .waiting]
        channel := [1]
        phase := .drainPending
        queued := [0, 1]
        answered := [0]
        opened := [5] } := by decide +kernel
  have hfs : (machine.run { initial with
        calls := [.returned (.stream 5), .waiting]
        channel := [1]
        phase := .drainPending
        queued := [0, 1]
        answered := [0]
        opened := [5] } stopping).map (fun s => (s.phase, s.calls)) =
      some (.stopped, [.returned (.stream 5), .returned (.error .closed), .returned (.error .closed),
        .returned .canceled, .returned .refused]) := by decide +kernel
  obtain ⟨s, hrun, hs⟩ := Option.map_eq_some_iff.1 hfs
  obtain ⟨hphase, hcalls⟩ := Prod.mk.inj hs
  exact ⟨_, s, hes, hrun, (answered_in_order hes hrun).1, hphase, hcalls⟩

end Driver
end Mux
end Erbridge
