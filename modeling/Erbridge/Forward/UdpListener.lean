import Erbridge.Core.Listener
import Erbridge.Forward.Udp

/-!
# The receive loop of the UDP forwarder

The loop of `run_udp_forward` as a listening loop: its connections are the sessions, and a datagram of a
source with a session in the map is one of that session.

* `UdpForward` — the forwarder of `Forward.Udp`, and beside it what each session has sent to its client.
* `UdpForward.Apart` — a state, and the one without some of the sessions.
* `UdpForward.apart_session`, `apart_loop` — a step that has nothing to do with these sessions is the same
  in both states.
* `UdpForward.apart_dropped` — a step that has leaves nothing behind.
-/

namespace Erbridge
namespace Forward

open Erbridge.Core (Machine Table Listener)

/-- A forwarder. -/
structure UdpForward (α : Type) where
  udp : Udp α
  /-- The datagrams that session `i` has sent on to its client; not part of the code's state. -/
  replies : Nat → List (List UInt8)

/-- The datagram in hand is dropped if it is one for a session in `F`. -/
def Loop.without (F : Nat → Bool) : Loop → Loop
  | .sending i data => if F i then .receiving else .sending i data
  | loop => loop

namespace UdpForward

variable {α : Type} [DecidableEq α]

def initial : UdpForward α := ⟨.initial, fun _ => []⟩

/-- What the step adds to the replies. -/
def replied (replies : Nat → List (List UInt8)) : Udp.Event α → Nat → List (List UInt8)
  | .reply i data true => Function.update replies i (replies i ++ [data])
  | _ => replies

def step (udpIdleSecs : Nat) (s : UdpForward α) (e : Udp.Event α) : Option (UdpForward α) :=
  (s.udp.step udpIdleSecs e).map fun u => ⟨u, replied s.replies e⟩

/-- The session that a datagram of this source is for. -/
def sessionOf (s : UdpForward α) (src : α) : Nat :=
  match s.udp.sessions.lookup src with
  | some e => e.session
  | none => s.udp.next

/-- Whether the event is one of a session in `F`. -/
def concerns (F : Nat → Bool) (s : UdpForward α) : Udp.Event α → Bool
  | .recv src _ => F (s.sessionOf src)
  | .send =>
      match s.udp.loop with
      | .sending i _ => F i
      | _ => false
  | .bound i _ | .forward i _ | .closed i | .reply i _ _ | .replyFails i | .replyStops i
  | .remove i => F i
  | .recvFails | .pass _ | .reap => false

/-- Whether the event opens a session, which uses up a number. -/
def opens (s : UdpForward α) : Udp.Event α → Option Unit
  | .recv src _ => if (s.udp.sessions.lookup src).isNone then some () else none
  | _ => none

/-- A task that is about to remove the entry of its address finds its own there, or none. -/
def Own (s : UdpForward α) : Udp.Event α → Prop
  | .remove i => ∀ src e, s.udp.tasks i = .leaving src → s.udp.sessions.lookup src = some e →
      e.session = i
  | _ => True

/-- The next session will have another number. -/
def passOver (s : UdpForward α) : UdpForward α :=
  { s with udp := { s.udp with next := s.udp.next + 1 } }

/-- The second state is the first one without the sessions in `F`. -/
structure Apart (F : Nat → Bool) (s s' : UdpForward α) : Prop where
  now : s'.udp.now = s.udp.now
  next : s'.udp.next = s.udp.next
  sessions : ∀ src, s'.udp.sessions.lookup src =
    (s.udp.sessions.lookup src).filter fun e => !F e.session
  loop : s'.udp.loop = s.udp.loop.without F
  tasks : ∀ i, F i = false → s'.udp.tasks i = s.udp.tasks i
  repliers : ∀ i, F i = false → s'.udp.repliers i = s.udp.repliers i
  queues : ∀ i, F i = false → s'.udp.queues i = s.udp.queues i
  toTarget : ∀ i, F i = false → s'.udp.toTarget i = s.udp.toTarget i
  reaped : ∀ i, F i = false → s'.udp.reaped i = s.udp.reaped i
  failed : ∀ i, F i = false → s'.udp.failed i = s.udp.failed i
  replies : ∀ i, F i = false → s'.replies i = s.replies i
  absent : ∀ i, F i = true → s'.udp.tasks i = .unopened

/-- The loop has nothing in hand for the sessions in `F`. -/
def Clear (F : Nat → Bool) (s : UdpForward α) : Prop := s.udp.loop.without F = s.udp.loop

/-- The loop as a listening loop. -/
def listener (α : Type) [DecidableEq α] (udpIdleSecs : Nat) : Listener where
  State := UdpForward α
  Event := Udp.Event α
  Skip := Unit
  machine := ⟨step udpIdleSecs⟩
  start := initial
  accepting s := s.udp.loop ≠ .stopped
  onError := .propagates
  isError e := e matches .recvFails
  Settled := Own
  concerns := concerns
  opens := opens
  passOver _ s := s.passOver
  failed s := s.udp.failed
  Quiet s := s.Clear s.udp.failed
  Failed s F := (∀ i, F i = true → s.udp.failed i = true) ∧ s.Clear F
  Agrees F s s' := Apart F s s' ∧ s'.udp.loop = s.udp.loop

variable {udpIdleSecs : Nat} {F : Nat → Bool} {s s' t : UdpForward α} {e : Udp.Event α}

theorem apart_initial : Apart F (initial : UdpForward α) initial := by
  constructor
  case sessions =>
    intro src
    rfl
  all_goals
    intros
    rfl

/-! ## Steps of the others -/

/-- Two functions that agree off `F` still do when the same is put in. -/
theorem agree_update {β : Type} {f f' : Nat → β} (h : ∀ j, F j = false → f' j = f j) (i : Nat)
    {k k' : β} (hk : k' = k) (j : Nat) (hj : F j = false) :
    Function.update f' i k' j = Function.update f i k j := by
  rcases eq_or_ne j i with rfl | hne
  · rw [Function.update_self, Function.update_self, hk]
  · rw [Function.update_of_ne hne, Function.update_of_ne hne, h j hj]

/-- What is put in outside of `F` is not seen in `F`. -/
theorem absent_update {β : Type} {f : Nat → β} {i : Nat} (hi : F i = false) {k d : β}
    (h : ∀ j, F j = true → f j = d) (j : Nat) (hj : F j = true) : Function.update f i k j = d := by
  have hne : j ≠ i := by
    rintro rfl
    rw [hi] at hj
    cases hj
  rw [Function.update_of_ne hne, h j hj]

/-- Whether a session that is kept has a sender is seen in both states. -/
theorem Apart.senderless_iff (h : Apart F s s') {i : Nat} (hF : F i = false) :
    s'.udp.Senderless i ↔ s.udp.Senderless i := by
  have hentries : (∀ e ∈ s'.udp.sessions.entries, e.2.session ≠ i) ↔
      ∀ e ∈ s.udp.sessions.entries, e.2.session ≠ i := by
    constructor
    · rintro hnone ⟨src, e⟩ hmem hi
      refine hnone ⟨src, e⟩ (Table.lookup_eq_some_iff.1 ?_) hi
      rw [h.sessions, Table.lookup_eq_some_iff.2 hmem]
      have hi : e.session = i := hi
      simp [hi, hF]
    · rintro hnone ⟨src, e⟩ hmem hi
      refine hnone ⟨src, e⟩ (Table.lookup_eq_some_iff.1 ?_) hi
      have hlookup := Table.lookup_eq_some_iff.2 hmem
      rw [h.sessions, Option.filter_eq_some_iff] at hlookup
      exact hlookup.1
  unfold Udp.Senderless
  rw [hentries, h.loop]
  apply and_congr_right
  intro _
  cases hloop : s.udp.loop with
  | sending j data =>
      cases hj : F j with
      | false => simp [Loop.without, hj]
      | true =>
          have hne : j ≠ i := by
            rintro rfl
            rw [hF] at hj
            cases hj
          simp [Loop.without, hj, hne]
  | _ => rfl

/-- Whether the reaper finds a session idle that is kept is the same in both states. -/
theorem Apart.contains_dropped (h : Apart F s s') {i : Nat} (hF : F i = false) :
    ((s'.udp.sessions.dropped fun _ e => Udp.active udpIdleSecs s'.udp.now e).map
        UdpSession.session).contains i =
      ((s.udp.sessions.dropped fun _ e => Udp.active udpIdleSecs s.udp.now e).map
        UdpSession.session).contains i := by
  rw [Bool.eq_iff_iff, List.contains_iff_mem, List.contains_iff_mem, List.mem_map, List.mem_map, h.now]
  simp only [Table.mem_dropped_iff]
  constructor
  · rintro ⟨e, ⟨src, hlookup, hidle⟩, rfl⟩
    rw [h.sessions, Option.filter_eq_some_iff] at hlookup
    exact ⟨e, ⟨src, hlookup.1, hidle⟩, rfl⟩
  · rintro ⟨e, ⟨src, hlookup, hidle⟩, rfl⟩
    refine ⟨e, ⟨src, ?_, hidle⟩, rfl⟩
    rw [h.sessions, hlookup]
    simp [hF]

/-- The event is one of the receive loop. -/
def onLoop : Udp.Event α → Bool
  | .recv _ _ | .recvFails | .send => true
  | _ => false

/-- What a step outside of the receive loop leaves of the relation. -/
def Kept (F : Nat → Bool) (s u u' : UdpForward α) : Prop := Apart F u u' ∧ u.udp.loop = s.udp.loop

theorem apart_session (h : Apart F s s') (hloop : onLoop e = false) (hF : concerns F s e = false) :
    Option.Rel (Kept F s) (step udpIdleSecs s e) (step udpIdleSecs s' e) := by
  cases e with
  | recv | recvFails | send => cases hloop
  | pass n =>
      apply Option.Rel.some
      refine ⟨{ h with now := ?_ }, rfl⟩
      show s'.udp.now + n = s.udp.now + n
      rw [h.now]
  | reap =>
      apply Option.Rel.some
      refine ⟨{ h with sessions := fun src => ?_, reaped := fun i hi => ?_ }, rfl⟩
      · show AList.lookup src (Table.retain _ s'.udp.sessions) =
          (AList.lookup src (Table.retain _ s.udp.sessions)).filter _
        rw [Table.lookup_retain, Table.lookup_retain, h.sessions, h.now]
        ext v
        simp only [Option.filter_eq_some_iff]
        exact and_right_comm
      · show (s'.udp.reaped i || _) = (s.udp.reaped i || _)
        rw [h.reaped i hi, h.contains_dropped hi]
  | bound i ok =>
      have hi : F i = false := hF
      simp only [step, Udp.step, h.tasks i hi]
      cases htask : s.udp.tasks i with
      | binding src =>
          cases ok with
          | true =>
              apply Option.Rel.some
              exact ⟨{ h with
                tasks := agree_update h.tasks i rfl
                repliers := agree_update h.repliers i rfl
                absent := absent_update hi h.absent }, rfl⟩
          | false =>
              apply Option.Rel.some
              exact ⟨{ h with
                tasks := agree_update h.tasks i rfl
                failed := agree_update h.failed i rfl
                absent := absent_update hi h.absent }, rfl⟩
      | _ => exact .none
  | forward i ok =>
      have hi : F i = false := hF
      simp only [step, Udp.step, h.tasks i hi, h.queues i hi]
      cases htask : s.udp.tasks i with
      | relaying src =>
          cases hqueue : s.udp.queues i with
          | nil => exact .none
          | cons data rest =>
              cases ok with
              | true =>
                  apply Option.Rel.some
                  exact ⟨{ h with
                    queues := agree_update h.queues i rfl
                    toTarget := agree_update h.toTarget i (by rw [h.toTarget i hi]) }, rfl⟩
              | false =>
                  have hstopped : (if s'.udp.repliers i = .running then Replier.aborted
                      else s'.udp.repliers i) =
                      if s.udp.repliers i = .running then .aborted else s.udp.repliers i := by
                    rw [h.repliers i hi]
                  apply Option.Rel.some
                  exact ⟨{ h with
                    tasks := agree_update h.tasks i rfl
                    repliers := agree_update h.repliers i hstopped
                    queues := agree_update h.queues i rfl
                    failed := agree_update h.failed i rfl
                    absent := absent_update hi h.absent }, rfl⟩
      | _ => exact .none
  | closed i =>
      have hi : F i = false := hF
      simp only [step, Udp.step, h.tasks i hi, h.queues i hi, h.senderless_iff hi]
      cases htask : s.udp.tasks i with
      | relaying src =>
          cases hqueue : s.udp.queues i with
          | nil =>
              by_cases hsender : s.udp.Senderless i
              · simp only [if_pos hsender]
                apply Option.Rel.some
                exact ⟨{ h with
                  tasks := agree_update h.tasks i rfl
                  repliers := agree_update h.repliers i (by rw [h.repliers i hi])
                  absent := absent_update hi h.absent }, rfl⟩
              · simp only [if_neg hsender]
                exact .none
          | cons data rest => exact .none
      | _ => exact .none
  | reply i data ok =>
      have hi : F i = false := hF
      simp only [step, Udp.step, h.tasks i hi, h.repliers i hi]
      cases hsrc : (s.udp.tasks i).src with
      | none => exact .none
      | some src =>
          cases hlive : (s.udp.repliers i).live with
          | false => exact .none
          | true =>
              cases ok with
              | true =>
                  apply Option.Rel.some
                  exact ⟨{ h with
                    replies := agree_update h.replies i (by rw [h.replies i hi]) }, rfl⟩
              | false =>
                  apply Option.Rel.some
                  exact ⟨{ h with
                    repliers := agree_update h.repliers i rfl
                    failed := agree_update h.failed i rfl }, rfl⟩
  | replyFails i =>
      have hi : F i = false := hF
      simp only [step, Udp.step, h.repliers i hi]
      cases hlive : (s.udp.repliers i).live with
      | false => exact .none
      | true =>
          apply Option.Rel.some
          exact ⟨{ h with
            repliers := agree_update h.repliers i rfl
            failed := agree_update h.failed i rfl }, rfl⟩
  | replyStops i =>
      have hi : F i = false := hF
      simp only [step, Udp.step, h.repliers i hi]
      cases hreplier : s.udp.repliers i with
      | aborted =>
          apply Option.Rel.some
          exact ⟨{ h with repliers := agree_update h.repliers i rfl }, rfl⟩
      | _ => exact .none
  | remove i =>
      have hi : F i = false := hF
      simp only [step, Udp.step, h.tasks i hi]
      cases htask : s.udp.tasks i with
      | leaving src =>
          apply Option.Rel.some
          refine ⟨{ h with
            sessions := fun src' => ?_
            tasks := agree_update h.tasks i rfl
            absent := absent_update hi h.absent }, rfl⟩
          show AList.lookup src' (AList.erase src s'.udp.sessions) =
            (AList.lookup src' (AList.erase src s.udp.sessions)).filter _
          by_cases hne : src' = src
          · subst hne
            rw [AList.lookup_erase, AList.lookup_erase]
            rfl
          · rw [AList.lookup_erase_ne hne, AList.lookup_erase_ne hne, h.sessions]
      | _ => exact .none

/-- An entry of a session that is kept is put into both maps. -/
theorem Apart.lookup_insert (h : Apart F s s') {e : UdpSession} (hF : F e.session = false)
    (src src' : α) :
    (s'.udp.sessions.insert src e).lookup src' =
      ((s.udp.sessions.insert src e).lookup src').filter fun e => !F e.session := by
  by_cases hne : src' = src
  · subst hne
    rw [AList.lookup_insert, AList.lookup_insert]
    show some e = if (!F e.session) = true then some e else none
    rw [hF]
    rfl
  · rw [AList.lookup_insert_ne hne, AList.lookup_insert_ne hne, h.sessions]

/-- One of a session that is not kept is not seen in the second. -/
theorem Apart.lookup_insert_of_mem (h : Apart F s s') {e : UdpSession} {src : α}
    (hF : F e.session = true) (hnone : s'.udp.sessions.lookup src = none) (src' : α) :
    s'.udp.sessions.lookup src' =
      ((s.udp.sessions.insert src e).lookup src').filter fun e => !F e.session := by
  by_cases hne : src' = src
  · subst hne
    rw [AList.lookup_insert, hnone]
    show none = if (!F e.session) = true then some e else none
    rw [hF]
    rfl
  · rw [AList.lookup_insert_ne hne, h.sessions]

theorem apart_loop (h : Apart F s s') (hclear : s.Clear F) (hloop : onLoop e = true)
    (hF : concerns F s e = false) :
    Option.Rel (fun u u' => Apart F u u' ∧ u.Clear F) (step udpIdleSecs s e)
      (step udpIdleSecs s' e) := by
  have hsame : s'.udp.loop = s.udp.loop := h.loop.trans hclear
  cases e with
  | recv src data =>
      have hsession : F (s.sessionOf src) = false := hF
      have hentry := h.sessions src
      simp only [step, Udp.step, hsame]
      cases hreceiving : s.udp.loop with
      | receiving =>
          cases hlookup : s.udp.sessions.lookup src with
          | some e =>
              simp only [sessionOf, hlookup] at hsession
              rw [hlookup] at hentry
              simp only [Option.filter_some, hsession, Bool.not_false, if_true] at hentry
              simp only [hentry]
              apply Option.Rel.some
              refine ⟨{ h with sessions := ?_, loop := ?_ }, ?_⟩
              · show ∀ src', AList.lookup src'
                  (s'.udp.sessions.insert src { e with lastActive := s'.udp.now }) = _
                rw [h.now]
                exact h.lookup_insert (e := { e with lastActive := s.udp.now }) hsession src
              · show Loop.sending e.session data = Loop.without F (.sending e.session data)
                simp [Loop.without, hsession]
              · show Loop.without F (.sending e.session data) = .sending e.session data
                simp [Loop.without, hsession]
          | none =>
              simp only [sessionOf, hlookup] at hsession
              rw [hlookup, Option.filter_none] at hentry
              simp only [hentry]
              apply Option.Rel.some
              refine ⟨{ h with
                next := ?_, sessions := ?_, loop := ?_, tasks := ?_, absent := ?_ }, ?_⟩
              · show s'.udp.next + 1 = s.udp.next + 1
                rw [h.next]
              · show ∀ src', AList.lookup src'
                  (s'.udp.sessions.insert src ⟨s'.udp.next, s'.udp.now⟩) = _
                rw [h.now, h.next]
                exact h.lookup_insert hsession src
              · show Loop.sending s'.udp.next data = Loop.without F (.sending s.udp.next data)
                simp [Loop.without, hsession, h.next]
              · show ∀ i, F i = false → Function.update s'.udp.tasks s'.udp.next _ i =
                  Function.update s.udp.tasks s.udp.next _ i
                rw [h.next]
                exact agree_update h.tasks _ rfl
              · show ∀ i, F i = true → Function.update s'.udp.tasks s'.udp.next _ i = _
                rw [h.next]
                exact absent_update hsession h.absent
              · show Loop.without F (.sending s.udp.next data) = .sending s.udp.next data
                simp [Loop.without, hsession]
      | _ => exact .none
  | recvFails =>
      simp only [step, Udp.step, hsame]
      cases hreceiving : s.udp.loop with
      | receiving =>
          apply Option.Rel.some
          exact ⟨{ h with loop := rfl }, rfl⟩
      | _ => exact .none
  | send =>
      simp only [step, Udp.step, hsame]
      cases hsending : s.udp.loop with
      | sending i data =>
          have hi : F i = false := by simpa [concerns, hsending] using hF
          apply Option.Rel.some
          unfold Udp.push
          rw [h.tasks i hi]
          cases s.udp.tasks i with
          | «over» src => exact ⟨{ h with loop := rfl }, rfl⟩
          | _ =>
              exact ⟨{ h with
                loop := rfl
                queues := agree_update h.queues i (by rw [h.queues i hi]) }, rfl⟩
      | _ => exact .none
  | _ => cases hloop

/-- The loop goes on only when it has nothing in hand, or sends what it has. -/
theorem clear_of_step (hloop : onLoop e = true) (hF : concerns F s e = false)
    (hstep : step udpIdleSecs s e = some t) : s.Clear F := by
  obtain ⟨u, hu, rfl⟩ := Option.map_eq_some_iff.1 hstep
  unfold Clear
  cases Udp.step_eq_some_iff.1 hu with
  | refresh hreceiving | opens hreceiving | recvFails hreceiving =>
      rw [hreceiving]
      rfl
  | @send i data hsending =>
      have hi : F i = false := by simpa [concerns, hsending] using hF
      rw [hsending]
      simp [Loop.without, hi]
  | _ => cases hloop

/-- A step that is taken in the first state and has nothing to do with what is left out can be taken in the
second. -/
theorem apart_kept (h : Apart F s s') (hF : concerns F s e = false)
    (hstep : step udpIdleSecs s e = some t) :
    ∃ t', step udpIdleSecs s' e = some t' ∧ Apart F t t' := by
  have hrel : Option.Rel (Apart F) (step udpIdleSecs s e) (step udpIdleSecs s' e) := by
    cases hloop : onLoop e with
    | true => exact Core.rel_imp (apart_loop h (clear_of_step hloop hF hstep) hloop hF) fun _ hu => hu.1
    | false => exact Core.rel_imp (apart_session h hloop hF) fun _ hu => hu.1
  exact Core.exists_of_rel hrel hstep

/-! ## Steps of those that are left out -/

theorem agree_update_of_mem {β : Type} {f f' : Nat → β} (h : ∀ j, F j = false → f' j = f j) {i : Nat}
    (hi : F i = true) (k : β) (j : Nat) (hj : F j = false) : f' j = Function.update f i k j := by
  have hne : j ≠ i := by
    rintro rfl
    rw [hi] at hj
    cases hj
  rw [Function.update_of_ne hne, h j hj]

theorem apart_dropped (h : Apart F s s') (hown : Own s e) (hF : concerns F s e = true)
    (hstep : step udpIdleSecs s e = some t) :
    Apart F t ((listener α udpIdleSecs).remainder s s' e) := by
  obtain ⟨u, hu, rfl⟩ := Option.map_eq_some_iff.1 hstep
  have hi : ∀ {i : Nat}, concerns F s e = F i → F i = true := fun heq => heq ▸ hF
  cases Udp.step_eq_some_iff.1 hu with
  | @refresh src data e hloop hentry =>
      have hsession : F e.session = true := by simpa [concerns, sessionOf, hentry] using hF
      have hnone : s'.udp.sessions.lookup src = none := by
        rw [h.sessions, hentry]
        simp [hsession]
      have hkept : (listener α udpIdleSecs).remainder s s' (.recv src data) = s' := by
        simp [Listener.remainder, listener, opens, hentry]
      rw [hkept]
      refine { h with sessions := ?_, loop := ?_ }
      · exact h.lookup_insert_of_mem hsession hnone
      · show s'.udp.loop = Loop.without F (.sending e.session data)
        rw [h.loop, hloop]
        simp [Loop.without, hsession]
  | @opens src data hloop hentry =>
      have hsession : F s.udp.next = true := by simpa [concerns, sessionOf, hentry] using hF
      have hnone : s'.udp.sessions.lookup src = none := by
        rw [h.sessions, hentry]
        rfl
      have hpassed : (listener α udpIdleSecs).remainder s s' (.recv src data) = s'.passOver := by
        simp [Listener.remainder, listener, UdpForward.opens, hentry]
      rw [hpassed]
      refine { h with next := ?_, sessions := ?_, loop := ?_, tasks := ?_ }
      · show s'.udp.next + 1 = s.udp.next + 1
        rw [h.next]
      · exact h.lookup_insert_of_mem hsession hnone
      · show s'.udp.loop = Loop.without F (.sending s.udp.next data)
        rw [h.loop, hloop]
        simp [Loop.without, hsession]
      · exact agree_update_of_mem h.tasks hsession _
  | recvFails | pass | reap => cases hF
  | @send i data hloop =>
      have hi : F i = true := by simpa [concerns, hloop] using hF
      have hreceiving : s'.udp.loop = .receiving := by
        rw [h.loop, hloop]
        simp [Loop.without, hi]
      show Apart F ⟨{ s.udp.push i data with loop := .receiving }, s.replies⟩ s'
      unfold Udp.push
      cases s.udp.tasks i with
      | «over» src => exact { h with loop := hreceiving }
      | _ => exact { h with loop := hreceiving, queues := agree_update_of_mem h.queues hi _ }
  | @bound i src hpc =>
      exact { h with
        tasks := agree_update_of_mem h.tasks (hi rfl) _
        repliers := agree_update_of_mem h.repliers (hi rfl) _ }
  | @bindFails i src hpc =>
      exact { h with
        tasks := agree_update_of_mem h.tasks (hi rfl) _
        failed := agree_update_of_mem h.failed (hi rfl) _ }
  | @forward i src data rest hpc hqueue =>
      exact { h with
        queues := agree_update_of_mem h.queues (hi rfl) _
        toTarget := agree_update_of_mem h.toTarget (hi rfl) _ }
  | @forwardFails i src data rest hpc hqueue =>
      exact { h with
        tasks := agree_update_of_mem h.tasks (hi rfl) _
        repliers := agree_update_of_mem h.repliers (hi rfl) _
        queues := agree_update_of_mem h.queues (hi rfl) _
        failed := agree_update_of_mem h.failed (hi rfl) _ }
  | @closed i src hpc hqueue hsender =>
      exact { h with
        tasks := agree_update_of_mem h.tasks (hi rfl) _
        repliers := agree_update_of_mem h.repliers (hi rfl) _ }
  | @reply i src data hpc hlive =>
      exact { h with replies := agree_update_of_mem h.replies (hi rfl) _ }
  | @replySendFails i src data hpc hlive =>
      exact { h with
        repliers := agree_update_of_mem h.repliers (hi rfl) _
        failed := agree_update_of_mem h.failed (hi rfl) _ }
  | @replyFails i hlive =>
      exact { h with
        repliers := agree_update_of_mem h.repliers (hi rfl) _
        failed := agree_update_of_mem h.failed (hi rfl) _ }
  | @replyStops i haborted =>
      exact { h with repliers := agree_update_of_mem h.repliers (hi rfl) _ }
  | @remove i src hpc =>
      refine { h with sessions := ?_, tasks := agree_update_of_mem h.tasks (hi rfl) _ }
      intro src'
      show AList.lookup src' s'.udp.sessions = (AList.lookup src' (s.udp.sessions.erase src)).filter _
      by_cases hne : src' = src
      · subst hne
        rw [AList.lookup_erase, h.sessions]
        cases hentry : s.udp.sessions.lookup src' with
        | none => rfl
        | some e =>
            -- The entry that is removed is its own, so it is not in the second map.
            have heq : e.session = i := hown src' e hpc hentry
            simp [heq, hi rfl]
      · rw [AList.lookup_erase_ne hne, h.sessions]

/-! ## The loop -/

/-- Only an error of `recv_from` ends the loop. -/
theorem loop_ne_stopped {s u : Udp α} (hs : s.loop ≠ .stopped) (he : e ≠ .recvFails)
    (hstep : s.step udpIdleSecs e = some u) : u.loop ≠ .stopped := by
  cases Udp.step_eq_some_iff.1 hstep with
  | recvFails => exact absurd rfl he
  | refresh | opens | send => exact Loop.noConfusion
  | _ => exact hs

theorem stopped_of_error (hstep : step udpIdleSecs s .recvFails = some t) :
    decide (t.udp.loop ≠ .stopped) = false := by
  obtain ⟨u, hu, rfl⟩ := Option.map_eq_some_iff.1 hstep
  cases Udp.step_eq_some_iff.1 hu with
  | recvFails => rfl

/-- No error is spared, so what is left out is a step of a session. -/
theorem concerns_of_gone (hspared : (listener α udpIdleSecs).Spared s e)
    (hgone : ((listener α udpIdleSecs).isError e || (listener α udpIdleSecs).concerns F s e) = true) :
    concerns F s e = true := by
  cases e with
  | recvFails => cases hspared.1 rfl
  | _ => exact hgone

/-- Without the sessions that failed the forwarder does the same. -/
def simulation (α : Type) [DecidableEq α] (udpIdleSecs : Nat) :
    (listener α udpIdleSecs).Simulation where
  Inv s := s.udp.loop ≠ .stopped
  Good _ _ := True
  Past F s s' := Apart F s s'
  Future F s s' := Apart F s s' ∧ s.Clear F
  inv_start := by
    show Loop.receiving ≠ .stopped
    decide
  inv_step := by
    intro s e t hs hspared hstep
    obtain ⟨u, hu, rfl⟩ := Option.map_eq_some_iff.1 hstep
    exact loop_ne_stopped hs (fun he => by subst he; cases hspared.1 rfl) hu
  accepting h := decide_eq_true h
  good_of_failed _ _ := trivial
  good_of_step _ _ _ := trivial
  past_start F := apart_initial
  past_kept _ _ hpast _ hF hstep := apart_kept hpast hF hstep
  past_gone := by
    intro F s s' e t _ hspared _ hpast hgone hstep
    exact apart_dropped hpast hspared.2 (concerns_of_gone hspared hgone) hstep
  future_of_past _ hfailed hpast := ⟨hpast, hfailed.2⟩
  future_step := by
    intro F s s' e hfuture hkept
    cases hloop : onLoop e with
    | true => exact apart_loop hfuture.1 hfuture.2 hloop hkept.2
    | false =>
        refine Core.rel_imp (apart_session hfuture.1 hloop hkept.2) fun {u _} _ hu => ⟨hu.1, ?_⟩
        show u.udp.loop.without F = u.udp.loop
        rw [hu.2]
        exact hfuture.2
  agrees h := ⟨h.1, h.1.loop.trans h.2⟩
  together _ hquiet := ⟨fun _ hi => hi, hquiet⟩

end UdpForward
end Forward
end Erbridge
