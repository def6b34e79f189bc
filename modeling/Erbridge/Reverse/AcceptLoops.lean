import Erbridge.Core.Listener
import Erbridge.Reverse.Serve
import Erbridge.Stats.Handlers

/-!
# The accept loops of legacy serve

The loop that accepts the tunnel client's connections, which logs an error of `accept` and goes on, and
the loop of `run_external_listener`, which such an error ends.  The tasks of both are those of
`Reverse.Serve`, which meet at the watch channel `current`.

* `Serve.Without` — the control connections and the channel without some of them.
* `ControlLoop` — the control connections; one that is over has left the channel as it found it, if it
  found it empty.
* `ExternalLoop` — the external clients, which only read the channel.
-/

namespace Erbridge
namespace Reverse

open Erbridge.Core (Listener Machine blank blank_const blank_of_mem blank_of_not_mem
  blank_update_of_mem blank_update_of_not_mem)
open Stats (Outcome Progress)

namespace Serve

/-- The control connection that takes the step. -/
def Event.conn? : Event → Option Nat
  | .arrive i | .handshake i _ | .publish i | .driverStops i | .finish i => some i
  | .look _ | .changed _ => none

/-- The external client that takes the step. -/
def Event.client? : Event → Option Nat
  | .look x | .changed x => some x
  | _ => none

/-- The external clients in `F` have done nothing yet. -/
def eraseClients (F : Nat → Bool) (s : Serve) : Serve :=
  { s with clients := blank F (.looking 0) s.clients }

variable {F : Nat → Bool} {s t : Serve} {e : Event}

theorem eraseClients_setClient_of_mem {x : Nat} (hF : F x = true) (k : Client) :
    (s.setClient x k).eraseClients F = s.eraseClients F := by
  simp only [eraseClients, setClient, blank_update_of_mem hF]

theorem eraseClients_setClient {x : Nat} (hF : F x = false) (k : Client) :
    (s.setClient x k).eraseClients F = (s.eraseClients F).setClient x k := by
  simp only [eraseClients, setClient, blank_update_of_not_mem hF]

/-- The second state is the first one without the connections in `F`, one of which may be in the
channel. -/
structure Without (F : Nat → Bool) (s s' : Serve) : Prop where
  conns : s'.conns = blank F .idle s.conns
  current : s'.current = s.current.filter fun i => !F i

theorem Without.setConn {s' : Serve} (h : Without F s s') {i : Nat} (hF : F i = false) (k : Conn) :
    Without F (s.setConn i k) (s'.setConn i k) where
  conns := by
    show Function.update s'.conns i k = blank F .idle (Function.update s.conns i k)
    rw [h.conns, blank_update_of_not_mem hF]
  current := h.current

theorem Without.setConn_of_mem {s' : Serve} (h : Without F s s') {i : Nat} (hF : F i = true) (k : Conn) :
    Without F (s.setConn i k) s' where
  conns := by
    show s'.conns = blank F .idle (Function.update s.conns i k)
    rw [h.conns, blank_update_of_mem hF]
  current := h.current

theorem Without.send {s' : Serve} (h : Without F s s') {value : Option Nat}
    (hF : ∀ i, value = some i → F i = false) : Without F (s.send value) (s'.send value) where
  conns := h.conns
  current := by
    show value = value.filter fun i => !F i
    cases value with
    | none => rfl
    | some i => simp [Option.filter_some, hF i rfl]

/-- A step of a connection that is kept is the same in both states, if it finds the channel alike when it
arrives. -/
theorem Without.rel_step {s' : Serve} (h : Without F s s') (hF : e.conn?.any F = false)
    (hloop : e.client? = none)
    (hroom : ∀ i, e = .arrive i → s'.current.isSome = s.current.isSome) :
    Option.Rel (Without F) (s.step e) (s'.step e) := by
  have hconn : ∀ {i : Nat}, F i = false → s'.conns i = s.conns i := by
    intro i hi
    rw [h.conns]
    exact blank_of_not_mem hi
  cases e with
  | arrive i =>
      have hi : F i = false := by simpa [Event.conn?] using hF
      simp only [step, hconn hi, hroom i rfl]
      cases s.conns i with
      | idle =>
          cases s.current.isSome with
          | true => exact .some (h.setConn hi _)
          | false => exact .some (h.setConn hi _)
      | _ => exact .none
  | handshake i ok =>
      have hi : F i = false := by simpa [Event.conn?] using hF
      simp only [step, hconn hi]
      cases s.conns i with
      | handshaking => exact .some (h.setConn hi _)
      | _ => exact .none
  | publish i =>
      have hi : F i = false := by simpa [Event.conn?] using hF
      simp only [step, hconn hi]
      cases s.conns i with
      | accepted running =>
          have hsent : Without F (s.send (some i)) (s'.send (some i)) :=
            h.send fun j hj => Option.some.inj hj ▸ hi
          exact .some (hsent.setConn hi _)
      | _ => exact .none
  | driverStops i =>
      have hi : F i = false := by simpa [Event.conn?] using hF
      simp only [step, hconn hi]
      cases s.conns i with
      | accepted running =>
          cases running with
          | true => exact .some (h.setConn hi _)
          | false => exact .none
      | serving running =>
          cases running with
          | true => exact .some (h.setConn hi _)
          | false => exact .none
      | _ => exact .none
  | finish i =>
      have hi : F i = false := by simpa [Event.conn?] using hF
      simp only [step, hconn hi]
      cases s.conns i with
      | serving running =>
          cases running with
          | true => exact .none
          | false =>
              have hsent : Without F (s.send none) (s'.send none) := h.send fun j hj => by cases hj
              exact .some (hsent.setConn hi _)
      | _ => exact .none
  | look | changed => cases hloop

/-- One that is left out takes the channel only when it is free, and frees it again. -/
theorem Without.step_dropped {s' t : Serve} (h : Without F s s') (hi : Inv s) (hfree : FreeSlot s e)
    (hF : e.conn?.any F = true) (hstep : s.step e = some t) : Without F t s' := by
  have hmem : ∀ {i : Nat}, e.conn? = some i → F i = true := by
    intro i hconn
    rwa [hconn, Option.any_some] at hF
  cases moves_of_step hstep with
  | reject | arrive | handshake | acceptedStops | servingStops => exact h.setConn_of_mem (hmem rfl) _
  | @publish i running hpc =>
      have hempty : s.current = none := hfree
      have hsent : Without F (s.send (some i)) s' := by
        refine ⟨h.conns, ?_⟩
        show s'.current = (some i).filter fun i => !F i
        rw [h.current, hempty]
        simp [Option.filter_some, hmem rfl]
      exact hsent.setConn_of_mem (hmem rfl) _
  | @finish i hpc =>
      have hown : s.current = some i := (hi.slot i).2 ⟨false, hpc⟩
      have hsent : Without F (s.send none) s' := by
        refine ⟨h.conns, ?_⟩
        show s'.current = Option.none
        rw [h.current, hown]
        simp [Option.filter_some, hmem rfl]
      exact hsent.setConn_of_mem (hmem rfl) _
  | find | wait | changed => cases hF

theorem step_eraseClients (hF : e.client?.any F = false) :
    (s.eraseClients F).step e = (s.step e).map (eraseClients F) := by
  have hclient : ∀ {x : Nat}, F x = false → (s.eraseClients F).clients x = s.clients x :=
    fun hx => blank_of_not_mem hx
  cases e with
  | look x =>
      have hx : F x = false := by simpa [Event.client?] using hF
      simp only [step, hclient hx]
      cases s.clients x with
      | looking seen =>
          have hcurrent : (s.eraseClients F).current = s.current := rfl
          simp only [hcurrent]
          cases s.current with
          | some i => exact congrArg some (eraseClients_setClient hx _).symm
          | none => exact congrArg some (eraseClients_setClient hx _).symm
      | _ => rfl
  | changed x =>
      have hx : F x = false := by simpa [Event.client?] using hF
      simp only [step, hclient hx]
      cases s.clients x with
      | waiting seen =>
          show (if seen = s.version then none
              else some ((s.eraseClients F).setClient x (.looking s.version))) =
            Option.map _ (if seen = s.version then none else some (s.setClient x (.looking s.version)))
          split
          · rfl
          · rw [Option.map_some, eraseClients_setClient hx]
      | _ => rfl
  | arrive i =>
      simp only [step, eraseClients]
      cases s.conns i with
      | idle =>
          show (if s.current.isSome = true then _ else _) =
            Option.map _ (if s.current.isSome = true then _ else _)
          split
          · rfl
          · rfl
      | _ => rfl
  | driverStops i | finish i =>
      simp only [step, eraseClients]
      cases s.conns i with
      | accepted running =>
          cases running with
          | true => rfl
          | false => rfl
      | serving running =>
          cases running with
          | true => rfl
          | false => rfl
      | _ => rfl
  | handshake i ok | publish i =>
      simp only [step, eraseClients]
      cases s.conns i with
      | _ => rfl

end Serve

/-! ## The control connections -/

/-- The loop for the tunnel client's connections. -/
structure ControlLoop where
  accepting : Bool
  /-- Connection `i` has been accepted and its task spawned. -/
  spawned : Nat → Bool
  serve : Serve

namespace ControlLoop

def initial : ControlLoop where
  accepting := true
  spawned := fun _ => false
  serve := .initial

inductive Event
  | accept (i : Nat)
  | acceptFails
  /-- A step of the task of a connection. -/
  | task (e : Serve.Event)
deriving DecidableEq

/-- A task takes steps only after it was spawned, of which the first is its arrival.  The external
clients are those of another loop. -/
def mayStep (s : ControlLoop) : Serve.Event → Bool
  | .arrive i => s.spawned i
  | .look _ | .changed _ => false
  | _ => true

def step (s : ControlLoop) : Event → Option ControlLoop
  | .accept i =>
      if s.accepting && !s.spawned i then
        some { s with spawned := Function.update s.spawned i true }
      else none
  -- the error is logged, and `continue`
  | .acceptFails => if s.accepting then some s else none
  | .task e =>
      if s.mayStep e then (s.serve.step e).map fun u => { s with serve := u } else none

/-- The connection that an event is about. -/
def Event.conn? : Event → Option Nat
  | .accept i => some i
  | .acceptFails => none
  | .task e => e.conn?

/-- Its task has returned: it was rejected, its handshake has failed, or it broke while it served. -/
def failed (s : ControlLoop) (i : Nat) : Bool :=
  s.serve.conns i = .rejected || s.serve.conns i = .ended

/-- The channel is free when a connection publishes its control there. -/
def Settled (s : ControlLoop) : Event → Prop
  | .task e => s.serve.FreeSlot e
  | .accept _ | .acceptFails => True

instance : ∀ (s : ControlLoop) (e : Event), Decidable (s.Settled e)
  | s, .task e => inferInstanceAs (Decidable (s.serve.FreeSlot e))
  | _, .accept _ | _, .acceptFails => isTrue trivial

/-- The second state is the first one without the connections in `F`. -/
structure Apart (F : Nat → Bool) (s s' : ControlLoop) : Prop where
  accepting : s'.accepting = s.accepting
  spawned : s'.spawned = blank F false s.spawned
  conns : s'.serve.conns = blank F .idle s.serve.conns
  current : s'.serve.current = s.serve.current

def machine : Machine ControlLoop Event := ⟨step⟩

/-- The loop as a listening loop. -/
def listener : Listener where
  State := ControlLoop
  Event := Event
  Skip := Empty
  machine := machine
  start := initial
  accepting := accepting
  onError := .logs
  isError e := e matches .acceptFails
  Settled := Settled
  concerns F _ e := e.conn?.any F
  opens _ _ := none
  passOver := Empty.elim
  failed := failed
  Quiet _ := True
  Failed s F :=
    (∀ i, F i = true → s.failed i = true) ∧ ∀ i, s.serve.conns i = .rejected → F i = true
  Agrees := Apart

variable {F : Nat → Bool} {s s' t : ControlLoop} {e : Event}

/-- No error gets out of this loop. -/
theorem spared_of_settled {es : List Event} (hsettled : machine.Meets Settled s es) :
    listener.machine.Meets listener.Spared s es := by
  apply machine.meets_iff_forall_step.2
  intro fs e t hfs hrun
  exact ⟨fun _ => rfl, machine.meets_iff_forall_step.1 hsettled fs e t hfs hrun⟩

structure Inv (s : ControlLoop) : Prop where
  accepting : s.accepting = true
  serve : s.serve.Inv

theorem inv_step (hi : Inv s) (hsettled : s.Settled e) (hstep : s.step e = some t) : Inv t := by
  cases e with
  | accept j =>
      simp only [step, Option.ite_none_right_eq_some, Option.some.injEq] at hstep
      obtain ⟨-, rfl⟩ := hstep
      exact ⟨hi.accepting, hi.serve⟩
  | acceptFails =>
      simp only [step, Option.ite_none_right_eq_some, Option.some.injEq] at hstep
      obtain ⟨-, rfl⟩ := hstep
      exact hi
  | task e =>
      simp only [step, Option.ite_none_right_eq_some, Option.map_eq_some_iff] at hstep
      obtain ⟨-, u, hu, rfl⟩ := hstep
      exact ⟨hi.accepting, Serve.inv_step hi.serve hsettled hu⟩

/-- While the connections in `F` are there. -/
structure Past (F : Nat → Bool) (s s' : ControlLoop) : Prop where
  accepting : s'.accepting = s.accepting
  spawned : s'.spawned = blank F false s.spawned
  serve : s.serve.Without F s'.serve

/-- When those in `F` are over. -/
structure Future (F : Nat → Bool) (s s' : ControlLoop) : Prop where
  past : Past F s s'
  inv : Inv s
  gone : ∀ i, F i = true → s.failed i = true

theorem past_initial : Past F initial initial where
  accepting := rfl
  spawned := blank_const.symm
  serve := ⟨blank_const.symm, rfl⟩

/-- Who is in the channel is not over. -/
theorem Future.current_eq (h : Future F s s') : s'.serve.current = s.serve.current := by
  rw [h.past.serve.current]
  cases hcurrent : s.serve.current with
  | none => rfl
  | some i =>
      obtain ⟨running, hpc⟩ := (h.inv.serve.slot i).1 hcurrent
      cases hF : F i with
      | false => simp [hF]
      | true =>
          have hfailed := h.gone i hF
          simp [failed, hpc] at hfailed

/-- A step of the others is the same in both states, if a connection finds the channel alike. -/
theorem Past.rel_step (h : Past F s s') (hF : e.conn?.any F = false)
    (hroom : ∀ i, e = .task (.arrive i) → s'.serve.current.isSome = s.serve.current.isSome) :
    Option.Rel (Past F) (s.step e) (s'.step e) := by
  cases e with
  | accept i =>
      have hi : F i = false := by simpa [Event.conn?] using hF
      have hsame : s'.spawned i = s.spawned i := by
        rw [h.spawned]
        exact blank_of_not_mem hi
      simp only [step, hsame, h.accepting]
      cases s.accepting && !s.spawned i with
      | true =>
          refine .some ⟨rfl, ?_, h.serve⟩
          show Function.update s'.spawned i true = blank F false (Function.update s.spawned i true)
          rw [h.spawned, blank_update_of_not_mem hi]
      | false => exact .none
  | acceptFails =>
      simp only [step, h.accepting]
      cases s.accepting with
      | true => exact .some h
      | false => exact .none
  | task e =>
      have hmay : s'.mayStep e = s.mayStep e := by
        cases e with
        | arrive i =>
            have hi : F i = false := by simpa [Event.conn?, Serve.Event.conn?] using hF
            show s'.spawned i = s.spawned i
            rw [h.spawned]
            exact blank_of_not_mem hi
        | _ => rfl
      simp only [step, hmay]
      cases hmay : s.mayStep e with
      | false => exact .none
      | true =>
          have hloop : e.client? = none := by
            cases e with
            | look x | changed x => cases hmay
            | _ => rfl
          have hrel := h.serve.rel_step hF hloop fun i he => hroom i (congrArg _ he)
          exact Core.rel_map hrel fun _ _ hu => ⟨h.accepting, h.spawned, hu⟩

/-- Who is not rejected finds the channel free without the others as well. -/
theorem Past.kept (h : Past F s s') (hF : e.conn?.any F = false)
    (hgood : ∀ i, t.serve.conns i = .rejected → F i = true) (hstep : s.step e = some t) :
    ∃ t', s'.step e = some t' ∧ Past F t t' := by
  refine Core.exists_of_rel (h.rel_step hF ?_) hstep
  rintro i rfl
  simp only [step, Option.ite_none_right_eq_some, Option.map_eq_some_iff] at hstep
  obtain ⟨-, u, hu, rfl⟩ := hstep
  cases Serve.moves_of_step hu with
  | reject hpc =>
      have hi : F i = false := by simpa [Event.conn?, Serve.Event.conn?] using hF
      have hrejected := hgood i (Function.update_self _ _ _)
      rw [hi] at hrejected
      cases hrejected
  | arrive hpc hfree => rw [h.serve.current, hfree, Option.filter_none]

/-- A step of the ones that are left out leaves nothing behind. -/
theorem Past.step_dropped (h : Past F s s') (hi : Inv s) (hsettled : s.Settled e)
    (hgone : e = .acceptFails ∨ e.conn?.any F = true) (hstep : s.step e = some t) : Past F t s' := by
  cases e with
  | accept i =>
      have hF : F i = true := by simpa [Event.conn?] using hgone
      simp only [step, Option.ite_none_right_eq_some, Option.some.injEq] at hstep
      obtain ⟨-, rfl⟩ := hstep
      refine ⟨h.accepting, ?_, h.serve⟩
      show s'.spawned = blank F false (Function.update s.spawned i true)
      rw [h.spawned, blank_update_of_mem hF]
  | acceptFails =>
      simp only [step, Option.ite_none_right_eq_some, Option.some.injEq] at hstep
      obtain ⟨-, rfl⟩ := hstep
      exact h
  | task e =>
      have hF : e.conn?.any F = true := by simpa [Event.conn?] using hgone
      simp only [step, Option.ite_none_right_eq_some, Option.map_eq_some_iff] at hstep
      obtain ⟨-, u, hu, rfl⟩ := hstep
      exact ⟨h.accepting, h.spawned, h.serve.step_dropped hi.serve hsettled hF hu⟩

/-- The steps of the others leave a connection where it is. -/
theorem conns_of_step (hstep : s.step e = some t) {i : Nat} (hi : e.conn? ≠ some i) :
    t.serve.conns i = s.serve.conns i := by
  cases e with
  | accept j =>
      simp only [step, Option.ite_none_right_eq_some, Option.some.injEq] at hstep
      obtain ⟨-, rfl⟩ := hstep
      rfl
  | acceptFails =>
      simp only [step, Option.ite_none_right_eq_some, Option.some.injEq] at hstep
      obtain ⟨-, rfl⟩ := hstep
      rfl
  | task e =>
      simp only [step, Option.ite_none_right_eq_some, Option.map_eq_some_iff] at hstep
      obtain ⟨-, u, hu, rfl⟩ := hstep
      show u.conns i = s.serve.conns i
      have hne : ∀ {j : Nat}, e.conn? = some j → i ≠ j := by
        rintro j hj rfl
        exact hi hj
      cases Serve.moves_of_step hu with
      | find | wait | changed => rfl
      | _ => exact Function.update_of_ne (hne rfl) _ _

/-- A connection that was rejected does nothing more. -/
theorem rejected_of_step (hstep : s.step e = some t) {i : Nat} (hpc : s.serve.conns i = .rejected) :
    t.serve.conns i = .rejected := by
  by_cases hi : e.conn? = some i
  · cases e with
    | accept j =>
        simp only [step, Option.ite_none_right_eq_some, Option.some.injEq] at hstep
        obtain ⟨-, rfl⟩ := hstep
        exact hpc
    | acceptFails => cases hi
    | task e =>
        simp only [step, Option.ite_none_right_eq_some, Option.map_eq_some_iff] at hstep
        obtain ⟨-, u, hu, -⟩ := hstep
        cases e with
        | look | changed => cases hi
        | _ =>
            obtain rfl := Option.some.inj hi
            simp [Serve.step, hpc] at hu
  · rw [conns_of_step hstep hi]
    exact hpc

/-- Without the connections that are over the loop does the same. -/
def simulation : listener.Simulation where
  Inv := Inv
  Good F s := ∀ i, s.serve.conns i = .rejected → F i = true
  Past := Past
  Future := Future
  inv_start := ⟨rfl, Serve.inv_initial⟩
  inv_step hi hspared hstep := inv_step hi hspared.2 hstep
  accepting hi := hi.accepting
  good_of_failed _ hfailed := hfailed.2
  good_of_step _ hstep hgood i hpc := hgood i (rejected_of_step hstep hpc)
  past_start _ := past_initial
  past_kept _ hgood hpast _ hF hstep := hpast.kept hF hgood hstep
  past_gone := by
    intro F s s' e t hi hspared _ hpast hgone hstep
    refine hpast.step_dropped hi hspared.2 ?_ hstep
    cases e with
    | acceptFails => exact Or.inl rfl
    | accept | task => exact Or.inr hgone
  future_of_past hi hfailed hpast := ⟨hpast, hi, hfailed.1⟩
  future_step := by
    intro F s s' e hfuture hkept
    have hrel := hfuture.past.rel_step (e := e) hkept.2 fun _ _ => by rw [hfuture.current_eq]
    refine Core.rel_imp hrel fun {t _} hstep hpast => ?_
    refine ⟨hpast, inv_step hfuture.inv hkept.1.2 hstep, fun i hFi => ?_⟩
    have hother : e.conn? ≠ some i := by
      intro hconn
      have hF : e.conn?.any F = false := hkept.2
      rw [hconn, Option.any_some, hFi] at hF
      cases hF
    have hgone := hfuture.gone i hFi
    unfold failed at hgone ⊢
    rw [conns_of_step hstep hother]
    exact hgone
  agrees h := ⟨h.past.accepting, h.past.spawned, h.past.serve.conns, h.current_eq⟩
  together _ _ := by
    refine ⟨fun _ hi => hi, fun i hpc => ?_⟩
    show failed _ i = true
    simp [failed, hpc]

end ControlLoop

/-! ## The external clients -/

/-- The loop of one `run_external_listener`. -/
structure ExternalLoop where
  accepting : Bool
  /-- Client `x` has been accepted and its task spawned. -/
  spawned : Nat → Bool
  serve : Serve
  /-- How far the relays are that the clients get to. -/
  relays : Nat → Progress

namespace ExternalLoop

def initial : ExternalLoop where
  accepting := true
  spawned := fun _ => false
  serve := .initial
  relays := fun _ => .awaiting .openStream

inductive Event
  | accept (x : Nat)
  | acceptFails
  /-- A step of a client's wait, or of a control connection. -/
  | task (e : Serve.Event)
  /-- What the relay of client `x` awaits has come out like this. -/
  | relay (x : Nat) (o : Outcome)
deriving DecidableEq

/-- A task takes steps only after it was spawned, of which the first is a look at the channel. -/
def mayStep (s : ExternalLoop) : Serve.Event → Bool
  | .look x => s.spawned x
  | _ => true

def step (s : ExternalLoop) : Event → Option ExternalLoop
  | .accept x =>
      if s.accepting && !s.spawned x then
        some { s with spawned := Function.update s.spawned x true }
      else none
  -- `listener.accept().await?`
  | .acceptFails => if s.accepting then some { s with accepting := false } else none
  | .task e =>
      if s.mayStep e then (s.serve.step e).map fun u => { s with serve := u } else none
  | .relay x o =>
      match s.serve.clients x with
      | .relaying _ =>
          ((s.relays x).resume o).map fun k => { s with relays := Function.update s.relays x k }
      | _ => none

/-- The client that an event is about. -/
def Event.client? : Event → Option Nat
  | .accept x | .relay x _ => some x
  | .acceptFails => none
  | .task e => e.client?

/-- The clients in `F` were never accepted. -/
def erase (F : Nat → Bool) (s : ExternalLoop) : ExternalLoop where
  accepting := s.accepting
  spawned := blank F false s.spawned
  serve := s.serve.eraseClients F
  relays := blank F (.awaiting .openStream) s.relays

/-- The loop as a listening loop. -/
def listener : Listener where
  State := ExternalLoop
  Event := Event
  Skip := Empty
  machine := ⟨step⟩
  start := initial
  accepting := accepting
  onError := .propagates
  isError e := e matches .acceptFails
  Settled _ _ := True
  concerns F _ e := e.client?.any F
  opens _ _ := none
  passOver := Empty.elim
  failed s x := s.relays x = .returned
  Quiet _ := True
  Failed s F := ∀ x, F x = true → s.relays x = .returned
  Agrees F s s' := s' = s.erase F

variable {F : Nat → Bool} {s t : ExternalLoop} {e : Event}

theorem step_erase (hF : e.client?.any F = false) :
    (s.erase F).step e = (s.step e).map (erase F) := by
  cases e with
  | accept x =>
      have hx : F x = false := by simpa [Event.client?] using hF
      have hsame : (s.erase F).spawned x = s.spawned x := blank_of_not_mem hx
      simp only [step, hsame]
      show (if (s.accepting && !s.spawned x) = true then _ else _) = _
      split
      · simp only [Option.map_some, erase, blank_update_of_not_mem hx]
      · rfl
  | acceptFails =>
      simp only [step]
      show (if s.accepting = true then _ else _) = _
      split
      · rfl
      · rfl
  | task e =>
      have hmay : (s.erase F).mayStep e = s.mayStep e := by
        cases e with
        | look x =>
            have hx : F x = false := by simpa [Event.client?, Serve.Event.client?] using hF
            exact blank_of_not_mem hx
        | _ => rfl
      have hserve : (s.erase F).serve.step e = (s.serve.step e).map (Serve.eraseClients F) :=
        Serve.step_eraseClients hF
      simp only [step, hmay, hserve]
      split
      · rw [Option.map_map, Option.map_map]
        rfl
      · rfl
  | relay x o =>
      have hx : F x = false := by simpa [Event.client?] using hF
      have hclient : (s.erase F).serve.clients x = s.serve.clients x := blank_of_not_mem hx
      have hrelay : (s.erase F).relays x = s.relays x := blank_of_not_mem hx
      simp only [step, hclient, hrelay]
      cases s.serve.clients x with
      | relaying i =>
          show Option.map _ _ = Option.map _ (Option.map _ _)
          rw [Option.map_map]
          apply congrArg (fun f => Option.map f ((s.relays x).resume o))
          funext k
          simp only [Function.comp, erase, blank_update_of_not_mem hx]
      | _ => rfl

/-- The clients only read the channel. -/
theorem erase_task {e : Serve.Event} {u : Serve} (hF : e.client?.any F = true)
    (hstep : s.serve.step e = some u) : u.eraseClients F = s.serve.eraseClients F := by
  have hmem : ∀ {x : Nat}, e.client? = some x → F x = true := by
    intro x hclient
    rwa [hclient, Option.any_some] at hF
  cases Serve.moves_of_step hstep with
  | find | wait | changed => exact Serve.eraseClients_setClient_of_mem (hmem rfl) _
  | _ => cases hF

theorem erase_step (hF : e.client?.any F = true) (hstep : s.step e = some t) :
    t.erase F = s.erase F := by
  cases e with
  | accept x =>
      have hx : F x = true := by simpa [Event.client?] using hF
      simp only [step, Option.ite_none_right_eq_some, Option.some.injEq] at hstep
      obtain ⟨-, rfl⟩ := hstep
      simp only [erase, blank_update_of_mem hx]
  | acceptFails => cases hF
  | task e =>
      simp only [step, Option.ite_none_right_eq_some, Option.map_eq_some_iff] at hstep
      obtain ⟨-, u, hu, rfl⟩ := hstep
      have hserve : u.eraseClients F = s.serve.eraseClients F := erase_task hF hu
      simp only [erase, hserve]
  | relay x o =>
      have hx : F x = true := by simpa [Event.client?] using hF
      simp only [step] at hstep
      split at hstep
      · obtain ⟨k, -, rfl⟩ := Option.map_eq_some_iff.1 hstep
        simp only [erase, blank_update_of_mem hx]
      · cases hstep

/-- Only an error of `accept` ends the loop. -/
theorem accepting_step (hs : s.accepting = true) (he : e ≠ .acceptFails)
    (hstep : s.step e = some t) : t.accepting = true := by
  cases e with
  | accept x =>
      simp only [step, Option.ite_none_right_eq_some, Option.some.injEq] at hstep
      obtain ⟨-, rfl⟩ := hstep
      exact hs
  | acceptFails => exact absurd rfl he
  | task e =>
      simp only [step, Option.ite_none_right_eq_some, Option.map_eq_some_iff] at hstep
      obtain ⟨-, u, -, rfl⟩ := hstep
      exact hs
  | relay x o =>
      simp only [step] at hstep
      split at hstep
      · obtain ⟨k, -, rfl⟩ := Option.map_eq_some_iff.1 hstep
        exact hs
      · cases hstep

theorem stopped_of_error (hstep : s.step .acceptFails = some t) : t.accepting = false := by
  simp only [step, Option.ite_none_right_eq_some, Option.some.injEq] at hstep
  obtain ⟨-, rfl⟩ := hstep
  rfl

/-- Whichever clients are erased, the others go on as before. -/
def erasure : listener.Erasure where
  erase := erase
  Inv s := s.accepting = true
  Good _ _ := True
  inv_start := rfl
  inv_step := by
    intro s e t hs hspared hstep
    exact accepting_step hs (fun he => by subst he; cases hspared.1 rfl) hstep
  accepting hs := hs
  good_of_failed _ _ := trivial
  good_of_step _ _ _ := trivial
  erase_start F := by
    show erase F initial = initial
    simp only [erase, initial, Serve.eraseClients, Serve.initial, blank_const]
  opens_eq _ _ := rfl
  step_erase := step_erase
  erase_step := by
    intro F s e t _ hspared _ hgone hstep
    cases e with
    | acceptFails => cases hspared.1 rfl
    | accept x => exact erase_step (e := .accept x) hgone hstep
    | task e => exact erase_step (e := .task e) hgone hstep
    | relay x o => exact erase_step (e := .relay x o) hgone hstep
  agrees _ _ := rfl
  together _ _ x hx := of_decide_eq_true hx

end ExternalLoop
end Reverse
end Erbridge
