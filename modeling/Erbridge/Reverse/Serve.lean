import Erbridge.Core.Machine
import Mathlib.Logic.Function.Basic

/-!
# Legacy serve: the slot of the one tunnel client

The model of `handle_control_conn` and of the wait in `handle_external_client`.  A control connection
looks at the watch channel `current`, completes its handshake, publishes its control there and takes
it back when its driver stops; an external client waits until there is a control.

* `Serve.step` — one step of one connection or of one external client, in any order.
* `Serve.Served` — at most one session is live, `current` has the control of a live session whenever
  there is one, and no external client sleeps meanwhile.
* `served_of_free_slot` — so it is in every run in which the slot is free at each publication, as it
  was when the connection looked; the code does not look again.
* `overlapping_handshakes` — two connections that both looked before either published.
-/

namespace Erbridge
namespace Reverse

/-- Where a control connection is; `running` says whether its mux driver is. -/
inductive Conn
  | idle
  | handshaking
  /-- The handshake is done and the driver was started. -/
  | accepted (running : Bool)
  /-- The control was sent to `current`; the task drains the inbound streams. -/
  | serving (running : Bool)
  | rejected
  | ended
deriving DecidableEq

/-- Where an external client is in its wait for a control; `seen` is the version of the channel that
its receiver has seen. -/
inductive Client
  | looking (seen : Nat)
  /-- It found no control and awaits `current_rx.changed()`. -/
  | waiting (seen : Nat)
  /-- It goes on to `relay` over the control of connection `conn`. -/
  | relaying (conn : Nat)
deriving DecidableEq

/-- The watch channel `current`, the control connections and the external clients. -/
structure Serve where
  /-- The connection whose control is in the channel. -/
  current : Option Nat
  version : Nat
  conns : Nat → Conn
  clients : Nat → Client

namespace Serve

def initial : Serve where
  current := none
  version := 0
  conns := fun _ => .idle
  clients := fun _ => .looking 0

inductive Event
  /-- `current_tx.borrow().is_some()` on arrival. -/
  | arrive (i : Nat)
  | handshake (i : Nat) (ok : Bool)
  | publish (i : Nat)
  /-- The connection or its driver goes away. -/
  | driverStops (i : Nat)
  /-- `inbound_rx` is closed: `current_tx.send(None)`. -/
  | finish (i : Nat)
  /-- `current_rx.borrow().clone()`. -/
  | look (x : Nat)
  /-- `changed()` returns. -/
  | changed (x : Nat)
deriving DecidableEq

def setConn (s : Serve) (i : Nat) (k : Conn) : Serve :=
  { s with conns := Function.update s.conns i k }

def setClient (s : Serve) (x : Nat) (k : Client) : Serve :=
  { s with clients := Function.update s.clients x k }

/-- `current_tx.send(value)`. -/
def send (s : Serve) (value : Option Nat) : Serve :=
  { s with current := value, version := s.version + 1 }

def step (s : Serve) : Event → Option Serve
  | .arrive i =>
      match s.conns i with
      | .idle =>
          if s.current.isSome then some (s.setConn i .rejected)
          else some (s.setConn i .handshaking)
      | _ => none
  | .handshake i ok =>
      match s.conns i with
      | .handshaking => some (s.setConn i (if ok then .accepted true else .ended))
      | _ => none
  | .publish i =>
      match s.conns i with
      | .accepted running => some ((s.send (some i)).setConn i (.serving running))
      | _ => none
  | .driverStops i =>
      match s.conns i with
      | .accepted true => some (s.setConn i (.accepted false))
      | .serving true => some (s.setConn i (.serving false))
      | _ => none
  | .finish i =>
      match s.conns i with
      | .serving false => some ((s.send none).setConn i .ended)
      | _ => none
  | .look x =>
      match s.clients x with
      | .looking seen =>
          match s.current with
          | some i => some (s.setClient x (.relaying i))
          | none => some (s.setClient x (.waiting seen))
      | _ => none
  | .changed x =>
      match s.clients x with
      | .waiting seen =>
          if seen = s.version then none else some (s.setClient x (.looking s.version))
      | _ => none

def machine : Core.Machine Serve Event where
  step := step

/-- What each event needs and does. -/
inductive Moves (s : Serve) : Event → Serve → Prop
  | reject {i : Nat} (hpc : s.conns i = .idle) : Moves s (.arrive i) (s.setConn i .rejected)
  | arrive {i : Nat} (hpc : s.conns i = .idle) (hfree : s.current = none) :
      Moves s (.arrive i) (s.setConn i .handshaking)
  | handshake {i : Nat} {ok : Bool} (hpc : s.conns i = .handshaking) :
      Moves s (.handshake i ok) (s.setConn i (if ok then .accepted true else .ended))
  | publish {i : Nat} {running : Bool} (hpc : s.conns i = .accepted running) :
      Moves s (.publish i) ((s.send (some i)).setConn i (.serving running))
  | acceptedStops {i : Nat} (hpc : s.conns i = .accepted true) :
      Moves s (.driverStops i) (s.setConn i (.accepted false))
  | servingStops {i : Nat} (hpc : s.conns i = .serving true) :
      Moves s (.driverStops i) (s.setConn i (.serving false))
  | finish {i : Nat} (hpc : s.conns i = .serving false) :
      Moves s (.finish i) ((s.send none).setConn i .ended)
  | find {x seen i : Nat} (hpc : s.clients x = .looking seen) (hi : s.current = some i) :
      Moves s (.look x) (s.setClient x (.relaying i))
  | wait {x seen : Nat} (hpc : s.clients x = .looking seen) (hfree : s.current = none) :
      Moves s (.look x) (s.setClient x (.waiting seen))
  | changed {x seen : Nat} (hpc : s.clients x = .waiting seen) (hnew : seen ≠ s.version) :
      Moves s (.changed x) (s.setClient x (.looking s.version))

theorem moves_of_step {s s' : Serve} {e : Event} (hstep : s.step e = some s') : Moves s e s' := by
  cases e with
  | arrive i =>
      simp only [step] at hstep
      split at hstep
      · rename_i hpc
        split at hstep
        · cases hstep
          exact .reject hpc
        · rename_i hfree
          cases hstep
          exact .arrive hpc (by simpa using hfree)
      · cases hstep
  | handshake i ok =>
      simp only [step] at hstep
      split at hstep
      · rename_i hpc
        cases hstep
        exact .handshake hpc
      · cases hstep
  | publish i =>
      simp only [step] at hstep
      split at hstep
      · rename_i running hpc
        cases hstep
        exact .publish hpc
      · cases hstep
  | driverStops i =>
      simp only [step] at hstep
      split at hstep
      · rename_i hpc
        cases hstep
        exact .acceptedStops hpc
      · rename_i hpc
        cases hstep
        exact .servingStops hpc
      · cases hstep
  | finish i =>
      simp only [step] at hstep
      split at hstep
      · rename_i hpc
        cases hstep
        exact .finish hpc
      · cases hstep
  | look x =>
      simp only [step] at hstep
      split at hstep
      · rename_i seen hpc
        split at hstep
        · rename_i i hi
          cases hstep
          exact .find hpc hi
        · rename_i hfree
          cases hstep
          exact .wait hpc hfree
      · cases hstep
  | changed x =>
      simp only [step] at hstep
      split at hstep
      · rename_i seen hpc
        split at hstep
        · cases hstep
        · rename_i hnew
          cases hstep
          exact .changed hpc hnew
      · cases hstep

/-! ## One session, one entry -/

/-- The session's handshake is done, its driver runs and its task is past publishing its control. -/
def Live (s : Serve) (i : Nat) : Prop := s.conns i = .serving true

/-- At most one session is live; while one is, `current` has the control of a live session and no
external client sleeps in `changed()`. -/
structure Served (s : Serve) : Prop where
  unique : ∀ i j, s.Live i → s.Live j → i = j
  current : ∀ i, s.Live i → ∃ j, s.current = some j ∧ s.Live j
  awake : ∀ i x seen, s.Live i → s.clients x = .waiting seen → seen ≠ s.version

/-- Nothing has taken the slot since the connection looked, or it is free again. -/
def FreeSlot (s : Serve) : Event → Prop
  | .publish _ => s.current = none
  | _ => True

instance : ∀ s e, Decidable (FreeSlot s e)
  | s, .publish _ => inferInstanceAs (Decidable (s.current = none))
  | _, .arrive _ | _, .handshake _ _ | _, .driverStops _ | _, .finish _ | _, .look _
  | _, .changed _ => isTrue trivial

/-- The session in the slot is exactly the one that has published and has not ended, and a client
that sleeps has seen the channel empty at this version. -/
structure Inv (s : Serve) : Prop where
  slot : ∀ i, s.current = some i ↔ ∃ running, s.conns i = .serving running
  asleep : ∀ x, s.clients x = .waiting s.version → s.current = none
  seen : ∀ x n, s.clients x = .looking n ∨ s.clients x = .waiting n → n ≤ s.version

theorem inv_initial : Inv initial where
  slot i := by simp [initial]
  asleep x hx := rfl
  seen x n hx := by
    rcases hx with hx | hx
    · cases hx
      exact Nat.le_refl _
    · cases hx

/-- A connection that moves outside the slot leaves it alone. -/
theorem Inv.setConn {s : Serve} (hi : Inv s) {i : Nat} {k : Conn}
    (hk : (∃ running, k = .serving running) ↔ ∃ running, s.conns i = .serving running) :
    Inv (s.setConn i k) where
  slot j := by
    show s.current = some j ↔ ∃ running, Function.update s.conns i k j = .serving running
    by_cases hj : j = i
    · subst hj
      simpa [hk] using hi.slot j
    · simpa [hj] using hi.slot j
  asleep := hi.asleep
  seen := hi.seen

/-- After a send nobody has seen the new version. -/
theorem Inv.unseen {s : Serve} (hi : Inv s) {x : Nat} : s.clients x ≠ .waiting (s.version + 1) := by
  intro hx
  have hle := hi.seen x _ (Or.inr hx)
  omega

theorem inv_step {s s' : Serve} {e : Event} (hi : Inv s) (hfree : FreeSlot s e)
    (hstep : s.step e = some s') : Inv s' := by
  cases moves_of_step hstep with
  | reject hpc => exact hi.setConn (by simp [hpc])
  | arrive hpc _ => exact hi.setConn (by simp [hpc])
  | @handshake i ok hpc => exact hi.setConn (by cases ok <;> simp [hpc])
  | @publish i running hpc =>
      have hempty : s.current = none := hfree
      refine ⟨fun j => ?_, fun x hx => absurd hx hi.unseen, fun x n hx => ?_⟩
      · show some i = some j ↔ ∃ r, Function.update s.conns i (.serving running) j = .serving r
        by_cases hj : j = i
        · simp [hj]
        · have hnot : ¬ ∃ r, s.conns j = .serving r := by
            rw [← hi.slot j, hempty]
            simp
          simpa [hj, Ne.symm hj] using hnot
      · exact Nat.le_succ_of_le (hi.seen x n hx)
  | acceptedStops hpc => exact hi.setConn (by simp [hpc])
  | servingStops hpc => exact hi.setConn (by simp [hpc])
  | @finish i hpc =>
      have hown : s.current = some i := (hi.slot i).2 ⟨false, hpc⟩
      refine ⟨fun j => ?_, fun x hx => absurd hx hi.unseen, fun x n hx => ?_⟩
      -- Only this connection had the slot, so no other entry is lost.
      · show none = some j ↔ ∃ r, Function.update s.conns i .ended j = .serving r
        by_cases hj : j = i
        · simp [hj]
        · have hnot : ¬ ∃ r, s.conns j = .serving r := by
            rw [← hi.slot j, hown]
            simpa using Ne.symm hj
          simpa [hj] using hnot
      · exact Nat.le_succ_of_le (hi.seen x n hx)
  | @find x seen i hpc hcur =>
      refine ⟨hi.slot, fun y hy => ?_, fun y n hy => ?_⟩
      · by_cases hxy : y = x
        · simp [setClient, hxy] at hy
        · exact hi.asleep y (by simpa [setClient, hxy] using hy)
      · by_cases hxy : y = x
        · simp [setClient, hxy] at hy
        · exact hi.seen y n (by simpa [setClient, hxy] using hy)
  | @wait x seen hpc hempty =>
      refine ⟨hi.slot, fun _ _ => hempty, fun y n hy => ?_⟩
      by_cases hxy : y = x
      · obtain rfl : seen = n := by simpa [setClient, hxy] using hy
        exact hi.seen x seen (Or.inl hpc)
      · exact hi.seen y n (by simpa [setClient, hxy] using hy)
  | @changed x seen hpc hnew =>
      refine ⟨hi.slot, fun y hy => ?_, fun y n hy => ?_⟩
      · by_cases hxy : y = x
        · simp [setClient, hxy] at hy
        · exact hi.asleep y (by simpa [setClient, hxy] using hy)
      · by_cases hxy : y = x
        · have heq : s.version = n := by simpa [setClient, hxy] using hy
          exact Nat.le_of_eq heq.symm
        · exact hi.seen y n (by simpa [setClient, hxy] using hy)

theorem Inv.served {s : Serve} (hi : Inv s) : Served s where
  unique i j hlive hlive' := by
    have hcur := (hi.slot i).2 ⟨true, hlive⟩
    have hcur' := (hi.slot j).2 ⟨true, hlive'⟩
    exact Option.some.inj (hcur.symm.trans hcur')
  current i hlive := ⟨i, (hi.slot i).2 ⟨true, hlive⟩, hlive⟩
  awake i x seen hlive hx := by
    rintro rfl
    have hcur := (hi.slot i).2 ⟨true, hlive⟩
    rw [hi.asleep x hx] at hcur
    cases hcur

/-- **One tunnel client at a time**, in every run in which the slot is free at each publication. -/
theorem served_of_free_slot (es : List Event) (s : Serve)
    (hmeets : machine.Meets FreeSlot initial es) (hrun : machine.run initial es = some s) :
    Served s :=
  (machine.run_invariant_of_meets Inv inv_step inv_initial hmeets hrun).served

/-- A client waits for the tunnel; one connection comes and goes, then another. -/
def reconnectRun : List Event :=
  [.look 0, .arrive 0, .handshake 0 true, .publish 0, .arrive 1, .driverStops 0, .finish 0,
    .arrive 2, .handshake 2 true, .publish 2, .changed 0]

theorem served_of_free_slot_reconnect :
    ∃ s, machine.run initial reconnectRun = some s ∧ s.Live 2 ∧ Served s := by
  have hlook : (machine.run initial reconnectRun).map (fun s => s.conns 2)
      = some (.serving true) := by decide
  obtain ⟨s, hrun, hlive⟩ := Option.map_eq_some_iff.1 hlook
  exact ⟨s, hrun, hlive, served_of_free_slot reconnectRun s (by decide) hrun⟩

/-- Two connections look at the free slot before either has completed its handshake. -/
def overlapRun : List Event :=
  [.arrive 0, .arrive 1, .handshake 0 true, .handshake 1 true, .publish 0, .publish 1]

/-- **Two sessions are live at a time**, and the first to end hides the other. -/
theorem overlapping_handshakes : ¬ ∀ es s, machine.run initial es = some s → Served s := by
  intro hall
  have hlook : (machine.run initial (overlapRun ++ [.driverStops 0, .finish 0])).map
      (fun s => (s.conns 1, s.current)) = some (.serving true, none) := by decide
  obtain ⟨s, hrun, hstate⟩ := Option.map_eq_some_iff.1 hlook
  obtain ⟨hlive, hcur⟩ := Prod.mk.inj hstate
  obtain ⟨j, hj, -⟩ := (hall _ s hrun).current 1 hlive
  rw [hcur] at hj
  cases hj

end Serve
end Reverse
end Erbridge
