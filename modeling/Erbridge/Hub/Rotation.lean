import Erbridge.Hub.Route
import Erbridge.Hub.Takeover

/-!
# Sessions that are not allowed any more

A session whose tenant was removed, disabled or given another PSK while its handshake was running is
put into the map before the snapshot is looked at, and cancels what it has displaced whatever the
check says.

* `Watched` — the hub and, for each session, whether the snapshot did not allow it when it was
  registered.
* `Harmless` — a step of such a session's task leaves alone what the snapshot allows.
* `harmless_iff_displacesNone` — the steps that are harmless are those in which it has displaced
  nothing that the snapshot allows; `barred_harmless_iff` says this of whole runs.
-/

namespace Erbridge
namespace Hub

open Noise (Psk)
open Tenancy (Tenant TenantSet)
open Erbridge.Core (Machine Table)

/-- The connection whose task takes the step. -/
def Event.task : Event → Option Nat
  | .arrive i _ => some i
  | .verify i _ => some i
  | .handshakeFails i => some i
  | .draw i => some i
  | .register i => some i
  | .check i => some i
  | .cancelSelf i => some i
  | .cancelReplaced i => some i
  | .finish i => some i
  | .publish _ _ | .sweep _ => none

/-- The session that the task is about to register is not allowed by the snapshot. -/
def refuses (h : Hub) (i : Nat) : Bool :=
  match h.tasks i with
  | .numbered t _ => !h.set.allows t.name t.psk
  | _ => false

/-- The hub with a record of the past. -/
structure Watched where
  hub : Hub
  /-- The snapshot did not allow the session when it was registered; not part of the code's state. -/
  barred : Nat → Bool

namespace Watched

def initial (set : TenantSet) : Watched where
  hub := Hub.initial set
  barred := fun _ => false

/-- What the event adds to the record. -/
def record (w : Watched) : Event → Nat → Bool
  | .register i => Function.update w.barred i (w.hub.refuses i)
  | _ => w.barred

def step (w : Watched) (e : Event) : Option Watched :=
  (w.hub.step e).map fun h => { hub := h, barred := w.record e }

def machine : Machine Watched Event where
  step := step

theorem step_of_moves {w : Watched} {e : Event} {h : Hub} (hmoves : Moves w.hub e h) :
    w.step e = some { hub := h, barred := w.record e } := by
  rw [step, step_eq_some_iff.2 hmoves]
  rfl

/-- Watching changes nothing. -/
theorem run_hub (w : Watched) (es : List Event) :
    (machine.run w es).map hub = Hub.machine.run w.hub es := by
  induction es generalizing w with
  | nil => rfl
  | cons e es ih =>
      show (((w.hub.step e).map _).bind fun u => machine.run u es).map hub =
        (w.hub.step e).bind fun h => Hub.machine.run h es
      cases hstep : w.hub.step e with
      | none => rfl
      | some h => exact ih _

/-- A step of a task whose session was barred neither cancels another session that the snapshot allows
nor takes its entry away. -/
def Harmless (w : Watched) (e : Event) (w' : Watched) : Prop :=
  ∀ i, e.task = some i → w'.barred i = true →
    ∀ j t id, j ≠ i → (w.hub.tasks j).registration = some (t, id) →
      w.hub.set.allows t.name t.psk = true →
        (w.hub.cancelled j = false → w'.hub.cancelled j = false) ∧
          (w.hub.Mapped j t id → w'.hub.Mapped j t id)

/-- A session that the snapshot does not allow is not registered over one that it allows; and what a
barred session has displaced is over, or cancelled, or not allowed when the task cancels it. -/
def DisplacesNone (w : Watched) : Event → Prop
  | .register i => ∀ t id s, w.hub.tasks i = .numbered t id →
      w.hub.set.allows t.name t.psk = false → w.hub.sessions.lookup t.name = some s →
        w.hub.set.allows t.name s.psk = false
  | .cancelReplaced i => w.barred i = true → ∀ t id s, w.hub.tasks i = .checked t id (some s) →
      (w.hub.tasks s.task).registration ≠ none → w.hub.cancelled s.task = false →
        w.hub.set.allows t.name s.psk = false
  | _ => True

/-- Both invariants of the hub. -/
structure Inv (w : Watched) : Prop where
  hub : Hub.Inv w.hub
  turnover : Turnover w.hub

theorem inv_initial (set : TenantSet) : Inv (initial set) :=
  ⟨Hub.inv_initial set, turnover_initial set⟩

theorem inv_step {w w' : Watched} {e : Event} (hi : Inv w) (hstep : w.step e = some w') :
    Inv w' := by
  obtain ⟨h, hh, rfl⟩ := Option.map_eq_some_iff.1 hstep
  exact ⟨Hub.inv_step hi.hub hh, turnover_step hi.turnover hi.hub hh⟩

/-- What a task has displaced belongs to the session of the same name with that PSK. -/
theorem Inv.of_displaced {w : Watched} (hi : Inv w) {i : Nat} {t u : Tenant} {id k : Nat} {s : Session}
    (hpc : w.hub.tasks i = .checked t id (some s))
    (hreg : (w.hub.tasks s.task).registration = some (u, k)) :
    s.task ≠ i ∧ u.name = t.name ∧ u.psk = s.psk ∧ k = s.id := by
  have hregi : (w.hub.tasks i).registration = some (t, id) := by rw [hpc]; rfl
  obtain ⟨hne, v, hname, hpsk, hr | hend⟩ := hi.turnover.displaced i t id s hregi (by rw [hpc]; rfl)
  · rw [hreg] at hr
    obtain ⟨rfl, rfl⟩ := Prod.mk.inj (Option.some.inj hr)
    exact ⟨hne, hname, hpsk, rfl⟩
  · rw [hend] at hreg
    cases hreg

theorem harmless_of_displacesNone {w w' : Watched} {e : Event} (hi : Inv w)
    (hnone : w.DisplacesNone e) (hstep : w.step e = some w') : Harmless w e w' := by
  obtain ⟨h, hh, rfl⟩ := Option.map_eq_some_iff.1 hstep
  intro i hi' hbarred j t id hne hreg hallowed
  cases step_eq_some_iff.1 hh with
  | arrive | verifyTenant | verifyCode | handshakeFails | draw | checkPasses | checkFails =>
      exact ⟨fun hlive => hlive, fun hmapped => hmapped⟩
  | @register k u n hpc =>
      obtain rfl : k = i := Option.some.inj hi'
      refine ⟨fun hlive => hlive, fun hmapped => ?_⟩
      refine Table.lookup_insert_eq_some_iff.2 (Or.inr ⟨fun hname => ?_, hmapped⟩)
      -- The entry would be displaced, so the snapshot does not allow it.
      have hrefused : w.hub.set.allows u.name u.psk = false := by
        simpa [record, refuses, hpc] using hbarred
      have hentry : w.hub.sessions.lookup u.name = some ⟨id, t.psk, j⟩ := hname ▸ hmapped
      have hnot := hnone u n _ hpc hrefused hentry
      rw [← hname, hallowed] at hnot
      cases hnot
  | @cancelSelf k u n replaced hpc =>
      obtain rfl : k = i := Option.some.inj hi'
      refine ⟨fun hlive => ?_, fun hmapped => hmapped⟩
      exact cancel_cancelled_eq_false_iff.2 ⟨hlive, by simpa using hne⟩
  | @cancelReplaced k u n replaced hpc =>
      obtain rfl : k = i := Option.some.inj hi'
      refine ⟨fun hlive => ?_, fun hmapped => hmapped⟩
      refine cancel_cancelled_eq_false_iff.2 ⟨hlive, fun hmem => ?_⟩
      obtain ⟨s, hs, rfl⟩ := List.mem_map.1 hmem
      obtain rfl : replaced = some s := by simpa using hs
      obtain ⟨-, hname, hpsk, -⟩ := hi.of_displaced hpc hreg
      have hnot := hnone hbarred u n s hpc (by simp [hreg]) hlive
      rw [← hname, ← hpsk, hallowed] at hnot
      cases hnot
  | @finish k u n hpc =>
      obtain rfl : k = i := Option.some.inj hi'
      have hregk : (w.hub.tasks k).registration = some (u, n) := by rw [hpc]; rfl
      exact ⟨fun hlive => by simpa using hlive,
        fun hmapped => hi.turnover.keeps_others hi.hub hregk hmapped hne⟩
  | publish | sweep => cases hi'

theorem displacesNone_of_harmless {w : Watched} {e : Event} (hi : Inv w)
    (hall : ∀ w', w.step e = some w' → Harmless w e w') : w.DisplacesNone e := by
  cases e with
  | register i =>
      intro t id s hpc hrefused hs
      have hstep := step_of_moves (Moves.register hpc)
      have hbarred : w.record (.register i) i = true := by simp [record, refuses, hpc, hrefused]
      cases hallowed : w.hub.set.allows t.name s.psk with
      | false => rfl
      | true =>
          obtain ⟨u, hreg, hname, hpsk⟩ := hi.hub.owned t.name s hs
          have hne : s.task ≠ i := by
            rintro rfl
            rw [hpc] at hreg
            cases hreg
          have hkept := (hall _ hstep i rfl hbarred s.task u s.id hne hreg
            (by rw [hname, hpsk, hallowed])).2
          have hentry : w.hub.Mapped s.task u s.id := by
            show w.hub.sessions.lookup u.name = _
            rw [hname, hs, hpsk]
          -- The new entry is the session's own, so the old one is gone.
          rcases Table.lookup_insert_eq_some_iff.1 (hkept hentry) with ⟨-, hnew⟩ | ⟨hdiff, -⟩
          · exact absurd (congrArg Session.task hnew) hne
          · exact absurd hname hdiff
  | cancelReplaced i =>
      intro hbarred t id s hpc hreg hlive
      have hstep := step_of_moves (Moves.cancelReplaced hpc)
      obtain ⟨⟨u, k⟩, hreg⟩ := Option.ne_none_iff_exists'.1 hreg
      obtain ⟨hne, hname, hpsk, -⟩ := hi.of_displaced hpc hreg
      cases hallowed : w.hub.set.allows t.name s.psk with
      | false => rfl
      | true =>
          have hkept := (hall _ hstep i rfl hbarred s.task u k hne hreg
            (by rw [hname, hpsk, hallowed])).1 hlive
          have hnot := (cancel_cancelled_eq_false_iff.1 hkept).2
          exact absurd (by simp) hnot
  | arrive | verify | handshakeFails | draw | check | cancelSelf | finish | publish | sweep =>
      trivial

/-- **When a step of a barred session is harmless.** -/
theorem harmless_iff_displacesNone {w : Watched} {e : Event} (hi : Inv w) :
    w.DisplacesNone e ↔ ∀ w', w.step e = some w' → Harmless w e w' :=
  ⟨fun hnone _ hstep => harmless_of_displacesNone hi hnone hstep, displacesNone_of_harmless hi⟩

/-- **Barred sessions are harmless in exactly the runs in which they displace nothing that the snapshot
allows.** -/
theorem barred_harmless_iff (set : TenantSet) (es : List Event) :
    (∀ fs e w w', fs ++ [e] <+: es → machine.run (initial set) fs = some w →
        w.step e = some w' → Harmless w e w') ↔
      machine.Meets DisplacesNone (initial set) es := by
  have hinv : ∀ {fs w}, machine.run (initial set) fs = some w → Inv w := fun hrun =>
    machine.run_invariant Inv inv_step (inv_initial set) hrun
  rw [machine.meets_iff_forall_step]
  constructor
  · intro hall fs e w hfs hrun
    exact (harmless_iff_displacesNone (hinv hrun)).2 fun w' hstep => hall fs e w w' hfs hrun hstep
  · intro hmeets fs e w w' hfs hrun hstep
    exact (harmless_iff_displacesNone (hinv hrun)).1 (hmeets fs e w hfs hrun) w' hstep

/-- The tenant's token is rotated while a client that holds the old one is in its handshake; the client
with the new token connects first. -/
def staleRegisters : List Event :=
  [.arrive 0 0, .verify 0 0, .publish 0 Front.setRotated, .sweep 0, .arrive 1 0, .verify 1 0, .draw 1,
    .register 1, .check 1, .cancelReplaced 1, .draw 0, .register 0, .check 0, .cancelSelf 0]

/-- **The holder of a rotated token disconnects the tenant's current client.** -/
theorem rotated_token_disconnects :
    ¬ ∀ set es fs e w w', fs ++ [e] <+: es → machine.run (initial set) fs = some w →
      w.step e = some w' → Harmless w e w' := by
  intro hall
  have hbefore : (machine.run (initial setA) staleRegisters).map
      (fun w => (w.barred 0, (w.hub.tasks 1).registration, w.hub.cancelled 1,
        w.hub.set.allows "a" (Psk.repeated 9)))
        = some (true, some ({ tenantA with psk := Psk.repeated 9 }, 1), false, true) := by decide
  have hafter : (machine.run (initial setA) (staleRegisters ++ [.cancelReplaced 0])).map
      (fun w => (w.barred 0, w.hub.cancelled 1)) = some (true, true) := by decide
  obtain ⟨w', hrun', hstate'⟩ := Option.map_eq_some_iff.1 hafter
  obtain ⟨w, hrun, hstep⟩ := machine.run_concat_iff.1 hrun'
  rw [hrun] at hbefore
  obtain ⟨-, hreg, hlive, hallowed⟩ : w.barred 0 = true ∧
      (w.hub.tasks 1).registration = some ({ tenantA with psk := Psk.repeated 9 }, 1) ∧
      w.hub.cancelled 1 = false ∧ w.hub.set.allows "a" (Psk.repeated 9) = true := by
    simpa using hbefore
  obtain ⟨hbarred, hcancelled⟩ := Prod.mk.inj hstate'
  have hkept := (hall setA _ staleRegisters (.cancelReplaced 0) w w' (List.prefix_refl _) hrun hstep
    0 rfl hbarred 1 _ _ (by decide) hreg hallowed).1 hlive
  rw [hcancelled] at hkept
  cases hkept

end Watched

end Hub
end Erbridge
