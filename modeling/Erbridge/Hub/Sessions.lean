import Erbridge.Core.Machine
import Erbridge.Core.Table
import Erbridge.Tenancy.TenantSet
import Mathlib.Logic.Function.Basic

/-!
# The hub: session tasks against applies

The model of `Hub`, `handle_control`, `run_session` and `apply` of `tenant_serve.rs`.  Any number of
control connections and of `apply` calls take their steps in any order; one step is one access to
what they share (the published snapshot, the session map, a cancellation token).

* `Task`, `Apply` — where a control connection and an `apply` call are.
* `Hub.step` — the executable step function; `Moves` has one constructor for each event and
  `step_eq_some_iff` says that it is exact.
* `Inv` — every entry of the map belongs to a task that registered it, the snapshot is that of the
  apply that published last, and an uncancelled session whose task has made its check is allowed by
  the snapshot unless that apply has not swept yet.
* `sweep_spares_allowed` — a sweep cancels no session that its own snapshot allows.
-/

namespace Erbridge
namespace Hub

open Noise (Psk)
open Tenancy (Tenant EnrollCode Identity Candidates TenantSet)
open Erbridge.Core (Table)

/-- An entry of the session map.  `task` names the connection whose `control` and `cancel` it
holds. -/
structure Session where
  id : Nat
  /-- The PSK this session authenticated with, to notice a rotation. -/
  psk : Psk
  task : Nat
deriving DecidableEq

/-- Where the handler of a control connection is. -/
inductive Task
  | idle
  /-- `accept_any` is trying the candidates of the snapshot read on arrival. -/
  | handshaking (candidates : Candidates)
  /-- The PSK was an enrollment code's: `run_enrollment` takes over. -/
  | enrolling (code : EnrollCode)
  | connected (tenant : Tenant)
  | numbered (tenant : Tenant) (id : Nat)
  /-- The session is in the map; `replaced` is the entry `insert` returned. -/
  | registered (tenant : Tenant) (id : Nat) (replaced : Option Session)
  /-- The check read a snapshot that does not allow the session. -/
  | refused (tenant : Tenant) (id : Nat) (replaced : Option Session)
  | checked (tenant : Tenant) (id : Nat) (replaced : Option Session)
  | draining (tenant : Tenant) (id : Nat)
  /-- Over; `tenant` is whom the connection had authenticated as, if anyone. -/
  | ended (tenant : Option Tenant)
deriving DecidableEq

/-- Where an `apply` call is. -/
inductive Apply
  | idle
  | published (next : TenantSet)
  | swept
deriving DecidableEq

/-- The tenant the connection authenticated as. -/
def Task.tenant : Task → Option Tenant
  | .connected t => some t
  | .numbered t _ => some t
  | .registered t _ _ => some t
  | .refused t _ _ => some t
  | .checked t _ _ => some t
  | .draining t _ => some t
  | .ended t => t
  | _ => none

/-- The tenant and the number under which the session was put into the map. -/
def Task.registration : Task → Option (Tenant × Nat)
  | .registered t id _ => some (t, id)
  | .refused t id _ => some (t, id)
  | .checked t id _ => some (t, id)
  | .draining t id => some (t, id)
  | _ => none

/-- The session is registered and its task has not yet read the snapshot and, where that does not
allow it, cancelled itself. -/
def Task.awaitsCheck : Task → Bool
  | .registered _ _ _ => true
  | .refused _ _ _ => true
  | _ => false

theorem Task.tenant_of_registration {k : Task} {t : Tenant} {id : Nat}
    (h : k.registration = some (t, id)) : k.tenant = some t := by
  cases k <;> simp_all [registration, tenant]

end Hub

/-- What the connections of a multi-tenant `serve` share, and where each of them is. -/
structure Hub where
  /-- The snapshot in the watch channel. -/
  set : Tenancy.TenantSet
  /-- The call that published it; not part of the code's state. -/
  publisher : Option Nat
  sessions : Core.Table String Hub.Session
  /-- An `AtomicU64`; see `nextSession_le`. -/
  nextSession : Nat
  cancelled : Nat → Bool
  tasks : Nat → Hub.Task
  applies : Nat → Hub.Apply

namespace Hub

open Noise (Psk)
open Tenancy (Tenant EnrollCode Identity Candidates TenantSet)
open Erbridge.Core (Table)

/-- The hub as `run_tenant_serve_with_store` builds it. -/
def initial (set : TenantSet) : Hub where
  set := set
  publisher := none
  sessions := ∅
  nextSession := 1
  cancelled := fun _ => false
  tasks := fun _ => .idle
  applies := fun _ => .idle

/-- One step of one party. -/
inductive Event
  /-- Connection `i` arrives at `now`: `hub.snapshot().candidates(now_unix())`. -/
  | arrive (i now : Nat)
  /-- The handshake verified the candidate with this index. -/
  | verify (i index : Nat)
  | handshakeFails (i : Nat)
  /-- `next_session.fetch_add(1)`. -/
  | draw (i : Nat)
  | register (i : Nat)
  | check (i : Nat)
  | cancelSelf (i : Nat)
  | cancelReplaced (i : Nat)
  /-- `inbound_rx` is closed: the task removes its own entry. -/
  | finish (i : Nat)
  | publish (a : Nat) (next : TenantSet)
  | sweep (a : Nat)
deriving DecidableEq

def setTask (h : Hub) (i : Nat) (k : Task) : Hub :=
  { h with tasks := Function.update h.tasks i k }

def setApply (h : Hub) (a : Nat) (k : Apply) : Hub :=
  { h with applies := Function.update h.applies a k }

/-- `cancel.cancel()` on each of the tokens. -/
def cancel (h : Hub) (tokens : List Nat) : Hub :=
  { h with cancelled := fun i => h.cancelled i || tokens.contains i }

/-- `sessions.get(name).is_some_and(|s| s.id == id)`, then `sessions.remove(name)`. -/
def removeOwn (h : Hub) (name : String) (id : Nat) : Hub :=
  if (h.sessions.lookup name).any fun s => s.id = id then
    { h with sessions := h.sessions.erase name }
  else h

/-- The closure `apply` retains the sessions by. -/
def stillValid (next : TenantSet) (name : String) (s : Session) : Bool :=
  next.allows name s.psk

/-- `sessions.retain(..)`, which cancels what it drops. -/
def retainSessions (h : Hub) (next : TenantSet) : Hub :=
  { h.cancel ((Table.dropped (stillValid next) h.sessions).map Session.task) with
    sessions := Table.retain (stillValid next) h.sessions }

def step (h : Hub) : Event → Option Hub
  | .arrive i now =>
      match h.tasks i with
      | .idle => some (h.setTask i (.handshaking (h.set.candidates now)))
      | _ => none
  | .verify i index =>
      match h.tasks i with
      | .handshaking candidates =>
          match candidates.identity index with
          | some (.tenant t) => some (h.setTask i (.connected t))
          | some (.code c) => some (h.setTask i (.enrolling c))
          | none => none
      | _ => none
  | .handshakeFails i =>
      match h.tasks i with
      | .handshaking _ => some (h.setTask i (.ended none))
      | _ => none
  | .draw i =>
      match h.tasks i with
      | .connected t =>
          some { h.setTask i (.numbered t h.nextSession) with nextSession := h.nextSession + 1 }
      | _ => none
  | .register i =>
      match h.tasks i with
      | .numbered t id =>
          some { h.setTask i (.registered t id (h.sessions.lookup t.name)) with
            sessions := h.sessions.insert t.name ⟨id, t.psk, i⟩ }
      | _ => none
  | .check i =>
      match h.tasks i with
      | .registered t id replaced =>
          if h.set.allows t.name t.psk then some (h.setTask i (.checked t id replaced))
          else some (h.setTask i (.refused t id replaced))
      | _ => none
  | .cancelSelf i =>
      match h.tasks i with
      | .refused t id replaced => some ((h.cancel [i]).setTask i (.checked t id replaced))
      | _ => none
  | .cancelReplaced i =>
      match h.tasks i with
      | .checked t id replaced =>
          some ((h.cancel (replaced.toList.map Session.task)).setTask i (.draining t id))
      | _ => none
  | .finish i =>
      match h.tasks i with
      | .draining t id => some ((h.removeOwn t.name id).setTask i (.ended (some t)))
      | _ => none
  | .publish a next =>
      match h.applies a with
      | .idle => some { h.setApply a (.published next) with set := next, publisher := some a }
      | _ => none
  | .sweep a =>
      match h.applies a with
      | .published next => some ((h.retainSessions next).setApply a .swept)
      | _ => none

/-- The hub as a machine: a run is an interleaving of all connections and applies. -/
def machine : Core.Machine Hub Event where
  step := step

/-- What each event needs and does. -/
inductive Moves (h : Hub) : Event → Hub → Prop
  | arrive {i now : Nat} (hpc : h.tasks i = .idle) :
      Moves h (.arrive i now) (h.setTask i (.handshaking (h.set.candidates now)))
  | verifyTenant {i index : Nat} {candidates : Candidates} {t : Tenant}
      (hpc : h.tasks i = .handshaking candidates)
      (hid : candidates.identity index = some (.tenant t)) :
      Moves h (.verify i index) (h.setTask i (.connected t))
  | verifyCode {i index : Nat} {candidates : Candidates} {c : EnrollCode}
      (hpc : h.tasks i = .handshaking candidates)
      (hid : candidates.identity index = some (.code c)) :
      Moves h (.verify i index) (h.setTask i (.enrolling c))
  | handshakeFails {i : Nat} {candidates : Candidates}
      (hpc : h.tasks i = .handshaking candidates) :
      Moves h (.handshakeFails i) (h.setTask i (.ended none))
  | draw {i : Nat} {t : Tenant} (hpc : h.tasks i = .connected t) :
      Moves h (.draw i)
        { h.setTask i (.numbered t h.nextSession) with nextSession := h.nextSession + 1 }
  | register {i : Nat} {t : Tenant} {id : Nat} (hpc : h.tasks i = .numbered t id) :
      Moves h (.register i)
        { h.setTask i (.registered t id (h.sessions.lookup t.name)) with
          sessions := h.sessions.insert t.name ⟨id, t.psk, i⟩ }
  | checkPasses {i : Nat} {t : Tenant} {id : Nat} {replaced : Option Session}
      (hpc : h.tasks i = .registered t id replaced)
      (hallowed : h.set.allows t.name t.psk = true) :
      Moves h (.check i) (h.setTask i (.checked t id replaced))
  | checkFails {i : Nat} {t : Tenant} {id : Nat} {replaced : Option Session}
      (hpc : h.tasks i = .registered t id replaced)
      (hallowed : h.set.allows t.name t.psk = false) :
      Moves h (.check i) (h.setTask i (.refused t id replaced))
  | cancelSelf {i : Nat} {t : Tenant} {id : Nat} {replaced : Option Session}
      (hpc : h.tasks i = .refused t id replaced) :
      Moves h (.cancelSelf i) ((h.cancel [i]).setTask i (.checked t id replaced))
  | cancelReplaced {i : Nat} {t : Tenant} {id : Nat} {replaced : Option Session}
      (hpc : h.tasks i = .checked t id replaced) :
      Moves h (.cancelReplaced i)
        ((h.cancel (replaced.toList.map Session.task)).setTask i (.draining t id))
  | finish {i : Nat} {t : Tenant} {id : Nat} (hpc : h.tasks i = .draining t id) :
      Moves h (.finish i) ((h.removeOwn t.name id).setTask i (.ended (some t)))
  | publish {a : Nat} {next : TenantSet} (hpc : h.applies a = .idle) :
      Moves h (.publish a next)
        { h.setApply a (.published next) with set := next, publisher := some a }
  | sweep {a : Nat} {next : TenantSet} (hpc : h.applies a = .published next) :
      Moves h (.sweep a) ((h.retainSessions next).setApply a .swept)

theorem step_eq_some_iff {h h' : Hub} {e : Event} : h.step e = some h' ↔ Moves h e h' := by
  constructor
  · intro hstep
    cases e with
    | arrive i now =>
        simp only [step] at hstep
        split at hstep
        · cases hstep
          exact .arrive ‹_›
        · cases hstep
    | verify i index =>
        simp only [step] at hstep
        split at hstep
        · rename_i candidates hpc
          split at hstep
          · rename_i t hid
            cases hstep
            exact .verifyTenant hpc hid
          · rename_i c hid
            cases hstep
            exact .verifyCode hpc hid
          · cases hstep
        · cases hstep
    | handshakeFails i =>
        simp only [step] at hstep
        split at hstep
        · cases hstep
          exact .handshakeFails ‹_›
        · cases hstep
    | draw i =>
        simp only [step] at hstep
        split at hstep
        · cases hstep
          exact .draw ‹_›
        · cases hstep
    | register i =>
        simp only [step] at hstep
        split at hstep
        · cases hstep
          exact .register ‹_›
        · cases hstep
    | check i =>
        simp only [step] at hstep
        split at hstep
        · rename_i t id replaced hpc
          split at hstep
          · rename_i hallowed
            cases hstep
            exact .checkPasses hpc hallowed
          · rename_i hallowed
            cases hstep
            exact .checkFails hpc (by simpa using hallowed)
        · cases hstep
    | cancelSelf i =>
        simp only [step] at hstep
        split at hstep
        · cases hstep
          exact .cancelSelf ‹_›
        · cases hstep
    | cancelReplaced i =>
        simp only [step] at hstep
        split at hstep
        · cases hstep
          exact .cancelReplaced ‹_›
        · cases hstep
    | finish i =>
        simp only [step] at hstep
        split at hstep
        · cases hstep
          exact .finish ‹_›
        · cases hstep
    | publish a next =>
        simp only [step] at hstep
        split at hstep
        · cases hstep
          exact .publish ‹_›
        · cases hstep
    | sweep a =>
        simp only [step] at hstep
        split at hstep
        · cases hstep
          exact .sweep ‹_›
        · cases hstep
  · intro hmoves
    cases hmoves <;> simp_all [step]

/-! ## What the operations touch -/

section Fields

variable (h : Hub) (i a : Nat) (k : Task) (b : Apply) (tokens : List Nat) (next : TenantSet)
  (name : String) (id : Nat)

@[simp] theorem setTask_set : (h.setTask i k).set = h.set := rfl
@[simp] theorem setTask_publisher : (h.setTask i k).publisher = h.publisher := rfl
@[simp] theorem setTask_sessions : (h.setTask i k).sessions = h.sessions := rfl
@[simp] theorem setTask_cancelled : (h.setTask i k).cancelled = h.cancelled := rfl
@[simp] theorem setTask_applies : (h.setTask i k).applies = h.applies := rfl
@[simp] theorem setTask_tasks : (h.setTask i k).tasks = Function.update h.tasks i k := rfl

@[simp] theorem setApply_set : (h.setApply a b).set = h.set := rfl
@[simp] theorem setApply_publisher : (h.setApply a b).publisher = h.publisher := rfl
@[simp] theorem setApply_sessions : (h.setApply a b).sessions = h.sessions := rfl
@[simp] theorem setApply_cancelled : (h.setApply a b).cancelled = h.cancelled := rfl
@[simp] theorem setApply_tasks : (h.setApply a b).tasks = h.tasks := rfl
@[simp] theorem setApply_applies : (h.setApply a b).applies = Function.update h.applies a b := rfl

@[simp] theorem cancel_set : (h.cancel tokens).set = h.set := rfl
@[simp] theorem cancel_publisher : (h.cancel tokens).publisher = h.publisher := rfl
@[simp] theorem cancel_sessions : (h.cancel tokens).sessions = h.sessions := rfl
@[simp] theorem cancel_tasks : (h.cancel tokens).tasks = h.tasks := rfl
@[simp] theorem cancel_applies : (h.cancel tokens).applies = h.applies := rfl

@[simp] theorem retainSessions_set : (h.retainSessions next).set = h.set := rfl
@[simp] theorem retainSessions_publisher : (h.retainSessions next).publisher = h.publisher := rfl
@[simp] theorem retainSessions_tasks : (h.retainSessions next).tasks = h.tasks := rfl
@[simp] theorem retainSessions_applies : (h.retainSessions next).applies = h.applies := rfl

@[simp] theorem removeOwn_set : (h.removeOwn name id).set = h.set := by
  unfold removeOwn
  split <;> rfl

@[simp] theorem removeOwn_publisher : (h.removeOwn name id).publisher = h.publisher := by
  unfold removeOwn
  split <;> rfl

@[simp] theorem removeOwn_cancelled : (h.removeOwn name id).cancelled = h.cancelled := by
  unfold removeOwn
  split <;> rfl

@[simp] theorem removeOwn_tasks : (h.removeOwn name id).tasks = h.tasks := by
  unfold removeOwn
  split <;> rfl

@[simp] theorem removeOwn_nextSession : (h.removeOwn name id).nextSession = h.nextSession := by
  unfold removeOwn
  split <;> rfl

@[simp] theorem removeOwn_applies : (h.removeOwn name id).applies = h.applies := by
  unfold removeOwn
  split <;> rfl

end Fields

theorem cancel_cancelled_eq_false_iff {h : Hub} {tokens : List Nat} {i : Nat} :
    (h.cancel tokens).cancelled i = false ↔ h.cancelled i = false ∧ i ∉ tokens := by
  simp [cancel]

/-- A task removes the entry under its tenant's name only if it has the task's own number. -/
theorem lookup_removeOwn_eq_some_iff {h : Hub} {name : String} {id : Nat} {n : String}
    {s : Session} :
    (h.removeOwn name id).sessions.lookup n = some s ↔
      h.sessions.lookup n = some s ∧ ¬ (n = name ∧ s.id = id) := by
  unfold removeOwn
  cases hown : h.sessions.lookup name with
  | none =>
      simp only [Option.any_none, Bool.false_eq_true, if_false]
      refine ⟨fun hs => ⟨hs, fun hbad => ?_⟩, fun hs => hs.1⟩
      rw [hbad.1, hown] at hs
      cases hs
  | some own =>
      by_cases hid : own.id = id
      · simp only [Option.any_some, hid, decide_true, if_true]
        rw [Table.lookup_erase_eq_some_iff]
        constructor
        · rintro ⟨hne, hs⟩
          exact ⟨hs, fun hbad => hne hbad.1⟩
        · rintro ⟨hs, hkept⟩
          refine ⟨fun hn => hkept ⟨hn, ?_⟩, hs⟩
          rw [hn, hown] at hs
          exact Option.some.inj hs ▸ hid
      · simp only [Option.any_some, hid, decide_false, Bool.false_eq_true, if_false]
        refine ⟨fun hs => ⟨hs, fun hbad => hid ?_⟩, fun hs => hs.1⟩
        rw [hbad.1, hown] at hs
        exact Option.some.inj hs ▸ hbad.2

theorem lookup_retainSessions_eq_some_iff {h : Hub} {next : TenantSet} {n : String}
    {s : Session} :
    (h.retainSessions next).sessions.lookup n = some s ↔
      h.sessions.lookup n = some s ∧ next.allows n s.psk = true :=
  Table.lookup_retain_eq_some_iff

/-- A sweep cancels the sessions of the map that its snapshot does not allow. -/
theorem retainSessions_cancelled_eq_false_iff {h : Hub} {next : TenantSet} {i : Nat} :
    (h.retainSessions next).cancelled i = false ↔
      h.cancelled i = false
        ∧ ∀ n s, h.sessions.lookup n = some s → s.task = i → next.allows n s.psk = true := by
  show (h.cancel _).cancelled i = false ↔ _
  rw [cancel_cancelled_eq_false_iff]
  refine and_congr_right fun _ => ?_
  simp only [List.mem_map, Table.mem_dropped_iff, stillValid]
  constructor
  · intro hkept n s hs htask
    by_contra hbad
    exact hkept ⟨s, ⟨n, hs, by simpa using hbad⟩, htask⟩
  · rintro hall ⟨s, ⟨n, hs, hbad⟩, htask⟩
    rw [hall n s hs htask] at hbad
    cases hbad

/-! ## The invariant -/

/-- The entry `s` under `name` was put there by the task it names. -/
def Owned (h : Hub) (name : String) (s : Session) : Prop :=
  ∃ t, (h.tasks s.task).registration = some (t, s.id) ∧ t.name = name ∧ t.psk = s.psk

/-- The apply that published the snapshot has not swept the sessions yet. -/
def SweepPending (h : Hub) : Prop :=
  ∃ a next, h.publisher = some a ∧ h.applies a = .published next

/-- The snapshot allows the session under `name`, or its publisher has yet to sweep, or its task has
yet to make its check. -/
def AllowedOrPending (h : Hub) (name : String) (s : Session) : Prop :=
  h.set.allows name s.psk = true ∨ h.SweepPending ∨ (h.tasks s.task).awaitsCheck = true

/-- What holds in every state of the hub. -/
structure Inv (h : Hub) : Prop where
  owned : ∀ name s, h.sessions.lookup name = some s → h.Owned name s
  published : ∀ a next, h.publisher = some a → h.applies a = .published next → h.set = next
  allowed : ∀ name s, h.sessions.lookup name = some s → h.cancelled s.task = false →
    h.AllowedOrPending name s

theorem inv_initial (set : TenantSet) : Inv (initial set) where
  owned name s hs := by cases hs
  published a next ha := by cases ha
  allowed name s hs := by cases hs

/-- A task keeps its entry as long as its registration stays. -/
theorem Owned.setTask {h : Hub} {name : String} {s : Session} {i : Nat} {k : Task}
    (ho : h.Owned name s)
    (hreg : ∀ r, (h.tasks i).registration = some r → k.registration = some r) :
    (h.setTask i k).Owned name s := by
  obtain ⟨t, ht, hname, hpsk⟩ := ho
  refine ⟨t, ?_, hname, hpsk⟩
  by_cases hi : s.task = i
  · subst hi
    simpa using hreg _ ht
  · simpa [hi] using ht

theorem Owned.task_ne {h : Hub} {name : String} {s : Session} {i : Nat} (ho : h.Owned name s)
    (hreg : (h.tasks i).registration = none) : s.task ≠ i := by
  rintro rfl
  obtain ⟨t, ht, -⟩ := ho
  rw [hreg] at ht
  cases ht

/-- The owner of an entry registered it with its own tenant. -/
theorem Owned.eq_of_registration {h : Hub} {name : String} {s : Session} {t : Tenant} {id : Nat}
    (ho : h.Owned name s) (hreg : (h.tasks s.task).registration = some (t, id)) :
    s.id = id ∧ t.name = name ∧ t.psk = s.psk := by
  obtain ⟨u, hu, hname, hpsk⟩ := ho
  rw [hreg] at hu
  obtain ⟨rfl, rfl⟩ := Prod.mk.inj (Option.some.inj hu)
  exact ⟨rfl, hname, hpsk⟩

/-- Every entry is owned, and stays so: its task's registration lasts until the task removes it. -/
theorem owned_step {h h' : Hub} {e : Event} (hi : Inv h) (hstep : h.step e = some h')
    (name : String) (s : Session) (hs : h'.sessions.lookup name = some s) : h'.Owned name s := by
  have hold := hi.owned
  cases step_eq_some_iff.1 hstep with
  | arrive hpc => exact (hold name s hs).setTask (by simp [hpc, Task.registration])
  | verifyTenant hpc => exact (hold name s hs).setTask (by simp [hpc, Task.registration])
  | verifyCode hpc => exact (hold name s hs).setTask (by simp [hpc, Task.registration])
  | handshakeFails hpc => exact (hold name s hs).setTask (by simp [hpc, Task.registration])
  | @draw i t hpc =>
      have howned := (hold name s hs).setTask (i := i) (k := .numbered t h.nextSession)
        (by simp [hpc, Task.registration])
      exact howned
  | @register i t id hpc =>
      rcases Table.lookup_insert_eq_some_iff.1 hs with ⟨rfl, rfl⟩ | ⟨-, hs⟩
      · exact ⟨t, by simp [Task.registration], rfl, rfl⟩
      · have howned := (hold name s hs).setTask (i := i)
          (k := .registered t id (h.sessions.lookup t.name)) (by simp [hpc, Task.registration])
        exact howned
  | checkPasses hpc => exact (hold name s hs).setTask (by simp [hpc, Task.registration])
  | checkFails hpc => exact (hold name s hs).setTask (by simp [hpc, Task.registration])
  | @cancelSelf i t id replaced hpc =>
      have howned : (h.cancel [i]).Owned name s := hold name s hs
      exact howned.setTask (by simp [hpc, Task.registration])
  | @cancelReplaced i t id replaced hpc =>
      have howned : (h.cancel (replaced.toList.map Session.task)).Owned name s := hold name s hs
      exact howned.setTask (by simp [hpc, Task.registration])
  | @finish i t id hpc =>
      obtain ⟨hs, hkept⟩ := lookup_removeOwn_eq_some_iff.1 hs
      have howned := hold name s hs
      -- The only entry that names this task is the one it removes.
      have hne : s.task ≠ i := by
        rintro rfl
        obtain ⟨hid, hname, -⟩ := howned.eq_of_registration (by rw [hpc]; rfl)
        exact hkept ⟨hname.symm, hid⟩
      obtain ⟨u, hu, hname, hpsk⟩ := howned
      exact ⟨u, by simpa [hne] using hu, hname, hpsk⟩
  | publish hpc => exact hold name s hs
  | sweep hpc => exact hold name s (lookup_retainSessions_eq_some_iff.1 hs).1

theorem published_step {h h' : Hub} {e : Event} (hi : Inv h) (hstep : h.step e = some h')
    (a : Nat) (next : TenantSet) (ha : h'.publisher = some a)
    (hpub : h'.applies a = .published next) : h'.set = next := by
  cases step_eq_some_iff.1 hstep with
  | @publish b next' hpc =>
      obtain rfl : b = a := Option.some.inj ha
      simpa using hpub
  | @sweep b next' hpc =>
      have hne : a ≠ b := by
        rintro rfl
        simp at hpub
      exact hi.published a next ha (by simpa [hne] using hpub)
  | finish hpc =>
      simp only [setTask_set, setTask_publisher, setTask_applies, removeOwn_set,
        removeOwn_publisher, removeOwn_applies] at ha hpub ⊢
      exact hi.published a next ha hpub
  | _ => exact hi.published a next ha hpub

/-- `AllowedOrPending` looks at a task only to see whether its check is outstanding. -/
theorem AllowedOrPending.setTask {h : Hub} {name : String} {s : Session} {i : Nat} {k : Task}
    (hp : h.AllowedOrPending name s) (hk : s.task = i → (h.tasks i).awaitsCheck = k.awaitsCheck) :
    (h.setTask i k).AllowedOrPending name s := by
  rcases hp with hallowed | hsweep | hcheck
  · exact Or.inl hallowed
  · exact Or.inr (Or.inl hsweep)
  · refine Or.inr (Or.inr ?_)
    by_cases hi : s.task = i
    · subst hi
      simpa [← hk rfl] using hcheck
    · simpa [hi] using hcheck

theorem allowed_step {h h' : Hub} {e : Event} (hi : Inv h) (hstep : h.step e = some h')
    (name : String) (s : Session) (hs : h'.sessions.lookup name = some s)
    (hlive : h'.cancelled s.task = false) : h'.AllowedOrPending name s := by
  have hold := hi.allowed
  cases step_eq_some_iff.1 hstep with
  | arrive hpc =>
      exact (hold name s hs hlive).setTask (by simp [hpc, Task.awaitsCheck])
  | verifyTenant hpc =>
      exact (hold name s hs hlive).setTask (by simp [hpc, Task.awaitsCheck])
  | verifyCode hpc =>
      exact (hold name s hs hlive).setTask (by simp [hpc, Task.awaitsCheck])
  | handshakeFails hpc =>
      exact (hold name s hs hlive).setTask (by simp [hpc, Task.awaitsCheck])
  | @draw i t hpc =>
      have hkept := (hold name s hs hlive).setTask (i := i) (k := .numbered t h.nextSession)
        (by simp [hpc, Task.awaitsCheck])
      exact hkept
  | @register i t id hpc =>
      rcases Table.lookup_insert_eq_some_iff.1 hs with ⟨rfl, rfl⟩ | ⟨-, hs⟩
      · exact Or.inr (Or.inr (by simp [Task.awaitsCheck]))
      · have hne : s.task ≠ i := (hi.owned name s hs).task_ne (by rw [hpc]; rfl)
        have hkept := (hold name s hs hlive).setTask (i := i)
          (k := .registered t id (h.sessions.lookup t.name)) (fun heq => absurd heq hne)
        exact hkept
  | @checkPasses i t id replaced hpc hallowed =>
      by_cases htask : s.task = i
      · subst htask
        obtain ⟨-, rfl, hpsk⟩ := (hi.owned name s hs).eq_of_registration (by rw [hpc]; rfl)
        exact Or.inl (hpsk ▸ hallowed)
      · exact (hold name s hs hlive).setTask (fun heq => absurd heq htask)
  | checkFails hpc =>
      exact (hold name s hs hlive).setTask (by simp [hpc, Task.awaitsCheck])
  | @cancelSelf i t id replaced hpc =>
      obtain ⟨hlive, hnot⟩ := cancel_cancelled_eq_false_iff.1 hlive
      have hkept : (h.cancel [i]).AllowedOrPending name s := hold name s hs hlive
      exact hkept.setTask (fun heq => absurd (by simp [heq]) hnot)
  | @cancelReplaced i t id replaced hpc =>
      obtain ⟨hlive, -⟩ := cancel_cancelled_eq_false_iff.1 hlive
      have hkept : (h.cancel (replaced.toList.map Session.task)).AllowedOrPending name s :=
        hold name s hs hlive
      exact hkept.setTask (by simp [hpc, Task.awaitsCheck])
  | @finish i t id hpc =>
      obtain ⟨hs, -⟩ := lookup_removeOwn_eq_some_iff.1 hs
      simp only [setTask_cancelled, removeOwn_cancelled] at hlive
      have hkept : (h.removeOwn t.name id).AllowedOrPending name s := by
        simpa [AllowedOrPending, SweepPending] using hold name s hs hlive
      exact hkept.setTask (by simp [hpc, Task.awaitsCheck])
  | @publish a next hpc =>
      exact Or.inr (Or.inl ⟨a, next, rfl, by simp⟩)
  | @sweep a next hpc =>
      obtain ⟨hs, hallowed⟩ := lookup_retainSessions_eq_some_iff.1 hs
      obtain ⟨hlive, -⟩ := retainSessions_cancelled_eq_false_iff.1 hlive
      by_cases hpub : h.publisher = some a
      · exact Or.inl (hi.published a next hpub hpc ▸ hallowed)
      -- Another call published last: if its sweep is outstanding, it still is.
      · rcases hold name s hs hlive with hset | ⟨b, next', hb, hpend⟩ | hcheck
        · exact Or.inl hset
        · have hne : b ≠ a := fun heq => hpub (heq ▸ hb)
          exact Or.inr (Or.inl ⟨b, next', hb, by simpa [hne] using hpend⟩)
        · exact Or.inr (Or.inr hcheck)

theorem inv_step {h h' : Hub} {e : Event} (hi : Inv h) (hstep : h.step e = some h') : Inv h' where
  owned := owned_step hi hstep
  published := published_step hi hstep
  allowed := allowed_step hi hstep

theorem inv_run {set : TenantSet} {es : List Event} {h : Hub}
    (hrun : machine.run (initial set) es = some h) : Inv h :=
  machine.run_invariant Inv inv_step (inv_initial set) hrun

/-- A sweep leaves the token of every session alone that its own snapshot allows. -/
theorem sweep_spares_allowed {h h' : Hub} {a : Nat} {next : TenantSet} (hi : Inv h)
    (hpc : h.applies a = .published next) (hstep : h.step (.sweep a) = some h')
    {i : Nat} {t : Tenant} (ht : (h.tasks i).tenant = some t)
    (hallowed : next.allows t.name t.psk = true) : h'.cancelled i = h.cancelled i := by
  cases step_eq_some_iff.1 hstep with
  | sweep hpc' =>
      rw [hpc] at hpc'
      obtain rfl := Apply.published.inj hpc'
      cases hbefore : h.cancelled i with
      | true =>
          by_contra hafter
          have hfalse := (retainSessions_cancelled_eq_false_iff.1 (by simpa using hafter)).1
          rw [hbefore] at hfalse
          cases hfalse
      | false =>
          refine retainSessions_cancelled_eq_false_iff.2 ⟨hbefore, fun n s hs htask => ?_⟩
          obtain ⟨u, hu, rfl, hpsk⟩ := hi.owned n s hs
          rw [htask] at hu
          rw [Task.tenant_of_registration hu] at ht
          obtain rfl := Option.some.inj ht
          exact hpsk ▸ hallowed

/-- Whom a connection authenticated as never changes. -/
theorem tenant_step {h h' : Hub} {e : Event} (hstep : h.step e = some h') {i : Nat} {t : Tenant}
    (ht : (h.tasks i).tenant = some t) : (h'.tasks i).tenant = some t := by
  have hmoved : ∀ {j : Nat} {k : Task}, (∀ u, (h.tasks j).tenant = some u → k.tenant = some u) →
      (Function.update h.tasks j k i).tenant = some t := by
    intro j k hk
    by_cases hij : i = j
    · subst hij
      simpa using hk t ht
    · simpa [hij] using ht
  cases step_eq_some_iff.1 hstep with
  | arrive hpc => exact hmoved (by simp [hpc, Task.tenant])
  | verifyTenant hpc => exact hmoved (by simp [hpc, Task.tenant])
  | verifyCode hpc => exact hmoved (by simp [hpc, Task.tenant])
  | handshakeFails hpc => exact hmoved (by simp [hpc, Task.tenant])
  | draw hpc => exact hmoved (by simp [hpc, Task.tenant])
  | register hpc => exact hmoved (by simp [hpc, Task.tenant])
  | checkPasses hpc => exact hmoved (by simp [hpc, Task.tenant])
  | checkFails hpc => exact hmoved (by simp [hpc, Task.tenant])
  | cancelSelf hpc => exact hmoved (by simp [hpc, Task.tenant])
  | cancelReplaced hpc => exact hmoved (by simp [hpc, Task.tenant])
  | finish hpc =>
      simp only [setTask_tasks, removeOwn_tasks]
      exact hmoved (by simp [hpc, Task.tenant])
  | publish hpc => exact ht
  | sweep hpc => exact ht

/-- **Publish before sweep against register before check.**  In every state of every interleaving, an
uncancelled session of the map is allowed by the snapshot published last, unless the apply that
published it has not swept yet or the task that registered the session has not made its check yet;
and no sweep cancels a session that the snapshot of its own apply allows. -/
theorem sessions_follow_snapshot (set : TenantSet) (es : List Event) (h : Hub)
    (hrun : machine.run (initial set) es = some h) :
    (∀ name s, h.sessions.lookup name = some s → h.cancelled s.task = false →
        h.AllowedOrPending name s)
      ∧ ∀ a next h', h.applies a = .published next → h.step (.sweep a) = some h' →
          ∀ i t, (h.tasks i).tenant = some t → next.allows t.name t.psk = true →
            h'.cancelled i = h.cancelled i :=
  ⟨(inv_run hrun).allowed, fun _ _ _ hpc hstep _ _ ht hallowed =>
    sweep_spares_allowed (inv_run hrun) hpc hstep ht hallowed⟩

/-- Two tenants. -/
def tenantA : Tenant := ⟨"a", Psk.repeated 1, "a.example.com", 4, false⟩

def tenantB : Tenant := ⟨"b", Psk.repeated 2, "b.example.com", 4, false⟩

def setAB : TenantSet := ⟨[tenantA, tenantB], [], Tenancy.checkSet_eq_ok_iff.1 (by decide)⟩

def setA : TenantSet := ⟨[tenantA], [], Tenancy.checkSet_eq_ok_iff.1 (by decide)⟩

/-- Both tenants connect; `b` is revoked before its task has made its check. -/
def revokedEarly : List Event :=
  [.arrive 0 0, .arrive 1 0, .verify 0 0, .verify 1 1, .draw 1, .draw 0, .register 0, .check 0,
    .register 1, .publish 0 setA]

theorem sessions_follow_snapshot_revoked :
    ∃ h h', machine.run (initial setAB) revokedEarly = some h
      ∧ h.step (.sweep 0) = some h'
      ∧ h.AllowedOrPending "a" ⟨2, tenantA.psk, 0⟩
      ∧ h'.cancelled 0 = h.cancelled 0 ∧ h'.cancelled 1 = true := by
  have hlook : (machine.run (initial setAB) revokedEarly).map
      (fun h => (h.sessions.lookup "a", h.cancelled 0, h.applies 0, (h.tasks 0).tenant))
        = some (some ⟨2, tenantA.psk, 0⟩, false, .published setA, some tenantA) := by decide
  have hswept : (machine.run (initial setAB) (revokedEarly ++ [.sweep 0])).map
      (fun h => h.cancelled 1) = some true := by decide
  obtain ⟨h', hrun', hcancelled⟩ := Option.map_eq_some_iff.1 hswept
  obtain ⟨h, hrun, hstep⟩ := machine.run_concat_iff.1 hrun'
  rw [hrun] at hlook
  obtain ⟨hentry, hlive, hpub, htenant⟩ : h.sessions.lookup "a" = some ⟨2, tenantA.psk, 0⟩
      ∧ h.cancelled 0 = false ∧ h.applies 0 = .published setA
      ∧ (h.tasks 0).tenant = some tenantA := by simpa using hlook
  obtain ⟨hallowed, hspared⟩ := sessions_follow_snapshot setAB revokedEarly h hrun
  exact ⟨h, h', hrun, hstep, hallowed "a" _ hentry hlive,
    hspared 0 setA h' hpub hstep 0 tenantA htenant (by decide), hcancelled⟩

end Hub
end Erbridge
