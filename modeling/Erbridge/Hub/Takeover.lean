import Erbridge.Hub.Sessions

/-!
# One session takes over from another

A new session of a tenant is put over the older one, which is cancelled later, in a step of its own.

* `Turnover` — an invariant of all interleavings: the numbers are distinct, a session that is neither
  over nor cancelled has its entry or waits to be cancelled by the task that displaced it, and an entry
  that was displaced was of the same tenant.
* `one_live_session` — what follows for a tenant's sessions in every state.
-/

namespace Erbridge
namespace Hub

open Noise (Psk)
open Tenancy (Tenant Identity Candidates TenantSet)
open Erbridge.Core (Table)

/-- The number that the task has drawn. -/
def Task.number : Task → Option Nat
  | .numbered _ id => some id
  | .registered _ id _ => some id
  | .refused _ id _ => some id
  | .checked _ id _ => some id
  | .draining _ id => some id
  | _ => none

/-- The entry that the task has displaced and not cancelled yet. -/
def Task.displaced : Task → Option Session
  | .registered _ _ replaced => replaced
  | .refused _ _ replaced => replaced
  | .checked _ _ replaced => replaced
  | _ => none

/-- The task has put its session into the map and not yet executed its cancel step. -/
def Task.registering : Task → Bool
  | .registered _ _ _ | .refused _ _ _ | .checked _ _ _ => true
  | _ => false

theorem Task.number_of_registration {k : Task} {t : Tenant} {id : Nat}
    (h : k.registration = some (t, id)) : k.number = some id := by
  cases k <;> simp_all [registration, number]

theorem Task.registering_of_displaced {k : Task} {s : Session} (h : k.displaced = some s) :
    k.registering = true := by
  cases k <;> simp_all [displaced, registering]

/-- The session of the task is in the map under its tenant's name. -/
def Mapped (h : Hub) (i : Nat) (t : Tenant) (id : Nat) : Prop :=
  h.sessions.lookup t.name = some ⟨id, t.psk, i⟩

/-- The session of the task was displaced, by one of the same name that has yet to cancel it. -/
def AwaitsCancel (h : Hub) (i : Nat) (t : Tenant) (id : Nat) : Prop :=
  ∃ j u k, (h.tasks j).registration = some (u, k) ∧ u.name = t.name ∧
    (h.tasks j).displaced = some ⟨id, t.psk, i⟩

/-- The displaced entry is that of a task which registered it under the name, and may be over. -/
def Displaced (h : Hub) (name : String) (s : Session) : Prop :=
  ∃ t, t.name = name ∧ t.psk = s.psk ∧
    ((h.tasks s.task).registration = some (t, s.id) ∨ h.tasks s.task = .ended (some t))

/-- What holds of the sessions and their tasks in every state. -/
structure Turnover (h : Hub) : Prop where
  numbers : ∀ i k, (h.tasks i).number = some k → k < h.nextSession
  distinct : ∀ i j k, (h.tasks i).number = some k → (h.tasks j).number = some k → i = j
  live : ∀ i t id, (h.tasks i).registration = some (t, id) → h.cancelled i = false →
    h.Mapped i t id ∨ h.AwaitsCancel i t id
  displaced : ∀ j u k s, (h.tasks j).registration = some (u, k) →
    (h.tasks j).displaced = some s → s.task ≠ j ∧ h.Displaced u.name s

theorem turnover_initial (set : TenantSet) : Turnover (initial set) where
  numbers i k hk := by cases hk
  distinct i j k hi := by cases hi
  live i t id hreg := by cases hreg
  displaced j u k s hreg := by cases hreg

/-- The invariant does not look at the snapshot and the applies. -/
theorem Turnover.of_eq {h h' : Hub} (ht : Turnover h) (htasks : h'.tasks = h.tasks)
    (hsessions : h'.sessions = h.sessions) (hcancelled : h'.cancelled = h.cancelled)
    (hnext : h'.nextSession = h.nextSession) : Turnover h' where
  numbers := by
    rw [htasks, hnext]
    exact ht.numbers
  distinct := by
    rw [htasks]
    exact ht.distinct
  live := by
    unfold Mapped AwaitsCancel
    rw [htasks, hsessions, hcancelled]
    exact ht.live
  displaced := by
    unfold Displaced
    rw [htasks]
    exact ht.displaced

/-- More tokens are cancelled. -/
theorem Turnover.cancel {h : Hub} (ht : Turnover h) (tokens : List Nat) :
    Turnover (h.cancel tokens) where
  numbers := ht.numbers
  distinct := ht.distinct
  live i t id hreg hlive := ht.live i t id hreg (cancel_cancelled_eq_false_iff.1 hlive).1
  displaced := ht.displaced

section Update

variable {α : Type} {tasks : Nat → Task} {i j : Nat} {k : Task} (part : Task → α)

/-- A part of a task that stays the same when the task moves on is the same in all tasks. -/
theorem part_update (h : part k = part (tasks i)) :
    part (Function.update tasks i k j) = part (tasks j) := by
  by_cases hj : j = i
  · subst hj
    rw [Function.update_self, h]
  · rw [Function.update_of_ne hj]

/-- A part that the task does not have after it has moved on belongs to another one. -/
theorem of_part_update (part : Task → Option α) {a : α} (hnone : part k = none)
    (h : part (Function.update tasks i k j) = some a) : j ≠ i ∧ part (tasks j) = some a := by
  by_cases hj : j = i
  · subst hj
    rw [Function.update_self, hnone] at h
    cases h
  · rw [Function.update_of_ne hj] at h
    exact ⟨hj, h⟩

end Update

/-- A task moves on and keeps its number and its registration. -/
theorem Turnover.setTask {h : Hub} (ht : Turnover h) {i : Nat} {k : Task}
    (hnumber : k.number = (h.tasks i).number)
    (hreg : k.registration = (h.tasks i).registration)
    (hdisplaced : k.displaced = (h.tasks i).displaced)
    (hended : ∀ t, h.tasks i = .ended (some t) → k = .ended (some t)) : Turnover (h.setTask i k) := by
  have hnum : ∀ j, ((h.setTask i k).tasks j).number = (h.tasks j).number :=
    fun j => part_update Task.number hnumber
  have hregs : ∀ j, ((h.setTask i k).tasks j).registration = (h.tasks j).registration :=
    fun j => part_update Task.registration hreg
  have hdis : ∀ j, ((h.setTask i k).tasks j).displaced = (h.tasks j).displaced :=
    fun j => part_update Task.displaced hdisplaced
  refine ⟨fun j n hn => ?_, fun j j' n hn hn' => ?_, fun j t id hr hlive => ?_,
    fun j u n s hr hs => ?_⟩
  · rw [hnum] at hn
    exact ht.numbers j n hn
  · rw [hnum] at hn hn'
    exact ht.distinct j j' n hn hn'
  · rw [hregs] at hr
    rcases ht.live j t id hr hlive with hmapped | ⟨j', u, n, hr', hname, hs⟩
    · exact Or.inl hmapped
    · exact Or.inr ⟨j', u, n, by rw [hregs, hr'], hname, by rw [hdis, hs]⟩
  · rw [hregs] at hr
    rw [hdis] at hs
    obtain ⟨hne, t, hname, hpsk, hr' | hend⟩ := ht.displaced j u n s hr hs
    · exact ⟨hne, t, hname, hpsk, Or.inl (by rw [hregs, hr'])⟩
    · refine ⟨hne, t, hname, hpsk, Or.inr ?_⟩
      by_cases hj : s.task = i
      · subst hj
        simpa using hended t hend
      · simpa [hj] using hend

/-- A task draws a number that nobody has. -/
theorem Turnover.draw {h : Hub} (ht : Turnover h) {i : Nat} {t : Tenant}
    (hpc : h.tasks i = .connected t) :
    Turnover { h.setTask i (.numbered t h.nextSession) with nextSession := h.nextSession + 1 } := by
  have hother : ∀ j n, (Function.update h.tasks i (.numbered t h.nextSession) j).number = some n →
      j = i ∧ n = h.nextSession ∨ j ≠ i ∧ (h.tasks j).number = some n := by
    intro j n hn
    by_cases hj : j = i
    · subst hj
      rw [Function.update_self] at hn
      exact Or.inl ⟨rfl, (Option.some.inj hn).symm⟩
    · rw [Function.update_of_ne hj] at hn
      exact Or.inr ⟨hj, hn⟩
  refine ⟨fun j n hn => ?_, fun j j' n hn hn' => ?_, fun j u id hr hlive => ?_,
    fun j u n s hr hs => ?_⟩
  · rcases hother j n hn with ⟨-, rfl⟩ | ⟨-, hold⟩
    · exact Nat.lt_succ_self _
    · exact Nat.lt_succ_of_lt (ht.numbers j n hold)
  · rcases hother j n hn with ⟨rfl, rfl⟩ | ⟨hj, hold⟩
    · rcases hother j' _ hn' with ⟨rfl, -⟩ | ⟨-, hold'⟩
      · rfl
      · exact absurd (ht.numbers j' _ hold') (Nat.lt_irrefl _)
    · rcases hother j' n hn' with ⟨rfl, rfl⟩ | ⟨-, hold'⟩
      · exact absurd (ht.numbers j _ hold) (Nat.lt_irrefl _)
      · exact ht.distinct j j' n hold hold'
  · have hj : j ≠ i := by
      rintro rfl
      simp [Task.registration] at hr
    have hr' : (h.tasks j).registration = some (u, id) := by simpa [hj] using hr
    rcases ht.live j u id hr' hlive with hmapped | ⟨j', v, n, hrj, hname, hs⟩
    · exact Or.inl hmapped
    · have hj' : j' ≠ i := by
        rintro rfl
        rw [hpc] at hrj
        cases hrj
      exact Or.inr ⟨j', v, n, by simpa [hj'] using hrj, hname, by simpa [hj'] using hs⟩
  · have hj : j ≠ i := by
      rintro rfl
      simp [Task.registration] at hr
    obtain ⟨hne, v, hname, hpsk, hwhere⟩ := ht.displaced j u n s (by simpa [hj] using hr)
      (by simpa [hj] using hs)
    have hs' : s.task ≠ i := by
      rintro rfl
      rcases hwhere with hr' | hend
      · rw [hpc] at hr'
        cases hr'
      · rw [hpc] at hend
        cases hend
    exact ⟨hne, v, hname, hpsk, by simpa [hs'] using hwhere⟩

/-- A task puts its session over whatever the map has under the name. -/
theorem Turnover.register {h : Hub} (ht : Turnover h) (ho : Inv h) {i : Nat} {t : Tenant} {id : Nat}
    (hpc : h.tasks i = .numbered t id) :
    Turnover { h.setTask i (.registered t id (h.sessions.lookup t.name)) with
      sessions := h.sessions.insert t.name ⟨id, t.psk, i⟩ } := by
  have hnone : (h.tasks i).registration = none := by rw [hpc]; rfl
  have hne : ∀ j u n, (h.tasks j).registration = some (u, n) → j ≠ i := by
    rintro j u n hr rfl
    rw [hnone] at hr
    cases hr
  have hnum : ∀ j, (Function.update h.tasks i
      (.registered t id (h.sessions.lookup t.name)) j).number = (h.tasks j).number :=
    fun j => part_update Task.number (by rw [hpc]; rfl)
  refine ⟨fun j n hn => ?_, fun j j' n hn hn' => ?_, fun j u n hr hlive => ?_,
    fun j u n s hr hs => ?_⟩
  · exact ht.numbers j n ((hnum j).symm.trans hn)
  · exact ht.distinct j j' n ((hnum j).symm.trans hn) ((hnum j').symm.trans hn')
  · by_cases hj : j = i
    · subst hj
      obtain ⟨rfl, rfl⟩ : t = u ∧ id = n := by simpa [Task.registration] using hr
      exact Or.inl (Table.lookup_insert_eq_some_iff.2 (Or.inl ⟨rfl, rfl⟩))
    · have hr' : (h.tasks j).registration = some (u, n) := by simpa [hj] using hr
      rcases ht.live j u n hr' hlive with hmapped | ⟨j', v, m, hrj, hname, hs⟩
      · by_cases hname : u.name = t.name
        -- Its entry is the one that is displaced now.
        · refine Or.inr ⟨i, t, id, by simp [Task.registration], hname.symm, ?_⟩
          have hentry : h.sessions.lookup t.name = some ⟨n, u.psk, j⟩ := hname ▸ hmapped
          simp [Task.displaced, hentry]
        · exact Or.inl (Table.lookup_insert_eq_some_iff.2 (Or.inr ⟨hname, hmapped⟩))
      · have hj' : j' ≠ i := hne j' v m hrj
        exact Or.inr ⟨j', v, m, by simpa [hj'] using hrj, hname, by simpa [hj'] using hs⟩
  · by_cases hj : j = i
    · subst hj
      obtain ⟨rfl, rfl⟩ : t = u ∧ id = n := by simpa [Task.registration] using hr
      have hentry : h.sessions.lookup t.name = some s := by simpa [Task.displaced] using hs
      obtain ⟨v, hrv, hname, hpsk⟩ := ho.owned t.name s hentry
      refine ⟨hne _ _ _ hrv, v, hname, hpsk, Or.inl ?_⟩
      simpa [hne _ _ _ hrv] using hrv
    · obtain ⟨hsj, v, hname, hpsk, hwhere⟩ := ht.displaced j u n s (by simpa [hj] using hr)
        (by simpa [hj] using hs)
      have hs' : s.task ≠ i := by
        rintro rfl
        rcases hwhere with hrv | hend
        · exact hne _ _ _ hrv rfl
        · rw [hpc] at hend
          cases hend
      exact ⟨hsj, v, hname, hpsk, by simpa [hs'] using hwhere⟩

/-- The cancel step ends what was displaced. -/
theorem Turnover.cancelReplaced {h : Hub} (ht : Turnover h) {i : Nat} {t : Tenant} {id : Nat}
    {replaced : Option Session} (hpc : h.tasks i = .checked t id replaced) :
    Turnover ((h.cancel (replaced.toList.map Session.task)).setTask i (.draining t id)) := by
  have hnum : ∀ j, (Function.update h.tasks i (.draining t id) j).number = (h.tasks j).number :=
    fun j => part_update Task.number (by rw [hpc]; rfl)
  have hregs : ∀ j, (Function.update h.tasks i (.draining t id) j).registration =
      (h.tasks j).registration :=
    fun j => part_update Task.registration (by rw [hpc]; rfl)
  refine ⟨fun j n hn => ?_, fun j j' n hn hn' => ?_, fun j u n hr hlive => ?_,
    fun j u n s hr hs => ?_⟩
  · exact ht.numbers j n ((hnum j).symm.trans hn)
  · exact ht.distinct j j' n ((hnum j).symm.trans hn) ((hnum j').symm.trans hn')
  · obtain ⟨hlive, hnot⟩ := cancel_cancelled_eq_false_iff.1 hlive
    rcases ht.live j u n ((hregs j).symm.trans hr) hlive with hmapped | ⟨j', v, m, hrj, hname, hs⟩
    · exact Or.inl hmapped
    · have hj' : j' ≠ i := by
        rintro rfl
        have hs' : replaced = some ⟨n, u.psk, j⟩ := by rw [hpc] at hs; exact hs
        exact hnot (by simp [hs'])
      refine Or.inr ⟨j', v, m, (hregs j').trans hrj, hname, ?_⟩
      show (Function.update h.tasks i (.draining t id) j').displaced = _
      rw [Function.update_of_ne hj', hs]
  · have hj : j ≠ i := by
      rintro rfl
      simp [Task.displaced] at hs
    obtain ⟨hne, v, hname, hpsk, hwhere⟩ := ht.displaced j u n s ((hregs j).symm.trans hr)
      (by simpa [hj] using hs)
    refine ⟨hne, v, hname, hpsk, hwhere.imp (fun hrv => (hregs s.task).trans hrv) fun hend => ?_⟩
    have hs' : s.task ≠ i := by
      rintro heq
      rw [heq, hpc] at hend
      cases hend
    simpa [hs'] using hend

/-- A task that ends removes no entry but its own. -/
theorem Turnover.keeps_others {h : Hub} (ht : Turnover h) (ho : Inv h) {i : Nat} {t : Tenant} {id : Nat}
    (hreg : (h.tasks i).registration = some (t, id)) {name : String} {s : Session}
    (hs : h.sessions.lookup name = some s) (hne : s.task ≠ i) :
    (h.removeOwn t.name id).sessions.lookup name = some s := by
  refine lookup_removeOwn_eq_some_iff.2 ⟨hs, fun hbad => hne ?_⟩
  -- The number in the entry is its task's, and no two tasks have the same.
  obtain ⟨u, hu, -, -⟩ := ho.owned name s hs
  have hnumber := Task.number_of_registration hu
  rw [hbad.2] at hnumber
  exact ht.distinct _ _ _ hnumber (Task.number_of_registration hreg)

theorem Turnover.finish {h : Hub} (ht : Turnover h) (ho : Inv h) {i : Nat} {t : Tenant} {id : Nat}
    (hpc : h.tasks i = .draining t id) :
    Turnover ((h.removeOwn t.name id).setTask i (.ended (some t))) := by
  have hreg : (h.tasks i).registration = some (t, id) := by rw [hpc]; rfl
  have hnum : ∀ j n, (Function.update (h.removeOwn t.name id).tasks i (.ended (some t)) j).number =
      some n → j ≠ i ∧ (h.tasks j).number = some n :=
    fun j n hn => by simpa using of_part_update Task.number rfl hn
  have hregs : ∀ j r, (Function.update (h.removeOwn t.name id).tasks i
      (.ended (some t)) j).registration = some r →
        j ≠ i ∧ (h.tasks j).registration = some r :=
    fun j r hr => by simpa using of_part_update Task.registration rfl hr
  refine ⟨fun j n hn => ?_, fun j j' n hn hn' => ?_, fun j u n hr hlive => ?_,
    fun j u n s hr hs => ?_⟩
  · show n < (h.removeOwn t.name id).nextSession
    rw [removeOwn_nextSession]
    exact ht.numbers j n (hnum j n hn).2
  · exact ht.distinct j j' n (hnum j n hn).2 (hnum j' n hn').2
  · obtain ⟨hj, hr⟩ := hregs j _ hr
    have hlive' : h.cancelled j = false := by simpa using hlive
    rcases ht.live j u n hr hlive' with hmapped | ⟨j', v, m, hrj, hname, hs⟩
    · exact Or.inl (ht.keeps_others ho hreg hmapped hj)
    · have hj' : j' ≠ i := by
        rintro rfl
        rw [hpc] at hs
        cases hs
      exact Or.inr ⟨j', v, m, by simpa [hj'] using hrj, hname, by simpa [hj'] using hs⟩
  · obtain ⟨hj, hr⟩ := hregs j _ hr
    obtain ⟨hne, v, hname, hpsk, hwhere⟩ := ht.displaced j u n s hr (by simpa [hj] using hs)
    refine ⟨hne, ?_⟩
    by_cases hs' : s.task = i
    · rcases hwhere with hrv | hend
      · rw [hs', hreg] at hrv
        obtain ⟨rfl, -⟩ := Prod.mk.inj (Option.some.inj hrv)
        exact ⟨t, hname, hpsk, Or.inr (by simp [hs'])⟩
      · rw [hs', hpc] at hend
        cases hend
    · exact ⟨v, hname, hpsk, by simpa [hs'] using hwhere⟩

/-- A sweep cancels the entries that it drops. -/
theorem Turnover.sweep {h : Hub} (ht : Turnover h) (next : TenantSet) :
    Turnover (h.retainSessions next) where
  numbers := ht.numbers
  distinct := ht.distinct
  live i t id hreg hlive := by
    obtain ⟨hlive, hkept⟩ := retainSessions_cancelled_eq_false_iff.1 hlive
    rcases ht.live i t id hreg hlive with hmapped | hawaits
    · exact Or.inl (lookup_retainSessions_eq_some_iff.2 ⟨hmapped, hkept _ _ hmapped rfl⟩)
    · exact Or.inr hawaits
  displaced := ht.displaced

theorem turnover_step {h h' : Hub} {e : Event} (ht : Turnover h) (ho : Inv h)
    (hstep : h.step e = some h') : Turnover h' := by
  cases step_eq_some_iff.1 hstep with
  | arrive hpc | verifyTenant hpc | verifyCode hpc | handshakeFails hpc =>
      exact ht.setTask (by rw [hpc]; rfl) (by rw [hpc]; rfl) (by rw [hpc]; rfl) (by simp [hpc])
  | draw hpc => exact ht.draw hpc
  | register hpc => exact ht.register ho hpc
  | checkPasses hpc | checkFails hpc =>
      exact ht.setTask (by rw [hpc]; rfl) (by rw [hpc]; rfl) (by rw [hpc]; rfl) (by simp [hpc])
  | @cancelSelf i t id replaced hpc =>
      exact (ht.cancel [i]).setTask (by rw [cancel_tasks, hpc]; rfl) (by rw [cancel_tasks, hpc]; rfl)
        (by rw [cancel_tasks, hpc]; rfl) (by simp [hpc])
  | cancelReplaced hpc => exact ht.cancelReplaced hpc
  | finish hpc => exact ht.finish ho hpc
  | publish hpc => exact ht.of_eq rfl rfl rfl rfl
  | sweep hpc => exact (ht.sweep _).of_eq rfl rfl rfl rfl

theorem turnover_run {set : TenantSet} {es : List Event} {h : Hub}
    (hrun : machine.run (initial set) es = some h) : Turnover h :=
  (machine.run_invariant (fun h => Inv h ∧ Turnover h)
    (fun hi hstep => ⟨inv_step hi.1 hstep, turnover_step hi.2 hi.1 hstep⟩)
    ⟨inv_initial set, turnover_initial set⟩ hrun).2

/-- How far the numbers of the sessions get: the `AtomicU64` they are drawn from does not wrap in a run
of fewer than `2 ^ 64 - 1` steps. -/
theorem nextSession_le {set : TenantSet} {es : List Event} {h : Hub}
    (hrun : machine.run (initial set) es = some h) : h.nextSession ≤ 1 + es.length := by
  refine machine.run_le_add_length nextSession ?_ hrun
  intro s e t hstep
  cases step_eq_some_iff.1 hstep with
  | draw => exact Nat.le_refl _
  | @finish i t id =>
      show (s.removeOwn t.name id).nextSession ≤ s.nextSession + 1
      rw [removeOwn_nextSession]
      exact Nat.le_succ _
  | _ => exact Nat.le_succ _

/-- What is promised of the sessions of a hub and of the step in which a task ends. -/
structure OneLive (h : Hub) : Prop where
  /-- A session that is neither over nor cancelled is in the map, or waits for its cancellation. -/
  live : ∀ i t id, (h.tasks i).registration = some (t, id) → h.cancelled i = false →
    h.Mapped i t id ∨ h.AwaitsCancel i t id
  /-- A task that ends removes no other session's entry. -/
  own_entry : ∀ i h', h.step (.finish i) = some h' → ∀ name s, h.sessions.lookup name = some s →
    s.task ≠ i → h'.sessions.lookup name = some s
  /-- A name under which no session is left has no entry. -/
  emptied : ∀ name, (∀ i t id, (h.tasks i).registration = some (t, id) → t.name ≠ name) →
    h.sessions.lookup name = none
  /-- When nobody is taking over under a name, its live session is the one that visitors find. -/
  routed : ∀ name, (∀ i t, (h.tasks i).tenant = some t → t.name = name →
      (h.tasks i).registering = false) →
    ∀ i t id, (h.tasks i).registration = some (t, id) → t.name = name → h.cancelled i = false →
      h.sessions.lookup name = some ⟨id, t.psk, i⟩
  /-- And there is no other. -/
  unique : ∀ name, (∀ i t, (h.tasks i).tenant = some t → t.name = name →
      (h.tasks i).registering = false) →
    ∀ i j t u id k, (h.tasks i).registration = some (t, id) → t.name = name → h.cancelled i = false →
      (h.tasks j).registration = some (u, k) → u.name = name → h.cancelled j = false → i = j

theorem Turnover.routed {h : Hub} (ht : Turnover h) {name : String}
    (hquiet : ∀ i t, (h.tasks i).tenant = some t → t.name = name →
      (h.tasks i).registering = false)
    {i : Nat} {t : Tenant} {id : Nat} (hreg : (h.tasks i).registration = some (t, id))
    (hname : t.name = name) (hlive : h.cancelled i = false) :
    h.sessions.lookup name = some ⟨id, t.psk, i⟩ := by
  rcases ht.live i t id hreg hlive with hmapped | ⟨j, u, k, hr, hu, hs⟩
  · exact hname ▸ hmapped
  · have hnot := hquiet j u (Task.tenant_of_registration hr) (hu.trans hname)
    rw [Task.registering_of_displaced hs] at hnot
    cases hnot

/-- **One live session for each tenant.**  In every state of every interleaving. -/
theorem one_live_session (set : TenantSet) (es : List Event) (h : Hub)
    (hrun : machine.run (initial set) es = some h) : OneLive h := by
  have ho := inv_run hrun
  have ht := turnover_run hrun
  refine ⟨ht.live, fun i h' hstep name s hs hne => ?_, fun name hnone => ?_,
    fun name hquiet i t id hreg hname hlive => ht.routed hquiet hreg hname hlive,
    fun name hquiet i j t u id k hreg hname hlive hreg' hname' hlive' => ?_⟩
  · cases step_eq_some_iff.1 hstep with
    | @finish i t id hpc => exact ht.keeps_others ho (by rw [hpc]; rfl) hs hne
  · cases hs : h.sessions.lookup name with
    | none => rfl
    | some s =>
        obtain ⟨t, hreg, hname, -⟩ := ho.owned name s hs
        exact absurd hname (hnone _ _ _ hreg)
  · have hentry := ht.routed hquiet hreg hname hlive
    rw [ht.routed hquiet hreg' hname' hlive'] at hentry
    exact congrArg Session.task (Option.some.inj hentry).symm

/-- A tenant connects twice: the second connection draws its number first and registers last. -/
def reconnects : List Event :=
  [.arrive 0 0, .arrive 1 0, .verify 0 0, .verify 1 0, .draw 1, .draw 0, .register 0, .register 1,
    .check 1, .check 0, .cancelReplaced 0, .cancelReplaced 1, .finish 0]

theorem one_live_session_reconnects :
    ∃ h, machine.run (initial setA) reconnects = some h ∧ h.cancelled 0 = true ∧
      h.sessions.lookup "a" = some ⟨1, tenantA.psk, 1⟩ ∧ OneLive h := by
  have hlook : (machine.run (initial setA) reconnects).map
      (fun h => (h.cancelled 0, h.sessions.lookup "a"))
        = some (true, some ⟨1, tenantA.psk, 1⟩) := by decide
  obtain ⟨h, hrun, hstate⟩ := Option.map_eq_some_iff.1 hlook
  obtain ⟨hcancelled, hentry⟩ := Prod.mk.inj hstate
  exact ⟨h, hrun, hcancelled, hentry, one_live_session setA reconnects h hrun⟩

end Hub
end Erbridge
