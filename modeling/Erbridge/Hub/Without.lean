import Erbridge.Core.Listener
import Erbridge.Hub.Takeover

/-!
# The hub without some of its connections

While a connection is there it leaves its traces in the hub: its session has a number, an entry in the
map and, until it has cancelled it, the entry of the session that it has taken over from.

* `Task.forget` — a task that has taken over from none of the connections in `F`.
* `Without` — a hub, and the one to which the connections in `F` have never come.
* `Without.rel_step` — a step of the others is the same in both.
* `Without.step_dropped` — a step of theirs leaves nothing behind but the number that it draws, if they
  have taken over from each other only.
-/

namespace Erbridge
namespace Hub

open Erbridge.Core (Table blank blank_const blank_of_mem blank_of_not_mem blank_update_of_mem
  blank_update_of_not_mem)
open Tenancy (TenantSet)

/-- The connection that takes the step. -/
def Event.conn? : Event → Option Nat
  | .arrive i _ | .verify i _ | .handshakeFails i | .draw i | .register i | .check i
  | .cancelSelf i | .cancelReplaced i | .finish i => some i
  | .publish _ _ | .sweep _ => none

/-- The entry is of a connection that is not in `F`. -/
def Session.isOther (F : Nat → Bool) (s : Session) : Bool := !F s.task

namespace Task

/-- The sessions of the connections in `F` were not there to be displaced. -/
def forget (F : Nat → Bool) : Task → Task
  | .registered t id replaced => .registered t id (replaced.filter (Session.isOther F))
  | .refused t id replaced => .refused t id (replaced.filter (Session.isOther F))
  | .checked t id replaced => .checked t id (replaced.filter (Session.isOther F))
  | k => k

/-- Its handshake has not been made, or has failed. -/
def isUnknown : Task → Bool
  | .idle | .handshaking _ | .ended none => true
  | _ => false

/-- It has begun its session. -/
def inSession : Task → Bool
  | .numbered _ _ | .registered _ _ _ | .refused _ _ _ | .checked _ _ _ | .draining _ _
  | .ended (some _) => true
  | _ => false

variable {F : Nat → Bool} {k : Task}

@[simp] theorem isUnknown_forget : (k.forget F).isUnknown = k.isUnknown := by
  cases k <;> rfl

theorem forget_eq_ended_iff : k.forget F = .ended none ↔ k = .ended none := by
  cases k <;> simp [forget]

end Task

section Others

variable {h h' : Hub} {e : Event} {i : Nat}

theorem tasks_of_other (hstep : h.step e = some h') (hi : e.conn? ≠ some i) :
    h'.tasks i = h.tasks i := by
  have hne : ∀ {j : Nat}, e.conn? = some j → i ≠ j := by
    rintro j hj rfl
    exact hi hj
  cases step_eq_some_iff.1 hstep with
  | publish | sweep => rfl
  | finish =>
      rw [setTask_tasks, removeOwn_tasks]
      exact Function.update_of_ne (hne rfl) _ _
  | _ => exact Function.update_of_ne (hne rfl) _ _

/-- Who has begun a session stays in it. -/
theorem inSession_of_step (hstep : h.step e = some h') (hi : (h.tasks i).inSession = true) :
    (h'.tasks i).inSession = true := by
  by_cases hconn : e.conn? = some i
  · cases step_eq_some_iff.1 hstep with
    | publish | sweep => cases hconn
    | arrive hpc | verifyTenant hpc | verifyCode hpc | handshakeFails hpc | draw hpc =>
        obtain rfl := Option.some.inj hconn
        rw [hpc] at hi
        cases hi
    | register | checkPasses | checkFails | cancelSelf | cancelReplaced | finish =>
        obtain rfl := Option.some.inj hconn
        simp [Task.inSession]
  · rw [tasks_of_other hstep hconn]
    exact hi

/-- A task ends with its last step, or when its handshake fails. -/
theorem ended_of_step (hstep : h.step e = some h') (hconn : e.conn? = some i)
    {tenant : Option Tenancy.Tenant} (hended : h'.tasks i = .ended tenant) :
    e = .finish i ∨ tenant = none := by
  cases step_eq_some_iff.1 hstep with
  | publish | sweep => cases hconn
  | finish => exact Or.inl (congrArg _ (Option.some.inj hconn))
  | handshakeFails =>
      obtain rfl := Option.some.inj hconn
      right
      simpa [eq_comm] using hended
  | _ =>
      obtain rfl := Option.some.inj hconn
      simp at hended

end Others

/-- The second hub is the first one without the connections in `F`. -/
structure Without (F : Nat → Bool) (h h' : Hub) : Prop where
  set : h'.set = h.set
  publisher : h'.publisher = h.publisher
  nextSession : h'.nextSession = h.nextSession
  applies : h'.applies = h.applies
  sessions : ∀ name, h'.sessions.lookup name = (h.sessions.lookup name).filter (Session.isOther F)
  tasks : h'.tasks = blank F .idle fun i => (h.tasks i).forget F
  cancelled : h'.cancelled = blank F false h.cancelled

theorem without_initial (F : Nat → Bool) (set : TenantSet) : Without F (initial set) (initial set) where
  set := rfl
  publisher := rfl
  nextSession := rfl
  applies := rfl
  sessions _ := rfl
  tasks := blank_const.symm
  cancelled := blank_const.symm

namespace Without

variable {F : Nat → Bool} {h h' : Hub} {e : Event} {i : Nat}

theorem tasks_eq (hw : Without F h h') (hF : F i = false) : h'.tasks i = (h.tasks i).forget F := by
  rw [hw.tasks]
  exact blank_of_not_mem hF

/-! ## Steps of the others -/

theorem setTask (hw : Without F h h') (hF : F i = false) (k : Task) :
    Without F (h.setTask i k) (h'.setTask i (k.forget F)) := by
  refine { hw with tasks := ?_ }
  show Function.update h'.tasks i (k.forget F) = blank F .idle fun j =>
    (Function.update h.tasks i k j).forget F
  rw [hw.tasks, ← blank_update_of_not_mem hF]
  apply congrArg
  funext j
  rcases eq_or_ne j i with rfl | hne
  · rw [Function.update_self, Function.update_self]
  · rw [Function.update_of_ne hne, Function.update_of_ne hne]

/-- Tokens of the others are cancelled in both. -/
theorem cancel (hw : Without F h h') {tokens tokens' : List Nat}
    (htokens : ∀ j, j ∈ tokens' ↔ j ∈ tokens ∧ F j = false) :
    Without F (h.cancel tokens) (h'.cancel tokens') := by
  refine { hw with cancelled := ?_ }
  funext j
  show (h'.cancelled j || tokens'.contains j) = blank F false (h.cancel tokens).cancelled j
  cases hF : F j with
  | true =>
      have hnot : j ∉ tokens' := by simp [htokens, hF]
      rw [hw.cancelled, blank_of_mem hF, blank_of_mem hF]
      simpa using hnot
  | false =>
      rw [hw.cancelled, blank_of_not_mem hF, blank_of_not_mem hF]
      have hmem : tokens'.contains j = tokens.contains j := by
        rw [Bool.eq_iff_iff, List.contains_iff_mem, List.contains_iff_mem, htokens]
        simp [hF]
      rw [hmem]
      rfl

theorem removeOwn (hw : Without F h h') (name : String) (id : Nat) :
    Without F (h.removeOwn name id) (h'.removeOwn name id) where
  set := by simpa using hw.set
  publisher := by simpa using hw.publisher
  nextSession := by simpa using hw.nextSession
  applies := by simpa using hw.applies
  sessions n := by
    ext s
    rw [lookup_removeOwn_eq_some_iff, hw.sessions, Option.filter_eq_some_iff,
      Option.filter_eq_some_iff, lookup_removeOwn_eq_some_iff]
    exact and_right_comm
  tasks := by simpa using hw.tasks
  cancelled := by simpa using hw.cancelled

theorem retainSessions (hw : Without F h h') (next : TenantSet) :
    Without F (h.retainSessions next) (h'.retainSessions next) := by
  have hcancel : Without F (h.cancel ((Table.dropped (stillValid next) h.sessions).map Session.task))
      (h'.cancel ((Table.dropped (stillValid next) h'.sessions).map Session.task)) := by
    apply hw.cancel
    intro j
    simp only [List.mem_map, Table.mem_dropped_iff]
    constructor
    · rintro ⟨s, ⟨name, hs, hbad⟩, rfl⟩
      rw [hw.sessions, Option.filter_eq_some_iff] at hs
      exact ⟨⟨s, ⟨name, hs.1, hbad⟩, rfl⟩, by simpa [Session.isOther] using hs.2⟩
    · rintro ⟨⟨s, ⟨name, hs, hbad⟩, rfl⟩, hF⟩
      refine ⟨s, ⟨name, ?_, hbad⟩, rfl⟩
      rw [hw.sessions, Option.filter_eq_some_iff]
      exact ⟨hs, by simp [Session.isOther, hF]⟩
  refine { hcancel with sessions := fun name => ?_ }
  show AList.lookup name (Table.retain _ h'.sessions) =
    (AList.lookup name (Table.retain _ h.sessions)).filter _
  rw [Table.lookup_retain, Table.lookup_retain, hw.sessions]
  ext s
  simp only [Option.filter_eq_some_iff]
  exact and_right_comm

/-- The steps of the others do not look at what is forgotten. -/
theorem rel_step (hw : Without F h h') (hF : e.conn?.any F = false) :
    Option.Rel (Without F) (h.step e) (h'.step e) := by
  have hmem : ∀ {i : Nat}, e.conn? = some i → F i = false := by
    intro i hconn
    rwa [hconn, Option.any_some] at hF
  cases e with
  | arrive i now =>
      simp only [step, hw.tasks_eq (hmem rfl), hw.set]
      cases h.tasks i with
      | idle => exact .some (hw.setTask (hmem rfl) _)
      | _ => exact .none
  | verify i index =>
      simp only [step, hw.tasks_eq (hmem rfl)]
      cases h.tasks i with
      | handshaking candidates =>
          dsimp only [Task.forget]
          cases candidates.identity index with
          | none => exact .none
          | some identity =>
              cases identity with
              | tenant t => exact .some (hw.setTask (hmem rfl) _)
              | code c => exact .some (hw.setTask (hmem rfl) _)
      | _ => exact .none
  | handshakeFails i =>
      simp only [step, hw.tasks_eq (hmem rfl)]
      cases h.tasks i with
      | handshaking candidates => exact .some (hw.setTask (hmem rfl) _)
      | _ => exact .none
  | draw i =>
      simp only [step, hw.tasks_eq (hmem rfl), hw.nextSession]
      cases h.tasks i with
      | connected t =>
          exact .some { hw.setTask (hmem rfl) (.numbered t h.nextSession) with nextSession := rfl }
      | _ => exact .none
  | register i =>
      simp only [step, hw.tasks_eq (hmem rfl)]
      cases h.tasks i with
      | numbered t id =>
          have htask := hw.setTask (hmem rfl) (.registered t id (h.sessions.lookup t.name))
          dsimp only [Task.forget] at htask ⊢
          rw [← hw.sessions] at htask
          refine .some { htask with sessions := fun name => ?_ }
          ext s
          rw [Table.lookup_insert_eq_some_iff, Option.filter_eq_some_iff,
            Table.lookup_insert_eq_some_iff, hw.sessions, Option.filter_eq_some_iff]
          constructor
          · rintro (⟨rfl, rfl⟩ | ⟨hne, hs, hother⟩)
            · exact ⟨.inl ⟨rfl, rfl⟩, by simp [Session.isOther, hmem rfl]⟩
            · exact ⟨.inr ⟨hne, hs⟩, hother⟩
          · rintro ⟨⟨rfl, rfl⟩ | ⟨hne, hs⟩, hother⟩
            · exact .inl ⟨rfl, rfl⟩
            · exact .inr ⟨hne, hs, hother⟩
      | _ => exact .none
  | check i =>
      simp only [step, hw.tasks_eq (hmem rfl), hw.set]
      cases h.tasks i with
      | registered t id replaced =>
          dsimp only [Task.forget]
          split
          · exact .some (hw.setTask (hmem rfl) (.checked t id replaced))
          · exact .some (hw.setTask (hmem rfl) (.refused t id replaced))
      | _ => exact .none
  | cancelSelf i =>
      simp only [step, hw.tasks_eq (hmem rfl)]
      cases h.tasks i with
      | refused t id replaced =>
          have hcancel : Without F (h.cancel [i]) (h'.cancel [i]) := by
            apply hw.cancel
            intro j
            simp only [List.mem_singleton, iff_self_and]
            rintro rfl
            exact hmem rfl
          exact .some (hcancel.setTask (hmem rfl) (.checked t id replaced))
      | _ => exact .none
  | cancelReplaced i =>
      simp only [step, hw.tasks_eq (hmem rfl)]
      cases h.tasks i with
      | checked t id replaced =>
          have hcancel : Without F (h.cancel (replaced.toList.map Session.task))
              (h'.cancel ((replaced.filter (Session.isOther F)).toList.map Session.task)) := by
            apply hw.cancel
            intro j
            cases replaced with
            | none => simp
            | some old =>
                cases hold : F old.task with
                | true => simp +contextual [Option.filter_some, Session.isOther, hold]
                | false => simp +contextual [Option.filter_some, Session.isOther, hold]
          exact .some (hcancel.setTask (hmem rfl) (.draining t id))
      | _ => exact .none
  | finish i =>
      simp only [step, hw.tasks_eq (hmem rfl)]
      cases h.tasks i with
      | draining t id => exact .some ((hw.removeOwn t.name id).setTask (hmem rfl) (.ended (some t)))
      | _ => exact .none
  | publish a next =>
      simp only [step, hw.applies]
      cases h.applies a with
      | idle =>
          refine .some { hw with set := rfl, publisher := rfl, applies := ?_ }
          show Function.update h'.applies a _ = Function.update h.applies a _
          rw [hw.applies]
      | _ => exact .none
  | sweep a =>
      simp only [step, hw.applies]
      cases h.applies a with
      | published next =>
          refine .some { hw.retainSessions next with applies := ?_ }
          show Function.update h'.applies a _ = Function.update h.applies a _
          rw [hw.applies]
      | _ => exact .none

/-! ## Steps of those that are left out -/

theorem setTask_of_mem (hw : Without F h h') (hF : F i = true) (k : Task) :
    Without F (h.setTask i k) h' := by
  refine { hw with tasks := ?_ }
  show h'.tasks = blank F .idle fun j => (Function.update h.tasks i k j).forget F
  rw [hw.tasks]
  funext j
  cases hj : F j with
  | true => rw [blank_of_mem hj, blank_of_mem hj]
  | false =>
      have hne : j ≠ i := by
        rintro rfl
        rw [hF] at hj
        cases hj
      rw [blank_of_not_mem hj, blank_of_not_mem hj, Function.update_of_ne hne]

/-- Only tokens of their own are cancelled. -/
theorem cancel_of_mem (hw : Without F h h') {tokens : List Nat} (hF : ∀ j ∈ tokens, F j = true) :
    Without F (h.cancel tokens) h' := by
  refine { hw with cancelled := ?_ }
  rw [hw.cancelled]
  funext j
  cases hj : F j with
  | true => rw [blank_of_mem hj, blank_of_mem hj]
  | false =>
      have hnot : j ∉ tokens := by
        intro hmem
        rw [hF j hmem] at hj
        cases hj
      rw [blank_of_not_mem hj, blank_of_not_mem hj]
      simp [Hub.cancel, hnot]

/-- What is left of a step of theirs: the number that it draws. -/
def skip (h' : Hub) : Event → Hub
  | .draw _ => { h' with nextSession := h'.nextSession + 1 }
  | _ => h'

/-- The sessions that a step of connection `i` takes over from and cancels are those of `F`. -/
def Own (F : Nat → Bool) (h : Hub) : Event → Prop
  | .register i => ∀ t id s, h.tasks i = .numbered t id → h.sessions.lookup t.name = some s →
      F s.task = true
  | .cancelReplaced i => ∀ s, (h.tasks i).displaced = some s → F s.task = true
  | _ => True

theorem step_dropped (hw : Without F h h') (ho : Inv h) (ht : Turnover h) (hown : Own F h e)
    (hF : e.conn?.any F = true) {g : Hub} (hstep : h.step e = some g) : Without F g (skip h' e) := by
  have hmem : ∀ {i : Nat}, e.conn? = some i → F i = true := by
    intro i hconn
    rwa [hconn, Option.any_some] at hF
  cases step_eq_some_iff.1 hstep with
  | arrive | verifyTenant | verifyCode | handshakeFails | checkPasses | checkFails =>
      exact hw.setTask_of_mem (hmem rfl) _
  | @draw i t hpc =>
      refine { hw.setTask_of_mem (hmem rfl) (.numbered t h.nextSession) with nextSession := ?_ }
      show h'.nextSession + 1 = h.nextSession + 1
      rw [hw.nextSession]
  | @register i t id hpc =>
      have htask := hw.setTask_of_mem (hmem rfl) (.registered t id (h.sessions.lookup t.name))
      refine { htask with sessions := fun name => ?_ }
      show h'.sessions.lookup name =
        (AList.lookup name (h.sessions.insert t.name ⟨id, t.psk, i⟩)).filter _
      by_cases hname : name = t.name
      · -- There is no entry under the name in the second map, before and after.
        subst hname
        rw [AList.lookup_insert, hw.sessions]
        cases hs : h.sessions.lookup t.name with
        | none => simp [Option.filter_some, Session.isOther, hmem rfl]
        | some s => simp [Option.filter_some, Session.isOther, hmem rfl, hown t id s hpc hs]
      · rw [AList.lookup_insert_ne hname, hw.sessions]
  | @cancelSelf i t id replaced hpc =>
      have hcancel : Without F (h.cancel [i]) h' := hw.cancel_of_mem (by simpa using hmem rfl)
      exact hcancel.setTask_of_mem (hmem rfl) _
  | @cancelReplaced i t id replaced hpc =>
      have hcancel : Without F (h.cancel (replaced.toList.map Session.task)) h' := by
        apply hw.cancel_of_mem
        intro j hj
        obtain ⟨s, hs, rfl⟩ := List.mem_map.1 hj
        apply hown s
        rw [hpc]
        exact Option.mem_toList.1 hs
      exact hcancel.setTask_of_mem (hmem rfl) _
  | @finish i t id hpc =>
      have hreg : (h.tasks i).registration = some (t, id) := by rw [hpc]; rfl
      have hremoved : Without F (h.removeOwn t.name id) h' := by
        refine ⟨by simpa using hw.set, by simpa using hw.publisher, by simpa using hw.nextSession,
          by simpa using hw.applies, fun name => ?_, by simpa using hw.tasks,
          by simpa using hw.cancelled⟩
        rw [hw.sessions]
        ext s
        rw [Option.filter_eq_some_iff, Option.filter_eq_some_iff]
        refine and_congr_left fun hother => ?_
        -- The entries of the others are not the one that it removes.
        have hne : s.task ≠ i := by
          rintro rfl
          simp [Session.isOther, hmem rfl] at hother
        exact ⟨fun hs => ht.keeps_others ho hreg hs hne,
          fun hs => (lookup_removeOwn_eq_some_iff.1 hs).1⟩
      exact hremoved.setTask_of_mem (hmem rfl) _
  | publish | sweep => cases hF

end Without
end Hub
end Erbridge
