import Erbridge.Hub.Pending
import Erbridge.Hub.Without

/-!
# The accept loop of the hub

`accept_loop` with `handle_control`: it logs an error of `accept` and goes on, and the task of each
connection takes a handshake slot, makes the handshake, gives the slot back and goes on to its session or
to its enrollment.  The slots are those of `Hub.Pending` and the session is that of `Hub.Sessions`.

* `ControlLoop.step` — the executable step function.
* `Future.sameRoom`, `Past.sameRoom` — the slots that the failed ones have held are there again, and who
  is not turned away while they hold them finds as much room without them.
* `Inv` — a session that is over has taken over from sessions that are over.
* `ControlLoop.Past`, `ControlLoop.Future` — the loop without the failed ones, while they are there and
  when they are over.
-/

namespace Erbridge
namespace Hub

open Erbridge.Core (Listener Machine blank blank_const blank_of_mem blank_of_not_mem
  blank_update_of_mem blank_update_of_not_mem countP_hide_eq countP_hide_le getElem?_hide hide
  hide_concat hide_set hide_set_of_mem)
open Pending (Slots Stage Outcome)
open Tenancy (TenantSet)

/-! ## The slots -/

/-- The connection that takes the step. -/
def Pending.Slots.Event.conn? {IpAddr : Type} : Slots.Event IpAddr → Option Nat
  | .arrive _ => none
  | .acquire i | .count i | .bounce i | .drop i _ | .release i => some i

/-- How far a step takes a connection with its slot. -/
inductive Advances {IpAddr : Type} : Slots.Event IpAddr → Stage → Stage → Prop
  | full {i : Nat} : Advances (.acquire i) .arrived .refused
  | acquire {i : Nat} : Advances (.acquire i) .arrived .permitted
  | atLimit {i : Nat} : Advances (.count i) .permitted .bounced
  | count {i : Nat} : Advances (.count i) .permitted .pending
  | bounce {i : Nat} : Advances (.bounce i) .bounced .refused
  | drop {i : Nat} {outcome : Outcome} : Advances (.drop i outcome) .pending (.dropping outcome)
  | release {i : Nat} {outcome : Outcome} : Advances (.release i) (.dropping outcome) (.over outcome)

/-- A step with the slots takes one connection further, or brings one. -/
theorem advances_of_moves {IpAddr : Type} [DecidableEq IpAddr] {s u : Slots IpAddr}
    {e : Slots.Event IpAddr} (hmoves : Slots.Moves s e u) :
    (∃ ip, e = .arrive ip ∧ u.conns = s.conns ++ [⟨ip, .arrived⟩])
      ∨ ∃ i c k, e.conn? = some i ∧ s.conns[i]? = some c
        ∧ u.conns = s.conns.set i { c with stage := k } ∧ Advances e c.stage k := by
  cases hmoves with
  | arrive => exact Or.inl ⟨_, rfl, rfl⟩
  | full hpc => exact Or.inr ⟨_, _, _, rfl, hpc, rfl, .full⟩
  | acquire hpc => exact Or.inr ⟨_, _, _, rfl, hpc, rfl, .acquire⟩
  | atLimit hpc => exact Or.inr ⟨_, _, _, rfl, hpc, rfl, .atLimit⟩
  | count hpc => exact Or.inr ⟨_, _, _, rfl, hpc, rfl, .count⟩
  | bounce hpc => exact Or.inr ⟨_, _, _, rfl, hpc, rfl, .bounce⟩
  | drop hpc => exact Or.inr ⟨_, _, _, rfl, hpc, rfl, .drop⟩
  | release hpc => exact Or.inr ⟨_, _, _, rfl, hpc, rfl, .release⟩

/-- How far connection `i` is. -/
def stageOf {IpAddr : Type} (conns : List (Pending.Conn IpAddr)) (i : Nat) : Option Stage :=
  conns[i]?.map Pending.Conn.stage

theorem stageOf_of_eq {IpAddr : Type} {conns : List (Pending.Conn IpAddr)} {i : Nat}
    {c : Pending.Conn IpAddr} (hpc : conns[i]? = some c) : stageOf conns i = some c.stage := by
  rw [stageOf, hpc]
  rfl

theorem stageOf_set {IpAddr : Type} {conns : List (Pending.Conn IpAddr)} {i : Nat}
    {c d : Pending.Conn IpAddr} (hpc : conns[i]? = some c) (j : Nat) :
    stageOf (conns.set i d) j = if j = i then some d.stage else stageOf conns j := by
  have hlt := (List.getElem?_eq_some_iff.1 hpc).1
  unfold stageOf
  rcases eq_or_ne j i with rfl | hne
  · rw [List.getElem?_set_self hlt, if_pos rfl]
    rfl
  · rw [List.getElem?_set_ne hne.symm, if_neg hne]

theorem stageOf_concat {IpAddr : Type} {conns : List (Pending.Conn IpAddr)} {c : Pending.Conn IpAddr}
    (j : Nat) :
    stageOf (conns ++ [c]) j = if j = conns.length then some c.stage else stageOf conns j := by
  unfold stageOf
  rcases lt_trichotomy j conns.length with hlt | rfl | hgt
  · rw [List.getElem?_append_left hlt, if_neg (by omega)]
  · rw [List.getElem?_concat_length, if_pos rfl]
    rfl
  · rw [List.getElem?_eq_none (by simp; omega), List.getElem?_eq_none (by omega), if_neg (by omega)]

theorem stageOf_length {IpAddr : Type} (conns : List (Pending.Conn IpAddr)) :
    stageOf conns conns.length = none := by
  rw [stageOf, List.getElem?_eq_none (Nat.le_refl _)]
  rfl

section Hide

variable {IpAddr : Type} [Inhabited IpAddr]

/-- What stands for a connection that has never come. -/
def nobody : Pending.Conn IpAddr := ⟨default, .refused⟩

variable {F : Nat → Bool}

variable [DecidableEq IpAddr] {s s' : Slots IpAddr} {e : Slots.Event IpAddr}

/-- The places that the address has taken, as `try_pending` looks them up. -/
def placesOf (s : Slots IpAddr) (ip : IpAddr) : Nat :=
  ((Slots.orInsertZero s.pendingByIp ip).lookup ip).getD 0

omit [Inhabited IpAddr] in
theorem placesOf_eq (hs : s.Inv) (ip : IpAddr) : placesOf s ip = s.liveOf ip := by
  rw [placesOf, Slots.lookup_orInsertZero_getD, hs.counts, Slots.entryFor_getD]

/-- Both states have room for the connection, or neither has. -/
def SameRoom (s s' : Slots IpAddr) : Slots.Event IpAddr → Prop
  | .acquire _ => s'.handshakes = 0 ↔ s.handshakes = 0
  | .count i => ∀ c, s.conns[i]? = some c →
      (Pending.maxPendingPerIp ≤ placesOf s' c.ip ↔ Pending.maxPendingPerIp ≤ placesOf s c.ip)
  | _ => True

/-- With as much room a connection gets as far when others have never come. -/
theorem rel_slots (hconns : s'.conns = hide F nobody s.conns) (hF : e.conn?.any F = false)
    (hnew : ∀ ip, e = .arrive ip → F s.conns.length = false) (hroom : SameRoom s s' e) :
    Option.Rel (fun u u' => u'.conns = hide F nobody u.conns) (s.step e) (s'.step e) := by
  have hsame : ∀ {i : Nat}, e.conn? = some i → s'.conns[i]? = s.conns[i]? := by
    intro i hconn
    rw [hconn, Option.any_some] at hF
    rw [hconns, getElem?_hide hF]
  have hset : ∀ {i : Nat} (d : Pending.Conn IpAddr), e.conn? = some i →
      s'.conns.set i d = hide F nobody (s.conns.set i d) := by
    intro i d hconn
    rw [hconn, Option.any_some] at hF
    rw [hconns, hide_set hF]
  cases e with
  | arrive ip =>
      apply Option.Rel.some
      show s'.conns ++ [⟨ip, .arrived⟩] = hide F nobody (s.conns ++ [⟨ip, .arrived⟩])
      rw [hide_concat, hnew ip rfl, hconns]
      rfl
  | acquire i =>
      simp only [Slots.step, hsame rfl]
      cases s.conns[i]? with
      | none => exact .none
      | some c =>
          obtain ⟨ip, stage⟩ := c
          cases stage with
          | arrived =>
              have hroom : s'.handshakes = 0 ↔ s.handshakes = 0 := hroom
              by_cases hfree : s.handshakes = 0
              · simp only [hfree, hroom.2 hfree, if_true]
                exact .some (hset _ rfl)
              · simp only [hfree, mt hroom.1 hfree, if_false]
                exact .some (hset _ rfl)
          | _ => exact .none
  | count i =>
      simp only [Slots.step, hsame rfl]
      cases hc : s.conns[i]? with
      | none => exact .none
      | some c =>
          obtain ⟨ip, stage⟩ := c
          cases stage with
          | permitted =>
              have hroom := hroom _ hc
              show Option.Rel _ (if Pending.maxPendingPerIp ≤ placesOf s ip then some _ else some _)
                (if Pending.maxPendingPerIp ≤ placesOf s' ip then some _ else some _)
              by_cases hfull : Pending.maxPendingPerIp ≤ placesOf s ip
              · rw [if_pos hfull, if_pos (hroom.2 hfull)]
                exact .some (hset _ rfl)
              · rw [if_neg hfull, if_neg (mt hroom.1 hfull)]
                exact .some (hset _ rfl)
          | _ => exact .none
  | bounce i =>
      simp only [Slots.step, hsame rfl]
      cases s.conns[i]? with
      | none => exact .none
      | some c =>
          obtain ⟨ip, stage⟩ := c
          cases stage with
          | bounced => exact .some (hset _ rfl)
          | _ => exact .none
  | drop i outcome =>
      simp only [Slots.step, hsame rfl]
      cases s.conns[i]? with
      | none => exact .none
      | some c =>
          obtain ⟨ip, stage⟩ := c
          cases stage with
          | pending => exact .some (hset _ rfl)
          | _ => exact .none
  | release i =>
      simp only [Slots.step, hsame rfl]
      cases s.conns[i]? with
      | none => exact .none
      | some c =>
          obtain ⟨ip, stage⟩ := c
          cases stage with
          | dropping outcome => exact .some (hset _ rfl)
          | _ => exact .none

end Hide
/-! ## The loop -/

/-- How far `run_enrollment` is with a connection that has verified a code's PSK. -/
inductive Redeeming
  | starting
  /-- `store.redeem` has created the tenant, and the code is used up. -/
  | redeemed
  /-- It has not, and nothing is changed. -/
  | failed
  /-- The credentials are sent, or the tenant was withdrawn because they could not be. -/
  | done (sent : Bool)
deriving DecidableEq

/-- The loop with the tasks of its connections; the number of a connection is its place in `slots`. -/
structure ControlLoop (IpAddr : Type) [DecidableEq IpAddr] where
  accepting : Bool
  slots : Slots IpAddr
  hub : Hub
  redeeming : Nat → Redeeming
  /-- Which connections have put their session over that of which other one; not part of the code's
  state. -/
  takeovers : List (Nat × Nat)

namespace ControlLoop

variable {IpAddr : Type} [DecidableEq IpAddr]

/-- The loop over the hub as `run_tenant_serve_with_store` builds it. -/
def initial (set : TenantSet) : ControlLoop IpAddr where
  accepting := true
  slots := .initial
  hub := .initial set
  redeeming := fun _ => .starting
  takeovers := []

inductive Event (IpAddr : Type)
  | acceptFails
  /-- A connection is accepted, or its task takes a step with its slot. -/
  | slot (e : Slots.Event IpAddr)
  /-- Any other step of a task, or one of an `apply`. -/
  | task (e : Hub.Event)
  /-- `store.redeem` returns in the task of connection `i`. -/
  | redeem (i : Nat) (ok : Bool)
  /-- The task of connection `i` has sent the credentials, or has failed to and withdrawn the tenant. -/
  | enrolled (i : Nat) (sent : Bool)

/-- How far connection `i` is with its slot. -/
def stage (s : ControlLoop IpAddr) (i : Nat) : Option Stage := stageOf s.slots.conns i

/-- The slot is given back after the handshake, or when that has failed or timed out; before a shutdown
no task is cancelled. -/
def mayTake (s : ControlLoop IpAddr) : Slots.Event IpAddr → Bool
  | .arrive _ => s.accepting
  | .drop i .handshaken => !(s.hub.tasks i).isUnknown
  | .drop i .failed | .drop i .timedOut => s.hub.tasks i = .ended none
  | .drop _ .cancelled => false
  | .acquire _ | .count _ | .bounce _ | .release _ => true

/-- The handshake begins with a slot, and the session when that is given back. -/
def mayStep (s : ControlLoop IpAddr) : Hub.Event → Bool
  | .arrive i _ => s.stage i = some .pending
  | .draw i => s.stage i = some (.over .handshaken)
  | _ => true

/-- Whose session the step puts over whose. -/
def takesOver (s : ControlLoop IpAddr) : Hub.Event → List (Nat × Nat)
  | .register i =>
      match s.hub.tasks i with
      | .numbered t _ => (s.hub.sessions.lookup t.name).toList.map fun old => (i, old.task)
      | _ => []
  | _ => []

/-- Connection `i` has given its slot back, and is so far in `run_enrollment`. -/
def enrollsAt (s : ControlLoop IpAddr) (i : Nat) (k : Redeeming) : Bool :=
  match s.hub.tasks i with
  | .enrolling _ => s.stage i = some (.over .handshaken) && s.redeeming i = k
  | _ => false

def step (s : ControlLoop IpAddr) : Event IpAddr → Option (ControlLoop IpAddr)
  -- the error is logged, and `continue`
  | .acceptFails => if s.accepting then some s else none
  | .slot e => if s.mayTake e then (s.slots.step e).map fun u => { s with slots := u } else none
  | .task e =>
      if s.mayStep e then
        (s.hub.step e).map fun h => { s with hub := h, takeovers := s.takeovers ++ s.takesOver e }
      else none
  | .redeem i ok =>
      if s.enrollsAt i .starting then
        some { s with
          redeeming := Function.update s.redeeming i (if ok then .redeemed else .failed) }
      else none
  | .enrolled i sent =>
      if s.enrollsAt i .redeemed then
        some { s with redeeming := Function.update s.redeeming i (.done sent) }
      else none

/-- The connection that an event is about. -/
def about (s : ControlLoop IpAddr) : Event IpAddr → Option Nat
  | .acceptFails => none
  | .slot (.arrive _) => some s.slots.conns.length
  | .slot e => e.conn?
  | .task e => e.conn?
  | .redeem i _ | .enrolled i _ => some i

/-- It got no slot, its handshake has failed or timed out and the slot is given back, its session has
ended, or it was not enrolled. -/
def failed (s : ControlLoop IpAddr) (i : Nat) : Bool :=
  match s.stage i with
  | some .refused | some (.over .failed) | some (.over .timedOut) => true
  | some (.over .handshaken) =>
      match s.hub.tasks i with
      | .ended _ => true
      | .enrolling _ => s.redeeming i = .failed || s.redeeming i = .done false
      | _ => false
  | _ => false

/-- A session ends after the ones that it has taken over from, and who has redeemed a code gets the
credentials. -/
def Settled (s : ControlLoop IpAddr) : Event IpAddr → Prop
  | .task (.finish i) => ∀ p ∈ s.takeovers, p.1 = i → s.failed p.2 = true
  | .enrolled _ sent => sent = true
  | _ => True

/-- No connection is on its way out of `try_pending`. -/
def Clear (s : ControlLoop IpAddr) : Prop := ∀ i, s.stage i ≠ some .bounced

/-- What a connection uses up: its own number, which is the model's, and the number of its session. -/
inductive Skip
  | connection
  | session
deriving DecidableEq

variable [Inhabited IpAddr]

/-- The second state is the first one without the connections in `F`. -/
structure Apart (F : Nat → Bool) (s s' : ControlLoop IpAddr) : Prop where
  accepting : s'.accepting = s.accepting
  conns : s'.slots.conns = hide F nobody s.slots.conns
  handshakes : s'.slots.handshakes = s.slots.handshakes
  pendingByIp : ∀ ip, s'.slots.pendingByIp.lookup ip = s.slots.pendingByIp.lookup ip
  hub : Without F s.hub s'.hub
  sessions : ∀ name, s'.hub.sessions.lookup name = s.hub.sessions.lookup name
  redeeming : s'.redeeming = blank F .starting s.redeeming

/-- The loop as a listening loop. -/
def listener (IpAddr : Type) [DecidableEq IpAddr] [Inhabited IpAddr] (set : TenantSet) : Listener where
  State := ControlLoop IpAddr
  Event := Event IpAddr
  Skip := Skip
  machine := ⟨step⟩
  start := initial set
  accepting := accepting
  onError := .logs
  isError e := e matches .acceptFails
  Settled := Settled
  concerns F s e := (s.about e).any F
  opens _ e :=
    match e with
    | .slot (.arrive _) => some .connection
    | .task (.draw _) => some .session
    | _ => none
  passOver x s :=
    match x with
    | .connection => { s with slots := { s.slots with conns := s.slots.conns ++ [nobody] } }
    | .session => { s with hub := { s.hub with nextSession := s.hub.nextSession + 1 } }
  failed := failed
  Quiet := Clear
  Failed s F :=
    (∀ i, F i = true → s.failed i = true) ∧ (∀ i, s.stage i = some .refused → F i = true) ∧
      (∀ p ∈ s.takeovers, F p.1 = true → F p.2 = true) ∧ s.Clear
  Agrees := Apart

/-- What each event needs and does. -/
inductive Moves (s : ControlLoop IpAddr) : Event IpAddr → ControlLoop IpAddr → Prop
  | acceptFails : Moves s .acceptFails s
  | slot {e : Slots.Event IpAddr} {u : Slots IpAddr} (hmay : s.mayTake e = true)
      (hu : s.slots.step e = some u) : Moves s (.slot e) { s with slots := u }
  | task {e : Hub.Event} {h : Hub} (hmay : s.mayStep e = true) (hh : s.hub.step e = some h) :
      Moves s (.task e) { s with hub := h, takeovers := s.takeovers ++ s.takesOver e }
  | redeem {i : Nat} {ok : Bool} (hmay : s.enrollsAt i .starting = true) :
      Moves s (.redeem i ok) { s with
        redeeming := Function.update s.redeeming i (if ok then .redeemed else .failed) }
  | enrolled {i : Nat} {sent : Bool} (hmay : s.enrollsAt i .redeemed = true) :
      Moves s (.enrolled i sent) { s with
        redeeming := Function.update s.redeeming i (.done sent) }

variable {F : Nat → Bool} {s s' t : ControlLoop IpAddr} {e : Event IpAddr}

omit [Inhabited IpAddr] in
theorem moves_of_step (hstep : s.step e = some t) : Moves s e t := by
  cases e with
  | acceptFails =>
      obtain ⟨-, hstep⟩ := Option.ite_none_right_eq_some.1 hstep
      obtain rfl := Option.some.inj hstep
      exact .acceptFails
  | slot e =>
      obtain ⟨hmay, hstep⟩ := Option.ite_none_right_eq_some.1 hstep
      obtain ⟨u, hu, rfl⟩ := Option.map_eq_some_iff.1 hstep
      exact .slot hmay hu
  | task e =>
      obtain ⟨hmay, hstep⟩ := Option.ite_none_right_eq_some.1 hstep
      obtain ⟨h, hh, rfl⟩ := Option.map_eq_some_iff.1 hstep
      exact .task hmay hh
  | redeem i ok =>
      obtain ⟨hmay, hstep⟩ := Option.ite_none_right_eq_some.1 hstep
      obtain rfl := Option.some.inj hstep
      exact .redeem hmay
  | enrolled i sent =>
      obtain ⟨hmay, hstep⟩ := Option.ite_none_right_eq_some.1 hstep
      obtain rfl := Option.some.inj hstep
      exact .enrolled hmay

/-! ### What is known of each connection -/

omit [Inhabited IpAddr] in
theorem enrollsAt_iff {i : Nat} {k : Redeeming} :
    s.enrollsAt i k = true ↔ (∃ code, s.hub.tasks i = .enrolling code) ∧
      s.stage i = some (.over .handshaken) ∧ s.redeeming i = k := by
  unfold enrollsAt
  cases s.hub.tasks i with
  | enrolling code => simp
  | _ => simp

/-- Where the task of a connection is, given how far it is with its slot. -/
def TaskOk : Option Stage → Task → Prop
  | none, k | some .arrived, k | some .permitted, k | some .bounced, k | some .refused, k => k = .idle
  | some (.dropping .failed), k | some (.dropping .timedOut), k
  | some (.over .failed), k | some (.over .timedOut), k => k = .ended none
  | some (.over _), _ => True
  | some _, k => k.inSession = false

/-- A task that is in the middle of it is so with any slot that it can have. -/
theorem TaskOk.of_other {stage : Option Stage} {k k' : Task} (h : TaskOk stage k) (hidle : k ≠ .idle)
    (hended : k ≠ .ended none) (hk : k'.inSession = true → k.inSession = true) : TaskOk stage k' := by
  unfold TaskOk at h ⊢
  split at h
  all_goals first | exact absurd h hidle | exact absurd h hended | trivial | skip
  rw [← Bool.not_eq_true] at h ⊢
  exact mt hk h

/-- The slot of a session is given back. -/
theorem TaskOk.over_of_inSession {stage : Option Stage} {k : Task} (h : TaskOk stage k)
    (hk : k.inSession = true) : ∃ outcome, stage = some (.over outcome) := by
  unfold TaskOk at h
  split at h
  all_goals first | (subst h; cases hk) | exact ⟨_, rfl⟩ | (rw [h] at hk; cases hk)

structure Inv (s : ControlLoop IpAddr) : Prop where
  accepting : s.accepting = true
  slots : s.slots.Inv
  hub : s.hub.Inv
  turnover : s.hub.Turnover
  tasks : ∀ i, TaskOk (s.stage i) (s.hub.tasks i)
  displaced : ∀ i old, (s.hub.tasks i).displaced = some old → (i, old.task) ∈ s.takeovers
  takers : ∀ p ∈ s.takeovers, (s.hub.tasks p.1).inSession = true
  /-- Who is over has taken over from nobody who is not. -/
  closed : ∀ p ∈ s.takeovers, s.failed p.1 = true → s.failed p.2 = true

omit [Inhabited IpAddr] in
theorem inv_initial (set : TenantSet) : Inv (initial set : ControlLoop IpAddr) where
  accepting := rfl
  slots := Pending.Slots.inv_initial
  hub := Hub.inv_initial set
  turnover := turnover_initial set
  tasks _ := rfl
  displaced i old h := by cases h
  takers p hp := by cases hp
  closed p hp := by cases hp

omit [Inhabited IpAddr] in
theorem tasks_slot {u : Slots IpAddr} {e : Slots.Event IpAddr} (hi : Inv s) (hmay : s.mayTake e = true)
    (hmoves : Slots.Moves s.slots e u) (i : Nat) : TaskOk (stageOf u.conns i) (s.hub.tasks i) := by
  have hold := hi.tasks i
  rcases advances_of_moves hmoves with ⟨ip, rfl, hconns⟩ | ⟨j, c, k, hconn, hpc, hconns, hadvances⟩
  · rw [hconns, stageOf_concat]
    split
    · rename_i hlast
      have hnone : s.stage i = none := hlast ▸ stageOf_length _
      rw [hnone] at hold
      exact hold
    · exact hold
  · rw [hconns, stageOf_set hpc]
    split
    · rename_i heq
      subst heq
      have hstage : s.stage i = some c.stage := stageOf_of_eq hpc
      rw [hstage] at hold
      show TaskOk (some k) _
      generalize c.stage = before at hold hadvances
      cases hadvances with
      | full | acquire | atLimit | bounce => exact hold
      | count =>
          have hidle : s.hub.tasks i = .idle := hold
          rw [hidle]
          rfl
      | @drop j outcome =>
          obtain rfl : j = i := Option.some.inj hconn
          cases outcome with
          | handshaken | cancelled => exact hold
          | failed | timedOut =>
              show s.hub.tasks j = .ended none
              simpa [mayTake] using hmay
      | @release j outcome =>
          cases outcome with
          | handshaken | cancelled => trivial
          | failed | timedOut => exact hold
    · exact hold

omit [Inhabited IpAddr] in
theorem tasks_task {h : Hub} {e : Hub.Event} (hi : Inv s) (hmay : s.mayStep e = true)
    (hstep : s.hub.step e = some h) (i : Nat) : TaskOk (s.stage i) (h.tasks i) := by
  have hold := hi.tasks i
  -- Task `j` has become `k`.
  have hmoved : ∀ {j : Nat} {k : Task}, h.tasks = Function.update s.hub.tasks j k →
      TaskOk (s.stage j) k → TaskOk (s.stage i) (h.tasks i) := by
    intro j k htasks hk
    rw [htasks]
    rcases eq_or_ne i j with rfl | hne
    · rwa [Function.update_self]
    · rwa [Function.update_of_ne hne]
  have hother : ∀ {j : Nat} {k : Task}, s.hub.tasks j = k → k ≠ .idle → k ≠ .ended none →
      ∀ k' : Task, (k'.inSession = true → k.inSession = true) → TaskOk (s.stage j) k' := by
    intro j k hpc hidle hended
    subst hpc
    exact fun k' hk => (hi.tasks j).of_other hidle hended hk
  cases step_eq_some_iff.1 hstep with
  | @arrive j now hpc =>
      have hstage : s.stage j = some .pending := by simpa [mayStep] using hmay
      apply hmoved rfl
      rw [hstage]
      rfl
  | @draw j t hpc =>
      have hstage : s.stage j = some (.over .handshaken) := by simpa [mayStep] using hmay
      apply hmoved rfl
      rw [hstage]
      trivial
  | publish | sweep => exact hold
  | finish hpc =>
      apply hmoved (by rw [setTask_tasks, removeOwn_tasks])
      exact hother hpc (by simp) (by simp) _ fun _ => rfl
  | verifyTenant hpc | verifyCode hpc | handshakeFails hpc =>
      exact hmoved rfl (hother hpc (by simp) (by simp) _ fun h => by cases h)
  | register hpc | checkPasses hpc | checkFails hpc | cancelSelf hpc | cancelReplaced hpc =>
      exact hmoved rfl (hother hpc (by simp) (by simp) _ fun _ => rfl)

/-! ### Who is over -/

omit [Inhabited IpAddr] in
/-- A step with its slot takes a connection further. -/
theorem advances_of_about {u : Slots IpAddr} {e : Slots.Event IpAddr} (hu : s.slots.step e = some u)
    {i : Nat} (habout : s.about (.slot e) = some i) :
    s.stage i = none ∨ ∃ before after, s.stage i = some before ∧ Advances e before after := by
  rcases advances_of_moves (Pending.Slots.moves_of_step hu) with
    ⟨ip, rfl, -⟩ | ⟨j, c, k, hconn, hpc, -, hadvances⟩
  · obtain rfl := Option.some.inj habout
    exact Or.inl (stageOf_length _)
  · have hji : j = i := by
      cases e with
      | arrive ip => cases hconn
      | _ => exact Option.some.inj (hconn.symm.trans habout)
    subst hji
    exact Or.inr ⟨c.stage, k, stageOf_of_eq hpc, hadvances⟩

omit [Inhabited IpAddr] in
theorem stage_of_other (hstep : s.step e = some t) {i : Nat} (hi : s.about e ≠ some i) :
    t.stage i = s.stage i := by
  cases moves_of_step hstep with
  | @slot e u hmay hu =>
      show stageOf u.conns i = stageOf s.slots.conns i
      rcases advances_of_moves (Pending.Slots.moves_of_step hu) with
        ⟨ip, rfl, hconns⟩ | ⟨j, c, k, hconn, hpc, hconns, -⟩
      · rw [hconns, stageOf_concat, if_neg]
        rintro rfl
        exact hi rfl
      · rw [hconns, stageOf_set hpc, if_neg]
        rintro rfl
        cases e with
        | arrive ip => cases hconn
        | _ => exact hi hconn
  | _ => rfl

omit [Inhabited IpAddr] in
/-- The steps of the others leave it so. -/
theorem failed_of_other (hstep : s.step e = some t) {i : Nat} (hi : s.about e ≠ some i) :
    t.failed i = s.failed i := by
  have htask : t.hub.tasks i = s.hub.tasks i := by
    cases moves_of_step hstep with
    | task hmay hh => exact tasks_of_other hh hi
    | _ => rfl
  have hredeeming : t.redeeming i = s.redeeming i := by
    cases moves_of_step hstep with
    | redeem | enrolled =>
        refine Function.update_of_ne ?_ _ _
        rintro rfl
        exact hi rfl
    | _ => rfl
  rw [failed, failed, stage_of_other hstep hi, htask, hredeeming]

omit [Inhabited IpAddr] in
/-- How a connection can be over. -/
theorem failed_cases {i : Nat} (hfailed : s.failed i = true) :
    s.stage i = some .refused ∨ s.stage i = some (.over .failed) ∨ s.stage i = some (.over .timedOut) ∨
      s.stage i = some (.over .handshaken) ∧ ((∃ tenant, s.hub.tasks i = .ended tenant) ∨
        (∃ code, s.hub.tasks i = .enrolling code) ∧
          (s.redeeming i = .failed ∨ s.redeeming i = .done false)) := by
  revert hfailed
  fun_cases failed s i <;> simp_all

omit [Inhabited IpAddr] in
/-- Who is over does nothing more. -/
theorem about_ne_of_failed (hi : Inv s) {i : Nat} (hfailed : s.failed i = true)
    (hstep : s.step e = some t) : s.about e ≠ some i := by
  have htask := hi.tasks i
  have hcases := failed_cases hfailed
  intro habout
  cases moves_of_step hstep with
  | acceptFails => cases habout
  | @slot e u hmay hu =>
      rcases advances_of_about hu habout with hnone | ⟨before, after, hstage, hadvances⟩
      · simp [hnone] at hcases
      · rw [hstage] at hcases
        cases hadvances <;> simp at hcases
  | @task e h hmay hh =>
      have hat : ∀ {k : Task}, s.hub.tasks i = k → (∃ tenant, k = .ended tenant) ∨
          (∃ code, k = .enrolling code) ∨ k = .idle ∧ s.stage i = some .refused := by
        rintro k rfl
        rcases hcases with hstage | hstage | hstage | ⟨-, hended | ⟨hcode, -⟩⟩
        · rw [hstage] at htask
          exact Or.inr (Or.inr ⟨htask, hstage⟩)
        · rw [hstage] at htask
          exact Or.inl ⟨_, htask⟩
        · rw [hstage] at htask
          exact Or.inl ⟨_, htask⟩
        · exact Or.inl hended
        · exact Or.inr (Or.inl hcode)
      have hconn : e.conn? = some i := habout
      cases step_eq_some_iff.1 hh with
      | publish | sweep => cases hconn
      | @arrive j now hpc =>
          obtain rfl := Option.some.inj hconn
          have hpending : s.stage j = some .pending := by simpa [mayStep] using hmay
          simpa [hpending] using hat hpc
      | verifyTenant hpc | verifyCode hpc | handshakeFails hpc | draw hpc | register hpc
      | checkPasses hpc | checkFails hpc | cancelSelf hpc | cancelReplaced hpc | finish hpc =>
          obtain rfl := Option.some.inj hconn
          simpa using hat hpc
  | redeem hmay | enrolled hmay =>
      obtain rfl := Option.some.inj habout
      obtain ⟨⟨code, hcode⟩, hstage, hat⟩ := enrollsAt_iff.1 hmay
      simp [hcode, hstage, hat] at hcases

omit [Inhabited IpAddr] in
theorem failed_of_step (hi : Inv s) {i : Nat} (hfailed : s.failed i = true)
    (hstep : s.step e = some t) : t.failed i = true := by
  rw [failed_of_other hstep (about_ne_of_failed hi hfailed hstep)]
  exact hfailed

omit [Inhabited IpAddr] in
/-- A session that is over has ended. -/
theorem ended_of_failed {i : Nat} (htask : TaskOk (s.stage i) (s.hub.tasks i))
    (hfailed : s.failed i = true) (hsession : (s.hub.tasks i).inSession = true) :
    ∃ tenant, s.hub.tasks i = .ended tenant := by
  rcases failed_cases hfailed with hstage | hstage | hstage | ⟨-, hended | ⟨⟨code, hcode⟩, -⟩⟩
  · rw [hstage] at htask
    have hidle : s.hub.tasks i = .idle := htask
    rw [hidle] at hsession
    cases hsession
  · rw [hstage] at htask
    exact ⟨_, htask⟩
  · rw [hstage] at htask
    exact ⟨_, htask⟩
  · exact hended
  · rw [hcode] at hsession
    cases hsession

/-! ### The invariant -/

omit [Inhabited IpAddr] in
theorem displaced_task {h : Hub} {e : Hub.Event} (hi : Inv s) (hstep : s.hub.step e = some h) (i : Nat)
    (old : Session) (hold : (h.tasks i).displaced = some old) :
    (i, old.task) ∈ s.takeovers ++ s.takesOver e := by
  by_cases hconn : e.conn? = some i
  · cases step_eq_some_iff.1 hstep with
    | publish | sweep => cases hconn
    | @register j t id hpc =>
        obtain rfl := Option.some.inj hconn
        have hentry : s.hub.sessions.lookup t.name = some old := by
          simpa [Task.displaced] using hold
        refine List.mem_append_right _ ?_
        simp [takesOver, hpc, hentry]
    | checkPasses hpc | checkFails hpc | cancelSelf hpc =>
        obtain rfl := Option.some.inj hconn
        refine List.mem_append_left _ (hi.displaced _ old ?_)
        rw [hpc]
        simpa [Task.displaced] using hold
    | _ =>
        obtain rfl := Option.some.inj hconn
        simp [Task.displaced] at hold
  · rw [tasks_of_other hstep hconn] at hold
    exact List.mem_append_left _ (hi.displaced i old hold)

omit [Inhabited IpAddr] in
/-- Only a session that begins is put over others. -/
theorem of_mem_takesOver {h : Hub} {e : Hub.Event} (hstep : s.hub.step e = some h) {p : Nat × Nat}
    (hp : p ∈ s.takesOver e) : e.conn? = some p.1 ∧ (h.tasks p.1).inSession = true := by
  cases step_eq_some_iff.1 hstep with
  | register hpc =>
      simp only [takesOver, hpc, List.mem_map] at hp
      obtain ⟨old, -, rfl⟩ := hp
      exact ⟨rfl, by simp [Task.inSession]⟩
  | _ => cases hp

omit [Inhabited IpAddr] in
theorem takers_step (hi : Inv s) (hstep : s.step e = some t) (p : Nat × Nat) (hp : p ∈ t.takeovers) :
    (t.hub.tasks p.1).inSession = true := by
  cases moves_of_step hstep with
  | task hmay hh =>
      rcases List.mem_append.1 hp with hp | hp
      · exact inSession_of_step hh (hi.takers p hp)
      · exact (of_mem_takesOver hh hp).2
  | _ => exact hi.takers p hp

omit [Inhabited IpAddr] in
theorem tasks_step (hi : Inv s) (hstep : s.step e = some t) (i : Nat) :
    TaskOk (t.stage i) (t.hub.tasks i) := by
  cases moves_of_step hstep with
  | slot hmay hu => exact tasks_slot hi hmay (Pending.Slots.moves_of_step hu) i
  | task hmay hh => exact tasks_task hi hmay hh i
  | _ => exact hi.tasks i

omit [Inhabited IpAddr] in
/-- A session ends by its own last step, after the ones that it has taken over from. -/
theorem closed_step (hi : Inv s) (hsettled : s.Settled e) (hstep : s.step e = some t) (p : Nat × Nat)
    (hp : p ∈ t.takeovers) (hfailed : t.failed p.1 = true) : t.failed p.2 = true := by
  have htaker := takers_step hi hstep p hp
  have hended := ended_of_failed (tasks_step hi hstep p.1) hfailed htaker
  by_cases habout : s.about e = some p.1
  · cases moves_of_step hstep with
    | acceptFails => cases habout
    | @slot e u hmay hu =>
        -- Its slot is given back, so there is no such step.
        obtain ⟨outcome, hstage⟩ := (hi.tasks p.1).over_of_inSession (hi.takers p hp)
        rcases advances_of_about hu habout with hnone | ⟨before, after, hbefore, hadvances⟩
        · rw [hnone] at hstage
          cases hstage
        · obtain rfl := Option.some.inj (hbefore.symm.trans hstage)
          cases hadvances
    | @task e h hmay hh =>
        obtain ⟨tenant, hended⟩ := hended
        rcases ended_of_step hh habout hended with rfl | rfl
        · rcases List.mem_append.1 hp with hp | hp
          · exact failed_of_step hi (hsettled p hp rfl) hstep
          · cases hp
        · have hended : h.tasks p.1 = .ended none := hended
          have hsession : (h.tasks p.1).inSession = true := htaker
          rw [hended] at hsession
          cases hsession
    | redeem hmay | enrolled hmay =>
        obtain rfl := Option.some.inj habout
        obtain ⟨⟨code, hcode⟩, -⟩ := enrollsAt_iff.1 hmay
        have hsession := hi.takers p hp
        rw [hcode] at hsession
        cases hsession
  · rw [failed_of_other hstep habout] at hfailed
    have hold : p ∈ s.takeovers := by
      cases moves_of_step hstep with
      | task hmay hh =>
          refine (List.mem_append.1 hp).resolve_right fun hp => ?_
          exact habout (of_mem_takesOver hh hp).1
      | _ => exact hp
    exact failed_of_step hi (hi.closed p hold hfailed) hstep

omit [Inhabited IpAddr] in
theorem inv_step (hi : Inv s) (hsettled : s.Settled e) (hstep : s.step e = some t) : Inv t where
  accepting := by cases moves_of_step hstep <;> exact hi.accepting
  slots := by
    cases moves_of_step hstep with
    | slot hmay hu => exact Pending.Slots.inv_step hi.slots hu
    | _ => exact hi.slots
  hub := by
    cases moves_of_step hstep with
    | task hmay hh => exact Hub.inv_step hi.hub hh
    | _ => exact hi.hub
  turnover := by
    cases moves_of_step hstep with
    | task hmay hh => exact turnover_step hi.turnover hi.hub hh
    | _ => exact hi.turnover
  tasks := tasks_step hi hstep
  displaced := by
    cases moves_of_step hstep with
    | task hmay hh => exact displaced_task hi hh
    | _ => exact hi.displaced
  takers := takers_step hi hstep
  closed := closed_step hi hsettled hstep

/-- What is known all along of a set of connections that has, when it is looked at, those that were
turned away: none of the others is turned away, and theirs are the sessions that they take over from. -/
structure Good (F : Nat → Bool) (s : ControlLoop IpAddr) : Prop where
  room : ∀ i, F i = false → s.stage i ≠ some .bounced ∧ s.stage i ≠ some .refused
  closed : ∀ p ∈ s.takeovers, F p.1 = true → F p.2 = true

omit [Inhabited IpAddr] in
/-- Who is turned away is not taken in again. -/
theorem turned_away_of_moves {u : Slots IpAddr} {e : Slots.Event IpAddr}
    (hmoves : Slots.Moves s.slots e u) {i : Nat}
    (hs : stageOf s.slots.conns i = some .bounced ∨ stageOf s.slots.conns i = some .refused) :
    stageOf u.conns i = some .bounced ∨ stageOf u.conns i = some .refused := by
  rcases advances_of_moves hmoves with ⟨ip, rfl, hconns⟩ | ⟨j, c, k, hconn, hpc, hconns, hadvances⟩
  · rw [hconns, stageOf_concat]
    split
    · rename_i hlast
      have hnone : stageOf s.slots.conns i = none := hlast ▸ stageOf_length _
      rw [hnone] at hs
      simp at hs
    · exact hs
  · rw [hconns, stageOf_set hpc]
    split
    · rename_i heq
      subst heq
      rw [stageOf_of_eq hpc] at hs
      generalize c.stage = before at hs hadvances
      cases hadvances with
      | bounce => exact Or.inr rfl
      | _ => simp at hs
    · exact hs

omit [Inhabited IpAddr] in
theorem good_of_step (hstep : s.step e = some t) (hgood : Good F t) : Good F s := by
  constructor
  · intro i hFi
    obtain ⟨hbounced, hrefused⟩ := hgood.room i hFi
    cases moves_of_step hstep with
    | slot hmay hu =>
        have hlater := turned_away_of_moves (i := i) (Pending.Slots.moves_of_step hu)
        by_contra hstage
        rw [not_and_or, not_not, not_not] at hstage
        rcases hlater hstage with h | h
        · exact hbounced h
        · exact hrefused h
    | _ => exact ⟨hbounced, hrefused⟩
  · intro p hp
    cases moves_of_step hstep with
    | task => exact hgood.closed p (List.mem_append_left _ hp)
    | _ => exact hgood.closed p hp

/-! ### With and without the failed ones -/

/-- While the connections in `F` are there. -/
structure Past (F : Nat → Bool) (s s' : ControlLoop IpAddr) : Prop where
  accepting : s'.accepting = s.accepting
  conns : s'.slots.conns = hide F nobody s.slots.conns
  slots : s'.slots.Inv
  hub : Without F s.hub s'.hub
  redeeming : s'.redeeming = blank F .starting s.redeeming

/-- When those in `F` are over. -/
structure Future (F : Nat → Bool) (s s' : ControlLoop IpAddr) : Prop where
  past : Past F s s'
  inv : Inv s
  gone : ∀ i, F i = true → s.failed i = true

theorem past_initial (set : TenantSet) : Past F (initial set : ControlLoop IpAddr) (initial set) where
  accepting := rfl
  conns := rfl
  slots := Pending.Slots.inv_initial
  hub := without_initial F set
  redeeming := blank_const.symm

/-- Without the others there are no fewer permits. -/
theorem Past.handshakes_le (h : Past F s s') (hi : Inv s) : s.slots.handshakes ≤ s'.slots.handshakes := by
  have hlive : s'.slots.live ≤ s.slots.live := by
    unfold Slots.live
    rw [h.conns]
    exact countP_hide_le rfl
  have hbetween : s'.slots.between ≤ s.slots.between := by
    unfold Slots.between
    rw [h.conns]
    exact countP_hide_le rfl
  have hpermits := hi.slots.permits
  have hpermits' := h.slots.permits
  omega

/-- Nor are there fewer places for any address. -/
theorem Past.placesOf_le (h : Past F s s') (hi : Inv s) (ip : IpAddr) :
    placesOf s'.slots ip ≤ placesOf s.slots ip := by
  rw [placesOf_eq hi.slots, placesOf_eq h.slots]
  unfold Slots.liveOf
  rw [h.conns]
  apply countP_hide_le
  simp [Pending.Conn.isLiveOf, Pending.Conn.isLive, nobody]

omit [Inhabited IpAddr] in
/-- One that is over holds no slot. -/
theorem holds_nothing {i : Nat} {c : Pending.Conn IpAddr} (hfailed : s.failed i = true)
    (hc : s.slots.conns[i]? = some c) : c.isLive = false ∧ c.isBetween = false := by
  have hstage : s.stage i = some c.stage := stageOf_of_eq hc
  have hcases := failed_cases hfailed
  rw [hstage] at hcases
  unfold Pending.Conn.isLive Pending.Conn.isBetween
  cases hc : c.stage with
  | refused => exact ⟨rfl, rfl⟩
  | «over» outcome => exact ⟨rfl, rfl⟩
  | _ => simp [hc] at hcases

theorem Future.liveOf_eq (h : Future F s s') (ip : IpAddr) : s'.slots.liveOf ip = s.slots.liveOf ip := by
  unfold Slots.liveOf
  rw [h.past.conns]
  apply countP_hide_eq
  · simp [Pending.Conn.isLiveOf, Pending.Conn.isLive, nobody]
  · intro i c hF hc
    simp [Pending.Conn.isLiveOf, (holds_nothing (h.gone i hF) hc).1]

/-- When they are over they have given back the permits. -/
theorem Future.handshakes_eq (h : Future F s s') : s'.slots.handshakes = s.slots.handshakes := by
  have hlive : s'.slots.live = s.slots.live := by
    unfold Slots.live
    rw [h.past.conns]
    exact countP_hide_eq rfl fun i c hF hc => (holds_nothing (h.gone i hF) hc).1
  have hbetween : s'.slots.between = s.slots.between := by
    unfold Slots.between
    rw [h.past.conns]
    exact countP_hide_eq rfl fun i c hF hc => (holds_nothing (h.gone i hF) hc).2
  have hpermits := h.inv.slots.permits
  have hpermits' := h.past.slots.permits
  omega

/-- They have given back the places. -/
theorem Future.lookup_eq (h : Future F s s') (ip : IpAddr) :
    s'.slots.pendingByIp.lookup ip = s.slots.pendingByIp.lookup ip := by
  rw [h.inv.slots.counts, h.past.slots.counts, h.liveOf_eq]

/-- No entry of the map is one of theirs any more. -/
theorem Future.sessions_eq (h : Future F s s') (name : String) :
    s'.hub.sessions.lookup name = s.hub.sessions.lookup name := by
  rw [h.past.hub.sessions]
  cases hs : s.hub.sessions.lookup name with
  | none => rfl
  | some entry =>
      obtain ⟨tenant, hreg, -⟩ := h.inv.hub.owned name entry hs
      cases hF : F entry.task with
      | false => simp [Option.filter_some, Session.isOther, hF]
      | true =>
          have hsession : (s.hub.tasks entry.task).inSession = true := by
            cases hpc : s.hub.tasks entry.task with
            | registered | refused | checked | draining => rfl
            | _ =>
                rw [hpc] at hreg
                cases hreg
          obtain ⟨tenant', hended⟩ :=
            ended_of_failed (h.inv.tasks entry.task) (h.gone entry.task hF) hsession
          rw [hended] at hreg
          cases hreg

theorem Future.apart (h : Future F s s') : Apart F s s' where
  accepting := h.past.accepting
  conns := h.past.conns
  handshakes := h.handshakes_eq
  pendingByIp := h.lookup_eq
  hub := h.past.hub
  sessions := h.sessions_eq
  redeeming := h.past.redeeming

theorem Past.stage_eq (h : Past F s s') {i : Nat} (hF : F i = false) : s'.stage i = s.stage i := by
  show stageOf s'.slots.conns i = stageOf s.slots.conns i
  rw [h.conns, stageOf, stageOf, getElem?_hide hF]

/-- What may happen to the others may happen in both states. -/
theorem Past.mayTake_eq (h : Past F s s') {e : Slots.Event IpAddr}
    (hF : (s.about (.slot e)).any F = false) : s'.mayTake e = s.mayTake e := by
  cases e with
  | arrive ip => exact h.accepting
  | drop i outcome =>
      have htask := h.hub.tasks_eq (i := i) hF
      cases outcome with
      | cancelled => rfl
      | handshaken => simp only [mayTake, htask, Task.isUnknown_forget]
      | failed | timedOut => simp only [mayTake, htask, Task.forget_eq_ended_iff]
  | acquire | count | bounce | release => rfl

theorem Past.mayStep_eq (h : Past F s s') {e : Hub.Event} (hF : e.conn?.any F = false) :
    s'.mayStep e = s.mayStep e := by
  cases e with
  | arrive i now => simp only [mayStep, h.stage_eq (i := i) hF]
  | draw i => simp only [mayStep, h.stage_eq (i := i) hF]
  | _ => rfl

theorem Past.enrollsAt_eq (h : Past F s s') {i : Nat} (hF : F i = false) (k : Redeeming) :
    s'.enrollsAt i k = s.enrollsAt i k := by
  have hredeeming : s'.redeeming i = s.redeeming i := by
    rw [h.redeeming]
    exact blank_of_not_mem hF
  unfold enrollsAt
  rw [h.hub.tasks_eq hF, h.stage_eq hF, hredeeming]
  cases s.hub.tasks i with
  | _ => rfl

/-- The others redeem in both states. -/
theorem Past.setRedeeming (h : Past F s s') {i : Nat} (hF : F i = false) (k : Redeeming) :
    Past F { s with redeeming := Function.update s.redeeming i k }
      { s' with redeeming := Function.update s'.redeeming i k } := by
  refine ⟨h.accepting, h.conns, h.slots, h.hub, ?_⟩
  show Function.update s'.redeeming i k = _
  rw [h.redeeming, blank_update_of_not_mem hF]

/-- With as much room for the connection that takes it, a step of the others is the same in both. -/
theorem Past.rel_step (h : Past F s s') (hF : (s.about e).any F = false)
    (hroom : ∀ e', e = .slot e' → SameRoom s.slots s'.slots e') :
    Option.Rel (Past F) (s.step e) (s'.step e) := by
  cases e with
  | acceptFails =>
      simp only [step, h.accepting]
      cases s.accepting with
      | true => exact .some h
      | false => exact .none
  | slot e =>
      have hconn : e.conn?.any F = false := by
        cases e with
        | arrive ip => rfl
        | _ => exact hF
      have hnew : ∀ ip, e = .arrive ip → F s.slots.conns.length = false := by
        rintro ip rfl
        exact hF
      have hrel := rel_slots h.conns hconn hnew (hroom e rfl)
      simp only [step, h.mayTake_eq hF]
      cases s.mayTake e with
      | false => exact .none
      | true =>
          refine Core.rel_map hrel fun {u u'} _ hu' hconns => ?_
          exact ⟨h.accepting, hconns, Pending.Slots.inv_step h.slots hu', h.hub, h.redeeming⟩
  | task e =>
      simp only [step, h.mayStep_eq hF]
      cases s.mayStep e with
      | false => exact .none
      | true =>
          refine Core.rel_map (h.hub.rel_step hF) fun {u u'} _ _ hhub => ?_
          exact ⟨h.accepting, h.conns, h.slots, hhub, h.redeeming⟩
  | redeem i ok =>
      have hi : F i = false := hF
      simp only [step, h.enrollsAt_eq hi]
      cases s.enrollsAt i .starting with
      | false => exact .none
      | true => exact .some (h.setRedeeming hi _)
  | enrolled i sent =>
      have hi : F i = false := hF
      simp only [step, h.enrollsAt_eq hi]
      cases s.enrollsAt i .redeemed with
      | false => exact .none
      | true => exact .some (h.setRedeeming hi _)

/-- A connection that is not turned away finds as much room without the others. -/
theorem Past.sameRoom (h : Past F s s') (hi : Inv s) {e : Slots.Event IpAddr} {u : Slots IpAddr}
    (hstep : s.slots.step e = some u) (hF : e.conn?.any F = false)
    (hkept : ∀ i, F i = false → stageOf u.conns i ≠ some .bounced ∧ stageOf u.conns i ≠ some .refused) :
    SameRoom s.slots s'.slots e := by
  -- Connection `i` is not where a connection gets to that is turned away.
  have hnot : ∀ {i : Nat} {c : Pending.Conn IpAddr} {k : Stage}, e.conn? = some i →
      s.slots.conns[i]? = some c → k = .bounced ∨ k = .refused →
      u.conns ≠ s.slots.conns.set i { c with stage := k } := by
    intro i c k hconn hpc hk hconns
    rw [hconn, Option.any_some] at hF
    have hstage : stageOf u.conns i = some k := by rw [hconns, stageOf_set hpc, if_pos rfl]
    rcases hk with rfl | rfl
    · exact (hkept i hF).1 hstage
    · exact (hkept i hF).2 hstage
  cases Pending.Slots.moves_of_step hstep with
  | full hpc => exact absurd rfl (hnot rfl hpc (Or.inr rfl))
  | atLimit hpc => exact absurd rfl (hnot rfl hpc (Or.inl rfl))
  | acquire hpc hfree =>
      have hle := h.handshakes_le hi
      show s'.slots.handshakes = 0 ↔ s.slots.handshakes = 0
      omega
  | @count i ip hpc hn =>
      intro c hc
      rw [hpc, Option.some.injEq] at hc
      subst hc
      have hle := h.placesOf_le hi ip
      have hlt : placesOf s.slots ip < Pending.maxPendingPerIp := hn
      show Pending.maxPendingPerIp ≤ placesOf s'.slots ip ↔ Pending.maxPendingPerIp ≤ placesOf s.slots ip
      omega
  | arrive | bounce | drop | release => trivial

/-- Afterwards there is as much room for everyone. -/
theorem Future.sameRoom (h : Future F s s') (e : Slots.Event IpAddr) : SameRoom s.slots s'.slots e := by
  cases e with
  | acquire i =>
      show s'.slots.handshakes = 0 ↔ s.slots.handshakes = 0
      rw [h.handshakes_eq]
  | count i =>
      intro c _
      rw [placesOf_eq h.inv.slots, placesOf_eq h.past.slots, h.liveOf_eq]
  | arrive | bounce | drop | release => trivial

omit [Inhabited IpAddr] in
/-- The sessions in `F` are put over each other only. -/
theorem own_of_closed {e : Hub.Event} {h : Hub} (hi : Inv s) (hF : e.conn?.any F = true)
    (hclosed : ∀ p ∈ s.takeovers ++ s.takesOver e, F p.1 = true → F p.2 = true)
    (hstep : s.hub.step e = some h) : Without.Own F s.hub e := by
  cases step_eq_some_iff.1 hstep with
  | @register i t id hpc =>
      intro t' id' old hpc' hentry
      obtain ⟨rfl, rfl⟩ := Task.numbered.inj (hpc.symm.trans hpc')
      refine hclosed (i, old.task) (List.mem_append_right _ ?_) hF
      simp [takesOver, hpc, hentry]
  | @cancelReplaced i t id replaced hpc =>
      intro old hold
      exact hclosed (i, old.task) (List.mem_append_left _ (hi.displaced i old hold)) hF
  | _ => trivial

/-- What is left of a step of the ones that are left out is what it uses up. -/
theorem Past.step_dropped {set : TenantSet} (h : Past F s s') (hi : Inv s) (hF : (s.about e).any F = true)
    (hgood : Good F t) (hstep : s.step e = some t) :
    Past F t ((listener IpAddr set).remainder s s' e) := by
  cases moves_of_step hstep with
  | acceptFails => cases hF
  | @slot e u hmay hu =>
      cases e with
      | arrive ip =>
          have hlast : F s.slots.conns.length = true := hF
          cases Pending.Slots.moves_of_step hu with
          | arrive =>
              refine ⟨h.accepting, ?_, h.slots.append rfl rfl, h.hub, h.redeeming⟩
              show s'.slots.conns ++ [nobody] = hide F nobody (s.slots.conns ++ [⟨ip, .arrived⟩])
              rw [hide_concat, hlast, if_pos rfl, h.conns]
      | acquire i | count i | bounce i | drop i | release i =>
          refine ⟨h.accepting, ?_, h.slots, h.hub, h.redeeming⟩
          rcases advances_of_moves (Pending.Slots.moves_of_step hu) with
            ⟨ip, harrive, -⟩ | ⟨j, c, k, hconn, -, hconns, -⟩
          · cases harrive
          · obtain rfl := Option.some.inj hconn
            show s'.slots.conns = hide F nobody u.conns
            rw [h.conns, hconns, hide_set_of_mem hF]
  | @task e g hmay hh =>
      have hown := own_of_closed hi hF hgood.closed hh
      have hhub := h.hub.step_dropped hi.hub hi.turnover hown hF hh
      cases e with
      | draw i => exact ⟨h.accepting, h.conns, h.slots, hhub, h.redeeming⟩
      | _ => exact ⟨h.accepting, h.conns, h.slots, hhub, h.redeeming⟩
  | redeem | enrolled =>
      refine ⟨h.accepting, h.conns, h.slots, h.hub, ?_⟩
      show s'.redeeming = _
      rw [h.redeeming, blank_update_of_mem hF]

theorem Past.kept (h : Past F s s') (hi : Inv s) (hF : (s.about e).any F = false) (hgood : Good F t)
    (hstep : s.step e = some t) : ∃ t', s'.step e = some t' ∧ Past F t t' := by
  have hrel : Option.Rel (Past F) (s.step e) (s'.step e) := by
    apply h.rel_step hF
    rintro e rfl
    cases moves_of_step hstep with
    | slot hmay hu =>
        cases e with
        | arrive ip => trivial
        | _ => exact h.sameRoom hi hu hF hgood.room
  exact Core.exists_of_rel hrel hstep

/-- Without the connections that failed the loop does the same. -/
def simulation (IpAddr : Type) [DecidableEq IpAddr] [Inhabited IpAddr] (set : TenantSet) :
    (listener IpAddr set).Simulation where
  Inv := Inv
  Good := Good
  Past := Past
  Future := Future
  inv_start := inv_initial set
  inv_step hi hspared hstep := inv_step hi hspared.2 hstep
  accepting hi := hi.accepting
  good_of_failed _ hfailed := by
    obtain ⟨-, hrefused, hclosed, hclear⟩ := hfailed
    refine ⟨fun i hFi => ⟨hclear i, fun hstage => ?_⟩, hclosed⟩
    rw [hrefused i hstage] at hFi
    cases hFi
  good_of_step _ hstep hgood := good_of_step hstep hgood
  past_start F := past_initial set
  past_kept hi hgood hpast _ hF hstep := hpast.kept hi hF hgood hstep
  past_gone := by
    intro F s s' e t hi _ hgood hpast hgone hstep
    cases e with
    | acceptFails =>
        have hsame : t = s := by
          cases moves_of_step (s := s) (e := .acceptFails) hstep with
          | acceptFails => rfl
        rw [hsame]
        exact hpast
    | slot e => exact hpast.step_dropped (e := .slot e) hi hgone hgood hstep
    | task e => exact hpast.step_dropped (e := .task e) hi hgone hgood hstep
    | redeem i ok => exact hpast.step_dropped (e := .redeem i ok) hi hgone hgood hstep
    | enrolled i sent => exact hpast.step_dropped (e := .enrolled i sent) hi hgone hgood hstep
  future_of_past hi hfailed hpast := ⟨hpast, hi, hfailed.1⟩
  future_step := by
    intro F s s' e hfuture hkept
    have hrel := hfuture.past.rel_step hkept.2 fun e' _ => hfuture.sameRoom e'
    refine Core.rel_imp hrel fun {u u'} hu hpast => ?_
    exact ⟨hpast, inv_step hfuture.inv hkept.1.2 hu, fun i hFi =>
      failed_of_step hfuture.inv (hfuture.gone i hFi) hu⟩
  agrees h := h.apart
  together := by
    intro s hi hclear
    refine ⟨fun _ hi => hi, fun i hstage => ?_, hi.closed, hclear⟩
    show failed s i = true
    unfold failed
    rw [hstage]

end ControlLoop
end Hub
end Erbridge
