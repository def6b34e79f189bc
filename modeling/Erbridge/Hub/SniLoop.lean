import Erbridge.Core.Listener
import Erbridge.Hub.Budget

/-!
# The accept loop for the visitors

`accept_loop` with `handle_sni`: it logs an error of `accept` and goes on, and the task of each
connection reads its ClientHello and then goes its way through `Hub.Turnstile`.

* `SniLoop.step` — the executable step function.
* `SniLoop.Past` — the loop without the visitors that failed, who may still hold permits; the others
  find as many without them (`Past.permits_le`).
* `SniLoop.Future` — when they are over they have given the permits back (`Future.semaphores_eq`).
-/

namespace Erbridge
namespace Hub

open Erbridge.Core (Listener Machine Table countP_hide_eq countP_hide_le getElem?_hide hide hide_concat
  hide_set hide_set_of_mem)
open Erbridge.Core.Tally
open Tenancy (Tenant TenantSet)

/-- The handler has returned, or panicked. -/
def Caller.isOver : Caller → Bool
  | .refused _ | .panicked _ | .done => true
  | _ => false

namespace Turnstile

/-- The visitor that takes the step. -/
def Event.visitor? : Event → Option Nat
  | .lookup v | .take v | .acquire v | .leave v => some v
  | .hub _ | .consult _ | .trim _ => none

/-- A connection that is over before it has consulted anything. -/
def unread (s : Turnstile) : Turnstile := { s with visitors := s.visitors ++ [.done] }

/-- The tenant of a visitor for whom a budget is made when it takes its semaphore. -/
def renews (s : Turnstile) (v : Nat) : Option Tenant :=
  match s.visitors[v]? with
  | some (.found _ t _) =>
      if ((s.budgets.lookup t.name).any fun entry => entry.1 = t.maxConns) || maxPermits < t.maxConns then
        none
      else some t
  | _ => none

/-- A visitor has the semaphore that is in the map under the name. -/
def inUse (s : Turnstile) (name : String) : Bool :=
  (s.budgets.lookup name).any fun entry =>
    s.visitors.any fun c => c.semaphore.any fun taken => taken.2 = entry.2

/-- A budget of another size is not in use any more when it is replaced. -/
def Settled (s : Turnstile) : Event → Prop
  | .take v => ∀ t, s.renews v = some t → s.inUse t.name = false
  | _ => True

instance : ∀ (s : Turnstile) (e : Event), Decidable (s.Settled e)
  | s, .take v =>
      match h : s.renews v with
      | none => isTrue fun t ht => by rw [h] at ht; cases ht
      | some t => decidable_of_iff (s.inUse t.name = false)
          ⟨fun hu u hu' => by rw [h] at hu'; exact Option.some.inj hu' ▸ hu, fun hu => hu t h⟩
  | _, .hub _ | _, .consult _ | _, .lookup _ | _, .acquire _ | _, .leave _ | _, .trim _ => isTrue trivial

section Others

variable {s t : Turnstile} {e : Event} {v : Nat} {c : Caller}

/-- A visitor is where it was after a step of somebody else. -/
theorem visitor_of_other (hstep : s.step e = some t) (hv : s.visitors[v]? = some c)
    (he : e.visitor? ≠ some v) : t.visitors[v]? = some c := by
  have hlt := (List.getElem?_eq_some_iff.1 hv).1
  have hset : ∀ {w : Nat} {b : Caller}, w ≠ v → (s.visitors.set w b)[v]? = some c := by
    intro w b hne
    rw [List.getElem?_set_ne hne]
    exact hv
  have hne : ∀ {w : Nat}, e.visitor? = some w → w ≠ v := by
    rintro w hw rfl
    exact he hw
  cases moves_of_step hstep with
  | hub => rwa [hubStep_visitors]
  | consult | unknown => exact (List.getElem?_append_left hlt).trans hv
  | trim => exact hv
  | lookup | offline | kept | renewed | panicked | acquire | atLimit | leave => exact hset (hne rfl)

/-- Who is over does nothing more. -/
theorem visitor_ne_of_over (hstep : s.step e = some t) (hv : s.visitors[v]? = some c)
    (hover : c.isOver = true) : e.visitor? ≠ some v := by
  intro he
  have hat : ∀ {b : Caller}, s.visitors[v]? = some b → b.isOver = false → False := by
    intro b hb hnot
    obtain rfl := Option.some.inj (hv.symm.trans hb)
    rw [hover] at hnot
    cases hnot
  cases moves_of_step hstep with
  | hub | consult | unknown | trim => cases he
  | lookup hpc | offline hpc | kept hpc | renewed hpc | panicked hpc | acquire hpc | atLimit hpc
  | leave hpc =>
      obtain rfl := Option.some.inj he
      exact hat hpc rfl

theorem visitor_of_over (hstep : s.step e = some t) (hv : s.visitors[v]? = some c)
    (hover : c.isOver = true) : t.visitors[v]? = some c :=
  visitor_of_other hstep hv (visitor_ne_of_over hstep hv hover)

end Others

section Invariant

variable {s : Turnstile}

theorem Inv.unread (hs : Inv s) : Inv s.unread where
  routed v c S t hv hc := hs.routed v c S t (getElem?_of_concat hv (by rintro rfl; cases hc)) hc
  budgets := hs.budgets
  taken v c t k hv hc := hs.taken v c t k (getElem?_of_concat hv (by rintro rfl; cases hc)) hc
  permits k sem hk := by
    show sem.permits + (s.visitors ++ [Caller.done]).countP (Caller.holds k) = sem.capacity
    rw [List.countP_append]
    exact hs.permits k sem hk

theorem Issued.renewed {k : Nat} {owner : String} {capacity : Nat} (h : s.Issued k owner capacity)
    (t : Tenant) : (s.renewed t).Issued k owner capacity := by
  obtain ⟨sem, hk, hsame⟩ := h
  obtain ⟨hlt, -⟩ := List.getElem?_eq_some_iff.1 hk
  exact ⟨sem, by simpa [Turnstile.renewed, List.getElem?_append_left hlt] using hk, hsame⟩

theorem Inv.renewed (hs : Inv s) {t : Tenant} (hsize : t.maxConns ≤ maxPermits) :
    Inv (s.renewed t) where
  routed := hs.routed
  budgets name capacity k hk := by
    rcases Table.lookup_insert_eq_some_iff.1 hk with ⟨rfl, heq⟩ | ⟨-, hlookup⟩
    · obtain ⟨rfl, rfl⟩ := Prod.mk.inj heq
      exact ⟨⟨⟨t.name, t.maxConns, t.maxConns⟩, by simp [Turnstile.renewed], rfl, rfl⟩, hsize⟩
    · obtain ⟨hissued, hold⟩ := hs.budgets name capacity k hlookup
      exact ⟨hissued.renewed t, hold⟩
  taken v c u k hv hc := (hs.taken v c u k hv hc).renewed t
  permits k sem hk := by
    rcases getElem?_concat_eq_some hk with hk | ⟨rfl, rfl⟩
    · exact hs.permits k sem hk
    · show t.maxConns + s.holders s.semaphores.length = t.maxConns
      rw [hs.holders_fresh, Nat.add_zero]

/-- What the section does with the map of budgets, by whether a budget is made. -/
theorem renews_cases {v : Nat} {S : TenantSet} {t : Tenant} {session : Session}
    (hpc : s.visitors[v]? = some (.found S t session)) :
    (s.renews v = none ∧ ((∃ k, s.Kept t k) ∨ (∀ k, ¬s.Kept t k) ∧ maxPermits < t.maxConns)) ∨
      (s.renews v = some t ∧ (∀ k, ¬s.Kept t k) ∧ t.maxConns ≤ maxPermits) := by
  unfold renews Kept
  rw [hpc]
  cases hentry : s.budgets.lookup t.name with
  | none =>
      by_cases hsize : maxPermits < t.maxConns
      · simp [hentry, hsize]
      · simp [hentry, hsize, Nat.le_of_not_lt hsize]
  | some entry =>
      obtain ⟨capacity, k⟩ := entry
      by_cases hsame : capacity = t.maxConns
      · simp [hentry, hsame]
      · by_cases hsize : maxPermits < t.maxConns
        · simp [hentry, hsame, hsize]
        · simp [hentry, hsame, hsize, Nat.le_of_not_lt hsize]

end Invariant

/-- What a semaphore was made with. -/
def made (s : Turnstile) : List (String × Nat) := s.semaphores.map fun sem => (sem.owner, sem.capacity)

/-- The second state is the first one without the visitors in `F`, who may hold permits there. -/
structure Without (F : Nat → Bool) (s s' : Turnstile) : Prop where
  hub : s'.hub = s.hub
  budgets : s'.budgets = s.budgets
  made : s'.made = s.made
  visitors : s'.visitors = hide F .done s.visitors
  trims : s'.trims = s.trims

section Without

variable {F : Nat → Bool} {s s' t : Turnstile} {e : Event}

theorem Without.length_eq (h : Without F s s') : s'.semaphores.length = s.semaphores.length := by
  have hlen := congrArg List.length h.made
  simpa [Turnstile.made] using hlen

theorem Without.getElem?_eq (h : Without F s s') {v : Nat} (hF : F v = false) :
    s'.visitors[v]? = s.visitors[v]? := by
  rw [h.visitors, getElem?_hide hF]

/-- A semaphore has its counterpart. -/
theorem Without.semaphore (h : Without F s s') (k : Nat) :
    Option.Rel (fun sem sem' : Semaphore => sem'.owner = sem.owner ∧ sem'.capacity = sem.capacity)
      s.semaphores[k]? s'.semaphores[k]? := by
  have hk := congrArg (fun l => l[k]?) h.made
  simp only [Turnstile.made, List.getElem?_map] at hk
  cases hsem : s.semaphores[k]? with
  | none =>
      rw [hsem, Option.map_none, Option.map_eq_none_iff] at hk
      rw [hk]
      exact .none
  | some sem =>
      rw [hsem, Option.map_some, Option.map_eq_some_iff] at hk
      obtain ⟨sem', hsem', heq⟩ := hk
      rw [hsem']
      exact .some (Prod.mk.inj heq)

theorem Without.setVisitor (h : Without F s s') {v : Nat} (hF : F v = false) (c : Caller) :
    Without F (s.setVisitor v c) (s'.setVisitor v c) := by
  refine { h with visitors := ?_ }
  show s'.visitors.set v c = hide F .done (s.visitors.set v c)
  rw [h.visitors, hide_set hF]

theorem Without.setVisitor_of_mem (h : Without F s s') {v : Nat} (hF : F v = true) (c : Caller) :
    Without F (s.setVisitor v c) s' := by
  refine { h with visitors := ?_ }
  show s'.visitors = hide F .done (s.visitors.set v c)
  rw [h.visitors, hide_set_of_mem hF]

/-- How many permits are free is not compared. -/
theorem made_setPermits {k : Nat} {sem : Semaphore} (hsem : s.semaphores[k]? = some sem) (n : Nat) :
    (s.setPermits k sem n).made = s.made := by
  unfold made setPermits
  apply List.ext_getElem?
  intro j
  rw [List.getElem?_map, List.getElem?_map]
  rcases eq_or_ne k j with rfl | hne
  · have hlt := (List.getElem?_eq_some_iff.1 hsem).1
    rw [List.getElem?_set_self hlt, hsem]
    rfl
  · rw [List.getElem?_set_ne hne]

theorem Without.setPermits_left (h : Without F s s') {k : Nat} {sem : Semaphore}
    (hsem : s.semaphores[k]? = some sem) (n : Nat) : Without F (s.setPermits k sem n) s' := by
  refine { h with made := ?_ }
  rw [made_setPermits hsem, h.made]

theorem Without.setPermits (h : Without F s s') {k : Nat} {sem sem' : Semaphore}
    (hsem : s.semaphores[k]? = some sem) (hsem' : s'.semaphores[k]? = some sem') (n n' : Nat) :
    Without F (s.setPermits k sem n) (s'.setPermits k sem' n') := by
  refine { h.setPermits_left hsem n with made := ?_ }
  rw [made_setPermits hsem, made_setPermits hsem', h.made]

/-- No semaphore has a counterpart that is not there. -/
theorem Without.semaphore_eq_none (h : Without F s s') {k : Nat} (hsem : s.semaphores[k]? = none) :
    s'.semaphores[k]? = none := by
  rw [List.getElem?_eq_none_iff] at hsem ⊢
  rwa [h.length_eq]

theorem Without.renewed (h : Without F s s') (t : Tenant) : Without F (s.renewed t) (s'.renewed t) where
  hub := h.hub
  budgets := by
    show s'.budgets.insert t.name (t.maxConns, s'.semaphores.length) =
      s.budgets.insert t.name (t.maxConns, s.semaphores.length)
    rw [h.budgets, h.length_eq]
  made := by
    show (s'.semaphores ++ [_]).map _ = (s.semaphores ++ [_]).map _
    rw [List.map_append, List.map_append]
    exact congrArg (· ++ _) h.made
  visitors := h.visitors
  trims := h.trims

theorem Without.hubStep (h : Without F s s') (e : Hub.Event) (g : Hub) :
    Without F (s.hubStep e g) (s'.hubStep e g) := by
  unfold Turnstile.hubStep
  rw [h.hub]
  split
  · split
    · refine { h with hub := rfl, trims := ?_ }
      rw [h.trims]
    · exact { h with hub := rfl }
  · exact { h with hub := rfl }

/-- A visitor finds a permit in both states, or in neither. -/
def SameRoom (s s' : Turnstile) : Event → Prop
  | .acquire v => ∀ S t session k sem sem', s.visitors[v]? = some (.taken S t session k) →
      s.semaphores[k]? = some sem → s'.semaphores[k]? = some sem' → (sem'.permits = 0 ↔ sem.permits = 0)
  | _ => True

/-- A step that has nothing to do with what is left out is the same in both states, if there is a permit
in both or in neither. -/
theorem Without.rel_step (h : Without F s s') (hF : e.visitor?.any F = false)
    (hnew : ∀ host, e = .consult host → F s.visitors.length = false) (hroom : SameRoom s s' e) :
    Option.Rel (Without F) (s.step e) (s'.step e) := by
  have hmem : ∀ {v : Nat}, e.visitor? = some v → F v = false := by
    intro v hv
    rwa [hv, Option.any_some] at hF
  cases e with
  | hub e =>
      simp only [step, h.hub]
      cases s.hub.step e with
      | some g => exact .some (h.hubStep e g)
      | none => exact .none
  | consult host =>
      have happend : ∀ c : Caller, Without F { s with visitors := s.visitors ++ [c] }
          { s' with hub := s.hub, visitors := s'.visitors ++ [c] } := by
        intro c
        refine { h with hub := rfl, visitors := ?_ }
        show s'.visitors ++ [c] = hide F .done (s.visitors ++ [c])
        rw [hide_concat, hnew host rfl, h.visitors]
        rfl
      simp only [step, h.hub]
      cases s.hub.set.tenantBySni host with
      | some t => exact .some (happend _)
      | none => exact .some (happend _)
  | lookup v =>
      simp only [step, h.getElem?_eq (hmem rfl), h.hub]
      cases s.visitors[v]? with
      | none => exact .none
      | some c =>
          cases c with
          | routed S t =>
              dsimp only
              cases s.hub.sessions.lookup t.name with
              | some session => exact .some (h.setVisitor (hmem rfl) _)
              | none => exact .some (h.setVisitor (hmem rfl) _)
          | _ => exact .none
  | take v =>
      simp only [step, h.getElem?_eq (hmem rfl)]
      cases s.visitors[v]? with
      | none => exact .none
      | some c =>
          cases c with
          | found S t session =>
              have hkept : ∀ k, s'.Kept t k ↔ s.Kept t k := by
                intro k
                unfold Kept
                rw [h.budgets]
              dsimp only
              rcases s.budgetSection_cases t with ⟨k, hk, heq⟩ | ⟨hnot, hsize, heq⟩ |
                ⟨hnot, hsize, heq⟩
              · rw [heq, budgetSection_of_kept ((hkept k).2 hk)]
                exact .some (h.setVisitor (hmem rfl) _)
              · have hnot' : ∀ k, ¬s'.Kept t k := fun k hk => hnot k ((hkept k).1 hk)
                rw [heq, budgetSection_of_not_kept hnot', if_neg (Nat.not_lt.2 hsize), h.length_eq]
                exact .some ((h.renewed t).setVisitor (hmem rfl) _)
              · have hnot' : ∀ k, ¬s'.Kept t k := fun k hk => hnot k ((hkept k).1 hk)
                rw [heq, budgetSection_of_not_kept hnot', if_pos hsize]
                exact .some (h.setVisitor (hmem rfl) _)
          | _ => exact .none
  | acquire v =>
      simp only [step, h.getElem?_eq (hmem rfl)]
      cases hpc : s.visitors[v]? with
      | none => exact .none
      | some c =>
          cases c with
          | taken S t session k =>
              dsimp only
              cases hsem : s.semaphores[k]? with
              | none =>
                  rw [h.semaphore_eq_none hsem]
                  exact .none
              | some sem =>
                  obtain ⟨sem', hsem', -⟩ := Core.exists_of_rel (h.semaphore k) hsem
                  have hzero : sem'.permits = 0 ↔ sem.permits = 0 :=
                    hroom S t session k sem sem' hpc hsem hsem'
                  simp only [hsem']
                  by_cases hfree : sem.permits = 0
                  · rw [if_pos hfree, if_pos (hzero.2 hfree)]
                    exact .some (h.setVisitor (hmem rfl) _)
                  · rw [if_neg hfree, if_neg (mt hzero.1 hfree)]
                    exact .some ((h.setPermits hsem hsem' _ _).setVisitor (hmem rfl) _)
          | _ => exact .none
  | leave v =>
      simp only [step, h.getElem?_eq (hmem rfl)]
      cases hpc : s.visitors[v]? with
      | none => exact .none
      | some c =>
          cases c with
          | relaying S t session k =>
              dsimp only
              cases hsem : s.semaphores[k]? with
              | none =>
                  rw [h.semaphore_eq_none hsem]
                  exact .none
              | some sem =>
                  obtain ⟨sem', hsem', -⟩ := Core.exists_of_rel (h.semaphore k) hsem
                  simp only [hsem']
                  exact .some ((h.setPermits hsem hsem' _ _).setVisitor (hmem rfl) _)
          | _ => exact .none
  | trim a =>
      simp only [step, h.trims]
      cases s.trims a with
      | some next =>
          refine .some { h with budgets := ?_, trims := rfl }
          show (s'.retainBudgets next).budgets = (s.retainBudgets next).budgets
          rw [retainBudgets, retainBudgets, h.budgets]
      | none => exact .none

/-- A budget that somebody uses is used by a visitor who is there in the first state as well. -/
theorem Without.inUse_of_inUse (h : Without F s s') {name : String} (huse : s'.inUse name = true) :
    s.inUse name = true := by
  unfold inUse at huse ⊢
  rw [h.budgets] at huse
  obtain ⟨entry, hentry, huse⟩ := (Option.any_eq_true _ _).1 huse
  refine (Option.any_eq_true _ _).2 ⟨entry, hentry, ?_⟩
  obtain ⟨c, hc, htaken⟩ := List.any_eq_true.1 huse
  rw [h.visitors, hide, List.mem_mapIdx] at hc
  obtain ⟨i, hi, rfl⟩ := hc
  split at htaken
  · cases htaken
  · exact List.any_eq_true.2 ⟨_, List.getElem_mem hi, htaken⟩

end Without

end Turnstile

/-! ## The loop -/

/-- The loop with the tasks of its connections; the number of a connection is its place among the
visitors. -/
structure SniLoop where
  accepting : Bool
  turnstile : Turnstile

namespace SniLoop

/-- The loop over the hub as `run_tenant_serve_with_store` builds it. -/
def initial (set : TenantSet) : SniLoop where
  accepting := true
  turnstile := .initial set

inductive Event
  | acceptFails
  /-- A connection is accepted whose ClientHello cannot be read, or names no host. -/
  | unread
  /-- A connection is accepted and names its host, its task takes another step, or an `apply` does. -/
  | visit (e : Turnstile.Event)
deriving DecidableEq

def mayVisit (s : SniLoop) : Turnstile.Event → Bool
  | .consult _ => s.accepting
  | _ => true

def step (s : SniLoop) : Event → Option SniLoop
  -- the error is logged, and `continue`
  | .acceptFails => if s.accepting then some s else none
  | .unread => if s.accepting then some { s with turnstile := s.turnstile.unread } else none
  | .visit e =>
      if s.mayVisit e then (s.turnstile.step e).map fun u => { s with turnstile := u } else none

/-- The connection that an event is about. -/
def about (s : SniLoop) : Event → Option Nat
  | .acceptFails => none
  | .unread | .visit (.consult _) => some s.turnstile.visitors.length
  | .visit e => e.visitor?

/-- Its task has returned: it was refused, or its relay is over. -/
def failed (s : SniLoop) (v : Nat) : Bool := (s.turnstile.visitors[v]?).any Caller.isOver

def Settled (s : SniLoop) : Event → Prop
  | .visit e => s.turnstile.Settled e
  | .acceptFails | .unread => True

/-- What a visitor uses up: its own number, which is the model's, and a budget that is made for it and
stays in the map. -/
inductive Skip
  | visitor
  | budget (t : Tenant)

/-- A budget that somebody uses is left alone. -/
def passOver (s : SniLoop) : Skip → SniLoop
  | .visitor => { s with turnstile := s.turnstile.unread }
  | .budget t =>
      if s.turnstile.inUse t.name then s else { s with turnstile := s.turnstile.renewed t }

/-- The second state is the first one without the visitors in `F`. -/
structure Apart (F : Nat → Bool) (s s' : SniLoop) : Prop where
  accepting : s'.accepting = s.accepting
  hub : s'.turnstile.hub = s.turnstile.hub
  budgets : s'.turnstile.budgets = s.turnstile.budgets
  semaphores : s'.turnstile.semaphores = s.turnstile.semaphores
  visitors : s'.turnstile.visitors = hide F .done s.turnstile.visitors
  trims : s'.turnstile.trims = s.turnstile.trims

/-- The loop as a listening loop. -/
def listener (set : TenantSet) : Listener where
  State := SniLoop
  Event := Event
  Skip := Skip
  machine := ⟨step⟩
  start := initial set
  accepting := accepting
  onError := .logs
  isError e := e matches .acceptFails
  Settled := Settled
  concerns F s e := (s.about e).any F
  opens s e :=
    match e with
    | .unread | .visit (.consult _) => some .visitor
    | .visit (.take v) => (s.turnstile.renews v).map .budget
    | _ => none
  passOver x s := s.passOver x
  failed := failed
  Quiet _ := True
  Failed s F :=
    (∀ v, F v = true → s.failed v = true) ∧
      ∀ (v : Nat) name m, s.turnstile.visitors[v]? = some (.refused (.atLimit name m)) → F v = true
  Agrees := Apart

/-- What each event needs and does. -/
inductive Moves (s : SniLoop) : Event → SniLoop → Prop
  | acceptFails : Moves s .acceptFails s
  | unread : Moves s .unread { s with turnstile := s.turnstile.unread }
  | visit {e : Turnstile.Event} {u : Turnstile} (hu : s.turnstile.step e = some u) :
      Moves s (.visit e) { s with turnstile := u }

variable {F : Nat → Bool} {s s' t : SniLoop} {e : Event}

theorem moves_of_step (hstep : s.step e = some t) : Moves s e t := by
  cases e with
  | acceptFails =>
      obtain ⟨-, hstep⟩ := Option.ite_none_right_eq_some.1 hstep
      obtain rfl := Option.some.inj hstep
      exact .acceptFails
  | unread =>
      obtain ⟨-, hstep⟩ := Option.ite_none_right_eq_some.1 hstep
      obtain rfl := Option.some.inj hstep
      exact .unread
  | visit e =>
      obtain ⟨-, hstep⟩ := Option.ite_none_right_eq_some.1 hstep
      obtain ⟨u, hu, rfl⟩ := Option.map_eq_some_iff.1 hstep
      exact .visit hu

structure Inv (s : SniLoop) : Prop where
  accepting : s.accepting = true
  turnstile : s.turnstile.Inv

theorem inv_step (hi : Inv s) (hstep : s.step e = some t) : Inv t := by
  cases moves_of_step hstep with
  | acceptFails => exact hi
  | unread => exact ⟨hi.accepting, hi.turnstile.unread⟩
  | visit hu => exact ⟨hi.accepting, Turnstile.inv_step hi.turnstile hu⟩

/-- Who is over stays so. -/
theorem visitor_of_over (hstep : s.step e = some t) {v : Nat} {c : Caller}
    (hv : s.turnstile.visitors[v]? = some c) (hover : c.isOver = true) :
    t.turnstile.visitors[v]? = some c := by
  cases moves_of_step hstep with
  | acceptFails => exact hv
  | unread => exact (List.getElem?_append_left (List.getElem?_eq_some_iff.1 hv).1).trans hv
  | visit hu => exact Turnstile.visitor_of_over hu hv hover

theorem failed_of_step (hstep : s.step e = some t) {v : Nat} (hfailed : s.failed v = true) :
    t.failed v = true := by
  obtain ⟨c, hv, hover⟩ := (Option.any_eq_true _ _).1 hfailed
  exact (Option.any_eq_true _ _).2 ⟨c, visitor_of_over hstep hv hover, hover⟩

/-! ### With and without the failed ones -/

/-- While the visitors in `F` are there. -/
structure Past (F : Nat → Bool) (s s' : SniLoop) : Prop where
  accepting : s'.accepting = s.accepting
  turnstile : s.turnstile.Without F s'.turnstile
  inv : s'.turnstile.Inv

/-- When those in `F` are over. -/
structure Future (F : Nat → Bool) (s s' : SniLoop) : Prop where
  past : Past F s s'
  inv : Inv s
  gone : ∀ v, F v = true → s.failed v = true

theorem past_initial (set : TenantSet) : Past F (initial set) (initial set) where
  accepting := rfl
  turnstile := ⟨rfl, rfl, rfl, rfl, rfl⟩
  inv := Turnstile.inv_initial set

/-- Without the others no fewer permits are free. -/
theorem Past.permits_le (h : Past F s s') (hi : Inv s) {k : Nat} {sem sem' : Semaphore}
    (hsem : s.turnstile.semaphores[k]? = some sem) (hsem' : s'.turnstile.semaphores[k]? = some sem') :
    sem.permits ≤ sem'.permits := by
  obtain ⟨made, hmade, -, hcapacity⟩ := Core.exists_of_rel (h.turnstile.semaphore k) hsem
  obtain rfl := Option.some.inj (hsem'.symm.trans hmade)
  have hholders : s'.turnstile.holders k ≤ s.turnstile.holders k := by
    unfold Turnstile.holders
    rw [h.turnstile.visitors]
    exact countP_hide_le rfl
  have hpermits := hi.turnstile.permits k sem hsem
  have hpermits' := h.inv.permits k sem' hsem'
  omega

/-- When they are over they hold none, and the semaphores are the same. -/
theorem Future.semaphores_eq (h : Future F s s') : s'.turnstile.semaphores = s.turnstile.semaphores := by
  apply List.ext_getElem?
  intro k
  cases hsem : s.turnstile.semaphores[k]? with
  | none => exact h.past.turnstile.semaphore_eq_none hsem
  | some sem =>
      obtain ⟨sem', hsem', howner, hcapacity⟩ := Core.exists_of_rel (h.past.turnstile.semaphore k) hsem
      have hholders : s'.turnstile.holders k = s.turnstile.holders k := by
        unfold Turnstile.holders
        rw [h.past.turnstile.visitors]
        refine countP_hide_eq rfl fun v c hF hv => ?_
        obtain ⟨c', hv', hover⟩ := (Option.any_eq_true _ _).1 (h.gone v hF)
        obtain rfl := Option.some.inj (hv.symm.trans hv')
        cases c with
        | relaying => cases hover
        | _ => rfl
      have hpermits := h.inv.turnstile.permits k sem hsem
      have hpermits' := h.past.inv.permits k sem' hsem'
      have hsame : sem'.permits = sem.permits := by omega
      rw [hsem']
      cases sem
      cases sem'
      simp_all

/-- With a permit in both or in neither, a step of the others is the same in both. -/
theorem Past.rel_step (h : Past F s s') (hF : (s.about e).any F = false)
    (hroom : ∀ e', e = .visit e' → Turnstile.SameRoom s.turnstile s'.turnstile e') :
    Option.Rel (Past F) (s.step e) (s'.step e) := by
  cases e with
  | acceptFails =>
      simp only [step, h.accepting]
      cases s.accepting with
      | true => exact .some h
      | false => exact .none
  | unread =>
      have hlast : F s.turnstile.visitors.length = false := hF
      simp only [step, h.accepting]
      cases s.accepting with
      | true =>
          refine .some ⟨rfl, { h.turnstile with visitors := ?_ }, h.inv.unread⟩
          show s'.turnstile.visitors ++ [.done] = hide F .done (s.turnstile.visitors ++ [.done])
          rw [hide_concat, hlast, h.turnstile.visitors]
          rfl
      | false => exact .none
  | visit e =>
      have hvisitor : e.visitor?.any F = false := by
        cases e with
        | consult => rfl
        | _ => exact hF
      have hnew : ∀ host, e = .consult host → F s.turnstile.visitors.length = false := by
        rintro host rfl
        exact hF
      have hmay : s'.mayVisit e = s.mayVisit e := by
        cases e with
        | consult => exact h.accepting
        | _ => rfl
      have hrel := h.turnstile.rel_step hvisitor hnew (hroom e rfl)
      simp only [step, hmay]
      cases s.mayVisit e with
      | false => exact .none
      | true =>
          refine Core.rel_map hrel fun {u u'} _ hu' hu => ?_
          exact ⟨h.accepting, hu, Turnstile.inv_step h.inv hu'⟩

/-- Who is not refused for the limit finds a permit without the others as well. -/
theorem Past.kept (h : Past F s s') (hi : Inv s) (hF : (s.about e).any F = false)
    (hgood : ∀ (v : Nat) name m, t.turnstile.visitors[v]? = some (.refused (.atLimit name m)) → F v = true)
    (hstep : s.step e = some t) : ∃ t', s'.step e = some t' ∧ Past F t t' := by
  refine Core.exists_of_rel (h.rel_step hF ?_) hstep
  rintro e rfl
  cases moves_of_step hstep with
  | visit hu =>
      cases e with
      | acquire v =>
          intro S tenant session k sem sem' hpc hsem hsem'
          have hle := h.permits_le hi hsem hsem'
          have hfree : sem.permits ≠ 0 := by
            intro hzero
            have hv : F v = false := hF
            have hlt := (List.getElem?_eq_some_iff.1 hpc).1
            simp only [Turnstile.step, hpc, hsem, hzero, if_true, Option.some.injEq] at hu
            subst hu
            rw [hgood v _ _ (List.getElem?_set_self hlt)] at hv
            cases hv
          omega
      | _ => trivial

/-- Afterwards everybody finds as many permits. -/
theorem Future.sameRoom (h : Future F s s') (e : Turnstile.Event) :
    Turnstile.SameRoom s.turnstile s'.turnstile e := by
  cases e with
  | acquire v =>
      intro S tenant session k sem sem' _ hsem hsem'
      rw [h.semaphores_eq, hsem] at hsem'
      obtain rfl := Option.some.inj hsem'
      exact Iff.rfl
  | _ => trivial

/-- What is left of a step of the ones that are left out is what it uses up. -/
theorem Past.step_dropped {set : TenantSet} (h : Past F s s') (hsettled : s.Settled e)
    (hF : (s.about e).any F = true) (hstep : s.step e = some t) :
    Past F t ((listener set).remainder s s' e) := by
  -- One more visitor, who is not there in the second state.
  have happend : F s.turnstile.visitors.length = true → ∀ c : Caller,
      Turnstile.Without F { s.turnstile with visitors := s.turnstile.visitors ++ [c] }
        s'.turnstile.unread := by
    intro hlast c
    refine { h.turnstile with visitors := ?_ }
    show s'.turnstile.visitors ++ [.done] = hide F .done (s.turnstile.visitors ++ [c])
    rw [hide_concat, hlast, if_pos rfl, h.turnstile.visitors]
  cases moves_of_step hstep with
  | acceptFails => cases hF
  | unread => exact ⟨h.accepting, happend hF _, h.inv.unread⟩
  | @visit e u hu =>
      cases Turnstile.moves_of_step hu with
      | hub | trim => cases hF
      | consult | unknown => exact ⟨h.accepting, happend hF _, h.inv.unread⟩
      | lookup | offline | atLimit => exact ⟨h.accepting, h.turnstile.setVisitor_of_mem hF _, h.inv⟩
      | @kept v S tenant session k hpc hkept =>
          have hnone : s.turnstile.renews v = none := by
            rcases Turnstile.renews_cases hpc with ⟨hnone, -⟩ | ⟨-, hnot, -⟩
            · exact hnone
            · exact absurd hkept (hnot k)
          have hrest : (listener set).remainder s s' (.visit (.take v)) = s' := by
            simp [Listener.remainder, listener, hnone]
          rw [hrest]
          exact ⟨h.accepting, h.turnstile.setVisitor_of_mem hF _, h.inv⟩
      | @panicked v S tenant session hpc hnot hsize =>
          have hnone : s.turnstile.renews v = none := by
            rcases Turnstile.renews_cases hpc with ⟨hnone, -⟩ | ⟨-, -, hsmall⟩
            · exact hnone
            · omega
          have hrest : (listener set).remainder s s' (.visit (.take v)) = s' := by
            simp [Listener.remainder, listener, hnone]
          rw [hrest]
          exact ⟨h.accepting, h.turnstile.setVisitor_of_mem hF _, h.inv⟩
      | @renewed v S tenant session hpc hnot hsize =>
          have hrenews : s.turnstile.renews v = some tenant := by
            rcases Turnstile.renews_cases hpc with ⟨-, ⟨k, hk⟩ | ⟨-, hlarge⟩⟩ | ⟨hrenews, -⟩
            · exact absurd hk (hnot k)
            · omega
            · exact hrenews
          have hunused : s'.turnstile.inUse tenant.name = false := by
            rw [Bool.eq_false_iff]
            intro huse
            have hbefore := h.turnstile.inUse_of_inUse huse
            rw [hsettled tenant hrenews] at hbefore
            cases hbefore
          have hrest : (listener set).remainder s s' (.visit (.take v)) =
              { s' with turnstile := s'.turnstile.renewed tenant } := by
            simp [Listener.remainder, listener, hrenews, passOver, hunused]
          rw [hrest]
          exact ⟨h.accepting, (h.turnstile.renewed tenant).setVisitor_of_mem hF _,
            h.inv.renewed hsize⟩
      | acquire _ hsem | leave _ hsem =>
          exact ⟨h.accepting, (h.turnstile.setPermits_left hsem _).setVisitor_of_mem hF _, h.inv⟩

/-- Without the visitors that failed the loop does the same. -/
def simulation (set : TenantSet) : (listener set).Simulation where
  Inv := Inv
  Good F s := ∀ (v : Nat) name m, s.turnstile.visitors[v]? = some (.refused (.atLimit name m)) → F v = true
  Past := Past
  Future := Future
  inv_start := ⟨rfl, Turnstile.inv_initial set⟩
  inv_step hi _ hstep := inv_step hi hstep
  accepting hi := hi.accepting
  good_of_failed _ hfailed := hfailed.2
  good_of_step _ hstep hgood v name m hv := hgood v name m (visitor_of_over hstep hv rfl)
  past_start _ := past_initial set
  past_kept hi hgood hpast _ hF hstep := hpast.kept hi hF hgood hstep
  past_gone := by
    intro F s s' e t _ hspared _ hpast hgone hstep
    cases e with
    | acceptFails =>
        have hsame : t = s := by
          cases moves_of_step (s := s) (e := .acceptFails) hstep with
          | acceptFails => rfl
        rw [hsame]
        exact hpast
    | unread => exact hpast.step_dropped (e := .unread) hspared.2 hgone hstep
    | visit e => exact hpast.step_dropped (e := .visit e) hspared.2 hgone hstep
  future_of_past hi hfailed hpast := ⟨hpast, hi, hfailed.1⟩
  future_step := by
    intro F s s' e hfuture hkept
    have hrel := hfuture.past.rel_step hkept.2 fun e' _ => hfuture.sameRoom e'
    refine Core.rel_imp hrel fun {u u'} hu hpast => ?_
    exact ⟨hpast, inv_step hfuture.inv hu, fun v hFv => failed_of_step hu (hfuture.gone v hFv)⟩
  agrees h :=
    ⟨h.past.accepting, h.past.turnstile.hub, h.past.turnstile.budgets, h.semaphores_eq,
      h.past.turnstile.visitors, h.past.turnstile.trims⟩
  together _ _ := ⟨fun _ hv => hv, fun v name m hv => (Option.any_eq_true _ _).2 ⟨_, hv, rfl⟩⟩

end SniLoop
end Hub
end Erbridge
