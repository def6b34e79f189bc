import Erbridge.Core.Tally
import Erbridge.Hub.Route

/-!
# Connection budgets

The model of `Hub::try_acquire` and of its use by `handle_sni` and `apply`: a tenant's budget is made
when its first visitor asks for a slot, replaced when its limit has changed and dropped by an `apply`
whose snapshot no longer has the tenant.  A visitor takes the semaphore out of the map under the lock
and its permit from the semaphore after it; everything else goes on in between.

* `budgetSection` — the section of `try_acquire` under the lock, a panic of `Semaphore::new` included.
* `Turnstile.step` — the hub's events, the visitors' own and the last section of `apply`.
* `Inv` — every permit is free or held by one relay, and a semaphore serves the tenant whose budget it
  was made for.
* `relays_bounded` — while every snapshot in use gives a tenant the same limit, no more of its visitors
  than that are relayed, counted from the moment the first of them took the semaphore out of the map.
* `lost_budget` — counted from the moment it got its permit, there can be one more.
-/

namespace Erbridge
namespace Hub

open Tenancy (Tenant TenantSet)
open Erbridge.Core (Table)
open Erbridge.Core.Tally

/-- `usize::MAX >> 3`, the most permits `Semaphore::new` takes. -/
def maxPermits : Nat := (2 ^ 64 - 1) >>> 3

/-- The semaphore of a budget.  `owner` and `capacity` are what it was made with, which the semaphore
itself does not keep. -/
structure Semaphore where
  owner : String
  capacity : Nat
  permits : Nat
deriving DecidableEq

/-- `Semaphore::new`; `none` is its panic. -/
def Semaphore.new (owner : String) (permits : Nat) : Option Semaphore :=
  if maxPermits < permits then none else some ⟨owner, permits, permits⟩

/-- Where the handler of a visitor's connection is. -/
inductive Caller
  /-- `snapshot` was consulted and gave `tenant`. -/
  | routed (snapshot : TenantSet) (tenant : Tenant)
  /-- The control of `session` was cloned from the map. -/
  | found (snapshot : TenantSet) (tenant : Tenant) (session : Session)
  /-- The semaphore with this number was cloned from the map of budgets. -/
  | taken (snapshot : TenantSet) (tenant : Tenant) (session : Session) (semaphore : Nat)
  /-- The connection holds a permit of the semaphore. -/
  | relaying (snapshot : TenantSet) (tenant : Tenant) (session : Session) (semaphore : Nat)
  | refused (e : RouteError)
  /-- `Semaphore::new` panicked. -/
  | panicked (tenant : Tenant)
  | done
deriving DecidableEq

namespace Caller

/-- The snapshot that a handler has consulted which has yet to take a semaphore out of the map, and the
tenant it was given. -/
def routing : Caller → Option (TenantSet × Tenant)
  | .routed S t | .found S t _ => some (S, t)
  | .taken _ _ _ _ | .relaying _ _ _ _ | .refused _ | .panicked _ | .done => none

/-- The tenant and the semaphore of a handler that has taken one out of the map. -/
def semaphore : Caller → Option (Tenant × Nat)
  | .taken _ t _ k | .relaying _ t _ k => some (t, k)
  | _ => none

/-- The connection is an open relay of this tenant. -/
def relays (name : String) : Caller → Bool
  | .relaying _ t _ _ => t.name = name
  | _ => false

/-- The connection holds a permit of this semaphore. -/
def holds (k : Nat) : Caller → Bool
  | .relaying _ _ _ j => j = k
  | _ => false

end Caller

/-- The hub with its budgets and the visitors of its SNI listener. -/
structure Turnstile where
  hub : Hub
  /-- Per tenant the capacity and the number of the semaphore. -/
  budgets : Table String (Nat × Nat)
  semaphores : List Semaphore
  visitors : List Caller
  /-- The snapshots of the `apply` calls that have swept the sessions and not the budgets yet. -/
  trims : Nat → Option TenantSet

namespace Turnstile

def initial (set : TenantSet) : Turnstile where
  hub := Hub.initial set
  budgets := ∅
  semaphores := []
  visitors := []
  trims := fun _ => none

/-! ## The section under the lock -/

/-- `(tenant.max_conns, Arc::new(Semaphore::new(tenant.max_conns)))`, put under the tenant's name. -/
def freshBudget (s : Turnstile) (t : Tenant) : Option (Turnstile × (Nat × Nat)) :=
  (Semaphore.new t.name t.maxConns).map fun sem =>
    ({ s with
        semaphores := s.semaphores ++ [sem]
        budgets := s.budgets.insert t.name (t.maxConns, s.semaphores.length) },
      (t.maxConns, s.semaphores.length))

/-- `budgets.entry(tenant.name.clone()).or_insert_with(..)`. -/
def budgetEntry (s : Turnstile) (t : Tenant) : Option (Turnstile × (Nat × Nat)) :=
  match s.budgets.lookup t.name with
  | some entry => some (s, entry)
  | none => s.freshBudget t

/-- The section of `try_acquire` under the lock of `budgets`; `none` is a panic, which leaves the map
as it was. -/
def budgetSection (s : Turnstile) (t : Tenant) : Option (Turnstile × Nat) :=
  (s.budgetEntry t).bind fun (s, entry) =>
    if entry.1 ≠ t.maxConns then (s.freshBudget t).map fun (s, entry) => (s, entry.2)
    else some (s, entry.2)

/-- The state after a fresh budget was made for the tenant. -/
def renewed (s : Turnstile) (t : Tenant) : Turnstile :=
  { s with
    semaphores := s.semaphores ++ [⟨t.name, t.maxConns, t.maxConns⟩]
    budgets := s.budgets.insert t.name (t.maxConns, s.semaphores.length) }

theorem freshBudget_eq (s : Turnstile) (t : Tenant) :
    s.freshBudget t =
      if maxPermits < t.maxConns then none
      else some (s.renewed t, (t.maxConns, s.semaphores.length)) := by
  unfold freshBudget Semaphore.new
  split <;> rfl

/-- The map has a budget of the tenant's present limit. -/
def Kept (s : Turnstile) (t : Tenant) (k : Nat) : Prop :=
  s.budgets.lookup t.name = some (t.maxConns, k)

theorem budgetSection_of_kept {s : Turnstile} {t : Tenant} {k : Nat} (h : s.Kept t k) :
    s.budgetSection t = some (s, k) := by
  simp [budgetSection, budgetEntry, show s.budgets.lookup t.name = some (t.maxConns, k) from h]

/-- Without a budget of the present limit a fresh one is made, unless its size is too large. -/
theorem budgetSection_of_not_kept {s : Turnstile} {t : Tenant} (h : ∀ k, ¬s.Kept t k) :
    s.budgetSection t =
      if maxPermits < t.maxConns then none else some (s.renewed t, s.semaphores.length) := by
  unfold budgetSection budgetEntry
  cases hentry : s.budgets.lookup t.name with
  | none =>
      simp only [freshBudget_eq]
      split
      · rfl
      · simp
  | some entry =>
      obtain ⟨capacity, k⟩ := entry
      have hne : capacity ≠ t.maxConns := by
        rintro rfl
        exact h k hentry
      simp only [Option.bind_some, ne_eq, hne, not_false_eq_true, if_true, freshBudget_eq]
      split <;> rfl

/-- What the section does. -/
theorem budgetSection_cases (s : Turnstile) (t : Tenant) :
    (∃ k, s.Kept t k ∧ s.budgetSection t = some (s, k)) ∨
    ((∀ k, ¬s.Kept t k) ∧ t.maxConns ≤ maxPermits ∧
      s.budgetSection t = some (s.renewed t, s.semaphores.length)) ∨
    ((∀ k, ¬s.Kept t k) ∧ maxPermits < t.maxConns ∧ s.budgetSection t = none) := by
  by_cases hkept : ∃ k, s.Kept t k
  · obtain ⟨k, hk⟩ := hkept
    exact Or.inl ⟨k, hk, budgetSection_of_kept hk⟩
  · have hnot : ∀ k, ¬s.Kept t k := fun k hk => hkept ⟨k, hk⟩
    have hsection := budgetSection_of_not_kept hnot
    by_cases hlarge : maxPermits < t.maxConns
    · rw [if_pos hlarge] at hsection
      exact Or.inr (Or.inr ⟨hnot, hlarge, hsection⟩)
    · rw [if_neg hlarge] at hsection
      exact Or.inr (Or.inl ⟨hnot, Nat.le_of_not_lt hlarge, hsection⟩)

/-! ## Steps -/

inductive Event
  | hub (e : Hub.Event)
  /-- `peek_sni` gave `host` to a new visitor: `hub.snapshot().tenant_by_sni(&host)`. -/
  | consult (host : String)
  /-- `lock(&hub.sessions).get(&tenant.name)`. -/
  | lookup (v : Nat)
  /-- The section of `try_acquire` under the lock of `budgets`. -/
  | take (v : Nat)
  /-- `semaphore.try_acquire_owned()`. -/
  | acquire (v : Nat)
  /-- The relay ends, or its task is dropped: the permit goes back. -/
  | leave (v : Nat)
  /-- `lock(&hub.budgets).retain(|name, _| next.tenant(name).is_some())`. -/
  | trim (a : Nat)
deriving DecidableEq

def setVisitor (s : Turnstile) (v : Nat) (c : Caller) : Turnstile :=
  { s with visitors := s.visitors.set v c }

/-- Permits are taken from a semaphore or given back to it. -/
def setPermits (s : Turnstile) (k : Nat) (sem : Semaphore) (permits : Nat) : Turnstile :=
  { s with semaphores := s.semaphores.set k { sem with permits := permits } }

/-- A hub event, after which an `apply` that has swept the sessions goes on to the budgets. -/
def hubStep (s : Turnstile) (e : Hub.Event) (h : Hub) : Turnstile :=
  match e with
  | .sweep a =>
      match s.hub.applies a with
      | .published next => { s with hub := h, trims := Function.update s.trims a (some next) }
      | _ => { s with hub := h }
  | _ => { s with hub := h }

def retainBudgets (s : Turnstile) (next : TenantSet) : Turnstile :=
  { s with budgets := Table.retain (fun name _ => (next.tenant name).isSome) s.budgets }

def step (s : Turnstile) : Event → Option Turnstile
  | .hub e => (s.hub.step e).map (s.hubStep e)
  | .consult host =>
      match s.hub.set.tenantBySni host with
      | some t => some { s with visitors := s.visitors ++ [.routed s.hub.set t] }
      | none => some { s with visitors := s.visitors ++ [.refused (.noTenantFor host)] }
  | .lookup v =>
      match s.visitors[v]? with
      | some (.routed S t) =>
          match s.hub.sessions.lookup t.name with
          | some session => some (s.setVisitor v (.found S t session)) -- the guard is dropped here
          | none => some (s.setVisitor v (.refused (.offline t.name)))
      | _ => none
  | .take v =>
      match s.visitors[v]? with
      | some (.found S t session) =>
          match s.budgetSection t with
          | some (s, k) => some (s.setVisitor v (.taken S t session k))
          | none => some (s.setVisitor v (.panicked t))
      | _ => none
  | .acquire v =>
      match s.visitors[v]? with
      | some (.taken S t session k) =>
          match s.semaphores[k]? with
          | some sem =>
              if sem.permits = 0 then
                some (s.setVisitor v (.refused (.atLimit t.name t.maxConns)))
              else
                some ((s.setPermits k sem (sem.permits - 1)).setVisitor v (.relaying S t session k))
          | none => none
      | _ => none
  | .leave v =>
      match s.visitors[v]? with
      | some (.relaying _ _ _ k) =>
          match s.semaphores[k]? with
          | some sem => some ((s.setPermits k sem (sem.permits + 1)).setVisitor v .done)
          | none => none
      | _ => none
  | .trim a =>
      match s.trims a with
      | some next =>
          some { s.retainBudgets next with trims := Function.update s.trims a none }
      | none => none

/-- The listener as a machine: a run is an interleaving of the visitors and of all that the hub
does. -/
def machine : Core.Machine Turnstile Event where
  step := step

/-- What each event needs and does. -/
inductive Moves (s : Turnstile) : Event → Turnstile → Prop
  | hub {e : Hub.Event} {h : Hub} (hstep : s.hub.step e = some h) :
      Moves s (.hub e) (s.hubStep e h)
  | consult {host : String} {t : Tenant} (ht : s.hub.set.tenantBySni host = some t) :
      Moves s (.consult host) { s with visitors := s.visitors ++ [.routed s.hub.set t] }
  | unknown {host : String} (ht : s.hub.set.tenantBySni host = none) :
      Moves s (.consult host) { s with visitors := s.visitors ++ [.refused (.noTenantFor host)] }
  | lookup {v : Nat} {S : TenantSet} {t : Tenant} {session : Session}
      (hpc : s.visitors[v]? = some (.routed S t))
      (hsession : s.hub.sessions.lookup t.name = some session) :
      Moves s (.lookup v) (s.setVisitor v (.found S t session))
  | offline {v : Nat} {S : TenantSet} {t : Tenant} (hpc : s.visitors[v]? = some (.routed S t))
      (hsession : s.hub.sessions.lookup t.name = none) :
      Moves s (.lookup v) (s.setVisitor v (.refused (.offline t.name)))
  | kept {v : Nat} {S : TenantSet} {t : Tenant} {session : Session} {k : Nat}
      (hpc : s.visitors[v]? = some (.found S t session)) (hkept : s.Kept t k) :
      Moves s (.take v) (s.setVisitor v (.taken S t session k))
  | renewed {v : Nat} {S : TenantSet} {t : Tenant} {session : Session}
      (hpc : s.visitors[v]? = some (.found S t session)) (hnot : ∀ k, ¬s.Kept t k)
      (hsize : t.maxConns ≤ maxPermits) :
      Moves s (.take v) ((s.renewed t).setVisitor v (.taken S t session s.semaphores.length))
  | panicked {v : Nat} {S : TenantSet} {t : Tenant} {session : Session}
      (hpc : s.visitors[v]? = some (.found S t session)) (hnot : ∀ k, ¬s.Kept t k)
      (hsize : maxPermits < t.maxConns) :
      Moves s (.take v) (s.setVisitor v (.panicked t))
  | acquire {v : Nat} {S : TenantSet} {t : Tenant} {session : Session} {k : Nat} {sem : Semaphore}
      (hpc : s.visitors[v]? = some (.taken S t session k)) (hsem : s.semaphores[k]? = some sem)
      (hfree : 0 < sem.permits) :
      Moves s (.acquire v)
        ((s.setPermits k sem (sem.permits - 1)).setVisitor v (.relaying S t session k))
  | atLimit {v : Nat} {S : TenantSet} {t : Tenant} {session : Session} {k : Nat} {sem : Semaphore}
      (hpc : s.visitors[v]? = some (.taken S t session k)) (hsem : s.semaphores[k]? = some sem)
      (hfree : sem.permits = 0) :
      Moves s (.acquire v) (s.setVisitor v (.refused (.atLimit t.name t.maxConns)))
  | leave {v : Nat} {S : TenantSet} {t : Tenant} {session : Session} {k : Nat} {sem : Semaphore}
      (hpc : s.visitors[v]? = some (.relaying S t session k))
      (hsem : s.semaphores[k]? = some sem) :
      Moves s (.leave v) ((s.setPermits k sem (sem.permits + 1)).setVisitor v .done)
  | trim {a : Nat} {next : TenantSet} (hpc : s.trims a = some next) :
      Moves s (.trim a) { s.retainBudgets next with trims := Function.update s.trims a none }

theorem moves_of_step {s s' : Turnstile} {e : Event} (hstep : s.step e = some s') :
    Moves s e s' := by
  cases e with
  | hub e =>
      obtain ⟨h, hh, rfl⟩ := Option.map_eq_some_iff.1 hstep
      exact .hub hh
  | consult host =>
      simp only [step] at hstep
      split at hstep
      · rename_i t ht
        cases hstep
        exact .consult ht
      · rename_i ht
        cases hstep
        exact .unknown ht
  | lookup v =>
      simp only [step] at hstep
      split at hstep
      · rename_i S t hpc
        split at hstep
        · rename_i session hsession
          cases hstep
          exact .lookup hpc hsession
        · rename_i hsession
          cases hstep
          exact .offline hpc hsession
      · cases hstep
  | take v =>
      simp only [step] at hstep
      split at hstep
      · rename_i S t session hpc
        rcases s.budgetSection_cases t with ⟨k, hkept, heq⟩ | ⟨hnot, hsize, heq⟩ |
          ⟨hnot, hsize, heq⟩
        · rw [heq] at hstep
          cases hstep
          exact .kept hpc hkept
        · rw [heq] at hstep
          cases hstep
          exact .renewed hpc hnot hsize
        · rw [heq] at hstep
          cases hstep
          exact .panicked hpc hnot hsize
      · cases hstep
  | acquire v =>
      simp only [step] at hstep
      split at hstep
      · rename_i S t session k hpc
        split at hstep
        · rename_i sem hsem
          split at hstep
          · rename_i hfree
            cases hstep
            exact .atLimit hpc hsem hfree
          · rename_i hfree
            cases hstep
            exact .acquire hpc hsem (Nat.pos_of_ne_zero hfree)
        · cases hstep
      · cases hstep
  | leave v =>
      simp only [step] at hstep
      split at hstep
      · rename_i S t session k hpc
        split at hstep
        · rename_i sem hsem
          cases hstep
          exact .leave hpc hsem
        · cases hstep
      · cases hstep
  | trim a =>
      simp only [step] at hstep
      split at hstep
      · rename_i next hpc
        cases hstep
        exact .trim hpc
      · cases hstep

/-! ## What the steps touch -/

section Fields

variable (s : Turnstile) (v k : Nat) (c : Caller) (sem : Semaphore) (permits : Nat)
  (e : Hub.Event) (h : Hub)

@[simp] theorem setVisitor_hub : (s.setVisitor v c).hub = s.hub := rfl
@[simp] theorem setVisitor_budgets : (s.setVisitor v c).budgets = s.budgets := rfl
@[simp] theorem setVisitor_semaphores : (s.setVisitor v c).semaphores = s.semaphores := rfl
@[simp] theorem setVisitor_trims : (s.setVisitor v c).trims = s.trims := rfl
@[simp] theorem setVisitor_visitors : (s.setVisitor v c).visitors = s.visitors.set v c := rfl

@[simp] theorem setPermits_hub : (s.setPermits k sem permits).hub = s.hub := rfl
@[simp] theorem setPermits_budgets : (s.setPermits k sem permits).budgets = s.budgets := rfl
@[simp] theorem setPermits_trims : (s.setPermits k sem permits).trims = s.trims := rfl
@[simp] theorem setPermits_visitors : (s.setPermits k sem permits).visitors = s.visitors := rfl

@[simp] theorem hubStep_budgets : (s.hubStep e h).budgets = s.budgets := by
  unfold hubStep
  split
  · split <;> rfl
  · rfl

@[simp] theorem hubStep_semaphores : (s.hubStep e h).semaphores = s.semaphores := by
  unfold hubStep
  split
  · split <;> rfl
  · rfl

@[simp] theorem hubStep_visitors : (s.hubStep e h).visitors = s.visitors := by
  unfold hubStep
  split
  · split <;> rfl
  · rfl

end Fields

/-- The open relays of the tenant with this name. -/
def relays (s : Turnstile) (name : String) : Nat := s.visitors.countP (Caller.relays name)

/-- The relays that hold a permit of this semaphore. -/
def holders (s : Turnstile) (k : Nat) : Nat := s.visitors.countP (Caller.holds k)

/-- Semaphore `k` was made for this tenant with this capacity. -/
def Issued (s : Turnstile) (k : Nat) (owner : String) (capacity : Nat) : Prop :=
  ∃ sem, s.semaphores[k]? = some sem ∧ sem.owner = owner ∧ sem.capacity = capacity

theorem Caller.semaphore_of_holds {c : Caller} {k : Nat} (h : c.holds k = true) :
    ∃ t, c.semaphore = some (t, k) := by
  cases c with
  | relaying S t session j =>
      obtain rfl : j = k := by simpa [Caller.holds] using h
      exact ⟨t, rfl⟩
  | _ => cases h

theorem Caller.holds_of_relays {c : Caller} {name : String} (h : c.relays name = true) :
    ∃ t k, t.name = name ∧ c.semaphore = some (t, k) ∧ c.holds k = true := by
  cases c with
  | relaying S t session k =>
      exact ⟨t, k, by simpa [Caller.relays] using h, rfl, by simp [Caller.holds]⟩
  | _ => cases h

theorem Issued.setPermits {s : Turnstile} {k j : Nat} {owner : String} {capacity permits : Nat}
    {sem : Semaphore} (h : s.Issued j owner capacity) (hsem : s.semaphores[k]? = some sem) :
    (s.setPermits k sem permits).Issued j owner capacity := by
  obtain ⟨sem', hj, howner, hcapacity⟩ := h
  by_cases hjk : k = j
  · subst hjk
    rw [hsem] at hj
    obtain rfl := Option.some.inj hj
    obtain ⟨hlt, -⟩ := List.getElem?_eq_some_iff.1 hsem
    exact ⟨{ sem with permits := permits }, by simp [Turnstile.setPermits, hlt], howner, hcapacity⟩
  · exact ⟨sem', by simp [Turnstile.setPermits, List.getElem?_set_ne hjk, hj], howner, hcapacity⟩

/-- A semaphore stays what it was made as. -/
theorem issued_step {s s' : Turnstile} {e : Event} {k : Nat} {owner : String} {capacity : Nat}
    (h : s.Issued k owner capacity) (hstep : s.step e = some s') : s'.Issued k owner capacity := by
  cases moves_of_step hstep with
  | hub hh => simpa [Issued] using h
  | @renewed v S t session hpc hnot hsize =>
      obtain ⟨sem, hk, hsame⟩ := h
      obtain ⟨hlt, -⟩ := List.getElem?_eq_some_iff.1 hk
      exact ⟨sem, by simpa [Turnstile.renewed, List.getElem?_append_left hlt] using hk, hsame⟩
  | acquire hpc hsem hfree => exact h.setPermits hsem
  | leave hpc hsem => exact h.setPermits hsem
  | _ => exact h

/-- Whoever has yet to take a semaphore had consulted its snapshot before the step, or consults the one
there is. -/
theorem routing_of_step {s s' : Turnstile} {e : Event} {v : Nat} {c : Caller} {S : TenantSet}
    {t : Tenant} (hstep : s.step e = some s') (hv : s'.visitors[v]? = some c)
    (hc : c.routing = some (S, t)) :
    (∃ b, s.visitors[v]? = some b ∧ b.routing = some (S, t)) ∨
      S = s.hub.set ∧ ∃ host, s.hub.set.tenantBySni host = some t := by
  cases moves_of_step hstep with
  | hub hh => exact Or.inl ⟨c, by simpa using hv, hc⟩
  | @consult host t' ht =>
      rcases getElem?_concat_eq_some hv with hold | ⟨-, rfl⟩
      · exact Or.inl ⟨c, hold, hc⟩
      · obtain ⟨rfl, rfl⟩ := Prod.mk.inj (Option.some.inj hc)
        exact Or.inr ⟨rfl, host, ht⟩
  | unknown ht => exact Or.inl ⟨c, getElem?_of_concat hv (by rintro rfl; cases hc), hc⟩
  | lookup hpc hsession => exact Or.inl (exists_of_getElem?_set hpc hv (Or.inr rfl) hc)
  | offline hpc hsession => exact Or.inl (exists_of_getElem?_set hpc hv (Or.inl rfl) hc)
  | kept hpc hkept => exact Or.inl (exists_of_getElem?_set hpc hv (Or.inl rfl) hc)
  | renewed hpc hnot hsize => exact Or.inl (exists_of_getElem?_set hpc hv (Or.inl rfl) hc)
  | panicked hpc hnot hsize => exact Or.inl (exists_of_getElem?_set hpc hv (Or.inl rfl) hc)
  | acquire hpc hsem hfree => exact Or.inl (exists_of_getElem?_set hpc hv (Or.inl rfl) hc)
  | atLimit hpc hsem hfree => exact Or.inl (exists_of_getElem?_set hpc hv (Or.inl rfl) hc)
  | leave hpc hsem => exact Or.inl (exists_of_getElem?_set hpc hv (Or.inl rfl) hc)
  | trim hpc => exact Or.inl ⟨c, hv, hc⟩

/-- Whoever has taken a semaphore out of the map had done so before the step, or takes the one that is
there when the lock is given back. -/
theorem semaphore_of_step {s s' : Turnstile} {e : Event} {v : Nat} {c : Caller} {t : Tenant} {k : Nat}
    (hstep : s.step e = some s') (hv : s'.visitors[v]? = some c) (hc : c.semaphore = some (t, k)) :
    (∃ b, s.visitors[v]? = some b ∧ b.semaphore = some (t, k)) ∨
      ∃ S session, s.visitors[v]? = some (.found S t session) ∧ s'.Kept t k := by
  cases moves_of_step hstep with
  | hub hh => exact Or.inl ⟨c, by simpa using hv, hc⟩
  | consult ht => exact Or.inl ⟨c, getElem?_of_concat hv (by rintro rfl; cases hc), hc⟩
  | unknown ht => exact Or.inl ⟨c, getElem?_of_concat hv (by rintro rfl; cases hc), hc⟩
  | lookup hpc hsession => exact Or.inl (exists_of_getElem?_set hpc hv (Or.inl rfl) hc)
  | offline hpc hsession => exact Or.inl (exists_of_getElem?_set hpc hv (Or.inl rfl) hc)
  | @kept w S u session j hpc hkept =>
      rcases getElem?_set_eq_some hv with ⟨rfl, rfl⟩ | ⟨-, hold⟩
      · obtain ⟨rfl, rfl⟩ := Prod.mk.inj (Option.some.inj hc)
        exact Or.inr ⟨S, session, hpc, hkept⟩
      · exact Or.inl ⟨c, hold, hc⟩
  | @renewed w S u session hpc hnot hsize =>
      rcases getElem?_set_eq_some hv with ⟨rfl, rfl⟩ | ⟨-, hold⟩
      · obtain ⟨rfl, rfl⟩ := Prod.mk.inj (Option.some.inj hc)
        exact Or.inr ⟨S, session, hpc, AList.lookup_insert _⟩
      · exact Or.inl ⟨c, hold, hc⟩
  | panicked hpc hnot hsize => exact Or.inl (exists_of_getElem?_set hpc hv (Or.inl rfl) hc)
  | acquire hpc hsem hfree => exact Or.inl (exists_of_getElem?_set hpc hv (Or.inr rfl) hc)
  | atLimit hpc hsem hfree => exact Or.inl (exists_of_getElem?_set hpc hv (Or.inl rfl) hc)
  | leave hpc hsem => exact Or.inl (exists_of_getElem?_set hpc hv (Or.inl rfl) hc)
  | trim hpc => exact Or.inl ⟨c, hv, hc⟩

/-- What holds in every state. -/
structure Inv (s : Turnstile) : Prop where
  routed : ∀ (v : Nat) (c : Caller) (S : TenantSet) (t : Tenant), s.visitors[v]? = some c →
    c.routing = some (S, t) → S.tenant t.name = some t
  budgets : ∀ name capacity k, s.budgets.lookup name = some (capacity, k) →
    s.Issued k name capacity ∧ capacity ≤ maxPermits
  taken : ∀ (v : Nat) (c : Caller) (t : Tenant) (k : Nat), s.visitors[v]? = some c →
    c.semaphore = some (t, k) → s.Issued k t.name t.maxConns
  permits : ∀ k sem, s.semaphores[k]? = some sem → sem.permits + s.holders k = sem.capacity

theorem inv_initial (set : TenantSet) : Inv (initial set) where
  routed v c S t hv := by simp [initial] at hv
  budgets name capacity k hk := by cases hk
  taken v c t k hv := by simp [initial] at hv
  permits k sem hk := by simp [initial] at hk

theorem routed_step {s s' : Turnstile} {e : Event} (hs : Inv s) (hstep : s.step e = some s')
    (v : Nat) (c : Caller) (S : TenantSet) (t : Tenant) (hv : s'.visitors[v]? = some c)
    (hc : c.routing = some (S, t)) : S.tenant t.name = some t := by
  rcases routing_of_step hstep hv hc with ⟨b, hb, hrouting⟩ | ⟨rfl, host, ht⟩
  · exact hs.routed v b S t hb hrouting
  · exact TenantSet.tenant_eq_some_iff.2 ⟨(TenantSet.tenantBySni_eq_some_iff.1 ht).1, rfl⟩

theorem budgets_step {s s' : Turnstile} {e : Event} (hs : Inv s) (hstep : s.step e = some s')
    (name : String) (capacity k : Nat) (hk : s'.budgets.lookup name = some (capacity, k)) :
    s'.Issued k name capacity ∧ capacity ≤ maxPermits := by
  have hold : s.budgets.lookup name = some (capacity, k) →
      s'.Issued k name capacity ∧ capacity ≤ maxPermits := by
    intro hlookup
    obtain ⟨hissued, hsize⟩ := hs.budgets name capacity k hlookup
    exact ⟨issued_step hissued hstep, hsize⟩
  cases moves_of_step hstep with
  | hub hh => exact hold (by simpa using hk)
  | @renewed v S t session hpc hnot hsize =>
      rcases Table.lookup_insert_eq_some_iff.1 hk with ⟨rfl, heq⟩ | ⟨-, hlookup⟩
      · obtain ⟨rfl, rfl⟩ := Prod.mk.inj heq
        exact ⟨⟨⟨t.name, t.maxConns, t.maxConns⟩, by simp [Turnstile.renewed], rfl, rfl⟩, hsize⟩
      · exact hold hlookup
  | trim hpc => exact hold (Table.lookup_retain_eq_some_iff.1 hk).1
  | _ => exact hold hk

theorem taken_step {s s' : Turnstile} {e : Event} (hs : Inv s) (hstep : s.step e = some s')
    (v : Nat) (c : Caller) (t : Tenant) (k : Nat) (hv : s'.visitors[v]? = some c)
    (hc : c.semaphore = some (t, k)) : s'.Issued k t.name t.maxConns := by
  rcases semaphore_of_step hstep hv hc with ⟨b, hb, hsem⟩ | ⟨S, session, -, hkept⟩
  · exact issued_step (hs.taken v b t k hb hsem) hstep
  · exact (budgets_step hs hstep _ _ _ hkept).1

/-- A visitor that neither takes a permit nor gives one back. -/
theorem holders_set_of_eq {s : Turnstile} {v : Nat} {c : Caller} (c' : Caller)
    (hpc : s.visitors[v]? = some c) (heq : ∀ k, c'.holds k = c.holds k) (k : Nat) :
    (s.visitors.set v c').countP (Caller.holds k) = s.holders k :=
  countP_set_of_eq hpc (heq k)

/-- A semaphore that has just been made is held by nobody. -/
theorem Inv.holders_fresh {s : Turnstile} (hs : Inv s) : s.holders s.semaphores.length = 0 := by
  refine List.countP_eq_zero.2 fun c hmem hc => ?_
  obtain ⟨v, hv⟩ := List.getElem?_of_mem hmem
  obtain ⟨t, ht⟩ := Caller.semaphore_of_holds hc
  obtain ⟨sem, hsem, -⟩ := hs.taken v c t _ hv ht
  simp at hsem

/-- A permit that leaves a semaphore goes to a relay, and comes back from one. -/
theorem permits_move {s : Turnstile} {v k : Nat} {c c' : Caller} {sem : Semaphore} {permits : Nat}
    (hs : Inv s) (hpc : s.visitors[v]? = some c) (hsem : s.semaphores[k]? = some sem)
    (hk : permits + (c'.holds k).toNat = sem.permits + (c.holds k).toNat)
    (hother : ∀ j, j ≠ k → c'.holds j = c.holds j) (j : Nat) (sem' : Semaphore)
    (hj : (s.semaphores.set k { sem with permits := permits })[j]? = some sem') :
    sem'.permits + (s.visitors.set v c').countP (Caller.holds j) = sem'.capacity := by
  rcases getElem?_set_eq_some hj with ⟨rfl, rfl⟩ | ⟨hne, hj⟩
  · have hcount := countP_set_add (Caller.holds j) c' hpc
    have hold := hs.permits j sem hsem
    rw [holders] at hold
    show permits + (s.visitors.set v c').countP (Caller.holds j) = sem.capacity
    omega
  · rw [countP_set_of_eq hpc (hother j hne)]
    exact hs.permits j sem' hj

theorem permits_step {s s' : Turnstile} {e : Event} (hs : Inv s) (hstep : s.step e = some s')
    (k : Nat) (sem : Semaphore) (hk : s'.semaphores[k]? = some sem) :
    sem.permits + s'.holders k = sem.capacity := by
  have hset : ∀ {w : Nat} {b b' : Caller}, s.semaphores[k]? = some sem → s.visitors[w]? = some b →
      (∀ j, b'.holds j = b.holds j) →
        sem.permits + (s.visitors.set w b').countP (Caller.holds k) = sem.capacity := by
    intro w b b' hk hw hb
    rw [holders_set_of_eq _ hw hb]
    exact hs.permits k sem hk
  have happend : ∀ {b : Caller}, s.semaphores[k]? = some sem → b.holds k = false →
      sem.permits + (s.visitors ++ [b]).countP (Caller.holds k) = sem.capacity := by
    intro b hk hb
    rw [List.countP_append, List.countP_singleton, hb]
    exact hs.permits k sem hk
  cases moves_of_step hstep with
  | hub hh =>
      simp only [holders, hubStep_visitors, hubStep_semaphores] at hk ⊢
      exact hs.permits k sem hk
  | consult ht => exact happend hk rfl
  | unknown ht => exact happend hk rfl
  | lookup hpc hsession => exact hset hk hpc fun _ => rfl
  | offline hpc hsession => exact hset hk hpc fun _ => rfl
  | kept hpc hkept => exact hset hk hpc fun _ => rfl
  | @renewed w S t session hpc hnot hsize =>
      rcases getElem?_concat_eq_some hk with hk | ⟨rfl, rfl⟩
      · exact hset hk hpc fun _ => rfl
      -- The fresh semaphore has all its permits, and the visitor that made it holds none yet.
      · have hcount := holders_set_of_eq (.taken S t session s.semaphores.length) hpc
          (fun _ => rfl) s.semaphores.length
        rw [hs.holders_fresh] at hcount
        show t.maxConns + (s.visitors.set w _).countP _ = t.maxConns
        rw [hcount, Nat.add_zero]
  | panicked hpc hnot hsize => exact hset hk hpc fun _ => rfl
  | @acquire w S t session j sem' hpc hsem hfree =>
      refine permits_move hs hpc hsem ?_ (fun i hne => ?_) k sem hk
      · simp only [Caller.holds, decide_true, Bool.toNat_true, Bool.toNat_false]
        omega
      · simp [Caller.holds, hne.symm]
  | atLimit hpc hsem hfree => exact hset hk hpc fun _ => rfl
  | @leave w S t session j sem' hpc hsem =>
      refine permits_move hs hpc hsem ?_ (fun i hne => ?_) k sem hk
      · simp [Caller.holds]
      · simp [Caller.holds, hne.symm]
  | trim hpc => exact hs.permits k sem hk

theorem inv_step {s s' : Turnstile} {e : Event} (hs : Inv s) (hstep : s.step e = some s') :
    Inv s' where
  routed := routed_step hs hstep
  budgets := budgets_step hs hstep
  taken := taken_step hs hstep
  permits := permits_step hs hstep

theorem inv_run {set : TenantSet} {es : List Event} {s : Turnstile}
    (hrun : machine.run (initial set) es = some s) : Inv s :=
  machine.run_invariant Inv inv_step (inv_initial set) hrun

/-! ## Snapshots in use -/

/-- The snapshot gives the tenant with this name the limit `m`. -/
def Limits (name : String) (m : Nat) (S : TenantSet) : Prop :=
  ∃ t, S.tenant name = some t ∧ t.maxConns = m

/-- Every snapshot that is published, held by an `apply` in progress, or held by a visitor's handler that
has yet to take a semaphore, gives the tenant the limit `m`. -/
structure Steady (name : String) (m : Nat) (s : Turnstile) : Prop where
  set : Limits name m s.hub.set
  published : ∀ a next, s.hub.applies a = .published next → Limits name m next
  trims : ∀ a next, s.trims a = some next → Limits name m next
  visitors : ∀ (v : Nat) (c : Caller) (S : TenantSet) (t : Tenant), s.visitors[v]? = some c →
    c.routing = some (S, t) → Limits name m S

/-- The visitor has taken a semaphore out of the map and still uses it. -/
def HasTaken (s : Turnstile) (v : Nat) : Prop :=
  ∃ c, s.visitors[v]? = some c ∧ c.semaphore ≠ none

/-- Who has taken a semaphore out of the map for this tenant, the `old` ones apart, has the one that is
in the map. -/
def Current (old : Nat → Prop) (name : String) (m : Nat) (s : Turnstile) : Prop :=
  ∀ (v : Nat) (c : Caller) (t : Tenant) (k : Nat), s.visitors[v]? = some c →
    c.semaphore = some (t, k) → t.name = name → ¬old v → s.budgets.lookup name = some (m, k)

theorem current_step {old : Nat → Prop} {name : String} {m : Nat} {s s' : Turnstile} {e : Event}
    (hs : Inv s) (hcurrent : Current old name m s) (hsteady : Steady name m s)
    (hstep : s.step e = some s') : Current old name m s' := by
  intro v c t k hv hc hname hnew
  -- The limit of a visitor about to take one is the one its snapshot gives.
  have hlimit : ∀ {w : Nat} {S : TenantSet} {u : Tenant} {session : Session},
      s.visitors[w]? = some (.found S u session) → u.name = name → u.maxConns = m := by
    intro w S u session hw hu
    obtain ⟨u', hu', hm⟩ := hsteady.visitors w _ S u hw rfl
    have hrouted := hs.routed w _ S u hw rfl
    rw [hu, hu'] at hrouted
    rw [← Option.some.inj hrouted, hm]
  rcases semaphore_of_step hstep hv hc with ⟨b, hb, hsem⟩ | ⟨S, session, hfound, hkept⟩
  · have hold := hcurrent v b t k hb hsem hname hnew
    cases moves_of_step hstep with
    | hub hh => simpa using hold
    | @renewed w S u session hpc hnot hsize =>
        by_cases hu : u.name = name
        -- A budget of the present limit would have been kept.
        · refine absurd ?_ (hnot k)
          rw [Kept, hu, hlimit hpc hu]
          exact hold
        · show (s.budgets.insert u.name (u.maxConns, s.semaphores.length)).lookup name = _
          rw [AList.lookup_insert_ne (fun heq => hu heq.symm), hold]
    | @trim a next hpc =>
        -- Every snapshot in use has the tenant, so its budget is not trimmed.
        obtain ⟨u, hu, -⟩ := hsteady.trims a next hpc
        refine Table.lookup_retain_eq_some_iff.2 ⟨hold, ?_⟩
        rw [hu]
        rfl
    | _ => exact hold
  · rw [← hlimit hfound hname, ← hname]
    exact hkept

/-- If all open relays of a tenant have their permits from the semaphore in the map, they are no more
than its capacity. -/
theorem relays_le {old : Nat → Prop} {name : String} {m : Nat} {s : Turnstile} (hs : Inv s)
    (hcurrent : Current old name m s)
    (hopen : ∀ v c, s.visitors[v]? = some c → c.relays name = true → ¬old v) :
    s.relays name ≤ m := by
  by_cases hnone : s.relays name = 0
  · omega
  · obtain ⟨c, hmem, hc⟩ := List.countP_pos_iff.1 (Nat.pos_of_ne_zero hnone)
    obtain ⟨v, hv⟩ := List.getElem?_of_mem hmem
    obtain ⟨t, k, hname, hsem, -⟩ := Caller.holds_of_relays hc
    have hlookup := hcurrent v c t k hv hsem hname (hopen v c hv hc)
    obtain ⟨⟨sem, hk, -, hcapacity⟩, -⟩ := hs.budgets name m k hlookup
    have hpermits := hs.permits k sem hk
    -- One of them holds a permit of semaphore `k`; so do the others, since `Current` names one.
    have hle : s.relays name ≤ s.holders k := by
      refine List.countP_mono_left fun d hd hrelays => ?_
      obtain ⟨w, hw⟩ := List.getElem?_of_mem hd
      obtain ⟨u, j, hu, hj, hholds⟩ := Caller.holds_of_relays hrelays
      have hsame := hcurrent w d u j hw hj hu (hopen w d hw hrelays)
      rw [hlookup] at hsame
      obtain ⟨-, rfl⟩ := Prod.mk.inj (Option.some.inj hsame)
      exact hholds
    omega

/-- What holds of the permits in every state, whatever the limits do. -/
structure Sound (s : Turnstile) : Prop where
  /-- Every permit is free or held by one relay. -/
  held : ∀ k sem, s.semaphores[k]? = some sem → sem.permits + s.holders k = sem.capacity
  /-- A semaphore gets a permit back when a relay that holds one ends, and only then. -/
  returned : ∀ e s' k sem sem', s.step e = some s' → s.semaphores[k]? = some sem →
    s'.semaphores[k]? = some sem' →
      (sem.permits < sem'.permits ↔
        ∃ v c, e = .leave v ∧ s.visitors[v]? = some c ∧ c.holds k = true)
  /-- Who is refused for the limit finds that many relays of the tenant open. -/
  refused : ∀ v c t k s', s.visitors[v]? = some c → c.semaphore = some (t, k) →
    s.step (.acquire v) = some s' →
      s'.visitors[v]? = some (.refused (.atLimit t.name t.maxConns)) →
        t.maxConns ≤ s.relays t.name
  /-- Visitors with one semaphore are visitors of one tenant. -/
  own : ∀ (v w : Nat) (c d : Caller) (t u : Tenant) (k : Nat), s.visitors[v]? = some c →
    s.visitors[w]? = some d → c.semaphore = some (t, k) → d.semaphore = some (u, k) →
      t.name = u.name

theorem Inv.own {s : Turnstile} (hs : Inv s) {v w : Nat} {c d : Caller} {t u : Tenant} {k : Nat}
    (hv : s.visitors[v]? = some c) (hw : s.visitors[w]? = some d)
    (hc : c.semaphore = some (t, k)) (hd : d.semaphore = some (u, k)) : t.name = u.name := by
  obtain ⟨sem, hsem, howner, -⟩ := hs.taken v c t k hv hc
  obtain ⟨sem', hsem', howner', -⟩ := hs.taken w d u k hw hd
  rw [hsem] at hsem'
  obtain rfl := Option.some.inj hsem'
  rw [← howner, howner']

/-- The relays that hold permits of a semaphore are relays of the tenant it was made for. -/
theorem Inv.holders_le_relays {s : Turnstile} (hs : Inv s) {v : Nat} {c : Caller} {t : Tenant}
    {k : Nat} (hv : s.visitors[v]? = some c) (hc : c.semaphore = some (t, k)) :
    s.holders k ≤ s.relays t.name := by
  refine List.countP_mono_left fun d hd hholds => ?_
  obtain ⟨w, hw⟩ := List.getElem?_of_mem hd
  obtain ⟨u, hu⟩ := Caller.semaphore_of_holds hholds
  have hname := hs.own hw hv hu hc
  cases d with
  | relaying S u' session j =>
      obtain ⟨rfl, rfl⟩ := Prod.mk.inj (Option.some.inj hu)
      simpa [Caller.relays] using hname
  | _ => cases hholds

theorem refused_full {s s' : Turnstile} (hs : Inv s) {v : Nat} {c : Caller} {t : Tenant} {k : Nat}
    (hv : s.visitors[v]? = some c) (hc : c.semaphore = some (t, k))
    (hstep : s.step (.acquire v) = some s')
    (hrefused : s'.visitors[v]? = some (.refused (.atLimit t.name t.maxConns))) :
    t.maxConns ≤ s.relays t.name := by
  have hlt : v < s.visitors.length := (List.getElem?_eq_some_iff.1 hv).1
  cases moves_of_step hstep with
  | @acquire _ S u session j sem hpc hsem hfree =>
      simp [hlt] at hrefused
  | @atLimit _ S u session j sem hpc hsem hfree =>
      rw [hpc] at hv
      obtain rfl := Option.some.inj hv
      obtain ⟨rfl, rfl⟩ := Prod.mk.inj (Option.some.inj hc)
      obtain ⟨sem', hsem', -, hcapacity⟩ := hs.taken v _ u j hpc rfl
      rw [hsem] at hsem'
      obtain rfl := Option.some.inj hsem'
      have hpermits := hs.permits j sem hsem
      have hle := hs.holders_le_relays hpc rfl
      omega

/-- Which semaphore a step changes, and which way. -/
theorem returned_iff {s s' : Turnstile} {e : Event} {k : Nat} {sem sem' : Semaphore}
    (hstep : s.step e = some s') (hk : s.semaphores[k]? = some sem)
    (hk' : s'.semaphores[k]? = some sem') :
    sem.permits < sem'.permits ↔
      ∃ v c, e = .leave v ∧ s.visitors[v]? = some c ∧ c.holds k = true := by
  have hsame : s'.semaphores[k]? = s.semaphores[k]? → (∀ v, e ≠ .leave v) →
      (sem.permits < sem'.permits ↔
        ∃ v c, e = .leave v ∧ s.visitors[v]? = some c ∧ c.holds k = true) := by
    intro heq hne
    rw [hk', hk] at heq
    obtain rfl := Option.some.inj heq
    exact ⟨fun hlt => absurd hlt (Nat.lt_irrefl _), fun ⟨v, _, he, _⟩ => absurd he (hne v)⟩
  cases moves_of_step hstep with
  | hub hh => exact hsame (by simp) (by simp)
  | renewed hpc hnot hsize =>
      refine hsame ?_ (by simp)
      exact List.getElem?_append_left (List.getElem?_eq_some_iff.1 hk).1
  | @acquire v S t session j semj hpc hsem hfree =>
      rcases getElem?_set_eq_some hk' with ⟨rfl, rfl⟩ | ⟨hne, hold⟩
      · rw [hsem] at hk
        obtain rfl := Option.some.inj hk
        exact ⟨fun hlt => absurd hlt (by simp), fun ⟨v, _, he, _⟩ => by cases he⟩
      · exact hsame (hk'.trans hold.symm) (by simp)
  | @leave v S t session j semj hpc hsem =>
      rcases getElem?_set_eq_some hk' with ⟨rfl, rfl⟩ | ⟨hne, hold⟩
      · rw [hsem] at hk
        obtain rfl := Option.some.inj hk
        exact ⟨fun _ => ⟨v, _, rfl, hpc, by simp [Caller.holds]⟩, fun _ => Nat.lt_succ_self _⟩
      -- Another semaphore: it is as before, and the relay that ends does not hold a permit of it.
      · rw [hk] at hold
        obtain rfl := Option.some.inj hold
        refine ⟨fun hlt => absurd hlt (Nat.lt_irrefl _), ?_⟩
        rintro ⟨w, c, he, hw, hholds⟩
        obtain rfl := Event.leave.inj he
        rw [hpc] at hw
        obtain rfl := Option.some.inj hw
        exact absurd (by simpa [Caller.holds] using hholds) hne.symm
  | _ => exact hsame rfl (by simp)

theorem sound_run {set : TenantSet} {es : List Event} {s : Turnstile}
    (hrun : machine.run (initial set) es = some s) : s.Sound where
  held := (inv_run hrun).permits
  returned _ _ _ _ _ hstep hk hk' := returned_iff hstep hk hk'
  refused _ _ _ _ _ hv hc hstep hrefused := refused_full (inv_run hrun) hv hc hstep hrefused
  own _ _ _ _ _ _ _ hv hw hc hd := (inv_run hrun).own hv hw hc hd

/-- **A limit that stays is kept.**  In every run the permits are accounted for; and if from a state `r`
on every snapshot in use gives a tenant the limit `m`, then no more than `m` relays of it are open in
any state `s` in which each open one took its semaphore out of the map after `r`. -/
theorem relays_bounded (set : TenantSet) (es : List Event) (r : Turnstile)
    (hr : machine.run (initial set) es = some r) :
    r.Sound ∧ ∀ fs s name m, machine.run r fs = some s →
      (∀ v c, s.visitors[v]? = some c → c.relays name = true → ¬r.HasTaken v) →
        (∀ gs q, gs <+: fs → machine.run r gs = some q → q.Steady name m) →
          s.relays name ≤ m := by
  refine ⟨sound_run hr, fun fs s name m hs hopen hsteady => ?_⟩
  have hmeets : machine.Meets (fun q _ => q.Steady name m) r fs :=
    machine.meets_iff_forall_step.2 fun gs e q hgs hq =>
      hsteady gs q ((List.prefix_append gs [e]).trans hgs) hq
  have hcurrent : Inv s ∧ Current r.HasTaken name m s := by
    refine machine.run_invariant_of_meets (fun q => Inv q ∧ Current r.HasTaken name m q) ?_
      ⟨inv_run hr, ?_⟩ hmeets hs
    · rintro q e q' ⟨hq, hcur⟩ hst hstep
      exact ⟨inv_step hq hstep, current_step hq hcur hst hstep⟩
    · intro v c t k hv hc _ hnew
      exact absurd ⟨c, hv, by simp [hc]⟩ hnew
  exact relays_le hcurrent.1 hcurrent.2 hopen

/-- Nothing but publishing brings a snapshot into use. -/
theorem hub_steady_step {h h' : Hub} {e : Hub.Event} {P : TenantSet → Prop} (hset : P h.set)
    (hpublished : ∀ a next, h.applies a = .published next → P next)
    (hnew : ∀ a next, e = .publish a next → P next) (hstep : h.step e = some h') :
    P h'.set ∧ ∀ a next, h'.applies a = .published next → P next := by
  cases Hub.step_eq_some_iff.1 hstep with
  | @finish i t id hpc =>
      simp only [Hub.setTask_set, Hub.setTask_applies, Hub.removeOwn_set, Hub.removeOwn_applies]
      exact ⟨hset, hpublished⟩
  | @publish a next hpc =>
      refine ⟨hnew a next rfl, fun b next' hb => ?_⟩
      by_cases hab : b = a
      · subst hab
        obtain rfl : next = next' := by simpa using hb
        exact hnew b next rfl
      · exact hpublished b next' (by simpa [hab] using hb)
  | @sweep a next hpc =>
      refine ⟨hset, fun b next' hb => ?_⟩
      by_cases hab : b = a
      · subst hab
        simp at hb
      · exact hpublished b next' (by simpa [hab] using hb)
  | _ => exact ⟨hset, hpublished⟩

theorem hubStep_trims {s : Turnstile} {e : Hub.Event} {h : Hub} {a : Nat} {next : TenantSet}
    (ha : (s.hubStep e h).trims a = some next) :
    s.trims a = some next ∨ s.hub.applies a = .published next := by
  unfold hubStep at ha
  split at ha
  · rename_i b
    split at ha
    · rename_i next' hb
      by_cases hab : a = b
      · subst hab
        obtain rfl : next' = next := by simpa using ha
        exact Or.inr hb
      · exact Or.inl (by simpa [hab] using ha)
    · exact Or.inl ha
  · exact Or.inl ha

theorem hubStep_hub (s : Turnstile) (e : Hub.Event) (h : Hub) : (s.hubStep e h).hub = h := by
  unfold hubStep
  split
  · split <;> rfl
  · rfl

/-- The limit stays as long as no snapshot with another one is published. -/
theorem steady_step {name : String} {m : Nat} {s s' : Turnstile} {e : Event}
    (h : Steady name m s) (hnew : ∀ a next, e = .hub (.publish a next) → Limits name m next)
    (hstep : s.step e = some s') : Steady name m s' := by
  have hvisitors : ∀ (v : Nat) (c : Caller) (S : TenantSet) (t : Tenant),
      s'.visitors[v]? = some c → c.routing = some (S, t) → Limits name m S := by
    intro v c S t hv hc
    rcases routing_of_step hstep hv hc with ⟨b, hb, hrouting⟩ | ⟨rfl, -⟩
    · exact h.visitors v b S t hb hrouting
    · exact h.set
  cases moves_of_step hstep with
  | @hub d h' hh =>
      obtain ⟨hset', hpublished'⟩ := hub_steady_step h.set h.published
        (fun a next hd => hnew a next (congrArg Event.hub hd)) hh
      refine ⟨?_, fun a next ha => ?_, fun a next ha => ?_, hvisitors⟩
      · rw [hubStep_hub]
        exact hset'
      · rw [hubStep_hub] at ha
        exact hpublished' a next ha
      -- The snapshot that is about to trim the budgets is the one that was published.
      · rcases hubStep_trims ha with ha | ha
        · exact h.trims a next ha
        · exact h.published a next ha
  | @trim a next hpc =>
      refine ⟨h.set, h.published, fun b next' hb => ?_, hvisitors⟩
      by_cases hab : b = a
      · subst hab
        simp at hb
      · exact h.trims b next' (by simpa [hab] using hb)
  | _ => exact ⟨h.set, h.published, h.trims, hvisitors⟩

/-- The event publishes no snapshot with another limit. -/
def KeepsLimit (name : String) (m : Nat) (e : Event) : Prop :=
  ∀ a next, e = .hub (.publish a next) → Limits name m next

theorem steady_run {name : String} {m : Nat} {r q : Turnstile} {gs : List Event}
    (h : Steady name m r) (hkeeps : ∀ e ∈ gs, KeepsLimit name m e)
    (hq : machine.run r gs = some q) : Steady name m q :=
  machine.run_invariant_of_meets (C := fun _ e => KeepsLimit name m e) (Steady name m)
    (fun hi hc hstep => steady_step hi hc hstep) h
    (machine.meets_of_forall_mem fun e he _ => hkeeps e he) hq

theorem steady_initial {name : String} {m : Nat} {set : TenantSet} (h : Limits name m set) :
    Steady name m (initial set) where
  set := h
  published a next ha := by cases ha
  trims a next ha := by cases ha
  visitors v c S t hv := by simp [initial] at hv

/-- A tenant that may have one connection. -/
def soloTenant : Tenant := ⟨"a", Noise.Psk.repeated 1, "a.example.com", 1, false⟩

def soloSet : TenantSet := ⟨[soloTenant], [], Tenancy.checkSet_eq_ok_iff.1 (by decide)⟩

theorem limits_soloSet : Limits "a" 1 soloSet := ⟨soloTenant, by decide +kernel, rfl⟩

/-- Its session. -/
def soloSession : List Event :=
  [.hub (.arrive 0 0), .hub (.verify 0 0), .hub (.draw 0), .hub (.register 0)]

/-- A visitor of it. -/
def soloVisitor : List Event := [.consult "a.example.com", .lookup 0, .take 0, .acquire 0]

theorem relays_bounded_solo :
    ∃ s, machine.run (initial soloSet) (soloSession ++ soloVisitor) = some s ∧
      s.Sound ∧ s.relays "a" = 1 ∧ s.relays "a" ≤ 1 := by
  have hend : (machine.run (initial soloSet) (soloSession ++ soloVisitor)).map
      (fun s => s.relays "a") = some 1 := by
    decide +kernel
  have hmid : (machine.run (initial soloSet) soloSession).map Turnstile.visitors = some [] := by
    decide +kernel
  obtain ⟨s, hrun, hrelays⟩ := Option.map_eq_some_iff.1 hend
  obtain ⟨r, hr, hs⟩ := machine.run_append_iff.1 hrun
  rw [hr, Option.map_some, Option.some.injEq] at hmid
  have hkeeps : ∀ e ∈ soloSession ++ soloVisitor, KeepsLimit "a" 1 e := by
    simp [soloSession, soloVisitor, KeepsLimit]
  refine ⟨s, hrun, (relays_bounded soloSet _ s hrun).1, hrelays,
    (relays_bounded soloSet soloSession r hr).2 soloVisitor s "a" 1 hs ?_ ?_⟩
  · rintro v c - - ⟨d, hd, -⟩
    rw [hmid] at hd
    simp at hd
  · intro gs q hgs hq
    refine steady_run (steady_initial limits_soloSet) (fun e he => hkeeps e ?_)
      (machine.run_append_iff.2 ⟨r, hr, hq⟩)
    exact (List.mem_append.1 he).elim (List.mem_append_left _)
      fun he => List.mem_append_right _ (hgs.subset he)

/-- One `apply` revokes the tenant and another one brings it back; the visitor takes its semaphore out of
the map before the first one drops the budget there. -/
def revokedAndBack : List Event :=
  [.hub (.publish 0 TenantSet.empty), .hub (.sweep 0), .hub (.publish 1 soloSet), .hub (.sweep 1),
    .trim 1] ++ soloSession ++ [.consult "a.example.com", .lookup 0, .take 0, .trim 0]

/-- It gets its permit, and a second visitor one of a fresh budget. -/
def bothAcquire : List Event :=
  [.acquire 0, .consult "a.example.com", .lookup 1, .take 1, .acquire 1]

/-- Counted from the moment at which the first open relay got its permit, there can be one too many:
its semaphore may not be the one in the map any more. -/
theorem lost_budget :
    ¬∀ set es fs r s name m, machine.run (initial set) es = some r → machine.run r fs = some s →
      (∀ (v : Nat) (c : Caller), s.visitors[v]? = some c → c.relays name = true →
        ¬∃ d : Caller, r.visitors[v]? = some d ∧ d.relays name = true) →
      (∀ gs q, gs <+: fs → machine.run r gs = some q → q.Steady name m) → s.relays name ≤ m := by
  intro h
  have hend : (machine.run (initial soloSet) (revokedAndBack ++ bothAcquire)).map
      (fun s => s.relays "a") = some 2 := by
    decide +kernel
  have hmid : (machine.run (initial soloSet) revokedAndBack).map
      (fun r => (r.hub.set, r.visitors)) =
        some (soloSet, [.taken soloSet soloTenant ⟨1, soloTenant.psk, 0⟩ 0]) := by
    decide +kernel
  have happlies : (machine.run (initial soloSet) revokedAndBack).map
      (fun r => (r.hub.applies, r.trims)) =
        some (Function.update (Function.update (Function.update (Function.update
            (fun _ => .idle) 0 (.published TenantSet.empty)) 0 .swept) 1 (.published soloSet)) 1
              .swept,
          Function.update (Function.update (Function.update (Function.update (fun _ => none)
            0 (some TenantSet.empty)) 1 (some soloSet)) 1 none) 0 none) := rfl
  obtain ⟨s, hrun, hrelays⟩ := Option.map_eq_some_iff.1 hend
  obtain ⟨r, hr, hs⟩ := machine.run_append_iff.1 hrun
  rw [hr, Option.map_some, Option.some.injEq] at hmid happlies
  obtain ⟨hset, hvisitors⟩ := Prod.mk.inj hmid
  obtain ⟨happ, htrims⟩ := Prod.mk.inj happlies
  have hsteady : Steady "a" 1 r := by
    refine ⟨hset ▸ limits_soloSet, fun a next ha => ?_, fun a next ha => ?_,
      fun v c S t hv hc => ?_⟩
    · rw [happ] at ha
      simp only [Function.update_apply] at ha
      repeat' split at ha
      all_goals cases ha
    · rw [htrims] at ha
      simp only [Function.update_apply] at ha
      repeat' split at ha
      all_goals cases ha
    · rw [hvisitors] at hv
      obtain rfl := List.mem_singleton.1 (List.mem_of_getElem? hv)
      cases hc
  have hkeeps : ∀ e ∈ bothAcquire, KeepsLimit "a" 1 e := by
    simp [bothAcquire, KeepsLimit]
  have hle := h soloSet _ bothAcquire r s "a" 1 hr hs ?_ fun gs q hgs hq =>
    steady_run hsteady (fun e he => hkeeps e (hgs.subset he)) hq
  · rw [hrelays] at hle
    exact absurd hle (by decide)
  · rintro v c - - ⟨d, hd, hrelays⟩
    rw [hvisitors] at hd
    obtain rfl := List.mem_singleton.1 (List.mem_of_getElem? hd)
    cases hrelays

end Turnstile
end Hub
end Erbridge
