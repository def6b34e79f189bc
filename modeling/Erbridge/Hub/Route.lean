import Erbridge.Hub.Sessions

/-!
# Routing visitors to sessions

The model of `handle_sni`: a visitor's host picks a tenant in one snapshot, and the tenant's name
picks a session in the map, at a later moment.  Everything the hub does goes on in between.

* `Front.step` — the hub's events and the visitors' own.
* `Front.Isolated` — a visitor is relayed only over a session that was authenticated with the PSK
  which the snapshot it consulted gives to its tenant.
* `relays_isolated_of_passing` — so it is in every run in which each session looked up passes, against
  that snapshot, the check that `run_session` and `apply` make; `handle_sni` itself does not make it.
* `rotated_before_sweep` — the run in which a visitor reaches the session of the replaced token.
-/

namespace Erbridge
namespace Hub

open Noise (Psk)
open Tenancy (Tenant TenantSet)

/-- Why a visitor's connection is closed without a relay. -/
inductive RouteError
  | noTenantFor (host : String)
  | offline (name : String)
  | atLimit (name : String) (maxConns : Nat)
deriving DecidableEq

def RouteError.message : RouteError → String
  | .noTenantFor host => s!"no tenant for host '{host}'"
  | .offline name => s!"tenant '{name}' is offline"
  | .atLimit name maxConns => s!"tenant '{name}' is at its limit of {maxConns} connections"

/-- Where the handler of a visitor's connection is. -/
inductive Visitor
  | idle
  /-- `snapshot` was consulted for `host` and gave `tenant`. -/
  | routed (snapshot : TenantSet) (host : String) (tenant : Tenant)
  /-- The control of `session` was cloned from the map. -/
  | found (snapshot : TenantSet) (host : String) (tenant : Tenant) (session : Session)
  /-- The connection has its slot and is relayed over `session`. -/
  | relaying (snapshot : TenantSet) (host : String) (tenant : Tenant) (session : Session)
  | refused (e : RouteError)
  | done
deriving DecidableEq

/-- The hub with the visitors of its SNI listener. -/
structure Front where
  hub : Hub
  visitors : Nat → Visitor

namespace Front

def initial (set : TenantSet) : Front where
  hub := Hub.initial set
  visitors := fun _ => .idle

inductive Event
  | hub (e : Hub.Event)
  /-- `peek_sni` gave `host`: `hub.snapshot().tenant_by_sni(&host)`. -/
  | consult (v : Nat) (host : String)
  /-- `lock(&hub.sessions).get(&tenant.name)`. -/
  | lookup (v : Nat)
  /-- `try_acquire` gave a slot or refused one. -/
  | acquire (v : Nat) (granted : Bool)
  | leave (v : Nat)
deriving DecidableEq

def setVisitor (f : Front) (v : Nat) (k : Visitor) : Front :=
  { f with visitors := Function.update f.visitors v k }

@[simp] theorem setVisitor_hub (f : Front) (v : Nat) (k : Visitor) :
    (f.setVisitor v k).hub = f.hub := rfl

@[simp] theorem setVisitor_visitors (f : Front) (v : Nat) (k : Visitor) :
    (f.setVisitor v k).visitors = Function.update f.visitors v k := rfl

def step (f : Front) : Event → Option Front
  | .hub e => (f.hub.step e).map fun h => { f with hub := h }
  | .consult v host =>
      match f.visitors v with
      | .idle =>
          match f.hub.set.tenantBySni host with
          | some t => some (f.setVisitor v (.routed f.hub.set host t))
          | none => some (f.setVisitor v (.refused (.noTenantFor host)))
      | _ => none
  | .lookup v =>
      match f.visitors v with
      | .routed snapshot host t =>
          match f.hub.sessions.lookup t.name with
          | some s => some (f.setVisitor v (.found snapshot host t s))
          | none => some (f.setVisitor v (.refused (.offline t.name)))
      | _ => none
  | .acquire v granted =>
      match f.visitors v with
      | .found snapshot host t s =>
          if granted then some (f.setVisitor v (.relaying snapshot host t s))
          else some (f.setVisitor v (.refused (.atLimit t.name t.maxConns)))
      | _ => none
  | .leave v =>
      match f.visitors v with
      | .relaying _ _ _ _ => some (f.setVisitor v .done)
      | _ => none

def machine : Core.Machine Front Event where
  step := step

/-- What each event needs and does. -/
inductive Moves (f : Front) : Event → Front → Prop
  | hub {e : Hub.Event} {h : Hub} (hstep : f.hub.step e = some h) :
      Moves f (.hub e) { f with hub := h }
  | consult {v : Nat} {host : String} {t : Tenant} (hpc : f.visitors v = .idle)
      (ht : f.hub.set.tenantBySni host = some t) :
      Moves f (.consult v host) (f.setVisitor v (.routed f.hub.set host t))
  | unknown {v : Nat} {host : String} (hpc : f.visitors v = .idle)
      (ht : f.hub.set.tenantBySni host = none) :
      Moves f (.consult v host) (f.setVisitor v (.refused (.noTenantFor host)))
  | lookup {v : Nat} {snapshot : TenantSet} {host : String} {t : Tenant} {s : Session}
      (hpc : f.visitors v = .routed snapshot host t)
      (hs : f.hub.sessions.lookup t.name = some s) :
      Moves f (.lookup v) (f.setVisitor v (.found snapshot host t s))
  | offline {v : Nat} {snapshot : TenantSet} {host : String} {t : Tenant}
      (hpc : f.visitors v = .routed snapshot host t)
      (hs : f.hub.sessions.lookup t.name = none) :
      Moves f (.lookup v) (f.setVisitor v (.refused (.offline t.name)))
  | granted {v : Nat} {snapshot : TenantSet} {host : String} {t : Tenant} {s : Session}
      (hpc : f.visitors v = .found snapshot host t s) :
      Moves f (.acquire v true) (f.setVisitor v (.relaying snapshot host t s))
  | atLimit {v : Nat} {snapshot : TenantSet} {host : String} {t : Tenant} {s : Session}
      (hpc : f.visitors v = .found snapshot host t s) :
      Moves f (.acquire v false) (f.setVisitor v (.refused (.atLimit t.name t.maxConns)))
  | leave {v : Nat} {snapshot : TenantSet} {host : String} {t : Tenant} {s : Session}
      (hpc : f.visitors v = .relaying snapshot host t s) :
      Moves f (.leave v) (f.setVisitor v .done)

theorem moves_of_step {f f' : Front} {e : Event} (hstep : f.step e = some f') : Moves f e f' := by
  cases e with
  | hub e =>
      obtain ⟨h, hh, rfl⟩ := Option.map_eq_some_iff.1 hstep
      exact .hub hh
  | consult v host =>
      simp only [step] at hstep
      split at hstep
      · rename_i hpc
        split at hstep
        · rename_i t ht
          cases hstep
          exact .consult hpc ht
        · rename_i ht
          cases hstep
          exact .unknown hpc ht
      · cases hstep
  | lookup v =>
      simp only [step] at hstep
      split at hstep
      · rename_i snapshot host t hpc
        split at hstep
        · rename_i s hs
          cases hstep
          exact .lookup hpc hs
        · rename_i hs
          cases hstep
          exact .offline hpc hs
      · cases hstep
  | acquire v granted =>
      simp only [step] at hstep
      split at hstep
      · rename_i snapshot host t s hpc
        cases granted with
        | true =>
            cases hstep
            exact .granted hpc
        | false =>
            cases hstep
            exact .atLimit hpc
      · cases hstep
  | leave v =>
      simp only [step] at hstep
      split at hstep
      · rename_i snapshot host t s hpc
        cases hstep
        exact .leave hpc
      · cases hstep

/-- Whatever the visitors do, the hub takes hub steps only. -/
theorem hub_step {f f' : Front} {e : Event} (hstep : f.step e = some f') :
    ∃ ds, Hub.machine.run f.hub ds = some f'.hub := by
  cases moves_of_step hstep with
  | @hub e h hh => exact ⟨[e], Hub.machine.run_cons_iff.2 ⟨h, hh, rfl⟩⟩
  | _ => exact ⟨[], rfl⟩

/-- The hub behind the listener satisfies its invariant. -/
theorem hub_inv_run {set : TenantSet} {es : List Event} {f : Front}
    (hrun : machine.run (initial set) es = some f) : Hub.Inv f.hub := by
  obtain ⟨ds, hds⟩ := machine.run_of_simulation Front.hub hub_step hrun
  exact Hub.inv_run hds

/-! ## Isolation -/

/-- The session was authenticated with exactly the PSK, and under the name, of the tenant. -/
def Authenticated (h : Hub) (t : Tenant) (s : Session) : Prop :=
  ∃ u, (h.tasks s.task).tenant = some u ∧ u.name = t.name ∧ u.psk = t.psk

/-- Every visitor being relayed is relayed over a session that was authenticated with the PSK which
the snapshot it consulted gives to the tenant of its host. -/
def Isolated (f : Front) : Prop :=
  ∀ v snapshot host t s, f.visitors v = .relaying snapshot host t s →
    snapshot.tenantBySni host = some t ∧ Authenticated f.hub t s

/-- At a lookup, the entry found passes the check of `run_session` and `apply` against the snapshot
that the visitor consulted. -/
def EntryPasses (f : Front) : Event → Prop
  | .lookup v => ∀ snapshot host t s, f.visitors v = .routed snapshot host t →
      f.hub.sessions.lookup t.name = some s → snapshot.allows t.name s.psk = true
  | _ => True

/-- The tenant a snapshot routes a host to is the one it has under that name, and enabled. -/
theorem allows_of_tenantBySni {S : TenantSet} {host : String} {t : Tenant}
    (ht : S.tenantBySni host = some t) : S.allows t.name t.psk = true := by
  obtain ⟨hmem, henabled, -⟩ := TenantSet.tenantBySni_eq_some_iff.1 ht
  exact TenantSet.allows_iff.2 ⟨t, TenantSet.tenant_eq_some_iff.2 ⟨hmem, rfl⟩, henabled, rfl⟩

/-- For an entry of the map, passing that check is having the tenant's PSK. -/
theorem authenticated_iff_allows {h : Hub} (hi : Hub.Inv h) {snapshot : TenantSet} {host : String}
    {t : Tenant} {s : Session} (ht : snapshot.tenantBySni host = some t)
    (hs : h.sessions.lookup t.name = some s) :
    Authenticated h t s ↔ snapshot.allows t.name s.psk = true := by
  obtain ⟨u, hu, hname, hpsk⟩ := hi.owned _ _ hs
  have htenant := Task.tenant_of_registration hu
  constructor
  · rintro ⟨w, hw, -, hwpsk⟩
    rw [htenant] at hw
    obtain rfl := Option.some.inj hw
    rw [← hpsk, hwpsk]
    exact allows_of_tenantBySni ht
  · intro hallowed
    exact ⟨u, htenant, hname, hpsk.trans
      (TenantSet.allows_unique hallowed (allows_of_tenantBySni ht))⟩

theorem Authenticated.step {h h' : Hub} {e : Hub.Event} {t : Tenant} {s : Session}
    (ha : Authenticated h t s) (hstep : h.step e = some h') : Authenticated h' t s := by
  obtain ⟨u, hu, hname, hpsk⟩ := ha
  exact ⟨u, Hub.tenant_step hstep hu, hname, hpsk⟩

/-- What is known of a visitor in each of its states. -/
def Holds (h : Hub) : Visitor → Prop
  | .routed snapshot host t => snapshot.tenantBySni host = some t
  | .found snapshot host t s => snapshot.tenantBySni host = some t ∧ Authenticated h t s
  | .relaying snapshot host t s => snapshot.tenantBySni host = some t ∧ Authenticated h t s
  | _ => True

theorem Holds.step {h h' : Hub} {e : Hub.Event} {k : Visitor} (hk : Holds h k)
    (hstep : h.step e = some h') : Holds h' k := by
  cases k with
  | found snapshot host t s => exact ⟨hk.1, hk.2.step hstep⟩
  | relaying snapshot host t s => exact ⟨hk.1, hk.2.step hstep⟩
  | _ => exact hk

/-- What carries isolation along a run. -/
structure Inv (f : Front) : Prop where
  hub : Hub.Inv f.hub
  visitors : ∀ v, Holds f.hub (f.visitors v)

theorem inv_initial (set : TenantSet) : Inv (initial set) where
  hub := Hub.inv_initial set
  visitors _ := trivial

theorem Inv.setVisitor {f : Front} (hi : Inv f) {v : Nat} {k : Visitor} (hk : Holds f.hub k) :
    Inv (f.setVisitor v k) where
  hub := hi.hub
  visitors w := by
    by_cases hw : w = v
    · subst hw
      simpa using hk
    · simpa [hw] using hi.visitors w

theorem inv_step {f f' : Front} {e : Event} (hi : Inv f) (hpasses : EntryPasses f e)
    (hstep : f.step e = some f') : Inv f' := by
  cases moves_of_step hstep with
  | hub hh => exact ⟨Hub.inv_step hi.hub hh, fun v => (hi.visitors v).step hh⟩
  | consult hpc ht => exact hi.setVisitor ht
  | unknown hpc ht => exact hi.setVisitor trivial
  | @lookup v snapshot host t s hpc hs =>
      have ht : snapshot.tenantBySni host = some t := by simpa [hpc, Holds] using hi.visitors v
      exact hi.setVisitor
        ⟨ht, (authenticated_iff_allows hi.hub ht hs).2 (hpasses snapshot host t s hpc hs)⟩
  | offline hpc hs => exact hi.setVisitor trivial
  | @granted v snapshot host t s hpc =>
      have hfound : Holds f.hub (.found snapshot host t s) := hpc ▸ hi.visitors v
      exact hi.setVisitor hfound
  | atLimit hpc => exact hi.setVisitor trivial
  | leave hpc => exact hi.setVisitor trivial

theorem Inv.isolated {f : Front} (hi : Inv f) : Isolated f := by
  intro v snapshot host t s hv
  have hholds := hi.visitors v
  rw [hv] at hholds
  exact hholds

/-- A visitor that has consulted a snapshot holds the tenant it gives, whatever the lookups find. -/
def RoutedBySnapshot (f : Front) : Prop :=
  ∀ v snapshot host t, f.visitors v = .routed snapshot host t →
    snapshot.tenantBySni host = some t

theorem routed_step {f f' : Front} {e : Event} (hi : RoutedBySnapshot f)
    (hstep : f.step e = some f') : RoutedBySnapshot f' := by
  intro v snapshot host t hv
  have hother : ∀ {w : Nat} {k : Visitor}, (∀ S x u, k ≠ .routed S x u) →
      Function.update f.visitors w k v = .routed snapshot host t →
      snapshot.tenantBySni host = some t := by
    intro w k hk hv
    by_cases hw : v = w
    · subst hw
      exact absurd (by simpa using hv) (hk snapshot host t)
    · exact hi v snapshot host t (by simpa [hw] using hv)
  cases moves_of_step hstep with
  | hub hh => exact hi v snapshot host t hv
  | @consult w x u hpc ht =>
      by_cases hw : v = w
      · subst hw
        obtain ⟨rfl, rfl, rfl⟩ : f.hub.set = snapshot ∧ x = host ∧ u = t := by simpa using hv
        exact ht
      · exact hi v snapshot host t (by simpa [hw] using hv)
  | unknown hpc ht => exact hother (by simp) hv
  | lookup hpc hs => exact hother (by simp) hv
  | offline hpc hs => exact hother (by simp) hv
  | granted hpc => exact hother (by simp) hv
  | atLimit hpc => exact hother (by simp) hv
  | leave hpc => exact hother (by simp) hv

theorem routed_run {set : TenantSet} {es : List Event} {f : Front}
    (hrun : machine.run (initial set) es = some f) : RoutedBySnapshot f := by
  refine machine.run_invariant RoutedBySnapshot routed_step (fun v snapshot host t hv => ?_) hrun
  cases hv

/-- The visitor's view is still in force and the tenant's entry is settled: the snapshot in force
still allows the consulted tenant, its publisher has swept, and the entry's task has made its check
without being cancelled. -/
structure Settled (f : Front) (t : Tenant) (s : Session) : Prop where
  inForce : f.hub.set.allows t.name t.psk = true
  swept : ¬ f.hub.SweepPending
  uncancelled : f.hub.cancelled s.task = false
  checked : (f.hub.tasks s.task).awaitsCheck = false

/-- Outside the windows of a rotation the entry passes. -/
theorem allows_of_settled {f : Front} (hi : Hub.Inv f.hub) {snapshot : TenantSet} {host : String}
    {t : Tenant} {s : Session} (ht : snapshot.tenantBySni host = some t)
    (hs : f.hub.sessions.lookup t.name = some s) (hsettled : f.Settled t s) :
    snapshot.allows t.name s.psk = true := by
  rcases hi.allowed _ _ hs hsettled.uncancelled with hallowed | hsweep | hcheck
  · rw [TenantSet.allows_unique hallowed hsettled.inForce]
    exact allows_of_tenantBySni ht
  · exact absurd hsweep hsettled.swept
  · rw [hsettled.checked] at hcheck
    cases hcheck

/-- **When visitors stay isolated.**  In every run in which each entry looked up passes the check
that `run_session` and `apply` make, against the snapshot the visitor consulted, every relay is over
a session authenticated with the PSK of that snapshot.  A lookup whose entry does not pass hands out
a session of another PSK, so the condition is exact; and every entry passes that is looked up outside
the windows between publish and sweep, register and check, and consult and lookup. -/
theorem relays_isolated_of_passing (set : TenantSet) (es : List Event) (f : Front)
    (hrun : machine.run (initial set) es = some f) :
    (machine.Meets EntryPasses (initial set) es → Isolated f)
      ∧ ∀ v snapshot host t s, f.visitors v = .routed snapshot host t →
          f.hub.sessions.lookup t.name = some s →
          (Authenticated f.hub t s ↔ snapshot.allows t.name s.psk = true)
            ∧ (f.Settled t s → snapshot.allows t.name s.psk = true) := by
  refine ⟨fun hmeets => ?_, fun v snapshot host t s hv hs => ?_⟩
  · exact (machine.run_invariant_of_meets Inv inv_step (inv_initial set) hmeets hrun).isolated
  · have ht := routed_run hrun v snapshot host t hv
    have hi := hub_inv_run hrun
    exact ⟨authenticated_iff_allows hi ht hs, allows_of_settled hi ht hs⟩

/-- Tenant `a` re-created with another token. -/
def setRotated : TenantSet :=
  ⟨[{ tenantA with psk := Psk.repeated 9 }], [], Tenancy.checkSet_eq_ok_iff.1 (by decide)⟩

/-- The client of `a` connects and a visitor comes for it. -/
def quietRun : List Event :=
  [.hub (.arrive 0 0), .hub (.verify 0 0), .hub (.draw 0), .hub (.register 0), .hub (.check 0),
    .hub (.cancelReplaced 0), .consult 0 "A.example.com"]

theorem relays_isolated_of_passing_quiet :
    ∃ f, machine.run (initial setA) (quietRun ++ [.lookup 0, .acquire 0 true]) = some f
      ∧ Isolated f
      ∧ f.visitors 0 = .relaying setA "A.example.com" tenantA ⟨1, tenantA.psk, 0⟩ := by
  have hquiet : (machine.run (initial setA) quietRun).map
      (fun f => (f.visitors 0, f.hub.sessions.lookup "a"))
        = some (.routed setA "A.example.com" tenantA, some ⟨1, tenantA.psk, 0⟩) := by decide
  have hrelayed : (machine.run (initial setA) (quietRun ++ [.lookup 0, .acquire 0 true])).map
      (fun f => f.visitors 0)
        = some (.relaying setA "A.example.com" tenantA ⟨1, tenantA.psk, 0⟩) := by decide
  obtain ⟨f, hrun, hv⟩ := Option.map_eq_some_iff.1 hrelayed
  refine ⟨f, hrun, (relays_isolated_of_passing setA _ f hrun).1 ?_, hv⟩
  refine machine.meets_append_iff.2 ⟨machine.meets_of_forall_mem ?_, fun g hg => ?_⟩
  · intro e he g
    have hnone : ∀ v, Event.lookup v ∉ quietRun := by simp [quietRun]
    cases e with
    | lookup v => exact absurd he (hnone v)
    | _ => trivial
  · rw [hg] at hquiet
    obtain ⟨hrouted, hentry⟩ := Prod.mk.inj (Option.some.inj hquiet)
    refine machine.meets_cons_iff.2 ⟨?_, fun k _ => machine.meets_of_forall_mem ?_⟩
    · intro snapshot host t s hpc hs
      obtain ⟨rfl, -, rfl⟩ : setA = snapshot ∧ "A.example.com" = host ∧ tenantA = t := by
        simpa [hrouted] using hpc
      obtain rfl := Option.some.inj (hentry.symm.trans hs)
      decide
    · intro e he g
      obtain rfl := List.mem_singleton.1 he
      trivial

/-- The token of `a` is rotated while its client is connected; a visitor consults the new snapshot
before the sweep. -/
def rotatedRun : List Event :=
  [.hub (.arrive 0 0), .hub (.verify 0 0), .hub (.draw 0), .hub (.register 0), .hub (.check 0),
    .hub (.cancelReplaced 0), .hub (.publish 0 setRotated), .consult 0 "a.example.com", .lookup 0,
    .acquire 0 true]

/-- **A visitor reaches the session of the replaced token.** -/
theorem rotated_before_sweep :
    ¬ ∀ set es f, machine.run (initial set) es = some f → Isolated f := by
  intro hall
  have hlook : (machine.run (initial setA) rotatedRun).map
      (fun f => (f.visitors 0, (f.hub.tasks 0).tenant))
        = some (.relaying setRotated "a.example.com" { tenantA with psk := Psk.repeated 9 }
            ⟨1, tenantA.psk, 0⟩, some tenantA) := by decide
  obtain ⟨f, hrun, hstate⟩ := Option.map_eq_some_iff.1 hlook
  obtain ⟨hv, htenant⟩ := Prod.mk.inj hstate
  obtain ⟨-, u, hu, -, hpsk⟩ := hall setA rotatedRun f hrun 0 _ _ _ _ hv
  rw [htenant] at hu
  obtain rfl := Option.some.inj hu
  exact absurd (Psk.repeated_injective hpsk) (by decide)

end Front
end Hub
end Erbridge
