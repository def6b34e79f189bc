import Erbridge.Hub.Sessions
import Erbridge.Tenancy.Store

/-!
# Reloads and enrollments: which version of the store is in force

The model of `reload_loop` and `run_enrollment` around the hub.  Both read the store and then call
`apply`; the store is edited meanwhile by `serve-admin` and by the enrollments themselves.  The
versions of the store are numbered in the order in which the edits took place.

* `Server.step` — the hub's events, edits of the store, and the steps of the two kinds of party.
* `NothingOlderInHand` — a condition on a publication: no other party is between its read of an older
  version and the end of its sweep.
* `publications_in_order` — in every run that meets it, versions are published in order, what a
  published and every later version refuses is not admitted again, and a tenant that every later
  version keeps has no session swept.
* `stale_publication` — without it, a reload can publish a version older than an enrollment's.
-/

namespace Erbridge
namespace Hub

open Noise (Psk)
open Tenancy (Tenant EnrollCode Identity TenantSet Call exec)

/-- Who reads the store and applies it. -/
inductive Party
  | reloader
  | enrollment (i : Nat)
deriving DecidableEq

/-- What a party goes on with after its `apply`. -/
inductive Next
  | sleep
  /-- Send the credentials of the tenant created. -/
  | send (t : Tenant)
  | stop
deriving DecidableEq

/-- Where a party is. -/
inductive Pc
  | idle
  /-- The code is burned and the tenant is in the store. -/
  | created (t : Tenant)
  /-- `store.snapshot()` returned version `k`. -/
  | read (k : Nat) (set : TenantSet)
  /-- `apply(hub, set)` is about to publish. -/
  | applying (k : Nat) (set : TenantSet) (next : Next)
  /-- `apply` has published and is about to sweep; `a` is its call in the hub. -/
  | sweeping (k a : Nat) (next : Next)
  | sending (t : Tenant)
  /-- The credentials were not sent: the tenant is to be revoked. -/
  | unsent (t : Tenant)
  | withdrawn
  | done
deriving DecidableEq

/-- Where the party goes on. -/
def Next.pc : Next → Pc
  | .sleep => .idle
  | .send t => .sending t
  | .stop => .done

/-- The version the party holds, from its read of the store to the end of its sweep. -/
def Pc.holds : Pc → Option Nat
  | .read k _ => some k
  | .applying k _ _ => some k
  | .sweeping k _ _ => some k
  | _ => none

/-- The event is a step of an `apply`. -/
def Event.isApply : Event → Bool
  | .publish _ _ => true
  | .sweep _ => true
  | _ => false

end Hub

/-- A multi-tenant `serve`: the hub, the store and the parties that carry the one to the other. -/
structure Server where
  hub : Hub
  /-- Earlier versions of the store, oldest first. -/
  past : List Tenancy.TenantSet
  store : Tenancy.TenantSet
  /-- The versions published so far, latest first. -/
  published : List Nat
  /-- The number of the next `apply` call. -/
  nextApply : Nat
  parties : Hub.Party → Hub.Pc

namespace Server

open Noise (Psk)
open Tenancy (Tenant EnrollCode Identity TenantSet Call exec)
open Hub (Party Pc Next tenantA tenantB setA)

/-- `let initial = store.snapshot()?` is in force when the listeners start. -/
def initial (set : TenantSet) : Server where
  hub := Hub.initial set
  past := []
  store := set
  published := [0]
  nextApply := 0
  parties := fun _ => .idle

inductive Event
  /-- A step of a control connection. -/
  | hub (e : Hub.Event)
  /-- A call of `serve-admin` on the store. -/
  | edit (c : Call)
  /-- `store.snapshot()` of a party, which may fail. -/
  | snapshot (p : Party) (ok : Bool)
  /-- `if *hub.snapshot() != next`. -/
  | compare
  | publish (p : Party)
  | sweep (p : Party)
  /-- `store.redeem` of enrollment `i`, with the name and PSK it drew. -/
  | redeem (i now : Nat) (name : String) (psk : Psk)
  /-- Writing the credentials frame and shutting the stream down, which may fail. -/
  | send (i : Nat) (ok : Bool)
  /-- `store.revoke` of an enrollment whose credentials were not sent. -/
  | withdraw (i : Nat)
deriving DecidableEq

/-- The contents of the store as version `k`. -/
def version (s : Server) (k : Nat) : Option TenantSet := (s.past ++ [s.store])[k]?

/-- The number of the current version. -/
def latest (s : Server) : Nat := s.past.length

/-- An edit that went through makes a new version. -/
def commit (s : Server) (T : TenantSet) : Server :=
  { s with past := s.past ++ [s.store], store := T }

def setParty (s : Server) (p : Party) (k : Pc) : Server :=
  { s with parties := Function.update s.parties p k }

def setHub (s : Server) (h : Hub) : Server := { s with hub := h }

/-- Version `k` is in force now; the next call of `apply` gets another number. -/
def record (s : Server) (k : Nat) : Server :=
  { s with published := k :: s.published, nextApply := s.nextApply + 1 }

def step (s : Server) : Event → Option Server
  | .hub e =>
      -- A connection never publishes: `apply` is called by the parties only.
      if e.isApply then none else (s.hub.step e).map s.setHub
  | .edit c =>
      match exec s.store c with
      | (T, .ok _) => some (s.commit T)
      | (_, .error _) => some s
  | .snapshot p ok =>
      match p, s.parties p with
      | .reloader, .idle =>
          if ok then some (s.setParty p (.read s.latest s.store)) else some s
      | .enrollment _, .created t =>
          if ok then some (s.setParty p (.applying s.latest s.store (.send t)))
          else some (s.setParty p (.sending t))
      | .enrollment _, .withdrawn =>
          if ok then some (s.setParty p (.applying s.latest s.store .stop))
          else some (s.setParty p .done)
      | _, _ => none
  | .compare =>
      match s.parties .reloader with
      | .read k set =>
          if s.hub.set = set then some (s.setParty .reloader .idle)
          else some (s.setParty .reloader (.applying k set .sleep))
      | _ => none
  | .publish p =>
      match s.parties p with
      | .applying k set next =>
          (s.hub.step (.publish s.nextApply set)).map fun h =>
            ((s.setHub h).record k).setParty p (.sweeping k s.nextApply next)
      | _ => none
  | .sweep p =>
      match s.parties p with
      | .sweeping _ a next =>
          (s.hub.step (.sweep a)).map fun h => (s.setHub h).setParty p next.pc
      | _ => none
  | .redeem i now name psk =>
      match s.hub.tasks i, s.parties (.enrollment i) with
      | .enrolling code, .idle =>
          match exec s.store (.redeem code.psk now name psk) with
          | (T, .ok (some t)) => some ((s.commit T).setParty (.enrollment i) (.created t))
          | _ => some (s.setParty (.enrollment i) .done)
      | _, _ => none
  | .send i ok =>
      match s.parties (.enrollment i) with
      | .sending t => some (s.setParty (.enrollment i) (if ok then .done else .unsent t))
      | _ => none
  | .withdraw i =>
      match s.parties (.enrollment i) with
      | .unsent t =>
          match exec s.store (.revoke t.name) with
          | (T, .ok _) => some ((s.commit T).setParty (.enrollment i) .withdrawn)
          | (_, .error _) => some (s.setParty (.enrollment i) .done)
      | _ => none

def machine : Core.Machine Server Event where
  step := step

/-- What each event needs and does. -/
inductive Moves (s : Server) : Event → Server → Prop
  | hub {e : Hub.Event} {h : Hub} (hkind : e.isApply = false) (hstep : s.hub.step e = some h) :
      Moves s (.hub e) (s.setHub h)
  | edit {c : Call} {T : TenantSet} {out : Option Tenant}
      (hexec : exec s.store c = (T, .ok out)) : Moves s (.edit c) (s.commit T)
  | editFails {c : Call} : Moves s (.edit c) s
  | reloadReads (hpc : s.parties .reloader = .idle) :
      Moves s (.snapshot .reloader true) (s.setParty .reloader (.read s.latest s.store))
  | reloadFails (hpc : s.parties .reloader = .idle) : Moves s (.snapshot .reloader false) s
  | createdReads {i : Nat} {t : Tenant} (hpc : s.parties (.enrollment i) = .created t) :
      Moves s (.snapshot (.enrollment i) true)
        (s.setParty (.enrollment i) (.applying s.latest s.store (.send t)))
  | createdFails {i : Nat} {t : Tenant} (hpc : s.parties (.enrollment i) = .created t) :
      Moves s (.snapshot (.enrollment i) false) (s.setParty (.enrollment i) (.sending t))
  | withdrawnReads {i : Nat} (hpc : s.parties (.enrollment i) = .withdrawn) :
      Moves s (.snapshot (.enrollment i) true)
        (s.setParty (.enrollment i) (.applying s.latest s.store .stop))
  | withdrawnFails {i : Nat} (hpc : s.parties (.enrollment i) = .withdrawn) :
      Moves s (.snapshot (.enrollment i) false) (s.setParty (.enrollment i) .done)
  | same {k : Nat} {set : TenantSet} (hpc : s.parties .reloader = .read k set) :
      Moves s .compare (s.setParty .reloader .idle)
  | differs {k : Nat} {set : TenantSet} (hpc : s.parties .reloader = .read k set) :
      Moves s .compare (s.setParty .reloader (.applying k set .sleep))
  | publish {p : Party} {k : Nat} {set : TenantSet} {next : Next} {h : Hub}
      (hpc : s.parties p = .applying k set next)
      (hstep : s.hub.step (.publish s.nextApply set) = some h) :
      Moves s (.publish p)
        (((s.setHub h).record k).setParty p (.sweeping k s.nextApply next))
  | sweep {p : Party} {k a : Nat} {next : Next} {h : Hub} (hpc : s.parties p = .sweeping k a next)
      (hstep : s.hub.step (.sweep a) = some h) :
      Moves s (.sweep p) ((s.setHub h).setParty p next.pc)
  | redeem {i now : Nat} {name : String} {psk : Psk} {code : EnrollCode} {T : TenantSet} {t : Tenant}
      (hcode : s.hub.tasks i = .enrolling code) (hpc : s.parties (.enrollment i) = .idle)
      (hexec : exec s.store (.redeem code.psk now name psk) = (T, .ok (some t))) :
      Moves s (.redeem i now name psk) ((s.commit T).setParty (.enrollment i) (.created t))
  | redeemFails {i now : Nat} {name : String} {psk : Psk} {code : EnrollCode}
      (hcode : s.hub.tasks i = .enrolling code) (hpc : s.parties (.enrollment i) = .idle) :
      Moves s (.redeem i now name psk) (s.setParty (.enrollment i) .done)
  | send {i : Nat} {ok : Bool} {t : Tenant} (hpc : s.parties (.enrollment i) = .sending t) :
      Moves s (.send i ok) (s.setParty (.enrollment i) (if ok then .done else .unsent t))
  | withdraw {i : Nat} {t : Tenant} {T : TenantSet} {out : Option Tenant}
      (hpc : s.parties (.enrollment i) = .unsent t)
      (hexec : exec s.store (.revoke t.name) = (T, .ok out)) :
      Moves s (.withdraw i) ((s.commit T).setParty (.enrollment i) .withdrawn)
  | withdrawFails {i : Nat} {t : Tenant} (hpc : s.parties (.enrollment i) = .unsent t) :
      Moves s (.withdraw i) (s.setParty (.enrollment i) .done)

theorem moves_of_step {s s' : Server} {e : Event} (hstep : s.step e = some s') : Moves s e s' := by
  cases e with
  | hub e =>
      simp only [step] at hstep
      split at hstep
      · cases hstep
      · rename_i hkind
        obtain ⟨h, hh, rfl⟩ := Option.map_eq_some_iff.1 hstep
        exact .hub (by simpa using hkind) hh
  | edit c =>
      simp only [step] at hstep
      split at hstep
      · rename_i T out hexec
        cases hstep
        exact .edit hexec
      · cases hstep
        exact .editFails
  | snapshot p ok =>
      simp only [step] at hstep
      split at hstep
      · rename_i hpc
        cases ok with
        | true =>
            cases hstep
            exact .reloadReads hpc
        | false =>
            cases hstep
            exact .reloadFails hpc
      · rename_i i t hpc
        cases ok with
        | true =>
            cases hstep
            exact .createdReads hpc
        | false =>
            cases hstep
            exact .createdFails hpc
      · rename_i i hpc
        cases ok with
        | true =>
            cases hstep
            exact .withdrawnReads hpc
        | false =>
            cases hstep
            exact .withdrawnFails hpc
      · cases hstep
  | compare =>
      simp only [step] at hstep
      split at hstep
      · rename_i k set hpc
        split at hstep
        · cases hstep
          exact .same hpc
        · cases hstep
          exact .differs hpc
      · cases hstep
  | publish p =>
      simp only [step] at hstep
      split at hstep
      · rename_i k set next hpc
        obtain ⟨h, hh, rfl⟩ := Option.map_eq_some_iff.1 hstep
        exact .publish hpc hh
      · cases hstep
  | sweep p =>
      simp only [step] at hstep
      split at hstep
      · rename_i k a next hpc
        obtain ⟨h, hh, rfl⟩ := Option.map_eq_some_iff.1 hstep
        exact .sweep hpc hh
      · cases hstep
  | redeem i now name psk =>
      simp only [step] at hstep
      split at hstep
      · rename_i code hcode hpc
        split at hstep
        · rename_i T t hexec
          cases hstep
          exact .redeem hcode hpc hexec
        · cases hstep
          exact .redeemFails hcode hpc
      · cases hstep
  | send i ok =>
      simp only [step] at hstep
      split at hstep
      · rename_i t hpc
        cases hstep
        exact .send hpc
      · cases hstep
  | withdraw i =>
      simp only [step] at hstep
      split at hstep
      · rename_i t hpc
        split at hstep
        · rename_i T out hexec
          cases hstep
          exact .withdraw hpc hexec
        · cases hstep
          exact .withdrawFails hpc
      · cases hstep

/-- Whatever the parties do, the hub takes hub steps only. -/
theorem hub_step {s s' : Server} {e : Event} (hstep : s.step e = some s') :
    ∃ ds, Hub.machine.run s.hub ds = some s'.hub := by
  cases moves_of_step hstep with
  | @hub e h hkind hh => exact ⟨[e], Hub.machine.run_cons_iff.2 ⟨h, hh, rfl⟩⟩
  | @publish p k set next h hpc hh =>
      exact ⟨[.publish s.nextApply set], Hub.machine.run_cons_iff.2 ⟨h, hh, rfl⟩⟩
  | @sweep p k a next h hpc hh =>
      exact ⟨[.sweep a], Hub.machine.run_cons_iff.2 ⟨h, hh, rfl⟩⟩
  | _ => exact ⟨[], rfl⟩

theorem hub_inv_run {set : TenantSet} {es : List Event} {s : Server}
    (hrun : machine.run (initial set) es = some s) : Hub.Inv s.hub := by
  obtain ⟨ds, hds⟩ := machine.run_of_simulation Server.hub hub_step hrun
  exact Hub.inv_run hds

/-! ## Every version held or published is one of the store's -/

section Fields

variable (s : Server) (p : Party) (k : Pc) (T : TenantSet)

@[simp] theorem setParty_hub : (s.setParty p k).hub = s.hub := rfl
@[simp] theorem setParty_published : (s.setParty p k).published = s.published := rfl
@[simp] theorem setParty_parties : (s.setParty p k).parties = Function.update s.parties p k := rfl
@[simp] theorem setParty_version (n : Nat) : (s.setParty p k).version n = s.version n := rfl
@[simp] theorem setParty_latest : (s.setParty p k).latest = s.latest := rfl

@[simp] theorem setHub_hub (h : Hub) : (s.setHub h).hub = h := rfl
@[simp] theorem setHub_published (h : Hub) : (s.setHub h).published = s.published := rfl
@[simp] theorem setHub_parties (h : Hub) : (s.setHub h).parties = s.parties := rfl
@[simp] theorem setHub_version (h : Hub) (n : Nat) : (s.setHub h).version n = s.version n := rfl
@[simp] theorem setHub_latest (h : Hub) : (s.setHub h).latest = s.latest := rfl

@[simp] theorem record_hub (n : Nat) : (s.record n).hub = s.hub := rfl
@[simp] theorem record_published (n : Nat) : (s.record n).published = n :: s.published := rfl
@[simp] theorem record_parties (n : Nat) : (s.record n).parties = s.parties := rfl
@[simp] theorem record_version (m n : Nat) : (s.record m).version n = s.version n := rfl
@[simp] theorem record_latest (n : Nat) : (s.record n).latest = s.latest := rfl

@[simp] theorem commit_hub : (s.commit T).hub = s.hub := rfl
@[simp] theorem commit_published : (s.commit T).published = s.published := rfl
@[simp] theorem commit_parties : (s.commit T).parties = s.parties := rfl

@[simp] theorem commit_latest : (s.commit T).latest = s.latest + 1 := by
  simp [commit, latest]

end Fields

@[simp] theorem version_latest (s : Server) : s.version s.latest = some s.store := by
  simp [version, latest]

theorem le_latest_of_version {s : Server} {n : Nat} {S : TenantSet} (h : s.version n = some S) :
    n ≤ s.latest := by
  obtain ⟨hlt, -⟩ := List.getElem?_eq_some_iff.1 h
  simp only [List.length_append, List.length_singleton] at hlt
  show n ≤ s.past.length
  omega

/-- An edit adds a version and keeps the others. -/
theorem version_commit {s : Server} {n : Nat} {S : TenantSet} (T : TenantSet)
    (h : s.version n = some S) : (s.commit T).version n = some S := by
  obtain ⟨hlt, -⟩ := List.getElem?_eq_some_iff.1 h
  show (s.past ++ [s.store] ++ [T])[n]? = some S
  rw [List.getElem?_append_left hlt]
  exact h

/-- What a party holds is the version it says, and its `apply` in the hub works on it. -/
def Backed (s : Server) : Pc → Prop
  | .read k set => s.version k = some set
  | .applying k set _ => s.version k = some set
  | .sweeping k a _ => s.version k ≠ none ∧ s.hub.applies a ≠ .idle
      ∧ ∀ set, s.hub.applies a = .published set → s.version k = some set
  | _ => True

structure Inv (s : Server) : Prop where
  inForce : ∃ k, s.published.head? = some k ∧ s.version k = some s.hub.set
  bounded : ∀ k ∈ s.published, k ≤ s.latest
  backed : ∀ p, s.Backed (s.parties p)

theorem inv_initial (set : TenantSet) : Inv (initial set) where
  inForce := ⟨0, rfl, rfl⟩
  bounded k hk := by
    obtain rfl := List.mem_singleton.1 hk
    exact Nat.zero_le _
  backed _ := trivial

/-- A call of `apply` that has begun stays as it is until it has swept. -/
theorem applies_of_step {h h' : Hub} {e : Hub.Event} (hstep : h.step e = some h') {a : Nat}
    (hbusy : h.applies a ≠ .idle) : h'.applies a = h.applies a ∨ h'.applies a = .swept := by
  cases Hub.step_eq_some_iff.1 hstep with
  | @publish b next hpc =>
      have hab : a ≠ b := fun heq => hbusy (heq ▸ hpc)
      exact Or.inl (by simp [hab])
  | @sweep b next hpc =>
      by_cases hab : a = b
      · exact Or.inr (by simp [hab])
      · exact Or.inl (by simp [hab])
  | finish hpc => exact Or.inl (by simp)
  | _ => exact Or.inl rfl

/-- Only a publication changes the snapshot. -/
theorem set_of_step {h h' : Hub} {e : Hub.Event} (hstep : h.step e = some h')
    (hkind : ∀ a next, e ≠ .publish a next) : h'.set = h.set := by
  cases Hub.step_eq_some_iff.1 hstep with
  | @publish a next hpc => exact absurd rfl (hkind a next)
  | finish hpc => simp
  | _ => rfl

theorem Backed.setHub {s : Server} {h : Hub} {e : Hub.Event} {k : Pc} (hk : s.Backed k)
    (hstep : s.hub.step e = some h) : (s.setHub h).Backed k := by
  cases k with
  | sweeping n a next =>
      obtain ⟨hver, hbusy, hpub⟩ := hk
      show s.version n ≠ none ∧ h.applies a ≠ .idle
        ∧ ∀ set, h.applies a = .published set → s.version n = some set
      rcases applies_of_step hstep hbusy with hsame | hswept
      · rw [hsame]
        exact ⟨hver, hbusy, hpub⟩
      · rw [hswept]
        exact ⟨hver, by simp, by simp⟩
  | _ => exact hk

theorem Backed.commit {s : Server} {k : Pc} (hk : s.Backed k) (T : TenantSet) :
    (s.commit T).Backed k := by
  cases k with
  | read n set => exact version_commit T hk
  | applying n set next => exact version_commit T hk
  | sweeping n a next =>
      obtain ⟨hver, hbusy, hpub⟩ := hk
      obtain ⟨S, hS⟩ := Option.ne_none_iff_exists'.1 hver
      refine ⟨by simp [version_commit T hS], hbusy, fun set hset => version_commit T (hpub set hset)⟩
  | _ => trivial

theorem Inv.setParty {s : Server} (hi : Inv s) {p : Party} {k : Pc} (hk : s.Backed k) :
    Inv (s.setParty p k) where
  inForce := hi.inForce
  bounded := hi.bounded
  backed q := by
    by_cases hq : q = p
    · subst hq
      show s.Backed (Function.update s.parties q k q)
      simpa using hk
    · show s.Backed (Function.update s.parties p k q)
      simpa [hq] using hi.backed q

theorem Inv.commit {s : Server} (hi : Inv s) (T : TenantSet) : Inv (s.commit T) where
  inForce := by
    obtain ⟨k, hk, hver⟩ := hi.inForce
    exact ⟨k, hk, version_commit T hver⟩
  bounded k hk := by
    have hle := hi.bounded k hk
    simp only [commit_latest]
    omega
  backed p := (hi.backed p).commit T

theorem Inv.setHub {s : Server} (hi : Inv s) {h : Hub} {e : Hub.Event}
    (hstep : s.hub.step e = some h) (hkind : ∀ a next, e ≠ .publish a next) :
    Inv (s.setHub h) where
  inForce := by
    obtain ⟨k, hk, hver⟩ := hi.inForce
    exact ⟨k, hk, by simpa [set_of_step hstep hkind] using hver⟩
  bounded := hi.bounded
  backed p := (hi.backed p).setHub hstep

theorem Inv.publish {s : Server} (hi : Inv s) {h : Hub} {a k : Nat} {set : TenantSet}
    (hver : s.version k = some set) (hstep : s.hub.step (.publish a set) = some h) :
    Inv ((s.setHub h).record k) where
  inForce := by
    cases Hub.step_eq_some_iff.1 hstep with
    | publish hpc => exact ⟨k, rfl, hver⟩
  bounded j hj := by
    rcases List.mem_cons.1 hj with rfl | hj
    · exact le_latest_of_version hver
    · exact hi.bounded j hj
  backed p := (hi.backed p).setHub hstep

theorem inv_step {s s' : Server} {e : Event} (hi : Inv s) (hstep : s.step e = some s') : Inv s' := by
  cases moves_of_step hstep with
  | @hub e h hkind hh =>
      refine hi.setHub hh fun a next heq => ?_
      rw [heq] at hkind
      cases hkind
  | edit hexec => exact hi.commit _
  | editFails => exact hi
  | reloadReads hpc => exact hi.setParty (version_latest s)
  | reloadFails hpc => exact hi
  | createdReads hpc => exact hi.setParty (version_latest s)
  | createdFails hpc => exact hi.setParty trivial
  | withdrawnReads hpc => exact hi.setParty (version_latest s)
  | withdrawnFails hpc => exact hi.setParty trivial
  | same hpc => exact hi.setParty trivial
  | differs hpc =>
      have hread := hi.backed .reloader
      rw [hpc] at hread
      exact hi.setParty hread
  | @publish p k set next h hpc hh =>
      have hver : s.version k = some set := by
        have hback := hi.backed p
        rwa [hpc] at hback
      refine (hi.publish hver hh).setParty ?_
      cases Hub.step_eq_some_iff.1 hh with
      | publish hidle =>
          refine ⟨by simp [hver], by simp, fun set' hset' => ?_⟩
          have heq : set = set' := by simpa using hset'
          exact heq ▸ hver
  | @sweep p k a next h hpc hh =>
      refine (hi.setHub hh (fun b next' => by simp)).setParty ?_
      cases next <;> trivial
  | redeem hcode hpc hexec => exact (hi.commit _).setParty trivial
  | redeemFails hcode hpc => exact hi.setParty trivial
  | @send i ok t hpc => cases ok <;> exact hi.setParty trivial
  | withdraw hpc hexec => exact (hi.commit _).setParty trivial
  | withdrawFails hpc => exact hi.setParty trivial

/-! ## The order of publications -/

/-- At a publication of version `k` no other party holds an older version, from its read of the store
to the end of its sweep. -/
def NothingOlderInHand (s : Server) : Event → Prop
  | .publish p => ∀ k set next, s.parties p = .applying k set next →
      ∀ q, q ≠ p → ∀ j, (s.parties q).holds = some j → k ≤ j
  | _ => True

/-- Publications came in order, and no party holds a version older than one published. -/
structure Ordered (s : Server) : Prop where
  sorted : s.published.Pairwise (fun later earlier => earlier ≤ later)
  ahead : ∀ p k, (s.parties p).holds = some k → ∀ j ∈ s.published, j ≤ k

theorem ordered_initial (set : TenantSet) : Ordered (initial set) where
  sorted := List.pairwise_singleton _ _
  ahead p k hk := by cases hk

/-- A party that moves may take a version only if it is not older than one published. -/
theorem Ordered.setParty {s : Server} (ho : Ordered s) {p : Party} {k : Pc}
    (hk : ∀ n, k.holds = some n → ∀ j ∈ s.published, j ≤ n) : Ordered (s.setParty p k) where
  sorted := ho.sorted
  ahead q n hn := by
    by_cases hq : q = p
    · subst hq
      exact hk n (by simpa using hn)
    · exact ho.ahead q n (by simpa [hq] using hn)

theorem Ordered.commit {s : Server} (ho : Ordered s) (T : TenantSet) : Ordered (s.commit T) where
  sorted := ho.sorted
  ahead := ho.ahead

theorem ordered_step {s s' : Server} {e : Event} (hi : Inv s) (ho : Ordered s)
    (hcond : NothingOlderInHand s e) (hstep : s.step e = some s') : Ordered s' := by
  have hnone : ∀ {k : Pc}, k.holds = none → ∀ n, k.holds = some n → ∀ j ∈ s.published, j ≤ n := by
    intro k hk n hn
    rw [hk] at hn
    cases hn
  -- A fresh read returns the current version, and nothing published is newer.
  have hread : ∀ n, some s.latest = some n → ∀ j ∈ s.published, j ≤ n := by
    intro n hn j hj
    obtain rfl := Option.some.inj hn
    exact hi.bounded j hj
  cases moves_of_step hstep with
  | hub hkind hh => exact ⟨ho.sorted, ho.ahead⟩
  | edit hexec => exact ho.commit _
  | editFails => exact ho
  | reloadReads hpc => exact ho.setParty hread
  | reloadFails hpc => exact ho
  | createdReads hpc => exact ho.setParty hread
  | createdFails hpc => exact ho.setParty (hnone rfl)
  | withdrawnReads hpc => exact ho.setParty hread
  | withdrawnFails hpc => exact ho.setParty (hnone rfl)
  | same hpc => exact ho.setParty (hnone rfl)
  | @differs k set hpc =>
      exact ho.setParty fun n hn => ho.ahead .reloader n (by rw [hpc]; exact hn)
  | @publish p k set next h hpc hh =>
      have hahead : ∀ j ∈ s.published, j ≤ k := ho.ahead p k (by rw [hpc]; rfl)
      refine ⟨List.pairwise_cons.2 ⟨hahead, ho.sorted⟩, fun q n hn j hj => ?_⟩
      by_cases hq : q = p
      · subst hq
        obtain rfl : k = n := by simpa [Pc.holds] using hn
        rcases List.mem_cons.1 hj with rfl | hj
        · exact Nat.le_refl _
        · exact hahead j hj
      · have hold : (s.parties q).holds = some n := by simpa [hq] using hn
        rcases List.mem_cons.1 hj with rfl | hj
        · exact hcond j set next hpc q hq n hold
        · exact ho.ahead q n hold j hj
  | @sweep p k a next h hpc hh =>
      have hquiet : Ordered (s.setHub h) := ⟨ho.sorted, ho.ahead⟩
      refine hquiet.setParty (hnone ?_)
      cases next <;> rfl
  | redeem hcode hpc hexec => exact (ho.commit _).setParty (hnone rfl)
  | redeemFails hcode hpc => exact ho.setParty (hnone rfl)
  | @send i ok t hpc => cases ok <;> exact ho.setParty (hnone rfl)
  | withdraw hpc hexec => exact (ho.commit _).setParty (hnone rfl)
  | withdrawFails hpc => exact ho.setParty (hnone rfl)

theorem inv_ordered_run {set : TenantSet} {es : List Event} {s : Server}
    (hmeets : machine.Meets NothingOlderInHand (initial set) es)
    (hrun : machine.run (initial set) es = some s) : Inv s ∧ Ordered s :=
  machine.run_invariant_of_meets (fun s => Inv s ∧ Ordered s)
    (fun hi hcond hstep => ⟨inv_step hi.1 hstep, ordered_step hi.1 hi.2 hcond hstep⟩)
    ⟨inv_initial set, ordered_initial set⟩ hmeets hrun

/-- What was published stays so. -/
theorem published_step {s s' : Server} {e : Event} (hstep : s.step e = some s') :
    s.published ⊆ s'.published := by
  cases moves_of_step hstep with
  | publish hpc hh => exact List.subset_cons_self _ _
  | _ => exact List.Subset.refl _

theorem published_run {s s' : Server} {es : List Event} (hrun : machine.run s es = some s') :
    s.published ⊆ s'.published :=
  machine.run_invariant (fun t => s.published ⊆ t.published)
    (fun hsub hstep => List.Subset.trans hsub (published_step hstep))
    (List.Subset.refl s.published) hrun

/-- With publications in order, what a published version and all later ones refuse is not in
force. -/
theorem refused_of_ordered {s : Server} (hi : Inv s) (ho : Ordered s) {name : String} {psk : Psk}
    {k : Nat} (hk : k ∈ s.published)
    (hrefused : ∀ j S, k ≤ j → s.version j = some S → S.allows name psk = false) :
    s.hub.set.allows name psk = false := by
  obtain ⟨n, hn, hver⟩ := hi.inForce
  refine hrefused n s.hub.set ?_ hver
  cases hpub : s.published with
  | nil =>
      rw [hpub] at hn
      cases hn
  | cons m rest =>
      rw [hpub] at hn hk
      obtain rfl : m = n := by simpa using hn
      rcases List.mem_cons.1 hk with rfl | hk
      · exact Nat.le_refl _
      · have hsorted := ho.sorted
        rw [hpub] at hsorted
        exact (List.pairwise_cons.1 hsorted).1 k hk

/-- With publications in order, a sweep spares the tenants of every version since a published one. -/
theorem sweep_spares_kept {s s' : Server} (hub : Hub.Inv s.hub) (hi : Inv s) (ho : Ordered s)
    {p : Party} (hstep : s.step (.sweep p) = some s') {i k : Nat} {t : Tenant}
    (ht : (s.hub.tasks i).tenant = some t) (hk : k ∈ s.published)
    (hkept : ∀ j S, k ≤ j → s.version j = some S → S.allows t.name t.psk = true) :
    s'.hub.cancelled i = s.hub.cancelled i := by
  cases moves_of_step hstep with
  | @sweep p n a next h hpc hh =>
      cases Hub.step_eq_some_iff.1 hh with
      | @sweep a S hbusy =>
          have hback := hi.backed p
          rw [hpc] at hback
          have hver : s.version n = some S := hback.2.2 S hbusy
          have hle : k ≤ n := ho.ahead p n (by rw [hpc]; rfl) k hk
          exact Hub.sweep_spares_allowed hub hbusy hh ht (hkept n S hle hver)

/-- What is promised in a state `s'` reached from `s`: versions were published in the order of the
store; what a version published by `s` and every later one refuse is offered to no handshake; and no
sweep cancels a session of a tenant that such a version and every later one keep. -/
structure InOrder (s s' : Server) : Prop where
  sorted : s'.published.Pairwise (fun later earlier => earlier ≤ later)
  refused : ∀ k ∈ s.published, ∀ name psk,
    (∀ j S, k ≤ j → s'.version j = some S → S.allows name psk = false) →
    ∀ now t, Identity.tenant t ∈ (s'.hub.set.candidates now).ids → ¬ (t.name = name ∧ t.psk = psk)
  kept : ∀ k ∈ s.published, ∀ p s'' i t, s'.step (.sweep p) = some s'' →
    (s'.hub.tasks i).tenant = some t →
    (∀ j S, k ≤ j → s'.version j = some S → S.allows t.name t.psk = true) →
    s''.hub.cancelled i = s'.hub.cancelled i

/-- **Publications in order, and what follows from it**, in every run in which no publication happens
while another party holds an older version. -/
theorem publications_in_order (set : TenantSet) (es fs : List Event) (s s' : Server)
    (hmeets : machine.Meets NothingOlderInHand (initial set) (es ++ fs))
    (hrun : machine.run (initial set) es = some s) (hrest : machine.run s fs = some s') :
    InOrder s s' := by
  have hwhole : machine.run (initial set) (es ++ fs) = some s' :=
    machine.run_append_iff.2 ⟨s, hrun, hrest⟩
  obtain ⟨hi, ho⟩ := inv_ordered_run hmeets hwhole
  have hsub := published_run hrest
  refine ⟨ho.sorted, fun k hk name psk hrefused now t ht hsame => ?_,
    fun k hk p s'' i t hstep ht hkept => ?_⟩
  · obtain ⟨rfl, rfl⟩ := hsame
    have hoffered := TenantSet.allows_of_mem_candidates ht
    rw [refused_of_ordered hi ho (hsub hk) hrefused] at hoffered
    cases hoffered
  · exact sweep_spares_kept (hub_inv_run hwhole) hi ho hstep ht (hsub hk) hkept

def Event.isRedeem : Event → Bool
  | .redeem _ _ _ _ => true
  | _ => false

/-- The reload loop alone never has an older version in hand: only enrollments can come between. -/
theorem meets_of_no_redeem {s : Server} {es : List Event}
    (hidle : ∀ i, s.parties (.enrollment i) = .idle) (hes : ∀ e ∈ es, e.isRedeem = false) :
    machine.Meets NothingOlderInHand s es := by
  induction es generalizing s with
  | nil => trivial
  | cons e es ih =>
      refine ⟨?_, fun t ht => ih ?_ fun e' he' => hes e' (List.mem_cons_of_mem _ he')⟩
      · cases e with
        | publish p =>
            intro k set next hp q hq j hj
            cases p with
            | enrollment i =>
                rw [hidle i] at hp
                cases hp
            | reloader =>
                cases q with
                | reloader => exact absurd rfl hq
                | enrollment i =>
                    rw [hidle i] at hj
                    cases hj
        | _ => trivial
      · intro i
        have hhead := hes e List.mem_cons_self
        cases moves_of_step ht with
        | redeem hcode hpc hexec => cases hhead
        | redeemFails hcode hpc => cases hhead
        | @createdReads j t hpc => rw [hidle j] at hpc; cases hpc
        | @createdFails j t hpc => rw [hidle j] at hpc; cases hpc
        | @withdrawnReads j hpc => rw [hidle j] at hpc; cases hpc
        | @withdrawnFails j hpc => rw [hidle j] at hpc; cases hpc
        | @send j ok t hpc => rw [hidle j] at hpc; cases hpc
        | @withdraw j t T out hpc hexec => rw [hidle j] at hpc; cases hpc
        | @withdrawFails j t hpc => rw [hidle j] at hpc; cases hpc
        | @publish p k set next h hpc hh =>
            cases p with
            | enrollment j => rw [hidle j] at hpc; cases hpc
            | reloader => simpa using hidle i
        | @sweep p k a next h hpc hh =>
            cases p with
            | enrollment j => rw [hidle j] at hpc; cases hpc
            | reloader => simpa using hidle i
        | _ => simpa using hidle i

/-- Tenant `b` is added and reloaded. -/
def addedRun : List Event :=
  [.edit (.addTenant tenantB), .snapshot .reloader true, .compare, .publish .reloader,
    .sweep .reloader]

/-- Tenant `b` is revoked and reloaded. -/
def revokedRun : List Event :=
  [.edit (.revoke "b"), .snapshot .reloader true, .compare, .publish .reloader, .sweep .reloader]

theorem publications_in_order_revoked :
    ∃ s s', machine.run (initial setA) (addedRun ++ revokedRun) = some s
      ∧ machine.run s [.snapshot .reloader true] = some s'
      ∧ s'.published = [2, 1, 0] ∧ InOrder s s' := by
  have hpub : (machine.run (initial setA)
      (addedRun ++ revokedRun ++ [.snapshot .reloader true])).map Server.published
        = some [2, 1, 0] := by decide
  obtain ⟨s', hwhole, hlog⟩ := Option.map_eq_some_iff.1 hpub
  obtain ⟨s, hrun, hrest⟩ := machine.run_append_iff.1 hwhole
  refine ⟨s, s', hrun, hrest, hlog, publications_in_order setA _ _ s s' ?_ hrun hrest⟩
  exact meets_of_no_redeem (fun _ => rfl) (by decide)

def codeC : EnrollCode := ⟨Psk.repeated 3, "c.example.com", 4, none⟩

def setAC : TenantSet := ⟨[tenantA], [codeC], Tenancy.checkSet_eq_ok_iff.1 (by decide)⟩

/-- The reload loop reads version 1; an enrollment makes version 2 and publishes it; the reload loop
publishes version 1. -/
def staleRun : List Event :=
  [.edit (.addTenant tenantB), .snapshot .reloader true, .compare,
    .hub (.arrive 0 0), .hub (.verify 0 1), .redeem 0 0 "t-1" (Psk.repeated 9),
    .snapshot (.enrollment 0) true, .publish (.enrollment 0), .sweep (.enrollment 0), .send 0 true,
    .publish .reloader]

/-- **A reload publishes a version older than the one an enrollment published.** -/
theorem stale_publication :
    ¬ ∀ set es fs s s', machine.run (initial set) es = some s → machine.run s fs = some s' →
      InOrder s s' := by
  intro hall
  have hpub : (machine.run (initial setAC) staleRun).map Server.published = some [1, 2, 0] := by
    decide
  obtain ⟨s, hrun, hlog⟩ := Option.map_eq_some_iff.1 hpub
  have hsorted := (hall setAC staleRun [] s s hrun rfl).sorted
  rw [hlog] at hsorted
  exact absurd hsorted (by decide)

end Server
end Erbridge
