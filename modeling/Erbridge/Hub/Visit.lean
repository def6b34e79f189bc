import Erbridge.Core.History
import Erbridge.Hub.Route
import Erbridge.Reverse.Dial
import Erbridge.Sni.Peek

/-!
# A visitor's connection, from its first byte to the target

`handle_sni` as a whole: `peek_sni` reads the hello, the host in it is looked up in the snapshot in force,
the session in the map, a slot is acquired, and `relay` goes on with the connection over a stream of the
session, at the other end of which the client dials its target.  Any number of visitors, control
connections and applies are interleaved; the clients differ in their tunnels.

* `SniPort.step` — the hub, the visitors and the streams as one system.
* `relayed_run` — what `peek_sni` leaves is what a relay starts from.
* `SniPort.ok_step` — a visit refines a call of `peek_sni`, the lookups, and a relay.
* `SniPort.visitors_reach_their_tenant` — to whom the bytes of a visitor go.
-/

namespace Erbridge
namespace Hub

open Erbridge.Core
open Config (ConnectTunnel targetOf)
open Reverse (Relay utf8 resolveName)
open Reverse.Relay (tunnelMachine dialled Faithful)
open Sni (Peek Peeked parseRecord)
open Tenancy (Tenant TenantSet Candidates Identity)

/-! ## The connection -/

/-- Where the connection of a visitor is. -/
inductive Visit
  /-- `peek_sni`, the lookups, and `open_stream`. -/
  | arriving (p : Peek)
  /-- `relay`, for the tunnel of the tenant, over a stream of the session. -/
  | relaying (tenant : Tenant) (session : Session) (r : Relay)
  | dropped

/-- The host in a hello that was read. -/
def hostOf (p : Peek) : Option String :=
  match p.result with
  | some (.ok found) => found.sni
  | _ => none

/-- `relay` gets the connection as `peek_sni` has left it. -/
def relayed (name : String) (buffered : Bytes) (client : Wire) : Relay :=
  ((Relay.incoming buffered).setWire .visitorIn client).beginNaming (utf8 name.toList)

/-- The port for visitors, the hub behind it, and the streams to the clients. -/
structure SniPort where
  front : Front
  visits : Nat → Visit

namespace SniPort

def initial (set : TenantSet) : SniPort where
  front := Front.initial set
  visits := fun _ => .arriving Peek.start

inductive Event
  /-- The hub's own steps: control connections, applies. -/
  | hub (e : Hub.Event)
  /-- A poll of `peek_sni`, its timeout, or a move of the visitor. -/
  | peek (v : Nat) (e : Peek.Event)
  | consult (v : Nat)
  | lookup (v : Nat)
  | acquire (v : Nat) (granted : Bool)
  /-- `control.open_stream()` has returned a stream. -/
  | openStream (v : Nat)
  /-- A step of `relay`, of the client at the other end, of the visitor or of the target. -/
  | stream (v : Nat) (e : Relay.Event)
  | leave (v : Nat)
  /-- The handler returns before the relay: what it was about has failed, or A is shut down. -/
  | drop (v : Nat)

def setVisit (s : SniPort) (v : Nat) (k : Visit) : SniPort :=
  { s with visits := Function.update s.visits v k }

def setFront (s : SniPort) (f : Front) : SniPort := { s with front := f }

/-- One step; `tunnels` are those of the client of each control connection. -/
def step (tunnels : Nat → List ConnectTunnel) (s : SniPort) : Event → Option SniPort
  | .hub e => (s.front.step (.hub e)).map s.setFront
  | .peek v e =>
      match s.visits v with
      | .arriving p => (p.step e).map fun q => s.setVisit v (.arriving q)
      | _ => none
  | .consult v =>
      match s.visits v with
      | .arriving p =>
          match hostOf p with
          | some host => (s.front.step (.consult v host)).map s.setFront
          | none => none
      | _ => none
  | .lookup v =>
      match s.visits v with
      | .arriving _ => (s.front.step (.lookup v)).map s.setFront
      | _ => none
  | .acquire v granted =>
      match s.visits v with
      | .arriving _ => (s.front.step (.acquire v granted)).map s.setFront
      | _ => none
  | .openStream v =>
      match s.visits v with
      | .arriving p =>
          match s.front.visitors v with
          | .relaying _ _ t session =>
              match p.result with
              | some (.ok found) =>
                  some (s.setVisit v (.relaying t session (relayed t.name found.buffered p.wire)))
              | _ => none
          | _ => none
      | _ => none
  | .stream v e =>
      match s.visits v with
      | .relaying t session r =>
          ((tunnelMachine t.name (tunnels session.task)).step r e).map fun q =>
            s.setVisit v (.relaying t session q)
      | _ => none
  | .leave v =>
      match s.visits v with
      | .relaying _ _ r =>
          match r.front with
          | .dropped => (s.front.step (.leave v)).map s.setFront
          | _ => none
      | _ => none
  | .drop v =>
      match s.visits v with
      | .arriving _ => some ((s.setFront ((s.front.step (.leave v)).getD s.front)).setVisit v .dropped)
      | _ => none

def machine (tunnels : Nat → List ConnectTunnel) : Machine SniPort Event where
  step := step tunnels

/-- The snapshot was in force at some moment of the run. -/
def InForce (tunnels : Nat → List ConnectTunnel) (set : TenantSet) (es : List Event) (T : TenantSet) :
    Prop :=
  ∃ fs s, fs <+: es ∧ (machine tunnels).run (initial set) fs = some s ∧ s.front.hub.set = T

variable {tunnels : Nat → List ConnectTunnel} {set : TenantSet} {es : List Event}

theorem InForce.append {T : TenantSet} (h : InForce tunnels set es T) (fs : List Event) :
    InForce tunnels set (es ++ fs) T := by
  obtain ⟨gs, s, hgs, hrun⟩ := h
  exact ⟨gs, s, hgs.trans (List.prefix_append _ _), hrun⟩

end SniPort

/-! ## What a relay starts from -/

/-- To begin with the name touches what leads to the client of the session and to the visitor only. -/
theorem beginNaming_setWire (s : Relay) (name : Bytes) (w : Wire) :
    (s.beginNaming name).setWire .visitorIn w = (s.setWire .visitorIn w).beginNaming name := by
  unfold Relay.beginNaming
  cases Reverse.FrameWrite.start name with
  | failed e =>
      simp only [Relay.dropFront, Relay.close, Relay.setWire, Relay.mk.injEq, true_and, and_true]
      funext k
      by_cases hk : k = .visitorIn
      · subst hk
        simp [Reverse.Loop.dst]
      · simp [Function.update_of_ne hk]
  | header | data | flushing | done => rfl

theorem beginNaming_visitorIn (s : Relay) (name : Bytes) :
    (s.beginNaming name).wire .visitorIn = s.wire .visitorIn := by
  unfold Relay.beginNaming
  cases Reverse.FrameWrite.start name with
  | failed e => simp [Relay.dropFront, Relay.close, Reverse.Loop.dst]
  | header | data | flushing | done => rfl

/-- What `peek_sni` leaves of the connection is what a relay starts from that was given what it has
read, once the visitor has sent the rest. -/
theorem relayed_run (name : String) (tunnel : List ConnectTunnel) {buffered : Bytes} {client : Wire}
    (hread : client.read = buffered) (hwithin : client.taken ≤ client.carried.length) :
    ∃ fs, (tunnelMachine name tunnel).run (Relay.initial (utf8 name.toList) (some buffered)) fs
      = some (relayed name buffered client) := by
  have htaken : client.taken = buffered.length := by
    rw [← hread, Wire.read, List.length_take]
    omega
  have hcarried : buffered ++ client.unread = client.carried := by
    rw [← hread]
    exact client.read_append_unread
  let s := Relay.initial (utf8 name.toList) (some buffered)
  have hstart : s.wire .visitorIn = { carried := buffered, taken := buffered.length, ended := false } :=
    beginNaming_visitorIn _ _
  -- When the visitor has sent the rest, the wire is the client's, but for its end.
  have hpushed : (s.wire .visitorIn).push client.unread = { client with ended := false } := by
    rw [hstart, Wire.push, hcarried, htaken]
  have hsent : (tunnelMachine name tunnel).step s (.visitorSends client.unread)
      = some (s.setWire .visitorIn { client with ended := false }) := by
    rw [← hpushed]
    exact if_neg (by rw [hstart]; simp)
  cases hended : client.ended with
  | false =>
      have hclient : { client with ended := false } = client := by rw [← hended]
      rw [hclient] at hsent
      refine ⟨[.visitorSends client.unread], Machine.run_cons_iff _ |>.2 ⟨_, hsent, ?_⟩⟩
      exact congrArg some (beginNaming_setWire _ _ _)
  | true =>
      have hclosed : (tunnelMachine name tunnel).step
          (s.setWire .visitorIn { client with ended := false }) .visitorCloses
          = some (s.setWire .visitorIn client) := by
        have hclient : { client with ended := true } = client := by rw [← hended]
        refine congrArg some ?_
        simp [Relay.setWire, hclient]
      refine ⟨[.visitorSends client.unread, .visitorCloses],
        Machine.run_cons_iff _ |>.2 ⟨_, hsent, Machine.run_cons_iff _ |>.2 ⟨_, hclosed, ?_⟩⟩⟩
      exact congrArg some (beginNaming_setWire _ _ _)

/-- A relay that was given what was read of the visitor does not read its hello. -/
def Begun (r : Relay) : Prop := ∀ k, r.front ≠ .peeking k

theorem begun_beginNaming (s : Relay) (name : Bytes) :
    Begun (s.beginNaming name) ∧ (s.beginNaming name).replay = s.replay := by
  unfold Relay.beginNaming Begun
  cases Reverse.FrameWrite.start name with
  | failed e => simp [Relay.dropFront, Relay.close]
  | header | data | flushing | done => simp

theorem begun_step {name : Bytes} {resolve : Bytes → Bool} {r q : Relay} {e : Relay.Event}
    (hr : Begun r) (hstep : r.step name resolve e = some q) : Begun q ∧ q.replay = r.replay := by
  have hsame : ∀ {t : Relay}, t.front = r.front → Begun t := fun h k => h ▸ hr k
  cases e with
  | peek a found =>
      simp only [Relay.step] at hstep
      split at hstep
      · rename_i k hk
        exact absurd hk (hr k)
      · cases hstep
  | name | status =>
      simp only [Relay.step] at hstep
      repeat' split at hstep
      all_goals first
        | obtain rfl := Option.some.inj hstep; exact ⟨hsame rfl, rfl⟩
        | obtain rfl := Option.some.inj hstep; exact ⟨by simp [Begun, Relay.dropFront], rfl⟩
        | cases hstep
  | finishFront =>
      simp only [Relay.step] at hstep
      repeat' split at hstep
      all_goals first
        | obtain rfl := Option.some.inj hstep; exact ⟨by simp [Begun, Relay.dropFront], rfl⟩
        | cases hstep
  | cancelFront =>
      obtain rfl := Option.some.inj hstep
      exact ⟨by simp [Begun, Relay.dropFront], rfl⟩
  | header | dial | answer | read | write | visitorSends | visitorCloses | targetSends | targetCloses
  | finishInbound | cancelInbound =>
      simp only [Relay.step] at hstep
      repeat' split at hstep
      all_goals first
        | obtain rfl := Option.some.inj hstep; exact ⟨hsame rfl, rfl⟩
        | cases hstep

theorem replay_run {name : String} {tunnel : List ConnectTunnel} {buffered : Bytes}
    {fs : List Relay.Event} {r : Relay}
    (hrun : (tunnelMachine name tunnel).run (Relay.initial (utf8 name.toList) (some buffered)) fs
      = some r) : r.replay = buffered := by
  have hbegun : Begun r ∧ r.replay = buffered := by
    apply (tunnelMachine name tunnel).run_invariant (fun r => Begun r ∧ r.replay = buffered) _ _ hrun
    · rintro s e t ⟨hs, hreplay⟩ hstep
      obtain ⟨ht, hkept⟩ := begun_step hs hstep
      exact ⟨ht, hkept.trans hreplay⟩
    · exact begun_beginNaming _ _
  exact hbegun.2

/-! ## Where a tenant comes from -/

/-- A snapshot in `P` has the tenant, enabled. -/
def Offered (P : TenantSet → Prop) (u : Tenant) : Prop :=
  ∃ T, P T ∧ u ∈ T.tenants ∧ u.disabled = false

/-- The candidates of a control connection, or the tenant it has authenticated as, are of a snapshot in
`P`. -/
def TaskFrom (P : TenantSet → Prop) : Task → Prop
  | .handshaking candidates => ∃ T now, P T ∧ candidates = T.candidates now
  | k => ∀ u, k.tenant = some u → Offered P u

variable {P Q : TenantSet → Prop}

theorem Offered.mono (hPQ : ∀ T, P T → Q T) {u : Tenant} (h : Offered P u) : Offered Q u := by
  obtain ⟨T, hT, hu⟩ := h
  exact ⟨T, hPQ T hT, hu⟩

theorem TaskFrom.mono (hPQ : ∀ T, P T → Q T) {k : Task} (h : TaskFrom P k) : TaskFrom Q k := by
  cases k with
  | handshaking candidates =>
      obtain ⟨T, now, hT, hfrom⟩ := h
      exact ⟨T, now, hPQ T hT, hfrom⟩
  | idle | enrolling | connected | numbered | registered | refused | checked | draining | ended =>
      exact fun u hu => (h u hu).mono hPQ

theorem taskFrom_update {h : Hub} (hi : ∀ i, TaskFrom P (h.tasks i)) {j : Nat} {k : Task}
    (hk : TaskFrom P k) (i : Nat) : TaskFrom P (Function.update h.tasks j k i) := by
  by_cases hij : i = j
  · subst hij
    simpa using hk
  · simpa [hij] using hi i

/-- Of the hub's steps, only the arrival of a control connection looks at a snapshot for candidates. -/
theorem taskFrom_step {h h' : Hub} {e : Hub.Event} (hset : P h.set) (hi : ∀ i, TaskFrom P (h.tasks i))
    (hstep : h.step e = some h') : ∀ i, TaskFrom P (h'.tasks i) := by
  -- A task that goes on keeps its tenant.
  have hkept : ∀ {j : Nat} {before k : Task} {t : Tenant}, h.tasks j = before →
      before.tenant = some t → k.tenant = some t → (∀ c, k ≠ .handshaking c) → TaskFrom P k := by
    intro j before k t hpc ht hk hnot
    have hfrom := hi j
    have hoffered : Offered P t := by
      cases before with
      | handshaking c => cases ht
      | idle | enrolling | connected | numbered | registered | refused | checked | draining | ended =>
          rw [hpc] at hfrom
          exact hfrom t ht
    cases k with
    | handshaking c => exact absurd rfl (hnot c)
    | idle | enrolling | connected | numbered | registered | refused | checked | draining | ended =>
        intro u hu
        rw [hk] at hu
        obtain rfl := Option.some.inj hu
        exact hoffered
  cases step_eq_some_iff.1 hstep with
  | arrive hpc => exact taskFrom_update hi ⟨_, _, hset, rfl⟩
  | @verifyTenant i index candidates t hpc hid =>
      have hfrom := hi i
      rw [hpc] at hfrom
      obtain ⟨T, now, hT, rfl⟩ := hfrom
      refine taskFrom_update hi fun u hu => ?_
      obtain rfl := Option.some.inj hu
      exact ⟨T, hT, TenantSet.mem_candidates_iff.1 (List.mem_of_getElem? hid)⟩
  | verifyCode hpc hid => exact taskFrom_update hi fun u hu => (by cases hu)
  | handshakeFails hpc => exact taskFrom_update hi fun u hu => (by cases hu)
  | draw hpc | register hpc | checkPasses hpc | checkFails hpc | cancelSelf hpc | cancelReplaced hpc =>
      exact taskFrom_update hi (hkept hpc rfl rfl (by simp))
  | finish hpc =>
      simp only [setTask_tasks, removeOwn_tasks]
      exact taskFrom_update hi (hkept hpc rfl rfl (by simp))
  | publish hpc => exact hi
  | sweep hpc => exact hi

namespace SniPort

/-! ## What holds along a run -/

/-- The session is of a client that has authenticated under the tenant's name, as a tenant that a
snapshot in `P` has. -/
def Behind (P : TenantSet → Prop) (h : Hub) (t : Tenant) (session : Session) : Prop :=
  ∃ u, (h.tasks session.task).tenant = some u ∧ u.name = t.name ∧ u.psk = session.psk ∧ Offered P u

/-- A snapshot in `P` routes the host to the tenant. -/
def RoutedTo (P : TenantSet → Prop) (host : String) (t : Tenant) : Prop :=
  ∃ S, P S ∧ S.tenantBySni host = some t

/-- What the lookups have found is what they were to look for. -/
def RouteOk (P : TenantSet → Prop) (h : Hub) (host : Option String) : Visitor → Prop
  | .routed S x t => host = some x ∧ P S ∧ S.tenantBySni x = some t
  | .found S x t session | .relaying S x t session =>
      host = some x ∧ P S ∧ S.tenantBySni x = some t ∧ Behind P h t session
  | .idle | .refused _ | .done => True

/-- The relay is one of its own, begun with what a call of `peek_sni` has read. -/
structure Continues (P : TenantSet → Prop) (tunnel : List ConnectTunnel) (t : Tenant) (r : Relay) :
    Prop where
  run : ∃ ps p found host fs, Peek.machine.run Peek.start ps = some p
    ∧ p.result = some (.ok found) ∧ found.sni = some host ∧ RoutedTo P host t
    ∧ (tunnelMachine t.name tunnel).run (Relay.initial (utf8 t.name.toList) (some found.buffered)) fs
      = some r

def VisitOk (P : TenantSet → Prop) (tunnels : Nat → List ConnectTunnel) (h : Hub) (k : Visitor) :
    Visit → Prop
  | .arriving p => (∃ ps, Peek.machine.run Peek.start ps = some p) ∧ RouteOk P h (hostOf p) k
  | .relaying t session r => Continues P (tunnels session.task) t r ∧ Behind P h t session
  | .dropped => True

structure Ok (P : TenantSet → Prop) (tunnels : Nat → List ConnectTunnel) (s : SniPort) : Prop where
  hub : Hub.Inv s.front.hub
  inForce : P s.front.hub.set
  tasks : ∀ i, TaskFrom P (s.front.hub.tasks i)
  visits : ∀ v, VisitOk P tunnels s.front.hub (s.front.visitors v) (s.visits v)

variable {tunnels : Nat → List ConnectTunnel} {s t : SniPort} {h h' : Hub}

theorem Behind.step {e : Hub.Event} {u : Tenant} {session : Session} (hb : Behind P h u session)
    (hstep : h.step e = some h') : Behind P h' u session := by
  obtain ⟨w, hw, hrest⟩ := hb
  exact ⟨w, Hub.tenant_step hstep hw, hrest⟩

theorem Behind.mono (hPQ : ∀ T, P T → Q T) {u : Tenant} {session : Session}
    (hb : Behind P h u session) : Behind Q h u session := by
  obtain ⟨w, hw, hname, hpsk, hoffered⟩ := hb
  exact ⟨w, hw, hname, hpsk, hoffered.mono hPQ⟩

theorem RouteOk.step {e : Hub.Event} {host : Option String} {k : Visitor} (hk : RouteOk P h host k)
    (hstep : h.step e = some h') : RouteOk P h' host k := by
  cases k with
  | found | relaying => exact ⟨hk.1, hk.2.1, hk.2.2.1, hk.2.2.2.step hstep⟩
  | idle | routed | refused | done => exact hk

theorem RouteOk.mono (hPQ : ∀ T, P T → Q T) {host : Option String} {k : Visitor}
    (hk : RouteOk P h host k) : RouteOk Q h host k := by
  cases k with
  | routed => exact ⟨hk.1, hPQ _ hk.2.1, hk.2.2⟩
  | found | relaying => exact ⟨hk.1, hPQ _ hk.2.1, hk.2.2.1, hk.2.2.2.mono hPQ⟩
  | idle | refused | done => trivial

/-- A host that was found stays. -/
theorem RouteOk.later {host host' : Option String} {k : Visitor} (hk : RouteOk P h host k)
    (hhost : ∀ x, host = some x → host' = some x) : RouteOk P h host' k := by
  cases k with
  | routed | found | relaying => exact ⟨hhost _ hk.1, hk.2⟩
  | idle | refused | done => trivial

theorem VisitOk.step {e : Hub.Event} {k : Visitor} {x : Visit} (hx : VisitOk P tunnels h k x)
    (hstep : h.step e = some h') : VisitOk P tunnels h' k x := by
  cases x with
  | arriving p => exact ⟨hx.1, hx.2.step hstep⟩
  | relaying u session r => exact ⟨hx.1, hx.2.step hstep⟩
  | dropped => trivial

theorem VisitOk.mono (hPQ : ∀ T, P T → Q T) {k : Visitor} {x : Visit} (hx : VisitOk P tunnels h k x) :
    VisitOk Q tunnels h k x := by
  cases x with
  | arriving p => exact ⟨hx.1, hx.2.mono hPQ⟩
  | relaying u session r =>
      obtain ⟨⟨ps, p, found, host, fs, hps, hfound, hhost, ⟨S, hS, hrouted⟩, hrun⟩, hb⟩ := hx
      exact ⟨⟨ps, p, found, host, fs, hps, hfound, hhost, ⟨S, hPQ S hS, hrouted⟩, hrun⟩, hb.mono hPQ⟩
  | dropped => trivial

theorem Ok.mono (hPQ : ∀ T, P T → Q T) (hi : Ok P tunnels s) : Ok Q tunnels s where
  hub := hi.hub
  inForce := hPQ _ hi.inForce
  tasks i := (hi.tasks i).mono hPQ
  visits v := (hi.visits v).mono hPQ

theorem Ok.setVisit (hi : Ok P tunnels s) {v : Nat} {x : Visit}
    (hx : VisitOk P tunnels s.front.hub (s.front.visitors v) x) : Ok P tunnels (s.setVisit v x) where
  hub := hi.hub
  inForce := hi.inForce
  tasks := hi.tasks
  visits w := by
    by_cases hw : w = v
    · subst hw
      simpa [SniPort.setVisit] using hx
    · simpa [SniPort.setVisit, hw] using hi.visits w

theorem Ok.setVisitor (hi : Ok P tunnels s) {v : Nat} {k : Visitor}
    (hk : VisitOk P tunnels s.front.hub k (s.visits v)) :
    Ok P tunnels (s.setFront (s.front.setVisitor v k)) where
  hub := hi.hub
  inForce := hi.inForce
  tasks := hi.tasks
  visits w := by
    by_cases hw : w = v
    · subst hw
      simpa [setFront] using hk
    · simpa [setFront, hw] using hi.visits w

/-- What the map has under a tenant's name is a session of a client that authenticated under it. -/
theorem Ok.behind (hi : Ok P tunnels s) {u : Tenant} {session : Session}
    (hs : s.front.hub.sessions.lookup u.name = some session) : Behind P s.front.hub u session := by
  obtain ⟨w, hw, hname, hpsk⟩ := hi.hub.owned _ _ hs
  have htenant := Task.tenant_of_registration hw
  have hfrom := hi.tasks session.task
  refine ⟨w, htenant, hname, hpsk, ?_⟩
  generalize s.front.hub.tasks session.task = k at htenant hfrom
  cases k with
  | handshaking => cases htenant
  | idle | enrolling | connected | numbered | registered | refused | checked | draining | ended =>
      exact hfrom w htenant

theorem hostOf_step {p q : Peek} {e : Peek.Event} (hstep : p.step e = some q) {x : String}
    (hx : hostOf p = some x) : hostOf q = some x := by
  unfold hostOf at hx ⊢
  cases hr : p.result with
  | none =>
      rw [hr] at hx
      cases hx
  | some r =>
      rw [Peek.result_step hr hstep]
      rwa [hr] at hx

/-- A visit refines a call of `peek_sni`, then the lookups, then a relay. -/
theorem ok_step {e : Event} (hi : Ok P tunnels s) (hstep : s.step tunnels e = some t)
    (ht : P t.front.hub.set) : Ok P tunnels t := by
  cases e with
  | hub e =>
      obtain ⟨f, hf, rfl⟩ := Option.map_eq_some_iff.1 hstep
      cases Front.moves_of_step hf with
      | hub hh =>
          exact ⟨Hub.inv_step hi.hub hh, ht, taskFrom_step hi.inForce hi.tasks hh,
            fun v => (hi.visits v).step hh⟩
  | peek v e =>
      simp only [step] at hstep
      split at hstep
      · rename_i p hp
        obtain ⟨q, hq, rfl⟩ := Option.map_eq_some_iff.1 hstep
        have hv := hi.visits v
        rw [hp] at hv
        obtain ⟨⟨ps, hps⟩, hroute⟩ := hv
        refine hi.setVisit ⟨⟨ps ++ [e], Machine.run_concat_iff _ |>.2 ⟨p, hps, hq⟩⟩, ?_⟩
        exact hroute.later fun x hx => hostOf_step hq hx
      · cases hstep
  | consult v =>
      simp only [step] at hstep
      split at hstep
      · rename_i p hp
        split at hstep
        · rename_i host hhost
          obtain ⟨f, hf, rfl⟩ := Option.map_eq_some_iff.1 hstep
          have hv := hi.visits v
          rw [hp] at hv
          cases Front.moves_of_step hf with
          | consult hpc hrouted =>
              apply hi.setVisitor
              rw [hp]
              exact ⟨hv.1, hhost, hi.inForce, hrouted⟩
          | unknown hpc hno =>
              apply hi.setVisitor
              rw [hp]
              exact ⟨hv.1, trivial⟩
        · cases hstep
      · cases hstep
  | lookup v =>
      simp only [step] at hstep
      split at hstep
      · rename_i p hp
        obtain ⟨f, hf, rfl⟩ := Option.map_eq_some_iff.1 hstep
        have hv := hi.visits v
        rw [hp] at hv
        cases Front.moves_of_step hf with
        | lookup hpc hs =>
            rw [hpc] at hv
            obtain ⟨hps, hhost, hS, hrouted⟩ := hv
            apply hi.setVisitor
            rw [hp]
            exact ⟨hps, hhost, hS, hrouted, hi.behind hs⟩
        | offline hpc hs =>
            apply hi.setVisitor
            rw [hp]
            exact ⟨hv.1, trivial⟩
      · cases hstep
  | acquire v granted =>
      simp only [step] at hstep
      split at hstep
      · rename_i p hp
        obtain ⟨f, hf, rfl⟩ := Option.map_eq_some_iff.1 hstep
        have hv := hi.visits v
        rw [hp] at hv
        cases Front.moves_of_step hf with
        | granted hpc =>
            rw [hpc] at hv
            apply hi.setVisitor
            rw [hp]
            exact hv
        | atLimit hpc =>
            apply hi.setVisitor
            rw [hp]
            exact ⟨hv.1, trivial⟩
      · cases hstep
  | openStream v =>
      simp only [step] at hstep
      split at hstep
      · rename_i p hp
        split at hstep
        · rename_i S host u session hpc
          split at hstep
          · rename_i found hfound
            obtain rfl := Option.some.inj hstep
            have hv := hi.visits v
            rw [hp, hpc] at hv
            obtain ⟨⟨ps, hps⟩, hhost, hS, hrouted, hb⟩ := hv
            have hpeek := Peek.inv_run hps
            obtain ⟨-, hdone, -⟩ := Peek.done_of_result hfound
            obtain ⟨fs, hfs⟩ := relayed_run u.name (tunnels session.task)
              (hpeek.parse_done hdone).1.symm hpeek.within
            have hsni : found.sni = some host := by
              rw [hostOf, hfound] at hhost
              exact hhost
            exact hi.setVisit
              ⟨⟨ps, p, found, host, fs, hps, hfound, hsni, ⟨S, hS, hrouted⟩, hfs⟩, hb⟩
          · cases hstep
        · cases hstep
      · cases hstep
  | stream v e =>
      simp only [step] at hstep
      split at hstep
      · rename_i u session r hr
        obtain ⟨q, hq, rfl⟩ := Option.map_eq_some_iff.1 hstep
        have hv := hi.visits v
        rw [hr] at hv
        obtain ⟨⟨ps, p, found, host, fs, hps, hfound, hsni, hrouted, hfs⟩, hb⟩ := hv
        exact hi.setVisit ⟨⟨ps, p, found, host, fs ++ [e], hps, hfound, hsni, hrouted,
          Machine.run_concat_iff _ |>.2 ⟨r, hfs, hq⟩⟩, hb⟩
      · cases hstep
  | leave v =>
      simp only [step] at hstep
      split at hstep
      · rename_i u session r hr
        split at hstep
        · obtain ⟨f, hf, rfl⟩ := Option.map_eq_some_iff.1 hstep
          have hv := hi.visits v
          cases Front.moves_of_step hf with
          | leave hpc =>
              apply hi.setVisitor
              rw [hr] at hv ⊢
              exact hv
        · cases hstep
      · cases hstep
  | drop v =>
      simp only [step] at hstep
      split at hstep
      · rename_i p hp
        obtain rfl := Option.some.inj hstep
        have hv := hi.visits v
        cases hf : s.front.step (.leave v) with
        | none => exact hi.setVisit trivial
        | some f =>
            cases Front.moves_of_step hf with
            | leave hpc =>
                have hleft : Ok P tunnels (s.setFront (s.front.setVisitor v .done)) := by
                  apply hi.setVisitor
                  rw [hp] at hv ⊢
                  exact ⟨hv.1, trivial⟩
                exact hleft.setVisit trivial
      · cases hstep

theorem ok_run {set : TenantSet} {es : List Event}
    (hrun : (machine tunnels).run (initial set) es = some s) : Ok (InForce tunnels set es) tunnels s := by
  refine (machine tunnels).run_induction (fun es s => Ok (InForce tunnels set es) tunnels s) ?_ ?_ hrun
  · exact {
      hub := Hub.inv_initial set
      inForce := ⟨[], initial set, List.prefix_rfl, rfl, rfl⟩
      tasks := fun i u hu => (by cases hu)
      visits := fun v => ⟨⟨[], rfl⟩, trivial⟩ }
  · intro fs u e v hfs hi hstep
    apply ok_step (hi.mono fun T hT => hT.append [e]) hstep
    exact ⟨fs ++ [e], v, List.prefix_rfl, Machine.run_concat_iff _ |>.2 ⟨u, hfs, hstep⟩, rfl⟩

/-! ## Whom a visitor reaches -/

/-- What a relayed connection promises in the state that a run has reached; `P` are the snapshots that
were in force. -/
structure Reached (P : TenantSet → Prop) (tunnels : Nat → List ConnectTunnel) (s : SniPort) (t : Tenant)
    (session : Session) (r : Relay) : Prop where
  /-- The hello with which the visitor's bytes begin names a host of the tenant. -/
  routed : ∃ host, RoutedTo P host t
    ∧ parseRecord (r.wire .visitorIn).carried = .ok (some host)
  authenticated : Behind P s.front.hub t session
  /-- The target gets the visitor's bytes from the first one on, and the visitor the target's. -/
  faithful : Faithful (utf8 t.name.toList)
    (fun data => (resolveName (tunnels session.task) data).isSome) r
  /-- The relay is one of its own, of which the client dials at most the target of the tenant's name. -/
  dials : ∃ buffered fs, buffered <+: (r.wire .visitorIn).carried
    ∧ (tunnelMachine t.name (tunnels session.task)).run
      (Relay.initial (utf8 t.name.toList) (some buffered)) fs = some r
    ∧ (dialled t.name (tunnels session.task) (some buffered) fs = [] ∧ r.dialed = false
      ∨ ∃ target, targetOf (tunnels session.task) t.name = some target
        ∧ dialled t.name (tunnels session.task) (some buffered) fs = [target])

theorem reached_of_ok (hi : Ok P tunnels s) {v : Nat} {t : Tenant} {session : Session} {r : Relay}
    (hv : s.visits v = .relaying t session r) : Reached P tunnels s t session r := by
  have hvisit := hi.visits v
  rw [hv] at hvisit
  obtain ⟨⟨ps, p, found, host, fs, hps, hfound, hsni, hrouted, hrun⟩, hb⟩ := hvisit
  have hfaithful := (Relay.inv_run hrun).faithful
  obtain ⟨rest, hrest⟩ := hfaithful.replayed
  rw [replay_run hrun] at hrest
  obtain ⟨-, hdone, hparse⟩ := Peek.done_of_result hfound
  refine ⟨⟨host, hrouted, ?_⟩, hb, hfaithful, found.buffered, fs, ⟨rest, hrest⟩, hrun, ?_⟩
  · rw [← hrest, (Peek.inv_run hps).parse_more hdone, hparse, hsni]
  · rcases Relay.dials_run hrun with ⟨hnone, hidle⟩ | ⟨target, htarget, hone, -⟩
    · exact Or.inl ⟨hnone, hidle.1⟩
    · exact Or.inr ⟨target, htarget, hone⟩

/-- **A visitor reaches the tenant that its hello names, and nobody else.**  In every interleaving of any
number of visitors, control connections and applies: a connection that is relayed is relayed for a tenant
to which a snapshot in force at some moment of the run routed the host in the visitor's hello, over a
session of a client that has authenticated under that tenant's name as a tenant of such a snapshot; the
client dials at most the target it has configured for the name; and that target is sent what the visitor
has sent, hello included, from the first byte on, and the visitor what the target has sent. -/
theorem visitors_reach_their_tenant (tunnels : Nat → List ConnectTunnel) (set : TenantSet)
    (es : List Event) (s : SniPort) (hrun : (machine tunnels).run (initial set) es = some s)
    (v : Nat) (t : Tenant) (session : Session) (r : Relay)
    (hv : s.visits v = .relaying t session r) :
    Reached (InForce tunnels set es) tunnels s t session r :=
  reached_of_ok (ok_run hrun) hv

/-- A hello for `a.example.com`. -/
def sampleHello : Bytes :=
  [0x16, 3, 1, 0, 66, 0x01, 0, 0, 62, 3, 3] ++ List.replicate 36 0
    ++ [0, 22, 0, 0, 0, 18, 0, 16, 0, 0, 13] ++ utf8 "a.example.com".toList

/-- The client of `a` connects; a visitor comes for it and goes on behind its hello. -/
def sampleVisit : List Event :=
  [.hub (.arrive 0 0), .hub (.verify 0 0), .hub (.draw 0), .hub (.register 0), .hub (.check 0),
    .hub (.cancelReplaced 0), .peek 0 (.sends sampleHello), .peek 0 (.poll (.upTo 9)),
    .peek 0 (.poll (.upTo 99)), .peek 0 (.sends [9]), .consult 0, .lookup 0, .acquire 0 true,
    .openStream 0]
  ++ ([.name (.upTo 9), .name (.upTo 9), .name (.upTo 0), .write .toB (.upTo 99), .header (.upTo 1),
    .header (.upTo 4), .dial true, .answer (.upTo 0), .status (.upTo 0), .answer (.upTo 0),
    .read .toTarget (.upTo 99), .write .toTarget (.upTo 99)] : List Relay.Event).map (.stream 0)

def sampleTunnels : Nat → List ConnectTunnel := fun _ => [⟨"a", "127.0.0.1:80"⟩]

/-- For whom a connection is relayed, and what its target was sent. -/
def delivered : Visit → Option (Tenant × Session × Bytes)
  | .relaying t session r => some (t, session, (r.wire .targetOut).carried)
  | .arriving _ | .dropped => none

theorem visitors_reach_their_tenant_sample :
    ∃ s session r, (machine sampleTunnels).run (initial setA) sampleVisit = some s
      ∧ s.visits 0 = .relaying tenantA session r ∧ (r.wire .targetOut).carried = sampleHello
      ∧ Reached (InForce sampleTunnels setA sampleVisit) sampleTunnels s tenantA session r := by
  have hend : ((machine sampleTunnels).run (initial setA) sampleVisit).map
      (fun s => delivered (s.visits 0)) = some (some (tenantA, ⟨1, tenantA.psk, 0⟩, sampleHello)) := by
    decide +kernel
  obtain ⟨s, hrun, hdelivered⟩ := Option.map_eq_some_iff.1 hend
  cases hv : s.visits 0 with
  | arriving | dropped =>
      rw [hv] at hdelivered
      cases hdelivered
  | relaying t session r =>
      rw [hv] at hdelivered
      obtain ⟨rfl, hrest⟩ := Prod.mk.inj (Option.some.inj hdelivered)
      obtain ⟨-, hcarried⟩ := Prod.mk.inj hrest
      exact ⟨s, session, r, hrun, hv, hcarried,
        visitors_reach_their_tenant sampleTunnels setA sampleVisit s hrun 0 tenantA session r hv⟩

end SniPort

end Hub
end Erbridge
