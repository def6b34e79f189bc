import Erbridge.Config.MapFlag
import Erbridge.Forward.Conn
import Erbridge.Forward.Udp
import Erbridge.Noise.Pair

/-!
# What gets past a rule's transport

The model of `run_forward`: one TCP listener for each rule with TCP, one UDP forwarder for each rule with
UDP, any number of connections and peers.  The transport of a rule secures its TCP leg; UDP
forwarding is unaffected by it.

* `Forwarder.step` — the executable step function.
* `Forwarder.accepts` — no listener of a validated rule panics.
* `Forwarder.gated` — the target of a rule with a transport gets bytes of authenticated connections
  only, apart from the datagrams of a rule of the config file whose protocol has UDP.
* `Forwarder.udp_passes` — such a datagram.
-/

namespace Erbridge
namespace Forward

open Erbridge.Core
open Config (ForwardRule ProtocolKind resolveForward)
open Noise (Psk Snow)

/-- `matches!(rule.protocol, ProtocolKind::Tcp | ProtocolKind::Both)`. -/
def hasTcp : ProtocolKind → Bool
  | .tcp | .both => true
  | .udp => false

/-- `matches!(rule.protocol, ProtocolKind::Udp | ProtocolKind::Both)`. -/
def hasUdp : ProtocolKind → Bool
  | .udp | .both => true
  | .tcp => false

/-- A running `forward`. -/
structure Forwarder (S : Snow) (α : Type) where
  /-- The connections that were accepted, each with the rule whose listener accepted it. -/
  conns : Nat → Option (Nat × Conn S)
  /-- The UDP forwarders of the rules. -/
  udps : Nat → Udp α

namespace Forwarder

/-- Nothing has come in. -/
def initial (S : Snow) (α : Type) : Forwarder S α where
  conns := fun _ => none
  udps := fun _ => Udp.initial

/-- The loop of `run_forward` over the rules before any listener is started. -/
def validateAll : List ForwardRule → Except String Unit
  | [] => .ok ()
  | rule :: rules =>
      match rule.validate with
      | .error e => .error e
      | .ok () => validateAll rules

def runForward (S : Snow) (α : Type) (rules : List ForwardRule) : Except String (Forwarder S α) :=
  if rules = [] then
    .error "forward mode needs at least one mapping (config `[[forward]]` or --map)"
  else (validateAll rules).map fun _ => initial S α

theorem validate_of_validateAll {rules : List ForwardRule} (h : validateAll rules = .ok ()) :
    ∀ rule ∈ rules, rule.validate = .ok () := by
  induction rules with
  | nil => simp
  | cons rule rules ih =>
      simp only [validateAll] at h
      split at h
      · cases h
      · rename_i hrule
        exact List.forall_mem_cons.2 ⟨hrule, ih h⟩

theorem runForward_eq_ok {S : Snow} {α : Type} {rules : List ForwardRule} {s₀ : Forwarder S α}
    (h : runForward S α rules = .ok s₀) :
    s₀ = initial S α ∧ ∀ rule ∈ rules, rule.validate = .ok () := by
  unfold runForward at h
  split at h
  · cases h
  · cases hvalid : validateAll rules with
    | error e =>
        rw [hvalid] at h
        cases h
    | ok u =>
        rw [hvalid] at h
        exact ⟨(Except.ok.inj h).symm, validate_of_validateAll hvalid⟩

inductive Event (α : Type)
  /-- The TCP listener of rule `i` accepts connection `c`. -/
  | accept (c i : Nat)
  | conn (c : Nat) (e : Conn.Event)
  | udp (i : Nat) (e : Udp.Event α)

variable {S : Snow} {α : Type} [DecidableEq α]

def step (derivePsk : String → Psk) (rules : List ForwardRule) (s : Forwarder S α) :
    Event α → Option (Forwarder S α)
  | .accept c i =>
      match s.conns c, rules[i]? with
      | none, some rule =>
          if hasTcp rule.protocol then
            (ConnSecurity.new derivePsk rule).map fun security =>
              { s with conns := Function.update s.conns c (some (i, Conn.start S security)) }
          else none
      | _, _ => none
  | .conn c e =>
      match s.conns c with
      | some (i, w) =>
          match rules[i]? with
          | some rule =>
              (w.step rule e).map fun w' =>
                { s with conns := Function.update s.conns c (some (i, w')) }
          | none => none
      | none => none
  | .udp i e =>
      match rules[i]? with
      | some rule =>
          if hasUdp rule.protocol then
            ((s.udps i).step rule.udpIdleSecs e).map fun u =>
              { s with udps := Function.update s.udps i u }
          else none
      | none => none

/-- `forward` with these rules as a machine. -/
def machine (S : Snow) (α : Type) [DecidableEq α] (derivePsk : String → Psk)
    (rules : List ForwardRule) : Machine (Forwarder S α) (Event α) where
  step := step derivePsk rules

variable {derivePsk : String → Psk} {rules : List ForwardRule} {s s' : Forwarder S α}

/-- Each connection is as its rule has it, and a rule without UDP forwards no datagram. -/
structure Inv (derivePsk : String → Psk) (rules : List ForwardRule) (s : Forwarder S α) : Prop where
  conns : ∀ c i w rule, s.conns c = some (i, w) → rules[i]? = some rule → Conn.Inv derivePsk rule w
  udps : ∀ i rule, rules[i]? = some rule → hasUdp rule.protocol = false → s.udps i = Udp.initial

omit [DecidableEq α] in
theorem inv_initial : Inv derivePsk rules (initial S α) where
  conns := by simp [initial]
  udps := fun _ _ _ _ => rfl

/-- No listener of a rule panics for want of a token. -/
theorem accepts {s₀ : Forwarder S α} (hstart : runForward S α rules = .ok s₀) {c i : Nat}
    {rule : ForwardRule} (hrule : rules[i]? = some rule) (htcp : hasTcp rule.protocol = true)
    (hfree : s.conns c = none) : ∃ s', s.step derivePsk rules (.accept c i) = some s' := by
  have hvalid := (runForward_eq_ok hstart).2 rule (List.mem_of_getElem? hrule)
  obtain ⟨security, hsecurity⟩ :=
    Option.isSome_iff_exists.1 (ConnSecurity.new_isSome derivePsk hvalid)
  simp [step, hfree, hrule, htcp, hsecurity]

theorem inv_step {e : Event α} (hi : Inv derivePsk rules s)
    (hstep : s.step derivePsk rules e = some s') : Inv derivePsk rules s' := by
  -- Connection `c` belongs to rule `i` now, and is as that has it.
  have hupdate : ∀ c i (w : Conn S), (∀ rule, rules[i]? = some rule → Conn.Inv derivePsk rule w) →
      Inv derivePsk rules { s with conns := Function.update s.conns c (some (i, w)) } := by
    intro c i w hw
    refine ⟨fun c' i' w' rule hc' hrule => ?_, hi.udps⟩
    by_cases hc : c' = c
    · subst hc
      simp only [Function.update_self, Option.some.injEq, Prod.mk.injEq] at hc'
      obtain ⟨rfl, rfl⟩ := hc'
      exact hw rule hrule
    · simp only [Function.update_of_ne hc] at hc'
      exact hi.conns c' i' w' rule hc' hrule
  cases e with
  | accept c i =>
      simp only [step] at hstep
      split at hstep
      · rename_i rule hnone hrule
        split at hstep
        · obtain ⟨security, hsecurity, rfl⟩ := Option.map_eq_some_iff.1 hstep
          refine hupdate c i _ fun rule' hrule' => ?_
          obtain rfl := Option.some.inj (hrule.symm.trans hrule')
          exact Conn.inv_start hsecurity
        · cases hstep
      · cases hstep
  | conn c e =>
      simp only [step] at hstep
      split at hstep
      · rename_i i w hc
        split at hstep
        · rename_i rule hrule
          obtain ⟨w', hw', rfl⟩ := Option.map_eq_some_iff.1 hstep
          refine hupdate c i w' fun rule' hrule' => ?_
          obtain rfl := Option.some.inj (hrule.symm.trans hrule')
          exact Conn.inv_step (hi.conns c i w rule hc hrule) hw'
        · cases hstep
      · cases hstep
  | udp i e =>
      simp only [step] at hstep
      split at hstep
      · rename_i rule hrule
        split at hstep
        · rename_i hudp
          obtain ⟨u, hu, rfl⟩ := Option.map_eq_some_iff.1 hstep
          refine ⟨hi.conns, fun i' rule' hrule' hnone => ?_⟩
          have hne : i' ≠ i := by
            rintro rfl
            obtain rfl := Option.some.inj (hrule.symm.trans hrule')
            rw [hnone] at hudp
            cases hudp
          simp only [Function.update_of_ne hne]
          exact hi.udps i' rule' hrule' hnone
        · cases hstep
      · cases hstep

theorem inv_run {es : List (Event α)}
    (hrun : (machine S α derivePsk rules).run (initial S α) es = some s) : Inv derivePsk rules s :=
  (machine S α derivePsk rules).run_invariant (Inv derivePsk rules) (fun hi hstep => inv_step hi hstep)
    inv_initial hrun

/-- **What gets past a transport.**  A rule with a transport writes to its target only what came over
connections whose peer has completed the handshake and proved the token, and the datagrams of a
rule of the config file whose protocol has UDP. -/
theorem gated {file : List ForwardRule} {cliMaps : List String} {cliToken : Option String}
    (hresolve : resolveForward file cliMaps cliToken = .ok rules) {s₀ : Forwarder S α}
    (hstart : runForward S α rules = .ok s₀) {es : List (Event α)}
    (hrun : (machine S α derivePsk rules).run s₀ es = some s) {i : Nat} {rule : ForwardRule}
    (hrule : rules[i]? = some rule) (htransport : rule.transport ≠ none) :
    (∀ c w, s.conns c = some (i, w) → w.target.carried ≠ [] → w.Authenticated derivePsk rule)
      ∧ ∀ j, (s.udps i).toTarget j ≠ [] → rule.protocol ≠ .tcp ∧ i < file.length := by
  obtain rfl := (runForward_eq_ok hstart).1
  have hi := inv_run hrun
  refine ⟨fun c w hc hne => (hi.conns c i w rule hc hrule).sent hne, fun j hne => ?_⟩
  have hudp : rule.protocol ≠ .tcp := by
    intro htcp
    have hnone := hi.udps i rule hrule (by rw [htcp]; rfl)
    rw [hnone] at hne
    exact hne rfl
  exact ⟨hudp, Config.resolveForward_protocol hresolve hrule htransport hudp⟩

def tlsRule : ForwardRule := ⟨none, "0.0.0.0:8080", "10.0.0.5:80", .tcp, 60, some .tls, some "k"⟩

/-- The peer sends the token and one byte more. -/
def tokenEvents : List (Event Nat) :=
  [.accept 0 0, .conn 0 (.tlsAccept true), .conn 0 (.peerSends [0, 1, 107, 9]),
    .conn 0 (.readToken (.upTo 9)), .conn 0 (.readToken (.upTo 9)), .conn 0 (.answer (.upTo 0)),
    .conn 0 (.dial true), .conn 0 (.pumpRead [.upTo 9]), .conn 0 (.pumpWrite (.upTo 9))]

theorem gated_token : ∃ s w,
    (machine Noise.Pair.plainSnow Nat (fun _ => Psk.repeated 1) [tlsRule]).run
        (initial Noise.Pair.plainSnow Nat) tokenEvents = some s
      ∧ s.conns 0 = some (0, w) ∧ w.target.carried = [9]
      ∧ w.Authenticated (fun _ => Psk.repeated 1) tlsRule := by
  have hend : ((machine Noise.Pair.plainSnow Nat (fun _ => Psk.repeated 1) [tlsRule]).run
      (initial Noise.Pair.plainSnow Nat) tokenEvents).bind
        (fun s => (s.conns 0).map fun p => (p.1, p.2.target.carried)) = some (0, [9]) := by
    decide
  obtain ⟨s, hrun, hconn⟩ := Option.bind_eq_some_iff.1 hend
  obtain ⟨⟨i, w⟩, hw, hfields⟩ := Option.map_eq_some_iff.1 hconn
  obtain ⟨rfl, htarget⟩ : i = 0 ∧ w.target.carried = [9] := Prod.mk.inj hfields
  have hresolve : resolveForward [] ["8080->10.0.0.5:80/tls"] (some "k") = .ok [tlsRule] := by rfl
  have hstart : runForward Noise.Pair.plainSnow Nat [tlsRule]
      = .ok (initial Noise.Pair.plainSnow Nat) := by rfl
  refine ⟨s, w, hrun, hw, htarget, ?_⟩
  exact (gated hresolve hstart hrun (i := 0) rfl (by decide)).1 0 w hw (by simp [htarget])

def udpRule : ForwardRule := ⟨none, "127.0.0.1:5353", "10.0.0.5:53", .udp, 60, some .tls, some "k"⟩

/-- A datagram of a peer that has done nothing else reaches the target of a rule with a transport and a
token. -/
theorem udp_passes : ∃ s₀ s,
    resolveForward [udpRule] [] none = .ok [udpRule]
      ∧ runForward Noise.Pair.plainSnow Nat [udpRule] = .ok s₀
      ∧ (machine Noise.Pair.plainSnow Nat (fun _ => Psk.repeated 1) [udpRule]).run s₀
        [.udp 0 (.recv 5 [7]), .udp 0 .send, .udp 0 (.bound 0 true), .udp 0 (.forward 0 true)]
          = some s
      ∧ udpRule.transport = some .tls ∧ (s.udps 0).toTarget 0 = [[7]] := by
  have hend : ((machine Noise.Pair.plainSnow Nat (fun _ => Psk.repeated 1) [udpRule]).run
      (initial Noise.Pair.plainSnow Nat)
        [.udp 0 (.recv 5 [7]), .udp 0 .send, .udp 0 (.bound 0 true), .udp 0 (.forward 0 true)]).map
          (fun s => (s.udps 0).toTarget 0) = some [[7]] := by decide
  obtain ⟨s, hrun, htarget⟩ := Option.map_eq_some_iff.1 hend
  exact ⟨initial _ Nat, s, rfl, rfl, hrun, rfl, htarget⟩

end Forwarder

end Forward
end Erbridge
