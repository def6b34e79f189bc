import Mathlib.Data.List.Basic

/-!
# Configuration of the roles

The rules and options of `config.rs` that the roles are run with, and what is checked of them.

* `ForwardRule.validate`, `ClientRule.validate` — Noise has no anonymous form.
* `ServeConfig.isMultiTenant` — the options of the two modes of `serve` are not mixed.
-/

namespace Erbridge
namespace Config

inductive ProtocolKind
  | tcp
  | udp
  | both
deriving DecidableEq

/-- How a mapping's listen-side TCP leg is secured. -/
inductive Transport
  | tls
  | noise
deriving DecidableEq

structure ForwardRule where
  name : Option String
  listen : String
  target : String
  protocol : ProtocolKind
  udpIdleSecs : Nat
  /-- Only applies to the TCP leg. -/
  transport : Option Transport
  token : Option String
deriving DecidableEq

namespace ForwardRule

def label (r : ForwardRule) : String := r.name.getD s!"{r.listen}->{r.target}"

/-- Noise has no anonymous form, so a token is mandatory there. -/
def validate (r : ForwardRule) : Except String Unit :=
  if r.transport = some .noise ∧ r.token = none then
    .error s!"forward[{r.label}]: transport = \"noise\" requires a token"
  else .ok ()

theorem validate_eq_ok_iff {r : ForwardRule} :
    r.validate = .ok () ↔ (r.transport = some .noise → r.token ≠ none) := by
  unfold validate
  split
  · rename_i h
    simp [h]
  · rename_i h
    simp only [true_iff]
    exact fun htransport htoken => h ⟨htransport, htoken⟩

end ForwardRule

structure ClientRule where
  name : Option String
  listen : String
  server : String
  transport : Transport
  token : Option String
deriving DecidableEq

namespace ClientRule

def label (r : ClientRule) : String := r.name.getD s!"{r.listen}->{r.server}"

def validate (r : ClientRule) : Except String Unit :=
  if r.transport = .noise ∧ r.token = none then
    .error s!"client[{r.label}]: transport = \"noise\" requires a token"
  else .ok ()

end ClientRule

structure ServeTunnel where
  name : String
  external : String
deriving DecidableEq

structure ServeConfig where
  listen : String
  token : String
  tunnel : List ServeTunnel
  tenantsFile : Option String
  sniListen : Option String
deriving DecidableEq

/-- Whether this is the multi-tenant mode, after checking that the options of the two modes are not
mixed. -/
def ServeConfig.isMultiTenant (cfg : ServeConfig) : Except String Bool :=
  match cfg.tenantsFile, cfg.sniListen with
  | some _, sni =>
      if cfg.token ≠ "" ∨ cfg.tunnel ≠ [] then
        .error "serve: `tenants_file` cannot be combined with `token` or `[[serve.tunnel]]`"
      else if sni = none then .error "serve: `tenants_file` requires `sni_listen`"
      else .ok true
  | none, some _ => .error "serve: `sni_listen` requires `tenants_file`"
  | none, none => .ok false

structure ConnectTunnel where
  name : String
  target : String
deriving DecidableEq

def defaultReconnectMinSecs : UInt64 := 1

def defaultReconnectMaxSecs : UInt64 := 30

/-- The options of `connect` that its reconnect loop reads. -/
structure ConnectConfig where
  tunnel : List ConnectTunnel
  reconnectMinSecs : UInt64
  reconnectMaxSecs : UInt64
deriving DecidableEq

end Config
end Erbridge
