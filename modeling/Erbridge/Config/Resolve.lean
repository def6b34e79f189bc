import Erbridge.Config.MapFlag
import Erbridge.Core.Table
import Erbridge.Reverse.Credentials
import Mathlib.Data.List.Induction

/-!
# What `serve` and `connect` are run with

`resolve_serve` and `resolve_connect` of `main.rs`: the config file first, the flags over it, and the
checks.

* `parseNameValue` — the flags `NAME=VALUE` of both.
* `resolveServe`, `resolveServe_modes` — an accepted configuration is of one mode, and has what it needs.
* `resolveConnect`, `targets` — the tunnels of `connect` and the map that it looks names up in.
* `lookup_targets` — the last entry of a name is the one in force.
-/

namespace Erbridge
namespace Config

open Erbridge.Core (Table)
open Tenancy (trim)
open Reverse (Credentials)

/-- `str::split_once` with one character. -/
def splitOnce (sep : Char) : List Char → Option (List Char × List Char)
  | [] => none
  | c :: cs =>
      if c = sep then some ([], cs) else (splitOnce sep cs).map fun p => (c :: p.1, p.2)

def parseNameValue (raw : String) : Except String (String × String) :=
  match splitOnce '=' raw.toList with
  | none => .error s!"expected NAME=VALUE, got: {raw}"
  | some (name, value) => .ok (String.ofList (trim name), String.ofList (trim value))

example : (parseNameValue "web = 127.0.0.1:80").toOption = some ("web", "127.0.0.1:80") := by decide

/-- The options of `connect`: its server and token besides what its loop reads. -/
structure ConnectOptions extends ConnectConfig where
  server : String
  token : String
deriving DecidableEq

structure FileConfig where
  forward : List ForwardRule
  serve : Option ServeConfig
  connect : Option ConnectOptions
  client : List ClientRule

/-! ## `serve` -/

/-- `ServeConfig::default`. -/
def ServeConfig.default : ServeConfig where
  listen := ""
  token := ""
  tunnel := []
  tenantsFile := none
  sniListen := none

/-- The flags of `serve`. -/
structure ServeFlags where
  listen : Option String
  token : Option String
  tunnels : List String
  tenants : Option String
  sniListen : Option String

def serveTunnelOf (raw : String) : Except String ServeTunnel :=
  (parseNameValue raw).map fun p => ⟨p.1, p.2⟩

/-- The config file's options with those of the flags over them. -/
def ServeFlags.over (flags : ServeFlags) (cfg : ServeConfig) (tunnels : List ServeTunnel) :
    ServeConfig where
  listen := flags.listen.getD cfg.listen
  token := flags.token.getD cfg.token
  tunnel := cfg.tunnel ++ tunnels
  tenantsFile := flags.tenants.or cfg.tenantsFile
  sniListen := flags.sniListen.or cfg.sniListen

/-- The checks of `resolve_serve`. -/
def ServeConfig.check (cfg : ServeConfig) : Except String ServeConfig :=
  if cfg.listen = "" then
    .error "serve: missing control listen address (config `serve.listen` or --listen)"
  else
    match cfg.isMultiTenant with
    | .error e => .error e
    | .ok multi =>
        if !multi && cfg.token = "" then
          .error "serve: missing token (config `serve.token` or --token)"
        else .ok cfg

def resolveServe (file : FileConfig) (flags : ServeFlags) : Except String ServeConfig :=
  match flags.tunnels.mapM serveTunnelOf with
  | .error e => .error e
  | .ok tunnels => (flags.over (file.serve.getD ServeConfig.default) tunnels).check

/-- The options of the two modes, with what each of them needs. -/
inductive Mode (cfg : ServeConfig) : Bool → Prop
  | legacy (htoken : cfg.token ≠ "") (htenants : cfg.tenantsFile = none)
      (hsni : cfg.sniListen = none) : Mode cfg false
  | multiTenant {path sni : String} (htenants : cfg.tenantsFile = some path)
      (hsni : cfg.sniListen = some sni) (htoken : cfg.token = "") (htunnel : cfg.tunnel = []) :
      Mode cfg true

theorem isMultiTenant_eq_ok_iff {cfg : ServeConfig} {multi : Bool} :
    cfg.isMultiTenant = .ok multi ∧ (multi = false → cfg.token ≠ "") ↔ Mode cfg multi := by
  obtain ⟨listen, token, tunnel, tenantsFile, sniListen⟩ := cfg
  constructor
  · rintro ⟨hmode, htoken⟩
    unfold ServeConfig.isMultiTenant at hmode
    cases tenantsFile with
    | none =>
        cases sniListen with
        | none =>
            obtain rfl := Except.ok.inj hmode
            exact .legacy (htoken rfl) rfl rfl
        | some sni => cases hmode
    | some path =>
        dsimp only at hmode
        split at hmode
        · cases hmode
        · rename_i hmixed
          split at hmode
          · cases hmode
          · rename_i hsni
            obtain rfl := Except.ok.inj hmode
            obtain ⟨sni, rfl⟩ := Option.ne_none_iff_exists'.1 hsni
            rw [not_or, not_not, not_not] at hmixed
            exact .multiTenant rfl rfl hmixed.1 hmixed.2
  · intro hmode
    cases hmode with
    | legacy htoken htenants hsni =>
        dsimp only at htoken htenants hsni
        subst htenants hsni
        exact ⟨rfl, fun _ => htoken⟩
    | multiTenant htenants hsni htoken htunnel =>
        dsimp only at htenants hsni htoken htunnel
        subst htenants hsni htoken htunnel
        exact ⟨rfl, fun h => by cases h⟩

/-- An accepted configuration has an address to listen on and is of exactly one mode. -/
theorem resolveServe_modes {file : FileConfig} {flags : ServeFlags} {cfg : ServeConfig} :
    resolveServe file flags = .ok cfg ↔
      ∃ tunnels multi, flags.tunnels.mapM serveTunnelOf = .ok tunnels
        ∧ cfg = flags.over (file.serve.getD ServeConfig.default) tunnels
        ∧ cfg.listen ≠ "" ∧ Mode cfg multi := by
  unfold resolveServe
  cases flags.tunnels.mapM serveTunnelOf with
  | error e => simp
  | ok tunnels =>
      generalize flags.over (file.serve.getD ServeConfig.default) tunnels = merged
      simp only [ServeConfig.check, Except.ok.injEq, exists_and_left, exists_eq_left']
      constructor
      · intro h
        split at h
        · cases h
        · rename_i hlisten
          split at h
          · cases h
          · rename_i multi hmode
            split at h
            · cases h
            · rename_i htoken
              obtain rfl := Except.ok.inj h
              refine ⟨rfl, hlisten, multi, isMultiTenant_eq_ok_iff.1 ⟨hmode, fun hfalse hempty => ?_⟩⟩
              exact htoken (by simp [hfalse, hempty])
      · rintro ⟨rfl, hlisten, multi, hmode⟩
        obtain ⟨hmode, htoken⟩ := isMultiTenant_eq_ok_iff.2 hmode
        rw [if_neg hlisten, hmode]
        dsimp only
        rw [if_neg]
        simpa using htoken

/-! ## `connect` -/

/-- The flags of `connect`. -/
structure ConnectFlags where
  server : Option String
  token : Option String
  tunnels : List String
  credentials : Option String
  target : Option String

def connectTunnelOf (raw : String) : Except String ConnectTunnel :=
  (parseNameValue raw).map fun p => ⟨p.1, p.2⟩

/-- The options of `connect` where the config file has none. -/
def ConnectOptions.default : ConnectOptions where
  server := ""
  token := ""
  tunnel := []
  reconnectMinSecs := 1
  reconnectMaxSecs := 30

/-- `--credentials` gives the token, unless there is one, and the last tunnel. -/
def ConnectOptions.withCredentials (cfg : ConnectOptions) (creds : Credentials) (target : String) :
    ConnectOptions :=
  { cfg with
    token := if cfg.token = "" then creds.token else cfg.token
    tunnel := cfg.tunnel ++ [⟨creds.name, target⟩] }

/-- `resolve_connect` up to its checks; `readCredentials` reads and parses a credentials file. -/
def mergeConnect (readCredentials : String → Except String Credentials) (file : FileConfig)
    (flags : ConnectFlags) : Except String ConnectOptions :=
  match flags.tunnels.mapM connectTunnelOf with
  | .error e => .error e
  | .ok tunnels =>
      let base := file.connect.getD ConnectOptions.default
      let cfg := { base with
        server := flags.server.getD base.server
        token := flags.token.getD base.token
        tunnel := base.tunnel ++ tunnels }
      match flags.credentials with
      | none => .ok cfg
      | some path =>
          match readCredentials path with
          | .error e => .error e
          | .ok creds =>
              match flags.target with
              | none => .error "connect: --credentials needs --target"
              | some target => .ok (cfg.withCredentials creds target)

def ConnectOptions.check (cfg : ConnectOptions) : Except String ConnectOptions :=
  if cfg.server = "" then
    .error "connect: missing server address (config `connect.server` or --server)"
  else if cfg.token = "" then
    .error "connect: missing token (config `connect.token` or --token)"
  else .ok cfg

def resolveConnect (readCredentials : String → Except String Credentials) (file : FileConfig)
    (flags : ConnectFlags) : Except String ConnectOptions :=
  (mergeConnect readCredentials file flags).bind ConnectOptions.check

theorem ConnectOptions.check_eq_ok {cfg cfg' : ConnectOptions} (h : cfg.check = .ok cfg') :
    cfg' = cfg ∧ cfg.server ≠ "" ∧ cfg.token ≠ "" := by
  unfold ConnectOptions.check at h
  split at h
  · cases h
  · rename_i hserver
    split at h
    · cases h
    · rename_i htoken
      exact ⟨(Except.ok.inj h).symm, hserver, htoken⟩

/-- The tunnel of the credentials comes behind those of the config file and of the flags. -/
theorem resolveConnect_credentials {readCredentials : String → Except String Credentials}
    {file : FileConfig} {flags : ConnectFlags} {cfg : ConnectOptions} {path target : String}
    {creds : Credentials} (h : resolveConnect readCredentials file flags = .ok cfg)
    (hpath : flags.credentials = some path) (hread : readCredentials path = .ok creds)
    (htarget : flags.target = some target) :
    ∃ others, cfg.tunnel = others ++ [⟨creds.name, target⟩] := by
  unfold resolveConnect mergeConnect at h
  cases htunnels : flags.tunnels.mapM connectTunnelOf with
  | error e =>
      rw [htunnels] at h
      cases h
  | ok tunnels =>
      rw [htunnels, hpath, htarget] at h
      dsimp only at h
      rw [hread] at h
      obtain ⟨rfl, -⟩ := ConnectOptions.check_eq_ok h
      exact ⟨_, rfl⟩

/-- The `targets` of `run_connect_with_shutdown`. -/
def targets (tunnel : List ConnectTunnel) : Table String String :=
  tunnel.foldl (fun t e => t.insert e.name e.target) ∅

/-- The target in force for a name: that of the last entry with it. -/
def targetOf (tunnel : List ConnectTunnel) (name : String) : Option String :=
  (tunnel.reverse.find? fun e => e.name = name).map ConnectTunnel.target

/-- **The last entry of a name is the one in force.** -/
theorem lookup_targets (tunnel : List ConnectTunnel) (name : String) :
    (targets tunnel).lookup name = targetOf tunnel name := by
  induction tunnel using List.reverseRecOn with
  | nil => rfl
  | append_singleton tunnel e ih =>
      rw [targets, List.foldl_append, List.foldl_cons, List.foldl_nil, targetOf, List.reverse_append,
        List.reverse_singleton, List.singleton_append, List.find?_cons]
      by_cases hname : name = e.name
      · rw [hname, AList.lookup_insert]
        simp
      · rw [AList.lookup_insert_ne hname]
        have hother : decide (e.name = name) = false := by simpa using fun h => hname h.symm
        rw [hother]
        exact ih

theorem targetOf_concat (others : List ConnectTunnel) (name target : String) :
    targetOf (others ++ [⟨name, target⟩]) name = some target := by
  simp [targetOf]

end Config
end Erbridge
