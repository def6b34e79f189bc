import Erbridge.Config.Roles
import Erbridge.Tenancy.TenantSet

/-!
# The rules of `forward` from a config file and from flags

The `--map` flags of `config.rs` and `resolve_forward` of `main.rs`.  The rules of a config file are
taken as they are; those of the flags are parsed, and a parsed rule has a transport only for TCP.

* `parseProtocol`, `parseMapFlag` — the flag `LISTEN->TARGET[/proto]`.
* `resolveForward` — all rules, with `--token` for those that have a transport and no token.
* `resolveForward_protocol` — of these rules only one of the config file has a transport along with
  UDP.
-/

namespace Erbridge
namespace Config

open Tenancy (trim)

/-- `str::to_ascii_lowercase`. -/
def asciiLowercase (s : List Char) : List Char := s.map Char.toLower

/-- `str::eq_ignore_ascii_case`. -/
def eqIgnoreAsciiCase (a b : List Char) : Bool := asciiLowercase a = asciiLowercase b

/-- `str::rsplit_once` with one character. -/
def rsplitOnce (sep : Char) : List Char → Option (List Char × List Char)
  | [] => none
  | c :: cs =>
      match rsplitOnce sep cs with
      | some (before, after) => some (c :: before, after)
      | none => if c = sep then some ([], cs) else none

/-- `splitn(2, "->")`, where it gives two parts. -/
def splitArrow : List Char → Option (List Char × List Char)
  | [] => none
  | c :: cs =>
      match c, cs with
      | '-', '>' :: rest => some ([], rest)
      | _, _ => (splitArrow cs).map fun p => (c :: p.1, p.2)

/-- `raw.parse::<u16>().is_ok()`. -/
def isU16 (raw : List Char) : Bool :=
  let digits := match raw with
    | '+' :: rest => rest
    | _ => raw
  !digits.isEmpty && digits.all Char.isDigit
    && digits.foldl (fun n c => 10 * n + (c.toNat - '0'.toNat)) 0 ≤ 65535

/-- Accepts a bare port as shorthand for that port of all addresses. -/
def normalizeListen (raw : List Char) : String :=
  if isU16 raw then "0.0.0.0:" ++ String.ofList raw else String.ofList raw

def defaultUdpIdleSecs : Nat := 60

/-- The closure of `parse_protocol` that tells its two kinds of parts apart. -/
def isTransport (part : List Char) : Bool :=
  eqIgnoreAsciiCase part "tls".toList || eqIgnoreAsciiCase part "noise".toList

def parseTransport (s : List Char) : Except String (Option Transport) :=
  let several :=
    s!"'{String.ofList s}' names more than one transport, expected at most one of +tls/+noise"
  match (s.splitOn '+').filter isTransport with
  | [] => .ok none
  | [t] =>
      if eqIgnoreAsciiCase t "tls".toList then .ok (some .tls)
      else if eqIgnoreAsciiCase t "noise".toList then .ok (some .noise)
      else .error several
  | _ => .error several

def parseKind (s : List Char) (transport : Option Transport) : Except String ProtocolKind :=
  let parts := (s.splitOn '+').filter fun part => !isTransport part
  let word := String.ofList (asciiLowercase (['+'].intercalate parts))
  if word = "" ∧ transport.isSome then .ok .tcp
  else if word = "tcp" then .ok .tcp
  else if word = "udp" then .ok .udp
  else if word = "both" ∨ word = "tcp+udp" ∨ word = "udp+tcp" then .ok .both
  else
    .error s!"unknown protocol '{word}', expected tcp, udp, both, optionally with a +tls/+noise modifier"

def parseProtocol (s : List Char) : Except String (ProtocolKind × Option Transport) :=
  match parseTransport s with
  | .error e => .error e
  | .ok transport =>
      match parseKind s transport with
      | .error e => .error e
      | .ok protocol =>
          if transport.isSome ∧ protocol ≠ .tcp then
            .error s!"+tls/+noise only support the tcp protocol, got '{String.ofList s}' (UDP forwarding cannot be wrapped in a transport)"
          else .ok (protocol, transport)

/-- What stands before the last slash, and what the protocol behind it is. -/
def splitProtocol (raw : List Char) :
    Except String (List Char × ProtocolKind × Option Transport) :=
  match rsplitOnce '/' raw with
  | some (rest, proto) => (parseProtocol proto).map fun p => (rest, p)
  | none => .ok (raw, .both, none)

def parseMapFlag (raw : String) : Except String ForwardRule :=
  match splitProtocol raw.toList with
  | .error e => .error e
  | .ok (rest, protocol, transport) =>
      match splitArrow rest with
      | none => .error s!"--map must look like LISTEN->TARGET[/proto], got: {raw}"
      | some (listen, target) => .ok
          { name := none
            listen := normalizeListen (trim listen)
            target := String.ofList (trim target)
            protocol := protocol
            udpIdleSecs := defaultUdpIdleSecs
            transport := transport
            token := none }

/-- A transport goes with TCP only. -/
theorem parseProtocol_tcp {s : List Char} {protocol : ProtocolKind} {transport : Option Transport}
    (h : parseProtocol s = .ok (protocol, transport)) (hsome : transport ≠ none) :
    protocol = .tcp := by
  unfold parseProtocol at h
  split at h
  · cases h
  · split at h
    · cases h
    · split at h
      · cases h
      · rename_i hmixed
        obtain ⟨rfl, rfl⟩ := Prod.mk.inj (Except.ok.inj h)
        by_contra hother
        exact hmixed ⟨Option.isSome_iff_ne_none.2 hsome, hother⟩

theorem splitProtocol_tcp {raw rest : List Char} {protocol : ProtocolKind}
    {transport : Option Transport} (h : splitProtocol raw = .ok (rest, protocol, transport))
    (hsome : transport ≠ none) : protocol = .tcp := by
  unfold splitProtocol at h
  split at h
  · rename_i before proto hsplit
    cases hproto : parseProtocol proto with
    | error e =>
        rw [hproto] at h
        cases h
    | ok p =>
        rw [hproto] at h
        obtain ⟨-, rfl⟩ := Prod.mk.inj (Except.ok.inj h)
        exact parseProtocol_tcp hproto hsome
  · obtain ⟨-, hboth⟩ := Prod.mk.inj (Except.ok.inj h)
    obtain ⟨-, rfl⟩ := Prod.mk.inj hboth
    exact absurd rfl hsome

theorem parseMapFlag_tcp {raw : String} {r : ForwardRule} (h : parseMapFlag raw = .ok r)
    (hsome : r.transport ≠ none) : r.protocol = .tcp := by
  unfold parseMapFlag at h
  split at h
  · cases h
  · rename_i rest protocol transport hsplit
    split at h
    · cases h
    · cases h
      exact splitProtocol_tcp hsplit hsome

example : (parseMapFlag "8080-> 10.0.0.5:80/TLS+tcp").toOption
    = some ⟨none, "0.0.0.0:8080", "10.0.0.5:80", .tcp, 60, some .tls, none⟩ := by decide

/-- `--token` applies to every rule with a transport that does not already carry its own token. -/
def fillToken (cliToken : Option String) (r : ForwardRule) : ForwardRule :=
  match cliToken with
  | some token => if r.transport.isSome ∧ r.token.isNone then { r with token := some token } else r
  | none => r

@[simp] theorem fillToken_transport (cliToken : Option String) (r : ForwardRule) :
    (fillToken cliToken r).transport = r.transport := by
  unfold fillToken
  split
  · split <;> rfl
  · rfl

@[simp] theorem fillToken_protocol (cliToken : Option String) (r : ForwardRule) :
    (fillToken cliToken r).protocol = r.protocol := by
  unfold fillToken
  split
  · split <;> rfl
  · rfl

def resolveForward (file : List ForwardRule) (cliMaps : List String) (cliToken : Option String) :
    Except String (List ForwardRule) :=
  (cliMaps.mapM parseMapFlag).map fun parsed => (file ++ parsed).map (fillToken cliToken)

theorem of_mem_mapM {ε α β : Type} {f : α → Except ε β} {as : List α} {bs : List β}
    (h : as.mapM f = .ok bs) : ∀ b ∈ bs, ∃ a ∈ as, f a = .ok b := by
  induction as generalizing bs with
  | nil =>
      cases h
      simp
  | cons a as ih =>
      rw [List.mapM_cons] at h
      cases hfirst : f a with
      | error e =>
          rw [hfirst] at h
          cases h
      | ok b =>
          cases hrest : as.mapM f with
          | error e =>
              rw [hfirst, hrest] at h
              cases h
          | ok more =>
              rw [hfirst, hrest] at h
              cases h
              intro c hc
              rcases List.mem_cons.1 hc with rfl | hc
              · exact ⟨a, List.mem_cons_self, hfirst⟩
              · obtain ⟨a', ha', heq⟩ := ih hrest c hc
                exact ⟨a', List.mem_cons_of_mem a ha', heq⟩

/-- **Where a transport can meet UDP**: in a rule of the config file only. -/
theorem resolveForward_protocol {file rules : List ForwardRule} {cliMaps : List String}
    {cliToken : Option String} (h : resolveForward file cliMaps cliToken = .ok rules) {i : Nat}
    {r : ForwardRule} (hr : rules[i]? = some r) (hsome : r.transport ≠ none)
    (hudp : r.protocol ≠ .tcp) : i < file.length := by
  unfold resolveForward at h
  cases hparsed : cliMaps.mapM parseMapFlag with
  | error e =>
      rw [hparsed] at h
      cases h
  | ok parsed =>
      rw [hparsed] at h
      obtain rfl := Except.ok.inj h
      rw [List.getElem?_map] at hr
      obtain ⟨q, hq, rfl⟩ := Option.map_eq_some_iff.1 hr
      rw [fillToken_transport] at hsome
      rw [fillToken_protocol] at hudp
      by_contra hflag
      rw [List.getElem?_append_right (Nat.le_of_not_lt hflag)] at hq
      obtain ⟨raw, -, hraw⟩ := of_mem_mapM hparsed q (List.mem_of_getElem? hq)
      exact hudp (parseMapFlag_tcp hraw hsome)

end Config
end Erbridge
