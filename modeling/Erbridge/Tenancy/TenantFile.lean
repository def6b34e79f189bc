import Erbridge.Noise.Hex
import Erbridge.Tenancy.TenantSet

/-!
# The tenant file

What is stored of a set: `TenantFile` with its serde derives, and `to_toml` / `from_toml`.  The `toml`
crate is a parameter that prints and parses documents of tables; `Toml.RoundTrips` is what is relied
on.

* `readTenant_tenantRecord`, `readCode_codeRecord` — stored entries are read back.
* `fromToml_toToml` — and so is every set that can be printed.
-/

namespace Erbridge

namespace Tenancy

open Noise (Psk)

/-! ## Documents -/

/-- The values the tenant file uses. -/
inductive Scalar
  | string (s : String)
  | integer (n : Int)
  | boolean (b : Bool)
deriving DecidableEq

/-- A table, field by field. -/
abbrev Record := List (String × Scalar)

/-- The arrays of tables of a file, section by section. -/
abbrev Document := List (String × List Record)

/-- The `toml` crate: `to_string_pretty`, and `from_str` on what `read_to_string` returns. -/
structure Toml where
  print : Document → Option (List UInt8)
  parse : List UInt8 → Option Document

/-- What can be printed is read back. -/
def Toml.RoundTrips (toml : Toml) : Prop :=
  ∀ doc bytes, toml.print doc = some bytes → toml.parse bytes = some doc

/-- `DEFAULT_MAX_CONNS`. -/
def defaultMaxConns : Nat := 64

namespace Record

def string (r : Record) (field : String) : Option String :=
  match r.lookup field with
  | some (.string s) => some s
  | _ => none

def psk (r : Record) (field : String) : Option Psk := (r.string field).bind Psk.ofHex

/-- An unsigned integer field; `default` stands in for a missing one. -/
def unsigned (r : Record) (field : String) (default : Option Nat) : Option Nat :=
  match r.lookup field with
  | some (.integer n) => if 0 ≤ n then some n.toNat else none
  | some _ => none
  | none => default

/-- A flag; a missing one is `false`. -/
def flag (r : Record) (field : String) : Option Bool :=
  match r.lookup field with
  | some (.boolean b) => some b
  | some _ => none
  | none => some false

/-- An optional unsigned integer. -/
def optional (r : Record) (field : String) : Option (Option Nat) :=
  match r.lookup field with
  | some (.integer n) => if 0 ≤ n then some (some n.toNat) else none
  | some _ => none
  | none => some none

end Record

/-- `Serialize for Tenant`. -/
def tenantRecord (t : Tenant) : Record :=
  [("name", .string t.name), ("psk", .string t.psk.toHex), ("sni", .string t.sni),
    ("max_conns", .integer t.maxConns), ("disabled", .boolean t.disabled)]

/-- `Serialize for EnrollCode`: a code that does not expire has no `expires_at`. -/
def codeRecord (c : EnrollCode) : Record :=
  [("psk", .string c.psk.toHex), ("sni", .string c.sni), ("max_conns", .integer c.maxConns)]
    ++ (match c.expiresAt with
      | some at' => [("expires_at", .integer at')]
      | none => [])

def readTenant (r : Record) : Option Tenant :=
  match r.string "name", r.psk "psk", r.string "sni",
    r.unsigned "max_conns" (some defaultMaxConns), r.flag "disabled" with
  | some name, some psk, some sni, some maxConns, some disabled =>
      some ⟨name, psk, sni, maxConns, disabled⟩
  | _, _, _, _, _ => none

def readCode (r : Record) : Option EnrollCode :=
  match r.psk "psk", r.string "sni", r.unsigned "max_conns" (some defaultMaxConns),
    r.optional "expires_at" with
  | some psk, some sni, some maxConns, some expiresAt => some ⟨psk, sni, maxConns, expiresAt⟩
  | _, _, _, _ => none

theorem readTenant_tenantRecord (t : Tenant) : readTenant (tenantRecord t) = some t := by
  simp [readTenant, tenantRecord, Record.string, Record.psk, Record.unsigned, Record.flag,
    List.lookup_cons, Psk.ofHex_toHex]

theorem readCode_codeRecord (c : EnrollCode) : readCode (codeRecord c) = some c := by
  obtain ⟨psk, sni, maxConns, expiresAt⟩ := c
  cases expiresAt with
  | none =>
      simp [readCode, codeRecord, Record.string, Record.psk, Record.unsigned, Record.optional,
        List.lookup_cons, Psk.ofHex_toHex]
  | some at' =>
      simp [readCode, codeRecord, Record.string, Record.psk, Record.unsigned, Record.optional,
        List.lookup_cons, Psk.ofHex_toHex]

/-- The array of tables under `section`; a missing one is empty. -/
def Document.records (doc : Document) (name : String) : List Record :=
  (doc.lookup name).getD []

/-- Why a tenant file cannot be used. -/
inductive FileError
  | parsing
  | serialising
  | invalid (e : SetError)
deriving DecidableEq

def FileError.message : FileError → String
  | .parsing => "parsing tenant file"
  | .serialising => "serialising tenant file"
  | .invalid e => e.message

namespace TenantSet

def toDocument (S : TenantSet) : Document :=
  [("tenant", S.tenants.map tenantRecord), ("code", S.codes.map codeRecord)]

def toToml (toml : Toml) (S : TenantSet) : Except FileError (List UInt8) :=
  match toml.print S.toDocument with
  | some bytes => .ok bytes
  | none => .error .serialising

def fromToml (toml : Toml) (bytes : List UInt8) : Except FileError TenantSet :=
  match toml.parse bytes with
  | none => .error .parsing
  | some doc =>
      match (doc.records "tenant").mapM readTenant, (doc.records "code").mapM readCode with
      | some tenants, some codes =>
          match new tenants codes with
          | .ok S => .ok S
          | .error e => .error (.invalid e)
      | _, _ => .error .parsing

theorem mapM_map_eq_some {α β : Type} {f : α → β} {g : β → Option α} (h : ∀ a, g (f a) = some a)
    (as : List α) : (as.map f).mapM g = some as := by
  induction as with
  | nil => rfl
  | cons a as ih => simp [h, ih]

/-- A file with the entries of a set is read as the set. -/
theorem fromToml_of_parse {toml : Toml} {S : TenantSet} {bytes : List UInt8}
    (h : toml.parse bytes = some S.toDocument) : fromToml toml bytes = .ok S := by
  have hnew : new S.tenants S.codes = .ok S := new_eq_ok_iff.2 ⟨rfl, rfl⟩
  have htenants : (S.toDocument.records "tenant").mapM readTenant = some S.tenants :=
    mapM_map_eq_some readTenant_tenantRecord S.tenants
  have hcodes : (S.toDocument.records "code").mapM readCode = some S.codes :=
    mapM_map_eq_some readCode_codeRecord S.codes
  simp only [fromToml, h, htenants, hcodes, hnew]

/-- **What is written is read back.** -/
theorem fromToml_toToml {toml : Toml} (htoml : toml.RoundTrips) {S : TenantSet}
    {bytes : List UInt8} (h : S.toToml toml = .ok bytes) : fromToml toml bytes = .ok S := by
  have hprint : toml.print S.toDocument = some bytes := by
    unfold toToml at h
    split at h
    · cases h
      assumption
    · cases h
  exact fromToml_of_parse (htoml _ _ hprint)

end TenantSet

end Tenancy
end Erbridge
