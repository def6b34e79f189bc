import Erbridge.Noise.Psk
import Mathlib.Data.List.Nodup

/-!
# Tenants, enrollment codes and the validated snapshot

The model of `tenant.rs`.  `TenantSet` carries the proof that its entries identify and route
unambiguously (`TenantSet.Valid`), so that only `TenantSet.new` and the edits built on it make one,
as in the source, where the fields are private.

* `normalizeHost` — the matching form of a host: trimmed, one trailing dot dropped, ASCII lower case.
* `checkTenants`, `checkCodes` — the two loops of `TenantSet::new` with their hash sets as lists;
  `checkSet_eq_ok_iff` says that they accept exactly the valid entries.
* `TenantSet.new_eq_ok_iff` — the constructor returns the set with exactly the given entries.
* `tenant`, `tenantBySni`, `candidates` — the three ways the server consults a snapshot.
* `TenantSet.allows` — the test that `run_session` and `apply` share.
-/

namespace Erbridge
namespace Tenancy

open Noise (Psk)

/-- The characters `str::trim` drops: those with the Unicode property `White_Space`. -/
def isWhitespace (c : Char) : Bool :=
  (9 ≤ c.toNat && c.toNat ≤ 13) || c.toNat == 0x20 || c.toNat == 0x85 || c.toNat == 0xA0
    || c.toNat == 0x1680 || (0x2000 ≤ c.toNat && c.toNat ≤ 0x200A) || c.toNat == 0x2028
    || c.toNat == 0x2029 || c.toNat == 0x202F || c.toNat == 0x205F || c.toNat == 0x3000

/-- `str::trim`. -/
def trim (s : List Char) : List Char :=
  ((s.dropWhile isWhitespace).reverse.dropWhile isWhitespace).reverse

/-- Trims a host, lowercases it and drops one trailing dot: the form used for matching. -/
def normalizeHost (host : String) : String :=
  let host := trim host.toList
  let host := if host.getLast? = some '.' then host.dropLast else host
  String.ofList (host.map Char.toLower)

example : normalizeHost " Abc.Example.COM. " = "abc.example.com" := by decide

structure Tenant where
  name : String
  psk : Psk
  sni : String
  maxConns : Nat
  disabled : Bool
deriving DecidableEq

/-- The host a tenant is routed by, in its matching form. -/
def Tenant.host (t : Tenant) : String := normalizeHost t.sni

/-- A single-use PSK that can be redeemed for a new tenant. -/
structure EnrollCode where
  psk : Psk
  sni : String
  maxConns : Nat
  /-- Unix seconds after which the code no longer works. -/
  expiresAt : Option Nat
deriving DecidableEq

def EnrollCode.host (c : EnrollCode) : String := normalizeHost c.sni

/-- `expires_at.is_none_or(|at| now_unix < at)`. -/
def EnrollCode.unexpired (c : EnrollCode) (now : Nat) : Bool :=
  match c.expiresAt with
  | none => true
  | some at' => now < at'

/-- What a successful PSK match turned out to be. -/
inductive Identity
  | tenant (t : Tenant)
  | code (c : EnrollCode)
deriving DecidableEq

def Identity.psk : Identity → Psk
  | .tenant t => t.psk
  | .code c => c.psk

/-- The PSKs to try for one handshake, and what each one stands for. -/
structure Candidates where
  psks : List Psk
  ids : List Identity
deriving DecidableEq

/-- `Candidates::identity`; `none` is the panic of an index out of range. -/
def Candidates.identity (c : Candidates) (index : Nat) : Option Identity := c.ids[index]?

/-- Why a set or an edit of one is refused. -/
inductive SetError
  | emptyName
  | duplicateName (name : String)
  | emptySni (what : String)
  | zeroMaxConns (what : String)
  | duplicateSni (sni name : String)
  | sharedPsk (name : String)
  | codeSharesPsk
  | sniBelongsTo (sni name : String)
  | noTenantNamed (name : String)
  | unknownCode
deriving DecidableEq

/-- The text each refusal is reported with. -/
def SetError.message : SetError → String
  | .emptyName => "tenant has an empty name"
  | .duplicateName name => s!"duplicate tenant name '{name}'"
  | .emptySni what => s!"{what} has an empty sni"
  | .zeroMaxConns what => s!"{what} has max_conns = 0"
  | .duplicateSni sni name => s!"duplicate sni '{sni}' (tenant '{name}')"
  | .sharedPsk name => s!"tenant '{name}' shares a PSK with another entry"
  | .codeSharesPsk => "an enrollment code shares a PSK with another entry"
  | .sniBelongsTo sni name => s!"sni '{sni}' already belongs to tenant '{name}'"
  | .noTenantNamed name => s!"no tenant named '{name}'"
  | .unknownCode => "unknown, used or expired enrollment code"

/-! ## Validation -/

def checkEntry (sni : String) (maxConns : Nat) (what : String) : Except SetError Unit :=
  if normalizeHost sni = "" then .error (.emptySni what)
  else if maxConns = 0 then .error (.zeroMaxConns what)
  else .ok ()

/-- The tenant loop of `TenantSet::new`; it returns the PSKs seen, which the code loop goes on
with. -/
def checkTenants (names hosts : List String) (psks : List Psk) :
    List Tenant → Except SetError (List Psk)
  | [] => .ok psks
  | t :: ts =>
      if t.name = "" then .error .emptyName
      else if t.name ∈ names then .error (.duplicateName t.name)
      else match checkEntry t.sni t.maxConns t.name with
        | .error e => .error e
        | .ok () =>
            if t.host ∈ hosts then .error (.duplicateSni t.sni t.name)
            else if t.psk ∈ psks then .error (.sharedPsk t.name)
            else checkTenants (t.name :: names) (t.host :: hosts) (t.psk :: psks) ts

/-- The code loop of `TenantSet::new`. -/
def checkCodes (psks : List Psk) : List EnrollCode → Except SetError Unit
  | [] => .ok ()
  | c :: cs =>
      match checkEntry c.sni c.maxConns "enrollment code" with
      | .error e => .error e
      | .ok () =>
          if c.psk ∈ psks then .error .codeSharesPsk
          else checkCodes (c.psk :: psks) cs

def checkSet (tenants : List Tenant) (codes : List EnrollCode) : Except SetError Unit :=
  match checkTenants [] [] [] tenants with
  | .error e => .error e
  | .ok psks => checkCodes psks codes

/-- An entry has a host to match on and a positive limit. -/
def EntryOk (sni : String) (maxConns : Nat) : Prop :=
  normalizeHost sni ≠ "" ∧ 0 < maxConns

/-- Identification and routing are unambiguous. -/
structure Valid (tenants : List Tenant) (codes : List EnrollCode) : Prop where
  name_ne : ∀ t ∈ tenants, t.name ≠ ""
  names : (tenants.map Tenant.name).Nodup
  hosts : (tenants.map Tenant.host).Nodup
  psks : (tenants.map Tenant.psk ++ codes.map EnrollCode.psk).Nodup
  tenant_ok : ∀ t ∈ tenants, EntryOk t.sni t.maxConns
  code_ok : ∀ c ∈ codes, EntryOk c.sni c.maxConns

theorem checkEntry_eq_ok_iff {sni : String} {maxConns : Nat} (what : String) :
    checkEntry sni maxConns what = .ok () ↔ EntryOk sni maxConns := by
  unfold checkEntry EntryOk
  split
  · simp_all
  · split
    · simp_all
    · simp_all [Nat.pos_iff_ne_zero]

theorem checkTenants_eq_ok_iff {names hosts : List String} {psks : List Psk}
    (tenants : List Tenant) (out : List Psk) (hn : names.Nodup) (hh : hosts.Nodup) (hp : psks.Nodup) :
    checkTenants names hosts psks tenants = .ok out ↔
      out = (tenants.map Tenant.psk).reverse ++ psks
        ∧ (∀ t ∈ tenants, t.name ≠ "" ∧ EntryOk t.sni t.maxConns)
        ∧ (names ++ tenants.map Tenant.name).Nodup
        ∧ (hosts ++ tenants.map Tenant.host).Nodup
        ∧ (psks ++ tenants.map Tenant.psk).Nodup := by
  induction tenants generalizing names hosts psks with
  | nil =>
      simp only [checkTenants, Except.ok.injEq, List.map_nil, List.reverse_nil, List.nil_append,
        List.append_nil, List.not_mem_nil, false_imp_iff, implies_true, hn, hh, hp, and_true]
      exact eq_comm
  | cons t ts ih =>
      simp only [checkTenants, List.map_cons, List.nodup_middle]
      by_cases hname : t.name = ""
      · simp [hname]
      · by_cases hmem : t.name ∈ names
        · simp [hname, hmem]
        · cases hentry : checkEntry t.sni t.maxConns t.name with
          | error e =>
              have hbad : ¬ EntryOk t.sni t.maxConns := by
                rw [← checkEntry_eq_ok_iff t.name, hentry]
                simp
              simp [hname, hmem, hbad]
          | ok u =>
              have hok : EntryOk t.sni t.maxConns := (checkEntry_eq_ok_iff _).1 hentry
              by_cases hhost : t.host ∈ hosts
              · simp [hname, hmem, hhost]
              · by_cases hpsk : t.psk ∈ psks
                · simp [hname, hmem, hhost, hpsk]
                · simp only [hname, hmem, hhost, hpsk, if_false]
                  rw [ih (List.nodup_cons.2 ⟨hmem, hn⟩) (List.nodup_cons.2 ⟨hhost, hh⟩)
                    (List.nodup_cons.2 ⟨hpsk, hp⟩)]
                  simp [hname, hok]

theorem checkCodes_eq_ok_iff {psks : List Psk} {codes : List EnrollCode} (hp : psks.Nodup) :
    checkCodes psks codes = .ok () ↔
      (∀ c ∈ codes, EntryOk c.sni c.maxConns)
        ∧ (psks ++ codes.map EnrollCode.psk).Nodup := by
  induction codes generalizing psks with
  | nil => simp [checkCodes, hp]
  | cons c cs ih =>
      simp only [checkCodes, List.map_cons, List.nodup_middle]
      cases hentry : checkEntry c.sni c.maxConns "enrollment code" with
      | error e =>
          have hbad : ¬ EntryOk c.sni c.maxConns := by
            rw [← checkEntry_eq_ok_iff "enrollment code", hentry]
            simp
          simp [hbad]
      | ok u =>
          have hok : EntryOk c.sni c.maxConns := (checkEntry_eq_ok_iff _).1 hentry
          by_cases hpsk : c.psk ∈ psks
          · simp [hpsk]
          · simp only [hpsk, if_false]
            rw [ih (List.nodup_cons.2 ⟨hpsk, hp⟩)]
            simp [hok]

/-- **The two loops accept exactly the valid entries.** -/
theorem checkSet_eq_ok_iff {tenants : List Tenant} {codes : List EnrollCode} :
    checkSet tenants codes = .ok () ↔ Valid tenants codes := by
  have htenants := fun out : List Psk =>
    checkTenants_eq_ok_iff tenants out
      (List.nodup_nil : ([] : List String).Nodup) (List.nodup_nil : ([] : List String).Nodup)
      (List.nodup_nil : ([] : List Psk).Nodup)
  simp only [List.append_nil, List.nil_append] at htenants
  unfold checkSet
  cases hcheck : checkTenants [] [] [] tenants with
  | error e =>
      constructor
      · simp
      · intro hv
        have hok := (htenants _).2 ⟨rfl, fun t ht => ⟨hv.name_ne t ht, hv.tenant_ok t ht⟩,
          hv.names, hv.hosts, hv.psks.of_append_left⟩
        rw [hcheck] at hok
        cases hok
  | ok psks =>
      obtain ⟨rfl, hentries, hnames, hhosts, hpsks⟩ := (htenants _).1 hcheck
      have hperm : ((tenants.map Tenant.psk).reverse ++ codes.map EnrollCode.psk).Nodup ↔
          (tenants.map Tenant.psk ++ codes.map EnrollCode.psk).Nodup :=
        ((List.reverse_perm _).append_right _).nodup_iff
      rw [checkCodes_eq_ok_iff (List.nodup_reverse.2 hpsks), hperm]
      constructor
      · rintro ⟨hcodes, hall⟩
        exact ⟨fun t ht => (hentries t ht).1, hnames, hhosts, hall,
          fun t ht => (hentries t ht).2, hcodes⟩
      · intro hv
        exact ⟨hv.code_ok, hv.psks⟩

/-! ## The snapshot -/

/-- An immutable, validated snapshot of every tenant and outstanding code. -/
structure TenantSet where
  tenants : List Tenant
  codes : List EnrollCode
  valid : Valid tenants codes
deriving DecidableEq

namespace TenantSet

@[ext] theorem ext {S T : TenantSet} (ht : S.tenants = T.tenants) (hc : S.codes = T.codes) :
    S = T := by
  cases S
  cases T
  simp_all

/-- `TenantSet::default`. -/
def empty : TenantSet :=
  ⟨[], [], checkSet_eq_ok_iff.1 rfl⟩

/-- Builds a snapshot, rejecting anything that would make identification or routing ambiguous. -/
def new (tenants : List Tenant) (codes : List EnrollCode) : Except SetError TenantSet :=
  match h : checkSet tenants codes with
  | .error e => .error e
  | .ok () => .ok ⟨tenants, codes, checkSet_eq_ok_iff.1 h⟩

theorem new_eq_ok_iff {tenants : List Tenant} {codes : List EnrollCode} {S : TenantSet} :
    new tenants codes = .ok S ↔ S.tenants = tenants ∧ S.codes = codes := by
  unfold new
  split
  · rename_i e h
    constructor
    · simp
    · rintro ⟨rfl, rfl⟩
      rw [checkSet_eq_ok_iff.2 S.valid] at h
      cases h
  · constructor
    · intro hS
      cases hS
      exact ⟨rfl, rfl⟩
    · rintro ⟨rfl, rfl⟩
      rfl

theorem exists_new_eq_ok_iff {tenants : List Tenant} {codes : List EnrollCode} :
    (∃ S, new tenants codes = .ok S) ↔ Valid tenants codes := by
  constructor
  · rintro ⟨S, hS⟩
    obtain ⟨rfl, rfl⟩ := new_eq_ok_iff.1 hS
    exact S.valid
  · intro hv
    exact ⟨⟨tenants, codes, hv⟩, new_eq_ok_iff.2 ⟨rfl, rfl⟩⟩

def tenant (S : TenantSet) (name : String) : Option Tenant :=
  S.tenants.find? fun t => t.name = name

/-- The enabled tenant routed by `sni`, if any. -/
def tenantBySni (S : TenantSet) (sni : String) : Option Tenant :=
  S.tenants.find? fun t => !t.disabled && t.host = normalizeHost sni

/-- PSKs worth trying at `now` seconds: enabled tenants and codes that have not expired. -/
def candidates (S : TenantSet) (now : Nat) : Candidates :=
  let enabled := S.tenants.filter fun t => !t.disabled
  let live := S.codes.filter fun c => c.unexpired now
  { psks := enabled.map Tenant.psk ++ live.map EnrollCode.psk
    ids := enabled.map .tenant ++ live.map .code }

/-- `set.tenant(name).is_some_and(|t| !t.disabled && t.psk == psk)`: the test `run_session` makes
for itself and `apply` makes for every session. -/
def allows (S : TenantSet) (name : String) (psk : Psk) : Bool :=
  (S.tenant name).any fun t => !t.disabled && t.psk = psk

/-- Where at most one element passes the test, the first match is the only one. -/
theorem find?_eq_some_iff_of_unique {α : Type} {p : α → Bool} {as : List α}
    (huniq : ∀ a ∈ as, ∀ b ∈ as, p a = true → p b = true → a = b) {a : α} :
    as.find? p = some a ↔ a ∈ as ∧ p a = true := by
  constructor
  · intro h
    exact ⟨List.mem_of_find?_eq_some h, List.find?_some h⟩
  · rintro ⟨hmem, hp⟩
    cases hfind : as.find? p with
    | none => exact absurd hp (List.find?_eq_none.1 hfind a hmem)
    | some b =>
        exact congrArg some
          (huniq b (List.mem_of_find?_eq_some hfind) a hmem (List.find?_some hfind) hp)

theorem tenant_eq_some_iff {S : TenantSet} {name : String} {t : Tenant} :
    S.tenant name = some t ↔ t ∈ S.tenants ∧ t.name = name := by
  unfold tenant
  rw [find?_eq_some_iff_of_unique]
  · simp
  · intro t ht u hu htname huname
    simp only [decide_eq_true_eq] at htname huname
    exact List.inj_on_of_nodup_map S.valid.names ht hu (htname.trans huname.symm)

theorem tenant_eq_none_iff {S : TenantSet} {name : String} :
    S.tenant name = none ↔ ∀ t ∈ S.tenants, t.name ≠ name := by
  simp [tenant, List.find?_eq_none]

/-- A host is routed to the one enabled tenant that holds it. -/
theorem tenantBySni_eq_some_iff {S : TenantSet} {sni : String} {t : Tenant} :
    S.tenantBySni sni = some t ↔
      t ∈ S.tenants ∧ t.disabled = false ∧ t.host = normalizeHost sni := by
  unfold tenantBySni
  rw [find?_eq_some_iff_of_unique]
  · simp
  · intro t ht u hu htsni husni
    simp only [Bool.and_eq_true, decide_eq_true_eq] at htsni husni
    exact List.inj_on_of_nodup_map S.valid.hosts ht hu (htsni.2.trans husni.2.symm)

theorem allows_iff {S : TenantSet} {name : String} {psk : Psk} :
    S.allows name psk = true ↔
      ∃ t, S.tenant name = some t ∧ t.disabled = false ∧ t.psk = psk := by
  unfold allows
  cases S.tenant name <;> simp

/-- A snapshot allows at most one PSK under a name. -/
theorem allows_unique {S : TenantSet} {name : String} {p q : Psk}
    (hp : S.allows name p = true) (hq : S.allows name q = true) : p = q := by
  obtain ⟨t, ht, -, rfl⟩ := allows_iff.1 hp
  obtain ⟨u, hu, -, rfl⟩ := allows_iff.1 hq
  rw [ht] at hu
  exact congrArg Tenant.psk (Option.some.inj hu)

/-- A handshake is offered the tenants that the snapshot allows, and no others. -/
theorem allows_of_mem_candidates {S : TenantSet} {now : Nat} {t : Tenant}
    (ht : Identity.tenant t ∈ (S.candidates now).ids) : S.allows t.name t.psk = true := by
  obtain ⟨hmem, henabled⟩ : t ∈ S.tenants ∧ t.disabled = false := by
    simpa [candidates] using ht
  exact allows_iff.2 ⟨t, tenant_eq_some_iff.2 ⟨hmem, rfl⟩, henabled, rfl⟩

/-- The identities that a PSK can stand for at `now`: enabled tenants and unexpired codes. -/
def Current (S : TenantSet) (now : Nat) : Identity → Prop
  | .tenant t => t ∈ S.tenants ∧ t.disabled = false
  | .code c => c ∈ S.codes ∧ c.unexpired now = true

theorem mem_candidates_iff {S : TenantSet} {now : Nat} {id : Identity} :
    id ∈ (S.candidates now).ids ↔ S.Current now id := by
  cases id <;> simp [candidates, Current]

/-- The two lists are parallel. -/
theorem candidates_psks (S : TenantSet) (now : Nat) :
    (S.candidates now).psks = (S.candidates now).ids.map Identity.psk := by
  simp [candidates, Function.comp_def, Identity.psk]

/-- An index within the PSKs has an identity, of that PSK. -/
theorem candidates_identity {S : TenantSet} {now i : Nat} {psk : Psk}
    (h : (S.candidates now).psks[i]? = some psk) :
    ∃ id, (S.candidates now).identity i = some id ∧ id.psk = psk ∧ S.Current now id := by
  rw [candidates_psks, List.getElem?_map, Option.map_eq_some_iff] at h
  obtain ⟨id, hid, hpsk⟩ := h
  exact ⟨id, hid, hpsk, mem_candidates_iff.1 (List.mem_of_getElem? hid)⟩

theorem mem_candidates_psks_iff {S : TenantSet} {now : Nat} {psk : Psk} :
    psk ∈ (S.candidates now).psks ↔ ∃ id, S.Current now id ∧ id.psk = psk := by
  simp only [candidates_psks, List.mem_map, mem_candidates_iff]

/-- No PSK stands for a tenant and for a code. -/
theorem tenant_psk_ne_code_psk {S : TenantSet} {t : Tenant} {c : EnrollCode} (ht : t ∈ S.tenants)
    (hc : c ∈ S.codes) : t.psk ≠ c.psk :=
  (List.nodup_append.1 S.valid.psks).2.2 _ (List.mem_map_of_mem ht) _ (List.mem_map_of_mem hc)

/-- A PSK stands for one identity. -/
theorem current_unique {S : TenantSet} {now : Nat} {id id' : Identity} (h : S.Current now id)
    (h' : S.Current now id') (hpsk : id.psk = id'.psk) : id = id' := by
  cases id with
  | tenant t =>
      cases id' with
      | tenant t' =>
          exact congrArg _ (List.inj_on_of_nodup_map S.valid.psks.of_append_left h.1 h'.1 hpsk)
      | code c => exact absurd hpsk (tenant_psk_ne_code_psk h.1 h'.1)
  | code c =>
      cases id' with
      | tenant t => exact absurd hpsk.symm (tenant_psk_ne_code_psk h'.1 h.1)
      | code c' =>
          exact congrArg _ (List.inj_on_of_nodup_map S.valid.psks.of_append_right h.1 h'.1 hpsk)

end TenantSet

end Tenancy
end Erbridge
