import Erbridge.Tenancy.TenantSet

/-!
# Edits of a tenant set

The second half of `tenant.rs`: each edit returns a new validated set and leaves its argument alone.
For every edit there is one lemma that says what a successful call did; callers use these and never
unfold the edits.  `redeem_exists` gives the conditions under which redeeming a code succeeds.
-/

namespace Erbridge
namespace Tenancy

open Noise (Psk)

namespace TenantSet

variable {S T : TenantSet}

/-- Adds a tenant. -/
def withTenant (S : TenantSet) (tenant : Tenant) : Except SetError TenantSet :=
  new (S.tenants ++ [tenant]) S.codes

/-- Adds an enrollment code.  A code for a host a tenant already holds could never be redeemed. -/
def withCode (S : TenantSet) (code : EnrollCode) : Except SetError TenantSet :=
  match S.tenants.find? fun t => t.host = code.host with
  | some t => .error (.sniBelongsTo code.sni t.name)
  | none => new S.tenants (S.codes ++ [code])

def withoutTenant (S : TenantSet) (name : String) : Except SetError TenantSet :=
  match S.tenant name with
  | none => .error (.noTenantNamed name)
  | some _ => new (S.tenants.filter fun t => t.name ≠ name) S.codes

/-- What `with_disabled` does to one entry. -/
def setFlag (name : String) (disabled : Bool) (t : Tenant) : Tenant :=
  if t.name = name then { t with disabled := disabled } else t

@[simp] theorem setFlag_name (name : String) (disabled : Bool) (t : Tenant) :
    (setFlag name disabled t).name = t.name := by
  unfold setFlag
  split <;> rfl

@[simp] theorem setFlag_psk (name : String) (disabled : Bool) (t : Tenant) :
    (setFlag name disabled t).psk = t.psk := by
  unfold setFlag
  split <;> rfl

@[simp] theorem setFlag_host (name : String) (disabled : Bool) (t : Tenant) :
    (setFlag name disabled t).host = t.host := by
  unfold setFlag
  split <;> rfl

def withDisabled (S : TenantSet) (name : String) (disabled : Bool) : Except SetError TenantSet :=
  match S.tenant name with
  | none => .error (.noTenantNamed name)
  | some _ => new (S.tenants.map (setFlag name disabled)) S.codes

/-- The tenant that redeeming `code` creates. -/
def redeemed (code : EnrollCode) (name : String) (psk : Psk) : Tenant :=
  ⟨name, psk, code.sni, code.maxConns, false⟩

/-- The codes that redeeming the code with PSK `codePsk` leaves.  Expired codes can never be redeemed
and are dropped as well. -/
def codesAfter (S : TenantSet) (codePsk : Psk) (now : Nat) : List EnrollCode :=
  S.codes.filter fun c => c.psk ≠ codePsk && c.unexpired now

theorem codesAfter_sublist (S : TenantSet) (codePsk : Psk) (now : Nat) :
    (S.codesAfter codePsk now).Sublist S.codes :=
  List.filter_sublist

/-- Burns the code whose PSK is `codePsk` and creates a tenant from it under `name` with PSK
`psk`. -/
def redeem (S : TenantSet) (codePsk : Psk) (now : Nat) (name : String) (psk : Psk) :
    Except SetError (TenantSet × Tenant) :=
  match S.codes.find? fun c => c.psk = codePsk && c.unexpired now with
  | none => .error .unknownCode
  | some code =>
      match new (S.tenants ++ [redeemed code name psk]) (S.codesAfter codePsk now) with
      | .error e => .error e
      | .ok next => .ok (next, redeemed code name psk)

/-! ## Edits of valid entries -/

theorem valid_append_tenant_iff {ts : List Tenant} {cs : List EnrollCode} {t : Tenant}
    (hv : Valid ts cs) :
    Valid (ts ++ [t]) cs ↔
      t.name ≠ "" ∧ EntryOk t.sni t.maxConns ∧ t.name ∉ ts.map Tenant.name
        ∧ t.host ∉ ts.map Tenant.host
        ∧ t.psk ∉ ts.map Tenant.psk ++ cs.map EnrollCode.psk := by
  have hpsks : ((ts ++ [t]).map Tenant.psk ++ cs.map EnrollCode.psk).Nodup ↔
      t.psk ∉ ts.map Tenant.psk ++ cs.map EnrollCode.psk := by
    rw [List.map_append, List.map_singleton, List.append_assoc, List.singleton_append,
      List.nodup_middle, List.nodup_cons, and_iff_left hv.psks]
  have hnames : ((ts ++ [t]).map Tenant.name).Nodup ↔ t.name ∉ ts.map Tenant.name := by
    rw [List.map_append, List.map_singleton, List.nodup_append_comm, List.singleton_append,
      List.nodup_cons, and_iff_left hv.names]
  have hhosts : ((ts ++ [t]).map Tenant.host).Nodup ↔ t.host ∉ ts.map Tenant.host := by
    rw [List.map_append, List.map_singleton, List.nodup_append_comm, List.singleton_append,
      List.nodup_cons, and_iff_left hv.hosts]
  constructor
  · intro h
    have hlast : t ∈ ts ++ [t] := List.mem_append_right _ List.mem_cons_self
    exact ⟨h.name_ne t hlast, h.tenant_ok t hlast, hnames.1 h.names, hhosts.1 h.hosts,
      hpsks.1 h.psks⟩
  · rintro ⟨hne, hentry, hname, hhost, hpsk⟩
    refine ⟨?_, hnames.2 hname, hhosts.2 hhost, hpsks.2 hpsk, ?_, hv.code_ok⟩
    · intro u hu
      rcases List.mem_append.1 hu with hu | hu
      · exact hv.name_ne u hu
      · obtain rfl := List.mem_singleton.1 hu
        exact hne
    · intro u hu
      rcases List.mem_append.1 hu with hu | hu
      · exact hv.tenant_ok u hu
      · obtain rfl := List.mem_singleton.1 hu
        exact hentry

theorem valid_append_code_iff {ts : List Tenant} {cs : List EnrollCode} {c : EnrollCode}
    (hv : Valid ts cs) :
    Valid ts (cs ++ [c]) ↔
      EntryOk c.sni c.maxConns ∧ c.psk ∉ ts.map Tenant.psk ++ cs.map EnrollCode.psk := by
  have hpsks : (ts.map Tenant.psk ++ (cs ++ [c]).map EnrollCode.psk).Nodup ↔
      c.psk ∉ ts.map Tenant.psk ++ cs.map EnrollCode.psk := by
    rw [List.map_append, List.map_singleton, ← List.append_assoc, List.nodup_append_comm,
      List.singleton_append, List.nodup_cons, and_iff_left hv.psks]
  constructor
  · intro h
    exact ⟨h.code_ok c (List.mem_append_right _ List.mem_cons_self), hpsks.1 h.psks⟩
  · rintro ⟨hentry, hpsk⟩
    refine ⟨hv.name_ne, hv.names, hv.hosts, hpsks.2 hpsk, hv.tenant_ok, ?_⟩
    intro d hd
    rcases List.mem_append.1 hd with hd | hd
    · exact hv.code_ok d hd
    · obtain rfl := List.mem_singleton.1 hd
      exact hentry

theorem valid_codesAfter (S : TenantSet) (codePsk : Psk) (now : Nat) :
    Valid S.tenants (S.codesAfter codePsk now) :=
  have hsub := S.codesAfter_sublist codePsk now
  { S.valid with
    psks := S.valid.psks.sublist ((hsub.map _).append_left _)
    code_ok := fun c hc => S.valid.code_ok c (hsub.subset hc) }

theorem valid_without (S : TenantSet) (name : String) :
    Valid (S.tenants.filter fun t => t.name ≠ name) S.codes :=
  have hsub : (S.tenants.filter fun t => t.name ≠ name).Sublist S.tenants := List.filter_sublist
  { name_ne := fun t ht => S.valid.name_ne t (hsub.subset ht)
    names := S.valid.names.sublist (hsub.map _)
    hosts := S.valid.hosts.sublist (hsub.map _)
    psks := S.valid.psks.sublist ((hsub.map _).append_right _)
    tenant_ok := fun t ht => S.valid.tenant_ok t (hsub.subset ht)
    code_ok := S.valid.code_ok }

theorem valid_setFlag (S : TenantSet) (name : String) (disabled : Bool) :
    Valid (S.tenants.map (setFlag name disabled)) S.codes := by
  have hsni : ∀ t, (setFlag name disabled t).sni = t.sni
      ∧ (setFlag name disabled t).maxConns = t.maxConns := by
    intro t
    unfold setFlag
    split <;> exact ⟨rfl, rfl⟩
  constructor
  · simpa using S.valid.name_ne
  · simpa [Function.comp_def] using S.valid.names
  · simpa [Function.comp_def] using S.valid.hosts
  · simpa [Function.comp_def] using S.valid.psks
  · intro u hu
    obtain ⟨t, ht, rfl⟩ := List.mem_map.1 hu
    rw [(hsni t).1, (hsni t).2]
    exact S.valid.tenant_ok t ht
  · exact S.valid.code_ok

/-! ## What a successful edit did -/

theorem withTenant_eq_ok_iff {t : Tenant} :
    S.withTenant t = .ok T ↔ T.tenants = S.tenants ++ [t] ∧ T.codes = S.codes :=
  new_eq_ok_iff

theorem withCode_eq_ok_iff {c : EnrollCode} :
    S.withCode c = .ok T ↔
      (∀ t ∈ S.tenants, t.host ≠ c.host) ∧ T.tenants = S.tenants ∧ T.codes = S.codes ++ [c] := by
  unfold withCode
  split
  · rename_i t h
    have hmem : t ∈ S.tenants := List.mem_of_find?_eq_some h
    have hhost : t.host = c.host := by simpa using List.find?_some h
    constructor
    · simp
    · rintro ⟨hfree, -⟩
      exact absurd hhost (hfree t hmem)
  · rename_i h
    rw [new_eq_ok_iff]
    have hfree : ∀ t ∈ S.tenants, t.host ≠ c.host := by
      simpa [List.find?_eq_none] using h
    exact ⟨fun hT => ⟨hfree, hT⟩, fun hT => hT.2⟩

theorem withoutTenant_eq_ok_iff {name : String} :
    S.withoutTenant name = .ok T ↔
      (∃ t ∈ S.tenants, t.name = name)
        ∧ T.tenants = S.tenants.filter (fun t => t.name ≠ name) ∧ T.codes = S.codes := by
  unfold withoutTenant
  cases h : S.tenant name with
  | none =>
      have hnone := tenant_eq_none_iff.1 h
      simp only [reduceCtorEq, false_iff]
      rintro ⟨⟨t, hmem, hname⟩, -⟩
      exact hnone t hmem hname
  | some t =>
      have hmem := tenant_eq_some_iff.1 h
      rw [new_eq_ok_iff]
      exact ⟨fun hT => ⟨⟨t, hmem⟩, hT⟩, fun hT => hT.2⟩

theorem withDisabled_eq_ok_iff {name : String} {disabled : Bool} :
    S.withDisabled name disabled = .ok T ↔
      (∃ t ∈ S.tenants, t.name = name)
        ∧ T.tenants = S.tenants.map (setFlag name disabled) ∧ T.codes = S.codes := by
  unfold withDisabled
  cases h : S.tenant name with
  | none =>
      have hnone := tenant_eq_none_iff.1 h
      simp only [reduceCtorEq, false_iff]
      rintro ⟨⟨t, hmem, hname⟩, -⟩
      exact hnone t hmem hname
  | some t =>
      have hmem := tenant_eq_some_iff.1 h
      rw [new_eq_ok_iff]
      exact ⟨fun hT => ⟨⟨t, hmem⟩, hT⟩, fun hT => hT.2⟩

/-- **What a successful redemption did.** -/
theorem redeem_eq_ok_iff {codePsk psk : Psk} {now : Nat} {name : String} {t : Tenant} :
    S.redeem codePsk now name psk = .ok (T, t) ↔
      ∃ c ∈ S.codes, c.psk = codePsk ∧ c.unexpired now = true ∧ t = redeemed c name psk
        ∧ T.tenants = S.tenants ++ [t] ∧ T.codes = S.codesAfter codePsk now := by
  unfold redeem
  cases h : S.codes.find? fun c => c.psk = codePsk && c.unexpired now with
  | none =>
      simp only [reduceCtorEq, false_iff]
      rintro ⟨c, hmem, hpsk, hlive, -⟩
      have := List.find?_eq_none.1 h c hmem
      simp [hpsk, hlive] at this
  | some code =>
      have hmem : code ∈ S.codes := List.mem_of_find?_eq_some h
      obtain ⟨hpsk, hlive⟩ : code.psk = codePsk ∧ code.unexpired now = true := by
        simpa using List.find?_some h
      -- the PSK determines the code, so the one found is the only candidate
      have huniq : ∀ c ∈ S.codes, c.psk = codePsk → c = code := by
        intro c hc hcpsk
        exact List.inj_on_of_nodup_map S.valid.psks.of_append_right hc hmem
          (hcpsk.trans hpsk.symm)
      dsimp only
      cases hnew : new (S.tenants ++ [redeemed code name psk]) (S.codesAfter codePsk now) with
      | error e =>
          simp only [reduceCtorEq, false_iff]
          rintro ⟨c, hc, hcpsk, -, rfl, hfields⟩
          obtain rfl := huniq c hc hcpsk
          rw [new_eq_ok_iff.2 hfields] at hnew
          cases hnew
      | ok next =>
          obtain ⟨htenants, hcodes⟩ := new_eq_ok_iff.1 hnew
          simp only [Except.ok.injEq, Prod.mk.injEq]
          constructor
          · rintro ⟨rfl, rfl⟩
            exact ⟨code, hmem, hpsk, hlive, rfl, htenants, hcodes⟩
          · rintro ⟨c, hc, hcpsk, -, rfl, hT, hC⟩
            obtain rfl := huniq c hc hcpsk
            exact ⟨TenantSet.ext (htenants.trans hT.symm) (hcodes.trans hC.symm), rfl⟩

/-- A tenant that is there can be removed. -/
theorem withoutTenant_exists {name : String} (hheld : ∃ t ∈ S.tenants, t.name = name) :
    ∃ T, S.withoutTenant name = .ok T :=
  ⟨⟨_, _, S.valid_without name⟩, withoutTenant_eq_ok_iff.2 ⟨hheld, rfl, rfl⟩⟩

theorem mem_codesAfter_iff {codePsk : Psk} {now : Nat} {c : EnrollCode} :
    c ∈ S.codesAfter codePsk now ↔
      c ∈ S.codes ∧ c.psk ≠ codePsk ∧ c.unexpired now = true := by
  simp [codesAfter]

/-- **When redeeming succeeds**: the code is there and unexpired, the name and the PSK are new and
no tenant holds the code's host. -/
theorem redeem_exists {c : EnrollCode} {now : Nat} {name : String} {psk : Psk}
    (hc : c ∈ S.codes) (hlive : c.unexpired now = true) (hne : name ≠ "")
    (hname : name ∉ S.tenants.map Tenant.name)
    (hpsk : psk ∉ S.tenants.map Tenant.psk ++ S.codes.map EnrollCode.psk)
    (hhost : c.host ∉ S.tenants.map Tenant.host) :
    ∃ T, S.redeem c.psk now name psk = .ok (T, redeemed c name psk) := by
  have hkept := (S.codesAfter_sublist c.psk now).map EnrollCode.psk
  have hvalid : Valid (S.tenants ++ [redeemed c name psk]) (S.codesAfter c.psk now) :=
    (valid_append_tenant_iff (S.valid_codesAfter c.psk now)).2
      ⟨hne, S.valid.code_ok c hc, hname, hhost, fun hmem => hpsk ((hkept.append_left _).subset hmem)⟩
  obtain ⟨T, hT⟩ := exists_new_eq_ok_iff.2 hvalid
  obtain ⟨htenants, hcodes⟩ := new_eq_ok_iff.1 hT
  exact ⟨T, redeem_eq_ok_iff.2 ⟨c, hc, rfl, hlive, rfl, htenants, hcodes⟩⟩

end TenantSet

end Tenancy
end Erbridge
