import Erbridge.Core.Amend
import Erbridge.Tenancy.Store

/-!
# Independent edits commute

Two edits of a set that have no tenant name, no host and no PSK in common, with those of every entry
they add, change, remove, burn or drop.

* `Call.tenants`, `Call.codes` — the entries an edit concerns; `Independent` compares them.
* `Effect.amends` — an edit as an amendment of the two lists; `Effect.gained_tenant` and its siblings
  say that what it amends is what it concerns.
* `Admits` — when an edit succeeds, in terms of the names, hosts and PSKs in use;
  `Effect.admits_iff` carries this over an independent edit.
* `independent_edits_commute` — the two orders succeed alike and give the same entries.
-/

namespace Erbridge
namespace Tenancy

open Noise (Psk)
open Erbridge.Core (amend observed_amend_perm filter_amend)

/-! ## What an edit concerns -/

/-- The tenants an edit of `S` adds, changes or removes. -/
def Call.tenants (S : TenantSet) : Call → List Tenant
  | .addTenant t => [t]
  | .issueCode _ => []
  | .revoke name | .setDisabled name _ => S.tenants.filter fun t => t.name = name
  | .redeem codePsk now name psk =>
      (S.codes.filter fun c => c.psk = codePsk && c.unexpired now).map fun c =>
        TenantSet.redeemed c name psk

/-- The codes an edit of `S` adds, burns or drops. -/
def Call.codes (S : TenantSet) : Call → List EnrollCode
  | .issueCode c => [c]
  | .redeem codePsk now _ _ => S.codes.filter fun c => c.psk = codePsk || !c.unexpired now
  | .addTenant _ | .revoke _ | .setDisabled _ _ => []

/-- The tenant name an edit is given. -/
def Call.givenNames : Call → List String
  | .addTenant t => [t.name]
  | .issueCode _ => []
  | .revoke name | .setDisabled name _ => [name]
  | .redeem _ _ name _ => [name]

/-- The PSKs an edit is given. -/
def Call.givenPsks : Call → List Psk
  | .addTenant t => [t.psk]
  | .issueCode c => [c.psk]
  | .revoke _ | .setDisabled _ _ => []
  | .redeem codePsk _ _ psk => [codePsk, psk]

def Call.concernedNames (S : TenantSet) (c : Call) : List String :=
  c.givenNames ++ (c.tenants S).map Tenant.name

def Call.concernedHosts (S : TenantSet) (c : Call) : List String :=
  (c.tenants S).map Tenant.host ++ (c.codes S).map EnrollCode.host

def Call.concernedPsks (S : TenantSet) (c : Call) : List Psk :=
  c.givenPsks ++ ((c.tenants S).map Tenant.psk ++ (c.codes S).map EnrollCode.psk)

/-- The edits concern different names, hosts and PSKs. -/
structure Independent (S : TenantSet) (a b : Call) : Prop where
  names : ∀ name ∈ a.concernedNames S, name ∉ b.concernedNames S
  hosts : ∀ host ∈ a.concernedHosts S, host ∉ b.concernedHosts S
  psks : ∀ psk ∈ a.concernedPsks S, psk ∉ b.concernedPsks S

theorem Independent.symm {S : TenantSet} {a b : Call} (h : Independent S a b) : Independent S b a where
  names name hb ha := h.names name ha hb
  hosts host hb ha := h.hosts host ha hb
  psks psk hb ha := h.psks psk ha hb

/-- A redemption is made at this time. -/
def Call.At (now : Nat) : Call → Prop
  | .redeem _ now' _ _ => now' = now
  | .addTenant _ | .issueCode _ | .revoke _ | .setDisabled _ _ => True

/-! ## Edits as amendments -/

/-- What becomes of a tenant. -/
def Call.keepTenant : Call → Tenant → Option Tenant
  | .revoke name => Option.guard fun t => t.name ≠ name
  | .setDisabled name disabled => fun t => some (TenantSet.setFlag name disabled t)
  | .addTenant _ | .issueCode _ | .redeem _ _ _ _ => some

/-- What becomes of a code. -/
def Call.keepCode : Call → EnrollCode → Option EnrollCode
  | .redeem codePsk now _ _ => Option.guard fun c => c.psk ≠ codePsk && c.unexpired now
  | .addTenant _ | .issueCode _ | .revoke _ | .setDisabled _ _ => some

/-- The tenants it adds; `out` is the one that `redeem` creates. -/
def Call.addedTenants (out : Option Tenant) : Call → List Tenant
  | .addTenant t => [t]
  | .redeem _ _ _ _ => out.toList
  | .issueCode _ | .revoke _ | .setDisabled _ _ => []

def Call.addedCodes : Call → List EnrollCode
  | .issueCode c => [c]
  | .addTenant _ | .revoke _ | .setDisabled _ _ | .redeem _ _ _ _ => []

variable {S T : TenantSet} {a b : Call} {out : Option Tenant}

/-- **A successful edit amends the two lists.** -/
theorem Effect.amends (h : Effect S a T out) :
    T.tenants = amend a.keepTenant (a.addedTenants out) S.tenants
      ∧ T.codes = amend a.keepCode a.addedCodes S.codes := by
  cases h with
  | addTenant htenants hcodes =>
      constructor
      · simpa [Call.keepTenant, Call.addedTenants] using htenants
      · simpa [Call.keepCode, Call.addedCodes] using hcodes
  | issueCode hfree htenants hcodes =>
      constructor
      · simpa [Call.keepTenant, Call.addedTenants] using htenants
      · simpa [Call.keepCode, Call.addedCodes] using hcodes
  | revoke htenants hcodes hheld =>
      constructor
      · simpa [Call.keepTenant, Call.addedTenants] using htenants
      · simpa [Call.keepCode, Call.addedCodes] using hcodes
  | setDisabled htenants hcodes hheld =>
      constructor
      · simpa [Call.keepTenant, Call.addedTenants] using htenants
      · simpa [Call.keepCode, Call.addedCodes] using hcodes
  | redeem hcode hlive htenants hcodes =>
      constructor
      · simpa [Call.keepTenant, Call.addedTenants] using htenants
      · simpa [Call.keepCode, Call.addedCodes, TenantSet.codesAfter] using hcodes

/-! ## Entries that an edit does not concern -/

/-- A tenant that comes with an edit is one that it concerns, with its flag changed at most. -/
theorem Effect.gained_tenant (h : Effect S a T out) {t : Tenant} (ht : t ∈ T.tenants) :
    t ∈ S.tenants ∨ ∃ u ∈ a.tenants S, u.name = t.name ∧ u.host = t.host ∧ u.psk = t.psk := by
  cases h with
  | addTenant htenants _ =>
      rw [htenants] at ht
      rcases List.mem_append.1 ht with hold | hnew
      · exact Or.inl hold
      · exact Or.inr ⟨t, hnew, rfl, rfl, rfl⟩
  | issueCode _ htenants _ => exact Or.inl (htenants ▸ ht)
  | revoke htenants _ _ =>
      rw [htenants] at ht
      exact Or.inl (List.mem_of_mem_filter ht)
  | @setDisabled name disabled _ htenants _ _ =>
      rw [htenants] at ht
      obtain ⟨u, hu, rfl⟩ := List.mem_map.1 ht
      by_cases hname : u.name = name
      · refine Or.inr ⟨u, List.mem_filter.2 ⟨hu, by simpa using hname⟩, ?_, ?_, ?_⟩
        · rw [TenantSet.setFlag_name]
        · rw [TenantSet.setFlag_host]
        · rw [TenantSet.setFlag_psk]
      · left
        rwa [TenantSet.setFlag, if_neg hname]
  | redeem hcode hlive htenants _ =>
      rw [htenants] at ht
      rcases List.mem_append.1 ht with hold | hnew
      · exact Or.inl hold
      · obtain rfl := List.mem_singleton.1 hnew
        exact Or.inr ⟨_, List.mem_map_of_mem (List.mem_filter.2 ⟨hcode, by simp [hlive]⟩),
          rfl, rfl, rfl⟩

/-- A tenant that goes with an edit is one that it concerns. -/
theorem Effect.lost_tenant (h : Effect S a T out) {t : Tenant} (ht : t ∈ S.tenants) :
    t ∈ T.tenants ∨ t ∈ a.tenants S := by
  cases h with
  | addTenant htenants _ => exact Or.inl (htenants ▸ List.mem_append_left _ ht)
  | issueCode _ htenants _ => exact Or.inl (htenants ▸ ht)
  | @revoke name _ htenants _ _ =>
      by_cases hname : t.name = name
      · exact Or.inr (List.mem_filter.2 ⟨ht, by simpa using hname⟩)
      · exact Or.inl (htenants ▸ List.mem_filter.2 ⟨ht, by simpa using hname⟩)
  | @setDisabled name disabled _ htenants _ _ =>
      by_cases hname : t.name = name
      · exact Or.inr (List.mem_filter.2 ⟨ht, by simpa using hname⟩)
      · exact Or.inl (htenants ▸ List.mem_map.2 ⟨t, ht, by rw [TenantSet.setFlag, if_neg hname]⟩)
  | redeem _ _ htenants _ => exact Or.inl (htenants ▸ List.mem_append_left _ ht)

theorem Effect.gained_code (h : Effect S a T out) {c : EnrollCode} (hc : c ∈ T.codes) :
    c ∈ S.codes ∨ c ∈ a.codes S := by
  cases h with
  | addTenant _ hcodes => exact Or.inl (hcodes ▸ hc)
  | issueCode _ _ hcodes => exact List.mem_append.1 (hcodes ▸ hc)
  | revoke _ hcodes _ => exact Or.inl (hcodes ▸ hc)
  | setDisabled _ hcodes _ => exact Or.inl (hcodes ▸ hc)
  | redeem _ _ _ hcodes =>
      rw [hcodes] at hc
      exact Or.inl (TenantSet.mem_codesAfter_iff.1 hc).1

theorem Effect.lost_code (h : Effect S a T out) {c : EnrollCode} (hc : c ∈ S.codes) :
    c ∈ T.codes ∨ c ∈ a.codes S := by
  cases h with
  | addTenant _ hcodes => exact Or.inl (hcodes ▸ hc)
  | issueCode _ _ hcodes => exact Or.inl (hcodes ▸ List.mem_append_left _ hc)
  | revoke _ hcodes _ => exact Or.inl (hcodes ▸ hc)
  | setDisabled _ hcodes _ => exact Or.inl (hcodes ▸ hc)
  | @redeem code now _ _ _ _ _ _ hcodes =>
      by_cases hkept : c.psk ≠ code.psk ∧ c.unexpired now = true
      · exact Or.inl (hcodes ▸ TenantSet.mem_codesAfter_iff.2 ⟨hc, hkept⟩)
      · refine Or.inr (List.mem_filter.2 ⟨hc, ?_⟩)
        rw [not_and_or, not_not, Bool.not_eq_true] at hkept
        simpa using hkept

/-- What identifies a tenant stays in use or free unless the edit concerns a tenant that has it. -/
theorem Effect.key_iff {κ : Type} {key : Tenant → κ} {x : κ}
    (hkey : ∀ u t : Tenant, u.name = t.name → u.host = t.host → u.psk = t.psk → key u = key t)
    (h : Effect S a T out) (hother : x ∉ (a.tenants S).map key) :
    x ∈ T.tenants.map key ↔ x ∈ S.tenants.map key := by
  constructor
  · intro hmem
    obtain ⟨t, ht, rfl⟩ := List.mem_map.1 hmem
    rcases h.gained_tenant ht with hold | ⟨u, hu, hname, hhost, hpsk⟩
    · exact List.mem_map_of_mem hold
    · exact absurd (List.mem_map.2 ⟨u, hu, hkey u t hname hhost hpsk⟩) hother
  · intro hmem
    obtain ⟨t, ht, rfl⟩ := List.mem_map.1 hmem
    rcases h.lost_tenant ht with hkept | hgone
    · exact List.mem_map_of_mem hkept
    · exact absurd (List.mem_map_of_mem hgone) hother

theorem Effect.names_iff (h : Effect S a T out) {name : String}
    (hname : name ∉ a.concernedNames S) : name ∈ T.names ↔ name ∈ S.names :=
  h.key_iff (fun _ _ hn _ _ => hn) fun hmem => hname (List.mem_append_right _ hmem)

theorem Effect.hosts_iff (h : Effect S a T out) {host : String}
    (hhost : host ∉ a.concernedHosts S) : host ∈ T.hosts ↔ host ∈ S.hosts :=
  h.key_iff (fun _ _ _ hh _ => hh) fun hmem => hhost (List.mem_append_left _ hmem)

theorem Effect.code_mem_iff (h : Effect S a T out) {c : EnrollCode}
    (hpsk : c.psk ∉ a.concernedPsks S) : c ∈ T.codes ↔ c ∈ S.codes := by
  have hother : c ∉ a.codes S := fun hmem =>
    hpsk (List.mem_append_right _ (List.mem_append_right _ (List.mem_map_of_mem hmem)))
  constructor
  · intro hc
    exact (h.gained_code hc).resolve_right hother
  · intro hc
    exact (h.lost_code hc).resolve_right hother

/-- A PSK that the edit does not concern is that of a tenant, or of a code with some property, as
before. -/
theorem Effect.psks_iff (h : Effect S a T out) {psk : Psk} (hpsk : psk ∉ a.concernedPsks S)
    (q : EnrollCode → Bool) :
    psk ∈ T.tenants.map Tenant.psk ++ (T.codes.filter q).map EnrollCode.psk ↔
      psk ∈ S.tenants.map Tenant.psk ++ (S.codes.filter q).map EnrollCode.psk := by
  have htenants : psk ∈ T.tenants.map Tenant.psk ↔ psk ∈ S.tenants.map Tenant.psk :=
    h.key_iff (fun _ _ _ _ hp => hp)
      fun hmem => hpsk (List.mem_append_right _ (List.mem_append_left _ hmem))
  have hcodes : psk ∈ (T.codes.filter q).map EnrollCode.psk ↔
      psk ∈ (S.codes.filter q).map EnrollCode.psk := by
    simp only [List.mem_map, List.mem_filter]
    apply exists_congr
    intro c
    constructor
    · rintro ⟨⟨hc, hq⟩, rfl⟩
      exact ⟨⟨(h.code_mem_iff hpsk).1 hc, hq⟩, rfl⟩
    · rintro ⟨⟨hc, hq⟩, rfl⟩
      exact ⟨⟨(h.code_mem_iff hpsk).2 hc, hq⟩, rfl⟩
  rw [List.mem_append, List.mem_append, htenants, hcodes]

/-! ## When an edit succeeds -/

/-- What an edit needs of the entries that are there. -/
def Call.Admitted (S : TenantSet) : Call → Prop
  | .addTenant t =>
      t.name ≠ "" ∧ EntryOk t.sni t.maxConns ∧ t.name ∉ S.names ∧ t.host ∉ S.hosts ∧ t.psk ∉ S.psks
  | .issueCode c => EntryOk c.sni c.maxConns ∧ c.host ∉ S.hosts ∧ c.psk ∉ S.psks
  | .revoke name | .setDisabled name _ => name ∈ S.names
  | .redeem codePsk now name psk =>
      ∃ c ∈ S.codes, c.psk = codePsk ∧ c.unexpired now = true ∧ name ≠ "" ∧ name ∉ S.names
        ∧ c.host ∉ S.hosts
        ∧ psk ∉ S.tenants.map Tenant.psk ++ (S.codesAfter codePsk now).map EnrollCode.psk

/-- The edit succeeds. -/
def Call.Succeeds (S : TenantSet) (c : Call) : Prop := ∃ T out, c.edit S = .ok (T, out)

theorem succeeds_iff : a.Succeeds S ↔ ∃ T out, Effect S a T out := by
  simp only [Call.Succeeds, edit_eq_ok_iff]

/-- **An edit succeeds exactly when it is admitted.** -/
theorem succeeds_iff_admitted : a.Succeeds S ↔ a.Admitted S := by
  rw [succeeds_iff]
  constructor
  · rintro ⟨T, out, h⟩
    have hvalid := T.valid
    cases h with
    | addTenant htenants hcodes =>
        rw [htenants, hcodes] at hvalid
        exact (TenantSet.valid_append_tenant_iff S.valid).1 hvalid
    | issueCode hfree htenants hcodes =>
        rw [htenants, hcodes] at hvalid
        obtain ⟨hentry, hpsk⟩ := (TenantSet.valid_append_code_iff S.valid).1 hvalid
        refine ⟨hentry, ?_, hpsk⟩
        intro hmem
        obtain ⟨t, ht, hhost⟩ := List.mem_map.1 hmem
        exact hfree t ht hhost
    | revoke htenants hcodes hheld => exact List.mem_map.2 hheld
    | setDisabled htenants hcodes hheld => exact List.mem_map.2 hheld
    | @redeem code now name psk _ hcode hlive htenants hcodes =>
        rw [htenants, hcodes] at hvalid
        obtain ⟨hne, -, hname, hhost, hpsk⟩ :=
          (TenantSet.valid_append_tenant_iff (S.valid_codesAfter code.psk now)).1 hvalid
        exact ⟨code, hcode, rfl, hlive, hne, hname, hhost, hpsk⟩
  · intro h
    cases a with
    | addTenant t =>
        exact ⟨⟨_, _, (TenantSet.valid_append_tenant_iff S.valid).2 h⟩, none, .addTenant rfl rfl⟩
    | issueCode c =>
        obtain ⟨hentry, hhost, hpsk⟩ := h
        have hfree : ∀ t ∈ S.tenants, t.host ≠ c.host := fun t ht heq =>
          hhost (List.mem_map.2 ⟨t, ht, heq⟩)
        exact ⟨⟨_, _, (TenantSet.valid_append_code_iff S.valid).2 ⟨hentry, hpsk⟩⟩, none,
          .issueCode hfree rfl rfl⟩
    | revoke name =>
        exact ⟨⟨_, _, S.valid_without name⟩, none, .revoke rfl rfl (List.mem_map.1 h)⟩
    | setDisabled name disabled =>
        exact ⟨⟨_, _, S.valid_setFlag name disabled⟩, none, .setDisabled rfl rfl (List.mem_map.1 h)⟩
    | redeem codePsk now name psk =>
        obtain ⟨code, hcode, rfl, hlive, hne, hname, hhost, hpsk⟩ := h
        have hvalid := (TenantSet.valid_append_tenant_iff (t := TenantSet.redeemed code name psk)
          (S.valid_codesAfter code.psk now)).2 ⟨hne, S.valid.code_ok code hcode, hname, hhost, hpsk⟩
        exact ⟨⟨_, _, hvalid⟩, _, .redeem hcode hlive rfl rfl⟩

/-- **What an edit needs is there, or free, after an independent one exactly when it was before.** -/
theorem Effect.admitted_iff (h : Effect S a T out) (hind : Independent S a b) :
    b.Admitted T ↔ b.Admitted S := by
  have hname : ∀ name ∈ b.givenNames, (name ∈ T.names ↔ name ∈ S.names) := fun name hmem =>
    h.names_iff fun ha => hind.names name ha (List.mem_append_left _ hmem)
  have hpsk : ∀ psk ∈ b.givenPsks, psk ∉ a.concernedPsks S := fun psk hmem ha =>
    hind.psks psk ha (List.mem_append_left _ hmem)
  have hhost : ∀ host ∈ b.concernedHosts S, (host ∈ T.hosts ↔ host ∈ S.hosts) := fun host hmem =>
    h.hosts_iff fun ha => hind.hosts host ha hmem
  have hpsks : ∀ psk ∈ b.givenPsks, (psk ∈ T.psks ↔ psk ∈ S.psks) := by
    intro psk hmem
    have := h.psks_iff (hpsk psk hmem) fun _ => true
    rwa [List.filter_true, List.filter_true] at this
  cases b with
  | addTenant t =>
      have hn := hname t.name List.mem_cons_self
      have hh := hhost t.host List.mem_cons_self
      have hp := hpsks t.psk List.mem_cons_self
      simp only [Call.Admitted, hn, hh, hp]
  | issueCode c =>
      have hh := hhost c.host List.mem_cons_self
      have hp := hpsks c.psk List.mem_cons_self
      simp only [Call.Admitted, hh, hp]
  | revoke name => exact hname name List.mem_cons_self
  | setDisabled name disabled => exact hname name List.mem_cons_self
  | redeem codePsk now name psk =>
      have hn := hname name List.mem_cons_self
      have hp := h.psks_iff (hpsk psk (List.mem_cons_of_mem _ List.mem_cons_self))
        fun c => c.psk ≠ codePsk && c.unexpired now
      apply exists_congr
      intro c
      constructor
      · rintro ⟨hc, rfl, hlive, hne, hfresh, hfree, hnew⟩
        have hmem := (h.code_mem_iff (hpsk c.psk List.mem_cons_self)).1 hc
        have hh := hhost c.host (List.mem_append_right _ (List.mem_map_of_mem
          (List.mem_filter.2 ⟨hmem, by simp⟩)))
        exact ⟨hmem, rfl, hlive, hne, mt hn.2 hfresh, mt hh.2 hfree, mt hp.2 hnew⟩
      · rintro ⟨hc, rfl, hlive, hne, hfresh, hfree, hnew⟩
        have hmem := (h.code_mem_iff (hpsk c.psk List.mem_cons_self)).2 hc
        have hh := hhost c.host (List.mem_append_right _ (List.mem_map_of_mem
          (List.mem_filter.2 ⟨hc, by simp⟩)))
        exact ⟨hmem, rfl, hlive, hne, mt hn.1 hfresh, mt hh.1 hfree, mt hp.1 hnew⟩

theorem Effect.succeeds_iff (h : Effect S a T out) (hind : Independent S a b) :
    b.Succeeds T ↔ b.Succeeds S := by
  rw [succeeds_iff_admitted, succeeds_iff_admitted, h.admitted_iff hind]

/-! ## Two orders of two edits -/

/-- A tenant whose name the edit is not given stays as it is. -/
theorem keepTenant_of_not_given {t : Tenant} (h : t.name ∉ a.givenNames) :
    a.keepTenant t = some t := by
  cases a with
  | addTenant _ => rfl
  | issueCode _ => rfl
  | revoke name =>
      have hne : t.name ≠ name := fun heq => h (heq ▸ List.mem_cons_self)
      simp [Call.keepTenant, Option.guard, hne]
  | setDisabled name disabled =>
      have hne : t.name ≠ name := fun heq => h (heq ▸ List.mem_cons_self)
      simp [Call.keepTenant, TenantSet.setFlag, hne]
  | redeem _ _ _ _ => rfl

/-- No edit changes a name. -/
theorem keepTenant_name {t u : Tenant} (h : a.keepTenant t = some u) : u.name = t.name := by
  cases a with
  | addTenant _ => exact congrArg Tenant.name (Option.some.inj h).symm
  | issueCode _ => exact congrArg Tenant.name (Option.some.inj h).symm
  | revoke name =>
      simp only [Call.keepTenant, Option.guard_eq_some_iff] at h
      rw [h.1]
  | setDisabled name disabled =>
      obtain rfl := Option.some.inj h
      exact TenantSet.setFlag_name _ _ _
  | redeem _ _ _ _ => exact congrArg Tenant.name (Option.some.inj h).symm

theorem addedTenants_given (h : Effect S a T out) {t : Tenant} (ht : t ∈ a.addedTenants out) :
    t.name ∈ a.givenNames := by
  cases h with
  | addTenant => exact List.mem_map_of_mem (f := Tenant.name) ht
  | issueCode => cases ht
  | revoke => cases ht
  | setDisabled => cases ht
  | redeem => exact List.mem_map_of_mem (f := Tenant.name) ht

/-- Edits that are given different names do not see each other's tenants. -/
theorem keepTenant_comm (h : ∀ name ∈ a.givenNames, name ∉ b.givenNames) (t : Tenant) :
    (a.keepTenant t).bind b.keepTenant = (b.keepTenant t).bind a.keepTenant := by
  -- the edit that is not given the tenant's name can be left out on both sides
  have hleft : ∀ c d : Call, t.name ∉ c.givenNames →
      (c.keepTenant t).bind d.keepTenant = (d.keepTenant t).bind c.keepTenant := by
    intro c d hc
    rw [keepTenant_of_not_given hc, Option.bind_some]
    cases hd : d.keepTenant t with
    | none => rfl
    | some u =>
        have hu : u.name ∉ c.givenNames := by rwa [keepTenant_name hd]
        rw [Option.bind_some, keepTenant_of_not_given hu]
  by_cases ha : t.name ∈ a.givenNames
  · exact (hleft b a (h t.name ha)).symm
  · exact hleft a b ha

/-- The code if it is unexpired. -/
def live (now : Nat) : EnrollCode → Option EnrollCode := Option.guard fun c => c.unexpired now

theorem filterMap_live (now : Nat) (cs : List EnrollCode) :
    cs.filterMap (live now) = cs.filter fun c => c.unexpired now := by
  rw [live, List.filterMap_eq_filter]

/-- An unexpired code whose PSK the edit is not given stays as it is. -/
theorem keepCode_of_not_given {now : Nat} (ha : a.At now) {c : EnrollCode} (h : c.psk ∉ a.givenPsks)
    (hlive : c.unexpired now = true) : a.keepCode c = some c := by
  cases a with
  | addTenant _ => rfl
  | issueCode _ => rfl
  | revoke _ => rfl
  | setDisabled _ _ => rfl
  | redeem codePsk _ _ psk =>
      obtain rfl := ha
      have hne : c.psk ≠ codePsk := fun heq => h (heq ▸ List.mem_cons_self)
      simp [Call.keepCode, Option.guard, hne, hlive]

/-- No edit changes a code. -/
theorem keepCode_eq {c d : EnrollCode} (h : a.keepCode c = some d) : d = c := by
  cases a with
  | addTenant _ => exact (Option.some.inj h).symm
  | issueCode _ => exact (Option.some.inj h).symm
  | revoke _ => exact (Option.some.inj h).symm
  | setDisabled _ _ => exact (Option.some.inj h).symm
  | redeem codePsk now name psk =>
      simp only [Call.keepCode, Option.guard_eq_some_iff] at h
      exact h.1.symm

theorem keepCode_comm (a b : Call) (c : EnrollCode) :
    (a.keepCode c).bind b.keepCode = (b.keepCode c).bind a.keepCode := by
  cases ha : a.keepCode c with
  | none =>
      cases hb : b.keepCode c with
      | none => rfl
      | some d =>
          obtain rfl := keepCode_eq hb
          exact ha.symm
  | some d =>
      obtain rfl := keepCode_eq ha
      cases hb : b.keepCode d with
      | none => exact hb
      | some e =>
          obtain rfl := keepCode_eq hb
          exact hb.trans ha.symm

/-- As far as unexpired codes go, an edit leaves alone those whose PSK it is not given. -/
theorem keepCode_live {now : Nat} (ha : a.At now) {c : EnrollCode} (h : c.psk ∉ a.givenPsks) :
    (a.keepCode c).bind (live now) = live now c := by
  cases hlive : c.unexpired now with
  | true => rw [keepCode_of_not_given ha h hlive, Option.bind_some]
  | false =>
      have hnone : live now c = none := Option.guard_eq_none_iff.2 hlive
      cases hkeep : a.keepCode c with
      | none => exact hnone.symm
      | some d =>
          obtain rfl := keepCode_eq hkeep
          rfl

theorem addedCodes_given {c : EnrollCode} (hc : c ∈ a.addedCodes) : c.psk ∈ a.givenPsks := by
  cases a with
  | issueCode d => exact List.mem_map_of_mem (f := EnrollCode.psk) hc
  | addTenant _ => cases hc
  | revoke _ => cases hc
  | setDisabled _ _ => cases hc
  | redeem _ _ _ _ => cases hc

/-- What an edit returns is the same after an independent one. -/
theorem Effect.out_eq {U V : TenantSet} {out' : Option Tenant} {oa : Option Tenant}
    (ha : Effect S a T oa) (hind : Independent S a b) (hb : Effect S b U out)
    (hb' : Effect T b V out') : out' = out := by
  cases hb with
  | addTenant => cases hb'; rfl
  | issueCode => cases hb'; rfl
  | revoke => cases hb'; rfl
  | setDisabled => cases hb'; rfl
  | @redeem code now name psk _ hcode =>
      generalize hp : code.psk = p at hb'
      cases hb' with
      | @redeem code' _ _ _ _ hcode' =>
          have hother : code'.psk ∉ a.concernedPsks S := fun hmem =>
            hind.psks _ hmem (List.mem_append_left _ (hp ▸ List.mem_cons_self))
          have hold := (ha.code_mem_iff hother).1 hcode'
          have heq : code' = code :=
            List.inj_on_of_nodup_map S.valid.psks.of_append_right hold hcode hp.symm
          rw [heq]

/-- The same tenants, and the same codes unexpired at `now`, up to their order. -/
structure SameEntries (now : Nat) (S T : TenantSet) : Prop where
  tenants : S.tenants.Perm T.tenants
  codes : (S.codes.filter fun c => c.unexpired now).Perm (T.codes.filter fun c => c.unexpired now)

/-- **The two orders of two independent edits give the same entries.** -/
theorem Effect.same_entries {U V W : TenantSet} {now : Nat} {oa ob oa' ob' : Option Tenant}
    (hind : Independent S a b) (hat : a.At now) (hbt : b.At now) (ha : Effect S a T oa)
    (hab : Effect T b U ob') (hb : Effect S b V ob) (hba : Effect V a W oa') :
    oa' = oa ∧ ob' = ob ∧ SameEntries now U W := by
  have hnames : ∀ name ∈ a.givenNames, name ∉ b.givenNames := fun name hna hnb =>
    hind.names name (List.mem_append_left _ hna) (List.mem_append_left _ hnb)
  have hpsks : ∀ psk ∈ a.givenPsks, psk ∉ b.givenPsks := fun psk hpa hpb =>
    hind.psks psk (List.mem_append_left _ hpa) (List.mem_append_left _ hpb)
  obtain rfl : oa' = oa := hb.out_eq hind.symm ha hba
  obtain rfl : ob' = ob := ha.out_eq hind hb hab
  refine ⟨rfl, rfl, ?_, ?_⟩
  · have hperm := observed_amend_perm (p := some) (l := S.tenants)
      (fun t _ => congrArg (Option.bind · some) (keepTenant_comm hnames t))
      (fun t ht => congrArg (Option.bind · some)
        (keepTenant_of_not_given (hnames _ (addedTenants_given ha ht))))
      (fun t ht => congrArg (Option.bind · some)
        (keepTenant_of_not_given fun hmem => hnames _ hmem (addedTenants_given hb ht)))
    rw [hab.amends.1, ha.amends.1, hba.amends.1, hb.amends.1]
    simpa only [List.filterMap_some] using hperm
  · have hperm := observed_amend_perm (p := live now) (l := S.codes)
      (fun c _ => congrArg (Option.bind · (live now)) (keepCode_comm a b c))
      (fun c hc => keepCode_live hbt (hpsks _ (addedCodes_given hc)))
      (fun c hc => keepCode_live hat fun hmem => hpsks _ hmem (addedCodes_given hc))
    rw [filterMap_live, filterMap_live] at hperm
    rw [hab.amends.2, ha.amends.2, hba.amends.2, hb.amends.2]
    exact hperm

/-! ## What an edit leaves alone -/

/-- `redeem` may drop a code that has expired; no other edit drops one it is not given. -/
def Call.spares : Call → EnrollCode → Bool
  | .redeem _ now _ _, c => c.unexpired now
  | .addTenant _, _ | .issueCode _, _ | .revoke _, _ | .setDisabled _ _, _ => true

/-- The tenants whose name and the codes whose PSK the edit is not given are there as before, in the
same order. -/
structure Untouched (a : Call) (S T : TenantSet) : Prop where
  tenants : (T.tenants.filter fun t => t.name ∉ a.givenNames)
    = S.tenants.filter fun t => t.name ∉ a.givenNames
  codes : (T.codes.filter fun c => c.psk ∉ a.givenPsks ∧ a.spares c = true)
    = S.codes.filter fun c => c.psk ∉ a.givenPsks ∧ a.spares c = true

theorem keepCode_of_spared {c : EnrollCode} (h : c.psk ∉ a.givenPsks) (hspared : a.spares c = true) :
    a.keepCode c = some c := by
  cases a with
  | addTenant _ => rfl
  | issueCode _ => rfl
  | revoke _ => rfl
  | setDisabled _ _ => rfl
  | redeem codePsk now name psk =>
      have hat : (Call.redeem codePsk now name psk).At now := rfl
      exact keepCode_of_not_given hat h hspared

theorem Effect.untouched (h : Effect S a T out) : Untouched a S T where
  tenants := by
    rw [h.amends.1]
    apply filter_amend
    · intro t _ hother
      exact keepTenant_of_not_given (by simpa using hother)
    · intro t u hkeep hother
      rwa [← keepTenant_name hkeep]
    · intro t ht
      simpa using addedTenants_given h ht
  codes := by
    rw [h.amends.2]
    apply filter_amend
    · intro c _ hother
      obtain ⟨hpsk, hspared⟩ := of_decide_eq_true hother
      exact keepCode_of_spared hpsk hspared
    · intro c d hkeep hother
      rwa [← keepCode_eq hkeep]
    · intro c hc
      exact decide_eq_false fun hother => hother.1 (addedCodes_given hc)

/-- **Independent edits commute.**  Each succeeds after the other exactly when it succeeds on `S`; when
both succeed, the two orders return the same and give the same tenants and unexpired codes; and an
edit leaves the entries that it is not given alone. -/
theorem independent_edits_commute (S : TenantSet) (now : Nat) (a b : Call) (ha : a.At now)
    (hb : b.At now) (h : Independent S a b) :
    (∀ T out, a.edit S = .ok (T, out) → (b.Succeeds T ↔ b.Succeeds S))
      ∧ (∀ T out, b.edit S = .ok (T, out) → (a.Succeeds T ↔ a.Succeeds S))
      ∧ (∀ T V oa ob, a.edit S = .ok (T, oa) → b.edit S = .ok (V, ob) →
          ∃ U W, b.edit T = .ok (U, ob) ∧ a.edit V = .ok (W, oa) ∧ SameEntries now U W)
      ∧ ∀ c T out, (c = a ∨ c = b) → c.edit S = .ok (T, out) → Untouched c S T := by
  refine ⟨?_, ?_, ?_, ?_⟩
  · intro T out hT
    exact (edit_eq_ok_iff.1 hT).succeeds_iff h
  · intro T out hT
    exact (edit_eq_ok_iff.1 hT).succeeds_iff h.symm
  · intro T V oa ob hT hV
    have hfirst := edit_eq_ok_iff.1 hT
    have hsecond := edit_eq_ok_iff.1 hV
    obtain ⟨U, ob', hU⟩ := (hfirst.succeeds_iff h).2 ⟨V, ob, hV⟩
    obtain ⟨W, oa', hW⟩ := (hsecond.succeeds_iff h.symm).2 ⟨T, oa, hT⟩
    obtain ⟨rfl, rfl, hsame⟩ := hfirst.same_entries h ha hb (edit_eq_ok_iff.1 hU) hsecond
      (edit_eq_ok_iff.1 hW)
    exact ⟨U, W, hU, hW, hsame⟩
  · intro c T out _ hT
    exact (edit_eq_ok_iff.1 hT).untouched

/-- A tenant, a code and an expired code. -/
def mixedSet : TenantSet :=
  ⟨[⟨"t-1", Psk.repeated 5, "b.example.com", 4, false⟩],
    [sampleCode, ⟨Psk.repeated 2, "c.example.com", 4, some 3⟩],
    checkSet_eq_ok_iff.1 (by decide)⟩

/-- A code is redeemed while a tenant is disabled. -/
theorem redeem_and_disable_commute :
    ∃ U W, (Call.setDisabled "t-1" true).edit
          (exec mixedSet (.redeem (Psk.repeated 1) 5 "t-2" (Psk.repeated 8))).1 = .ok (U, none)
      ∧ (Call.redeem (Psk.repeated 1) 5 "t-2" (Psk.repeated 8)).edit
          (exec mixedSet (.setDisabled "t-1" true)).1
        = .ok (W, some ⟨"t-2", Psk.repeated 8, "a.example.com", 4, false⟩)
      ∧ SameEntries 5 U W :=
  (independent_edits_commute mixedSet 5 (.redeem (Psk.repeated 1) 5 "t-2" (Psk.repeated 8))
    (.setDisabled "t-1" true) rfl trivial ⟨by decide, by decide, by decide⟩).2.2.1 _ _ _ _
      (by decide) (by decide)

end Tenancy
end Erbridge
