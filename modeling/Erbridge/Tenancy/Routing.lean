import Erbridge.Core.Machine
import Erbridge.Tenancy.Edits
import Erbridge.Tenancy.TenantFile

/-!
# Identification and routing are unambiguous

Every set that a server or an operator ever holds comes from the empty one by edits and by reading a
tenant file.  All of them are `Valid`, and a lookup by host has at most one answer, which does not
depend on the order of the entries.

* `Producer` — the ways to get a set, as the events of a machine.
* `produced_valid` — what they make satisfies the three uniqueness conditions.
* `tenantBySni_perm` — the order of the entries does not matter.
* `routing_unambiguous` — the constructor, the producers and the lookup together.
-/

namespace Erbridge
namespace Tenancy

open Noise (Psk)

/-- A way to get a set from another one. -/
inductive Producer
  | withTenant (t : Tenant)
  | withCode (c : EnrollCode)
  | withoutTenant (name : String)
  | withDisabled (name : String) (disabled : Bool)
  | redeem (codePsk : Psk) (now : Nat) (name : String) (psk : Psk)
  /-- Reading a file forgets what was there before. -/
  | fromToml (bytes : List UInt8)
deriving DecidableEq

/-- The set that it makes, if it does not fail. -/
def Producer.make (toml : Toml) (S : TenantSet) : Producer → Option TenantSet
  | .withTenant t => (S.withTenant t).toOption
  | .withCode c => (S.withCode c).toOption
  | .withoutTenant name => (S.withoutTenant name).toOption
  | .withDisabled name disabled => (S.withDisabled name disabled).toOption
  | .redeem codePsk now name psk => (S.redeem codePsk now name psk).toOption.map Prod.fst
  | .fromToml bytes => (TenantSet.fromToml toml bytes).toOption

/-- Sets made one from the other. -/
def producers (toml : Toml) : Core.Machine TenantSet Producer where
  step := Producer.make toml

theorem toOption_eq_some_iff {ε α : Type} {x : Except ε α} {a : α} :
    x.toOption = some a ↔ x = .ok a := by
  cases x <;> simp [Except.toOption]

theorem fromToml_eq_ok {toml : Toml} {bytes : List UInt8} {S : TenantSet}
    (h : TenantSet.fromToml toml bytes = .ok S) :
    ∃ tenants codes, TenantSet.new tenants codes = .ok S := by
  unfold TenantSet.fromToml at h
  split at h
  · cases h
  · split at h
    · rename_i tenants codes _ _
      split at h
      · rename_i T hnew
        cases h
        exact ⟨tenants, codes, hnew⟩
      · cases h
    · cases h

/-- Each producer ends in `TenantSet::new`, on entries that it got from the set or from the file. -/
theorem new_of_make {toml : Toml} {S T : TenantSet} {e : Producer}
    (h : e.make toml S = some T) : ∃ tenants codes, TenantSet.new tenants codes = .ok T := by
  cases e with
  | withTenant t => exact ⟨_, _, toOption_eq_some_iff.1 h⟩
  | withCode c =>
      obtain ⟨-, htenants, hcodes⟩ :=
        TenantSet.withCode_eq_ok_iff.1 (toOption_eq_some_iff.1 h)
      exact ⟨_, _, TenantSet.new_eq_ok_iff.2 ⟨htenants, hcodes⟩⟩
  | withoutTenant name =>
      obtain ⟨-, htenants, hcodes⟩ :=
        TenantSet.withoutTenant_eq_ok_iff.1 (toOption_eq_some_iff.1 h)
      exact ⟨_, _, TenantSet.new_eq_ok_iff.2 ⟨htenants, hcodes⟩⟩
  | withDisabled name disabled =>
      obtain ⟨-, htenants, hcodes⟩ :=
        TenantSet.withDisabled_eq_ok_iff.1 (toOption_eq_some_iff.1 h)
      exact ⟨_, _, TenantSet.new_eq_ok_iff.2 ⟨htenants, hcodes⟩⟩
  | redeem codePsk now name psk =>
      obtain ⟨⟨T', t⟩, hmade, rfl⟩ := Option.map_eq_some_iff.1 h
      obtain ⟨c, -, -, -, -, htenants, hcodes⟩ :=
        TenantSet.redeem_eq_ok_iff.1 (toOption_eq_some_iff.1 hmade)
      exact ⟨_, _, TenantSet.new_eq_ok_iff.2 ⟨htenants, hcodes⟩⟩
  | fromToml bytes => exact fromToml_eq_ok (toOption_eq_some_iff.1 h)

/-- Induction on the producers: the last one ends in `TenantSet::new`, which accepts valid entries
only. -/
theorem produced_valid {toml : Toml} {S : TenantSet} {es : List Producer}
    (hrun : (producers toml).run TenantSet.empty es = some S) : Valid S.tenants S.codes := by
  refine (producers toml).run_invariant (fun T => Valid T.tenants T.codes) ?_
    TenantSet.empty.valid hrun
  intro T e U _ hstep
  obtain ⟨tenants, codes, hnew⟩ := new_of_make hstep
  obtain ⟨rfl, rfl⟩ := TenantSet.new_eq_ok_iff.1 hnew
  exact TenantSet.exists_new_eq_ok_iff.1 ⟨U, hnew⟩

/-- The order of the entries does not matter to a lookup. -/
theorem tenantBySni_perm {S T : TenantSet} (hperm : T.tenants.Perm S.tenants) (sni : String) :
    T.tenantBySni sni = S.tenantBySni sni := by
  apply Option.ext
  intro t
  rw [TenantSet.tenantBySni_eq_some_iff, TenantSet.tenantBySni_eq_some_iff, hperm.mem_iff]

/-- **Identification and routing are unambiguous.**  The constructor takes exactly the valid entries and
keeps them as they are; every set that the producers make is valid; and in such a set a host is routed
to `t` if and only if `t` is an enabled tenant of the set whose host matches, whatever the order of
the entries. -/
theorem routing_unambiguous (toml : Toml) :
    (∀ tenants codes,
        (∃ S : TenantSet, TenantSet.new tenants codes = .ok S ∧ S.tenants = tenants
          ∧ S.codes = codes) ↔ Valid tenants codes)
      ∧ ∀ es S, (producers toml).run TenantSet.empty es = some S →
          Valid S.tenants S.codes
            ∧ (∀ sni t, S.tenantBySni sni = some t ↔
                t ∈ S.tenants ∧ t.disabled = false ∧ normalizeHost t.sni = normalizeHost sni)
            ∧ ∀ T : TenantSet, T.tenants.Perm S.tenants →
                ∀ sni, T.tenantBySni sni = S.tenantBySni sni := by
  refine ⟨fun tenants codes => ?_, fun es S hrun => ⟨produced_valid hrun, fun sni t => ?_, ?_⟩⟩
  · rw [← TenantSet.exists_new_eq_ok_iff]
    constructor
    · rintro ⟨S, hnew, -⟩
      exact ⟨S, hnew⟩
    · rintro ⟨S, hnew⟩
      exact ⟨S, hnew, TenantSet.new_eq_ok_iff.1 hnew⟩
  · exact TenantSet.tenantBySni_eq_some_iff
  · exact fun T hperm sni => tenantBySni_perm hperm sni

/-- A tenant is added, an enrollment code is issued and redeemed, and the first tenant is suspended. -/
def sampleProducers : List Producer :=
  [.withTenant ⟨"a", Psk.repeated 1, "A.example.com", 4, false⟩,
    .withCode ⟨Psk.repeated 2, "b.example.com.", 8, none⟩,
    .redeem (Psk.repeated 2) 100 "b" (Psk.repeated 3), .withDisabled "a" true]

theorem routing_unambiguous_sample :
    ∃ S, (producers ⟨fun _ => none, fun _ => none⟩).run TenantSet.empty sampleProducers = some S
      ∧ Valid S.tenants S.codes ∧ S.tenantBySni "a.example.com" = none
      ∧ S.tenantBySni " B.Example.com" = some ⟨"b", Psk.repeated 3, "b.example.com.", 8, false⟩ := by
  have hend : ((producers ⟨fun _ => none, fun _ => none⟩).run TenantSet.empty
      sampleProducers).map TenantSet.tenants
        = some [⟨"a", Psk.repeated 1, "A.example.com", 4, true⟩,
            ⟨"b", Psk.repeated 3, "b.example.com.", 8, false⟩] := by decide
  obtain ⟨S, hrun, htenants⟩ := Option.map_eq_some_iff.1 hend
  obtain ⟨hvalid, hroute, -⟩ := (routing_unambiguous _).2 sampleProducers S hrun
  refine ⟨S, hrun, hvalid, ?_, (hroute _ _).2 ?_⟩
  · rw [TenantSet.tenantBySni, htenants]
    decide
  · rw [htenants]
    decide

end Tenancy
end Erbridge
