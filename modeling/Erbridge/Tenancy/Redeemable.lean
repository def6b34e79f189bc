import Erbridge.Tenancy.Store

/-!
# Codes that can be redeemed

`candidates` offers every unexpired code for a handshake, and `with_code` refuses a code whose host a
tenant holds, since it "could never be redeemed".  The model goes over the other edits that bring a
code and a tenant for one host together.

* `TenantSet.AllRedeemable` — every code offered can be redeemed; `allRedeemable_iff` says that this is
  a matter of the hosts alone.
* `Clashes` — the calls that give a tenant the host of an outstanding code: adding the tenant, and
  redeeming one of two codes for the host.
* `allRedeemable_iff_no_clash` — the runs from the empty set that keep every code redeemable are those
  in which no successful call clashes.
-/

namespace Erbridge
namespace Tenancy

open Noise (Psk)

/-- A handshake is offered the code at some time or other. -/
def EnrollCode.Offered (c : EnrollCode) : Prop := ∃ now, c.unexpired now = true

namespace TenantSet

/-- A name and a PSK that no entry has. -/
structure Fresh (S : TenantSet) (name : String) (psk : Psk) : Prop where
  name_ne : name ≠ ""
  name_new : name ∉ S.names
  psk_new : psk ∉ S.psks

/-- Every code that is offered for a handshake can be redeemed, under every fresh name and PSK, and no
tenant holds its host. -/
def AllRedeemable (S : TenantSet) : Prop :=
  ∀ now c, Identity.code c ∈ (S.candidates now).ids →
    (∀ name psk, S.Fresh name psk →
      ∃ T, S.redeem c.psk now name psk = .ok (T, redeemed c name psk)) ∧ c.host ∉ S.hosts

/-- Redeeming needs nothing but that the host is free. -/
theorem allRedeemable_iff {S : TenantSet} :
    S.AllRedeemable ↔ ∀ c ∈ S.codes, c.Offered → c.host ∉ S.hosts := by
  constructor
  · rintro h c hc ⟨now, hlive⟩
    exact (h now c (mem_candidates_iff.2 ⟨hc, hlive⟩)).2
  · intro h now c hoffered
    obtain ⟨hc, hlive⟩ := mem_candidates_iff.1 hoffered
    have hhost := h c hc ⟨now, hlive⟩
    exact ⟨fun name psk hfresh => redeem_exists hc hlive hfresh.name_ne hfresh.name_new
      hfresh.psk_new hhost, hhost⟩

theorem allRedeemable_empty : empty.AllRedeemable :=
  allRedeemable_iff.2 fun _ hc => nomatch hc

end TenantSet

variable {S T : TenantSet}

/-- The call brings a tenant for the host of a code that stays outstanding. -/
def Clashes (S : TenantSet) : Call → Prop
  | .addTenant t => ∃ c ∈ S.codes, c.Offered ∧ c.host = t.host
  | .redeem codePsk now _ _ => ∃ code ∈ S.codes, code.psk = codePsk ∧ code.unexpired now = true ∧
      ∃ c ∈ S.codesAfter codePsk now, c.host = code.host
  | .issueCode _ | .revoke _ | .setDisabled _ _ => False

/-- The condition on a call: it fails, or it does not clash. -/
def KeepsApart (S : TenantSet) (c : Call) : Prop :=
  (∃ T out, Effect S c T out) → ¬Clashes S c

/-- After a call that has its effect, the codes are redeemable exactly if it did not clash. -/
theorem Effect.allRedeemable_iff {call : Call} {out : Option Tenant} (h : Effect S call T out)
    (hS : S.AllRedeemable) : T.AllRedeemable ↔ ¬Clashes S call := by
  have hfree := TenantSet.allRedeemable_iff.1 hS
  rw [TenantSet.allRedeemable_iff]
  unfold TenantSet.hosts at hfree ⊢
  cases h with
  | @addTenant t _ htenants hcodes =>
      rw [htenants, hcodes]
      constructor
      · rintro hT ⟨c, hc, hoffered, hhost⟩
        exact hT c hc hoffered (by simp [hhost])
      · intro hclash c hc hoffered hmem
        rw [List.map_append, List.mem_append, List.map_singleton, List.mem_singleton] at hmem
        rcases hmem with hold | hnew
        · exact hfree c hc hoffered hold
        · exact hclash ⟨c, hc, hoffered, hnew⟩
  | issueCode hhost htenants hcodes =>
      rw [htenants, hcodes]
      refine iff_of_true (fun c hc hoffered => ?_) id
      rcases List.mem_append.1 hc with hold | hnew
      · exact hfree c hold hoffered
      · obtain rfl := List.mem_singleton.1 hnew
        rintro hmem
        obtain ⟨t, ht, heq⟩ := List.mem_map.1 hmem
        exact hhost t ht heq
  | revoke htenants hcodes _ =>
      rw [htenants, hcodes]
      refine iff_of_true (fun c hc hoffered hmem => ?_) id
      exact hfree c hc hoffered ((List.filter_sublist.map _).subset hmem)
  | setDisabled htenants hcodes _ =>
      rw [htenants, hcodes]
      refine iff_of_true (fun c hc hoffered hmem => ?_) id
      exact hfree c hc hoffered (by simpa [Function.comp_def] using hmem)
  | @redeem code now name psk _ hcode hlive htenants hcodes =>
      rw [htenants, hcodes]
      constructor
      · rintro hT ⟨code', hcode', hpsk, -, c, hc, hhost⟩
        -- the PSK determines the code
        obtain rfl : code' = code :=
          List.inj_on_of_nodup_map S.valid.psks.of_append_right hcode' hcode hpsk
        refine hT c hc ⟨now, (TenantSet.mem_codesAfter_iff.1 hc).2.2⟩ ?_
        rw [List.map_append, hhost]
        exact List.mem_append_right _ (List.mem_singleton_self _)
      · intro hclash c hc hoffered hmem
        rw [List.map_append, List.mem_append, List.map_singleton, List.mem_singleton] at hmem
        rcases hmem with hold | hnew
        · exact hfree c (TenantSet.mem_codesAfter_iff.1 hc).1 hoffered hold
        · exact hclash ⟨code, hcode, rfl, hlive, c, hc, hnew⟩

/-- A call keeps every code redeemable exactly if it keeps codes and tenants apart. -/
theorem keepsApart_iff {c : Call} (hS : S.AllRedeemable) :
    KeepsApart S c ↔ ∀ T, store.step S c = some T → T.AllRedeemable := by
  constructor
  · rintro hapart T hstep
    rw [store_step, Option.some.injEq] at hstep
    rcases exec_cases S c with ⟨e, he⟩ | ⟨T', out, heq, heff⟩
    · rw [← hstep, he]
      exact hS
    · rw [← hstep, heq]
      exact (heff.allRedeemable_iff hS).2 (hapart ⟨T', out, heff⟩)
  · rintro h ⟨T, out, heff⟩
    exact (heff.allRedeemable_iff hS).1 (h T (by rw [store_step, exec_of_effect heff]))

/-- **The runs that keep every code redeemable** are those without a successful call that clashes. -/
theorem allRedeemable_iff_no_clash (calls : List Call) :
    (∀ cs S, cs <+: calls → store.run TenantSet.empty cs = some S → S.AllRedeemable) ↔
      store.Meets KeepsApart TenantSet.empty calls :=
  store.forall_reached_iff (fun _ => True) (fun _ _ => trivial) (fun _ hS => keepsApart_iff hS) trivial
    TenantSet.allRedeemable_empty

/-- Two codes for one host, and the first is redeemed. -/
def sharedHost : List Call :=
  [.issueCode ⟨Psk.repeated 1, "a.example.com", 1, none⟩,
    .issueCode ⟨Psk.repeated 2, "a.example.com", 1, none⟩,
    .redeem (Psk.repeated 1) 0 "t-1" (Psk.repeated 3)]

/-- The second code is offered for ever and can never be redeemed. -/
theorem second_code_dead :
    ¬∀ calls S, store.run TenantSet.empty calls = some S → S.AllRedeemable := by
  intro h
  have hend : (store.run TenantSet.empty sharedHost).map (fun S => (S.codes, S.hosts)) =
      some ([⟨Psk.repeated 2, "a.example.com", 1, none⟩], ["a.example.com"]) := by
    decide +kernel
  obtain ⟨S, hrun, hend⟩ := Option.map_eq_some_iff.1 hend
  obtain ⟨hcodes, hhosts⟩ := Prod.mk.inj hend
  have hfree := TenantSet.allRedeemable_iff.1 (h sharedHost S hrun)
  rw [hcodes, hhosts] at hfree
  exact hfree _ (List.mem_singleton_self _) ⟨0, rfl⟩ (by decide +kernel)

end Tenancy
end Erbridge
