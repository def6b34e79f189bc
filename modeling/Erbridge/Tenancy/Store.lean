import Erbridge.Core.Machine
import Erbridge.Tenancy.Edits

/-!
# The tenant store: single use of enrollment codes over every run

The calls of the `TenantStore` trait over `MemoryStore`.  `replaceWith` is atomic (the store holds its
lock for the whole call), so a run of any number of callers is a list of calls, and every order of
the list is an interleaving.

* `Effect` — what a successful call does, one constructor for each call; `edit_eq_ok_iff` says it is
  exact, and every later proof is a case analysis over it.
* `redemptions p S calls` — the tenants that the calls made from the code with PSK `p`.
* `redemptions_eq_nil_of_absent`, `redemptions_length_le_one` — a code that is gone stays gone until
  it is issued again.
* `Race` — several callers redeem one code while other calls go on; `Race.step` keeps it along the
  calls before the first of them, and `Race.redemptions_length` gives exactly one winner.
-/

namespace Erbridge
namespace Tenancy

open Noise (Psk)

/-- One call on a `TenantStore`. -/
inductive Call
  | addTenant (t : Tenant)
  | issueCode (c : EnrollCode)
  | revoke (name : String)
  | setDisabled (name : String) (disabled : Bool)
  | redeem (codePsk : Psk) (now : Nat) (name : String) (psk : Psk)
deriving DecidableEq

/-- The closure the call gives to `replace_with`, with the tenant `redeem` captures from it. -/
def Call.edit : Call → TenantSet → Except SetError (TenantSet × Option Tenant)
  | .addTenant t, s => (s.withTenant t).map fun next => (next, none)
  | .issueCode c, s => (s.withCode c).map fun next => (next, none)
  | .revoke name, s => (s.withoutTenant name).map fun next => (next, none)
  | .setDisabled name disabled, s => (s.withDisabled name disabled).map fun next => (next, none)
  | .redeem codePsk now name psk, s =>
      (s.redeem codePsk now name psk).map fun made => (made.1, some made.2)

/-- `MemoryStore::replace_with`: if the edit fails nothing is written. -/
def replaceWith {α : Type} (S : TenantSet) (edit : TenantSet → Except SetError (TenantSet × α)) :
    TenantSet × Except SetError α :=
  match edit S with
  | .error e => (S, .error e)
  | .ok (next, out) => (next, .ok out)

/-- The contents after the call, and what the call returns. -/
def exec (S : TenantSet) (c : Call) : TenantSet × Except SetError (Option Tenant) :=
  replaceWith S c.edit

/-- The store as a machine: one step for each atomic call. -/
def store : Core.Machine TenantSet Call where
  step S c := some (exec S c).1

@[simp] theorem store_step {S : TenantSet} {c : Call} : store.step S c = some (exec S c).1 := rfl

/-- What a successful call does. -/
inductive Effect (S : TenantSet) : Call → TenantSet → Option Tenant → Prop
  | addTenant {t : Tenant} {T : TenantSet} (htenants : T.tenants = S.tenants ++ [t])
      (hcodes : T.codes = S.codes) : Effect S (.addTenant t) T none
  | issueCode {c : EnrollCode} {T : TenantSet} (hfree : ∀ t ∈ S.tenants, t.host ≠ c.host)
      (htenants : T.tenants = S.tenants) (hcodes : T.codes = S.codes ++ [c]) :
      Effect S (.issueCode c) T none
  | revoke {name : String} {T : TenantSet}
      (htenants : T.tenants = S.tenants.filter (fun t => t.name ≠ name))
      (hcodes : T.codes = S.codes) (hheld : ∃ t ∈ S.tenants, t.name = name) :
      Effect S (.revoke name) T none
  | setDisabled {name : String} {disabled : Bool} {T : TenantSet}
      (htenants : T.tenants = S.tenants.map (TenantSet.setFlag name disabled))
      (hcodes : T.codes = S.codes) (hheld : ∃ t ∈ S.tenants, t.name = name) :
      Effect S (.setDisabled name disabled) T none
  | redeem {code : EnrollCode} {now : Nat} {name : String} {psk : Psk} {T : TenantSet}
      (hcode : code ∈ S.codes) (hlive : code.unexpired now = true)
      (htenants : T.tenants = S.tenants ++ [TenantSet.redeemed code name psk])
      (hcodes : T.codes = S.codesAfter code.psk now) :
      Effect S (.redeem code.psk now name psk) T (some (TenantSet.redeemed code name psk))

theorem except_map_eq_ok_iff {α β : Type} {x : Except SetError α} {f : α → β} {b : β} :
    x.map f = .ok b ↔ ∃ a, x = .ok a ∧ f a = b := by
  cases x <;> simp [Except.map]

theorem edit_eq_ok_iff {S T : TenantSet} {c : Call} {out : Option Tenant} :
    c.edit S = .ok (T, out) ↔ Effect S c T out := by
  constructor
  · intro h
    cases c with
    | addTenant t =>
        obtain ⟨T', hT, heq⟩ := except_map_eq_ok_iff.1 h
        obtain ⟨rfl, rfl⟩ := Prod.mk.inj heq
        obtain ⟨htenants, hcodes⟩ := TenantSet.withTenant_eq_ok_iff.1 hT
        exact .addTenant htenants hcodes
    | issueCode c =>
        obtain ⟨T', hT, heq⟩ := except_map_eq_ok_iff.1 h
        obtain ⟨rfl, rfl⟩ := Prod.mk.inj heq
        obtain ⟨hfree, htenants, hcodes⟩ := TenantSet.withCode_eq_ok_iff.1 hT
        exact .issueCode hfree htenants hcodes
    | revoke name =>
        obtain ⟨T', hT, heq⟩ := except_map_eq_ok_iff.1 h
        obtain ⟨rfl, rfl⟩ := Prod.mk.inj heq
        obtain ⟨hheld, htenants, hcodes⟩ := TenantSet.withoutTenant_eq_ok_iff.1 hT
        exact .revoke htenants hcodes hheld
    | setDisabled name disabled =>
        obtain ⟨T', hT, heq⟩ := except_map_eq_ok_iff.1 h
        obtain ⟨rfl, rfl⟩ := Prod.mk.inj heq
        obtain ⟨hheld, htenants, hcodes⟩ := TenantSet.withDisabled_eq_ok_iff.1 hT
        exact .setDisabled htenants hcodes hheld
    | redeem codePsk now name psk =>
        obtain ⟨⟨T', t⟩, hT, heq⟩ := except_map_eq_ok_iff.1 h
        obtain ⟨rfl, rfl⟩ := Prod.mk.inj heq
        obtain ⟨code, hcode, rfl, hlive, rfl, htenants, hcodes⟩ :=
          TenantSet.redeem_eq_ok_iff.1 hT
        exact .redeem hcode hlive htenants hcodes
  · intro h
    cases h with
    | addTenant htenants hcodes =>
        exact except_map_eq_ok_iff.2
          ⟨T, TenantSet.withTenant_eq_ok_iff.2 ⟨htenants, hcodes⟩, rfl⟩
    | issueCode hfree htenants hcodes =>
        exact except_map_eq_ok_iff.2
          ⟨T, TenantSet.withCode_eq_ok_iff.2 ⟨hfree, htenants, hcodes⟩, rfl⟩
    | revoke htenants hcodes hheld =>
        exact except_map_eq_ok_iff.2
          ⟨T, TenantSet.withoutTenant_eq_ok_iff.2 ⟨hheld, htenants, hcodes⟩, rfl⟩
    | setDisabled htenants hcodes hheld =>
        exact except_map_eq_ok_iff.2
          ⟨T, TenantSet.withDisabled_eq_ok_iff.2 ⟨hheld, htenants, hcodes⟩, rfl⟩
    | @redeem code now name psk T hcode hlive htenants hcodes =>
        exact except_map_eq_ok_iff.2
          ⟨(T, TenantSet.redeemed code name psk),
            TenantSet.redeem_eq_ok_iff.2 ⟨code, hcode, rfl, hlive, rfl, htenants, hcodes⟩, rfl⟩

/-- A call fails and writes nothing, or it has its effect. -/
theorem exec_cases (S : TenantSet) (c : Call) :
    (∃ e, exec S c = (S, .error e)) ∨ ∃ T out, exec S c = (T, .ok out) ∧ Effect S c T out := by
  unfold exec replaceWith
  cases h : c.edit S with
  | error e => exact Or.inl ⟨e, rfl⟩
  | ok made => exact Or.inr ⟨made.1, made.2, rfl, edit_eq_ok_iff.1 h⟩

theorem exec_of_effect {S T : TenantSet} {c : Call} {out : Option Tenant}
    (h : Effect S c T out) : exec S c = (T, .ok out) := by
  simp [exec, replaceWith, edit_eq_ok_iff.2 h]

theorem effect_of_exec {S T : TenantSet} {c : Call} {out : Option Tenant}
    (h : exec S c = (T, .ok out)) : Effect S c T out := by
  rcases exec_cases S c with ⟨e, he⟩ | ⟨T', out', heq, heff⟩
  · rw [he] at h
    cases h
  · rw [heq] at h
    obtain ⟨rfl, hout⟩ := Prod.mk.inj h
    cases hout
    exact heff

/-- A failed call leaves the store exactly as it was. -/
theorem exec_error {S : TenantSet} {c : Call} {e : SetError} (h : (exec S c).2 = .error e) :
    (exec S c).1 = S := by
  rcases exec_cases S c with ⟨e', he⟩ | ⟨T, out, heq, -⟩
  · rw [he]
  · rw [heq] at h
    cases h

/-! ## What calls bring in -/

/-- The names a set uses. -/
def TenantSet.names (S : TenantSet) : List String := S.tenants.map Tenant.name

/-- The hosts its tenants hold. -/
def TenantSet.hosts (S : TenantSet) : List String := S.tenants.map Tenant.host

/-- The PSKs of all its entries. -/
def TenantSet.psks (S : TenantSet) : List Psk :=
  S.tenants.map Tenant.psk ++ S.codes.map EnrollCode.psk

/-- The tenant names the call may bring into the store. -/
def Call.names : Call → List String
  | .addTenant t => [t.name]
  | .redeem _ _ name _ => [name]
  | _ => []

/-- The PSKs the call may bring into the store. -/
def Call.psks : Call → List Psk
  | .addTenant t => [t.psk]
  | .issueCode c => [c.psk]
  | .redeem _ _ _ psk => [psk]
  | _ => []

theorem Effect.names_subset {S T : TenantSet} {c : Call} {out : Option Tenant}
    (h : Effect S c T out) : T.names ⊆ S.names ++ c.names := by
  unfold TenantSet.names
  cases h with
  | addTenant htenants => simp [htenants, Call.names]
  | issueCode _ htenants => simp [htenants]
  | revoke htenants =>
      rw [htenants]
      exact List.Subset.trans (List.filter_sublist.map _).subset (List.subset_append_left _ _)
  | setDisabled htenants =>
      simp [htenants, Function.comp_def]
  | redeem _ _ htenants => simp [htenants, Call.names, TenantSet.redeemed]

theorem Effect.psks_subset {S T : TenantSet} {c : Call} {out : Option Tenant}
    (h : Effect S c T out) : T.psks ⊆ S.psks ++ c.psks := by
  unfold TenantSet.psks
  intro p hp
  cases h with
  | addTenant htenants hcodes =>
      simp only [htenants, hcodes, List.map_append, List.mem_append, Call.psks, List.map_cons,
        List.map_nil] at hp ⊢
      tauto
  | issueCode _ htenants hcodes =>
      simp only [htenants, hcodes, List.map_append, List.mem_append, Call.psks, List.map_cons,
        List.map_nil] at hp ⊢
      tauto
  | revoke htenants hcodes =>
      rw [htenants, hcodes] at hp
      exact List.mem_append_left _
        (((List.filter_sublist.map _).append_right _).subset hp)
  | setDisabled htenants hcodes =>
      simp only [htenants, hcodes, List.map_map, Function.comp_def,
        TenantSet.setFlag_psk] at hp
      exact List.mem_append_left _ hp
  | @redeem code now name psk _ _ _ htenants hcodes =>
      have hkept : p ∈ (S.codesAfter code.psk now).map EnrollCode.psk →
          p ∈ S.codes.map EnrollCode.psk := fun h =>
        ((S.codesAfter_sublist code.psk now).map EnrollCode.psk).subset h
      simp only [htenants, hcodes, List.map_append, List.mem_append, Call.psks, List.map_cons,
        List.map_nil, TenantSet.redeemed] at hp ⊢
      tauto

theorem exec_names_subset (S : TenantSet) (c : Call) :
    (exec S c).1.names ⊆ S.names ++ c.names := by
  rcases exec_cases S c with ⟨e, he⟩ | ⟨T, out, heq, heff⟩
  · rw [he]
    exact List.subset_append_left _ _
  · rw [heq]
    exact heff.names_subset

theorem exec_psks_subset (S : TenantSet) (c : Call) :
    (exec S c).1.psks ⊆ S.psks ++ c.psks := by
  rcases exec_cases S c with ⟨e, he⟩ | ⟨T, out, heq, heff⟩
  · rw [he]
    exact List.subset_append_left _ _
  · rw [heq]
    exact heff.psks_subset

/-! ## Redemptions of one code along a run -/

/-- The call redeems the code with PSK `p`. -/
def Call.redeems (p : Psk) : Call → Bool
  | .redeem codePsk _ _ _ => codePsk = p
  | _ => false

/-- The call issues a code with PSK `p`, and succeeds. -/
def Issues (p : Psk) (S : TenantSet) (c : Call) : Prop :=
  ∃ code T, c = .issueCode code ∧ code.psk = p ∧ exec S c = (T, .ok none)

/-- The tenant that the call makes from the code with PSK `p`, if it makes one. -/
def redemption (p : Psk) (S : TenantSet) (c : Call) : Option Tenant :=
  if c.redeems p then (exec S c).2.toOption.join else none

/-- The tenants made from the code with PSK `p` along a run. -/
def redemptions (p : Psk) : TenantSet → List Call → List Tenant
  | _, [] => []
  | S, c :: cs => (redemption p S c).toList ++ redemptions p (exec S c).1 cs

theorem redeems_iff {p : Psk} {c : Call} :
    c.redeems p = true ↔ ∃ now name psk, c = .redeem p now name psk := by
  cases c <;> simp [Call.redeems]

theorem redemption_of_not_redeems {p : Psk} {S : TenantSet} {c : Call}
    (h : c.redeems p = false) : redemption p S c = none := by
  simp [redemption, h]

/-- A redemption is a successful `redeem` call. -/
theorem redemption_eq_some_iff {p : Psk} {S : TenantSet} {c : Call} {t : Tenant} :
    redemption p S c = some t ↔
      c.redeems p = true ∧ ∃ T, exec S c = (T, .ok (some t)) ∧ Effect S c T (some t) := by
  unfold redemption
  by_cases hred : c.redeems p = true
  · rcases exec_cases S c with ⟨e, he⟩ | ⟨T, out, heq, heff⟩
    · simp [hred, he, Except.toOption]
    · rw [heq]
      simp only [hred, if_true, Except.toOption, Option.join_some, true_and, Prod.mk.injEq,
        Except.ok.injEq]
      constructor
      · rintro rfl
        exact ⟨T, ⟨rfl, rfl⟩, heff⟩
      · rintro ⟨T', ⟨-, hout⟩, -⟩
        exact hout
  · simp [hred]

/-- A successful redemption leaves no code with that PSK. -/
theorem absent_after_redemption {p : Psk} {S : TenantSet} {c : Call} {t : Tenant}
    (h : redemption p S c = some t) : ∀ code ∈ (exec S c).1.codes, code.psk ≠ p := by
  obtain ⟨hred, T, heq, heff⟩ := redemption_eq_some_iff.1 h
  obtain ⟨now, name, psk, rfl⟩ := redeems_iff.1 hred
  rw [heq]
  cases heff with
  | redeem _ _ _ hcodes =>
      intro code hcode
      rw [hcodes] at hcode
      exact (TenantSet.mem_codesAfter_iff.1 hcode).2.1

/-- Without an issue, a call does not bring a code with a given PSK back. -/
theorem absent_exec {p : Psk} {S : TenantSet} {c : Call} (hissue : ¬ Issues p S c)
    (habsent : ∀ code ∈ S.codes, code.psk ≠ p) :
    ∀ code ∈ (exec S c).1.codes, code.psk ≠ p := by
  rcases exec_cases S c with ⟨e, he⟩ | ⟨T, out, heq, heff⟩
  · rw [he]
    exact habsent
  · have hissue' : ∀ code, c = .issueCode code → code.psk ≠ p := by
      rintro code rfl hpsk
      cases heff with
      | issueCode => exact hissue ⟨code, T, rfl, hpsk, heq⟩
    rw [heq]
    intro code hcode
    cases heff with
    | addTenant _ hcodes => exact habsent code (hcodes ▸ hcode)
    | issueCode _ _ hcodes =>
        rw [hcodes] at hcode
        rcases List.mem_append.1 hcode with hold | hnew
        · exact habsent code hold
        · obtain rfl := List.mem_singleton.1 hnew
          exact hissue' code rfl
    | revoke _ hcodes => exact habsent code (hcodes ▸ hcode)
    | setDisabled _ hcodes => exact habsent code (hcodes ▸ hcode)
    | redeem _ _ _ hcodes =>
        rw [hcodes] at hcode
        exact habsent code (TenantSet.mem_codesAfter_iff.1 hcode).1

/-- A code that is gone cannot be redeemed until it is issued again. -/
theorem redemptions_eq_nil_of_absent {p : Psk} {S : TenantSet} {calls : List Call}
    (hissue : store.Meets (fun S c => ¬ Issues p S c) S calls)
    (habsent : ∀ code ∈ S.codes, code.psk ≠ p) : redemptions p S calls = [] := by
  induction calls generalizing S with
  | nil => rfl
  | cons c cs ih =>
      have hnone : redemption p S c = none := by
        cases h : redemption p S c with
        | none => rfl
        | some t =>
            obtain ⟨hred, T, heq, heff⟩ := redemption_eq_some_iff.1 h
            obtain ⟨now, name, psk, rfl⟩ := redeems_iff.1 hred
            cases heff with
            | redeem hcode => exact absurd rfl (habsent _ hcode)
      simp only [redemptions, hnone, Option.toList_none, List.nil_append]
      exact ih (hissue.2 _ rfl) (absent_exec hissue.1 habsent)

/-- **Between two issues at most one redemption succeeds.** -/
theorem redemptions_length_le_one {p : Psk} {S : TenantSet} {calls : List Call}
    (hissue : store.Meets (fun S c => ¬ Issues p S c) S calls) :
    (redemptions p S calls).length ≤ 1 := by
  induction calls generalizing S with
  | nil => simp [redemptions]
  | cons c cs ih =>
      cases h : redemption p S c with
      | none => simpa [redemptions, h] using ih (hissue.2 _ rfl)
      | some t =>
          have hrest := redemptions_eq_nil_of_absent (hissue.2 _ rfl)
            (absent_after_redemption h)
          simp [redemptions, h, hrest]

/-! ## Racing redemptions -/

/-- Several callers redeem `code` among other calls: the code is there and unexpired at every clock
value used, nobody holds its host or is given it by another call, it is not issued again meanwhile,
and each caller brings a name and a PSK that neither the store nor an earlier call uses. -/
structure Race (S : TenantSet) (calls : List Call) (code : EnrollCode) : Prop where
  present : code ∈ S.codes
  racing : ∃ c ∈ calls, c.redeems code.psk = true
  unexpired : ∀ p now name psk, .redeem p now name psk ∈ calls → code.unexpired now = true
  hostFree : code.host ∉ S.hosts
  hostKept : store.Meets (fun S c => c.redeems code.psk = false →
    code.host ∈ (exec S c).1.hosts → code.host ∈ S.hosts) S calls
  notIssued : store.Meets (fun S c => ¬ Issues code.psk S c) S calls
  fresh : ∀ before now name psk after,
    calls = before ++ .redeem code.psk now name psk :: after →
      name ≠ "" ∧ name ∉ S.names ++ before.flatMap Call.names
        ∧ psk ∉ S.psks ++ before.flatMap Call.psks

/-- A call that does not redeem the code and whose clock is before its expiry keeps it. -/
theorem code_mem_exec {S : TenantSet} {c : Call} {code : EnrollCode} (hcode : code ∈ S.codes)
    (hother : c.redeems code.psk = false)
    (hclock : ∀ p now name psk, c = .redeem p now name psk → code.unexpired now = true) :
    code ∈ (exec S c).1.codes := by
  rcases exec_cases S c with ⟨e, he⟩ | ⟨T, out, heq, heff⟩
  · rw [he]
    exact hcode
  · rw [heq]
    cases heff with
    | addTenant _ hcodes => exact hcodes ▸ hcode
    | issueCode _ _ hcodes => exact hcodes ▸ List.mem_append_left _ hcode
    | revoke _ hcodes => exact hcodes ▸ hcode
    | setDisabled _ hcodes => exact hcodes ▸ hcode
    | @redeem burned _ _ _ _ _ _ _ hcodes =>
        have hne : code.psk ≠ burned.psk := fun h => by simp [Call.redeems, h] at hother
        rw [hcodes]
        exact TenantSet.mem_codesAfter_iff.2 ⟨hcode, hne, hclock _ _ _ _ rfl⟩

/-- The race goes on after a call that does not take part in it. -/
theorem Race.step {S : TenantSet} {c : Call} {cs : List Call} {code : EnrollCode}
    (h : Race S (c :: cs) code) (hother : c.redeems code.psk = false) :
    Race (exec S c).1 cs code where
  present := code_mem_exec h.present hother fun p now name psk hc =>
    h.unexpired p now name psk (hc ▸ List.mem_cons_self)
  racing := by
    obtain ⟨r, hr, hred⟩ := h.racing
    rcases List.mem_cons.1 hr with rfl | hr
    · rw [hother] at hred
      cases hred
    · exact ⟨r, hr, hred⟩
  unexpired p now name psk hmem := h.unexpired p now name psk (List.mem_cons_of_mem _ hmem)
  hostFree hmem := h.hostFree (h.hostKept.1 hother hmem)
  hostKept := h.hostKept.2 _ rfl
  notIssued := h.notIssued.2 _ rfl
  fresh before now name psk after hcs := by
    obtain ⟨hne, hname, hpsk⟩ := h.fresh (c :: before) now name psk after (by rw [hcs]; rfl)
    simp only [List.flatMap_cons, ← List.append_assoc] at hname hpsk
    refine ⟨hne, fun hmem => hname ?_, fun hmem => hpsk ?_⟩
    · rcases List.mem_append.1 hmem with hmem | hmem
      · exact List.mem_append_left _ (exec_names_subset S c hmem)
      · exact List.mem_append_right _ hmem
    · rcases List.mem_append.1 hmem with hmem | hmem
      · exact List.mem_append_left _ (exec_psks_subset S c hmem)
      · exact List.mem_append_right _ hmem

/-- **Exactly one caller of a race wins.**  Induction on the calls: the race is kept until its first
caller, who succeeds; after that the code is gone. -/
theorem Race.redemptions_length {S : TenantSet} {calls : List Call} {code : EnrollCode}
    (h : Race S calls code) : (redemptions code.psk S calls).length = 1 := by
  induction calls generalizing S with
  | nil =>
      obtain ⟨c, hc, -⟩ := h.racing
      cases hc
  | cons c cs ih =>
      cases hred : c.redeems code.psk with
      | false =>
          simpa [redemptions, redemption_of_not_redeems hred] using ih (h.step hred)
      | true =>
          obtain ⟨now, name, psk, rfl⟩ := redeems_iff.1 hred
          obtain ⟨hne, hname, hpsk⟩ := h.fresh [] now name psk cs rfl
          simp only [List.flatMap_nil, List.append_nil] at hname hpsk
          obtain ⟨T, hT⟩ := TenantSet.redeem_exists h.present
            (h.unexpired _ _ _ _ List.mem_cons_self) hne hname hpsk h.hostFree
          have heff : Effect S (.redeem code.psk now name psk) T
              (some (TenantSet.redeemed code name psk)) :=
            edit_eq_ok_iff.1 (except_map_eq_ok_iff.2 ⟨_, hT, rfl⟩)
          have hsome : redemption code.psk S (.redeem code.psk now name psk)
              = some (TenantSet.redeemed code name psk) :=
            redemption_eq_some_iff.2 ⟨hred, T, exec_of_effect heff, heff⟩
          have hrest := redemptions_eq_nil_of_absent (h.notIssued.2 _ rfl)
            (absent_after_redemption hsome)
          simp [redemptions, hsome, hrest]

/-- What a redemption made and what it left alone: the tenant has exactly the code's host and limit,
the code was present and unexpired, and no other entry came, went or changed, except that codes
expired at the redeem's clock may be dropped. -/
structure RedeemedFrom (S T : TenantSet) (p : Psk) (now : Nat) (name : String) (psk : Psk)
    (t : Tenant) (code : EnrollCode) : Prop where
  present : code ∈ S.codes
  codePsk : code.psk = p
  unexpired : code.unexpired now = true
  made : t = ⟨name, psk, code.sni, code.maxConns, false⟩
  tenants : T.tenants = S.tenants ++ [t]
  burned : ∀ c ∈ T.codes, c ∈ S.codes ∧ c.psk ≠ p
  others : ∀ c, c.psk ≠ p → c.unexpired now = true → (c ∈ T.codes ↔ c ∈ S.codes)

theorem exec_redeem_spec {S T : TenantSet} {p psk : Psk} {now : Nat} {name : String}
    {out : Option Tenant} (h : exec S (.redeem p now name psk) = (T, .ok out)) :
    ∃ t code, out = some t ∧ RedeemedFrom S T p now name psk t code := by
  cases effect_of_exec h with
  | @redeem code _ _ _ _ hcode hlive htenants hcodes =>
      refine ⟨_, code, rfl, hcode, rfl, hlive, rfl, htenants, ?_, ?_⟩
      · intro c hc
        rw [hcodes] at hc
        obtain ⟨hmem, hne, -⟩ := TenantSet.mem_codesAfter_iff.1 hc
        exact ⟨hmem, hne⟩
      · intro c hne hc
        rw [hcodes, TenantSet.mem_codesAfter_iff]
        exact ⟨fun hmem => hmem.1, fun hmem => ⟨hmem, hne, hc⟩⟩

/-- **Enrollment codes are single use.**  Every `TenantSet` is valid by construction, so `S` stands for
any starting set and for the store at any point of any run.  Between two issues of a code with PSK
`p` at most one redemption succeeds; a race for one code has exactly one winner; a redemption makes
exactly the tenant its code entitles to and touches nothing else; and a failed one leaves the store
as it was. -/
theorem redeem_single_use (S : TenantSet) :
    (∀ p calls, store.Meets (fun S c => ¬ Issues p S c) S calls →
        (redemptions p S calls).length ≤ 1)
      ∧ (∀ code calls, Race S calls code → (redemptions code.psk S calls).length = 1)
      ∧ (∀ p now name psk T out, exec S (.redeem p now name psk) = (T, .ok out) →
          ∃ t code, out = some t ∧ RedeemedFrom S T p now name psk t code)
      ∧ ∀ p now name psk e, (exec S (.redeem p now name psk)).2 = .error e →
          (exec S (.redeem p now name psk)).1 = S :=
  ⟨fun _ _ => redemptions_length_le_one, fun _ _ => Race.redemptions_length,
    fun _ _ _ _ _ _ => exec_redeem_spec, fun _ _ _ _ _ => exec_error⟩

/-- One outstanding code. -/
def sampleCode : EnrollCode := ⟨Psk.repeated 1, "a.example.com", 4, some 100⟩

def sampleSet : TenantSet := ⟨[], [sampleCode], checkSet_eq_ok_iff.1 (by decide)⟩

/-- Two callers race for the code while the winner is disabled in between. -/
def sampleRace : List Call :=
  [.redeem (Psk.repeated 1) 5 "t-1" (Psk.repeated 8), .setDisabled "t-1" true,
    .redeem (Psk.repeated 1) 99 "t-2" (Psk.repeated 9)]

theorem sampleRace_race : Race sampleSet sampleRace sampleCode where
  present := by decide
  racing := ⟨_, List.mem_cons_self, by decide⟩
  unexpired p now name psk hmem := by
    simp only [sampleRace, List.mem_cons, Call.redeem.injEq, reduceCtorEq, List.not_mem_nil,
      false_or, or_false] at hmem
    rcases hmem with ⟨-, rfl, -⟩ | ⟨-, rfl, -⟩
    · decide
    · decide
  hostFree := by decide
  hostKept :=
    store.meets_cons_of_step rfl (fun h => absurd h (by decide))
      (store.meets_cons_of_step rfl (fun _ _ => by decide)
        (store.meets_cons_of_step rfl (fun h => absurd h (by decide)) trivial))
  notIssued := by
    have hnone : ∀ c ∈ sampleRace, ∀ code, c ≠ .issueCode code := by simp [sampleRace]
    refine store.meets_of_forall_mem fun c hc S hissue => ?_
    obtain ⟨code, -, rfl, -⟩ := hissue
    exact hnone _ hc code rfl
  fresh := by
    intro before now name psk after h
    rcases before with _ | ⟨a, _ | ⟨b, _ | ⟨c, rest⟩⟩⟩
    · simp only [sampleRace, List.nil_append, List.cons.injEq, Call.redeem.injEq] at h
      obtain ⟨⟨-, -, rfl, rfl⟩, -⟩ := h
      decide
    · simp [sampleRace] at h
    · simp only [sampleRace, List.cons_append, List.nil_append, List.cons.injEq,
        Call.redeem.injEq] at h
      obtain ⟨rfl, rfl, ⟨-, -, rfl, rfl⟩, -⟩ := h
      decide
    · simp [sampleRace] at h

theorem redeem_single_use_race :
    (redemptions sampleCode.psk sampleSet sampleRace).length = 1 :=
  (redeem_single_use sampleSet).2.1 sampleCode sampleRace sampleRace_race

end Tenancy
end Erbridge
