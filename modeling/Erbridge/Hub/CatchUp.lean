import Erbridge.Hub.Reload

/-!
# A tick of the reload loop brings the snapshot up to the store

The model of `reload_loop` as what keeps the hub in step with the store.  A publication may be stale
(`stale_publication`), so the snapshot in force may be older than the store and stay so while nothing
is edited; the next tick puts it right.

* `Calls` — every call of `apply` in the hub belongs to one party, which has yet to sweep.
* `round_from_idle` — no step of the loop is ever blocked: it can always finish its tick.
* `Catching` — from the tick's read on, with nothing older in hand: the store's version is in force,
  or the loop still carries it.
* `reload_catches_up` — both, for every reachable state and every interleaving.
-/

namespace Erbridge
namespace Hub

open Tenancy (TenantSet)

/-- The call of `apply` that the party is in, once it has published. -/
def Pc.call : Pc → Option Nat
  | .sweeping _ a _ => some a
  | _ => none

/-- A place in the code of the reload loop. -/
def Pc.OfReload : Pc → Prop
  | .idle => True
  | .read _ _ => True
  | .applying _ _ next => next = .sleep
  | .sweeping _ _ next => next = .sleep
  | _ => False

theorem Pc.call_of_next (next : Next) : next.pc.call = none := by
  cases next <;> rfl

theorem Pc.holds_of_next (next : Next) : next.pc.holds = none := by
  cases next <;> rfl

/-- Only the steps of `apply` touch the calls of `apply`. -/
theorem applies_of_not_isApply {h h' : Hub} {e : Event} (hstep : h.step e = some h')
    (hkind : e.isApply = false) : h'.applies = h.applies := by
  cases step_eq_some_iff.1 hstep with
  | publish hpc => cases hkind
  | sweep hpc => cases hkind
  | finish hpc => simp
  | _ => rfl

end Hub

namespace Server

open Noise (Psk)
open Tenancy (Tenant EnrollCode TenantSet Call exec)
open Hub (Party Pc Next tenantA tenantB setA)

/-! ## The calls of `apply` and the parties -/

/-- A call that has published is that of one party, which is about to sweep; the next number is
free. -/
structure Calls (s : Server) : Prop where
  fresh : ∀ a, s.nextApply ≤ a → s.hub.applies a = .idle
  owner : ∀ a set, s.hub.applies a = .published set → ∃ p, (s.parties p).call = some a
  pending : ∀ p a, (s.parties p).call = some a → ∃ set, s.hub.applies a = .published set
  distinct : ∀ p q a, (s.parties p).call = some a → (s.parties q).call = some a → p = q

theorem calls_initial (set : TenantSet) : Calls (initial set) where
  fresh _ _ := rfl
  owner _ _ ha := by cases ha
  pending _ _ ha := by cases ha
  distinct _ _ _ ha := by cases ha

theorem Calls.lt_nextApply {s : Server} (hc : Calls s) {p : Party} {a : Nat}
    (ha : (s.parties p).call = some a) : a < s.nextApply := by
  by_contra hle
  obtain ⟨set, hset⟩ := hc.pending p a ha
  rw [hc.fresh a (Nat.le_of_not_lt hle)] at hset
  cases hset

/-- Only the calls of the parties matter. -/
theorem Calls.congr {s s' : Server} (hc : Calls s) (happlies : s'.hub.applies = s.hub.applies)
    (hnext : s'.nextApply = s.nextApply)
    (hcall : ∀ p, (s'.parties p).call = (s.parties p).call) : Calls s' where
  fresh a ha := by
    rw [happlies]
    exact hc.fresh a (by omega)
  owner a set hset := by
    rw [happlies] at hset
    obtain ⟨p, hp⟩ := hc.owner a set hset
    exact ⟨p, by rw [hcall, hp]⟩
  pending p a ha := by
    rw [hcall] at ha
    rw [happlies]
    exact hc.pending p a ha
  distinct p q a hp hq := by
    rw [hcall] at hp hq
    exact hc.distinct p q a hp hq

/-- A party that neither publishes nor sweeps. -/
theorem Calls.setParty {s : Server} (hc : Calls s) {p : Party} {k : Pc}
    (hbefore : (s.parties p).call = none) (hafter : k.call = none) : Calls (s.setParty p k) := by
  refine hc.congr rfl rfl fun q => ?_
  by_cases hq : q = p
  · subst hq
    simp [hbefore, hafter]
  · simp [hq]

theorem Calls.commit {s : Server} (hc : Calls s) (T : TenantSet) : Calls (s.commit T) :=
  hc.congr rfl rfl fun _ => rfl

theorem Calls.publish {s : Server} (hc : Calls s) {p : Party} {k n : Nat} {set : TenantSet}
    {next : Next} {h : Hub} (hbefore : (s.parties p).call = none)
    (hstep : s.hub.step (.publish s.nextApply set) = some h) :
    Calls (((s.setHub h).record n).setParty p (.sweeping k s.nextApply next)) := by
  have happlies : h.applies = Function.update s.hub.applies s.nextApply (.published set) := by
    cases Hub.step_eq_some_iff.1 hstep with
    | publish hpc => rfl
  -- A call that some party was in before has a smaller number.
  have hother : ∀ q a, (s.parties q).call = some a → a ≠ s.nextApply ∧ q ≠ p := by
    intro q a ha
    refine ⟨Nat.ne_of_lt (hc.lt_nextApply ha), ?_⟩
    rintro rfl
    rw [hbefore] at ha
    cases ha
  have hcalls : ∀ q a, (Function.update s.parties p (.sweeping k s.nextApply next) q).call = some a →
      (q = p ∧ a = s.nextApply) ∨ (q ≠ p ∧ (s.parties q).call = some a) := by
    intro q a ha
    by_cases hq : q = p
    · subst hq
      rw [Function.update_self] at ha
      exact Or.inl ⟨rfl, (Option.some.inj ha).symm⟩
    · rw [Function.update_of_ne hq] at ha
      exact Or.inr ⟨hq, ha⟩
  refine ⟨fun a ha => ?_, fun a T hT => ?_, fun q a ha => ?_, fun q r a hq hr => ?_⟩
  · have hlt : s.nextApply + 1 ≤ a := ha
    have hne : a ≠ s.nextApply := by omega
    show h.applies a = .idle
    rw [happlies, Function.update_of_ne hne]
    apply hc.fresh
    omega
  · by_cases hnew : a = s.nextApply
    · subst hnew
      exact ⟨p, by simp [Pc.call]⟩
    · have hold : s.hub.applies a = .published T := by
        rw [← Function.update_of_ne hnew (.published set) s.hub.applies, ← happlies]
        exact hT
      obtain ⟨q, hq⟩ := hc.owner a T hold
      exact ⟨q, by simpa [(hother q a hq).2] using hq⟩
  · show ∃ S, h.applies a = .published S
    rw [happlies]
    rcases hcalls q a ha with ⟨-, rfl⟩ | ⟨-, ha⟩
    · exact ⟨set, Function.update_self ..⟩
    · rw [Function.update_of_ne (hother q a ha).1]
      exact hc.pending q a ha
  · rcases hcalls q a hq with ⟨rfl, rfl⟩ | ⟨-, hq⟩
    · rcases hcalls r _ hr with ⟨rfl, -⟩ | ⟨-, hr⟩
      · rfl
      · exact absurd rfl (hother r _ hr).1
    · rcases hcalls r a hr with ⟨-, rfl⟩ | ⟨-, hr⟩
      · exact absurd rfl (hother q _ hq).1
      · exact hc.distinct q r a hq hr

theorem Calls.sweep {s : Server} (hc : Calls s) {p : Party} {k a : Nat} {next : Next} {h : Hub}
    (hpc : s.parties p = .sweeping k a next) (hstep : s.hub.step (.sweep a) = some h) :
    Calls ((s.setHub h).setParty p next.pc) := by
  have happlies : h.applies = Function.update s.hub.applies a .swept := by
    cases Hub.step_eq_some_iff.1 hstep with
    | sweep hbusy => rfl
  have hown : (s.parties p).call = some a := by rw [hpc]; rfl
  have hcalls : ∀ q b, (Function.update s.parties p next.pc q).call = some b →
      q ≠ p ∧ (s.parties q).call = some b := by
    intro q b hb
    by_cases hq : q = p
    · subst hq
      rw [Function.update_self, Pc.call_of_next] at hb
      cases hb
    · rw [Function.update_of_ne hq] at hb
      exact ⟨hq, hb⟩
  -- The other parties are in other calls.
  have hother : ∀ q b, q ≠ p → (s.parties q).call = some b → b ≠ a := by
    intro q b hq hb heq
    exact hq (hc.distinct q p a (heq ▸ hb) hown)
  refine ⟨fun b hb => ?_, fun b T hT => ?_, fun q b hb => ?_, fun q r b hq hr => ?_⟩
  · have hlt := hc.lt_nextApply hown
    have hle : s.nextApply ≤ b := hb
    have hne : b ≠ a := by omega
    show h.applies b = .idle
    rw [happlies, Function.update_of_ne hne]
    exact hc.fresh b hb
  · have hT : Function.update s.hub.applies a .swept b = .published T := by
      rw [← happlies]
      exact hT
    by_cases hba : b = a
    · subst hba
      rw [Function.update_self] at hT
      cases hT
    · rw [Function.update_of_ne hba] at hT
      obtain ⟨q, hq⟩ := hc.owner b T hT
      have hqp : q ≠ p := by
        rintro rfl
        rw [hown] at hq
        exact hba (Option.some.inj hq).symm
      exact ⟨q, by simpa [hqp] using hq⟩
  · obtain ⟨hqp, hb⟩ := hcalls q b hb
    show ∃ S, h.applies b = .published S
    rw [happlies, Function.update_of_ne (hother q b hqp hb)]
    exact hc.pending q b hb
  · exact hc.distinct q r b (hcalls q b hq).2 (hcalls r b hr).2

theorem calls_step {s s' : Server} {e : Event} (hc : Calls s) (hstep : s.step e = some s') :
    Calls s' := by
  cases moves_of_step hstep with
  | @hub e h hkind hh => exact hc.congr (Hub.applies_of_not_isApply hh hkind) rfl fun _ => rfl
  | edit hexec => exact hc.commit _
  | editFails => exact hc
  | reloadReads hpc => exact hc.setParty (by rw [hpc]; rfl) rfl
  | reloadFails hpc => exact hc
  | createdReads hpc => exact hc.setParty (by rw [hpc]; rfl) rfl
  | createdFails hpc => exact hc.setParty (by rw [hpc]; rfl) rfl
  | withdrawnReads hpc => exact hc.setParty (by rw [hpc]; rfl) rfl
  | withdrawnFails hpc => exact hc.setParty (by rw [hpc]; rfl) rfl
  | same hpc => exact hc.setParty (by rw [hpc]; rfl) rfl
  | differs hpc => exact hc.setParty (by rw [hpc]; rfl) rfl
  | publish hpc hh => exact hc.publish (by rw [hpc]; rfl) hh
  | sweep hpc hh => exact hc.sweep hpc hh
  | redeem hcode hpc hexec => exact (hc.commit _).setParty (by rw [commit_parties, hpc]; rfl) rfl
  | redeemFails hcode hpc => exact hc.setParty (by rw [hpc]; rfl) rfl
  | @send i ok t hpc => exact hc.setParty (by rw [hpc]; rfl) (by cases ok <;> rfl)
  | withdraw hpc hexec => exact (hc.commit _).setParty (by rw [commit_parties, hpc]; rfl) rfl
  | withdrawFails hpc => exact hc.setParty (by rw [hpc]; rfl) rfl

/-- The reload loop stays in its own code. -/
theorem ofReload_step {s s' : Server} {e : Event} (hl : (s.parties .reloader).OfReload)
    (hstep : s.step e = some s') : (s'.parties .reloader).OfReload := by
  cases moves_of_step hstep with
  | reloadReads hpc => simp [Pc.OfReload]
  | same hpc => simp [Pc.OfReload]
  | differs hpc => simp [Pc.OfReload]
  | @publish p k set next h hpc hh =>
      cases p with
      | reloader =>
          rw [hpc] at hl
          simpa [Pc.OfReload] using hl
      | enrollment i => simpa using hl
  | @sweep p k a next h hpc hh =>
      cases p with
      | reloader =>
          rw [hpc] at hl
          obtain rfl : next = .sleep := hl
          simp [Next.pc, Pc.OfReload]
      | enrollment i => simpa using hl
  | _ => simpa using hl

theorem inv_calls_run {set : TenantSet} {es : List Event} {s : Server}
    (hrun : machine.run (initial set) es = some s) :
    Inv s ∧ Calls s ∧ (s.parties .reloader).OfReload :=
  machine.run_invariant (fun t => Inv t ∧ Calls t ∧ (t.parties .reloader).OfReload)
    (fun hi hstep =>
      ⟨inv_step hi.1 hstep, calls_step hi.2.1 hstep, ofReload_step hi.2.2 hstep⟩)
    ⟨inv_initial set, calls_initial set, trivial⟩ hrun

/-! ## What is promised once the tick is over -/

/-- The snapshot in force is the store's contents, and every session that is not cancelled is one the
store allows, or a sweep or its own check is still to come. -/
structure CaughtUp (s : Server) : Prop where
  inForce : s.hub.set = s.store
  sessions : ∀ name session, s.hub.sessions.lookup name = some session →
    s.hub.cancelled session.task = false →
    s.store.allows name session.psk = true ∨ (∃ p a, (s.parties p).call = some a)
      ∨ (s.hub.tasks session.task).awaitsCheck = true

theorem caughtUp_of_set_eq {s : Server} (hub : Hub.Inv s.hub) (hc : Calls s)
    (hset : s.hub.set = s.store) : CaughtUp s where
  inForce := hset
  sessions name session hlookup hlive := by
    rcases hub.allowed name session hlookup hlive with hallowed | ⟨a, set, -, hpub⟩ | hcheck
    · exact Or.inl (hset ▸ hallowed)
    · obtain ⟨p, hp⟩ := hc.owner a set hpub
      exact Or.inr (Or.inl ⟨p, a, hp⟩)
    · exact Or.inr (Or.inr hcheck)

/-! ## The loop is never blocked -/

/-- A step that the reload loop takes by itself, with a store that can be read. -/
def Event.isReload : Event → Bool
  | .snapshot .reloader true => true
  | .compare => true
  | .publish .reloader => true
  | .sweep .reloader => true
  | _ => false

/-- The loop gets from `s` to `t` in at most `n` steps of its own, the store staying as it is. -/
def Reloads (n : Nat) (s t : Server) : Prop :=
  ∃ fs, fs.length ≤ n ∧ (∀ e ∈ fs, e.isReload = true) ∧ machine.run s fs = some t
    ∧ t.store = s.store ∧ t.past = s.past

theorem Reloads.refl (s : Server) : Reloads 0 s s :=
  ⟨[], Nat.le_refl _, by simp, rfl, rfl, rfl⟩

theorem Reloads.cons {n : Nat} {s t u : Server} {e : Event} (hkind : e.isReload = true)
    (hstep : s.step e = some t) (hstore : t.store = s.store) (hpast : t.past = s.past)
    (hrest : Reloads n t u) : Reloads (n + 1) s u := by
  obtain ⟨fs, hlen, hown, hrun, hstore', hpast'⟩ := hrest
  refine ⟨e :: fs, by simpa using hlen, ?_, machine.run_cons_iff.2 ⟨t, hstep, hrun⟩,
    hstore'.trans hstore, hpast'.trans hpast⟩
  intro f hf
  rcases List.mem_cons.1 hf with rfl | hf
  · exact hkind
  · exact hown f hf

theorem Reloads.trans {m n : Nat} {s t u : Server} (hfirst : Reloads m s t)
    (hsecond : Reloads n t u) : Reloads (m + n) s u := by
  obtain ⟨fs, hlen, hown, hrun, hstore, hpast⟩ := hfirst
  obtain ⟨gs, hlen', hown', hrun', hstore', hpast'⟩ := hsecond
  refine ⟨fs ++ gs, by simp only [List.length_append]; omega, ?_,
    machine.run_append_iff.2 ⟨t, hrun, hrun'⟩, hstore'.trans hstore, hpast'.trans hpast⟩
  intro e he
  rcases List.mem_append.1 he with he | he
  · exact hown e he
  · exact hown' e he

theorem Reloads.mono {m n : Nat} {s t : Server} (hle : m ≤ n) (h : Reloads m s t) :
    Reloads n s t := by
  obtain ⟨fs, hlen, hrest⟩ := h
  exact ⟨fs, Nat.le_trans hlen hle, hrest⟩

/-- The loop can always publish, and then sweep. -/
theorem reloads_of_applying {s : Server} (hc : Calls s) {k : Nat} {set : TenantSet}
    (hpc : s.parties .reloader = .applying k set .sleep) :
    ∃ t, Reloads 2 s t ∧ t.parties .reloader = .idle ∧ t.hub.set = set := by
  have hidle : s.hub.applies s.nextApply = .idle := hc.fresh _ (Nat.le_refl _)
  let published : Hub := { s.hub.setApply s.nextApply (.published set) with
    set := set, publisher := some s.nextApply }
  let swept : Hub := (published.retainSessions set).setApply s.nextApply .swept
  have hpublish : s.hub.step (.publish s.nextApply set) = some published :=
    Hub.step_eq_some_iff.2 (.publish hidle)
  have hsweep : published.step (.sweep s.nextApply) = some swept :=
    Hub.step_eq_some_iff.2 (.sweep (by simp [published]))
  let t := ((s.setHub published).record k).setParty .reloader (.sweeping k s.nextApply .sleep)
  have hfirst : s.step (.publish .reloader) = some t := by simp [step, hpc, hpublish, t]
  have hsecond : t.step (.sweep .reloader)
      = some ((t.setHub swept).setParty .reloader Next.sleep.pc) := by
    simp only [step, t, setParty_parties, Function.update_self, setParty_hub, record_hub,
      setHub_hub, hsweep, Option.map_some]
  refine ⟨_, .cons rfl hfirst rfl rfl (.cons rfl hsecond rfl rfl (.refl _)), ?_, rfl⟩
  simp [Next.pc]

/-- What the loop is about is finished in at most three steps of its own. -/
theorem reloads_to_idle {s : Server} (hc : Calls s) (hpc : (s.parties .reloader).OfReload) :
    ∃ t, Reloads 3 s t ∧ t.parties .reloader = .idle := by
  cases hk : s.parties .reloader with
  | idle => exact ⟨s, (Reloads.refl s).mono (by omega), hk⟩
  | read k set =>
      by_cases hsame : s.hub.set = set
      · have hstep : s.step .compare = some (s.setParty .reloader .idle) := by
          simp [step, hk, hsame]
        exact ⟨_, (Reloads.cons rfl hstep rfl rfl (.refl _)).mono (by omega), by simp⟩
      · have hstep : s.step .compare = some (s.setParty .reloader (.applying k set .sleep)) := by
          simp [step, hk, hsame]
        have hpc' : (s.setParty .reloader (.applying k set .sleep)).parties .reloader
            = .applying k set .sleep := by simp
        obtain ⟨t, ht, hidle, -⟩ := reloads_of_applying (calls_step hc hstep) hpc'
        exact ⟨t, .cons rfl hstep rfl rfl ht, hidle⟩
  | applying k set next =>
      rw [hk] at hpc
      obtain rfl : next = .sleep := hpc
      obtain ⟨t, ht, hidle, -⟩ := reloads_of_applying hc hk
      exact ⟨t, ht.mono (by omega), hidle⟩
  | sweeping k a next =>
      rw [hk] at hpc
      obtain rfl : next = .sleep := hpc
      obtain ⟨set, hset⟩ := hc.pending .reloader a (by rw [hk]; rfl)
      have hsweep := Hub.step_eq_some_iff.2 (.sweep hset)
      have hstep : s.step (.sweep .reloader)
          = some ((s.setHub ((s.hub.retainSessions set).setApply a .swept)).setParty .reloader
              Next.sleep.pc) := by
        simp only [step, hk, hsweep, Option.map_some]
      exact ⟨_, (Reloads.cons rfl hstep rfl rfl (.refl _)).mono (by omega), by simp [Next.pc]⟩
  | _ =>
      rw [hk] at hpc
      cases hpc

/-- A whole tick, undisturbed. -/
theorem reloads_from_idle {s : Server} (hc : Calls s) (hpc : s.parties .reloader = .idle) :
    ∃ t, Reloads 4 s t ∧ t.parties .reloader = .idle ∧ t.hub.set = s.store := by
  have hread : s.step (.snapshot .reloader true)
      = some (s.setParty .reloader (.read s.latest s.store)) := by
    simp [step, hpc]
  have hc' := calls_step hc hread
  by_cases hsame : s.hub.set = s.store
  · have hcompare : (s.setParty .reloader (.read s.latest s.store)).step .compare
        = some ((s.setParty .reloader (.read s.latest s.store)).setParty .reloader .idle) := by
      simp [step, hsame]
    refine ⟨_, (Reloads.cons rfl hread rfl rfl (.cons rfl hcompare rfl rfl (.refl _))).mono ?_,
      by simp, hsame⟩
    omega
  · have hcompare : (s.setParty .reloader (.read s.latest s.store)).step .compare
        = some ((s.setParty .reloader (.read s.latest s.store)).setParty .reloader
            (.applying s.latest s.store .sleep)) := by
      simp [step, hsame]
    have hpc' : ((s.setParty .reloader (.read s.latest s.store)).setParty .reloader
        (.applying s.latest s.store .sleep)).parties .reloader
          = .applying s.latest s.store .sleep := by simp
    obtain ⟨t, ht, hidle, hset⟩ := reloads_of_applying (calls_step hc' hcompare) hpc'
    exact ⟨t, .cons rfl hread rfl rfl (.cons rfl hcompare rfl rfl ht), hidle, hset⟩

/-! ## Nothing older in hand -/

/-- Every version that a party holds is the store's current one. -/
def NothingOld (s : Server) : Prop :=
  ∀ p k, (s.parties p).holds = some k → k = s.latest

/-- A version held is the store's contents. -/
theorem NothingOld.store_eq {s : Server} (hf : NothingOld s) {p : Party} {k : Nat} {set : TenantSet}
    (hk : (s.parties p).holds = some k) (hver : s.version k = some set) : set = s.store := by
  rw [hf p k hk, version_latest] at hver
  exact (Option.some.inj hver).symm

theorem NothingOld.setParty {s : Server} (hf : NothingOld s) {p : Party} {k : Pc}
    (hk : ∀ n, k.holds = some n → n = s.latest) : NothingOld (s.setParty p k) := by
  intro q n hn
  by_cases hq : q = p
  · subst hq
    exact hk n (by simpa using hn)
  · exact hf q n (by simpa [hq] using hn)

/-- A step either commits a version or leaves the store as it is. -/
theorem store_of_step {s s' : Server} {e : Event} (hstep : s.step e = some s') :
    s'.latest = s.latest + 1 ∨ (s'.latest = s.latest ∧ s'.store = s.store) := by
  cases moves_of_step hstep with
  | @edit c T out hexec => exact Or.inl (commit_latest s T)
  | @redeem i now name psk code T t hcode hpc hexec => exact Or.inl (commit_latest s T)
  | @withdraw i t T out hpc hexec => exact Or.inl (commit_latest s T)
  | _ => exact Or.inr ⟨rfl, rfl⟩

/-- As long as nothing is committed, whoever reads the store reads the current version. -/
theorem NothingOld.step {s s' : Server} {e : Event} (hf : NothingOld s)
    (hstep : s.step e = some s') (hquiet : s'.latest = s.latest) : NothingOld s' := by
  have hnone : ∀ {k : Pc}, k.holds = none → ∀ n, k.holds = some n → n = s.latest := by
    intro k hk n hn
    rw [hk] at hn
    cases hn
  have hread : ∀ n, some s.latest = some n → n = s.latest := fun n hn => (Option.some.inj hn).symm
  -- What a party had in hand before, it may have in hand afterwards.
  have hkeep : ∀ {p : Party} {k l : Pc}, s.parties p = l → k.holds = l.holds →
      ∀ n, k.holds = some n → n = s.latest := by
    intro p k l hl hk n hn
    apply hf p n
    rw [hl, ← hk, hn]
  cases moves_of_step hstep with
  | hub hkind hh => exact hf
  | @edit c T out hexec =>
      rw [commit_latest] at hquiet
      omega
  | editFails => exact hf
  | reloadReads hpc => exact hf.setParty hread
  | reloadFails hpc => exact hf
  | createdReads hpc => exact hf.setParty hread
  | createdFails hpc => exact hf.setParty (hnone rfl)
  | withdrawnReads hpc => exact hf.setParty hread
  | withdrawnFails hpc => exact hf.setParty (hnone rfl)
  | same hpc => exact hf.setParty (hnone rfl)
  | differs hpc => exact hf.setParty (hkeep hpc rfl)
  | @publish p k set next h hpc hh =>
      have hrecorded : NothingOld ((s.setHub h).record k) := hf
      exact hrecorded.setParty (hkeep hpc rfl)
  | @sweep p k a next h hpc hh =>
      have hswept : NothingOld (s.setHub h) := hf
      exact hswept.setParty (hnone (Pc.holds_of_next next))
  | @redeem i now name psk code T t hcode hpc hexec =>
      have hmore : (s.commit T).latest = s.latest := hquiet
      rw [commit_latest] at hmore
      omega
  | redeemFails hcode hpc => exact hf.setParty (hnone rfl)
  | @send i ok t hpc => exact hf.setParty (hnone (by cases ok <;> rfl))
  | @withdraw i t T out hpc hexec =>
      have hmore : (s.commit T).latest = s.latest := hquiet
      rw [commit_latest] at hmore
      omega
  | withdrawFails hpc => exact hf.setParty (hnone rfl)

/-- The store's contents are in force, and no party holds anything else. -/
structure Settled (s : Server) : Prop where
  fresh : NothingOld s
  inForce : s.hub.set = s.store

/-- What a party publishes now is the store's contents. -/
theorem set_of_publish {s : Server} (hi : Inv s) (hf : NothingOld s) {p : Party} {k : Nat}
    {set : TenantSet} {next : Next} {h : Hub} (hpc : s.parties p = .applying k set next)
    (hh : s.hub.step (.publish s.nextApply set) = some h) : h.set = s.store := by
  have hver := hi.backed p
  rw [hpc] at hver
  have hset : set = s.store := hf.store_eq (by rw [hpc]; rfl) hver
  cases Hub.step_eq_some_iff.1 hh with
  | publish hidle => exact hset

theorem settled_step {s s' : Server} {e : Event} (hi : Inv s) (hs : Settled s)
    (hstep : s.step e = some s') (hquiet : s'.latest = s.latest) (hstore : s'.store = s.store) :
    Settled s' where
  fresh := hs.fresh.step hstep hquiet
  inForce := by
    rw [hstore]
    cases moves_of_step hstep with
    | @hub e h hkind hh =>
        refine (set_of_step hh ?_).trans hs.inForce
        rintro a next rfl
        cases hkind
    | publish hpc hh => exact set_of_publish hi hs.fresh hpc hh
    | sweep hpc hh => exact (set_of_step hh (by simp)).trans hs.inForce
    | _ => exact hs.inForce

/-- The store's contents are in force, or the loop still carries them. -/
structure Catching (s : Server) : Prop where
  fresh : NothingOld s
  carried : s.hub.set = s.store ∨ (∃ k set, s.parties .reloader = .read k set)
    ∨ ∃ k set, s.parties .reloader = .applying k set .sleep

theorem Settled.catching {s : Server} (hs : Settled s) : Catching s := ⟨hs.fresh, Or.inl hs.inForce⟩

/-- The loop goes back to sleep without an `apply` only if nothing changed. -/
theorem set_eq_of_compare {s s' : Server} {k : Nat} {set : TenantSet}
    (hpc : s.parties .reloader = .read k set) (hstep : s.step .compare = some s')
    (hidle : s'.parties .reloader = .idle) : s.hub.set = set := by
  by_contra hne
  simp only [step, hpc, hne, if_false, Option.some.injEq] at hstep
  rw [← hstep] at hidle
  simp at hidle

theorem catching_step {s s' : Server} {e : Event} (hi : Inv s) (hc : Catching s)
    (hstep : s.step e = some s') (hquiet : s'.latest = s.latest) (hstore : s'.store = s.store) :
    Catching s' := by
  have hfresh := hc.fresh.step hstep hquiet
  rcases hc.carried with hset | hcarry
  · exact (settled_step hi ⟨hc.fresh, hset⟩ hstep hquiet hstore).catching
  refine ⟨hfresh, ?_⟩
  cases moves_of_step hstep with
  | reloadReads hpc => exact Or.inr (Or.inl ⟨s.latest, s.store, by simp⟩)
  | @same k set hpc =>
      have hver := hi.backed .reloader
      rw [hpc] at hver
      have hset : set = s.store := hc.fresh.store_eq (by rw [hpc]; rfl) hver
      exact Or.inl ((set_eq_of_compare hpc hstep (by simp)).trans hset)
  | @differs k set hpc => exact Or.inr (Or.inr ⟨k, set, by simp⟩)
  | publish hpc hh => exact Or.inl (set_of_publish hi hc.fresh hpc hh)
  | @sweep p k a next h hpc hh =>
      -- The loop itself is not sweeping, so it is another party.
      have hne : Party.reloader ≠ p := by
        rintro rfl
        rcases hcarry with ⟨l, set, hl⟩ | ⟨l, set, hl⟩
        · rw [hpc] at hl
          cases hl
        · rw [hpc] at hl
          cases hl
      exact Or.inr (by simpa [hne] using hcarry)
  | _ => exact Or.inr (by simpa using hcarry)

/-- What every step keeps that commits nothing, a run keeps that commits nothing. -/
theorem quiet_run {P : Server → Prop}
    (hP : ∀ {u e v}, Inv u → P u → step u e = some v → v.latest = u.latest → v.store = u.store → P v)
    {s t : Server} {es : List Event} (hi : Inv s) (hs : P s) (hrun : machine.run s es = some t) :
    s.latest ≤ t.latest ∧ (t.latest = s.latest → t.store = s.store ∧ P t) := by
  have hall := machine.run_invariant
    (fun u => Inv u ∧ s.latest ≤ u.latest ∧ (u.latest = s.latest → u.store = s.store ∧ P u)) ?_
    ⟨hi, Nat.le_refl _, fun _ => ⟨rfl, hs⟩⟩ hrun
  · exact hall.2
  · rintro u e v ⟨hi, hle, hquiet⟩ hstep
    refine ⟨inv_step hi hstep, ?_⟩
    rcases store_of_step hstep with hmore | ⟨hsame, hstore⟩
    · exact ⟨by omega, fun heq => by omega⟩
    · refine ⟨by omega, fun heq => ?_⟩
      obtain ⟨hus, hu⟩ := hquiet (by omega)
      exact ⟨hstore.trans hus, hP hi hu hstep hsame hstore⟩

/-- **A tick of the reload loop brings the snapshot up to the store.**  From every reachable state the
loop can finish what it is about and one more tick by its own steps, and then the store's contents are
in force.  And whatever else happens meanwhile: if at the tick's read no party holds an older version,
and no edit goes through, then from the end of the tick on the snapshot is what the store held at that
read. -/
theorem reload_catches_up (set : TenantSet) (es : List Event) (s : Server)
    (hrun : machine.run (initial set) es = some s) :
    (∃ t, Reloads 7 s t ∧ t.parties .reloader = .idle ∧ CaughtUp t)
      ∧ ∀ fs gs t u, s.parties .reloader = .idle → NothingOld s →
          machine.run s (.snapshot .reloader true :: fs) = some t → t.parties .reloader = .idle →
          machine.run t gs = some u → u.latest = s.latest → u.store = s.store ∧ CaughtUp u := by
  obtain ⟨hi, hc, hl⟩ := inv_calls_run hrun
  refine ⟨?_, fun fs gs t u hidle hold htick hdone hrest hquiet => ?_⟩
  · obtain ⟨v, hv, hidle⟩ := reloads_to_idle hc hl
    have hv' := hv
    obtain ⟨es', -, -, hes', -, -⟩ := hv'
    have hreach : machine.run (initial set) (es ++ es') = some v :=
      machine.run_append_iff.2 ⟨s, hrun, hes'⟩
    obtain ⟨t, ht, hidle', hset⟩ := reloads_from_idle (inv_calls_run hreach).2.1 hidle
    refine ⟨t, hv.trans ht, hidle', ?_⟩
    obtain ⟨fs', -, -, hfs', hstore, -⟩ := ht
    have hlast : machine.run (initial set) (es ++ es' ++ fs') = some t :=
      machine.run_append_iff.2 ⟨v, hreach, hfs'⟩
    exact caughtUp_of_set_eq (hub_inv_run hlast) (inv_calls_run hlast).2.1 (hset.trans hstore.symm)
  · obtain ⟨r, hread, hfs⟩ := machine.run_cons_iff.1 htick
    have hread : s.step (.snapshot .reloader true) = some r := hread
    have hr : r = s.setParty .reloader (.read s.latest s.store) := by
      simpa [step, hidle] using hread.symm
    have hcatch : Catching r := by
      rw [hr]
      refine ⟨NothingOld.setParty hold fun n hn => (Option.some.inj hn).symm, Or.inr (Or.inl ?_)⟩
      exact ⟨s.latest, s.store, by simp⟩
    have hlatest : r.latest = s.latest := by rw [hr]; rfl
    have hstore : r.store = s.store := by rw [hr]; rfl
    obtain ⟨hle, hend⟩ := quiet_run catching_step (inv_step hi hread) hcatch hfs
    have hreach : machine.run (initial set) (es ++ .snapshot .reloader true :: fs) = some t :=
      machine.run_append_iff.2 ⟨s, hrun, htick⟩
    have hit : Inv t := (inv_calls_run hreach).1
    -- Versions are never taken back, so nothing was committed up to the end of the tick either.
    have hmono : t.latest ≤ u.latest := (quiet_run (P := fun _ => True)
      (fun _ _ _ _ _ => trivial) hit trivial hrest).1
    obtain ⟨hts, htcatch⟩ := hend (by omega)
    have hset : t.hub.set = t.store := by
      rcases htcatch.carried with hset | ⟨k, S, hk⟩ | ⟨k, S, hk⟩
      · exact hset
      · rw [hdone] at hk
        cases hk
      · rw [hdone] at hk
        cases hk
    obtain ⟨hus, hsettled⟩ :=
      (quiet_run settled_step hit ⟨htcatch.fresh, hset⟩ hrest).2 (by omega)
    have hlast : machine.run (initial set) (es ++ .snapshot .reloader true :: fs ++ gs) = some u :=
      machine.run_append_iff.2 ⟨t, hreach, hrest⟩
    exact ⟨hus.trans (hts.trans hstore),
      caughtUp_of_set_eq (hub_inv_run hlast) (inv_calls_run hlast).2.1 hsettled.inForce⟩

/-- The tick after the stale publication. -/
def nextTick : List Event := [.compare, .publish .reloader, .sweep .reloader]

theorem reload_catches_up_stale :
    ∃ s t, machine.run (initial setAC) (staleRun ++ [.sweep .reloader]) = some s
      ∧ s.published = [1, 2, 0]
      ∧ machine.run s (.snapshot .reloader true :: nextTick) = some t
      ∧ t.published = [2, 1, 2, 0] ∧ t.store = s.store ∧ CaughtUp t := by
  have hafter : (machine.run (initial setAC)
      (staleRun ++ [.sweep .reloader] ++ .snapshot .reloader true :: nextTick)).map
        (fun t => (t.published, t.latest, t.parties .reloader)) = some ([2, 1, 2, 0], 2, .idle) := by
    decide
  have hbefore : (machine.run (initial setAC) (staleRun ++ [.sweep .reloader])).map
      (fun s => (s.published, s.latest, s.parties .reloader, s.parties (.enrollment 0)))
        = some ([1, 2, 0], 2, .idle, .done) := by decide
  have hothers : ∀ i, (machine.run (initial setAC) (staleRun ++ [.sweep .reloader])).map
      (fun s => s.parties (.enrollment (i + 1))) = some .idle := fun i => rfl
  obtain ⟨t, hwhole, ht⟩ := Option.map_eq_some_iff.1 hafter
  obtain ⟨s, hrun, htick⟩ := machine.run_append_iff.1 hwhole
  rw [hrun, Option.map_some, Option.some.injEq] at hbefore
  obtain ⟨hpublished, hlatest, hidle, hdone⟩ : s.published = [1, 2, 0] ∧ s.latest = 2
      ∧ s.parties .reloader = .idle ∧ s.parties (.enrollment 0) = .done := by simpa using hbefore
  obtain ⟨hpublished', hlatest', hidle'⟩ : t.published = [2, 1, 2, 0] ∧ t.latest = 2
      ∧ t.parties .reloader = .idle := by simpa using ht
  have hold : NothingOld s := by
    intro p n hn
    cases p with
    | reloader =>
        rw [hidle] at hn
        cases hn
    | enrollment i =>
        cases i with
        | zero =>
            rw [hdone] at hn
            cases hn
        | succ i =>
            have hi := hothers i
            rw [hrun, Option.map_some, Option.some.injEq] at hi
            rw [hi] at hn
            cases hn
  obtain ⟨hstore, hcaught⟩ := (reload_catches_up setAC _ s hrun).2 nextTick [] t t hidle hold htick
    hidle' rfl (hlatest'.trans hlatest.symm)
  exact ⟨s, t, hrun, hpublished, htick, hpublished', hstore, hcaught⟩

end Server
end Erbridge
