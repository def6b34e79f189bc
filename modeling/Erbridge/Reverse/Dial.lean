import Erbridge.Config.Resolve
import Erbridge.Core.History
import Erbridge.Reverse.Credentials
import Erbridge.Reverse.Faithful

/-!
# Which target is dialled

`handle_inbound_stream` decodes the name that A has sent and looks it up in the map that
`run_connect_with_shutdown` has made of its tunnels.

* `resolveName` — the lookup, on the bytes of the frame.
* `Relay.dialled` — the addresses that B has dialled, or tried to, along a run.
* `Relay.dials_configured_target` — it dials the target configured for the name that A meant, at most
  once, and nothing else.
-/

namespace Erbridge
namespace Reverse

open Erbridge.Core
open Config (ConnectTunnel ConnectFlags FileConfig resolveConnect targets targetOf)

/-- `String::from_utf8` and then `targets.get(&name)`. -/
def resolveName (tunnel : List ConnectTunnel) (data : Bytes) : Option String :=
  (ofUtf8 data).bind fun name => (targets tunnel).lookup (String.ofList name)

theorem resolveName_utf8 (tunnel : List ConnectTunnel) (name : String) :
    resolveName tunnel (utf8 name.toList) = targetOf tunnel name := by
  rw [resolveName, ofUtf8_utf8, Option.bind_some, String.ofList_toList, Config.lookup_targets]

namespace Relay

/-- The relay of a connection for the tunnel `name`, to a B with these tunnels. -/
def tunnelMachine (name : String) (tunnel : List ConnectTunnel) : Machine Relay Event :=
  machine (utf8 name.toList) fun data => (resolveName tunnel data).isSome

/-- The address that B dials in this step. -/
def dialledAt (tunnel : List ConnectTunnel) (s : Relay) : Event → List String
  | .header a =>
      match s.inbound with
      | .naming f =>
          match (f.step maxNameLen (s.wire .up) a).1 with
          | .done data => (resolveName tunnel data).toList
          | _ => []
      | _ => []
  | _ => []

/-- The addresses that B dials along a run. -/
def dialled (name : String) (tunnel : List ConnectTunnel) (seen : Option Bytes) (es : List Event) :
    List String :=
  (tunnelMachine name tunnel).history (dialledAt tunnel) (initial (utf8 name.toList) seen) es

/-- B has not looked a name up, or has given up. -/
def Idle (s : Relay) : Prop := s.dialed = false ∧ ((∃ f, s.inbound = .naming f) ∨ s.inbound = .dropped)

/-- B is not waiting for a name any more. -/
def Named (s : Relay) : Prop := ∀ f, s.inbound ≠ .naming f

variable {name : Bytes} {resolve : Bytes → Bool} {s t : Relay}

theorem beginNaming_inbound (s : Relay) (name : Bytes) :
    (s.beginNaming name).inbound = s.inbound ∧ (s.beginNaming name).dialed = s.dialed := by
  unfold beginNaming
  split
  · exact ⟨rfl, rfl⟩
  · exact ⟨rfl, rfl⟩

/-- What a step other than a poll for the name does to B. -/
theorem inbound_of_step {e : Event} (he : ∀ a, e ≠ .header a)
    (hstep : s.step name resolve e = some t) :
    (t.inbound = s.inbound ∨ t.inbound = .dropped) ∧ t.dialed = s.dialed
      ∨ Named s ∧ Named t ∧ ¬ Idle s := by
  have hlater : Named s → s.inbound ≠ .dropped → Named t →
      (t.inbound = s.inbound ∨ t.inbound = .dropped) ∧ t.dialed = s.dialed
        ∨ Named s ∧ Named t ∧ ¬ Idle s := by
    intro hs hgone ht
    refine Or.inr ⟨hs, ht, ?_⟩
    rintro ⟨-, ⟨f, hf⟩ | hdropped⟩
    · exact hs f hf
    · exact hgone hdropped
  cases e with
  | header a => exact absurd rfl (he a)
  | peek a found =>
      simp only [step] at hstep
      split at hstep
      · split at hstep
        · split at hstep
          · obtain rfl := Option.some.inj hstep
            obtain ⟨hinbound, hdialed⟩ := beginNaming_inbound _ _
            exact Or.inl ⟨Or.inl hinbound, hdialed⟩
          · obtain rfl := Option.some.inj hstep
            exact Or.inl ⟨Or.inl rfl, rfl⟩
        · obtain rfl := Option.some.inj hstep
          exact Or.inl ⟨Or.inl rfl, rfl⟩
        · obtain rfl := Option.some.inj hstep
          exact Or.inl ⟨Or.inl rfl, rfl⟩
      · cases hstep
  | dial ok =>
      simp only [step] at hstep
      split at hstep
      · rename_i hdialing
        obtain rfl := Option.some.inj hstep
        exact hlater (by simp [Named, hdialing]) (by simp [hdialing]) (by simp [Named])
      · cases hstep
  | answer a =>
      simp only [step] at hstep
      split at hstep
      · rename_i ok hanswering
        have hs : Named s := by simp [Named, hanswering]
        have hgone : s.inbound ≠ .dropped := by simp [hanswering]
        have hsame : Named (s.setWire .down ((s.wire .down).pollWrite [statusByte ok] a).2) := hs
        split at hstep
        · split at hstep
          · obtain rfl := Option.some.inj hstep
            exact hlater hs hgone (by simp [Named, dropInbound])
          · obtain rfl := Option.some.inj hstep
            exact hlater hs hgone (by simp [Named])
        · obtain rfl := Option.some.inj hstep
          exact hlater hs hgone (by simp [Named])
        · obtain rfl := Option.some.inj hstep
          exact hlater hs hgone hsame
      · rename_i ok hflushing
        have hs : Named s := by simp [Named, hflushing]
        have hgone : s.inbound ≠ .dropped := by simp [hflushing]
        split at hstep
        · split at hstep
          · obtain rfl := Option.some.inj hstep
            exact hlater hs hgone (by simp [Named])
          · obtain rfl := Option.some.inj hstep
            exact hlater hs hgone (by simp [Named, dropInbound])
        · obtain rfl := Option.some.inj hstep
          exact hlater hs hgone (by simp [Named, dropInbound])
        · obtain rfl := Option.some.inj hstep
          exact hlater hs hgone hs
      · cases hstep
  | finishInbound =>
      simp only [step] at hstep
      split at hstep
      · obtain rfl := Option.some.inj hstep
        exact Or.inl ⟨Or.inr rfl, rfl⟩
      · cases hstep
  | cancelInbound =>
      simp only [step] at hstep
      split at hstep
      · obtain rfl := Option.some.inj hstep
        exact Or.inl ⟨Or.inr rfl, rfl⟩
      · obtain rfl := Option.some.inj hstep
        exact Or.inl ⟨Or.inr rfl, rfl⟩
  | name | status | read | write | visitorSends | visitorCloses | targetSends | targetCloses
  | finishFront | cancelFront =>
      simp only [step] at hstep
      repeat' split at hstep
      all_goals first
        | obtain rfl := Option.some.inj hstep; exact Or.inl ⟨Or.inl rfl, rfl⟩
        | cases hstep

/-- What the poll for the name that completes it finds. -/
theorem header_of_step (hi : Inv name resolve s) {a : ReadAnswer}
    (hstep : s.step name resolve (.header a) = some t) :
    ∃ f, s.inbound = .naming f ∧
      ((f.step maxNameLen (s.wire .up) a).1 = .done name ∧ resolve name = true ∧ Named t
        ∨ (∀ data, (f.step maxNameLen (s.wire .up) a).1 = .done data → resolve data = false)
          ∧ Idle t) := by
  have hphase := hi.inbound
  unfold InboundOk at hphase
  cases hinbound : s.inbound with
  | dialing | answering | flushing | piping | dropped => simp [step, hinbound] at hstep
  | naming f =>
      simp only [hinbound] at hphase
      obtain ⟨hf, hread, -, hdialed, -⟩ := hphase
      refine ⟨f, rfl, ?_⟩
      obtain ⟨got, hwire, hunread, hout⟩ := FrameRead.step_spec hf (s.wire .up) a
      simp only [step, hinbound] at hstep
      generalize f.step maxNameLen (s.wire .up) a = p at hstep hwire hunread hout ⊢
      obtain ⟨g, wire⟩ := p
      simp only at hstep hwire hunread hout ⊢
      subst hwire
      cases hout with
      | going hok hheld =>
          refine Or.inr ⟨fun data hdone => (by rw [hdone] at hok; cases hok), ?_⟩
          cases g with
          | header | body =>
              obtain rfl := Option.some.inj hstep
              exact ⟨hdialed, Or.inl ⟨_, rfl⟩⟩
          | done | failed => exact absurd hok (by simp [FrameRead.Ok])
      | @done data _ hlt hframe =>
          -- What was read is the frame of the name.
          have hcarried : (s.wire .up).carried =
              frame data ++ ((s.wire .up).advance got.length).unread := by
            rw [← hframe, ← hread, ← (Wire.read_advance hunread).1, Wire.read_append_unread,
              Wire.carried_advance]
          obtain rfl : data = name := hi.name_of_read hlt hcarried
          by_cases hknown : resolve data = true
          · simp only [hknown, if_true] at hstep
            obtain rfl := Option.some.inj hstep
            exact Or.inl ⟨rfl, hknown, by simp [Named]⟩
          · simp only [hknown] at hstep
            obtain rfl := Option.some.inj hstep
            refine Or.inr ⟨fun data' hdone => ?_, hdialed, Or.inr rfl⟩
            obtain rfl := FrameRead.done.inj hdone
            simpa using hknown
      | tooLarge | eof | error =>
          obtain rfl := Option.some.inj hstep
          exact Or.inr ⟨fun data hdone => (by cases hdone), hdialed, Or.inr rfl⟩

/-! ## Whole runs -/

/-- B has dialled nothing and is idle, or it has dialled the one target and does not look again. -/
def Dials (name : String) (tunnel : List ConnectTunnel) (addresses : List String) (s : Relay) : Prop :=
  (addresses = [] ∧ Idle s) ∨ ∃ target, targetOf tunnel name = some target ∧ addresses = [target] ∧ Named s

theorem dials_run {name : String} {tunnel : List ConnectTunnel} {seen : Option Bytes}
    {es : List Event} (hrun : (tunnelMachine name tunnel).run (initial (utf8 name.toList) seen) es = some s) :
    Dials name tunnel (dialled name tunnel seen es) s := by
  refine (tunnelMachine name tunnel).run_induction
    (fun es s => Dials name tunnel (dialled name tunnel seen es) s) ?_ ?_ hrun
  · refine Or.inl ⟨rfl, ?_⟩
    cases seen with
    | none => exact ⟨rfl, Or.inl ⟨_, rfl⟩⟩
    | some replay =>
        obtain ⟨hinbound, hdialed⟩ := beginNaming_inbound (incoming replay) (utf8 name.toList)
        exact ⟨hdialed, Or.inl ⟨_, hinbound⟩⟩
  · intro es s e t hrun hdials hstep
    have hlog : dialled name tunnel seen (es ++ [e])
        = dialled name tunnel seen es ++ dialledAt tunnel s e :=
      (tunnelMachine name tunnel).history_concat hrun hstep
    rw [hlog]
    by_cases hheader : ∃ a, e = .header a
    · obtain ⟨a, rfl⟩ := hheader
      obtain ⟨f, hinbound, hfound⟩ := header_of_step (inv_run hrun) hstep
      -- It was waiting for the name, so that nothing was dialled before.
      rcases hdials with ⟨hnone, -⟩ | ⟨target, -, -, hnamed⟩
      · rw [hnone, List.nil_append]
        rcases hfound with ⟨hdone, hknown, hnamed⟩ | ⟨hunknown, hidle⟩
        · rw [resolveName_utf8, Option.isSome_iff_exists] at hknown
          obtain ⟨target, htarget⟩ := hknown
          refine Or.inr ⟨target, htarget, ?_, hnamed⟩
          simp only [dialledAt, hinbound, hdone, resolveName_utf8, htarget, Option.toList_some]
        · refine Or.inl ⟨?_, hidle⟩
          simp only [dialledAt, hinbound]
          split
          · rename_i data hdone
            have hno := hunknown data hdone
            rw [Option.isSome_eq_false_iff, Option.isNone_iff_eq_none] at hno
            rw [hno]
            rfl
          · rfl
      · exact absurd hinbound (hnamed f)
    · have hnone : dialledAt tunnel s e = [] := by
        cases e with
        | header a => exact absurd ⟨a, rfl⟩ hheader
        | _ => rfl
      rw [hnone, List.append_nil]
      have hmoves := inbound_of_step (fun a ha => hheader ⟨a, ha⟩) hstep
      rcases hdials with ⟨hempty, hidle⟩ | ⟨target, htarget, hone, hnamed⟩
      · refine Or.inl ⟨hempty, ?_⟩
        rcases hmoves with ⟨hinbound, hdialed⟩ | ⟨-, -, hbusy⟩
        · refine ⟨hdialed.trans hidle.1, ?_⟩
          rcases hinbound with hsame | hgone
          · rw [hsame]
            exact hidle.2
          · exact Or.inr hgone
        · exact absurd hidle hbusy
      · refine Or.inr ⟨target, htarget, hone, ?_⟩
        rcases hmoves with ⟨hsame | hgone, -⟩ | ⟨-, hnamed', -⟩
        · intro f hf
          exact hnamed f (hsame ▸ hf)
        · intro f hf
          rw [hgone] at hf
          cases hf
        · exact hnamed'

/-- **B dials the target that is configured for the name, and nothing else.**  Over a stream that A has
opened for the tunnel `name`, in whatever interleaving, B dials at most one address, which is that of the
last of its tunnels with this name; it has no connection to a target without; and with `--credentials`
and `--target` that address is the given target for the tenant of the credentials, whatever tunnels the
config file and the other flags have. -/
theorem dials_configured_target (name : String) (tunnel : List ConnectTunnel) (seen : Option Bytes)
    (es : List Event) (s : Relay)
    (hrun : (tunnelMachine name tunnel).run (initial (utf8 name.toList) seen) es = some s) :
    (dialled name tunnel seen es = [] ∨ ∃ target, targetOf tunnel name = some target
        ∧ dialled name tunnel seen es = [target])
      ∧ (s.dialed = true → dialled name tunnel seen es ≠ [])
      ∧ ∀ readCredentials file flags cfg path target creds,
        resolveConnect readCredentials file flags = .ok cfg → cfg.tunnel = tunnel →
        flags.credentials = some path → readCredentials path = .ok creds →
        flags.target = some target → creds.name = name →
        dialled name tunnel seen es = [] ∨ dialled name tunnel seen es = [target] := by
  have hdials := dials_run hrun
  have hone : dialled name tunnel seen es = [] ∨ ∃ target, targetOf tunnel name = some target
      ∧ dialled name tunnel seen es = [target] :=
    hdials.imp And.left fun ⟨target, htarget, hone, _⟩ => ⟨target, htarget, hone⟩
  refine ⟨hone, fun hdialed hempty => ?_, ?_⟩
  · rcases hdials with ⟨-, hidle⟩ | ⟨target, -, htarget, -⟩
    · rw [hidle.1] at hdialed
      cases hdialed
    · rw [hempty] at htarget
      cases htarget
  · rintro readCredentials file flags cfg path target creds hcfg rfl hpath hread htarget rfl
    refine hone.imp id fun ⟨found, hfound, hdialled⟩ => ?_
    obtain ⟨others, htunnel⟩ := Config.resolveConnect_credentials hcfg hpath hread htarget
    rw [htunnel, Config.targetOf_concat] at hfound
    rw [hdialled, Option.some.inj hfound]

/-- A tunnel of the config file, and the same name on the command line. -/
def replacedTunnel : List ConnectTunnel := [⟨"b", "10.0.0.1:80"⟩, ⟨"b", "127.0.0.1:80"⟩]

theorem dials_configured_target_replaced :
    ∃ s, (tunnelMachine "b" replacedTunnel).run (initial (utf8 "b".toList) (some [7])) halfClosedRun
        = some s ∧ s.dialed = true
      ∧ dialled "b" replacedTunnel (some [7]) halfClosedRun = ["127.0.0.1:80"] := by
  have hend : ((tunnelMachine "b" replacedTunnel).run (initial (utf8 "b".toList) (some [7]))
      halfClosedRun).map (fun s => s.dialed) = some true := by decide +kernel
  obtain ⟨s, hrun, hdialed⟩ := Option.map_eq_some_iff.1 hend
  obtain ⟨hone, hsome, -⟩ :=
    dials_configured_target "b" replacedTunnel (some [7]) halfClosedRun s hrun
  obtain ⟨target, htarget, hdialled⟩ := hone.resolve_left (hsome hdialed)
  have hlast : targetOf replacedTunnel "b" = some "127.0.0.1:80" := by decide
  rw [hlast] at htarget
  refine ⟨s, hrun, hdialed, ?_⟩
  rw [hdialled, Option.some.inj htarget]

end Relay

end Reverse
end Erbridge
