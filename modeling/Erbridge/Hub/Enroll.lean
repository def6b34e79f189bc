import Erbridge.Hub.Enrollment
import Erbridge.Reverse.Json
import Erbridge.Reverse.Limits

/-!
# An enrollment at both ends

The model of `enroll_with_timeout` of `enroll.rs` behind its handshake, joined to `run_enrollment`: the
two ends of one ordered stream, polled in any order, with everything that can happen to the server's
side.  The client can time out at any moment; when the server's side is over its end of the stream is
dropped.

* `Enroll.step` — the two ends as one machine.
* `Enroll.Inv` — what the server has sent is the front of one credentials frame, and the client holds
  what it has read of it.
* `Enroll.Agreement` — what a client that returns `Ok` and a server that returns `Ok` can rely on.
* `Enroll.enrolled_client_agrees` — in every run; and where neither others' edits nor a failure behind
  the frame come in between, the store lets the new client in.
-/

namespace Erbridge
namespace Hub

open Erbridge.Core
open Noise (Psk)
open Reverse (Credentials FrameRead FrameWrite maxCredentialsLen RoundTrips)
open Tenancy (Tenant EnrollCode Identity TenantSet exec)

/-- Where `enroll_with_timeout` is. -/
inductive Enrollee
  /-- `read_frame(&mut stream, maxCredentialsLen)`, or what came of it. -/
  | reading (f : FrameRead)
  | timedOut

/-- Why there are no credentials. -/
inductive EnrollError
  | notReturned (e : IoError)
  | malformed
  | timedOut
deriving DecidableEq

def EnrollError.message : EnrollError → String
  | .notReturned _ => "server did not return credentials"
  | .malformed => "server sent malformed credentials"
  | .timedOut => "timed out waiting for enrollment"

namespace Enrollee

/-- It is still in `read_frame`. -/
def waiting : Enrollee → Bool
  | .reading (.header _) | .reading (.body _ _) => true
  | _ => false

/-- What `enroll_with_timeout` returns, once it does; `fromSlice` is `serde_json::from_slice`. -/
def result (fromSlice : Bytes → Option Credentials) : Enrollee → Option (Except EnrollError Credentials)
  | .reading (.done data) =>
      some (match fromSlice data with
        | some c => .ok c
        | none => .error .malformed)
  | .reading (.failed e) => some (.error (.notReturned e))
  | .timedOut => some (.error .timedOut)
  | _ => none

end Enrollee

/-- The two ends; the stream is the server's `out`. -/
structure Enroll where
  server : Enrollment
  client : Enrollee

namespace Enrollment

/-- The server's end of the stream is dropped. -/
def hangUp (s : Enrollment) : Enrollment := { s with out := { s.out with ended := true } }

end Enrollment

namespace Enroll

/-- The handshake is over at both ends. -/
def start (set : TenantSet) : Enroll where
  server := Enrollment.start set
  client := .reading FrameRead.start

inductive Event
  | server (e : Enrollment.Event)
  /-- `run_enrollment` is over and its stream is dropped. -/
  | hangUp
  /-- The client is polled in `read_frame`. -/
  | read (a : ReadAnswer)
  | timeout

variable (d : Draw)

def step (s : Enroll) : Event → Option Enroll
  | .server e => (s.server.step d e).map fun t => { s with server := t }
  | .hangUp => if s.server.stage.running then none else some { s with server := s.server.hangUp }
  | .read a =>
      match s.client with
      | .reading f =>
          if s.client.waiting then
            let p := f.step maxCredentialsLen s.server.out a
            some { server := { s.server with out := p.2 }, client := .reading p.1 }
          else none
      | .timedOut => none
  | .timeout => if s.client.waiting then some { s with client := .timedOut } else none

/-- The two ends as a machine. -/
def machine : Machine Enroll Event where
  step := step d

end Enroll

namespace Enrollment

variable {d : Draw} {s s' : Enrollment}

/-! ## What the server has sent -/

/-- What the code in the store was made into. -/
def IssuedFrom (d : Draw) (t : Tenant) : Prop :=
  ∃ code : EnrollCode, code.psk = d.codePsk ∧ code.unexpired d.now = true
    ∧ t = TenantSet.redeemed code d.name d.psk

/-- What is known of the stream on the server's side. -/
structure Progress (d : Draw) (s : Enrollment) : Prop where
  issued : ∀ t, s.created = some t → IssuedFrom d t
  fresh : s.job = .queued .redeem → s.created = none
  fits : ∀ t f, s.stage = .writing t f → (d.json t).length < 65536
  sent : s.out.carried = [] ∨ ∃ t, s.created = some t ∧ (d.json t).length < 65536
    ∧ s.out.carried <+: frame (d.json t)
  returned : s.stage = .returned true → s.Handed d
  ended : s.out.ended = true → s.stage.running = false

theorem progress_start (set : TenantSet) : Progress d (start set) where
  issued _ ht := by cases ht
  fresh _ := rfl
  fits _ _ hs := by cases hs
  sent := Or.inl rfl
  returned hs := by cases hs
  ended he := by cases he

/-- A redeemed code was in the store and had not expired. -/
theorem issuedFrom_of_exec {S next : TenantSet} {t : Tenant}
    (hcall : exec S (redeemCall d) = (next, .ok (some t))) : IssuedFrom d t := by
  have heffect := Tenancy.effect_of_exec hcall
  unfold redeemCall at heffect
  generalize hp : d.codePsk = codePsk at heffect
  cases heffect with
  | redeem hcode hlive htenants hcodes => exact ⟨_, hp.symm, hlive, rfl⟩

theorem handed_of_eq (hcreated : s'.created = s.created) (hout : s'.out.carried = s.out.carried)
    (h : s.Handed d) : s'.Handed d := by
  obtain ⟨t, ht, hcarried⟩ := h
  exact ⟨t, hcreated.trans ht, hout.trans hcarried⟩

/-- A step that neither writes nor creates. -/
theorem Progress.keep (hp : Progress d s) (hcreated : s'.created = s.created)
    (hout : s'.out = s.out) (hjob : s'.job = .queued .redeem → s.job = .queued .redeem)
    (hwriting : ∀ t f, s'.stage = .writing t f → s.stage = .writing t f)
    (hstage : s'.stage = s.stage ∨ (s.stage.running = true ∧ s'.stage ≠ .returned true)
      ∨ s'.stage = .returned false) : Progress d s' where
  issued t ht := hp.issued t (hcreated ▸ ht)
  fresh hj := by rw [hcreated, hp.fresh (hjob hj)]
  fits t f hs := hp.fits t f (hwriting t f hs)
  sent := by
    rw [hcreated, hout]
    exact hp.sent
  returned hs := by
    rcases hstage with heq | ⟨-, hne⟩ | hfalse
    · exact handed_of_eq hcreated (by rw [hout]) (hp.returned (heq ▸ hs))
    · exact absurd hs hne
    · rw [hfalse] at hs
      cases hs
  ended he := by
    rw [hout] at he
    have hover := hp.ended he
    rcases hstage with heq | ⟨hrunning, -⟩ | hfalse
    · rw [heq]
      exact hover
    · rw [hover] at hrunning
      cases hrunning
    · rw [hfalse]
      rfl

theorem progress_step {e : Event} (hi : Inv d s) (hp : Progress d s)
    (hstep : s.step d e = some s') : Progress d s' := by
  have hi' := inv_step hi (moves_of_step hstep)
  have hstage := hi.stage
  -- What was sent stays the front of the frame while the stage says so.
  have hsent : ∀ {t : Tenant} {f : FrameWrite} {a : WriteAnswer}, s.stage = .writing t f →
      s.created = some t ∧ (d.json t).length < 65536
        ∧ (f.step s.out a).2.carried <+: frame (d.json t)
        ∧ (f.step s.out a).2.ended = s.out.ended := by
    intro t f a hs
    rw [hs] at hstage
    obtain ⟨hcreated, -, hok, hcarried⟩ := hstage
    refine ⟨hcreated, hp.fits t f hs, ?_⟩
    rcases FrameWrite.step_cases hok s.out a with ⟨e, heq, -⟩ | ⟨g, pushed, heq, -, hunsent, -⟩
    · rw [heq]
      exact ⟨⟨f.unsent, hcarried⟩, rfl⟩
    · rw [heq, ← hcarried, hunsent]
      exact ⟨⟨g.unsent, by simp⟩, rfl⟩
  have hopen : ∀ {t f}, s.stage = .writing t f → s.out.ended = false := by
    intro t f hs
    by_contra hended
    have hover := hp.ended (by simpa using hended)
    rw [hs] at hover
    cases hover
  cases moves_of_step hstep with
  | @redeemed next t hjob hcall =>
      obtain ⟨-, hcarried, hs⟩ := hi.redeem_queued hjob
      refine ⟨fun u hu => ?_, by simp, fun t f hw => ?_, Or.inl hcarried, fun hr => ?_, hp.ended⟩
      · obtain rfl := Option.some.inj hu
        exact issuedFrom_of_exec hcall
      · rcases hs with hs | hs
        · rw [hs] at hw
          cases hw
        · rw [hs] at hw
          cases hw
      · rcases hs with hs | hs
        · rw [hs] at hr
          cases hr
        · rw [hs] at hr
          cases hr
  | snapshot hjob => exact hp.keep rfl rfl (by simp) (fun _ _ h => h) (Or.inl rfl)
  | revoked hjob hcall => exact hp.keep rfl rfl (by simp) (fun _ _ h => h) (Or.inl rfl)
  | redeemRefused hjob hcall => exact hp.keep rfl rfl (by simp) (fun _ _ h => h) (Or.inl rfl)
  | revokeRefused hjob hcall => exact hp.keep rfl rfl (by simp) (fun _ _ h => h) (Or.inl rfl)
  | fails hjob hluck => exact hp.keep rfl rfl (by simp) (fun _ _ h => h) (Or.inl rfl)
  | created hs hjob =>
      exact hp.keep rfl rfl (by simp) (by simp) (Or.inr (Or.inl ⟨by rw [hs]; rfl, by simp⟩))
  | notCreated hs hjob ho => exact hp.keep rfl rfl (by simp) (by simp) (Or.inr (Or.inr rfl))
  | @sends t o published hs hjob hfits =>
      have hbefore : s.out.carried = [] := by
        rw [hs] at hstage
        exact hstage.2.2
      refine ⟨hp.issued, by simp, ?_, Or.inl hbefore, by simp, fun he => ?_⟩
      · intro u f hw
        obtain ⟨rfl, -⟩ := Stage.writing.inj hw
        exact hfits
      · have hover := hp.ended he
        rw [hs] at hover
        cases hover
  | tooLarge hs hjob =>
      exact hp.keep rfl rfl (by simp) (by simp) (Or.inr (Or.inl ⟨by rw [hs]; rfl, by simp⟩))
  | withdrawn hs hjob =>
      exact hp.keep rfl rfl (by simp) (by simp) (Or.inr (Or.inl ⟨by rw [hs]; rfl, by simp⟩))
  | returns hs hjob => exact hp.keep rfl rfl (by simp) (by simp) (Or.inr (Or.inr rfl))
  | @written a t f hs hwrite =>
      obtain ⟨hcreated, hfits, hfront, hended⟩ := hsent (a := a) hs
      exact ⟨hp.issued, hp.fresh, by simp, Or.inr ⟨t, hcreated, hfits, hfront⟩, by simp,
        fun he => by rw [hended, hopen hs] at he; cases he⟩
  | @writeFails a t f e hs hwrite =>
      obtain ⟨hcreated, hfits, hfront, hended⟩ := hsent (a := a) hs
      exact ⟨hp.issued, by simp, by simp, Or.inr ⟨t, hcreated, hfits, hfront⟩, by simp,
        fun he => by rw [hended, hopen hs] at he; cases he⟩
  | @writes a t f g hs hwrite hdone hfailed =>
      obtain ⟨hcreated, hfits, hfront, hended⟩ := hsent (a := a) hs
      refine ⟨hp.issued, hp.fresh, fun u h hw => ?_, Or.inr ⟨t, hcreated, hfits, hfront⟩, by simp,
        fun he => by rw [hended, hopen hs] at he; cases he⟩
      obtain ⟨rfl, -⟩ := Stage.writing.inj hw
      exact hfits
  | @closed a t out hs hout =>
      rw [hs] at hstage
      have hhanded : Handed d { s with stage := .returned true, out := out } := by
        obtain ⟨u, hu, hcarried⟩ := hstage.2
        exact ⟨u, hu, hout.trans hcarried⟩
      refine ⟨hp.issued, hp.fresh, by simp, ?_, fun _ => hhanded, fun _ => rfl⟩
      show out.carried = [] ∨ _
      rw [hout]
      exact hp.sent
  | closeFails hs =>
      exact hp.keep rfl rfl (by simp) (by simp) (Or.inr (Or.inl ⟨by rw [hs]; rfl, by simp⟩))
  | closes hs => exact hp
  | drop hrunning => exact hp.keep rfl rfl id (by simp) (Or.inr (Or.inl ⟨hrunning, by simp⟩))
  | edit => exact hp.keep rfl rfl id (fun _ _ h => h) (Or.inl rfl)

/-! ## What the other end does to the server's side -/

/-- The stream as the server sees it: what it has put in. -/
theorem inv_setOut (hi : Inv d s) {out : Wire} (hout : out.carried = s.out.carried) :
    Inv d { s with out := out } where
  stage := by
    have hstage := hi.stage
    show StageOk d { s with out := out } s.stage
    cases hs : s.stage with
    | redeeming =>
        rw [hs] at hstage
        exact ⟨hout.trans hstage.1, hstage.2⟩
    | reading t =>
        rw [hs] at hstage
        exact ⟨hstage.1, hstage.2.1, hout.trans hstage.2.2⟩
    | writing t f =>
        rw [hs] at hstage
        obtain ⟨hcreated, hname, hok, hsent⟩ := hstage
        exact ⟨hcreated, hname, hok, by rw [← hsent, ← hout]⟩
    | closing t =>
        rw [hs] at hstage
        obtain ⟨u, hu, hcarried⟩ := hstage.2
        exact ⟨hstage.1, u, hu, hout.trans hcarried⟩
    | revoking t | rereading | returned ok | dropped => trivial
  left_holds := hi.left_holds
  redeem_queued hjob := by
    obtain ⟨hleft, hcarried, hs⟩ := hi.redeem_queued hjob
    exact ⟨hleft, hout.trans hcarried, hs⟩
  revoke_queued := hi.revoke_queued

theorem progress_setOut (hp : Progress d s) {out : Wire} (hout : out.carried = s.out.carried)
    (hended : out.ended = true → s.stage.running = false) : Progress d { s with out := out } where
  issued := hp.issued
  fresh := hp.fresh
  fits := hp.fits
  sent := by
    show out.carried = [] ∨ ∃ t, s.created = some t ∧ _ ∧ out.carried <+: _
    rw [hout]
    exact hp.sent
  returned hs := by
    obtain ⟨t, ht, hcarried⟩ := hp.returned hs
    exact ⟨t, ht, hout.trans hcarried⟩
  ended := hended

/-- The server's side writes behind what is there, and reads nothing. -/
theorem out_of_step {e : Event} (hi : Inv d s) (hstep : s.step d e = some s') :
    s'.out.taken = s.out.taken ∧ s.out.carried <+: s'.out.carried := by
  have hsame : s.out.taken = s.out.taken ∧ s.out.carried <+: s.out.carried :=
    ⟨rfl, List.prefix_refl _⟩
  have hwritten : ∀ {t : Tenant} {f : FrameWrite} {a : WriteAnswer}, s.stage = .writing t f →
      (f.step s.out a).2.taken = s.out.taken ∧ s.out.carried <+: (f.step s.out a).2.carried := by
    intro t f a hs
    have hstage := hi.stage
    rw [hs] at hstage
    rcases FrameWrite.step_cases hstage.2.2.1 s.out a with ⟨e, heq, -⟩ | ⟨g, pushed, heq, -⟩
    · rw [heq]
      exact hsame
    · rw [heq]
      exact ⟨rfl, List.prefix_append _ _⟩
  cases e with
  | close a =>
      simp only [step] at hstep
      split at hstep
      · cases a with
        | fail | pending | upTo n | zero =>
            cases hstep
            exact hsame
      · cases hstep
  | write a =>
      cases moves_of_step hstep with
      | written hs | writeFails hs | writes hs => exact hwritten hs
  | work luck | resume | drop | edit set =>
      cases moves_of_step hstep with
      | _ => exact hsame

/-- What is created stays so. -/
theorem created_of_step {e : Event} (hp : Progress d s) (hstep : s.step d e = some s') {t : Tenant}
    (ht : s.created = some t) : s'.created = some t := by
  cases moves_of_step hstep with
  | redeemed hjob hcall =>
      rw [hp.fresh hjob] at ht
      cases ht
  | _ => exact ht

/-- Once it is over, the server's side is so for good, and sends no more. -/
theorem over_of_step {e : Event} (hstep : s.step d e = some s') (hover : s.stage.running = false) :
    s'.stage.running = false ∧ s'.out.carried = s.out.carried := by
  have hbusy : ∀ {k : Stage}, s.stage = k → k.running = true → False := by
    rintro k rfl hk
    rw [hover] at hk
    cases hk
  cases moves_of_step hstep with
  | created hs | notCreated hs | sends hs | tooLarge hs | withdrawn hs | written hs
  | writeFails hs | writes hs | closed hs | closeFails hs =>
      exact (hbusy hs rfl).elim
  | returns hs hjob => exact ⟨rfl, rfl⟩
  | drop hrunning => exact ⟨rfl, rfl⟩
  | _ => exact ⟨hover, rfl⟩

/-- The frame is handed over for good. -/
theorem handed_of_step {e : Event} (hi : Inv d s) (hp : Progress d s)
    (hstep : s.step d e = some s') (h : s.Handed d) : s'.Handed d := by
  obtain ⟨t, ht, hcarried⟩ := h
  have ht' := created_of_step hp hstep ht
  refine ⟨t, ht', ?_⟩
  obtain ⟨-, hfront⟩ := out_of_step hi hstep
  rw [hcarried] at hfront
  -- Nothing comes behind the frame.
  rcases (progress_step hi hp hstep).sent with hnil | ⟨u, hu, -, hsent⟩
  · rw [hnil] at hfront
    exact absurd (List.prefix_nil.1 hfront) (frame_ne_nil _)
  · rw [ht'] at hu
    obtain rfl := Option.some.inj hu
    exact (hfront.eq_of_length_le hsent.length_le).symm

/-- A server's side that is over without having handed over the frame never does. -/
theorem not_handed_of_step {e : Event} (hp : Progress d s) (hstep : s.step d e = some s')
    (hover : s.stage.running = false) (h : ¬ s.Handed d) : ¬ s'.Handed d := by
  rintro ⟨t, ht, hcarried⟩
  rw [(over_of_step hstep hover).2] at hcarried
  rcases hp.sent with hnil | ⟨u, hu, -, -⟩
  · rw [hnil] at hcarried
    exact frame_ne_nil _ hcarried.symm
  · rw [created_of_step hp hstep hu] at ht
    exact h ⟨u, hu, by rw [hcarried, Option.some.inj ht]⟩

/-! ## Nothing comes behind the frame -/

/-- The tenant created is in the store, as long as it is to be sent and once it was. -/
structure Kept (d : Draw) (s : Enrollment) : Prop where
  pending : s.stage.pending = true → ∀ t, s.created = some t → t ∈ s.store.tenants
  handed : s.Handed d → (∀ t, s.created = some t → t ∈ s.store.tenants) ∧ s.job.isRevoke = false

/-- Nobody else edits the store, and the stream does not fail behind the frame. -/
def Undisturbed (d : Draw) (s : Enrollment) : Event → Prop
  | .edit _ => False
  | .write .fail | .close .fail => ¬ s.Handed d
  | _ => True

theorem kept_start (set : TenantSet) : Kept d (start set) where
  pending _ t ht := by cases ht
  handed h := by
    obtain ⟨t, ht, -⟩ := h
    cases ht

/-- A `write_frame` that has written all can only fail where the flush does. -/
theorem fail_of_unsent_nil {f : FrameWrite} (hf : f.Ok) (hunsent : f.unsent = []) {wire : Wire}
    {a : WriteAnswer} {e : IoError} (hstep : (f.step wire a).1 = .failed e) : a = .fail := by
  cases f with
  | header rest bytes => exact absurd (List.append_eq_nil_iff.1 hunsent).1 hf
  | data rest => exact absurd hunsent hf
  | flushing =>
      cases a with
      | fail => rfl
      | upTo n | zero | pending => cases hstep
  | done => cases hstep
  | failed e => exact absurd hf (by simp [FrameWrite.Ok])

/-- A step that leaves the store, the stream and what was created as they are. -/
theorem Kept.keep (hk : Kept d s) (hcreated : s'.created = s.created) (hstore : s'.store = s.store)
    (hout : s'.out.carried = s.out.carried)
    (hpending : s'.stage.pending = true → s.stage.pending = true)
    (hjob : s.Handed d → s'.job.isRevoke = false) : Kept d s' where
  pending hs t ht := by
    rw [hstore]
    exact hk.pending (hpending hs) t (hcreated ▸ ht)
  handed h := by
    have hbefore : s.Handed d := handed_of_eq hcreated.symm hout.symm h
    refine ⟨fun t ht => ?_, hjob hbefore⟩
    rw [hstore]
    exact (hk.handed hbefore).1 t (hcreated ▸ ht)

theorem not_handed_of_nil (hout : s.out.carried = []) : ¬ s.Handed d := by
  rintro ⟨t, -, hcarried⟩
  exact frame_ne_nil _ (hcarried.symm.trans hout)

theorem kept_step {e : Event} (hi : Inv d s) (hk : Kept d s) (hquiet : Undisturbed d s e)
    (hstep : s.step d e = some s') : Kept d s' := by
  have hstage := hi.stage
  -- While it writes, no revocation is on its way.
  have hjob : ∀ {t f}, s.stage = .writing t f → s.job.isRevoke = false := by
    intro t f hs
    obtain ⟨-, hrevoke⟩ := not_queued hi (by simp [hs]) (by simp [hs, Stage.givenUp])
    cases hj : s.job with
    | idle | finished o => rfl
    | queued w =>
        cases w with
        | redeem | snapshot => rfl
        | revoke name => exact absurd hj (hrevoke name)
  have hwriting : ∀ {t f} {u : Enrollment}, s.stage = .writing t f → u.created = s.created →
      u.store = s.store → u.job = s.job → Kept d u := by
    intro t f u hs hcreated hstore hj
    have hmem : ∀ v, u.created = some v → v ∈ u.store.tenants := by
      intro v hv
      rw [hstore]
      exact hk.pending (by rw [hs]; rfl) v (hcreated ▸ hv)
    exact ⟨fun _ => hmem, fun _ => ⟨hmem, by rw [hj]; exact hjob hs⟩⟩
  cases moves_of_step hstep with
  | @redeemed next t hj hcall =>
      obtain ⟨-, hcarried, -⟩ := hi.redeem_queued hj
      refine ⟨fun _ u hu => ?_, fun h => absurd h (not_handed_of_nil hcarried)⟩
      obtain rfl := Option.some.inj hu
      have heffect := Tenancy.effect_of_exec hcall
      unfold redeemCall at heffect
      generalize d.codePsk = codePsk at heffect
      cases heffect with
      | redeem hcode hlive htenants hcodes => simp [htenants]
  | snapshot hj => exact hk.keep rfl rfl rfl id fun _ => rfl
  | @revoked name next out hj hcall =>
      -- The tenant that is revoked was not handed over.
      have hnot : ¬ s.Handed d := by
        intro h
        have hrevoke := (hk.handed h).2
        rw [hj] at hrevoke
        cases hrevoke
      have hup := (hi.revoke_queued name hj).2
      refine ⟨fun hs => ?_, fun h => absurd (handed_of_eq rfl rfl h) hnot⟩
      have hpending : s.stage.pending = true := hs
      rw [Stage.not_pending hup] at hpending
      cases hpending
  | redeemRefused hj hcall => exact hk.keep rfl rfl rfl id fun _ => rfl
  | revokeRefused hj hcall => exact hk.keep rfl rfl rfl id fun _ => rfl
  | fails hj hluck => exact hk.keep rfl rfl rfl id fun _ => rfl
  | created hs hj => exact hk.keep rfl rfl rfl (fun _ => by rw [hs]; rfl) fun _ => rfl
  | notCreated hs hj ho => exact hk.keep rfl rfl rfl (fun h => by cases h) fun _ => rfl
  | sends hs hj hfits => exact hk.keep rfl rfl rfl (fun _ => by rw [hs]; rfl) fun _ => rfl
  | tooLarge hs hj =>
      rw [hs] at hstage
      exact hk.keep rfl rfl rfl (fun h => by cases h)
        fun h => absurd h (not_handed_of_nil hstage.2.2)
  | withdrawn hs hj => exact hk.keep rfl rfl rfl (fun h => by cases h) fun _ => rfl
  | returns hs hj => exact hk.keep rfl rfl rfl (fun h => by cases h) fun _ => rfl
  | written hs hwrite => exact hwriting hs rfl rfl rfl
  | @writeFails a t f e hs hwrite =>
      rw [hs] at hstage
      obtain ⟨hcreated, -, hok, hsent⟩ := hstage
      have hsame : (f.step s.out a).2 = s.out := by
        rcases FrameWrite.step_cases hok s.out a with ⟨e', heq, -⟩ | ⟨g, pushed, heq, hg, -, -⟩
        · rw [heq]
        · rw [heq] at hwrite
          obtain rfl : g = .failed e := hwrite
          exact absurd hg (by simp [FrameWrite.Ok])
      refine hk.keep rfl rfl (by rw [hsame]) (fun h => by cases h) fun h => ?_
      obtain ⟨u, hu, hcarried⟩ := id h
      have heq : t = u := Option.some.inj (hcreated.symm.trans hu)
      rw [hcarried, ← heq] at hsent
      have hfail := fail_of_unsent_nil hok (List.append_right_eq_self.1 hsent) hwrite
      rw [hfail] at hquiet
      exact absurd h hquiet
  | writes hs hwrite hdone hfailed => exact hwriting hs rfl rfl rfl
  | @closed a t out hs hout =>
      rw [hs] at hstage
      exact hk.keep rfl rfl hout (fun h => by cases h) fun h => (hk.handed h).2
  | @closeFails a t hs =>
      rw [hs] at hstage
      cases a with
      | fail => exact absurd hstage.2 hquiet
      | pending | upTo n | zero => simp [step, hs, Wire.pollShutdown] at hstep
  | closes hs => exact hk
  | drop hrunning => exact hk.keep rfl rfl rfl (fun h => by cases h) fun h => (hk.handed h).2
  | edit => exact hquiet.elim

end Enrollment

namespace Enroll

open Enrollment (Progress IssuedFrom)

variable {d : Draw} {s s' : Enroll}

/-! ## What the client knows -/

/-- What is known of the client's end. -/
def ClientOk (d : Draw) (s : Enrollment) : Enrollee → Prop
  | .reading (.done data) => s.Handed d ∧ ∀ t, s.created = some t → data = (d.json t)
  | .reading (.failed .invalidData) =>
      ∃ t, s.created = some t ∧ maxCredentialsLen < (d.json t).length
  | .reading (.failed .unexpectedEof) => s.stage.running = false ∧ ¬ s.Handed d
  | .reading (.failed .writeZero) | .reading (.failed .invalidInput) => False
  | .reading (.failed .transport) => True
  | .reading f => f.Ok maxCredentialsLen ∧ f.held = s.out.read ∧ s.out.taken ≤ s.out.carried.length
  | .timedOut => True

structure Inv (d : Draw) (s : Enroll) : Prop where
  server : Enrollment.Inv d s.server
  progress : Progress d s.server
  client : ClientOk d s.server s.client

theorem inv_start (set : TenantSet) : Inv d (start set) where
  server := Enrollment.inv_start set
  progress := Enrollment.progress_start set
  client := ⟨FrameRead.start_ok _, rfl, Nat.le_refl 0⟩

/-- A client that reads has what was read of the stream. -/
theorem clientOk_of_ok {t : Enrollment} {f : FrameRead} (hf : f.Ok maxCredentialsLen)
    (hheld : f.held = t.out.read) (htaken : t.out.taken ≤ t.out.carried.length) :
    ClientOk d t (.reading f) := by
  cases f with
  | header got | body len got => exact ⟨hf, hheld, htaken⟩
  | done data | failed e => exact absurd hf (by simp [FrameRead.Ok])

theorem ok_of_waiting {t : Enrollment} {f : FrameRead} (h : ClientOk d t (.reading f))
    (hwaiting : (Enrollee.reading f).waiting = true) :
    f.Ok maxCredentialsLen ∧ f.held = t.out.read ∧ t.out.taken ≤ t.out.carried.length := by
  cases f with
  | header got | body len got => exact h
  | done data | failed e => cases hwaiting

/-- A step of the server's side leaves the client what it had. -/
theorem clientOk_server {t : Enrollment} {e : Enrollment.Event} (hi : Inv d s)
    (hstep : s.server.step d e = some t) : ClientOk d t s.client := by
  have hclient := hi.client
  obtain ⟨htaken, hfront⟩ := Enrollment.out_of_step hi.server hstep
  have hcreated : ∀ {u}, s.server.created = some u → t.created = some u :=
    Enrollment.created_of_step hi.progress hstep
  cases hc : s.client with
  | timedOut => trivial
  | reading f =>
      rw [hc] at hclient
      have hgoing : f.Ok maxCredentialsLen → f.held = s.server.out.read →
          s.server.out.taken ≤ s.server.out.carried.length → ClientOk d t (.reading f) := by
        intro hf hheld hle
        obtain ⟨more, hmore⟩ := hfront
        have hread : t.out.read = s.server.out.read := by
          rw [Wire.read, Wire.read, htaken, ← hmore, List.take_append_of_le_length hle]
        refine clientOk_of_ok hf (hheld.trans hread.symm) ?_
        rw [htaken, ← hmore, List.length_append]
        omega
      cases f with
      | header got => exact hgoing hclient.1 hclient.2.1 hclient.2.2
      | body len got => exact hgoing hclient.1 hclient.2.1 hclient.2.2
      | done data =>
          obtain ⟨hhanded, hdata⟩ := hclient
          refine ⟨Enrollment.handed_of_step hi.server hi.progress hstep hhanded, fun u hu => ?_⟩
          obtain ⟨v, hv, -⟩ := hhanded
          rw [hcreated hv] at hu
          exact Option.some.inj hu ▸ hdata v hv
      | failed e =>
          cases e with
          | invalidData =>
              obtain ⟨u, hu, hlong⟩ := hclient
              exact ⟨u, hcreated hu, hlong⟩
          | unexpectedEof =>
              exact ⟨(Enrollment.over_of_step hstep hclient.1).1,
                Enrollment.not_handed_of_step hi.progress hstep hclient.1 hclient.2⟩
          | writeZero | invalidInput => exact hclient
          | transport => trivial

/-- The client reads on. -/
theorem clientOk_read {f : FrameRead} (hi : Inv d s) (hc : s.client = .reading f)
    (hwaiting : s.client.waiting = true) (a : ReadAnswer) :
    ∃ out, (f.step maxCredentialsLen s.server.out a).2 = out ∧ out.carried = s.server.out.carried
      ∧ out.ended = s.server.out.ended ∧ ClientOk d { s.server with out := out }
        (.reading (f.step maxCredentialsLen s.server.out a).1) := by
  have hclient := hi.client
  rw [hc] at hclient hwaiting
  obtain ⟨hf, hheld, htaken⟩ := ok_of_waiting hclient hwaiting
  obtain ⟨got, hwire, hunread, hout⟩ := FrameRead.step_spec hf s.server.out a
  refine ⟨_, rfl, by rw [hwire]; rfl, by rw [hwire]; rfl, ?_⟩
  rw [hwire] at hunread ⊢
  obtain ⟨hread, -⟩ := Wire.read_advance hunread
  have hstart : f.held ++ got <+: s.server.out.carried := by
    rw [hheld, ← hread]
    exact List.take_prefix _ _
  -- Where something was read, a tenant was created and this is the front of its frame.
  have hsent : f.held ++ got ≠ [] → ∃ t, s.server.created = some t
      ∧ (d.json t).length < 65536
      ∧ s.server.out.carried <+: frame (d.json t) := by
    intro hne
    rcases hi.progress.sent with hnil | hsent
    · rw [hnil] at hstart
      exact absurd (List.prefix_nil.1 hstart) hne
    · exact hsent
  generalize (f.step maxCredentialsLen s.server.out a).1 = g at hout
  cases hout with
  | going hok hg =>
      refine clientOk_of_ok hok ?_ (Wire.taken_advance_le hunread htaken)
      rw [hg, hheld]
      exact hread.symm
  | @done data hle hlt hframe =>
      obtain ⟨t, ht, hfits, hfront⟩ := hsent (by rw [hframe]; exact frame_ne_nil _)
      rw [hframe] at hstart
      obtain ⟨rest, hrest⟩ := hstart.trans hfront
      obtain ⟨rfl, -⟩ := frame_append_inj (x := rest) (y := []) hlt hfits (by simpa using hrest)
      refine ⟨⟨t, ht, ?_⟩, fun u hu => ?_⟩
      · exact hfront.eq_of_length_le hstart.length_le
      · have heq : t = u := Option.some.inj (ht.symm.trans hu)
        rw [heq]
  | tooLarge htwo hlarge =>
      obtain ⟨t, ht, hfits, hfront⟩ := hsent (by intro h; rw [h] at htwo; cases htwo)
      obtain ⟨rest, hrest⟩ := hstart.trans hfront
      refine ⟨t, ht, ?_⟩
      have hlen : u16 (f.held ++ got) = (d.json t).length := by
        rw [← u16_append (b := rest) (Nat.le_of_eq htwo.symm), hrest]
        simpa using (u16_frame hfits : u16 (frame (d.json t) ++ []) = _)
      omega
  | eof hgot hunread hended =>
      refine ⟨hi.progress.ended hended, ?_⟩
      rintro ⟨t, ht, hcarried⟩
      -- All of the frame was there, but the reader has not got it.
      rcases hi.progress.sent with hnil | ⟨u, hu, hfits, -⟩
      · exact frame_ne_nil _ (hcarried.symm.trans hnil)
      · have hboth := s.server.out.read_append_unread
        rw [hunread, List.append_nil, ← hheld] at hboth
        have hincomplete := hf.incomplete_held
        have hheldFrame : f.held = frame (d.json t) ++ [] := by
          rw [hboth, List.append_nil]
          exact hcarried
        rw [hheldFrame] at hincomplete
        have heq : t = u := Option.some.inj (ht.symm.trans hu)
        exact not_incomplete_frame (heq ▸ hfits) hincomplete
  | error hgot ha => trivial

theorem inv_step {e : Event} (hi : Inv d s) (hstep : s.step d e = some s') : Inv d s' := by
  cases e with
  | server e =>
      obtain ⟨t, ht, rfl⟩ := Option.map_eq_some_iff.1 hstep
      have hclient := clientOk_server hi ht
      exact ⟨Enrollment.inv_step hi.server (Enrollment.moves_of_step ht),
        Enrollment.progress_step hi.server hi.progress ht, hclient⟩
  | hangUp =>
      simp only [step] at hstep
      split at hstep
      · cases hstep
      · rename_i hover
        cases hstep
        have hover : s.server.stage.running = false := by simpa using hover
        refine ⟨Enrollment.inv_setOut hi.server rfl,
          Enrollment.progress_setOut hi.progress rfl fun _ => hover, ?_⟩
        exact hi.client
  | read a =>
      simp only [step] at hstep
      split at hstep
      · rename_i f hc
        split at hstep
        · rename_i hwaiting
          cases hstep
          obtain ⟨out, hout, hcarried, hended, hclient⟩ := clientOk_read hi hc hwaiting a
          rw [hout]
          refine ⟨Enrollment.inv_setOut hi.server hcarried,
            Enrollment.progress_setOut hi.progress hcarried fun he => ?_, hclient⟩
          exact hi.progress.ended (hended ▸ he)
        · cases hstep
      · cases hstep
  | timeout =>
      simp only [step] at hstep
      split at hstep
      · cases hstep
        exact ⟨hi.server, hi.progress, trivial⟩
      · cases hstep

theorem inv_run {set : TenantSet} {es : List Event}
    (hrun : (machine d).run (start set) es = some s) : Inv d s :=
  (machine d).run_invariant (Inv d) inv_step (inv_start set) hrun

/-! ## What either end can rely on -/

/-- What a client that returns `Ok` and a server that does can rely on. -/
structure Agreement (derivePsk : String → Psk) (fromSlice : Bytes → Option Credentials) (d : Draw)
    (s : Enroll) : Prop where
  /-- The client's credentials are those of the tenant that the server made of the code. -/
  issued : ∀ c, s.client.result fromSlice = some (.ok c) → ∃ t, s.server.created = some t
    ∧ IssuedFrom d t ∧ c = ⟨t.name, d.token, t.sni⟩ ∧ derivePsk c.token = t.psk ∧ s.server.Handed d
  /-- What the server sends can be parsed. -/
  well_formed : s.client.result fromSlice ≠ some (.error .malformed)
  /-- If the server returns `Ok` and the client has read all, it has the credentials, unless it gave
  up or they are too long for it. -/
  told : s.server.stage = .returned true → s.server.out.unread = [] → ∃ t, s.server.created = some t
    ∧ ((d.json t).length ≤ maxCredentialsLen → s.client ≠ .timedOut →
      s.client ≠ .reading (.failed .transport) →
        s.client.result fromSlice = some (.ok (d.credentials t)))
  /-- An end of the stream inside the frame tells that the enrollment has failed. -/
  cut_short : s.client = .reading (.failed .unexpectedEof) →
    s.server.stage.running = false ∧ s.server.stage ≠ .returned true
  /-- Where the new tenant is allowed, its token stands for it and for nothing else. -/
  identifies : ∀ c, s.client.result fromSlice = some (.ok c) → ∀ S : TenantSet,
    S.allows c.name (derivePsk c.token) = true → ∀ now id, id ∈ (S.candidates now).ids →
      id.psk = derivePsk c.token → ∃ t, id = .tenant t ∧ t.name = c.name

variable {derivePsk : String → Psk} {fromSlice : Bytes → Option Credentials}

/-- A PSK that a set allows under a name stands for that tenant. -/
theorem identity_of_allows {S : TenantSet} {name : String} {psk : Psk}
    (hallows : S.allows name psk = true) {now : Nat} {id : Identity}
    (hid : id ∈ (S.candidates now).ids) (hpsk : id.psk = psk) :
    ∃ t, id = .tenant t ∧ t.name = name := by
  obtain ⟨t, ht, henabled, htpsk⟩ := TenantSet.allows_iff.1 hallows
  obtain ⟨hmem, hname⟩ := TenantSet.tenant_eq_some_iff.1 ht
  have hcurrent : S.Current now (.tenant t) := ⟨hmem, henabled⟩
  have heq := TenantSet.current_unique (TenantSet.mem_candidates_iff.1 hid) hcurrent
    (hpsk.trans htpsk.symm)
  exact ⟨t, heq, hname⟩

/-- A client that returns, neither out of time nor for want of a frame, has a whole frame. -/
theorem exists_done_of_result {k : Enrollee} {r : Except EnrollError Credentials}
    (h : k.result fromSlice = some r) (hr : ∀ e, r ≠ .error (.notReturned e))
    (htime : r ≠ .error .timedOut) : ∃ data, k = .reading (.done data) := by
  cases k with
  | timedOut =>
      obtain rfl := Option.some.inj h
      exact absurd rfl htime
  | reading f =>
      cases f with
      | header got | body len got => cases h
      | done data => exact ⟨data, rfl⟩
      | failed e =>
          obtain rfl := Option.some.inj h
          exact absurd rfl (hr e)

theorem Inv.agreement (hi : Inv d s) (hround : RoundTrips d.toVec fromSlice)
    (hpsk : d.psk = derivePsk d.token) : Agreement derivePsk fromSlice d s := by
  have hclient := hi.client
  -- A whole frame is that of the tenant created.
  have hdone : ∀ {data}, s.client = .reading (.done data) → ∃ t, s.server.created = some t
      ∧ IssuedFrom d t ∧ s.server.Handed d ∧ fromSlice data = some (d.credentials t) := by
    intro data hc
    rw [hc] at hclient
    obtain ⟨hhanded, hdata⟩ := hclient
    obtain ⟨t, ht, -⟩ := id hhanded
    exact ⟨t, ht, hi.progress.issued t ht, hhanded, by rw [hdata t ht, Draw.json, hround]⟩
  have hissued : ∀ c, s.client.result fromSlice = some (.ok c) → ∃ t, s.server.created = some t
      ∧ IssuedFrom d t ∧ c = ⟨t.name, d.token, t.sni⟩ ∧ derivePsk c.token = t.psk
      ∧ s.server.Handed d := by
    intro c hc
    obtain ⟨data, hreading⟩ := exists_done_of_result hc (by simp) (by simp)
    obtain ⟨t, ht, hfrom, hhanded, hparsed⟩ := hdone hreading
    obtain rfl : d.credentials t = c := by
      simpa [hreading, Enrollee.result, hparsed] using hc
    obtain ⟨code, -, -, hcode⟩ := id hfrom
    refine ⟨t, ht, hfrom, ?_, ?_, hhanded⟩
    · rw [hcode]
      rfl
    · rw [hcode]
      exact hpsk.symm
  refine ⟨hissued, fun hbad => ?_, fun hok hunread => ?_, fun hc => ?_,
    fun c hc S hallows now id hid hidpsk => identity_of_allows hallows hid hidpsk⟩
  · obtain ⟨data, hreading⟩ := exists_done_of_result hbad (by simp) (by simp)
    obtain ⟨t, -, -, -, hparsed⟩ := hdone hreading
    simp [hreading, Enrollee.result, hparsed] at hbad
  · obtain ⟨t, ht, hcarried⟩ := hi.progress.returned hok
    refine ⟨t, ht, fun hfits htime hbroken => ?_⟩
    have hread : s.server.out.read = frame (d.json t) := by
      have hboth := s.server.out.read_append_unread
      rwa [hunread, List.append_nil, hcarried] at hboth
    have hlt : (d.json t).length < 65536 := by
      have hmax : maxCredentialsLen = 4096 := rfl
      omega
    -- A client that still waits would hold an incomplete frame.
    have hstuck : ∀ {f : FrameRead}, f.Ok maxCredentialsLen → f.held = s.server.out.read →
        False := by
      intro f hf hheld
      have hincomplete := hf.incomplete_held
      rw [hheld, hread] at hincomplete
      have hwhole : ¬ Incomplete (frame (d.json t) ++ []) := not_incomplete_frame hlt
      exact hwhole (by simpa using hincomplete)
    cases hc : s.client with
    | timedOut => exact absurd hc htime
    | reading f =>
        rw [hc] at hclient hbroken
        cases f with
        | header got => exact (hstuck hclient.1 hclient.2.1).elim
        | body len got => exact (hstuck hclient.1 hclient.2.1).elim
        | done data =>
            obtain ⟨u, hu, -, -, hparsed⟩ := hdone hc
            have heq : u = t := Option.some.inj (hu.symm.trans ht)
            simp only [Enrollee.result, hparsed, heq]
        | failed e =>
            cases e with
            | invalidData =>
                obtain ⟨u, hu, hlong⟩ := hclient
                have heq : t = u := Option.some.inj (ht.symm.trans hu)
                rw [← heq] at hlong
                omega
            | unexpectedEof => exact absurd ⟨t, ht, hcarried⟩ hclient.2
            | writeZero | invalidInput => exact hclient.elim
            | transport => exact absurd rfl hbroken
  · rw [hc] at hclient
    exact ⟨hclient.1, fun hok => hclient.2 (hi.progress.returned hok)⟩

/-- Nobody else edits the store, and the server's stream does not fail behind the frame. -/
def Undisturbed (d : Draw) (s : Enroll) : Event → Prop
  | .server e => s.server.Undisturbed d e
  | _ => True

theorem kept_run {set : TenantSet} {es : List Event}
    (hmeets : (machine d).Meets (Undisturbed d) (start set) es)
    (hrun : (machine d).run (start set) es = some s) : s.server.Kept d := by
  have hboth : Inv d s ∧ s.server.Kept d := by
    refine (machine d).run_invariant_of_meets (fun s => Inv d s ∧ s.server.Kept d) ?_
      ⟨inv_start set, Enrollment.kept_start set⟩ hmeets hrun
    rintro s e t ⟨hi, hk⟩ hquiet hstep
    refine ⟨inv_step hi hstep, ?_⟩
    cases e with
    | server e =>
        obtain ⟨u, hu, rfl⟩ := Option.map_eq_some_iff.1 hstep
        exact Enrollment.kept_step hi.server hk hquiet hu
    | hangUp =>
        simp only [machine, step] at hstep
        split at hstep
        · cases hstep
        · cases hstep
          exact hk.keep rfl rfl rfl id fun h => (hk.handed h).2
    | read a =>
        simp only [machine, step] at hstep
        split at hstep
        · rename_i f hc
          split at hstep
          · rename_i hwaiting
            cases hstep
            obtain ⟨out, hout, hcarried, -, -⟩ := clientOk_read hi hc hwaiting a
            rw [hout]
            exact hk.keep rfl rfl hcarried id fun h => (hk.handed h).2
          · cases hstep
        · cases hstep
    | timeout =>
        simp only [machine, step] at hstep
        split at hstep
        · cases hstep
          exact hk
        · cases hstep
  exact hboth.2

/-- **The two ends of an enrollment agree.**  In every run, what a client returns is what the server made
of its code, and a server that returns `Ok` has a client that knows; where nobody else edits the store
and the stream does not fail behind the frame, the store then lets the client in. -/
theorem enrolled_client_agrees (derivePsk : String → Psk) (fromSlice : Bytes → Option Credentials)
    (d : Draw) (hround : RoundTrips d.toVec fromSlice) (hpsk : d.psk = derivePsk d.token)
    (set : TenantSet) (es : List Event) (s : Enroll)
    (hrun : (machine d).run (start set) es = some s) :
    Agreement derivePsk fromSlice d s
      ∧ ((machine d).Meets (Undisturbed d) (start set) es →
        ∀ c, s.client.result fromSlice = some (.ok c) →
          s.server.store.allows c.name (derivePsk c.token) = true) := by
  have hagree := (inv_run hrun).agreement hround hpsk
  refine ⟨hagree, fun hmeets c hc => ?_⟩
  obtain ⟨t, ht, ⟨code, -, -, hcode⟩, rfl, htoken, hhanded⟩ := hagree.issued c hc
  have hmem := ((kept_run hmeets hrun).handed hhanded).1 t ht
  refine TenantSet.allows_iff.2 ⟨t, TenantSet.tenant_eq_some_iff.2 ⟨hmem, rfl⟩, ?_, htoken.symm⟩
  rw [hcode]
  rfl

/-- The server creates the tenant, sends the frame and closes; the client reads it in three polls. -/
def sampleEvents : List Event :=
  [.server (.work .runs), .server .resume, .server (.work .runs), .server .resume,
    .server (.write (.upTo 1)), .read (.upTo 1), .server (.write (.upTo 99)), .read (.upTo 9),
    .server (.write (.upTo 0)), .server (.close (.upTo 0)), .read (.upTo 99)]

theorem enrolled_client_agrees_sample :
    ∃ s, (machine Enrollment.sampleDraw).run (start Enrollment.sampleSet) sampleEvents = some s
      ∧ Agreement (fun _ => Psk.repeated 2) Credentials.ofJson Enrollment.sampleDraw s
      ∧ s.client.result Credentials.ofJson = some (.ok ⟨"t-1", "2", "a.example.com"⟩)
      ∧ s.server.store.allows "t-1" (Psk.repeated 2) = true := by
  have hend : ((machine Enrollment.sampleDraw).run (start Enrollment.sampleSet) sampleEvents).map
      (fun s => (s.server.created, s.client.result fun _ => none))
        = some (some Enrollment.sampleTenant, some (.error .malformed)) := by decide +kernel
  obtain ⟨s, hrun, hfields⟩ := Option.map_eq_some_iff.1 hend
  obtain ⟨hcreated, hread⟩ := Prod.mk.inj hfields
  obtain ⟨hagree, hallows⟩ := enrolled_client_agrees (fun _ => Psk.repeated 2) Credentials.ofJson
    Enrollment.sampleDraw Credentials.roundTrips_json rfl Enrollment.sampleSet sampleEvents s hrun
  -- A parser that takes nothing tells that the frame is there.
  obtain ⟨data, hdone⟩ := exists_done_of_result hread (by simp) (by simp)
  have hclient := (inv_run hrun).client
  rw [hdone] at hclient
  have hparsed : Credentials.ofJson (Enrollment.sampleDraw.json Enrollment.sampleTenant)
      = some ⟨"t-1", "2", "a.example.com"⟩ := Credentials.roundTrips_json _
  have hresult : s.client.result Credentials.ofJson = some (.ok ⟨"t-1", "2", "a.example.com"⟩) := by
    rw [hdone, hclient.2 _ hcreated]
    simp only [Enrollee.result, hparsed]
  have hquiet : (machine Enrollment.sampleDraw).Meets (Undisturbed Enrollment.sampleDraw)
      (start Enrollment.sampleSet) sampleEvents := by
    refine (machine Enrollment.sampleDraw).meets_of_forall_mem fun e he s => ?_
    simp only [sampleEvents, List.mem_cons, List.not_mem_nil, or_false] at he
    rcases he with rfl | rfl | rfl | rfl | rfl | rfl | rfl | rfl | rfl | rfl | rfl <;> trivial
  exact ⟨s, hrun, hagree, hresult, hallows hquiet _ hresult⟩

end Enroll

end Hub
end Erbridge
