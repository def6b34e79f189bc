import Erbridge.Core.Machine
import Erbridge.Reverse.Credentials
import Erbridge.Reverse.Frame
import Erbridge.Tenancy.Store

/-!
# One enrollment, which a shutdown may drop

The model of `run_enrollment` of `tenant_serve.rs` with every await of it: the blocking tasks that
redeem the code, read the store and revoke the tenant, the polls of `write_frame` and of `shutdown` on
the peer's stream.  `accept_loop` drops it at any of them when the server shuts down; a blocking task
that was spawned runs all the same.  Others edit the store meanwhile.

* `Enrollment.step` — the executable step function; `Moves` has one constructor for each thing a step
  can do.
* `Enrollment.Inv` — what is known of each stage in every run.
* `Enrollment.Allowed` — a condition on drops and on failures: none befalls a tenant whose credentials
  are not handed over, unless it is about to be revoked.
* `Enrollment.withdrawn_iff` — in the runs that meet it a tenant is left in the store only if its
  credentials were handed over, and without others' edits in no other run.
* `Enrollment.dropped_after_redeem` — a run in which a shutdown leaves a tenant behind.
-/

namespace Erbridge
namespace Hub

open Erbridge.Core
open Noise (Psk)
open Reverse (Credentials FrameWrite)
open Tenancy (Tenant TenantSet exec)

/-- The code that the peer proved, what was drawn for its tenant, and how the credentials are printed. -/
structure Draw where
  codePsk : Psk
  now : Nat
  name : String
  token : String
  psk : Psk
  /-- `serde_json::to_vec`, which never fails for three strings. -/
  toVec : Credentials → Bytes

namespace Draw

/-- What the peer is to be sent. -/
def credentials (d : Draw) (created : Tenant) : Credentials := ⟨d.name, d.token, created.sni⟩

/-- The same as it is printed. -/
def json (d : Draw) (created : Tenant) : Bytes := d.toVec (d.credentials created)

/-- The tenant that was made with the name and the PSK drawn is in the set. -/
def holds (d : Draw) (S : TenantSet) : Bool :=
  S.tenants.any fun t => t.name = d.name ∧ t.psk = d.psk

end Draw

/-- What a blocking task is to do. -/
inductive Work
  | redeem
  | snapshot
  | revoke (name : String)
deriving DecidableEq

/-- What awaiting a blocking task returns. -/
inductive Outcome
  | redeemed (t : Tenant)
  | contents (set : TenantSet)
  | revoked
  /-- The call on the store returned an error. -/
  | failed
  /-- A `JoinError`: the task did not run. -/
  | lost
deriving DecidableEq

/-- The blocking task that the enrollment has spawned last. -/
inductive Job
  | idle
  | queued (work : Work)
  | finished (outcome : Outcome)
deriving DecidableEq

/-- The tenant is about to be revoked. -/
def Job.isRevoke : Job → Bool
  | .queued (.revoke _) => true
  | _ => false

/-- Where `run_enrollment` is. -/
inductive Stage
  /-- It awaits `store.redeem`. -/
  | redeeming
  /-- It awaits `store.snapshot`, to let the new tenant connect right away. -/
  | reading (created : Tenant)
  /-- It awaits `write_frame`. -/
  | writing (created : Tenant) (f : FrameWrite)
  /-- It awaits `stream.shutdown`. -/
  | closing (created : Tenant)
  /-- The credentials were not sent: it awaits `store.revoke`. -/
  | revoking (created : Tenant)
  /-- It awaits the last `store.snapshot`. -/
  | rereading
  | returned (ok : Bool)
  /-- The server's shutdown has dropped it. -/
  | dropped

namespace Stage

/-- It is neither over nor dropped. -/
def running : Stage → Bool
  | .returned _ | .dropped => false
  | _ => true

/-- It goes on towards the end of `write_frame`. -/
def pending : Stage → Bool
  | .redeeming | .reading _ | .writing _ _ => true
  | _ => false

/-- It will not send anything any more. -/
def givenUp : Stage → Bool
  | .revoking _ | .rereading | .returned _ | .dropped => true
  | _ => false

theorem running_of_pending {k : Stage} (h : k.pending = true) : k.running = true := by
  cases k <;> first | rfl | cases h

theorem not_pending {k : Stage} (h : k.givenUp = true) : k.pending = false := by
  cases k <;> first | rfl | cases h

end Stage

/-- One enrollment and the store. -/
structure Enrollment where
  store : TenantSet
  /-- The snapshot that its last `apply` published. -/
  published : Option TenantSet
  stage : Stage
  job : Job
  /-- What the peer's stream has taken. -/
  out : Wire
  /-- The tenant that `store.redeem` created; not part of the code's state. -/
  created : Option Tenant
  /-- That tenant is in the store ever since; not part of the code's state. -/
  left : Bool

namespace Enrollment

/-- The code is proved, and `store.redeem` is on its way. -/
def start (set : TenantSet) : Enrollment where
  store := set
  published := none
  stage := .redeeming
  job := .queued .redeem
  out := Wire.empty
  created := none
  left := false

/-- What a call on the store comes to. -/
inductive Luck
  | runs
  /-- The store cannot be read or written. -/
  | fails
  /-- The blocking task does not run. -/
  | lost
deriving DecidableEq

inductive Event
  /-- The blocking task that is queued takes place. -/
  | work (luck : Luck)
  /-- The enrollment is polled and takes the outcome of the blocking task. -/
  | resume
  /-- It is polled in `write_frame`. -/
  | write (a : WriteAnswer)
  /-- It is polled in `stream.shutdown`. -/
  | close (a : WriteAnswer)
  /-- `shutdown.run_until_cancelled` drops it. -/
  | drop
  /-- Somebody else replaces the contents of the store. -/
  | edit (set : TenantSet)

variable (d : Draw)

/-- The call of `store.redeem`. -/
def redeemCall : Tenancy.Call := .redeem d.codePsk d.now d.name d.psk

/-- The contents of the store become `set`. -/
def commit (s : Enrollment) (set : TenantSet) : Enrollment :=
  { s with store := set, left := s.left && d.holds set }

/-- The credentials were not sent. -/
def unsent (s : Enrollment) (created : Tenant) : Enrollment :=
  { s with stage := .revoking created, job := .queued (.revoke created.name) }

/-- `write_frame` starts, if it takes a frame of that length. -/
def send (s : Enrollment) (created : Tenant) : Enrollment :=
  match FrameWrite.start (d.json created) with
  | .failed _ => s.unsent created
  | f => { s with stage := .writing created f, job := .idle }

/-- The blocking task runs. -/
def runWork (s : Enrollment) : Work → Enrollment
  | .redeem =>
      match exec s.store (redeemCall d) with
      | (next, .ok (some t)) =>
          { s with store := next, job := .finished (.redeemed t), created := some t, left := true }
      | _ => { s with job := .finished .failed }
  | .snapshot => { s with job := .finished (.contents s.store) }
  | .revoke name =>
      match exec s.store (.revoke name) with
      | (next, .ok _) => { s.commit d next with job := .finished .revoked }
      | (_, .error _) => { s with job := .finished .failed }

/-- The enrollment goes on with the outcome of what it awaited. -/
def collect (s : Enrollment) : Stage → Outcome → Option Enrollment
  | .redeeming, .redeemed t => some { s with stage := .reading t, job := .queued .snapshot }
  | .redeeming, _ => some { s with stage := .returned false, job := .idle }
  | .reading t, .contents set => some ({ s with published := some set }.send d t)
  | .reading t, _ => some (s.send d t)
  | .revoking _, .revoked => some { s with stage := .rereading, job := .queued .snapshot }
  | .revoking _, _ => some { s with stage := .returned false, job := .idle }
  | .rereading, .contents set =>
      some { s with published := some set, stage := .returned false, job := .idle }
  | .rereading, _ => some { s with stage := .returned false, job := .idle }
  | _, _ => none

def step (s : Enrollment) : Event → Option Enrollment
  | .work luck =>
      match s.job, luck with
      | .queued w, .runs => some (s.runWork d w)
      | .queued _, .fails => some { s with job := .finished .failed }
      | .queued _, .lost => some { s with job := .finished .lost }
      | _, _ => none
  | .resume =>
      match s.job with
      | .finished o => s.collect d s.stage o
      | _ => none
  | .write a =>
      match s.stage with
      | .writing t f =>
          let p := f.step s.out a
          match p.1 with
          | .done => some { s with stage := .closing t, out := p.2 }
          | .failed _ => some ({ s with out := p.2 }.unsent t)
          | g => some { s with stage := .writing t g, out := p.2 }
      | _ => none
  | .close a =>
      match s.stage with
      | .closing t =>
          match s.out.pollShutdown a with
          | (.ready (.ok ()), out) => some { s with stage := .returned true, out := out }
          | (.ready (.error _), out) => some ({ s with out := out }.unsent t)
          | (_, out) => some { s with out := out }
      | _ => none
  | .drop => if s.stage.running then some { s with stage := .dropped } else none
  | .edit set => some (s.commit d set)

/-- One enrollment as a machine. -/
def machine : Machine Enrollment Event where
  step := step d

/-- It returned or was dropped, and the blocking task that it spawned last is over as well. -/
def Over (s : Enrollment) : Prop := s.stage.running = false ∧ ∀ w, s.job ≠ .queued w

/-- The peer's stream has taken the whole of the credentials frame. -/
def Handed (s : Enrollment) : Prop :=
  ∃ t, s.created = some t ∧ s.out.carried = frame (d.json t)

/-- There is a tenant in the store that nobody can use. -/
def Exposed (s : Enrollment) : Prop := s.left = true ∧ ¬ s.Handed d

/-- The enrollment is not dropped while its tenant is exposed and nobody is about to revoke it,
`store.redeem` does not go through after the drop, and the revocation of an exposed tenant does not
fail. -/
def Allowed (s : Enrollment) : Event → Prop
  | .drop => s.Exposed d → s.job.isRevoke = true
  | .work .runs => s.stage = .dropped → s.job = .queued .redeem →
      ∀ next t, exec s.store (redeemCall d) ≠ (next, .ok (some t))
  | .work .fails | .work .lost => s.job.isRevoke = true → ¬ s.Exposed d
  | _ => True

/-! ## What a step does -/

/-- What each event needs and does. -/
inductive Moves (s : Enrollment) : Event → Enrollment → Prop
  | redeemed {next : TenantSet} {t : Tenant} (hjob : s.job = .queued .redeem)
      (hcall : exec s.store (redeemCall d) = (next, .ok (some t))) :
      Moves s (.work .runs)
        { s with store := next, job := .finished (.redeemed t), created := some t, left := true }
  | snapshot (hjob : s.job = .queued .snapshot) :
      Moves s (.work .runs) { s with job := .finished (.contents s.store) }
  | revoked {name : String} {next : TenantSet} {out : Option Tenant}
      (hjob : s.job = .queued (.revoke name)) (hcall : exec s.store (.revoke name) = (next, .ok out)) :
      Moves s (.work .runs) { s.commit d next with job := .finished .revoked }
  | redeemRefused (hjob : s.job = .queued .redeem)
      (hcall : ∀ next t, exec s.store (redeemCall d) ≠ (next, .ok (some t))) :
      Moves s (.work .runs) { s with job := .finished .failed }
  | revokeRefused {name : String} {next : TenantSet} {e : Tenancy.SetError}
      (hjob : s.job = .queued (.revoke name))
      (hcall : exec s.store (.revoke name) = (next, .error e)) :
      Moves s (.work .runs) { s with job := .finished .failed }
  | fails {w : Work} {luck : Luck} {o : Outcome} (hjob : s.job = .queued w)
      (hluck : luck = .fails ∧ o = .failed ∨ luck = .lost ∧ o = .lost) :
      Moves s (.work luck) { s with job := .finished o }
  | created {t : Tenant} (hstage : s.stage = .redeeming) (hjob : s.job = .finished (.redeemed t)) :
      Moves s .resume { s with stage := .reading t, job := .queued .snapshot }
  | notCreated {o : Outcome} (hstage : s.stage = .redeeming) (hjob : s.job = .finished o)
      (ho : ∀ t, o ≠ .redeemed t) :
      Moves s .resume { s with stage := .returned false, job := .idle }
  | sends {t : Tenant} {o : Outcome} {published : Option TenantSet} (hstage : s.stage = .reading t)
      (hjob : s.job = .finished o) (hfits : (d.json t).length < 65536) :
      Moves s .resume
        { s with
          published := published
          stage := .writing t (FrameWrite.start (d.json t))
          job := .idle }
  | tooLarge {t : Tenant} {o : Outcome} {published : Option TenantSet} (hstage : s.stage = .reading t)
      (hjob : s.job = .finished o) :
      Moves s .resume
        { s with published := published, stage := .revoking t, job := .queued (.revoke t.name) }
  | withdrawn {t : Tenant} (hstage : s.stage = .revoking t) (hjob : s.job = .finished .revoked) :
      Moves s .resume { s with stage := .rereading, job := .queued .snapshot }
  | returns {o : Outcome} {published : Option TenantSet} (hstage : s.stage.givenUp = true)
      (hjob : s.job = .finished o) :
      Moves s .resume { s with published := published, stage := .returned false, job := .idle }
  | written {a : WriteAnswer} {t : Tenant} {f : FrameWrite} (hstage : s.stage = .writing t f)
      (hwrite : (f.step s.out a).1 = .done) :
      Moves s (.write a) { s with stage := .closing t, out := (f.step s.out a).2 }
  | writeFails {a : WriteAnswer} {t : Tenant} {f : FrameWrite} {e : IoError}
      (hstage : s.stage = .writing t f) (hwrite : (f.step s.out a).1 = .failed e) :
      Moves s (.write a)
        { s with
          stage := .revoking t
          job := .queued (.revoke t.name)
          out := (f.step s.out a).2 }
  | writes {a : WriteAnswer} {t : Tenant} {f g : FrameWrite} (hstage : s.stage = .writing t f)
      (hwrite : (f.step s.out a).1 = g) (hdone : g ≠ .done) (hfailed : ∀ e, g ≠ .failed e) :
      Moves s (.write a) { s with stage := .writing t g, out := (f.step s.out a).2 }
  | closed {a : WriteAnswer} {t : Tenant} {out : Wire} (hstage : s.stage = .closing t)
      (hout : out.carried = s.out.carried) :
      Moves s (.close a) { s with stage := .returned true, out := out }
  | closeFails {a : WriteAnswer} {t : Tenant} (hstage : s.stage = .closing t) :
      Moves s (.close a)
        { s with stage := .revoking t, job := .queued (.revoke t.name) }
  | closes {a : WriteAnswer} {t : Tenant} (hstage : s.stage = .closing t) : Moves s (.close a) s
  | drop (hrunning : s.stage.running = true) : Moves s .drop { s with stage := .dropped }
  | edit {set : TenantSet} : Moves s (.edit set) (s.commit d set)

variable {d} {s s' : Enrollment}

theorem moves_runWork {w : Work} (hjob : s.job = .queued w) :
    Moves d s (.work .runs) (s.runWork d w) := by
  cases w with
  | redeem =>
      simp only [runWork]
      split
      · rename_i hcall
        exact .redeemed hjob hcall
      · rename_i hcall
        exact .redeemRefused hjob fun next t heq => hcall next t heq
  | snapshot => exact .snapshot hjob
  | revoke name =>
      simp only [runWork]
      split
      · rename_i hcall
        exact .revoked hjob hcall
      · rename_i hcall
        exact .revokeRefused hjob hcall

theorem moves_send {t : Tenant} {o : Outcome} (published : Option TenantSet)
    (hstage : s.stage = .reading t) (hjob : s.job = .finished o) :
    Moves d s .resume ({ s with published := published }.send d t) := by
  by_cases hfits : (d.json t).length < 65536
  · have hstart : FrameWrite.start (d.json t)
        = .header (be16 (d.json t).length) (d.json t) := if_pos hfits
    have hsend : { s with published := published }.send d t =
        { s with
          published := published
          stage := .writing t (FrameWrite.start (d.json t))
          job := .idle } := by
      simp only [send, hstart]
    rw [hsend]
    exact .sends hstage hjob hfits
  · have hstart : FrameWrite.start (d.json t) = .failed .invalidInput := if_neg hfits
    simp only [send, hstart]
    exact .tooLarge hstage hjob

theorem moves_collect {o : Outcome} (hjob : s.job = .finished o)
    (hstep : s.collect d s.stage o = some s') : Moves d s .resume s' := by
  cases hstage : s.stage with
  | redeeming =>
      rw [hstage] at hstep
      cases o with
      | redeemed t =>
          cases hstep
          exact .created hstage hjob
      | contents set | revoked | failed | lost =>
          cases hstep
          exact .notCreated hstage hjob (by simp)
  | reading t =>
      rw [hstage] at hstep
      cases o with
      | contents set =>
          simp only [collect, Option.some.injEq] at hstep
          subst hstep
          exact moves_send (some set) hstage hjob
      | redeemed t | revoked | failed | lost =>
          simp only [collect, Option.some.injEq] at hstep
          subst hstep
          exact moves_send s.published hstage hjob
  | revoking t =>
      have hover : Moves d s .resume { s with stage := .returned false, job := .idle } :=
        .returns (by rw [hstage]; rfl) hjob
      rw [hstage] at hstep
      cases o with
      | revoked =>
          cases hstep
          exact .withdrawn hstage hjob
      | redeemed t | contents set | failed | lost =>
          cases hstep
          exact hover
  | rereading =>
      have hover : ∀ published,
          Moves d s .resume { s with published := published, stage := .returned false, job := .idle } :=
        fun published => .returns (by rw [hstage]; rfl) hjob
      rw [hstage] at hstep
      cases o with
      | contents set =>
          cases hstep
          exact hover (some set)
      | redeemed t | revoked | failed | lost =>
          cases hstep
          exact hover s.published
  | writing t f | closing t | returned ok | dropped =>
      rw [hstage] at hstep
      cases hstep

theorem moves_of_step {e : Event} (hstep : s.step d e = some s') : Moves d s e s' := by
  cases e with
  | work luck =>
      cases hjob : s.job with
      | queued w =>
          simp only [step, hjob] at hstep
          cases luck with
          | runs =>
              cases hstep
              exact moves_runWork hjob
          | fails =>
              cases hstep
              exact .fails hjob (Or.inl ⟨rfl, rfl⟩)
          | lost =>
              cases hstep
              exact .fails hjob (Or.inr ⟨rfl, rfl⟩)
      | idle | finished o =>
          simp only [step, hjob] at hstep
          cases hstep
  | resume =>
      simp only [step] at hstep
      split at hstep
      · rename_i o hjob
        exact moves_collect hjob hstep
      · cases hstep
  | write a =>
      simp only [step] at hstep
      split at hstep
      · rename_i t f hstage
        split at hstep
        · rename_i hwrite
          cases hstep
          exact .written hstage hwrite
        · rename_i e hwrite
          cases hstep
          exact .writeFails hstage hwrite
        · rename_i hdone hfailed
          cases hstep
          exact .writes hstage rfl hdone hfailed
      · cases hstep
  | close a =>
      simp only [step] at hstep
      split at hstep
      · rename_i t hstage
        cases a with
        | fail =>
            cases hstep
            exact .closeFails hstage
        | pending =>
            cases hstep
            exact .closes hstage
        | upTo n | zero =>
            cases hstep
            exact .closed hstage rfl
      · cases hstep
  | drop =>
      simp only [step] at hstep
      split at hstep
      · rename_i hrunning
        cases hstep
        exact .drop hrunning
      · cases hstep
  | edit set =>
      cases hstep
      exact .edit

/-! ## What is known in every run -/

/-- What is known of each stage. -/
def StageOk (d : Draw) (s : Enrollment) : Stage → Prop
  | .redeeming => s.out.carried = []
      ∧ (∀ t, s.job = .finished (.redeemed t) → s.created = some t ∧ t.name = d.name)
      ∧ ((∀ t, s.job ≠ .finished (.redeemed t)) → s.left = false)
  | .reading t => s.created = some t ∧ t.name = d.name ∧ s.out.carried = []
  | .writing t f => s.created = some t ∧ t.name = d.name ∧ f.Ok
      ∧ s.out.carried ++ f.unsent = frame (d.json t)
  | .closing t => t.name = d.name ∧ s.Handed d
  | .revoking _ | .rereading | .returned _ | .dropped => True

/-- What is known of an enrollment, whatever happens to it. -/
structure Inv (d : Draw) (s : Enrollment) : Prop where
  stage : StageOk d s s.stage
  left_holds : s.left = true → d.holds s.store = true
  redeem_queued : s.job = .queued .redeem → s.left = false ∧ s.out.carried = []
    ∧ (s.stage = .redeeming ∨ s.stage = .dropped)
  revoke_queued : ∀ name, s.job = .queued (.revoke name) → name = d.name ∧ s.stage.givenUp = true

theorem inv_start (set : TenantSet) : Inv d (start set) where
  stage := ⟨rfl, by simp [start], fun _ => rfl⟩
  left_holds := by simp [start]
  redeem_queued _ := ⟨rfl, rfl, Or.inl rfl⟩
  revoke_queued := by simp [start]

/-- What `store.redeem` creates has the name drawn, and is in the store then. -/
theorem redeemed_holds {S next : TenantSet} {t : Tenant}
    (hcall : exec S (redeemCall d) = (next, .ok (some t))) :
    t.name = d.name ∧ d.holds next = true := by
  have heffect := Tenancy.effect_of_exec hcall
  unfold redeemCall at heffect
  generalize d.codePsk = codePsk at heffect
  cases heffect with
  | redeem hcode hlive htenants hcodes => exact ⟨rfl, by simp [Draw.holds, htenants, TenantSet.redeemed]⟩

theorem holds_eq_false_iff {S : TenantSet} :
    d.holds S = false ↔ ∀ t ∈ S.tenants, t.name = d.name → t.psk ≠ d.psk := by
  simp [Draw.holds]

/-- After a revocation the tenant is not in the store. -/
theorem revoked_holds {S next : TenantSet} {out : Option Tenant}
    (hcall : exec S (.revoke d.name) = (next, .ok out)) : d.holds next = false := by
  have heffect := Tenancy.effect_of_exec hcall
  refine holds_eq_false_iff.2 fun t ht hname => ?_
  generalize d.name = name at heffect hname
  cases heffect with
  | revoke htenants hcodes hheld =>
      rw [htenants] at ht
      exact absurd hname (by simpa using (List.mem_filter.1 ht).2)

/-- A revocation is refused only if the tenant is not there. -/
theorem not_holds_of_refused {S next : TenantSet} {e : Tenancy.SetError}
    (hcall : exec S (.revoke d.name) = (next, .error e)) : d.holds S = false := by
  refine holds_eq_false_iff.2 fun t ht hname => ?_
  obtain ⟨T, hT⟩ := TenantSet.withoutTenant_exists ⟨t, ht, hname⟩
  obtain ⟨hheld, htenants, hcodes⟩ := TenantSet.withoutTenant_eq_ok_iff.1 hT
  rw [Tenancy.exec_of_effect (.revoke htenants hcodes hheld)] at hcall
  cases hcall

/-- A `write_frame` that starts has all of the frame before it. -/
theorem start_sends {data : Bytes} (hfits : data.length < 65536) :
    ∃ f, FrameWrite.start data = f ∧ f.Ok ∧ f.unsent = frame data :=
  ⟨_, rfl, FrameWrite.start_ok hfits, FrameWrite.unsent_start hfits⟩

theorem inv_commit (hi : Inv d s) (set : TenantSet) : Inv d (s.commit d set) where
  stage := by
    have hstage := hi.stage
    show StageOk d (s.commit d set) s.stage
    cases hs : s.stage with
    | redeeming =>
        rw [hs] at hstage
        obtain ⟨hcarried, hcreated, hleft⟩ := hstage
        exact ⟨hcarried, hcreated, fun hjob => by simp [commit, hleft hjob]⟩
    | reading t | writing t f | closing t =>
        rw [hs] at hstage
        exact hstage
    | revoking t | rereading | returned ok | dropped => trivial
  left_holds := by
    intro hleft
    simp only [commit, Bool.and_eq_true] at hleft
    exact hleft.2
  redeem_queued := by
    intro hjob
    obtain ⟨hleft, hrest⟩ := hi.redeem_queued hjob
    exact ⟨by simp [commit, hleft], hrest⟩
  revoke_queued := hi.revoke_queued

/-- A blocking task that is over has not redeemed the code. -/
theorem inv_finished (hi : Inv d s) {w : Work} (hjob : s.job = .queued w) {o : Outcome}
    (ho : ∀ t, o ≠ .redeemed t) : Inv d { s with job := .finished o } where
  stage := by
    have hstage := hi.stage
    show StageOk d { s with job := .finished o } s.stage
    cases hs : s.stage with
    | redeeming =>
        rw [hs] at hstage
        obtain ⟨hcarried, -, hleft⟩ := hstage
        refine ⟨hcarried, fun t ht => ?_, fun _ => hleft (by simp [hjob])⟩
        cases ht
        exact absurd rfl (ho t)
    | reading t | writing t f | closing t =>
        rw [hs] at hstage
        exact hstage
    | revoking t | rereading | returned ok | dropped => trivial
  left_holds := hi.left_holds
  redeem_queued := by simp
  revoke_queued := by simp

/-- No call that writes to the store is on its way while the credentials are being sent. -/
theorem not_queued (hi : Inv d s) (hne : s.stage ≠ .redeeming) (hup : s.stage.givenUp = false) :
    s.job ≠ .queued .redeem ∧ ∀ name, s.job ≠ .queued (.revoke name) := by
  constructor
  · intro hjob
    obtain ⟨-, -, h | h⟩ := hi.redeem_queued hjob
    · exact hne h
    · rw [h] at hup
      cases hup
  · intro name hjob
    rw [(hi.revoke_queued name hjob).2] at hup
    cases hup

theorem inv_step {e : Event} (hi : Inv d s) (hmove : Moves d s e s') : Inv d s' := by
  have hstage := hi.stage
  cases hmove with
  | redeemed hjob hcall =>
      obtain ⟨-, hcarried, hs⟩ := hi.redeem_queued hjob
      obtain ⟨hname, hholds⟩ := redeemed_holds hcall
      refine ⟨?_, fun _ => hholds, by simp, by simp⟩
      rcases hs with hs | hs
      · simp only [hs, StageOk, Job.finished.injEq, Outcome.redeemed.injEq]
        refine ⟨hcarried, ?_, fun h => absurd rfl (h _)⟩
        rintro u rfl
        exact ⟨rfl, hname⟩
      · simp only [hs, StageOk]
  | snapshot hjob => exact inv_finished hi hjob (by simp)
  | revoked hjob hcall => exact inv_finished (inv_commit hi _) hjob (by simp)
  | redeemRefused hjob hcall => exact inv_finished hi hjob (by simp)
  | revokeRefused hjob hcall => exact inv_finished hi hjob (by simp)
  | fails hjob hluck =>
      refine inv_finished hi hjob fun t ht => ?_
      rcases hluck with ⟨-, rfl⟩ | ⟨-, rfl⟩ <;> cases ht
  | created hs hjob =>
      rw [hs] at hstage
      obtain ⟨hcarried, hcreated, -⟩ := hstage
      obtain ⟨hsome, hname⟩ := hcreated _ hjob
      exact ⟨⟨hsome, hname, hcarried⟩, hi.left_holds, by simp, by simp⟩
  | notCreated hs hjob ho => exact ⟨trivial, hi.left_holds, by simp, by simp⟩
  | sends hs hjob hfits =>
      rw [hs] at hstage
      obtain ⟨hsome, hname, hcarried⟩ := hstage
      obtain ⟨f, hf, hok, hunsent⟩ := start_sends hfits
      rw [hf]
      exact ⟨⟨hsome, hname, hok, by simp [hcarried, hunsent]⟩, hi.left_holds, by simp, by simp⟩
  | tooLarge hs hjob =>
      rw [hs] at hstage
      refine ⟨trivial, hi.left_holds, by simp, fun name hqueued => ?_⟩
      cases hqueued
      exact ⟨hstage.2.1, rfl⟩
  | withdrawn hs hjob => exact ⟨trivial, hi.left_holds, by simp, by simp⟩
  | returns hs hjob => exact ⟨trivial, hi.left_holds, by simp, by simp⟩
  | @written a t f hs hwrite =>
      obtain ⟨hredeem, hrevoke⟩ := not_queued hi (by simp [hs]) (by simp [hs, Stage.givenUp])
      rw [hs] at hstage
      obtain ⟨hsome, hname, hok, hsent⟩ := hstage
      have hhanded : (f.step s.out a).2.carried = frame (d.json t) := by
        rcases FrameWrite.step_cases hok s.out a with ⟨e, heq, -⟩ | ⟨g, pushed, heq, -, hunsent, -⟩
        · rw [heq] at hwrite
          cases hwrite
        · rw [heq] at hwrite
          obtain rfl : g = .done := hwrite
          rw [heq, ← hsent, hunsent]
          simp [FrameWrite.unsent]
      exact ⟨⟨hname, t, hsome, hhanded⟩, hi.left_holds, fun hjob => absurd hjob hredeem,
        fun name hjob => absurd hjob (hrevoke name)⟩
  | writeFails hs hwrite =>
      rw [hs] at hstage
      refine ⟨trivial, hi.left_holds, by simp, fun name hqueued => ?_⟩
      cases hqueued
      exact ⟨hstage.2.1, rfl⟩
  | @writes a t f g hs hwrite hdone hfailed =>
      obtain ⟨hredeem, hrevoke⟩ := not_queued hi (by simp [hs]) (by simp [hs, Stage.givenUp])
      rw [hs] at hstage
      obtain ⟨hsome, hname, hok, hsent⟩ := hstage
      have hmore : g.Ok ∧ (f.step s.out a).2.carried ++ g.unsent
          = frame (d.json t) := by
        rcases FrameWrite.step_cases hok s.out a with ⟨e, heq, -⟩ | ⟨g', pushed, heq, hg, hunsent, -⟩
        · rw [heq] at hwrite
          exact absurd hwrite.symm (hfailed e)
        · rw [heq] at hwrite
          obtain rfl : g' = g := hwrite
          rw [heq, ← hsent, hunsent]
          exact ⟨hg, by simp [List.append_assoc]⟩
      exact ⟨⟨hsome, hname, hmore⟩, hi.left_holds, fun hjob => absurd hjob hredeem,
        fun name hjob => absurd hjob (hrevoke name)⟩
  | closed hs hout =>
      obtain ⟨hredeem, hrevoke⟩ := not_queued hi (by simp [hs]) (by simp [hs, Stage.givenUp])
      exact ⟨trivial, hi.left_holds, fun hjob => absurd hjob hredeem,
        fun name hjob => absurd hjob (hrevoke name)⟩
  | closeFails hs =>
      rw [hs] at hstage
      refine ⟨trivial, hi.left_holds, by simp, fun name hqueued => ?_⟩
      cases hqueued
      exact ⟨hstage.1, rfl⟩
  | closes hs => exact hi
  | drop hrunning =>
      refine ⟨trivial, hi.left_holds, fun hjob => ?_, fun name hjob => ?_⟩
      · obtain ⟨hleft, hcarried, -⟩ := hi.redeem_queued hjob
        exact ⟨hleft, hcarried, Or.inr rfl⟩
      · exact ⟨(hi.revoke_queued name hjob).1, rfl⟩
  | edit => exact inv_commit hi _

theorem inv_run {set : TenantSet} {es : List Event}
    (hrun : (machine d).run (start set) es = some s) : Inv d s :=
  (machine d).run_invariant (Inv d) (fun hi hstep => inv_step hi (moves_of_step hstep))
    (inv_start set) hrun

/-! ## Runs that meet the condition -/

/-- An exposed tenant is about to be revoked, or its credentials are still on their way. -/
def Guarded (d : Draw) (s : Enrollment) : Prop :=
  s.Exposed d → s.job.isRevoke = true ∨ s.stage.pending = true

theorem exposed_of_commit {set : TenantSet} (h : (s.commit d set).Exposed d) : s.Exposed d := by
  obtain ⟨hleft, hhanded⟩ := h
  simp only [commit, Bool.and_eq_true] at hleft
  exact ⟨hleft.1, hhanded⟩

theorem guarded_step {e : Event} (hi : Inv d s) (hguarded : Guarded d s) (hallowed : Allowed d s e)
    (hmove : Moves d s e s') : Guarded d s' := by
  have hi' := inv_step hi hmove
  have hstage := hi.stage
  cases hmove with
  | redeemed hjob hcall =>
      intro hexposed
      obtain ⟨-, -, hs | hs⟩ := hi.redeem_queued hjob
      · exact Or.inr (by simp [hs, Stage.pending])
      · exact absurd hcall (hallowed hs hjob _ _)
  | snapshot hjob =>
      intro hexposed
      rcases hguarded hexposed with h | h
      · simp [hjob, Job.isRevoke] at h
      · exact Or.inr h
  | @revoked name next out hjob hcall =>
      rintro ⟨hleft, -⟩
      obtain rfl := (hi.revoke_queued name hjob).1
      have hgone := revoked_holds hcall
      simp [commit, hgone] at hleft
  | redeemRefused hjob hcall =>
      rintro ⟨hleft, -⟩
      exact absurd hleft (by simp [(hi.redeem_queued hjob).1])
  | @revokeRefused name next e hjob hcall =>
      rintro ⟨hleft, -⟩
      obtain rfl := (hi.revoke_queued name hjob).1
      exact absurd (hi.left_holds hleft) (by simp [not_holds_of_refused hcall])
  | @fails w luck o hjob hluck =>
      intro hexposed
      rcases hguarded hexposed with h | h
      · rcases hluck with ⟨rfl, -⟩ | ⟨rfl, -⟩ <;> exact absurd hexposed (hallowed h)
      · exact Or.inr h
  | created hs hjob => exact fun _ => Or.inr rfl
  | notCreated hs hjob ho =>
      rintro ⟨hleft, -⟩
      rw [hs] at hstage
      have hnot := hstage.2.2 fun t ht => ho t (Job.finished.inj (hjob.symm.trans ht))
      exact absurd hleft (by simp [hnot])
  | sends hs hjob hfits => exact fun _ => Or.inr rfl
  | tooLarge hs hjob => exact fun _ => Or.inl rfl
  | withdrawn hs hjob =>
      intro hexposed
      rcases hguarded hexposed with h | h
      · simp [hjob, Job.isRevoke] at h
      · simp [hs, Stage.pending] at h
  | returns hs hjob =>
      intro hexposed
      rcases hguarded hexposed with h | h
      · simp [hjob, Job.isRevoke] at h
      · exact absurd h (by simp [Stage.not_pending hs])
  | written hs hwrite =>
      rintro ⟨-, hhanded⟩
      exact absurd hi'.stage.2 hhanded
  | writeFails hs hwrite => exact fun _ => Or.inl rfl
  | writes hs hwrite hdone hfailed => exact fun _ => Or.inr rfl
  | closed hs hout =>
      rintro ⟨-, hhanded⟩
      rw [hs] at hstage
      obtain ⟨-, t, hsome, hcarried⟩ := hstage
      exact absurd ⟨t, hsome, hout.trans hcarried⟩ hhanded
  | closeFails hs => exact fun _ => Or.inl rfl
  | closes hs => exact hguarded
  | drop hrunning => exact fun hexposed => Or.inl (hallowed hexposed)
  | edit => exact fun hexposed => hguarded (exposed_of_commit hexposed)

/-! ## Runs that do not -/

/-- An exposed tenant that nobody will revoke. -/
structure Orphaned (d : Draw) (s : Enrollment) : Prop where
  exposed : s.Exposed d
  not_redeeming : s.job ≠ .queued .redeem
  not_revoking : s.job.isRevoke = false
  stage : s.stage.givenUp = true

/-- A step that does not meet the condition leaves an orphan. -/
theorem orphaned_of_not_allowed {e : Event} (hi : Inv d s) (hmove : Moves d s e s')
    (hnot : ¬ Allowed d s e) : Orphaned d s' := by
  cases hmove with
  | redeemed hjob hcall =>
      obtain ⟨-, hcarried, hs | hs⟩ := hi.redeem_queued hjob
      · exact absurd (fun hdropped => by simp [hs] at hdropped) hnot
      · refine ⟨⟨rfl, ?_⟩, by simp, rfl, by simp [hs, Stage.givenUp]⟩
        rintro ⟨t, -, hhanded⟩
        exact frame_ne_nil _ (hhanded.symm.trans hcarried)
  | snapshot hjob => exact absurd (fun _ hqueued => by simp [hjob] at hqueued) hnot
  | revoked hjob hcall => exact absurd (fun _ hqueued => by simp [hjob] at hqueued) hnot
  | redeemRefused hjob hcall => exact absurd (fun _ _ => hcall) hnot
  | revokeRefused hjob hcall => exact absurd (fun _ hqueued => by simp [hjob] at hqueued) hnot
  | @fails w luck o hjob hluck =>
      obtain ⟨hrevoke, hexposed⟩ : s.job.isRevoke = true ∧ s.Exposed d := by
        rcases hluck with ⟨rfl, -⟩ | ⟨rfl, -⟩ <;> simpa [Allowed] using hnot
      refine ⟨hexposed, by simp, rfl, ?_⟩
      cases w with
      | redeem | snapshot => simp [hjob, Job.isRevoke] at hrevoke
      | revoke name => exact (hi.revoke_queued name hjob).2
  | drop hrunning =>
      obtain ⟨hexposed, hrevoke⟩ : s.Exposed d ∧ s.job.isRevoke = false := by
        simpa [Allowed] using hnot
      refine ⟨hexposed, fun hjob => ?_, hrevoke, rfl⟩
      exact absurd hexposed.1 (by simp [(hi.redeem_queued hjob).1])
  | created | notCreated | sends | tooLarge | withdrawn | returns | written | writeFails | writes
  | closed | closeFails | closes | edit => exact absurd trivial hnot

/-- An orphan stays one, as long as nobody else edits the store. -/
theorem orphaned_step {e : Event} (ho : Orphaned d s) (hedit : ∀ set, e ≠ .edit set)
    (hmove : Moves d s e s') : Orphaned d s' := by
  have hup := ho.stage
  cases hmove with
  | redeemed hjob hcall => exact absurd hjob ho.not_redeeming
  | redeemRefused hjob hcall => exact absurd hjob ho.not_redeeming
  | snapshot hjob => exact ⟨ho.exposed, by simp, rfl, hup⟩
  | revoked hjob hcall => exact absurd ho.not_revoking (by simp [hjob, Job.isRevoke])
  | revokeRefused hjob hcall => exact absurd ho.not_revoking (by simp [hjob, Job.isRevoke])
  | fails hjob hluck => exact ⟨ho.exposed, by simp, rfl, hup⟩
  | withdrawn hs hjob => exact ⟨ho.exposed, by simp, rfl, rfl⟩
  | returns hs hjob => exact ⟨ho.exposed, by simp, rfl, rfl⟩
  | drop hrunning => exact ⟨ho.exposed, ho.not_redeeming, ho.not_revoking, rfl⟩
  | edit => exact absurd rfl (hedit _)
  | created hs | notCreated hs | sends hs | tooLarge hs | written hs | writeFails hs | writes hs
  | closed hs | closeFails hs | closes hs => simp [hs, Stage.givenUp] at hup

theorem orphaned_run {t : Enrollment} {es : List Event} (ho : Orphaned d s)
    (hedit : ∀ e ∈ es, ∀ set, e ≠ .edit set) (hrun : (machine d).run s es = some t) :
    Orphaned d t :=
  (machine d).run_invariant_of_meets (C := fun _ e => ∀ set, e ≠ .edit set) (Orphaned d)
    (fun ho hedit hstep => orphaned_step ho hedit (moves_of_step hstep)) ho
    ((machine d).meets_of_forall_mem fun e he _ => hedit e he) hrun

theorem guarded_run {set : TenantSet} {es : List Event}
    (hmeets : (machine d).Meets (Allowed d) (start set) es)
    (hrun : (machine d).run (start set) es = some s) : Guarded d s := by
  have hboth : Inv d s ∧ Guarded d s := by
    refine (machine d).run_invariant_of_meets (fun s => Inv d s ∧ Guarded d s) ?_
      ⟨inv_start set, fun _ => Or.inr rfl⟩ hmeets hrun
    rintro s e t ⟨hi, hguarded⟩ hallowed hstep
    have hmove := moves_of_step hstep
    exact ⟨inv_step hi hmove, guarded_step hi hguarded hallowed hmove⟩
  exact hboth.2

/-- **When no tenant is left behind.**  In every run that meets the condition, a tenant that is in the
store when the enrollment is over had its credentials handed over; where nobody else edits the
store, that is so in no other run. -/
theorem withdrawn_iff {set : TenantSet} {es : List Event}
    (hrun : (machine d).run (start set) es = some s) (hover : s.Over) :
    ((machine d).Meets (Allowed d) (start set) es → s.left = true → s.Handed d)
      ∧ ((∀ e ∈ es, ∀ set, e ≠ .edit set) → (s.left = true → s.Handed d) →
        (machine d).Meets (Allowed d) (start set) es) := by
  constructor
  · intro hmeets hleft
    by_contra hhanded
    rcases guarded_run hmeets hrun ⟨hleft, hhanded⟩ with h | h
    · cases hjob : s.job with
      | queued w => exact hover.2 w hjob
      | idle | finished o => simp [hjob, Job.isRevoke] at h
    · have hrunning := Stage.running_of_pending h
      rw [hover.1] at hrunning
      cases hrunning
  · intro hedit hproperty
    refine (machine d).meets_iff_forall_step.2 fun fs e u hfs hu => ?_
    by_contra hnot
    -- The step that does not meet the condition leaves an orphan, which is still there at the end.
    obtain ⟨gs, rfl⟩ := hfs
    obtain ⟨v, hv, hrest⟩ := (machine d).run_append_iff.1 hrun
    obtain ⟨u', hu', hstep⟩ := (machine d).run_concat_iff.1 hv
    obtain rfl : u = u' := Option.some.inj (hu.symm.trans hu')
    have horphaned := orphaned_of_not_allowed (inv_run hu) (moves_of_step hstep) hnot
    have hend := orphaned_run horphaned (fun e he => hedit e (List.mem_append_right _ he)) hrest
    exact hend.exposed.2 (hproperty hend.exposed.1)

def sampleDraw : Draw := ⟨Psk.repeated 1, 100, "t-1", "2", Psk.repeated 2, Credentials.json⟩

/-- One code is outstanding. -/
def sampleSet : TenantSet :=
  ⟨[], [⟨Psk.repeated 1, "a.example.com", 4, none⟩], Tenancy.checkSet_eq_ok_iff.1 (by decide)⟩

/-- The peer's stream fails, and the tenant is withdrawn. -/
theorem withdrawn_iff_unsent :
    ∃ s, (machine sampleDraw).run (start sampleSet) [.work .runs, .resume, .work .runs, .resume,
        .write .fail, .work .runs, .resume, .work .runs, .resume] = some s
      ∧ s.left = false ∧ (machine sampleDraw).Meets (Allowed sampleDraw) (start sampleSet)
        [.work .runs, .resume, .work .runs, .resume, .write .fail, .work .runs, .resume, .work .runs,
          .resume] := by
  have hend : ((machine sampleDraw).run (start sampleSet) [.work .runs, .resume, .work .runs, .resume,
      .write .fail, .work .runs, .resume, .work .runs, .resume]).map
        (fun s => (s.left, s.stage.running, s.job)) = some (false, false, .idle) := by decide
  obtain ⟨s, hrun, hfields⟩ := Option.map_eq_some_iff.1 hend
  simp only [Prod.mk.injEq] at hfields
  obtain ⟨hleft, hrunning, hjob⟩ := hfields
  have hover : s.Over := ⟨hrunning, by simp [hjob]⟩
  exact ⟨s, hrun, hleft, (withdrawn_iff hrun hover).2 (by simp) (by simp [hleft])⟩

def sampleTenant : Tenant := ⟨"t-1", Psk.repeated 2, "a.example.com", 4, false⟩

/-- The shutdown drops the enrollment when the tenant has just been created: it stays in the store, and
the peer was sent nothing. -/
theorem dropped_after_redeem :
    ∃ s, (machine sampleDraw).run (start sampleSet) [.work .runs, .drop] = some s ∧ s.Over
      ∧ s.store.tenants = [sampleTenant] ∧ s.left = true ∧ ¬ s.Handed sampleDraw := by
  have hend : ((machine sampleDraw).run (start sampleSet) [.work .runs, .drop]).map
      (fun s => (s.store.tenants, s.left, s.stage.running, s.out.carried, s.job))
        = some ([sampleTenant], true, false, [], .finished (.redeemed sampleTenant)) := by decide
  obtain ⟨s, hrun, hfields⟩ := Option.map_eq_some_iff.1 hend
  simp only [Prod.mk.injEq] at hfields
  obtain ⟨htenants, hleft, hrunning, hcarried, hjob⟩ := hfields
  refine ⟨s, hrun, ⟨hrunning, by simp [hjob]⟩, htenants, hleft, ?_⟩
  rintro ⟨t, -, hhanded⟩
  exact frame_ne_nil _ (hhanded.symm.trans hcarried)

end Enrollment

end Hub
end Erbridge
