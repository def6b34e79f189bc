import Erbridge.Tenancy.FileStore
import Erbridge.Tenancy.Store

/-!
# What the file's history means

The edits of the tenant file have an order, that of their renames.  Two things follow for those who use
the store: a snapshot is of the moment at which it opened the file, and the enrollment codes are as single
use on the file as they are in memory, whichever processes redeem them and wherever these die.

* `Disk.frozen_step` — an inode that nobody writes stays as it is.
* `Disk.snapshot_of_opening` — what a snapshot shows, against real time.
* `Disk.jobsOf`, `Disk.applied_calls` — the calls of a `TenantStore`, and the store that they act on.
* `Disk.codes_single_use` — at most one of the redeems between two issues of a code is in the history.
-/

namespace Erbridge
namespace Tenancy
namespace FileStore
namespace Disk

open Noise (Psk)

variable {jobs : Nat → Job} {toml : Toml} {start : TenantSet} {d d' : Disk}

/-! ## Snapshots -/

theorem frozen_setPc {i c : Nat} {k : Pc} {d₁ : Disk} (h : d.Frozen i)
    (hnext : d.nextInode ≤ d₁.nextInode) (hpcs : d₁.pcs = d.pcs)
    (hk : ∀ next text n, k ≠ .writing next text i n) : (d₁.setPc c k).Frozen i := by
  refine ⟨Nat.lt_of_lt_of_le h.1 hnext, fun c' next text n => ?_⟩
  show Function.update d₁.pcs c k c' ≠ _
  rw [hpcs]
  rcases eq_or_ne c' c with rfl | hne
  · rw [Function.update_self]
    exact hk next text n
  · rw [Function.update_of_ne hne]
    exact h.2 c' next text n

/-- An inode that nobody writes is not written again. -/
theorem frozen_step {i : Nat} {e : Event} (h : d.Frozen i) (hstep : d.step jobs toml e = some d') :
    d'.Frozen i ∧ d'.content i = d.content i := by
  have hother : ∀ {d₁ : Disk} {c : Nat} {k : Pc}, d₁.nextInode = d.nextInode → d₁.pcs = d.pcs →
      d₁.content = d.content → (∀ next text i n, k ≠ .writing next text i n) →
      (d₁.setPc c k).Frozen i ∧ (d₁.setPc c k).content i = d.content i := by
    intro d₁ c k hnext hpcs hcontent hk
    refine ⟨frozen_setPc h (Nat.le_of_eq hnext.symm) hpcs fun next text n => hk next text i n, ?_⟩
    show d₁.content i = _
    rw [hcontent]
  cases e with
  | create c =>
      simp only [step] at hstep
      split at hstep
      · split at hstep
        · rename_i next text hpc htmp
          cases hstep
          refine ⟨frozen_setPc h (Nat.le_succ _) rfl fun next' text' n heq => ?_, ?_⟩
          -- The new inode has a number that no inode had.
          · have hnew := (Pc.writing.inj heq).2.2.1
            have hlt := h.1
            omega
          · exact Function.update_of_ne (Nat.ne_of_lt h.1) _ _
        · cases hstep
          exact hother rfl rfl rfl (by simp)
      · cases hstep
  | write c n =>
      simp only [step] at hstep
      split at hstep
      · rename_i next text j k hpc
        have hne : i ≠ j := by
          rintro rfl
          exact h.2 c next text k hpc
        cases hstep
        refine ⟨frozen_setPc h (Nat.le_refl _) rfl fun next' text' m heq => ?_, ?_⟩
        · exact hne (Pc.writing.inj heq).2.2.1.symm
        · exact Function.update_of_ne hne _ _
      · cases hstep
  | die proc =>
      cases hstep
      refine ⟨⟨h.1, fun c next text n => ?_⟩, rfl⟩
      show (if (jobs c).proc = proc && (d.pcs c).inside then Pc.dead else d.pcs c) ≠ _
      split
      · simp
      · exact h.2 c next text n
  | openSnapshot r | readSnapshot r n | finishSnapshot r | failSnapshot r =>
      simp only [step] at hstep
      repeat' split at hstep
      all_goals first
        | cases hstep; exact ⟨h, rfl⟩
        | cases hstep
  | cleanup c removed =>
      simp only [step] at hstep
      split at hstep
      · cases hstep
        cases removed <;> exact hother rfl rfl rfl (by simp)
      · cases hstep
  | _ =>
      simp only [step] at hstep
      repeat' split at hstep
      all_goals first
        | cases hstep; exact hother rfl rfl rfl (by simp)
        | cases hstep

theorem complete_step {i : Nat} {pre : List Nat} {e : Event}
    (h : Complete jobs toml start d i pre) (hstep : d.step jobs toml e = some d') :
    Complete jobs toml start d' i pre ∧ d'.content i = d.content i := by
  obtain ⟨hfrozen, hcontent⟩ := frozen_step h.1 hstep
  refine ⟨⟨hfrozen, ?_⟩, hcontent⟩
  rw [hcontent]
  exact h.2

/-- The reader shows what the renames `pre` made, or is on its way to it. -/
def Shows (jobs : Nat → Job) (toml : Toml) (start : TenantSet) (pre : List Nat) (d : Disk) :
    Reader → Prop
  | .idle => False
  | .reading i got => Complete jobs toml start d i pre ∧ got <+: d.content i
  | .finished (.ok S) => applied jobs start pre = some S
  | .finished (.error _) => True

/-- A step of anybody else leaves the reader where it is. -/
theorem Shows.of_reader {pre : List Nat} {k : Reader} {e : Event}
    (h : Shows jobs toml start pre d k) (hstep : d.step jobs toml e = some d') :
    Shows jobs toml start pre d' k := by
  cases k with
  | idle => exact h
  | reading i got =>
      obtain ⟨hcomplete, hcontent⟩ := complete_step h.1 hstep
      refine ⟨hcomplete, ?_⟩
      rw [hcontent]
      exact h.2
  | finished result => cases result <;> exact h

/-- The step is one of the reader `r`. -/
def Event.reader : Event → Option Nat
  | .openSnapshot r | .readSnapshot r _ | .finishSnapshot r | .failSnapshot r => some r
  | _ => none

theorem readers_of_step {e : Event} {r : Nat} (he : e.reader ≠ some r)
    (hstep : d.step jobs toml e = some d') : d'.readers r = d.readers r := by
  have hother : ∀ {r' : Nat} {k : Reader}, r' ≠ r → (d.setReader r' k).readers r = d.readers r :=
    fun hne => Function.update_of_ne hne.symm _ _
  cases e with
  | openSnapshot r' | readSnapshot r' n | finishSnapshot r' | failSnapshot r' =>
      have hne : r' ≠ r := fun heq => he (by rw [heq]; rfl)
      simp only [step] at hstep
      repeat' split at hstep
      all_goals first
        | cases hstep; exact hother hne
        | cases hstep
  | cleanup c removed =>
      simp only [step] at hstep
      split at hstep
      · cases hstep
        cases removed <;> rfl
      · cases hstep
  | die proc =>
      cases hstep
      rfl
  | _ =>
      simp only [step] at hstep
      repeat' split at hstep
      all_goals first
        | cases hstep; rfl
        | cases hstep

theorem shows_step (htoml : toml.RoundTrips) {pre : List Nat} {r : Nat} {e : Event}
    (h : Shows jobs toml start pre d (d.readers r)) (hstep : d.step jobs toml e = some d') :
    Shows jobs toml start pre d' (d'.readers r) := by
  by_cases he : e.reader = some r
  · have hset : ∀ {k : Reader}, Shows jobs toml start pre d k →
        Shows jobs toml start pre (d.setReader r k) ((d.setReader r k).readers r) := by
      intro k hk
      rw [show (d.setReader r k).readers r = k from Function.update_self _ _ _]
      cases k with
      | finished result => cases result <;> exact hk
      | _ => exact hk
    cases e with
    | openSnapshot r' =>
        obtain rfl : r' = r := Option.some.inj he
        simp only [step] at hstep
        split at hstep
        · rename_i hidle
          rw [hidle] at h
          exact h.elim
        · cases hstep
    | readSnapshot r' n =>
        obtain rfl : r' = r := Option.some.inj he
        simp only [step] at hstep
        split at hstep
        · rename_i i got hpc
          rw [hpc] at h
          cases hstep
          exact hset ⟨h.1, readMore_prefix h.2⟩
        · cases hstep
    | finishSnapshot r' =>
        obtain rfl : r' = r := Option.some.inj he
        simp only [step] at hstep
        split at hstep
        · rename_i i got hpc
          rw [hpc] at h
          obtain ⟨⟨-, S, hS, htext⟩, hgot⟩ := h
          split at hstep
          · rename_i hend
            -- It has read the whole of what the renames made.
            obtain rfl := eq_content_of_end hgot hend
            rw [TenantSet.fromToml_toToml htoml htext] at hstep
            cases hstep
            exact hset hS
          · cases hstep
        · cases hstep
    | failSnapshot r' =>
        obtain rfl : r' = r := Option.some.inj he
        simp only [step] at hstep
        split at hstep
        · cases hstep
          exact hset trivial
        · cases hstep
          exact hset trivial
        · cases hstep
    | _ => cases he
  · rw [readers_of_step he hstep]
    exact h.of_reader hstep

/-- What the reader has when it has opened the file. -/
theorem shows_open (hi : Inv jobs toml start d) {r : Nat}
    (hstep : d.step jobs toml (.openSnapshot r) = some d') :
    Shows jobs toml start d.renames d' (d'.readers r) := by
  simp only [step] at hstep
  split at hstep
  · split at hstep
    · rename_i i htarget
      cases hstep
      rw [show (d.setReader r (.reading i [])).readers r = _ from Function.update_self _ _ _]
      rcases hi.contents with ⟨habsent, -⟩ | ⟨j, hj, hcomplete⟩
      · rw [htarget] at habsent
        cases habsent
      · obtain rfl : i = j := Option.some.inj (htarget.symm.trans hj)
        exact ⟨hcomplete, List.nil_prefix⟩
    · rename_i habsent
      cases hstep
      rw [show (d.setReader r (.finished (.ok TenantSet.empty))).readers r = _ from
        Function.update_self _ _ _]
      rcases hi.contents with ⟨-, hrenames, hempty⟩ | ⟨j, hj, -⟩
      · show applied jobs start d.renames = _
        rw [hrenames, ← hempty]
        rfl
      · rw [habsent] at hj
        cases hj
  · cases hstep

/-- **A snapshot is of the moment at which it opened the file.**  It shows the edits whose renames had
taken place then, and no other: those of all calls that had returned `Ok`, and of none that had returned
`Err`; whatever is renamed, fails or dies while it reads. -/
theorem snapshot_of_opening (jobs : Nat → Job) (toml : Toml) (htoml : toml.RoundTrips)
    (start : TenantSet) (d d₁ d' : Disk) (before after : List Event) (r : Nat) (S : TenantSet)
    (hstarts : Starts toml start d) (hbefore : (machine jobs toml).run d before = some d₁)
    (hrun : (machine jobs toml).run d₁ (.openSnapshot r :: after) = some d')
    (hshown : d'.readers r = .finished (.ok S)) :
    applied jobs start d₁.renames = some S
      ∧ (∀ c next, d₁.pcs c = .returned (.ok next) → c ∈ d₁.renames)
      ∧ ∀ c e, d₁.pcs c = .returned (.error e) → c ∉ d₁.renames := by
  have hi : Inv jobs toml start d₁ := (machine jobs toml).run_invariant (Inv jobs toml start)
    (fun hi hstep => inv_step htoml hi hstep) (inv_starts hstarts) hbefore
  obtain ⟨d₂, hopen, hafter⟩ := (machine jobs toml).run_cons_iff.1 hrun
  have hshows := (machine jobs toml).run_invariant
    (fun d => Shows jobs toml start d₁.renames d (d.readers r))
    (fun h hstep => shows_step htoml h hstep) (shows_open hi hopen) hafter
  rw [hshown] at hshows
  refine ⟨hshows, fun c next hpc => ?_, hi.linear.err⟩
  obtain ⟨pre, post, current, hrenames, -⟩ := hi.linear.ok c next hpc
  rw [hrenames]
  exact List.mem_append_right _ List.mem_cons_self

/-- The snapshot of the run in which a process dies was opened behind the rename. -/
theorem snapshot_of_opening_crash :
    ∃ d₁, (machine addJobs oneToml).run freshDisk (crashRun.take 18) = some d₁
      ∧ d₁.renames = [1] ∧ applied addJobs TenantSet.empty d₁.renames = some oneTenant := by
  have hmiddle : ((machine addJobs oneToml).run freshDisk (crashRun.take 18)).map
      (fun d => d.renames) = some [1] := by decide +kernel
  obtain ⟨d₁, hbefore, hrenames⟩ := Option.map_eq_some_iff.1 hmiddle
  have hend : ((machine addJobs oneToml).run freshDisk crashRun).map (fun d => d.readers 0)
      = some (.finished (.ok oneTenant)) := by decide +kernel
  obtain ⟨d', hrun, hreader⟩ := Option.map_eq_some_iff.1 hend
  have hsplit : crashRun = crashRun.take 18 ++ .openSnapshot 0 :: crashRun.drop 19 := rfl
  rw [hsplit] at hrun
  obtain ⟨d₂, hbefore', hafter⟩ := (machine addJobs oneToml).run_append_iff.1 hrun
  obtain rfl : d₁ = d₂ := Option.some.inj (hbefore.symm.trans hbefore')
  have hshown := snapshot_of_opening addJobs oneToml oneToml_roundTrips TenantSet.empty freshDisk d₁ d'
    (crashRun.take 18) (crashRun.drop 19) 0 oneTenant
    ⟨Or.inl ⟨rfl, rfl⟩, rfl, fun _ => rfl, fun _ => rfl, rfl, rfl⟩ hbefore hafter hreader
  exact ⟨d₁, hbefore, hrenames, hshown.1⟩

/-! ## Enrollment codes -/

/-- The calls of a `TenantStore`, each made by a process, as edits of the file. -/
def jobsOf (calls : Nat → Nat × Call) : Nat → Job := fun c =>
  ⟨(calls c).1, fun S => ((calls c).2.edit S).map Prod.fst⟩

variable {calls : Nat → Nat × Call}

theorem applied_cons_iff {c : Nat} {cs : List Nat} {S T : TenantSet} :
    applied (jobsOf calls) S (c :: cs) = some T ↔
      ∃ next out, exec S (calls c).2 = (next, .ok out) ∧ applied (jobsOf calls) next cs = some T := by
  have hedit : ((jobsOf calls c).edit S).toOption
      = (((calls c).2.edit S).map Prod.fst).toOption := rfl
  rw [applied, List.foldlM_cons, hedit, exec, replaceWith]
  cases (calls c).2.edit S with
  | error e => simp [Except.map, Except.toOption]
  | ok made => simp [Except.map, Except.toOption, applied]

theorem applied_append_iff {cs ds : List Nat} {S T : TenantSet} :
    applied (jobsOf calls) S (cs ++ ds) = some T ↔
      ∃ U, applied (jobsOf calls) S cs = some U ∧ applied (jobsOf calls) U ds = some T := by
  rw [applied, List.foldlM_append]
  exact Option.bind_eq_some_iff

/-- Every redeem of the history made a tenant. -/
theorem length_redemptions {p : Psk} {cs : List Nat} {S T : TenantSet}
    (h : applied (jobsOf calls) S cs = some T) :
    (redemptions p S (cs.map fun c => (calls c).2)).length
      = (cs.filter fun c => (calls c).2.redeems p).length := by
  induction cs generalizing S with
  | nil => rfl
  | cons c cs ih =>
      obtain ⟨next, out, hexec, hrest⟩ := applied_cons_iff.1 h
      have hnext : (exec S (calls c).2).1 = next := by rw [hexec]
      rw [List.map_cons, redemptions, hnext, List.length_append, ih hrest, List.filter_cons]
      cases hred : (calls c).2.redeems p with
      | false => rw [redemption_of_not_redeems hred, if_neg (by simp)]; simp
      | true =>
          obtain ⟨now, name, psk, hcall⟩ := redeems_iff.1 hred
          rw [hcall] at hexec
          obtain ⟨t, code, rfl, -⟩ := exec_redeem_spec hexec
          have hmade : redemption p S (calls c).2 = some t := by
            rw [redemption, hred, hcall, hexec]
            rfl
          rw [hmade, if_pos rfl, Option.toList_some, List.length_cons, List.length_cons,
            List.length_nil]
          omega

/-- None of the calls issues a code with the PSK. -/
def NoIssue (calls : Nat → Nat × Call) (p : Psk) (cs : List Nat) : Prop :=
  ∀ c ∈ cs, ∀ code, (calls c).2 = .issueCode code → code.psk ≠ p

theorem NoIssue.not_issues {p : Psk} {cs : List Nat} (h : NoIssue calls p cs) {c : Nat} (hc : c ∈ cs)
    {S : TenantSet} : ¬ Issues p S (calls c).2 := by
  rintro ⟨code, T, hcall, hpsk, -⟩
  exact h c hc code hcall hpsk

theorem length_redeems_le_one {p : Psk} {cs : List Nat} {S T : TenantSet}
    (h : applied (jobsOf calls) S cs = some T) (hissue : NoIssue calls p cs) :
    (cs.filter fun c => (calls c).2.redeems p).length ≤ 1 := by
  rw [← length_redemptions h]
  refine redemptions_length_le_one (store.meets_of_forall_mem fun call hcall S => ?_)
  obtain ⟨c, hc, rfl⟩ := List.mem_map.1 hcall
  exact hissue.not_issues hc

/-- A code that is gone stays gone. -/
theorem absent_applied {p : Psk} {cs : List Nat} {S T : TenantSet}
    (h : applied (jobsOf calls) S cs = some T) (hissue : NoIssue calls p cs)
    (habsent : ∀ code ∈ S.codes, code.psk ≠ p) : ∀ code ∈ T.codes, code.psk ≠ p := by
  induction cs generalizing S with
  | nil =>
      obtain rfl : S = T := Option.some.inj h
      exact habsent
  | cons c cs ih =>
      obtain ⟨next, out, hexec, hrest⟩ := applied_cons_iff.1 h
      refine ih hrest (fun c' hc' => hissue c' (List.mem_cons_of_mem _ hc')) ?_
      have hkept := absent_exec (hissue.not_issues List.mem_cons_self) habsent
      rwa [hexec] at hkept

/-- What the history of the file says about the enrollment codes. -/
structure SingleUse (calls : Nat → Nat × Call) (start : TenantSet) (d : Disk) : Prop where
  /-- Between two issues of a code at most one redeem of it took place. -/
  once : ∀ p pre mid post, d.renames = pre ++ (mid ++ post) → NoIssue calls p mid →
    (mid.filter fun c => (calls c).2.redeems p).length ≤ 1
  /-- Two redeems of a code do not both return `Ok` unless it was issued anew. -/
  winner : ∀ p c c' next next', NoIssue calls p d.renames → (calls c).2.redeems p = true →
    (calls c').2.redeems p = true → d.pcs c = .returned (.ok next) →
    d.pcs c' = .returned (.ok next') → c = c'
  /-- A redeem that returned `Ok` made the tenant of its code and touched nothing else. -/
  made : ∀ c p now name psk next, (calls c).2 = .redeem p now name psk →
    d.pcs c = .returned (.ok next) → ∃ pre post current t code, d.renames = pre ++ c :: post
      ∧ applied (jobsOf calls) start pre = some current
      ∧ RedeemedFrom current next p now name psk t code
  /-- A code that was redeemed, and not issued since, is not in the file. -/
  burned : ∀ p pre c post T, d.renames = pre ++ c :: post → (calls c).2.redeems p = true →
    NoIssue calls p post → applied (jobsOf calls) start d.renames = some T →
    ∀ code ∈ T.codes, code.psk ≠ p

/-- **Enrollment codes are single use on the file too**, whichever processes redeem them, in whatever
interleaving, and whatever fails or dies where. -/
theorem codes_single_use (calls : Nat → Nat × Call) (toml : Toml) (htoml : toml.RoundTrips)
    (start : TenantSet) (d d' : Disk) (es : List Event) (hstarts : Starts toml start d)
    (hrun : (machine (jobsOf calls) toml).run d es = some d') : SingleUse calls start d' := by
  have hi : Inv (jobsOf calls) toml start d' := (machine (jobsOf calls) toml).run_invariant
    (Inv (jobsOf calls) toml start) (fun hi hstep => inv_step htoml hi hstep) (inv_starts hstarts) hrun
  have hlinear := hi.linear
  obtain ⟨T, hT⟩ : ∃ T, applied (jobsOf calls) start d'.renames = some T := by
    rcases hlinear.contents with ⟨-, hrenames, -⟩ | ⟨i, S, -, hS, -⟩
    · exact ⟨start, by rw [hrenames]; rfl⟩
    · exact ⟨S, hS⟩
  have hmem : ∀ {c next}, d'.pcs c = .returned (.ok next) → c ∈ d'.renames := by
    intro c next hpc
    obtain ⟨pre, post, current, hrenames, -⟩ := hlinear.ok c next hpc
    rw [hrenames]
    exact List.mem_append_right _ List.mem_cons_self
  constructor
  · intro p pre mid post hrenames hissue
    rw [hrenames] at hT
    obtain ⟨U, -, hrest⟩ := applied_append_iff.1 hT
    obtain ⟨V, hmid, -⟩ := applied_append_iff.1 hrest
    exact length_redeems_le_one hmid hissue
  · intro p c c' next next' hissue hc hc' hpc hpc'
    have hle := length_redeems_le_one hT hissue
    have hin : c ∈ d'.renames.filter fun c => (calls c).2.redeems p :=
      List.mem_filter.2 ⟨hmem hpc, hc⟩
    have hin' : c' ∈ d'.renames.filter fun c => (calls c).2.redeems p :=
      List.mem_filter.2 ⟨hmem hpc', hc'⟩
    obtain ⟨x, hx⟩ := List.length_eq_one_iff.1
      (Nat.le_antisymm hle (List.length_pos_of_mem hin))
    rw [hx] at hin hin'
    exact (List.mem_singleton.1 hin).trans (List.mem_singleton.1 hin').symm
  · intro c p now name psk next hcall hpc
    obtain ⟨pre, post, current, hrenames, hpre, hedit⟩ := hlinear.ok c next hpc
    have hexec : ∃ out, exec current (.redeem p now name psk) = (next, .ok out) := by
      have hone : applied (jobsOf calls) current [c] = some next := by
        show ((jobsOf calls c).edit current).toOption.bind _ = _
        rw [hedit]
        rfl
      obtain ⟨next', out, hexec, hnext⟩ := applied_cons_iff.1 hone
      obtain rfl : next' = next := Option.some.inj hnext
      exact ⟨out, by rw [← hcall]; exact hexec⟩
    obtain ⟨out, hexec⟩ := hexec
    obtain ⟨t, code, -, hfrom⟩ := exec_redeem_spec hexec
    exact ⟨pre, post, current, t, code, hrenames, hpre, hfrom⟩
  · intro p pre c post T' hrenames hred hissue hT'
    rw [hrenames] at hT'
    obtain ⟨U, -, hrest⟩ := applied_append_iff.1 hT'
    obtain ⟨next, out, hexec, hpost⟩ := applied_cons_iff.1 hrest
    refine absent_applied hpost hissue ?_
    obtain ⟨now, name, psk, hcall⟩ := redeems_iff.1 hred
    rw [hcall] at hexec
    obtain ⟨t, code, -, hfrom⟩ := exec_redeem_spec hexec
    exact fun code hcode => (hfrom.burned code hcode).2

/-- The file that holds one code. -/
def oneCodeText : List UInt8 :=
  ("tenant = []\n\n[[code]]\npsk = \""
    ++ "0101010101010101010101010101010101010101010101010101010101010101"
    ++ "\"\nsni = \"a.example.com\"\nmax_conns = 4\nexpires_at = 100\n").toList.map
      fun c => UInt8.ofNat c.toNat

/-- The crate on that file, and on the one that a redeem of the code makes of it. -/
def codeToml : Toml where
  print doc :=
    if doc = sampleSet.toDocument then some oneCodeText
    else if doc = oneTenant.toDocument then some oneTenantText else none
  parse bytes :=
    if bytes = oneCodeText then some sampleSet.toDocument
    else if bytes = oneTenantText then some oneTenant.toDocument else none

theorem oneTenantText_ne_oneCodeText : oneTenantText ≠ oneCodeText := by decide +kernel

theorem codeToml_roundTrips : codeToml.RoundTrips := by
  intro doc bytes h
  simp only [codeToml] at h ⊢
  split at h
  · rename_i hdoc
    obtain rfl := Option.some.inj h
    rw [if_pos rfl, hdoc]
  · split at h
    · rename_i hdoc
      obtain rfl := Option.some.inj h
      rw [if_neg oneTenantText_ne_oneCodeText, if_pos rfl, hdoc]
    · cases h

/-- Two processes redeem the code. -/
def racingCalls : Nat → Nat × Call
  | 0 => (1, .redeem (Psk.repeated 1) 5 "a" (Psk.repeated 0xab))
  | _ => (2, .redeem (Psk.repeated 1) 6 "b" (Psk.repeated 0xcd))

def codeDisk : Disk :=
  { freshDisk with
    target := some 0
    content := fun _ => oneCodeText
    nextInode := 1 }

/-- The first process dies behind its rename, and the second one finds no code any more. -/
def racingRun : List Event :=
  [.lock 0, .load 0, .read 0 999, .parse 0, .edit 0, .serialise 0, .clear 0, .create 0, .write 0 999,
    .sync 0, .rename 0, .die 1, .lock 1, .load 1, .read 1 999, .parse 1, .edit 1, .unlock 1]

theorem codes_single_use_race :
    ∃ d, (machine (jobsOf racingCalls) codeToml).run codeDisk racingRun = some d
      ∧ d.renames = [0] ∧ d.pcs 1 = .returned (.error (.edit .unknownCode))
      ∧ SingleUse racingCalls sampleSet d := by
  have hend : ((machine (jobsOf racingCalls) codeToml).run codeDisk racingRun).map
      (fun d => (d.renames, d.pcs 1)) = some ([0], .returned (.error (.edit .unknownCode))) := by
    decide +kernel
  obtain ⟨d, hrun, hstate⟩ := Option.map_eq_some_iff.1 hend
  obtain ⟨hrenames, hpc⟩ := Prod.mk.inj hstate
  have htext : sampleSet.toToml codeToml = .ok (codeDisk.content 0) := by
    simp [TenantSet.toToml, codeToml, codeDisk]
  refine ⟨d, hrun, hrenames, hpc, ?_⟩
  exact codes_single_use racingCalls codeToml codeToml_roundTrips sampleSet codeDisk d racingRun
    ⟨Or.inr ⟨0, rfl, Nat.zero_lt_one, htext⟩, rfl, fun _ => rfl, fun _ => rfl, rfl, rfl⟩ hrun

end Disk
end FileStore
end Tenancy
end Erbridge
