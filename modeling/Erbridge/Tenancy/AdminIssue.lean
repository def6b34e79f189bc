import Erbridge.Core.Overflow
import Erbridge.Reverse.Credentials
import Erbridge.Tenancy.Redeemable
import Erbridge.Tenancy.StoreRefines
import Mathlib.Logic.Equiv.List

/-!
# `serve-admin issue`

The `Issue` branch of `admin::run`: the checks, the expiry `now + secs`, the new code, and one
`replace_with` on the tenant file, which may fail at every operation.

* `issueEntry` — what is to be stored, up to the call of the store; the sum of clock and `--expires-in`
  panics or wraps with the build.
* `IssueRun` — a run of the command on a disk, and its outcome.
* `Honoured` — a code is offered and redeemable at exactly the times before a deadline.
* `issues_exactly_iff` — the clock values and lifetimes at which every run either fails without a trace
  or issues a code for exactly that lifetime.
-/

namespace Erbridge
namespace Tenancy

open Noise (Psk)
open Erbridge.Core (Build)
open FileStore (Disk)
open FileStore.Disk (machine Event)

/-- `AdminAction::Issue`. -/
structure IssueAction where
  sni : String
  maxConns : Option Nat
  expiresIn : Option UInt64
deriving DecidableEq

inductive IssueError
  /-- "--max-conns must be at least 1" -/
  | zeroMaxConns
  | store (e : StoreError)
deriving DecidableEq

/-- `new_enroll_code` on the 16 bytes it has drawn: the code, and the entry that redeems it. -/
def newEnrollCode (derivePsk : String → Psk) (random : List UInt8) (sni : String) (maxConns : Nat)
    (expiresAt : Option Nat) : String × EnrollCode :=
  let code := String.ofList (Reverse.randomHex random)
  (code, ⟨derivePsk code, sni, maxConns, expiresAt⟩)

/-- The code to print and the entry to store; `none` is a panic of `now_unix() + secs`. -/
def issueEntry (build : Build) (derivePsk : String → Psk) (now : UInt64) (random : List UInt8)
    (action : IssueAction) : Option (Except IssueError (String × EnrollCode)) :=
  let maxConns := action.maxConns.getD defaultMaxConns
  if maxConns = 0 then some (.error .zeroMaxConns)
  else
    match action.expiresIn with
    | none => some (.ok (newEnrollCode derivePsk random action.sni maxConns none))
    | some secs =>
        match build.add now secs with
        | none => none
        | some at' =>
            some (.ok (newEnrollCode derivePsk random action.sni maxConns (some at'.toNat)))

/-- `store.issue_code(entry)` of a process. -/
def issueJob (proc : Nat) (entry : EnrollCode) : Job := ⟨proc, fun S => S.withCode entry⟩

theorem issueJob_edit (proc : Nat) (entry : EnrollCode) (S : TenantSet) :
    (issueJob proc entry).edit S = S.withCode entry := rfl

/-- How the command ends. -/
inductive Outcome
  | panicked
  | failed (e : IssueError)
  | printed (out : String)
deriving DecidableEq

variable (build : Build) (derivePsk : String → Psk) (toml : Toml) (now : UInt64)

/-- A run of the command from the disk `d`.  Its call of the store is alone with readers, and each of its
operations on files may fail. -/
inductive IssueRun (action : IssueAction) (d : Disk) : Disk → Outcome → Prop
  | panicked {random : List UInt8} (hrandom : random.length = 16)
      (hentry : issueEntry build derivePsk now random action = none) : IssueRun action d d .panicked
  | refused {random : List UInt8} {e : IssueError} (hrandom : random.length = 16)
      (hentry : issueEntry build derivePsk now random action = some (.error e)) :
      IssueRun action d d (.failed e)
  | lost {random : List UInt8} {code : String} {entry : EnrollCode} {proc c : Nat} {es : List Event}
      {d' : Disk} {e : StoreError} (hrandom : random.length = 16)
      (hentry : issueEntry build derivePsk now random action = some (.ok (code, entry)))
      (hidle : d.pcs c = .idle) (hes : ∀ e ∈ es, e.Attempted c)
      (hrun : (machine (fun _ => issueJob proc entry) toml).run d es = some d')
      (hreturned : d'.pcs c = .returned (.error e)) : IssueRun action d d' (.failed (.store e))
  | stored {random : List UInt8} {code : String} {entry : EnrollCode} {proc c : Nat}
      {es : List Event} {d' : Disk} {next : TenantSet} (hrandom : random.length = 16)
      (hentry : issueEntry build derivePsk now random action = some (.ok (code, entry)))
      (hidle : d.pcs c = .idle) (hes : ∀ e ∈ es, e.Attempted c)
      (hrun : (machine (fun _ => issueJob proc entry) toml).run d es = some d')
      (hreturned : d'.pcs c = .returned (.ok next)) : IssueRun action d d' (.printed (code ++ "\n"))

/-! ## What a code is worth -/

/-- The code with this PSK is offered for a handshake at exactly the times before the deadline, and they
are those at which it can be redeemed under every fresh name and PSK. -/
def Honoured (T : TenantSet) (codePsk : Psk) (deadline : Nat) : Prop :=
  ∀ t : UInt64,
    ((∃ c, Identity.code c ∈ (T.candidates t.toNat).ids ∧ c.psk = codePsk) ↔ t.toNat < deadline)
      ∧ ∀ name psk, T.Fresh name psk →
          ((∃ made, T.redeem codePsk t.toNat name psk = .ok made) ↔ t.toNat < deadline)

theorem unexpired_iff {c : EnrollCode} {at' t : Nat} (h : c.expiresAt = some at') :
    c.unexpired t = true ↔ t < at' := by
  simp [EnrollCode.unexpired, h]

/-- In a set the PSK determines the code. -/
theorem code_eq_of_psk {T : TenantSet} {c c' : EnrollCode} (hc : c ∈ T.codes) (hc' : c' ∈ T.codes)
    (hpsk : c'.psk = c.psk) : c' = c :=
  List.inj_on_of_nodup_map T.valid.psks.of_append_right hc' hc hpsk

theorem offered_iff {T : TenantSet} {c : EnrollCode} {at' t : Nat} (hc : c ∈ T.codes)
    (hexpires : c.expiresAt = some at') :
    (∃ c', Identity.code c' ∈ (T.candidates t).ids ∧ c'.psk = c.psk) ↔ t < at' := by
  rw [← unexpired_iff hexpires]
  constructor
  · rintro ⟨c', hmem, hpsk⟩
    obtain ⟨hc', hlive⟩ := TenantSet.mem_candidates_iff.1 hmem
    rwa [← code_eq_of_psk hc hc' hpsk]
  · intro hlive
    exact ⟨c, TenantSet.mem_candidates_iff.2 ⟨hc, hlive⟩, rfl⟩

/-- A stored code is honoured up to its expiry as long as no tenant holds its host. -/
theorem honoured_of_stored {T : TenantSet} {c : EnrollCode} {at' : Nat} (hc : c ∈ T.codes)
    (hexpires : c.expiresAt = some at') (hfree : c.host ∉ T.hosts) : Honoured T c.psk at' := by
  intro t
  refine ⟨offered_iff hc hexpires, ?_⟩
  intro name psk hfresh
  constructor
  · rintro ⟨⟨T', t'⟩, hmade⟩
    obtain ⟨c', hc', hpsk, hlive, -⟩ := TenantSet.redeem_eq_ok_iff.1 hmade
    rw [code_eq_of_psk hc hc' hpsk] at hlive
    exact (unexpired_iff hexpires).1 hlive
  · intro hlt
    obtain ⟨T', hT'⟩ := TenantSet.redeem_exists hc ((unexpired_iff hexpires).2 hlt) hfresh.name_ne
      hfresh.name_new hfresh.psk_new hfree
    exact ⟨_, hT'⟩

/-- A code is not honoured beyond its expiry. -/
theorem deadline_le_of_honoured {T : TenantSet} {c : EnrollCode} {at' : UInt64} {deadline : Nat}
    (hc : c ∈ T.codes) (hexpires : c.expiresAt = some at'.toNat) (h : Honoured T c.psk deadline) :
    deadline ≤ at'.toNat := by
  have hoffered := (h at').1
  rw [offered_iff hc hexpires] at hoffered
  omega

/-! ## The claim on every run -/

/-- What a run with this deadline may come to. -/
def Outcome.Exact (derivePsk : String → Psk) (toml : Toml) (deadline : Nat) (d d' : Disk) :
    Outcome → Prop
  | .panicked => False
  | .failed _ => d'.file = d.file
  | .printed out => ∃ code T, out = code ++ "\n" ∧ FileStore.load toml d'.file = .ok T
      ∧ Honoured T (derivePsk code) deadline

/-- Every `issue --expires-in secs` at the time `now` fails and leaves the file unchanged, or stores and
prints a code for exactly that lifetime. -/
def IssuesExactly (secs : UInt64) : Prop :=
  ∀ action d d' out, action.expiresIn = some secs → d.Allocated →
    IssueRun build derivePsk toml now action d d' out →
      out.Exact derivePsk toml (now.toNat + secs.toNat) d d'

/-- The numbers in the file of a set. -/
def TenantSet.integers (S : TenantSet) : List Nat :=
  S.tenants.map Tenant.maxConns ++ S.codes.flatMap fun c => c.maxConns :: c.expiresAt.toList

/-- The crate prints a set exactly when none of its numbers is above the limit. -/
def Toml.PrintsUpTo (toml : Toml) (limit : Nat) : Prop :=
  ∀ S : TenantSet, (∃ bytes, S.toToml toml = .ok bytes) ↔ ∀ n ∈ S.integers, n ≤ limit

variable {build derivePsk toml now} {secs : UInt64} {action : IssueAction} {d d' : Disk}
  {random : List UInt8}

/-- The entry of a code with a lifetime. -/
theorem issueEntry_ok {code : String} {entry : EnrollCode} (hexpires : action.expiresIn = some secs)
    (h : issueEntry build derivePsk now random action = some (.ok (code, entry))) :
    ∃ at', build.add now secs = some at' ∧ entry.psk = derivePsk code
      ∧ entry.expiresAt = some at'.toNat := by
  unfold issueEntry at h
  rw [hexpires] at h
  dsimp only at h
  split at h
  · cases h
  · split at h
    · cases h
    · rename_i at' hadd
      cases h
      exact ⟨at', hadd, rfl, rfl⟩

theorem issueEntry_none (hexpires : action.expiresIn = some secs)
    (h : issueEntry build derivePsk now random action = none) : build.add now secs = none := by
  unfold issueEntry at h
  rw [hexpires] at h
  dsimp only at h
  split at h
  · cases h
  · split at h
    · assumption
    · cases h

/-- What is in the file after a code was stored. -/
theorem stored_cases (htoml : toml.RoundTrips) {entry : EnrollCode} {proc c : Nat} {es : List Event}
    {next : TenantSet} (hallocated : d.Allocated) (hidle : d.pcs c = .idle)
    (hes : ∀ e ∈ es, e.Attempted c)
    (hrun : (machine (fun _ => issueJob proc entry) toml).run d es = some d')
    (hreturned : d'.pcs c = .returned (.ok next)) :
    FileStore.load toml d'.file = .ok next ∧ entry ∈ next.codes ∧ entry.host ∉ next.hosts
      ∧ ∃ bytes, next.toToml toml = .ok bytes := by
  rcases FileStore.Disk.attempted_call hallocated hidle hes hrun hreturned with
    ⟨e, he, -⟩ | ⟨current, made, text, hload, hedit, htext, hfile, hmade⟩
  · cases he
  · obtain rfl : next = made := Except.ok.inj hmade
    obtain ⟨hfree, htenants, hcodes⟩ := TenantSet.withCode_eq_ok_iff.1 hedit
    refine ⟨?_, ?_, ?_, text, htext⟩
    · rw [hfile, FileStore.load, TenantSet.fromToml_toToml htoml htext]
      rfl
    · rw [hcodes]
      exact List.mem_append_right _ List.mem_cons_self
    · unfold TenantSet.hosts
      rw [htenants]
      intro hmem
      obtain ⟨t, ht, hhost⟩ := List.mem_map.1 hmem
      exact hfree t ht hhost

theorem lost_file {entry : EnrollCode} {proc c : Nat} {es : List Event} {e : StoreError}
    (hallocated : d.Allocated) (hidle : d.pcs c = .idle) (hes : ∀ e ∈ es, e.Attempted c)
    (hrun : (machine (fun _ => issueJob proc entry) toml).run d es = some d')
    (hreturned : d'.pcs c = .returned (.error e)) : d'.file = d.file := by
  rcases FileStore.Disk.attempted_call hallocated hidle hes hrun hreturned with
    ⟨_, -, hfile⟩ | ⟨_, _, _, _, _, _, _, hmade⟩
  · exact hfile
  · cases hmade

theorem expiry_mem_integers {S : TenantSet} {c : EnrollCode} {at' : Nat} (hc : c ∈ S.codes)
    (hexpires : c.expiresAt = some at') : at' ∈ S.integers := by
  refine List.mem_append_right _ (List.mem_flatMap.2 ⟨c, hc, List.mem_cons_of_mem _ ?_⟩)
  rw [hexpires]
  exact List.mem_cons_self

/-- Where the sum does not panic, all depends on what an entry with it is worth once it is stored. -/
theorem issuesExactly_of_add (htoml : toml.RoundTrips) {at' : UInt64}
    (hadd : build.add now secs = some at')
    (hworth : ∀ T c, c ∈ T.codes → c.expiresAt = some at'.toNat → c.host ∉ T.hosts →
      (∃ bytes, T.toToml toml = .ok bytes) → Honoured T c.psk (now.toNat + secs.toNat)) :
    IssuesExactly build derivePsk toml now secs := by
  intro action d d' out hexpires hallocated hrun
  cases hrun with
  | panicked hrandom hentry =>
      have hnone := issueEntry_none hexpires hentry
      rw [hadd] at hnone
      cases hnone
  | refused hrandom hentry => exact rfl
  | lost hrandom hentry hidle hes hrun hreturned =>
      exact lost_file hallocated hidle hes hrun hreturned
  | @stored _ code entry _ _ _ _ next hrandom hentry hidle hes hrun hreturned =>
      obtain ⟨sum, hsum, hpsk, hexp⟩ := issueEntry_ok hexpires hentry
      obtain ⟨hload, hmem, hfree, hprinted⟩ :=
        stored_cases htoml hallocated hidle hes hrun hreturned
      rw [hadd] at hsum
      obtain rfl := Option.some.inj hsum
      refine ⟨code, next, rfl, hload, ?_⟩
      rw [← hpsk]
      exact hworth next entry hmem hexp hfree hprinted

/-- **A lifetime that does not overflow is kept exactly.** -/
theorem issuesExactly_of_lt (htoml : toml.RoundTrips) (hlt : now.toNat + secs.toNat < 2 ^ 64) :
    IssuesExactly build derivePsk toml now secs := by
  apply issuesExactly_of_add htoml (Build.add_of_lt hlt)
  intro T c hmem hexpires hfree _
  rw [Core.toNat_add_of_lt hlt] at hexpires
  exact honoured_of_stored hmem hexpires hfree

/-- A sum that wraps to a number the crate does not print is refused as well. -/
theorem issuesExactly_of_refused (htoml : toml.RoundTrips) {limit : Nat}
    (hprints : toml.PrintsUpTo limit) (hadd : build.add now secs = some (now + secs))
    (hlimit : limit < (now + secs).toNat) : IssuesExactly build derivePsk toml now secs := by
  apply issuesExactly_of_add htoml hadd
  intro T c hmem hexpires _ hprinted
  have hle := (hprints T).1 hprinted _ (expiry_mem_integers hmem hexpires)
  omega

/-! ## Sums that overflow -/

/-- The command on a missing file, for a host of one letter. -/
def sampleIssue (secs : UInt64) : IssueAction := ⟨"a", none, some secs⟩

/-- What it stores when the sum is `at'` and the random bytes are zero. -/
def sampleEntry (derivePsk : String → Psk) (at' : UInt64) : String × EnrollCode :=
  newEnrollCode derivePsk (List.replicate 16 0) "a" defaultMaxConns (some at'.toNat)

theorem issueEntry_sample (secs : UInt64) :
    issueEntry build derivePsk now (List.replicate 16 0) (sampleIssue secs) =
      (build.add now secs).map fun at' => .ok (sampleEntry derivePsk at') := by
  cases hadd : build.add now secs with
  | none => simp [issueEntry, sampleIssue, defaultMaxConns, hadd]
  | some at' => simp [issueEntry, sampleIssue, sampleEntry, defaultMaxConns, hadd]

/-- The set of one code. -/
def oneCode (entry : EnrollCode) (h : EntryOk entry.sni entry.maxConns) : TenantSet where
  tenants := []
  codes := [entry]
  valid := by
    constructor
    · simp
    · simp
    · simp
    · simp
    · simp
    · simpa using h

theorem integers_oneCode {entry : EnrollCode} (h : EntryOk entry.sni entry.maxConns) :
    (oneCode entry h).integers = entry.maxConns :: entry.expiresAt.toList := by
  simp [TenantSet.integers, oneCode]

section Stored

open FileStore.Disk (step setPc)

variable {job : Job} {next : TenantSet} {text : List UInt8}

@[simp] theorem setPc_pcs (d : Disk) (k : FileStore.Pc) : (d.setPc 0 k).pcs 0 = k := by
  simp [setPc]

@[simp] theorem setPc_tmp (d : Disk) (k : FileStore.Pc) : (d.setPc 0 k).tmp = d.tmp := rfl

/-- From a missing file to the serialised set. -/
theorem run_to_serialised (hpc : d.pcs 0 = .idle) (hlock : d.lock = none) (htarget : d.target = none)
    (hedit : job.edit TenantSet.empty = .ok next) (htext : next.toToml toml = .ok text) :
    ∃ d', (machine (fun _ => job) toml).run d [.lock 0, .load 0, .edit 0, .serialise 0] = some d'
      ∧ d'.pcs 0 = .serialised next text := by
  let d1 := (d.takeLock 0).setPc 0 .locked
  let d2 := d1.setPc 0 (.loaded TenantSet.empty)
  let d3 := d2.setPc 0 (.edited next)
  let d4 := d3.setPc 0 (.serialised next text)
  have h1 : step (fun _ => job) toml d (.lock 0) = some d1 := by simp only [step, hpc, hlock, d1]
  have h2 : step (fun _ => job) toml d1 (.load 0) = some d2 := by
    have htarget' : d1.target = none := htarget
    simp only [step, d1, setPc_pcs] at htarget' ⊢
    rw [htarget']
  have h3 : step (fun _ => job) toml d2 (.edit 0) = some d3 := by
    simp only [step, d2, setPc_pcs, hedit, d3]
  have h4 : step (fun _ => job) toml d3 (.serialise 0) = some d4 := by
    simp only [step, d3, setPc_pcs, htext, d4]
  refine ⟨d4, ?_, setPc_pcs _ _⟩
  simp only [Core.Machine.run_cons_iff]
  exact ⟨d1, h1, d2, h2, d3, h3, d4, h4, rfl⟩

/-- From the serialised set to the result. -/
theorem run_to_returned (hpc : d.pcs 0 = .serialised next text) :
    ∃ d', (machine (fun _ => job) toml).run d [.clear 0, .create 0, .write 0 text.length, .sync 0,
        .rename 0, .unlock 0] = some d' ∧ d'.pcs 0 = .returned (.ok next) := by
  have hall : (text.drop 0).take (text.length + 1) = text := List.take_of_length_le (Nat.le_succ _)
  let d1 := (d.setTmp job.proc none).setPc 0 (.cleared next text)
  let d2 := (d1.createTmp job.proc).setPc 0 (.writing next text d.nextInode 0)
  let d3 := (d2.appendTo d.nextInode text).setPc 0 (.writing next text d.nextInode (0 + text.length))
  let d4 := d3.setPc 0 (.synced next text)
  let d5 := (d4.moveTmp 0 job.proc d.nextInode).setPc 0 (.leaving (.ok next))
  let d6 := d5.dropLock.setPc 0 (.returned (.ok next))
  have htmp1 : d1.tmp job.proc = none := by simp [d1, FileStore.Disk.setTmp]
  have htmp4 : d4.tmp job.proc = some d.nextInode := by
    simp [d4, d3, d2, d1, FileStore.Disk.appendTo, FileStore.Disk.createTmp, setPc,
      FileStore.Disk.setTmp]
  have h1 : step (fun _ => job) toml d (.clear 0) = some d1 := by simp only [step, hpc, d1]
  have h2 : step (fun _ => job) toml d1 (.create 0) = some d2 := by
    simp only [step, d1, setPc_pcs] at htmp1 ⊢
    rw [htmp1]
    rfl
  have h3 : step (fun _ => job) toml d2 (.write 0 text.length) = some d3 := by
    simp only [step, d2, setPc_pcs, hall, d3]
  have h4 : step (fun _ => job) toml d3 (.sync 0) = some d4 := by
    simp only [step, d3, setPc_pcs, Nat.zero_add, if_true, d4]
  have h5 : step (fun _ => job) toml d4 (.rename 0) = some d5 := by
    simp only [step, d4, setPc_pcs] at htmp4 ⊢
    rw [htmp4]
  have h6 : step (fun _ => job) toml d5 (.unlock 0) = some d6 := by
    simp only [step, d5, setPc_pcs, d6]
  refine ⟨d6, ?_, setPc_pcs _ _⟩
  simp only [Core.Machine.run_cons_iff]
  exact ⟨d1, h1, d2, h2, d3, h3, d4, h4, d5, h5, d6, h6, rfl⟩

/-- On a missing file a call can store all that can be printed. -/
theorem exists_stored (job : Job) (hedit : job.edit TenantSet.empty = .ok next)
    (htext : next.toToml toml = .ok text) :
    ∃ es d', (∀ e ∈ es, e.Attempted 0)
      ∧ (machine (fun _ => job) toml).run FileStore.Disk.freshDisk es = some d'
      ∧ d'.pcs 0 = .returned (.ok next) := by
  obtain ⟨d1, hrun1, hpc1⟩ := run_to_serialised (d := FileStore.Disk.freshDisk) rfl rfl rfl hedit htext
  obtain ⟨d2, hrun2, hpc2⟩ := run_to_returned hpc1
  refine ⟨_, d2, ?_, (Core.Machine.run_append_iff _).2 ⟨d1, hrun1, hrun2⟩, hpc2⟩
  intro e he
  simp only [List.cons_append, List.nil_append, List.mem_cons, List.not_mem_nil, or_false] at he
  rcases he with rfl | rfl | rfl | rfl | rfl | rfl | rfl | rfl | rfl | rfl <;> exact Or.inl rfl

end Stored

/-- On a missing file an entry can be stored if its numbers are printed. -/
theorem exists_entry_stored {limit : Nat} (hprints : toml.PrintsUpTo limit) (entry : EnrollCode)
    (hok : EntryOk entry.sni entry.maxConns) (hconns : entry.maxConns ≤ limit)
    (hexpires : ∀ n ∈ entry.expiresAt, n ≤ limit) :
    ∃ es d' next, (∀ e ∈ es, e.Attempted 0)
      ∧ (machine (fun _ => issueJob 0 entry) toml).run FileStore.Disk.freshDisk es = some d'
      ∧ d'.pcs 0 = .returned (.ok next) := by
  have hedit : (issueJob 0 entry).edit TenantSet.empty = .ok (oneCode entry hok) := by
    rw [issueJob_edit, TenantSet.withCode_eq_ok_iff]
    exact ⟨by simp [TenantSet.empty], rfl, rfl⟩
  obtain ⟨text, htext⟩ : ∃ text, (oneCode entry hok).toToml toml = .ok text := by
    apply (hprints _).2
    rw [integers_oneCode]
    intro n hn
    rcases List.mem_cons.1 hn with rfl | hn
    · exact hconns
    · exact hexpires n (Option.mem_toList.1 hn)
  obtain ⟨es, d', hes, hrun, hreturned⟩ := exists_stored (issueJob 0 entry) hedit htext
  exact ⟨es, d', oneCode entry hok, hes, hrun, hreturned⟩

variable (derivePsk) in
/-- A sum that is printed is stored. -/
theorem exists_sample_run {limit : Nat} (hprints : toml.PrintsUpTo limit) (hlimit : 2 ^ 63 - 1 ≤ limit)
    {at' : UInt64} (hadd : build.add now secs = some at') (hat : at'.toNat ≤ limit) :
    ∃ d', IssueRun build derivePsk toml now (sampleIssue secs) FileStore.Disk.freshDisk d'
      (.printed ((sampleEntry derivePsk at').1 ++ "\n")) := by
  have hentry : issueEntry build derivePsk now (List.replicate 16 0) (sampleIssue secs)
      = some (.ok (sampleEntry derivePsk at')) := by
    rw [issueEntry_sample, hadd]
    rfl
  have hok : EntryOk "a" defaultMaxConns := by
    unfold EntryOk
    decide
  have hconns : defaultMaxConns ≤ limit := by
    unfold defaultMaxConns
    omega
  have hexpires : ∀ n ∈ some at'.toNat, n ≤ limit := by
    intro n hn
    obtain rfl := Option.some.inj hn
    exact hat
  obtain ⟨es, d', next, hes, hrun, hreturned⟩ :=
    exists_entry_stored hprints (sampleEntry derivePsk at').2 hok hconns hexpires
  exact ⟨d', .stored List.length_replicate hentry rfl hes hrun hreturned⟩

theorem freshDisk_allocated : FileStore.Disk.freshDisk.Allocated := by
  simp [FileStore.Disk.Allocated, FileStore.Disk.freshDisk]

/-- **A code with an expiry that has wrapped is not honoured for its lifetime.** -/
theorem not_issuesExactly_of_wrapped (htoml : toml.RoundTrips) {limit : Nat}
    (hprints : toml.PrintsUpTo limit) (hlimit : 2 ^ 63 - 1 ≤ limit) {at' : UInt64}
    (hadd : build.add now secs = some at') (hat : at'.toNat ≤ limit)
    (hwrapped : at'.toNat < now.toNat + secs.toNat) :
    ¬IssuesExactly build derivePsk toml now secs := by
  intro h
  obtain ⟨d', hrun⟩ := exists_sample_run derivePsk hprints hlimit hadd hat
  obtain ⟨code, T, hout, hload, hhonoured⟩ := h _ _ _ _ rfl freshDisk_allocated hrun
  generalize hprinted : Outcome.printed _ = out at hrun
  cases hrun with
  | panicked | refused | lost => cases hprinted
  | @stored _ code' entry _ _ _ _ next hrandom hentry hidle hes hrun hreturned =>
      -- the printed code and the stored one are the same
      have hcode : code' = code := by
        have htext := (Outcome.printed.inj hprinted).symm.trans hout
        exact String.append_left_inj _ |>.1 htext
      obtain ⟨sum, hsum, hpsk, hexp⟩ := issueEntry_ok rfl hentry
      obtain ⟨hload', hmem, -, -⟩ :=
        stored_cases htoml freshDisk_allocated hidle hes hrun hreturned
      rw [hadd] at hsum
      obtain rfl := Option.some.inj hsum
      rw [hload] at hload'
      obtain rfl := Except.ok.inj hload'
      rw [← hcode, ← hpsk] at hhonoured
      have hle := deadline_le_of_honoured hmem hexp hhonoured
      omega

/-- **When `--expires-in` is honoured**: the sum does not overflow, or it wraps, in a build without
overflow checks, to a number that the crate refuses to print. -/
theorem issues_exactly_iff (build : Build) (derivePsk : String → Psk) (toml : Toml)
    (htoml : toml.RoundTrips) (limit : Nat) (hprints : toml.PrintsUpTo limit)
    (hlimit : 2 ^ 63 - 1 ≤ limit) (now secs : UInt64) :
    IssuesExactly build derivePsk toml now secs ↔
      now.toNat + secs.toNat < 2 ^ 64
        ∨ (build = .release ∧ limit + 2 ^ 64 < now.toNat + secs.toNat) := by
  constructor
  · intro h
    by_contra hnot
    obtain ⟨hover, hsmall⟩ := not_or.1 hnot
    have hle : 2 ^ 64 ≤ now.toNat + secs.toNat := Nat.le_of_not_lt hover
    cases build with
    | debug =>
        have hentry : issueEntry .debug derivePsk now (List.replicate 16 0) (sampleIssue secs)
            = none := by
          rw [issueEntry_sample, Build.add_of_le hle]
          rfl
        exact h _ _ _ _ rfl freshDisk_allocated (.panicked (by simp) hentry)
    | release =>
        have hsum := Core.toNat_add_of_le hle
        refine not_issuesExactly_of_wrapped htoml hprints hlimit (Build.add_of_le hle) ?_ ?_ h
        · have := mt (And.intro rfl) hsmall
          omega
        · omega
  · rintro (hlt | ⟨rfl, hrefused⟩)
    · exact issuesExactly_of_lt htoml hlt
    · have hle : 2 ^ 64 ≤ now.toNat + secs.toNat := by omega
      have hsum := Core.toNat_add_of_le hle
      exact issuesExactly_of_refused htoml hprints (Build.add_of_le hle) (by omega)

/-! ## A crate that prints every set -/

instance encodableChar : Encodable Char :=
  Encodable.ofLeftInverse Char.toNat Char.ofNat Char.ofNat_toNat

instance encodableString : Encodable String :=
  Encodable.ofLeftInverse String.toList String.ofList fun _ => String.ofList_toList

instance encodableScalar : Encodable Scalar :=
  Encodable.ofLeftInverse
    (fun
      | .string s => (Sum.inl s : String ⊕ Int ⊕ Bool)
      | .integer n => .inr (.inl n)
      | .boolean b => .inr (.inr b))
    (fun
      | .inl s => .string s
      | .inr (.inl n) => .integer n
      | .inr (.inr b) => .boolean b)
    (fun v => by cases v <;> rfl)

def Scalar.fits (limit : Nat) : Scalar → Bool
  | .integer n => n ≤ limit
  | .string _ | .boolean _ => true

def Document.fits (limit : Nat) (doc : Document) : Bool :=
  doc.all fun table => table.2.all fun record => record.all fun field => field.2.fits limit

theorem fits_tenantRecord (limit : Nat) (t : Tenant) :
    ((tenantRecord t).all fun field => field.2.fits limit) = decide (t.maxConns ≤ limit) := by
  simp [tenantRecord, Scalar.fits]

theorem fits_codeRecord (limit : Nat) (c : EnrollCode) :
    ((codeRecord c).all fun field => field.2.fits limit)
      = decide (∀ n ∈ c.maxConns :: c.expiresAt.toList, n ≤ limit) := by
  cases hexpires : c.expiresAt with
  | none => simp [codeRecord, Scalar.fits, hexpires]
  | some at' => simp [codeRecord, Scalar.fits, hexpires]

theorem fits_toDocument (limit : Nat) (S : TenantSet) :
    Document.fits limit S.toDocument = true ↔ ∀ n ∈ S.integers, n ≤ limit := by
  simp only [Document.fits, TenantSet.toDocument, TenantSet.integers, List.all_cons, List.all_nil,
    List.all_map, Function.comp_def, fits_tenantRecord, fits_codeRecord, Bool.and_true,
    Bool.and_eq_true, List.all_eq_true, decide_eq_true_eq, List.forall_mem_append,
    List.forall_mem_map, List.forall_mem_flatMap]

/-- SHA-256 of the code whose random bytes are zero. -/
def samplePsk : Psk :=
  ⟨[132, 224, 192, 234, 250, 169, 90, 52, 194, 147, 242, 120, 172, 82, 228, 92, 229, 55, 186, 181, 231,
    82, 160, 14, 105, 89, 161, 58, 225, 3, 182, 90], rfl⟩

def sampleDerive (token : String) : Psk :=
  if token = "00000000000000000000000000000000" then samplePsk else Psk.repeated 0

/-- What is stored for that code with the expiry `at'`. -/
def sampleDocument (at' : UInt64) : Document :=
  [("tenant", []), ("code", [codeRecord (sampleEntry sampleDerive at').2])]

def sampleText (at' : UInt64) : List UInt8 :=
  ("tenant = []\n\n[[code]]\npsk = \""
    ++ "84e0c0eafaa95a34c293f278ac52e45ce537bab5e752a00e6959a13ae103b65a"
    ++ "\"\nsni = \"a\"\nmax_conns = 64\nexpires_at = " ++ toString at' ++ "\n").toList.map
      fun c => UInt8.ofNat c.toNat

/-- The crate on that file; every other document is printed as its number in unary. -/
def sampleToml (at' : UInt64) : Toml where
  print doc :=
    if doc.fits (2 ^ 63 - 1) then
      some (if doc = sampleDocument at' then sampleText at' else List.replicate (Encodable.encode doc) 0)
    else none
  parse bytes :=
    if bytes = sampleText at' then some (sampleDocument at') else Encodable.decode bytes.length

theorem sampleToml_roundTrips (at' : UInt64) : (sampleToml at').RoundTrips := by
  intro doc bytes h
  simp only [sampleToml, Option.ite_none_right_eq_some, Option.some.injEq] at h ⊢
  obtain ⟨-, rfl⟩ := h
  by_cases hdoc : doc = sampleDocument at'
  · rw [if_pos hdoc, if_pos rfl, hdoc]
  · -- the text does not begin with a zero
    have hne : List.replicate (Encodable.encode doc) 0 ≠ sampleText at' := by
      intro heq
      have hmem : UInt8.ofNat 't'.toNat ∈ sampleText at' := by
        simp [sampleText]
      rw [← heq] at hmem
      exact absurd (List.eq_of_mem_replicate hmem) (by decide)
    rw [if_neg hdoc, if_neg hne, List.length_replicate, Encodable.encodek]

theorem sampleToml_printsUpTo (at' : UInt64) : (sampleToml at').PrintsUpTo (2 ^ 63 - 1) := by
  intro S
  rw [← fits_toDocument]
  unfold TenantSet.toToml
  cases hfits : Document.fits (2 ^ 63 - 1) S.toDocument with
  | true =>
      have hprint : (sampleToml at').print S.toDocument = some _ := if_pos hfits
      rw [hprint]
      exact iff_of_true ⟨_, rfl⟩ rfl
  | false =>
      have hprint : (sampleToml at').print S.toDocument = none :=
        if_neg (ne_true_of_eq_false hfits)
      rw [hprint]
      simp

theorem issues_exactly_for_a_minute :
    IssuesExactly .release sampleDerive (sampleToml 1700000060) 1700000000 60 :=
  (issues_exactly_iff .release sampleDerive (sampleToml 1700000060) (sampleToml_roundTrips _)
    (2 ^ 63 - 1) (sampleToml_printsUpTo _) (Nat.le_refl _) 1700000000 60).2 (Or.inl (by decide))

/-- With the greatest lifetime the code is stored as expired a second ago, and printed as if it
worked. -/
theorem expired_code_issued :
    ¬∀ now secs, IssuesExactly .release sampleDerive (sampleToml 1699999999) now secs := by
  intro h
  have hadd : Build.release.add 1700000000 18446744073709551615 = some 1699999999 := by decide
  exact not_issuesExactly_of_wrapped (sampleToml_roundTrips _) (sampleToml_printsUpTo _)
    (Nat.le_refl _) hadd (by decide) (by decide) (h 1700000000 18446744073709551615)

end Tenancy
end Erbridge
