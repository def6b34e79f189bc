import Erbridge.Core.Machine
import Erbridge.Tenancy.FileStore
import Erbridge.Tenancy.Store

/-!
# The file store refines the memory store

Used by one process at a time, with a file system that does not fail, a `FileStore` cannot be told
from a `MemoryStore`.

* `FileStore.replaceWith` — what `replace_with` does to the file as a whole, from the lock to the
  rename; `Disk.undisturbed_call` says that this is what a call does on the disk when nothing fails
  and no other call comes in between.
* `MemoryStore.respond`, `FileStore.respond` — the two stores, request by request.
* `Represents` — the file that stands for a set; `respond_refines` is the simulation step.
* `file_store_refines` — the two stores answer alike along every list of requests.
-/

namespace Erbridge
namespace Tenancy

open Erbridge.Core (Machine)

/-- A request to a `TenantStore`. -/
inductive Request
  | call (c : Call)
  | snapshot
deriving DecidableEq

/-- What a store answers. -/
inductive Reply (ε : Type)
  | done (result : Except ε (Option Tenant))
  | contents (result : Except ε TenantSet)

/-- The answer with its error in another form. -/
def Reply.mapError {ε δ : Type} (f : ε → δ) : Reply ε → Reply δ
  | .done result => .done (result.mapError f)
  | .contents result => .contents (result.mapError f)

/-- The edit of a `replace_with` that returns the new contents. -/
def Job.closure (job : Job) (S : TenantSet) : Except SetError (TenantSet × TenantSet) :=
  (job.edit S).map fun next => (next, next)

namespace MemoryStore

/-- The contents after the request, and the answer. -/
def respond (S : TenantSet) : Request → TenantSet × Reply SetError
  | .call c => ((exec S c).1, .done (exec S c).2)
  | .snapshot => (S, .contents (.ok S))

end MemoryStore

namespace FileStore

/-- `TenantSet::load`: a missing file is an empty set. -/
def load (toml : Toml) : Option (List UInt8) → Except StoreError TenantSet
  | none => .ok TenantSet.empty
  | some bytes => (TenantSet.fromToml toml bytes).mapError .file

/-- `FileStore::replace_with` where no operation on files fails: the file afterwards, and what the edit
gives besides the new contents. -/
def replaceWith {α : Type} (toml : Toml) (file : Option (List UInt8))
    (edit : TenantSet → Except SetError (TenantSet × α)) :
    Option (List UInt8) × Except StoreError α :=
  match load toml file with
  | .error e => (file, .error e)
  | .ok current =>
      match edit current with
      | .error e => (file, .error (.edit e))
      | .ok (next, out) =>
          match next.toToml toml with
          | .error e => (file, .error (.file e))
          | .ok text => (some text, .ok out)

/-- The file after the request, and the answer. -/
def respond (toml : Toml) (file : Option (List UInt8)) :
    Request → Option (List UInt8) × Reply StoreError
  | .call c =>
      let made := replaceWith toml file c.edit
      (made.1, .done made.2)
  | .snapshot => (file, .contents (load toml file))

/-- What the calls of a `replace_with` come to when the file stands for `current`. -/
theorem replaceWith_of_load {α : Type} {toml : Toml} {file : Option (List UInt8)}
    {current next : TenantSet} {text : List UInt8} {out : α}
    {edit : TenantSet → Except SetError (TenantSet × α)} (hload : load toml file = .ok current)
    (hedit : edit current = .ok (next, out)) (htext : next.toToml toml = .ok text) :
    replaceWith toml file edit = (some text, .ok out) := by
  simp only [replaceWith, hload, hedit, htext]

/-- A `replace_with` that returns `Ok` has stored what it made, and any other has left the file. -/
theorem replaceWith_cases {α : Type} {toml : Toml} {file file' : Option (List UInt8)}
    {edit : TenantSet → Except SetError (TenantSet × α)} {result : Except StoreError α}
    (h : replaceWith toml file edit = (file', result)) :
    (∃ e, result = .error e ∧ file' = file)
      ∨ ∃ current next text out, load toml file = .ok current ∧ edit current = .ok (next, out)
        ∧ next.toToml toml = .ok text ∧ file' = some text ∧ result = .ok out := by
  unfold replaceWith at h
  split at h
  · cases h
    exact Or.inl ⟨_, rfl, rfl⟩
  · rename_i current hload
    split at h
    · cases h
      exact Or.inl ⟨_, rfl, rfl⟩
    · rename_i next out hedit
      split at h
      · cases h
        exact Or.inl ⟨_, rfl, rfl⟩
      · rename_i text htext
        cases h
        exact Or.inr ⟨current, next, text, out, hload, hedit, htext, rfl, rfl⟩

/-! ## The refinement -/

/-- The file stands for the set: a missing one for the empty set, any other for the set that it is the
serialisation of. -/
def Represents (toml : Toml) (file : Option (List UInt8)) (S : TenantSet) : Prop :=
  (file = none ∧ S = TenantSet.empty) ∨ ∃ bytes, file = some bytes ∧ S.toToml toml = .ok bytes

theorem Represents.load_eq {toml : Toml} (htoml : toml.RoundTrips) {file : Option (List UInt8)}
    {S : TenantSet} (h : Represents toml file S) : load toml file = .ok S := by
  rcases h with ⟨rfl, rfl⟩ | ⟨bytes, rfl, hbytes⟩
  · rfl
  · show (TenantSet.fromToml toml bytes).mapError _ = _
    rw [TenantSet.fromToml_toToml htoml hbytes]
    rfl

/-- The set that a successful call makes can be serialised. -/
def prints (toml : Toml) (S : TenantSet) : Request → Bool
  | .call c =>
      match exec S c with
      | (T, .ok _) => (T.toToml toml).toOption.isSome
      | (_, .error _) => true
  | .snapshot => true

theorem isSome_toOption_iff {ε α : Type} {x : Except ε α} :
    x.toOption.isSome = true ↔ ∃ a, x = .ok a := by
  cases x <;> simp [Except.toOption]

/-- One request to both stores. -/
theorem respond_refines {toml : Toml} (htoml : toml.RoundTrips) {file : Option (List UInt8)}
    {S : TenantSet} {r : Request} (hrep : Represents toml file S) (hprints : prints toml S r = true) :
    Represents toml (respond toml file r).1 (MemoryStore.respond S r).1
      ∧ (respond toml file r).2 = (MemoryStore.respond S r).2.mapError .edit := by
  have hload := hrep.load_eq htoml
  cases r with
  | snapshot => exact ⟨hrep, congrArg Reply.contents hload⟩
  | call c =>
      show Represents toml (replaceWith toml file c.edit).1 (exec S c).1
        ∧ Reply.done (replaceWith toml file c.edit).2 = Reply.done ((exec S c).2.mapError .edit)
      cases hedit : c.edit S with
      | error e =>
          -- the edit fails: neither store is written
          have hexec : exec S c = (S, .error e) := by simp only [exec, Tenancy.replaceWith, hedit]
          have hfile : replaceWith toml file c.edit = (file, .error (.edit e)) := by
            simp only [replaceWith, hload, hedit]
          rw [hexec, hfile]
          exact ⟨hrep, rfl⟩
      | ok made =>
          obtain ⟨T, out⟩ := made
          have hexec : exec S c = (T, .ok out) := by simp only [exec, Tenancy.replaceWith, hedit]
          have hsome : (T.toToml toml).toOption.isSome = true := by
            simpa only [prints, hexec] using hprints
          obtain ⟨bytes, hbytes⟩ := isSome_toOption_iff.1 hsome
          rw [hexec, replaceWith_of_load hload hedit hbytes]
          exact ⟨Or.inr ⟨bytes, rfl, hbytes⟩, rfl⟩

/-- **The file store refines the memory store.**  From a missing file and the empty set, as long as the
sets that the calls make can be serialised, the two give the same answers, and after each request a
snapshot of the file is the set in memory.  Every set that can be serialised is read back. -/
theorem file_store_refines (toml : Toml) (htoml : toml.RoundTrips) :
    (∀ requests,
        (Machine.ofRespond MemoryStore.respond).Meets (fun S r => prints toml S r = true)
          TenantSet.empty requests →
        List.Forall₂
          (fun f m => load toml f.1 = .ok m.1 ∧ f.2 = Reply.mapError .edit m.2)
          (Machine.trace (respond toml) none requests)
          (Machine.trace MemoryStore.respond TenantSet.empty requests))
      ∧ ∀ S bytes, TenantSet.toToml toml S = .ok bytes → TenantSet.fromToml toml bytes = .ok S := by
  refine ⟨fun requests hprints => ?_, fun S bytes => TenantSet.fromToml_toToml htoml⟩
  have hsim := Machine.trace_simulates (Represents toml) (fun a b => a = Reply.mapError StoreError.edit b)
    (fun S r => prints toml S r = true) (respond_refines htoml) (Or.inl ⟨rfl, rfl⟩ : Represents toml none _) hprints
  exact hsim.imp fun f m h => ⟨h.1.load_eq htoml, h.2⟩

/-- The tenant of `oneTenant` is added twice, and a code is issued for its host. -/
def sampleRequests : List Request :=
  [.snapshot, .call (.addTenant ⟨"a", Noise.Psk.repeated 0xab, "a.example.com", 4, false⟩), .snapshot,
    .call (.addTenant ⟨"a", Noise.Psk.repeated 0xab, "a.example.com", 4, false⟩),
    .call (.issueCode ⟨Noise.Psk.repeated 0xcd, "A.example.com", 4, none⟩), .snapshot]

theorem file_store_refines_sample :
    List.Forall₂
      (fun f m => load Disk.oneToml f.1 = .ok m.1 ∧ f.2 = Reply.mapError .edit m.2)
      (Machine.trace (respond Disk.oneToml) none sampleRequests)
      (Machine.trace MemoryStore.respond TenantSet.empty sampleRequests) := by
  refine (file_store_refines Disk.oneToml Disk.oneToml_roundTrips).1 sampleRequests ?_
  decide +kernel

/-! ## What an undisturbed call does on the disk -/

namespace Disk

variable {jobs : Nat → Job} {toml : Toml} {d d' : Disk} {c : Nat}

/-- The contents of the file. -/
def file (d : Disk) : Option (List UInt8) := d.target.map d.content

/-- A step of the call that does not fail, or a step of a reader. -/
def Event.Undisturbed (c : Nat) : Event → Prop
  | .lock c' | .load c' | .read c' _ | .parse c' | .edit c' | .serialise c' | .clear c' | .create c'
  | .write c' _ | .sync c' | .rename c' | .cleanup c' _ | .unlock c' => c' = c
  | .fail _ | .die _ => False
  | .openSnapshot _ | .readSnapshot _ _ | .finishSnapshot _ | .failSnapshot _ => True

/-- The call has made `next` from what the file held. -/
def MadeOf (jobs : Nat → Job) (toml : Toml) (before : Option (List UInt8)) (c : Nat)
    (next : TenantSet) : Prop :=
  ∃ current, FileStore.load toml before = .ok current ∧ (jobs c).edit current = .ok next

/-- What is known of a call that runs alone from a file `before`, in each of its states. -/
def Alone (jobs : Nat → Job) (toml : Toml) (before : Option (List UInt8)) (d : Disk) (c : Nat) :
    Pc → Prop
  | .idle | .locked => d.file = before
  | .loading i got => d.file = before ∧ d.target = some i ∧ got <+: d.content i
  | .loaded current => d.file = before ∧ FileStore.load toml before = .ok current
  | .edited next => d.file = before ∧ MadeOf jobs toml before c next
  | .serialised next text => d.file = before ∧ MadeOf jobs toml before c next
      ∧ next.toToml toml = .ok text
  | .cleared next text => d.file = before ∧ MadeOf jobs toml before c next
      ∧ next.toToml toml = .ok text ∧ d.tmp (jobs c).proc = none
  | .writing next text i k => d.file = before ∧ MadeOf jobs toml before c next
      ∧ next.toToml toml = .ok text ∧ d.tmp (jobs c).proc = some i ∧ d.target ≠ some i
      ∧ d.content i = text.take k
  | .synced next text => d.file = before ∧ MadeOf jobs toml before c next
      ∧ next.toToml toml = .ok text ∧ ∃ i, d.tmp (jobs c).proc = some i ∧ d.content i = text
  | .leaving result | .returned result =>
      FileStore.replaceWith toml before (jobs c).closure = (d.file, result)
  | .failed _ | .dead => False

/-- Every name is that of an inode that exists. -/
def Allocated (d : Disk) : Prop :=
  (∀ i, d.target = some i → i < d.nextInode) ∧ ∀ proc i, d.tmp proc = some i → i < d.nextInode

/-- The invariant of an undisturbed call. -/
structure AloneInv (jobs : Nat → Job) (toml : Toml) (before : Option (List UInt8)) (c : Nat)
    (d : Disk) : Prop where
  allocated : d.Allocated
  call : Alone jobs toml before d c (d.pcs c)

variable {before : Option (List UInt8)}

/-- What is known of the call reads the names and the contents of the files only. -/
theorem Alone.of_files {k : Pc} (hk : Alone jobs toml before d c k) (htarget : d'.target = d.target)
    (htmp : d'.tmp = d.tmp) (hcontent : d'.content = d.content) :
    Alone jobs toml before d' c k := by
  have hfile : d'.file = d.file := by rw [file, file, htarget, hcontent]
  cases k with
  | failed e => exact hk
  | dead => exact hk
  | _ => simpa only [Alone, hfile, htarget, htmp, hcontent] using hk

theorem AloneInv.setPc (hi : AloneInv jobs toml before c d) {k : Pc}
    (hk : Alone jobs toml before d c k) : AloneInv jobs toml before c (d.setPc c k) where
  allocated := hi.allocated
  call := by
    show Alone jobs toml before (d.setPc c k) c (Function.update d.pcs c k c)
    rw [Function.update_self]
    exact hk.of_files rfl rfl rfl

theorem AloneInv.of_call (hi : AloneInv jobs toml before c d) {k : Pc} (hpc : d.pcs c = k) :
    Alone jobs toml before d c k := hpc ▸ hi.call

/-- A file that is not the call's own is what it was when the call writes. -/
theorem file_update {i : Nat} (hne : d.target ≠ some i) (bytes : List UInt8) :
    d.target.map (Function.update d.content i bytes) = d.file := by
  unfold file
  cases htarget : d.target with
  | none => rfl
  | some j =>
      have hij : j ≠ i := fun h => hne (h ▸ htarget)
      simp [hij]

theorem alone_load (hi : AloneInv jobs toml before c d)
    (hstep : d.step jobs toml (.load c) = some d') : AloneInv jobs toml before c d' := by
  simp only [step] at hstep
  split at hstep
  · rename_i hpc
    have hfile : d.file = before := hi.of_call hpc
    split at hstep
    · rename_i i htarget
      cases hstep
      exact hi.setPc ⟨hfile, htarget, List.nil_prefix⟩
    · rename_i habsent
      cases hstep
      refine hi.setPc ⟨hfile, ?_⟩
      rw [← hfile, file, habsent]
      rfl
  · cases hstep

theorem alone_parse (hi : AloneInv jobs toml before c d)
    (hstep : d.step jobs toml (.parse c) = some d') : AloneInv jobs toml before c d' := by
  simp only [step] at hstep
  split at hstep
  · rename_i i got hpc
    obtain ⟨hfile, htarget, hgot⟩ := hi.of_call hpc
    split at hstep
    · rename_i hend
      obtain rfl := eq_content_of_end hgot hend
      have hbefore : before = some (d.content i) := by
        rw [← hfile, file, htarget]
        rfl
      split at hstep
      · rename_i current hparse
        cases hstep
        refine hi.setPc ⟨hfile, ?_⟩
        rw [hbefore, FileStore.load, hparse]
        rfl
      · rename_i e hparse
        cases hstep
        refine hi.setPc ?_
        show FileStore.replaceWith toml before (jobs c).closure = (d.file, _)
        have hload : FileStore.load toml before = .error (.file e) := by
          rw [hbefore, FileStore.load, hparse]
          rfl
        simp only [FileStore.replaceWith, hload, hfile]
    · cases hstep
  · cases hstep

theorem alone_edit (hi : AloneInv jobs toml before c d)
    (hstep : d.step jobs toml (.edit c) = some d') : AloneInv jobs toml before c d' := by
  simp only [step] at hstep
  split at hstep
  · rename_i current hpc
    obtain ⟨hfile, hload⟩ := hi.of_call hpc
    split at hstep
    · rename_i next hedit
      cases hstep
      exact hi.setPc ⟨hfile, current, hload, hedit⟩
    · rename_i e hedit
      cases hstep
      refine hi.setPc ?_
      show FileStore.replaceWith toml before (jobs c).closure = (d.file, _)
      simp only [FileStore.replaceWith, hload, Job.closure, hedit, Except.map, hfile]
  · cases hstep

theorem alone_serialise (hi : AloneInv jobs toml before c d)
    (hstep : d.step jobs toml (.serialise c) = some d') : AloneInv jobs toml before c d' := by
  simp only [step] at hstep
  split at hstep
  · rename_i next hpc
    obtain ⟨hfile, hmade⟩ := hi.of_call hpc
    split at hstep
    · rename_i text htext
      cases hstep
      exact hi.setPc ⟨hfile, hmade, htext⟩
    · rename_i e htext
      cases hstep
      obtain ⟨current, hload, hedit⟩ := hmade
      refine hi.setPc ?_
      show FileStore.replaceWith toml before (jobs c).closure = (d.file, _)
      simp only [FileStore.replaceWith, hload, Job.closure, hedit, Except.map, htext, hfile]
  · cases hstep

/-- The new temporary file is not the store's file. -/
theorem alone_create (hi : AloneInv jobs toml before c d)
    (hstep : d.step jobs toml (.create c) = some d') : AloneInv jobs toml before c d' := by
  simp only [step] at hstep
  split at hstep
  · rename_i next text hpc
    obtain ⟨hfile, hmade, htext, htmp⟩ := hi.of_call hpc
    rw [htmp] at hstep
    cases hstep
    have hfresh : d.target ≠ some d.nextInode := fun h =>
      absurd (hi.allocated.1 _ h) (Nat.lt_irrefl _)
    refine ⟨⟨fun i htarget => Nat.lt_succ_of_lt (hi.allocated.1 i htarget), ?_⟩, ?_⟩
    · intro proc i hi'
      rcases eq_or_ne proc (jobs c).proc with rfl | hne
      · have hnew : some d.nextInode = some i := by simpa [setPc, createTmp] using hi'
        obtain rfl := Option.some.inj hnew
        exact Nat.lt_succ_self _
      · have hold : d.tmp proc = some i := by simpa [setPc, createTmp, hne] using hi'
        exact Nat.lt_succ_of_lt (hi.allocated.2 proc i hold)
    · simp only [setPc, Function.update_self]
      exact ⟨(file_update hfresh []).trans hfile, hmade, htext, Function.update_self _ _ _, hfresh,
        Function.update_self _ _ _⟩
  · cases hstep

theorem alone_write (hi : AloneInv jobs toml before c d) {n : Nat}
    (hstep : d.step jobs toml (.write c n) = some d') : AloneInv jobs toml before c d' := by
  simp only [step] at hstep
  split at hstep
  · rename_i next text i k hpc
    obtain ⟨hfile, hmade, htext, htmp, hne, hcontent⟩ := hi.of_call hpc
    cases hstep
    refine ⟨hi.allocated, ?_⟩
    simp only [setPc, Function.update_self]
    refine ⟨(file_update hne _).trans hfile, hmade, htext, htmp, hne, ?_⟩
    show Function.update d.content i (d.content i ++ _) i = _
    rw [Function.update_self, hcontent, take_add_length_drop]
  · cases hstep

theorem Allocated.setTmp_none (h : d.Allocated) (proc : Nat) : (d.setTmp proc none).Allocated := by
  refine ⟨h.1, fun q i hq => ?_⟩
  rcases eq_or_ne q proc with rfl | hne
  · simp [setTmp] at hq
  · exact h.2 q i (by simpa [setTmp, hne] using hq)

theorem alone_rename (hi : AloneInv jobs toml before c d)
    (hstep : d.step jobs toml (.rename c) = some d') : AloneInv jobs toml before c d' := by
  simp only [step] at hstep
  split at hstep
  · rename_i next text hpc
    obtain ⟨hfile, ⟨current, hload, hedit⟩, htext, i, htmp, hcontent⟩ := hi.of_call hpc
    rw [htmp] at hstep
    cases hstep
    refine ⟨⟨fun j htarget => ?_, (hi.allocated.setTmp_none (jobs c).proc).2⟩, ?_⟩
    · obtain rfl : i = j := Option.some.inj htarget
      exact hi.allocated.2 _ i htmp
    · simp only [setPc, Function.update_self]
      show FileStore.replaceWith toml before (jobs c).closure = (some (d.content i), .ok next)
      rw [hcontent]
      refine FileStore.replaceWith_of_load hload ?_ htext
      simp only [Job.closure, hedit, Except.map]
  · cases hstep

/-- A step of a reader changes neither the files nor the calls. -/
theorem reader_step {e : Event} {r : Nat}
    (he : e = .openSnapshot r ∨ (∃ n, e = .readSnapshot r n) ∨ e = .finishSnapshot r
      ∨ e = .failSnapshot r) (hstep : d.step jobs toml e = some d') :
    ∃ k, d' = d.setReader r k := by
  rcases he with rfl | ⟨n, rfl⟩ | rfl | rfl <;> simp only [step] at hstep <;>
    (repeat' split at hstep) <;> cases hstep <;> exact ⟨_, rfl⟩

theorem alone_reader (hi : AloneInv jobs toml before c d) {e : Event} {r : Nat}
    (he : e = .openSnapshot r ∨ (∃ n, e = .readSnapshot r n) ∨ e = .finishSnapshot r
      ∨ e = .failSnapshot r) (hstep : d.step jobs toml e = some d') :
    AloneInv jobs toml before c d' := by
  obtain ⟨k, rfl⟩ := reader_step he hstep
  exact ⟨hi.allocated, Alone.of_files (d := d) hi.call rfl rfl rfl⟩

theorem alone_step {e : Event} (hi : AloneInv jobs toml before c d) (he : e.Undisturbed c)
    (hstep : d.step jobs toml e = some d') : AloneInv jobs toml before c d' := by
  cases e with
  | lock k =>
      obtain rfl : k = c := he
      simp only [step] at hstep
      split at hstep
      · rename_i hpc _
        cases hstep
        refine ⟨hi.allocated, ?_⟩
        simp only [setPc, Function.update_self]
        exact hi.of_call hpc
      · cases hstep
  | load k => obtain rfl : k = c := he; exact alone_load hi hstep
  | read k n =>
      obtain rfl : k = c := he
      simp only [step] at hstep
      split at hstep
      · rename_i i got hpc
        obtain ⟨hfile, htarget, hgot⟩ := hi.of_call hpc
        cases hstep
        exact hi.setPc ⟨hfile, htarget, readMore_prefix hgot⟩
      · cases hstep
  | parse k => obtain rfl : k = c := he; exact alone_parse hi hstep
  | edit k => obtain rfl : k = c := he; exact alone_edit hi hstep
  | serialise k => obtain rfl : k = c := he; exact alone_serialise hi hstep
  | clear k =>
      obtain rfl : k = c := he
      simp only [step] at hstep
      split at hstep
      · rename_i next text hpc
        obtain ⟨hfile, hmade, htext⟩ := hi.of_call hpc
        cases hstep
        refine ⟨hi.allocated.setTmp_none _, ?_⟩
        simp only [setPc, Function.update_self]
        exact ⟨hfile, hmade, htext, Function.update_self _ _ _⟩
      · cases hstep
  | create k => obtain rfl : k = c := he; exact alone_create hi hstep
  | write k n => obtain rfl : k = c := he; exact alone_write hi hstep
  | sync k =>
      obtain rfl : k = c := he
      simp only [step] at hstep
      split at hstep
      · rename_i next text i n hpc
        obtain ⟨hfile, hmade, htext, htmp, -, hcontent⟩ := hi.of_call hpc
        split at hstep
        · rename_i hall
          cases hstep
          exact hi.setPc ⟨hfile, hmade, htext, i, htmp, by rw [hcontent, hall, List.take_length]⟩
        · cases hstep
      · cases hstep
  | rename k => obtain rfl : k = c := he; exact alone_rename hi hstep
  | cleanup k removed =>
      obtain rfl : k = c := he
      simp only [step] at hstep
      split at hstep
      · rename_i e hpc
        exact (hi.of_call hpc).elim
      · cases hstep
  | unlock k =>
      obtain rfl : k = c := he
      simp only [step] at hstep
      split at hstep
      · rename_i result hpc
        have hresult : FileStore.replaceWith toml before (jobs k).closure = (d.file, result) :=
          hi.of_call hpc
        cases hstep
        refine ⟨hi.allocated, ?_⟩
        simp only [setPc, Function.update_self]
        exact hresult
      · cases hstep
  | fail | die => exact he.elim
  | openSnapshot r => exact alone_reader hi (Or.inl rfl) hstep
  | readSnapshot r n => exact alone_reader hi (Or.inr (Or.inl ⟨n, rfl⟩)) hstep
  | finishSnapshot r => exact alone_reader hi (Or.inr (Or.inr (Or.inl rfl))) hstep
  | failSnapshot r => exact alone_reader hi (Or.inr (Or.inr (Or.inr rfl))) hstep

/-- **An undisturbed call does to the file what `replaceWith` says**, however its reads and writes are
cut into pieces and whoever reads the file meanwhile. -/
theorem undisturbed_call {es : List Event} {result : Except StoreError TenantSet}
    (hallocated : d.Allocated) (hidle : d.pcs c = .idle) (hes : ∀ e ∈ es, e.Undisturbed c)
    (hrun : (machine jobs toml).run d es = some d') (hreturned : d'.pcs c = .returned result) :
    FileStore.replaceWith toml d.file (jobs c).closure = (d'.file, result) := by
  have hstart : AloneInv jobs toml d.file c d := ⟨hallocated, by rw [hidle]; rfl⟩
  have hend := (machine jobs toml).run_invariant_of_meets (AloneInv jobs toml d.file c)
    (fun hi he hstep => alone_step hi he hstep) hstart
    ((machine jobs toml).meets_of_forall_mem fun e he _ => hes e he) hrun
  exact hend.of_call hreturned

/-! ## A call that may fail -/

/-- A step of the call, which may be a failure, or a step of a reader. -/
def Event.Attempted (c : Nat) (e : Event) : Prop := e.Undisturbed c ∨ e = .fail c

/-- The call is to return an error, or has. -/
def GaveUp (d : Disk) (c : Nat) : Prop :=
  ∃ e, d.pcs c = .failed e ∨ d.pcs c = .leaving (.error e) ∨ d.pcs c = .returned (.error e)

theorem gaveUp_setPc {e : StoreError} {k : Pc}
    (hk : k = .failed e ∨ k = .leaving (.error e) ∨ k = .returned (.error e)) :
    (d.setPc c k).GaveUp c := by
  refine ⟨e, ?_⟩
  simpa only [setPc, Function.update_self] using hk

/-- A call that fails has not touched the file. -/
theorem alone_fail (hi : AloneInv jobs toml before c d)
    (hstep : d.step jobs toml (.fail c) = some d') : d'.file = before ∧ d'.GaveUp c := by
  have hcall := hi.call
  simp only [step] at hstep
  cases hpc : d.pcs c with
  | idle | locked | loading | serialised | cleared | writing | synced =>
      rw [hpc] at hstep hcall
      cases hstep
      constructor
      · first
          | exact hcall
          | exact hcall.1
      · first
          | exact gaveUp_setPc (Or.inl rfl)
          | exact gaveUp_setPc (Or.inr (Or.inl rfl))
          | exact gaveUp_setPc (Or.inr (Or.inr rfl))
  | loaded | edited | failed | leaving | returned | dead =>
      rw [hpc] at hstep
      cases hstep

/-- It only cleans up and returns. -/
theorem gaveUp_step {e : Event} (hgave : d.GaveUp c) (he : e.Attempted c)
    (hstep : d.step jobs toml e = some d') : d'.file = d.file ∧ d'.GaveUp c := by
  obtain ⟨err, hpc⟩ := hgave
  have hreader : ∀ r, (e = .openSnapshot r ∨ (∃ n, e = .readSnapshot r n) ∨ e = .finishSnapshot r
      ∨ e = .failSnapshot r) → d'.file = d.file ∧ d'.GaveUp c := by
    intro r hr
    obtain ⟨k, rfl⟩ := reader_step hr hstep
    exact ⟨rfl, err, hpc⟩
  cases e with
  | cleanup k removed =>
      obtain rfl : k = c := he.resolve_right (by simp)
      rcases hpc with hpc | hpc | hpc
      · simp only [step, hpc] at hstep
        cases hstep
        refine ⟨?_, gaveUp_setPc (Or.inr (Or.inl rfl))⟩
        cases removed <;> rfl
      · simp [step, hpc] at hstep
      · simp [step, hpc] at hstep
  | unlock k =>
      obtain rfl : k = c := he.resolve_right (by simp)
      rcases hpc with hpc | hpc | hpc
      · simp [step, hpc] at hstep
      · simp only [step, hpc] at hstep
        cases hstep
        exact ⟨rfl, gaveUp_setPc (Or.inr (Or.inr rfl))⟩
      · simp [step, hpc] at hstep
  | openSnapshot r => exact hreader r (Or.inl rfl)
  | readSnapshot r n => exact hreader r (Or.inr (Or.inl ⟨n, rfl⟩))
  | finishSnapshot r => exact hreader r (Or.inr (Or.inr (Or.inl rfl)))
  | failSnapshot r => exact hreader r (Or.inr (Or.inr (Or.inr rfl)))
  | die proc =>
      rcases he with he | he
      · exact he.elim
      · cases he
  | fail k =>
      obtain rfl : k = c := Event.fail.inj (he.resolve_left id)
      rcases hpc with hpc | hpc | hpc <;> simp [step, hpc] at hstep
  | _ =>
      obtain rfl := he.resolve_right (by simp)
      rcases hpc with hpc | hpc | hpc <;> simp [step, hpc] at hstep

/-- **A call that returns an error leaves the file as it was**, and one that returns `Ok` has replaced it
by what its edit makes of it. -/
theorem attempted_call {es : List Event} {result : Except StoreError TenantSet}
    (hallocated : d.Allocated) (hidle : d.pcs c = .idle) (hes : ∀ e ∈ es, e.Attempted c)
    (hrun : (machine jobs toml).run d es = some d') (hreturned : d'.pcs c = .returned result) :
    (∃ e, result = .error e ∧ d'.file = d.file)
      ∨ ∃ current next text, FileStore.load toml d.file = .ok current
        ∧ (jobs c).edit current = .ok next ∧ next.toToml toml = .ok text ∧ d'.file = some text
        ∧ result = .ok next := by
  let I := fun d' : Disk => AloneInv jobs toml d.file c d' ∨ (d'.file = d.file ∧ d'.GaveUp c)
  have hstart : I d := Or.inl ⟨hallocated, by rw [hidle]; rfl⟩
  have hend : I d' := by
    refine (machine jobs toml).run_invariant_of_meets I ?_ hstart
      ((machine jobs toml).meets_of_forall_mem fun e he _ => hes e he) hrun
    intro s t e hi he hstep
    rcases hi with hi | ⟨hfile, hgave⟩
    · rcases he with he | rfl
      · exact Or.inl (alone_step hi he hstep)
      · exact Or.inr (alone_fail hi hstep)
    · obtain ⟨hsame, hgave'⟩ := gaveUp_step hgave he hstep
      exact Or.inr ⟨hsame.trans hfile, hgave'⟩
  rcases hend with hi | ⟨hfile, e, hpc⟩
  · have hmade : FileStore.replaceWith toml d.file (jobs c).closure = (d'.file, result) :=
      hi.of_call hreturned
    rcases FileStore.replaceWith_cases hmade with
      hfailed | ⟨current, next, text, out, hload, hclosure, htext, hfile, rfl⟩
    · exact Or.inl hfailed
    · obtain ⟨made, hedit, hpair⟩ := except_map_eq_ok_iff.1 hclosure
      obtain ⟨rfl, rfl⟩ := Prod.mk.inj hpair
      exact Or.inr ⟨current, made, text, hload, hedit, htext, hfile, rfl⟩
  · left
    rw [hreturned] at hpc
    simp only [reduceCtorEq, false_or, Pc.returned.injEq] at hpc
    exact ⟨e, hpc, hfile⟩

end Disk

end FileStore
end Tenancy
end Erbridge
