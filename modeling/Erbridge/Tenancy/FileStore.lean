import Erbridge.Core.Machine
import Erbridge.Tenancy.Edits
import Erbridge.Tenancy.TenantFile
import Mathlib.Logic.Function.Basic

/-!
# The file store: atomic edits of one file by several processes

The model of `FileStore::replace_with`, `write_private` and `TenantSet::load` over a small file
system of inodes.  Any number of calls, of any number of processes, take their steps in any order;
every step may fail, and a process may die at any point, which releases its lock and leaves its
temporary file behind.  Readers take no lock and read in pieces.

* `Disk.step` — one step of one call or of one reader.
* `applied` — the result of edits applied one after the other.
* `Inv` — the contents are those of the renames so far; the calls inside the lock work on them; an
  inode that was ever visible under the file's name is never written again.
* `file_store_linear` — the edits whose rename took place, in lock order, are the store's history:
  a call that returned `Ok` is in it once, one that returned `Err` is not, and every snapshot is a
  prefix of it.
-/

namespace Erbridge
namespace Tenancy

/-- A call of `replace_with`: the process that makes it and its edit. -/
structure Job where
  proc : Nat
  edit : TenantSet → Except SetError TenantSet

/-- Why a call or a snapshot fails. -/
inductive StoreError
  | locking
  | reading
  | file (e : FileError)
  | edit (e : SetError)
  | writing
  | replacing
deriving DecidableEq

namespace FileStore

/-- Where a call of `replace_with` is. -/
inductive Pc
  | idle
  | locked
  /-- `read_to_string` has the file open and has read `got`. -/
  | loading (inode : Nat) (got : List UInt8)
  | loaded (current : TenantSet)
  | edited (next : TenantSet)
  | serialised (next : TenantSet) (text : List UInt8)
  /-- There is no temporary file of this process's name. -/
  | cleared (next : TenantSet) (text : List UInt8)
  | writing (next : TenantSet) (text : List UInt8) (inode written : Nat)
  | synced (next : TenantSet) (text : List UInt8)
  /-- `written.is_err()`: the temporary file is to be removed. -/
  | failed (e : StoreError)
  /-- The result is known; the lock is still held. -/
  | leaving (result : Except StoreError TenantSet)
  | returned (result : Except StoreError TenantSet)
  | dead
deriving DecidableEq

/-- The call holds the lock. -/
def Pc.inside : Pc → Bool
  | .idle => false
  | .returned _ => false
  | .dead => false
  | _ => true

/-- Where a reader is. -/
inductive Reader
  | idle
  | reading (inode : Nat) (got : List UInt8)
  | finished (result : Except StoreError TenantSet)
deriving DecidableEq

/-- The file system around one tenant file, the calls and the readers. -/
structure Disk where
  /-- The inode under the file's name. -/
  target : Option Nat
  /-- The inodes under the temporary names, one for each process number. -/
  tmp : Nat → Option Nat
  content : Nat → List UInt8
  nextInode : Nat
  /-- The call that has the sidecar lock. -/
  lock : Option Nat
  pcs : Nat → Pc
  readers : Nat → Reader
  /-- The calls that took the lock, in that order; not part of the file system. -/
  locks : List Nat
  /-- The calls whose rename took place, in that order; not part of the file system. -/
  renames : List Nat

namespace Disk

inductive Event
  | lock (c : Nat)
  /-- `TenantSet::load` opens the file, or finds none. -/
  | load (c : Nat)
  /-- One `read` of at most `n + 1` bytes. -/
  | read (c n : Nat)
  /-- `read_to_string` met the end of the file: `TenantSet::from_toml`. -/
  | parse (c : Nat)
  | edit (c : Nat)
  | serialise (c : Nat)
  /-- `remove_file` of a leftover, which may not be there. -/
  | clear (c : Nat)
  | create (c : Nat)
  /-- One `write` of at most `n + 1` bytes. -/
  | write (c n : Nat)
  | sync (c : Nat)
  | rename (c : Nat)
  /-- `let _ = remove_file(&tmp)` after a failure. -/
  | cleanup (c : Nat) (removed : Bool)
  /-- `lock` drops and the call returns. -/
  | unlock (c : Nat)
  /-- The next operation of the call fails. -/
  | fail (c : Nat)
  /-- The process dies. -/
  | die (proc : Nat)
  | openSnapshot (r : Nat)
  | readSnapshot (r n : Nat)
  | finishSnapshot (r : Nat)
  | failSnapshot (r : Nat)
deriving DecidableEq

def setPc (d : Disk) (c : Nat) (k : Pc) : Disk := { d with pcs := Function.update d.pcs c k }

def setReader (d : Disk) (r : Nat) (k : Reader) : Disk :=
  { d with readers := Function.update d.readers r k }

def setTmp (d : Disk) (proc : Nat) (inode : Option Nat) : Disk :=
  { d with tmp := Function.update d.tmp proc inode }

/-- What was read so far and one more piece. -/
def readMore (d : Disk) (inode : Nat) (got : List UInt8) (n : Nat) : List UInt8 :=
  got ++ ((d.content inode).drop got.length).take (n + 1)

/-- `create_new` of a temporary file. -/
def createTmp (d : Disk) (proc : Nat) : Disk :=
  { d with
    tmp := Function.update d.tmp proc (some d.nextInode)
    content := Function.update d.content d.nextInode []
    nextInode := d.nextInode + 1 }

def appendTo (d : Disk) (inode : Nat) (bytes : List UInt8) : Disk :=
  { d with content := Function.update d.content inode (d.content inode ++ bytes) }

/-- `lock.lock()` succeeds. -/
def takeLock (d : Disk) (c : Nat) : Disk := { d with lock := some c, locks := d.locks ++ [c] }

def dropLock (d : Disk) : Disk := { d with lock := none }

/-- `rename` of the temporary file `i` of `proc` by the call `c`. -/
def moveTmp (d : Disk) (c proc i : Nat) : Disk :=
  { d.setTmp proc none with target := some i, renames := d.renames ++ [c] }

variable (jobs : Nat → Job) (toml : Toml)

/-- The process dies: its calls stop where they are, and the system closes its lock file. -/
def kill (d : Disk) (proc : Nat) : Disk :=
  { d with
    pcs := fun c => if (jobs c).proc = proc && (d.pcs c).inside then .dead else d.pcs c
    lock := d.lock.filter fun c => (jobs c).proc ≠ proc }

def step (d : Disk) : Event → Option Disk
  | .lock c =>
      match d.pcs c, d.lock with
      | .idle, none => some ((d.takeLock c).setPc c .locked)
      | _, _ => none
  | .load c =>
      match d.pcs c with
      | .locked =>
          match d.target with
          | some i => some (d.setPc c (.loading i []))
          | none => some (d.setPc c (.loaded TenantSet.empty))
      | _ => none
  | .read c n =>
      match d.pcs c with
      | .loading i got => some (d.setPc c (.loading i (d.readMore i got n)))
      | _ => none
  | .parse c =>
      match d.pcs c with
      | .loading i got =>
          if (d.content i).length ≤ got.length then
            match TenantSet.fromToml toml got with
            | .ok current => some (d.setPc c (.loaded current))
            | .error e => some (d.setPc c (.leaving (.error (.file e))))
          else none
      | _ => none
  | .edit c =>
      match d.pcs c with
      | .loaded current =>
          match (jobs c).edit current with
          | .ok next => some (d.setPc c (.edited next))
          | .error e => some (d.setPc c (.leaving (.error (.edit e))))
      | _ => none
  | .serialise c =>
      match d.pcs c with
      | .edited next =>
          match next.toToml toml with
          | .ok text => some (d.setPc c (.serialised next text))
          | .error e => some (d.setPc c (.leaving (.error (.file e))))
      | _ => none
  | .clear c =>
      match d.pcs c with
      | .serialised next text => some ((d.setTmp (jobs c).proc none).setPc c (.cleared next text))
      | _ => none
  | .create c =>
      match d.pcs c with
      | .cleared next text =>
          match d.tmp (jobs c).proc with
          | none =>
              some ((d.createTmp (jobs c).proc).setPc c (.writing next text d.nextInode 0))
          | some _ => some (d.setPc c (.failed .writing))
      | _ => none
  | .write c n =>
      match d.pcs c with
      | .writing next text i k =>
          some ((d.appendTo i ((text.drop k).take (n + 1))).setPc c
            (.writing next text i (k + ((text.drop k).take (n + 1)).length)))
      | _ => none
  | .sync c =>
      match d.pcs c with
      | .writing next text _ k =>
          if k = text.length then some (d.setPc c (.synced next text)) else none
      | _ => none
  | .rename c =>
      match d.pcs c with
      | .synced next _ =>
          match d.tmp (jobs c).proc with
          | some i => some ((d.moveTmp c (jobs c).proc i).setPc c (.leaving (.ok next)))
          | none => some (d.setPc c (.failed .replacing))
      | _ => none
  | .cleanup c removed =>
      match d.pcs c with
      | .failed e =>
          let d := if removed then d.setTmp (jobs c).proc none else d
          some (d.setPc c (.leaving (.error e)))
      | _ => none
  | .unlock c =>
      match d.pcs c with
      | .leaving result => some (d.dropLock.setPc c (.returned result))
      | _ => none
  | .fail c =>
      match d.pcs c with
      | .idle => some (d.setPc c (.returned (.error .locking)))
      | .locked => some (d.setPc c (.leaving (.error .reading)))
      | .loading _ _ => some (d.setPc c (.leaving (.error .reading)))
      | .serialised _ _ => some (d.setPc c (.failed .writing))
      | .cleared _ _ => some (d.setPc c (.failed .writing))
      | .writing _ _ _ _ => some (d.setPc c (.failed .writing))
      | .synced _ _ => some (d.setPc c (.failed .replacing))
      | _ => none
  | .die proc => some (d.kill jobs proc)
  | .openSnapshot r =>
      match d.readers r with
      | .idle =>
          match d.target with
          | some i => some (d.setReader r (.reading i []))
          | none => some (d.setReader r (.finished (.ok TenantSet.empty)))
      | _ => none
  | .readSnapshot r n =>
      match d.readers r with
      | .reading i got => some (d.setReader r (.reading i (d.readMore i got n)))
      | _ => none
  | .finishSnapshot r =>
      match d.readers r with
      | .reading i got =>
          if (d.content i).length ≤ got.length then
            match TenantSet.fromToml toml got with
            | .ok S => some (d.setReader r (.finished (.ok S)))
            | .error e => some (d.setReader r (.finished (.error (.file e))))
          else none
      | _ => none
  | .failSnapshot r =>
      match d.readers r with
      | .idle => some (d.setReader r (.finished (.error .reading)))
      | .reading _ _ => some (d.setReader r (.finished (.error .reading)))
      | _ => none

def machine : Core.Machine Disk Event where
  step := step jobs toml

/-! ## The history of the file -/

variable (start : TenantSet)

/-- The edits of the calls, one after the other, from the starting set. -/
def applied (cs : List Nat) : Option TenantSet :=
  cs.foldlM (fun current c => ((jobs c).edit current).toOption) start

theorem applied_concat {cs : List Nat} {c : Nat} {current next : TenantSet}
    (h : applied jobs start cs = some current) (hedit : (jobs c).edit current = .ok next) :
    applied jobs start (cs ++ [c]) = some next := by
  unfold applied at h ⊢
  rw [List.foldlM_append, h]
  simp [hedit, Except.toOption]

/-- Nobody writes the inode any more. -/
def Frozen (d : Disk) (i : Nat) : Prop :=
  i < d.nextInode ∧ ∀ c next text k, d.pcs c ≠ .writing next text i k

/-- The inode holds the whole serialisation of what the renames `pre` made. -/
def Complete (d : Disk) (i : Nat) (pre : List Nat) : Prop :=
  d.Frozen i ∧ ∃ S, applied jobs start pre = some S ∧ S.toToml toml = .ok (d.content i)

/-- Someone has the inode open, which was the file at some time, and has read `got` of it. -/
def Open (d : Disk) (i : Nat) (got : List UInt8) : Prop :=
  (∃ pre, pre <+: d.renames ∧ Complete jobs toml start d i pre) ∧ got <+: d.content i

/-- The call has the lock and has not renamed: every rename is of a call that had it before. -/
def Holding (d : Disk) (c : Nat) : Prop :=
  d.lock = some c ∧ ∃ earlier, d.locks = earlier ++ [c] ∧ d.renames.Sublist earlier

/-- `next` is what the call's edit makes of the contents. -/
def Made (d : Disk) (c : Nat) (next : TenantSet) : Prop :=
  ∃ current, applied jobs start d.renames = some current ∧ (jobs c).edit current = .ok next

/-- The call's rename took place, on the contents that the renames before it made. -/
def Renamed (d : Disk) (c : Nat) (next : TenantSet) : Prop :=
  ∃ pre post current, d.renames = pre ++ c :: post ∧ applied jobs start pre = some current
    ∧ (jobs c).edit current = .ok next

/-- What is known of a call in each of its states. -/
def CallOk (d : Disk) (c : Nat) : Pc → Prop
  | .idle => c ∉ d.locks
  | .locked => d.Holding c
  | .loading i got => d.Holding c ∧ d.target = some i ∧ got <+: d.content i
  | .loaded current => d.Holding c ∧ applied jobs start d.renames = some current
  | .edited next => d.Holding c ∧ Made jobs start d c next
  | .serialised next text => d.Holding c ∧ Made jobs start d c next ∧ next.toToml toml = .ok text
  | .cleared next text => d.Holding c ∧ Made jobs start d c next ∧ next.toToml toml = .ok text
  | .writing next text i k => d.Holding c ∧ Made jobs start d c next ∧ next.toToml toml = .ok text
      ∧ d.tmp (jobs c).proc = some i ∧ i < d.nextInode ∧ d.content i = text.take k
      ∧ k ≤ text.length
  | .synced next text => d.Holding c ∧ Made jobs start d c next ∧ next.toToml toml = .ok text
      ∧ ∃ i, d.tmp (jobs c).proc = some i ∧ i < d.nextInode ∧ d.content i = text
  | .failed _ => d.Holding c
  | .leaving (.error _) => d.Holding c
  | .leaving (.ok next) => d.lock = some c ∧ Renamed jobs start d c next
  | .returned (.error _) => c ∉ d.renames
  | .returned (.ok next) => Renamed jobs start d c next
  | .dead => True

/-- What is known of a reader in each of its states. -/
def ReaderOk (d : Disk) : Reader → Prop
  | .idle => True
  | .reading i got => Open jobs toml start d i got
  | .finished (.ok S) => ∃ pre, pre <+: d.renames ∧ applied jobs start pre = some S
  | .finished (.error e) => e = .reading

structure Inv (d : Disk) : Prop where
  order : d.renames.Sublist d.locks
  once : d.locks.Nodup
  contents : (d.target = none ∧ d.renames = [] ∧ start = TenantSet.empty)
    ∨ ∃ i, d.target = some i ∧ Complete jobs toml start d i d.renames
  calls : ∀ c, CallOk jobs toml start d c (d.pcs c)
  readers : ∀ r, ReaderOk jobs toml start d (d.readers r)

variable {jobs toml start} {d d' : Disk} {c : Nat}

theorem CallOk.holds_lock {k : Pc} (hk : CallOk jobs toml start d c k) (hin : k.inside = true) :
    d.lock = some c := by
  cases k with
  | idle => cases hin
  | returned result => cases hin
  | dead => cases hin
  | locked => exact hk.1
  | failed e => exact hk.1
  | leaving result =>
      cases result with
      | ok next => exact hk.1
      | error e => exact hk.1
  | _ => exact hk.1.1

/-- Only the call that has the lock is inside. -/
theorem Inv.outside (hi : Inv jobs toml start d) {c' : Nat} (hlock : d.lock ≠ some c') :
    (d.pcs c').inside = false := by
  by_contra hin
  exact hlock ((hi.calls c').holds_lock (by simpa using hin))

/-- A call outside the lock knows only of the two histories, which grow by other calls. -/
theorem CallOk.of_outside {c' : Nat} {k : Pc} (hk : CallOk jobs toml start d c' k)
    (hout : k.inside = false) (hne : c' ≠ c) (hlocks : d'.locks = d.locks ∨ d'.locks = d.locks ++ [c])
    (hren : d'.renames = d.renames ∨ d'.renames = d.renames ++ [c]) :
    CallOk jobs toml start d' c' k := by
  have hrenamed : ∀ next, Renamed jobs start d c' next → Renamed jobs start d' c' next := by
    rintro next ⟨pre, post, current, heq, hpre, hedit⟩
    rcases hren with hsame | hmore
    · exact ⟨pre, post, current, hsame.trans heq, hpre, hedit⟩
    · exact ⟨pre, post ++ [c], current, by simp [hmore, heq], hpre, hedit⟩
  cases k with
  | idle =>
      have hk : c' ∉ d.locks := hk
      show c' ∉ d'.locks
      rcases hlocks with hsame | hmore
      · rwa [hsame]
      · simp [hmore, hk, hne]
  | returned result =>
      cases result with
      | ok next => exact hrenamed next hk
      | error e =>
          have hk : c' ∉ d.renames := hk
          show c' ∉ d'.renames
          rcases hren with hsame | hmore
          · rwa [hsame]
          · simp [hmore, hk, hne]
  | dead => trivial
  | _ => cases hout

/-- A call knows nothing of the others, and of the lock only while it is inside. -/
theorem CallOk.of_lock {k : Pc} (hk : CallOk jobs toml start d c k) (pcs : Nat → Pc)
    (readers : Nat → Reader) (lock : Option Nat) (hlock : k.inside = true → lock = d.lock) :
    CallOk jobs toml start { d with lock := lock, pcs := pcs, readers := readers } c k := by
  cases k with
  | idle => exact hk
  | returned result => cases result <;> exact hk
  | dead => trivial
  | leaving result =>
      obtain rfl := hlock rfl
      cases result <;> exact hk
  | _ =>
      obtain rfl := hlock rfl
      exact hk

/-- A frozen inode stays frozen and as it is while others are written. -/
theorem Complete.mono {i : Nat} {pre : List Nat} (h : Complete jobs toml start d i pre)
    (hnext : d.nextInode ≤ d'.nextInode) (hcontent : d'.content i = d.content i)
    (hwrite : ∀ c next text k, d'.pcs c ≠ .writing next text i k) :
    Complete jobs toml start d' i pre := by
  obtain ⟨⟨hlt, -⟩, S, hS, htext⟩ := h
  exact ⟨⟨Nat.lt_of_lt_of_le hlt hnext, hwrite⟩, S, hS, hcontent ▸ htext⟩

theorem ReaderOk.mono {k : Reader} (hk : ReaderOk jobs toml start d k)
    (hren : d.renames <+: d'.renames)
    (hopen : ∀ i pre, Complete jobs toml start d i pre →
      Complete jobs toml start d' i pre ∧ d'.content i = d.content i) :
    ReaderOk jobs toml start d' k := by
  cases k with
  | idle => trivial
  | reading i got =>
      obtain ⟨⟨pre, hpre, hcomplete⟩, hgot⟩ := hk
      obtain ⟨hcomplete', hcontent⟩ := hopen i pre hcomplete
      exact ⟨⟨pre, hpre.trans hren, hcomplete'⟩, hcontent ▸ hgot⟩
  | finished result =>
      cases result with
      | ok S =>
          obtain ⟨pre, hpre, hS⟩ := hk
          exact ⟨pre, hpre.trans hren, hS⟩
      | error e => exact hk

/-- A step of the call `c` that renames nothing: the others must stay as they are, and no frozen inode
is written. -/
theorem Inv.move (hi : Inv jobs toml start d) {k : Pc}
    (hpcs : d'.pcs = Function.update d.pcs c k) (hlocks : d'.locks = d.locks)
    (hren : d'.renames = d.renames) (htarget : d'.target = d.target)
    (hreaders : d'.readers = d.readers) (hnext : d.nextInode ≤ d'.nextInode)
    (hkeep : ∀ i, d.Frozen i →
      d'.content i = d.content i ∧ ∀ next text n, k ≠ .writing next text i n)
    (hothers : ∀ c', c' ≠ c → CallOk jobs toml start d' c' (d.pcs c'))
    (hk : CallOk jobs toml start d' c k) : Inv jobs toml start d' := by
  have hcomplete : ∀ i pre, Complete jobs toml start d i pre →
      Complete jobs toml start d' i pre ∧ d'.content i = d.content i := by
    intro i pre h
    obtain ⟨hcontent, hnot⟩ := hkeep i h.1
    refine ⟨h.mono hnext hcontent fun c' next text n => ?_, hcontent⟩
    rw [hpcs]
    by_cases hc : c' = c
    · subst hc
      simpa using hnot next text n
    · simpa [hc] using h.1.2 c' next text n
  refine ⟨by rw [hren, hlocks]; exact hi.order, by rw [hlocks]; exact hi.once, ?_, fun c' => ?_,
    fun r => ?_⟩
  · rw [htarget, hren]
    rcases hi.contents with habsent | ⟨i, htgt, h⟩
    · exact Or.inl habsent
    · exact Or.inr ⟨i, htgt, (hcomplete i _ h).1⟩
  · rw [hpcs]
    by_cases hc : c' = c
    · subst hc
      simpa using hk
    · simpa [hc] using hothers c' hc
  · rw [hreaders]
    exact (hi.readers r).mono (hren ▸ List.prefix_refl _) hcomplete

/-- While `c` has the lock the other calls are outside, so they stay as they are. -/
theorem Inv.others (hi : Inv jobs toml start d) (hlock : d.lock = some c)
    (hlocks : d'.locks = d.locks) (hren : d'.renames = d.renames ∨ d'.renames = d.renames ++ [c]) :
    ∀ c', c' ≠ c → CallOk jobs toml start d' c' (d.pcs c') := by
  intro c' hc
  have hout : (d.pcs c').inside = false := hi.outside fun h => by
    rw [hlock] at h
    exact hc (Option.some.inj h).symm
  exact (hi.calls c').of_outside hout hc (Or.inl hlocks) hren

/-- A step inside the lock that touches no inode anyone else has. -/
theorem Inv.moveInside (hi : Inv jobs toml start d) (hlock : d.lock = some c) {k : Pc}
    (hpcs : d'.pcs = Function.update d.pcs c k) (hlocks : d'.locks = d.locks)
    (hren : d'.renames = d.renames) (htarget : d'.target = d.target)
    (hreaders : d'.readers = d.readers) (hnext : d'.nextInode = d.nextInode)
    (hcontent : d'.content = d.content) (hwrite : ∀ next text i n, k ≠ .writing next text i n)
    (hk : CallOk jobs toml start d' c k) : Inv jobs toml start d' :=
  hi.move hpcs hlocks hren htarget hreaders (Nat.le_of_eq hnext.symm)
    (fun i _ => ⟨congrFun hcontent i, fun next text n => hwrite next text i n⟩)
    (hi.others hlock hlocks (Or.inl hren)) hk

theorem Inv.setReader (hi : Inv jobs toml start d) {r : Nat} {k : Reader}
    (hk : ReaderOk jobs toml start d k) : Inv jobs toml start (d.setReader r k) where
  order := hi.order
  once := hi.once
  contents := hi.contents
  calls c := (hi.calls c).of_lock d.pcs (Function.update d.readers r k) d.lock fun _ => rfl
  readers r' := by
    have hsame : ∀ k', ReaderOk jobs toml start d k' →
        ReaderOk jobs toml start (d.setReader r k) k' := fun k' hk' =>
      hk'.mono (List.prefix_refl _) fun i pre h => ⟨h, rfl⟩
    show ReaderOk jobs toml start (d.setReader r k) (Function.update d.readers r k r')
    by_cases hr : r' = r
    · subst hr
      simpa using hsame k hk
    · simpa [hr] using hsame _ (hi.readers r')

/-! ## The steps inside the lock -/

theorem readMore_prefix {i n : Nat} {got : List UInt8} (h : got <+: d.content i) :
    d.readMore i got n <+: d.content i := by
  obtain ⟨rest, hrest⟩ := h
  unfold readMore
  rw [← hrest, List.drop_left]
  exact (List.prefix_append_right_inj got).2 (List.take_prefix _ _)

/-- At the end of the file everything was read. -/
theorem eq_content_of_end {i : Nat} {got : List UInt8} (h : got <+: d.content i)
    (hend : (d.content i).length ≤ got.length) : got = d.content i :=
  h.eq_of_length_le hend

/-- The writer's file after one more piece. -/
theorem take_add_length_drop (text : List UInt8) (k n : Nat) :
    text.take k ++ (text.drop k).take n = text.take (k + ((text.drop k).take n).length) := by
  rw [List.take_add, List.length_take, ← List.take_eq_take_min]

theorem Holding.not_renamed (hi : Inv jobs toml start d) (h : d.Holding c) : c ∉ d.renames := by
  obtain ⟨-, earlier, hlocks, hsub⟩ := h
  have hnodup := hi.once
  rw [hlocks] at hnodup
  have hnot : c ∉ earlier := fun hmem =>
    (List.nodup_append.1 hnodup).2.2 c hmem c (List.mem_singleton_self c) rfl
  exact fun hmem => hnot (hsub.subset hmem)

theorem inv_lock (hi : Inv jobs toml start d) (hpc : d.pcs c = .idle) (hfree : d.lock = none) :
    Inv jobs toml start ((d.takeLock c).setPc c .locked) := by
  have hfresh : c ∉ d.locks := by
    have hcall := hi.calls c
    rwa [hpc] at hcall
  have hcomplete : ∀ i pre, Complete jobs toml start d i pre →
      Complete jobs toml start ((d.takeLock c).setPc c .locked) i pre := by
    intro i pre h
    refine h.mono (Nat.le_refl _) rfl fun c' next text n => ?_
    show Function.update d.pcs c .locked c' ≠ _
    by_cases hc : c' = c
    · simp [hc]
    · simpa [hc] using h.1.2 c' next text n
  refine ⟨?_, ?_, ?_, fun c' => ?_, fun r => ?_⟩
  · exact hi.order.trans (List.sublist_append_left _ _)
  · exact List.nodup_append.2 ⟨hi.once, List.nodup_singleton c, by
      rintro a ha b hb rfl
      exact hfresh (List.mem_singleton.1 hb ▸ ha)⟩
  · rcases hi.contents with habsent | ⟨i, htgt, h⟩
    · exact Or.inl habsent
    · exact Or.inr ⟨i, htgt, hcomplete i _ h⟩
  · show CallOk jobs toml start _ c' (Function.update d.pcs c .locked c')
    by_cases hc : c' = c
    · subst hc
      rw [Function.update_self]
      exact ⟨rfl, d.locks, rfl, hi.order⟩
    · rw [Function.update_of_ne hc]
      have hout : (d.pcs c').inside = false := hi.outside (by simp [hfree])
      exact (hi.calls c').of_outside hout hc (Or.inr rfl) (Or.inl rfl)
  · exact (hi.readers r).mono (List.prefix_refl _) fun i pre h => ⟨hcomplete i pre h, rfl⟩

/-- **The rename takes place on the contents that the call has read.** -/
theorem inv_rename (hi : Inv jobs toml start d) {next : TenantSet} {text : List UInt8} {i : Nat}
    (hpc : d.pcs c = .synced next text) (htmp : d.tmp (jobs c).proc = some i) :
    Inv jobs toml start ((d.moveTmp c (jobs c).proc i).setPc c (.leaving (.ok next))) := by
  have hcall := hi.calls c
  rw [hpc] at hcall
  obtain ⟨⟨hlock, earlier, hlocks, hsub⟩, ⟨current, hcurrent, hedit⟩, htext, j, hj, hlt, hcontent⟩ :=
    hcall
  obtain rfl : i = j := Option.some.inj (htmp.symm.trans hj)
  -- Only `c` is inside, and it has closed its file: nobody writes any more.
  have hquiet : ∀ i c' next' text' n,
      Function.update d.pcs c (.leaving (.ok next)) c' ≠ .writing next' text' i n := by
    intro i c' next' text' n
    by_cases hc : c' = c
    · simp [hc]
    · rw [Function.update_of_ne hc]
      intro hwriting
      have hout : (d.pcs c').inside = false := hi.outside fun h => by
        rw [hlock] at h
        exact hc (Option.some.inj h).symm
      rw [hwriting] at hout
      cases hout
  have hcomplete : ∀ i pre, Complete jobs toml start d i pre →
      Complete jobs toml start
        ((d.moveTmp c (jobs c).proc i).setPc c (.leaving (.ok next))) i pre :=
    fun i pre h => h.mono (Nat.le_refl _) rfl (hquiet i)
  refine ⟨?_, hi.once, Or.inr ⟨i, rfl, ?_⟩, fun c' => ?_, fun r => ?_⟩
  · show (d.renames ++ [c]).Sublist d.locks
    rw [hlocks]
    exact hsub.append_right [c]
  · refine ⟨⟨hlt, hquiet i⟩, next, applied_concat jobs start hcurrent hedit, ?_⟩
    show next.toToml toml = .ok (d.content i)
    rw [hcontent]
    exact htext
  · show CallOk jobs toml start _ c' (Function.update d.pcs c (.leaving (.ok next)) c')
    by_cases hc : c' = c
    · subst hc
      rw [Function.update_self]
      exact ⟨hlock, d.renames, [], current, rfl, hcurrent, hedit⟩
    · rw [Function.update_of_ne hc]
      refine hi.others hlock ?_ (Or.inr ?_) c' hc
      · rfl
      · rfl
  · refine (hi.readers r).mono (List.prefix_append _ _) fun i pre h => ⟨?_, rfl⟩
    exact h.mono (Nat.le_refl _) rfl (hquiet i)

/-- A dead process leaves the lock, and its temporary file as it is. -/
theorem inv_die (hi : Inv jobs toml start d) (proc : Nat) :
    Inv jobs toml start (d.kill jobs proc) := by
  have hcomplete : ∀ i pre, Complete jobs toml start d i pre →
      Complete jobs toml start (d.kill jobs proc) i pre := by
    intro i pre h
    refine h.mono (Nat.le_refl _) rfl fun c' next text n => ?_
    show (if (jobs c').proc = proc && (d.pcs c').inside then Pc.dead else d.pcs c') ≠ _
    split
    · simp
    · exact h.1.2 c' next text n
  refine ⟨hi.order, hi.once, ?_, fun c' => ?_, fun r => ?_⟩
  · rcases hi.contents with habsent | ⟨i, htgt, h⟩
    · exact Or.inl habsent
    · exact Or.inr ⟨i, htgt, hcomplete i _ h⟩
  · show CallOk jobs toml start _ c'
      (if (jobs c').proc = proc && (d.pcs c').inside then Pc.dead else d.pcs c')
    split
    · trivial
    · rename_i hkept
      refine (hi.calls c').of_lock _ _ _ fun hin => ?_
      have hproc : (jobs c').proc ≠ proc := fun heq => hkept (by simp [heq, hin])
      simp [(hi.calls c').holds_lock hin, hproc]
  · exact (hi.readers r).mono (List.prefix_refl _) fun i pre h => ⟨hcomplete i pre h, rfl⟩

/-- A call that has the lock goes on without touching the file system. -/
theorem Inv.setPc (hi : Inv jobs toml start d) (hlock : d.lock = some c) {k : Pc}
    (hwrite : ∀ next text i n, k ≠ .writing next text i n)
    (hk : CallOk jobs toml start d c k) : Inv jobs toml start (d.setPc c k) :=
  hi.moveInside hlock rfl rfl rfl rfl rfl rfl rfl hwrite
    (hk.of_lock (Function.update d.pcs c k) d.readers d.lock fun _ => rfl)

theorem inv_load (hi : Inv jobs toml start d) (hpc : d.pcs c = .locked) {d' : Disk}
    (hstep : d.step jobs toml (.load c) = some d') : Inv jobs toml start d' := by
  have hcall : d.Holding c := by
    have hcall := hi.calls c
    rwa [hpc] at hcall
  simp only [step, hpc] at hstep
  split at hstep
  · rename_i i htarget
    cases hstep
    exact hi.setPc hcall.1 (by simp) ⟨hcall, htarget, List.nil_prefix⟩
  · rename_i habsent
    cases hstep
    refine hi.setPc hcall.1 (by simp) ⟨hcall, ?_⟩
    rcases hi.contents with ⟨-, hren, hempty⟩ | ⟨i, htarget, -⟩
    · rw [hren, ← hempty]
      rfl
    · rw [habsent] at htarget
      cases htarget

/-- What is read to the end under the lock is the result of the renames so far. -/
theorem inv_parse (htoml : toml.RoundTrips) (hi : Inv jobs toml start d) {i : Nat}
    {got : List UInt8} (hpc : d.pcs c = .loading i got) {d' : Disk}
    (hstep : d.step jobs toml (.parse c) = some d') : Inv jobs toml start d' := by
  have hcall := hi.calls c
  rw [hpc] at hcall
  obtain ⟨hhold, htarget, hgot⟩ := hcall
  simp only [step, hpc] at hstep
  split at hstep
  · rename_i hend
    obtain rfl := eq_content_of_end hgot hend
    rcases hi.contents with ⟨habsent, -⟩ | ⟨j, hj, -, S, hS, htext⟩
    · rw [htarget] at habsent
      cases habsent
    · obtain rfl : i = j := Option.some.inj (htarget.symm.trans hj)
      rw [TenantSet.fromToml_toToml htoml htext] at hstep
      cases hstep
      exact hi.setPc hhold.1 (by simp) ⟨hhold, hS⟩
  · cases hstep

theorem inv_create (hi : Inv jobs toml start d) {next : TenantSet} {text : List UInt8}
    (hpc : d.pcs c = .cleared next text) {d' : Disk}
    (hstep : d.step jobs toml (.create c) = some d') : Inv jobs toml start d' := by
  have hcall := hi.calls c
  rw [hpc] at hcall
  obtain ⟨hhold, hmade, htext⟩ := hcall
  simp only [step, hpc] at hstep
  split at hstep
  · cases hstep
    refine hi.move rfl rfl rfl rfl rfl (Nat.le_succ _) (fun i hfrozen => ⟨?_, ?_⟩)
      (hi.others hhold.1 rfl (Or.inl rfl)) ?_
    -- The new inode is none of those that are in use.
    · exact Function.update_of_ne (Nat.ne_of_lt hfrozen.1) _ _
    · rintro next' text' n heq
      have hi' : d.nextInode = i := by simpa using (Pc.writing.inj heq).2.2.1
      have hlt := hfrozen.1
      omega
    · exact ⟨hhold, hmade, htext, by simp [setPc, createTmp], Nat.lt_succ_self _,
        by simp [setPc, createTmp], Nat.zero_le _⟩
  · cases hstep
    exact hi.setPc hhold.1 (by simp) hhold

theorem inv_write (hi : Inv jobs toml start d) {next : TenantSet} {text : List UInt8} {i k : Nat}
    (hpc : d.pcs c = .writing next text i k) (n : Nat) :
    Inv jobs toml start ((d.appendTo i ((text.drop k).take (n + 1))).setPc c
      (.writing next text i (k + ((text.drop k).take (n + 1)).length))) := by
  have hcall := hi.calls c
  rw [hpc] at hcall
  obtain ⟨hhold, hmade, htext, htmp, hlt, hcontent, hk⟩ := hcall
  have hother : ∀ j, d.Frozen j → j ≠ i := by
    rintro j hfrozen rfl
    exact hfrozen.2 c next text k hpc
  refine hi.move rfl rfl rfl rfl rfl (Nat.le_refl _) (fun j hfrozen => ⟨?_, ?_⟩)
    (hi.others hhold.1 rfl (Or.inl rfl)) ?_
  · exact Function.update_of_ne (hother j hfrozen) _ _
  · rintro next' text' m heq
    exact hother j hfrozen (Pc.writing.inj heq).2.2.1.symm
  · refine ⟨hhold, hmade, htext, htmp, hlt, ?_, ?_⟩
    · show Function.update d.content i (d.content i ++ _) i = _
      rw [Function.update_self, hcontent, take_add_length_drop]
    · rw [List.length_take, List.length_drop]
      omega

/-- A step fails: the call goes on to its cleanup or returns. -/
theorem inv_fail (hi : Inv jobs toml start d) {d' : Disk}
    (hstep : d.step jobs toml (.fail c) = some d') : Inv jobs toml start d' := by
  have hcall := hi.calls c
  simp only [step] at hstep
  split at hstep
  · rename_i hpc
    rw [hpc] at hcall
    have hfresh : c ∉ d.locks := hcall
    cases hstep
    refine hi.move rfl rfl rfl rfl rfl (Nat.le_refl _) (fun i _ => ⟨rfl, by simp⟩)
      (fun c' _ => (hi.calls c').of_lock _ _ _ fun _ => rfl) ?_
    exact fun hmem => hfresh (hi.order.subset hmem)
  · rename_i hpc
    rw [hpc] at hcall
    cases hstep
    exact hi.setPc hcall.1 (by simp) hcall
  · rename_i i got hpc
    rw [hpc] at hcall
    cases hstep
    exact hi.setPc hcall.1.1 (by simp) hcall.1
  · rename_i next text hpc
    rw [hpc] at hcall
    cases hstep
    exact hi.setPc hcall.1.1 (by simp) hcall.1
  · rename_i next text hpc
    rw [hpc] at hcall
    cases hstep
    exact hi.setPc hcall.1.1 (by simp) hcall.1
  · rename_i next text i k hpc
    rw [hpc] at hcall
    cases hstep
    exact hi.setPc hcall.1.1 (by simp) hcall.1
  · rename_i next text hpc
    rw [hpc] at hcall
    cases hstep
    exact hi.setPc hcall.1.1 (by simp) hcall.1
  · cases hstep

theorem inv_unlock (hi : Inv jobs toml start d) {result : Except StoreError TenantSet}
    (hpc : d.pcs c = .leaving result) :
    Inv jobs toml start (d.dropLock.setPc c (.returned result)) := by
  have hcall := hi.calls c
  rw [hpc] at hcall
  have hlock : d.lock = some c := hcall.holds_lock rfl
  refine hi.moveInside hlock rfl rfl rfl rfl rfl rfl rfl (by simp) ?_
  cases result with
  | ok next => exact hcall.2
  | error e =>
      have hnot : c ∉ d.renames := Holding.not_renamed hi hcall
      exact hnot

/-- Snapshots read what was the file when they opened it. -/
theorem inv_reader (htoml : toml.RoundTrips) (hi : Inv jobs toml start d) {e : Event} {r : Nat}
    (he : e = .openSnapshot r ∨ (∃ n, e = .readSnapshot r n) ∨ e = .finishSnapshot r
      ∨ e = .failSnapshot r) {d' : Disk} (hstep : d.step jobs toml e = some d') :
    Inv jobs toml start d' := by
  have hreader := hi.readers r
  rcases he with rfl | ⟨n, rfl⟩ | rfl | rfl
  · simp only [step] at hstep
    split at hstep
    · split at hstep
      · rename_i i htarget
        cases hstep
        refine hi.setReader ⟨?_, List.nil_prefix⟩
        rcases hi.contents with ⟨habsent, -⟩ | ⟨j, hj, hcomplete⟩
        · rw [htarget] at habsent
          cases habsent
        · obtain rfl : i = j := Option.some.inj (htarget.symm.trans hj)
          exact ⟨d.renames, List.prefix_refl _, hcomplete⟩
      · rename_i habsent
        cases hstep
        refine hi.setReader ⟨[], List.nil_prefix, ?_⟩
        rcases hi.contents with ⟨-, -, hempty⟩ | ⟨j, hj, -⟩
        · rw [← hempty]
          rfl
        · rw [habsent] at hj
          cases hj
    · cases hstep
  · simp only [step] at hstep
    split at hstep
    · rename_i i got hpc
      rw [hpc] at hreader
      cases hstep
      exact hi.setReader ⟨hreader.1, readMore_prefix hreader.2⟩
    · cases hstep
  · simp only [step] at hstep
    split at hstep
    · rename_i i got hpc
      rw [hpc] at hreader
      obtain ⟨⟨pre, hpre, -, S, hS, htext⟩, hgot⟩ := hreader
      split at hstep
      · rename_i hend
        obtain rfl := eq_content_of_end hgot hend
        rw [TenantSet.fromToml_toToml htoml htext] at hstep
        cases hstep
        exact hi.setReader ⟨pre, hpre, hS⟩
      · cases hstep
    · cases hstep
  · simp only [step] at hstep
    split at hstep
    · cases hstep
      exact hi.setReader rfl
    · cases hstep
      exact hi.setReader rfl
    · cases hstep

theorem inv_step (htoml : toml.RoundTrips) {e : Event} (hi : Inv jobs toml start d)
    (hstep : d.step jobs toml e = some d') : Inv jobs toml start d' := by
  cases e with
  | lock c =>
      simp only [step] at hstep
      split at hstep
      · rename_i hpc hfree
        cases hstep
        exact inv_lock hi hpc hfree
      · cases hstep
  | load c =>
      cases hpc : d.pcs c with
      | locked => exact inv_load hi hpc hstep
      | _ => simp [step, hpc] at hstep
  | read c n =>
      have hcall := hi.calls c
      simp only [step] at hstep
      split at hstep
      · rename_i i got hpc
        rw [hpc] at hcall
        obtain ⟨hhold, htarget, hgot⟩ := hcall
        cases hstep
        exact hi.setPc hhold.1 (by simp) ⟨hhold, htarget, readMore_prefix hgot⟩
      · cases hstep
  | parse c =>
      cases hpc : d.pcs c with
      | loading i got => exact inv_parse htoml hi hpc hstep
      | _ => simp [step, hpc] at hstep
  | edit c =>
      have hcall := hi.calls c
      simp only [step] at hstep
      split at hstep
      · rename_i current hpc
        rw [hpc] at hcall
        obtain ⟨hhold, hcurrent⟩ := hcall
        split at hstep
        · rename_i next hedit
          cases hstep
          exact hi.setPc hhold.1 (by simp) ⟨hhold, current, hcurrent, hedit⟩
        · cases hstep
          exact hi.setPc hhold.1 (by simp) hhold
      · cases hstep
  | serialise c =>
      have hcall := hi.calls c
      simp only [step] at hstep
      split at hstep
      · rename_i next hpc
        rw [hpc] at hcall
        obtain ⟨hhold, hmade⟩ := hcall
        split at hstep
        · rename_i text htext
          cases hstep
          exact hi.setPc hhold.1 (by simp) ⟨hhold, hmade, htext⟩
        · cases hstep
          exact hi.setPc hhold.1 (by simp) hhold
      · cases hstep
  | clear c =>
      have hcall := hi.calls c
      simp only [step] at hstep
      split at hstep
      · rename_i next text hpc
        rw [hpc] at hcall
        obtain ⟨hhold, hmade, htext⟩ := hcall
        cases hstep
        exact hi.moveInside hhold.1 rfl rfl rfl rfl rfl rfl rfl (by simp) ⟨hhold, hmade, htext⟩
      · cases hstep
  | create c =>
      cases hpc : d.pcs c with
      | cleared next text => exact inv_create hi hpc hstep
      | _ => simp [step, hpc] at hstep
  | write c n =>
      simp only [step] at hstep
      split at hstep
      · rename_i next text i k hpc
        cases hstep
        exact inv_write hi hpc n
      · cases hstep
  | sync c =>
      have hcall := hi.calls c
      simp only [step] at hstep
      split at hstep
      · rename_i next text i k hpc
        rw [hpc] at hcall
        obtain ⟨hhold, hmade, htext, htmp, hlt, hcontent, -⟩ := hcall
        split at hstep
        · rename_i hall
          cases hstep
          refine hi.setPc hhold.1 (by simp) ⟨hhold, hmade, htext, i, htmp, hlt, ?_⟩
          rw [hcontent, hall, List.take_length]
        · cases hstep
      · cases hstep
  | rename c =>
      have hcall := hi.calls c
      simp only [step] at hstep
      split at hstep
      · rename_i next text hpc
        split at hstep
        · rename_i i htmp
          cases hstep
          exact inv_rename hi hpc htmp
        · rw [hpc] at hcall
          cases hstep
          exact hi.setPc hcall.1.1 (by simp) hcall.1
      · cases hstep
  | cleanup c removed =>
      have hcall := hi.calls c
      simp only [step] at hstep
      split at hstep
      · rename_i e hpc
        rw [hpc] at hcall
        have hhold : d.Holding c := hcall
        cases removed with
        | true =>
            cases hstep
            exact hi.moveInside hhold.1 rfl rfl rfl rfl rfl rfl rfl (by simp) hhold
        | false =>
            cases hstep
            exact hi.setPc hhold.1 (by simp) hhold
      · cases hstep
  | unlock c =>
      simp only [step] at hstep
      split at hstep
      · rename_i result hpc
        cases hstep
        exact inv_unlock hi hpc
      · cases hstep
  | fail c => exact inv_fail hi hstep
  | die proc =>
      cases hstep
      exact inv_die hi proc
  | openSnapshot r => exact inv_reader htoml hi (Or.inl rfl) hstep
  | readSnapshot r n => exact inv_reader htoml hi (Or.inr (Or.inl ⟨n, rfl⟩)) hstep
  | finishSnapshot r => exact inv_reader htoml hi (Or.inr (Or.inr (Or.inl rfl))) hstep
  | failSnapshot r => exact inv_reader htoml hi (Or.inr (Or.inr (Or.inr rfl))) hstep

/-- A tenant file at rest: absent, or the serialisation of `start`; nobody is using it yet.  Leftovers
of earlier processes may lie under any temporary name. -/
structure Starts (toml : Toml) (start : TenantSet) (d : Disk) : Prop where
  file : (d.target = none ∧ start = TenantSet.empty)
    ∨ ∃ i, d.target = some i ∧ i < d.nextInode ∧ start.toToml toml = .ok (d.content i)
  unlocked : d.lock = none
  calls : ∀ c, d.pcs c = .idle
  readers : ∀ r, d.readers r = .idle
  locks : d.locks = []
  renames : d.renames = []

theorem inv_starts (h : Starts toml start d) : Inv jobs toml start d where
  order := by simp [h.renames]
  once := by simp [h.locks]
  contents := by
    rcases h.file with ⟨habsent, hempty⟩ | ⟨i, htarget, hlt, htext⟩
    · exact Or.inl ⟨habsent, h.renames, hempty⟩
    · refine Or.inr ⟨i, htarget, ⟨hlt, fun c next text k => by simp [h.calls c]⟩, start, ?_, htext⟩
      rw [h.renames]
      rfl
  calls c := by
    rw [h.calls c]
    show c ∉ d.locks
    simp [h.locks]
  readers r := by
    rw [h.readers r]
    trivial

/-- The history of the file: it holds the whole serialisation of what the edits whose rename took
place made, in the order of the lock; a call that returned `Ok` is one of them, once, on the contents
that the ones before it left, and its result is the contents it made; a call that returned `Err` is
none of them; a snapshot is the contents after some of them, and fails only if reading does. -/
structure Linear (jobs : Nat → Job) (toml : Toml) (start : TenantSet) (d : Disk) : Prop where
  contents : (d.target = none ∧ d.renames = [] ∧ start = TenantSet.empty)
    ∨ ∃ i S, d.target = some i ∧ applied jobs start d.renames = some S
      ∧ S.toToml toml = .ok (d.content i)
  order : d.renames.Sublist d.locks
  once : d.renames.Nodup
  ok : ∀ c next, d.pcs c = .returned (.ok next) → Renamed jobs start d c next
  err : ∀ c e, d.pcs c = .returned (.error e) → c ∉ d.renames
  snapshots : ∀ r S, d.readers r = .finished (.ok S) →
    ∃ pre, pre <+: d.renames ∧ applied jobs start pre = some S
  reads : ∀ r e, d.readers r = .finished (.error e) → e = .reading

theorem Inv.linear (hi : Inv jobs toml start d) : Linear jobs toml start d where
  contents := by
    rcases hi.contents with habsent | ⟨i, htarget, -, S, hS, htext⟩
    · exact Or.inl habsent
    · exact Or.inr ⟨i, S, htarget, hS, htext⟩
  order := hi.order
  once := hi.once.sublist hi.order
  ok c next hpc := by
    have hcall := hi.calls c
    rwa [hpc] at hcall
  err c e hpc := by
    have hcall := hi.calls c
    rwa [hpc] at hcall
  snapshots r S hr := by
    have hreader := hi.readers r
    rwa [hr] at hreader
  reads r e hr := by
    have hreader := hi.readers r
    rwa [hr] at hreader

/-- **The file store loses no edit and shows no half-written file**, whatever fails and whoever dies
where. -/
theorem file_store_linear (jobs : Nat → Job) (toml : Toml) (htoml : toml.RoundTrips)
    (start : TenantSet) (d d' : Disk) (es : List Event) (hstarts : Starts toml start d)
    (hrun : (machine jobs toml).run d es = some d') : Linear jobs toml start d' :=
  ((machine jobs toml).run_invariant (Inv jobs toml start) (fun hi hstep => inv_step htoml hi hstep)
    (inv_starts hstarts) hrun).linear

/-- A set of one tenant, and the file it is printed as. -/
def oneTenant : TenantSet :=
  ⟨[⟨"a", Noise.Psk.repeated 0xab, "a.example.com", 4, false⟩], [],
    checkSet_eq_ok_iff.1 (by decide)⟩

def oneTenantText : List UInt8 :=
  ("code = []\n\n[[tenant]]\nname = \"a\"\npsk = \""
    ++ "abababababababababababababababababababababababababababababababab"
    ++ "\"\nsni = \"a.example.com\"\nmax_conns = 4\ndisabled = false\n").toList.map
      fun c => UInt8.ofNat c.toNat

/-- The crate on that file. -/
def oneToml : Toml where
  print doc := if doc = oneTenant.toDocument then some oneTenantText else none
  parse bytes := if bytes = oneTenantText then some oneTenant.toDocument else none

theorem oneToml_roundTrips : oneToml.RoundTrips := by
  intro doc bytes h
  simp only [oneToml, Option.ite_none_right_eq_some, Option.some.injEq] at h
  obtain ⟨rfl, rfl⟩ := h
  simp [oneToml]

/-- Two calls of processes with one number add the tenant. -/
def addJobs : Nat → Job := fun _ =>
  ⟨7, fun S => S.withTenant ⟨"a", Noise.Psk.repeated 0xab, "a.example.com", 4, false⟩⟩

def freshDisk : Disk where
  target := none
  tmp := fun _ => none
  content := fun _ => []
  nextInode := 0
  lock := none
  pcs := fun _ => .idle
  readers := fun _ => .idle
  locks := []
  renames := []

/-- The first call's process dies while it writes; the second call finds its leftover. -/
def crashRun : List Event :=
  [.lock 0, .load 0, .edit 0, .serialise 0, .clear 0, .create 0, .write 0 9, .die 7,
    .lock 1, .load 1, .edit 1, .serialise 1, .clear 1, .create 1, .write 1 99, .write 1 999, .sync 1,
    .rename 1, .openSnapshot 0, .unlock 1, .readSnapshot 0 999, .finishSnapshot 0]

theorem file_store_linear_crash :
    ∃ d, (machine addJobs oneToml).run freshDisk crashRun = some d
      ∧ Linear addJobs oneToml TenantSet.empty d
      ∧ d.renames = [1] ∧ d.readers 0 = .finished (.ok oneTenant) := by
  have hend : ((machine addJobs oneToml).run freshDisk crashRun).map
      (fun d => (d.renames, d.readers 0)) = some ([1], .finished (.ok oneTenant)) := by
    decide +kernel
  obtain ⟨d, hrun, hstate⟩ := Option.map_eq_some_iff.1 hend
  obtain ⟨hren, hreader⟩ := Prod.mk.inj hstate
  refine ⟨d, hrun, ?_, hren, hreader⟩
  refine file_store_linear addJobs oneToml oneToml_roundTrips TenantSet.empty freshDisk d crashRun
    ⟨Or.inl ⟨rfl, rfl⟩, rfl, fun _ => rfl, fun _ => rfl, rfl, rfl⟩ hrun

end Disk
end FileStore
end Tenancy
end Erbridge
