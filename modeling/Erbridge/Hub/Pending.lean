import Erbridge.Core.Machine
import Erbridge.Core.Table
import Erbridge.Core.Tally

/-!
# Handshake slots

The model of `PendingSlot`, its `drop`, `Hub::try_pending` and what `handle_control` does with them:
a slot takes one of the permits of `handshakes` and then one place in `pending_by_ip`, and gives them
back in the order in which a drop runs, the place first and the permit, a field of the slot, after it.
Any number of connections from any addresses take these steps in any order.

* `Conn`, `Stage` — a control connection and how far it is.
* `Slots.step` — the executable step function, `Moves` what each step can do.
* `Inv` — the permits add up and every address has as many places as live slots.
* `slots_counted` — what that means in every state of every run.
-/

namespace Erbridge
namespace Hub
namespace Pending

open Erbridge.Core (Table)

/-- How many control connections may be mid-handshake at once. -/
def maxPendingHandshakes : Nat := 256

/-- How many of those one address may hold. -/
def maxPendingPerIp : Nat := 16

/-- How the handshake of a connection with a slot comes to its end. -/
inductive Outcome
  /-- `drop(pending)` after the handshake. -/
  | handshaken
  | failed
  | timedOut
  /-- The handler itself is dropped. -/
  | cancelled
deriving DecidableEq

/-- How far the handler of a control connection is. -/
inductive Stage
  | arrived
  /-- Inside `try_pending`: `global` is taken, the address not yet looked at. -/
  | permitted
  /-- Inside `try_pending`: the address is at its limit and `global` about to be dropped. -/
  | bounced
  /-- The slot is live. -/
  | pending
  /-- Inside `drop`: the place is given back and the field `_global` is not. -/
  | dropping (outcome : Outcome)
  | refused
  | over (outcome : Outcome)
deriving DecidableEq

/-- A control connection. -/
structure Conn (IpAddr : Type) where
  ip : IpAddr
  stage : Stage
deriving DecidableEq

variable {IpAddr : Type} [DecidableEq IpAddr]

/-- Holds a live `PendingSlot`. -/
def Conn.isLive (c : Conn IpAddr) : Bool := c.stage = .pending

/-- Holds a live `PendingSlot` of this address. -/
def Conn.isLiveOf (ip : IpAddr) (c : Conn IpAddr) : Bool := c.ip = ip && c.isLive

/-- Holds a permit, but no slot: inside `try_pending` or inside the slot's `drop`. -/
def Conn.isBetween (c : Conn IpAddr) : Bool :=
  match c.stage with
  | .permitted | .bounced | .dropping _ => true
  | _ => false

/-- What the connections share, and the connections. -/
structure Slots (IpAddr : Type) [DecidableEq IpAddr] where
  /-- The permits of `handshakes` that nobody holds. -/
  handshakes : Nat
  pendingByIp : Table IpAddr Nat
  conns : List (Conn IpAddr)

namespace Slots

def initial : Slots IpAddr := ⟨maxPendingHandshakes, ∅, []⟩

/-- The live slots of an address. -/
def liveOf (s : Slots IpAddr) (ip : IpAddr) : Nat := s.conns.countP (Conn.isLiveOf ip)

/-- The live slots of all addresses. -/
def live (s : Slots IpAddr) : Nat := s.conns.countP Conn.isLive

/-- The permits momentarily held inside `try_pending` or a slot's `drop`. -/
def between (s : Slots IpAddr) : Nat := s.conns.countP Conn.isBetween

/-- `by_ip.entry(ip).or_insert(0)`. -/
def orInsertZero (t : Table IpAddr Nat) (ip : IpAddr) : Table IpAddr Nat :=
  match t.lookup ip with
  | some _ => t
  | none => t.insert ip 0

/-- `*n -= 1` on a `usize`, as it wraps in a release build. -/
def decrement (n : Nat) : Nat := (n + (2 ^ 64 - 1)) % 2 ^ 64

/-- The body of `drop`. -/
def giveBack (t : Table IpAddr Nat) (ip : IpAddr) : Table IpAddr Nat :=
  match t.lookup ip with
  | some n => if decrement n = 0 then (t.insert ip (decrement n)).erase ip
      else t.insert ip (decrement n)
  | none => t

def setStage (s : Slots IpAddr) (i : Nat) (c : Conn IpAddr) (k : Stage) : Slots IpAddr :=
  { s with conns := s.conns.set i { c with stage := k } }

/-- One step of one connection. -/
inductive Event (IpAddr : Type)
  | arrive (ip : IpAddr)
  /-- `handshakes.try_acquire_owned()`. -/
  | acquire (i : Nat)
  /-- The section of `try_pending` under the lock of `pending_by_ip`. -/
  | count (i : Nat)
  /-- `try_pending` returns `None` after the lock: its permit is dropped. -/
  | bounce (i : Nat)
  /-- The slot is dropped: the section of `drop` under the lock of `pending_by_ip`. -/
  | drop (i : Nat) (outcome : Outcome)
  /-- The slot's field `_global` is dropped. -/
  | release (i : Nat)
deriving DecidableEq

def step (s : Slots IpAddr) : Event IpAddr → Option (Slots IpAddr)
  | .arrive ip => some { s with conns := s.conns ++ [⟨ip, .arrived⟩] }
  | .acquire i =>
      match s.conns[i]? with
      | some ⟨ip, .arrived⟩ =>
          if s.handshakes = 0 then some (s.setStage i ⟨ip, .arrived⟩ .refused)
          else some { s.setStage i ⟨ip, .arrived⟩ .permitted with handshakes := s.handshakes - 1 }
      | _ => none
  | .count i =>
      match s.conns[i]? with
      | some ⟨ip, .permitted⟩ =>
          let byIp := orInsertZero s.pendingByIp ip
          let n := (byIp.lookup ip).getD 0
          if maxPendingPerIp ≤ n then
            -- the entry that `or_insert` has made stays in the map
            some { s.setStage i ⟨ip, .permitted⟩ .bounced with pendingByIp := byIp }
          else
            some { s.setStage i ⟨ip, .permitted⟩ .pending with
              pendingByIp := byIp.insert ip (n + 1) }
      | _ => none
  | .bounce i =>
      match s.conns[i]? with
      | some ⟨ip, .bounced⟩ =>
          some { s.setStage i ⟨ip, .bounced⟩ .refused with handshakes := s.handshakes + 1 }
      | _ => none
  | .drop i outcome =>
      match s.conns[i]? with
      | some ⟨ip, .pending⟩ =>
          -- the body of `drop` runs before the fields of the slot are dropped
          some { s.setStage i ⟨ip, .pending⟩ (.dropping outcome) with
            pendingByIp := giveBack s.pendingByIp ip }
      | _ => none
  | .release i =>
      match s.conns[i]? with
      | some ⟨ip, .dropping outcome⟩ =>
          some { s.setStage i ⟨ip, .dropping outcome⟩ (.over outcome) with
            handshakes := s.handshakes + 1 }
      | _ => none

/-- The handlers as a machine: a run is an interleaving of all connections. -/
def machine : Core.Machine (Slots IpAddr) (Event IpAddr) where
  step := step

/-- What each event needs and does. -/
inductive Moves (s : Slots IpAddr) : Event IpAddr → Slots IpAddr → Prop
  | arrive {ip : IpAddr} :
      Moves s (.arrive ip) { s with conns := s.conns ++ [⟨ip, .arrived⟩] }
  | full {i : Nat} {ip : IpAddr} (hpc : s.conns[i]? = some ⟨ip, .arrived⟩)
      (hfree : s.handshakes = 0) :
      Moves s (.acquire i) (s.setStage i ⟨ip, .arrived⟩ .refused)
  | acquire {i : Nat} {ip : IpAddr} (hpc : s.conns[i]? = some ⟨ip, .arrived⟩)
      (hfree : 0 < s.handshakes) :
      Moves s (.acquire i)
        { s.setStage i ⟨ip, .arrived⟩ .permitted with handshakes := s.handshakes - 1 }
  | atLimit {i : Nat} {ip : IpAddr} (hpc : s.conns[i]? = some ⟨ip, .permitted⟩)
      (hn : maxPendingPerIp ≤ ((orInsertZero s.pendingByIp ip).lookup ip).getD 0) :
      Moves s (.count i)
        { s.setStage i ⟨ip, .permitted⟩ .bounced with
          pendingByIp := orInsertZero s.pendingByIp ip }
  | count {i : Nat} {ip : IpAddr} (hpc : s.conns[i]? = some ⟨ip, .permitted⟩)
      (hn : ((orInsertZero s.pendingByIp ip).lookup ip).getD 0 < maxPendingPerIp) :
      Moves s (.count i)
        { s.setStage i ⟨ip, .permitted⟩ .pending with
          pendingByIp := (orInsertZero s.pendingByIp ip).insert ip
            (((orInsertZero s.pendingByIp ip).lookup ip).getD 0 + 1) }
  | bounce {i : Nat} {ip : IpAddr} (hpc : s.conns[i]? = some ⟨ip, .bounced⟩) :
      Moves s (.bounce i)
        { s.setStage i ⟨ip, .bounced⟩ .refused with handshakes := s.handshakes + 1 }
  | drop {i : Nat} {ip : IpAddr} {outcome : Outcome}
      (hpc : s.conns[i]? = some ⟨ip, .pending⟩) :
      Moves s (.drop i outcome)
        { s.setStage i ⟨ip, .pending⟩ (.dropping outcome) with
          pendingByIp := giveBack s.pendingByIp ip }
  | release {i : Nat} {ip : IpAddr} {outcome : Outcome}
      (hpc : s.conns[i]? = some ⟨ip, .dropping outcome⟩) :
      Moves s (.release i)
        { s.setStage i ⟨ip, .dropping outcome⟩ (.over outcome) with
          handshakes := s.handshakes + 1 }

theorem moves_of_step {s t : Slots IpAddr} {e : Event IpAddr} (hstep : s.step e = some t) :
    Moves s e t := by
  cases e with
  | arrive ip =>
      cases hstep
      exact .arrive
  | acquire i =>
      simp only [step] at hstep
      split at hstep
      · rename_i ip hpc
        split at hstep
        · rename_i hfree
          cases hstep
          exact .full hpc hfree
        · rename_i hfree
          cases hstep
          exact .acquire hpc (Nat.pos_of_ne_zero hfree)
      · cases hstep
  | count i =>
      simp only [step] at hstep
      split at hstep
      · rename_i ip hpc
        split at hstep
        · rename_i hn
          cases hstep
          exact .atLimit hpc hn
        · rename_i hn
          cases hstep
          exact .count hpc (Nat.lt_of_not_le hn)
      · cases hstep
  | bounce i =>
      simp only [step] at hstep
      split at hstep
      · cases hstep
        exact .bounce ‹_›
      · cases hstep
  | drop i outcome =>
      simp only [step] at hstep
      split at hstep
      · cases hstep
        exact .drop ‹_›
      · cases hstep
  | release i =>
      simp only [step] at hstep
      split at hstep
      · cases hstep
        exact .release ‹_›
      · cases hstep

/-! ## The map of addresses -/

/-- The entry of an address with `n` live slots. -/
def entryFor (n : Nat) : Option Nat := if n = 0 then none else some n

@[simp] theorem entryFor_getD (n : Nat) : (entryFor n).getD 0 = n := by
  unfold entryFor
  split
  · rename_i hn
    simp [hn]
  · rfl

/-- The map has an entry for exactly the addresses with live slots. -/
def Counts (t : Table IpAddr Nat) (live : IpAddr → Nat) : Prop :=
  ∀ ip, t.lookup ip = entryFor (live ip)

variable {t : Table IpAddr Nat} {live live' : IpAddr → Nat} {ip : IpAddr}

theorem lookup_orInsertZero_getD : ((orInsertZero t ip).lookup ip).getD 0 = (t.lookup ip).getD 0 := by
  unfold orInsertZero
  split
  · rfl
  · rename_i hnone
    rw [AList.lookup_insert, hnone]
    rfl

theorem lookup_orInsertZero_ne {ip' : IpAddr} (hne : ip' ≠ ip) :
    (orInsertZero t ip).lookup ip' = t.lookup ip' := by
  unfold orInsertZero
  split
  · rfl
  · exact AList.lookup_insert_ne hne

/-- An address at its limit has an entry already. -/
theorem orInsertZero_of_pos (h : 0 < (t.lookup ip).getD 0) : orInsertZero t ip = t := by
  unfold orInsertZero
  split
  · rfl
  · rename_i hnone
    rw [hnone] at h
    cases h

theorem decrement_succ {n : Nat} (hn : n + 1 ≤ maxPendingPerIp) : decrement (n + 1) = n := by
  unfold decrement
  rw [maxPendingPerIp] at hn
  omega

theorem Counts.insert_succ (h : Counts t live) (hip : live' ip = live ip + 1)
    (hother : ∀ ip', ip' ≠ ip → live' ip' = live ip') :
    Counts ((orInsertZero t ip).insert ip (((orInsertZero t ip).lookup ip).getD 0 + 1)) live' := by
  intro ip'
  by_cases hne : ip' = ip
  · subst hne
    rw [AList.lookup_insert, lookup_orInsertZero_getD, h, entryFor_getD, ← hip, entryFor,
      if_neg (by omega)]
  · rw [AList.lookup_insert_ne hne, lookup_orInsertZero_ne hne, h, hother ip' hne]

theorem Counts.giveBack (h : Counts t live) (hlive : live ip ≤ maxPendingPerIp)
    (hip : live' ip + 1 = live ip) (hother : ∀ ip', ip' ≠ ip → live' ip' = live ip') :
    Counts (giveBack t ip) live' := by
  have hentry : t.lookup ip = some (live' ip + 1) := by
    rw [h, ← hip, entryFor, if_neg (Nat.succ_ne_zero _)]
  have hless : decrement (live' ip + 1) = live' ip := decrement_succ (by omega)
  intro ip'
  simp only [Slots.giveBack, hentry, hless]
  by_cases hne : ip' = ip
  · subst hne
    split
    · rename_i hzero
      rw [AList.lookup_erase, hzero, entryFor, if_pos rfl]
    · rename_i hpos
      rw [AList.lookup_insert, entryFor, if_neg hpos]
  · have hsame : t.lookup ip' = entryFor (live' ip') := by rw [h, hother ip' hne]
    split
    · rw [AList.lookup_erase_ne hne, AList.lookup_insert_ne hne, hsame]
    · rw [AList.lookup_insert_ne hne, hsame]

/-! ## The invariant -/

section SetStage

variable {s : Slots IpAddr} {i : Nat} {c : Conn IpAddr} (k : Stage)

theorem liveOf_setStage (h : s.conns[i]? = some c) (ip : IpAddr) :
    (s.setStage i c k).liveOf ip + (c.isLiveOf ip).toNat =
      s.liveOf ip + (Conn.isLiveOf ip { c with stage := k }).toNat :=
  Core.Tally.countP_set_add _ _ h

theorem live_setStage (h : s.conns[i]? = some c) :
    (s.setStage i c k).live + c.isLive.toNat =
      s.live + (Conn.isLive { c with stage := k }).toNat :=
  Core.Tally.countP_set_add _ _ h

theorem between_setStage (h : s.conns[i]? = some c) :
    (s.setStage i c k).between + c.isBetween.toNat =
      s.between + (Conn.isBetween { c with stage := k }).toNat :=
  Core.Tally.countP_set_add _ _ h

/-- A connection counts for its own address only. -/
theorem liveOf_setStage_of_ne (h : s.conns[i]? = some c) {ip : IpAddr} (hne : ip ≠ c.ip) :
    (s.setStage i c k).liveOf ip = s.liveOf ip := by
  have hcount := liveOf_setStage k h ip
  simpa [Conn.isLiveOf, hne.symm] using hcount

/-- Nothing but becoming live or ceasing to be changes how many slots an address has. -/
theorem liveOf_setStage_of_dead (h : s.conns[i]? = some c) (hc : c.stage ≠ .pending)
    (hk : k ≠ .pending) : (s.setStage i c k).liveOf = s.liveOf := by
  funext ip
  have hcount := liveOf_setStage k h ip
  simpa [Conn.isLiveOf, Conn.isLive, hc, hk] using hcount

end SetStage

/-- What holds in every state: the permits add up, and the map counts the live slots. -/
structure Inv (s : Slots IpAddr) : Prop where
  permits : s.live + s.between + s.handshakes = maxPendingHandshakes
  counts : Counts s.pendingByIp s.liveOf
  limit : ∀ ip, s.liveOf ip ≤ maxPendingPerIp

theorem inv_initial : Inv (initial : Slots IpAddr) where
  permits := rfl
  counts _ := rfl
  limit _ := Nat.zero_le _

/-- A step that moves no connection into or out of its slot leaves the map as it is. -/
theorem Inv.of_dead {s : Slots IpAddr} {i : Nat} {c : Conn IpAddr} {k : Stage} (hs : Inv s)
    (free : Nat) (hpc : s.conns[i]? = some c) (hc : c.stage ≠ .pending) (hk : k ≠ .pending)
    (hfree : free + (Conn.isBetween { c with stage := k }).toNat =
      s.handshakes + c.isBetween.toNat) :
    Inv { s.setStage i c k with handshakes := free } where
  permits := by
    have hlive := live_setStage k hpc
    have hbetween := between_setStage k hpc
    have hpermits := hs.permits
    simp only [Conn.isLive, hc, hk, decide_false, Bool.toNat_false] at hlive
    change (s.setStage i c k).live + (s.setStage i c k).between + free = maxPendingHandshakes
    omega
  counts := by
    change Counts s.pendingByIp (s.setStage i c k).liveOf
    rw [liveOf_setStage_of_dead k hpc hc hk]
    exact hs.counts
  limit ip := by
    change (s.setStage i c k).liveOf ip ≤ maxPendingPerIp
    rw [liveOf_setStage_of_dead k hpc hc hk]
    exact hs.limit ip

/-- A connection that holds nothing does not turn up in the counts. -/
theorem Inv.append {s : Slots IpAddr} (hs : Inv s) {c : Conn IpAddr} (hlive : c.isLive = false)
    (hbetween : c.isBetween = false) : Inv { s with conns := s.conns ++ [c] } := by
  have hsame : ∀ p : Conn IpAddr → Bool, p c = false →
      (s.conns ++ [c]).countP p = s.conns.countP p := by
    intro p hp
    rw [List.countP_append, List.countP_singleton, hp]
    simp
  have hliveOf : liveOf { s with conns := s.conns ++ [c] } = s.liveOf := by
    funext ip
    exact hsame _ (by simp [Conn.isLiveOf, hlive])
  constructor
  · have hlive : live { s with conns := s.conns ++ [c] } = s.live := hsame _ hlive
    have hbetween : between { s with conns := s.conns ++ [c] } = s.between := hsame _ hbetween
    rw [hlive, hbetween]
    exact hs.permits
  · rw [hliveOf]
    exact hs.counts
  · rw [hliveOf]
    exact hs.limit

/-- `try_pending` under the lock, where the address has room. -/
theorem Inv.count {s : Slots IpAddr} {i : Nat} {ip : IpAddr} (hs : Inv s)
    (hpc : s.conns[i]? = some ⟨ip, .permitted⟩)
    (hn : ((orInsertZero s.pendingByIp ip).lookup ip).getD 0 < maxPendingPerIp) :
    Inv { s.setStage i ⟨ip, .permitted⟩ .pending with
      pendingByIp := (orInsertZero s.pendingByIp ip).insert ip
        (((orInsertZero s.pendingByIp ip).lookup ip).getD 0 + 1) } := by
  rw [lookup_orInsertZero_getD, hs.counts ip, entryFor_getD] at hn
  -- one live slot more at this address, and no other address is concerned
  have hip : (s.setStage i ⟨ip, .permitted⟩ .pending).liveOf ip = s.liveOf ip + 1 := by
    have hcount := liveOf_setStage .pending hpc ip
    simpa [Conn.isLiveOf, Conn.isLive] using hcount
  have hother : ∀ ip', ip' ≠ ip →
      (s.setStage i ⟨ip, .permitted⟩ .pending).liveOf ip' = s.liveOf ip' :=
    fun ip' hne => liveOf_setStage_of_ne .pending hpc hne
  constructor
  · have hlive := live_setStage .pending hpc
    have hbetween := between_setStage .pending hpc
    have hpermits := hs.permits
    simp only [Conn.isLive, Conn.isBetween, reduceCtorEq, decide_false, decide_true,
      Bool.toNat_false, Bool.toNat_true] at hlive hbetween
    change (s.setStage i ⟨ip, .permitted⟩ .pending).live
      + (s.setStage i ⟨ip, .permitted⟩ .pending).between + s.handshakes = maxPendingHandshakes
    omega
  · exact hs.counts.insert_succ hip hother
  · intro ip'
    change (s.setStage i ⟨ip, .permitted⟩ .pending).liveOf ip' ≤ maxPendingPerIp
    by_cases hne : ip' = ip
    · rw [hne, hip]
      exact hn
    · rw [hother ip' hne]
      exact hs.limit ip'

/-- The body of `drop`. -/
theorem Inv.drop {s : Slots IpAddr} {i : Nat} {ip : IpAddr} {outcome : Outcome} (hs : Inv s)
    (hpc : s.conns[i]? = some ⟨ip, .pending⟩) :
    Inv { s.setStage i ⟨ip, .pending⟩ (.dropping outcome) with
      pendingByIp := Slots.giveBack s.pendingByIp ip } := by
  have hip : (s.setStage i ⟨ip, .pending⟩ (.dropping outcome)).liveOf ip + 1 = s.liveOf ip := by
    have hcount := liveOf_setStage (.dropping outcome) hpc ip
    simpa [Conn.isLiveOf, Conn.isLive] using hcount
  have hother : ∀ ip', ip' ≠ ip →
      (s.setStage i ⟨ip, .pending⟩ (.dropping outcome)).liveOf ip' = s.liveOf ip' :=
    fun ip' hne => liveOf_setStage_of_ne (.dropping outcome) hpc hne
  constructor
  · have hlive := live_setStage (.dropping outcome) hpc
    have hbetween := between_setStage (.dropping outcome) hpc
    have hpermits := hs.permits
    simp only [Conn.isLive, Conn.isBetween, reduceCtorEq, decide_false, decide_true,
      Bool.toNat_false, Bool.toNat_true] at hlive hbetween
    change (s.setStage i ⟨ip, .pending⟩ (.dropping outcome)).live
      + (s.setStage i ⟨ip, .pending⟩ (.dropping outcome)).between + s.handshakes
        = maxPendingHandshakes
    omega
  · exact hs.counts.giveBack (hs.limit ip) hip hother
  · intro ip'
    change (s.setStage i ⟨ip, .pending⟩ (.dropping outcome)).liveOf ip' ≤ maxPendingPerIp
    by_cases hne : ip' = ip
    · have hlimit := hs.limit ip
      rw [hne]
      omega
    · rw [hother ip' hne]
      exact hs.limit ip'

/-- An address at its limit has live slots, so looking at it has not made an entry for it. -/
theorem orInsertZero_of_limit {s : Slots IpAddr} {ip : IpAddr}
    (hn : maxPendingPerIp ≤ ((orInsertZero s.pendingByIp ip).lookup ip).getD 0) :
    orInsertZero s.pendingByIp ip = s.pendingByIp := by
  refine orInsertZero_of_pos ?_
  rw [lookup_orInsertZero_getD] at hn
  exact Nat.lt_of_lt_of_le (by decide) hn

theorem inv_step {s t : Slots IpAddr} {e : Event IpAddr} (hs : Inv s) (hstep : s.step e = some t) :
    Inv t := by
  cases moves_of_step hstep with
  | @arrive ip => exact hs.append rfl rfl
  | @full i ip hpc hfree =>
      exact hs.of_dead (k := .refused) _ hpc (by simp) (by simp) (by simp [Conn.isBetween])
  | @acquire i ip hpc hfree =>
      exact hs.of_dead (k := .permitted) _ hpc (by simp) (by simp) (by simp [Conn.isBetween]; omega)
  | @atLimit i ip hpc hn =>
      -- what `or_insert` could have added is there already
      rw [orInsertZero_of_limit hn]
      exact hs.of_dead (k := .bounced) s.handshakes hpc (by simp) (by simp) (by simp [Conn.isBetween])
  | count hpc hn => exact hs.count hpc hn
  | @bounce i ip hpc =>
      exact hs.of_dead (k := .refused) _ hpc (by simp) (by simp) (by simp [Conn.isBetween])
  | drop hpc => exact hs.drop hpc
  | @release i ip outcome hpc =>
      exact hs.of_dead (k := .over outcome) _ hpc (by simp) (by simp) (by simp [Conn.isBetween])

theorem inv_run {es : List (Event IpAddr)} {s : Slots IpAddr}
    (hrun : machine.run initial es = some s) : Inv s :=
  machine.run_invariant Inv inv_step inv_initial hrun

/-- Where a connection is; `none` if it has not come yet. -/
def stage (s : Slots IpAddr) (i : Nat) : Option Stage := s.conns[i]?.map Conn.stage

/-- Connection `i` does not count: the map and the permits are what the others alone account for. -/
structure Untouched (s : Slots IpAddr) (i : Nat) : Prop where
  counts : Counts s.pendingByIp fun ip => (s.conns.eraseIdx i).countP (Conn.isLiveOf ip)
  permits : (s.conns.eraseIdx i).countP Conn.isLive + (s.conns.eraseIdx i).countP Conn.isBetween
    + s.handshakes = maxPendingHandshakes

theorem Inv.untouched {s : Slots IpAddr} {i : Nat} {c : Conn IpAddr} (hs : Inv s)
    (hpc : s.conns[i]? = some c) (hlive : c.isLive = false) (hbetween : c.isBetween = false) :
    s.Untouched i where
  counts ip := by
    have hcount := Core.Tally.countP_eraseIdx_add (Conn.isLiveOf ip) hpc
    rw [Conn.isLiveOf, hlive, Bool.and_false, Bool.toNat_false, Nat.add_zero] at hcount
    exact (hs.counts ip).trans (congrArg entryFor hcount.symm)
  permits := by
    have hl := Core.Tally.countP_eraseIdx_add Conn.isLive hpc
    have hb := Core.Tally.countP_eraseIdx_add Conn.isBetween hpc
    rw [hlive, Bool.toNat_false, Nat.add_zero] at hl
    rw [hbetween, Bool.toNat_false, Nat.add_zero] at hb
    rw [hl, hb]
    exact hs.permits

/-- Turning a connection away changes neither count: at the permit nothing is taken, and at the address
only the permit that is then given back. -/
theorem turned_away {s t : Slots IpAddr} {e : Event IpAddr} {i : Nat} (hstep : s.step e = some t)
    (he : e = .acquire i ∧ t.stage i = some .refused ∨ e = .count i ∧ t.stage i = some .bounced) :
    t.handshakes = s.handshakes ∧ t.pendingByIp = s.pendingByIp := by
  have hset : ∀ {c : Conn IpAddr} (k : Stage), s.conns[i]? = some c →
      (s.setStage i c k).stage i = some k := by
    intro c k hpc
    obtain ⟨hi, -⟩ := List.getElem?_eq_some_iff.1 hpc
    simp [stage, setStage, hi]
  rcases he with ⟨rfl, hstage⟩ | ⟨rfl, hstage⟩
  · cases moves_of_step hstep with
    | full hpc hfree => exact ⟨rfl, rfl⟩
    | acquire hpc hfree => cases (hset _ hpc).symm.trans hstage
  · cases moves_of_step hstep with
    | atLimit hpc hn => exact ⟨rfl, orInsertZero_of_limit hn⟩
    | count hpc hn => cases (hset _ hpc).symm.trans hstage

/-- What both counters say in a state. -/
structure Counted (s : Slots IpAddr) : Prop where
  /-- Every address is mapped to the number of its live slots. -/
  entries : ∀ ip, (s.pendingByIp.lookup ip).getD 0 = s.liveOf ip
  noZero : ∀ ip, s.pendingByIp.lookup ip ≠ some 0
  perIp : ∀ ip, s.liveOf ip ≤ 16
  total : s.live ≤ 256
  permits : s.live + s.between + s.handshakes = 256
  /-- The decrement in `drop` finds an entry, and not zero in it. -/
  noUnderflow : ∀ (i : Nat) (ip : IpAddr), s.conns[i]? = some ⟨ip, .pending⟩ →
    ∃ n, s.pendingByIp.lookup ip = some n ∧ 1 ≤ n
  refusing : ∀ i e t, s.step e = some t →
    e = .acquire i ∧ t.stage i = some .refused ∨ e = .count i ∧ t.stage i = some .bounced →
      t.handshakes = s.handshakes ∧ t.pendingByIp = s.pendingByIp
  refused : ∀ i, s.stage i = some .refused → s.Untouched i
  drained : s.live = 0 → s.pendingByIp = ∅ ∧ (s.between = 0 → s.handshakes = 256)

theorem liveOf_le_live (s : Slots IpAddr) (ip : IpAddr) : s.liveOf ip ≤ s.live :=
  List.countP_mono_left fun c _ hc => by
    rw [Conn.isLiveOf, Bool.and_eq_true] at hc
    exact hc.2

theorem eq_empty_of_lookup {t : Table IpAddr Nat} (h : ∀ ip, t.lookup ip = none) : t = ∅ := by
  refine AList.ext ?_
  cases hentries : t.entries with
  | nil => rfl
  | cons e es =>
      have hmem : e ∈ t.entries := by simp [hentries]
      have hlookup := Table.lookup_eq_some_iff.2 hmem
      rw [h] at hlookup
      cases hlookup

/-- **Slots are counted exactly.**  In every state of every interleaving of connections that arrive,
take their slots, finish, fail or are dropped, the map and the permits account for the live slots and
the permits momentarily held, and for nothing else. -/
theorem slots_counted (es : List (Event IpAddr)) (s : Slots IpAddr)
    (hrun : machine.run initial es = some s) : s.Counted := by
  have hs := inv_run hrun
  constructor
  case entries =>
    intro ip
    rw [hs.counts ip, entryFor_getD]
  case noZero =>
    intro ip hzero
    rw [hs.counts ip, entryFor] at hzero
    split at hzero
    · cases hzero
    · rename_i hpos
      exact hpos (Option.some.inj hzero)
  case perIp => exact hs.limit
  case total =>
    have hpermits := hs.permits
    rw [maxPendingHandshakes] at hpermits
    omega
  case permits => exact hs.permits
  case noUnderflow =>
    intro i ip hpc
    have hpos : 1 ≤ s.liveOf ip :=
      Core.Tally.one_le_countP hpc (by simp [Conn.isLiveOf, Conn.isLive])
    refine ⟨s.liveOf ip, ?_, hpos⟩
    rw [hs.counts ip, entryFor, if_neg (by omega)]
  case refusing => exact fun i e t hstep he => turned_away hstep he
  case refused =>
    intro i hi
    obtain ⟨⟨ip, k⟩, hpc, rfl⟩ := Option.map_eq_some_iff.1 hi
    exact hs.untouched hpc rfl rfl
  case drained =>
    intro hlive
    refine ⟨eq_empty_of_lookup fun ip => ?_, fun hbetween => ?_⟩
    · have hle := s.liveOf_le_live ip
      rw [hs.counts ip, entryFor, if_pos (by omega)]
    · have hpermits := hs.permits
      rw [hlive, hbetween] at hpermits
      simpa [maxPendingHandshakes] using hpermits

/-- Seventeen connections from one address: the last one is turned away, and one from another address
then has its handshake. -/
def flood : List (Event Nat) :=
  (List.range 17).flatMap (fun i => [.arrive 7, .acquire i, .count i])
    ++ [.bounce 16, .arrive 8, .acquire 17, .count 17, .drop 17 .handshaken, .release 17]

theorem slots_counted_flood :
    ∃ s : Slots Nat, machine.run initial flood = some s ∧ s.Counted ∧ s.liveOf 7 = 16 ∧
      s.Untouched 16 ∧ s.handshakes = 240 := by
  have hend : (machine.run initial flood).map (fun s => (s.liveOf 7, s.stage 16, s.handshakes)) =
      some (16, some .refused, 240) := by
    decide +kernel
  obtain ⟨s, hrun, hend⟩ := Option.map_eq_some_iff.1 hend
  obtain ⟨hlive, hend⟩ := Prod.mk.inj hend
  obtain ⟨hstage, hfree⟩ := Prod.mk.inj hend
  have hcounted := slots_counted flood s hrun
  exact ⟨s, hrun, hcounted, hlive, hcounted.refused 16 hstage, hfree⟩

end Slots
end Pending
end Hub
end Erbridge
