import Erbridge.Forward.Udp

/-!
# When the reaper ends a session

A run of the UDP forwarder with a record of the datagrams that pass: received from a client, sent to the
target, sent to a client.  The reaper looks at `last_active`, which the receive loop sets and nobody else.

* `Event.passing`, `Watched.step` — the record.
* `Watched.evicts_iff` — which sessions a tick ends.
* `Watched.LateReply` — a datagram was sent for a session after its client had fallen silent.
* `Watched.evicted_rested_iff` — the runs in which only sessions at rest are ended.
* `Watched.replies_cut_off` — a session is ended right after a reply.
-/

namespace Erbridge
namespace Forward

open Erbridge.Core (Machine Table)

/-- How a datagram of a session passes. -/
inductive Way
  | received
  | sent
  | replied
deriving DecidableEq

structure Passing where
  session : Nat
  way : Way
  time : Nat
deriving DecidableEq

/-- The forwarder, with the datagrams that have passed. -/
structure Watched (α : Type) where
  udp : Udp α
  passings : List Passing

namespace Watched

open Udp (Event)

variable {α : Type}

def initial : Watched α := ⟨Udp.initial, []⟩

/-- No datagram of the session has passed for the idle time. -/
def Rested (udpIdleSecs : Nat) (w : Watched α) (i : Nat) : Prop :=
  ∀ p ∈ w.passings, p.session = i → Udp.idle udpIdleSecs ≤ w.udp.now - p.time

/-- The map has an entry of the session. -/
def Holds (s : Udp α) (i : Nat) : Prop := ∃ e ∈ s.sessions.entries, e.2.session = i

/-- A session whose client has been silent for the idle time has had a datagram sent to its target or to
its client since then. -/
def LateReply (udpIdleSecs : Nat) (w : Watched α) : Prop :=
  ∃ e ∈ w.udp.sessions.entries, Udp.idle udpIdleSecs ≤ w.udp.now - e.2.lastActive ∧
    ∃ p ∈ w.passings, p.session = e.2.session ∧ p.way ≠ .received ∧
      w.udp.now - p.time < Udp.idle udpIdleSecs

variable [DecidableEq α]

/-- The session of which the event lets a datagram pass, and how. -/
def passing (s : Udp α) : Event α → Option (Nat × Way)
  | .recv src _ =>
      match s.sessions.lookup src with
      | some e => some (e.session, .received)
      | none => some (s.next, .received)
  | .forward i true => some (i, .sent)
  | .reply i _ true => some (i, .replied)
  | _ => none

/-- The event happens, and a datagram that passes is noted. -/
def step (udpIdleSecs : Nat) (w : Watched α) (e : Event α) : Option (Watched α) :=
  (w.udp.step udpIdleSecs e).map fun t =>
    ⟨t, w.passings ++ (passing w.udp e).toList.map fun p => ⟨p.1, p.2, w.udp.now⟩⟩

def machine (α : Type) [DecidableEq α] (udpIdleSecs : Nat) : Machine (Watched α) (Event α) where
  step := step udpIdleSecs

/-- Whenever the reaper ticks, the sessions that it ends are at rest. -/
def EvictsRested (udpIdleSecs : Nat) (es : List (Event α)) : Prop :=
  ∀ fs w t, fs ++ [.reap] <+: es → (machine α udpIdleSecs).run initial fs = some w →
    w.step udpIdleSecs .reap = some t → ∀ i, Holds w.udp i → ¬Holds t.udp i → w.Rested udpIdleSecs i

/-- No tick finds a session that has had a datagram sent after its client had fallen silent. -/
def NoLateReply (udpIdleSecs : Nat) (w : Watched α) (e : Event α) : Prop :=
  e = .reap → ¬w.LateReply udpIdleSecs

variable {udpIdleSecs : Nat} {w t : Watched α}

theorem step_eq_some_iff {e : Event α} :
    w.step udpIdleSecs e = some t ↔ Udp.Moves udpIdleSecs w.udp e t.udp ∧
      t.passings = w.passings ++ (passing w.udp e).toList.map fun p => ⟨p.1, p.2, w.udp.now⟩ := by
  rw [step, Option.map_eq_some_iff]
  constructor
  · rintro ⟨s, hs, rfl⟩
    exact ⟨Udp.step_eq_some_iff.1 hs, rfl⟩
  · rintro ⟨hs, hpass⟩
    refine ⟨t.udp, Udp.step_eq_some_iff.2 hs, ?_⟩
    rw [← hpass]

theorem mem_entries_iff {s : Udp α} {src : α} {e : UdpSession} :
    (⟨src, e⟩ : Sigma fun _ : α => UdpSession) ∈ s.sessions.entries ↔ s.sessions.lookup src = some e :=
  Table.lookup_eq_some_iff.symm

theorem holds_iff {s : Udp α} {i : Nat} :
    Holds s i ↔ ∃ src e, s.sessions.lookup src = some e ∧ e.session = i := by
  constructor
  · rintro ⟨⟨src, e⟩, he, hi⟩
    exact ⟨src, e, mem_entries_iff.1 he, hi⟩
  · rintro ⟨src, e, he, hi⟩
    exact ⟨⟨src, e⟩, mem_entries_iff.2 he, hi⟩

/-- `last_active` is when the last datagram was received from the client, and the sessions are numbered in
order. -/
structure Noted (w : Watched α) : Prop where
  inv : Udp.Inv w.udp
  lt_next : ∀ p ∈ w.passings, p.session < w.udp.next
  past : ∀ p ∈ w.passings, p.time ≤ w.udp.now
  le_now : ∀ src e, w.udp.sessions.lookup src = some e → e.lastActive ≤ w.udp.now
  le_active : ∀ src e, w.udp.sessions.lookup src = some e → ∀ p ∈ w.passings,
    p.session = e.session → p.way = .received → p.time ≤ e.lastActive

theorem noted_initial : (initial : Watched α).Noted where
  inv := Udp.inv_initial
  lt_next := by simp [initial]
  past := by simp [initial]
  le_now := fun src e he => by simp [initial, Udp.initial] at he
  le_active := by simp [initial]

/-- No two entries are of the same session. -/
theorem Noted.src_eq (h : w.Noted) {src src' : α} {e e' : UdpSession}
    (he : w.udp.sessions.lookup src = some e) (he' : w.udp.sessions.lookup src' = some e')
    (hsame : e.session = e'.session) : src = src' := by
  have hfirst := h.inv.entries src e he
  rw [hsame, h.inv.entries src' e' he'] at hfirst
  exact (Option.some.inj hfirst).symm

/-- A step that lets no datagram in and brings no entry into the map. -/
theorem Noted.of_sub (h : w.Noted) (hinv : Udp.Inv t.udp) (hnext : t.udp.next = w.udp.next)
    (hnow : w.udp.now ≤ t.udp.now)
    (hsub : ∀ src e, t.udp.sessions.lookup src = some e → w.udp.sessions.lookup src = some e)
    (hpass : ∀ p ∈ t.passings, p ∈ w.passings ∨
      p.session < w.udp.next ∧ p.way ≠ .received ∧ p.time = w.udp.now) : t.Noted where
  inv := hinv
  lt_next := fun p hp => by
    rw [hnext]
    exact (hpass p hp).elim (h.lt_next p) fun hnew => hnew.1
  past := fun p hp => by
    rcases hpass p hp with hold | hnew
    · exact Nat.le_trans (h.past p hold) hnow
    · exact hnew.2.2 ▸ hnow
  le_now := fun src e he => Nat.le_trans (h.le_now src e (hsub src e he)) hnow
  le_active := fun src e he p hp hsame hway => by
    rcases hpass p hp with hold | hnew
    · exact h.le_active src e (hsub src e he) p hold hsame hway
    · exact absurd hway hnew.2.1

/-- A datagram is received: the entry of its session, which is the only one of it, is of now. -/
theorem Noted.received (h : w.Noted) (hinv : Udp.Inv t.udp) {src : α} {i : Nat}
    (hsessions : t.udp.sessions = w.udp.sessions.insert src ⟨i, w.udp.now⟩)
    (hnow : t.udp.now = w.udp.now) (hlt : i < t.udp.next) (hle : w.udp.next ≤ t.udp.next)
    (hown : ∀ src' e, src' ≠ src → w.udp.sessions.lookup src' = some e → e.session ≠ i)
    (hpass : t.passings = w.passings ++ [⟨i, .received, w.udp.now⟩]) : t.Noted where
  inv := hinv
  lt_next := fun p hp => by
    rw [hpass] at hp
    rcases List.mem_append.1 hp with hold | hnew
    · exact Nat.lt_of_lt_of_le (h.lt_next p hold) hle
    · exact List.mem_singleton.1 hnew ▸ hlt
  past := fun p hp => by
    rw [hnow]
    rw [hpass] at hp
    rcases List.mem_append.1 hp with hold | hnew
    · exact h.past p hold
    · exact List.mem_singleton.1 hnew ▸ Nat.le_refl _
  le_now := fun src' e he => by
    rw [hnow]
    rw [hsessions] at he
    rcases Table.lookup_insert_eq_some_iff.1 he with ⟨-, rfl⟩ | ⟨-, hold⟩
    · exact Nat.le_refl _
    · exact h.le_now src' e hold
  le_active := fun src' e he p hp hsame hway => by
    rw [hsessions] at he
    rw [hpass] at hp
    rcases Table.lookup_insert_eq_some_iff.1 he with ⟨-, rfl⟩ | ⟨hne, hold⟩
    · rcases List.mem_append.1 hp with hp | hp
      · exact h.past p hp
      · exact List.mem_singleton.1 hp ▸ Nat.le_refl _
    · rcases List.mem_append.1 hp with hp | hp
      · exact h.le_active src' e hold p hp hsame hway
      · obtain rfl := List.mem_singleton.1 hp
        exact absurd hsame.symm (hown src' e hne hold)

theorem noted_step {e : Event α} (h : w.Noted) (hstep : w.step udpIdleSecs e = some t) : t.Noted := by
  obtain ⟨hmoves, hpass⟩ := step_eq_some_iff.1 hstep
  have hinv := Udp.inv_step h.inv (Udp.step_eq_some_iff.2 hmoves)
  obtain ⟨s, passings⟩ := t
  change passings = _ at hpass
  -- what is noted in a step that lets nothing in: nothing, or one datagram that went out
  have hnone : passing w.udp e = none → ∀ p ∈ passings, p ∈ w.passings ∨
      p.session < w.udp.next ∧ p.way ≠ .received ∧ p.time = w.udp.now := fun hno p hp => by
    rw [hpass, hno] at hp
    exact Or.inl (by simpa using hp)
  have hone : ∀ {i way}, i < w.udp.next → way ≠ .received → passing w.udp e = some (i, way) →
      ∀ p ∈ passings, p ∈ w.passings ∨
        p.session < w.udp.next ∧ p.way ≠ .received ∧ p.time = w.udp.now :=
    fun hlt hway hsome p hp => by
      rw [hpass, hsome] at hp
      rcases List.mem_append.1 hp with hold | hnew
      · exact Or.inl hold
      · obtain rfl := List.mem_singleton.1 hnew
        exact Or.inr ⟨hlt, hway, rfl⟩
  cases hmoves with
  | @refresh src data entry hloop hentry =>
      refine h.received hinv (i := entry.session) rfl rfl ?_ (Nat.le_refl _) ?_ ?_
      · exact h.inv.lt_next_of_pending (h.inv.entries src entry hentry)
      · exact fun src' e' hne he' hsame => hne (h.src_eq he' hentry hsame)
      · rw [hpass, passing, hentry]
        rfl
  | @opens src data hloop hentry =>
      refine h.received hinv (i := w.udp.next) rfl rfl (Nat.lt_succ_self _) (Nat.le_succ _) ?_ ?_
      -- the sessions there are have smaller numbers
      · intro src' e' hne he' hsame
        have hlt := h.inv.lt_next_of_pending (h.inv.entries src' e' he')
        omega
      · rw [hpass, passing, hentry]
        rfl
  | recvFails | bound | bindFails | forwardFails | closed | replySendFails | replyFails | replyStops =>
      exact h.of_sub hinv rfl (Nat.le_refl _) (fun src e he => he) (hnone rfl)
  | @send i data hloop =>
      obtain ⟨queues, hpush⟩ := w.udp.push_eq i data
      have hnext : (w.udp.push i data).next = w.udp.next := by rw [hpush]
      have hnow : (w.udp.push i data).now = w.udp.now := by rw [hpush]
      have hsessions : (w.udp.push i data).sessions = w.udp.sessions := by rw [hpush]
      exact h.of_sub hinv hnext (Nat.le_of_eq hnow.symm) (fun src e he => hsessions ▸ he) (hnone rfl)
  | @pass n => exact h.of_sub hinv rfl (Nat.le_add_right _ _) (fun src e he => he) (hnone rfl)
  | reap =>
      exact h.of_sub hinv rfl (Nat.le_refl _)
        (fun src e he => (Table.lookup_retain_eq_some_iff.1 he).1) (hnone rfl)
  | @forward i src data rest hpc hqueue =>
      have hlt : i < w.udp.next := h.inv.lt_next (show (w.udp.tasks i).src = some src by rw [hpc]; rfl)
      exact h.of_sub hinv rfl (Nat.le_refl _) (fun src e he => he) (hone hlt (by decide) rfl)
  | @reply i src data hpc hlive =>
      exact h.of_sub hinv rfl (Nat.le_refl _) (fun src e he => he)
        (hone (h.inv.lt_next hpc) (by decide) rfl)
  | @remove i src hpc =>
      exact h.of_sub hinv rfl (Nat.le_refl _)
        (fun src e he => (Table.lookup_erase_eq_some_iff.1 he).2) (hnone rfl)

theorem noted_run {es : List (Event α)} (hrun : (machine α udpIdleSecs).run initial es = some w) :
    w.Noted :=
  (machine α udpIdleSecs).run_invariant Noted (fun h hstep => noted_step h hstep) noted_initial hrun

/-- **What a tick ends**: the sessions whose client has been silent for the idle time. -/
theorem evicts_iff (h : w.Noted) (hstep : w.step udpIdleSecs .reap = some t) {i : Nat} :
    Holds w.udp i ∧ ¬Holds t.udp i ↔ ∃ src e, w.udp.sessions.lookup src = some e ∧ e.session = i ∧
      Udp.idle udpIdleSecs ≤ w.udp.now - e.lastActive := by
  obtain ⟨s, hs, rfl⟩ := Option.map_eq_some_iff.1 hstep
  cases hs
  have hkept : ∀ src e, (w.udp.reapIdle udpIdleSecs).sessions.lookup src = some e ↔
      w.udp.sessions.lookup src = some e ∧ w.udp.now - e.lastActive < Udp.idle udpIdleSecs :=
    fun src e => Table.lookup_retain_eq_some_iff.trans (and_congr_right fun _ => decide_eq_true_iff)
  rw [holds_iff, holds_iff]
  constructor
  · rintro ⟨⟨src, e, he, hi⟩, hgone⟩
    refine ⟨src, e, he, hi, Nat.le_of_not_lt fun hlt => hgone ⟨src, e, ?_, hi⟩⟩
    exact (hkept src e).2 ⟨he, hlt⟩
  · rintro ⟨src, e, he, hi, hidle⟩
    refine ⟨⟨src, e, he, hi⟩, ?_⟩
    rintro ⟨src', e', he', hi'⟩
    -- an entry of the session that is left would be the one that is ended
    obtain ⟨hold, hactive⟩ := (hkept src' e').1 he'
    obtain rfl := h.src_eq hold he (hi'.trans hi.symm)
    rw [he] at hold
    cases hold
    omega

/-- A session that a tick ends is at rest unless a datagram was sent after its client had fallen silent. -/
theorem evicts_rested_iff (h : w.Noted) (hstep : w.step udpIdleSecs .reap = some t) :
    (∀ i, Holds w.udp i → ¬Holds t.udp i → w.Rested udpIdleSecs i) ↔ ¬w.LateReply udpIdleSecs := by
  constructor
  · rintro hrested ⟨⟨src, e⟩, he, hidle, p, hp, hsame, -, hlate⟩
    obtain ⟨hheld, hgone⟩ := (evicts_iff h hstep).2 ⟨src, e, mem_entries_iff.1 he, rfl, hidle⟩
    have hrest := hrested e.session hheld hgone p hp hsame
    omega
  · intro hnot i hheld hgone p hp hi
    obtain ⟨src, e, he, rfl, hidle⟩ := (evicts_iff h hstep).1 ⟨hheld, hgone⟩
    by_cases hway : p.way = .received
    -- what came from the client came before it fell silent
    · have hle := h.le_active src e he p hp hi hway
      omega
    · by_contra hlt
      exact hnot ⟨⟨src, e⟩, mem_entries_iff.2 he, hidle, p, hp, hi, hway, by omega⟩

/-- **When the reaper ends only sessions at rest.**  In a run every session that a tick ends has let no
datagram pass for the idle time, in either direction, if and only if no tick finds a session that has
had a datagram sent after its client had fallen silent. -/
theorem evicted_rested_iff (udpIdleSecs : Nat) (es : List (Event α)) :
    EvictsRested udpIdleSecs es ↔
      (machine α udpIdleSecs).Meets (NoLateReply udpIdleSecs) initial es := by
  rw [(machine α udpIdleSecs).meets_iff_forall_step]
  constructor
  · rintro h fs e w hfs hrun rfl
    have hstep : w.step udpIdleSecs .reap = some ⟨w.udp.reapIdle udpIdleSecs, w.passings ++ []⟩ := rfl
    exact (evicts_rested_iff (noted_run hrun) hstep).1 (h fs w _ hfs hrun hstep)
  · intro h fs w t hfs hrun hstep
    exact (evicts_rested_iff (noted_run hrun) hstep).2 (h fs .reap w hfs hrun rfl)

/-- The target answers one request of a client with a reply every ten seconds. -/
def answeredRun : List (Event Nat) :=
  [.recv 7 [1], .send, .bound 0 true, .forward 0 true] ++
    (List.replicate 6 [.pass 10000000000, .reply 0 [2] true]).flatten

/-- **A session whose target keeps sending is cut off**: the tick comes right after a reply. -/
theorem replies_cut_off : ¬∀ es : List (Event Nat), EvictsRested 60 es := by
  intro h
  have hend : ((machine Nat 60).run initial answeredRun).map
      (fun w => (w.udp.now, w.udp.sessions.lookup 7, w.passings.getLast?)) =
        some (60000000000, some ⟨0, 0⟩, some ⟨0, .replied, 60000000000⟩) := by
    decide +kernel
  obtain ⟨w, hrun, hw⟩ := Option.map_eq_some_iff.1 hend
  simp only [Prod.mk.injEq] at hw
  obtain ⟨hnow, hentry, hlast⟩ := hw
  have hstep : w.step 60 .reap = some ⟨w.udp.reapIdle 60, w.passings ++ []⟩ := rfl
  obtain ⟨hheld, hgone⟩ := (evicts_iff (noted_run hrun) hstep).2
    ⟨7, ⟨0, 0⟩, hentry, rfl, by rw [hnow]; decide⟩
  have hrest := h (answeredRun ++ [.reap]) answeredRun w _ (List.prefix_refl _) hrun hstep 0 hheld hgone
    _ (List.mem_of_getLast? hlast) rfl
  rw [hnow] at hrest
  exact absurd hrest (by decide)

end Watched

end Forward
end Erbridge
