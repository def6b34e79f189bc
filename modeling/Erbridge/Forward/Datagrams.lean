import Erbridge.Core.History
import Erbridge.Core.Tagged
import Erbridge.Forward.Udp

/-!
# Where the datagrams go

What the UDP forwarder does with the datagrams themselves.  The receive loop hands a datagram to the
channel of one session, whose task sends what it finds there to the target one by one; a reply of the
target goes back to the session's client.

* `Udp.received`, `Udp.answered`, `Udp.handed` — what came in from the clients, from the targets, and
  which session each datagram of a client was handed to.
* `Udp.Newest`, `Udp.Turns` — the sessions of a client follow one another.
* `Udp.Path` — one session's datagrams: sent, in its channel, or in the hand of the receive loop.
* `Udp.datagrams_kept` — all of it together, over whole runs.
-/

namespace Erbridge
namespace Forward

/-- The loop of the session's task is over. -/
def Task.ended {α : Type} : Task α → Bool
  | .leaving _ | .over _ => true
  | .unopened | .binding _ | .relaying _ => false

namespace Udp

open Erbridge.Core (Machine Table ownOf)

variable {α : Type}

/-- The datagrams that `recv_from` returned, with their sources. -/
def received (es : List (Event α)) : List (α × List UInt8) :=
  es.filterMap fun e =>
    match e with
    | .recv src data => some (src, data)
    | _ => none

/-- The datagrams of the targets that were sent on, with their sessions. -/
def answered (es : List (Event α)) : List (Nat × List UInt8) :=
  es.filterMap fun e =>
    match e with
    | .reply i data true => some (i, data)
    | _ => none

/-- The datagram that the receive loop holds for the session. -/
def inHand (s : Udp α) (i : Nat) : List (List UInt8) :=
  match s.loop with
  | .sending j data => if j = i then [data] else []
  | _ => []

/-- The event ends a session because its target cannot be bound, connected or sent to. -/
def Event.Cuts (e : Event α) (i : Nat) : Prop :=
  e = .bound i false ∨ e = .forward i false

/-- The target of the session could not be reached at some time. -/
def Unreached (es : List (Event α)) (i : Nat) : Prop :=
  ∃ e ∈ es, e.Cuts i

theorem unreached_concat {es : List (Event α)} {e : Event α} {i : Nat} :
    Unreached (es ++ [e]) i ↔ Unreached es i ∨ e.Cuts i := by
  simp only [Unreached, List.mem_append, List.mem_singleton, or_and_right, exists_or,
    exists_eq_left]

theorem senderless_iff {s : Udp α} {i : Nat} :
    s.Senderless i ↔ (∀ e ∈ s.sessions.entries, e.2.session ≠ i) ∧ s.inHand i = [] := by
  unfold Senderless inHand
  cases s.loop <;> simp

variable [DecidableEq α]

/-- The session whose channel the datagrams of `src` are put into. -/
def sessionFor (s : Udp α) (src : α) : Nat :=
  match s.sessions.lookup src with
  | some e => e.session
  | none => s.next

/-- What the receive loop hands to a session in this step. -/
def handedAt (s : Udp α) : Event α → List (Nat × List UInt8)
  | .recv src data => [(s.sessionFor src, data)]
  | _ => []

/-- What the receive loop has handed to the sessions. -/
def handed (udpIdleSecs : Nat) (es : List (Event α)) : List (Nat × List UInt8) :=
  (machine α udpIdleSecs).history handedAt initial es

variable {udpIdleSecs : Nat} {s s' : Udp α} {e : Event α}

theorem handed_concat {es : List (Event α)}
    (hrun : (machine α udpIdleSecs).run initial es = some s)
    (hstep : s.step udpIdleSecs e = some s') :
    handed udpIdleSecs (es ++ [e]) = handed udpIdleSecs es ++ s.handedAt e :=
  (machine α udpIdleSecs).history_concat hrun hstep

/-! ## The sessions of a client -/

/-- A session keeps its client. -/
theorem src_of_step (hi : Inv s) (hstep : s.step udpIdleSecs e = some s') {i : Nat} {src : α}
    (hsrc : (s.tasks i).src = some src) : (s'.tasks i).src = some src := by
  have hupdate : ∀ {j : Nat} {k : Task α}, k.src = (s.tasks j).src →
      s'.tasks = Function.update s.tasks j k → (s'.tasks i).src = some src := by
    intro j k hk htasks
    rw [htasks]
    rcases eq_or_ne i j with rfl | hne
    · rw [Function.update_self, hk, hsrc]
    · rw [Function.update_of_ne hne, hsrc]
  cases step_eq_some_iff.1 hstep with
  | refresh | recvFails | pass | reap | forward | reply | replySendFails | replyFails | replyStops =>
      exact hsrc
  | @send j data hloop =>
      obtain ⟨queues, hpush⟩ := s.push_eq j data
      rw [hpush]
      exact hsrc
  | @opens src' data hloop hentry =>
      have hlt := hi.lt_next hsrc
      show (Function.update s.tasks s.next _ i).src = _
      rw [Function.update_of_ne (by omega), hsrc]
  | bound hpc | bindFails hpc | forwardFails hpc | closed hpc | remove hpc =>
      exact hupdate (by rw [hpc]; rfl) rfl

/-- The entry of a client is that of the session that was opened last for it. -/
def Newest (s : Udp α) : Prop :=
  ∀ i src e, (s.tasks i).src = some src → s.sessions.lookup src = some e → i ≤ e.session

theorem newest_initial : Newest (initial : Udp α) := by
  rintro i src e hsrc -
  cases hsrc

/-- Only a step that opens a session gives a client to one that had none. -/
theorem src_before_step (hstep : s.step udpIdleSecs e = some s') {i : Nat} {src : α}
    (hsrc : (s'.tasks i).src = some src) :
    (s.tasks i).src = some src
      ∨ ∃ data, e = .recv src data ∧ s.sessions.lookup src = none ∧ i = s.next := by
  have hupdate : ∀ {j : Nat} {k : Task α}, k.src = (s.tasks j).src →
      s'.tasks = Function.update s.tasks j k → (s.tasks i).src = some src := by
    intro j k hk htasks
    rw [htasks] at hsrc
    rcases eq_or_ne i j with rfl | hne
    · rwa [Function.update_self, hk] at hsrc
    · rwa [Function.update_of_ne hne] at hsrc
  cases step_eq_some_iff.1 hstep with
  | refresh | recvFails | pass | reap | forward | reply | replySendFails | replyFails | replyStops =>
      exact Or.inl hsrc
  | @send j data hloop =>
      obtain ⟨queues, hpush⟩ := s.push_eq j data
      rw [hpush] at hsrc
      exact Or.inl hsrc
  | @opens src' data hloop hentry =>
      have hnew : (Function.update s.tasks s.next (.binding src') i).src = some src := hsrc
      rcases eq_or_ne i s.next with rfl | hne
      · rw [Function.update_self] at hnew
        obtain rfl : src' = src := Option.some.inj hnew
        exact Or.inr ⟨data, rfl, hentry, rfl⟩
      · rw [Function.update_of_ne hne] at hnew
        exact Or.inl hnew
  | bound hpc | bindFails hpc | forwardFails hpc | closed hpc | remove hpc =>
      exact Or.inl (hupdate (by rw [hpc]; rfl) rfl)

/-- An entry after the step is an entry from before, or that of the session that is opened. -/
theorem entry_of_step (hstep : s.step udpIdleSecs e = some s') {src : α} {x : UdpSession}
    (hx : s'.sessions.lookup src = some x) :
    (∃ y, s.sessions.lookup src = some y ∧ y.session = x.session)
      ∨ ∃ data, e = .recv src data ∧ s.sessions.lookup src = none ∧ x.session = s.next := by
  cases step_eq_some_iff.1 hstep with
  | @refresh src' data y hloop hentry =>
      rcases Table.lookup_insert_eq_some_iff.1 hx with ⟨rfl, rfl⟩ | ⟨-, hold⟩
      · exact Or.inl ⟨y, hentry, rfl⟩
      · exact Or.inl ⟨x, hold, rfl⟩
  | @opens src' data hloop hentry =>
      rcases Table.lookup_insert_eq_some_iff.1 hx with ⟨rfl, rfl⟩ | ⟨-, hold⟩
      · exact Or.inr ⟨data, rfl, hentry, rfl⟩
      · exact Or.inl ⟨x, hold, rfl⟩
  | @send i data hloop =>
      obtain ⟨queues, hpush⟩ := s.push_eq i data
      rw [hpush] at hx
      exact Or.inl ⟨x, hx, rfl⟩
  | reap => exact Or.inl ⟨x, (Table.lookup_retain_eq_some_iff.1 hx).1, rfl⟩
  | remove => exact Or.inl ⟨x, (Table.lookup_erase_eq_some_iff.1 hx).2, rfl⟩
  | recvFails | pass | bound | bindFails | forward | forwardFails | closed | reply | replySendFails
  | replyFails | replyStops => exact Or.inl ⟨x, hx, rfl⟩

theorem newest_step (hi : Inv s) (h : Newest s) (hstep : s.step udpIdleSecs e = some s') :
    Newest s' := by
  intro i src x hsrc hx
  rcases src_before_step hstep hsrc with hold | ⟨data, rfl, hnone, rfl⟩
  · rcases entry_of_step hstep hx with ⟨y, hy, heq⟩ | ⟨data, -, -, heq⟩
    · rw [← heq]
      exact h i src y hold hy
    · rw [heq]
      exact Nat.le_of_lt (hi.lt_next hold)
  · rcases entry_of_step hstep hx with ⟨y, hy, -⟩ | ⟨data', -, -, heq⟩
    · rw [hnone] at hy
      cases hy
    · exact Nat.le_of_eq heq.symm

/-- No session of the client was opened after the one that its datagrams go to. -/
theorem le_sessionFor (hi : Inv s) (h : Newest s) {i : Nat} {src : α}
    (hsrc : (s.tasks i).src = some src) : i ≤ s.sessionFor src := by
  unfold sessionFor
  cases hentry : s.sessions.lookup src with
  | some x => exact h i src x hsrc hentry
  | none => exact Nat.le_of_lt (hi.lt_next hsrc)

/-- The session that a datagram is handed to is one of its source. -/
theorem src_sessionFor (hi : Inv s) {src : α} {data : List UInt8}
    (hstep : s.step udpIdleSecs (.recv src data) = some s') :
    (s'.tasks (s.sessionFor src)).src = some src := by
  cases step_eq_some_iff.1 hstep with
  | @refresh _ _ x hloop hentry =>
      rw [sessionFor, hentry]
      exact Task.src_of_pending (hi.entries src x hentry)
  | opens hloop hentry =>
      rw [sessionFor, hentry]
      show (Function.update s.tasks s.next _ s.next).src = _
      rw [Function.update_self]
      rfl

/-- Each datagram is handed to a session of its source, in the order received, and the sessions of a
source come one after another. -/
structure Turns (udpIdleSecs : Nat) (es : List (Event α)) (s : Udp α) : Prop where
  opened : ∀ x ∈ handed udpIdleSecs es, ∃ src, (s.tasks x.1).src = some src
  own : (received es).map (fun x => (some x.1, x.2))
    = (handed udpIdleSecs es).map fun x => ((s.tasks x.1).src, x.2)
  sorted : ∀ src, ((handed udpIdleSecs es).filter fun x => (s.tasks x.1).src = some src).Pairwise
    fun x y => x.1 ≤ y.1

theorem turns_nil : Turns udpIdleSecs [] (initial : Udp α) :=
  ⟨fun _ hx => (List.not_mem_nil hx).elim, rfl, fun _ => List.Pairwise.nil⟩

theorem turns_concat {es : List (Event α)} (hi : Inv s) (hnewest : Newest s)
    (h : Turns udpIdleSecs es s) (hrun : (machine α udpIdleSecs).run initial es = some s)
    (hstep : s.step udpIdleSecs e = some s') : Turns udpIdleSecs (es ++ [e]) s' := by
  have hlog := handed_concat hrun hstep
  -- The sessions that have been handed something keep their clients.
  have hsame : ∀ x ∈ handed udpIdleSecs es, (s'.tasks x.1).src = (s.tasks x.1).src := by
    intro x hx
    obtain ⟨src, hsrc⟩ := h.opened x hx
    rw [src_of_step hi hstep hsrc, hsrc]
  have hmap : (handed udpIdleSecs es).map (fun x => ((s'.tasks x.1).src, x.2))
      = (handed udpIdleSecs es).map fun x => ((s.tasks x.1).src, x.2) :=
    List.map_congr_left fun x hx => by rw [hsame x hx]
  have hfilter : ∀ src, (handed udpIdleSecs es).filter (fun x => (s'.tasks x.1).src = some src)
      = (handed udpIdleSecs es).filter fun x => (s.tasks x.1).src = some src :=
    fun src => List.filter_congr fun x hx => by rw [hsame x hx]
  have hkept : s.handedAt e = [] → received (es ++ [e]) = received es →
      Turns udpIdleSecs (es ++ [e]) s' := by
    intro hnone hreceived
    rw [hnone, List.append_nil] at hlog
    constructor
    · intro x hx
      rw [hlog] at hx
      rw [hsame x hx]
      exact h.opened x hx
    · rw [hlog, hmap, hreceived, h.own]
    · intro src
      rw [hlog, hfilter]
      exact h.sorted src
  cases e with
  | recv src data =>
      have hnew := src_sessionFor hi hstep
      have hlog : handed udpIdleSecs (es ++ [.recv src data])
          = handed udpIdleSecs es ++ [(s.sessionFor src, data)] := hlog
      have hreceived : received (es ++ [.recv src data]) = received es ++ [(src, data)] := by
        simp [received]
      constructor
      · intro x hx
        rw [hlog, List.mem_append, List.mem_singleton] at hx
        rcases hx with hx | rfl
        · rw [hsame x hx]
          exact h.opened x hx
        · exact ⟨src, hnew⟩
      · rw [hlog, hreceived, List.map_append, List.map_append, hmap, h.own, List.map_singleton,
          List.map_singleton, hnew]
      · intro src'
        rw [hlog, List.filter_append, hfilter]
        refine List.pairwise_append.2 ⟨h.sorted src', ?_, fun x hx y hy => ?_⟩
        · exact (List.pairwise_singleton _ _).filter _
        · obtain ⟨hy, hsrc'⟩ := List.mem_filter.1 hy
          obtain rfl := List.mem_singleton.1 hy
          simp only [hnew, Option.some.injEq, decide_eq_true_eq] at hsrc'
          obtain rfl := hsrc'
          exact le_sessionFor hi hnewest (by simpa using (List.mem_filter.1 hx).2)
  | _ => exact hkept rfl (by simp [received])

/-- A client's datagrams are those of its sessions, one session after another. -/
theorem Turns.received_eq {es : List (Event α)} (hi : Inv s) (h : Turns udpIdleSecs es s) (src : α) :
    ownOf src (received es) = ((List.range s.next).filter fun i => (s.tasks i).src = some src).flatMap
      fun i => ownOf i (handed udpIdleSecs es) := by
  rw [← Core.map_snd_filter_eq_flatMap (fun i => decide ((s.tasks i).src = some src))
    (fun x _ hx => hi.lt_next (by simpa using hx)) (h.sorted src)]
  have hfilter : ∀ l : List (α × List UInt8), ownOf src l
      = ((l.map fun x => (some x.1, x.2)).filter fun x => x.1 = some src).map Prod.snd := by
    intro l
    rw [List.filter_map, List.map_map, ownOf]
    simp [Function.comp_def]
  rw [hfilter, h.own, List.filter_map, List.map_map]
  rfl

/-! ## One session's datagrams -/

/-- What was handed to session `i` is what its target has, what its channel has, and what the receive
loop holds for it; `cut` says that its target could not be reached. -/
structure Path (log : List (Nat × List UInt8)) (cut : Prop) (s : Udp α) (i : Nat) : Prop where
  front : s.toTarget i <+: ownOf i log
  whole : ¬ cut → ownOf i log = s.toTarget i ++ (s.queues i ++ s.inHand i)
  ended : cut → (s.tasks i).ended = true
  drained : ¬ cut → (s.tasks i).ended = true → s.queues i = [] ∧ s.Senderless i

omit [DecidableEq α] in
theorem path_initial (i : Nat) :
    Path [] (Unreached ([] : List (Event α)) i) (initial : Udp α) i where
  front := List.prefix_rfl
  whole _ := rfl
  ended hcut := by
    obtain ⟨e, he, -⟩ := hcut
    cases he
  drained _ h := by cases h

omit [DecidableEq α] in
/-- While the loop of its task goes on, the session has not lost anything. -/
theorem Path.whole_of_not_ended {log : List (Nat × List UInt8)} {cut : Prop} {i : Nat}
    (h : Path log cut s i) (hended : (s.tasks i).ended = false) :
    ¬ cut ∧ ownOf i log = s.toTarget i ++ (s.queues i ++ s.inHand i) := by
  have hcut : ¬ cut := by
    intro hcut
    rw [h.ended hcut] at hended
    cases hended
  exact ⟨hcut, h.whole hcut⟩

/-- A session without senders stays so. -/
theorem senderless_step {i : Nat} (hlt : i < s.next) (h : s.Senderless i)
    (hstep : s.step udpIdleSecs e = some s') : s'.Senderless i := by
  obtain ⟨hentries, hhand⟩ := senderless_iff.1 h
  refine senderless_iff.2 ⟨fun x hx => ?_, ?_⟩
  · have hx := Table.lookup_eq_some_iff (k := x.1) (v := x.2) |>.2 hx
    rcases entry_of_step hstep hx with ⟨y, hy, heq⟩ | ⟨data, -, -, heq⟩
    · rw [← heq]
      exact hentries _ (Table.lookup_eq_some_iff.1 hy)
    · omega
  · cases step_eq_some_iff.1 hstep with
    | @refresh src data x hloop hentry =>
        have hne := hentries _ (Table.lookup_eq_some_iff.1 hentry)
        simpa [inHand, refresh] using hne
    | opens hloop hentry =>
        simp only [inHand, openSession]
        rw [if_neg (by omega)]
    | send | recvFails => rfl
    | pass | reap | bound | bindFails | forward | forwardFails | closed | reply | replySendFails
    | replyFails | replyStops | remove => exact hhand

omit [DecidableEq α] in
/-- A step that leaves the session's datagrams where they are. -/
theorem Path.of_same {log log' : List (Nat × List UInt8)} {cut cut' : Prop} {i : Nat}
    (h : Path log cut s i) (hown : ownOf i log' = ownOf i log) (hcut : cut' ↔ cut)
    (hended : (s'.tasks i).ended = (s.tasks i).ended) (htarget : s'.toTarget i = s.toTarget i)
    (hqueue : s'.queues i = s.queues i) (hhand : s'.inHand i = s.inHand i)
    (hsender : (s.tasks i).ended = true → s.Senderless i → s'.Senderless i) :
    Path log' cut' s' i := by
  constructor
  · rw [htarget, hown]
    exact h.front
  · intro hnot
    rw [hown, htarget, hqueue, hhand]
    exact h.whole (mt hcut.2 hnot)
  · intro hc
    rw [hended]
    exact h.ended (hcut.1 hc)
  · intro hnot hover
    rw [hended] at hover
    obtain ⟨hempty, hnone⟩ := h.drained (mt hcut.2 hnot) hover
    exact ⟨hqueue.trans hempty, hsender hover hnone⟩

omit [DecidableEq α] in
/-- A datagram is handed to session `j`. -/
theorem path_recv {log : List (Nat × List UInt8)} {cut cut' : Prop} {i j : Nat} {data : List UInt8}
    (h : Path log cut s i) (hcut : cut' ↔ cut) (hloop : s.loop = .receiving)
    (hloop' : s'.loop = .sending j data) (hended : (s'.tasks i).ended = (s.tasks i).ended)
    (htarget : s'.toTarget i = s.toTarget i) (hqueue : s'.queues i = s.queues i)
    (hsender : (s.tasks i).ended = true → s.Senderless i → j ≠ i ∧ s'.Senderless i) :
    Path (log ++ [(j, data)]) cut' s' i := by
  have hhand : s.inHand i = [] := by rw [inHand, hloop]
  have hhand' : s'.inHand i = if j = i then [data] else [] := by rw [inHand, hloop']
  rcases eq_or_ne j i with rfl | hne
  · rw [if_pos rfl] at hhand'
    constructor
    · rw [htarget, Core.ownOf_concat_self]
      exact h.front.trans (List.prefix_append _ _)
    · intro hnot
      rw [Core.ownOf_concat_self, h.whole (mt hcut.2 hnot), htarget, hqueue, hhand, hhand',
        List.append_nil, List.append_assoc]
    · intro hc
      rw [hended]
      exact h.ended (hcut.1 hc)
    · intro hnot hover
      rw [hended] at hover
      obtain ⟨-, hnone⟩ := h.drained (mt hcut.2 hnot) hover
      exact absurd rfl (hsender hover hnone).1
  · rw [if_neg hne] at hhand'
    exact h.of_same (Core.ownOf_concat_other hne _ _) hcut hended htarget hqueue
      (hhand'.trans hhand.symm) fun hover hnone => (hsender hover hnone).2

theorem lt_next_of_ended (hi : Inv s) {i : Nat} (hended : (s.tasks i).ended = true) :
    i < s.next := by
  by_contra hge
  rw [hi.fresh i (by omega)] at hended
  cases hended

omit [DecidableEq α] in
/-- What the receive loop holds goes into the channel. -/
theorem path_send {log : List (Nat × List UInt8)} {cut cut' : Prop} {i j : Nat} {data : List UInt8}
    (h : Path log cut s i) (hcut : cut' ↔ cut) (hloop : s.loop = .sending j data)
    (hsender : (s.tasks i).ended = true → s.Senderless i →
      Senderless { s.push j data with loop := .receiving } i) :
    Path log cut' { s.push j data with loop := .receiving } i := by
  have hhand : s.inHand i = if j = i then [data] else [] := by rw [inHand, hloop]
  rcases eq_or_ne j i with rfl | hne
  · rw [if_pos rfl] at hhand
    -- A session whose task is over without a failure has no sender, so that the loop is not holding one.
    have hgoing : ¬ cut → (s.tasks j).ended = false := by
      intro hnot
      by_contra hover
      obtain ⟨-, hnone⟩ := h.drained hnot (by simpa using hover)
      rw [(senderless_iff.1 hnone).2] at hhand
      cases hhand
    obtain ⟨queues, hpush⟩ := s.push_eq j data
    have htasks : (s.push j data).tasks = s.tasks := by rw [hpush]
    have htarget : (s.push j data).toTarget = s.toTarget := by rw [hpush]
    constructor
    · show (s.push j data).toTarget j <+: _
      rw [htarget]
      exact h.front
    · intro hnot
      have hended := hgoing (mt hcut.2 hnot)
      have hqueue : (s.push j data).queues j = s.queues j ++ [data] := by
        unfold push
        split
        · rename_i hpc
          rw [hpc] at hended
          cases hended
        · exact Function.update_self _ _ _
      show _ = (s.push j data).toTarget j ++ ((s.push j data).queues j ++ [])
      rw [h.whole (mt hcut.2 hnot), htarget, hqueue, hhand, List.append_nil]
    · intro hc
      show ((s.push j data).tasks j).ended = true
      rw [htasks]
      exact h.ended (hcut.1 hc)
    · intro hnot hover
      have hover : ((s.push j data).tasks j).ended = true := hover
      rw [htasks, hgoing (mt hcut.2 hnot)] at hover
      cases hover
  · rw [if_neg hne] at hhand
    have hqueue : (s.push j data).queues i = s.queues i := by
      unfold push
      split
      · rfl
      · exact Function.update_of_ne hne.symm _ _
    obtain ⟨queues, hpush⟩ := s.push_eq j data
    refine h.of_same rfl hcut ?_ ?_ hqueue hhand.symm hsender
    · show ((s.push j data).tasks i).ended = _
      rw [hpush]
    · show (s.push j data).toTarget i = _
      rw [hpush]

/-- Where the datagrams of a session are after one more step. -/
theorem path_concat {log : List (Nat × List UInt8)} {es : List (Event α)} {i : Nat} (hi : Inv s)
    (h : Path log (Unreached es i) s i) (hstep : s.step udpIdleSecs e = some s') :
    Path (log ++ s.handedAt e) (Unreached (es ++ [e]) i) s' i := by
  have hsender : (s.tasks i).ended = true → s.Senderless i → s'.Senderless i :=
    fun hover hnone => senderless_step (lt_next_of_ended hi hover) hnone hstep
  have hcut : ¬ e.Cuts i → (Unreached (es ++ [e]) i ↔ Unreached es i) := by
    intro hnot
    rw [unreached_concat]
    exact ⟨fun h => h.resolve_right hnot, Or.inl⟩
  have hlog : s.handedAt e = [] → log ++ s.handedAt e = log := by
    intro hnone
    rw [hnone, List.append_nil]
  have hother : ∀ {j : Nat} {k : Task α}, j ≠ i → ((Function.update s.tasks j k) i).ended
      = (s.tasks i).ended := by
    intro j k hne
    rw [Function.update_of_ne hne.symm]
  cases step_eq_some_iff.1 hstep with
  | @refresh src data x hloop hentry =>
      have hto : s.sessionFor src = x.session := by rw [sessionFor, hentry]
      show Path (log ++ [(s.sessionFor src, data)]) _ _ _
      rw [hto]
      refine path_recv h (hcut (by simp [Event.Cuts])) hloop rfl rfl rfl rfl fun hover hnone => ?_
      exact ⟨(senderless_iff.1 hnone).1 _ (Table.lookup_eq_some_iff.1 hentry), hsender hover hnone⟩
  | @opens src data hloop hentry =>
      have hto : s.sessionFor src = s.next := by rw [sessionFor, hentry]
      show Path (log ++ [(s.sessionFor src, data)]) _ _ _
      rw [hto]
      refine path_recv h (hcut (by simp [Event.Cuts])) hloop rfl ?_ rfl rfl fun hover hnone => ?_
      · show ((Function.update s.tasks s.next (.binding src)) i).ended = _
        rcases eq_or_ne s.next i with rfl | hne
        · rw [Function.update_self, hi.fresh _ (Nat.le_refl _)]
          rfl
        · exact hother hne
      · have hlt := lt_next_of_ended hi hover
        exact ⟨by omega, hsender hover hnone⟩
  | recvFails hloop =>
      rw [hlog rfl]
      refine h.of_same rfl (hcut (by simp [Event.Cuts])) rfl rfl rfl ?_ hsender
      rw [inHand, inHand, hloop]
  | @send j data hloop =>
      rw [hlog rfl]
      exact path_send h (hcut (by simp [Event.Cuts])) hloop hsender
  | pass | reap | reply | replySendFails | replyFails | replyStops =>
      rw [hlog rfl]
      exact h.of_same rfl (hcut (by simp [Event.Cuts])) rfl rfl rfl rfl hsender
  | @bound j src hpc =>
      rw [hlog rfl]
      refine h.of_same rfl (hcut (by simp [Event.Cuts])) ?_ rfl rfl rfl hsender
      show ((Function.update s.tasks j (.relaying src)) i).ended = _
      rcases eq_or_ne j i with rfl | hne
      · rw [Function.update_self, hpc]
        rfl
      · exact hother hne
  | @bindFails j src hpc =>
      rw [hlog rfl]
      rcases eq_or_ne j i with rfl | hne
      · have hnow : Unreached (es ++ [.bound j false]) j := unreached_concat.2 (Or.inr (Or.inl rfl))
        refine ⟨h.front, fun hnot => absurd hnow hnot, fun _ => ?_, fun hnot => absurd hnow hnot⟩
        show ((Function.update s.tasks j (.leaving src)) j).ended = true
        rw [Function.update_self]
        rfl
      · exact h.of_same rfl (hcut (by simp [Event.Cuts, hne])) (hother hne) rfl rfl rfl hsender
  | @forward j src data rest hpc hqueue =>
      rw [hlog rfl]
      rcases eq_or_ne j i with rfl | hne
      · have hgoing : (s.tasks j).ended = false := by
          rw [hpc]
          rfl
        obtain ⟨hnot, hwhole⟩ := h.whole_of_not_ended hgoing
        have hkept := hcut (by simp [Event.Cuts])
        have hwhole : ownOf j log = (s.toTarget j ++ [data]) ++ (rest ++ s.inHand j) := by
          rw [hwhole, hqueue]
          simp
        constructor
        · show Function.update s.toTarget j _ j <+: _
          rw [Function.update_self, hwhole]
          exact List.prefix_append _ _
        · intro _
          show _ = Function.update s.toTarget j _ j ++ (Function.update s.queues j rest j ++ s.inHand j)
          rw [Function.update_self, Function.update_self]
          exact hwhole
        · exact fun hc => absurd (hkept.1 hc) hnot
        · intro _ hover
          have hover : (s.tasks j).ended = true := hover
          rw [hgoing] at hover
          cases hover
      · exact h.of_same rfl (hcut (by simp [Event.Cuts])) rfl (Function.update_of_ne hne.symm _ _)
          (Function.update_of_ne hne.symm _ _) rfl hsender
  | @forwardFails j src data rest hpc hqueue =>
      rw [hlog rfl]
      rcases eq_or_ne j i with rfl | hne
      · have hnow : Unreached (es ++ [.forward j false]) j :=
          unreached_concat.2 (Or.inr (Or.inr rfl))
        refine ⟨h.front, fun hnot => absurd hnow hnot, fun _ => ?_, fun hnot => absurd hnow hnot⟩
        show ((Function.update s.tasks j (.leaving src)) j).ended = true
        rw [Function.update_self]
        rfl
      · exact h.of_same rfl (hcut (by simp [Event.Cuts, hne])) (hother hne) rfl
          (Function.update_of_ne hne.symm _ _) rfl hsender
  | @closed j src hpc hqueue hnone =>
      rw [hlog rfl]
      rcases eq_or_ne j i with rfl | hne
      · have hgoing : (s.tasks j).ended = false := by
          rw [hpc]
          rfl
        obtain ⟨hnot, hwhole⟩ := h.whole_of_not_ended hgoing
        have hkept := hcut (by simp [Event.Cuts])
        exact ⟨h.front, fun _ => hwhole, fun hc => absurd (hkept.1 hc) hnot, fun _ _ => ⟨hqueue, hnone⟩⟩
      · exact h.of_same rfl (hcut (by simp [Event.Cuts])) (hother hne) rfl rfl rfl hsender
  | @remove j src hpc =>
      rw [hlog rfl]
      refine h.of_same rfl (hcut (by simp [Event.Cuts])) ?_ rfl rfl rfl hsender
      show ((Function.update s.tasks j (.over src)) i).ended = _
      rcases eq_or_ne j i with rfl | hne
      · rw [Function.update_self, hpc]
        rfl
      · exact hother hne

/-! ## Replies -/

/-- Each reply of a session's target was sent to the session's client. -/
structure Replies (es : List (Event α)) (s : Udp α) : Prop where
  opened : ∀ x ∈ answered es, ∃ src, (s.tasks x.1).src = some src
  own : s.toClients.map (fun x => (some x.1, x.2))
    = (answered es).map fun x => ((s.tasks x.1).src, x.2)

theorem replies_concat {es : List (Event α)} (hi : Inv s) (h : Replies es s)
    (hstep : s.step udpIdleSecs e = some s') : Replies (es ++ [e]) s' := by
  have hsame : ∀ x ∈ answered es, (s'.tasks x.1).src = (s.tasks x.1).src := by
    intro x hx
    obtain ⟨src, hsrc⟩ := h.opened x hx
    rw [src_of_step hi hstep hsrc, hsrc]
  have hmap : (answered es).map (fun x => ((s'.tasks x.1).src, x.2))
      = (answered es).map fun x => ((s.tasks x.1).src, x.2) :=
    List.map_congr_left fun x hx => by rw [hsame x hx]
  have hkept : answered (es ++ [e]) = answered es → s'.toClients = s.toClients →
      Replies (es ++ [e]) s' := by
    intro hnone hclients
    refine ⟨fun x hx => ?_, ?_⟩
    · rw [hnone] at hx
      rw [hsame x hx]
      exact h.opened x hx
    · rw [hnone, hclients, hmap, h.own]
  cases step_eq_some_iff.1 hstep with
  | @reply i src data hsrc hlive =>
      have hanswered : answered (es ++ [.reply i data true]) = answered es ++ [(i, data)] := by
        simp [answered]
      refine ⟨fun x hx => ?_, ?_⟩
      · rw [hanswered, List.mem_append, List.mem_singleton] at hx
        rcases hx with hx | rfl
        · rw [hsame x hx]
          exact h.opened x hx
        · exact ⟨src, hsrc⟩
      · show (s.toClients ++ [(src, data)]).map _ = _
        rw [hanswered, List.map_append, List.map_append, h.own, List.map_singleton,
          List.map_singleton]
        show _ = _ ++ [((s.tasks i).src, data)]
        rw [hsrc]
  | @send i data hloop =>
      obtain ⟨queues, hpush⟩ := s.push_eq i data
      refine hkept (by simp [answered]) ?_
      show (s.push i data).toClients = _
      rw [hpush]
  | refresh | opens | recvFails | pass | reap | bound | bindFails | forward | forwardFails | closed
  | replySendFails | replyFails | replyStops | remove => exact hkept (by simp [answered]) rfl

/-! ## Whole runs -/

/-- Where the datagrams of a run are in the state that it leads to. -/
structure Carried (udpIdleSecs : Nat) (es : List (Event α)) (s : Udp α) : Prop where
  /-- A client's datagrams are handed to its sessions, one session after another. -/
  turns : ∀ src, ownOf src (received es)
    = ((List.range s.next).filter fun i => (s.tasks i).src = some src).flatMap
        fun i => ownOf i (handed udpIdleSecs es)
  front : ∀ i, s.toTarget i <+: ownOf i (handed udpIdleSecs es)
  whole : ∀ i, ¬ Unreached es i →
    ownOf i (handed udpIdleSecs es) = s.toTarget i ++ (s.queues i ++ s.inHand i)
  delivered : ∀ i src, s.tasks i = .over src → ¬ Unreached es i →
    s.toTarget i = ownOf i (handed udpIdleSecs es)
  /-- A reply goes to the client of its session. -/
  replies : s.toClients.map (fun x => (some x.1, x.2))
    = (answered es).map fun x => ((s.tasks x.1).src, x.2)

/-- **The forwarder keeps every session's datagrams.**  In every run each datagram of a client is handed
to one of its sessions, later ones to later sessions; a session's target gets them in order, each once
and as it was, and all of them where the target can be reached; and replies go back to the session's
client, in order. -/
theorem datagrams_kept (udpIdleSecs : Nat) {es : List (Event α)} {s : Udp α}
    (hrun : (machine α udpIdleSecs).run initial es = some s) : Carried udpIdleSecs es s := by
  obtain ⟨hi, -, hturns, hpath, hreplies⟩ : Inv s ∧ Newest s ∧ Turns udpIdleSecs es s
      ∧ (∀ i, Path (handed udpIdleSecs es) (Unreached es i) s i) ∧ Replies es s := by
    refine (machine α udpIdleSecs).run_induction (fun es s => Inv s ∧ Newest s
      ∧ Turns udpIdleSecs es s ∧ (∀ i, Path (handed udpIdleSecs es) (Unreached es i) s i)
      ∧ Replies es s) ?_ ?_ hrun
    · exact ⟨inv_initial, newest_initial, turns_nil, path_initial, by simp [answered], rfl⟩
    · rintro es s e s' hrun ⟨hi, hnewest, hturns, hpath, hreplies⟩ hstep
      refine ⟨inv_step hi hstep, newest_step hi hnewest hstep,
        turns_concat hi hnewest hturns hrun hstep, fun i => ?_, replies_concat hi hreplies hstep⟩
      rw [handed_concat hrun hstep]
      exact path_concat hi (hpath i) hstep
  refine ⟨hturns.received_eq hi, fun i => (hpath i).front, fun i => (hpath i).whole, ?_,
    hreplies.own⟩
  intro i src hover hreached
  have hended : (s.tasks i).ended = true := by
    rw [hover]
    rfl
  obtain ⟨hqueue, hnone⟩ := (hpath i).drained hreached hended
  rw [(hpath i).whole hreached, hqueue, (senderless_iff.1 hnone).2, List.append_nil,
    List.append_nil]

/-- A client is answered, falls silent, and sends again over a second session. -/
def answeredRun : List (Event Nat) :=
  [.recv 7 [1], .send, .bound 0 true, .forward 0 true, .reply 0 [9] true, .pass 60000000000, .reap,
    .recv 7 [2], .send, .closed 0, .bound 1 true, .forward 1 true, .remove 0]

theorem datagrams_kept_answeredRun :
    ∃ s, (machine Nat 60).run initial answeredRun = some s ∧ s.toTarget 0 = [[1]]
      ∧ s.toTarget 1 = [[2]] ∧ s.toClients = [(7, [9])] ∧ Carried 60 answeredRun s := by
  have hend : ((machine Nat 60).run initial answeredRun).map
      (fun s => (s.toTarget 0, s.toTarget 1, s.toClients)) = some ([[1]], [[2]], [(7, [9])]) := by
    decide +kernel
  obtain ⟨s, hrun, hstate⟩ := Option.map_eq_some_iff.1 hend
  simp only [Prod.mk.injEq] at hstate
  exact ⟨s, hrun, hstate.1, hstate.2.1, hstate.2.2, datagrams_kept 60 hrun⟩

end Udp

end Forward
end Erbridge
