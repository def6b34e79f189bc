import Erbridge.Core.Channel
import Erbridge.Core.Machine
import Erbridge.Proxy.Pump

/-!
# Two sockets joined by a channel

Each end of a channel splices a socket of its own to its stream, with a call of
`pipe_bidirectional_tracked`: one loop from the socket into the channel, one from the channel out on the
socket, each with its counter.  What the two ends say before they have their streams is the channel's
business, and so is what a poll of a stream does; a socket answers as it likes, also with an error.

* `Pump.Carries` — what a loop has taken it has given away or has in hand, and the counter knows; each
  poll keeps that.
* `Splice.step` — one poll of one of the four loops, a step of the channel, or the end of a call.
* `Splice.Inv` — the books of both calls agree with the logs of the channel.
* `Splice.joined_run` — over a reliable channel each socket is sent a prefix of what the other one
  brought, and all of it where both loops came to their end.
-/

namespace Erbridge
namespace Proxy

open Erbridge.Core

namespace Pump

/-- The bytes that the counter of a loop is behind `given`: those of the chunk in progress. -/
def Counted (given : Bytes) (count : Nat) : Pump → Prop
  | .writing rest n => rest.length ≤ n ∧ count + n = given.length + rest.length
  | .failed _ => count ≤ given.length
  | _ => count = given.length

/-- Of what a loop has taken from its reader it has given all to its writer but what it has in hand,
unless it failed. -/
structure Carries (taken given : Bytes) (count : Nat) (p : Pump) : Prop where
  ok : p.Ok
  given_isPrefix : given <+: taken
  all_given : (∀ e, p ≠ .failed e) → given ++ p.held = taken
  counted : p.Counted given count

theorem Carries.start : Carries [] [] 0 .reading where
  ok := trivial
  given_isPrefix := List.prefix_refl _
  all_given := fun _ => rfl
  counted := rfl

theorem counted_of_isReading {p : Pump} {given : Bytes} {count : Nat} (hp : p.isReading = true)
    (h : p.Counted given count) : count = given.length := by
  cases p with
  | reading | waiting => exact h
  | writing | shuttingDown | done | failed => simp [isReading] at hp

/-- The reader was polled. -/
theorem Carries.onRead {taken given : Bytes} {count : Nat} {p : Pump}
    (h : Carries taken given count p) (hp : p.isReading = true) (a : Poll Bytes) :
    Carries (taken ++ a.delivered) given count (onRead a) := by
  obtain ⟨hheld, hgoing⟩ := held_of_isReading hp
  have hall : given = taken := by
    have := h.all_given hgoing
    rwa [hheld, List.append_nil] at this
  have hcount := counted_of_isReading hp h.counted
  refine ⟨onRead_ok a, ?_, ?_, ?_⟩
  · rw [hall]
    exact List.prefix_append _ _
  · cases a with
    | ready result =>
        cases result with
        | error e => exact fun hne => absurd rfl (hne e)
        | ok bytes =>
            intro _
            cases bytes with
            | nil => simp [Pump.onRead, held, Poll.delivered, hall]
            | cons b bytes => simp [Pump.onRead, held, Poll.delivered, hall]
    | pending | panic =>
        intro _
        simp [Pump.onRead, held, Poll.delivered, hall]
  · cases a with
    | ready result =>
        cases result with
        | error e => exact Nat.le_of_eq hcount
        | ok bytes =>
            cases bytes with
            | nil => exact hcount
            | cons b bytes =>
                rw [hcount]
                exact ⟨Nat.le_refl _, rfl⟩
    | pending | panic => exact hcount

/-- The writer was polled for a write. -/
theorem Carries.onWrite {taken given rest : Bytes} {count n : Nat}
    (h : Carries taken given count (.writing rest n)) {a : Poll Nat} (ha : a.Within rest) :
    Carries taken (given ++ a.accepted rest) (count + (onWrite rest n a).2) (onWrite rest n a).1 := by
  have hall : given ++ rest = taken := h.all_given (by simp)
  obtain ⟨hle, hcount⟩ := h.counted
  have hok := onWrite_ok rest n a
  -- A writer that has failed or was put off has taken nothing.
  have hstill : ∀ {q : Pump}, q.Ok → ((∀ e, q ≠ .failed e) → q.held = rest) →
      q.Counted given count → Carries taken (given ++ []) (count + 0) q := by
    intro q hq hheld hcounted
    rw [List.append_nil, Nat.add_zero]
    exact ⟨hq, h.given_isPrefix, fun hne => by rw [hheld hne, hall], hcounted⟩
  have hbehind : count ≤ given.length := by omega
  match a with
  | .pending | .panic =>
      cases rest with
      | nil => exact absurd rfl h.ok
      | cons b more => exact hstill hok (fun _ => rfl) h.counted
  | .ready (.error e) => exact hstill hok (fun hne => absurd rfl (hne e)) hbehind
  | .ready (.ok m) =>
      have hm : m ≤ rest.length := ha m rfl
      by_cases hzero : m = 0
      · subst hzero
        exact hstill hok (fun hne => absurd rfl (hne .writeZero)) hbehind
      · have hsplit : rest.take m ++ rest.drop m = rest := List.take_append_drop m rest
        have hlen : (given ++ rest.take m).length = given.length + m := by
          rw [List.length_append, List.length_take]
          omega
        simp only [Poll.accepted]
        have hgiven : given ++ rest.take m <+: taken := by
          rw [← hall, List.prefix_append_right_inj]
          exact List.take_prefix _ _
        cases hrest : rest.drop m with
        | nil =>
            have hdone : m = rest.length := by
              have := congrArg List.length hrest
              rw [List.length_drop, List.length_nil] at this
              omega
            have heq : Pump.onWrite rest n (.ready (.ok m)) = (.reading, n) := by
              simp [Pump.onWrite, writeAll, hzero, hrest]
            rw [heq]
            refine ⟨trivial, hgiven, fun _ => ?_, ?_⟩
            · rw [hrest, List.append_nil] at hsplit
              show (given ++ rest.take m) ++ [] = taken
              rw [List.append_nil, hsplit, hall]
            · show count + n = _
              rw [hlen]
              omega
        | cons b more =>
            have heq : Pump.onWrite rest n (.ready (.ok m)) = (.writing (b :: more) n, 0) := by
              simp [Pump.onWrite, writeAll, hzero, hrest]
            have hmore : (b :: more).length + m = rest.length := by
              rw [← hrest, List.length_drop]
              omega
            rw [heq]
            refine ⟨List.cons_ne_nil _ _, hgiven, fun _ => ?_, ?_, ?_⟩
            · rw [← hall, List.append_assoc, held, ← hrest, hsplit]
            · omega
            · rw [hlen]
              omega

/-- The writer was polled for the shutdown. -/
theorem Carries.onShutdown {taken given : Bytes} {count : Nat}
    (h : Carries taken given count .shuttingDown) (a : Poll Unit) :
    Carries taken given count (onShutdown a) := by
  rcases onShutdown_cases a with heq | heq
  · rw [heq]
    exact ⟨trivial, h.given_isPrefix, fun _ => h.all_given (by simp), h.counted⟩
  · rw [heq]
    exact h

/-- The loop has seen the end of its reader. -/
def isEnding : Pump → Bool
  | .shuttingDown | .done => true
  | _ => false

/-- It comes to the end only on an empty read. -/
theorem onRead_isEnding {a : Poll Bytes} (h : (Pump.onRead a).isEnding = true) :
    a = .ready (.ok []) := by
  match a with
  | .ready (.ok []) => rfl
  | .ready (.ok (b :: bytes)) | .ready (.error e) | .pending | .panic => simp [Pump.onRead, isEnding] at h

theorem onWrite_not_isEnding (rest : Bytes) (n : Nat) (a : Poll Nat) :
    (Pump.onWrite rest n a).1.isEnding = false := by
  unfold Pump.onWrite
  match writeAll rest a with
  | .failed e | .rest [] | .rest (b :: more) => rfl

/-- A loop that is ending has nothing in hand. -/
theorem Carries.of_isEnding {taken given : Bytes} {count : Nat} {p : Pump}
    (h : Carries taken given count p) (hp : p.isEnding = true) :
    given = taken ∧ count = given.length := by
  have hall := h.all_given
  have hcounted := h.counted
  cases p with
  | shuttingDown | done => exact ⟨by simpa [held] using hall, hcounted⟩
  | reading | waiting | writing | failed => simp [isEnding] at hp

end Pump

/-! ## Both ends -/

/-- How far an end is. -/
inductive Stage
  /-- It has no stream yet, or not yet its socket. -/
  | idle
  /-- In `pipe_bidirectional_tracked`. -/
  | piping
  | over
deriving DecidableEq

/-- One end of the channel and its socket. -/
structure Side where
  stage : Stage
  /-- What comes in on the socket. -/
  inn : Wire
  /-- What goes out on it. -/
  out : Wire
  /-- The loop from the socket into the channel. -/
  send : Pump
  /-- The loop from the channel out on the socket. -/
  receive : Pump
  /-- The counter of `send`. -/
  sent : Nat
  /-- The counter of `receive`. -/
  received : Nat

def Side.new : Side where
  stage := .idle
  inn := Wire.empty
  out := Wire.empty
  send := .reading
  receive := .reading
  sent := 0
  received := 0

structure Splice (C : Channel) where
  channel : C.State
  side : End → Side

namespace Splice

variable {C : Channel}

def initial (C : Channel) : Splice C where
  channel := C.start
  side := fun _ => Side.new

/-- What can happen; `x` is the end where it does. -/
inductive Event (C : Channel)
  /-- The channel takes a step of its own. -/
  | channel (e : C.Event)
  /-- The stream and the socket are there, and the call begins. -/
  | start (x : End)
  /-- The peer on the socket sends bytes. -/
  | socketSends (x : End) (bytes : Bytes)
  | socketEnds (x : End)
  /-- `send` polls the socket. -/
  | readSocket (x : End) (a : ReadAnswer)
  /-- `send` polls the stream, to write or to shut down. -/
  | writeStream (x : End) (script : List WriteAnswer)
  /-- `receive` polls the stream. -/
  | readStream (x : End) (script : List ReadAnswer)
  /-- `receive` polls the socket, to write or to shut down. -/
  | writeSocket (x : End) (a : WriteAnswer)
  /-- The end is over: its call has returned, it never came to one, or the process stops. -/
  | drop (x : End)

/-- The state after something happened at one end. -/
def set (s : Splice C) (x : End) (side : Side) (channel : C.State) : Splice C where
  channel := channel
  side := Function.update s.side x side

@[simp] theorem side_set_self (s : Splice C) (x : End) (side : Side) (channel : C.State) :
    (s.set x side channel).side x = side := Function.update_self _ _ _

@[simp] theorem side_set_other (s : Splice C) (x : End) (side : Side) (channel : C.State) :
    (s.set x side channel).side x.other = s.side x.other := Function.update_of_ne x.other_ne _ _

@[simp] theorem channel_set (s : Splice C) (x : End) (side : Side) (channel : C.State) :
    (s.set x side channel).channel = channel := rfl

def step (s : Splice C) : Event C → Option (Splice C)
  | .channel e => (C.move s.channel e).map fun channel => { s with channel := channel }
  | .start x =>
      if (s.side x).stage = .idle ∧ C.isOpen s.channel x then
        some (s.set x { s.side x with stage := .piping } s.channel)
      else none
  | .socketSends x bytes =>
      if (s.side x).inn.ended then none
      else some (s.set x { s.side x with inn := (s.side x).inn.push bytes } s.channel)
  | .socketEnds x =>
      some (s.set x { s.side x with inn := { (s.side x).inn with ended := true } } s.channel)
  | .readSocket x a =>
      if (s.side x).stage = .piping ∧ (s.side x).send.isReading then
        let p := (s.side x).inn.pollRead bufSize a
        some (s.set x { s.side x with inn := p.2, send := Pump.onRead p.1 } s.channel)
      else none
  | .writeStream x script =>
      if (s.side x).stage = .piping then
        match (s.side x).send with
        | .writing rest n => (C.write s.channel x rest script).map fun p =>
            let q := Pump.onWrite rest n p.1
            s.set x { s.side x with send := q.1, sent := (s.side x).sent + q.2 } p.2
        | .shuttingDown => (C.shutdown s.channel x script).map fun p =>
            s.set x { s.side x with send := Pump.onShutdown p.1 } p.2
        | _ => none
      else none
  | .readStream x script =>
      if (s.side x).stage = .piping ∧ (s.side x).receive.isReading then
        (C.read s.channel x script).map fun p =>
          s.set x { s.side x with receive := Pump.onRead p.1 } p.2
      else none
  | .writeSocket x a =>
      if (s.side x).stage = .piping then
        match (s.side x).receive with
        | .writing rest n =>
            let p := (s.side x).out.pollWrite rest a
            let q := Pump.onWrite rest n p.1
            some (s.set x
              { s.side x with out := p.2, receive := q.1, received := (s.side x).received + q.2 }
              s.channel)
        | .shuttingDown =>
            let p := (s.side x).out.pollShutdown a
            some (s.set x { s.side x with out := p.2, receive := Pump.onShutdown p.1 } s.channel)
        | _ => none
      else none
  | .drop x =>
      if (s.side x).stage = .over then none
      else some (s.set x
        { s.side x with stage := .over, out := { (s.side x).out with ended := true } }
        (C.drop s.channel x))

def machine (C : Channel) : Machine (Splice C) (Event C) where
  step := step

/-! ## The books -/

/-- What the channel's logs say at an end agrees with the books of the call there. -/
structure SideOk (side : Side) (accepted delivered : Bytes) (closed dropped : Bool) : Prop where
  inn_taken : side.inn.taken ≤ side.inn.carried.length
  sends : side.send.Carries side.inn.read accepted side.sent
  receives : side.receive.Carries delivered side.out.carried side.received
  drained : side.send.isEnding = true → side.inn.unread = [] ∧ side.inn.ended = true
  /-- The stream is shut down where the loop into it is done. -/
  closed_iff : closed = true ↔ side.send = .done
  over_of_dropped : dropped = true → side.stage = .over

/-- The end that a loop out of the channel has come to is the other end's, or that one is gone. -/
def Told (l : Logs) (x : End) (other : Side) : Prop :=
  (l.closed x.other = true ∧ l.delivered x = l.accepted x.other)
    ∨ (l.closed x.other = false ∧ other.stage = .over)

/-- The channel and both calls, with what was logged. -/
structure Inv (R : C.Reliable) (s : Splice C) (l : Logs) : Prop where
  channel : R.Inv s.channel l
  side : ∀ x, SideOk (s.side x) (l.accepted x) (l.delivered x) (l.closed x) (l.dropped x)
  told : ∀ x, (s.side x).receive.isEnding = true → Told l x (s.side x.other)

variable {R : C.Reliable}

theorem inv_initial : Inv R (initial C) Logs.empty where
  channel := R.start
  side := fun _ => {
    inn_taken := Nat.le_refl _
    sends := Pump.Carries.start
    receives := Pump.Carries.start
    drained := fun h => by cases h
    closed_iff := by simp [Logs.empty, initial, Side.new]
    over_of_dropped := fun h => by cases h }
  told := fun _ h => by cases h

/-- What is known of the ends after something happened at `x`. -/
theorem inv_set {s : Splice C} {l' : Logs} (x : End) {side : Side} {channel : C.State}
    (hchannel : R.Inv channel l')
    (hside : SideOk side (l'.accepted x) (l'.delivered x) (l'.closed x) (l'.dropped x))
    (hother : SideOk (s.side x.other) (l'.accepted x.other) (l'.delivered x.other)
      (l'.closed x.other) (l'.dropped x.other))
    (htold : side.receive.isEnding = true → Told l' x (s.side x.other))
    (htoldOther : (s.side x.other).receive.isEnding = true → Told l' x.other side) :
    Inv R (s.set x side channel) l' where
  channel := hchannel
  side := by
    intro y
    by_cases hy : y = x
    · subst hy
      rw [side_set_self]
      exact hside
    · obtain rfl := End.eq_other_of_ne hy
      rw [side_set_other]
      exact hother
  told := by
    intro y
    by_cases hy : y = x
    · subst hy
      rw [side_set_self, side_set_other]
      exact htold
    · obtain rfl := End.eq_other_of_ne hy
      rw [side_set_other, End.other_other, side_set_self]
      exact htoldOther

/-- Something happened at `x` that the channel does not see. -/
theorem Inv.setSide {s : Splice C} {l : Logs} (h : Inv R s l) (x : End) {side : Side}
    (hside : SideOk side (l.accepted x) (l.delivered x) (l.closed x) (l.dropped x))
    (hreceive : side.receive.isEnding = true → (s.side x).receive.isEnding = true)
    (hstage : (s.side x).stage = .over → side.stage = .over) :
    Inv R (s.set x side s.channel) l := by
  refine inv_set x h.channel hside (h.side x.other) (fun hr => h.told x (hreceive hr)) fun hr => ?_
  have htold := h.told x.other hr
  rw [Told, End.other_other] at htold ⊢
  exact htold.imp id fun hgone => ⟨hgone.1, hstage hgone.2⟩

/-- While the loop into the channel goes on at `x`, the other end has not come to the end of it. -/
theorem Inv.not_told {s : Splice C} {l : Logs} (h : Inv R s l) {x : End}
    (hpiping : (s.side x).stage = .piping) (hsend : (s.side x).send ≠ .done) :
    l.closed x = false ∧ l.dropped x = false ∧ (s.side x.other).receive.isEnding = false := by
  have hclosed : l.closed x = false := by
    rw [Bool.eq_false_iff]
    exact fun hc => hsend ((h.side x).closed_iff.1 hc)
  have hdropped : l.dropped x = false := by
    rw [Bool.eq_false_iff]
    intro hd
    have hover := (h.side x).over_of_dropped hd
    rw [hpiping] at hover
    cases hover
  refine ⟨hclosed, hdropped, ?_⟩
  rw [Bool.eq_false_iff]
  intro hr
  have htold := h.told x.other hr
  rw [Told, End.other_other, hclosed, hpiping] at htold
  simp at htold

/-- A poll of the socket by the loop into the channel. -/
theorem Inv.step_readSocket {s : Splice C} {l : Logs} (h : Inv R s l) {x : End} {a : ReadAnswer}
    (hsend : (s.side x).send.isReading = true) :
    Inv R (s.set x { s.side x with
      inn := ((s.side x).inn.pollRead bufSize a).2
      send := Pump.onRead ((s.side x).inn.pollRead bufSize a).1 } s.channel) l := by
  have hx := h.side x
  have hroom : 0 < bufSize := by decide
  obtain ⟨hwire, rest, hunread⟩ := (s.side x).inn.pollRead_delivered hroom a
  obtain ⟨hread, -⟩ := Wire.read_advance hunread
  have hsends := hx.sends.onRead hsend ((s.side x).inn.pollRead bufSize a).1
  rw [← hread, ← hwire] at hsends
  refine h.setSide x ?_ id id
  exact {
    inn_taken := by
      rw [hwire]
      exact Wire.taken_advance_le hunread hx.inn_taken
    sends := hsends
    receives := hx.receives
    drained := by
      intro hend
      have heof := Pump.onRead_isEnding hend
      obtain ⟨hnil, hended⟩ := Wire.pollRead_eof hroom heof
      rw [hwire, heof]
      exact ⟨hnil, hended⟩
    closed_iff := by
      have hnot : (s.side x).send ≠ .done := by
        intro hdone
        rw [hdone] at hsend
        cases hsend
      have hnot' : ∀ p, Pump.onRead p ≠ .done := by
        intro p
        match p with
        | .ready (.ok []) | .ready (.ok (b :: bytes)) | .ready (.error e) | .pending | .panic =>
            simp [Pump.onRead]
      simp only [hx.closed_iff, hnot, hnot', iff_self]
    over_of_dropped := hx.over_of_dropped }

/-- A write into the channel. -/
theorem Inv.step_write {s : Splice C} {l : Logs} (h : Inv R s l) {x : End} {rest : Bytes} {n : Nat}
    {script : List WriteAnswer} {p : Poll Nat × C.State} (hpiping : (s.side x).stage = .piping)
    (hsend : (s.side x).send = .writing rest n) (hp : C.write s.channel x rest script = some p) :
    Inv R (s.set x { s.side x with
        send := (Pump.onWrite rest n p.1).1
        sent := (s.side x).sent + (Pump.onWrite rest n p.1).2 } p.2)
      (l.write x (p.1.accepted rest)) := by
  have hx := h.side x
  obtain ⟨hclosed, -, hnot⟩ := h.not_told hpiping (by simp [hsend])
  obtain ⟨hwithin, hchannel⟩ := R.write h.channel hclosed hp
  have hsends := hx.sends
  rw [hsend] at hsends
  have hside : SideOk { s.side x with
        send := (Pump.onWrite rest n p.1).1
        sent := (s.side x).sent + (Pump.onWrite rest n p.1).2 }
      ((l.write x (p.1.accepted rest)).accepted x) (l.delivered x) (l.closed x) (l.dropped x) := {
    inn_taken := hx.inn_taken
    sends := by
      rw [Logs.accepted_write_self]
      exact hsends.onWrite hwithin
    receives := hx.receives
    drained := by
      intro hend
      rw [Pump.onWrite_not_isEnding] at hend
      cases hend
    closed_iff := by
      rw [hclosed]
      refine ⟨fun hc => (by cases hc), fun hdone => ?_⟩
      have hend : (Pump.onWrite rest n p.1).1.isEnding = true := congrArg Pump.isEnding hdone
      rw [Pump.onWrite_not_isEnding] at hend
      cases hend
    over_of_dropped := hx.over_of_dropped }
  refine inv_set x hchannel hside ?_ (fun hr => ?_) fun hr => ?_
  · rw [Logs.accepted_write_other]
    exact h.side x.other
  · have htold := h.told x hr
    rw [Told, Logs.accepted_write_other]
    exact htold
  · rw [hnot] at hr
    cases hr

/-- The shutdown of the stream. -/
theorem Inv.step_shutdown {s : Splice C} {l : Logs} (h : Inv R s l) {x : End}
    {script : List WriteAnswer} {p : Poll Unit × C.State} (hpiping : (s.side x).stage = .piping)
    (hsend : (s.side x).send = .shuttingDown) (hp : C.shutdown s.channel x script = some p) :
    Inv R (s.set x { s.side x with send := Pump.onShutdown p.1 } p.2) (l.shutdown x p.1.isShut) := by
  have hx := h.side x
  obtain ⟨hclosed, hdropped, hnot⟩ := h.not_told hpiping (by simp [hsend])
  obtain ⟨hfine, hchannel⟩ := R.shutdown h.channel hclosed hdropped hp
  have hsends := hx.sends
  rw [hsend] at hsends
  -- The loop is done exactly when the shutdown was answered Ready.
  have hshut : (l.closed x || p.1.isShut) = true ↔ Pump.onShutdown p.1 = .done := by
    rw [hclosed, Bool.false_or]
    obtain ⟨answer, channel⟩ := p
    match answer with
    | .ready (.ok ()) => exact iff_of_true rfl rfl
    | .ready (.error e) => exact absurd rfl (hfine e)
    | .pending | .panic => simp [Poll.isShut, Pump.onShutdown]
  have hside : SideOk { s.side x with send := Pump.onShutdown p.1 } (l.accepted x) (l.delivered x)
      ((l.shutdown x p.1.isShut).closed x) (l.dropped x) := {
    inn_taken := hx.inn_taken
    sends := hsends.onShutdown p.1
    receives := hx.receives
    drained := fun _ => hx.drained (by rw [hsend]; rfl)
    closed_iff := by
      rw [Logs.closed_shutdown_self]
      exact hshut
    over_of_dropped := hx.over_of_dropped }
  refine inv_set x hchannel hside ?_ (fun hr => ?_) fun hr => ?_
  · rw [Logs.closed_shutdown_other]
    exact h.side x.other
  · have htold := h.told x hr
    rw [Told, Logs.closed_shutdown_other]
    exact htold
  · rw [hnot] at hr
    cases hr

/-- A poll of the stream by the loop out of the channel. -/
theorem Inv.step_readStream {s : Splice C} {l : Logs} (h : Inv R s l) {x : End}
    {script : List ReadAnswer} {p : Poll Bytes × C.State}
    (hreceive : (s.side x).receive.isReading = true) (hp : C.read s.channel x script = some p) :
    Inv R (s.set x { s.side x with receive := Pump.onRead p.1 } p.2) (l.read x p.1.delivered) := by
  have hx := h.side x
  have hchannel := R.read h.channel hp
  have hside : SideOk { s.side x with receive := Pump.onRead p.1 } (l.accepted x)
      ((l.read x p.1.delivered).delivered x) (l.closed x) (l.dropped x) := {
    inn_taken := hx.inn_taken
    sends := hx.sends
    receives := by
      rw [Logs.delivered_read_self]
      exact hx.receives.onRead hreceive p.1
    drained := hx.drained
    closed_iff := hx.closed_iff
    over_of_dropped := hx.over_of_dropped }
  refine inv_set x hchannel hside ?_ (fun hr => ?_) fun hr => ?_
  · rw [Logs.delivered_read_other]
    exact h.side x.other
  · obtain ⟨answer, channel⟩ := p
    obtain rfl := Pump.onRead_isEnding hr
    show Told (l.read x []) x (s.side x.other)
    rw [Logs.read_nil]
    rcases R.eof h.channel hp with hshut | ⟨hopen, hgone⟩
    · exact Or.inl hshut
    · exact Or.inr ⟨hopen, (h.side x.other).over_of_dropped hgone⟩
  · have htold := h.told x.other hr
    rw [Told, End.other_other] at htold
    rw [Told, Logs.delivered_read_other, End.other_other]
    exact htold

/-- A write out on the socket. -/
theorem Inv.step_writeSocket {s : Splice C} {l : Logs} (h : Inv R s l) {x : End} {rest : Bytes}
    {n : Nat} {a : WriteAnswer} (hreceive : (s.side x).receive = .writing rest n) :
    Inv R (s.set x { s.side x with
      out := ((s.side x).out.pollWrite rest a).2
      receive := (Pump.onWrite rest n ((s.side x).out.pollWrite rest a).1).1
      received := (s.side x).received
        + (Pump.onWrite rest n ((s.side x).out.pollWrite rest a).1).2 } s.channel) l := by
  have hx := h.side x
  have hreceives := hx.receives
  rw [hreceive] at hreceives
  obtain ⟨hwire, hwithin⟩ := (s.side x).out.pollWrite_accepted rest a
  refine h.setSide x ?_ (fun hr => ?_) id
  · exact {
      inn_taken := hx.inn_taken
      sends := hx.sends
      receives := by
        rw [hwire, Wire.carried_push]
        exact hreceives.onWrite hwithin
      drained := hx.drained
      closed_iff := hx.closed_iff
      over_of_dropped := hx.over_of_dropped }
  · rw [Pump.onWrite_not_isEnding] at hr
    cases hr

/-- The end is over. -/
theorem Inv.step_drop {s : Splice C} {l : Logs} (h : Inv R s l) (x : End) :
    Inv R (s.set x
      { s.side x with stage := .over, out := { (s.side x).out with ended := true } }
      (C.drop s.channel x)) (l.drop x) := by
  have hx := h.side x
  have hside : SideOk { s.side x with stage := .over, out := { (s.side x).out with ended := true } }
      (l.accepted x) (l.delivered x) (l.closed x) ((l.drop x).dropped x) := {
    inn_taken := hx.inn_taken
    sends := hx.sends
    receives := hx.receives
    drained := hx.drained
    closed_iff := hx.closed_iff
    over_of_dropped := fun _ => rfl }
  refine inv_set x (R.drop x h.channel) hside ?_ (h.told x) fun hr => ?_
  · rw [Logs.dropped_drop_other]
    exact h.side x.other
  · have htold := h.told x.other hr
    rw [Told, End.other_other] at htold ⊢
    exact htold.imp id fun hgone => ⟨hgone.1, rfl⟩

theorem inv_step {s t : Splice C} {e : Event C} (hs : ∃ l, Inv R s l) (hstep : s.step e = some t) :
    ∃ l, Inv R t l := by
  obtain ⟨l, h⟩ := hs
  cases e with
  | channel e =>
      obtain ⟨channel, hmove, rfl⟩ := Option.map_eq_some_iff.1 hstep
      exact ⟨l, R.move h.channel hmove, h.side, h.told⟩
  | start x =>
      obtain ⟨⟨hidle, -⟩, ⟨⟩⟩ := Option.ite_none_right_eq_some.1 hstep
      have hx := h.side x
      refine ⟨l, h.setSide x ⟨hx.inn_taken, hx.sends, hx.receives, hx.drained, hx.closed_iff, ?_⟩ id ?_⟩
      · intro hd
        have hover := hx.over_of_dropped hd
        rw [hidle] at hover
        cases hover
      · intro hover
        rw [hidle] at hover
        cases hover
  | socketSends x bytes =>
      obtain ⟨hlive, ⟨⟩⟩ := Option.ite_none_left_eq_some.1 hstep
      have hx := h.side x
      refine ⟨l, h.setSide x ?_ id id⟩
      exact {
        inn_taken := by
          have := hx.inn_taken
          simp only [Wire.taken_push, Wire.carried_push, List.length_append]
          omega
        sends := by
          rw [Wire.read_push hx.inn_taken]
          exact hx.sends
        receives := hx.receives
        drained := fun hend => absurd (hx.drained hend).2 hlive
        closed_iff := hx.closed_iff
        over_of_dropped := hx.over_of_dropped }
  | socketEnds x =>
      obtain rfl := Option.some.inj hstep
      have hx := h.side x
      exact ⟨l, h.setSide x ⟨hx.inn_taken, hx.sends, hx.receives,
        fun hend => ⟨(hx.drained hend).1, rfl⟩, hx.closed_iff, hx.over_of_dropped⟩ id id⟩
  | readSocket x a =>
      obtain ⟨⟨-, hsend⟩, ⟨⟩⟩ := Option.ite_none_right_eq_some.1 hstep
      exact ⟨l, h.step_readSocket hsend⟩
  | writeStream x script =>
      obtain ⟨hpiping, hmatch⟩ := Option.ite_none_right_eq_some.1 hstep
      cases hsend : (s.side x).send with
      | writing rest n =>
          rw [hsend] at hmatch
          obtain ⟨p, hp, rfl⟩ := Option.map_eq_some_iff.1 hmatch
          exact ⟨_, h.step_write hpiping hsend hp⟩
      | shuttingDown =>
          rw [hsend] at hmatch
          obtain ⟨p, hp, rfl⟩ := Option.map_eq_some_iff.1 hmatch
          exact ⟨_, h.step_shutdown hpiping hsend hp⟩
      | reading | waiting | done | failed =>
          rw [hsend] at hmatch
          cases hmatch
  | readStream x script =>
      obtain ⟨⟨-, hreceive⟩, hmap⟩ := Option.ite_none_right_eq_some.1 hstep
      obtain ⟨p, hp, rfl⟩ := Option.map_eq_some_iff.1 hmap
      exact ⟨_, h.step_readStream hreceive hp⟩
  | writeSocket x a =>
      obtain ⟨-, hmatch⟩ := Option.ite_none_right_eq_some.1 hstep
      cases hreceive : (s.side x).receive with
      | writing rest n =>
          rw [hreceive] at hmatch
          obtain rfl := Option.some.inj hmatch
          exact ⟨l, h.step_writeSocket hreceive⟩
      | shuttingDown =>
          rw [hreceive] at hmatch
          obtain rfl := Option.some.inj hmatch
          have hx := h.side x
          have hreceives := hx.receives
          rw [hreceive] at hreceives
          have hcarried : ((s.side x).out.pollShutdown a).2.carried = (s.side x).out.carried := by
            rcases (s.side x).out.pollShutdown_snd a with heq | heq
            · rw [heq]
            · rw [heq]
          refine ⟨l, h.setSide x ⟨hx.inn_taken, hx.sends, ?_, hx.drained, hx.closed_iff,
            hx.over_of_dropped⟩ (fun _ => by rw [hreceive]; rfl) id⟩
          rw [hcarried]
          exact hreceives.onShutdown _
      | reading | waiting | done | failed =>
          rw [hreceive] at hmatch
          cases hmatch
  | drop x =>
      obtain ⟨-, ⟨⟩⟩ := Option.ite_none_left_eq_some.1 hstep
      exact ⟨_, h.step_drop x⟩

/-! ## What holds in every run -/

/-- What the socket at `x` brings is what the socket at the other end is sent, as far as that one has
come; `s` is a state of both calls. -/
structure Joined (s : Splice C) (x : End) : Prop where
  out_isPrefix : (s.side x.other).out.carried <+: (s.side x).inn.carried
  /-- Nothing is missing where both loops came to their end; both counters have all of it. -/
  whole : (s.side x).send = .done → (s.side x.other).receive = .done →
    (s.side x.other).out.carried = (s.side x).inn.carried ∧ (s.side x).inn.ended = true
      ∧ (s.side x).sent = (s.side x).inn.carried.length
      ∧ (s.side x.other).received = (s.side x).inn.carried.length
  /-- An end is passed on only where the socket has ended or the call at `x` is over. -/
  end_told : (s.side x.other).receive.isEnding = true →
    (s.side x).send = .done ∨ (s.side x).stage = .over
  /-- The counters are never ahead of the bytes. -/
  received_le : (s.side x.other).received ≤ (s.side x.other).out.carried.length
  sent_le : (s.side x).sent ≤ (s.side x).inn.carried.length

theorem Pump.Counted.le {given : Bytes} {count : Nat} {p : Pump} (h : p.Counted given count) :
    count ≤ given.length := by
  cases p with
  | writing rest n =>
      have hle := h.1
      have heq := h.2
      omega
  | failed e => exact h
  | reading | waiting | shuttingDown | done => exact Nat.le_of_eq h

theorem Inv.joined {s : Splice C} {l : Logs} (h : Inv R s l) (x : End) : Joined s x := by
  have hx := h.side x
  have hy := h.side x.other
  have hdelivered := R.delivered_isPrefix x.other h.channel
  rw [End.other_other] at hdelivered
  have hread : (s.side x).inn.read <+: (s.side x).inn.carried := List.take_prefix _ _
  have htold := h.told x.other
  rw [Told, End.other_other] at htold
  have hclosed := hx.closed_iff
  exact {
    out_isPrefix := ((hy.receives.given_isPrefix.trans hdelivered).trans hx.sends.given_isPrefix).trans hread
    whole := by
      intro hsend hreceive
      have hend : (s.side x).send.isEnding = true := by rw [hsend]; rfl
      have hend' : (s.side x.other).receive.isEnding = true := by rw [hreceive]; rfl
      obtain ⟨hgiven, hsent⟩ := hx.sends.of_isEnding hend
      obtain ⟨hgiven', hreceived⟩ := hy.receives.of_isEnding hend'
      obtain ⟨hunread, hended⟩ := hx.drained hend
      have hall : (s.side x).inn.read = (s.side x).inn.carried := by
        rw [← Wire.read_append_unread, hunread, List.append_nil]
      have hshut := hclosed.2 hsend
      have hsame : l.delivered x.other = l.accepted x := by
        rcases htold hend' with ⟨-, heq⟩ | ⟨hopen, -⟩
        · exact heq
        · rw [hshut] at hopen
          cases hopen
      have hout : (s.side x.other).out.carried = (s.side x).inn.carried := by
        rw [hgiven', hsame, hgiven, hall]
      refine ⟨hout, hended, ?_, ?_⟩
      · rw [hsent, hgiven, hall]
      · rw [hreceived, hout]
    end_told := by
      intro hend
      rcases htold hend with ⟨hshut, -⟩ | ⟨-, hover⟩
      · exact Or.inl (hclosed.1 hshut)
      · exact Or.inr hover
    received_le := Pump.Counted.le hy.receives.counted
    sent_le := Nat.le_trans (Pump.Counted.le hx.sends.counted)
      (hx.sends.given_isPrefix.trans hread).length_le }

/-- **Two sockets joined by a channel.**  Over a reliable channel, whatever the order of the polls and
whatever the sockets answer. -/
theorem joined_run (R : C.Reliable) {es : List (Event C)} {s : Splice C}
    (hrun : (machine C).run (initial C) es = some s) (x : End) : Joined s x := by
  obtain ⟨l, h⟩ := (machine C).run_invariant (fun s => ∃ l, Inv R s l)
    (fun hs hstep => inv_step hs hstep) ⟨_, inv_initial⟩ hrun
  exact h.joined x

end Splice
end Proxy
end Erbridge
