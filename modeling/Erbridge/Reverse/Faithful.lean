import Erbridge.Reverse.Relay

/-!
# The relay hands over what it was given

The two ends of a relayed connection run different code, but what each of them promises can be said
about its own wires.

* `Relay.Loops` — what a copy loop has taken and what it has handed over are the same bytes, but for
  the name in front of the request and the byte in front of the response.
* `Relay.FrontOk`, `Relay.InboundOk` — where an end is, in terms of its own wires; the other end and
  the world keep that (`Inv.front_moves`, `Inv.inbound_moves`).
* `Relay.relay_faithful` — in every run the target has a prefix of what the visitor sent and the
  visitor a prefix of what the target sent, each of them all of it when both loops of the direction are
  done; a loop that runs is ended by nothing but itself; and nothing reaches the visitor unless B has
  dialled.
-/

namespace Erbridge
namespace Reverse
namespace Relay

open Erbridge.Core
open Proxy (Pump bufSize)
open Sni (RecordRead)

variable {name : Bytes} {resolve : Bytes → Bool} {s t : Relay}

/-! ## What a copy loop has moved -/

/-- The bytes that lead in front of what a loop writes, on its reader. -/
def lead (name : Bytes) : Loop → Bytes
  | .toB | .toA => []
  | .fromB => [1]
  | .toTarget => frame name

/-- The bytes that lead in front of what a loop reads, on its writer. -/
def head (name : Bytes) (dialed : Bool) : Loop → Bytes
  | .toB => frame name
  | .toA => [statusByte dialed]
  | .fromB | .toTarget => []

/-- What is on the writer of a loop was read from its reader, whether the loop still runs or not. -/
def LoopOk (lead head : Bytes) (src dst : Wire) : Option Pump → Prop
  | none => dst.carried = [] ∨ lead ++ dst.carried <+: head ++ src.read
  | some p => p.Copies lead head src dst

namespace LoopOk

variable {lead head : Bytes} {src dst : Wire} {p : Option Pump}

theorem moved (h : LoopOk lead head src dst p) :
    dst.carried = [] ∨ lead ++ dst.carried <+: head ++ src.read := by
  cases p with
  | none => exact h
  | some p => exact Or.inr (Pump.Copies.moved h)

theorem abort (h : LoopOk lead head src dst p) : LoopOk lead head src dst (abort p) := by
  unfold Relay.abort
  split
  · exact h
  · exact h.moved

theorem of_eq (h : LoopOk lead head src dst p) {src' dst' : Wire} (hread : src'.read = src.read)
    (hdrained : src.unread = [] → src.ended = true → src'.unread = [] ∧ src'.ended = true)
    (hcarried : dst'.carried = dst.carried) : LoopOk lead head src' dst' p := by
  cases p with
  | none =>
      show dst'.carried = [] ∨ lead ++ dst'.carried <+: head ++ src'.read
      rw [hread, hcarried]
      exact h
  | some p => exact Pump.Copies.of_eq h hread hdrained hcarried

end LoopOk

/-- The four loops, on wires of which no more was read than they carried. -/
structure Loops (name : Bytes) (s : Relay) : Prop where
  within : ∀ k, (s.wire k).taken ≤ (s.wire k).carried.length
  loop : ∀ l, LoopOk (lead name l) (head name s.dialed l) (s.wire l.src) (s.wire l.dst) (s.pump l)

/-- Something is read from one wire: its loop has to answer for that. -/
theorem Loops.of_advance (h : Loops name s) {k : Link} {got rest : Bytes}
    (hunread : (s.wire k).unread = got ++ rest)
    (hwire : t.wire = Function.update s.wire k ((s.wire k).advance got.length))
    (hdialed : t.dialed = s.dialed) (hpump : ∀ l : Loop, l.src ≠ k → t.pump l = s.pump l)
    (hloop : ∀ l : Loop, l.src = k → LoopOk (lead name l) (head name s.dialed l)
      ((s.wire k).advance got.length) (s.wire l.dst) (t.pump l)) : Loops name t where
  within j := by
    rw [hwire]
    by_cases hj : j = k
    · subst hj
      rw [Function.update_self]
      exact Wire.taken_advance_le hunread (h.within j)
    · rw [Function.update_of_ne hj]
      exact h.within j
  loop l := by
    rw [hwire, hdialed]
    by_cases hsrc : l.src = k
    · have hdst : l.dst ≠ k := fun heq => l.src_ne_dst (hsrc.trans heq.symm)
      rw [hsrc, Function.update_self, Function.update_of_ne hdst]
      exact hloop l hsrc
    · rw [Function.update_of_ne hsrc, hpump l hsrc]
      refine (h.loop l).of_eq rfl (fun hunread hended => ⟨hunread, hended⟩) ?_
      by_cases hdst : l.dst = k
      · rw [hdst, Function.update_self, Wire.carried_advance]
      · rw [Function.update_of_ne hdst]

/-- Something is written into one wire: its loop has to answer for that. -/
theorem Loops.of_push (h : Loops name s) {k : Link} {bytes : Bytes}
    (hlive : bytes ≠ [] → (s.wire k).ended = false)
    (hwire : t.wire = Function.update s.wire k ((s.wire k).push bytes))
    (hdialed : t.dialed = s.dialed) (hpump : ∀ l : Loop, l.dst ≠ k → t.pump l = s.pump l)
    (hloop : ∀ l : Loop, l.dst = k → LoopOk (lead name l) (head name s.dialed l) (s.wire l.src)
      ((s.wire k).push bytes) (t.pump l)) : Loops name t where
  within j := by
    rw [hwire]
    by_cases hj : j = k
    · subst hj
      rw [Function.update_self, Wire.taken_push, Wire.carried_push, List.length_append]
      exact Nat.le_add_right_of_le (h.within j)
    · rw [Function.update_of_ne hj]
      exact h.within j
  loop l := by
    rw [hwire, hdialed]
    by_cases hdst : l.dst = k
    · have hsrc : l.src ≠ k := fun heq => l.src_ne_dst (heq.trans hdst.symm)
      rw [hdst, Function.update_self, Function.update_of_ne hsrc]
      exact hloop l hdst
    · rw [Function.update_of_ne hdst, hpump l hdst]
      by_cases hsrc : l.src = k
      · rw [hsrc, Function.update_self]
        have hl := h.loop l
        rw [hsrc] at hl
        refine hl.of_eq (Wire.read_push (h.within k)) (fun hunread hended => ?_) rfl
        -- Nothing is written into a wire that has ended.
        have hnil : bytes = [] := by
          by_contra hne
          rw [hlive hne] at hended
          cases hended
        rw [hnil, Wire.push_nil]
        exact ⟨hunread, hended⟩
      · rw [Function.update_of_ne hsrc]
        exact (h.loop l).of_eq rfl (fun hunread hended => ⟨hunread, hended⟩) rfl

/-- Wires end, and loops stop or start. -/
theorem Loops.of_ended (h : Loops name s)
    (hwire : ∀ k, t.wire k = s.wire k ∨ t.wire k = { s.wire k with ended := true })
    (hdialed : t.dialed = s.dialed)
    (hloop : ∀ l : Loop, LoopOk (lead name l) (head name s.dialed l) (s.wire l.src) (s.wire l.dst)
      (t.pump l)) : Loops name t where
  within k := by
    rcases hwire k with heq | heq
    · rw [heq]
      exact h.within k
    · rw [heq]
      exact h.within k
  loop l := by
    rw [hdialed]
    have hcarried : (t.wire l.dst).carried = (s.wire l.dst).carried := by
      rcases hwire l.dst with heq | heq
      · rw [heq]
      · rw [heq]
    rcases hwire l.src with heq | heq
    · rw [heq]
      exact (hloop l).of_eq rfl (fun hunread hended => ⟨hunread, hended⟩) hcarried
    · rw [heq]
      exact (hloop l).of_eq rfl (fun hunread _ => ⟨hunread, rfl⟩) hcarried

theorem close_wire (s : Relay) (l l' : Loop) (k : Link) :
    (s.close l l').wire k = s.wire k ∨ (s.close l l').wire k = { s.wire k with ended := true } := by
  simp only [close]
  split
  · exact Or.inr rfl
  · exact Or.inl rfl

theorem Loops.close (h : Loops name s) (l l' : Loop) : Loops name (s.close l l') := by
  refine h.of_ended (s.close_wire l l') rfl (fun x => ?_)
  simp only [Relay.close]
  split
  · exact (h.loop x).abort
  · exact h.loop x

/-! ## Where the ends are -/

/-- A has read and passed on nothing of what B sends. -/
structure Unanswered (s : Relay) : Prop where
  fromB : s.pump .fromB = none
  down : (s.wire .down).read = []
  visitorOut : (s.wire .visitorOut).carried = []

/-- Where A is, in terms of its wires. -/
def FrontOk (name : Bytes) (s : Relay) : Prop :=
  match s.front with
  | .peeking r => r.Ok ∧ s.replay = [] ∧ (s.wire .visitorIn).read = r.held ∧
      (s.wire .up).carried = [] ∧ s.pump .toB = none ∧ s.Unanswered
  | .naming f => f.Ok ∧ name.length < 65536 ∧ (s.wire .visitorIn).read = s.replay ∧
      (s.wire .up).carried ++ f.unsent = frame name ∧ s.pump .toB = none ∧ s.Unanswered
  | .opening => s.Unanswered
  | .relaying | .dropped => True

/-- B has written nothing but its status byte, and passed on nothing. -/
structure Quiet (s : Relay) : Prop where
  toTarget : s.pump .toTarget = none
  toA : s.pump .toA = none
  targetOut : (s.wire .targetOut).carried = []
  targetIn : (s.wire .targetIn).read = []

/-- Where B is, in terms of its wires. -/
def InboundOk (name : Bytes) (s : Relay) : Prop :=
  match s.inbound with
  | .naming f => f.Ok maxNameLen ∧ (s.wire .up).read = f.held ∧ (s.wire .down).carried = [] ∧
      s.dialed = false ∧ s.Quiet
  | .dialing => (s.wire .up).read = frame name ∧ (s.wire .down).carried = [] ∧
      s.dialed = false ∧ s.Quiet
  | .answering ok => (s.wire .up).read = frame name ∧ (s.wire .down).carried = [] ∧
      s.dialed = ok ∧ s.Quiet
  | .flushing ok => (s.wire .up).read = frame name ∧ (ok = true → (s.wire .down).carried = [1]) ∧
      s.dialed = ok ∧ s.Quiet
  | .piping | .dropped => True

/-- What holds of the two ends and of the loops between them. -/
structure Inv (name : Bytes) (resolve : Bytes → Bool) (s : Relay) : Prop where
  loops : Loops name s
  front : FrontOk name s
  replayed : s.replay <+: (s.wire .visitorIn).read
  /-- A name that does not fit into a frame is not sent, and nothing is. -/
  named : name.length < 65536 ∨ (s.wire .up).carried = [] ∧ s.pump .toB = none
  inbound : InboundOk name s
  known : s.dialed = true ∨ s.inbound = .dialing → resolve name = true
  /-- B does not end the stream before it has answered, unless it gives up. -/
  answered : (s.wire .down).ended = true → (s.wire .down).carried ≠ [] ∨ s.inbound = .dropped

/-- B's state and B's view of the wires. -/
structure SameInbound (s t : Relay) : Prop where
  inbound : t.inbound = s.inbound
  dialed : t.dialed = s.dialed
  toTarget : t.pump .toTarget = s.pump .toTarget
  toA : t.pump .toA = s.pump .toA
  up : (t.wire .up).read = (s.wire .up).read
  targetIn : (t.wire .targetIn).read = (s.wire .targetIn).read
  down : (t.wire .down).carried = (s.wire .down).carried
  targetOut : (t.wire .targetOut).carried = (s.wire .targetOut).carried
  ended : (t.wire .down).ended = (s.wire .down).ended

/-- A's state and A's view of the wires. -/
structure SameFront (s t : Relay) : Prop where
  front : t.front = s.front
  replay : t.replay = s.replay
  toB : t.pump .toB = s.pump .toB
  fromB : t.pump .fromB = s.pump .fromB
  visitorIn : (t.wire .visitorIn).read = (s.wire .visitorIn).read
  down : (t.wire .down).read = (s.wire .down).read
  up : (t.wire .up).carried = (s.wire .up).carried
  visitorOut : (t.wire .visitorOut).carried = (s.wire .visitorOut).carried

theorem SameInbound.quiet (h : SameInbound s t) (hq : s.Quiet) : t.Quiet where
  toTarget := h.toTarget.trans hq.toTarget
  toA := h.toA.trans hq.toA
  targetOut := h.targetOut.trans hq.targetOut
  targetIn := h.targetIn.trans hq.targetIn

theorem InboundOk.of_same (h : InboundOk name s) (hs : SameInbound s t) : InboundOk name t := by
  unfold InboundOk at h ⊢
  rw [hs.inbound, hs.up, hs.down, hs.dialed]
  cases hinbound : s.inbound with
  | naming f =>
      simp only [hinbound] at h
      exact ⟨h.1, h.2.1, h.2.2.1, h.2.2.2.1, hs.quiet h.2.2.2.2⟩
  | dialing | answering ok | flushing ok =>
      simp only [hinbound] at h
      exact ⟨h.1, h.2.1, h.2.2.1, hs.quiet h.2.2.2⟩
  | piping | dropped => trivial

theorem SameFront.unanswered (h : SameFront s t) (hu : s.Unanswered) : t.Unanswered where
  fromB := h.fromB.trans hu.fromB
  down := h.down.trans hu.down
  visitorOut := h.visitorOut.trans hu.visitorOut

theorem FrontOk.of_same (h : FrontOk name s) (hs : SameFront s t) : FrontOk name t := by
  unfold FrontOk at h ⊢
  rw [hs.front, hs.replay, hs.visitorIn, hs.up, hs.toB]
  cases hfront : s.front with
  | peeking r =>
      simp only [hfront] at h
      exact ⟨h.1, h.2.1, h.2.2.1, h.2.2.2.1, h.2.2.2.2.1, hs.unanswered h.2.2.2.2.2⟩
  | naming f =>
      simp only [hfront] at h
      exact ⟨h.1, h.2.1, h.2.2.1, h.2.2.2.1, h.2.2.2.2.1, hs.unanswered h.2.2.2.2.2⟩
  | opening =>
      simp only [hfront] at h
      exact hs.unanswered h
  | relaying | dropped => trivial

/-- Once A forwards the request, its phase is about the response only. -/
theorem FrontOk.of_toB (h : FrontOk name s) (hp : s.pump .toB ≠ none) (hfront : t.front = s.front)
    (hu : s.Unanswered → t.Unanswered) : FrontOk name t := by
  unfold FrontOk at h ⊢
  rw [hfront]
  cases hs : s.front with
  | peeking r =>
      simp only [hs] at h
      exact absurd h.2.2.2.2.1 hp
  | naming f =>
      simp only [hs] at h
      exact absurd h.2.2.2.2.1 hp
  | opening =>
      simp only [hs] at h
      exact hu h
  | relaying | dropped => trivial

/-- Once A forwards the response, nothing is left to say of its phase. -/
theorem FrontOk.of_fromB (h : FrontOk name s) (hp : s.pump .fromB ≠ none)
    (hfront : t.front = s.front) : FrontOk name t := by
  unfold FrontOk at h ⊢
  rw [hfront]
  cases hs : s.front with
  | peeking r =>
      simp only [hs] at h
      exact absurd h.2.2.2.2.2.fromB hp
  | naming f =>
      simp only [hs] at h
      exact absurd h.2.2.2.2.2.fromB hp
  | opening =>
      simp only [hs] at h
      exact absurd h.fromB hp
  | relaying | dropped => trivial

/-- Once B pipes, nothing is left to say of its phase. -/
theorem InboundOk.of_started (h : InboundOk name s)
    (hp : s.pump .toTarget ≠ none ∨ s.pump .toA ≠ none) (hinbound : t.inbound = s.inbound) :
    InboundOk name t := by
  have hnot : ¬ s.Quiet := fun hq => hp.elim (absurd hq.toTarget) (absurd hq.toA)
  unfold InboundOk at h ⊢
  rw [hinbound]
  cases hs : s.inbound with
  | naming f =>
      simp only [hs] at h
      exact absurd h.2.2.2.2 hnot
  | dialing | answering ok | flushing ok =>
      simp only [hs] at h
      exact absurd h.2.2.2 hnot
  | piping | dropped => trivial

/-- A moves; what B sees stays as it is. -/
theorem Inv.front_moves (h : Inv name resolve s) (hs : SameInbound s t) (hloops : Loops name t)
    (hfront : FrontOk name t) (hreplayed : t.replay <+: (t.wire .visitorIn).read)
    (hnamed : name.length < 65536 ∨ (t.wire .up).carried = [] ∧ t.pump .toB = none) :
    Inv name resolve t where
  loops := hloops
  front := hfront
  replayed := hreplayed
  named := hnamed
  inbound := h.inbound.of_same hs
  known := by
    rw [hs.dialed, hs.inbound]
    exact h.known
  answered := by
    rw [hs.ended, hs.down, hs.inbound]
    exact h.answered

/-- B moves; what A sees stays as it is. -/
theorem Inv.inbound_moves (h : Inv name resolve s) (hs : SameFront s t) (hloops : Loops name t)
    (hinbound : InboundOk name t) (hknown : t.dialed = true ∨ t.inbound = .dialing → resolve name = true)
    (hanswered : (t.wire .down).ended = true →
      (t.wire .down).carried ≠ [] ∨ t.inbound = .dropped) : Inv name resolve t where
  loops := hloops
  front := h.front.of_same hs
  replayed := by
    rw [hs.replay, hs.visitorIn]
    exact h.replayed
  named := by
    rw [hs.up, hs.toB]
    exact h.named
  inbound := hinbound
  known := hknown
  answered := hanswered

/-! ## Giving up -/

/-- An end that has given up has nothing to say of its phase. -/
def frontGone (s : Relay) : Relay := { s with front := .dropped }

def inboundGone (s : Relay) : Relay := { s with inbound := .dropped }

theorem sameInbound_dropFront (s : Relay) : SameInbound s s.dropFront where
  inbound := rfl
  dialed := rfl
  toTarget := rfl
  toA := rfl
  up := rfl
  targetIn := rfl
  down := rfl
  targetOut := rfl
  ended := rfl

theorem sameFront_dropInbound (s : Relay) : SameFront s s.dropInbound where
  front := rfl
  replay := rfl
  toB := rfl
  fromB := rfl
  visitorIn := rfl
  down := rfl
  up := rfl
  visitorOut := rfl

theorem Inv.dropFront (h : Inv name resolve s.frontGone) : Inv name resolve s.dropFront := by
  have hloops : Loops name s.dropFront := by
    have hclose := h.loops.close .toB .fromB
    exact ⟨hclose.within, hclose.loop⟩
  refine h.front_moves (sameInbound_dropFront s.frontGone) hloops trivial h.replayed ?_
  refine h.named.imp id fun hup => ⟨hup.1, ?_⟩
  show abort (s.pump .toB) = none
  have hnone : s.pump .toB = none := hup.2
  rw [hnone]
  rfl

theorem Inv.dropInbound (h : Inv name resolve s.inboundGone)
    (hknown : s.dialed = true → resolve name = true) : Inv name resolve s.dropInbound := by
  have hloops : Loops name s.dropInbound := by
    have hclose := h.loops.close .toTarget .toA
    exact ⟨hclose.within, hclose.loop⟩
  refine h.inbound_moves (sameFront_dropInbound s.inboundGone) hloops trivial (fun hd => ?_)
    fun _ => Or.inr rfl
  rcases hd with hd | hd
  · exact hknown hd
  · cases hd

theorem Inv.frontGone (h : Inv name resolve s) : Inv name resolve s.frontGone :=
  h.front_moves ⟨rfl, rfl, rfl, rfl, rfl, rfl, rfl, rfl, rfl⟩ ⟨h.loops.within, h.loops.loop⟩ trivial
    h.replayed h.named

theorem Inv.inboundGone (h : Inv name resolve s) : Inv name resolve s.inboundGone :=
  h.inbound_moves ⟨rfl, rfl, rfl, rfl, rfl, rfl, rfl, rfl⟩ ⟨h.loops.within, h.loops.loop⟩ trivial
    (fun hd => h.known (hd.imp id fun hd => by cases hd)) fun _ => Or.inr rfl

/-! ## The steps of A -/

/-- A has read `t.replay` of the visitor, and begins with the name. -/
theorem Inv.beginNaming (h : Inv name resolve t.frontGone)
    (hread : (t.wire .visitorIn).read = t.replay) (hup : (t.wire .up).carried = [])
    (htoB : t.pump .toB = none) (hun : t.Unanswered) : Inv name resolve (t.beginNaming name) := by
  unfold Relay.beginNaming FrameWrite.start
  by_cases hfits : name.length < 65536
  · rw [if_pos hfits]
    refine h.front_moves ⟨rfl, rfl, rfl, rfl, rfl, rfl, rfl, rfl, rfl⟩
      ⟨h.loops.within, h.loops.loop⟩ ?_ h.replayed (Or.inl hfits)
    refine ⟨by simp [FrameWrite.Ok, be16], hfits, hread, ?_, htoB, hun.fromB, hun.down,
      hun.visitorOut⟩
    show (t.wire .up).carried ++ (be16 name.length ++ name) = frame name
    rw [hup]
    rfl
  · rw [if_neg hfits]
    exact h.dropFront

/-- A polls the visitor for its hello. -/
theorem Inv.step_peek (h : Inv name resolve s) {a : ReadAnswer} {found : Bool}
    (hstep : s.step name resolve (.peek a found) = some t) : Inv name resolve t := by
  have hphase := h.front
  unfold FrontOk at hphase
  cases hfront : s.front with
  | naming | opening | relaying | dropped => simp [step, hfront] at hstep
  | peeking r =>
      simp only [hfront] at hphase
      obtain ⟨hr, hreplay, hread, hup, htoB, hun⟩ := hphase
      obtain ⟨got, hwire, hunread, hres⟩ := RecordRead.step_spec hr (s.wire .visitorIn) a
      simp only [step, hfront] at hstep
      generalize r.step (s.wire .visitorIn) a = p at hstep hwire hunread hres
      obtain ⟨r', wire'⟩ := p
      simp only at hstep hwire hunread hres
      subst hwire
      have hadvance := (Wire.read_advance hunread).1
      have hsame : ∀ front replay, SameInbound s { s.setWire .visitorIn
          ((s.wire .visitorIn).advance got.length) with front := front, replay := replay } :=
        fun _ _ => ⟨rfl, rfl, rfl, rfl, rfl, rfl, rfl, rfl, rfl⟩
      have hloops : ∀ front replay, Loops name { s.setWire .visitorIn
          ((s.wire .visitorIn).advance got.length) with front := front, replay := replay } := by
        intro front replay
        refine h.loops.of_advance hunread rfl rfl (fun _ _ => rfl) fun l hl => ?_
        obtain rfl : l = .toB := Loop.src_injective hl
        show LoopOk _ _ _ _ (s.pump .toB)
        rw [htoB]
        exact Or.inl hup
      have hgone : ∀ replay, replay <+: (s.wire .visitorIn).read ++ got →
          Inv name resolve { s.setWire .visitorIn
            ((s.wire .visitorIn).advance got.length) with front := .dropped, replay := replay } := by
        intro replay hprefix
        refine h.front_moves (hsame _ _) (hloops _ _) trivial ?_ (Or.inr ⟨hup, htoB⟩)
        show replay <+: ((s.wire .visitorIn).advance got.length).read
        rw [hadvance]
        exact hprefix
      rcases hres with rfl | ⟨hheld, hok | rfl⟩
      · obtain rfl := Option.some.inj hstep
        exact Inv.dropFront (hgone s.replay (by rw [hreplay]; exact List.nil_prefix))
      · have ht : t = { s.setWire .visitorIn ((s.wire .visitorIn).advance got.length) with
            front := .peeking r' } := by
          cases r' with
          | header | body => exact (Option.some.inj hstep).symm
          | done | failed => exact absurd hok (by simp [RecordRead.Ok])
        subst ht
        refine h.front_moves (hsame _ _) (hloops _ _) ?_ ?_ (Or.inr ⟨hup, htoB⟩)
        · refine ⟨hok, hreplay, ?_, hup, htoB, hun.fromB, hun.down, hun.visitorOut⟩
          show ((s.wire .visitorIn).advance got.length).read = r'.held
          rw [hadvance, hheld, hread]
        · show s.replay <+: _
          rw [hreplay]
          exact List.nil_prefix
      · cases found with
        | false =>
            obtain rfl := Option.some.inj hstep
            exact Inv.dropFront (hgone s.replay (by rw [hreplay]; exact List.nil_prefix))
        | true =>
            obtain rfl := Option.some.inj hstep
            rw [← hread]
            refine Inv.beginNaming (hgone _ (List.prefix_refl _)) ?_ hup htoB
              ⟨hun.fromB, hun.down, hun.visitorOut⟩
            exact hadvance

/-- A polls the stream with the name of the tunnel. -/
theorem Inv.step_name (h : Inv name resolve s) {a : WriteAnswer}
    (hstep : s.step name resolve (.name a) = some t) : Inv name resolve t := by
  have hphase := h.front
  unfold FrontOk at hphase
  cases hfront : s.front with
  | peeking | opening | relaying | dropped => simp [step, hfront] at hstep
  | naming f =>
      simp only [hfront] at hphase
      obtain ⟨hf, hfits, hread, hup, htoB, hun⟩ := hphase
      simp only [step, hfront] at hstep
      rcases FrameWrite.step_cases hf (s.wire .up) a with
        ⟨e, heq, -⟩ | ⟨g, pushed, heq, hg, hunsent, hlive⟩
      · simp only [heq, setWire, Function.update_eq_self] at hstep
        obtain rfl := Option.some.inj hstep
        exact h.frontGone.dropFront
      · simp only [heq] at hstep
        have hsame : ∀ front pump, pump .toTarget = s.pump .toTarget → pump .toA = s.pump .toA →
            SameInbound s { s.setWire .up ((s.wire .up).push pushed) with
              front := front, pump := pump } :=
          fun _ _ htoTarget htoA => ⟨rfl, rfl, htoTarget, htoA, Wire.read_push (h.loops.within .up),
            rfl, rfl, rfl, rfl⟩
        have hcarried : ((s.wire .up).push pushed).carried ++ g.unsent = frame name := by
          rw [Wire.carried_push, List.append_assoc, ← hunsent, hup]
        by_cases hdone : g = .done
        · subst hdone
          obtain rfl := Option.some.inj hstep
          have hframe : ((s.wire .up).push pushed).carried = frame name := by
            rw [← hcarried]
            simp [FrameWrite.unsent]
          refine h.front_moves (hsame .opening _ rfl rfl) ?_ ⟨hun.fromB, hun.down, hun.visitorOut⟩
            h.replayed (Or.inl hfits)
          refine h.loops.of_push hlive rfl rfl (fun l hl => ?_) fun l hl => ?_
          · exact Function.update_of_ne (fun heq => hl (by rw [heq]; rfl)) _ _
          · obtain rfl : l = .toB := Loop.dst_injective hl
            show LoopOk [] (frame name) (s.wire .visitorIn) _ (some (startToB s.replay))
            refine .start (startToB_ok s.replay) ?_ (startToB_ne s.replay)
            rw [List.nil_append, hframe, held_startToB, hread]
        · have ht : t = { s.setWire .up ((s.wire .up).push pushed) with front := .naming g } := by
            cases g with
            | done => exact absurd rfl hdone
            | failed e => exact absurd hg (by simp [FrameWrite.Ok])
            | header | data | flushing => exact (Option.some.inj hstep).symm
          subst ht
          refine h.front_moves (hsame _ _ rfl rfl) ?_ ⟨hg, hfits, hread, hcarried, htoB, hun.fromB,
            hun.down, hun.visitorOut⟩ h.replayed (Or.inl hfits)
          refine h.loops.of_push hlive rfl rfl (fun _ _ => rfl) fun l hl => ?_
          obtain rfl : l = .toB := Loop.dst_injective hl
          show LoopOk [] (frame name) (s.wire .visitorIn) _ (s.pump .toB)
          rw [htoB]
          refine Or.inr ?_
          rw [List.nil_append, ← hcarried, List.append_assoc]
          exact List.prefix_append _ _

/-- A polls the stream for B's byte. -/
theorem Inv.step_status (h : Inv name resolve s) {a : ReadAnswer}
    (hstep : s.step name resolve (.status a) = some t) : Inv name resolve t := by
  have hun := h.front
  unfold FrontOk at hun
  cases hfront : s.front with
  | peeking | naming | relaying | dropped => simp [step, hfront] at hstep
  | opening =>
      simp only [hfront] at hun
      simp only [step, hfront] at hstep
      have hroom : ([] : Bytes).length < 1 := by simp
      rcases (s.wire .down).readExact_cases hroom a with
        ⟨e, heq, hwire, -⟩ | ⟨more, rest, hunread, hle, heq, hwire⟩
      · simp only [List.length_nil, Nat.sub_zero] at heq hwire
        simp only [heq, hwire, setWire, Function.update_eq_self] at hstep
        obtain rfl := Option.some.inj hstep
        exact h.frontGone.dropFront
      · simp only [List.length_nil, Nat.sub_zero, List.nil_append] at heq hwire hle
        simp only [heq, hwire] at hstep
        have hread : ((s.wire .down).advance more.length).read = more := by
          rw [(Wire.read_advance hunread).1, hun.down, List.nil_append]
        have hsame : ∀ front pump, pump .toTarget = s.pump .toTarget → pump .toA = s.pump .toA →
            SameInbound s { s.setWire .down ((s.wire .down).advance more.length) with
              front := front, pump := pump } :=
          fun _ _ htoTarget htoA => ⟨rfl, rfl, htoTarget, htoA, rfl, rfl, rfl, rfl, rfl⟩
        have hwaits : ∀ front, Loops name { s.setWire .down
            ((s.wire .down).advance more.length) with front := front } := by
          intro front
          refine h.loops.of_advance hunread rfl rfl (fun _ _ => rfl) fun l hl => ?_
          obtain rfl : l = .fromB := Loop.src_injective hl
          show LoopOk _ _ _ _ (s.pump .fromB)
          rw [hun.fromB]
          exact Or.inl hun.visitorOut
        cases more with
        | nil =>
            obtain rfl := Option.some.inj hstep
            refine h.front_moves (hsame s.front _ rfl rfl) (hwaits s.front) ?_ h.replayed h.named
            unfold FrontOk
            rw [setWire, hfront]
            exact ⟨hun.fromB, hread, hun.visitorOut⟩
        | cons b tail =>
            obtain rfl : tail = [] := List.eq_nil_of_length_eq_zero (by simpa using hle)
            by_cases hb : b = 1
            · subst hb
              simp only [if_pos] at hstep
              obtain rfl := Option.some.inj hstep
              refine h.front_moves (hsame .relaying _ rfl rfl) ?_ trivial h.replayed h.named
              refine h.loops.of_advance hunread rfl rfl (fun l hl => ?_) fun l hl => ?_
              · exact Function.update_of_ne (fun heq => hl (by rw [heq]; rfl)) _ _
              · obtain rfl : l = .fromB := Loop.src_injective hl
                show LoopOk [1] [] _ (s.wire .visitorOut) (some .reading)
                refine .start trivial ?_ ⟨by simp, by simp⟩
                rw [hread, hun.visitorOut]
                rfl
            · simp only [if_neg hb] at hstep
              obtain rfl := Option.some.inj hstep
              exact Inv.dropFront (h.front_moves (hsame .dropped _ rfl rfl) (hwaits .dropped) trivial
                h.replayed h.named)

/-! ## The steps of B -/

/-- A frame that B has read is the one that A has written. -/
theorem Inv.name_of_read (h : Inv name resolve s) {data rest : Bytes} (hlt : data.length < 65536)
    (hframe : (s.wire .up).carried = frame data ++ rest) : data = name := by
  have hne : (s.wire .up).carried ≠ [] := by
    rw [hframe]
    exact fun hnil => frame_ne_nil data (List.append_eq_nil_iff.1 hnil).1
  have hfits : name.length < 65536 := h.named.elim id fun hup => absurd hup.1 hne
  have hmoved : (s.wire .up).carried = [] ∨
      (s.wire .up).carried <+: frame name ++ (s.wire .visitorIn).read := (h.loops.loop .toB).moved
  obtain ⟨tail, htail⟩ := hmoved.resolve_left hne
  rw [hframe, List.append_assoc] at htail
  exact (frame_append_inj hlt hfits htail).1

/-- B polls the stream for the name of the tunnel. -/
theorem Inv.step_header (h : Inv name resolve s) {a : ReadAnswer}
    (hstep : s.step name resolve (.header a) = some t) : Inv name resolve t := by
  have hphase := h.inbound
  unfold InboundOk at hphase
  cases hinbound : s.inbound with
  | dialing | answering | flushing | piping | dropped => simp [step, hinbound] at hstep
  | naming f =>
      simp only [hinbound] at hphase
      obtain ⟨hf, hread, hdown, hdialed, hquiet⟩ := hphase
      have hanswered : (s.wire .down).ended = false := by
        cases hended : (s.wire .down).ended with
        | false => rfl
        | true =>
            rcases h.answered hended with hne | hgone
            · exact absurd hdown hne
            · rw [hinbound] at hgone
              cases hgone
      obtain ⟨got, hwire, hunread, hout⟩ := FrameRead.step_spec hf (s.wire .up) a
      simp only [step, hinbound] at hstep
      generalize f.step maxNameLen (s.wire .up) a = p at hstep hwire hunread hout
      obtain ⟨f', wire'⟩ := p
      simp only at hstep hwire hunread hout
      subst hwire
      have hadvance : ((s.wire .up).advance got.length).read = f.held ++ got := by
        rw [(Wire.read_advance hunread).1, hread]
      have hmoves : ∀ inbound, (inbound = .dialing → resolve name = true) →
          InboundOk name { s.setWire .up ((s.wire .up).advance got.length) with
            inbound := inbound } →
          Inv name resolve { s.setWire .up ((s.wire .up).advance got.length) with
            inbound := inbound } := by
        intro inbound hknown hphase
        refine h.inbound_moves ⟨rfl, rfl, rfl, rfl, rfl, rfl, rfl, rfl⟩ ?_ hphase
          (fun hd => hd.elim (fun hd => h.known (Or.inl hd)) hknown) fun hended => ?_
        · refine h.loops.of_advance hunread rfl rfl (fun _ _ => rfl) fun l hl => ?_
          obtain rfl : l = .toTarget := Loop.src_injective hl
          show LoopOk _ _ _ _ (s.pump .toTarget)
          rw [hquiet.toTarget]
          exact Or.inl hquiet.targetOut
        · have hlive : (s.wire .down).ended = true := hended
          rw [hanswered] at hlive
          cases hlive
      have hgone : Inv name resolve
          (s.setWire .up ((s.wire .up).advance got.length)).dropInbound :=
        Inv.dropInbound (hmoves .dropped (fun hd => by cases hd) trivial)
          fun hd => h.known (Or.inl hd)
      cases hout with
      | going hok hheld =>
          have ht : t = { s.setWire .up ((s.wire .up).advance got.length) with
              inbound := .naming f' } := by
            cases f' with
            | header | body => exact (Option.some.inj hstep).symm
            | done | failed => exact absurd hok (by simp [FrameRead.Ok])
          subst ht
          exact hmoves _ (fun hd => by cases hd) ⟨hok, hadvance.trans hheld.symm, hdown, hdialed,
            hquiet.toTarget, hquiet.toA, hquiet.targetOut, hquiet.targetIn⟩
      | @done data _ hlt hframe =>
          rw [hframe] at hadvance
          have hcarried : (s.wire .up).carried =
              frame data ++ ((s.wire .up).advance got.length).unread := by
            rw [← hadvance, Wire.read_append_unread, Wire.carried_advance]
          obtain rfl : data = name := h.name_of_read hlt hcarried
          by_cases hknown : resolve data = true
          · simp only [hknown, if_true] at hstep
            obtain rfl := Option.some.inj hstep
            exact hmoves _ (fun _ => hknown) ⟨hadvance, hdown, hdialed, hquiet.toTarget, hquiet.toA,
              hquiet.targetOut, hquiet.targetIn⟩
          · simp only [hknown] at hstep
            obtain rfl := Option.some.inj hstep
            exact hgone
      | tooLarge | eof | error =>
          obtain rfl := Option.some.inj hstep
          exact hgone

/-- The dial at B returns. -/
theorem Inv.step_dial (h : Inv name resolve s) {ok : Bool}
    (hstep : s.step name resolve (.dial ok) = some t) : Inv name resolve t := by
  have hphase := h.inbound
  unfold InboundOk at hphase
  cases hinbound : s.inbound with
  | naming | answering | flushing | piping | dropped => simp [step, hinbound] at hstep
  | dialing =>
      simp only [hinbound] at hphase
      obtain ⟨hread, hdown, -, hquiet⟩ := hphase
      simp only [step, hinbound] at hstep
      obtain rfl := Option.some.inj hstep
      have hloops : Loops name { s with inbound := .answering ok, dialed := ok } := by
        refine ⟨h.loops.within, fun l => ?_⟩
        cases l with
        | toB => exact h.loops.loop .toB
        | fromB => exact h.loops.loop .fromB
        | toTarget => exact h.loops.loop .toTarget
        | toA =>
            -- The byte is not written yet, so nothing depends on it.
            show LoopOk _ _ _ _ (s.pump .toA)
            rw [hquiet.toA]
            exact Or.inl hdown
      refine h.inbound_moves ⟨rfl, rfl, rfl, rfl, rfl, rfl, rfl, rfl⟩ hloops
        ⟨hread, hdown, rfl, hquiet.toTarget, hquiet.toA, hquiet.targetOut, hquiet.targetIn⟩
        (fun _ => h.known (Or.inr hinbound)) fun hended => Or.inl ?_
      rcases h.answered hended with hne | hgone
      · exact hne
      · rw [hinbound] at hgone
        cases hgone

/-- B polls the stream with its status byte. -/
theorem Inv.step_answering (h : Inv name resolve s) {a : WriteAnswer} {ok : Bool}
    (hinbound : s.inbound = .answering ok)
    (hstep : s.step name resolve (.answer a) = some t) : Inv name resolve t := by
  have hphase := h.inbound
  unfold InboundOk at hphase
  simp only [hinbound] at hphase
  obtain ⟨hread, hdown, hdialed, hquiet⟩ := hphase
  have hlive : (s.wire .down).ended = false := by
    cases hended : (s.wire .down).ended with
    | false => rfl
    | true =>
        rcases h.answered hended with hne | hgone
        · exact absurd hdown hne
        · rw [hinbound] at hgone
          cases hgone
  have hmoves : ∀ inbound pushed, pushed = [] ∨ pushed = [statusByte ok] → inbound ≠ .dialing →
      InboundOk name { s.setWire .down ((s.wire .down).push pushed) with inbound := inbound } →
      Inv name resolve { s.setWire .down ((s.wire .down).push pushed) with inbound := inbound } := by
    intro inbound pushed hpushed hne hphase
    refine h.inbound_moves ⟨rfl, rfl, rfl, rfl, rfl, ?_, rfl, rfl⟩ ?_ hphase
      (fun hd => hd.elim (fun hd => h.known (Or.inl hd)) fun hd => absurd hd hne) fun hended => ?_
    · exact Wire.read_push (h.loops.within .down)
    · refine h.loops.of_push (fun _ => hlive) rfl rfl (fun _ _ => rfl) fun l hl => ?_
      obtain rfl : l = .toA := Loop.dst_injective hl
      show LoopOk [] [statusByte s.dialed] (s.wire .targetIn) _ (s.pump .toA)
      rw [hquiet.toA, hdialed]
      rcases hpushed with rfl | rfl
      · exact Or.inl (by rw [Wire.push_nil, hdown])
      · refine Or.inr ?_
        rw [Wire.carried_push, hdown]
        exact List.prefix_append _ _
    · have hnot : (s.wire .down).ended = true := hended
      rw [hlive] at hnot
      cases hnot
  simp only [step, hinbound] at hstep
  rcases (s.wire .down).writeAll_cases [statusByte ok] a with
    ⟨e, heq, hwire, -⟩ | ⟨pushed, more, hsplit, heq, hwire, -⟩
  · rw [heq, hwire, ← (s.wire .down).push_nil] at hstep
    cases ok with
    | true =>
        obtain rfl := Option.some.inj hstep
        exact Inv.dropInbound (hmoves .dropped [] (Or.inl rfl) (by simp) trivial)
          fun hd => h.known (Or.inl hd)
    | false =>
        obtain rfl := Option.some.inj hstep
        exact hmoves (.flushing false) [] (Or.inl rfl) (by simp) ⟨hread, by simp, hdialed,
          hquiet.toTarget, hquiet.toA, hquiet.targetOut, hquiet.targetIn⟩
  · rw [heq, hwire] at hstep
    cases pushed with
    | nil =>
        obtain rfl : more = [statusByte ok] := hsplit.symm
        obtain rfl := Option.some.inj hstep
        refine hmoves s.inbound [] (Or.inl rfl) (by simp [hinbound]) ?_
        unfold InboundOk
        simp only [hinbound, setWire]
        refine ⟨hread, ?_, hdialed, hquiet.toTarget, hquiet.toA, hquiet.targetOut, hquiet.targetIn⟩
        rw [Function.update_self, Wire.push_nil, hdown]
    | cons b pushed =>
        obtain ⟨rfl, hnil⟩ := List.cons_eq_cons.1 hsplit
        obtain ⟨rfl, rfl⟩ := List.append_eq_nil_iff.1 hnil.symm
        obtain rfl := Option.some.inj hstep
        refine hmoves (.flushing ok) _ (Or.inr rfl) (by simp) ⟨hread, fun hok => ?_, hdialed,
          hquiet.toTarget, hquiet.toA, hquiet.targetOut, hquiet.targetIn⟩
        show ((s.wire .down).push [statusByte ok]).carried = [1]
        rw [Wire.carried_push, hdown, hok]
        rfl

/-- B flushes the stream, and pipes if it has dialled the target. -/
theorem Inv.step_flushing (h : Inv name resolve s) {a : WriteAnswer} {ok : Bool}
    (hinbound : s.inbound = .flushing ok)
    (hstep : s.step name resolve (.answer a) = some t) : Inv name resolve t := by
  have hphase := h.inbound
  unfold InboundOk at hphase
  simp only [hinbound] at hphase
  obtain ⟨hread, hdown, hdialed, hquiet⟩ := hphase
  have hgone : Inv name resolve s.dropInbound := h.inboundGone.dropInbound fun hd => h.known (Or.inl hd)
  have hflushed : (if ok then some { (s.setPump .toTarget .reading).setPump .toA .reading with
      inbound := .piping } else some s.dropInbound) = some t → Inv name resolve t := by
    intro hstep
    cases ok with
    | false =>
        obtain rfl := Option.some.inj hstep
        exact hgone
    | true =>
        obtain rfl := Option.some.inj hstep
        refine h.inbound_moves ⟨rfl, rfl, rfl, rfl, rfl, rfl, rfl, rfl⟩ ?_ trivial
          (fun hd => h.known (hd.imp id fun hd => by cases hd)) fun _ => Or.inl ?_
        · refine h.loops.of_ended (fun k => Or.inl rfl) rfl fun l => ?_
          cases l with
          | toB => exact h.loops.loop .toB
          | fromB => exact h.loops.loop .fromB
          | toTarget =>
              show LoopOk (frame name) [] (s.wire .up) (s.wire .targetOut) (some .reading)
              refine .start trivial ?_ ⟨by simp, by simp⟩
              rw [hread, hquiet.targetOut]
              exact List.append_nil _
          | toA =>
              show LoopOk [] [statusByte s.dialed] (s.wire .targetIn) (s.wire .down) (some .reading)
              refine .start trivial ?_ ⟨by simp, by simp⟩
              rw [hdown rfl, hquiet.targetIn, hdialed]
              rfl
        · show (s.wire .down).carried ≠ []
          rw [hdown rfl]
          simp
  simp only [step, hinbound] at hstep
  cases a with
  | fail =>
      obtain rfl := Option.some.inj hstep
      exact hgone
  | pending =>
      obtain rfl := Option.some.inj hstep
      exact h
  | upTo n | zero => exact hflushed hstep

theorem Inv.step_answer (h : Inv name resolve s) {a : WriteAnswer}
    (hstep : s.step name resolve (.answer a) = some t) : Inv name resolve t := by
  cases hinbound : s.inbound with
  | naming | dialing | piping | dropped => simp [step, hinbound] at hstep
  | answering ok => exact h.step_answering hinbound hstep
  | flushing ok => exact h.step_flushing hinbound hstep

/-! ## The steps of a loop -/

/-- A loop has polled one of its two wires. -/
theorem Inv.loop_moves (h : Inv name resolve s) {l : Loop} {p' : Pump} {k : Link} {w : Wire}
    (hstarted : s.pump l ≠ none) (hloops : Loops name ((s.setWire k w).setPump l p'))
    (hk : (k = l.src ∧ w.carried = (s.wire k).carried ∧ w.ended = (s.wire k).ended ∧
        (s.wire k).read <+: w.read) ∨
      (k = l.dst ∧ w.read = (s.wire k).read ∧ ((s.wire k).carried ≠ [] → w.carried ≠ []) ∧
        (l = .toA → w.ended = true → (s.wire k).ended = true ∨ w.carried ≠ []))) :
    Inv name resolve ((s.setWire k w).setPump l p') := by
  cases l with
  | toB =>
      have hfront : FrontOk name ((s.setWire k w).setPump .toB p') := by
        refine h.front.of_toB hstarted rfl fun hun => ?_
        rcases hk with ⟨rfl, -⟩ | ⟨rfl, -⟩
        · exact ⟨hun.fromB, hun.down, hun.visitorOut⟩
        · exact ⟨hun.fromB, hun.down, hun.visitorOut⟩
      have hnamed : name.length < 65536 := h.named.elim id fun hup => absurd hup.2 hstarted
      rcases hk with ⟨rfl, -, -, hread⟩ | ⟨rfl, hread, -⟩
      · exact h.front_moves ⟨rfl, rfl, rfl, rfl, rfl, rfl, rfl, rfl, rfl⟩ hloops hfront
          (h.replayed.trans hread) (Or.inl hnamed)
      · exact h.front_moves ⟨rfl, rfl, rfl, rfl, hread, rfl, rfl, rfl, rfl⟩ hloops hfront h.replayed
          (Or.inl hnamed)
  | fromB =>
      have hfront : FrontOk name ((s.setWire k w).setPump .fromB p') :=
        h.front.of_fromB hstarted rfl
      rcases hk with ⟨rfl, hcarried, hended, -⟩ | ⟨rfl, -⟩
      · exact h.front_moves ⟨rfl, rfl, rfl, rfl, rfl, rfl, hcarried, rfl, hended⟩ hloops hfront
          h.replayed h.named
      · exact h.front_moves ⟨rfl, rfl, rfl, rfl, rfl, rfl, rfl, rfl, rfl⟩ hloops hfront h.replayed
          h.named
  | toTarget =>
      have hinbound : InboundOk name ((s.setWire k w).setPump .toTarget p') :=
        h.inbound.of_started (Or.inl hstarted) rfl
      rcases hk with ⟨rfl, hcarried, -⟩ | ⟨rfl, -⟩
      · exact h.inbound_moves ⟨rfl, rfl, rfl, rfl, rfl, rfl, hcarried, rfl⟩ hloops hinbound h.known
          h.answered
      · exact h.inbound_moves ⟨rfl, rfl, rfl, rfl, rfl, rfl, rfl, rfl⟩ hloops hinbound h.known
          h.answered
  | toA =>
      have hinbound : InboundOk name ((s.setWire k w).setPump .toA p') :=
        h.inbound.of_started (Or.inr hstarted) rfl
      rcases hk with ⟨rfl, -⟩ | ⟨rfl, hread, hne, hended⟩
      · exact h.inbound_moves ⟨rfl, rfl, rfl, rfl, rfl, rfl, rfl, rfl⟩ hloops hinbound h.known
          h.answered
      · refine h.inbound_moves ⟨rfl, rfl, rfl, rfl, rfl, hread, rfl, rfl⟩ hloops hinbound h.known
          fun hnow => ?_
        rcases hended rfl hnow with hbefore | hcarried
        · exact (h.answered hbefore).imp hne id
        · exact Or.inl hcarried

/-- A loop polls its reader. -/
theorem Inv.step_read (h : Inv name resolve s) {l : Loop} {a : ReadAnswer}
    (hstep : s.step name resolve (.read l a) = some t) : Inv name resolve t := by
  cases hpump : s.pump l with
  | none => simp [step, hpump] at hstep
  | some p =>
      simp only [step, hpump] at hstep
      by_cases hreading : p.isReading = true
      · rw [if_pos hreading] at hstep
        obtain rfl := Option.some.inj hstep
        have hroom : 0 < bufSize := by decide
        have hcopies := h.loops.loop l
        rw [hpump] at hcopies
        have hnext := Pump.Copies.read hcopies hreading a
        obtain ⟨got, rest, hunread, hwire⟩ := (s.wire l.src).pollRead_advances a hroom
        rw [hwire] at hnext ⊢
        refine h.loop_moves (by simp [hpump]) ?_ (Or.inl ⟨rfl, rfl, rfl, ?_⟩)
        · refine h.loops.of_advance hunread rfl rfl (fun l' hl => ?_) fun l' hl => ?_
          · exact Function.update_of_ne (fun heq => hl (by rw [heq])) _ _
          · obtain rfl : l' = l := Loop.src_injective hl
            show LoopOk _ _ _ _ (Function.update s.pump l' _ l')
            rw [Function.update_self]
            exact hnext
        · rw [(Wire.read_advance hunread).1]
          exact List.prefix_append _ _
      · rw [if_neg hreading] at hstep
        cases hstep

/-- A loop polls its writer. -/
theorem Inv.step_write (h : Inv name resolve s) {l : Loop} {a : WriteAnswer}
    (hstep : s.step name resolve (.write l a) = some t) : Inv name resolve t := by
  have hcopies := h.loops.loop l
  cases hpump : s.pump l with
  | none => simp [step, hpump] at hstep
  | some p =>
      rw [hpump] at hcopies
      cases p with
      | reading | waiting | done | failed => simp [step, hpump] at hstep
      | writing rest n =>
          simp only [step, hpump] at hstep
          obtain rfl := Option.some.inj hstep
          have hnext := Pump.Copies.write hcopies a
          obtain ⟨pushed, hwire, hlive⟩ := (s.wire l.dst).pollWrite_pushes rest a
          rw [hwire] at hnext ⊢
          refine h.loop_moves (by simp [hpump]) ?_ (Or.inr ⟨rfl, ?_, ?_, ?_⟩)
          · refine h.loops.of_push hlive rfl rfl (fun l' hl => ?_) fun l' hl => ?_
            · exact Function.update_of_ne (fun heq => hl (by rw [heq])) _ _
            · obtain rfl : l' = l := Loop.dst_injective hl
              show LoopOk _ _ _ _ (Function.update s.pump l' _ l')
              rw [Function.update_self]
              exact hnext
          · exact Wire.read_push (h.loops.within l.dst)
          · intro hne hnil
            exact hne (List.append_eq_nil_iff.1 hnil).1
          · exact fun _ hended => Or.inl hended
      | shuttingDown =>
          simp only [step, hpump] at hstep
          obtain rfl := Option.some.inj hstep
          have hwire := (s.wire l.dst).pollShutdown_snd a
          have hcarried : ((s.wire l.dst).pollShutdown a).2.carried = (s.wire l.dst).carried := by
            rcases hwire with heq | heq
            · rw [heq]
            · rw [heq]
          have hread : ((s.wire l.dst).pollShutdown a).2.read = (s.wire l.dst).read := by
            rcases hwire with heq | heq
            · rw [heq]
            · rw [heq]
              rfl
          refine h.loop_moves (by simp [hpump]) ?_ (Or.inr ⟨rfl, hread, ?_, ?_⟩)
          · refine h.loops.of_ended (fun k => ?_) rfl fun l' => ?_
            · by_cases hk : k = l.dst
              · subst hk
                show Function.update s.wire l.dst _ l.dst = _ ∨ Function.update s.wire l.dst _ l.dst = _
                rw [Function.update_self]
                exact hwire
              · exact Or.inl (Function.update_of_ne hk _ _)
            · by_cases hl : l' = l
              · subst hl
                show LoopOk _ _ _ _ (Function.update s.pump l' _ l')
                rw [Function.update_self]
                exact Pump.Copies.shutdown hcopies rfl _
              · show LoopOk _ _ _ _ (Function.update s.pump l _ l')
                rw [Function.update_of_ne hl]
                exact h.loops.loop l'
          · rw [hcarried]
            exact id
          · rintro rfl -
            right
            rw [hcarried]
            -- The status byte stands in front of whatever the loop has written.
            have hall : [] ++ ((s.wire .down).carried ++ []) =
                [statusByte s.dialed] ++ (s.wire .targetIn).read := hcopies.all_moved (by simp)
            intro hnil
            have hdown : (s.wire .down).carried = [] := hnil
            simp [hdown] at hall

/-! ## The steps of the world -/

/-- The visitor or the target writes into its wire, which is neither end's writer. -/
theorem Inv.world_sends (h : Inv name resolve s) {k : Link} {bytes : Bytes}
    (hk : k = .visitorIn ∨ k = .targetIn) (hlive : (s.wire k).ended = false) :
    Inv name resolve (s.setWire k ((s.wire k).push bytes)) := by
  have hread : ((s.wire k).push bytes).read = (s.wire k).read := Wire.read_push (h.loops.within k)
  have hloops : Loops name (s.setWire k ((s.wire k).push bytes)) := by
    refine h.loops.of_push (fun _ => hlive) rfl rfl (fun _ _ => rfl) fun l hl => ?_
    rcases hk with rfl | rfl
    · cases l <;> cases hl
    · cases l <;> cases hl
  rcases hk with rfl | rfl
  · refine h.front_moves ⟨rfl, rfl, rfl, rfl, rfl, rfl, rfl, rfl, rfl⟩ hloops
      (h.front.of_same ⟨rfl, rfl, rfl, rfl, hread, rfl, rfl, rfl⟩) ?_ h.named
    show s.replay <+: ((s.wire .visitorIn).push bytes).read
    rw [hread]
    exact h.replayed
  · exact h.inbound_moves ⟨rfl, rfl, rfl, rfl, rfl, rfl, rfl, rfl⟩ hloops
      (h.inbound.of_same ⟨rfl, rfl, rfl, rfl, rfl, hread, rfl, rfl, rfl⟩) h.known h.answered

/-- The visitor or the target closes its wire. -/
theorem Inv.world_closes (h : Inv name resolve s) {k : Link} (hk : k = .visitorIn ∨ k = .targetIn) :
    Inv name resolve (s.setWire k { s.wire k with ended := true }) := by
  have hloops : Loops name (s.setWire k { s.wire k with ended := true }) := by
    refine h.loops.of_ended (fun j => ?_) rfl fun l => h.loops.loop l
    by_cases hj : j = k
    · subst hj
      exact Or.inr (Function.update_self _ _ _)
    · exact Or.inl (Function.update_of_ne hj _ _)
  rcases hk with rfl | rfl
  · exact h.front_moves ⟨rfl, rfl, rfl, rfl, rfl, rfl, rfl, rfl, rfl⟩ hloops
      (h.front.of_same ⟨rfl, rfl, rfl, rfl, rfl, rfl, rfl, rfl⟩) h.replayed h.named
  · exact h.inbound_moves ⟨rfl, rfl, rfl, rfl, rfl, rfl, rfl, rfl⟩ hloops
      (h.inbound.of_same ⟨rfl, rfl, rfl, rfl, rfl, rfl, rfl, rfl, rfl⟩) h.known h.answered

/-- B lets go of a stream whose loops are tasks of their own. -/
theorem Inv.step_cancelInbound (h : Inv name resolve s)
    (hstep : s.step name resolve .cancelInbound = some t) : Inv name resolve t := by
  have hdrop : Inv name resolve s.dropInbound :=
    h.inboundGone.dropInbound fun hd => h.known (Or.inl hd)
  cases hinbound : s.inbound with
  | piping =>
      simp only [step, hinbound] at hstep
      obtain rfl := Option.some.inj hstep
      exact h.inboundGone
  | naming | dialing | answering | flushing | dropped =>
      simp only [step, hinbound] at hstep
      obtain rfl := Option.some.inj hstep
      exact hdrop

theorem inv_step {e : Event} (h : Inv name resolve s)
    (hstep : s.step name resolve e = some t) : Inv name resolve t := by
  cases e with
  | peek a found => exact h.step_peek hstep
  | name a => exact h.step_name hstep
  | status a => exact h.step_status hstep
  | header a => exact h.step_header hstep
  | dial ok => exact h.step_dial hstep
  | answer a => exact h.step_answer hstep
  | read l a => exact h.step_read hstep
  | write l a => exact h.step_write hstep
  | visitorSends bytes =>
      simp only [step] at hstep
      split at hstep
      · cases hstep
      · rename_i hlive
        obtain rfl := Option.some.inj hstep
        exact h.world_sends (Or.inl rfl) (by simpa using hlive)
  | visitorCloses =>
      obtain rfl := Option.some.inj hstep
      exact h.world_closes (Or.inl rfl)
  | targetSends bytes =>
      simp only [step] at hstep
      split at hstep
      · cases hstep
      · rename_i hlive
        obtain rfl := Option.some.inj hstep
        exact h.world_sends (Or.inr rfl) (by simpa using (not_or.1 hlive).1)
  | targetCloses =>
      simp only [step] at hstep
      split at hstep
      · cases hstep
      · obtain rfl := Option.some.inj hstep
        exact h.world_closes (Or.inr rfl)
  | finishFront =>
      cases hfront : s.front with
      | peeking | naming | opening | dropped => simp [step, hfront] at hstep
      | relaying =>
          simp only [step, hfront] at hstep
          split at hstep
          · obtain rfl := Option.some.inj hstep
            exact h.frontGone.dropFront
          · cases hstep
  | finishInbound =>
      simp only [step] at hstep
      split at hstep
      · obtain rfl := Option.some.inj hstep
        exact h.inboundGone.dropInbound fun hd => h.known (Or.inl hd)
      · cases hstep
  | cancelFront =>
      obtain rfl := Option.some.inj hstep
      exact h.frontGone.dropFront
  | cancelInbound => exact h.step_cancelInbound hstep

/-- Nothing was sent yet, whatever was read of the visitor. -/
theorem inv_incoming (name : Bytes) (resolve : Bytes → Bool) (replay : Bytes) :
    Inv name resolve (incoming replay).frontGone where
  loops := by
    refine ⟨fun k => ?_, fun l => ?_⟩
    · cases k with
      | visitorIn => exact Nat.le_refl _
      | visitorOut | up | down | targetOut | targetIn => exact Nat.zero_le _
    · cases l with
      | toB | fromB | toTarget | toA => exact Or.inl rfl
  front := trivial
  replayed := by
    exact List.prefix_take_iff.2 ⟨List.prefix_refl _, Nat.le_refl _⟩
  named := Or.inr ⟨rfl, rfl⟩
  inbound := ⟨FrameRead.start_ok _, rfl, rfl, rfl, rfl, rfl, rfl, rfl⟩
  known hd := by
    rcases hd with hd | hd
    · cases hd
    · cases hd
  answered hended := by cases hended

theorem inv_initial (name : Bytes) (resolve : Bytes → Bool) (seen : Option Bytes) :
    Inv name resolve (initial name seen) := by
  cases seen with
  | none =>
      have h := inv_incoming name resolve []
      exact {
        loops := ⟨h.loops.within, h.loops.loop⟩
        front := ⟨RecordRead.start_ok, rfl, rfl, rfl, rfl, rfl, rfl, rfl⟩
        replayed := h.replayed
        named := h.named
        inbound := ⟨FrameRead.start_ok _, rfl, rfl, rfl, rfl, rfl, rfl, rfl⟩
        known := h.known
        answered := h.answered }
  | some replay =>
      refine (inv_incoming name resolve replay).beginNaming ?_ rfl rfl ⟨rfl, rfl, rfl⟩
      exact List.take_length

theorem inv_run {es : List Event} {seen : Option Bytes}
    (hrun : (machine name resolve).run (initial name seen) es = some s) : Inv name resolve s :=
  (machine name resolve).run_invariant (Inv name resolve) inv_step (inv_initial name resolve seen)
    hrun

/-! ## What ends a loop -/

/-- The loop was started and has not returned. -/
def Running (s : Relay) (l : Loop) : Prop := s.pump l ≠ none ∧ returned (s.pump l) = false

/-- It is a poll of the loop. -/
def Event.polls (l : Loop) : Event → Bool
  | .read l' _ | .write l' _ => decide (l' = l)
  | _ => false

/-- One of the two programs is shut down. -/
def Event.cancels : Event → Bool
  | .cancelFront | .cancelInbound => true
  | _ => false

/-- Nothing that the loop works with is taken away: it is where it was, what it has to read is there
and its writer is as it was. -/
structure Undisturbed (s t : Relay) (l : Loop) : Prop where
  pump : t.pump l = s.pump l
  unread : (s.wire l.src).unread <+: (t.wire l.src).unread
  carried : (t.wire l.dst).carried = (s.wire l.dst).carried
  ended : (t.wire l.dst).ended = (s.wire l.dst).ended

/-- A polls for B's byte and learns that B has not dialled or is gone, or the stream fails. -/
def Refused (s : Relay) (e : Event) : Prop :=
  s.front = .opening ∧ ∃ a, e = .status a ∧ (a = .fail ∨ s.dialed = false ∨ s.inbound = .dropped)

theorem Undisturbed.of_setWire {l : Loop} {k : Link} {w : Wire} (hpump : t.pump l = s.pump l)
    (hwire : t.wire = Function.update s.wire k w)
    (hsrc : k = l.src → (s.wire k).unread <+: w.unread)
    (hdst : k = l.dst → w.carried = (s.wire k).carried ∧ w.ended = (s.wire k).ended) :
    Undisturbed s t l where
  pump := hpump
  unread := by
    rw [hwire]
    by_cases hk : k = l.src
    · rw [← hk, Function.update_self]
      exact hsrc hk
    · simp only [Function.update_of_ne (Ne.symm hk), List.prefix_rfl]
  carried := by
    rw [hwire]
    by_cases hk : k = l.dst
    · rw [← hk, Function.update_self]
      exact (hdst hk).1
    · rw [Function.update_of_ne (Ne.symm hk)]
  ended := by
    rw [hwire]
    by_cases hk : k = l.dst
    · rw [← hk, Function.update_self]
      exact (hdst hk).2
    · rw [Function.update_of_ne (Ne.symm hk)]

/-- Before A forwards the request, only B's loops can run. -/
theorem Running.inbound {l : Loop} (h : s.Running l) (htoB : s.pump .toB = none)
    (hfromB : s.pump .fromB = none) : l = .toTarget ∨ l = .toA := by
  cases l with
  | toB => exact absurd htoB h.1
  | fromB => exact absurd hfromB h.1
  | toTarget => exact Or.inl rfl
  | toA => exact Or.inr rfl

/-- Before B pipes, only A's loops can run. -/
theorem Running.front {l : Loop} (h : s.Running l) (hq : s.Quiet) : l = .toB ∨ l = .fromB := by
  cases l with
  | toB => exact Or.inl rfl
  | fromB => exact Or.inr rfl
  | toTarget => exact absurd hq.toTarget h.1
  | toA => exact absurd hq.toA h.1

/-- What A gives up is not B's. -/
theorem Undisturbed.dropFront {l : Loop} (h : Undisturbed s t l) (hside : l = .toTarget ∨ l = .toA) :
    Undisturbed s t.dropFront l := by
  rcases hside with rfl | rfl
  · exact ⟨h.pump, h.unread, h.carried, h.ended⟩
  · exact ⟨h.pump, h.unread, h.carried, h.ended⟩

/-- What B gives up is not A's. -/
theorem Undisturbed.dropInbound {l : Loop} (h : Undisturbed s t l) (hside : l = .toB ∨ l = .fromB) :
    Undisturbed s t.dropInbound l := by
  rcases hside with rfl | rfl
  · exact ⟨h.pump, h.unread, h.carried, h.ended⟩
  · exact ⟨h.pump, h.unread, h.carried, h.ended⟩

theorem undisturbed_peek (h : Inv name resolve s) {l : Loop} {a : ReadAnswer} {found : Bool}
    (hl : s.Running l) (hstep : s.step name resolve (.peek a found) = some t) :
    Undisturbed s t l := by
  have hphase := h.front
  unfold FrontOk at hphase
  cases hfront : s.front with
  | naming | opening | relaying | dropped => simp [step, hfront] at hstep
  | peeking r =>
      simp only [hfront] at hphase
      have hside := hl.inbound hphase.2.2.2.2.1 hphase.2.2.2.2.2.fromB
      have hread : ∀ replay, Undisturbed s { s.setWire .visitorIn
          (r.step (s.wire .visitorIn) a).2 with replay := replay } l := by
        intro replay
        rcases hside with rfl | rfl
        · exact ⟨rfl, List.prefix_refl _, rfl, rfl⟩
        · exact ⟨rfl, List.prefix_refl _, rfl, rfl⟩
      have hkeep := hread s.replay
      simp only [step, hfront] at hstep
      split at hstep
      · split at hstep
        · rename_i buf _ _
          obtain rfl := Option.some.inj hstep
          have hbuf := hread buf
          unfold Relay.beginNaming
          split
          · exact hbuf.dropFront hside
          · exact ⟨hbuf.pump, hbuf.unread, hbuf.carried, hbuf.ended⟩
        · obtain rfl := Option.some.inj hstep
          exact hkeep.dropFront hside
      · obtain rfl := Option.some.inj hstep
        exact hkeep.dropFront hside
      · obtain rfl := Option.some.inj hstep
        exact ⟨hkeep.pump, hkeep.unread, hkeep.carried, hkeep.ended⟩

theorem undisturbed_name (h : Inv name resolve s) {l : Loop} {a : WriteAnswer} (hl : s.Running l)
    (hstep : s.step name resolve (.name a) = some t) : Undisturbed s t l := by
  have hphase := h.front
  unfold FrontOk at hphase
  cases hfront : s.front with
  | peeking | opening | relaying | dropped => simp [step, hfront] at hstep
  | naming f =>
      simp only [hfront] at hphase
      have hside := hl.inbound hphase.2.2.2.2.1 hphase.2.2.2.2.2.fromB
      have hwire : ∃ pushed, (f.step (s.wire .up) a).2 = (s.wire .up).push pushed := by
        rcases FrameWrite.step_cases hphase.1 (s.wire .up) a with ⟨e, heq, -⟩ | ⟨g, pushed, heq, -⟩
        · exact ⟨[], by rw [heq, Wire.push_nil]⟩
        · exact ⟨pushed, by rw [heq]⟩
      obtain ⟨pushed, hwire⟩ := hwire
      have hwrite : Undisturbed s (s.setWire .up (f.step (s.wire .up) a).2) l := by
        rw [hwire]
        rcases hside with rfl | rfl
        · refine ⟨rfl, ?_, rfl, rfl⟩
          show _ <+: ((s.wire .up).push pushed).unread
          rw [Wire.unread_push (h.loops.within .up)]
          exact List.prefix_append _ _
        · exact ⟨rfl, List.prefix_refl _, rfl, rfl⟩
      simp only [step, hfront] at hstep
      split at hstep
      · obtain rfl := Option.some.inj hstep
        rcases hside with rfl | rfl
        · exact ⟨hwrite.pump, hwrite.unread, hwrite.carried, hwrite.ended⟩
        · exact ⟨hwrite.pump, hwrite.unread, hwrite.carried, hwrite.ended⟩
      · obtain rfl := Option.some.inj hstep
        exact hwrite.dropFront hside
      · obtain rfl := Option.some.inj hstep
        exact ⟨hwrite.pump, hwrite.unread, hwrite.carried, hwrite.ended⟩

/-- B's byte is the first that comes down the stream. -/
theorem Inv.dialed_of_byte (h : Inv name resolve s) {b : UInt8} {rest : Bytes}
    (hcarried : (s.wire .down).carried = b :: rest) : b = statusByte s.dialed := by
  have hmoved : (s.wire .down).carried = [] ∨
      (s.wire .down).carried <+: [statusByte s.dialed] ++ (s.wire .targetIn).read :=
    (h.loops.loop .toA).moved
  rw [hcarried] at hmoved
  obtain ⟨tail, htail⟩ := hmoved.resolve_left (List.cons_ne_nil _ _)
  exact (List.cons_eq_cons.1 htail).1

theorem undisturbed_status (h : Inv name resolve s) {l : Loop} {a : ReadAnswer} (hl : s.Running l)
    (hstep : s.step name resolve (.status a) = some t) :
    Undisturbed s t l ∨ l = .toB ∧ s.Refused (.status a) := by
  have hun := h.front
  unfold FrontOk at hun
  cases hfront : s.front with
  | peeking | naming | relaying | dropped => simp [step, hfront] at hstep
  | opening =>
      simp only [hfront] at hun
      have hroom : ([] : Bytes).length < 1 := by simp
      have hread : ∀ n, Undisturbed s (s.setWire .down ((s.wire .down).advance n)) l := by
        intro n
        cases l with
        | toB | toTarget | toA => exact ⟨rfl, List.prefix_refl _, rfl, rfl⟩
        | fromB => exact absurd hun.fromB hl.1
      have hdrop : ∀ n, (a = .fail ∨ s.dialed = false ∨ s.inbound = .dropped) →
          Undisturbed s (s.setWire .down ((s.wire .down).advance n)).dropFront l ∨
            l = .toB ∧ s.Refused (.status a) := by
        intro n hcause
        cases l with
        | toB => exact Or.inr ⟨rfl, hfront, a, rfl, hcause⟩
        | fromB => exact absurd hun.fromB hl.1
        | toTarget => exact Or.inl ((hread n).dropFront (Or.inl rfl))
        | toA => exact Or.inl ((hread n).dropFront (Or.inr rfl))
      simp only [step, hfront] at hstep
      rcases (s.wire .down).readExact_cases hroom a with
        ⟨e, heq, hwire, hcause⟩ | ⟨more, rest, hunread, hle, heq, hwire⟩
      · simp only [List.length_nil, Nat.sub_zero] at heq hwire
        rw [heq, hwire, ← (s.wire .down).advance_zero] at hstep
        obtain rfl := Option.some.inj hstep
        refine hdrop 0 ?_
        rcases hcause with ⟨-, hunread, hended⟩ | ⟨-, ha⟩
        · refine Or.inr (Or.inr ((h.answered hended).resolve_left fun hne => hne ?_))
          rw [← (s.wire .down).read_append_unread, hun.down, hunread]
          rfl
        · exact Or.inl ha
      · simp only [List.length_nil, Nat.sub_zero, List.nil_append] at heq hwire hle
        rw [heq, hwire] at hstep
        cases more with
        | nil =>
            obtain rfl := Option.some.inj hstep
            exact Or.inl (hread _)
        | cons b tail =>
            have hcarried : (s.wire .down).carried = b :: (tail ++ rest) := by
              rw [← (s.wire .down).read_append_unread, hun.down, hunread]
              rfl
            have hbyte := h.dialed_of_byte hcarried
            by_cases hb : b = 1
            · simp only [hb, if_true] at hstep
              obtain rfl := Option.some.inj hstep
              have hkeep := hread (b :: tail).length
              refine Or.inl ?_
              cases l with
              | toB | toTarget | toA =>
                  exact ⟨hkeep.pump, hkeep.unread, hkeep.carried, hkeep.ended⟩
              | fromB => exact absurd hun.fromB hl.1
            · simp only [if_neg hb] at hstep
              obtain rfl := Option.some.inj hstep
              refine hdrop _ (Or.inr (Or.inl ?_))
              cases hdialed : s.dialed with
              | false => rfl
              | true =>
                  rw [hdialed] at hbyte
                  exact absurd hbyte hb

theorem undisturbed_header (h : Inv name resolve s) {l : Loop} {a : ReadAnswer} (hl : s.Running l)
    (hstep : s.step name resolve (.header a) = some t) : Undisturbed s t l := by
  have hphase := h.inbound
  unfold InboundOk at hphase
  cases hinbound : s.inbound with
  | dialing | answering | flushing | piping | dropped => simp [step, hinbound] at hstep
  | naming f =>
      simp only [hinbound] at hphase
      have hside := hl.front hphase.2.2.2.2
      obtain ⟨got, hwire, -, -⟩ := FrameRead.step_spec hphase.1 (s.wire .up) a
      have hread : Undisturbed s (s.setWire .up (f.step maxNameLen (s.wire .up) a).2) l := by
        rw [hwire]
        rcases hside with rfl | rfl
        · exact ⟨rfl, List.prefix_refl _, rfl, rfl⟩
        · exact ⟨rfl, List.prefix_refl _, rfl, rfl⟩
      simp only [step, hinbound] at hstep
      split at hstep
      · split at hstep
        · obtain rfl := Option.some.inj hstep
          exact ⟨hread.pump, hread.unread, hread.carried, hread.ended⟩
        · obtain rfl := Option.some.inj hstep
          exact hread.dropInbound hside
      · obtain rfl := Option.some.inj hstep
        exact hread.dropInbound hside
      · obtain rfl := Option.some.inj hstep
        exact ⟨hread.pump, hread.unread, hread.carried, hread.ended⟩

theorem undisturbed_answer (h : Inv name resolve s) {l : Loop} {a : WriteAnswer} (hl : s.Running l)
    (hstep : s.step name resolve (.answer a) = some t) : Undisturbed s t l := by
  have hphase := h.inbound
  unfold InboundOk at hphase
  have hsame : Undisturbed s s l := ⟨rfl, List.prefix_refl _, rfl, rfl⟩
  cases hinbound : s.inbound with
  | naming | dialing | piping | dropped => simp [step, hinbound] at hstep
  | answering ok =>
      simp only [hinbound] at hphase
      have hside := hl.front hphase.2.2.2
      obtain ⟨pushed, hwire, -⟩ := (s.wire .down).pollWrite_pushes [statusByte ok] a
      have hwrite : Undisturbed s
          (s.setWire .down ((s.wire .down).pollWrite [statusByte ok] a).2) l := by
        rw [hwire]
        rcases hside with rfl | rfl
        · exact ⟨rfl, List.prefix_refl _, rfl, rfl⟩
        · refine ⟨rfl, ?_, rfl, rfl⟩
          show _ <+: ((s.wire .down).push pushed).unread
          rw [Wire.unread_push (h.loops.within .down)]
          exact List.prefix_append _ _
      simp only [step, hinbound] at hstep
      split at hstep
      · split at hstep
        · obtain rfl := Option.some.inj hstep
          exact hwrite.dropInbound hside
        · obtain rfl := Option.some.inj hstep
          exact ⟨hwrite.pump, hwrite.unread, hwrite.carried, hwrite.ended⟩
      · obtain rfl := Option.some.inj hstep
        exact ⟨hwrite.pump, hwrite.unread, hwrite.carried, hwrite.ended⟩
      · obtain rfl := Option.some.inj hstep
        exact hwrite
  | flushing ok =>
      simp only [hinbound] at hphase
      have hside := hl.front hphase.2.2.2
      simp only [step, hinbound] at hstep
      split at hstep
      · split at hstep
        · obtain rfl := Option.some.inj hstep
          rcases hside with rfl | rfl
          · exact ⟨rfl, List.prefix_refl _, rfl, rfl⟩
          · exact ⟨rfl, List.prefix_refl _, rfl, rfl⟩
        · obtain rfl := Option.some.inj hstep
          exact hsame.dropInbound hside
      · obtain rfl := Option.some.inj hstep
        exact hsame.dropInbound hside
      · obtain rfl := Option.some.inj hstep
        exact hsame

/-- Another loop polls its reader. -/
theorem undisturbed_read {l l' : Loop} {a : ReadAnswer} (hne : l' ≠ l)
    (hstep : s.step name resolve (.read l' a) = some t) : Undisturbed s t l := by
  have hroom : 0 < bufSize := by decide
  simp only [step] at hstep
  split at hstep
  · split at hstep
    · obtain rfl := Option.some.inj hstep
      obtain ⟨got, rest, -, hwire⟩ := (s.wire l'.src).pollRead_advances a hroom
      rw [hwire]
      refine .of_setWire (Function.update_of_ne (Ne.symm hne) _ _) rfl (fun hk => ?_)
        fun _ => ⟨rfl, rfl⟩
      exact absurd (Loop.src_injective hk) hne
    · cases hstep
  · cases hstep

/-- Another loop polls its writer. -/
theorem undisturbed_write (h : Inv name resolve s) {l l' : Loop} {a : WriteAnswer} (hne : l' ≠ l)
    (hstep : s.step name resolve (.write l' a) = some t) : Undisturbed s t l := by
  simp only [step] at hstep
  split at hstep
  · rename_i rest n _
    obtain rfl := Option.some.inj hstep
    obtain ⟨pushed, hwire, -⟩ := (s.wire l'.dst).pollWrite_pushes rest a
    rw [hwire]
    refine .of_setWire (Function.update_of_ne (Ne.symm hne) _ _) rfl (fun _ => ?_) fun hk => ?_
    · rw [Wire.unread_push (h.loops.within l'.dst)]
      exact List.prefix_append _ _
    · exact absurd (Loop.dst_injective hk) hne
  · obtain rfl := Option.some.inj hstep
    refine .of_setWire (Function.update_of_ne (Ne.symm hne) _ _) rfl (fun _ => ?_) fun hk => ?_
    · rcases (s.wire l'.dst).pollShutdown_snd a with heq | heq
      · simp only [heq, List.prefix_rfl]
      · simp only [heq, Wire.unread, List.prefix_rfl]
    · exact absurd (Loop.dst_injective hk) hne
  · cases hstep

/-- The visitor or the target moves. -/
theorem undisturbed_world (h : Inv name resolve s) {l : Loop} {k : Link} (bytes : Bytes)
    (hk : k = .visitorIn ∨ k = .targetIn) :
    Undisturbed s (s.setWire k ((s.wire k).push bytes)) l ∧
      Undisturbed s (s.setWire k { s.wire k with ended := true }) l := by
  have hdst : k ≠ l.dst := by
    rcases hk with rfl | rfl
    · cases l <;> simp [Loop.dst]
    · cases l <;> simp [Loop.dst]
  constructor
  · refine .of_setWire rfl rfl (fun _ => ?_) fun heq => absurd heq hdst
    rw [Wire.unread_push (h.loops.within k)]
    exact List.prefix_append _ _
  · exact .of_setWire rfl rfl (fun _ => List.prefix_refl _) fun heq => absurd heq hdst

/-- **A loop is ended by nothing but its own polls**, unless a program is shut down or A learns that
nothing will come back. -/
theorem undisturbed_step (h : Inv name resolve s) {l : Loop} {e : Event} (hl : s.Running l)
    (hpolls : e.polls l = false) (hcancels : e.cancels = false)
    (hstep : s.step name resolve e = some t) : Undisturbed s t l ∨ l = .toB ∧ s.Refused e := by
  have hsame : Undisturbed s s l := ⟨rfl, List.prefix_refl _, rfl, rfl⟩
  cases e with
  | peek a found => exact Or.inl (undisturbed_peek h hl hstep)
  | name a => exact Or.inl (undisturbed_name h hl hstep)
  | status a => exact undisturbed_status h hl hstep
  | header a => exact Or.inl (undisturbed_header h hl hstep)
  | dial ok =>
      simp only [step] at hstep
      split at hstep
      · obtain rfl := Option.some.inj hstep
        exact Or.inl ⟨rfl, List.prefix_refl _, rfl, rfl⟩
      · cases hstep
  | answer a => exact Or.inl (undisturbed_answer h hl hstep)
  | read l' a => exact Or.inl (undisturbed_read (by simpa [Event.polls] using hpolls) hstep)
  | write l' a => exact Or.inl (undisturbed_write h (by simpa [Event.polls] using hpolls) hstep)
  | visitorSends bytes =>
      simp only [step] at hstep
      split at hstep
      · cases hstep
      · obtain rfl := Option.some.inj hstep
        exact Or.inl (undisturbed_world h bytes (Or.inl rfl)).1
  | visitorCloses =>
      obtain rfl := Option.some.inj hstep
      exact Or.inl (undisturbed_world h [] (Or.inl rfl)).2
  | targetSends bytes =>
      simp only [step] at hstep
      split at hstep
      · cases hstep
      · obtain rfl := Option.some.inj hstep
        exact Or.inl (undisturbed_world h bytes (Or.inr rfl)).1
  | targetCloses =>
      simp only [step] at hstep
      split at hstep
      · cases hstep
      · obtain rfl := Option.some.inj hstep
        exact Or.inl (undisturbed_world h [] (Or.inr rfl)).2
  | finishFront =>
      simp only [step] at hstep
      split at hstep
      · split at hstep
        · rename_i hreturned
          obtain rfl := Option.some.inj hstep
          have hside : l = .toTarget ∨ l = .toA := by
            cases l with
            | toB => exact absurd hreturned.1 (by simp [hl.2])
            | fromB => exact absurd hreturned.2 (by simp [hl.2])
            | toTarget => exact Or.inl rfl
            | toA => exact Or.inr rfl
          exact Or.inl (hsame.dropFront hside)
        · cases hstep
      · cases hstep
  | finishInbound =>
      simp only [step] at hstep
      split at hstep
      · rename_i hreturned
        obtain rfl := Option.some.inj hstep
        have hside : l = .toB ∨ l = .fromB := by
          cases l with
          | toB => exact Or.inl rfl
          | fromB => exact Or.inr rfl
          | toTarget => exact absurd hreturned.1 (by simp [hl.2])
          | toA => exact absurd hreturned.2 (by simp [hl.2])
        exact Or.inl (hsame.dropInbound hside)
      · cases hstep
  | cancelFront | cancelInbound => cases hcancels

/-- A loop that runs can be polled, whatever its wires answer. -/
theorem Running.can_poll {l : Loop} (h : s.Running l) (a : ReadAnswer) (b : WriteAnswer) :
    (s.step name resolve (.read l a)).isSome ∨ (s.step name resolve (.write l b)).isSome := by
  obtain ⟨hne, hnot⟩ := h
  cases hpump : s.pump l with
  | none => exact absurd hpump hne
  | some p =>
      rw [hpump] at hnot
      cases p with
      | reading | waiting => exact Or.inl (by simp [step, hpump, Pump.isReading])
      | writing rest n => exact Or.inr (by simp [step, hpump])
      | shuttingDown => exact Or.inr (by simp [step, hpump])
      | done | failed => cases hnot

/-! ## The whole connection -/

/-- What a relayed connection promises, in the state that a run has reached. -/
structure Faithful (name : Bytes) (resolve : Bytes → Bool) (s : Relay) : Prop where
  /-- What was read before the relay is the front of what the visitor sent. -/
  replayed : s.replay <+: (s.wire .visitorIn).carried
  request : (s.wire .targetOut).carried <+: (s.wire .visitorIn).carried
  response : (s.wire .visitorOut).carried <+: (s.wire .targetIn).carried
  request_complete : s.pump .toB = some .done → s.pump .toTarget = some .done →
    (s.wire .targetOut).carried = (s.wire .visitorIn).carried
  response_complete : s.pump .toA = some .done → s.pump .fromB = some .done →
    (s.wire .visitorOut).carried = (s.wire .targetIn).carried
  /-- The end of one loop is not the end of another. -/
  independent : ∀ l e t, s.Running l → e.polls l = false → e.cancels = false →
    s.step name resolve e = some t → Undisturbed s t l ∨ l = .toB ∧ s.Refused e
  can_poll : ∀ l a b, s.Running l →
    (s.step name resolve (.read l a)).isSome ∨ (s.step name resolve (.write l b)).isSome
  refused : s.dialed = false → (s.wire .visitorOut).carried = []
  unknown : resolve name = false → s.dialed = false

namespace Inv

/-- What B has handed to the target, behind the name, came up the stream. -/
theorem request (h : Inv name resolve s) :
    (s.wire .targetOut).carried <+: (s.wire .visitorIn).read := by
  have htarget : (s.wire .targetOut).carried = [] ∨
      frame name ++ (s.wire .targetOut).carried <+: (s.wire .up).read :=
    (h.loops.loop .toTarget).moved
  have hup : (s.wire .up).carried = [] ∨
      (s.wire .up).carried <+: frame name ++ (s.wire .visitorIn).read := (h.loops.loop .toB).moved
  rcases htarget with hnil | hprefix
  · rw [hnil]
    exact List.nil_prefix
  · have hcarried : frame name ++ (s.wire .targetOut).carried <+: (s.wire .up).carried :=
      hprefix.trans (List.take_prefix _ _)
    rcases hup with hnil | hup
    · rw [hnil] at hcarried
      have hempty := List.append_eq_nil_iff.1 (List.prefix_nil.1 hcarried)
      exact absurd hempty.1 (frame_ne_nil name)
    · exact (List.prefix_append_right_inj _).1 (hcarried.trans hup)

/-- What A has handed to the visitor, behind B's byte, came down the stream; B's byte said yes. -/
theorem response (h : Inv name resolve s) :
    (s.wire .visitorOut).carried = [] ∨
      s.dialed = true ∧ (s.wire .visitorOut).carried <+: (s.wire .targetIn).read := by
  have hvisitor : (s.wire .visitorOut).carried = [] ∨
      [1] ++ (s.wire .visitorOut).carried <+: (s.wire .down).read := (h.loops.loop .fromB).moved
  have hdown : (s.wire .down).carried = [] ∨
      (s.wire .down).carried <+: [statusByte s.dialed] ++ (s.wire .targetIn).read :=
    (h.loops.loop .toA).moved
  refine hvisitor.imp id fun hprefix => ?_
  obtain ⟨rest, hrest⟩ := hprefix.trans (List.take_prefix _ _)
  have hbyte : 1 = statusByte s.dialed := h.dialed_of_byte hrest.symm
  have hdialed : s.dialed = true := by
    cases hdialed : s.dialed with
    | true => rfl
    | false =>
        rw [hdialed] at hbyte
        exact absurd hbyte (by decide)
  refine ⟨hdialed, ?_⟩
  rcases hdown with hnil | hdown
  · rw [hnil] at hrest
    simp at hrest
  · rw [← hbyte, ← hrest, List.append_assoc] at hdown
    exact (List.prefix_append _ _).trans ((List.prefix_append_right_inj [1]).1 hdown)

/-- Both loops of the request have moved all there was. -/
theorem request_complete (h : Inv name resolve s) (htoB : s.pump .toB = some .done)
    (htoTarget : s.pump .toTarget = some .done) :
    (s.wire .targetOut).carried = (s.wire .visitorIn).carried := by
  have hup := h.loops.loop .toB
  have htarget := h.loops.loop .toTarget
  rw [htoB] at hup
  rw [htoTarget] at htarget
  have hframe : (s.wire .up).carried = frame name ++ (s.wire .visitorIn).carried :=
    (Pump.Copies.of_done hup).1
  have hout : frame name ++ (s.wire .targetOut).carried = (s.wire .up).carried :=
    (Pump.Copies.of_done htarget).1
  exact List.append_cancel_left (hout.trans hframe)

/-- Both loops of the response have moved all there was. -/
theorem response_complete (h : Inv name resolve s) (htoA : s.pump .toA = some .done)
    (hfromB : s.pump .fromB = some .done) :
    (s.wire .visitorOut).carried = (s.wire .targetIn).carried := by
  have hdown := h.loops.loop .toA
  have hvisitor := h.loops.loop .fromB
  rw [htoA] at hdown
  rw [hfromB] at hvisitor
  have hbyte : (s.wire .down).carried = [statusByte s.dialed] ++ (s.wire .targetIn).carried :=
    (Pump.Copies.of_done hdown).1
  have hout : [1] ++ (s.wire .visitorOut).carried = (s.wire .down).carried :=
    (Pump.Copies.of_done hvisitor).1
  exact (List.cons_eq_cons.1 (hout.trans hbyte)).2

theorem faithful (h : Inv name resolve s) : Faithful name resolve s where
  replayed := h.replayed.trans (List.take_prefix _ _)
  request := h.request.trans (List.take_prefix _ _)
  response := by
    rcases h.response with hnil | ⟨-, hprefix⟩
    · rw [hnil]
      exact List.nil_prefix
    · exact hprefix.trans (List.take_prefix _ _)
  request_complete := h.request_complete
  response_complete := h.response_complete
  independent _ _ _ hl hpolls hcancels hstep := undisturbed_step h hl hpolls hcancels hstep
  can_poll _ a b hl := hl.can_poll a b
  refused hnot := by
    rcases h.response with hnil | ⟨hdialed, -⟩
    · exact hnil
    · rw [hnot] at hdialed
      cases hdialed
  unknown hno := by
    cases hdialed : s.dialed with
    | false => rfl
    | true =>
        rw [h.known (Or.inl hdialed)] at hno
        cases hno

end Inv

/-- **A relayed connection is faithful**, in every run of the two ends: whatever the visitor and the
target send, whatever was read before, and however the transports cut and delay. -/
theorem relay_faithful (name : Bytes) (resolve : Bytes → Bool) (seen : Option Bytes)
    (es : List Event) (s : Relay)
    (hrun : (machine name resolve).run (initial name seen) es = some s) :
    Faithful name resolve s :=
  (inv_run hrun).faithful

/-- A visitor of whom one byte was read sends another and closes; the target answers afterwards. -/
def halfClosedRun : List Event :=
  [.name (.upTo 9), .name (.upTo 9), .name (.upTo 0), .write .toB (.upTo 0), .visitorSends [8],
    .visitorCloses, .read .toB (.upTo 0), .header (.upTo 1), .header (.upTo 4), .write .toB (.upTo 9),
    .dial true, .read .toB (.upTo 0), .write .toB (.upTo 0), .answer (.upTo 0), .status (.upTo 0),
    .answer (.upTo 0), .read .toTarget (.upTo 9), .write .toTarget (.upTo 9),
    .read .toTarget (.upTo 9), .write .toTarget (.upTo 9), .targetSends [5], .read .toA (.upTo 9),
    .write .toA (.upTo 9), .read .fromB (.upTo 9), .write .fromB (.upTo 9)]

theorem relay_faithful_half_closed :
    ∃ s, (machine [98] (fun n => n == [98])).run (initial [98] (some [7])) halfClosedRun = some s ∧
      (s.wire .targetOut).carried = [7, 8] ∧ (s.wire .targetOut).ended = true ∧
      (s.wire .visitorOut).carried = [5] ∧ Faithful [98] (fun n => n == [98]) s := by
  have hlook : ((machine [98] (fun n => n == [98])).run (initial [98] (some [7]))
      halfClosedRun).map (fun s => ((s.wire .targetOut).carried, (s.wire .targetOut).ended,
        (s.wire .visitorOut).carried)) = some ([7, 8], true, [5]) := by decide +kernel
  obtain ⟨s, hrun, hstate⟩ := Option.map_eq_some_iff.1 hlook
  obtain ⟨hout, hrest⟩ := Prod.mk.inj hstate
  obtain ⟨hended, hback⟩ := Prod.mk.inj hrest
  exact ⟨s, hrun, hout, hended, hback, relay_faithful [98] _ (some [7]) halfClosedRun s hrun⟩

end Relay
end Reverse
end Erbridge
