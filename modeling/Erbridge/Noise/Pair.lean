import Erbridge.Core.Machine
import Erbridge.Noise.Handshake
import Mathlib.Data.List.Infix
import Mathlib.Logic.Function.Basic

/-!
# Two Noise streams over one transport

The connector and the acceptor with one PSK, from the handshake on, over two reliable ordered wires.
The calls of the two sides interleave in any order, and each poll of the transport is shortened or
put off as the script of its call says.

* `Pair.step` — one poll of a handshake, or one call of a stream.
* `Pair.Inv` — what is on each wire, in the sender and in the receiver are the frames of one log of
  messages, cut at five cursors.
* `Pair.noise_pair_reliable` — in every run what is delivered is a prefix of what was accepted, all of
  it when it was flushed and drained, and the end of the transport is told as it is.
-/

namespace Erbridge
namespace Noise

open Erbridge.Core
open Reverse (FrameRead FrameWrite)

/-- The answers of a transport that takes its time but does not fail. -/
def reliableWrite : WriteAnswer → Bool
  | .upTo _ | .pending => true
  | .zero | .fail => false

def reliableRead : ReadAnswer → Bool
  | .upTo _ | .pending => true
  | .fail => false

/-- One side, with the history of what its calls reported. -/
structure Side (S : Snow) where
  peer : Peer S
  /-- The bytes that `poll_write` reported as accepted. -/
  accepted : Bytes
  /-- What was accepted when a flush or a shutdown was last answered Ready. -/
  settled : Bytes
  /-- The bytes that `poll_read` has delivered. -/
  delivered : Bytes

/-- A side that has done nothing. -/
def Side.new {S : Snow} (peer : Peer S) : Side S where
  peer := peer
  accepted := []
  settled := []
  delivered := []

/-- The two sides; `wire who` is the direction out of `who`. -/
structure Pair (S : Snow) where
  side : Who → Side S
  wire : Who → Wire

namespace Pair

variable {S : Snow}

/-- `connect(a, psk)` and `accept(b, psk)` are called. -/
def initial (S : Snow) (psk : Psk) : Pair S where
  side
    | .connector => Side.new (Peer.connect S psk)
    | .acceptor => Side.new (Peer.accept S psk)
  wire := fun _ => Wire.empty

inductive Event
  /-- The handshake of `who` polls the transport for a write. -/
  | handshakeWrite (who : Who) (a : WriteAnswer)
  /-- The handshake of `who` polls the transport for a read. -/
  | handshakeRead (who : Who) (a : ReadAnswer)
  | write (who : Who) (buf : Bytes) (script : List WriteAnswer)
  | flush (who : Who) (script : List WriteAnswer)
  | shutdown (who : Who) (script : List WriteAnswer)
  | read (who : Who) (room : Nat) (script : List ReadAnswer)
  /-- The direction out of `who` ends where it is. -/
  | hangUp (who : Who)

/-- The state after `who` has written to its wire. -/
def sent (s : Pair S) (who : Who) (side : Side S) (wire : Wire) : Pair S where
  side := Function.update s.side who side
  wire := Function.update s.wire who wire

/-- The state after `who` has read from the other side's wire. -/
def received (s : Pair S) (who : Who) (side : Side S) (wire : Wire) : Pair S where
  side := Function.update s.side who side
  wire := Function.update s.wire who.other wire

/-- The side after a flush or a shutdown. -/
def flushed (side : Side S) (session : S.Session) (r : NoiseStream.Flushed) : Side S :=
  { side with
    peer := .up session r.stream
    settled := match r.answer with
      | .ready (.ok ()) => side.accepted
      | _ => side.settled }

def step (s : Pair S) : Event → Option (Pair S)
  | .handshakeWrite who a =>
      if reliableWrite a then
        match (s.side who).peer.handshakeWrite (s.wire who) a with
        | some (peer, wire) => some (s.sent who { s.side who with peer := peer } wire)
        | none => none
      else none
  | .handshakeRead who a =>
      if reliableRead a then
        match (s.side who).peer.handshakeRead (s.wire who.other) a with
        | some (peer, wire) => some (s.received who { s.side who with peer := peer } wire)
        | none => none
      else none
  | .write who buf script =>
      if script.all reliableWrite then
        match (s.side who).peer with
        | .up session stream =>
            let r := stream.pollWrite (S.cipher session) buf (s.wire who) script
            some (s.sent who
              { s.side who with
                peer := .up session r.stream
                accepted := (s.side who).accepted ++ r.accepted buf }
              r.wire)
        | _ => none
      else none
  | .flush who script =>
      if script.all reliableWrite then
        match (s.side who).peer with
        | .up session stream =>
            let r := stream.pollFlush (s.wire who) script
            some (s.sent who (flushed (s.side who) session r) r.wire)
        | _ => none
      else none
  | .shutdown who script =>
      if script.all reliableWrite then
        match (s.side who).peer with
        | .up session stream =>
            let r := stream.pollShutdown (s.wire who) script
            some (s.sent who (flushed (s.side who) session r) r.wire)
        | _ => none
      else none
  | .read who room script =>
      if 0 < room ∧ script.all reliableRead then
        match (s.side who).peer with
        | .up session stream =>
            let r := stream.pollRead (S.cipher session) room (s.wire who.other) script
            some (s.received who
              { s.side who with
                peer := .up session r.stream
                delivered := (s.side who).delivered ++ r.out }
              r.wire)
        | _ => none
      else none
  | .hangUp who => some (s.sent who (s.side who) { s.wire who with ended := true })

def machine (S : Snow) : Machine (Pair S) Event where
  step := step

/-! ## What a side has sent and read -/

/-- The five cursors of a side, as what lies between them: the messages that it framed and the bytes
of them that it has not sent, the messages that it took off the wire and the bytes of the next one,
and the plaintexts behind both. -/
structure Trace where
  emitted : List Bytes
  unsent : Bytes
  consumed : List Bytes
  held : Bytes
  sealed : List (Bytes × Bytes)
  opened : List (Bytes × Bytes)

variable {psk : Psk} (H : Agreement S psk)

/-- The states that a side can be in, and what its trace is there. -/
inductive Local : Who → Peer S → Trace → Prop
  | sendFirst {f : FrameWrite} (hf : f.Ok) :
      Local .connector (.sendFirst f H.sent) ⟨[H.message .connector], f.unsent, [], [], [], []⟩
  | readSecond {f : FrameRead} (hf : f.Ok maxMessage) :
      Local .connector (.readSecond f H.sent) ⟨[H.message .connector], [], [], f.held, [], []⟩
  | readFirst {f : FrameRead} (hf : f.Ok maxMessage) :
      Local .acceptor (.readFirst f [psk]) ⟨[], [], [], f.held, [], []⟩
  | sendSecond {f : FrameWrite} (hf : f.Ok) :
      Local .acceptor (.sendSecond f H.replied)
        ⟨[H.message .acceptor], f.unsent, [H.message .connector], [], [], []⟩
  | up {who : Who} {st : NoiseStream} {sealed opened : List (Bytes × Bytes)} (hst : st.Ok)
      (hsealed : Numbered (S.cipher (H.session who)).Seals 0 sealed)
      (hsending : st.sending = sealed.length)
      (hshort : ∀ x ∈ sealed, x.1.length ≤ maxPlaintext) (hfits : Fits (sealed.map Prod.snd))
      (hopened : Numbered (S.cipher (H.session who)).Opens 0 opened)
      (hreceiving : st.receiving = opened.length) (hfits' : Fits (opened.map Prod.snd)) :
      Local who (.up (H.session who) st)
        ⟨H.message who :: sealed.map Prod.snd, st.writer.unsent,
          H.message who.other :: opened.map Prod.snd, st.reader.held, sealed, opened⟩
  | failed {who : Who} {emitted consumed : List Bytes} {unsent held : Bytes}
      (hemitted : emitted = [] ∨ emitted = [H.message who])
      (hconsumed : consumed = [] ∨ consumed = [H.message who.other]) (hheld : Incomplete held) :
      Local who .failed ⟨emitted, unsent, consumed, held, [], []⟩

variable {H}

namespace Local

variable {who : Who} {peer : Peer S} {tr : Trace}

theorem emitted_cases (h : Local H who peer tr) :
    (tr.emitted = [] ∧ tr.sealed = []) ∨ tr.emitted = H.message who :: tr.sealed.map Prod.snd := by
  cases h with
  | sendFirst | readSecond | sendSecond | up => exact Or.inr rfl
  | readFirst => exact Or.inl ⟨rfl, rfl⟩
  | failed hemitted => exact hemitted.imp (fun h => ⟨h, rfl⟩) id

theorem consumed_cases (h : Local H who peer tr) :
    (tr.consumed = [] ∧ tr.opened = []) ∨
      tr.consumed = H.message who.other :: tr.opened.map Prod.snd := by
  cases h with
  | sendFirst | readSecond | readFirst => exact Or.inl ⟨rfl, rfl⟩
  | sendSecond | up => exact Or.inr rfl
  | failed _ hconsumed => exact hconsumed.imp (fun h => ⟨h, rfl⟩) id

theorem sealed_numbered (h : Local H who peer tr) :
    Numbered (S.cipher (H.session who)).Seals 0 tr.sealed := by
  cases h with
  | up _ hsealed => exact hsealed
  | sendFirst | readSecond | readFirst | sendSecond | failed => trivial

theorem opened_numbered (h : Local H who peer tr) :
    Numbered (S.cipher (H.session who)).Opens 0 tr.opened := by
  cases h with
  | up _ _ _ _ _ hopened => exact hopened
  | sendFirst | readSecond | readFirst | sendSecond | failed => trivial

theorem sealed_short (h : Local H who peer tr) : ∀ x ∈ tr.sealed, x.1.length ≤ maxPlaintext := by
  cases h with
  | up _ _ _ hshort => exact hshort
  | sendFirst | readSecond | readFirst | sendSecond | failed => simp

theorem fits_sealed (h : Local H who peer tr) : Fits (tr.sealed.map Prod.snd) := by
  cases h with
  | up _ _ _ _ hfits => exact hfits
  | sendFirst | readSecond | readFirst | sendSecond | failed => simp [Fits]

theorem fits_opened (h : Local H who peer tr) : Fits (tr.opened.map Prod.snd) := by
  cases h with
  | up _ _ _ _ _ _ _ hfits => exact hfits
  | sendFirst | readSecond | readFirst | sendSecond | failed => simp [Fits]

theorem fits_emitted (h : Local H who peer tr) : Fits tr.emitted := by
  rcases h.emitted_cases with ⟨heq, -⟩ | heq
  · simp [heq, Fits]
  · rw [heq]
    intro c hc
    rcases List.mem_cons.1 hc with rfl | hc
    · exact H.fits_message who
    · exact h.fits_sealed c hc

theorem fits_consumed (h : Local H who peer tr) : Fits tr.consumed := by
  rcases h.consumed_cases with ⟨heq, -⟩ | heq
  · simp [heq, Fits]
  · rw [heq]
    intro c hc
    rcases List.mem_cons.1 hc with rfl | hc
    · exact H.fits_message who.other
    · exact h.fits_opened c hc

theorem incomplete_held (h : Local H who peer tr) : Incomplete tr.held := by
  cases h with
  | readSecond hf | readFirst hf => exact hf.incomplete_held
  | up hst => exact hst.reader.incomplete_held
  | failed _ _ hheld => exact hheld
  | sendFirst | sendSecond => exact incomplete_nil

/-- A stream that was just made has nothing to show but the two messages. -/
theorem up_new (H : Agreement S psk) (who : Who) :
    Local H who (.up (H.session who) NoiseStream.new)
      ⟨[H.message who], [], [H.message who.other], [], [], []⟩ := by
  have hfits : Fits (([] : List (Bytes × Bytes)).map Prod.snd) := by simp [Fits]
  have hnone : NoiseStream.new.writer.unsent = [] := FrameWriter.unsent_default
  have h : Local H who (.up (H.session who) NoiseStream.new)
      ⟨[H.message who], NoiseStream.new.writer.unsent, [H.message who.other], [], [], []⟩ :=
    .up NoiseStream.new_ok (numbered_nil 0) rfl (by simp) hfits (numbered_nil 0) rfl hfits
  rw [hnone] at h
  exact h

/-- The trace of a side whose stream is up. -/
theorem up_eq {session : S.Session} {st : NoiseStream} (h : Local H who (.up session st) tr) :
    session = H.session who ∧ st.Ok ∧ st.sending = tr.sealed.length ∧
      st.receiving = tr.opened.length ∧
      tr.emitted = H.message who :: tr.sealed.map Prod.snd ∧ tr.unsent = st.writer.unsent ∧
      tr.consumed = H.message who.other :: tr.opened.map Prod.snd ∧ tr.held = st.reader.held := by
  cases h with
  | up hst _ hsending _ _ _ hreceiving =>
      exact ⟨rfl, hst, hsending, hreceiving, rfl, rfl, rfl, rfl⟩

end Local

/-- What the sender has to do with its wire. -/
structure Out (H : Agreement S psk) (who : Who) (side : Side S) (wire : Wire) (tr : Trace) :
    Prop where
  carried_eq : wire.carried ++ tr.unsent = frames tr.emitted
  /-- All that was encrypted was accepted, but for a last chunk whose write failed because the
  transport had ended; some of its frame is never sent. -/
  accepted_eq : side.accepted = tr.sealed.flatMap Prod.fst ∨
    (wire.ended = true ∧ tr.unsent ≠ [] ∧
      ∃ log x, tr.sealed = log ++ [x] ∧ side.accepted = log.flatMap Prod.fst)
  settled_eq : ∃ log, log <+: tr.sealed ∧ side.settled = log.flatMap Prod.fst ∧
    (log = [] ∨ frames (H.message who :: log.map Prod.snd) <+: wire.carried)

/-- What the reader has to do with the other side's wire. -/
structure In (side : Side S) (wire : Wire) (tr : Trace) : Prop where
  taken_le : wire.taken ≤ wire.carried.length
  read_eq : wire.read = frames tr.consumed ++ tr.held
  delivered_eq : side.delivered ++ side.peer.buffered = tr.opened.flatMap Prod.fst

/-- The invariant, for given traces of the two sides. -/
structure Inv (H : Agreement S psk) (s : Pair S) (tr : Who → Trace) : Prop where
  here : ∀ who, Local H who (s.side who).peer (tr who)
  out : ∀ who, Out H who (s.side who) (s.wire who) (tr who)
  inc : ∀ who, In (s.side who) (s.wire who.other) (tr who)

theorem Inv.up {s : Pair S} {tr : Who → Trace} (h : Inv H s tr) {who : Who} {session : S.Session}
    {st : NoiseStream} (hpeer : (s.side who).peer = .up session st) :
    Local H who (.up session st) (tr who) := by
  have hlocal := h.here who
  rwa [hpeer] at hlocal

/-- More in the wire is nothing to the reader. -/
theorem In.push {side : Side S} {wire wire' : Wire} {tr : Trace} (h : In side wire tr)
    (htaken : wire'.taken = wire.taken) {pushed : Bytes}
    (hcarried : wire'.carried = wire.carried ++ pushed) : In side wire' tr where
  taken_le := by
    have := h.taken_le
    rw [htaken, hcarried, List.length_append]
    omega
  read_eq := by
    rw [← h.read_eq, Wire.read, Wire.read, htaken, hcarried]
    exact List.take_append_of_le_length h.taken_le
  delivered_eq := h.delivered_eq

theorem In.prefix_read {side : Side S} {wire : Wire} {tr : Trace} (h : In side wire tr) :
    frames tr.consumed ++ tr.held <+: wire.carried := by
  rw [← h.read_eq]
  exact List.take_prefix _ _

/-- A read takes what it has got off the wire. -/
theorem In.advance {side side' : Side S} {wire wire' : Wire} {tr tr' : Trace} {got : Bytes}
    (h : In side wire tr) (hwire : wire' = wire.advance got.length)
    (hunread : wire.unread = got ++ wire'.unread)
    (hread : frames tr.consumed ++ tr.held ++ got = frames tr'.consumed ++ tr'.held)
    (hdelivered : side'.delivered ++ side'.peer.buffered = tr'.opened.flatMap Prod.fst) :
    In side' wire' tr' where
  taken_le := by
    have hlen := congrArg List.length hunread
    have hle := h.taken_le
    simp only [Wire.unread, List.length_append, List.length_drop, hwire, Wire.advance] at hlen ⊢
    omega
  read_eq := by
    rw [← hread, ← h.read_eq, hwire]
    exact (Wire.read_advance hunread).1
  delivered_eq := hdelivered

/-- The sender does not see what is read. -/
theorem Out.of_eq {who : Who} {side side' : Side S} {wire wire' : Wire} {tr tr' : Trace}
    (h : Out H who side wire tr) (haccepted : side'.accepted = side.accepted)
    (hsettled : side'.settled = side.settled) (hcarried : wire'.carried = wire.carried)
    (hended : wire'.ended = wire.ended) (hemitted : tr'.emitted = tr.emitted)
    (hunsent : tr'.unsent = tr.unsent) (hsealed : tr'.sealed = tr.sealed) :
    Out H who side' wire' tr' where
  carried_eq := by
    rw [hcarried, hunsent, hemitted]
    exact h.carried_eq
  accepted_eq := by
    rw [haccepted, hended, hunsent, hsealed]
    exact h.accepted_eq
  settled_eq := by
    rw [hsettled, hsealed, hcarried]
    exact h.settled_eq

/-- The sender hands over some of what is unsent. -/
theorem Out.push {who : Who} {side side' : Side S} {wire wire' : Wire} {tr tr' : Trace}
    (h : Out H who side wire tr) {pushed : Bytes} (haccepted : side'.accepted = side.accepted)
    (hsettled : side'.settled = side.settled) (hcarried : wire'.carried = wire.carried ++ pushed)
    (hlive : pushed ≠ [] → wire.ended = false) (hended : wire.ended = true → wire'.ended = true)
    (hemitted : tr'.emitted = tr.emitted) (hunsent : tr.unsent = pushed ++ tr'.unsent)
    (hsealed : tr'.sealed = tr.sealed) : Out H who side' wire' tr' where
  carried_eq := by
    rw [hcarried, List.append_assoc, ← hunsent, hemitted]
    exact h.carried_eq
  accepted_eq := by
    rw [haccepted, hsealed]
    rcases h.accepted_eq with heq | ⟨hend, hne, hlast⟩
    · exact Or.inl heq
    · have hnil : pushed = [] := by
        by_cases hp : pushed = []
        · exact hp
        · rw [hlive hp] at hend
          cases hend
      rw [hnil, List.nil_append] at hunsent
      exact Or.inr ⟨hended hend, by rw [← hunsent]; exact hne, hlast⟩
  settled_eq := by
    obtain ⟨log, hlog, heq, hsent⟩ := h.settled_eq
    rw [hsettled, hsealed, hcarried]
    exact ⟨log, hlog, heq, hsent.imp_right fun hp => hp.trans (List.prefix_append _ _)⟩

/-- When nothing is unsent, all that was accepted is on the wire. -/
theorem Out.settle {who : Who} {side side' : Side S} {wire : Wire} {tr : Trace}
    (h : Out H who side wire tr) (hunsent : tr.unsent = [])
    (hemitted : tr.emitted = H.message who :: tr.sealed.map Prod.snd)
    (haccepted : side'.accepted = side.accepted) (hsettled : side'.settled = side.accepted) :
    Out H who side' wire tr where
  carried_eq := h.carried_eq
  accepted_eq := by
    rw [haccepted]
    exact h.accepted_eq
  settled_eq := by
    refine ⟨tr.sealed, List.prefix_refl _, ?_, Or.inr ?_⟩
    · rw [hsettled]
      rcases h.accepted_eq with heq | ⟨-, hne, -⟩
      · exact heq
      · exact absurd hunsent hne
    · rw [← hemitted, ← h.carried_eq, hunsent, List.append_nil]

/-- A step in which `who` writes. -/
theorem Inv.sent {s : Pair S} {tr : Who → Trace} (h : Inv H s tr) (who : Who) {side : Side S}
    {wire : Wire} {t : Trace} (hlocal : Local H who side.peer t) (hout : Out H who side wire t)
    (hdelivered : side.delivered ++ side.peer.buffered =
      (s.side who).delivered ++ (s.side who).peer.buffered)
    (hconsumed : t.consumed = (tr who).consumed) (hheld : t.held = (tr who).held)
    (hopened : t.opened = (tr who).opened) (htaken : wire.taken = (s.wire who).taken)
    {pushed : Bytes} (hcarried : wire.carried = (s.wire who).carried ++ pushed) :
    Inv H (s.sent who side wire) (Function.update tr who t) where
  here := by
    intro x
    by_cases hx : x = who
    · subst hx
      simpa [Pair.sent] using hlocal
    · simpa [Pair.sent, hx] using h.here x
  out := by
    intro x
    by_cases hx : x = who
    · subst hx
      simpa [Pair.sent] using hout
    · simpa [Pair.sent, hx] using h.out x
  inc := by
    intro x
    by_cases hx : x = who
    · subst hx
      have hin := h.inc x
      have hne : x.other ≠ x := x.other_ne
      simp only [Pair.sent, Function.update_self, Function.update_of_ne hne]
      exact {
        taken_le := hin.taken_le
        read_eq := by rw [hconsumed, hheld]; exact hin.read_eq
        delivered_eq := by rw [hdelivered, hopened]; exact hin.delivered_eq }
    · have hwho : x.other = who := by rw [Who.eq_other_of_ne hx, Who.other_other]
      have hin := h.inc x
      rw [hwho] at hin
      simp only [Pair.sent, Function.update_of_ne hx, hwho, Function.update_self]
      exact hin.push htaken hcarried

/-- A step in which `who` reads. -/
theorem Inv.received {s : Pair S} {tr : Who → Trace} (h : Inv H s tr) (who : Who) {side : Side S}
    {wire : Wire} {t : Trace} (hlocal : Local H who side.peer t)
    (hout : Out H who side (s.wire who) t) (hin : In side wire t)
    (hcarried : wire.carried = (s.wire who.other).carried)
    (hended : wire.ended = (s.wire who.other).ended) :
    Inv H (s.received who side wire) (Function.update tr who t) where
  here := by
    intro x
    by_cases hx : x = who
    · subst hx
      simpa [Pair.received] using hlocal
    · simpa [Pair.received, hx] using h.here x
  out := by
    intro x
    by_cases hx : x = who
    · subst hx
      have hne : x ≠ x.other := x.other_ne.symm
      simpa [Pair.received, hne] using hout
    · obtain rfl : x = who.other := Who.eq_other_of_ne hx
      simp only [Pair.received, Function.update_of_ne hx, Function.update_self]
      exact (h.out who.other).of_eq rfl rfl hcarried hended rfl rfl rfl
  inc := by
    intro x
    by_cases hx : x = who
    · subst hx
      simpa [Pair.received] using hin
    · obtain rfl : x = who.other := Who.eq_other_of_ne hx
      have hne : who ≠ who.other := fun he => hx he.symm
      have hrest := h.inc who.other
      rw [Who.other_other] at hrest
      simpa [Pair.received, hx, hne] using hrest

/-- What the reader took off the wire is the front of what the sender framed. -/
theorem Inv.consumed_prefix {s : Pair S} {tr : Who → Trace} (h : Inv H s tr) (who : Who)
    {bodies : List Bytes} (hfits : Fits bodies) {rest : Bytes}
    (hread : frames bodies ++ rest <+: (s.wire who.other).carried) :
    bodies <+: (tr who.other).emitted := by
  have hcarried : (s.wire who.other).carried <+: frames (tr who.other).emitted :=
    ⟨_, (h.out who.other).carried_eq⟩
  obtain ⟨more, hmore, -⟩ := frames_append_prefix hfits (h.here who.other).fits_emitted
    (hread.trans hcarried)
  exact ⟨more, hmore.symm⟩

/-- If the reader has taken its message and these ciphertexts, the sender has encrypted them. -/
theorem Inv.sealed_of_consumed {s : Pair S} {tr : Who → Trace} (h : Inv H s tr) (who : Who)
    {bodies : List Bytes} (hp : H.message who.other :: bodies <+: (tr who.other).emitted) :
    bodies <+: (tr who.other).sealed.map Prod.snd := by
  rcases (h.here who.other).emitted_cases with ⟨hnil, -⟩ | heq
  · rw [hnil] at hp
    exact absurd (List.prefix_nil.1 hp) (List.cons_ne_nil _ _)
  · rw [heq] at hp
    exact (List.cons_prefix_cons.1 hp).2

/-- What one side opened undoes what the other side encrypted. -/
theorem opened_prefix_sealed {who : Who} {opened sealed : List (Bytes × Bytes)}
    (hopened : Numbered (S.cipher (H.session who)).Opens 0 opened)
    (hsealed : Numbered (S.cipher (H.session who.other)).Seals 0 sealed)
    (hp : opened.map Prod.snd <+: sealed.map Prod.snd) : opened <+: sealed := by
  refine prefix_of_undoes ?_ hsealed hopened hp
  intro k p p' c hseals hopens
  have hundo := H.undoes who.other k p c hseals
  rw [Who.other_other] at hundo
  exact Option.some.inj (hopens.symm.trans hundo)

theorem Inv.opened_prefix {s : Pair S} {tr : Who → Trace} (h : Inv H s tr) (who : Who) :
    (tr who).opened <+: (tr who.other).sealed := by
  rcases (h.here who).consumed_cases with ⟨-, hnil⟩ | heq
  · rw [hnil]
    exact List.nil_prefix
  refine opened_prefix_sealed (h.here who).opened_numbered (h.here who.other).sealed_numbered ?_
  refine h.sealed_of_consumed who ?_
  rw [← heq]
  exact h.consumed_prefix who (h.here who).fits_consumed (h.inc who).prefix_read

/-- What is delivered, with what is still buffered, is a prefix of what was accepted. -/
theorem Inv.delivered_prefix {s : Pair S} {tr : Who → Trace} (h : Inv H s tr) (who : Who) :
    (s.side who).delivered ++ (s.side who).peer.buffered <+: (s.side who.other).accepted := by
  have hp := h.opened_prefix who
  rw [(h.inc who).delivered_eq]
  rcases (h.out who.other).accepted_eq with heq | ⟨-, hunsent, log, x, hlog, heq⟩
  · rw [heq]
    exact hp.flatMap _
  rw [heq]
  -- The last frame is not all on the wire, so the reader cannot have opened it.
  rw [hlog] at hp
  rcases List.prefix_concat_iff.1 hp with hall | hlog'
  · exfalso
    apply hunsent
    have hsealed : (tr who.other).sealed = (tr who).opened := by rw [hlog, hall]
    have hne : (tr who).opened ≠ [] := by simp [hall]
    have hconsumed : (tr who).consumed = (tr who.other).emitted := by
      rcases (h.here who).consumed_cases with ⟨-, hnil⟩ | hc
      · exact absurd hnil hne
      · rcases (h.here who.other).emitted_cases with ⟨-, hnil⟩ | he
        · exact absurd (hsealed.symm.trans hnil) hne
        · rw [hc, he, hsealed]
    have hcarried := (h.out who.other).carried_eq
    rw [← hconsumed] at hcarried
    have hlen := congrArg List.length hcarried
    have hle := (h.inc who).prefix_read.length_le
    simp only [List.length_append] at hlen hle
    exact List.length_eq_zero_iff.1 (by omega)
  · exact hlog'.flatMap _

/-- What was flushed has been delivered when the wire and the plaintext buffer are empty. -/
theorem Inv.settled_prefix {s : Pair S} {tr : Who → Trace} (h : Inv H s tr) (who : Who)
    (hunread : (s.wire who.other).unread = []) (hbuf : (s.side who).peer.buffered = []) :
    (s.side who.other).settled <+: (s.side who).delivered := by
  obtain ⟨log, hlog, heq, hsent⟩ := (h.out who.other).settled_eq
  rw [heq]
  rcases hsent with rfl | hsent
  · exact List.nil_prefix
  have hcarried : (s.wire who.other).carried = frames (tr who).consumed ++ (tr who).held := by
    rw [← (h.inc who).read_eq, ← Wire.read_append_unread, hunread, List.append_nil]
  have hfits : Fits (H.message who.other :: log.map Prod.snd) := by
    intro c hc
    rcases List.mem_cons.1 hc with rfl | hc
    · exact H.fits_message _
    · exact (h.here who.other).fits_sealed c ((hlog.map Prod.snd).subset hc)
  -- Every frame that was flushed has been taken off the wire.
  have hconsumed : H.message who.other :: log.map Prod.snd <+: (tr who).consumed := by
    rw [hcarried] at hsent
    exact frames_prefix_of_incomplete hfits (h.here who).fits_consumed (h.here who).incomplete_held
      hsent
  have hopened : log.map Prod.snd <+: (tr who).opened.map Prod.snd := by
    rcases (h.here who).consumed_cases with ⟨hnil, -⟩ | hc
    · rw [hnil] at hconsumed
      exact absurd (List.prefix_nil.1 hconsumed) (List.cons_ne_nil _ _)
    · rw [hc] at hconsumed
      exact (List.cons_prefix_cons.1 hconsumed).2
  have hle : log.length ≤ (tr who).opened.length := by
    have := hopened.length_le
    simpa using this
  have hprefix : log <+: (tr who).opened :=
    List.prefix_of_prefix_length_le hlog (h.opened_prefix who) hle
  have hdelivered := (h.inc who).delivered_eq
  rw [hbuf, List.append_nil] at hdelivered
  rw [hdelivered]
  exact hprefix.flatMap _

/-- The frames that a read takes off the wire all open: they are what the other side encrypted. -/
theorem Inv.read_good {s : Pair S} {tr : Who → Trace} (h : Inv H s tr) {who : Who}
    {session : S.Session} {st : NoiseStream} (hpeer : (s.side who).peer = .up session st)
    {room : Nat} {script : List ReadAnswer} {r : NoiseStream.Read} {got : Bytes}
    {log : List (Bytes × Bytes)} {bad : List Bytes}
    (hr : NoiseStream.ReadSpec (S.cipher session) room st (s.wire who.other) script r got log bad) :
    bad = [] := by
  have hlocal := h.up hpeer
  obtain ⟨rfl, -, -, hreceiving, -, -, hconsumed, hheld⟩ := hlocal.up_eq
  rcases hr.bad_eq with hnil | ⟨c, rfl, -, hnone⟩
  · exact hnil
  exfalso
  -- The message and the ciphertexts up to the bad one are the front of the wire.
  have hwire : frames ((tr who).consumed ++ (log.map Prod.snd ++ [c])) ++ r.stream.reader.held <+:
      (s.wire who.other).carried := by
    refine ⟨r.wire.unread, ?_⟩
    rw [frames_append, List.append_assoc (frames _), ← hr.held_eq, ← hheld,
      ← List.append_assoc (frames _), ← (h.inc who).read_eq, List.append_assoc, ← hr.unread_eq,
      Wire.read_append_unread]
  have hfits : Fits ((tr who).consumed ++ (log.map Prod.snd ++ [c])) := by
    intro b hb
    rcases List.mem_append.1 hb with hb | hb
    · exact hlocal.fits_consumed b hb
    · exact hr.fits b hb
  have hsealed := h.consumed_prefix who hfits hwire
  rw [hconsumed, List.cons_append] at hsealed
  replace hsealed := h.sealed_of_consumed who hsealed
  rw [← List.append_assoc, ← List.map_append] at hsealed
  have hopened : Numbered (S.cipher (H.session who)).Opens 0 ((tr who).opened ++ log) := by
    refine numbered_append_iff.2 ⟨hlocal.opened_numbered, ?_⟩
    rw [Nat.zero_add, ← hreceiving]
    exact hr.opened
  obtain ⟨rest, hrest⟩ := opened_prefix_sealed hopened (h.here who.other).sealed_numbered
    ((List.prefix_append _ _).trans hsealed)
  have hmap : ((tr who).opened ++ log ++ rest).map Prod.snd =
      ((tr who).opened ++ log).map Prod.snd ++ rest.map Prod.snd := List.map_append
  rw [← hrest, hmap, List.prefix_append_right_inj] at hsealed
  obtain ⟨x, rest, rfl⟩ : ∃ x rest', rest = x :: rest' := by
    cases rest with
    | nil => exact absurd (List.prefix_nil.1 hsealed) (List.cons_ne_nil _ _)
    | cons x rest' => exact ⟨x, rest', rfl⟩
  have hx : x.2 = c := by
    rw [List.map_cons, List.cons_prefix_cons] at hsealed
    exact hsealed.1.symm
  have hnumbered := (h.here who.other).sealed_numbered
  rw [← hrest] at hnumbered
  have hseals := (numbered_append_iff.1 hnumbered).2.1
  have hopens := H.undoes who.other _ _ _ hseals
  have hshort : x.1.length ≤ maxPlaintext :=
    (h.here who.other).sealed_short x (by rw [← hrest]; simp)
  have hlen : x.1.length ≤ maxMessage := Nat.le_trans hshort (by decide)
  rw [Who.other_other, hx, Nat.zero_add, List.length_append, ← hreceiving] at hopens
  have hdec : (S.cipher (H.session who)).decrypt (st.receiving + log.length) c = some x.1 := hopens
  simp [Cipher.readMessage, hdec, hlen] at hnone

/-! ## Each step keeps the invariant -/

theorem not_mem_of_reliable {script : List WriteAnswer} (h : script.all reliableWrite = true) :
    .zero ∉ script ∧ .fail ∉ script := by
  rw [List.all_eq_true] at h
  exact ⟨fun hm => absurd (h _ hm) (by decide), fun hm => absurd (h _ hm) (by decide)⟩

theorem Inv.step_handshakeWrite {s : Pair S} {tr : Who → Trace} (h : Inv H s tr) {who : Who}
    {a : WriteAnswer} {peer : Peer S} {wire : Wire}
    (hstep : (s.side who).peer.handshakeWrite (s.wire who) a = some (peer, wire)) :
    ∃ tr', Inv H (s.sent who { s.side who with peer := peer } wire) tr' := by
  have hlocal := h.here who
  have hout := h.out who
  have hin := h.inc who
  generalize hp : (s.side who).peer = p at hlocal hstep
  generalize ht : tr who = t at hlocal hout hin
  -- The frame goes on, or the write failed and the peer gives up where it is.
  have hgoes : ∀ {f g : FrameWrite} {pushed : Bytes} {peer' : Peer S} {emitted consumed : List Bytes},
      t = ⟨emitted, f.unsent, consumed, [], [], []⟩ → f.unsent = pushed ++ g.unsent →
      (pushed ≠ [] → (s.wire who).ended = false) → p.buffered = [] → peer'.buffered = [] →
      Local H who peer' ⟨emitted, g.unsent, consumed, [], [], []⟩ →
      ∃ tr', Inv H (s.sent who { s.side who with peer := peer' } ((s.wire who).push pushed)) tr' := by
    intro f g pushed peer' emitted consumed heq hunsent hlive hbuf hbuf' hlocal'
    subst heq
    refine ⟨_, h.sent who hlocal' (hout.push rfl rfl rfl hlive id rfl hunsent rfl) ?_ ?_ ?_ ?_ rfl
      rfl⟩
    · rw [hp, hbuf]
      simp only [hbuf']
    · rw [ht]
    · rw [ht]
    · rw [ht]
  have hfails : ∀ {f : FrameWrite} {emitted consumed : List Bytes},
      t = ⟨emitted, f.unsent, consumed, [], [], []⟩ → p.buffered = [] →
      (emitted = [] ∨ emitted = [H.message who]) →
      (consumed = [] ∨ consumed = [H.message who.other]) →
      ∃ tr', Inv H (s.sent who { s.side who with peer := .failed } (s.wire who)) tr' := by
    intro f emitted consumed heq hbuf hemitted hconsumed
    have hres := @hgoes f f [] .failed emitted consumed heq (List.nil_append _).symm
      (fun hne => absurd rfl hne) hbuf rfl (.failed hemitted hconsumed incomplete_nil)
    rwa [Wire.push_nil] at hres
  cases hlocal with
  | @sendFirst f hf =>
      rcases FrameWrite.step_cases hf (s.wire .connector) a with
        ⟨e, heq, -⟩ | ⟨g, pushed, heq, hg, hunsent, hlive⟩
      · simp only [Peer.handshakeWrite, heq, Option.some.injEq, Prod.mk.injEq] at hstep
        obtain ⟨rfl, rfl⟩ := hstep
        exact hfails rfl rfl (Or.inr rfl) (Or.inl rfl)
      · cases g with
        | done =>
            simp only [Peer.handshakeWrite, heq, Option.some.injEq, Prod.mk.injEq] at hstep
            obtain ⟨rfl, rfl⟩ := hstep
            exact hgoes rfl hunsent hlive rfl rfl (.readSecond (FrameRead.start_ok _))
        | header | data | flushing =>
            simp only [Peer.handshakeWrite, heq, Option.some.injEq, Prod.mk.injEq] at hstep
            obtain ⟨rfl, rfl⟩ := hstep
            exact hgoes rfl hunsent hlive rfl rfl (.sendFirst hg)
        | failed e => exact absurd hg (by simp [FrameWrite.Ok])
  | @sendSecond f hf =>
      rcases FrameWrite.step_cases hf (s.wire .acceptor) a with
        ⟨e, heq, -⟩ | ⟨g, pushed, heq, hg, hunsent, hlive⟩
      · simp only [Peer.handshakeWrite, heq, Option.some.injEq, Prod.mk.injEq] at hstep
        obtain ⟨rfl, rfl⟩ := hstep
        exact hfails rfl rfl (Or.inr rfl) (Or.inr rfl)
      · cases g with
        | done =>
            simp only [Peer.handshakeWrite, heq, H.intoStream_eq, Option.some.injEq,
              Prod.mk.injEq] at hstep
            obtain ⟨rfl, rfl⟩ := hstep
            exact hgoes rfl hunsent hlive rfl NoiseStream.buffered_new (Local.up_new H .acceptor)
        | header | data | flushing =>
            simp only [Peer.handshakeWrite, heq, Option.some.injEq, Prod.mk.injEq] at hstep
            obtain ⟨rfl, rfl⟩ := hstep
            exact hgoes rfl hunsent hlive rfl rfl (.sendSecond hg)
        | failed e => exact absurd hg (by simp [FrameWrite.Ok])
  | readSecond | readFirst | up | failed => simp [Peer.handshakeWrite] at hstep

/-- The first frame that a side reads is the other side's handshake message. -/
theorem Inv.first_message {s : Pair S} {tr : Who → Trace} (h : Inv H s tr) (who : Who)
    {got rest data : Bytes} (hconsumed : (tr who).consumed = [])
    (hunread : (s.wire who.other).unread = got ++ rest) (hdata : data.length < 65536)
    (hframe : (tr who).held ++ got = frame data) : data = H.message who.other := by
  have hread := (h.inc who).read_eq
  rw [hconsumed, frames_nil, List.nil_append] at hread
  have hwire : frames [data] ++ [] <+: (s.wire who.other).carried := by
    refine ⟨rest, ?_⟩
    rw [← Wire.read_append_unread, hread, hunread, ← List.append_assoc, hframe]
    simp [frames]
  have hp := h.consumed_prefix who (by simpa [Fits] using hdata) hwire
  rcases (h.here who.other).emitted_cases with ⟨hnil, -⟩ | heq
  · rw [hnil] at hp
    exact absurd (List.prefix_nil.1 hp) (List.cons_ne_nil _ _)
  · rw [heq] at hp
    exact (List.cons_prefix_cons.1 hp).1

theorem Inv.step_handshakeRead {s : Pair S} {tr : Who → Trace} (h : Inv H s tr) {who : Who}
    {a : ReadAnswer} {peer : Peer S} {wire : Wire}
    (hstep : (s.side who).peer.handshakeRead (s.wire who.other) a = some (peer, wire)) :
    ∃ tr', Inv H (s.received who { s.side who with peer := peer } wire) tr' := by
  have hlocal := h.here who
  have hout := h.out who
  have hin := h.inc who
  have hfirst : ∀ {got rest data : Bytes}, (tr who).consumed = [] →
      (s.wire who.other).unread = got ++ rest → data.length < 65536 →
      (tr who).held ++ got = frame data → data = H.message who.other := h.first_message who
  have hdelivered := hin.delivered_eq
  generalize hp : (s.side who).peer = p at hlocal hstep hdelivered
  generalize ht : tr who = t at hlocal hout hin hfirst hdelivered
  -- The reader goes on with what it has got, in a state that has not opened anything.
  have hgoes : ∀ {got : Bytes} {wire' : Wire} {peer' : Peer S} {t' : Trace},
      wire' = (s.wire who.other).advance got.length →
      (s.wire who.other).unread = got ++ wire'.unread → Local H who peer' t' →
      Out H who { s.side who with peer := peer' } (s.wire who) t' →
      frames t.consumed ++ t.held ++ got = frames t'.consumed ++ t'.held →
      p.buffered = [] → peer'.buffered = [] → t'.opened = t.opened →
      ∃ tr', Inv H (s.received who { s.side who with peer := peer' } wire') tr' := by
    intro got wire' peer' t' hwire hunread hlocal' hout' hread hbuf hbuf' hopened
    refine ⟨_, h.received who hlocal' hout' (hin.advance hwire hunread hread ?_) ?_ ?_⟩
    · rw [hopened, ← hdelivered, hbuf]
      simp only [hbuf']
    · rw [hwire]
      rfl
    · rw [hwire]
      rfl
  cases hlocal with
  | @readSecond f hf =>
      obtain ⟨got, hwire, hunread, houtcome⟩ := FrameRead.step_spec hf (s.wire .acceptor) a
      simp only [Peer.handshakeRead, Who.other] at hstep
      generalize f.step maxMessage (s.wire .acceptor) a = q at hwire hunread houtcome hstep
      obtain ⟨g, wire'⟩ := q
      simp only at hwire hunread houtcome hstep
      cases houtcome with
      | going hok hheld =>
          have hpeer : peer = .readSecond g H.sent ∧ wire = wire' := by
            cases g with
            | header | body => simpa [eq_comm] using hstep
            | done | failed => exact absurd hok (by simp [FrameRead.Ok])
          obtain ⟨rfl, rfl⟩ := hpeer
          exact hgoes hwire hunread (.readSecond hok) (hout.of_eq rfl rfl rfl rfl rfl rfl rfl)
            (by rw [frames_nil, List.nil_append, List.nil_append, hheld]) rfl rfl rfl
      | @done data hle hlt hframe =>
          obtain rfl := hfirst rfl hunread hlt hframe
          simp only [Who.other, H.gotSecond_eq, Option.some.injEq, Prod.mk.injEq] at hstep
          obtain ⟨rfl, rfl⟩ := hstep
          refine hgoes hwire hunread (Local.up_new H .connector)
            (hout.of_eq rfl rfl rfl rfl rfl rfl rfl) ?_ rfl NoiseStream.buffered_new rfl
          simpa [frames] using hframe
      | tooLarge hlen hlarge =>
          have := u16_lt (f.held ++ got)
          simp only [maxMessage] at hlarge
          omega
      | eof hgot | error hgot =>
          simp only [Option.some.injEq, Prod.mk.injEq] at hstep
          obtain ⟨rfl, rfl⟩ := hstep
          exact hgoes hwire hunread (.failed (Or.inr rfl) (Or.inl rfl) hf.incomplete_held)
            (hout.of_eq rfl rfl rfl rfl rfl rfl rfl) (by simp [hgot]) rfl rfl rfl
  | @readFirst f hf =>
      obtain ⟨got, hwire, hunread, houtcome⟩ := FrameRead.step_spec hf (s.wire .connector) a
      simp only [Peer.handshakeRead, Who.other] at hstep
      generalize f.step maxMessage (s.wire .connector) a = q at hwire hunread houtcome hstep
      obtain ⟨g, wire'⟩ := q
      simp only at hwire hunread houtcome hstep
      cases houtcome with
      | going hok hheld =>
          have hpeer : peer = .readFirst g [psk] ∧ wire = wire' := by
            cases g with
            | header | body => simpa [eq_comm] using hstep
            | done | failed => exact absurd hok (by simp [FrameRead.Ok])
          obtain ⟨rfl, rfl⟩ := hpeer
          exact hgoes hwire hunread (.readFirst hok) (hout.of_eq rfl rfl rfl rfl rfl rfl rfl)
            (by rw [frames_nil, List.nil_append, List.nil_append, hheld]) rfl rfl rfl
      | @done data hle hlt hframe =>
          obtain rfl := hfirst rfl hunread hlt hframe
          simp only [Who.other, H.gotFirst_eq, Option.some.injEq, Prod.mk.injEq] at hstep
          obtain ⟨rfl, rfl⟩ := hstep
          have hmessage := H.fits_message .acceptor
          -- With message 1 the acceptor has message 2 to send.
          have hout' : Out H .acceptor
              { s.side .acceptor with
                peer := .sendSecond (FrameWrite.start (H.message .acceptor)) H.replied }
              (s.wire .acceptor)
              ⟨[H.message .acceptor], (FrameWrite.start (H.message .acceptor)).unsent,
                [H.message .connector], [], [], []⟩ := {
            carried_eq := by
              have hcarried := hout.carried_eq
              rw [FrameWrite.unsent_start hmessage]
              simp only [frames_nil, List.append_nil] at hcarried
              simp [hcarried, frames]
            accepted_eq := by
              rcases hout.accepted_eq with heq | ⟨-, hne, -⟩
              · exact Or.inl heq
              · exact absurd rfl hne
            settled_eq := hout.settled_eq }
          refine hgoes hwire hunread (.sendSecond (FrameWrite.start_ok hmessage)) hout' ?_ rfl rfl rfl
          simpa [frames, Who.other] using hframe
      | tooLarge hlen hlarge =>
          have := u16_lt (f.held ++ got)
          simp only [maxMessage] at hlarge
          omega
      | eof hgot | error hgot =>
          simp only [Option.some.injEq, Prod.mk.injEq] at hstep
          obtain ⟨rfl, rfl⟩ := hstep
          exact hgoes hwire hunread (.failed (Or.inl rfl) (Or.inl rfl) hf.incomplete_held)
            (hout.of_eq rfl rfl rfl rfl rfl rfl rfl) (by simp [hgot]) rfl rfl rfl
  | sendFirst | sendSecond | up | failed => simp [Peer.handshakeRead] at hstep

/-- What a write reports as accepted is what it encrypted, unless its transport has ended. -/
theorem accepted_cases {C : Cipher} {st : NoiseStream} {buf : Bytes} {wire : Wire}
    {script : List WriteAnswer} {r : NoiseStream.Wrote} {pushed : Bytes}
    {log : List (Bytes × Bytes)} (hr : NoiseStream.WriteSpec C st buf wire script r pushed log)
    (hscript : script.all reliableWrite = true) :
    log.flatMap Prod.fst = r.accepted buf ∨
      (wire.ended = true ∧ r.stream.writer.unsent ≠ [] ∧ ∃ x, log = [x] ∧
        r.accepted buf = []) := by
  obtain ⟨hzero, hfail⟩ := not_mem_of_reliable hscript
  rcases hr.accepted_cases with heq | ⟨e, x, hanswer, hlog, hacc⟩
  · exact Or.inl heq
  · right
    obtain ⟨hne, hcause⟩ := hr.of_error e hanswer (by simp [hlog])
    rcases hcause with hended | hmem | hmem
    · exact ⟨hended, hne, x, hlog, hacc⟩
    · exact absurd hmem hzero
    · exact absurd hmem hfail

theorem Inv.step_write {s : Pair S} {tr : Who → Trace} (h : Inv H s tr) {who : Who}
    {session : S.Session} {st : NoiseStream} (hpeer : (s.side who).peer = .up session st)
    (buf : Bytes) {script : List WriteAnswer} (hscript : script.all reliableWrite = true) :
    ∃ tr', Inv H (s.sent who
      { s.side who with
        peer := .up session (st.pollWrite (S.cipher session) buf (s.wire who) script).stream
        accepted := (s.side who).accepted ++
          (st.pollWrite (S.cipher session) buf (s.wire who) script).accepted buf }
      (st.pollWrite (S.cipher session) buf (s.wire who) script).wire) tr' := by
  have hlocal := h.up hpeer
  obtain ⟨rfl, hst, hsending, hreceiving, hemitted, hunsent, hconsumed, hheld⟩ := hlocal.up_eq
  obtain ⟨pushed, log, hr⟩ :=
    NoiseStream.pollWrite_spec (S.cipher (H.session who)) hst buf (s.wire who) script
  generalize st.pollWrite (S.cipher (H.session who)) buf (s.wire who) script = r at hr ⊢
  have hout := h.out who
  have hreader : r.stream.reader = st.reader ∧ r.stream.receiving = st.receiving ∧
      r.stream.buffered = st.buffered := by
    rw [hr.stream_eq]
    exact ⟨rfl, rfl, rfl⟩
  obtain ⟨hreader, hreceiving', hbuffered⟩ := hreader
  have hlocal' : Local H who (.up (H.session who) r.stream)
      ⟨H.message who :: ((tr who).sealed ++ log).map Prod.snd, r.stream.writer.unsent,
        H.message who.other :: (tr who).opened.map Prod.snd, r.stream.reader.held,
        (tr who).sealed ++ log, (tr who).opened⟩ := by
    refine .up hr.ok ?_ ?_ ?_ ?_ hlocal.opened_numbered (hreceiving'.trans hreceiving)
      hlocal.fits_opened
    · refine numbered_append_iff.2 ⟨hlocal.sealed_numbered, ?_⟩
      rw [Nat.zero_add, ← hsending]
      exact hr.sealed
    · rw [hr.sending_eq, hsending, List.length_append]
    · intro x hx
      rcases List.mem_append.1 hx with hx | hx
      · exact hlocal.sealed_short x hx
      · rcases hr.log_eq with hnil | ⟨-, c, hlog⟩
        · simp [hnil] at hx
        · rw [hlog, List.mem_singleton] at hx
          rw [hx, List.length_take]
          omega
    · intro c hc
      rw [List.map_append] at hc
      rcases List.mem_append.1 hc with hc | hc
      · exact hlocal.fits_sealed c hc
      · exact hr.fits c hc
  have hcarried : r.wire.carried = (s.wire who).carried ++ pushed := by
    rw [hr.wire_eq, Wire.carried_push]
  have hended : r.wire.ended = (s.wire who).ended := by
    rw [hr.wire_eq, Wire.ended_push]
  -- Behind a chunk whose write failed nothing is encrypted any more.
  have hdead : (s.wire who).ended = true → (tr who).unsent ≠ [] →
      log = [] ∧ r.stream.writer.unsent = (tr who).unsent := by
    intro hend hne
    have hpushed : pushed = [] := by
      by_cases hp : pushed = []
      · exact hp
      · have := hr.live hp
        rw [hend] at this
        cases this
    have hlog : log = [] := by
      by_cases hl : log = []
      · exact hl
      · obtain ⟨more, hmore⟩ := hr.behind hl
        rw [hpushed] at hmore
        rw [hunsent] at hne
        exact absurd (List.append_eq_nil_iff.1 hmore.symm).1 hne
    have heq := hr.unsent_eq
    rw [hpushed, hlog] at heq
    rw [hunsent]
    exact ⟨hlog, by simpa using heq⟩
  refine ⟨_, h.sent who hlocal' ?_ ?_ ?_ ?_ rfl ?_ hcarried⟩
  · exact {
      carried_eq := by
        rw [hcarried, List.append_assoc, hr.unsent_eq, ← hunsent, ← List.append_assoc,
          hout.carried_eq, hemitted, List.map_append, ← frames_append, List.cons_append]
      accepted_eq := by
        rw [hended]
        rcases hout.accepted_eq with heq | ⟨hend, hne, last, x, hlast, heq⟩
        · rcases accepted_cases hr hscript with hacc | ⟨hend, hne, x, hlog, hacc⟩
          · left
            rw [heq, ← hacc, List.flatMap_append]
          · exact Or.inr ⟨hend, hne, (tr who).sealed, x, by rw [hlog], by rw [hacc, heq, List.append_nil]⟩
        · obtain ⟨hlog, hsame⟩ := hdead hend hne
          have hacc : r.accepted buf = [] := by
            rcases accepted_cases hr hscript with hacc | ⟨-, -, y, hy, -⟩
            · rw [← hacc, hlog]
              rfl
            · rw [hlog] at hy
              cases hy
          exact Or.inr ⟨hend, by rw [hsame]; exact hne, last, x, by rw [hlog, List.append_nil, hlast],
            by rw [hacc, heq, List.append_nil]⟩
      settled_eq := by
        obtain ⟨done, hdone, heq, hsent⟩ := hout.settled_eq
        rw [hcarried]
        exact ⟨done, hdone.trans (List.prefix_append _ _), heq,
          hsent.imp_right fun hp => hp.trans (List.prefix_append _ _)⟩ }
  · rw [hpeer]
    simp only [Peer.buffered, hbuffered]
  · rw [hconsumed]
  · rw [hheld, hreader]
  · rw [hr.wire_eq, Wire.taken_push]

/-- A flush or a shutdown. -/
theorem Inv.step_flush {s : Pair S} {tr : Who → Trace} (h : Inv H s tr) {who : Who}
    {session : S.Session} {st : NoiseStream} (hpeer : (s.side who).peer = .up session st)
    {r : NoiseStream.Flushed} {pushed : Bytes}
    (hr : st.Ok → NoiseStream.FlushSpec st (s.wire who) r pushed) :
    ∃ tr', Inv H (s.sent who (flushed (s.side who) session r) r.wire) tr' := by
  have hlocal := h.up hpeer
  obtain ⟨rfl, hst, hsending, hreceiving, hemitted, hunsent, hconsumed, hheld⟩ := hlocal.up_eq
  replace hr := hr hst
  have hout := h.out who
  have hsame : r.stream.reader = st.reader ∧ r.stream.receiving = st.receiving ∧
      r.stream.buffered = st.buffered ∧ r.stream.sending = st.sending := by
    rw [hr.stream_eq]
    exact ⟨rfl, rfl, rfl, rfl⟩
  obtain ⟨hreader, hreceiving', hbuffered, hsending'⟩ := hsame
  have hlocal' : Local H who (.up (H.session who) r.stream)
      ⟨H.message who :: (tr who).sealed.map Prod.snd, r.stream.writer.unsent,
        H.message who.other :: (tr who).opened.map Prod.snd, r.stream.reader.held,
        (tr who).sealed, (tr who).opened⟩ :=
    .up hr.ok hlocal.sealed_numbered (hsending'.trans hsending) hlocal.sealed_short
      hlocal.fits_sealed hlocal.opened_numbered (hreceiving'.trans hreceiving) hlocal.fits_opened
  have hpush : ∀ side' : Side S, side'.accepted = (s.side who).accepted →
      side'.settled = (s.side who).settled →
      Out H who side' r.wire ⟨H.message who :: (tr who).sealed.map Prod.snd,
        r.stream.writer.unsent, H.message who.other :: (tr who).opened.map Prod.snd,
        r.stream.reader.held, (tr who).sealed, (tr who).opened⟩ :=
    fun side' haccepted hsettled => hout.push haccepted hsettled hr.carried_eq hr.live hr.ended_mono
      hemitted.symm (by rw [hunsent]; exact hr.unsent_eq) rfl
  refine ⟨_, h.sent who hlocal' ?_ ?_ ?_ ?_ rfl hr.taken_eq hr.carried_eq⟩
  · by_cases hready : r.answer = .ready (.ok ())
    · have hnone := hr.of_ready hready
      refine (hpush { s.side who with peer := .up (H.session who) r.stream } rfl rfl).settle hnone rfl
        rfl ?_
      simp only [flushed, hready]
    · refine hpush _ rfl ?_
      simp only [flushed]
  · rw [hpeer]
    simp only [flushed, Peer.buffered, hbuffered]
  · rw [hconsumed]
  · rw [hheld, hreader]

theorem Inv.step_read {s : Pair S} {tr : Who → Trace} (h : Inv H s tr) {who : Who}
    {session : S.Session} {st : NoiseStream} (hpeer : (s.side who).peer = .up session st)
    (room : Nat) (script : List ReadAnswer) :
    ∃ tr', Inv H (s.received who
      { s.side who with
        peer := .up session (st.pollRead (S.cipher session) room (s.wire who.other) script).stream
        delivered := (s.side who).delivered ++
          (st.pollRead (S.cipher session) room (s.wire who.other) script).out }
      (st.pollRead (S.cipher session) room (s.wire who.other) script).wire) tr' := by
  have hlocal := h.up hpeer
  obtain ⟨rfl, hst, hsending, hreceiving, hemitted, hunsent, hconsumed, hheld⟩ := hlocal.up_eq
  obtain ⟨got, log, bad, hr⟩ :=
    NoiseStream.pollRead_spec (S.cipher (H.session who)) room hst (s.wire who.other) script
  generalize st.pollRead (S.cipher (H.session who)) room (s.wire who.other) script = r at hr ⊢
  obtain rfl := h.read_good hpeer hr
  have hin := h.inc who
  have hsame : r.stream.writer = st.writer ∧ r.stream.sending = st.sending := by
    rw [hr.stream_eq]
    exact ⟨rfl, rfl⟩
  obtain ⟨hwriter, hsending'⟩ := hsame
  have hfits : Fits (log.map Prod.snd) := by simpa using hr.fits
  have hlocal' : Local H who (.up (H.session who) r.stream)
      ⟨H.message who :: (tr who).sealed.map Prod.snd, r.stream.writer.unsent,
        H.message who.other :: ((tr who).opened ++ log).map Prod.snd, r.stream.reader.held,
        (tr who).sealed, (tr who).opened ++ log⟩ := by
    refine .up hr.ok hlocal.sealed_numbered (hsending'.trans hsending) hlocal.sealed_short
      hlocal.fits_sealed ?_ ?_ ?_
    · refine numbered_append_iff.2 ⟨hlocal.opened_numbered, ?_⟩
      rw [Nat.zero_add, ← hreceiving]
      exact hr.opened
    · rw [hr.receiving_eq, hreceiving, List.length_append]
    · intro c hc
      rw [List.map_append] at hc
      rcases List.mem_append.1 hc with hc | hc
      · exact hlocal.fits_opened c hc
      · exact hfits c hc
  refine ⟨_, h.received who hlocal' ?_ (hin.advance hr.wire_eq hr.unread_eq ?_ ?_) ?_ ?_⟩
  · refine (h.out who).of_eq rfl rfl rfl rfl hemitted.symm ?_ rfl
    rw [hunsent, hwriter]
  · have heq := hr.held_eq
    rw [List.append_nil] at heq
    rw [hheld, List.append_assoc, heq, ← List.append_assoc, ← frames_append, hconsumed,
      List.cons_append, List.map_append]
  · have hdelivered := hin.delivered_eq
    rw [hpeer] at hdelivered
    simp only [Peer.buffered] at hdelivered ⊢
    rw [List.append_assoc, ← hr.buffered_eq, ← List.append_assoc, hdelivered, List.flatMap_append]
  · rw [hr.wire_eq]
    rfl
  · rw [hr.wire_eq]
    rfl

theorem Inv.step_hangUp {s : Pair S} {tr : Who → Trace} (h : Inv H s tr) (who : Who) :
    Inv H (s.sent who (s.side who) { s.wire who with ended := true })
      (Function.update tr who (tr who)) :=
  h.sent who (h.here who)
    ((h.out who).push rfl rfl (List.append_nil _).symm (fun hne => absurd rfl hne) (fun _ => rfl) rfl
      rfl rfl)
    rfl rfl rfl rfl rfl (List.append_nil _).symm

/-- **Step lemma.**  Whatever a side does and however its transport answers, the invariant is kept. -/
theorem inv_step {s t : Pair S} {e : Event} (h : ∃ tr, Inv H s tr) (hstep : step s e = some t) :
    ∃ tr, Inv H t tr := by
  obtain ⟨tr, h⟩ := h
  cases e with
  | handshakeWrite who a =>
      by_cases ha : reliableWrite a = true
      · cases hp : (s.side who).peer.handshakeWrite (s.wire who) a with
        | none => simp [step, hp] at hstep
        | some p =>
            simp only [step, if_pos ha, hp, Option.some.injEq] at hstep
            rw [← hstep]
            exact h.step_handshakeWrite hp
      · simp [step, ha] at hstep
  | handshakeRead who a =>
      by_cases ha : reliableRead a = true
      · cases hp : (s.side who).peer.handshakeRead (s.wire who.other) a with
        | none => simp [step, hp] at hstep
        | some p =>
            simp only [step, if_pos ha, hp, Option.some.injEq] at hstep
            rw [← hstep]
            exact h.step_handshakeRead hp
      · simp [step, ha] at hstep
  | write who buf script =>
      by_cases hscript : script.all reliableWrite = true
      · cases hp : (s.side who).peer with
        | up session st =>
            simp only [step, if_pos hscript, hp, Option.some.injEq] at hstep
            rw [← hstep]
            exact h.step_write hp buf hscript
        | sendFirst | readSecond | readFirst | sendSecond | failed => simp [step, hp] at hstep
      · simp [step, hscript] at hstep
  | flush who script =>
      by_cases hscript : script.all reliableWrite = true
      · cases hp : (s.side who).peer with
        | up session st =>
            simp only [step, if_pos hscript, hp, Option.some.injEq] at hstep
            rw [← hstep]
            have hst : st.Ok := (h.up hp).up_eq.2.1
            obtain ⟨pushed, hr⟩ := NoiseStream.pollFlush_spec hst (s.wire who) script
            exact h.step_flush hp fun _ => hr
        | sendFirst | readSecond | readFirst | sendSecond | failed => simp [step, hp] at hstep
      · simp [step, hscript] at hstep
  | shutdown who script =>
      by_cases hscript : script.all reliableWrite = true
      · cases hp : (s.side who).peer with
        | up session st =>
            simp only [step, if_pos hscript, hp, Option.some.injEq] at hstep
            rw [← hstep]
            have hst : st.Ok := (h.up hp).up_eq.2.1
            obtain ⟨pushed, hr⟩ := NoiseStream.pollShutdown_spec hst (s.wire who) script
            exact h.step_flush hp fun _ => hr
        | sendFirst | readSecond | readFirst | sendSecond | failed => simp [step, hp] at hstep
      · simp [step, hscript] at hstep
  | read who room script =>
      by_cases hok : 0 < room ∧ script.all reliableRead = true
      · cases hp : (s.side who).peer with
        | up session st =>
            simp only [step, if_pos hok, hp, Option.some.injEq] at hstep
            rw [← hstep]
            exact h.step_read hp room script
        | sendFirst | readSecond | readFirst | sendSecond | failed => simp [step, hp] at hstep
      · simp only [step, if_neg hok] at hstep
        cases hstep
  | hangUp who =>
      simp only [step, Option.some.injEq] at hstep
      rw [← hstep]
      exact ⟨_, h.step_hangUp who⟩

/-- The traces at the start: the connector has its first message in hand. -/
theorem inv_initial (H : Agreement S psk) : ∃ tr, Inv H (initial S psk) tr := by
  have hfirst := H.fits_message .connector
  have hin : ∀ peer : Peer S, peer.buffered = [] → ∀ t : Trace,
      t.consumed = [] → t.held = [] → t.opened = [] → In (Side.new peer) Wire.empty t := by
    intro peer hbuf t hconsumed hheld hopened
    exact {
      taken_le := Nat.le_refl _
      read_eq := by rw [hconsumed, hheld]; rfl
      delivered_eq := by
        rw [hopened]
        simpa [Side.new] using hbuf }
  have hconnect : (initial S psk).side .connector =
      Side.new (.sendFirst (FrameWrite.start (H.message .connector)) H.sent) := by
    show Side.new (Peer.connect S psk) = _
    rw [H.connect_eq]
  refine ⟨fun
    | .connector =>
        ⟨[H.message .connector], (FrameWrite.start (H.message .connector)).unsent, [], [], [], []⟩
    | .acceptor => ⟨[], [], [], [], [], []⟩, ?_, ?_, ?_⟩
  · intro who
    cases who with
    | connector =>
        rw [hconnect]
        exact .sendFirst (FrameWrite.start_ok hfirst)
    | acceptor => exact .readFirst (FrameRead.start_ok _)
  · intro who
    cases who with
    | connector =>
        rw [hconnect]
        exact {
          carried_eq := by
            rw [FrameWrite.unsent_start hfirst]
            simp [initial, Wire.empty, frames]
          accepted_eq := Or.inl rfl
          settled_eq := ⟨[], List.nil_prefix, rfl, Or.inl rfl⟩ }
    | acceptor =>
        exact {
          carried_eq := rfl
          accepted_eq := Or.inl rfl
          settled_eq := ⟨[], List.nil_prefix, rfl, Or.inl rfl⟩ }
  · intro who
    cases who with
    | connector =>
        rw [hconnect]
        exact hin _ rfl _ rfl rfl rfl
    | acceptor => exact hin _ rfl _ rfl rfl rfl

/-! ## What holds in every run -/

/-- The bytes are whole frames. -/
def OnBoundary (bytes : Bytes) : Prop := ∃ bodies, Fits bodies ∧ bytes = frames bodies

/-- How a read `r` of a stream `st` from a wire tells the end of the transport. -/
structure TellsEnd (st : NoiseStream) (wire : Wire) (script : List ReadAnswer)
    (r : NoiseStream.Read) : Prop where
  no_panic : r.answer ≠ .panic
  /-- An end of file is the end of the transport between two frames. -/
  eof : r.answer = .ready (.ok []) →
    wire.ended = true ∧ r.wire.unread = [] ∧ OnBoundary wire.carried
  /-- An error is the end of the transport inside a frame. -/
  error : ∀ e, r.answer = .ready (.error e) →
    wire.ended = true ∧ r.wire.unread = [] ∧ ¬ OnBoundary wire.carried
  /-- When the transport has ended and all was read, the answer is one of the two. -/
  ended : wire.ended = true → wire.unread = [] → st.buffered = [] → ∀ n rest,
    script = .upTo n :: rest →
      (OnBoundary wire.carried → r.answer = .ready (.ok [])) ∧
      (¬ OnBoundary wire.carried → r.answer = .ready (.error .unexpectedEof))

/-- What `who` can rely on as the reader. -/
structure Reliable (s : Pair S) (who : Who) : Prop where
  delivered_prefix : (s.side who).delivered <+: (s.side who.other).accepted
  /-- What was accepted before a flush or a shutdown was answered Ready is delivered. -/
  settled_prefix : (s.wire who.other).unread = [] → (s.side who).peer.buffered = [] →
    (s.side who.other).settled <+: (s.side who).delivered
  delivered_eq : (s.wire who.other).unread = [] → (s.side who).peer.buffered = [] →
    (s.side who.other).settled = (s.side who.other).accepted →
      (s.side who).delivered = (s.side who.other).accepted
  tells_end : ∀ session st, (s.side who).peer = .up session st → ∀ room script, 0 < room →
    script.all reliableRead = true →
      TellsEnd st (s.wire who.other) script
        (st.pollRead (S.cipher session) room (s.wire who.other) script)

/-- The transport ends on a boundary when the reader holds no part of a frame. -/
theorem Inv.onBoundary_iff {s : Pair S} {tr : Who → Trace} (h : Inv H s tr) (who : Who)
    (hunread : (s.wire who.other).unread = []) :
    OnBoundary (s.wire who.other).carried ↔ (tr who).held = [] := by
  have hcarried : (s.wire who.other).carried = frames (tr who).consumed ++ (tr who).held := by
    rw [← (h.inc who).read_eq, ← Wire.read_append_unread, hunread, List.append_nil]
  constructor
  · intro hb
    obtain ⟨bodies, hfits, heq⟩ := hb
    exact (frames_append_eq (h.here who).fits_consumed hfits (h.here who).incomplete_held
      (hcarried.symm.trans heq)).2
  · intro hnil
    rw [hnil, List.append_nil] at hcarried
    exact ⟨_, (h.here who).fits_consumed, hcarried⟩

theorem Inv.tells_end {s : Pair S} {tr : Who → Trace} (h : Inv H s tr) {who : Who}
    {session : S.Session} {st : NoiseStream} (hpeer : (s.side who).peer = .up session st)
    {room : Nat} {script : List ReadAnswer} (hroom : 0 < room)
    (hscript : script.all reliableRead = true) :
    TellsEnd st (s.wire who.other) script
      (st.pollRead (S.cipher session) room (s.wire who.other) script) := by
  obtain ⟨-, hst, -, -, -, -, -, hheld⟩ := (h.up hpeer).up_eq
  obtain ⟨got, log, bad, hr⟩ :=
    NoiseStream.pollRead_spec (S.cipher session) room hst (s.wire who.other) script
  -- The boundary is where the state after the read has it.
  obtain ⟨tr', h'⟩ := h.step_read hpeer room script
  have hlocal' := h'.here who
  have hbound := h'.onBoundary_iff who
  simp only [Pair.received, Function.update_self] at hlocal' hbound
  obtain ⟨-, -, -, -, -, -, -, hheld'⟩ := hlocal'.up_eq
  have hcarried : (st.pollRead (S.cipher session) room (s.wire who.other) script).wire.carried =
      (s.wire who.other).carried := by
    rw [hr.wire_eq]
    rfl
  rw [hcarried, hheld'] at hbound
  exact {
    no_panic := hr.no_panic
    eof := by
      intro heof
      obtain ⟨-, hnil, hunread, hended⟩ := hr.of_eof hroom heof
      exact ⟨hended, hunread, (hbound hunread).2 hnil⟩
    error := by
      intro e he
      rcases hr.of_error e he with ⟨-, hbad⟩ | ⟨-, -, hne, hunread, hended⟩ | ⟨-, hfail⟩
      · exact absurd (h.read_good hpeer hr) hbad
      · exact ⟨hended, hunread, fun hb => hne ((hbound hunread).1 hb)⟩
      · rw [List.all_eq_true] at hscript
        exact absurd (hscript _ hfail) (by decide)
    ended := by
      intro hended hunread hbuf n rest hsplit
      have hanswer := NoiseStream.pollRead_of_drained (S.cipher session) room hst hbuf hunread hended
        n rest
      rw [← hsplit] at hanswer
      have hiff := h.onBoundary_iff who hunread
      rw [hheld] at hiff
      constructor
      · intro hb
        rw [hanswer, if_pos (hiff.1 hb)]
      · intro hb
        rw [hanswer, if_neg fun hnil => hb (hiff.2 hnil)] }

/-- **A pair of Noise streams is a pair of reliable byte streams.**  From the handshake on, for every
order of calls and however the transport shortens them or puts them off: what is delivered is a prefix
of what was accepted, all of it once it was flushed and drained, and the reader tells an end between
two frames from one inside a frame. -/
theorem noise_pair_reliable (hS : S.Agrees psk) {es : List Event} {s : Pair S}
    (hrun : (machine S).run (initial S psk) es = some s) (who : Who) : Reliable s who := by
  obtain ⟨H⟩ := hS
  obtain ⟨tr, h⟩ := (machine S).run_invariant (fun s => ∃ tr, Inv H s tr)
    (fun hi hstep => inv_step hi hstep) (inv_initial H) hrun
  have hdelivered := (List.prefix_append _ _).trans (h.delivered_prefix who)
  exact {
    delivered_prefix := hdelivered
    settled_prefix := fun hunread hbuf => h.settled_prefix who hunread hbuf
    delivered_eq := by
      intro hunread hbuf hsettled
      have hback := h.settled_prefix who hunread hbuf
      rw [hsettled] at hback
      exact hdelivered.eq_of_length_le hback.length_le
    tells_end := fun session st hpeer room script hroom hscript => h.tells_end hpeer hroom hscript }

/-- A library for examples, which proves the PSK by showing it. -/
def plainSnow : Snow where
  Handshake := Psk
  Session := Unit
  initiator := some
  responder := some
  write hs := some (hs.bytes ++ List.replicate 16 0, hs)
  read hs message := if message = hs.bytes ++ List.replicate 16 0 then some hs else none
  intoTransport := fun _ => some ()
  cipher := fun _ => Cipher.plain

theorem plainSnow_agrees (psk : Psk) : plainSnow.Agrees psk :=
  ⟨{ message := fun _ => psk.bytes ++ List.replicate 16 0
     session := fun _ => ()
     initiated := psk
     sent := psk
     responded := psk
     matched := psk
     replied := psk
     finished := psk
     initiator_eq := rfl
     write_first := rfl
     responder_eq := rfl
     read_first := if_pos rfl
     write_second := rfl
     read_second := if_pos rfl
     transport_connector := rfl
     transport_acceptor := rfl
     length_message := by
       intro who
       rw [List.length_append, psk.length_eq, List.length_replicate]
       decide
     undoes := fun _ _ _ _ hseals => Cipher.plain_undoes hseals }⟩

/-- The handshake in shortened polls, then a write, a read and a shutdown. -/
def helloEvents : List Event :=
  [.handshakeWrite .connector (.upTo 0), .handshakeWrite .connector .pending,
    .handshakeWrite .connector (.upTo 9), .handshakeRead .acceptor (.upTo 99),
    .handshakeWrite .connector (.upTo 99), .handshakeWrite .connector (.upTo 0),
    .handshakeRead .acceptor (.upTo 20), .handshakeRead .acceptor (.upTo 99),
    .handshakeWrite .acceptor (.upTo 99), .handshakeWrite .acceptor (.upTo 99),
    .handshakeWrite .acceptor (.upTo 99), .handshakeRead .connector (.upTo 99),
    .handshakeRead .connector (.upTo 99), .write .connector [1, 2, 3] [.upTo 4, .pending],
    .read .acceptor 2 [.upTo 99, .upTo 99], .flush .connector [.upTo 99, .upTo 0],
    .read .acceptor 2 [.upTo 99], .shutdown .connector [.upTo 0]]

theorem noise_pair_reliable_hello : ∃ s,
    (machine plainSnow).run (initial plainSnow (Psk.repeated 7)) helloEvents = some s ∧
      ∀ who, Reliable s who := by
  have hsome : ((machine plainSnow).run (initial plainSnow (Psk.repeated 7))
      helloEvents).isSome = true := by
    decide +kernel
  obtain ⟨s, hs⟩ := Option.isSome_iff_exists.1 hsome
  exact ⟨s, hs, noise_pair_reliable (plainSnow_agrees _) hs⟩

end Pair

end Noise
end Erbridge
