import Erbridge.Core.Log
import Erbridge.Noise.Frame

/-!
# A Noise stream

`NoiseStream` speaks Noise transport messages over a byte transport.  `poll_write` encrypts a chunk into
the frame writer, `poll_read` opens the frames that the frame reader completes and hands out their
plaintext from a cursor.  The cipher is a parameter: what encryption and decryption do under a
nonce.

* `pollRead_spec`, `pollWrite_spec`, `pollFlush_spec`, `pollShutdown_spec` — all that one call can do
  to the bytes on the wire, to the bytes that the stream holds back and to the nonces.
* `pollRead_of_drained` — how a read ends when the transport has ended.
-/

namespace Erbridge
namespace Noise

open Erbridge.Core

/-- `write_message` and `read_message` of a session under a nonce, and what a failed `read_message`
leaves in the front of its output buffer. -/
structure Cipher where
  encrypt : Nat → Bytes → Option Bytes
  decrypt : Nat → Bytes → Option Bytes
  residue : Nat → Bytes → Bytes

namespace Cipher

/-- `write_message(payload, message)` with `room` bytes in `message`. -/
def writeMessage (C : Cipher) (nonce : Nat) (payload : Bytes) (room : Nat) : Option Bytes :=
  match C.encrypt nonce payload with
  | some message => if message.length ≤ room then some message else none
  | none => none

/-- `read_message(message, payload)` with `room` bytes in `payload`. -/
def readMessage (C : Cipher) (nonce : Nat) (message : Bytes) (room : Nat) : Option Bytes :=
  match C.decrypt nonce message with
  | some payload => if payload.length ≤ room then some payload else none
  | none => none

/-- The plaintext `p` is sealed as `c` under the nonce `k`. -/
def Seals (C : Cipher) (k : Nat) (p c : Bytes) : Prop := C.encrypt k p = some c

/-- The ciphertext `c` is opened as `p` under the nonce `k`. -/
def Opens (C : Cipher) (k : Nat) (p c : Bytes) : Prop := C.decrypt k c = some p

theorem writeMessage_eq_some {C : Cipher} {k room : Nat} {p c : Bytes}
    (h : C.writeMessage k p room = some c) : C.Seals k p c ∧ c.length ≤ room := by
  unfold writeMessage at h
  cases henc : C.encrypt k p with
  | none => simp [henc] at h
  | some message =>
      by_cases hle : message.length ≤ room
      · simp only [henc, if_pos hle, Option.some.injEq] at h
        rw [← h]
        exact ⟨henc, hle⟩
      · simp [henc, hle] at h

theorem readMessage_eq_some {C : Cipher} {k room : Nat} {p c : Bytes}
    (h : C.readMessage k c room = some p) : C.Opens k p c ∧ p.length ≤ room := by
  unfold readMessage at h
  cases hdec : C.decrypt k c with
  | none => simp [hdec] at h
  | some payload =>
      by_cases hle : payload.length ≤ room
      · simp only [hdec, if_pos hle, Option.some.injEq] at h
        rw [← h]
        exact ⟨hdec, hle⟩
      · simp [hdec, hle] at h

/-- A cipher for examples, whose tag is 16 zeros. -/
def plain : Cipher where
  encrypt := fun _ p => some (p ++ List.replicate 16 0)
  decrypt := fun _ c => if 16 ≤ c.length then some (c.take (c.length - 16)) else none
  residue := fun _ c => c

theorem plain_undoes {k : Nat} {p c : Bytes} (h : plain.Seals k p c) : plain.Opens k p c := by
  obtain rfl : p ++ List.replicate 16 0 = c := Option.some.inj h
  show (if 16 ≤ (p ++ List.replicate 16 0).length then _ else _) = _
  rw [List.length_append, List.length_replicate, if_pos (by omega), Nat.add_sub_cancel,
    List.take_left]

end Cipher

/-- A stream in transport mode, with the two nonces of its `TransportState`. -/
structure NoiseStream where
  sending : Nat
  receiving : Nat
  reader : FrameReader
  plaintextBuf : Bytes
  plaintextLen : Nat
  plaintextPos : Nat
  writer : FrameWriter

namespace NoiseStream

/-- `NoiseStream::new`. -/
def new : NoiseStream where
  sending := 0
  receiving := 0
  reader := FrameReader.default
  plaintextBuf := List.replicate maxMessage 0
  plaintextLen := 0
  plaintextPos := 0
  writer := FrameWriter.default

/-- Decrypted bytes that no read has delivered yet. -/
def buffered (st : NoiseStream) : Bytes := (st.plaintextBuf.take st.plaintextLen).drop st.plaintextPos

/-- The cursors of the reader, of the plaintext and of the writer are inside their buffers. -/
structure Ok (st : NoiseStream) : Prop where
  reader : st.reader.Ok
  writer : st.writer.Ok
  length_plaintextBuf : st.plaintextBuf.length = maxMessage
  plaintextLen_le : st.plaintextLen ≤ maxMessage
  plaintextPos_le : st.plaintextPos ≤ st.plaintextLen

theorem new_ok : new.Ok where
  reader := FrameReader.default_ok
  writer := FrameWriter.default_ok
  length_plaintextBuf := by simp [new]
  plaintextLen_le := Nat.zero_le _
  plaintextPos_le := Nat.le_refl _

/-- The writing half says nothing about the reading half. -/
theorem Ok.setWriter {st : NoiseStream} (h : st.Ok) {writer : FrameWriter} (hw : writer.Ok)
    (sending : Nat) : Ok { st with sending := sending, writer := writer } where
  reader := h.reader
  writer := hw
  length_plaintextBuf := h.length_plaintextBuf
  plaintextLen_le := h.plaintextLen_le
  plaintextPos_le := h.plaintextPos_le

@[simp] theorem buffered_new : new.buffered = [] := by simp [buffered, new]

theorem Ok.length_buffered {st : NoiseStream} (h : st.Ok) :
    st.buffered.length = st.plaintextLen - st.plaintextPos := by
  have hbuf := h.length_plaintextBuf
  have hle := h.plaintextLen_le
  rw [buffered, List.length_drop, List.length_take]
  omega

theorem Ok.buffered_eq_nil_iff {st : NoiseStream} (h : st.Ok) :
    st.buffered = [] ↔ ¬ st.plaintextPos < st.plaintextLen := by
  rw [← List.length_eq_zero_iff, h.length_buffered]
  omega

/-! ## Reading -/

/-- The answer of a `poll_read`, with the stream, the wire and the rest of the script after it. -/
structure Read where
  answer : Poll Bytes
  stream : NoiseStream
  wire : Wire
  script : List ReadAnswer

/-- The loop of `poll_read`.  Every round but the last takes a frame off the wire, so `rounds` that
outnumber the script are enough; to run out of them counts as a panic. -/
def pollReadLoop (C : Cipher) (room : Nat) :
    Nat → NoiseStream → Wire → List ReadAnswer → Read
  | 0, st, wire, script => ⟨.panic, st, wire, script⟩
  | rounds + 1, st, wire, script =>
      if st.plaintextPos < st.plaintextLen then
        match slice st.plaintextBuf st.plaintextPos st.plaintextLen with
        | none => ⟨.panic, st, wire, script⟩
        | some available =>
            let n := min available.length room
            ⟨.ready (.ok (available.take n)), { st with plaintextPos := st.plaintextPos + n },
              wire, script⟩
      else
        let p := st.reader.pollFrame wire script
        let st := { st with reader := p.reader }
        match p.answer with
        | .ready (.ok (some len)) =>
            match slice st.reader.bodyBuf 0 len with
            | none => ⟨.panic, st, p.wire, p.script⟩
            | some ciphertext =>
                match C.readMessage st.receiving ciphertext st.plaintextBuf.length with
                | none =>
                    let left := (C.residue st.receiving ciphertext).take st.plaintextBuf.length
                    ⟨.ready (.error .invalidData),
                      { st with plaintextBuf := splice st.plaintextBuf 0 left }, p.wire, p.script⟩
                | some plain =>
                    pollReadLoop C room rounds
                      { st with
                        receiving := st.receiving + 1
                        plaintextBuf := splice st.plaintextBuf 0 plain
                        plaintextLen := plain.length
                        plaintextPos := 0 }
                      p.wire p.script
        | .ready (.ok none) => ⟨.ready (.ok []), st, p.wire, p.script⟩
        | .ready (.error e) => ⟨.ready (.error e), st, p.wire, p.script⟩
        | .pending => ⟨.pending, st, p.wire, p.script⟩
        | .panic => ⟨.panic, st, p.wire, p.script⟩

/-- `poll_read` into a buffer with `room` bytes left. -/
def pollRead (st : NoiseStream) (C : Cipher) (room : Nat) (wire : Wire) (script : List ReadAnswer) :
    Read :=
  pollReadLoop C room (script.length + 1) st wire script

/-- The bytes that a `poll_read` delivered. -/
def Read.out (r : Read) : Bytes :=
  match r.answer with
  | .ready (.ok bytes) => bytes
  | _ => []

/-- All a read can do: it took `got` off the wire, opened the frames of `log`, and stopped at the
frame in `bad` when one did not open. -/
structure ReadSpec (C : Cipher) (room : Nat) (st : NoiseStream) (wire : Wire)
    (script : List ReadAnswer) (r : Read) (got : Bytes) (log : List (Bytes × Bytes))
    (bad : List Bytes) : Prop where
  wire_eq : r.wire = wire.advance got.length
  unread_eq : wire.unread = got ++ r.wire.unread
  ok : r.stream.Ok
  stream_eq : r.stream = { r.stream with sending := st.sending, writer := st.writer }
  held_eq : st.reader.held ++ got = frames (log.map Prod.snd ++ bad) ++ r.stream.reader.held
  fits : Fits (log.map Prod.snd ++ bad)
  opened : Numbered C.Opens st.receiving log
  receiving_eq : r.stream.receiving = st.receiving + log.length
  buffered_eq : st.buffered ++ log.flatMap Prod.fst = r.out ++ r.stream.buffered
  bad_eq : bad = [] ∨ ∃ c, bad = [c] ∧ r.answer = .ready (.error .invalidData) ∧
    C.readMessage (st.receiving + log.length) c maxMessage = none
  no_panic : r.answer ≠ .panic
  out_le : r.out.length ≤ room
  of_eof : 0 < room → r.answer = .ready (.ok []) →
    r.stream.buffered = [] ∧ r.stream.reader.held = [] ∧ r.wire.unread = [] ∧ wire.ended = true
  of_error : ∀ e, r.answer = .ready (.error e) →
    (e = .invalidData ∧ bad ≠ []) ∨
    (e = .unexpectedEof ∧ r.stream.buffered = [] ∧ r.stream.reader.held ≠ [] ∧ r.wire.unread = [] ∧
      wire.ended = true) ∨
    (e = .transport ∧ .fail ∈ script)

/-- A read that hands out plaintext it has. -/
theorem ReadSpec.of_buffered {C : Cipher} {room : Nat} {st : NoiseStream} (hst : st.Ok) {wire : Wire}
    {script : List ReadAnswer} (hpos : st.plaintextPos < st.plaintextLen) :
    ReadSpec C room st wire script
      ⟨.ready (.ok (st.buffered.take (min st.buffered.length room))),
        { st with plaintextPos := st.plaintextPos + min st.buffered.length room }, wire, script⟩
      [] [] [] := by
  have hlen := hst.length_buffered
  have hbuffered : ∀ n, buffered { st with plaintextPos := st.plaintextPos + n } =
      st.buffered.drop n := by
    intro n
    show (st.plaintextBuf.take st.plaintextLen).drop (st.plaintextPos + _) = _
    rw [← List.drop_drop]
    rfl
  exact {
    wire_eq := rfl
    unread_eq := rfl
    ok := {
      reader := hst.reader
      writer := hst.writer
      length_plaintextBuf := hst.length_plaintextBuf
      plaintextLen_le := hst.plaintextLen_le
      plaintextPos_le := by
        show st.plaintextPos + min st.buffered.length room ≤ st.plaintextLen
        omega }
    stream_eq := rfl
    held_eq := by simp
    fits := by simp [Fits]
    opened := trivial
    receiving_eq := rfl
    buffered_eq := by
      rw [hbuffered]
      simp only [List.flatMap_nil, List.append_nil, Read.out, List.take_append_drop]
    bad_eq := Or.inl rfl
    no_panic := by simp
    out_le := by
      simp only [Read.out, List.length_take]
      omega
    of_eof := by
      intro hroom h
      have hnil : st.buffered.take (min st.buffered.length room) = [] := by
        injection h with h
        injection h
      have := congrArg List.length hnil
      simp only [List.length_take, List.length_nil] at this
      omega
    of_error := fun e h => by cases h }

/-- A read that stops before a frame is complete. -/
theorem ReadSpec.of_stop {C : Cipher} {room : Nat} {st : NoiseStream} (hst : st.Ok)
    (hbuf : st.buffered = []) {wire : Wire} {script : List ReadAnswer} {p : FrameReader.Polled}
    {got : Bytes} (hp : FrameReader.FrameSpec st.reader wire script p got) {answer : Poll Bytes}
    (hheld : p.reader.held = st.reader.held ++ got) (hpanic : answer ≠ .panic)
    (hready : ∀ out, answer = .ready (.ok out) → out = [] ∧ p.answer = .ready (.ok none))
    (herror : ∀ e, answer = .ready (.error e) → p.answer = .ready (.error e)) :
    ReadSpec C room st wire script ⟨answer, { st with reader := p.reader }, p.wire, p.script⟩
      got [] [] := by
  have hout : Read.out ⟨answer, { st with reader := p.reader }, p.wire, p.script⟩ = [] := by
    match answer, hready with
    | .ready (.ok out), hready => exact (hready out rfl).1
    | .ready (.error _), _ => rfl
    | .pending, _ => rfl
    | .panic, _ => rfl
  exact {
    wire_eq := hp.wire_eq
    unread_eq := hp.unread_eq
    ok := {
      reader := hp.ok
      writer := hst.writer
      length_plaintextBuf := hst.length_plaintextBuf
      plaintextLen_le := hst.plaintextLen_le
      plaintextPos_le := hst.plaintextPos_le }
    stream_eq := rfl
    held_eq := by simp [hheld]
    fits := by simp [Fits]
    opened := trivial
    receiving_eq := rfl
    buffered_eq := by
      rw [hout]
      simp [buffered]
    bad_eq := Or.inl rfl
    no_panic := hpanic
    out_le := by rw [hout]; exact Nat.zero_le _
    of_eof := fun _ h => ⟨hbuf, (hp.of_eof (hready _ h).2).2⟩
    of_error := by
      intro e he
      right
      rcases (hp.of_error e (herror e he)).2 with ⟨heq, hne, hrest⟩ | hfail
      · exact Or.inl ⟨heq, hbuf, hne, hrest⟩
      · exact Or.inr hfail }

/-- The stream after the frame in `body_buf` was opened as `plain`. -/
def opened (st : NoiseStream) (reader : FrameReader) (plain : Bytes) : NoiseStream where
  sending := st.sending
  receiving := st.receiving + 1
  reader := reader
  plaintextBuf := splice st.plaintextBuf 0 plain
  plaintextLen := plain.length
  plaintextPos := 0
  writer := st.writer

theorem Ok.opened {st : NoiseStream} (hst : st.Ok) {reader : FrameReader} (hreader : reader.Ok)
    {plain : Bytes} (hle : plain.length ≤ maxMessage) : (st.opened reader plain).Ok where
  reader := hreader
  writer := hst.writer
  length_plaintextBuf := by
    rw [← hst.length_plaintextBuf]
    exact length_splice (by rw [hst.length_plaintextBuf]; omega)
  plaintextLen_le := hle
  plaintextPos_le := Nat.zero_le _

/-- None of what was in the buffer before shows behind the new plaintext. -/
theorem buffered_opened (st : NoiseStream) (reader : FrameReader) (plain : Bytes) :
    (st.opened reader plain).buffered = plain := by
  have h : (splice st.plaintextBuf 0 plain).take (0 + plain.length) = [] ++ plain :=
    take_splice (Nat.zero_le _)
  rw [Nat.zero_add, List.nil_append] at h
  exact h

/-- A read that stops at a frame that does not open. -/
theorem ReadSpec.of_bad {C : Cipher} {room : Nat} {st : NoiseStream} (hst : st.Ok)
    (hbuf : st.buffered = []) {wire : Wire} {script : List ReadAnswer} {p : FrameReader.Polled}
    {got body left : Bytes} (hp : FrameReader.FrameSpec st.reader wire script p got)
    (hheld : p.reader.held = []) (hframe : st.reader.held ++ got = frame body)
    (hbody : body.length ≤ maxMessage) (hleft : left.length ≤ maxMessage)
    (hread : C.readMessage st.receiving body maxMessage = none) :
    ReadSpec C room st wire script
      ⟨.ready (.error .invalidData),
        { st with reader := p.reader, plaintextBuf := splice st.plaintextBuf 0 left },
        p.wire, p.script⟩
      got [] [body] := by
  have hlen : (splice st.plaintextBuf 0 left).length = maxMessage := by
    rw [← hst.length_plaintextBuf]
    exact length_splice (by rw [hst.length_plaintextBuf]; omega)
  have hdry : ¬ st.plaintextPos < st.plaintextLen := hst.buffered_eq_nil_iff.1 hbuf
  have hok : Ok { st with reader := p.reader, plaintextBuf := splice st.plaintextBuf 0 left } := {
    reader := hp.ok
    writer := hst.writer
    length_plaintextBuf := hlen
    plaintextLen_le := hst.plaintextLen_le
    plaintextPos_le := hst.plaintextPos_le }
  exact {
    wire_eq := hp.wire_eq
    unread_eq := hp.unread_eq
    ok := hok
    stream_eq := rfl
    held_eq := by simp [hframe, hheld, frames]
    fits := by simpa [Fits, maxMessage] using Nat.lt_succ_of_le hbody
    opened := trivial
    receiving_eq := rfl
    buffered_eq := by
      -- The cursor is at the end of the plaintext, whatever the buffer has now.
      have hnil := hok.buffered_eq_nil_iff.2 hdry
      rw [hnil, hbuf]
      rfl
    bad_eq := Or.inr ⟨body, rfl, rfl, hread⟩
    no_panic := by simp
    out_le := Nat.zero_le _
    of_eof := fun _ h => by cases h
    of_error := by
      intro e he
      cases he
      exact Or.inl ⟨rfl, by simp⟩ }

/-- A read that opens a frame and goes on. -/
theorem ReadSpec.cons {C : Cipher} {room : Nat} {st : NoiseStream} (hbuf : st.buffered = [])
    {wire : Wire} {script : List ReadAnswer} {p : FrameReader.Polled} {got more body plain : Bytes}
    (hp : FrameReader.FrameSpec st.reader wire script p got) (hheld : p.reader.held = [])
    (hframe : st.reader.held ++ got = frame body) (hbody : body.length ≤ maxMessage)
    (hopen : C.Opens st.receiving plain body) {r : Read} {log : List (Bytes × Bytes)}
    {bad : List Bytes}
    (h : ReadSpec C room (st.opened p.reader plain) p.wire p.script r more log bad) :
    ReadSpec C room st wire script r (got ++ more) ((plain, body) :: log) bad where
  wire_eq := by rw [h.wire_eq, hp.wire_eq]; simp
  unread_eq := by rw [hp.unread_eq, h.unread_eq, List.append_assoc]
  ok := h.ok
  stream_eq := h.stream_eq
  held_eq := by
    have hrest := h.held_eq
    rw [show (st.opened p.reader plain).reader.held = [] from hheld, List.nil_append] at hrest
    rw [← List.append_assoc, hframe, hrest]
    simp [frames_cons]
  fits := by
    intro c hc
    rcases List.mem_cons.1 hc with rfl | hc
    · exact Nat.lt_succ_of_le hbody
    · exact h.fits c hc
  opened := ⟨hopen, h.opened⟩
  receiving_eq := by
    rw [h.receiving_eq, List.length_cons]
    show st.receiving + 1 + log.length = _
    omega
  buffered_eq := by
    rw [← h.buffered_eq, buffered_opened, hbuf]
    rfl
  bad_eq := by
    have hnonce : (st.opened p.reader plain).receiving + log.length =
        st.receiving + ((plain, body) :: log).length := by
      rw [List.length_cons]
      show st.receiving + 1 + log.length = _
      omega
    rw [← hnonce]
    exact h.bad_eq
  no_panic := h.no_panic
  out_le := h.out_le
  of_eof := by
    have hended : p.wire.ended = wire.ended := by rw [hp.wire_eq]; rfl
    rw [← hended]
    exact h.of_eof
  of_error := by
    intro e he
    have hended : p.wire.ended = wire.ended := by rw [hp.wire_eq]; rfl
    rw [← hended]
    exact (h.of_error e he).imp_right fun h => h.imp_right fun h => ⟨h.1, hp.mem_script _ h.2⟩

theorem pollReadLoop_spec (C : Cipher) (room : Nat) {rounds : Nat} {st : NoiseStream} (hst : st.Ok)
    (wire : Wire) {script : List ReadAnswer} (hrounds : script.length < rounds) :
    ∃ got log bad,
      ReadSpec C room st wire script (pollReadLoop C room rounds st wire script) got log bad := by
  induction rounds generalizing st wire script with
  | zero => omega
  | succ rounds ih =>
      by_cases hpos : st.plaintextPos < st.plaintextLen
      · have hslice : slice st.plaintextBuf st.plaintextPos st.plaintextLen = some st.buffered := by
          rw [slice_eq_some hst.plaintextPos_le]
          · rfl
          · rw [hst.length_plaintextBuf]
            exact hst.plaintextLen_le
        simp only [pollReadLoop, if_pos hpos, hslice]
        exact ⟨[], [], [], ReadSpec.of_buffered hst hpos⟩
      have hbuf : st.buffered = [] := hst.buffered_eq_nil_iff.2 hpos
      obtain ⟨got, hp⟩ := FrameReader.pollFrame_spec hst.reader wire script
      simp only [pollReadLoop, if_neg hpos]
      generalize st.reader.pollFrame wire script = p at hp ⊢
      match hanswer : p.answer with
      | .ready (.ok (some n)) =>
          obtain ⟨hn, hheld, htake, hframe⟩ := hp.of_frame n hanswer
          have hbody : (p.reader.bodyBuf.take n).length ≤ maxMessage := by omega
          have hslice : slice p.reader.bodyBuf 0 n = some (p.reader.bodyBuf.take n) :=
            slice_eq_some (Nat.zero_le _) (by rw [hp.ok.length_bodyBuf]; exact hn)
          simp only [hslice, hst.length_plaintextBuf]
          cases hread : C.readMessage st.receiving (p.reader.bodyBuf.take n) maxMessage with
          | none =>
              exact ⟨got, [], [p.reader.bodyBuf.take n], ReadSpec.of_bad hst hbuf hp hheld hframe
                hbody (List.length_take_le _ _) hread⟩
          | some plain =>
              obtain ⟨hopen, hle⟩ := Cipher.readMessage_eq_some hread
              -- A frame took at least one answer of the script.
              have hgot : got ≠ [] := by
                rintro rfl
                rw [List.append_nil] at hframe
                have hpart := hst.reader.incomplete_held
                rw [hframe, ← List.append_nil (frame _)] at hpart
                exact not_incomplete_frame (Nat.lt_succ_of_le hbody) hpart
              have hscript := hp.script_lt hgot
              obtain ⟨more, log, bad, h⟩ := ih (hst.opened hp.ok hle) p.wire
                (show p.script.length < rounds by omega)
              exact ⟨got ++ more, _, bad, ReadSpec.cons hbuf hp hheld hframe hbody hopen h⟩
      | .ready (.ok none) =>
          exact ⟨got, [], [], ReadSpec.of_stop hst hbuf hp (hp.of_eof hanswer).1 (by simp)
            (by rintro out ⟨⟩; exact ⟨rfl, hanswer⟩) (by simp)⟩
      | .ready (.error e) =>
          exact ⟨got, [], [], ReadSpec.of_stop hst hbuf hp (hp.of_error e hanswer).1 (by simp)
            (by simp) (by rintro e' ⟨⟩; exact hanswer)⟩
      | .pending =>
          exact ⟨got, [], [], ReadSpec.of_stop hst hbuf hp (hp.of_pending hanswer) (by simp)
            (by simp) (by simp)⟩
      | .panic => exact absurd hanswer hp.no_panic

/-- **One `poll_read`.**  It never indexes outside its buffers; what it delivers and what it keeps for
later is the plaintext of the frames that it opened, in the order in which they are on the wire. -/
theorem pollRead_spec (C : Cipher) (room : Nat) {st : NoiseStream} (hst : st.Ok) (wire : Wire)
    (script : List ReadAnswer) :
    ∃ got log bad, ReadSpec C room st wire script (st.pollRead C room wire script) got log bad :=
  pollReadLoop_spec C room hst wire (Nat.lt_succ_self _)

/-- At the end of the transport a read that is not put off is an end of file, or an error when a
frame was cut. -/
theorem pollRead_of_drained (C : Cipher) (room : Nat) {st : NoiseStream} (hst : st.Ok)
    (hbuf : st.buffered = []) {wire : Wire} (hunread : wire.unread = []) (hended : wire.ended = true)
    (n : Nat) (script : List ReadAnswer) :
    (st.pollRead C room wire (.upTo n :: script)).answer =
      .ready (if st.reader.held = [] then .ok [] else .error .unexpectedEof) := by
  have hpos : ¬ st.plaintextPos < st.plaintextLen := hst.buffered_eq_nil_iff.1 hbuf
  have hp := FrameReader.pollFrame_of_drained hst.reader hunread hended n script
  simp only [pollRead, pollReadLoop, if_neg hpos, hp]
  by_cases hheld : st.reader.held = []
  · simp [hheld]
  · simp [hheld]

/-! ## Writing -/

/-- The answer of a `poll_write`, with the stream, the wire and the rest of the script after it. -/
structure Wrote where
  answer : Poll Nat
  stream : NoiseStream
  wire : Wire
  script : List WriteAnswer

/-- The front of `buf` that a `poll_write` reported as accepted. -/
def Wrote.accepted (r : Wrote) (buf : Bytes) : Bytes :=
  match r.answer with
  | .ready (.ok n) => buf.take n
  | _ => []

/-- `if self.writer.is_pending() { poll_drain }`, with which a write, a flush and a shutdown begin. -/
def drainPending (st : NoiseStream) (wire : Wire) (script : List WriteAnswer) : FrameWriter.Drained :=
  if st.writer.isPending then st.writer.pollDrain wire script
  else ⟨.ready (.ok ()), st.writer, wire, script⟩

/-- The writer with `message` framed in its buffer. -/
def framed (wr : FrameWriter) (message : Bytes) : FrameWriter where
  buf := splice (splice wr.buf 2 message) 0 (be16 message.length)
  len := 2 + message.length
  sent := 0

/-- The part of `poll_write` behind the drain: encrypt one chunk and begin to send it. -/
def pollSeal (st : NoiseStream) (C : Cipher) (buf : Bytes) (wire : Wire)
    (script : List WriteAnswer) : Wrote :=
  let chunkLen := min buf.length maxPlaintext
  match C.writeMessage st.sending (buf.take chunkLen) (st.writer.buf.length - 2) with
  | none => ⟨.ready (.error .invalidData), st, wire, script⟩
  | some message =>
      let d := (framed st.writer message).pollDrain wire script
      let st := { st with sending := st.sending + 1, writer := d.writer }
      match d.answer with
      | .ready (.error e) => ⟨.ready (.error e), st, d.wire, d.script⟩
      -- A drain that was put off is no failure of the write.
      | .ready (.ok ()) | .pending => ⟨.ready (.ok chunkLen), st, d.wire, d.script⟩
      | .panic => ⟨.panic, st, d.wire, d.script⟩

/-- `poll_write`. -/
def pollWrite (st : NoiseStream) (C : Cipher) (buf : Bytes) (wire : Wire)
    (script : List WriteAnswer) : Wrote :=
  let d := st.drainPending wire script
  let st := { st with writer := d.writer }
  match d.answer with
  | .ready (.ok ()) =>
      if buf = [] then ⟨.ready (.ok 0), st, d.wire, d.script⟩
      else st.pollSeal C buf d.wire d.script
  | .ready (.error e) => ⟨.ready (.error e), st, d.wire, d.script⟩
  | .pending => ⟨.pending, st, d.wire, d.script⟩
  | .panic => ⟨.panic, st, d.wire, d.script⟩

/-- The answer of a `poll_flush` or a `poll_shutdown`, with the stream and the wire after it. -/
structure Flushed where
  answer : Poll Unit
  stream : NoiseStream
  wire : Wire

/-- The transport's answer to one more poll; there is none where the script has stopped. -/
def nextAnswer (script : List WriteAnswer) : WriteAnswer := script.headD .pending

/-- `poll_flush`. -/
def pollFlush (st : NoiseStream) (wire : Wire) (script : List WriteAnswer) : Flushed :=
  let d := st.drainPending wire script
  let st := { st with writer := d.writer }
  match d.answer with
  | .ready (.ok ()) =>
      let f := d.wire.pollFlush (nextAnswer d.script)
      ⟨f.1, st, f.2⟩
  | other => ⟨other, st, d.wire⟩

/-- `poll_shutdown`. -/
def pollShutdown (st : NoiseStream) (wire : Wire) (script : List WriteAnswer) : Flushed :=
  let d := st.drainPending wire script
  let st := { st with writer := d.writer }
  match d.answer with
  | .ready (.ok ()) =>
      let f := d.wire.pollShutdown (nextAnswer d.script)
      ⟨f.1, st, f.2⟩
  | other => ⟨other, st, d.wire⟩

theorem drainPending_eq (st : NoiseStream) (wire : Wire) (script : List WriteAnswer) :
    st.drainPending wire script = st.writer.pollDrain wire script := by
  unfold drainPending
  by_cases h : st.writer.isPending = true
  · rw [if_pos h]
  · rw [if_neg h, FrameWriter.pollDrain_of_not_pending (Bool.eq_false_iff.2 h)]

/-- A framed message is, as a whole, what is unsent. -/
theorem framed_spec {wr : FrameWriter} (hwr : wr.Ok) {message : Bytes}
    (hle : message.length ≤ maxMessage) :
    (framed wr message).Ok ∧ (framed wr message).unsent = frame message := by
  have hbuf := hwr.length_buf
  have hinner : (splice wr.buf 2 message).length = wr.buf.length := length_splice (by omega)
  have houter : (splice (splice wr.buf 2 message) 0 (be16 message.length)).length =
      wr.buf.length := by
    rw [length_splice (by rw [length_be16]; omega), hinner]
  refine ⟨⟨by rw [← hbuf]; exact houter, Nat.add_le_add_left hle 2, Nat.zero_le _⟩, ?_⟩
  have htwo : (wr.buf.take 2).length = 2 := by
    rw [List.length_take]
    omega
  -- The header goes over the two bytes in front of the message.
  have hdrop : (splice wr.buf 2 message).drop 2 = message ++ wr.buf.drop (2 + message.length) := by
    rw [splice, List.append_assoc]
    exact List.drop_left' htwo
  show ((splice (splice wr.buf 2 message) 0 (be16 message.length)).take
    (2 + message.length)).drop 0 = _
  rw [List.drop_zero, splice, List.take_zero, List.nil_append, length_be16, Nat.zero_add, hdrop,
    ← List.append_assoc]
  exact List.take_left' (length_frame message)

/-- All a write can do: the transport took `pushed`, and the chunk in `log` was encrypted. -/
structure WriteSpec (C : Cipher) (st : NoiseStream) (buf : Bytes) (wire : Wire)
    (script : List WriteAnswer) (r : Wrote) (pushed : Bytes) (log : List (Bytes × Bytes)) :
    Prop where
  wire_eq : r.wire = wire.push pushed
  live : pushed ≠ [] → wire.ended = false
  /-- A chunk is encrypted after all that was unsent has gone out. -/
  behind : log ≠ [] → ∃ more, pushed = st.writer.unsent ++ more
  ok : r.stream.Ok
  stream_eq : r.stream = { st with sending := r.stream.sending, writer := r.stream.writer }
  unsent_eq : pushed ++ r.stream.writer.unsent =
    st.writer.unsent ++ frames (log.map Prod.snd)
  fits : Fits (log.map Prod.snd)
  sealed : Numbered C.Seals st.sending log
  sending_eq : r.stream.sending = st.sending + log.length
  log_eq : log = [] ∨ buf ≠ [] ∧ ∃ c, log = [(buf.take (min buf.length maxPlaintext), c)]
  no_panic : r.answer ≠ .panic
  of_ok : ∀ n, r.answer = .ready (.ok n) → log.flatMap Prod.fst = buf.take n
  of_error : ∀ e, r.answer = .ready (.error e) → log ≠ [] →
    r.stream.writer.unsent ≠ [] ∧ (wire.ended = true ∨ .zero ∈ script ∨ .fail ∈ script)
  of_pending : r.answer = .pending → log = []

/-- What a write reports as accepted is what it encrypted, unless it failed behind that. -/
theorem WriteSpec.accepted_cases {C : Cipher} {st : NoiseStream} {buf : Bytes} {wire : Wire}
    {script : List WriteAnswer} {r : Wrote} {pushed : Bytes} {log : List (Bytes × Bytes)}
    (h : WriteSpec C st buf wire script r pushed log) :
    log.flatMap Prod.fst = r.accepted buf ∨
      ∃ e x, r.answer = .ready (.error e) ∧ log = [x] ∧ r.accepted buf = [] := by
  unfold Wrote.accepted
  match hanswer : r.answer with
  | .ready (.ok n) => exact Or.inl (h.of_ok n hanswer)
  | .pending =>
      left
      rw [h.of_pending hanswer]
      rfl
  | .panic => exact absurd hanswer h.no_panic
  | .ready (.error e) =>
      rcases h.log_eq with hnil | ⟨-, c, hlog⟩
      · left
        rw [hnil]
        rfl
      · exact Or.inr ⟨e, _, rfl, hlog, rfl⟩

/-- What the part behind the drain does when nothing is unsent. -/
theorem pollSeal_spec (C : Cipher) {st : NoiseStream} (hst : st.Ok) (hnone : st.writer.unsent = [])
    {buf : Bytes} (hbuf : buf ≠ []) (wire : Wire) (script : List WriteAnswer) :
    ∃ pushed log, WriteSpec C st buf wire script (st.pollSeal C buf wire script) pushed log := by
  have hroom : st.writer.buf.length - 2 = maxMessage := by
    rw [hst.writer.length_buf]
    omega
  simp only [pollSeal, hroom]
  cases hwrite : C.writeMessage st.sending (buf.take (min buf.length maxPlaintext)) maxMessage with
  | none =>
      refine ⟨[], [], ?_⟩
      exact {
        wire_eq := (wire.push_nil).symm
        live := fun h => absurd rfl h
        behind := fun h => absurd rfl h
        ok := hst
        stream_eq := rfl
        unsent_eq := by simp
        fits := by simp [Fits]
        sealed := trivial
        sending_eq := rfl
        log_eq := Or.inl rfl
        no_panic := by simp
        of_ok := fun n h => by cases h
        of_error := fun e _ h => absurd rfl h
        of_pending := fun h => by cases h }
  | some message =>
      obtain ⟨hseals, hle⟩ := Cipher.writeMessage_eq_some hwrite
      obtain ⟨hok, hunsent⟩ := framed_spec hst.writer hle
      obtain ⟨pushed, hd⟩ := FrameWriter.pollDrain_spec hok wire script
      simp only
      generalize (framed st.writer message).pollDrain wire script = d at hd ⊢
      refine ⟨pushed, [(buf.take (min buf.length maxPlaintext), message)], ?_⟩
      -- Whatever the drain answered, the chunk is encrypted and framed.
      have hspec : ∀ answer : Poll Nat, answer ≠ .panic → answer ≠ .pending →
          (∀ n, answer = .ready (.ok n) → n = min buf.length maxPlaintext) →
          (∀ e, answer = .ready (.error e) → d.answer = .ready (.error e)) →
          WriteSpec C st buf wire script
            ⟨answer, { st with sending := st.sending + 1, writer := d.writer }, d.wire, d.script⟩
            pushed [(buf.take (min buf.length maxPlaintext), message)] := by
        intro answer hpanic hpending hready herror
        exact {
          wire_eq := hd.wire_eq
          live := hd.live
          behind := fun _ => ⟨pushed, by rw [hnone]; rfl⟩
          ok := hst.setWriter hd.ok _
          stream_eq := rfl
          unsent_eq := by
            rw [← hd.unsent_eq, hunsent, hnone]
            simp [frames]
          fits := by simpa [Fits, maxMessage] using Nat.lt_succ_of_le hle
          sealed := ⟨hseals, trivial⟩
          sending_eq := rfl
          log_eq := Or.inr ⟨hbuf, message, rfl⟩
          no_panic := hpanic
          of_ok := by
            intro n hn
            rw [hready n hn]
            simp
          of_error := fun e he _ => hd.of_error e (herror e he)
          of_pending := fun h => absurd h hpending }
      cases hanswer : d.answer with
      | ready result =>
          cases result with
          | ok => exact hspec _ (by simp) (by simp) (by simp) (by simp)
          | error e => exact hspec _ (by simp) (by simp) (by simp) (by rintro e' ⟨⟩; exact hanswer)
      | pending => exact hspec _ (by simp) (by simp) (by simp) (by simp)
      | panic => exact absurd hanswer hd.no_panic

/-- **One `poll_write`.**  Nothing is encrypted before the last frame has gone out; a chunk that is
encrypted is framed behind it, and the write is then answered Ready. -/
theorem pollWrite_spec (C : Cipher) {st : NoiseStream} (hst : st.Ok) (buf : Bytes) (wire : Wire)
    (script : List WriteAnswer) :
    ∃ pushed log, WriteSpec C st buf wire script (st.pollWrite C buf wire script) pushed log := by
  obtain ⟨pushed, hd⟩ := FrameWriter.pollDrain_spec hst.writer wire script
  rw [← drainPending_eq] at hd
  simp only [pollWrite]
  generalize st.drainPending wire script = d at hd ⊢
  have hok : Ok { st with writer := d.writer } := hst.setWriter hd.ok _
  -- The calls that end with the drain.
  have hspec : ∀ answer : Poll Nat, answer ≠ .panic →
      (∀ n, answer = .ready (.ok n) → buf = []) →
      WriteSpec C st buf wire script ⟨answer, { st with writer := d.writer }, d.wire, d.script⟩
        pushed [] := by
    intro answer hpanic hready
    exact {
      wire_eq := hd.wire_eq
      live := hd.live
      behind := fun h => absurd rfl h
      ok := hok
      stream_eq := rfl
      unsent_eq := by
        rw [← hd.unsent_eq]
        simp
      fits := by simp [Fits]
      sealed := trivial
      sending_eq := rfl
      log_eq := Or.inl rfl
      no_panic := hpanic
      of_ok := by
        intro n hn
        rw [hready n hn]
        simp
      of_error := fun e _ h => absurd rfl h
      of_pending := fun _ => rfl }
  cases hanswer : d.answer with
  | ready result =>
      cases result with
      | ok =>
          by_cases hbuf : buf = []
          · simp only [if_pos hbuf]
            exact ⟨pushed, [], hspec _ (by simp) fun _ _ => hbuf⟩
          · simp only [if_neg hbuf]
            have hnone := hd.of_ready hanswer
            obtain ⟨more, log, h⟩ := pollSeal_spec C hok hnone hbuf d.wire d.script
            refine ⟨pushed ++ more, log, ?_⟩
            have hended : d.wire.ended = wire.ended := by rw [hd.wire_eq]; rfl
            exact {
              wire_eq := by rw [h.wire_eq, hd.wire_eq, Wire.push_push]
              live := by
                intro hne
                by_cases hpushed : pushed = []
                · rw [← hended]
                  exact h.live (by simpa [hpushed] using hne)
                · exact hd.live hpushed
              behind := by
                intro _
                have hfront := hd.unsent_eq
                rw [hnone, List.append_nil] at hfront
                exact ⟨more, by rw [hfront]⟩
              ok := h.ok
              stream_eq := h.stream_eq
              unsent_eq := by
                have hrest := h.unsent_eq
                have hfront := hd.unsent_eq
                simp only [hnone, List.nil_append, List.append_nil] at hrest hfront
                rw [List.append_assoc, hrest, hfront]
              fits := h.fits
              sealed := h.sealed
              sending_eq := h.sending_eq
              log_eq := h.log_eq
              no_panic := h.no_panic
              of_ok := h.of_ok
              of_error := by
                intro e he hlog
                obtain ⟨hne, hcause⟩ := h.of_error e he hlog
                rw [hended] at hcause
                exact ⟨hne, hcause.imp_right fun hc => hc.imp (hd.mem_script _) (hd.mem_script _)⟩
              of_pending := h.of_pending }
      | error e => exact ⟨pushed, [], hspec _ (by simp) (by simp)⟩
  | pending => exact ⟨pushed, [], hspec _ (by simp) (by simp)⟩
  | panic => exact absurd hanswer hd.no_panic

/-- All a flush or a shutdown can do: the transport took `pushed`, and when it was answered Ready
nothing is unsent. -/
structure FlushSpec (st : NoiseStream) (wire : Wire) (r : Flushed) (pushed : Bytes) : Prop where
  carried_eq : r.wire.carried = wire.carried ++ pushed
  live : pushed ≠ [] → wire.ended = false
  taken_eq : r.wire.taken = wire.taken
  ok : r.stream.Ok
  stream_eq : r.stream = { st with writer := r.stream.writer }
  unsent_eq : st.writer.unsent = pushed ++ r.stream.writer.unsent
  ended_eq : r.wire.ended = wire.ended ∨ r.stream.writer.unsent = []
  ended_mono : wire.ended = true → r.wire.ended = true
  no_panic : r.answer ≠ .panic
  of_ready : r.answer = .ready (.ok ()) → r.stream.writer.unsent = []

/-- A drain, and then one poll of the transport that pushes nothing. -/
theorem FlushSpec.of_drain {st : NoiseStream} (hst : st.Ok) {wire : Wire}
    {script : List WriteAnswer} {d : FrameWriter.Drained} {pushed : Bytes}
    (hd : FrameWriter.DrainSpec st.writer wire script d pushed) {answer : Poll Unit} {wire' : Wire}
    (hcarried : wire'.carried = d.wire.carried) (htaken : wire'.taken = d.wire.taken)
    (hended : wire'.ended = wire.ended ∨ d.writer.unsent = [])
    (hmono : wire.ended = true → wire'.ended = true) (hpanic : answer ≠ .panic)
    (hready : answer = .ready (.ok ()) → d.writer.unsent = []) :
    FlushSpec st wire ⟨answer, { st with writer := d.writer }, wire'⟩ pushed where
  carried_eq := by rw [hcarried, hd.wire_eq, Wire.carried_push]
  live := hd.live
  taken_eq := by rw [htaken, hd.wire_eq, Wire.taken_push]
  ok := hst.setWriter hd.ok _
  stream_eq := rfl
  unsent_eq := hd.unsent_eq
  ended_eq := hended
  ended_mono := hmono
  no_panic := hpanic
  of_ready := hready

/-- A drain that is the end of the call. -/
theorem FlushSpec.of_drain_alone {st : NoiseStream} (hst : st.Ok) {wire : Wire}
    {script : List WriteAnswer} {d : FrameWriter.Drained} {pushed : Bytes}
    (hd : FrameWriter.DrainSpec st.writer wire script d pushed) {answer : Poll Unit}
    (hpanic : answer ≠ .panic) (hready : answer ≠ .ready (.ok ())) :
    FlushSpec st wire ⟨answer, { st with writer := d.writer }, d.wire⟩ pushed := by
  have hended : d.wire.ended = wire.ended := by rw [hd.wire_eq]; rfl
  exact .of_drain hst hd rfl rfl (Or.inl hended) (fun h => hended.trans h) hpanic
    fun h => absurd h hready

theorem pollFlush_spec {st : NoiseStream} (hst : st.Ok) (wire : Wire) (script : List WriteAnswer) :
    ∃ pushed, FlushSpec st wire (st.pollFlush wire script) pushed := by
  obtain ⟨pushed, hd⟩ := FrameWriter.pollDrain_spec hst.writer wire script
  rw [← drainPending_eq] at hd
  refine ⟨pushed, ?_⟩
  simp only [pollFlush]
  generalize st.drainPending wire script = d at hd ⊢
  have hended : d.wire.ended = wire.ended := by rw [hd.wire_eq]; rfl
  match hanswer : d.answer with
  | .ready (.ok ()) =>
      have hnone := hd.of_ready hanswer
      cases nextAnswer d.script <;>
        exact FlushSpec.of_drain hst hd rfl rfl (Or.inl hended) (fun h => hended.trans h)
          (by simp [Wire.pollFlush]) fun _ => hnone
  | .ready (.error e) => exact FlushSpec.of_drain_alone hst hd (by simp) (by simp)
  | .pending => exact FlushSpec.of_drain_alone hst hd (by simp) (by simp)
  | .panic => exact absurd hanswer hd.no_panic

/-- A shutdown ends the transport behind the last frame. -/
theorem pollShutdown_spec {st : NoiseStream} (hst : st.Ok) (wire : Wire)
    (script : List WriteAnswer) :
    ∃ pushed, FlushSpec st wire (st.pollShutdown wire script) pushed := by
  obtain ⟨pushed, hd⟩ := FrameWriter.pollDrain_spec hst.writer wire script
  rw [← drainPending_eq] at hd
  refine ⟨pushed, ?_⟩
  simp only [pollShutdown]
  generalize st.drainPending wire script = d at hd ⊢
  have hended : d.wire.ended = wire.ended := by rw [hd.wire_eq]; rfl
  match hanswer : d.answer with
  | .ready (.ok ()) =>
      have hnone := hd.of_ready hanswer
      cases nextAnswer d.script <;>
        exact FlushSpec.of_drain hst hd rfl rfl (Or.inr hnone)
          (fun h => by simp [Wire.pollShutdown, hended, h]) (by simp [Wire.pollShutdown])
          fun _ => hnone
  | .ready (.error e) => exact FlushSpec.of_drain_alone hst hd (by simp) (by simp)
  | .pending => exact FlushSpec.of_drain_alone hst hd (by simp) (by simp)
  | .panic => exact absurd hanswer hd.no_panic

end NoiseStream

end Noise
end Erbridge
