import Erbridge.Core.Wire

/-!
# The frame reader and the frame writer of a Noise stream

`FrameReader` collects one ciphertext frame over as many polls as it takes, `FrameWriter` holds one
until all of it was handed to the transport.  Both keep their place in cursors over buffers that are
allocated once.

* `FrameReader.held` — the bytes of the frame that is being read; `FrameReader.pollFrame_spec` says
  what a poll does to them, whatever the wire carries.
* `FrameWriter.unsent` — the bytes of the frame that is being written; `FrameWriter.pollDrain_spec`.
-/

namespace Erbridge
namespace Noise

open Erbridge.Core

/-- The most bytes a message can have. -/
def maxMessage : Nat := 65535

/-- The most plaintext a message can have: the authentication tag takes 16 bytes. -/
def maxPlaintext : Nat := 65535 - 16

/-! ## Reading -/

/-- Accumulates an incoming frame. -/
structure FrameReader where
  lenBuf : Bytes
  lenFilled : Nat
  haveLen : Bool
  bodyBuf : Bytes
  bodyLen : Nat
  bodyFilled : Nat

namespace FrameReader

def default : FrameReader where
  lenBuf := List.replicate 2 0
  lenFilled := 0
  haveLen := false
  bodyBuf := List.replicate maxMessage 0
  bodyLen := 0
  bodyFilled := 0

/-- The answer of a poll, with the reader, the wire and the rest of the script after it. -/
structure Polled where
  answer : Poll (Option Nat)
  reader : FrameReader
  wire : Wire
  script : List ReadAnswer

/-- The second loop of `poll_frame` and what follows it. -/
def pollBody (r : FrameReader) (wire : Wire) (script : List ReadAnswer) : Polled :=
  let f := fill r.bodyLen r.bodyBuf r.bodyFilled wire script
  let r := { r with bodyBuf := f.buf, bodyFilled := f.filled }
  match f.stop with
  | .full =>
      ⟨.ready (.ok (some r.bodyLen)), { r with haveLen := false, lenFilled := 0 }, f.wire, f.script⟩
  | .eof => ⟨.ready (.error .unexpectedEof), r, f.wire, f.script⟩
  | .error e => ⟨.ready (.error e), r, f.wire, f.script⟩
  | .pending => ⟨.pending, r, f.wire, f.script⟩
  | .panic => ⟨.panic, r, f.wire, f.script⟩

/-- Drive the transport until a whole frame is in `body_buf`; `none` is an end of file between two
frames. -/
def pollFrame (r : FrameReader) (wire : Wire) (script : List ReadAnswer) : Polled :=
  if r.haveLen then r.pollBody wire script
  else
    let f := fill 2 r.lenBuf r.lenFilled wire script
    let r := { r with lenBuf := f.buf, lenFilled := f.filled }
    match f.stop with
    | .full =>
        { r with bodyLen := u16 r.lenBuf, bodyFilled := 0, haveLen := true }.pollBody f.wire f.script
    | .eof =>
        if r.lenFilled = 0 then ⟨.ready (.ok none), r, f.wire, f.script⟩
        else ⟨.ready (.error .unexpectedEof), r, f.wire, f.script⟩
    | .error e => ⟨.ready (.error e), r, f.wire, f.script⟩
    | .pending => ⟨.pending, r, f.wire, f.script⟩
    | .panic => ⟨.panic, r, f.wire, f.script⟩

/-- What was read of the frame that is not complete. -/
def held (r : FrameReader) : Bytes :=
  if r.haveLen then r.lenBuf ++ r.bodyBuf.take r.bodyFilled else r.lenBuf.take r.lenFilled

/-- The cursors are inside the buffers, and between two polls no frame is complete. -/
structure Ok (r : FrameReader) : Prop where
  length_lenBuf : r.lenBuf.length = 2
  length_bodyBuf : r.bodyBuf.length = maxMessage
  lenFilled_lt : r.haveLen = false → r.lenFilled < 2
  bodyLen_eq : r.haveLen = true → r.bodyLen = u16 r.lenBuf
  bodyFilled_lt : r.haveLen = true → r.bodyFilled < r.bodyLen

theorem default_ok : default.Ok where
  length_lenBuf := by simp [default]
  length_bodyBuf := by simp [default]
  lenFilled_lt := fun _ => by simp [default]
  bodyLen_eq := fun h => by cases h
  bodyFilled_lt := fun h => by cases h

@[simp] theorem held_default : default.held = [] := rfl

theorem Ok.incomplete_held {r : FrameReader} (h : r.Ok) : Incomplete r.held := by
  unfold held Incomplete
  cases hlen : r.haveLen with
  | false =>
      have := h.lenFilled_lt hlen
      left
      simp only [Bool.false_eq_true, if_false, List.length_take]
      omega
  | true =>
      have hbody := h.bodyFilled_lt hlen
      have heq := h.bodyLen_eq hlen
      right
      rw [if_pos rfl, u16_append (Nat.le_of_eq h.length_lenBuf.symm), List.length_append, h.length_lenBuf,
        List.length_take]
      omega

/-- All a poll can do, with the bytes that it read. -/
structure FrameSpec (r : FrameReader) (wire : Wire) (script : List ReadAnswer) (p : Polled)
    (got : Bytes) : Prop where
  wire_eq : p.wire = wire.advance got.length
  unread_eq : wire.unread = got ++ p.wire.unread
  ok : p.reader.Ok
  script_le : p.script.length ≤ script.length
  script_lt : got ≠ [] → p.script.length < script.length
  mem_script : ∀ a ∈ p.script, a ∈ script
  no_panic : p.answer ≠ .panic
  of_frame : ∀ n, p.answer = .ready (.ok (some n)) →
    n ≤ maxMessage ∧ p.reader.held = [] ∧ (p.reader.bodyBuf.take n).length = n ∧
      r.held ++ got = frame (p.reader.bodyBuf.take n)
  of_eof : p.answer = .ready (.ok none) →
    p.reader.held = r.held ++ got ∧ p.reader.held = [] ∧ p.wire.unread = [] ∧ wire.ended = true
  of_error : ∀ e, p.answer = .ready (.error e) → p.reader.held = r.held ++ got ∧
    ((e = .unexpectedEof ∧ p.reader.held ≠ [] ∧ p.wire.unread = [] ∧ wire.ended = true) ∨
      (e = .transport ∧ .fail ∈ script))
  of_pending : p.answer = .pending → p.reader.held = r.held ++ got

/-- A read loop that stopped inside a frame leaves what it read in the reader. -/
theorem FrameSpec.of_stop {r r' : FrameReader} {wire : Wire} {script : List ReadAnswer} {len : Nat}
    {buf got : Bytes} {filled : Nat} {f : Fill} {answer : Poll (Option Nat)}
    (hf : FillSpec len buf filled wire script f got) (hok : r'.Ok) (hheld : r'.held = r.held ++ got)
    (hpanic : answer ≠ .panic) (hframe : ∀ n, answer ≠ .ready (.ok (some n)))
    (heof : answer = .ready (.ok none) → r'.held = [] ∧ f.stop = .eof)
    (herror : ∀ e, answer = .ready (.error e) →
      (e = .unexpectedEof ∧ r'.held ≠ [] ∧ f.stop = .eof) ∨ f.stop = .error e) :
    FrameSpec r wire script ⟨answer, r', f.wire, f.script⟩ got where
  wire_eq := hf.wire_eq
  unread_eq := hf.unread_eq
  ok := hok
  script_le := hf.script_le
  script_lt := hf.script_lt
  mem_script := hf.mem_script
  no_panic := hpanic
  of_frame := fun n h => absurd h (hframe n)
  of_eof := fun h => ⟨hheld, (heof h).1, hf.of_eof (heof h).2⟩
  of_error := by
    intro e he
    rcases herror e he with ⟨heq, hne, hstop⟩ | hstop
    · exact ⟨hheld, Or.inl ⟨heq, hne, hf.of_eof hstop⟩⟩
    · exact ⟨hheld, Or.inr (hf.of_error e hstop)⟩
  of_pending := fun _ => hheld

/-- The second loop, for a reader that has the length and, maybe, the whole body. -/
theorem pollBody_spec {r : FrameReader} (wire : Wire) (script : List ReadAnswer)
    (hlen : r.lenBuf.length = 2) (hbody : r.bodyBuf.length = maxMessage) (hhave : r.haveLen = true)
    (hbodyLen : r.bodyLen = u16 r.lenBuf) (hfilled : r.bodyFilled ≤ r.bodyLen) :
    ∃ got, FrameSpec r wire script (r.pollBody wire script) got := by
  have hmax : r.bodyLen ≤ maxMessage := by
    rw [hbodyLen]
    exact Nat.le_of_lt_succ (u16_lt _)
  obtain ⟨got, hf⟩ := fill_spec wire script hfilled (hbody ▸ hmax)
  refine ⟨got, ?_⟩
  simp only [pollBody]
  generalize fill r.bodyLen r.bodyBuf r.bodyFilled wire script = f at hf ⊢
  have hheld : r.lenBuf ++ f.buf.take f.filled = r.held ++ got := by
    rw [held, if_pos hhave, hf.buf_eq, List.append_assoc]
  -- Unless the frame is complete, the reader keeps its place in it.
  have hheld' : held { r with bodyBuf := f.buf, bodyFilled := f.filled } = r.held ++ got := by
    rw [← hheld, held, if_pos hhave]
  have hne : held { r with bodyBuf := f.buf, bodyFilled := f.filled } ≠ [] := by
    intro h
    have hzero := congrArg List.length (hheld.trans (hheld'.symm.trans h))
    rw [List.length_append, hlen, List.length_nil] at hzero
    omega
  have hok : f.stop ≠ .full → Ok { r with bodyBuf := f.buf, bodyFilled := f.filled } := fun h => {
    length_lenBuf := hlen
    length_bodyBuf := by rw [← hbody]; exact hf.length_buf
    lenFilled_lt := fun h => by rw [hhave] at h; cases h
    bodyLen_eq := fun _ => hbodyLen
    bodyFilled_lt := fun _ => hf.of_not_full h }
  cases hstop : f.stop with
  | full =>
      have hfull : f.filled = r.bodyLen := hf.of_full hstop
      have htake : (f.buf.take r.bodyLen).length = r.bodyLen := by
        rw [List.length_take, hf.length_buf, hbody]
        omega
      exact {
        wire_eq := hf.wire_eq
        unread_eq := hf.unread_eq
        ok := {
          length_lenBuf := hlen
          length_bodyBuf := by rw [← hbody]; exact hf.length_buf
          lenFilled_lt := fun _ => Nat.zero_lt_two
          bodyLen_eq := fun h => by cases h
          bodyFilled_lt := fun h => by cases h }
        script_le := hf.script_le
        script_lt := hf.script_lt
        mem_script := hf.mem_script
        no_panic := by simp
        of_frame := by
          intro n hn
          cases hn
          refine ⟨hmax, by simp [held], htake, ?_⟩
          rw [← hheld, hfull, frame, htake, hbodyLen, be16_u16 hlen]
        of_eof := fun h => by cases h
        of_error := fun e h => by cases h
        of_pending := fun h => by cases h }
  | eof =>
      exact FrameSpec.of_stop hf (hok (by simp [hstop])) hheld' (by simp) (by simp) (by simp)
        (by rintro e ⟨⟩; exact Or.inl ⟨rfl, hne, hstop⟩)
  | error e =>
      exact FrameSpec.of_stop hf (hok (by simp [hstop])) hheld' (by simp) (by simp) (by simp)
        (by rintro e' ⟨⟩; exact Or.inr hstop)
  | pending =>
      exact FrameSpec.of_stop hf (hok (by simp [hstop])) hheld' (by simp) (by simp) (by simp)
        (by simp)
  | panic => exact absurd hstop hf.no_panic

/-- What one loop read and then the other. -/
theorem FrameSpec.append {r r' : FrameReader} {wire : Wire} {script : List ReadAnswer} {len : Nat}
    {buf got more : Bytes} {filled : Nat} {f : Fill} {p : Polled}
    (hf : FillSpec len buf filled wire script f got) (hheld : r'.held = r.held ++ got)
    (h : FrameSpec r' f.wire f.script p more) : FrameSpec r wire script p (got ++ more) where
  wire_eq := by rw [h.wire_eq, hf.wire_eq]; simp
  unread_eq := by rw [hf.unread_eq, h.unread_eq, List.append_assoc]
  ok := h.ok
  script_le := Nat.le_trans h.script_le hf.script_le
  script_lt := by
    intro hne
    by_cases hgot : got = []
    · have hmore : more ≠ [] := by simpa [hgot] using hne
      exact Nat.lt_of_lt_of_le (h.script_lt hmore) hf.script_le
    · exact Nat.lt_of_le_of_lt h.script_le (hf.script_lt hgot)
  mem_script := fun a ha => hf.mem_script a (h.mem_script a ha)
  no_panic := h.no_panic
  of_frame := by
    intro n hn
    rw [← List.append_assoc, ← hheld]
    exact h.of_frame n hn
  of_eof := by
    intro he
    rw [← List.append_assoc, ← hheld]
    have hended : f.wire.ended = wire.ended := by rw [hf.wire_eq]; rfl
    rw [← hended]
    exact h.of_eof he
  of_error := by
    intro e he
    rw [← List.append_assoc, ← hheld]
    have hended : f.wire.ended = wire.ended := by rw [hf.wire_eq]; rfl
    rw [← hended]
    obtain ⟨heq, hcase⟩ := h.of_error e he
    exact ⟨heq, hcase.imp_right fun ht => ⟨ht.1, hf.mem_script _ ht.2⟩⟩
  of_pending := by
    intro he
    rw [← List.append_assoc, ← hheld]
    exact h.of_pending he

/-- **One poll of the frame reader.**  It never indexes outside its buffers, and the bytes of the
frame that it returns, or of the one that it has begun, are those it held and those it read. -/
theorem pollFrame_spec {r : FrameReader} (hr : r.Ok) (wire : Wire) (script : List ReadAnswer) :
    ∃ got, FrameSpec r wire script (r.pollFrame wire script) got := by
  unfold pollFrame
  by_cases htrue : r.haveLen = true
  · rw [if_pos htrue]
    exact pollBody_spec wire script hr.length_lenBuf hr.length_bodyBuf htrue (hr.bodyLen_eq htrue)
      (Nat.le_of_lt (hr.bodyFilled_lt htrue))
  have hhave : r.haveLen = false := Bool.eq_false_iff.2 htrue
  rw [if_neg htrue]
  have hlt : r.lenFilled < 2 := hr.lenFilled_lt hhave
  obtain ⟨got, hf⟩ := fill_spec wire script (Nat.le_of_lt hlt) (Nat.le_of_eq hr.length_lenBuf.symm)
  simp only
  generalize fill 2 r.lenBuf r.lenFilled wire script = f at hf ⊢
  have hbuf : f.buf.length = 2 := by rw [hf.length_buf, hr.length_lenBuf]
  have hheld : f.buf.take f.filled = r.held ++ got := by
    rw [held, if_neg htrue, hf.buf_eq]
  have hheld' : held { r with lenBuf := f.buf, lenFilled := f.filled } = r.held ++ got := by
    rw [← hheld, held, if_neg htrue]
  have hok : f.stop ≠ .full → Ok { r with lenBuf := f.buf, lenFilled := f.filled } := fun h => {
    length_lenBuf := hbuf
    length_bodyBuf := hr.length_bodyBuf
    lenFilled_lt := fun _ => hf.of_not_full h
    bodyLen_eq := fun h => by rw [hhave] at h; cases h
    bodyFilled_lt := fun h => by rw [hhave] at h; cases h }
  cases hstop : f.stop with
  | full =>
      obtain ⟨more, hmore⟩ := pollBody_spec f.wire f.script
        (r := {
          r with
          lenBuf := f.buf
          lenFilled := f.filled
          bodyLen := u16 f.buf
          bodyFilled := 0
          haveLen := true })
        hbuf hr.length_bodyBuf rfl rfl (Nat.zero_le _)
      refine ⟨got ++ more, hmore.append hf ?_⟩
      rw [← hheld, hf.of_full hstop]
      simp only [held, if_true, List.take_zero, List.append_nil]
      rw [← hbuf, List.take_length]
  | eof =>
      refine ⟨got, ?_⟩
      have hlen : (f.buf.take f.filled).length = f.filled := by
        have := hf.filled_le
        rw [List.length_take]
        omega
      by_cases hzero : f.filled = 0
      · simp only [if_pos hzero]
        refine FrameSpec.of_stop hf (hok (by simp [hstop])) hheld' (by simp) (by simp) ?_ (by simp)
        intro _
        rw [hheld', ← hheld, hzero, List.take_zero]
        exact ⟨rfl, hstop⟩
      · simp only [if_neg hzero]
        refine FrameSpec.of_stop hf (hok (by simp [hstop])) hheld' (by simp) (by simp) (by simp) ?_
        rintro e ⟨⟩
        refine Or.inl ⟨rfl, ?_, hstop⟩
        rw [hheld', ← hheld]
        exact fun h => hzero (by rw [← hlen, h]; rfl)
  | error e =>
      exact ⟨got, FrameSpec.of_stop hf (hok (by simp [hstop])) hheld' (by simp) (by simp) (by simp)
        (by rintro e' ⟨⟩; exact Or.inr hstop)⟩
  | pending =>
      exact ⟨got, FrameSpec.of_stop hf (hok (by simp [hstop])) hheld' (by simp) (by simp) (by simp)
        (by simp)⟩
  | panic => exact absurd hstop hf.no_panic

/-- At the end of the transport a poll that is not put off tells whether a frame was cut. -/
theorem pollFrame_of_drained {r : FrameReader} (hr : r.Ok) {wire : Wire} (hunread : wire.unread = [])
    (hended : wire.ended = true) (n : Nat) (script : List ReadAnswer) :
    (r.pollFrame wire (.upTo n :: script)).answer =
      .ready (if r.held = [] then .ok none else .error .unexpectedEof) := by
  have hread : ∀ room, wire.pollRead room (.upTo n) = (.ready (.ok []), wire) := by
    intro room
    simp [Wire.pollRead, hunread, hended]
  have hfill : ∀ {len filled : Nat} {buf : Bytes}, filled < len → len ≤ buf.length →
      fill len buf filled wire (.upTo n :: script) = ⟨.eof, buf, filled, wire, script⟩ := by
    intro len filled buf hlt hle
    simp [fill, hlt, hle, hread]
  unfold pollFrame
  cases hhave : r.haveLen with
  | true =>
      have hmax : r.bodyLen ≤ r.bodyBuf.length := by
        rw [hr.bodyLen_eq hhave, hr.length_bodyBuf]
        exact Nat.le_of_lt_succ (u16_lt _)
      have hne : r.held ≠ [] := by
        intro h
        have := congrArg List.length h
        simp [held, hhave, hr.length_lenBuf] at this
      simp [pollBody, hfill (hr.bodyFilled_lt hhave) hmax, hne]
  | false =>
      have hlt : r.lenFilled < 2 := hr.lenFilled_lt hhave
      have hnil : r.held = [] ↔ r.lenFilled = 0 := by
        rw [held, if_neg (by simp [hhave]), ← List.length_eq_zero_iff, List.length_take,
          hr.length_lenBuf]
        omega
      rw [if_neg (by simp), hfill hlt (Nat.le_of_eq hr.length_lenBuf.symm)]
      by_cases hzero : r.lenFilled = 0
      · simp [hzero, hnil]
      · simp [hzero, hnil]

end FrameReader

/-! ## Writing -/

/-- Buffers one framed message until it has been handed to the transport. -/
structure FrameWriter where
  buf : Bytes
  len : Nat
  sent : Nat

namespace FrameWriter

def default : FrameWriter where
  buf := List.replicate (2 + maxMessage) 0
  len := 0
  sent := 0

def isPending (wr : FrameWriter) : Bool := decide (wr.sent < wr.len)

/-- The answer of a drain, with the writer, the wire and the rest of the script after it. -/
structure Drained where
  answer : Poll Unit
  writer : FrameWriter
  wire : Wire
  script : List WriteAnswer

/-- Push as much of the buffered frame as possible into the transport. -/
def pollDrain (wr : FrameWriter) (wire : Wire) : List WriteAnswer → Drained
  | [] =>
      if wr.isPending then
        match slice wr.buf wr.sent wr.len with
        | none => ⟨.panic, wr, wire, []⟩
        | some _ => ⟨.pending, wr, wire, []⟩
      else ⟨.ready (.ok ()), wr, wire, []⟩
  | a :: script =>
      if wr.isPending then
        match slice wr.buf wr.sent wr.len with
        | none => ⟨.panic, wr, wire, a :: script⟩
        | some offered =>
            match wire.pollWrite offered a with
            | (.ready (.ok n), wire') =>
                if n = 0 then ⟨.ready (.error .writeZero), wr, wire', script⟩
                else pollDrain { wr with sent := wr.sent + n } wire' script
            | (.ready (.error e), wire') => ⟨.ready (.error e), wr, wire', script⟩
            | (.pending, wire') => ⟨.pending, wr, wire', script⟩
            | (.panic, wire') => ⟨.panic, wr, wire', script⟩
      else ⟨.ready (.ok ()), wr, wire, a :: script⟩

/-- What the transport has not taken yet. -/
def unsent (wr : FrameWriter) : Bytes := (wr.buf.take wr.len).drop wr.sent

/-- The cursors are inside the buffer. -/
structure Ok (wr : FrameWriter) : Prop where
  length_buf : wr.buf.length = 2 + maxMessage
  len_le : wr.len ≤ 2 + maxMessage
  sent_le : wr.sent ≤ wr.len

theorem default_ok : default.Ok where
  length_buf := by simp [default]
  len_le := Nat.zero_le _
  sent_le := Nat.le_refl _

@[simp] theorem unsent_default : default.unsent = [] := by simp [unsent, default]

theorem Ok.length_unsent {wr : FrameWriter} (h : wr.Ok) : wr.unsent.length = wr.len - wr.sent := by
  have hlen := h.length_buf
  have hle := h.len_le
  rw [unsent, List.length_drop, List.length_take]
  omega

theorem Ok.isPending_iff {wr : FrameWriter} (h : wr.Ok) : wr.isPending = true ↔ wr.unsent ≠ [] := by
  have hlen := h.length_unsent
  rw [isPending, decide_eq_true_iff, ← List.length_pos_iff]
  omega

theorem Ok.slice_eq {wr : FrameWriter} (h : wr.Ok) :
    slice wr.buf wr.sent wr.len = some wr.unsent := by
  rw [slice_eq_some h.sent_le]
  · rfl
  · rw [h.length_buf]
    exact h.len_le

/-- The cursor moves over what the transport took. -/
theorem Ok.taken {wr : FrameWriter} (h : wr.Ok) (n : Nat) :
    Ok { wr with sent := wr.sent + min (n + 1) wr.unsent.length } ∧
      unsent { wr with sent := wr.sent + min (n + 1) wr.unsent.length } =
        wr.unsent.drop (n + 1) := by
  have hlen := h.length_unsent
  have hsent := h.sent_le
  constructor
  · exact {
      length_buf := h.length_buf
      len_le := h.len_le
      sent_le := by
        show wr.sent + min (n + 1) wr.unsent.length ≤ wr.len
        omega }
  · show (wr.buf.take wr.len).drop (wr.sent + _) = ((wr.buf.take wr.len).drop wr.sent).drop _
    rw [List.drop_drop]
    by_cases hle : n + 1 ≤ wr.unsent.length
    · rw [Nat.min_eq_left hle]
    · have hbuf : (wr.buf.take wr.len).length ≤ wr.len := List.length_take_le _ _
      rw [List.drop_eq_nil_of_le (by omega), List.drop_eq_nil_of_le (by omega)]

/-- All a drain can do, with the bytes that the transport took. -/
structure DrainSpec (wr : FrameWriter) (wire : Wire) (script : List WriteAnswer) (d : Drained)
    (pushed : Bytes) : Prop where
  wire_eq : d.wire = wire.push pushed
  live : pushed ≠ [] → wire.ended = false
  unsent_eq : wr.unsent = pushed ++ d.writer.unsent
  ok : d.writer.Ok
  mem_script : ∀ a ∈ d.script, a ∈ script
  no_panic : d.answer ≠ .panic
  of_ready : d.answer = .ready (.ok ()) → d.writer.unsent = []
  of_error : ∀ e, d.answer = .ready (.error e) →
    d.writer.unsent ≠ [] ∧ (wire.ended = true ∨ .zero ∈ script ∨ .fail ∈ script)
  of_pending : d.answer = .pending → d.writer.unsent ≠ []

/-- A drain that stops where it is. -/
theorem DrainSpec.of_stop {wr : FrameWriter} (hwr : wr.Ok) {wire : Wire}
    {script script' : List WriteAnswer} {answer : Poll Unit} (hmem : ∀ a ∈ script', a ∈ script)
    (hpanic : answer ≠ .panic) (hready : answer = .ready (.ok ()) → wr.unsent = [])
    (herror : ∀ e, answer = .ready (.error e) →
      wr.unsent ≠ [] ∧ (wire.ended = true ∨ .zero ∈ script ∨ .fail ∈ script))
    (hpending : answer = .pending → wr.unsent ≠ []) :
    DrainSpec wr wire script ⟨answer, wr, wire, script'⟩ [] where
  wire_eq := (wire.push_nil).symm
  live := fun h => absurd rfl h
  unsent_eq := rfl
  ok := hwr
  mem_script := hmem
  no_panic := hpanic
  of_ready := hready
  of_error := herror
  of_pending := hpending

/-- **One drain.**  The transport gets a front of what was unsent, and the rest stays unsent. -/
theorem pollDrain_spec {wr : FrameWriter} (hwr : wr.Ok) (wire : Wire) (script : List WriteAnswer) :
    ∃ pushed, DrainSpec wr wire script (wr.pollDrain wire script) pushed := by
  induction script generalizing wr wire with
  | nil =>
      refine ⟨[], ?_⟩
      by_cases hpend : wr.isPending = true
      · simp only [pollDrain, if_pos hpend, hwr.slice_eq]
        exact DrainSpec.of_stop hwr (by simp) (by simp) (by simp) (by simp)
          fun _ => hwr.isPending_iff.1 hpend
      · simp only [pollDrain, if_neg hpend]
        exact DrainSpec.of_stop hwr (by simp) (by simp)
          (fun _ => by simpa [hwr.isPending_iff] using hpend) (by simp) (by simp)
  | cons a script ih =>
      have hmem : ∀ b ∈ script, b ∈ a :: script := fun b hb => List.mem_cons_of_mem _ hb
      by_cases hpend : wr.isPending = true
      case neg =>
        refine ⟨[], ?_⟩
        simp only [pollDrain, if_neg hpend]
        exact DrainSpec.of_stop hwr (by simp) (by simp)
          (fun _ => by simpa [hwr.isPending_iff] using hpend) (by simp) (by simp)
      have hne : wr.unsent ≠ [] := hwr.isPending_iff.1 hpend
      simp only [pollDrain, if_pos hpend, hwr.slice_eq]
      rcases wire.pollWrite_cases wr.unsent a with
        heq | ⟨hcause, heq⟩ | ⟨ha, heq⟩ | ⟨n, ha, hended, heq⟩
      · refine ⟨[], ?_⟩
        rw [heq]
        exact DrainSpec.of_stop hwr hmem (by simp) (by simp) (by simp) fun _ => hne
      · refine ⟨[], ?_⟩
        rw [heq]
        refine DrainSpec.of_stop hwr hmem (by simp) (by simp) (fun e _ => ⟨hne, ?_⟩) (by simp)
        rcases hcause with ha | hended
        · exact Or.inr (Or.inr (by simp [ha]))
        · exact Or.inl hended
      · refine ⟨[], ?_⟩
        rw [heq]
        exact DrainSpec.of_stop hwr hmem (by simp) (by simp)
          (fun e _ => ⟨hne, Or.inr (Or.inl (by simp [ha]))⟩) (by simp)
      · have hpos : 0 < wr.unsent.length := List.length_pos_iff.2 hne
        have hn : min (n + 1) wr.unsent.length ≠ 0 := by omega
        rw [heq]
        simp only [if_neg hn]
        obtain ⟨hwr', hunsent⟩ := hwr.taken n
        obtain ⟨more, hmore⟩ := ih hwr' (wire.push (wr.unsent.take (n + 1)))
        refine ⟨wr.unsent.take (n + 1) ++ more, ?_⟩
        exact {
          wire_eq := by rw [hmore.wire_eq, Wire.push_push]
          live := fun _ => hended
          unsent_eq := by
            rw [List.append_assoc, ← hmore.unsent_eq, hunsent, List.take_append_drop]
          ok := hmore.ok
          mem_script := fun b hb => hmem b (hmore.mem_script b hb)
          no_panic := hmore.no_panic
          of_ready := hmore.of_ready
          of_error := by
            intro e he
            obtain ⟨hrest, hcause⟩ := hmore.of_error e he
            exact ⟨hrest, hcause.imp_right fun h => h.imp (hmem _) (hmem _)⟩
          of_pending := hmore.of_pending }

/-- A writer without an unsent part leaves the transport alone. -/
theorem pollDrain_of_not_pending {wr : FrameWriter} (h : wr.isPending = false) (wire : Wire)
    (script : List WriteAnswer) :
    wr.pollDrain wire script = ⟨.ready (.ok ()), wr, wire, script⟩ := by
  cases script <;> simp [pollDrain, h]

end FrameWriter

end Noise
end Erbridge
