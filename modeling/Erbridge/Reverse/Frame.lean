import Erbridge.Core.Wire

/-!
# `write_frame` and `read_frame`

The length-prefixed frames of the reverse tunnel and of the Noise handshake, as the two async
functions write and read them: one step is one poll of the transport, so that anything can happen in
between.

* `FrameWrite.unsent`, `FrameRead.held` — the bytes that a function that is not done holds back.
* `FrameWrite.step_cases`, `FrameRead.step_spec` — what one poll does to them.
-/

namespace Erbridge
namespace Reverse

open Erbridge.Core

/-- `MAX_TOKEN_LEN`. -/
def maxTokenLen : Nat := 4096

/-- `MAX_NAME_LEN`. -/
def maxNameLen : Nat := 256

/-- Where a `write_frame` is. -/
inductive FrameWrite
  /-- `write_all(&len.to_be_bytes())`, with what is left of it and the data. -/
  | header (rest data : Bytes)
  /-- `write_all(data)`. -/
  | data (rest : Bytes)
  | flushing
  | done
  | failed (e : IoError)

namespace FrameWrite

/-- `write_all(data)` returns at once when there is nothing to write. -/
def startData (bytes : Bytes) : FrameWrite := if bytes = [] then .flushing else .data bytes

/-- `write_frame(w, data)`. -/
def start (bytes : Bytes) : FrameWrite :=
  if bytes.length < 65536 then .header (be16 bytes.length) bytes else .failed .invalidInput

/-- One poll of the transport. -/
def step (f : FrameWrite) (wire : Wire) (a : WriteAnswer) : FrameWrite × Wire :=
  match f with
  | .header rest bytes =>
      let p := wire.pollWrite rest a
      match writeAll rest p.1 with
      | .failed e => (.failed e, p.2)
      | .rest [] => (startData bytes, p.2)
      | .rest more => (.header more bytes, p.2)
  | .data rest =>
      let p := wire.pollWrite rest a
      match writeAll rest p.1 with
      | .failed e => (.failed e, p.2)
      | .rest [] => (.flushing, p.2)
      | .rest more => (.data more, p.2)
  | .flushing =>
      match wire.pollFlush a with
      | (.ready (.ok ()), wire') => (.done, wire')
      | (.ready (.error e), wire') => (.failed e, wire')
      | (_, wire') => (.flushing, wire')
  | .done => (.done, wire)
  | .failed e => (.failed e, wire)

/-- What is still to be written. -/
def unsent : FrameWrite → Bytes
  | .header rest bytes => rest ++ bytes
  | .data rest => rest
  | .flushing | .done | .failed _ => []

@[simp] theorem unsent_startData (bytes : Bytes) : (startData bytes).unsent = bytes := by
  unfold startData
  split
  · rename_i h
    exact h.symm
  · rfl

theorem unsent_start {bytes : Bytes} (h : bytes.length < 65536) :
    (start bytes).unsent = frame bytes := by
  simp [start, h, unsent, frame]

/-- Something is left of what a `write_all` has in hand. -/
def Ok : FrameWrite → Prop
  | .header rest _ => rest ≠ []
  | .data rest => rest ≠ []
  | .flushing | .done => True
  | .failed _ => False

theorem start_ok {bytes : Bytes} (h : bytes.length < 65536) : (start bytes).Ok := by
  simp [start, h, Ok, be16]

theorem startData_ok (bytes : Bytes) : (startData bytes).Ok := by
  unfold startData
  split
  · trivial
  · rename_i h
    exact h

/-- A poll either fails, which a transport does that has ended or answers so, or hands over a front
of what is unsent. -/
theorem step_cases {f : FrameWrite} (hf : f.Ok) (wire : Wire) (a : WriteAnswer) :
    (∃ e, f.step wire a = (.failed e, wire) ∧ (wire.ended = true ∨ a = .zero ∨ a = .fail)) ∨
    (∃ g pushed, f.step wire a = (g, wire.push pushed) ∧ g.Ok ∧
      f.unsent = pushed ++ g.unsent ∧ (pushed ≠ [] → wire.ended = false)) := by
  -- Where there is something to write, a write of nothing is not why it failed.
  have hnamed : ∀ {rest : Bytes}, rest ≠ [] →
      (wire.ended = true ∨ a = .zero ∨ a = .fail ∨ rest = []) →
        wire.ended = true ∨ a = .zero ∨ a = .fail := fun hne hcause =>
    hcause.imp_right fun h => h.imp_right fun h => h.resolve_right hne
  cases f with
  | header rest bytes =>
      rcases wire.writeAll_cases rest a with
        ⟨e, heq, hwire, hcause⟩ | ⟨pushed, more, hsplit, heq, hwire, hended⟩
      · left
        exact ⟨e, by simp only [step, heq, hwire], hnamed hf hcause⟩
      · right
        cases more with
        | nil =>
            refine ⟨startData bytes, pushed, by simp only [step, heq, hwire], startData_ok bytes, ?_,
              hended⟩
            rw [unsent_startData]
            simp only [unsent, hsplit, List.append_nil]
        | cons b more =>
            refine ⟨.header (b :: more) bytes, pushed, by simp only [step, heq, hwire],
              List.cons_ne_nil _ _, ?_, hended⟩
            simp only [unsent, hsplit, List.append_assoc]
  | data rest =>
      rcases wire.writeAll_cases rest a with
        ⟨e, heq, hwire, hcause⟩ | ⟨pushed, more, hsplit, heq, hwire, hended⟩
      · left
        exact ⟨e, by simp only [step, heq, hwire], hnamed hf hcause⟩
      · right
        cases more with
        | nil => exact ⟨.flushing, pushed, by simp only [step, heq, hwire], trivial, hsplit, hended⟩
        | cons b more =>
            exact ⟨.data (b :: more), pushed, by simp only [step, heq, hwire],
              List.cons_ne_nil _ _, hsplit, hended⟩
  | flushing =>
      cases a with
      | fail => exact Or.inl ⟨.transport, rfl, Or.inr (Or.inr rfl)⟩
      | pending =>
          exact Or.inr ⟨.flushing, [], by simp [step, Wire.pollFlush], trivial, rfl, by simp⟩
      | upTo n => exact Or.inr ⟨.done, [], by simp [step, Wire.pollFlush], trivial, rfl, by simp⟩
      | zero => exact Or.inr ⟨.done, [], by simp [step, Wire.pollFlush], trivial, rfl, by simp⟩
  | done => exact Or.inr ⟨.done, [], by simp [step], trivial, rfl, by simp⟩
  | failed e => exact absurd hf (by simp [Ok])

/-- How many polls of a transport that takes all it is offered are left. -/
def left : FrameWrite → Nat
  | .header _ _ => 3
  | .data _ => 2
  | .flushing => 1
  | .done | .failed _ => 0

/-- The answer with which a transport takes all that it is offered. -/
def takeAll (f : FrameWrite) : WriteAnswer := .upTo f.unsent.length

/-- A poll that takes all it is offered gets ahead. -/
theorem step_takeAll {f : FrameWrite} (hf : f.Ok) (hdone : f ≠ .done) {wire : Wire}
    (hopen : wire.ended = false) :
    (f.step wire f.takeAll).1.Ok ∧ (f.step wire f.takeAll).1.left < f.left
      ∧ (f.step wire f.takeAll).2.ended = false := by
  have hwrite : ∀ (rest : Bytes) (n : Nat), rest ≠ [] → rest.length ≤ n →
      writeAll rest (wire.pollWrite rest (.upTo n)).1 = .rest []
        ∧ (wire.pollWrite rest (.upTo n)).2.ended = false := by
    intro rest n hrest hn
    have hpos : 0 < rest.length := List.length_pos_iff.2 hrest
    have hmin : min (n + 1) rest.length = rest.length := by omega
    simp only [Wire.pollWrite, hopen, Bool.false_eq_true, if_false, hmin, writeAll,
      if_neg (by omega : rest.length ≠ 0), List.drop_length, Wire.ended_push, and_self]
  cases f with
  | header rest bytes =>
      obtain ⟨heq, hended⟩ := hwrite rest (rest ++ bytes).length hf (by simp)
      simp only [step, takeAll, unsent, heq]
      refine ⟨startData_ok bytes, ?_, hended⟩
      unfold startData
      split
      · show 1 < 3
        omega
      · show 2 < 3
        omega
  | data rest =>
      obtain ⟨heq, hended⟩ := hwrite rest rest.length hf (Nat.le_refl _)
      simp only [step, takeAll, unsent, heq]
      exact ⟨trivial, Nat.lt_succ_self 1, hended⟩
  | flushing => exact ⟨trivial, Nat.lt_succ_self 0, hopen⟩
  | done => exact absurd rfl hdone
  | failed e => exact absurd hf (by simp [Ok])

end FrameWrite

/-- Where a `read_frame` is; the two buffers hold what was read into them. -/
inductive FrameRead
  /-- `read_exact(&mut len_buf)`. -/
  | header (got : Bytes)
  /-- `read_exact(&mut buf)` of `len` bytes. -/
  | body (len : Nat) (got : Bytes)
  | done (data : Bytes)
  | failed (e : IoError)

namespace FrameRead

/-- `read_frame(r, max_len)`. -/
def start : FrameRead := .header []

/-- The length is known. -/
def startBody (maxLen len : Nat) : FrameRead :=
  if maxLen < len then .failed .invalidData
  else if len = 0 then .done []
  else .body len []

/-- One poll of the transport. -/
def step (maxLen : Nat) (f : FrameRead) (wire : Wire) (a : ReadAnswer) : FrameRead × Wire :=
  match f with
  | .header got =>
      let p := wire.pollRead (2 - got.length) a
      match readExact got p.1 with
      | .failed e => (.failed e, p.2)
      | .got lenBuf =>
          if lenBuf.length < 2 then (.header lenBuf, p.2) else (startBody maxLen (u16 lenBuf), p.2)
  | .body len got =>
      let p := wire.pollRead (len - got.length) a
      match readExact got p.1 with
      | .failed e => (.failed e, p.2)
      | .got buf => if buf.length < len then (.body len buf, p.2) else (.done buf, p.2)
  | .done data => (.done data, wire)
  | .failed e => (.failed e, wire)

/-- What was read of the frame. -/
def held : FrameRead → Bytes
  | .header got => got
  | .body len got => be16 len ++ got
  | .done data => frame data
  | .failed _ => []

/-- It is reading, and the frame is not complete. -/
def Ok (maxLen : Nat) : FrameRead → Prop
  | .header got => got.length < 2
  | .body len got => len ≤ maxLen ∧ len < 65536 ∧ got.length < len
  | .done _ | .failed _ => False

theorem start_ok (maxLen : Nat) : start.Ok maxLen := by simp [start, Ok]

@[simp] theorem held_start : start.held = [] := rfl

theorem Ok.incomplete_held {maxLen : Nat} {f : FrameRead} (hf : f.Ok maxLen) :
    Incomplete f.held := by
  cases f with
  | header got => exact Or.inl hf
  | body len got =>
      obtain ⟨-, hlen, hlt⟩ := hf
      right
      rw [held, u16_append (by simp), u16_be16 hlen, List.length_append, length_be16]
      omega
  | done data => exact absurd hf (by simp [Ok])
  | failed e => exact absurd hf (by simp [Ok])

/-- All that can come of a poll of a `read_frame` that has read `got` more: it goes on, it has the
frame, or it failed. -/
inductive Outcome (maxLen : Nat) (f : FrameRead) (wire : Wire) (a : ReadAnswer) (got : Bytes) :
    FrameRead → Prop
  | going {g : FrameRead} (hok : g.Ok maxLen) (hheld : g.held = f.held ++ got) :
      Outcome maxLen f wire a got g
  | done {data : Bytes} (hle : data.length ≤ maxLen) (hlt : data.length < 65536)
      (hframe : f.held ++ got = frame data) : Outcome maxLen f wire a got (.done data)
  | tooLarge (hlen : (f.held ++ got).length = 2) (hlarge : maxLen < u16 (f.held ++ got)) :
      Outcome maxLen f wire a got (.failed .invalidData)
  | eof (hgot : got = []) (hunread : wire.unread = []) (hended : wire.ended = true) :
      Outcome maxLen f wire a got (.failed .unexpectedEof)
  | error (hgot : got = []) (ha : a = .fail) : Outcome maxLen f wire a got (.failed .transport)

/-- The outcome when the two bytes of the length are there. -/
theorem Outcome.of_startBody {maxLen : Nat} {f : FrameRead} {wire : Wire} {a : ReadAnswer}
    {got : Bytes} (htwo : (f.held ++ got).length = 2) :
    Outcome maxLen f wire a got (startBody maxLen (u16 (f.held ++ got))) := by
  have hlen : u16 (f.held ++ got) < 65536 := u16_lt _
  have hheader := be16_u16 htwo
  unfold startBody
  by_cases hlarge : maxLen < u16 (f.held ++ got)
  · rw [if_pos hlarge]
    exact .tooLarge htwo hlarge
  rw [if_neg hlarge]
  by_cases hzero : u16 (f.held ++ got) = 0
  · rw [if_pos hzero]
    rw [hzero] at hheader
    exact .done (Nat.zero_le _) (by simp) (by rw [frame, List.append_nil, ← hheader]; rfl)
  · rw [if_neg hzero]
    refine .going ⟨by omega, hlen, by rw [List.length_nil]; omega⟩ ?_
    rw [held, List.append_nil, hheader]

/-- **One poll of a `read_frame`.**  It takes nothing from behind the frame. -/
theorem step_spec {maxLen : Nat} {f : FrameRead} (hf : f.Ok maxLen) (wire : Wire) (a : ReadAnswer) :
    ∃ got, (f.step maxLen wire a).2 = wire.advance got.length ∧
      wire.unread = got ++ (f.step maxLen wire a).2.unread ∧
      Outcome maxLen f wire a got (f.step maxLen wire a).1 := by
  cases f with
  | header got =>
      have hlt : got.length < 2 := hf
      rcases wire.readExact_cases hlt a with
        ⟨e, heq, hwire, hcause⟩ | ⟨more, rest, hunread, hle, heq, hwire⟩
      · refine ⟨[], ?_⟩
        simp only [step, heq, hwire]
        refine ⟨rfl, rfl, ?_⟩
        rcases hcause with ⟨rfl, hunread, hended⟩ | ⟨rfl, ha⟩
        · exact .eof rfl hunread hended
        · exact .error rfl ha
      · have hrest := (Wire.read_advance hunread).2
        refine ⟨more, ?_⟩
        simp only [step, heq, hwire]
        by_cases hpart : (got ++ more).length < 2
        · simp only [if_pos hpart]
          exact ⟨trivial, by rw [hrest, hunread], .going hpart rfl⟩
        · simp only [if_neg hpart]
          exact ⟨trivial, by rw [hrest, hunread],
            Outcome.of_startBody (f := .header got) (Nat.le_antisymm hle (Nat.le_of_not_lt hpart))⟩
  | body len got =>
      obtain ⟨hmax, hlen, hlt⟩ := hf
      rcases wire.readExact_cases hlt a with
        ⟨e, heq, hwire, hcause⟩ | ⟨more, rest, hunread, hle, heq, hwire⟩
      · refine ⟨[], ?_⟩
        simp only [step, heq, hwire]
        refine ⟨rfl, rfl, ?_⟩
        rcases hcause with ⟨rfl, hunread, hended⟩ | ⟨rfl, ha⟩
        · exact .eof rfl hunread hended
        · exact .error rfl ha
      · have hrest := (Wire.read_advance hunread).2
        refine ⟨more, ?_⟩
        simp only [step, heq, hwire]
        by_cases hpart : (got ++ more).length < len
        · simp only [if_pos hpart]
          exact ⟨trivial, by rw [hrest, hunread],
            .going ⟨hmax, hlen, hpart⟩ (by simp only [held, List.append_assoc])⟩
        · have hfull : (got ++ more).length = len := by omega
          simp only [if_neg hpart]
          refine ⟨trivial, by rw [hrest, hunread], .done (by omega) (by omega) ?_⟩
          simp only [held, frame, hfull, List.append_assoc]
  | done data => exact absurd hf (by simp [Ok])
  | failed e => exact absurd hf (by simp [Ok])

end FrameRead

end Reverse
end Erbridge
