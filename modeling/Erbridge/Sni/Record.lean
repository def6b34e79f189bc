import Erbridge.Core.Wire

/-!
# Reading one TLS record

`read_record` of the SNI router, one poll of the visitor's connection at a time.  What it returns is
replayed to the destination, so it has to be all that it took.

* `checkHeader` — the length that a record header announces.
* `RecordRead.step_spec` — what one poll does to the bytes that were read.
-/

namespace Erbridge
namespace Sni

open Erbridge.Core

/-- `RECORD_HEADER_LEN`. -/
def recordHeaderLen : Nat := 5

/-- `MAX_RECORD_BODY`. -/
def maxRecordBody : Nat := 16 * 1024

/-- `check_header`: the body length that a handshake record announces. -/
def checkHeader (header : Bytes) : Option Nat :=
  if header.getD 0 0 ≠ 0x16 ∨ header.getD 1 0 ≠ 3 then none
  else
    let len := u16 [header.getD 3 0, header.getD 4 0]
    if len = 0 ∨ maxRecordBody < len then none else some len

theorem checkHeader_pos {header : Bytes} {len : Nat} (h : checkHeader header = some len) :
    0 < len := by
  unfold checkHeader at h
  split at h
  · cases h
  · simp only at h
    split at h
    · cases h
    · rename_i hlen
      obtain rfl := Option.some.inj h
      omega

/-- Where a `read_record` is, with what is in its buffer. -/
inductive RecordRead
  /-- `read_exact(&mut buf)` of the header. -/
  | header (got : Bytes)
  /-- `read_exact(&mut buf[RECORD_HEADER_LEN..])` of `len` bytes. -/
  | body (front : Bytes) (len : Nat) (got : Bytes)
  | done (buf : Bytes)
  | failed

namespace RecordRead

def start : RecordRead := .header []

/-- The header is complete. -/
def startBody (front : Bytes) : RecordRead :=
  match checkHeader front with
  | none => .failed
  | some len => .body front len []

/-- One poll of the connection. -/
def step (r : RecordRead) (wire : Wire) (a : ReadAnswer) : RecordRead × Wire :=
  match r with
  | .header got =>
      let p := wire.pollRead (recordHeaderLen - got.length) a
      match readExact got p.1 with
      | .failed _ => (.failed, p.2)
      | .got buf => if buf.length < recordHeaderLen then (.header buf, p.2) else (startBody buf, p.2)
  | .body front len got =>
      let p := wire.pollRead (len - got.length) a
      match readExact got p.1 with
      | .failed _ => (.failed, p.2)
      | .got buf =>
          if buf.length < len then (.body front len buf, p.2) else (.done (front ++ buf), p.2)
  | .done buf => (.done buf, wire)
  | .failed => (.failed, wire)

/-- What was read of the record. -/
def held : RecordRead → Bytes
  | .header got => got
  | .body front _ got => front ++ got
  | .done buf => buf
  | .failed => []

/-- It is reading, and the record is not complete. -/
def Ok : RecordRead → Prop
  | .header got => got.length < recordHeaderLen
  | .body _ len got => got.length < len
  | .done _ | .failed => False

theorem start_ok : start.Ok := by simp [start, Ok, recordHeaderLen]

@[simp] theorem held_start : start.held = [] := rfl

/-- **One poll of a `read_record`.**  Unless it fails, all that it has taken is in its buffer. -/
theorem step_spec {r : RecordRead} (hr : r.Ok) (wire : Wire) (a : ReadAnswer) :
    ∃ got, (r.step wire a).2 = wire.advance got.length ∧
      wire.unread = got ++ (r.step wire a).2.unread ∧
      ((r.step wire a).1 = .failed ∨ (r.step wire a).1.held = r.held ++ got ∧
        ((r.step wire a).1.Ok ∨ (r.step wire a).1 = .done (r.held ++ got))) := by
  cases r with
  | header got =>
      have hlt : got.length < recordHeaderLen := hr
      rcases wire.readExact_cases hlt a with ⟨e, heq, hwire, -⟩ | ⟨more, rest, hunread, -, heq, hwire⟩
      · refine ⟨[], ?_⟩
        simp only [step, heq, hwire]
        exact ⟨rfl, rfl, Or.inl trivial⟩
      · have hrest := (Wire.read_advance hunread).2
        refine ⟨more, ?_⟩
        simp only [step, heq, hwire]
        by_cases hpart : (got ++ more).length < recordHeaderLen
        · simp only [if_pos hpart]
          exact ⟨trivial, by rw [hrest, hunread], Or.inr ⟨rfl, Or.inl hpart⟩⟩
        · simp only [if_neg hpart, startBody]
          refine ⟨trivial, by rw [hrest, hunread], ?_⟩
          cases hcheck : checkHeader (got ++ more) with
          | none => exact Or.inl rfl
          | some len =>
              refine Or.inr ⟨?_, Or.inl ?_⟩
              · simp only [held, List.append_nil]
              · exact checkHeader_pos hcheck
  | body front len got =>
      have hlt : got.length < len := hr
      rcases wire.readExact_cases hlt a with ⟨e, heq, hwire, -⟩ | ⟨more, rest, hunread, -, heq, hwire⟩
      · refine ⟨[], ?_⟩
        simp only [step, heq, hwire]
        exact ⟨rfl, rfl, Or.inl trivial⟩
      · have hrest := (Wire.read_advance hunread).2
        refine ⟨more, ?_⟩
        simp only [step, heq, hwire]
        by_cases hpart : (got ++ more).length < len
        · simp only [if_pos hpart]
          refine ⟨trivial, by rw [hrest, hunread], Or.inr ⟨?_, Or.inl hpart⟩⟩
          simp only [held, List.append_assoc]
        · simp only [if_neg hpart]
          refine ⟨trivial, by rw [hrest, hunread], Or.inr ⟨?_, Or.inr ?_⟩⟩
          · simp only [held, List.append_assoc]
          · simp only [held, List.append_assoc]
  | done buf => exact absurd hr (by simp [Ok])
  | failed => exact absurd hr (by simp [Ok])

end RecordRead

end Sni
end Erbridge
