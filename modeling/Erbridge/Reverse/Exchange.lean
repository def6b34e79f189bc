import Erbridge.Core.Machine
import Erbridge.Reverse.Frame

/-!
# One frame from a writer to a reader

A `write_frame` at one end of a transport and a `read_frame` at the other, poll by poll in any order.
The writer takes bodies of up to 65535 bytes, the reader of up to its own limit.

* `Exchange.Accepted` — the reader does not refuse the frame, and returns what was written.
* `Exchange.accepted_iff` — so it is when the body is within the reader's limit, or so long that the
  writer refuses it.
-/

namespace Erbridge
namespace Reverse

open Erbridge.Core

/-- The two ends and what is under way. -/
structure Exchange where
  writer : FrameWrite
  reader : FrameRead
  wire : Wire

namespace Exchange

def start (data : Bytes) : Exchange where
  writer := FrameWrite.start data
  reader := FrameRead.start
  wire := Wire.empty

inductive Event
  | write (a : WriteAnswer)
  | read (a : ReadAnswer)
deriving DecidableEq

def step (limit : Nat) (x : Exchange) : Event → Option Exchange
  | .write a =>
      let p := x.writer.step x.wire a
      some { x with writer := p.1, wire := p.2 }
  | .read a =>
      let p := x.reader.step limit x.wire a
      some { x with reader := p.1, wire := p.2 }

/-- A run is an interleaving of the polls of the two ends. -/
def machine (limit : Nat) : Machine Exchange Event where
  step := step limit

/-- The `read_frame` takes what the `write_frame` wrote. -/
structure Accepted (limit : Nat) (data : Bytes) : Prop where
  fits : ∀ es x, (machine limit).run (start data) es = some x → x.reader ≠ .failed .invalidData
  returned : ∀ es x got, (machine limit).run (start data) es = some x → x.reader = .done got →
    got = data
  complete : ∀ es x, (machine limit).run (start data) es = some x → x.writer = .done →
    x.wire.unread = [] → (∀ e, x.reader ≠ .failed e) → x.reader = .done data

/-- What is known of the reader of a stream that starts with `sent`. -/
def ReaderOk (limit : Nat) (sent : Bytes) (wire : Wire) : FrameRead → Prop
  | .done got => got.length < 65536 ∧ frame got <+: sent
  | .failed e => e ≠ .invalidData
  | r => r.Ok limit ∧ r.held = wire.read ∧ wire.taken ≤ wire.carried.length

/-- What is known when all that is ever written is a part of `sent`. -/
structure Inv (limit : Nat) (sent : Bytes) (x : Exchange) : Prop where
  writer : (∃ e, x.writer = .failed e)
    ∨ x.writer.Ok ∧ x.wire.carried ++ x.writer.unsent = sent
  carried : x.wire.carried <+: sent
  reader : ReaderOk limit sent x.wire x.reader

variable {limit : Nat} {sent : Bytes} {x x' : Exchange}

theorem readerOk_of_ok {wire : Wire} {r : FrameRead} (hr : r.Ok limit) (hheld : r.held = wire.read)
    (htaken : wire.taken ≤ wire.carried.length) : ReaderOk limit sent wire r := by
  cases r with
  | header got => exact ⟨hr, hheld, htaken⟩
  | body len got => exact ⟨hr, hheld, htaken⟩
  | done data => exact absurd hr (by simp [FrameRead.Ok])
  | failed e => exact absurd hr (by simp [FrameRead.Ok])

/-- Writing more does not touch what was read. -/
theorem ReaderOk.push {wire : Wire} {r : FrameRead} (hr : ReaderOk limit sent wire r)
    (pushed : Bytes) : ReaderOk limit sent (wire.push pushed) r := by
  have hgoing : r.Ok limit → r.held = wire.read → wire.taken ≤ wire.carried.length →
      ReaderOk limit sent (wire.push pushed) r := by
    intro hok hheld htaken
    refine readerOk_of_ok hok (by rw [Wire.read_push htaken, hheld]) ?_
    simp only [Wire.taken_push, Wire.carried_push, List.length_append]
    omega
  cases r with
  | done got => exact hr
  | failed e => exact hr
  | header got => exact hgoing hr.1 hr.2.1 hr.2.2
  | body len got => exact hgoing hr.1 hr.2.1 hr.2.2

theorem inv_write (hi : Inv limit sent x) (a : WriteAnswer) :
    Inv limit sent
      { x with writer := (x.writer.step x.wire a).1, wire := (x.writer.step x.wire a).2 } := by
  rcases hi.writer with ⟨e, hfailed⟩ | ⟨hok, hsent⟩
  · rw [hfailed]
    exact ⟨Or.inl ⟨e, rfl⟩, hi.carried, hi.reader⟩
  · rcases FrameWrite.step_cases hok x.wire a with ⟨e, heq, -⟩ | ⟨g, pushed, heq, hg, hunsent, -⟩
    · rw [heq]
      exact ⟨Or.inl ⟨e, rfl⟩, hi.carried, hi.reader⟩
    · rw [hunsent, ← List.append_assoc] at hsent
      rw [heq]
      exact ⟨Or.inr ⟨hg, hsent⟩, ⟨_, hsent⟩, hi.reader.push pushed⟩

/-- The reader stays within its limit, when what starts the stream does. -/
theorem inv_read (hlimit : ∀ header rest : Bytes, header.length = 2 → header ++ rest = sent →
    u16 header ≤ limit) (hi : Inv limit sent x) (a : ReadAnswer) :
    Inv limit sent
      { x with
        reader := (x.reader.step limit x.wire a).1
        wire := (x.reader.step limit x.wire a).2 } := by
  have hgoing : x.reader.Ok limit → x.reader.held = x.wire.read →
      x.wire.taken ≤ x.wire.carried.length → Inv limit sent
        { x with
          reader := (x.reader.step limit x.wire a).1
          wire := (x.reader.step limit x.wire a).2 } := by
    intro hok hheld htaken
    obtain ⟨got, hwire, hunread, hout⟩ := FrameRead.step_spec hok x.wire a
    rw [hwire] at hunread
    obtain ⟨hread, -⟩ := Wire.read_advance hunread
    rw [← hheld] at hread
    have hprefix : x.reader.held ++ got <+: sent := by
      rw [← hread]
      exact (List.take_prefix _ _).trans hi.carried
    refine ⟨?_, ?_, ?_⟩
    · rw [hwire]
      exact hi.writer
    · rw [hwire]
      exact hi.carried
    · rw [hwire]
      generalize (x.reader.step limit x.wire a).1 = r at hout
      cases hout with
      | going hok' hheld' =>
          exact readerOk_of_ok hok' (hheld'.trans hread.symm) (Wire.taken_advance_le hunread htaken)
      | @done data hle hlt hframe => exact ⟨hlt, hframe ▸ hprefix⟩
      | tooLarge htwo hlarge =>
          obtain ⟨rest, hrest⟩ := hprefix
          exact absurd (hlimit _ rest htwo hrest) (Nat.not_le_of_lt hlarge)
      | eof => simp [ReaderOk]
      | error => simp [ReaderOk]
  have hreader := hi.reader
  cases hr : x.reader with
  | header got =>
      rw [hr] at hreader hgoing
      exact hgoing hreader.1 hreader.2.1 hreader.2.2
  | body len got =>
      rw [hr] at hreader hgoing
      exact hgoing hreader.1 hreader.2.1 hreader.2.2
  | done data =>
      rw [hr] at hreader
      exact ⟨hi.writer, hi.carried, hreader⟩
  | failed e =>
      rw [hr] at hreader
      exact ⟨hi.writer, hi.carried, hreader⟩

theorem inv_run {data : Bytes} (hstart : Inv limit sent (start data))
    (hlimit : ∀ header rest : Bytes, header.length = 2 → header ++ rest = sent → u16 header ≤ limit)
    {es : List Event} (hrun : (machine limit).run (start data) es = some x) : Inv limit sent x := by
  refine (machine limit).run_invariant (Inv limit sent) ?_ hstart hrun
  intro y e z hi hstep
  cases e with
  | write a =>
      cases hstep
      exact inv_write hi a
  | read a =>
      cases hstep
      exact inv_read hlimit hi a

theorem inv_start {data : Bytes} (h : data.length < 65536) :
    Inv limit (frame data) (start data) where
  writer := Or.inr ⟨FrameWrite.start_ok h, FrameWrite.unsent_start h⟩
  carried := List.nil_prefix
  reader := readerOk_of_ok (FrameRead.start_ok limit) rfl (Nat.le_refl 0)

/-- A writer that refuses its body sends nothing. -/
theorem inv_start_refused {data : Bytes} (h : ¬ data.length < 65536) :
    Inv limit [] (start data) where
  writer := Or.inl ⟨.invalidInput, by simp [start, FrameWrite.start, h]⟩
  carried := List.nil_prefix
  reader := readerOk_of_ok (FrameRead.start_ok limit) rfl (Nat.le_refl 0)

theorem reader_ne_invalidData (hi : Inv limit sent x) : x.reader ≠ .failed .invalidData := by
  intro hr
  have hreader := hi.reader
  rw [hr] at hreader
  exact hreader rfl

/-- What fits the reader gets through whole. -/
theorem accepted_of_le {data : Bytes} (hlt : data.length < 65536) (hle : data.length ≤ limit) :
    Accepted limit data := by
  have hinv : ∀ {es x}, (machine limit).run (start data) es = some x → Inv limit (frame data) x := by
    intro es x hrun
    refine inv_run (inv_start hlt) (fun header rest htwo heq => ?_) hrun
    have hlen : u16 header = data.length := by
      rw [← u16_append (b := rest) (Nat.le_of_eq htwo.symm), heq]
      simpa using (u16_frame hlt : u16 (frame data ++ []) = data.length)
    omega
  have hsame : ∀ {got : Bytes}, got.length < 65536 → frame got <+: frame data → got = data := by
    rintro got hgot ⟨rest, hrest⟩
    exact (frame_append_inj hgot hlt (hrest.trans (List.append_nil _).symm)).1
  refine ⟨fun es x hrun => reader_ne_invalidData (hinv hrun), fun es x got hrun hr => ?_, ?_⟩
  · have hreader := (hinv hrun).reader
    rw [hr] at hreader
    exact hsame hreader.1 hreader.2
  · intro es x hrun hdone hunread hfailed
    have hi := hinv hrun
    have hcarried : x.wire.carried = frame data := by
      rcases hi.writer with ⟨e, he⟩ | ⟨-, hsent⟩
      · rw [hdone] at he
        cases he
      · rw [hdone] at hsent
        simpa [FrameWrite.unsent] using hsent
    have hread : x.wire.read = frame data := by
      have hboth := x.wire.read_append_unread
      rwa [hunread, List.append_nil, hcarried] at hboth
    -- A reader that is still reading would have an incomplete frame.
    have hstuck : x.reader.Ok limit → x.reader.held = x.wire.read → False := by
      intro hok hheld
      have hincomplete := hok.incomplete_held
      rw [hheld, hread] at hincomplete
      have hwhole : ¬Incomplete (frame data ++ []) := not_incomplete_frame hlt
      exact hwhole (by simpa using hincomplete)
    have hreader := hi.reader
    cases hr : x.reader with
    | done got =>
        rw [hr] at hreader
        rw [hsame hreader.1 hreader.2]
    | failed e => exact absurd hr (hfailed e)
    | header got =>
        rw [hr] at hreader hstuck
        exact (hstuck hreader.1 hreader.2.1).elim
    | body len got =>
        rw [hr] at hreader hstuck
        exact (hstuck hreader.1 hreader.2.1).elim

theorem accepted_of_refused {data : Bytes} (h : ¬ data.length < 65536) : Accepted limit data := by
  have hinv : ∀ {es x}, (machine limit).run (start data) es = some x → Inv limit [] x := by
    intro es x hrun
    refine inv_run (inv_start_refused h) (fun header rest htwo heq => ?_) hrun
    obtain rfl : header = [] := (List.append_eq_nil_iff.1 heq).1
    cases htwo
  refine ⟨fun es x hrun => reader_ne_invalidData (hinv hrun), fun es x got hrun hr => ?_, ?_⟩
  · have hreader := (hinv hrun).reader
    rw [hr] at hreader
    exact absurd (List.prefix_nil.1 hreader.2) (frame_ne_nil got)
  · intro es x hrun hdone
    have hfailed : ∃ e, x.writer = .failed e := by
      refine (machine limit).run_invariant (fun x => ∃ e, x.writer = .failed e) ?_
        ⟨.invalidInput, by simp [start, FrameWrite.start, h]⟩ hrun
      rintro y e z ⟨err, herr⟩ hstep
      cases e with
      | write a =>
          cases hstep
          exact ⟨err, by rw [herr]; rfl⟩
      | read a =>
          cases hstep
          exact ⟨err, herr⟩
    obtain ⟨e, he⟩ := hfailed
    rw [hdone] at he
    cases he

/-- The reader refuses a longer frame as soon as it has the length. -/
theorem not_accepted_of_lt {data : Bytes} (hlt : data.length < 65536) (hlong : limit < data.length) :
    ¬ Accepted limit data := by
  intro haccepted
  have hwrite : (FrameWrite.start data).step Wire.empty (.upTo 1)
      = (FrameWrite.startData data, Wire.empty.push (be16 data.length)) := by
    simp [FrameWrite.start, hlt, FrameWrite.step, Wire.pollWrite, Wire.empty, writeAll, be16]
  have hread : FrameRead.start.step limit (Wire.empty.push (be16 data.length)) (.upTo 1)
      = (.failed .invalidData, (Wire.empty.push (be16 data.length)).advance 2) := by
    have hunread : (Wire.empty.push (be16 data.length)).unread = be16 data.length := rfl
    have hlong' : limit < u16 (be16 data.length) := by rwa [u16_be16 hlt]
    simp only [FrameRead.step, FrameRead.start, Wire.pollRead, hunread]
    simp only [be16] at hlong' ⊢
    simp [readExact, FrameRead.startBody, hlong']
  have hrun : (machine limit).run (start data) [.write (.upTo 1), .read (.upTo 1)]
      = some ⟨FrameWrite.startData data, .failed .invalidData,
        (Wire.empty.push (be16 data.length)).advance 2⟩ := by
    refine (machine limit).run_cons_iff.2 ⟨⟨FrameWrite.startData data, FrameRead.start,
      Wire.empty.push (be16 data.length)⟩, ?_, (machine limit).run_cons_iff.2 ⟨_, ?_, rfl⟩⟩
    · simp only [machine, step, start, hwrite]
    · simp only [machine, step, hread]
  exact haccepted.fits _ _ hrun rfl

/-- **When a frame gets through.** -/
theorem accepted_iff {data : Bytes} :
    Accepted limit data ↔ data.length ≤ limit ∨ 65535 < data.length := by
  by_cases hlt : data.length < 65536
  · by_cases hle : data.length ≤ limit
    · exact ⟨fun _ => Or.inl hle, fun _ => accepted_of_le hlt hle⟩
    · refine ⟨fun h => absurd h (not_accepted_of_lt hlt (Nat.lt_of_not_le hle)), ?_⟩
      rintro (h | h) <;> omega
  · exact ⟨fun _ => Or.inr (by omega), fun _ => accepted_of_refused hlt⟩

end Exchange

end Reverse
end Erbridge
