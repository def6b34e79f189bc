import Erbridge.Core.Machine
import Erbridge.Noise.Stream
import Erbridge.Proxy.Pump

/-!
# The copy loop into a Noise stream

A `pump` whose writer is a `NoiseStream`.  `poll_write` answers Ready although the transport has not
taken the whole frame, and the loop goes back to reading without a flush, so the rest of the frame
stays in the stream until there is more to write or the source ends.

* `NoisePump.HandedOver` — while the loop waits for its source, the stream holds nothing unsent.
* `NoisePump.handed_over_iff` — so it is in exactly the runs in which the source is not quiet behind a
  write during which the transport stopped taking bytes.
* `NoisePump.tail_held_back` — a run in which a whole frame is held back.
-/

namespace Erbridge
namespace Proxy

open Erbridge.Core
open Noise (Cipher FrameWriter NoiseStream maxMessage maxPlaintext)

/-- The answers of a transport to a writer that has `n` bytes, up to where it has taken them all; `none`
when it stops before that. -/
def takes : Nat → List WriteAnswer → Option (List WriteAnswer)
  | 0, script => some script
  | n + 1, .upTo k :: script => takes (n - k) script
  | _ + 1, _ => none

/-- A drain ends with nothing unsent when the transport takes all there is. -/
theorem pollDrain_takes {wr : FrameWriter} (hwr : wr.Ok) {wire : Wire} (hlive : wire.ended = false)
    (script : List WriteAnswer) :
    (∃ rest, takes wr.unsent.length script = some rest ∧
      (wr.pollDrain wire script).script = rest ∧
      (wr.pollDrain wire script).answer = .ready (.ok ()) ∧
      (wr.pollDrain wire script).writer.unsent = []) ∨
    (takes wr.unsent.length script = none ∧
      (wr.pollDrain wire script).answer ≠ .ready (.ok ()) ∧
      (wr.pollDrain wire script).writer.unsent ≠ []) := by
  induction script generalizing wr wire with
  | nil =>
      by_cases hpend : wr.isPending = true
      · right
        have hne := hwr.isPending_iff.1 hpend
        have hpos : 0 < wr.unsent.length := List.length_pos_iff.2 hne
        have heq : wr.pollDrain wire [] = ⟨.pending, wr, wire, []⟩ := by
          simp only [FrameWriter.pollDrain, if_pos hpend, hwr.slice_eq]
        rw [heq]
        refine ⟨?_, by simp, hne⟩
        obtain ⟨m, hm⟩ := Nat.exists_eq_succ_of_ne_zero (Nat.ne_of_gt hpos)
        rw [hm, Nat.succ_eq_add_one]
        rfl
      · left
        have hnil : wr.unsent = [] := by simpa [hwr.isPending_iff] using hpend
        rw [FrameWriter.pollDrain_of_not_pending (Bool.eq_false_iff.2 hpend), hnil]
        exact ⟨[], by rw [List.length_nil, takes], rfl, rfl, rfl⟩
  | cons a script ih =>
      by_cases hpend : wr.isPending = true
      case neg =>
        left
        have hnil : wr.unsent = [] := by simpa [hwr.isPending_iff] using hpend
        rw [FrameWriter.pollDrain_of_not_pending (Bool.eq_false_iff.2 hpend), hnil]
        exact ⟨a :: script, by rw [List.length_nil, takes], rfl, rfl, rfl⟩
      have hne := hwr.isPending_iff.1 hpend
      have hpos : 0 < wr.unsent.length := List.length_pos_iff.2 hne
      obtain ⟨m, hm⟩ := Nat.exists_eq_succ_of_ne_zero (Nat.ne_of_gt hpos)
      cases a with
      | upTo k =>
          obtain ⟨hok, hunsent⟩ := hwr.taken k
          have hn : min (k + 1) wr.unsent.length ≠ 0 := by omega
          have hlen : (wr.unsent.drop (k + 1)).length = m - k := by
            rw [List.length_drop]
            omega
          have heq : wr.pollDrain wire (.upTo k :: script) =
              FrameWriter.pollDrain { wr with sent := wr.sent + min (k + 1) wr.unsent.length }
                (wire.push (wr.unsent.take (k + 1))) script := by
            simp only [FrameWriter.pollDrain, if_pos hpend, hwr.slice_eq, Wire.pollWrite, hlive,
              Bool.false_eq_true, if_false, if_neg hn]
          have hrest := ih hok (show (wire.push (wr.unsent.take (k + 1))).ended = false from hlive)
          have htakes : takes wr.unsent.length (.upTo k :: script) = takes (m - k) script := by
            rw [hm, Nat.succ_eq_add_one]
            rfl
          rw [hunsent, hlen] at hrest
          rw [heq, htakes]
          exact hrest
      | zero | pending | fail =>
          right
          refine ⟨by rw [hm, Nat.succ_eq_add_one]; rfl, ?_, ?_⟩
          · simp [FrameWriter.pollDrain, hpend, hwr.slice_eq, Wire.pollWrite]
          · simpa [FrameWriter.pollDrain, hpend, hwr.slice_eq, Wire.pollWrite] using hne

/-- A `pump` into a Noise stream, and the transport under that. -/
structure NoisePump where
  pc : Pump
  counter : Nat
  stream : NoiseStream
  wire : Wire
  /-- History: the transport stopped before it had taken what the last `poll_write` had for it. -/
  backedUp : Bool

namespace NoisePump

/-- The loop over a stream that was just made. -/
def initial : NoisePump where
  pc := .reading
  counter := 0
  stream := NoiseStream.new
  wire := Wire.empty
  backedUp := false

inductive Event
  /-- `r.read(&mut buf)` is polled and answered. -/
  | read (answer : Poll Bytes)
  /-- `w.write_all` polls the stream. -/
  | write (script : List WriteAnswer)
  /-- `w.shutdown` polls the stream. -/
  | shutdown (script : List WriteAnswer)

/-- A reader fills at most the buffer, and does not panic. -/
def readable : Poll Bytes → Bool
  | .ready (.ok bytes) => decide (bytes.length ≤ bufSize)
  | .ready (.error _) | .pending => true
  | .panic => false

/-- The length of the frame for `chunk`: two bytes and the ciphertext. -/
def frameLen (C : Cipher) (st : NoiseStream) (chunk : Bytes) : Nat :=
  2 + ((C.encrypt st.sending chunk).getD []).length

/-- Does the transport stop while a `poll_write(chunk)` hands it the frame before and this one? -/
def stops (C : Cipher) (st : NoiseStream) (chunk : Bytes) (script : List WriteAnswer) : Bool :=
  match takes st.writer.unsent.length script with
  | none => true
  | some rest => (takes (frameLen C st chunk) rest).isNone

def step (C : Cipher) (s : NoisePump) : Event → Option NoisePump
  | .read answer =>
      if s.pc.isReading && readable answer then some { s with pc := Pump.onRead answer }
      else none
  | .write script =>
      match s.pc with
      | .writing rest n =>
          let r := s.stream.pollWrite C rest s.wire script
          let p := Pump.onWrite rest n r.answer
          some
            { pc := p.1
              counter := s.counter + p.2
              stream := r.stream
              wire := r.wire
              backedUp := stops C s.stream rest script }
      | _ => none
  | .shutdown script =>
      match s.pc with
      | .shuttingDown =>
          let r := s.stream.pollShutdown s.wire script
          some { s with pc := Pump.onShutdown r.answer, stream := r.stream, wire := r.wire }
      | _ => none

def machine (C : Cipher) : Machine NoisePump Event where
  step := step C

/-- While the loop waits for its source, all it has written was handed to the transport. -/
def HandedOver (s : NoisePump) : Prop := s.pc = .waiting → s.stream.writer.unsent = []

/-- A write of the loop fails, or it leaves something unsent exactly if the transport stopped. -/
theorem pollWrite_stops (C : Cipher) {st : NoiseStream} (hst : st.Ok) {chunk : Bytes}
    (hchunk : chunk ≠ []) (hlen : chunk.length ≤ maxPlaintext) {wire : Wire}
    (hlive : wire.ended = false) (script : List WriteAnswer) :
    (∃ e, (st.pollWrite C chunk wire script).answer = .ready (.error e)) ∨
    (((st.pollWrite C chunk wire script).answer = .pending ∨
        (st.pollWrite C chunk wire script).answer = .ready (.ok chunk.length)) ∧
      (stops C st chunk script = true ↔
        (st.pollWrite C chunk wire script).stream.writer.unsent ≠ [])) := by
  obtain ⟨pushed, hd⟩ := FrameWriter.pollDrain_spec hst.writer wire script
  have htakes := pollDrain_takes hst.writer hlive script
  simp only [NoiseStream.pollWrite, NoiseStream.drainPending_eq, stops]
  generalize st.writer.pollDrain wire script = d at hd htakes ⊢
  rcases htakes with ⟨rest, htakes, hscript, hanswer, hnone⟩ | ⟨htakes, hanswer, hne⟩
  · -- What was unsent has gone out; now the chunk.
    have hroom : d.writer.buf.length - 2 = maxMessage := by
      rw [hd.ok.length_buf]
      omega
    have hall : chunk.take (min chunk.length maxPlaintext) = chunk := by
      rw [Nat.min_eq_left hlen, List.take_length]
    simp only [hanswer, if_neg hchunk, NoiseStream.pollSeal, hroom, hall, htakes]
    cases hwrite : C.writeMessage st.sending chunk maxMessage with
    | none => exact Or.inl ⟨.invalidData, rfl⟩
    | some message =>
        obtain ⟨hseals, hle⟩ := Cipher.writeMessage_eq_some hwrite
        have henc : C.encrypt st.sending chunk = some message := hseals
        obtain ⟨hok, hunsent⟩ := NoiseStream.framed_spec hd.ok hle
        have hframe : (NoiseStream.framed d.writer message).unsent.length = frameLen C st chunk := by
          rw [hunsent, length_frame, frameLen, henc, Option.getD_some]
        have hlive' : d.wire.ended = false := by
          rw [hd.wire_eq]
          exact hlive
        obtain ⟨more, hd'⟩ := FrameWriter.pollDrain_spec hok d.wire d.script
        have htakes' := pollDrain_takes hok hlive' d.script
        rw [hframe, hscript] at htakes'
        rw [hscript] at hd'
        simp only [hscript]
        generalize (NoiseStream.framed d.writer message).pollDrain d.wire rest = d' at hd' htakes' ⊢
        rcases htakes' with ⟨rest', htakes', -, hanswer', hnone'⟩ | ⟨htakes', hanswer', hne'⟩
        · right
          simp only [hanswer', htakes', hnone']
          exact ⟨Or.inr (by rw [Nat.min_eq_left hlen]), by simp⟩
        · cases hres : d'.answer with
          | ready result =>
              cases result with
              | ok => exact absurd hres hanswer'
              | error e => exact Or.inl ⟨e, rfl⟩
          | pending =>
              right
              simp only [htakes']
              exact ⟨Or.inr (by rw [Nat.min_eq_left hlen]), by simpa using hne'⟩
          | panic => exact absurd hres hd'.no_panic
  · cases hres : d.answer with
    | ready result =>
        cases result with
        | ok => exact absurd hres hanswer
        | error e => exact Or.inl ⟨e, rfl⟩
    | pending =>
        right
        simp only [htakes]
        exact ⟨Or.inl trivial, by simpa using hne⟩
    | panic => exact absurd hres hd.no_panic

/-- The loop has not finished with its writer. -/
def copying : Pump → Bool
  | .reading | .waiting | .writing _ _ => true
  | .shuttingDown | .done | .failed _ => false

/-- The flag tells, between two polls, whether something is unsent. -/
structure Inv (s : NoisePump) : Prop where
  stream : s.stream.Ok
  pc : s.pc.Ok
  rest_le : s.pc.held.length ≤ bufSize
  live : copying s.pc = true → s.wire.ended = false
  backedUp_iff : copying s.pc = true → (s.backedUp = true ↔ s.stream.writer.unsent ≠ [])

theorem inv_initial : Inv initial where
  stream := NoiseStream.new_ok
  pc := trivial
  rest_le := Nat.zero_le _
  live := fun _ => rfl
  backedUp_iff := fun _ => by
    have hnone : initial.stream.writer.unsent = [] := FrameWriter.unsent_default
    rw [hnone]
    simp [initial]

theorem Inv.step_read {s : NoisePump} (h : Inv s) {answer : Poll Bytes}
    (hreading : s.pc.isReading = true) (hanswer : readable answer = true) :
    Inv { s with pc := Pump.onRead answer } := by
  have hcopying : copying s.pc = true := by
    cases hpc : s.pc with
    | reading | waiting => rfl
    | writing | shuttingDown | done | failed => simp [hpc, Pump.isReading] at hreading
  exact {
    stream := h.stream
    pc := Pump.onRead_ok answer
    rest_le := by
      cases answer with
      | pending => exact Nat.zero_le _
      | panic => cases hanswer
      | ready result =>
          cases result with
          | error e => exact Nat.zero_le _
          | ok chunk =>
              cases chunk with
              | nil => exact Nat.zero_le _
              | cons b bytes => exact of_decide_eq_true hanswer
    live := fun _ => h.live hcopying
    backedUp_iff := fun _ => h.backedUp_iff hcopying }

theorem Inv.step_write {C : Cipher} {s : NoisePump} (h : Inv s) {rest : Bytes} {n : Nat}
    (hpc : s.pc = .writing rest n) (script : List WriteAnswer) :
    Inv
      { pc := (Pump.onWrite rest n (s.stream.pollWrite C rest s.wire script).answer).1
        counter := s.counter +
          (Pump.onWrite rest n (s.stream.pollWrite C rest s.wire script).answer).2
        stream := (s.stream.pollWrite C rest s.wire script).stream
        wire := (s.stream.pollWrite C rest s.wire script).wire
        backedUp := stops C s.stream rest script } := by
  have hlive : s.wire.ended = false := h.live (by rw [hpc]; rfl)
  have hrest : rest ≠ [] := by
    have := h.pc
    rwa [hpc] at this
  have hle : rest.length ≤ bufSize := by
    have := h.rest_le
    rwa [hpc] at this
  have hmax : rest.length ≤ maxPlaintext := Nat.le_trans hle (by decide)
  obtain ⟨pushed, log, hr⟩ := NoiseStream.pollWrite_spec C h.stream rest s.wire script
  have hwire : (s.stream.pollWrite C rest s.wire script).wire.ended = false := by
    rw [hr.wire_eq]
    exact hlive
  have hlen : rest.length ≠ 0 := fun hz => hrest (List.length_eq_zero_iff.1 hz)
  rcases pollWrite_stops C h.stream hrest hmax hlive script with ⟨e, he⟩ | ⟨hanswer, hiff⟩
  · rw [he]
    exact {
      stream := hr.ok
      pc := trivial
      rest_le := Nat.zero_le _
      live := fun _ => hwire
      backedUp_iff := fun hc => by cases hc }
  · exact {
      stream := hr.ok
      pc := Pump.onWrite_ok _ _ _
      rest_le := by
        rcases hanswer with he | he
        · obtain ⟨b, more, rfl⟩ := List.exists_cons_of_ne_nil hrest
          rw [he]
          exact hle
        · rw [he]
          simp [Pump.onWrite, writeAll, hlen, Pump.held]
      live := fun _ => hwire
      backedUp_iff := fun _ => hiff }

theorem Inv.step_shutdown {s : NoisePump} (h : Inv s) (script : List WriteAnswer) :
    Inv { s with
      pc := Pump.onShutdown (s.stream.pollShutdown s.wire script).answer
      stream := (s.stream.pollShutdown s.wire script).stream
      wire := (s.stream.pollShutdown s.wire script).wire } := by
  obtain ⟨pushed, hr⟩ := NoiseStream.pollShutdown_spec h.stream s.wire script
  have hdone : ∀ p : Poll Unit, (Pump.onShutdown p).Ok ∧ (Pump.onShutdown p).held = [] ∧
      copying (Pump.onShutdown p) = false := by
    intro p
    match p with
    | .ready _ | .pending | .panic => exact ⟨trivial, rfl, rfl⟩
  obtain ⟨hok, hheld, hstopped⟩ := hdone (s.stream.pollShutdown s.wire script).answer
  exact {
    stream := hr.ok
    pc := hok
    rest_le := by
      simp only [hheld]
      exact Nat.zero_le _
    live := fun hc => by
      simp only [hstopped] at hc
      cases hc
    backedUp_iff := fun hc => by
      simp only [hstopped] at hc
      cases hc }

theorem inv_step {C : Cipher} {s t : NoisePump} {e : Event} (h : Inv s)
    (hstep : step C s e = some t) : Inv t := by
  cases e with
  | read answer =>
      by_cases hok : (s.pc.isReading && readable answer) = true
      · simp only [step, if_pos hok, Option.some.injEq] at hstep
        rw [← hstep]
        rw [Bool.and_eq_true] at hok
        exact h.step_read hok.1 hok.2
      · simp only [step, if_neg hok] at hstep
        cases hstep
  | write script =>
      cases hpc : s.pc with
      | writing rest n =>
          simp only [step, hpc, Option.some.injEq] at hstep
          rw [← hstep]
          exact h.step_write hpc script
      | reading | waiting | shuttingDown | done | failed => simp [step, hpc] at hstep
  | shutdown script =>
      cases hpc : s.pc with
      | shuttingDown =>
          simp only [step, hpc, Option.some.injEq] at hstep
          rw [← hstep]
          exact h.step_shutdown script
      | reading | waiting | writing | done | failed => simp [step, hpc] at hstep

/-- The source is not quiet behind a write during which the transport stopped. -/
def Calm (s : NoisePump) (e : Event) : Prop :=
  s.pc.isReading = true → e = .read .pending → s.backedUp = false

/-- Only a read that was put off leads to waiting. -/
theorem waiting_onRead {answer : Poll Bytes} (hanswer : readable answer = true)
    (hwaiting : Pump.onRead answer = .waiting) : answer = .pending := by
  cases answer with
  | pending => rfl
  | panic => cases hanswer
  | ready result =>
      cases result with
      | error e => cases hwaiting
      | ok chunk =>
          cases chunk with
          | nil => cases hwaiting
          | cons b bytes => cases hwaiting

/-- A step is calm exactly if what it leads to is handed over. -/
theorem calm_iff {C : Cipher} {s : NoisePump} {e : Event} (h : Inv s) :
    Calm s e ↔ ∀ t, step C s e = some t → HandedOver t := by
  cases e with
  | read answer =>
      by_cases hok : (s.pc.isReading && readable answer) = true
      case neg =>
        constructor
        · intro _ t ht
          simp only [step, if_neg hok] at ht
          cases ht
        · intro _ hreading heq
          injection heq with heq
          rw [hreading, heq] at hok
          exact absurd rfl hok
      have hstep : step C s (.read answer) = some { s with pc := Pump.onRead answer } := by
        simp only [step, if_pos hok]
      rw [Bool.and_eq_true] at hok
      have hcopying : copying s.pc = true := by
        cases hpc : s.pc with
        | reading | waiting => rfl
        | writing | shuttingDown | done | failed => simp [hpc, Pump.isReading] at hok
      have hiff := h.backedUp_iff hcopying
      constructor
      · intro hcalm t ht hwaiting
        rw [hstep, Option.some.injEq] at ht
        subst ht
        have hpending : answer = .pending := waiting_onRead hok.2 hwaiting
        have hfalse := hcalm hok.1 (by rw [hpending])
        by_cases hnone : s.stream.writer.unsent = []
        · exact hnone
        · rw [hiff.2 hnone] at hfalse
          cases hfalse
      · intro hall _ heq
        injection heq with heq
        have hover := hall _ hstep (by rw [heq]; rfl)
        by_cases hback : s.backedUp = true
        · exact absurd hover (hiff.1 hback)
        · exact Bool.eq_false_iff.2 hback
  | write script =>
      refine ⟨fun _ t ht hwaiting => ?_, fun _ _ heq => by cases heq⟩
      cases hpc : s.pc with
      | writing rest n =>
          simp only [step, hpc, Option.some.injEq] at ht
          rw [← ht] at hwaiting
          exact absurd hwaiting (Pump.onWrite_ne_waiting _ _ _)
      | reading | waiting | shuttingDown | done | failed => simp [step, hpc] at ht
  | shutdown script =>
      refine ⟨fun _ t ht hwaiting => ?_, fun _ _ heq => by cases heq⟩
      cases hpc : s.pc with
      | shuttingDown =>
          simp only [step, hpc, Option.some.injEq] at ht
          rw [← ht] at hwaiting
          exact absurd hwaiting (Pump.onShutdown_ne_waiting _)
      | reading | waiting | writing | done | failed => simp [step, hpc] at ht

/-- **When the copy loop hands everything over.**  In every state that a run reaches the loop has, while
it waits for its source, nothing unsent in the stream, if and only if in that run the source is never
quiet behind a write during which the transport stopped taking bytes. -/
theorem handed_over_iff (C : Cipher) (es : List Event) :
    (∀ fs t, fs <+: es → (machine C).run initial fs = some t → HandedOver t) ↔
      (machine C).Meets Calm initial es :=
  (machine C).forall_reached_iff Inv (fun hi hstep => inv_step hi hstep)
    (fun hi _ => calm_iff hi) inv_initial (fun h => by cases h)

/-- A write during which the transport takes nothing is answered Ready all the same. -/
theorem pollWrite_put_off {C : Cipher} {st : NoiseStream} (hst : st.Ok)
    (hnone : st.writer.unsent = []) {chunk message : Bytes} (hchunk : chunk ≠ [])
    (hlen : chunk.length ≤ maxPlaintext)
    (hwrite : C.writeMessage st.sending chunk maxMessage = some message) (wire : Wire) :
    st.pollWrite C chunk wire [.pending] =
      ⟨.ready (.ok chunk.length),
        { st with
          sending := st.sending + 1
          writer := NoiseStream.framed st.writer message },
        wire, []⟩ := by
  have hidle : st.writer.isPending = false := by
    rw [← Bool.not_eq_true, hst.writer.isPending_iff, hnone]
    simp
  have hroom : st.writer.buf.length - 2 = maxMessage := by
    rw [hst.writer.length_buf]
    omega
  obtain ⟨hok, hunsent⟩ :=
    NoiseStream.framed_spec hst.writer (Cipher.writeMessage_eq_some hwrite).2
  have hpend : (NoiseStream.framed st.writer message).isPending = true := by
    rw [hok.isPending_iff, hunsent]
    exact frame_ne_nil message
  have hdrain : (NoiseStream.framed st.writer message).pollDrain wire [.pending] =
      ⟨.pending, NoiseStream.framed st.writer message, wire, []⟩ := by
    simp only [FrameWriter.pollDrain, if_pos hpend, hok.slice_eq, Wire.pollWrite]
  simp only [NoiseStream.pollWrite, NoiseStream.drainPending_eq,
    FrameWriter.pollDrain_of_not_pending hidle, if_neg hchunk, NoiseStream.pollSeal, hroom,
    Nat.min_eq_left hlen, List.take_length, hwrite, hdrain]

/-- So the loop counts the chunk as written and reads on. -/
theorem step_put_off {C : Cipher} {s : NoisePump} (hst : s.stream.Ok)
    (hnone : s.stream.writer.unsent = []) {chunk message : Bytes} {n : Nat}
    (hpc : s.pc = .writing chunk n) (hchunk : chunk ≠ []) (hlen : chunk.length ≤ maxPlaintext)
    (hwrite : C.writeMessage s.stream.sending chunk maxMessage = some message) :
    step C s (.write [.pending]) = some
      { pc := .reading
        counter := s.counter + n
        stream :=
          { s.stream with
            sending := s.stream.sending + 1
            writer := NoiseStream.framed s.stream.writer message }
        wire := s.wire
        backedUp := stops C s.stream chunk [.pending] } := by
  have hall : writeAll chunk (.ready (.ok chunk.length)) = .rest [] := by simp [writeAll, hchunk]
  simp only [step, hpc, pollWrite_put_off hst hnone hchunk hlen hwrite, Pump.onWrite, hall]

/-- One byte is read, written and counted, and the source is quiet; the transport took nothing. -/
def tailEvents : List Event := [.read (.ready (.ok [7])), .write [.pending], .read .pending]

/-- The loop waits for its source and holds back the whole frame. -/
theorem tail_held_back : ∃ t, (machine Cipher.plain).run initial tailEvents = some t ∧
    t.pc = .waiting ∧ t.counter = 1 ∧ t.wire.carried = [] ∧ t.stream.writer.unsent.length = 19 ∧
      ¬ HandedOver t := by
  have hnone : NoiseStream.new.writer.unsent = [] := FrameWriter.unsent_default
  have hwrite : Cipher.plain.writeMessage 0 [7] maxMessage = some ([7] ++ List.replicate 16 0) := by
    decide +kernel
  have hunsent := (NoiseStream.framed_spec NoiseStream.new_ok.writer
    (Cipher.writeMessage_eq_some hwrite).2).2
  have hread : step Cipher.plain initial (.read (.ready (.ok [7]))) =
      some { initial with pc := .writing [7] 1 } := rfl
  have hsent := step_put_off (s := { initial with pc := .writing [7] 1 }) NoiseStream.new_ok hnone rfl
    (List.cons_ne_nil 7 []) (by decide) hwrite
  have hlen : (NoiseStream.framed NoiseStream.new.writer
      ([7] ++ List.replicate 16 0)).unsent.length = 19 := by
    rw [hunsent]
    rfl
  refine ⟨_, (machine _).run_cons_iff.2 ⟨_, hread, (machine _).run_cons_iff.2 ⟨_, hsent, rfl⟩⟩,
    rfl, rfl, rfl, hlen, fun h => ?_⟩
  have hnil : (NoiseStream.framed NoiseStream.new.writer ([7] ++ List.replicate 16 0)).unsent = [] :=
    h rfl
  rw [hnil] at hlen
  cases hlen

end NoisePump

end Proxy
end Erbridge
