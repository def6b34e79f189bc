import Erbridge.Core.Bytes

/-!
# Ordered byte transports that are polled

A `Wire` is one direction of a reliable ordered byte transport: what was put into it comes out in
order, and it can end.  How much of an offered buffer one poll takes, whether it answers Pending and
whether it fails is the transport's choice: each poll is given an *answer*, and a function that polls
more than once is given a script of them.  Where the script stops, the transport answers Pending.

* `Wire.pollRead`, `Wire.pollWrite` — one poll.
* `writeAll`, `readExact` — a round of `write_all` and one of `read_exact`.
* `fill` — the loop that reads until a part of a buffer is full; `fill_spec` says all it can do.
-/

namespace Erbridge
namespace Core

/-- The kinds of `io::Error` that the modelled code makes or passes on. -/
inductive IoError
  | unexpectedEof
  | writeZero
  | invalidData
  | invalidInput
  /-- An error that the transport reported. -/
  | transport
deriving DecidableEq, Repr

/-- What a poll function returns; `panic` is an index out of range. -/
inductive Poll (α : Type)
  | ready (result : Except IoError α)
  | pending
  | panic

/-- How the transport answers one `poll_read`. -/
inductive ReadAnswer
  /-- With what is there, at most `n + 1` bytes. -/
  | upTo (n : Nat)
  | pending
  | fail
deriving DecidableEq, Repr

/-- How the transport answers one `poll_write`, `poll_flush` or `poll_shutdown`. -/
inductive WriteAnswer
  /-- It takes what it is offered, at most `n + 1` bytes. -/
  | upTo (n : Nat)
  | zero
  | pending
  | fail
deriving DecidableEq, Repr

/-- One direction of a transport. -/
structure Wire where
  /-- All that was ever written into it. -/
  carried : Bytes
  /-- How much of that was read out. -/
  taken : Nat
  /-- Nothing will be written any more. -/
  ended : Bool

namespace Wire

/-- A new connection. -/
def empty : Wire where
  carried := []
  taken := 0
  ended := false

/-- What is still to be read. -/
def unread (w : Wire) : Bytes := w.carried.drop w.taken

/-- What has been read. -/
def read (w : Wire) : Bytes := w.carried.take w.taken

/-- The wire after `n` more bytes were read. -/
def advance (w : Wire) (n : Nat) : Wire := { w with taken := w.taken + n }

/-- The wire after `bytes` were written. -/
def push (w : Wire) (bytes : Bytes) : Wire := { w with carried := w.carried ++ bytes }

@[simp] theorem carried_advance (w : Wire) (n : Nat) : (w.advance n).carried = w.carried := rfl

@[simp] theorem ended_advance (w : Wire) (n : Nat) : (w.advance n).ended = w.ended := rfl

@[simp] theorem taken_push (w : Wire) (bytes : Bytes) : (w.push bytes).taken = w.taken := rfl

@[simp] theorem ended_push (w : Wire) (bytes : Bytes) : (w.push bytes).ended = w.ended := rfl

@[simp] theorem carried_push (w : Wire) (bytes : Bytes) :
    (w.push bytes).carried = w.carried ++ bytes := rfl

@[simp] theorem advance_zero (w : Wire) : w.advance 0 = w := rfl

@[simp] theorem advance_advance (w : Wire) (m n : Nat) :
    (w.advance m).advance n = w.advance (m + n) := by
  simp [advance, Nat.add_assoc]

@[simp] theorem push_nil (w : Wire) : w.push [] = w := by
  simp [push]

@[simp] theorem push_push (w : Wire) (a b : Bytes) : (w.push a).push b = w.push (a ++ b) := by
  simp [push]

theorem read_append_unread (w : Wire) : w.read ++ w.unread = w.carried :=
  List.take_append_drop _ _

/-- The bytes that a read takes off the unread ones are appended to the read ones. -/
theorem read_advance {w : Wire} {got rest : Bytes} (h : w.unread = got ++ rest) :
    (w.advance got.length).read = w.read ++ got ∧ (w.advance got.length).unread = rest := by
  have hcarried : w.carried = w.read ++ (got ++ rest) := by rw [← h, read_append_unread]
  have hread : w.read.length = min w.taken w.carried.length := List.length_take
  cases got with
  | nil => exact ⟨by simp, by simpa using h⟩
  | cons x got =>
      -- Something is unread, so `taken` is within what was carried.
      have hlt : w.taken ≤ w.carried.length := by
        rcases Nat.le_total w.taken w.carried.length with hle | hge
        · exact hle
        · rw [unread, List.drop_eq_nil_of_le hge] at h
          cases h
      have htaken : w.read.length = w.taken := by omega
      have hsplit : w.carried = (w.read ++ (x :: got)) ++ rest := by
        rw [hcarried, List.append_assoc]
      have hlen : (w.advance (x :: got).length).taken = (w.read ++ (x :: got)).length := by
        simp only [advance, List.length_append, htaken]
      constructor
      · show w.carried.take _ = _
        rw [hlen, hsplit, List.take_left]
      · show w.carried.drop _ = _
        rw [hlen, hsplit, List.drop_left]

/-- What is read stays read when more is written, once all that `taken` counts was there. -/
theorem read_push {w : Wire} {bytes : Bytes} (h : w.taken ≤ w.carried.length) :
    (w.push bytes).read = w.read := by
  simp only [read, push]
  exact List.take_append_of_le_length h

/-- What is unread stays there when more is written. -/
theorem unread_push {w : Wire} {bytes : Bytes} (h : w.taken ≤ w.carried.length) :
    (w.push bytes).unread = w.unread ++ bytes := by
  simp only [unread, push]
  exact List.drop_append_of_le_length h

/-- One `poll_read` with `room` bytes left in the caller's buffer. -/
def pollRead (w : Wire) (room : Nat) : ReadAnswer → Poll Bytes × Wire
  | .upTo n =>
      if w.unread = [] ∧ w.ended = false then (.pending, w)
      else (.ready (.ok (w.unread.take (min (n + 1) room))),
        w.advance (w.unread.take (min (n + 1) room)).length)
  | .pending => (.pending, w)
  | .fail => (.ready (.error .transport), w)

/-- One `poll_write` of `buf`; there is no writing into a transport that has ended. -/
def pollWrite (w : Wire) (buf : Bytes) : WriteAnswer → Poll Nat × Wire
  | .upTo n =>
      if w.ended then (.ready (.error .transport), w)
      else (.ready (.ok (min (n + 1) buf.length)), w.push (buf.take (n + 1)))
  | .zero => (.ready (.ok 0), w)
  | .pending => (.pending, w)
  | .fail => (.ready (.error .transport), w)

/-- One `poll_flush`: there is nothing to do, but it can take its time. -/
def pollFlush (w : Wire) : WriteAnswer → Poll Unit × Wire
  | .fail => (.ready (.error .transport), w)
  | .pending => (.pending, w)
  | _ => (.ready (.ok ()), w)

/-- One `poll_shutdown`: the writing side ends. -/
def pollShutdown (w : Wire) : WriteAnswer → Poll Unit × Wire
  | .fail => (.ready (.error .transport), w)
  | .pending => (.pending, w)
  | _ => (.ready (.ok ()), { w with ended := true })

/-- What a `poll_read` of at least one byte can do. -/
theorem pollRead_cases (w : Wire) {room : Nat} (a : ReadAnswer) (hroom : 0 < room) :
    (w.pollRead room a = (.pending, w)) ∨
    (a = .fail ∧ w.pollRead room a = (.ready (.error .transport), w)) ∨
    (w.unread = [] ∧ w.ended = true ∧ w.pollRead room a = (.ready (.ok []), w)) ∨
    (∃ got rest, got ≠ [] ∧ w.unread = got ++ rest ∧ got.length ≤ room ∧
      w.pollRead room a = (.ready (.ok got), w.advance got.length)) := by
  cases a with
  | pending => exact Or.inl rfl
  | fail => exact Or.inr (Or.inl ⟨rfl, rfl⟩)
  | upTo n =>
      by_cases hdry : w.unread = [] ∧ w.ended = false
      · exact Or.inl (by simp [pollRead, hdry])
      rw [pollRead, if_neg hdry]
      by_cases hnil : w.unread = []
      · have hended : w.ended = true := by
          cases h : w.ended
          · exact absurd ⟨hnil, h⟩ hdry
          · rfl
        exact Or.inr (Or.inr (Or.inl ⟨hnil, hended, by simp [hnil]⟩))
      · have hlen : 0 < w.unread.length := List.length_pos_iff.2 hnil
        refine Or.inr (Or.inr (Or.inr ⟨_, w.unread.drop (min (n + 1) room), ?_,
          (List.take_append_drop _ _).symm, ?_, rfl⟩))
        · intro h
          have := congrArg List.length h
          simp only [List.length_take, List.length_nil] at this
          omega
        · rw [List.length_take]
          omega

/-- What a `poll_write` can do; it takes a front of what it is offered. -/
theorem pollWrite_cases (w : Wire) (buf : Bytes) (a : WriteAnswer) :
    (w.pollWrite buf a = (.pending, w)) ∨
    ((a = .fail ∨ w.ended = true) ∧ w.pollWrite buf a = (.ready (.error .transport), w)) ∨
    (a = .zero ∧ w.pollWrite buf a = (.ready (.ok 0), w)) ∨
    (∃ n, a = .upTo n ∧ w.ended = false ∧
      w.pollWrite buf a = (.ready (.ok (min (n + 1) buf.length)), w.push (buf.take (n + 1)))) := by
  cases a with
  | pending => exact Or.inl rfl
  | fail => exact Or.inr (Or.inl ⟨Or.inl rfl, rfl⟩)
  | zero => exact Or.inr (Or.inr (Or.inl ⟨rfl, rfl⟩))
  | upTo n =>
      cases h : w.ended with
      | true => exact Or.inr (Or.inl ⟨Or.inr rfl, by simp [pollWrite, h]⟩)
      | false => exact Or.inr (Or.inr (Or.inr ⟨n, rfl, rfl, by simp [pollWrite, h]⟩))

/-- A poll takes a front of what is unread. -/
theorem pollRead_advances (w : Wire) {room : Nat} (a : ReadAnswer) (hroom : 0 < room) :
    ∃ got rest, w.unread = got ++ rest ∧ (w.pollRead room a).2 = w.advance got.length := by
  rcases w.pollRead_cases a hroom with heq | ⟨-, heq⟩ | ⟨-, -, heq⟩ | ⟨got, rest, -, hunread, -, heq⟩
  · exact ⟨[], w.unread, rfl, by rw [heq]; rfl⟩
  · exact ⟨[], w.unread, rfl, by rw [heq]; rfl⟩
  · exact ⟨[], w.unread, rfl, by rw [heq]; rfl⟩
  · exact ⟨got, rest, hunread, by rw [heq]⟩

/-- A poll puts something in only as long as the transport has not ended. -/
theorem pollWrite_pushes (w : Wire) (buf : Bytes) (a : WriteAnswer) :
    ∃ pushed, (w.pollWrite buf a).2 = w.push pushed ∧ (pushed ≠ [] → w.ended = false) := by
  rcases w.pollWrite_cases buf a with heq | ⟨-, heq⟩ | ⟨-, heq⟩ | ⟨n, -, hended, heq⟩
  · exact ⟨[], by rw [heq, push_nil], fun h => absurd rfl h⟩
  · exact ⟨[], by rw [heq, push_nil], fun h => absurd rfl h⟩
  · exact ⟨[], by rw [heq, push_nil], fun h => absurd rfl h⟩
  · exact ⟨_, by rw [heq], fun _ => hended⟩

theorem pollShutdown_snd (w : Wire) (a : WriteAnswer) :
    (w.pollShutdown a).2 = w ∨ (w.pollShutdown a).2 = { w with ended := true } := by
  cases a with
  | fail | pending => exact Or.inl rfl
  | upTo n | zero => exact Or.inr rfl

/-- All that `taken` counts was there, also after a front of what is unread was read. -/
theorem taken_advance_le {w : Wire} {got rest : Bytes} (h : w.unread = got ++ rest)
    (hle : w.taken ≤ w.carried.length) : (w.advance got.length).taken ≤ w.carried.length := by
  have hlen := congrArg List.length h
  rw [unread, List.length_drop, List.length_append] at hlen
  show w.taken + got.length ≤ w.carried.length
  omega

end Wire

/-! ## Writing all of a buffer -/

/-- What one poll leaves of a `write_all`: what is still to be written, nothing when it is done. -/
inductive Writing
  | rest (bytes : Bytes)
  | failed (e : IoError)

/-- One round of `write_all(rest)` with what `poll_write` answered. -/
def writeAll (rest : Bytes) : Poll Nat → Writing
  | .ready (.ok n) => if n = 0 then .failed .writeZero else .rest (rest.drop n)
  | .ready (.error e) => .failed e
  | .pending | .panic => .rest rest

/-- A round of `write_all` on a transport hands over a front of what was to be written. -/
theorem Wire.writeAll_cases (w : Wire) (buf : Bytes) (a : WriteAnswer) :
    (∃ e, writeAll buf (w.pollWrite buf a).1 = .failed e ∧ (w.pollWrite buf a).2 = w ∧
      (w.ended = true ∨ a = .zero ∨ a = .fail ∨ buf = [])) ∨
    (∃ pushed rest, buf = pushed ++ rest ∧ writeAll buf (w.pollWrite buf a).1 = .rest rest ∧
      (w.pollWrite buf a).2 = w.push pushed ∧ (pushed ≠ [] → w.ended = false)) := by
  rcases w.pollWrite_cases buf a with heq | ⟨hcause, heq⟩ | ⟨ha, heq⟩ | ⟨n, ha, hended, heq⟩
  · right
    rw [heq]
    exact ⟨[], buf, rfl, rfl, (w.push_nil).symm, fun h => absurd rfl h⟩
  · left
    rw [heq]
    refine ⟨.transport, rfl, rfl, ?_⟩
    rcases hcause with ha | hended
    · exact Or.inr (Or.inr (Or.inl ha))
    · exact Or.inl hended
  · left
    rw [heq]
    exact ⟨.writeZero, by simp [writeAll], rfl, Or.inr (Or.inl ha)⟩
  · rw [heq]
    by_cases hnil : buf = []
    · left
      have hpush : w.push (buf.take (n + 1)) = w := by simp [hnil]
      exact ⟨.writeZero, by simp [writeAll, hnil], hpush, Or.inr (Or.inr (Or.inr hnil))⟩
    · right
      have hpos : 0 < buf.length := List.length_pos_iff.2 hnil
      have hn : min (n + 1) buf.length ≠ 0 := by omega
      refine ⟨buf.take (n + 1), buf.drop (n + 1), (List.take_append_drop _ _).symm, ?_, rfl,
        fun _ => hended⟩
      simp only [writeAll, if_neg hn]
      by_cases hle : n + 1 ≤ buf.length
      · rw [Nat.min_eq_left hle]
      · rw [List.drop_eq_nil_of_le (by omega), List.drop_eq_nil_of_le (by omega)]

/-! ## Reading a fixed number of bytes -/

/-- What one poll leaves of a `read_exact`: what it has so far. -/
inductive Reading
  | got (bytes : Bytes)
  | failed (e : IoError)

/-- One round of `read_exact` that has `got`, with what `poll_read` answered. -/
def readExact (got : Bytes) : Poll Bytes → Reading
  | .ready (.ok []) => .failed .unexpectedEof
  | .ready (.ok (b :: more)) => .got (got ++ b :: more)
  | .ready (.error e) => .failed e
  | .pending | .panic => .got got

/-- A round of `read_exact` on a transport takes a front of what is unread, and not too much. -/
theorem Wire.readExact_cases (w : Wire) {len : Nat} {got : Bytes} (hlt : got.length < len)
    (a : ReadAnswer) :
    (∃ e, readExact got (w.pollRead (len - got.length) a).1 = .failed e ∧
      (w.pollRead (len - got.length) a).2 = w ∧
      ((e = .unexpectedEof ∧ w.unread = [] ∧ w.ended = true) ∨ (e = .transport ∧ a = .fail))) ∨
    (∃ more rest, w.unread = more ++ rest ∧ (got ++ more).length ≤ len ∧
      readExact got (w.pollRead (len - got.length) a).1 = .got (got ++ more) ∧
      (w.pollRead (len - got.length) a).2 = w.advance more.length) := by
  have hroom : 0 < len - got.length := by omega
  rcases w.pollRead_cases a hroom with
    heq | ⟨ha, heq⟩ | ⟨hunread, hended, heq⟩ | ⟨more, rest, hmore, hunread, hle, heq⟩
  · right
    rw [heq]
    refine ⟨[], w.unread, rfl, ?_, by simp [readExact], rfl⟩
    rw [List.append_nil]
    omega
  · left
    rw [heq]
    exact ⟨.transport, rfl, rfl, Or.inr ⟨rfl, ha⟩⟩
  · left
    rw [heq]
    exact ⟨.unexpectedEof, rfl, rfl, Or.inl ⟨rfl, hunread, hended⟩⟩
  · right
    rw [heq]
    obtain ⟨b, more, rfl⟩ := List.exists_cons_of_ne_nil hmore
    refine ⟨b :: more, rest, hunread, ?_, rfl, rfl⟩
    rw [List.length_append]
    omega

/-! ## Filling a buffer -/

/-- How a read loop stopped. -/
inductive Stop
  | full
  | eof
  | error (e : IoError)
  | pending
  | panic
deriving DecidableEq

/-- The buffer, the wire and the rest of the script after a read loop. -/
structure Fill where
  stop : Stop
  buf : Bytes
  filled : Nat
  wire : Wire
  script : List ReadAnswer

/-- `while filled < len { inner.poll_read(&mut buf[filled..len]) }`, stopping at an empty read. -/
def fill (len : Nat) (buf : Bytes) (filled : Nat) (wire : Wire) : List ReadAnswer → Fill
  | [] =>
      if filled < len then
        if len ≤ buf.length then ⟨.pending, buf, filled, wire, []⟩
        else ⟨.panic, buf, filled, wire, []⟩
      else ⟨.full, buf, filled, wire, []⟩
  | a :: script =>
      if filled < len then
        if len ≤ buf.length then
          match wire.pollRead (len - filled) a with
          | (.ready (.ok got), wire') =>
              if got = [] then ⟨.eof, buf, filled, wire', script⟩
              else fill len (splice buf filled got) (filled + got.length) wire' script
          | (.ready (.error e), wire') => ⟨.error e, buf, filled, wire', script⟩
          | (.pending, wire') => ⟨.pending, buf, filled, wire', script⟩
          | (.panic, wire') => ⟨.panic, buf, filled, wire', script⟩
        else ⟨.panic, buf, filled, wire, a :: script⟩
      else ⟨.full, buf, filled, wire, a :: script⟩

/-- All a read loop can do, with the bytes that it read. -/
structure FillSpec (len : Nat) (buf : Bytes) (filled : Nat) (wire : Wire) (script : List ReadAnswer)
    (f : Fill) (got : Bytes) : Prop where
  wire_eq : f.wire = wire.advance got.length
  unread_eq : wire.unread = got ++ f.wire.unread
  buf_eq : f.buf.take f.filled = buf.take filled ++ got
  length_buf : f.buf.length = buf.length
  filled_eq : f.filled = filled + got.length
  filled_le : f.filled ≤ len
  script_le : f.script.length ≤ script.length
  script_lt : got ≠ [] → f.script.length < script.length
  mem_script : ∀ a ∈ f.script, a ∈ script
  no_panic : f.stop ≠ .panic
  of_full : f.stop = .full → f.filled = len
  of_not_full : f.stop ≠ .full → f.filled < len
  of_eof : f.stop = .eof → f.wire.unread = [] ∧ wire.ended = true
  of_error : ∀ e, f.stop = .error e → e = .transport ∧ .fail ∈ script

/-- **One read loop.**  Its buffer has what it had, followed by what was taken off the wire. -/
theorem fill_spec {len filled : Nat} {buf : Bytes} (wire : Wire) (script : List ReadAnswer)
    (hfilled : filled ≤ len) (hlen : len ≤ buf.length) :
    ∃ got, FillSpec len buf filled wire script (fill len buf filled wire script) got := by
  induction script generalizing buf filled wire with
  | nil =>
      refine ⟨[], ?_⟩
      by_cases hlt : filled < len
      · simp only [fill, if_pos hlt, if_pos hlen]
        constructor <;> simp_all
      · simp only [fill, if_neg hlt]
        constructor <;> simp_all
        omega
  | cons a script ih =>
      by_cases hlt : filled < len
      case neg =>
        refine ⟨[], ?_⟩
        simp only [fill, if_neg hlt]
        constructor <;> simp_all
        omega
      simp only [fill, if_pos hlt, if_pos hlen]
      have hroom : 0 < len - filled := by omega
      rcases wire.pollRead_cases a hroom with
        heq | ⟨ha, heq⟩ | ⟨hunread, hended, heq⟩ | ⟨got, rest, hgot, hunread, hle, heq⟩
      · refine ⟨[], ?_⟩
        rw [heq]
        constructor <;> simp_all
      · refine ⟨[], ?_⟩
        rw [heq]
        constructor <;> simp_all
      · refine ⟨[], ?_⟩
        rw [heq]
        constructor <;> simp_all
      · rw [heq]
        simp only [if_neg hgot]
        have hfit : filled + got.length ≤ buf.length := by omega
        have hsplice : (splice buf filled got).length = buf.length := length_splice hfit
        have hadv := Wire.read_advance hunread
        obtain ⟨more, hmore⟩ := @ih (filled + got.length) (splice buf filled got)
          (wire.advance got.length) (by omega) (by omega)
        refine ⟨got ++ more, ?_⟩
        exact {
          wire_eq := by rw [hmore.wire_eq]; simp
          unread_eq := by
            rw [hunread, ← hadv.2, hmore.unread_eq, List.append_assoc]
          buf_eq := by
            rw [hmore.buf_eq, take_splice (by omega), List.append_assoc]
          length_buf := by rw [hmore.length_buf, hsplice]
          filled_eq := by rw [hmore.filled_eq, List.length_append, Nat.add_assoc]
          filled_le := hmore.filled_le
          script_le := Nat.le_succ_of_le hmore.script_le
          script_lt := fun _ => Nat.lt_succ_of_le hmore.script_le
          mem_script := fun b hb => List.mem_cons_of_mem _ (hmore.mem_script b hb)
          no_panic := hmore.no_panic
          of_full := hmore.of_full
          of_not_full := hmore.of_not_full
          of_eof := hmore.of_eof
          of_error := fun e he =>
            ⟨(hmore.of_error e he).1, List.mem_cons_of_mem _ (hmore.of_error e he).2⟩ }

end Core
end Erbridge
